import Mathlib.Data.PNat.Basic
import Tiberius.Fields
import Tiberius.Machine.Integers
import Tiberius.Machine.Vectors
import Tiberius.Reading.Delivering
import Tiberius.SqlReadBytes

/-!
The bulk read on a buffer as it is. `read_bytes_into` extends the buffer with
zeros by one window at a time, lets the reader write into the part of the window
that is still missing, and cuts off what the end of the input has left. The
reader may hand over the bytes in any portions and keep the loop waiting between
them; as long as the buffer can be grown to every window that is opened, the
outcome is that of reading the bytes one by one.
-/

namespace Tiberius

open Reading Machine
open Stream' (Seq)

/-- `isize::MAX`, the most bytes that a vector can have. -/
def isizeMax : ℕ := 2 ^ 63 - 1

abbrev Bytes : Type := Vec UInt8 isizeMax

structure Borrowed (σ : Type) where
  src : σ
  dst : Bytes

/-- The variables of `read_bytes_into` inside of a window, which ends at `stop`. -/
structure WindowLocals where
  remaining : ℕ
  want : ℕ
  stop : ℕ
  filled : ℕ

/-- The loops of `read_bytes_into`, from the head of the inner one on, up to the
next wait. -/
def windowLoops {σ : Type} (build : Build) (pollRead : ℕ → σ → Poll Fault UInt8 σ) (cap : ℕ+)
    (locals : WindowLocals) (borrowed : Borrowed σ) :
    Polled Fault (Borrowed σ) WindowLocals Unit :=
  if locals.filled < locals.stop then
    match pollRead (locals.stop - locals.filled) borrowed.src with
    | .pending src => .pending locals { borrowed with src }
    | .broken fault src => .ready (.error fault) { borrowed with src }
    | .ready [] src =>
      .ready (.error (.error .unexpectedEof)) { src, dst := borrowed.dst.truncate locals.filled }
    | .ready (byte :: bytes) src =>
      windowLoops build pollRead cap
        { locals with filled := locals.filled + (byte :: bytes).length }
        { src, dst := borrowed.dst.overwrite locals.filled (byte :: bytes) }
  else
    let remaining := locals.remaining - locals.want
    if 0 < remaining then
      let want := min remaining cap
      let start := borrowed.dst.elems.length
      match build.plainUnsigned 64 (start + want) with
      | none => .ready (.error .panic) borrowed
      | some stop =>
        match borrowed.dst.resize stop 0 with
        | none => .ready (.error .panic) borrowed
        | some dst =>
          windowLoops build pollRead cap { remaining, want, stop, filled := start }
            { borrowed with dst }
    else .ready (.ok ()) borrowed
termination_by (locals.remaining - locals.want, locals.stop - locals.filled)
decreasing_by
  · apply Prod.Lex.right
    simp only [List.length_cons]
    omega
  · apply Prod.Lex.left
    have hcap := cap.pos
    omega

/-- `read_bytes_into`, which starts behind a window of no bytes. -/
def readBytesIntoBuffer {σ : Type} (build : Build) (pollRead : ℕ → σ → Poll Fault UInt8 σ) (len : ℕ)
    (cap : ℕ+) : Future Fault (Borrowed σ) WindowLocals Unit where
  start := { remaining := len, want := 0, stop := 0, filled := 0 }
  poll := windowLoops build pollRead cap

/-- The capacity of a buffer that has been extended by so many windows. -/
def windowCapacity (dst : Bytes) (len : ℕ) (cap : ℕ+) : ℕ → Option ℕ
  | 0 => some dst.capacity
  | windows + 1 =>
    (windowCapacity dst len cap windows).bind fun capacity =>
      growth isizeMax capacity (dst.elems.length + min len ((windows + 1) * cap))

/-- The buffer can be grown to every window that is opened. One is opened when what
stands in front of it has been read. -/
def HasRoom (dst : Bytes) (len : ℕ) (cap : ℕ+) (input : Seq UInt8) : Prop :=
  ∀ windows, windows * cap < len → (input.take (windows * cap)).length = windows * cap →
    (windowCapacity dst len cap (windows + 1)).isSome

theorem windowCapacity_isSome {dst : Bytes} {len : ℕ} {cap : ℕ+} (windows : ℕ)
    (hhalf : 2 * (dst.elems.length + min len (windows * cap)) ≤ isizeMax + 1) :
    (windowCapacity dst len cap windows).isSome := by
  induction windows with
  | zero => rfl
  | succ windows ih =>
    have hmono : windows * cap ≤ (windows + 1) * cap := Nat.mul_le_mul_right _ (Nat.le_succ _)
    obtain ⟨capacity, hcapacity⟩ := Option.isSome_iff_exists.mp (ih (by omega))
    obtain ⟨grown, hgrown⟩ := growth_of_half capacity hhalf (by decide)
    rw [windowCapacity, hcapacity, Option.bind_some, hgrown]
    rfl

theorem windowCapacity_isSome_of_le {dst : Bytes} {len : ℕ} {cap : ℕ+} {opened windows capacity : ℕ}
    (hle : opened ≤ windows) (hcapacity : windowCapacity dst len cap windows = some capacity) :
    (windowCapacity dst len cap opened).isSome := by
  induction windows generalizing capacity with
  | zero =>
    obtain rfl := Nat.le_zero.mp hle
    rfl
  | succ windows ih =>
    by_cases hlast : opened = windows + 1
    · rw [hlast, hcapacity]
      rfl
    · rw [windowCapacity, Option.bind_eq_some_iff] at hcapacity
      obtain ⟨smaller, hsmaller, -⟩ := hcapacity
      exact ih (by omega) hsmaller

/-- There is room for windows that end within half of what a vector can hold. -/
theorem hasRoom_of_half {dst : Bytes} {len : ℕ} {cap : ℕ+} {input : Seq UInt8}
    (hhalf : ∀ windows, windows * cap < len →
      (input.take (windows * cap)).length = windows * cap →
        2 * (dst.elems.length + min len ((windows + 1) * cap)) ≤ isizeMax + 1) :
    HasRoom dst len cap input :=
  fun windows hopened hthere => windowCapacity_isSome _ (hhalf windows hopened hthere)

/-- What the loops keep: the bytes that have been taken from the input stand behind
the old contents, and zeros as far as the window goes. -/
structure Filling {σ : Type} (ahead : σ → Seq UInt8) (input : Seq UInt8) (dst : Bytes) (len : ℕ)
    (cap : ℕ+) (locals : WindowLocals) (borrowed : Borrowed σ) (taken : List UInt8)
    (windows : ℕ) : Prop where
  input_eq : input = (Seq.ofList taken).append (ahead borrowed.src)
  elems : borrowed.dst.elems =
    dst.elems ++ taken ++ List.replicate (locals.stop - locals.filled) 0
  filled : locals.filled < locals.stop → locals.filled = dst.elems.length + taken.length
  count : taken.length + (locals.stop - locals.filled) + (locals.remaining - locals.want) = len
  window : taken.length + (locals.stop - locals.filled) = min len (windows * cap)
  capacity : windowCapacity dst len cap windows = some borrowed.dst.capacity

/-- How a poll leaves things: with some progress unless the first request has been
kept waiting, or with what single reads give. -/
def FillAnswers {σ : Type} (pollRead : ℕ → σ → Poll Fault UInt8 σ) (ahead : σ → Seq UInt8)
    (input : Seq UInt8) (dst : Bytes) (len : ℕ) (cap : ℕ+) (src : σ) (before : ℕ) :
    Polled Fault (Borrowed σ) WindowLocals Unit → Prop
  | .pending locals borrowed =>
    ∃ taken windows, Filling ahead input dst len cap locals borrowed taken windows ∧
      (before < taken.length ∨ before = taken.length ∧ Waits pollRead borrowed.src src)
  | .ready result borrowed =>
    (result, borrowed.dst.elems, ahead borrowed.src) =
      readSingly (.error .unexpectedEof) len dst.elems input

section Polling

variable {σ : Type} {build : Build} {pollRead : ℕ → σ → Poll Fault UInt8 σ}
  {ahead : σ → Seq UInt8} {input : Seq UInt8} {dst : Bytes} {len : ℕ} {cap : ℕ+}
  {locals : WindowLocals} {borrowed : Borrowed σ} {taken : List UInt8} {windows : ℕ}

/-- Where the end of a window overflows, a build that checks for it panics. -/
theorem windowLoops_panics (hclosed : ¬ locals.filled < locals.stop)
    (hmore : 0 < locals.remaining - locals.want)
    (hoverflow : 2 ^ 64 ≤ borrowed.dst.elems.length + min (locals.remaining - locals.want) cap) :
    windowLoops .panics pollRead cap locals borrowed = .ready (.error .panic) borrowed := by
  have hplain : Build.panics.plainUnsigned 64
      (borrowed.dst.elems.length + min (locals.remaining - locals.want) cap) = none :=
    if_neg (Nat.not_lt.mpr hoverflow)
  rw [windowLoops, if_neg hclosed]
  simp only [hmore, if_true, hplain]

/-- Where the end of the last window wraps around, the buffer is cut off instead. -/
theorem windowLoops_wraps (hclosed : ¬ locals.filled < locals.stop)
    (hmore : 0 < locals.remaining - locals.want) (hlast : locals.remaining - locals.want ≤ cap)
    (husize : locals.remaining - locals.want < 2 ^ 64)
    (hoverflow : 2 ^ 64 ≤ borrowed.dst.elems.length + (locals.remaining - locals.want)) :
    windowLoops .wraps pollRead cap locals borrowed =
      .ready (.ok ()) { borrowed with
        dst := borrowed.dst.truncate
          ((borrowed.dst.elems.length + (locals.remaining - locals.want)) % 2 ^ 64) } := by
  have hwant : min (locals.remaining - locals.want) cap = locals.remaining - locals.want :=
    Nat.min_eq_left hlast
  have hplain : Build.wraps.plainUnsigned 64
      (borrowed.dst.elems.length + (locals.remaining - locals.want)) =
        some ((borrowed.dst.elems.length + (locals.remaining - locals.want)) % 2 ^ 64) :=
    if_neg (Nat.not_lt.mpr hoverflow)
  have hfits : borrowed.dst.elems.length ≤ 2 ^ 63 - 1 :=
    Nat.le_trans borrowed.dst.length_le borrowed.dst.capacity_le
  have hcut : (borrowed.dst.elems.length + (locals.remaining - locals.want)) % 2 ^ 64 ≤
      borrowed.dst.elems.length := by omega
  have hresize : borrowed.dst.resize
      ((borrowed.dst.elems.length + (locals.remaining - locals.want)) % 2 ^ 64) 0 =
        some (borrowed.dst.truncate
          ((borrowed.dst.elems.length + (locals.remaining - locals.want)) % 2 ^ 64)) := dif_pos hcut
  rw [windowLoops, if_neg hclosed]
  simp only [hmore, if_true, hwant, hplain, hresize]
  rw [windowLoops]
  simp only [Nat.not_lt.mpr hcut, if_false, Nat.sub_self, Nat.lt_irrefl]

theorem Filling.wait {src : σ}
    (hfilling : Filling ahead input dst len cap locals borrowed taken windows)
    (hahead : ahead src = ahead borrowed.src) :
    Filling ahead input dst len cap locals { borrowed with src } taken windows where
  input_eq := by
    rw [hahead]
    exact hfilling.input_eq
  elems := hfilling.elems
  filled := hfilling.filled
  count := hfilling.count
  window := hfilling.window
  capacity := hfilling.capacity

theorem Filling.fill {src : σ} {portion : List UInt8}
    (hfilling : Filling ahead input dst len cap locals borrowed taken windows)
    (hopen : locals.filled < locals.stop)
    (hahead : ahead borrowed.src = (Seq.ofList portion).append (ahead src))
    (hportion : portion.length ≤ locals.stop - locals.filled) :
    Filling ahead input dst len cap
      { locals with filled := locals.filled + portion.length }
      { src, dst := borrowed.dst.overwrite locals.filled portion } (taken ++ portion) windows := by
  have hcount := hfilling.count
  have hwindow := hfilling.window
  have hfilled := hfilling.filled hopen
  obtain ⟨more, hmore⟩ : ∃ more, locals.stop - locals.filled = portion.length + more :=
    ⟨locals.stop - locals.filled - portion.length, by omega⟩
  have hrest : locals.stop - (locals.filled + portion.length) = more := by omega
  refine ⟨?_, ?_, ?_, ?_, ?_, hfilling.capacity⟩
  · rw [Seq.ofList_append, Seq.append_assoc, ← hahead]
    exact hfilling.input_eq
  · have hzeros : borrowed.dst.elems =
        (dst.elems ++ taken) ++ List.replicate portion.length 0 ++ List.replicate more 0 := by
      rw [hfilling.elems, hmore, List.replicate_add, ← List.append_assoc]
    have hwritten := Vec.overwrite_elems hzeros (List.length_replicate)
    rw [List.length_append, ← hfilled] at hwritten
    rw [hrest, ← List.append_assoc]
    exact hwritten
  · intro _
    change locals.filled + portion.length = _
    rw [List.length_append]
    omega
  · change _ + (locals.stop - (locals.filled + portion.length)) +
      (locals.remaining - locals.want) = len
    rw [List.length_append, hrest]
    omega
  · change _ + (locals.stop - (locals.filled + portion.length)) = _
    rw [List.length_append, hrest]
    omega

theorem Filling.between (hfilling : Filling ahead input dst len cap locals borrowed taken windows)
    (hclosed : ¬ locals.filled < locals.stop) (hmore : 0 < locals.remaining - locals.want) :
    taken.length = windows * cap ∧ windows * cap < len ∧
      borrowed.dst.elems = dst.elems ++ taken ∧
      locals.remaining - locals.want = len - windows * cap ∧
      (input.take (windows * cap)).length = windows * cap := by
  have hcount := hfilling.count
  have hwindow := hfilling.window
  have helems := hfilling.elems
  have hnone : locals.stop - locals.filled = 0 := by omega
  rw [hnone, List.replicate_zero, List.append_nil] at helems
  have htaken : taken.length = windows * cap := by omega
  refine ⟨htaken, by omega, helems, by omega, ?_⟩
  rw [← htaken, hfilling.input_eq, take_ofList_append]

theorem Filling.next_growth
    (hfilling : Filling ahead input dst len cap locals borrowed taken windows)
    (hclosed : ¬ locals.filled < locals.stop) (hmore : 0 < locals.remaining - locals.want) :
    windowCapacity dst len cap (windows + 1) = growth isizeMax borrowed.dst.capacity
      (borrowed.dst.elems.length + min (locals.remaining - locals.want) cap) := by
  obtain ⟨htaken, hlt, helems, hrest, -⟩ := hfilling.between hclosed hmore
  have hlength : borrowed.dst.elems.length = dst.elems.length + windows * cap := by
    rw [helems, List.length_append, htaken]
  have hend : min len ((windows + 1) * cap) =
      windows * cap + min (locals.remaining - locals.want) cap := by
    rw [hrest, Nat.succ_mul]
    omega
  rw [windowCapacity, hfilling.capacity, Option.bind_some, hend, hlength, Nat.add_assoc]

theorem Filling.extend (build : Build) {capacity : ℕ}
    (hfilling : Filling ahead input dst len cap locals borrowed taken windows)
    (hclosed : ¬ locals.filled < locals.stop) (hmore : 0 < locals.remaining - locals.want)
    (hcapacity : windowCapacity dst len cap (windows + 1) = some capacity) :
    ∃ stop larger,
      build.plainUnsigned 64
        (borrowed.dst.elems.length + min (locals.remaining - locals.want) cap) = some stop ∧
      borrowed.dst.resize stop 0 = some larger ∧
      Filling ahead input dst len cap
        { remaining := locals.remaining - locals.want
          want := min (locals.remaining - locals.want) cap
          stop := stop
          filled := borrowed.dst.elems.length } { borrowed with dst := larger } taken
        (windows + 1) := by
  obtain ⟨htaken, hlt, helems, hrest, -⟩ := hfilling.between hclosed hmore
  have hgrowth := (hfilling.next_growth hclosed hmore).symm.trans hcapacity
  have hbounds := growth_bounds hgrowth borrowed.dst.capacity_le
  have hfits : borrowed.dst.elems.length + min (locals.remaining - locals.want) cap < 2 ^ 64 := by
    have hmax : isizeMax < 2 ^ 64 := by decide
    omega
  obtain ⟨larger, hresize, hlarger, hzeros⟩ :=
    Vec.resize_grows (0 : UInt8) (Nat.le_add_right _ _) hgrowth
  refine ⟨_, larger, if_pos hfits, hresize, ?_⟩
  rw [Nat.add_sub_cancel_left] at hzeros
  refine ⟨hfilling.input_eq, ?_, ?_, ?_, ?_, ?_⟩
  · rw [Nat.add_sub_cancel_left, ← helems]
    exact hzeros
  · intro _
    rw [← List.length_append, ← helems]
  · simp only [Nat.add_sub_cancel_left]
    omega
  · rw [Nat.add_sub_cancel_left, htaken, hrest, Nat.succ_mul]
    omega
  · rw [hlarger]
    exact hcapacity

theorem Filling.opens (build : Build)
    (hfilling : Filling ahead input dst len cap locals borrowed taken windows)
    (hroom : HasRoom dst len cap input) (hclosed : ¬ locals.filled < locals.stop)
    (hmore : 0 < locals.remaining - locals.want) :
    ∃ stop larger,
      build.plainUnsigned 64
        (borrowed.dst.elems.length + min (locals.remaining - locals.want) cap) = some stop ∧
      borrowed.dst.resize stop 0 = some larger ∧
      Filling ahead input dst len cap
        { remaining := locals.remaining - locals.want
          want := min (locals.remaining - locals.want) cap
          stop := stop
          filled := borrowed.dst.elems.length } { borrowed with dst := larger } taken
        (windows + 1) := by
  obtain ⟨-, hlt, -, -, hthere⟩ := hfilling.between hclosed hmore
  obtain ⟨capacity, hcapacity⟩ := Option.isSome_iff_exists.mp (hroom windows hlt hthere)
  exact hfilling.extend build hclosed hmore hcapacity

theorem Filling.room_of_ended
    (hfilling : Filling ahead input dst len cap locals borrowed taken windows)
    (hended : ∀ opened, opened * cap < len →
      (input.take (opened * cap)).length = opened * cap → opened < windows) :
    HasRoom dst len cap input := by
  intro opened hopened hthere
  exact windowCapacity_isSome_of_le (hended opened hopened hthere) hfilling.capacity

theorem windowLoops_answers (build : Build) (hreader : Delivers pollRead ahead)
    (hroom : HasRoom dst len cap input)
    (hfilling : Filling ahead input dst len cap locals borrowed taken windows) :
    FillAnswers pollRead ahead input dst len cap borrowed.src taken.length
      (windowLoops build pollRead cap locals borrowed) := by
  fun_induction windowLoops build pollRead cap locals borrowed generalizing taken windows with
  | case1 locals borrowed hopen src hpoll =>
    exact ⟨taken, windows, hfilling.wait (hreader.pending hpoll), .inr ⟨rfl, _, hpoll⟩⟩
  | case2 locals borrowed hopen fault src hpoll =>
    exact absurd hpoll (hreader.served _ _ _ _)
  | case3 locals borrowed hopen src hpoll =>
    -- The input has ended inside of the window, and the zeros behind it are cut off.
    have hended := hreader.ended (by omega) hpoll
    have hahead := (hreader.ready hpoll).1
    rw [hended, Seq.ofList_nil, Seq.nil_append] at hahead
    have hinput := hfilling.input_eq
    have hcount := hfilling.count
    have hfilled := hfilling.filled hopen
    obtain ⟨more, hmore⟩ : ∃ more, len = taken.length + (more + 1) :=
      ⟨len - taken.length - 1, by omega⟩
    rw [hended] at hinput
    have hcut : (borrowed.dst.truncate locals.filled).elems = dst.elems ++ taken := by
      rw [hfilled, ← List.length_append]
      exact Vec.truncate_elems hfilling.elems
    simp only [FillAnswers, hcut]
    rw [hinput, hmore, readSingly_append, readSingly_nil _ (Nat.succ_pos more), ← hahead]
  | case4 locals borrowed hopen byte bytes src hpoll ih =>
    obtain ⟨hahead, hportion⟩ := hreader.ready hpoll
    have hanswers := ih (hfilling.fill hopen hahead hportion)
    generalize windowLoops build pollRead cap _ _ = polled at hanswers ⊢
    cases polled with
    | ready result last => exact hanswers
    | pending locals last =>
      obtain ⟨taken', windows', hkeeps, hprogress⟩ := hanswers
      refine ⟨taken', windows', hkeeps, .inl ?_⟩
      simp only [List.length_append, List.length_cons] at hprogress
      omega
  | case5 locals borrowed hclosed remaining hmore want =>
    rename_i start hstop
    obtain ⟨stop, larger, hplain, -⟩ := hfilling.opens build hroom hclosed hmore
    cases hstop.symm.trans hplain
  | case6 locals borrowed hclosed remaining hmore want start stop =>
    rename_i hstop hresize
    obtain ⟨stop', larger, hplain, hlarger, -⟩ := hfilling.opens build hroom hclosed hmore
    obtain rfl := Option.some.inj (hstop.symm.trans hplain)
    cases hresize.symm.trans hlarger
  | case7 locals borrowed hclosed remaining hmore want start stop hstop extended =>
    rename_i hresize ih
    obtain ⟨stop', larger, hplain, hlarger, hnext⟩ := hfilling.opens build hroom hclosed hmore
    obtain rfl := Option.some.inj (hstop.symm.trans hplain)
    obtain rfl := Option.some.inj (hresize.symm.trans hlarger)
    exact ih hnext
  | case8 locals borrowed hclosed remaining =>
    rename_i hend
    have hcount := hfilling.count
    have helems := hfilling.elems
    have hnone : locals.stop - locals.filled = 0 := by omega
    rw [hnone, List.replicate_zero, List.append_nil] at helems
    have hlen : len = taken.length + 0 := by omega
    simp only [FillAnswers, helems]
    rw [hfilling.input_eq, hlen, readSingly_append]
    rfl

/-- One poll of the bulk read in a build that checks for overflow: it panics exactly if
the buffer cannot be grown. -/
theorem windowLoops_panic_iff (hreader : Delivers pollRead ahead)
    (hfilling : Filling ahead input dst len cap locals borrowed taken windows) :
    match windowLoops .panics pollRead cap locals borrowed with
    | .pending locals' borrowed' =>
      ∃ taken windows, Filling ahead input dst len cap locals' borrowed' taken windows
    | .ready result _ => result = .error .panic ↔ ¬ HasRoom dst len cap input := by
  fun_induction windowLoops .panics pollRead cap locals borrowed generalizing taken windows with
  | case1 locals borrowed hopen src hpoll =>
    exact ⟨taken, windows, hfilling.wait (hreader.pending hpoll)⟩
  | case2 locals borrowed hopen fault src hpoll =>
    exact absurd hpoll (hreader.served _ _ _ _)
  | case3 locals borrowed hopen src hpoll =>
    have hinput := hfilling.input_eq
    have hwindow := hfilling.window
    rw [hreader.ended (by omega) hpoll, Seq.append_nil] at hinput
    have hroom : HasRoom dst len cap input := by
      refine hfilling.room_of_ended ?_
      intro opened hopened hthere
      rw [hinput, take_ofList, List.length_take] at hthere
      exact Nat.lt_of_mul_lt_mul_right (show opened * cap < windows * cap by omega)
    exact ⟨nofun, fun hnone => absurd hroom hnone⟩
  | case4 locals borrowed hopen byte bytes src hpoll ih =>
    obtain ⟨hahead, hportion⟩ := hreader.ready hpoll
    exact ih (hfilling.fill hopen hahead hportion)
  | case5 locals borrowed hclosed remaining hmore want =>
    rename_i start hstop
    refine ⟨fun _ hroom => ?_, fun _ => rfl⟩
    obtain ⟨stop, larger, hplain, -⟩ := hfilling.opens .panics hroom hclosed hmore
    cases hstop.symm.trans hplain
  | case6 locals borrowed hclosed remaining hmore want start stop =>
    rename_i hstop hresize
    refine ⟨fun _ hroom => ?_, fun _ => rfl⟩
    obtain ⟨stop', larger, hplain, hlarger, -⟩ := hfilling.opens .panics hroom hclosed hmore
    obtain rfl := Option.some.inj (hstop.symm.trans hplain)
    cases hresize.symm.trans hlarger
  | case7 locals borrowed hclosed remaining hmore want start stop hstop extended =>
    rename_i hresize ih
    obtain rfl := Build.plainUnsigned_panics hstop
    cases hcapacity : windowCapacity dst len cap (windows + 1) with
    | none =>
      rw [hfilling.next_growth hclosed hmore] at hcapacity
      cases hresize.symm.trans (Vec.resize_none 0 hcapacity)
    | some capacity =>
      obtain ⟨stop', larger, hplain, hlarger, hnext⟩ :=
        hfilling.extend .panics hclosed hmore hcapacity
      obtain rfl := Option.some.inj (hstop.symm.trans hplain)
      obtain rfl := Option.some.inj (hresize.symm.trans hlarger)
      exact ih hnext
  | case8 locals borrowed hclosed remaining =>
    rename_i hend
    have hcount := hfilling.count
    have hwindow := hfilling.window
    have hroom : HasRoom dst len cap input := by
      refine hfilling.room_of_ended ?_
      intro opened hopened _
      exact Nat.lt_of_mul_lt_mul_right (show opened * cap < windows * cap by omega)
    exact ⟨nofun, fun hnone => absurd hroom hnone⟩

theorem completes_singly (hreader : Delivers pollRead ahead) (hroom : HasRoom dst len cap input)
    (hfilling : Filling ahead input dst len cap locals borrowed taken windows)
    {result : Except Fault Unit} {last : Borrowed σ}
    (hcompletes :
      (readBytesIntoBuffer build pollRead len cap).Completes locals borrowed result last) :
    (result, last.dst.elems, ahead last.src) =
      readSingly (.error .unexpectedEof) len dst.elems input := by
  refine hcompletes.ends_of_keeps
    (fun locals borrowed => ∃ taken windows,
      Filling ahead input dst len cap locals borrowed taken windows)
    (fun result last => (result, last.dst.elems, ahead last.src) =
      readSingly (.error .unexpectedEof) len dst.elems input) ?_ ?_ ⟨taken, windows, hfilling⟩
  · intro locals borrowed locals' borrowed' hkeeps hpoll
    obtain ⟨taken, windows, hkeeps⟩ := hkeeps
    have hanswers := windowLoops_answers build hreader hroom hkeeps
    rw [show windowLoops build pollRead cap locals borrowed = _ from hpoll] at hanswers
    obtain ⟨taken', windows', hnext, -⟩ := hanswers
    exact ⟨taken', windows', hnext⟩
  · intro locals borrowed result last hkeeps hpoll
    obtain ⟨taken, windows, hkeeps⟩ := hkeeps
    have hanswers := windowLoops_answers build hreader hroom hkeeps
    rw [show windowLoops build pollRead cap locals borrowed = _ from hpoll] at hanswers
    exact hanswers

/-- A poll that keeps its reader waiting has brought it further, or has found the
source waiting, so a source that does not wait for ever lets the read complete. -/
theorem completes_of_patient (hreader : Delivers pollRead ahead)
    (hroom : HasRoom dst len cap input) (hpatient : WellFounded (Waits pollRead)) (missing : ℕ)
    (hfilling : Filling ahead input dst len cap locals borrowed taken windows)
    (hmissing : len - taken.length = missing) :
    ∃ result last,
      (readBytesIntoBuffer build pollRead len cap).Completes locals borrowed result last := by
  induction missing using Nat.strong_induction_on generalizing locals borrowed taken windows with
  | h missing ih =>
    generalize hsrc : borrowed.src = src
    induction src using hpatient.induction generalizing locals borrowed taken windows with
    | h src ihsrc =>
      have hanswers := windowLoops_answers build hreader hroom hfilling
      cases hpoll : windowLoops build pollRead cap locals borrowed with
      | ready result last => exact ⟨result, last, .ready hpoll⟩
      | pending locals' borrowed' =>
        rw [hpoll] at hanswers
        obtain ⟨taken', windows', hkeeps, hprogress⟩ := hanswers
        have hcount := hkeeps.count
        have hlater : ∃ result last,
            (readBytesIntoBuffer build pollRead len cap).Completes locals' borrowed' result
              last := by
          cases hprogress with
          | inl hmore => exact ih (len - taken'.length) (by omega) hkeeps rfl
          | inr hsame =>
            rw [hsrc] at hsame
            exact ihsrc borrowed'.src hsame.2 hkeeps (by omega) rfl
        obtain ⟨result, last, hcompletes⟩ := hlater
        exact ⟨result, last, .pending hpoll hcompletes⟩

end Polling

theorem Filling.start {σ : Type} (ahead : σ → Seq UInt8) (build : Build)
    (pollRead : ℕ → σ → Poll Fault UInt8 σ) (len : ℕ) (cap : ℕ+) (borrowed : Borrowed σ) :
    Filling ahead (ahead borrowed.src) borrowed.dst len cap
      (readBytesIntoBuffer build pollRead len cap).start borrowed [] 0 where
  input_eq := (Seq.nil_append _).symm
  elems := by
    change _ = borrowed.dst.elems ++ [] ++ []
    rw [List.append_nil, List.append_nil]
  filled := fun hopen => absurd hopen (Nat.lt_irrefl 0)
  count := Nat.zero_add len
  window := by
    rw [Nat.zero_mul, Nat.min_zero]
    rfl
  capacity := rfl

/-- Polled until it completes, `read_bytes_into` has appended the next `len` bytes, or
all there were before the end of the input, and has taken no other byte: what the
loop of single reads does. -/
structure LikeSingleReads {σ : Type} (build : Build) (pollRead : ℕ → σ → Poll Fault UInt8 σ)
    (ahead : σ → Seq UInt8) (len : ℕ) (cap : ℕ+) (borrowed : Borrowed σ) : Prop where
  whole : ∀ {last : Borrowed σ},
    (readBytesIntoBuffer build pollRead len cap).Returns borrowed (.ok ()) last →
    ∃ value, value.length = len ∧ last.dst.elems = borrowed.dst.elems ++ value ∧
      ahead borrowed.src = (Seq.ofList value).append (ahead last.src)
  ended : ∀ {fault : Fault} {last : Borrowed σ},
    (readBytesIntoBuffer build pollRead len cap).Returns borrowed (.error fault) last →
    fault = .error .unexpectedEof ∧ ∃ value, value.length < len ∧
      last.dst.elems = borrowed.dst.elems ++ value ∧ ahead borrowed.src = Seq.ofList value ∧
      ahead last.src = .nil
  singly : ∀ {result : Except Fault Unit} {last : Borrowed σ},
    (readBytesIntoBuffer build pollRead len cap).Returns borrowed result last →
    (result, last.dst.elems, ahead last.src) =
      readSingly (.error .unexpectedEof) len borrowed.dst.elems (ahead borrowed.src)
  completes : WellFounded (Waits pollRead) →
    ∃ result last, (readBytesIntoBuffer build pollRead len cap).Returns borrowed result last

/-- A reader of given bytes that hands out a few of them at a time. -/
def chunkedReader (chunk : ℕ+) (count : ℕ) (data : List UInt8) : Poll Fault UInt8 (List UInt8) :=
  .ready (data.take (min count chunk)) (data.drop (min count chunk))

theorem chunkedReader_delivers (chunk : ℕ+) : Delivers (chunkedReader chunk) Seq.ofList where
  ready := by
    intro count data data' symbols hpoll
    obtain ⟨rfl, rfl⟩ := Poll.ready.inj hpoll
    rw [← Seq.ofList_append, List.take_append_drop, List.length_take]
    exact ⟨rfl, by omega⟩
  ended := by
    intro count data data' hcount hpoll
    have hchunk := chunk.pos
    have hnil := congrArg List.length (Poll.ready.inj hpoll).1
    rw [List.length_take, List.length_nil] at hnil
    rw [List.length_eq_zero_iff.mp (show data.length = 0 by omega), Seq.ofList_nil]
  pending := by
    intro count data data' hpoll
    cases hpoll
  served := by
    intro count data fault data' hpoll
    cases hpoll

/-- Whatever portions the reader delivers, the bulk read does what single reads do, as
long as the buffer can be grown to every window that is opened. -/
theorem read_bytes_into_exact {σ : Type} (build : Build) {pollRead : ℕ → σ → Poll Fault UInt8 σ}
    {ahead : σ → Seq UInt8} (hreader : Delivers pollRead ahead) (len : ℕ) (cap : ℕ+)
    (borrowed : Borrowed σ) (hroom : HasRoom borrowed.dst len cap (ahead borrowed.src)) :
    LikeSingleReads build pollRead ahead len cap borrowed := by
  have hsingly : ∀ {result : Except Fault Unit} {last : Borrowed σ},
      (readBytesIntoBuffer build pollRead len cap).Returns borrowed result last →
      (result, last.dst.elems, ahead last.src) =
        readSingly (.error .unexpectedEof) len borrowed.dst.elems (ahead borrowed.src) :=
    fun hreturns => completes_singly hreader hroom
      (Filling.start ahead build pollRead len cap borrowed) hreturns
  constructor
  · exact fun hreturns => readSingly_ok (hsingly hreturns)
  · intro fault last hreturns
    obtain ⟨value, helems, hinput, hends⟩ := readSingly_eq (hsingly hreturns)
    cases hends with
    | inl hdone => cases hdone.1
    | inr hshort =>
      obtain ⟨hfault, hlength, hnil⟩ := hshort
      rw [hnil, Seq.append_nil] at hinput
      exact ⟨Except.error.inj hfault, value, hlength, helems, hinput, hnil⟩
  · exact hsingly
  · intro hpatient
    exact completes_of_patient hreader hroom hpatient len
      (Filling.start ahead build pollRead len cap borrowed) rfl

/-- Ten bytes are asked for where three are left, in windows of four and portions of two. -/
theorem read_bytes_into_exact_truncated :
    LikeSingleReads .wraps (chunkedReader 2) Seq.ofList 10 4
      ⟨[1, 2, 3], .ofList [0xDE] (by decide)⟩ :=
  read_bytes_into_exact .wraps (chunkedReader_delivers 2) 10 4 _ (hasRoom_of_half (by
    intro windows hwindows hthere
    change 2 * (1 + min 10 ((windows + 1) * 4)) ≤ 2 ^ 63 - 1 + 1
    omega))

/-- The end of the first window does not fit in `usize`: one build panics, and the other
returns `Ok` from an empty input, with the old contents cut off. -/
theorem window_end_overflows :
    ¬ LikeSingleReads .panics (chunkedReader 1) Seq.ofList 0xFFFFFFFFFFFFFFFF 0xFFFFFFFFFFFFFFFF
      ⟨[], .ofList [0xDE] (by decide)⟩ ∧
    ¬ LikeSingleReads .wraps (chunkedReader 1) Seq.ofList 0xFFFFFFFFFFFFFFFF 0xFFFFFFFFFFFFFFFF
      ⟨[], .ofList [0xDE] (by decide)⟩ := by
  constructor
  · intro hreads
    cases (hreads.ended
      (.ready (windowLoops_panics (by decide) (by decide) (by decide)))).1
  · intro hreads
    obtain ⟨value, hlength, helems, -⟩ := hreads.whole
      (.ready (windowLoops_wraps (by decide) (by decide) (by decide) (by decide) (by decide)))
    cases helems

/-- In a build that checks for overflow there is no other way to fail. -/
theorem read_bytes_into_panics_iff {σ : Type} {pollRead : ℕ → σ → Poll Fault UInt8 σ}
    {ahead : σ → Seq UInt8} (hreader : Delivers pollRead ahead) {len : ℕ} {cap : ℕ+}
    {borrowed last : Borrowed σ} {result : Except Fault Unit}
    (hreturns : (readBytesIntoBuffer .panics pollRead len cap).Returns borrowed result last) :
    result = .error .panic ↔ ¬ HasRoom borrowed.dst len cap (ahead borrowed.src) := by
  refine Future.Completes.ends_of_keeps
    (fun locals now => ∃ taken windows,
      Filling ahead (ahead borrowed.src) borrowed.dst len cap locals now taken windows)
    (fun result _ => result = .error .panic ↔ ¬ HasRoom borrowed.dst len cap (ahead borrowed.src))
    ?_ ?_ hreturns ⟨[], 0, Filling.start ahead .panics pollRead len cap borrowed⟩
  · intro locals now locals' now' hkeeps hpoll
    obtain ⟨taken, windows, hkeeps⟩ := hkeeps
    have hanswers := windowLoops_panic_iff hreader hkeeps
    rw [show windowLoops .panics pollRead cap locals now = _ from hpoll] at hanswers
    exact hanswers
  · intro locals now result last hkeeps hpoll
    obtain ⟨taken, windows, hkeeps⟩ := hkeeps
    have hanswers := windowLoops_panic_iff hreader hkeeps
    rw [show windowLoops .panics pollRead cap locals now = _ from hpoll] at hanswers
    exact hanswers

/-- A connection that stays open, and the packets that come in whenever its reader has
to wait. -/
structure Arriving where
  conn : Connection
  arrivals : List (List Packet)
  silent : conn.transport.ending = .silent

namespace Arriving

theorem silent_pollRead (self : Arriving) (count : ℕ) :
    (self.conn.pollRead count).source.transport.ending = .silent := by
  have hreads : (self.conn.pollRead count).source = _ := Connection.pollRead_reads count self.conn
  rw [hreads]
  exact self.silent

def pollRead (count : ℕ) (self : Arriving) : Poll Fault UInt8 Arriving :=
  match hpoll : self.conn.pollRead count with
  | .ready bytes conn =>
    .ready bytes
      { conn, arrivals := self.arrivals, silent := by
          have hsilent := self.silent_pollRead count
          rwa [hpoll] at hsilent }
  | .pending conn =>
    .pending
      { conn := conn.arrive (self.arrivals.headD []) .silent
        arrivals := self.arrivals.tail
        silent := rfl }
  | .broken fault conn =>
    .broken fault
      { conn, arrivals := self.arrivals, silent := by
          have hsilent := self.silent_pollRead count
          rwa [hpoll] at hsilent }

def ahead (self : Arriving) : Seq UInt8 := Seq.ofList (self.conn.toCome self.arrivals.flatten)

theorem pollRead_delivers : Delivers pollRead ahead where
  ready := by
    intro count self self' symbols hpoll
    unfold pollRead at hpoll
    split at hpoll
    · rename_i bytes conn hconn
      cases hpoll
      obtain ⟨hunread, hlength⟩ := Connection.pollRead_shows.ready hconn
      refine ⟨?_, Nat.le_of_eq hlength⟩
      rw [ahead, ahead, Connection.toCome, hunread, List.append_assoc, Seq.ofList_append]
      rfl
    · cases hpoll
    · cases hpoll
  ended := by
    intro count self self' hcount hpoll
    unfold pollRead at hpoll
    split at hpoll
    · rename_i bytes conn hconn
      cases hpoll
      have hlength := (Connection.pollRead_shows.ready hconn).2
      rw [List.length_nil] at hlength
      omega
    · cases hpoll
    · cases hpoll
  pending := by
    intro count self self' hpoll
    unfold pollRead at hpoll
    split at hpoll
    · cases hpoll
    · rename_i conn hconn
      have hsilent : conn.transport.ending = .silent := by
        have hsource := self.silent_pollRead count
        rwa [hconn] at hsource
      cases hpoll
      have hunread := Connection.pollRead_shows.pending hconn
      have hgrown := ((Connection.pollRead_grows conn.context).grown (self.arrivals.headD [])
        ⟨hsilent, rfl⟩).2
      simp only [ahead, Connection.toCome]
      rw [hgrown, hunread, List.append_assoc, ← List.flatMap_append, ← List.flatten_cons]
      cases self.arrivals with
      | nil => rfl
      | cons packets rest => rfl
    · cases hpoll
  served := by
    intro count self fault self' hpoll
    unfold pollRead at hpoll
    split at hpoll
    · cases hpoll
    · cases hpoll
    · rename_i fault conn hconn
      exact Connection.pollRead_silent self.silent _ _ hconn

end Arriving

/-- Over a connection the bulk read gives what the decoders read from contiguous bytes. -/
theorem read_bytes_into_arriving (build : Build) (len : ℕ) (cap : ℕ+) {arriving : Arriving}
    {dst : Bytes} (hroom : HasRoom dst len cap arriving.ahead) {last : Borrowed Arriving}
    (hreturns : (readBytesIntoBuffer build Arriving.pollRead len cap).Returns ⟨arriving, dst⟩
      (.ok ()) last)
    (context : Context) :
    ∃ value, last.dst.elems = dst.elems ++ value ∧
      (Reader.readBytesInto len cap).run context (arriving.conn.toCome arriving.arrivals.flatten) =
        .done value (last.src.conn.toCome last.src.arrivals.flatten) := by
  obtain ⟨value, hlength, helems, hahead⟩ := readSingly_ok <|
    completes_singly Arriving.pollRead_delivers hroom
      (Filling.start Arriving.ahead build Arriving.pollRead len cap ⟨arriving, dst⟩) hreturns
  refine ⟨value, helems, ?_⟩
  have hbytes : arriving.conn.toCome arriving.arrivals.flatten =
      value ++ last.src.conn.toCome last.src.arrivals.flatten := by
    apply Seq.ofList_injective
    rw [Seq.ofList_append]
    exact hahead
  have hcontiguous : (Reader.readBytesInto len cap).Reads context value value :=
    (readBytesInto_reads cap.pos).mpr ⟨hlength, rfl⟩
  rw [hbytes]
  exact hcontiguous.run_append _

end Tiberius

import Tiberius.Reading.Polling
import Tiberius.Unread

/-!
The readers of the wire as futures. A reader of a fixed width keeps the bytes it
has been given between polls; a reader of text keeps its length and the units
read so far, but makes a new reader for every unit on every poll and drops it
when it has to wait; a bulk read keeps its place in a window. The decoders read
the same values from contiguous bytes, each with one request.
-/

namespace Tiberius

open Reading

/-- A reader of the `bytes_reader!` family: how many bytes its type takes, and
the value of that many bytes. -/
structure BytesReader (α : Type) where
  bytes : ℕ
  reader : List UInt8 → α
  bytes_pos : 0 < bytes

namespace BytesReader

variable {α : Type}

/-- The value as a decoder reads it. -/
def contiguous (self : BytesReader α) : Reader α := .read self.bytes fun bytes =>
  .ret (self.reader bytes)

/-- The read loop of a poll. Every turn takes at least one byte, so a turn more
than there are bytes is enough. -/
def pollLoop (self : BytesReader α) :
    ℕ → List UInt8 → Connection → Polled Fault Connection (List UInt8) α
  | 0, read, conn => .ready (.ok (self.reader read)) conn
  | fuel + 1, read, conn =>
    if read.length < self.bytes then
      match conn.pollRead (self.bytes - read.length) with
      | .pending conn => .pending read conn
      | .broken fault conn => .ready (.error fault) conn
      | .ready [] conn => .ready (.error (.error .unexpectedEof)) conn
      | .ready taken conn => pollLoop self fuel (read ++ taken) conn
    else .ready (.ok (self.reader read)) conn

def future (self : BytesReader α) : Future Fault Connection (List UInt8) α where
  start := []
  poll := self.pollLoop (self.bytes + 1)

end BytesReader

def getU128Le (bytes : List UInt8) : ℕ := leNat bytes % 2 ^ 128

/-- The number of 128 bits in two's complement. -/
def getI128Le (bytes : List UInt8) : ℤ :=
  if getU128Le bytes < 2 ^ 127 then getU128Le bytes else (getU128Le bytes : ℤ) - 2 ^ 128

namespace BytesReader

def readI8 : BytesReader Int8 := ⟨1, fun bytes => (UInt8.ofNat (leNat bytes)).toInt8, by decide⟩

def readU8 : BytesReader UInt8 := ⟨1, fun bytes => UInt8.ofNat (leNat bytes), by decide⟩

def readU32Be : BytesReader UInt32 := ⟨4, fun bytes => UInt32.ofNat (beNat bytes), by decide⟩

def readU16Le : BytesReader UInt16 := ⟨2, getU16Le, by decide⟩

def readU32Le : BytesReader UInt32 := ⟨4, getU32Le, by decide⟩

def readU64Le : BytesReader UInt64 := ⟨8, getU64Le, by decide⟩

def readU128Le : BytesReader ℕ := ⟨16, getU128Le, by decide⟩

def readI16Le : BytesReader Int16 := ⟨2, fun bytes => (getU16Le bytes).toInt16, by decide⟩

def readI32Le : BytesReader Int32 := ⟨4, fun bytes => (getU32Le bytes).toInt32, by decide⟩

def readI64Le : BytesReader Int64 := ⟨8, fun bytes => (getU64Le bytes).toInt64, by decide⟩

def readI128Le : BytesReader ℤ := ⟨16, getI128Le, by decide⟩

/-- A float is its bit pattern. -/
def readF32 : BytesReader UInt32 := readU32Be

def readF64 : BytesReader UInt64 := ⟨8, fun bytes => UInt64.ofNat (beNat bytes), by decide⟩

def readF32Le : BytesReader UInt32 := readU32Le

def readF64Le : BytesReader UInt64 := readU64Le

end BytesReader

/-- What a reader of text keeps between polls. -/
structure VarcharState where
  length : Option ℕ
  buf : List UInt16
  read : ℕ

namespace VarcharState

/-- The text of the units read, once there are enough of them. -/
def finish (state : VarcharState) (conn : Connection) :
    Polled Fault Connection VarcharState String :=
  match fromUtf16 state.buf with
  | some text => .ready (.ok text) conn
  | none => .ready (.error (.error (.io .invalidData "Invalid UTF-16 data."))) conn

/-- The unit loop of a poll; a reader that has to wait is dropped with whatever
it has read. -/
def pollUnits (len : ℕ) :
    ℕ → VarcharState → Connection → Polled Fault Connection VarcharState String
  | 0, state, conn => state.finish conn
  | fuel + 1, state, conn =>
    if state.read < len then
      match BytesReader.readU16Le.future.poll BytesReader.readU16Le.future.start conn with
      | .pending _ conn => .pending state conn
      | .ready (.error fault) conn => .ready (.error fault) conn
      | .ready (.ok unit) conn =>
        pollUnits len fuel { state with buf := state.buf ++ [unit], read := state.read + 1 } conn
    else state.finish conn

/-- A poll of the `varchar_reader!` family. -/
def poll {α : Type} (lengthReader : BytesReader α) (toUsize : α → ℕ) (state : VarcharState)
    (conn : Connection) : Polled Fault Connection VarcharState String :=
  let withLength (len : ℕ) (state : VarcharState) (conn : Connection) :=
    if state.read = len then state.finish conn else pollUnits len len state conn
  match state.length with
  | some len => withLength len state conn
  | none =>
    match lengthReader.future.poll lengthReader.future.start conn with
    | .pending _ conn => .pending state conn
    | .ready (.error fault) conn => .ready (.error fault) conn
    | .ready (.ok length) conn =>
      withLength (toUsize length) { state with length := some (toUsize length), buf := [] } conn

end VarcharState

/-- A future of the `varchar_reader!` family. -/
def varcharReader {α : Type} (lengthReader : BytesReader α) (toUsize : α → ℕ) :
    Future Fault Connection VarcharState String where
  start := { length := none, buf := [], read := 0 }
  poll := VarcharState.poll lengthReader toUsize

def readBVarcharFuture : Future Fault Connection VarcharState String :=
  varcharReader .readU8 UInt8.toNat

def readUSVarcharFuture : Future Fault Connection VarcharState String :=
  varcharReader .readU16Le UInt16.toNat

/-- What a bulk read keeps while it waits: what it has filled, the size of the
window it is in, how much of the window is missing, and how much of the value
the window and what follows it make up. -/
structure FillState where
  dst : List UInt8
  want : ℕ
  missing : ℕ
  remaining : ℕ

namespace FillState

/-- The loops of `read_bytes_into`. A turn fills some of a window or opens the
next one, which holds at least one byte. -/
def pollLoop (cap : ℕ) :
    ℕ → FillState → Connection → Polled Fault Connection FillState (List UInt8)
  | 0, state, conn => .ready (.ok state.dst) conn
  | fuel + 1, state, conn =>
    if 0 < state.missing then
      match conn.pollRead state.missing with
      | .pending conn => .pending state conn
      | .broken fault conn => .ready (.error fault) conn
      | .ready [] conn => .ready (.error (.error .unexpectedEof)) conn
      | .ready taken conn =>
        pollLoop cap fuel
          { state with dst := state.dst ++ taken, missing := state.missing - taken.length } conn
    else
      let remaining := state.remaining - state.want
      if remaining = 0 then .ready (.ok state.dst) conn
      else
        let want := min remaining cap
        pollLoop cap fuel
          { dst := state.dst, want := want, missing := want, remaining := remaining } conn

end FillState

/-- `read_bytes_into`: `len` bytes behind those of `dst`. -/
def readBytesIntoFuture (dst : List UInt8) (len cap : ℕ) :
    Future Fault Connection FillState (List UInt8) where
  start := { dst := dst, want := 0, missing := 0, remaining := len }
  poll state conn := FillState.pollLoop cap (2 * state.remaining + 2) state conn

namespace Connection

/-- The connection as a source that grows by the packets that arrive. Reading
changes neither its context nor what follows the packets. -/
theorem pollRead_grows (context : Context) :
    Grows pollRead unread (fun conn => conn.transport.ending = .silent ∧ conn.context = context)
      (fun conn packets => conn.arrive packets .silent) (List.flatMap Packet.payload) where
  shows := pollRead_shows
  kept := by
    intro count conn hkept
    have hreads : (pollRead count conn).source = _ := pollRead_reads count conn
    rw [hreads]
    exact hkept
  served := fun count conn fault after hkept => pollRead_silent hkept.1 fault after
  waits := by
    intro count conn after hpoll
    obtain ⟨hinbound, hshort⟩ := pollRead_pending hpoll
    rw [unread, hinbound, List.flatMap_nil, List.append_nil]
    exact hshort
  grown := by
    intro conn packets hkept
    refine ⟨⟨rfl, hkept.2⟩, ?_⟩
    change conn.buf ++ (conn.transport.inbound ++ packets).flatMap Packet.payload = _
    rw [List.flatMap_append, ← List.append_assoc]
    rfl

end Connection

/-- Polled over a connection that stays open, a future returns what a decoder
reads from all the bytes together, and what is left are the bytes behind it. -/
def ReadsAs {τ α : Type} (future : Future Fault Connection τ α) (reader : Reader α) : Prop :=
  ∀ (conn : Connection) (arrivals : List (List Packet)), conn.transport.ending = .silent →
    let outcome := reader.run conn.context (conn.toCome arrivals.flatten)
    let answer := future.pollAll (fun conn packets => conn.arrive packets .silent) future.start
      conn arrivals
    (∀ value rest, outcome = .done value rest → ∃ after,
      answer.1 = .ready (.ok value) after ∧ after.toCome answer.2.flatten = rest ∧
        after.transport.ending = .silent ∧ after.context = conn.context) ∧
    ∀ fault rest, outcome = .failed fault rest → ∃ after,
      answer.1 = .ready (.error fault) after ∧ after.toCome answer.2.flatten = rest ∧
        after.transport.ending = .silent ∧ after.context = conn.context

theorem readsAs_of_follows {τ α : Type} {future : Future Fault Connection τ α} {reader : Reader α}
    {StandsFor : τ → Reader α → Prop}
    (hfollows : ∀ context, Follows future Connection.pollRead context StandsFor)
    (hstart : StandsFor future.start reader) : ReadsAs future reader := by
  intro conn arrivals hsilent
  have hanswers := (Connection.pollRead_grows conn.context).pollAll_answers
    (hfollows conn.context) arrivals hstart ⟨hsilent, rfl⟩
  have htoCome : ∀ (conn : Connection) (packets : List (List Packet)),
      conn.unread ++ packets.flatMap (List.flatMap Packet.payload) =
        conn.toCome packets.flatten := by
    intro conn packets
    rw [Connection.toCome, ← List.flatMap_id, List.flatMap_assoc]
    rfl
  rw [htoCome] at hanswers
  constructor
  · intro value rest houtcome
    rw [houtcome] at hanswers
    obtain ⟨after, hready, ⟨hending, hcontext⟩, hrest⟩ := hanswers
    rw [htoCome] at hrest
    exact ⟨after, hready, hrest, hending, hcontext⟩
  · intro fault rest houtcome
    rw [houtcome] at hanswers
    obtain ⟨after, hready, ⟨hending, hcontext⟩, hrest⟩ := hanswers
    rw [htoCome] at hrest
    exact ⟨after, hready, hrest, hending, hcontext⟩

namespace BytesReader

variable {α : Type} (self : BytesReader α)

/-- A connection hands over all the bytes or none, so a poll keeps nothing. -/
theorem future_poll (conn : Connection) :
    self.future.poll [] conn =
      match conn.pollRead self.bytes with
      | .ready taken conn => .ready (.ok (self.reader taken)) conn
      | .pending conn => .pending [] conn
      | .broken fault conn => .ready (.error fault) conn := by
  have hpos := self.bytes_pos
  change self.pollLoop (self.bytes + 1) [] conn = _
  rw [pollLoop, List.length_nil, Nat.sub_zero, if_pos hpos]
  cases hpoll : conn.pollRead self.bytes with
  | pending after => rfl
  | broken fault after => rfl
  | ready taken after =>
    have hlength := (Connection.pollRead_shows.ready hpoll).2
    obtain ⟨more, hmore⟩ : ∃ more, self.bytes = more + 1 := ⟨self.bytes - 1, by omega⟩
    cases taken with
    | nil =>
      rw [List.length_nil] at hlength
      omega
    | cons byte rest =>
      have hnot : ¬([] ++ byte :: rest).length < self.bytes := by
        rw [List.nil_append, hlength]
        exact Nat.lt_irrefl _
      simp only
      rw [hmore, pollLoop, if_neg hnot, List.nil_append]

theorem future_follows (context : Context) :
    Follows self.future Connection.pollRead context
      fun state p => state = [] ∧ p = self.contiguous := by
  rintro state p conn ⟨rfl, rfl⟩
  rw [future_poll, contiguous, Program.drive]
  cases conn.pollRead self.bytes with
  | ready taken after => rfl
  | pending after => exact ⟨[], rfl, rfl, rfl⟩
  | broken fault after => rfl

end BytesReader

/-- The text of units. -/
def textOf (units : List UInt16) : Reader String :=
  match fromUtf16 units with
  | some text => .ret text
  | none => Reader.reject (.io .invalidData "Invalid UTF-16 data.")

/-- What is left of reading text behind the units in `buf`. -/
def unitsRest (buf : List UInt16) (count : ℕ) : Reader String :=
  (Reader.readU16Le.times count).bind fun units => textOf (buf ++ units)

theorem readVarchar_eq (count : ℕ) : Reader.readVarchar count = unitsRest [] count := rfl

theorem unitsRest_zero (buf : List UInt16) : unitsRest buf 0 = textOf buf := by
  change textOf (buf ++ []) = _
  rw [List.append_nil]

theorem unitsRest_succ (buf : List UInt16) (count : ℕ) :
    unitsRest buf (count + 1) =
      .read 2 fun bytes => unitsRest (buf ++ [getU16Le bytes]) count := by
  rw [unitsRest, Program.times, Program.bind_assoc]
  change Program.read 2 _ = _
  congr 1
  funext bytes
  change (((Reader.readU16Le.times count).bind fun units =>
    Program.ret (getU16Le bytes :: units)).bind fun units => textOf (buf ++ units)) = _
  rw [Program.bind_assoc, unitsRest]
  congr 1
  funext units
  rw [List.append_assoc]
  rfl

namespace VarcharState

/-- The program a state of a text reader stands for. -/
def StandsFor (state : VarcharState) (p : Reader String) : Prop :=
  ∃ len count, state.length = some len ∧ state.read + count = len ∧
    p = unitsRest state.buf count

theorem finish_matches {state : VarcharState} {R : VarcharState → Reader String → Prop}
    (context : Context) (conn : Connection) :
    Matches R ((unitsRest state.buf 0).drive Connection.pollRead context conn)
      (state.finish conn) := by
  rw [unitsRest_zero, textOf, finish]
  cases fromUtf16 state.buf with
  | some text => rfl
  | none => rfl

/-- The unit loop reads on from where the state stands. -/
theorem pollUnits_matches {R : VarcharState → Reader String → Prop}
    (hR : ∀ state p, StandsFor state p → R state p) (context : Context) (len count : ℕ)
    {fuel : ℕ} {state : VarcharState} {conn : Connection} (hlength : state.length = some len)
    (hread : state.read + count = len) (hfuel : count ≤ fuel) :
    Matches R ((unitsRest state.buf count).drive Connection.pollRead context conn)
      (pollUnits len fuel state conn) := by
  induction count generalizing fuel state conn with
  | zero =>
    cases fuel with
    | zero => exact finish_matches context conn
    | succ fuel =>
      rw [pollUnits, if_neg (by omega)]
      exact finish_matches context conn
  | succ count ih =>
    obtain ⟨fuel, rfl⟩ : ∃ less, fuel = less + 1 := ⟨fuel - 1, by omega⟩
    rw [pollUnits, if_pos (by omega), show BytesReader.readU16Le.future.start = [] from rfl,
      BytesReader.future_poll, unitsRest_succ, Program.drive,
      show BytesReader.readU16Le.bytes = 2 from rfl]
    cases conn.pollRead 2 with
    | ready taken after =>
      refine @ih fuel { state with buf := state.buf ++ [getU16Le taken], read := state.read + 1 }
        after hlength ?_ (by omega)
      change state.read + 1 + count = len
      omega
    | pending after =>
      refine ⟨state, rfl, hR state _ ⟨len, count + 1, hlength, hread, ?_⟩⟩
      rw [unitsRest_succ]
    | broken fault after => rfl

theorem withLength_matches {R : VarcharState → Reader String → Prop}
    (hR : ∀ state p, StandsFor state p → R state p) (context : Context) {len count : ℕ}
    {state : VarcharState} {conn : Connection} (hlength : state.length = some len)
    (hread : state.read + count = len) :
    Matches R ((unitsRest state.buf count).drive Connection.pollRead context conn)
      (if state.read = len then state.finish conn else pollUnits len len state conn) := by
  split
  · obtain rfl : count = 0 := by omega
    exact finish_matches context conn
  · exact pollUnits_matches hR context len count hlength hread (by omega)

end VarcharState

/-- A text reader follows the decoder of its length and its units. -/
theorem varcharReader_follows {α : Type} (lengthReader : BytesReader α) (toUsize : α → ℕ)
    (context : Context) :
    Follows (varcharReader lengthReader toUsize) Connection.pollRead context fun state p =>
      state = (varcharReader lengthReader toUsize).start ∧
          p = lengthReader.contiguous.bind (fun length => Reader.readVarchar (toUsize length)) ∨
        state.StandsFor p := by
  rintro state p conn (⟨rfl, rfl⟩ | ⟨len, count, hlength, hread, rfl⟩)
  · simp only [varcharReader, VarcharState.poll]
    rw [show lengthReader.future.start = [] from rfl, BytesReader.future_poll,
      BytesReader.contiguous, Program.bind, Program.drive]
    cases conn.pollRead lengthReader.bytes with
    | ready taken after =>
      simp only [Program.bind, readVarchar_eq]
      exact @VarcharState.withLength_matches _ (fun _ _ h => Or.inr h) context
        (toUsize (lengthReader.reader taken)) (toUsize (lengthReader.reader taken))
        { length := some (toUsize (lengthReader.reader taken)), buf := [], read := 0 } after rfl
        (Nat.zero_add _)
    | pending after => exact ⟨_, rfl, Or.inl ⟨rfl, rfl⟩⟩
    | broken fault after => rfl
  · simp only [varcharReader, VarcharState.poll, hlength]
    exact VarcharState.withLength_matches (fun _ _ h => Or.inr h) context hlength hread

/-- What is left of a bulk read behind the bytes in `dst`. -/
def fillRest (cap : ℕ) (dst : List UInt8) (fuel remaining : ℕ) : Reader (List UInt8) :=
  (Reader.readWindows cap fuel remaining).bind fun bytes => .ret (dst ++ bytes)

theorem fillRest_zero (cap : ℕ) (dst : List UInt8) (fuel : ℕ) :
    fillRest cap dst fuel 0 = .ret dst := by
  have hwindows : Reader.readWindows cap fuel 0 = .ret [] := by cases fuel <;> rfl
  rw [fillRest, hwindows]
  change Program.ret (dst ++ []) = _
  rw [List.append_nil]

theorem fillRest_succ (cap : ℕ) (dst : List UInt8) (fuel : ℕ) {remaining : ℕ}
    (hremaining : remaining ≠ 0) :
    fillRest cap dst (fuel + 1) remaining =
      .read (min remaining cap) fun window =>
        fillRest cap (dst ++ window) fuel (remaining - min remaining cap) := by
  rw [fillRest, Reader.readWindows, if_neg hremaining]
  simp only [Program.bind_eq, Program.pure_eq, Program.bind_assoc, Reader.readExact, Program.bind]
  congr 1
  funext window
  rw [fillRest]
  congr 1
  funext bytes
  rw [List.append_assoc]

namespace FillState

/-- The program a state of a bulk read stands for: it is between two windows, or
at the start of one. -/
def StandsFor (cap : ℕ) (state : FillState) (p : Reader (List UInt8)) : Prop :=
  (state.missing = 0 ∧ ∃ fuel, state.remaining - state.want ≤ fuel ∧
      p = fillRest cap state.dst fuel (state.remaining - state.want)) ∨
    state.missing = state.want ∧ state.want = min state.remaining cap ∧ state.remaining ≠ 0 ∧
      ∃ fuel, state.remaining ≤ fuel + 1 ∧
        p = fillRest cap state.dst (fuel + 1) state.remaining

section Matching

variable {cap : ℕ} (hcap : 0 < cap) (context : Context)
include hcap

/-- A window is filled by one request; the rest is left to the windows behind it. -/
theorem window_matches {fuel turns : ℕ} (state : FillState) (conn : Connection)
    (hrest : ∀ (next : FillState) (conn : Connection), next.missing = 0 →
      next.remaining - next.want ≤ fuel →
      2 * (next.remaining - next.want) + 1 ≤ turns →
      Matches (StandsFor cap)
        ((fillRest cap next.dst fuel (next.remaining - next.want)).drive Connection.pollRead
          context conn) (pollLoop cap turns next conn))
    (hmissing : state.missing = state.want) (hwant : state.want = min state.remaining cap)
    (hremaining : state.remaining ≠ 0) (hfuel : state.remaining ≤ fuel + 1)
    (hturns : 2 * state.remaining ≤ turns + 1) :
    Matches (StandsFor cap)
      ((fillRest cap state.dst (fuel + 1) state.remaining).drive Connection.pollRead context conn)
      (pollLoop cap (turns + 1) state conn) := by
  have hpos : 0 < state.missing := by
    rw [hmissing, hwant]
    omega
  rw [fillRest_succ cap state.dst fuel hremaining, ← hwant, Program.drive, pollLoop, if_pos hpos,
    hmissing]
  cases hpoll : conn.pollRead state.want with
  | ready taken after =>
    have hlength := (Connection.pollRead_shows.ready hpoll).2
    cases taken with
    | nil =>
      rw [List.length_nil] at hlength
      omega
    | cons byte rest =>
      refine hrest
        { state with dst := state.dst ++ byte :: rest
                     missing := state.want - (byte :: rest).length } after ?_ ?_ ?_
      · change state.want - (byte :: rest).length = 0
        omega
      · change state.remaining - state.want ≤ fuel
        omega
      · change 2 * (state.remaining - state.want) + 1 ≤ turns
        omega
  | pending after =>
    refine ⟨state, rfl, Or.inr ⟨hmissing, hwant, hremaining, fuel, hfuel, ?_⟩⟩
    rw [fillRest_succ cap state.dst fuel hremaining, ← hwant]
  | broken fault after => rfl

theorem between_matches (fuel : ℕ) {turns : ℕ} (state : FillState) (conn : Connection)
    (hmissing : state.missing = 0) (hfuel : state.remaining - state.want ≤ fuel)
    (hturns : 2 * (state.remaining - state.want) + 1 ≤ turns) :
    Matches (StandsFor cap)
      ((fillRest cap state.dst fuel (state.remaining - state.want)).drive Connection.pollRead
        context conn) (pollLoop cap turns state conn) := by
  induction fuel generalizing turns state conn with
  | zero =>
    obtain ⟨turns, rfl⟩ : ∃ less, turns = less + 1 := ⟨turns - 1, by omega⟩
    have hend : state.remaining - state.want = 0 := by omega
    rw [pollLoop, if_neg (by omega)]
    simp only [hend, if_true, fillRest_zero]
    rfl
  | succ fuel ih =>
    obtain ⟨turns, rfl⟩ : ∃ less, turns = less + 1 := ⟨turns - 1, by omega⟩
    rw [pollLoop, if_neg (by omega)]
    by_cases hend : state.remaining - state.want = 0
    · simp only [hend, if_true, fillRest_zero]
      rfl
    · simp only [hend, if_false]
      obtain ⟨turns, rfl⟩ : ∃ less, turns = less + 1 := ⟨turns - 1, by omega⟩
      refine window_matches hcap context
        { dst := state.dst
          want := min (state.remaining - state.want) cap
          missing := min (state.remaining - state.want) cap
          remaining := state.remaining - state.want } conn (fun next after => ih next after) rfl rfl
        hend hfuel ?_
      change 2 * (state.remaining - state.want) ≤ turns + 1
      omega

end Matching

end FillState

theorem readBytesIntoFuture_follows {cap : ℕ} (hcap : 0 < cap) (dst : List UInt8) (len : ℕ)
    (context : Context) :
    Follows (readBytesIntoFuture dst len cap) Connection.pollRead context
      (FillState.StandsFor cap) := by
  rintro state p conn (⟨hmissing, fuel, hfuel, rfl⟩ | ⟨hmissing, hwant, hremaining, fuel, hfuel, rfl⟩)
  · exact FillState.between_matches hcap context fuel state conn hmissing hfuel (by omega)
  · exact FillState.window_matches hcap context state conn
      (fun next after hnext hle hturns =>
        FillState.between_matches hcap context fuel next after hnext hle hturns)
      hmissing hwant hremaining hfuel (by omega)

/-- Every reader of the wire, polled over a connection until it completes,
returns what a decoder reads from the contiguous bytes, and the next reader
starts at the byte behind: however the bytes are cut into packets, and however
often a reader has to wait for the next one. -/
theorem readers_span_packets :
    (∀ (α : Type) (self : BytesReader α), ReadsAs self.future self.contiguous) ∧
      ReadsAs readBVarcharFuture Reader.readBVarchar ∧
      ReadsAs readUSVarcharFuture Reader.readUsVarchar ∧
      ∀ (dst : List UInt8) (len cap : ℕ), 0 < cap →
        ReadsAs (readBytesIntoFuture dst len cap)
          ((Reader.readBytesInto len cap).bind fun bytes => .ret (dst ++ bytes)) := by
  refine ⟨?_, ?_, ?_, ?_⟩
  · intro α self
    exact readsAs_of_follows self.future_follows ⟨rfl, rfl⟩
  · exact readsAs_of_follows (varcharReader_follows .readU8 UInt8.toNat) (Or.inl ⟨rfl, rfl⟩)
  · exact readsAs_of_follows (varcharReader_follows .readU16Le UInt16.toNat) (Or.inl ⟨rfl, rfl⟩)
  · intro dst len cap hcap
    refine readsAs_of_follows (readBytesIntoFuture_follows hcap dst len) ?_
    exact Or.inl ⟨rfl, len, Nat.le_refl _, rfl⟩

/-- Three bytes behind one that is there, in windows of two, from packets that come one
at a time with a poll in vain between them. -/
theorem readers_span_packets_windows :
    let future := readBytesIntoFuture [0xDE] 3 2
    let answer := future.pollAll (fun conn packets => conn.arrive packets .silent) future.start
      (.new [] .silent) [[responsePacket false [7]], [], [responsePacket true [8, 9, 10]]]
    ∃ after, answer.1 = .ready (.ok [0xDE, 7, 8, 9]) after ∧
      after.toCome answer.2.flatten = [10] := by
  intro future answer
  obtain ⟨after, hanswer, hleft, -⟩ := (readers_span_packets.2.2.2 [0xDE] 3 2 (by decide)
    (.new [] .silent) [[responsePacket false [7]], [], [responsePacket true [8, 9, 10]]] rfl).1
      [0xDE, 7, 8, 9] [10] rfl
  exact ⟨after, hanswer, hleft⟩

end Tiberius

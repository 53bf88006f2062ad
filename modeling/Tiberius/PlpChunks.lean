import Tiberius.Columns
import Tiberius.Fields
import Tiberius.Unread

/-!
Values that arrive in chunks. The reader adds the chunks up until it meets the
terminator, and compares the total with the ceiling at the header of every chunk.
The counter that ends the loop here never stops it before the ceiling does.
-/

namespace Tiberius

open Reading Reader Program

def plpTooLong : Fault := .error (.protocol
  ("PLP value exceeds the maximum supported size of " ++ toString maxPlpSize ++ " bytes"))

/-- Chunks on the wire, each behind its size. -/
def chunksBytes (chunks : List (List UInt8)) : List UInt8 :=
  chunks.flatMap fun chunk => toLe 4 chunk.length ++ chunk

section

variable {env : Context} {room : ℕ} {data : List UInt8}

/-- The loop of the source, as long as what is left of the counter and what has
been read make up the ceiling. -/
theorem plpChunks_eq (hroom : maxPlpSize ≤ data.length + room) :
    plpChunks room data = readU32Le.bind fun chunkSize =>
      if chunkSize = 0 then .ret data
      else if maxPlpSize < data.length + chunkSize.toNat then .fail plpTooLong
      else (readBytesInto chunkSize.toNat maxPrealloc).bind fun chunk =>
        plpChunks (room - 1) (data ++ chunk) := by
  cases room with
  | zero =>
    rw [plpChunks, Program.bind_eq]
    congr 1
    funext chunkSize
    by_cases hzero : chunkSize = 0
    · rw [if_pos hzero, if_pos hzero]
      rfl
    · have hpos : 0 < chunkSize.toNat := by
        apply Nat.pos_of_ne_zero
        intro hnone
        exact hzero (UInt32.toNat_inj.mp hnone)
      rw [if_neg hzero, if_neg hzero, if_pos (by omega)]
      rfl
  | succ room => rfl

theorem plpChunks_chunk {chunk : List UInt8} (hroom : maxPlpSize ≤ data.length + room)
    (hpos : chunk ≠ []) (hmax : data.length + chunk.length ≤ maxPlpSize) (more : List UInt8) :
    (plpChunks room data).run env (toLe 4 chunk.length ++ (chunk ++ more)) =
      (plpChunks (room - 1) (data ++ chunk)).run env more := by
  have hnat : (UInt32.ofNat chunk.length).toNat = chunk.length := by
    rw [maxPlpSize] at hmax
    rw [UInt32.toNat_ofNat']
    omega
  have hzero : ¬ UInt32.ofNat chunk.length = 0 := by
    intro heq
    rw [heq] at hnat
    exact hpos (List.length_eq_zero_iff.mp hnat.symm)
  have hsize : readU32Le.Reads env (toLe 4 chunk.length) (UInt32.ofNat chunk.length) := by
    rw [readU32Le_reads, hnat]
  have hread : (readBytesInto chunk.length maxPrealloc).Reads env chunk chunk :=
    (readBytesInto_reads (by decide)).mpr ⟨rfl, rfl⟩
  rw [plpChunks_eq hroom, hsize.run_bind, if_neg hzero, hnat, if_neg (by omega), hread.run_bind]

theorem plpChunks_run (chunks : List (List UInt8)) (hroom : maxPlpSize ≤ data.length + room)
    (hpos : ∀ chunk ∈ chunks, chunk ≠ [])
    (hmax : data.length + chunks.flatten.length ≤ maxPlpSize) (more : List UInt8) :
    ∃ left, maxPlpSize ≤ (data ++ chunks.flatten).length + left ∧
      (plpChunks room data).run env (chunksBytes chunks ++ more) =
        (plpChunks left (data ++ chunks.flatten)).run env more := by
  induction chunks generalizing room data with
  | nil =>
    refine ⟨room, ?_, ?_⟩
    · rw [List.flatten_nil, List.append_nil]
      exact hroom
    · rw [List.flatten_nil, List.append_nil]
      rfl
  | cons chunk chunks ih =>
    rw [List.flatten_cons, List.length_append] at hmax
    have hchunk : 0 < chunk.length := List.length_pos_of_ne_nil (hpos chunk List.mem_cons_self)
    have hstep := @plpChunks_chunk env room data chunk hroom (hpos chunk List.mem_cons_self)
      (by omega) (chunksBytes chunks ++ more)
    obtain ⟨left, hleft, hrun⟩ := @ih (room - 1) (data ++ chunk)
      (by rw [List.length_append]; omega)
      (fun other hother => hpos other (List.mem_cons_of_mem _ hother))
      (by rw [List.length_append]; omega)
    rw [List.append_assoc, ← List.flatten_cons] at hleft hrun
    refine ⟨left, hleft, ?_⟩
    rw [← hrun, ← hstep, chunksBytes, List.flatMap_cons, List.append_assoc, List.append_assoc]
    rfl

theorem plpChunks_end (room : ℕ) (data : List UInt8) :
    (plpChunks room data).Reads env (toLe 4 0) data := by
  have hread : readU32Le.Reads env (toLe 4 0) 0 := readU32Le_reads.mpr rfl
  cases room with
  | zero => exact hread.bind_last (ret_reads _)
  | succ room => exact hread.bind_last (ret_reads _)

/-- A header that takes the total above the ceiling ends the loop. -/
theorem plpChunks_above {size : UInt32} (hroom : maxPlpSize ≤ data.length + room)
    (hlow : data.length ≤ maxPlpSize) (habove : maxPlpSize < data.length + size.toNat)
    (more : List UInt8) :
    (plpChunks room data).run env (toLe 4 size.toNat ++ more) = .failed plpTooLong more := by
  have hsize : readU32Le.Reads env (toLe 4 size.toNat) size := readU32Le_reads.mpr rfl
  have hzero : ¬ size = 0 := by
    intro heq
    rw [heq] at habove
    exact absurd habove (Nat.not_lt.mpr hlow)
  rw [plpChunks_eq hroom, hsize.run_bind, if_neg hzero, if_pos habove]
  rfl

variable {len : ℕ} {total : UInt64}

/-- Behind a length that is not the marker of NULL, the reader is in its loop. -/
theorem decodePlp_chunks (hlen : 0xffff ≤ len) (htotal : total ≠ 0xffffffffffffffff)
    (more : List UInt8) :
    (decodePlp len).run env (toLe 8 total.toNat ++ more) =
      ((plpChunks maxPlpSize []).run env more).andThen (fun data => .ret (some data)) env := by
  have hread : readU64Le.Reads env (toLe 8 total.toNat) total := readU64Le_reads.mpr rfl
  rw [decodePlp, if_neg (Nat.not_lt.mpr hlen), Program.bind_eq, hread.run_bind, if_neg htotal,
    Program.bind_eq, Program.run_bind]
  rfl

variable {chunks : List (List UInt8)}

theorem decodePlp_chunked (hlen : 0xffff ≤ len) (htotal : total ≠ 0xffffffffffffffff)
    (hpos : ∀ chunk ∈ chunks, chunk ≠ []) (hmax : chunks.flatten.length ≤ maxPlpSize)
    (rest : List UInt8) :
    (decodePlp len).run env (toLe 8 total.toNat ++ (chunksBytes chunks ++ (toLe 4 0 ++ rest))) =
      .done (some chunks.flatten) rest := by
  obtain ⟨left, -, hrun⟩ := @plpChunks_run env maxPlpSize [] chunks (Nat.le_add_left _ _) hpos
    (by rw [List.length_nil]; omega) (toLe 4 0 ++ rest)
  rw [decodePlp_chunks hlen htotal, hrun, (plpChunks_end left _).run_append]
  rfl

theorem decodePlp_chunked_above (hlen : 0xffff ≤ len) (htotal : total ≠ 0xffffffffffffffff)
    (hpos : ∀ chunk ∈ chunks, chunk ≠ []) (hmax : chunks.flatten.length ≤ maxPlpSize)
    {size : UInt32} (habove : maxPlpSize < chunks.flatten.length + size.toNat)
    (rest : List UInt8) :
    (decodePlp len).run env
        (toLe 8 total.toNat ++ (chunksBytes chunks ++ (toLe 4 size.toNat ++ rest))) =
      .failed plpTooLong rest := by
  obtain ⟨left, hleft, hrun⟩ := @plpChunks_run env maxPlpSize [] chunks (Nat.le_add_left _ _) hpos
    (by rw [List.length_nil]; omega) (toLe 4 size.toNat ++ rest)
  rw [List.nil_append] at hleft hrun
  rw [decodePlp_chunks hlen htotal, hrun, plpChunks_above hleft hmax habove]
  rfl

end

/-- A value within the ceiling is read from any division into chunks, over packets
that need not end where chunks do, and what follows it is left. The header of the
chunk that would take it above the ceiling is the last thing read of the others. -/
theorem chunks_read_back {len : ℕ} (hlen : 0xffff ≤ len) (context : Context) (conn : Connection)
    {total : UInt64} (htotal : total ≠ 0xffffffffffffffff) {chunks : List (List UInt8)}
    (hpos : ∀ chunk ∈ chunks, chunk ≠ []) (hmax : chunks.flatten.length ≤ maxPlpSize)
    (rest : List UInt8) :
    (conn.unread = toLe 8 total.toNat ++ (chunksBytes chunks ++ (toLe 4 0 ++ rest)) →
      ∃ after, (decodePlp len).drive Connection.pollRead context conn =
        .done (some chunks.flatten) after ∧ after.unread = rest) ∧
    ∀ size : UInt32, maxPlpSize < chunks.flatten.length + size.toNat →
      conn.unread = toLe 8 total.toNat ++ (chunksBytes chunks ++ (toLe 4 size.toNat ++ rest)) →
      ∃ after, (decodePlp len).drive Connection.pollRead context conn =
        .failed plpTooLong after ∧ after.unread = rest := by
  constructor
  · intro hunread
    exact Connection.pollRead_serves_unread.drive_done hunread
      (decodePlp_chunked hlen htotal hpos hmax rest)
  · intro size habove hunread
    exact Connection.pollRead_serves_unread.drive_failed hunread
      (decodePlp_chunked_above hlen htotal hpos hmax habove rest)

/-- Three bytes in two chunks, over two packets that part in the middle of a header. -/
theorem chunks_read_back_two_packets :
    ∃ after, (decodePlp 0xffff).drive Connection.pollRead .new
        (.new [⟨.batch 1, [3, 0, 0, 0, 0, 0, 0, 0, 2, 0, 0, 0, 7, 8, 1, 0]⟩,
          ⟨.batch 2, [0, 0, 9, 0, 0, 0, 0, 5]⟩] .silent) =
      .done (some [7, 8, 9]) after ∧ after.unread = [5] :=
  (@chunks_read_back 0xffff (Nat.le_refl _) .new _ 3 (by decide) [[7, 8], [9]] (by decide)
    (by unfold maxPlpSize; decide) [5]).1 rfl

end Tiberius

import Tiberius.Attention

/-!
Reading from a response into the message behind it. While packets of the
response are being taken, the connection stands in front of the other message; a
read that the bytes of the response do not serve takes packets of that message.
When reading the bytes left of the response goes past their end, every end of a
read is in the response with more to come, or in the message behind it.
-/

namespace Tiberius

open Reading

/-- A connection in front of the packets `rest` of a response, with the packets of
another message behind them. -/
structure Precedes (last : Packet) (final : Response) (outgoing rest : List Packet)
    (conn : Connection) : Prop where
  packets : conn.transport.inbound ++ outgoing = rest ++ final.packets
  flushed : conn.flushed = rest.isEmpty
  ends : EndsWith last rest
  silent : conn.transport.ending = .silent

theorem Response.packets_ne_nil (response : Response) : response.packets ≠ [] :=
  List.append_ne_nil_of_right_ne_nil _ (List.cons_ne_nil _ _)

namespace Precedes

variable {last : Packet} {final : Response} {outgoing rest : List Packet}
  {conn after : Connection}

theorem of_eq (hprecedes : Precedes last final outgoing rest conn)
    (hinbound : after.transport.inbound = conn.transport.inbound)
    (hflushed : after.flushed = conn.flushed)
    (hending : after.transport.ending = conn.transport.ending) :
    Precedes last final outgoing rest after where
  packets := by rw [hinbound, hprecedes.packets]
  flushed := by rw [hflushed, hprecedes.flushed]
  ends := hprecedes.ends
  silent := by rw [hending, hprecedes.silent]

theorem toCome_eq (hprecedes : Precedes last final outgoing rest conn) :
    conn.toCome outgoing = conn.buf ++ rest.flatMap Packet.payload ++ final.bytes := by
  rw [Connection.toCome, Connection.unread, List.append_assoc, ← List.flatMap_append,
    hprecedes.packets, List.flatMap_append, ← List.append_assoc]
  rfl

/-- Taking a packet: one of the response, or the first one of the last message. -/
theorem buffered {packet : Packet} {others : List Packet}
    (hprecedes : Precedes last final outgoing rest conn)
    (hinbound : conn.transport.inbound = packet :: others) :
    (∃ tail, rest = packet :: tail ∧
      Precedes last final outgoing tail (conn.buffered packet others)) ∨
      Expects false outgoing (conn.buffered packet others) := by
  have hpackets := hprecedes.packets
  rw [hinbound, List.cons_append] at hpackets
  cases hrest : rest with
  | nil =>
    rw [hrest, List.nil_append] at hpackets
    have hstart : Expects false outgoing { conn with flushed := false } := by
      have hall : conn.transport.inbound ++ outgoing = final.packets := by
        rw [hinbound, List.cons_append, hpackets]
      refine ⟨?_, fun hanswered => absurd hanswered Bool.false_ne_true, ⟨final.last, ?_⟩,
        hprecedes.silent⟩
      · change false = (true && (conn.transport.inbound ++ outgoing).isEmpty)
        rw [hall, List.isEmpty_eq_false_iff.mpr final.packets_ne_nil]
        rfl
      · change EndsWith final.last (conn.transport.inbound ++ outgoing)
        rw [hall]
        exact final.packets_endsWith
    exact Or.inr (hstart.of_taken hinbound rfl rfl rfl)
  | cons head tail =>
    rw [hrest, List.cons_append, List.cons.injEq] at hpackets
    obtain ⟨rfl, hothers⟩ := hpackets
    have hends := hprecedes.ends
    rw [hrest] at hends
    exact Or.inl ⟨tail, rfl, hothers, hends.1, hends.2.2, hprecedes.silent⟩

theorem deliver {packet : Packet} {others : List Packet}
    (hprecedes : Precedes last final (packet :: others) rest conn) :
    Precedes last final others rest (conn.arrive [packet] .silent) := by
  refine ⟨?_, hprecedes.flushed, hprecedes.ends, rfl⟩
  change conn.transport.inbound ++ [packet] ++ others = _
  rw [List.append_assoc, List.singleton_append, hprecedes.packets]

/-- Reads stop inside the response with an empty last packet still to come, or
inside the last message. -/
def OpenOrPast (last : Packet) (final : Response) (outgoing : List Packet) (conn : Connection) :
    Prop :=
  (∃ rest, Precedes last final outgoing rest conn ∧ (last.payload = [] → rest ≠ [])) ∨
    Expects false outgoing conn

theorem refill_ready {size fuel : ℕ} {bytes : List UInt8}
    (hprecedes : Precedes last final outgoing rest conn) (hshort : conn.buf.length < size)
    (hrefill : Connection.refill size fuel conn = .ready bytes after) :
    OpenOrPast last final outgoing after := by
  induction fuel generalizing conn rest with
  | zero => cases hrefill
  | succ fuel ih =>
    cases hinbound : conn.transport.inbound with
    | nil =>
      rw [Connection.refill, Connection.pollNext, hinbound, hprecedes.silent] at hrefill
      cases hrefill
    | cons packet others =>
      rw [Connection.refill_cons size fuel hinbound] at hrefill
      rcases hprecedes.buffered hinbound with ⟨tail, hrest, hnext⟩ | hnext
      · by_cases henough : size ≤ (conn.buffered packet others).buf.length
        · rw [if_pos henough] at hrefill
          cases hrefill
          refine Or.inl ⟨tail, hnext.of_eq rfl rfl rfl, fun hempty hnil => ?_⟩
          have hends := hprecedes.ends
          rw [hrest] at hends
          have hlength : (conn.buffered packet others).buf = conn.buf := by
            change conn.buf ++ packet.payload = conn.buf
            rw [hends.2.1 hnil, hempty, List.append_nil]
          rw [hlength] at henough
          omega
        · rw [if_neg henough] at hrefill
          exact ih hnext (Nat.lt_of_not_le henough) hrefill
      · refine Or.inr ?_
        by_cases henough : size ≤ (conn.buffered packet others).buf.length
        · rw [if_pos henough] at hrefill
          cases hrefill
          exact hnext.of_eq rfl rfl rfl
        · rw [if_neg henough] at hrefill
          have hafter := Connection.refill_expects size fuel hnext
          rw [hrefill] at hafter
          exact hafter

theorem refill_pending {size fuel : ℕ} (hprecedes : Precedes last final outgoing rest conn)
    (hrefill : Connection.refill size fuel conn = .pending after) :
    (∃ left, Precedes last final outgoing left after) ∨ Expects false outgoing after := by
  induction fuel generalizing conn rest with
  | zero =>
    cases hrefill
    exact Or.inl ⟨rest, hprecedes⟩
  | succ fuel ih =>
    cases hinbound : conn.transport.inbound with
    | nil =>
      rw [Connection.refill, Connection.pollNext, hinbound, hprecedes.silent] at hrefill
      cases hrefill
      exact Or.inl ⟨rest, hprecedes.of_eq hinbound.symm rfl rfl⟩
    | cons packet others =>
      rw [Connection.refill_cons size fuel hinbound] at hrefill
      by_cases henough : size ≤ (conn.buffered packet others).buf.length
      · rw [if_pos henough] at hrefill
        cases hrefill
      · rw [if_neg henough] at hrefill
        rcases hprecedes.buffered hinbound with ⟨tail, -, hnext⟩ | hnext
        · exact ih hnext hrefill
        · have hafter := Connection.refill_expects size fuel hnext
          rw [hrefill] at hafter
          exact Or.inr hafter

/-- A reader stands in front of a read that the bytes it has do not serve. -/
def Blocked (reader : Reader ReceivedToken) (conn : Connection) : Prop :=
  ∃ count next, reader = .read count next ∧ conn.buf.length < count

theorem pollRead_ready {count : ℕ} {next : List UInt8 → Reader ReceivedToken} {bytes : List UInt8}
    (hprecedes : Precedes last final outgoing rest conn)
    (hstands : (last.payload = [] → rest ≠ []) ∨ Blocked (.read count next) conn)
    (hpoll : Connection.pollRead count conn = .ready bytes after) :
    OpenOrPast last final outgoing after := by
  unfold Connection.pollRead at hpoll
  by_cases hshort : conn.buf.length < count
  · rw [if_pos hshort] at hpoll
    exact hprecedes.refill_ready hshort hpoll
  · rw [if_neg hshort] at hpoll
    cases hpoll
    rcases hstands with hopen | ⟨other, next', heq, hblocked⟩
    · exact Or.inl ⟨rest, hprecedes.of_eq rfl rfl rfl, hopen⟩
    · cases heq
      exact absurd hblocked hshort

theorem pollRead_pending {count : ℕ} (hprecedes : Precedes last final outgoing rest conn)
    (hpoll : Connection.pollRead count conn = .pending after) :
    (∃ left, Precedes last final outgoing left after) ∨ Expects false outgoing after := by
  unfold Connection.pollRead at hpoll
  by_cases hshort : conn.buf.length < count
  · rw [if_pos hshort] at hpoll
    exact hprecedes.refill_pending hpoll
  · rw [if_neg hshort] at hpoll
    cases hpoll

/-- A reader on a connection that may have taken an empty last packet, if it waits
for bytes behind that packet. -/
def Stands (last : Packet) (final : Response) (outgoing : List Packet)
    (reader : Reader ReceivedToken) (conn : Connection) : Prop :=
  (∃ rest, Precedes last final outgoing rest conn ∧
    ((last.payload = [] → rest ≠ []) ∨ Blocked reader conn)) ∨ Expects false outgoing conn

theorem OpenOrPast.stands (hopen : OpenOrPast last final outgoing conn)
    (reader : Reader ReceivedToken) : Stands last final outgoing reader conn := by
  rcases hopen with ⟨rest, hprecedes, hopen⟩ | hexpects
  · exact Or.inl ⟨rest, hprecedes, Or.inl hopen⟩
  · exact Or.inr hexpects

theorem Stands.openOrPast {reader : Reader ReceivedToken}
    (hstands : Stands last final outgoing reader conn)
    (hreader : ∀ count next, reader ≠ .read count next) : OpenOrPast last final outgoing conn := by
  rcases hstands with ⟨rest, hprecedes, hopen | ⟨count, next, hread, -⟩⟩ | hexpects
  · exact Or.inl ⟨rest, hprecedes, hopen⟩
  · exact absurd hread (hreader count next)
  · exact Or.inr hexpects

theorem Stands.silent {reader : Reader ReceivedToken}
    (hstands : Stands last final outgoing reader conn) : conn.transport.ending = .silent := by
  rcases hstands with ⟨rest, hprecedes, -⟩ | hexpects
  · exact hprecedes.silent
  · exact hexpects.silent

/-- Where a connection can stand behind a drive, by how the drive ended. -/
def Leaves (last : Packet) (final : Response) (outgoing : List Packet) :
    Driven Fault Context UInt8 Connection ReceivedToken → Prop
  | .done _ after => OpenOrPast last final outgoing after
  | .failed _ after => OpenOrPast last final outgoing after
  | .pending _ after =>
    (∃ left, Precedes last final outgoing left after) ∨ Expects false outgoing after

theorem Stands.drive (reader : Reader ReceivedToken) (context : Context)
    (hstands : Stands last final outgoing reader conn) :
    Leaves last final outgoing (reader.drive Connection.pollRead context conn) := by
  induction reader generalizing conn with
  | ret value =>
    refine hstands.openOrPast fun count next hread => ?_
    cases hread
  | fail error =>
    refine hstands.openOrPast fun count next hread => ?_
    cases hread
  | ask next ih =>
    have hopen : OpenOrPast last final outgoing conn := by
      refine hstands.openOrPast fun count next hread => ?_
      cases hread
    exact ih context (hopen.stands (next context))
  | read count next ih =>
    rw [Program.drive]
    cases hpoll : Connection.pollRead count conn with
    | ready bytes after =>
      have hnext : OpenOrPast last final outgoing after := by
        rcases hstands with ⟨rest, hprecedes, hopen⟩ | hexpects
        · exact hprecedes.pollRead_ready hopen hpoll
        · have hafter := Connection.pollRead_expects count hexpects
          rw [hpoll] at hafter
          exact Or.inr hafter
      exact ih bytes (hnext.stands (next bytes))
    | pending after =>
      rcases hstands with ⟨rest, hprecedes, -⟩ | hexpects
      · exact hprecedes.pollRead_pending hpoll
      · have hafter := Connection.pollRead_expects count hexpects
        rw [hpoll] at hafter
        exact Or.inr hafter
    | broken fault after => exact absurd hpoll (Connection.pollRead_silent hstands.silent _ _)

end Precedes

section

variable [EncodingRs]

/-- A reader in the last message, or in a response whose reading goes past its end. -/
def Placed (last : Packet) (final : Response) (outgoing : List Packet)
    (reader : Reader ReceivedToken) (conn : Connection) : Prop :=
  Expects false outgoing conn ∨
    ∃ rest, Precedes last final outgoing rest conn ∧
      Passes last reader conn.context (conn.buf ++ rest.flatMap Packet.payload) ∧
      ((last.payload = [] → rest ≠ []) ∨ Precedes.Blocked reader conn)

namespace Placed

variable {last : Packet} {final : Response} {outgoing : List Packet}
  {reader : Reader ReceivedToken} {conn after : Connection}

theorem leaves (hplaced : Placed last final outgoing reader conn) (context : Context) :
    Precedes.Leaves last final outgoing (reader.drive Connection.pollRead context conn) := by
  refine Precedes.Stands.drive reader context ?_
  rcases hplaced with hexpects | ⟨rest, hprecedes, -, hstands⟩
  · exact Or.inr hexpects
  · exact Or.inl ⟨rest, hprecedes, hstands⟩

theorem silent (hplaced : Placed last final outgoing reader conn) :
    conn.transport.ending = .silent := by
  rcases hplaced with hexpects | ⟨rest, hprecedes, -⟩
  · exact hexpects.silent
  · exact hprecedes.silent

/-- A token that is read leaves the stream in the last message; or it is a token
of the response, which goes on past its end. -/
theorem done {token : ReceivedToken} (hplaced : Placed last final outgoing reader conn)
    (hdrive : reader.drive Connection.pollRead conn.context conn = .done token after) :
    Expects false outgoing after ∨
      ∃ rest, Precedes last final outgoing rest after ∧ (last.payload = [] → rest ≠ []) ∧
        token.attentionDone = none ∧
        (after.buf ++ rest.flatMap Packet.payload = [] → last.payload = []) ∧
        ∃ context, conn.context.receive token = .ok context ∧
          Passes last ReceivedToken.decode context (after.buf ++ rest.flatMap Packet.payload) := by
  have hleaves := hplaced.leaves conn.context
  rcases hplaced with hexpects | ⟨rest, hprecedes, hpasses, -⟩
  · have hafter := Connection.drive_expects reader conn.context hexpects
    rw [hdrive] at hafter
    exact Or.inl hafter
  · rw [hdrive] at hleaves
    rcases hleaves with ⟨left, hleft, hopen⟩ | hafter
    · have hrun := Connection.pollRead_shows.run_of_drive_done hdrive
        (outgoing.flatMap Packet.payload)
      change reader.run conn.context (conn.toCome outgoing) = .done token (after.toCome outgoing)
        at hrun
      rw [hprecedes.toCome_eq, hleft.toCome_eq] at hrun
      obtain ⟨hother, hend, context, hreceive, hrest⟩ :=
        hpasses.of_done (Program.run_done_prefix hrun)
      exact Or.inr ⟨left, hleft, hopen, hother, hend, context, hreceive, hrest⟩
    · exact Or.inl hafter

theorem failed {error : Error} (hplaced : Placed last final outgoing reader conn)
    (hdrive : reader.drive Connection.pollRead conn.context conn = .failed (.error error) after) :
    Expects false outgoing after := by
  have hleaves := hplaced.leaves conn.context
  have hsilent := hplaced.silent
  rcases hplaced with hexpects | ⟨rest, hprecedes, hpasses, -⟩
  · have hafter := Connection.drive_expects reader conn.context hexpects
    rw [hdrive] at hafter
    exact hafter
  · rw [hdrive] at hleaves
    rcases hleaves with ⟨left, hleft, -⟩ | hafter
    · have hkeeps : ∀ count (source : Connection), source.transport.ending = .silent →
          (Connection.pollRead count source).source.transport.ending = .silent := by
        intro count source hsource
        rw [show (Connection.pollRead count source).source = _ from
          Connection.pollRead_reads count source]
        exact hsource
      have hrun := Connection.pollRead_shows.run_of_drive_failed hkeeps
        (fun count source fault source' hsource => Connection.pollRead_silent hsource fault source')
        hsilent hdrive (outgoing.flatMap Packet.payload)
      change reader.run conn.context (conn.toCome outgoing) =
        .failed (.error error) (after.toCome outgoing) at hrun
      rw [hprecedes.toCome_eq, hleft.toCome_eq] at hrun
      exact absurd (Program.run_failed_prefix hrun) hpasses.not_failed
    · exact hafter

/-- A reader that waits has taken every packet that arrived. -/
theorem pending {left : Reader ReceivedToken} (hplaced : Placed last final outgoing reader conn)
    (hdrive : reader.drive Connection.pollRead conn.context conn = .pending left after) :
    Placed last final outgoing left after := by
  have hleaves := hplaced.leaves conn.context
  have hreads := Connection.drive_reads reader conn.context conn
  rw [hdrive] at hleaves hreads
  have hcontext : after.context = conn.context := hreads.context_eq
  rcases hplaced with hexpects | ⟨rest, hprecedes, hpasses, -⟩
  · have hafter := Connection.drive_expects reader conn.context hexpects
    rw [hdrive] at hafter
    exact Or.inl hafter
  · rcases hleaves with ⟨tail, htail⟩ | hafter
    · obtain ⟨count, next, before, hread, hpoll⟩ := Program.drive_pending hdrive
      obtain ⟨hinbound, hshort⟩ := Connection.pollRead_pending hpoll
      refine Or.inr ⟨tail, htail, ?_, Or.inr ⟨count, next, hread, hshort⟩⟩
      have hpackets := hprecedes.packets
      have houtgoing := htail.packets
      rw [hinbound, List.nil_append] at houtgoing
      rw [houtgoing, ← List.append_assoc] at hpackets
      have hrest : conn.transport.inbound ++ tail = rest := List.append_cancel_right hpackets
      obtain ⟨-, hrun⟩ := Connection.pollRead_shows.run_of_drive_pending hdrive
      have hleft := hrun (tail.flatMap Packet.payload)
      rw [Connection.unread, Connection.unread, hinbound, List.flatMap_nil, List.append_nil,
        List.append_assoc, ← List.flatMap_append, hrest] at hleft
      rw [hcontext]
      exact hpasses.of_run_eq hleft.symm
    · exact Or.inl hafter

end Placed

theorem Placed.deliver {last : Packet} {final : Response} {packet : Packet} {others : List Packet}
    {reader : Reader ReceivedToken} {conn : Connection}
    (hplaced : Placed last final (packet :: others) reader conn) :
    Placed last final others reader (conn.arrive [packet] .silent) := by
  rcases hplaced with hexpects | ⟨rest, hprecedes, hpasses, hstands⟩
  · exact Or.inl hexpects.deliver
  · exact Or.inr ⟨rest, hprecedes.deliver, hpasses, hstands⟩

end

end Tiberius

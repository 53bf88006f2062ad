import Tiberius.Session

/-!
How the packets of a response reach the token decoder. While a response is being
read, the bytes that are left of it are those in the buffer and those of its
packets that have not arrived; every read within them is served from their
front, whatever the packet boundaries, and each packet is polled for once. So a
token stream yields the tokens of the contiguous bytes.
-/

namespace Tiberius

open Reading

/-- The packets of one response: the last one ends it and no other does. -/
structure Response where
  body : List Packet
  last : Packet
  body_open : ∀ packet ∈ body, packet.isLast = false
  last_ends : last.isLast = true

namespace Response

def packets (response : Response) : List Packet := response.body ++ [response.last]

def bytes (response : Response) : List UInt8 := response.packets.flatMap Packet.payload

theorem nil_open : ∀ packet ∈ ([] : List Packet), packet.isLast = false := by
  intro packet hpacket
  cases hpacket

end Response

/-- What is left of a response: only its last packet ends it. -/
def EndsWith (last : Packet) : List Packet → Prop
  | [] => True
  | packet :: rest =>
    packet.isLast = rest.isEmpty ∧ (rest = [] → packet = last) ∧ EndsWith last rest

theorem Response.packets_endsWith (response : Response) :
    EndsWith response.last response.packets := by
  obtain ⟨body, last, hbody, hlast⟩ := response
  unfold packets
  induction body with
  | nil => exact ⟨hlast, fun _ => rfl, trivial⟩
  | cons packet rest ih =>
    have hrest := ih fun other hother => hbody other (List.mem_cons_of_mem packet hother)
    refine ⟨?_, ?_, hrest⟩
    · rw [hbody packet List.mem_cons_self]
      cases rest <;> rfl
    · intro hnil
      exact absurd hnil (List.append_ne_nil_of_right_ne_nil rest (List.cons_ne_nil last []))

theorem EndsWith.getLast {last : Packet} {rest : List Packet} (hends : EndsWith last rest)
    (hne : rest ≠ []) : ∃ body, rest = body ++ [last] := by
  induction rest with
  | nil => exact absurd rfl hne
  | cons packet tail ih =>
    obtain ⟨-, hpacket, htail⟩ := hends
    by_cases hnil : tail = []
    · exact ⟨[], by rw [hnil, hpacket hnil]; rfl⟩
    · obtain ⟨body, hbody⟩ := ih htail hnil
      exact ⟨packet :: body, by rw [hbody]; rfl⟩

theorem EndsWith.isLast_getLast {last : Packet} {rest body : List Packet}
    (hends : EndsWith last rest) (hrest : rest = body ++ [last]) : last.isLast = true := by
  induction body generalizing rest with
  | nil =>
    subst hrest
    exact hends.1
  | cons packet tail ih =>
    subst hrest
    exact ih hends.2.2 rfl

/-- A connection at some point of a response: the packets `rest` of it are still
to come, an empty last packet among them, and `polls` counts one request for each
packet taken. -/
structure StandsAt (last : Packet) (later : List Packet) (total : ℕ) (rest : List Packet)
    (conn : Connection) : Prop where
  inbound : conn.transport.inbound = rest ++ later
  flushed : conn.flushed = rest.isEmpty
  ends : EndsWith last rest
  waits : last.payload = [] → rest ≠ []
  polls : conn.transport.polls + rest.length = total

theorem StandsAt.of_eq {last : Packet} {later : List Packet} {total : ℕ} {rest : List Packet}
    {conn other : Connection} (hstands : StandsAt last later total rest conn)
    (hinbound : other.transport.inbound = conn.transport.inbound)
    (hflushed : other.flushed = conn.flushed)
    (hpolls : other.transport.polls = conn.transport.polls) :
    StandsAt last later total rest other where
  inbound := by rw [hinbound, hstands.inbound]
  flushed := by rw [hflushed, hstands.flushed]
  ends := hstands.ends
  waits := hstands.waits
  polls := by rw [hpolls, hstands.polls]

/-- The bytes of a response that a connection has not handed to a decoder. -/
def Within (last : Packet) (later : List Packet) (total : ℕ) (conn : Connection)
    (symbols : List UInt8) : Prop :=
  ∃ rest, StandsAt last later total rest conn ∧ symbols = conn.buf ++ rest.flatMap Packet.payload

namespace Connection

variable {last : Packet} {later : List Packet} {total : ℕ}

def buffered (conn : Connection) (packet : Packet) (others : List Packet) : Connection :=
  { conn.polled others with flushed := packet.isLast, buf := conn.buf ++ packet.payload }

theorem refill_cons (size fuel : ℕ) {conn : Connection} {packet : Packet} {others : List Packet}
    (hinbound : conn.transport.inbound = packet :: others) :
    refill size (fuel + 1) conn =
      if size ≤ (conn.buffered packet others).buf.length then
        .ready ((conn.buffered packet others).buf.take size)
          { conn.buffered packet others with buf := (conn.buffered packet others).buf.drop size }
      else refill size fuel (conn.buffered packet others) := by
  rw [refill, pollNext, hinbound]
  rfl

theorem refill_within {count : ℕ} (rest : List Packet) {conn : Connection} {fuel : ℕ}
    (hstands : StandsAt last later total rest conn) (hshort : conn.buf.length < count)
    (hcount : count ≤ (conn.buf ++ rest.flatMap Packet.payload).length)
    (hfuel : rest.length ≤ fuel) :
    ∃ after, refill count fuel conn =
        .ready ((conn.buf ++ rest.flatMap Packet.payload).take count) after ∧
      Within last later total after ((conn.buf ++ rest.flatMap Packet.payload).drop count) := by
  induction rest generalizing conn fuel with
  | nil =>
    rw [List.flatMap_nil, List.append_nil] at hcount
    omega
  | cons packet rest ih =>
    obtain ⟨fuel, rfl⟩ : ∃ turns, fuel = turns + 1 := ⟨fuel - 1, by
      rw [List.length_cons] at hfuel
      omega⟩
    obtain ⟨hinbound, hflushed, ⟨hpacket, hlast, hends⟩, hwaits, hpolls⟩ := hstands
    generalize hnext : conn.buffered packet (rest ++ later) = next
    have hbuf : next.buf = conn.buf ++ packet.payload := by
      rw [← hnext]
      rfl
    have hstands : StandsAt last later total rest next := by
      subst hnext
      refine ⟨rfl, hpacket, hends, fun hempty hnil => ?_, ?_⟩
      · rw [hnil, hlast hnil, List.flatMap_singleton, hempty, List.append_nil] at hcount
        omega
      · rw [List.length_cons] at hpolls
        change conn.transport.polls + 1 + rest.length = total
        omega
    have hsymbols : conn.buf ++ (packet :: rest).flatMap Packet.payload =
        next.buf ++ rest.flatMap Packet.payload := by
      rw [hbuf, List.flatMap_cons, List.append_assoc]
    rw [hsymbols] at hcount ⊢
    rw [List.cons_append] at hinbound
    rw [refill_cons count fuel hinbound, hnext]
    by_cases henough : count ≤ next.buf.length
    · rw [if_pos henough, List.take_append_of_le_length henough,
        List.drop_append_of_le_length henough]
      exact ⟨_, rfl, rest, hstands.of_eq rfl rfl rfl, rfl⟩
    · rw [if_neg henough]
      refine ih hstands (Nat.lt_of_not_le henough) hcount ?_
      rw [List.length_cons] at hfuel
      omega

theorem pollRead_serves : Serves pollRead (Within last later total) where
  serve := by
    intro conn symbols count hwithin hcount
    obtain ⟨rest, hstands, hsymbols⟩ := hwithin
    by_cases hshort : conn.buf.length < count
    · rw [pollRead, if_pos hshort, hsymbols]
      rw [hsymbols] at hcount
      refine refill_within rest hstands hshort hcount ?_
      rw [hstands.inbound, List.length_append]
      omega
    · have henough : count ≤ conn.buf.length := Nat.le_of_not_lt hshort
      rw [pollRead, if_neg hshort, hsymbols, List.take_append_of_le_length henough,
        List.drop_append_of_le_length henough]
      exact ⟨_, rfl, rest, hstands.of_eq rfl rfl rfl, rfl⟩

theorem pollRead_serves_in (context : Context) :
    Serves pollRead fun conn symbols =>
      Within last later total conn symbols ∧ conn.context = context :=
  pollRead_serves.keeping fun count conn hcontext => by
    rw [show (pollRead count conn).source = _ from pollRead_reads count conn]
    exact hcontext

end Connection

/-- The tokens that a stream yields, and the stream behind them. -/
inductive Yields [EncodingRs] : TokenStream → List ReceivedToken → TokenStream → Prop where
  | nil (stream : TokenStream) : Yields stream [] stream
  | cons {stream next final : TokenStream} {token : ReceivedToken} {tokens : List ReceivedToken}
      (hnext : stream.next = .token token next) (hrest : Yields next tokens final) :
      Yields stream (token :: tokens) final

/-- Every token takes at least its type byte. -/
theorem ReceivedToken.decode_shrinks [EncodingRs] {context : Context} {bytes rest : List UInt8}
    {token : ReceivedToken} (hdecode : ReceivedToken.decode.run context bytes = .done token rest) :
    rest.length < bytes.length := by
  have hread : ∃ next, ReceivedToken.decode = .read 1 next := ⟨_, rfl⟩
  obtain ⟨next, hread⟩ := hread
  rw [hread] at hdecode
  by_cases hone : 1 ≤ bytes.length
  · rw [Program.run_read_of_le next context hone] at hdecode
    obtain ⟨used, hused⟩ := (next (bytes.take 1)).run_rest_suffix context (bytes.drop 1)
    rw [hdecode] at hused
    have hlength := congrArg List.length hused
    rw [List.length_drop, List.length_append] at hlength
    simp only [Outcome.rest] at hlength
    omega
  · rw [Program.run_read_of_lt next context (by omega)] at hdecode
    cases hdecode

/-- The end of a scan at a token that cannot be decoded. -/
def Scan.ofFault : Fault → Scan
  | .error error => .rejected error
  | .panic => .panicked

namespace TokenStream

variable {last : Packet} {later : List Packet} {total : ℕ} {stream : TokenStream}
  {symbols : List UInt8}

theorem isEof_of_ne_nil (hwithin : Within last later total stream.conn symbols)
    (hne : symbols ≠ []) : stream.conn.isEof = false := by
  obtain ⟨rest, hstands, hsymbols⟩ := hwithin
  cases hrest : rest with
  | nil =>
    rw [hrest, List.flatMap_nil, List.append_nil] at hsymbols
    rw [Connection.isEof, List.isEmpty_eq_false_iff.mpr (by rw [← hsymbols]; exact hne),
      Bool.and_false]
  | cons packet tail =>
    rw [Connection.isEof, hstands.flushed, hrest]
    rfl

theorem isEof_of_nil (hwithin : Within last later total stream.conn []) (hlast : last.payload ≠ []) :
    stream.conn.isEof = true ∧ stream.conn.transport.inbound = later ∧
      stream.conn.transport.polls = total ∧ stream.conn.buf = [] := by
  obtain ⟨rest, hstands, hsymbols⟩ := hwithin
  obtain ⟨hbuf, hpayloads⟩ := List.append_eq_nil_iff.mp hsymbols.symm
  have hrest : rest = [] := by
    by_contra hne
    obtain ⟨body, hbody⟩ := hstands.ends.getLast hne
    rw [hbody, List.flatMap_append, List.flatMap_singleton] at hpayloads
    exact hlast (List.append_eq_nil_iff.mp hpayloads).2
  subst hrest
  refine ⟨?_, hstands.inbound, hstands.polls, hbuf⟩
  rw [Connection.isEof, hstands.flushed, hbuf]
  rfl

variable [EncodingRs]

theorem next_of_ne_nil (hwithin : Within last later total stream.conn symbols)
    (hne : symbols ≠ []) : stream.next = stream.resume ReceivedToken.decode := by
  rw [next, isEof_of_ne_nil hwithin hne]
  rfl

theorem next_token {rest : List UInt8} {token : ReceivedToken} {context : Context}
    (hwithin : Within last later total stream.conn symbols) (hne : symbols ≠ [])
    (hdecode : ReceivedToken.decode.run stream.conn.context symbols = .done token rest)
    (hreceive : stream.conn.context.receive token = .ok context) :
    ∃ after, stream.next = .token token after ∧ after.conn.context = context ∧
      after.lastError = rememberError stream.lastError token ∧
      Within last later total after.conn rest := by
  obtain ⟨conn, hdrive, hconn, hcontext⟩ := (Connection.pollRead_serves_in stream.conn.context)
    |>.drive_done ⟨hwithin, rfl⟩ hdecode
  rw [next_of_ne_nil hwithin hne, resume, hdrive]
  simp only [accept, hcontext, hreceive]
  obtain ⟨left, hstands, hsymbols⟩ := hconn
  exact ⟨_, rfl, rfl, rfl, left, hstands.of_eq rfl rfl rfl, hsymbols⟩

/-- How a stream goes on behind the tokens of a scan, by how the scan ended. -/
def Follows (last : Packet) (later : List Packet) (total : ℕ) (stream : TokenStream) :
    Scan → Prop
  | .complete context =>
    stream.conn.context = context ∧ Within last later total stream.conn []
  | .rejected error => ∃ conn left, stream.next = .failed error conn ∧
      Within last later total conn left
  | .panicked => ∃ conn, stream.next = .panicked conn
  | .cut left context rest => ∃ conn, stream.next = { stream with conn := conn }.resume left ∧
      conn.context = context ∧ Within last later total conn rest

/-- What happens at bytes that are not a token the context takes. -/
theorem follows_of_failed {fault : Fault} {rest : List UInt8}
    (hwithin : Within last later total stream.conn symbols) (hne : symbols ≠ [])
    (hdecode : ReceivedToken.decode.run stream.conn.context symbols = .failed fault rest) :
    Follows last later total stream (.ofFault fault) := by
  obtain ⟨conn, hdrive, hconn⟩ := Connection.pollRead_serves.drive_failed hwithin hdecode
  have hnext : stream.next = stream.resume ReceivedToken.decode := next_of_ne_nil hwithin hne
  rw [resume, hdrive] at hnext
  cases fault with
  | error error => exact ⟨conn, rest, hnext, hconn⟩
  | panic => exact ⟨conn, hnext⟩

theorem follows_of_short {left : Reader ReceivedToken} {rest : List UInt8}
    (hwithin : Within last later total stream.conn symbols) (hne : symbols ≠ [])
    (hdecode : ReceivedToken.decode.run stream.conn.context symbols = .short left rest) :
    Follows last later total stream (.cut left stream.conn.context rest) := by
  obtain ⟨conn, hdrive, hconn, hcontext⟩ := (Connection.pollRead_serves_in stream.conn.context)
    |>.drive_short ⟨hwithin, rfl⟩ hdecode
  refine ⟨conn, ?_, hcontext, hconn⟩
  rw [next_of_ne_nil hwithin hne, resume, hdrive, resume, hcontext]
  rfl

theorem follows_of_refused {token : ReceivedToken} {error : Error} {rest : List UInt8}
    (hwithin : Within last later total stream.conn symbols) (hne : symbols ≠ [])
    (hdecode : ReceivedToken.decode.run stream.conn.context symbols = .done token rest)
    (hreceive : stream.conn.context.receive token = .error error) :
    Follows last later total stream (.rejected error) := by
  obtain ⟨conn, hdrive, hconn, hcontext⟩ := (Connection.pollRead_serves_in stream.conn.context)
    |>.drive_done ⟨hwithin, rfl⟩ hdecode
  refine ⟨conn, rest, ?_, hconn⟩
  rw [next_of_ne_nil hwithin hne, resume, hdrive]
  simp only [accept, hcontext, hreceive]

/-- A stream yields the tokens of the contiguous bytes that are left, one after
the other, and then stands where reading those bytes ended. -/
theorem yields_scanFrom (fuel : ℕ) (stream : TokenStream) {symbols : List UInt8}
    (hwithin : Within last later total stream.conn symbols) (hfuel : symbols.length ≤ fuel) :
    ∃ final, Yields stream (scanFrom fuel stream.conn.context symbols).1 final ∧
      final.lastError =
        (scanFrom fuel stream.conn.context symbols).1.foldl rememberError stream.lastError ∧
      Follows last later total final (scanFrom fuel stream.conn.context symbols).2 := by
  induction fuel generalizing stream symbols with
  | zero =>
    have hnil : symbols = [] := List.length_eq_zero_iff.mp (Nat.le_zero.mp hfuel)
    subst hnil
    exact ⟨stream, .nil stream, rfl, rfl, hwithin⟩
  | succ fuel ih =>
    by_cases hne : symbols = []
    · subst hne
      exact ⟨stream, .nil stream, rfl, rfl, hwithin⟩
    · have hempty : symbols.isEmpty = false := List.isEmpty_eq_false_iff.mpr hne
      simp only [scanFrom, hempty, Bool.false_eq_true, if_false]
      cases hdecode : ReceivedToken.decode.run stream.conn.context symbols with
      | done token rest =>
        cases hreceive : stream.conn.context.receive token with
        | ok context =>
          obtain ⟨after, hnext, hcontext, herror, hafter⟩ :=
            next_token hwithin hne hdecode hreceive
          have hlength := ReceivedToken.decode_shrinks hdecode
          obtain ⟨final, hyields, hlast, hfollows⟩ := ih after hafter (by omega)
          rw [hcontext] at hyields hlast hfollows
          simp only [hreceive]
          refine ⟨final, .cons hnext hyields, ?_, hfollows⟩
          rw [hlast, herror]
          rfl
        | error error =>
          simp only [hreceive]
          exact ⟨stream, .nil stream, rfl, follows_of_refused hwithin hne hdecode hreceive⟩
      | failed fault rest =>
        have hfollows := follows_of_failed hwithin hne hdecode
        cases fault with
        | error error => exact ⟨stream, .nil stream, rfl, hfollows⟩
        | panic => exact ⟨stream, .nil stream, rfl, hfollows⟩
      | short left rest =>
        exact ⟨stream, .nil stream, rfl, follows_of_short hwithin hne hdecode⟩

end TokenStream

/-- A connection in front of a response: nothing of it has been read. -/
structure Connection.Awaits (conn : Connection) (response : Response) (later : List Packet) :
    Prop where
  inbound : conn.transport.inbound = response.packets ++ later
  flushed : conn.flushed = false
  buf : conn.buf = []

theorem Connection.Awaits.within {conn : Connection} {response : Response} {later : List Packet}
    (hawaits : conn.Awaits response later) :
    Within response.last later (conn.transport.polls + response.packets.length) conn
      response.bytes := by
  have hne : response.packets ≠ [] :=
    List.append_ne_nil_of_right_ne_nil _ (List.cons_ne_nil _ _)
  refine ⟨response.packets, ⟨hawaits.inbound, ?_, response.packets_endsWith, fun _ => hne, rfl⟩, ?_⟩
  · rw [hawaits.flushed, List.isEmpty_eq_false_iff.mpr hne]
  · rw [hawaits.buf]
    rfl

/-- A stream in front of a response whose last packet is not empty. -/
theorem yields_of_awaits [EncodingRs] {conn : Connection} {response : Response}
    {later : List Packet} {tokens : List ReceivedToken} {context : Context}
    (hawaits : conn.Awaits response later) (hlast : response.last.payload ≠ [])
    (hscan : scan conn.context response.bytes = (tokens, .complete context)) :
    ∃ stream after, Yields (.new conn) tokens stream ∧
      stream.next = TokenStream.finish { conn := after, lastError := finalError tokens } ∧
      after.transport.inbound = later ∧
      after.transport.polls = conn.transport.polls + response.packets.length ∧
      after.context = context := by
  have hyields := TokenStream.yields_scanFrom response.bytes.length (.new conn) hawaits.within
    (Nat.le_refl _)
  rw [show scanFrom response.bytes.length (TokenStream.new conn).conn.context response.bytes =
    (tokens, .complete context) from hscan] at hyields
  obtain ⟨final, hyields, herror, hcontext, hwithin⟩ := hyields
  obtain ⟨heof, hinbound, hpolls, -⟩ := TokenStream.isEof_of_nil hwithin hlast
  refine ⟨final, final.conn, hyields, ?_, hinbound, hpolls, hcontext⟩
  rw [TokenStream.next, heof, if_pos rfl, finalError]
  rw [show (TokenStream.new conn).lastError = none from rfl] at herror
  rw [← herror]

/-- Reading a response yields the tokens of its contiguous bytes whatever its
packets are, ends right behind the last of them, and polls for no packet behind
the one that ends the response. -/
theorem tokens_independent_of_packets [EncodingRs] {conn : Connection} {response : Response}
    {later : List Packet} {tokens : List ReceivedToken} {context : Context}
    (hawaits : conn.Awaits response later)
    (hpayloads : ∀ packet ∈ response.packets, packet.payload ≠ [])
    (hscan : scan conn.context response.bytes = (tokens, .complete context)) :
    ∃ stream after, Yields (.new conn) tokens stream ∧
      stream.next = TokenStream.finish { conn := after, lastError := finalError tokens } ∧
      after.transport.inbound = later ∧
      after.transport.polls = conn.transport.polls + response.packets.length ∧
      after.context = context := by
  have hlast : response.last ∈ response.packets := List.mem_append_right _ List.mem_cons_self
  exact yields_of_awaits hawaits (hpayloads response.last hlast) hscan

/-- A packet of a response, in the middle of it or at its end. -/
def responsePacket (last : Bool) (payload : List UInt8) : Packet where
  header :=
    { PacketHeader.new 0 0 with
      ty := .tabularResult
      status := if last then .endOfMessage else .normalMessage }
  payload := payload

/-- A DONE token cut in two inside its row count. -/
def cutDone : Response where
  body := [responsePacket false [0xFD, 0x10, 0, 0xC1, 0, 3]]
  last := responsePacket true [0, 0, 0, 0, 0, 0, 0]
  body_open := by decide
  last_ends := by decide

theorem tokens_independent_of_packets_cutDone :
    ∃ stream after, @Yields .ascii (.new (.new cutDone.packets .closed))
        [.done { status := .fromBitsTruncate 0x10, curCmd := 0xC1, doneRows := 3 }] stream ∧
      @TokenStream.next .ascii stream = .finished after ∧ after.transport.polls = 2 := by
  obtain ⟨stream, after, hyields, hnext, -, hpolls, -⟩ := @tokens_independent_of_packets .ascii
    (.new cutDone.packets .closed) cutDone []
    [.done { status := .fromBitsTruncate 0x10, curCmd := 0xC1, doneRows := 3 }] .new
    ⟨by rw [List.append_nil]; rfl, rfl, rfl⟩ (by decide) rfl
  exact ⟨stream, after, hyields, hnext, hpolls⟩

end Tiberius

import Tiberius.Encoders
import Tiberius.Guard

/-!
The rows of a bulk insert. Rows are encoded behind each other into one buffer
that is emptied by full packets between the calls. A row that cannot be encoded
is taken back, so over any sequence of calls the packets carry the metadata, the
rows that have been accepted and one closing token, cut at the packet size
without regard to where a row ends.
-/

namespace Tiberius

open Reading Writing Writer

section Rows

variable [StdLib] [EncodingRs]

def TokenRow.encodeCells : List ColumnData → List MetaDataColumn → Writer Unit
  | value :: data, column :: columns => do
    value.encode (some column.base.ty)
    encodeCells data columns
  | _, _ => pure ()

/-- `TokenRow::encode`: the token byte is written before the cells are counted. -/
def TokenRow.encode (row : TokenRow) (dataColumns : List MetaDataColumn) : Writer Unit := do
  putU8 0xD1
  if row.data.length ≠ dataColumns.length then
    bulkInput ("Expecting " ++ toString dataColumns.length ++ " columns but " ++
      toString row.data.length ++ " were given")
  else encodeCells row.data dataColumns

/-- A bulk request with the columns of its rows. -/
structure BulkLoad where
  request : BulkLoadRequest
  columns : List MetaDataColumn

namespace BulkLoad

/-- The request with other bytes in its buffer. -/
def setBuf (load : BulkLoad) (buf : List UInt8) : BulkLoad :=
  { load with request := { load.request with buf := buf } }

omit [StdLib] [EncodingRs] in
/-- `BulkLoadRequest::new`. -/
def new (columns : List MetaDataColumn) (conn : Connection) :
    Except Fault BulkLoad × Connection :=
  let (packetId, context) := conn.context.nextPacketId
  let conn := { conn with context := context }
  let cmd := TokenColMetaData.encode { columns := columns }
  match cmd.result with
  | .error fault => (.error fault, conn)
  | .ok () =>
    let (message, conn) := conn.openMessage
    (.ok { request := { packetId := packetId, buf := cmd.output, message := message }, columns },
      conn)

/-- `BulkLoadRequest::send`. The row is encoded into the buffer itself, which is
cut back to where it began when that fails; a panic leaves it as it is. -/
def send (load : BulkLoad) (row : TokenRow) (fates : List Fate) (conn : Connection) :
    Attempt × BulkLoad :=
  match conn.ensureNotPoisoned with
  | .error error => (.returned (.error error) conn, load)
  | .ok () =>
    let start := load.request.buf.length
    let encoded := row.encode load.columns
    let buf := load.request.buf ++ encoded.output
    match encoded.result with
    | .error (.error error) => (.returned (.error error) conn, load.setBuf (buf.take start))
    | .error .panic => (.panicked conn, load.setBuf buf)
    | .ok () =>
      let (attempt, request, _) := (load.setBuf buf).request.writePackets fates conn
      (attempt, { load with request := request })

/-- One call of `send` for each row, with what the calls return. -/
def sendRows (load : BulkLoad) : List TokenRow → Connection →
    Option (List (Except Error Unit) × BulkLoad × Connection)
  | [], conn => some ([], load, conn)
  | row :: rows, conn =>
    match load.send row [] conn with
    | (.returned result conn, load) =>
      (sendRows load rows conn).map fun (results, load, conn) => (result :: results, load, conn)
    | _ => none

end BulkLoad

/-- The bytes of a row that can be encoded. -/
def TokenRow.accepted (columns : List MetaDataColumn) (row : TokenRow) : Option (List UInt8) :=
  match (row.encode columns).result with
  | .ok () => some (row.encode columns).output
  | .error _ => none

end Rows

/-- Packets that have been written whole, on a connection that is as it was otherwise. -/
structure Connection.Sent (conn after : Connection) (packets : List Packet) : Prop where
  context : after.context = conn.context
  poisoned : after.poisoned = conn.poisoned
  desync : after.commandDesync = conn.commandDesync
  clean : after.transport.Clean
  wire : after.transport.wire =
    conn.transport.wire ++ (packets.map fun packet => packet.encode []).flatten

namespace Connection.Sent

variable {conn middle after : Connection} {packets more : List Packet}

theorem refl (hclean : conn.transport.Clean) : conn.Sent conn [] where
  context := rfl
  poisoned := rfl
  desync := rfl
  clean := hclean
  wire := (List.append_nil _).symm

theorem trans (hfirst : conn.Sent middle packets) (hsecond : middle.Sent after more) :
    conn.Sent after (packets ++ more) where
  context := hsecond.context.trans hfirst.context
  poisoned := hsecond.poisoned.trans hfirst.poisoned
  desync := hsecond.desync.trans hfirst.desync
  clean := hsecond.clean
  wire := by
    rw [hsecond.wire, hfirst.wire, List.map_append, List.flatten_append, List.append_assoc]

theorem usable (hsent : conn.Sent after packets) (husable : conn.ensureNotPoisoned = .ok ()) :
    after.ensureNotPoisoned = .ok () := by
  rw [← husable, ensureNotPoisoned, ensureNotPoisoned, hsent.poisoned, hsent.desync]

theorem bracket (hsent : conn.poison.Sent after packets) (hclear : conn.poisoned = false) :
    conn.Sent after.unpoison packets where
  context := hsent.context
  poisoned := hclear.symm
  desync := hsent.desync
  clean := hsent.clean
  wire := hsent.wire

end Connection.Sent

theorem Connection.writeToWire_sent {conn : Connection} (hclean : conn.transport.Clean)
    (message : ℕ) (header : PacketHeader) (data : List UInt8) :
    ∃ after, conn.writeToWire message header data .completes = .returned (.ok ()) after ∧
      conn.Sent after [{ header := header, payload := data }] := by
  have hwrite := writeToWire_completes message header data hclean
  have hsends := writeToWire_sends message header data .completes hclean
  refine ⟨_, hwrite, rfl, rfl, rfl, hsends.clean hclean hwrite, ?_⟩
  rw [List.map_singleton, List.flatten_singleton]
  rfl

/-- Packets of a bulk request that leave its message open. -/
def openPackets (packetId : UInt8) (pieces : List (List UInt8)) : List Packet :=
  pieces.map fun piece => { header := .bulkLoad packetId, payload := piece }

theorem openPackets_append (packetId : UInt8) (first second : List (List UInt8)) :
    openPackets packetId (first ++ second) =
      openPackets packetId first ++ openPackets packetId second := List.map_append

theorem openPackets_payload (packetId : UInt8) (pieces : List (List UInt8)) :
    (openPackets packetId pieces).flatMap Packet.payload = pieces.flatten := by
  induction pieces with
  | nil => rfl
  | cons piece pieces ih =>
    rw [List.flatten_cons, ← ih]
    rfl

theorem openPackets_full {packetId : UInt8} {pieces : List (List UInt8)} {chunk : ℕ}
    (hfull : ∀ piece ∈ pieces, piece.length = chunk) :
    ∀ packet ∈ openPackets packetId pieces, packet.header.status = .normalMessage ∧
      (packet.encode []).length = headerBytes + chunk := by
  intro packet hpacket
  obtain ⟨piece, hpiece, rfl⟩ := List.mem_map.mp hpacket
  refine ⟨rfl, ?_⟩
  rw [Packet.encode_nil_length, hfull piece hpiece]

namespace BulkLoadRequest

variable {conn : Connection} {chunk : ℕ}

/-- The packet loop writes full pieces off the front of the buffer. -/
theorem writeLoop_sent (hpos : 0 < chunk) (fuel : ℕ) (request : BulkLoadRequest)
    (hclean : conn.transport.Clean) (hfuel : request.buf.length < fuel) :
    ∃ pieces rest after,
      writeLoop chunk fuel request [] conn =
          (.returned (.ok ()) after, { request with buf := rest }, []) ∧
        conn.Sent after (openPackets request.packetId pieces) ∧
        (∀ piece ∈ pieces, piece.length = chunk) ∧ pieces.flatten ++ rest = request.buf ∧
        rest.length ≤ chunk := by
  induction fuel generalizing request conn with
  | zero => exact absurd hfuel (Nat.not_lt_zero _)
  | succ fuel ih =>
    by_cases hshort : request.buf.length ≤ chunk
    · refine ⟨[], request.buf, conn, ?_, .refl hclean, ?_, rfl, hshort⟩
      · rw [writeLoop, if_pos hshort]
      · exact fun piece hpiece => absurd hpiece List.not_mem_nil
    · obtain ⟨middle, hwrite, hsent⟩ := Connection.writeToWire_sent hclean request.message
        (.bulkLoad request.packetId) (request.buf.take chunk)
      have hrest : (request.buf.drop chunk).length < fuel := by
        rw [List.length_drop]
        omega
      obtain ⟨pieces, rest, after, hloop, hmore, hfull, hflatten, hlast⟩ :=
        ih { request with buf := request.buf.drop chunk } hsent.clean hrest
      refine ⟨request.buf.take chunk :: pieces, rest, after, ?_, hsent.trans hmore, ?_, ?_, hlast⟩
      · rw [writeLoop, if_neg hshort]
        simp only [List.headD_nil, hwrite, List.tail_nil]
        exact hloop
      · intro piece hpiece
        rcases List.mem_cons.mp hpiece with rfl | hpiece
        · rw [List.length_take]
          omega
        · exact hfull piece hpiece
      · rw [List.flatten_cons, List.append_assoc, hflatten]
        exact List.take_append_drop chunk request.buf

theorem writePackets_sent (hchunk : conn.context.chunkSize = some chunk) (hpos : 0 < chunk)
    (husable : conn.ensureNotPoisoned = .ok ()) (hclean : conn.transport.Clean)
    (request : BulkLoadRequest) :
    ∃ pieces rest after,
      request.writePackets [] conn =
          (.returned (.ok ()) after, { request with buf := rest }, []) ∧
        conn.Sent after (openPackets request.packetId pieces) ∧
        (∀ piece ∈ pieces, piece.length = chunk) ∧ pieces.flatten ++ rest = request.buf ∧
        rest.length ≤ chunk := by
  by_cases hshort : request.buf.length ≤ chunk
  · refine ⟨[], request.buf, conn, ?_, .refl hclean, ?_, rfl, hshort⟩
    · simp only [writePackets, hchunk, hshort, if_true]
    · exact fun piece hpiece => absurd hpiece List.not_mem_nil
  · have hopen : conn.poison.transport.Clean := ⟨hclean.sink, hclean.frames⟩
    obtain ⟨pieces, rest, after, hloop, hsent, hparts⟩ :=
      writeLoop_sent hpos (request.buf.length + 1) request hopen (Nat.lt_succ_self _)
    have hclear := (Connection.not_poisoned_of_guard husable).1
    refine ⟨pieces, rest, after.unpoison, ?_, hsent.bracket hclear, hparts⟩
    simp only [writePackets, hchunk, hshort, if_false, hloop]
    rfl

/-- The closing call writes one more packet, with what is left and the end of the message. -/
theorem writeLast_sent (husable : conn.ensureNotPoisoned = .ok ())
    (hclean : conn.transport.Clean) (request : BulkLoadRequest) :
    ∃ after, request.writeLast [] conn = .returned (.ok ()) after ∧
      conn.Sent after [{ header := (PacketHeader.bulkLoad request.packetId).setStatus .endOfMessage
                         payload := request.buf }] := by
  have hopen : conn.poison.transport.Clean := ⟨hclean.sink, hclean.frames⟩
  have hclear := (Connection.not_poisoned_of_guard husable).1
  obtain ⟨middle, hwrite, hsent⟩ := Connection.writeToWire_sent hopen request.message
    ((PacketHeader.bulkLoad request.packetId).setStatus .endOfMessage) request.buf
  refine ⟨middle.unpoison, ?_, hsent.bracket hclear⟩
  simp only [writeLast, List.headD_nil, List.tail_nil, hwrite, Attempt.andThen,
    Connection.flushSink_clean .completes hsent.clean]

theorem send_sent (hchunk : conn.context.chunkSize = some chunk) (hpos : 0 < chunk)
    (husable : conn.ensureNotPoisoned = .ok ()) (hclean : conn.transport.Clean)
    (request : BulkLoadRequest) (bytes : List UInt8) :
    ∃ pieces rest after,
      request.send (.ok bytes) [] conn = (.returned (.ok ()) after, { request with buf := rest }) ∧
        conn.Sent after (openPackets request.packetId pieces) ∧
        (∀ piece ∈ pieces, piece.length = chunk) ∧
        pieces.flatten ++ rest = request.buf ++ bytes := by
  obtain ⟨pieces, rest, after, hwrite, hsent, hfull, hflatten, -⟩ := writePackets_sent hchunk hpos
    husable hclean { request with buf := request.buf ++ bytes }
  refine ⟨pieces, rest, after, ?_, hsent, hfull, hflatten⟩
  simp only [send, husable, hwrite]

theorem finalize_sent (hchunk : conn.context.chunkSize = some chunk) (hpos : 0 < chunk)
    (husable : conn.ensureNotPoisoned = .ok ()) (hclean : conn.transport.Clean)
    (request : BulkLoadRequest) :
    ∃ pieces rest after,
      request.finalize [] conn = .returned (.ok ()) after ∧
        conn.Sent after (openPackets request.packetId pieces ++
          [{ header := (PacketHeader.bulkLoad request.packetId).setStatus .endOfMessage
             payload := rest }]) ∧
        (∀ piece ∈ pieces, piece.length = chunk) ∧
        pieces.flatten ++ rest = request.buf ++ defaultDoneBytes := by
  obtain ⟨pieces, rest, middle, hwrite, hsent, hfull, hflatten, -⟩ := writePackets_sent hchunk hpos
    husable hclean { request with buf := request.buf ++ defaultDoneBytes }
  obtain ⟨after, hlast, hend⟩ := writeLast_sent (hsent.usable husable) hsent.clean
    { request with buf := rest }
  refine ⟨pieces, rest, after, ?_, hsent.trans hend, hfull, hflatten⟩
  simp only [finalize, husable, hwrite, Attempt.andThen]
  exact hlast

end BulkLoadRequest

namespace BulkLoad

@[simp] theorem setBuf_packetId (load : BulkLoad) (buf : List UInt8) :
    (load.setBuf buf).request.packetId = load.request.packetId := rfl

@[simp] theorem setBuf_buf (load : BulkLoad) (buf : List UInt8) :
    (load.setBuf buf).request.buf = buf := rfl

variable [StdLib] [EncodingRs] {load : BulkLoad} {row : TokenRow}

omit [StdLib] [EncodingRs] in
/-- A new request holds the metadata and has written nothing. -/
theorem new_opens {columns : List MetaDataColumn} {conn after : Connection}
    (hnew : new columns conn = (.ok load, after)) :
    load.columns = columns ∧
      load.request.buf = (TokenColMetaData.encode { columns := columns }).output ∧
      after.context.chunkSize = conn.context.chunkSize ∧
      after.ensureNotPoisoned = conn.ensureNotPoisoned ∧
      (conn.transport.Clean → after.transport.Clean) ∧
      after.transport.wire = conn.transport.wire := by
  unfold new at hnew
  cases hcmd : (TokenColMetaData.encode { columns := columns }).result with
  | error fault =>
    simp only [hcmd, Prod.mk.injEq, reduceCtorEq, false_and] at hnew
  | ok value =>
    simp only [hcmd, Prod.mk.injEq, Except.ok.injEq] at hnew
    obtain ⟨rfl, rfl⟩ := hnew
    exact ⟨rfl, rfl, rfl, rfl, fun hclean => ⟨hclean.sink, hclean.frames⟩, rfl⟩

theorem send_accepted (hrow : (row.encode load.columns).result = .ok ()) (fates : List Fate)
    (conn : Connection) :
    load.send row fates conn =
      ((load.request.send (.ok (row.encode load.columns).output) fates conn).1,
        { load with
          request := (load.request.send (.ok (row.encode load.columns).output) fates conn).2 }) := by
  rw [send, BulkLoadRequest.send]
  cases conn.ensureNotPoisoned with
  | error error => rfl
  | ok value =>
    simp only [hrow]
    rfl

/-- A row that is refused takes what it has written back with it. -/
theorem send_refused {error : Error} (hrow : (row.encode load.columns).result = .error (.error error))
    (fates : List Fate) (conn : Connection) :
    load.send row fates conn = ((load.request.send (.error error) fates conn).1, load) := by
  have hbuf : load.setBuf ((load.request.buf ++ (row.encode load.columns).output).take
      load.request.buf.length) = load := by
    rw [List.take_left]
    rfl
  rw [send, BulkLoadRequest.send]
  cases conn.ensureNotPoisoned with
  | error error => rfl
  | ok value => simp only [hrow, hbuf]

/-- A call whose row is refused leaves the request and the connection as they were. -/
theorem send_unchanged {error : Error} {conn : Connection}
    (hrow : (row.encode load.columns).result = .error (.error error))
    (husable : conn.ensureNotPoisoned = .ok ()) :
    load.send row [] conn = (.returned (.error error) conn, load) := by
  rw [send_refused hrow, BulkLoadRequest.send, husable]

/-- A sequence of calls on a usable connection. The packets and the buffer together
hold what the buffer held and the rows that have been accepted. -/
theorem sendRows_sent {conn : Connection} {chunk : ℕ}
    (hchunk : conn.context.chunkSize = some chunk) (hpos : 0 < chunk)
    (husable : conn.ensureNotPoisoned = .ok ()) (hclean : conn.transport.Clean) (load : BulkLoad)
    (rows : List TokenRow)
    (hrows : ∀ row ∈ rows, (row.encode load.columns).result ≠ .error .panic) :
    ∃ results pieces rest after,
      load.sendRows rows conn = some (results, load.setBuf rest, after) ∧
        conn.Sent after (openPackets load.request.packetId pieces) ∧
        (∀ piece ∈ pieces, piece.length = chunk) ∧
        pieces.flatten ++ rest =
          load.request.buf ++ (rows.filterMap (TokenRow.accepted load.columns)).flatten ∧
        List.Forall₂ (fun row result =>
          (row.encode load.columns).result = Except.mapError .error result) rows results := by
  induction rows generalizing load conn with
  | nil =>
    refine ⟨[], [], load.request.buf, conn, rfl, .refl hclean, ?_, ?_, .nil⟩
    · exact fun piece hpiece => absurd hpiece List.not_mem_nil
    · exact (List.append_nil _).symm
  | cons row rows ih =>
    have hhead := hrows row List.mem_cons_self
    have htail := fun other hother => hrows other (List.mem_cons_of_mem row hother)
    cases hrow : (row.encode load.columns).result with
    | ok value =>
      obtain ⟨first, middle, next, hsend, hsent, hfull, hflatten⟩ :=
        BulkLoadRequest.send_sent hchunk hpos husable hclean load.request
          (row.encode load.columns).output
      obtain ⟨results, pieces, rest, after, hrest, hmore, hpieces, hstream, hresults⟩ :=
        ih (by rw [hsent.context]; exact hchunk) (hsent.usable husable) hsent.clean
          (load.setBuf middle) htail
      refine ⟨.ok () :: results, first ++ pieces, rest, after, ?_, ?_, ?_, ?_, ?_⟩
      · rw [sendRows, send_accepted hrow, hsend]
        simp only
        rw [show load.setBuf middle = { load with request := { load.request with buf := middle } }
          from rfl] at hrest
        rw [hrest]
        rfl
      · rw [openPackets_append]
        exact hsent.trans hmore
      · intro piece hpiece
        rcases List.mem_append.mp hpiece with hpiece | hpiece
        · exact hfull piece hpiece
        · exact hpieces piece hpiece
      · have haccepted : row.accepted load.columns = some (row.encode load.columns).output := by
          rw [TokenRow.accepted, hrow]
        rw [List.flatten_append, List.append_assoc, hstream, List.filterMap_cons_some haccepted,
          List.flatten_cons, ← List.append_assoc, ← List.append_assoc, ← hflatten]
        rfl
      · exact .cons hrow hresults
    | error fault =>
      cases fault with
      | panic => exact absurd hrow hhead
      | error error =>
        obtain ⟨results, pieces, rest, after, hrest, hsent, hfull, hstream, hresults⟩ :=
          ih hchunk husable hclean load htail
        refine ⟨.error error :: results, pieces, rest, after, ?_, hsent, hfull, ?_,
          .cons hrow hresults⟩
        · rw [sendRows, send_unchanged hrow husable]
          simp only
          rw [hrest]
          rfl
        · have hrefused : row.accepted load.columns = none := by
            rw [TokenRow.accepted, hrow]
          rw [hstream, List.filterMap_cons_none hrefused]

end BulkLoad

/-- Over any calls of `send`, with rows that are encoded or refused, and a final
call, all on the connection that a run leaves usable: a refused row leaves the
request as it was, and the packets written carry the metadata, the accepted rows
and the closing token, full and open up to the last one, which ends the message. -/
theorem bulkLoad_written [StdLib] [EncodingRs] {inbound : List Packet} {ending : Ending}
    {session : Session}
    (hreach : Reached Session.step (fun _ _ => True) (.new inbound ending) session)
    (husable : session.conn.ensureNotPoisoned = .ok ()) (columns : List MetaDataColumn)
    (load : BulkLoad) (conn : Connection)
    (hnew : BulkLoad.new columns session.conn = (.ok load, conn)) (rows : List TokenRow)
    (hrows : ∀ row ∈ rows, (row.encode columns).result ≠ .error .panic) :
    (∀ before row rest error, rows = before ++ row :: rest →
      (row.encode columns).result = .error (.error error) →
        ∃ results state middle, load.sendRows before conn = some (results, state, middle) ∧
          state.send row [] middle = (.returned (.error error) middle, state)) ∧
      ∃ (results : List (Except Error Unit)) (last : BulkLoad) (middle after : Connection)
          (packets : List Packet),
        load.sendRows rows conn = some (results, last, middle) ∧
        List.Forall₂ (fun row result =>
          (row.encode columns).result = Except.mapError .error result) rows results ∧
        last.request.finalize [] middle = .returned (.ok ()) after ∧
        after.transport.wire = session.conn.transport.wire ++
          (packets.map fun packet => packet.encode []).flatten ∧
        packets.flatMap Packet.payload = (TokenColMetaData.encode { columns := columns }).output ++
          (rows.filterMap (TokenRow.accepted columns)).flatten ++ defaultDoneBytes ∧
        (∀ packet ∈ packets.dropLast, packet.header.status = .normalMessage ∧
          (packet.encode []).length = session.conn.context.packetSize.toNat) ∧
        ∃ final, packets.getLast? = some final ∧ final.header.status = .endOfMessage := by
  obtain ⟨rfl, hbuf, hcontext, hguard, htransport, hwire⟩ := BulkLoad.new_opens hnew
  have hclear := (Connection.not_poisoned_of_guard husable).1
  have hkept := Session.reached_kept hreach
  obtain ⟨chunk, hchunk, hpos, hsize⟩ := hkept.range.chunkSize
  have hclean := htransport (hkept.clean hclear)
  have husable := hguard.trans husable
  have hchunk := hcontext.trans hchunk
  refine ⟨?_, ?_⟩
  · rintro before row rest error rfl hrow
    obtain ⟨results, pieces, buf, middle, hsend, hsent, -⟩ := BulkLoad.sendRows_sent hchunk hpos
      husable hclean load before fun row hmem => hrows row (List.mem_append_left _ hmem)
    exact ⟨results, load.setBuf buf, middle, hsend,
      BulkLoad.send_unchanged hrow (hsent.usable husable)⟩
  · obtain ⟨results, pieces, buf, middle, hsend, hsent, hfull, hstream, hresults⟩ :=
      BulkLoad.sendRows_sent hchunk hpos husable hclean load rows hrows
    obtain ⟨others, rest, after, hfinalize, hend, hothers, hclose⟩ :=
      BulkLoadRequest.finalize_sent (hsent.context ▸ hchunk) hpos (hsent.usable husable)
        hsent.clean (load.setBuf buf).request
    have hwritten := hsent.trans hend
    rw [← List.append_assoc, BulkLoad.setBuf_packetId, ← openPackets_append] at hwritten
    have hall := hwritten.wire
    rw [hwire] at hall
    refine ⟨results, load.setBuf buf, middle, after, _, hsend, hresults, hfinalize, hall, ?_, ?_, ?_⟩
    · rw [List.flatMap_append, openPackets_payload, List.flatMap_singleton, List.flatten_append,
        List.append_assoc, hclose, BulkLoad.setBuf_buf, ← hbuf, ← hstream, List.append_assoc]
    · intro packet hpacket
      rw [List.dropLast_concat] at hpacket
      rw [← hsize]
      refine openPackets_full ?_ packet hpacket
      intro piece hpiece
      rcases List.mem_append.mp hpiece with hpiece | hpiece
      · exact hfull piece hpiece
      · exact hothers piece hpiece
    · exact ⟨_, List.getLast?_concat, rfl⟩

/-- Three rows for one column of four-byte integers: the second has a cell too many,
the third a value of another type. -/
theorem bulkLoad_written_refused :
    ∃ (packets : List Packet) (after : Connection),
      after.transport.wire = (packets.map fun packet => packet.encode []).flatten ∧
        packets.flatMap Packet.payload =
          [0x81, 1, 0, 0, 0, 0, 0, 1, 0, 0x26, 4, 1, 0x61, 0] ++ [0xD1, 4, 7, 0, 0, 0] ++
            defaultDoneBytes := by
  obtain ⟨-, results, last, middle, after, packets, -, -, -, hwire, hpayload, -⟩ :=
    @bulkLoad_written .exact .ascii [] .silent (.new [] .silent) .refl rfl
      [⟨⟨1, .varLenSized ⟨.intn, 4, none⟩, none⟩, "a"⟩] _ _ rfl
      [⟨[.i32 (some 7)]⟩, ⟨[.i32 (some 7), .i32 none]⟩, ⟨[.bit (some true)]⟩] (by
        intro row hrow
        simp only [List.mem_cons, List.not_mem_nil, or_false] at hrow
        rcases hrow with rfl | rfl | rfl
        · intro h
          cases h
        · intro h
          cases h
        · intro h
          cases h)
  exact ⟨packets, after, hwire, hpayload⟩

end Tiberius

import Tiberius.Messages
import Tiberius.ProcedureCalls
import Tiberius.Reading.ToEnd
import Tiberius.XmlValues

/-!
What the other side takes from the messages of a client. A request is read back from its
payload as it was made: the text of a batch, the procedure and the parameters of a call,
the kind and the name of a transaction request, and the descriptor in front of them.
Tables are not read back here, nor the one length of a procedure name that stands for a
number in its place.
-/

namespace Tiberius

open Reading Reader Program Writing Writer

section Values

/-- A value as the other side has it: a NULL without a type of its own comes as the NULL
of an integer, and an XML value without its schema. -/
def ColumnData.received : ColumnData → ColumnData
  | string none | binary none | numeric none | xml none | dateTime none | smallDateTime none
  | time none | date none | dateTime2 none | dateTimeOffset none => i32 none
  | xml (some value) => xml (some { data := value.data, schema := none })
  | data => data

/-- The values that reach the other side. -/
def ColumnData.Deliverable : ColumnData → Prop
  | xml (some value) => value.data ≠ "" ∧ value.payload.length ≤ maxPlpSize
  | xml none => True
  | data => data.Sendable

variable [EncodingRs] [StdLib] {env : Context}

/-- A value goes out without a column, and is read as it is received. -/
def Arrives (env : Context) (data : ColumnData) : Prop :=
  ∃ bytes, data.encode none = .done bytes () ∧ decodeTyped.Reads env bytes data.received

theorem arrives_null {data : ColumnData} (hreceived : data.received = .i32 none)
    (hencode : data.encode none = .done [FixedLenType.null.toByte] ()) : Arrives env data := by
  refine ⟨_, hencode, ?_⟩
  rw [hreceived]
  rfl

theorem xml_arrives {value : XmlData} (hdata : value.data ≠ "")
    (hmax : value.payload.length ≤ maxPlpSize) : Arrives env (.xml (some value)) := by
  have hsize : value.payload.length < 2 ^ 32 := by
    unfold maxPlpSize at hmax
    omega
  have hchunk : value.bytes = chunkBytes value.payload := by
    rw [XmlData.bytes, if_neg, List.append_nil]
    intro hnil
    exact hdata (XmlData.payload_eq_nil_iff.mp (List.isEmpty_iff.mp hnil))
  have hheader : TypeInfo.decode.Reads env [VarLenType.xml.toByte, 0]
      (.xml none 0xfffffffffffffffe) := rfl
  refine ⟨[VarLenType.xml.toByte, 0] ++ value.bytes,
    Written.headed_done _ (XmlData.encode_of_lt hsize), ?_⟩
  rw [hchunk]
  exact hheader.bind (XmlData.decode_chunk none (by decide) hmax)

theorem arrives (data : ColumnData) (hdata : data.Deliverable) : Arrives env data := by
  cases data with
  | u8 value => exact u8_roundTrips value
  | i16 value => exact i16_roundTrips value
  | i32 value => exact i32_roundTrips value
  | i64 value => exact i64_roundTrips value
  | f32 bits => exact f32_roundTrips bits
  | f64 bits => exact f64_roundTrips bits
  | bit value => exact bit_roundTrips value
  | guid bytes => exact guid_roundTrips (by rintro guid rfl; exact hdata)
  | string value =>
    cases value with
    | none => exact arrives_null rfl rfl
    | some text => exact string_roundTrips hdata
  | binary bytes =>
    cases bytes with
    | none => exact arrives_null rfl rfl
    | some bytes => exact binary_roundTrips hdata
  | numeric value =>
    cases value with
    | none => exact arrives_null rfl rfl
    | some num => exact numeric_roundTrips hdata.1 hdata.2
  | xml value =>
    cases value with
    | none => exact arrives_null rfl rfl
    | some value => exact xml_arrives hdata.1 hdata.2
  | dateTime value =>
    cases value with
    | none => exact arrives_null rfl rfl
    | some dt => exact dateTime_roundTrips dt
  | smallDateTime value =>
    cases value with
    | none => exact arrives_null rfl rfl
    | some dt => exact smallDateTime_roundTrips dt
  | time value =>
    cases value with
    | none => exact arrives_null rfl rfl
    | some time => exact time_roundTrips hdata
  | date value =>
    cases value with
    | none => exact arrives_null rfl rfl
    | some date => exact date_roundTrips hdata
  | dateTime2 value =>
    cases value with
    | none => exact arrives_null rfl rfl
    | some dt => exact dateTime2_roundTrips hdata.1 hdata.2
  | dateTimeOffset value =>
    cases value with
    | none => exact arrives_null rfl rfl
    | some dto => exact dateTimeOffset_roundTrips hdata.1 hdata.2

end Values

/-- A parameter of a call as it is received. -/
structure Argument where
  name : String
  flags : UInt8
  value : ColumnData
  deriving DecidableEq, Repr

/-- What a request asks for. -/
inductive Asked where
  | batch (text : String)
  | call (procedure : RpcProcIdValue) (options : UInt16) (arguments : List Argument)
  | transaction (body : TransactionRequestBody)
  deriving DecidableEq, Repr

/-- A message of a client as it is received. -/
inductive Received where
  | attention
  | request (transactionDesc : List UInt8) (asked : Asked)
  deriving DecidableEq, Repr

def IsolationLevel.all : List IsolationLevel :=
  [unspecified, readUncommitted, readCommitted, repeatableRead, serializable, snapshot]

def RpcProcId.all : List RpcProcId :=
  [cursorOpen, cursorFetch, cursorClose, executeSQL, prepare, execute, prepExec, unprepare]

section Readers

/-- The block of headers in front of a request, for its transaction descriptor. -/
def readAllHeadersTx : Reader (List UInt8) := do
  let total ← readU32Le
  let length ← readU32Le
  let ty ← readU16Le
  let transactionDesc ← readExact 8
  let outstanding ← readU32Le
  if total = 22 ∧ length = 18 ∧ ty = 2 ∧ outstanding = 1 then pure transactionDesc
  else Reader.protocol "unexpected headers"

/-- The procedure of a call; the length 0xffff stands for a number in its place. -/
def readProcId : Reader RpcProcIdValue := do
  let count ← readU16Le
  if count = 0xffff then do
    let number ← readU16Le
    match RpcProcId.all.find? fun id => id.toNat == number.toNat with
    | some id => pure (.id id)
    | none => Reader.protocol "unknown procedure number"
  else do
    let name ← readVarchar count.toNat
    pure (.name name)

def readProcedure : Reader (RpcProcIdValue × UInt16) := do
  let procedure ← readProcId
  let options ← readU16Le
  pure (procedure, options)

def readIsolationLevel : Reader IsolationLevel := do
  let byte ← readU8
  match IsolationLevel.all.find? fun level => level.toByte == byte with
  | some level => pure level
  | none => Reader.protocol "unknown isolation level"

/-- The end of a transaction request: no other transaction is to begin. -/
def readNoBegin : Reader Unit := do
  let flags ← readU8
  if flags = 0 then pure () else Reader.protocol "unexpected flags"

def readTransaction : Reader TransactionRequestBody := do
  let requestType ← readU16Le
  if requestType = 5 then do
    let level ← readIsolationLevel
    let name ← readBVarchar
    pure (.begin level name)
  else if requestType = 7 then do
    let name ← readBVarchar
    let _ ← readNoBegin
    pure (.commit name)
  else if requestType = 8 then do
    let name ← readBVarchar
    let _ ← readNoBegin
    pure (.rollback name)
  else if requestType = 9 then do
    let name ← readBVarchar
    pure (.save name)
  else Reader.protocol "unknown transaction request"

def batchText (bytes : List UInt8) : Option String :=
  if bytes.length % 2 = 0 then fromUtf16 (unitsLe bytes) else none

variable [EncodingRs]

def readArgument : Reader Argument := do
  let name ← readBVarchar
  let flags ← readU8
  let value ← decodeTyped
  pure { name := name, flags := flags, value := value }

/-- What stands behind the headers of a request. -/
def Asked.read (env : Context) : PacketType → List UInt8 → Option Asked
  | .sqlBatch, bytes => (batchText bytes).map .batch
  | .rpc, bytes =>
    match readProcedure.run env bytes with
    | .done (procedure, options) rest =>
      (readArgument.toEnd env rest.length rest).map (.call procedure options)
    | _ => none
  | .transactionManagerReq, bytes =>
    match readTransaction.run env bytes with
    | .done body [] => some (.transaction body)
    | _ => none
  | _, _ => none

/-- A message of a client as the other side reads it. -/
def Received.read (env : Context) (message : Message) : Option Received :=
  if message.ty = .attentionSignal then
    if message.payload.isEmpty then some .attention else none
  else
    match readAllHeadersTx.run env message.payload with
    | .done transactionDesc rest =>
      (Asked.read env message.ty rest).map (.request transactionDesc)
    | _ => none

end Readers

namespace TransactionRequestBody

def name : TransactionRequestBody → String
  | begin _ name | commit name | rollback name | save name => name

/-- What stands around the name of a request. -/
def around : TransactionRequestBody → List UInt8 → List UInt8
  | begin level _, text => [level.toByte] ++ text
  | commit _, text | rollback _, text => text ++ [0]
  | save _, text => text

end TransactionRequestBody

/-- A parameter as it arrives; a table is none. -/
def RpcParam.argument (param : RpcParam) : Option Argument :=
  match param.value with
  | .scalar value => some { name := param.name, flags := param.flags, value := value.received }
  | .table _ => none

def RpcParam.Deliverable (param : RpcParam) : Prop :=
  ∃ value, param.value = .scalar value ∧ value.Deliverable

namespace Call

/-- What a call asks the other side for. -/
def asked : Call → Asked
  | simpleQuery text => .batch text
  | query text params => .call (.id .executeSQL) 0 <|
      { name := "stmt", flags := 0, value := .string (some text) } ::
        { name := "params", flags := 0, value := .string (some (paramStr params)) } ::
          params.mapIdx fun i param =>
            { name := placeholder i, flags := 0, value := param.received }
  | procedure commandName params =>
    .call (.name commandName) 0 (params.filterMap RpcParam.argument)
  | beginTransaction isolationLevel => .transaction (.begin isolationLevel "")
  | commitTransaction => .transaction (.commit "")
  | rollbackTransaction => .transaction (.rollback "")
  | saveTransaction name => .transaction (.save name)

/-- The calls that are read back: their values reach the other side, and the name of a
procedure does not have the length that stands for a number. -/
def Deliverable : Call → Prop
  | query text params =>
    (ColumnData.string (some text)).Deliverable ∧
      (ColumnData.string (some (paramStr params))).Deliverable ∧
        ∀ param ∈ params, param.Deliverable
  | procedure commandName params =>
    (encodeUtf16 commandName.toList).length ≠ 65535 ∧ ∀ param ∈ params, param.Deliverable
  | _ => True

end Call

section Reading

variable {env : Context}

theorem readAllHeadersTx_reads (desc : Vector UInt8 8) :
    readAllHeadersTx.Reads env (encodeAllHeadersTx desc) desc.toList := by
  have htotal : readU32Le.Reads env (toLe 4 allHeadersLenTx) 22 := readU32Le_reads.mpr rfl
  have hlength : readU32Le.Reads env (toLe 4 (allHeadersLenTx - 4)) 18 := readU32Le_reads.mpr rfl
  have hty : readU16Le.Reads env (toLe 2 2) 2 := readU16Le_reads.mpr rfl
  have hdesc : (readExact 8).Reads env desc.toList desc.toList :=
    readExact_reads.mpr ⟨Vector.length_toList, rfl⟩
  have houtstanding : readU32Le.Reads env (toLe 4 1) 1 := readU32Le_reads.mpr rfl
  unfold encodeAllHeadersTx
  simp only [List.append_assoc]
  exact htotal.bind (hlength.bind (hty.bind (hdesc.bind (houtstanding.bind_last (ret_reads _)))))

theorem readProcId_reads {proc : RpcProcIdValue} {bytes : List UInt8}
    (hencode : proc.encode = .ok bytes)
    (hname : ∀ text, proc = .name text → (encodeUtf16 text.toList).length ≠ 65535) :
    readProcId.Reads env bytes proc := by
  cases proc with
  | id number =>
    obtain rfl := Except.ok.inj hencode
    cases number <;> rfl
  | name text =>
    rw [RpcProcIdValue.encode] at hencode
    split_ifs at hencode with hlong
    obtain rfl := Except.ok.inj hencode
    have hmarker := hname text rfl
    have hcount : (UInt16.ofNat (encodeUtf16 text.toList).length).toNat =
        (encodeUtf16 text.toList).length := by
      rw [UInt16.toNat_ofNat']
      omega
    have hread : readU16Le.Reads env (toLe 2 (encodeUtf16 text.toList).length) _ :=
      readU16Le_reads.mpr (congrArg (toLe 2) hcount.symm)
    refine hread.bind ?_
    rw [if_neg]
    · refine Reads.bind_last (readVarchar_reads.mpr ⟨hcount.symm, rfl⟩) (ret_reads _)
    · intro hfull
      have hnat := congrArg UInt16.toNat hfull
      rw [hcount] at hnat
      exact hmarker hnat

theorem readIsolationLevel_reads (level : IsolationLevel) :
    readIsolationLevel.Reads env [level.toByte] level := by
  cases level <;> rfl

theorem readNoBegin_reads : readNoBegin.Reads env [0] () := rfl

/-- The name in a transaction request that has been encoded, and what stands around it. -/
theorem encode_named {body : TransactionRequestBody} {bytes : List UInt8}
    (hencode : body.encode = .ok bytes) : ∃ text, encodeBVarchar body.name = .ok text ∧
      bytes = toLe 2 body.requestType ++ body.around text := by
  cases hname : encodeBVarchar body.name with
  | error error =>
    cases body <;> rw [TransactionRequestBody.name] at hname <;>
      rw [TransactionRequestBody.encode, hname] at hencode <;> cases hencode
  | ok text =>
    cases body <;> rw [TransactionRequestBody.name] at hname <;>
      rw [TransactionRequestBody.encode, hname] at hencode <;>
      exact ⟨text, rfl, (Except.ok.inj hencode).symm⟩

theorem readTransaction_reads {body : TransactionRequestBody} {bytes : List UInt8}
    (hencode : body.encode = .ok bytes) : readTransaction.Reads env bytes body := by
  obtain ⟨text, hname, rfl⟩ := encode_named hencode
  have hname : readBVarchar.Reads env text body.name := readBVarchar_reads.mpr hname
  have hty : readU16Le.Reads env (toLe 2 body.requestType) (UInt16.ofNat body.requestType) := by
    cases body <;> exact readU16Le_reads.mpr rfl
  cases body with
  | begin level name =>
    exact hty.bind ((readIsolationLevel_reads level).bind (hname.bind_last (ret_reads _)))
  | commit name => exact hty.bind (hname.bind (readNoBegin_reads.bind_last (ret_reads _)))
  | rollback name => exact hty.bind (hname.bind (readNoBegin_reads.bind_last (ret_reads _)))
  | save name => exact hty.bind (hname.bind_last (ret_reads _))

theorem batchText_putUnits (text : String) :
    batchText (putUnits (encodeUtf16 text.toList)) = some text := by
  rw [batchText, putUnits_length, if_pos (Nat.mul_mod_right 2 _), unitsLe_putUnits]
  exact fromUtf16_eq_some_iff.mpr rfl

/-- The parameters of a query: its text, their declaration, and their values. -/
theorem performParams_eq (text : String) (params : List ColumnData) :
    performParams (rpcParams text) params =
      { name := "stmt", flags := 0, value := .scalar (.string (some text)) } ::
        { name := "params", flags := 0, value := .scalar (.string (some (paramStr params))) } ::
          params.mapIdx fun i param =>
            { name := placeholder i, flags := 0, value := .scalar param } := rfl

theorem filterMap_mapIdx {α β γ : Type} {f : ℕ → α → β} {g : β → Option γ} {h : ℕ → α → γ}
    (hg : ∀ i a, g (f i a) = some (h i a)) (list : List α) :
    (list.mapIdx f).filterMap g = list.mapIdx h := by
  induction list generalizing f h with
  | nil => rfl
  | cons a list ih =>
    rw [List.mapIdx_cons, List.mapIdx_cons, List.filterMap_cons_some (hg 0 a),
      ih fun i b => hg (i + 1) b]

variable [EncodingRs]

theorem transaction_read {request : TransactionRequestBody} {body : List UInt8}
    (hencode : request.encode = .ok body) :
    Asked.read env .transactionManagerReq body = some (.transaction request) := by
  have hread : readTransaction.run env body = .done request [] := readTransaction_reads hencode
  simp only [Asked.read, hread]

variable [StdLib]

theorem readArgument_reads {param : RpcParam} (hparam : param.Deliverable) {piece : List UInt8}
    (hencode : param.encode = .done piece ()) :
    ∃ argument, param.argument = some argument ∧ piece ≠ [] ∧
      readArgument.Reads env piece argument := by
  obtain ⟨name, flags, value⟩ := param
  obtain ⟨data, rfl, hdata⟩ := hparam
  obtain ⟨bytes, hvalue, hreads⟩ := @arrives _ _ env data hdata
  obtain ⟨front, back, _, rfl, hname, hback⟩ := Written.bind_eq_done hencode
  cases hfield : encodeBVarchar name with
  | error error =>
    rw [hfield] at hname
    cases hname
  | ok text =>
    rw [hfield] at hname
    obtain ⟨rfl, -⟩ := Written.done_inj.mp hname
    have hrest : (Written.done ([flags] ++ bytes) () : Writer Unit) = Written.done back () := by
      rw [← hback]
      simp only [Written.bind_eq, putU8_eq, Written.done_bind, hvalue, Written.after_done]
    obtain ⟨rfl, -⟩ := Written.done_inj.mp hrest
    refine ⟨_, rfl, ?_, ?_⟩
    · exact List.append_ne_nil_of_right_ne_nil text (List.cons_ne_nil flags bytes)
    · exact (readBVarchar_reads.mpr hfield).bind ((readU8_put flags).bind
        (hreads.bind_last (ret_reads _)))

theorem readArguments_reads {params : List RpcParam} {bytes : List UInt8}
    (hparams : ∀ param ∈ params, param.Deliverable)
    (hencode : encodeParams params = some (.ok bytes)) :
    readArgument.toEnd env bytes.length bytes = some (params.filterMap RpcParam.argument) := by
  have hall : Written.all (params.map RpcParam.encode) = .done bytes () := by
    unfold encodeParams at hencode
    dsimp only at hencode
    split at hencode
    · rename_i hresult
      obtain rfl := Except.ok.inj (Option.some.inj hencode)
      exact Written.eq_done_of_result hresult
    · cases hencode
    · cases hencode
  obtain ⟨pieces, hpieces, rfl⟩ := Written.all_eq_done_iff.mp hall
  clear hencode hall
  have hread : List.Forall₂ (readArgument.Reads env) pieces (params.filterMap RpcParam.argument) ∧
      (∀ piece ∈ pieces, piece ≠ []) := by
    induction params generalizing pieces with
    | nil =>
      cases hpieces
      exact ⟨.nil, fun piece hpiece => absurd hpiece List.not_mem_nil⟩
    | cons param params ih =>
      rw [List.map_cons] at hpieces
      cases hpieces with
      | @cons _ piece _ pieces hpiece hpieces =>
        obtain ⟨argument, hargument, hne, hreads⟩ :=
          @readArgument_reads env _ _ _ (hparams param List.mem_cons_self) _ hpiece
        obtain ⟨hrest, hothers⟩ := ih
          (fun other hother => hparams other (List.mem_cons_of_mem param hother)) pieces hpieces
        rw [List.filterMap_cons_some hargument]
        exact ⟨.cons hreads hrest, List.forall_mem_cons.mpr ⟨hne, hothers⟩⟩
  exact toEnd_pieces hread.1 hread.2 _ (Nat.le_refl _)

/-- A value that reaches the other side is encoded if the name in front of it fits its
count, and is refused otherwise. -/
theorem RpcParam.encode_result {param : RpcParam} (hparam : param.Deliverable) :
    (param.encode.result = .ok () ↔ (encodeUtf16 param.name.toList).length ≤ 255) ∧
      param.encode.result ≠ .error .panic := by
  obtain ⟨name, flags, value⟩ := param
  obtain ⟨data, rfl, hdata⟩ := hparam
  obtain ⟨bytes, hvalue, -⟩ := @arrives _ _ .new data hdata
  have hrest : (do putU8 flags; data.encode none : Writer Unit).result = .ok () := by
    rw [hvalue]
    rfl
  constructor
  · rw [← putField_bVarchar_iff name]
    refine Written.result_bind_eq_ok_iff.trans ?_
    exact and_iff_left hrest
  · refine Written.result_bind_ne (putField_ne_panic _) fun _ => ?_
    change (do putU8 flags; data.encode none : Writer Unit).result ≠ _
    rw [hrest]
    intro h
    cases h

/-- The parameters of a call do not panic, and are encoded if all their names fit. -/
theorem encodeParams_result {params : List RpcParam}
    (hparams : ∀ param ∈ params, param.Deliverable) :
    ∃ encoded, encodeParams params = some encoded ∧
      ((∃ bytes, encoded = .ok bytes) ↔
        ∀ param ∈ params, (encodeUtf16 param.name.toList).length ≤ 255) := by
  have hall : (Written.all (params.map RpcParam.encode)).result = .ok () ↔
      ∀ param ∈ params, (encodeUtf16 param.name.toList).length ≤ 255 := by
    rw [Written.all_result_eq_ok_iff, List.forall_mem_map]
    exact forall₂_congr fun param hparam => (RpcParam.encode_result (hparams param hparam)).1
  rw [← hall]
  unfold encodeParams
  dsimp only
  cases hresult : (Written.all (params.map RpcParam.encode)).result with
  | ok value => exact ⟨_, rfl, iff_of_true ⟨_, rfl⟩ rfl⟩
  | error fault =>
    cases fault with
    | error error =>
      refine ⟨_, rfl, iff_of_false ?_ fun h => by cases h⟩
      rintro ⟨bytes, h⟩
      cases h
    | panic =>
      refine absurd (Written.all_result_eq_error_iff.mp hresult) (Until.elim fun step hstep => ?_)
      obtain ⟨param, hparam, rfl⟩ := List.mem_map.mp hstep
      exact (RpcParam.encode_result (hparams param hparam)).2

theorem rpc_read {proc : RpcProcIdValue} {params : List RpcParam}
    {encoded : Except Error (List UInt8)} {body : List UInt8}
    (hname : ∀ text, proc = .name text → (encodeUtf16 text.toList).length ≠ 65535)
    (hparams : ∀ param ∈ params, param.Deliverable) (hencode : encodeParams params = some encoded)
    (hbody : (ClientRequest.rpc proc encoded).body = .ok body) :
    Asked.read env .rpc body = some (.call proc 0 (params.filterMap RpcParam.argument)) := by
  cases hproc : proc.encode with
  | error error =>
    rw [ClientRequest.body, hproc] at hbody
    cases hbody
  | ok front =>
    rw [ClientRequest.body, hproc] at hbody
    cases encoded with
    | error error => cases hbody
    | ok back =>
      obtain rfl := Except.ok.inj hbody
      have hoptions : readU16Le.Reads env (toLe 2 0) 0 := readU16Le_reads.mpr rfl
      have hread : readProcedure.Reads env (front ++ toLe 2 0) (proc, 0) :=
        (readProcId_reads hproc hname).bind (hoptions.bind_last (ret_reads _))
      simp only [Asked.read, hread.run_append, readArguments_reads hparams hencode, Option.map_some]

end Reading

theorem ClientRequest.payload_ne_nil {request : ClientRequest} {desc : Vector UInt8 8}
    {payload : List UInt8} (hencode : request.encode desc = .ok payload) : payload ≠ [] := by
  unfold ClientRequest.encode at hencode
  cases hbody : request.body with
  | error error =>
    rw [hbody] at hencode
    cases hencode
  | ok body =>
    rw [hbody] at hencode
    obtain rfl := Except.ok.inj hencode
    exact List.append_ne_nil_of_left_ne_nil (List.cons_ne_nil _ _) body

namespace Call

variable {env : Context} [StdLib] [EncodingRs] {call : Call} {request : ClientRequest}

theorem body_read (hcall : call.Deliverable) (hrequest : call.request = some request)
    {body : List UInt8} (hbody : request.body = .ok body) (id : UInt8) :
    Asked.read env (request.header id).ty body = some call.asked := by
  cases call with
  | simpleQuery text =>
    obtain rfl := Option.some.inj hrequest
    obtain rfl := Except.ok.inj hbody
    exact congrArg (Option.map Asked.batch) (batchText_putUnits text)
  | query text params =>
    obtain ⟨encoded, hencode, rfl⟩ := Option.map_eq_some_iff.mp hrequest
    obtain ⟨htext, hdeclared, hvalues⟩ := hcall
    have hreceived := @filterMap_mapIdx _ _ _
      (fun i param => { name := placeholder i, flags := 0, value := RpcValue.scalar param })
      RpcParam.argument
      (fun i param => { name := placeholder i, flags := 0, value := param.received })
      (fun _ _ => rfl) params
    refine (rpc_read (fun _ hproc => by cases hproc) ?_ hencode hbody).trans ?_
    · rw [performParams_eq]
      refine List.forall_mem_cons.mpr ⟨⟨_, rfl, htext⟩,
        List.forall_mem_cons.mpr ⟨⟨_, rfl, hdeclared⟩, ?_⟩⟩
      intro param hparam
      obtain ⟨i, hi, rfl⟩ := List.mem_mapIdx.mp hparam
      exact ⟨_, rfl, hvalues _ (List.getElem_mem hi)⟩
    · rw [performParams_eq, asked, ← hreceived]
      rfl
  | procedure commandName params =>
    obtain ⟨encoded, hencode, rfl⟩ := Option.map_eq_some_iff.mp hrequest
    refine rpc_read ?_ hcall.2 hencode hbody
    intro text htext
    rw [← RpcProcIdValue.name.inj htext]
    exact hcall.1
  | beginTransaction isolationLevel =>
    obtain rfl := Option.some.inj hrequest
    exact transaction_read hbody
  | commitTransaction =>
    obtain rfl := Option.some.inj hrequest
    exact transaction_read hbody
  | rollbackTransaction =>
    obtain rfl := Option.some.inj hrequest
    exact transaction_read hbody
  | saveTransaction name =>
    obtain rfl := Option.some.inj hrequest
    exact transaction_read hbody

/-- A call that is sent is read back from its message, with the transaction descriptor
that it was made under. -/
theorem read_back (hcall : call.Deliverable) (hrequest : call.request = some request)
    {desc : Vector UInt8 8} {payload : List UInt8} (hencode : request.encode desc = .ok payload)
    (id : UInt8) :
    Received.read env { ty := (request.header id).ty, payload := payload } =
      some (.request desc.toList call.asked) := by
  unfold ClientRequest.encode at hencode
  cases hbody : request.body with
  | error error =>
    rw [hbody] at hencode
    cases hencode
  | ok body =>
    rw [hbody] at hencode
    obtain rfl := Except.ok.inj hencode
    have hty : (request.header id).ty ≠ .attentionSignal := by
      cases request <;> exact nofun
    have hheaders := (@readAllHeadersTx_reads env desc).run_append body
    rw [Received.read, if_neg hty]
    simp only [hheaders, @body_read env _ _ _ _ hcall hrequest _ hbody id, Option.map_some]

end Call

/-- Behind the length that stands for a number a procedure is never read by its name. -/
theorem readProcId_marker {env : Context} {text : String} {rest left : List UInt8}
    {proc : RpcProcIdValue} (hrun : readProcId.run env (toLe 2 65535 ++ rest) = .done proc left) :
    proc ≠ .name text := by
  have hcount : readU16Le.Reads env (toLe 2 65535) 0xffff := readU16Le_reads.mpr rfl
  rw [readProcId, bind_eq, hcount.run_bind, if_pos rfl] at hrun
  obtain ⟨used, -, hreads⟩ := reads_of_run hrun
  obtain ⟨first, second, number, rfl, -, hrest⟩ := reads_bind.mp hreads
  cases hfind : RpcProcId.all.find? fun id => id.toNat == number.toNat with
  | none =>
    rw [hfind] at hrest
    exact (reads_protocol.mp hrest).elim
  | some id =>
    rw [hfind] at hrest
    obtain ⟨-, rfl⟩ := reads_ret.mp hrest
    exact nofun

theorem readProcedure_marker {env : Context} {text : String} {rest left : List UInt8}
    {options : UInt16} :
    readProcedure.run env (toLe 2 65535 ++ rest) ≠ .done (.name text, options) left := by
  intro hrun
  rw [readProcedure, bind_eq, Program.run_bind] at hrun
  cases hproc : readProcId.run env (toLe 2 65535 ++ rest) with
  | done proc more =>
    rw [hproc] at hrun
    obtain ⟨used, -, hreads⟩ := reads_of_run hrun
    obtain ⟨first, second, number, rfl, -, hlast⟩ := reads_bind.mp hreads
    obtain ⟨-, hpair⟩ := reads_ret.mp hlast
    exact readProcId_marker hproc (Prod.mk.inj hpair).1.symm
  | failed error more =>
    rw [hproc] at hrun
    cases hrun
  | short program more =>
    rw [hproc] at hrun
    cases hrun

namespace CommandParam

def argument (param : CommandParam) : Option Argument :=
  match param.data with
  | .scalar value => some
    { name := param.name
      flags := if param.out then RpcStatus.byRefValue.toByte else 0
      value := value.received }
  | .table _ _ => none

def Deliverable (param : CommandParam) : Prop :=
  ∃ value, param.data = .scalar value ∧ value.Deliverable

end CommandParam

section Commands

variable [UnicodeTables] {build : Machine.Build}
  {queryRunForMetadata : String → Except Fault (Option (List MetaDataColumn))}

/-- Values are bound as they are, without a question to the server. -/
theorem buildRpcParams_values {params : List CommandParam}
    (hparams : ∀ param ∈ params, param.Deliverable) :
    ∃ rpcParams, Command.buildRpcParams build queryRunForMetadata params = .ok rpcParams ∧
      (∀ param ∈ rpcParams, param.Deliverable) ∧
        rpcParams.filterMap RpcParam.argument = params.filterMap CommandParam.argument ∧
          rpcParams.map RpcParam.name = params.map CommandParam.name := by
  induction params with
  | nil => exact ⟨[], rfl, List.forall_mem_nil _, rfl, rfl⟩
  | cons param params ih =>
    obtain ⟨value, hvalue, hdata⟩ := hparams param List.mem_cons_self
    obtain ⟨rest, hrest, hothers, hreceived, hnames⟩ :=
      ih fun other hother => hparams other (List.mem_cons_of_mem param hother)
    obtain ⟨first, hfirst, hscalar, hargument, hname⟩ : ∃ first,
        Command.rpcParam build queryRunForMetadata param = .ok first ∧
          first.value = .scalar value ∧ first.argument = param.argument ∧
            first.name = param.name := by
      refine ⟨{ name := param.name
                flags := if param.out then RpcStatus.byRefValue.toByte else 0
                value := .scalar value }, ?_, rfl, ?_, rfl⟩
      · rw [Command.rpcParam, hvalue]
        rfl
      · rw [CommandParam.argument, hvalue]
        rfl
    rw [Command.buildRpcParams] at hrest
    refine ⟨first :: rest, ?_, List.forall_mem_cons.mpr ⟨⟨value, hscalar, hdata⟩, hothers⟩, ?_, ?_⟩
    · rw [Command.buildRpcParams, List.mapM_cons, hfirst, hrest]
      rfl
    · rw [List.filterMap_cons, List.filterMap_cons, hargument, hreceived]
    · rw [List.map_cons, List.map_cons, hname, hnames]

end Commands

/-- The refusal of the name of a procedure. -/
def procNameTooLong (name : String) : Error :=
  .protocol ("RPC procedure name is too long (" ++ toString (encodeUtf16 name.toList).length ++
    " UTF-16 code units, max 65535)")

theorem RpcProcIdValue.encode_long {name : String}
    (hlong : 65535 < (encodeUtf16 name.toList).length) :
    (RpcProcIdValue.name name).encode = .error (procNameTooLong name) := if_pos hlong

theorem ClientRequest.encode_rpc_iff {name : String} {encoded : Except Error (List UInt8)}
    {desc : Vector UInt8 8} :
    (∃ payload, (ClientRequest.rpc (.name name) encoded).encode desc = .ok payload) ↔
      (encodeUtf16 name.toList).length ≤ 65535 ∧ ∃ bytes, encoded = .ok bytes := by
  by_cases hlong : 65535 < (encodeUtf16 name.toList).length
  · refine iff_of_false ?_ fun h => Nat.not_le_of_lt hlong h.1
    rintro ⟨payload, hencode⟩
    simp only [ClientRequest.encode, ClientRequest.body, RpcProcIdValue.encode_long hlong] at hencode
    cases hencode
  · rw [and_iff_right (Nat.le_of_not_lt hlong)]
    simp only [ClientRequest.encode, ClientRequest.body, RpcProcIdValue.encode, if_neg hlong]
    cases encoded with
    | ok bytes => exact iff_of_true ⟨_, rfl⟩ ⟨_, rfl⟩
    | error error =>
      refine iff_of_false (fun hsent => ?_) fun hencoded => ?_
      · obtain ⟨payload, hsent⟩ := hsent
        cases hsent
      · obtain ⟨bytes, hencoded⟩ := hencoded
        cases hencoded

/-- A call by a name as long as the length that stands for a number is read as another. -/
theorem marked_unread [EncodingRs] {env : Context} {desc : Vector UInt8 8} {name : String}
    {encoded : Except Error (List UInt8)} {payload : List UInt8} {arguments : List Argument}
    (hlength : (encodeUtf16 name.toList).length = 65535)
    (hencode : (ClientRequest.rpc (.name name) encoded).encode desc = .ok payload) :
    Received.read env { ty := .rpc, payload := payload } ≠
      some (.request desc.toList (.call (.name name) 0 arguments)) := by
  intro hread
  have hproc : (RpcProcIdValue.name name).encode =
      .ok (toLe 2 65535 ++ putUnits (encodeUtf16 name.toList)) := by
    simp only [RpcProcIdValue.encode, hlength, Nat.lt_irrefl, if_false]
  obtain ⟨-, args, rfl⟩ := ClientRequest.encode_rpc_iff.mp ⟨payload, hencode⟩
  have hpayload : encodeAllHeadersTx desc ++ (toLe 2 65535 ++
      (putUnits (encodeUtf16 name.toList) ++ (toLe 2 0 ++ args))) = payload := by
    simp only [ClientRequest.encode, ClientRequest.body, hproc] at hencode
    simpa only [List.append_assoc] using Except.ok.inj hencode
  have hheaders := (@readAllHeadersTx_reads env desc).run_append
    (toLe 2 65535 ++ (putUnits (encodeUtf16 name.toList) ++ (toLe 2 0 ++ args)))
  rw [hpayload] at hheaders
  have hty : PacketType.rpc ≠ .attentionSignal := by decide
  rw [Received.read, if_neg hty] at hread
  simp only [hheaders, Option.map_eq_some_iff, Received.request.injEq, true_and,
    exists_eq_right, Asked.read] at hread
  cases hrun : readProcedure.run env (toLe 2 65535 ++
      (putUnits (encodeUtf16 name.toList) ++ (toLe 2 0 ++ args))) with
  | done called rest =>
    rw [hrun] at hread
    obtain ⟨arguments, -, hcall⟩ := Option.map_eq_some_iff.mp hread
    obtain ⟨hname, -, -⟩ := Asked.call.inj hcall
    obtain ⟨procedure, options⟩ := called
    rw [show procedure = .name name from hname] at hrun
    exact readProcedure_marker hrun
  | failed error rest =>
    rw [hrun] at hread
    cases hread
  | short program rest =>
    rw [hrun] at hread
    cases hread

/-- The message of a command is read back with the name of its procedure and its values
under their names, each marked by whether it is an output, unless the name is as long as
the length that stands for a number in its place: longer names are refused with nothing
written, and that one is taken for a number. -/
theorem command_read_iff [UnicodeTables] [StdLib] [EncodingRs] (build : Machine.Build)
    (queryRunForMetadata : String → Except Fault (Option (List MetaDataColumn)))
    (env : Context) (desc : Vector UInt8 8) (command : Command)
    (hparams : ∀ param ∈ command.params, param.Deliverable) :
    ∃ params request,
      Command.buildRpcParams build queryRunForMetadata command.params = .ok params ∧
      (Call.procedure command.name params).request = some request ∧
      (65535 < (encodeUtf16 command.name.toList).length →
        ∀ (conn : Connection) (id : UInt8) (fates : List Fate),
          conn.ensureNotPoisoned = .ok () → conn.context.SizeInRange →
            conn.send (.rpc id) (request.encode desc) fates =
              .returned (.error (procNameTooLong command.name)) { conn with flushed := false }) ∧
      ((∃ payload, request.encode desc = .ok payload) ↔
        (encodeUtf16 command.name.toList).length ≤ 65535 ∧
          ∀ param ∈ command.params, (encodeUtf16 param.name.toList).length ≤ 255) ∧
      ∀ payload, request.encode desc = .ok payload →
        (Received.read env { ty := .rpc, payload := payload } =
            some (.request desc.toList (.call (.name command.name) 0
              (command.params.filterMap CommandParam.argument))) ↔
          (encodeUtf16 command.name.toList).length ≠ 65535) := by
  obtain ⟨rpcParams, hbuilt, hdeliverable, hreceived, hnames⟩ :=
    @buildRpcParams_values _ build queryRunForMetadata _ hparams
  obtain ⟨encoded, hencoded, hencodes⟩ := encodeParams_result hdeliverable
  have hrequest : (Call.procedure command.name rpcParams).request =
      some (.rpc (.name command.name) encoded) := by
    rw [Call.request, hencoded]
    rfl
  have hshort : (∀ param ∈ rpcParams, (encodeUtf16 param.name.toList).length ≤ 255) ↔
      ∀ param ∈ command.params, (encodeUtf16 param.name.toList).length ≤ 255 := by
    have hmapped := @List.forall_mem_map _ _ RpcParam.name rpcParams
      (fun name => (encodeUtf16 name.toList).length ≤ 255)
    rw [hnames, List.forall_mem_map] at hmapped
    exact hmapped.symm
  refine ⟨rpcParams, _, hbuilt, hrequest, ?_, ?_, ?_⟩
  · intro hlong conn id fates husable hrange
    have herror : (ClientRequest.rpc (.name command.name) encoded).encode desc =
        .error (procNameTooLong command.name) := by
      simp only [ClientRequest.encode, ClientRequest.body, RpcProcIdValue.encode_long hlong]
      rfl
    rw [herror]
    exact Connection.send_unencoded husable hrange
  · rw [ClientRequest.encode_rpc_iff, hencodes, hshort]
  · intro payload hencode
    constructor
    · intro hread hlength
      exact marked_unread hlength hencode hread
    · intro hname
      rw [← hreceived]
      exact @Call.read_back env _ _ (.procedure command.name rpcParams) _ ⟨hname, hdeliverable⟩
        hrequest _ _ hencode 0

/-- A command by a name of 65535 letters, with a value and an output: it is sent, and read
as something else. -/
theorem command_read_iff_marked : ∃ (request : ClientRequest) (payload : List UInt8),
    request.encode (Vector.replicate 8 0) = .ok payload ∧
      @Received.read .ascii .new { ty := .rpc, payload := payload } ≠
        some (.request (Vector.replicate 8 0).toList
          (.call (.name (String.ofList (List.replicate 65535 'a'))) 0
            [⟨"@id", 0, .i32 (some 7)⟩, ⟨"@out", 1, .string (some "x")⟩])) := by
  have hlength : (encodeUtf16 (String.ofList (List.replicate 65535 'a')).toList).length =
      65535 := by
    rw [String.toList_ofList, encodeUtf16_replicate]
  have hcommand := @command_read_iff .ascii .exact .ascii .wraps (fun _ => .ok none) .new
    (Vector.replicate 8 0)
    (((Command.new (String.ofList (List.replicate 65535 'a'))).bindParam "@id"
      (.i32 (some 7))).bindOutParam "@out" (.string (some "x")))
  obtain ⟨params, request, -, -, -, hencodes, hread⟩ := hcommand (by
    intro param hparam
    rcases List.mem_cons.mp hparam with rfl | hparam
    · exact ⟨_, rfl, trivial⟩
    · rw [List.mem_singleton.mp hparam]
      refine ⟨_, rfl, ?_⟩
      change (putUnits (encodeUtf16 _)).length ≤ maxPlpSize
      decide +kernel)
  obtain ⟨payload, hpayload⟩ := hencodes.mpr ⟨Nat.le_of_eq hlength, by decide +kernel⟩
  refine ⟨request, payload, hpayload, fun hback => ?_⟩
  exact (hread payload hpayload).mp hback hlength

end Tiberius

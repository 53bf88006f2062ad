import Tiberius.Responses
import Tiberius.Served

/-!
Whole answers of a server. An answer is a list of items whose bytes stand one behind
the other, each laid out where the session stands by then. Cut into packets of which
the last is not empty, it is delivered as it was sent: the result sets with their
columns and rows, the counts, the return values and the status, or the first error in
it; and the connection is left at the end of the answer.
-/

namespace Tiberius

open Reading

def Served.isRow : Served → Bool
  | .row _ _ => true
  | _ => false

def Served.isColumns : Served → Bool
  | .columns _ => true
  | _ => false

/-- The bytes of an answer, the session moving on from item to item. -/
def answerBytes : Context → List Served → List UInt8
  | _, [] => []
  | context, item :: rest => item.bytes context ++ answerBytes (item.after context) rest

def answerTokens : Context → List Served → List ReceivedToken
  | _, [] => []
  | context, item :: rest => item.token context :: answerTokens (item.after context) rest

/-- Where the session stands behind an answer. -/
def answerEnd (context : Context) (items : List Served) : Context :=
  items.foldl Served.after context

/-- An answer that a server can send: each item fits where the session stands, and a row
comes only behind columns of the same answer. -/
def AnswerFits [EncodingRs] : Context → Bool → List Served → Prop
  | _, _, [] => True
  | context, opened, item :: rest =>
    item.Fits context ∧ (item.isRow = true → opened = true) ∧
      AnswerFits (item.after context) (opened || item.isColumns) rest

theorem Served.bytes_ne_nil (item : Served) (context : Context) : item.bytes context ≠ [] := by
  cases item <;> exact List.cons_ne_nil _ _

section Scanning

variable [EncodingRs]

/-- Reading the bytes of an answer gives its tokens, and leaves the session behind it. -/
theorem scanFrom_answer {context : Context} {opened : Bool} {items : List Served}
    (hfits : AnswerFits context opened items) {fuel : ℕ}
    (hfuel : (answerBytes context items).length ≤ fuel) :
    scanFrom fuel context (answerBytes context items) =
      (answerTokens context items, .complete (answerEnd context items)) := by
  induction items generalizing context opened fuel with
  | nil => cases fuel <;> rfl
  | cons item rest ih =>
    obtain ⟨hitem, -, hrest⟩ := hfits
    have hne := item.bytes_ne_nil context
    have hlength := List.length_pos_iff.mpr hne
    rw [answerBytes, List.length_append] at hfuel
    obtain ⟨fuel, rfl⟩ : ∃ turns, fuel = turns + 1 := ⟨fuel - 1, by omega⟩
    have hrun := (Served.reads hitem).run_append (answerBytes (item.after context) rest)
    have hempty :
        (item.bytes context ++ answerBytes (item.after context) rest).isEmpty = false := by
      simp [hne]
    simp only [answerBytes, answerTokens, scanFrom, hempty, hrun, item.receive_token,
      Bool.false_eq_true, if_false]
    rw [ih hrest (by omega)]
    rfl

theorem scan_answer {context : Context} {opened : Bool} {items : List Served}
    (hfits : AnswerFits context opened items) :
    scan context (answerBytes context items) =
      (answerTokens context items, .complete (answerEnd context items)) :=
  scanFrom_answer hfits (Nat.le_refl _)

end Scanning

section Contents

/-- A row as it was sent: in which encoding, and its cells. -/
structure ServedRow where
  packed : Bool
  cells : List Cell

/-- A result set as it was sent. -/
structure ServedSet where
  columns : List ServedColumn
  rows : List ServedRow

/-- The rows in front of the first columns, and the result sets. -/
def servedSections : List Served → List ServedRow × List ServedSet
  | [] => ([], [])
  | .columns announced :: rest =>
    ([], { columns := announced, rows := (servedSections rest).1 } :: (servedSections rest).2)
  | .row packed cells :: rest =>
    ({ packed := packed, cells := cells } :: (servedSections rest).1, (servedSections rest).2)
  | _ :: rest => servedSections rest

def ServedRow.data (row : ServedRow) (columns : List MetaDataColumn) : TokenRow where
  data := givenValues row.packed columns row.cells

/-- The rows of a result set as a caller is to see them. -/
def ServedSet.rowsAt (index : ℕ) (set : ServedSet) : List Row :=
  set.rows.map fun row =>
    { columns := (metadataOf set.columns).toColumns
      data := row.data (metadataOf set.columns).columns
      resultIndex := index }

/-- The result sets of an answer, in order. -/
def answerSets (items : List Served) : List (List Row) :=
  (servedSections items).2.mapIdx ServedSet.rowsAt

/-- The columns of a result set in front of its rows. -/
def ServedSet.itemsAt (index : ℕ) (set : ServedSet) : List QueryItem :=
  .metadata { columns := (metadataOf set.columns).toColumns, resultIndex := index } ::
    (set.rowsAt index).map .row

/-- The items of an answer, result set by result set. -/
def answerItems (items : List Served) : List QueryItem :=
  ((servedSections items).2.mapIdx ServedSet.itemsAt).flatten

/-- The counts of an answer, but for that of a procedure's last one. -/
def answerCounts (items : List Served) : List UInt64 :=
  items.filterMap fun
    | .done kind status _ rows =>
      if kind = .proc ∧ DoneStatus.fromBitsTruncate status = .empty then none
      else if status.toNat.testBit 4 then some rows else some 0
    | _ => none

def answerValues (items : List Served) : List CommandReturnValue :=
  items.filterMap fun
    | .returnValue ordinal name _ column cell =>
      some { name := name.text, ord := ordinal, data := cell.given false column.column }
    | _ => none

def answerStatuses (items : List Served) : List UInt32 :=
  items.filterMap fun
    | .returnStatus status => some status
    | _ => none

/-- The last status of an answer, zero without one. -/
def answerStatus (items : List Served) : UInt32 := (answerStatuses items).getLast?.getD 0

/-- The first error of an answer. -/
def answerError (items : List Served) : Option Error :=
  (items.findSome? fun
    | .error message => some message.received
    | _ => none).map .server

def answerResult (items : List Served) : CommandResult where
  returnCode := answerStatus items
  returnValues := answerValues items
  queryResults := answerSets items
  rowsAffected := answerCounts items

def ServedSet.section (set : ServedSet) : TokenColMetaData × List TokenRow :=
  (metadataOf set.columns, set.rows.map fun row => row.data (metadataOf set.columns).columns)

/-- The sections of the tokens are those of the items. -/
theorem sections_answer (context : Context) (items : List Served) :
    sections (answerTokens context items) =
      ((servedSections items).1.map fun row => row.data context.openColumns,
        (servedSections items).2.map ServedSet.section) := by
  induction items generalizing context with
  | nil => rfl
  | cons item rest ih =>
    cases item with
    | columns announced => simp only [answerTokens, Served.token, sections, ih]; rfl
    | row packed cells => simp only [answerTokens, Served.token, sections, ih]; rfl
    | done kind status curCmd rows => cases kind <;> exact ih context
    | change told => cases told <;> exact ih _
    | _ => exact ih context

theorem setsFrom_section (index : ℕ) (sets : List ServedSet) :
    setsFrom index (sets.map ServedSet.section) =
      sets.mapIdx fun i set => set.rowsAt (index + i) := by
  induction sets generalizing index with
  | nil => rfl
  | cons set rest ih =>
    simp only [List.map_cons, setsFrom, ServedSet.section, List.mapIdx_cons, ih, List.map_map]
    simp only [Nat.add_assoc, Nat.add_comm 1]
    rfl

theorem setsFrom_answer (context : Context) (items : List Served) :
    setsFrom 0 (sections (answerTokens context items)).2 = answerSets items := by
  rw [sections_answer, setsFrom_section, answerSets]
  simp

/-- No row comes in front of the first columns. -/
theorem servedSections_fst [EncodingRs] {context : Context} {items : List Served}
    (hfits : AnswerFits context false items) : (servedSections items).1 = [] := by
  induction items generalizing context with
  | nil => rfl
  | cons item rest ih =>
    obtain ⟨-, hrow, hrest⟩ := hfits
    cases item with
    | columns announced => rfl
    | row packed cells => exact absurd (hrow rfl) Bool.false_ne_true
    | _ => exact ih hrest

theorem doneCounts_answer (context : Context) (items : List Served) :
    doneCounts (answerTokens context items) = answerCounts items := by
  induction items generalizing context with
  | nil => rfl
  | cons item rest ih =>
    have hrest := ih (item.after context)
    unfold doneCounts answerCounts at hrest ⊢
    rw [answerTokens, List.filterMap_cons, List.filterMap_cons, hrest]
    cases item with
    | done kind status curCmd rows =>
      have hrows : TokenDone.rows { status := .fromBitsTruncate status, curCmd, doneRows := rows } =
          if status.toNat.testBit 4 then rows else 0 := rfl
      cases kind with
      | proc =>
        by_cases hfinal : DoneStatus.fromBitsTruncate status = .empty
        · simp [Served.token, DoneKind.token, TokenDone.isFinal, hfinal]
        · simp only [Served.token, DoneKind.token, TokenDone.isFinal, hfinal, hrows,
            decide_false, Bool.false_eq_true, if_false, and_false]
          split_ifs <;> rfl
      | _ =>
        simp only [Served.token, DoneKind.token, hrows, reduceCtorEq, false_and, if_false]
        split_ifs <;> rfl
    | _ => rfl

theorem returnValuesOf_answer (context : Context) (items : List Served) :
    returnValuesOf (answerTokens context items) = answerValues items := by
  induction items generalizing context with
  | nil => rfl
  | cons item rest ih =>
    have hrest := ih (item.after context)
    unfold returnValuesOf answerValues at hrest ⊢
    rw [answerTokens, List.filterMap_cons, List.filterMap_cons, hrest]
    cases item with
    | done kind status curCmd rows => cases kind <;> rfl
    | _ => rfl

theorem returnCodeOf_answer (context : Context) (items : List Served) (code : UInt32) :
    returnCodeOf code (answerTokens context items) = (answerStatuses items).getLast?.getD code := by
  induction items generalizing context code with
  | nil => rfl
  | cons item rest ih =>
    cases item with
    | returnStatus status =>
      have hstatuses : answerStatuses (.returnStatus status :: rest) =
          status :: answerStatuses rest := rfl
      rw [hstatuses, List.getLast?_cons, Option.getD_some]
      exact ih context status
    | done kind status curCmd rows => cases kind <;> exact ih context code
    | change told => cases told <;> exact ih _ code
    | columns announced => exact ih _ code
    | _ => exact ih context code

theorem finalError_answer (context : Context) (items : List Served) :
    finalError (answerTokens context items) = answerError items := by
  rw [finalError_eq]
  refine congrArg (Option.map Error.server) ?_
  induction items generalizing context with
  | nil => rfl
  | cons item rest ih =>
    have hrest := ih (item.after context)
    unfold firstError at hrest ⊢
    rw [answerTokens, List.findSome?_cons, List.findSome?_cons, hrest]
    cases item with
    | done kind status curCmd rows => cases kind <;> rfl
    | _ => rfl

end Contents

/-- A connection at the end of a response: nothing of it is left, and what the server
sends next has not been touched. -/
structure Connection.RestsAt (conn : Connection) (later : List Packet) (context : Context) :
    Prop where
  ended : conn.isEof = true
  inbound : conn.transport.inbound = later
  context : conn.context = context

section Consumers

variable [EncodingRs] {σ α : Type}

/-- A stream in front of a complete response yields its tokens and then stands at its end. -/
theorem rests_of_awaits {conn : Connection} {response : Response} {later : List Packet}
    {tokens : List ReceivedToken} {context : Context} (hawaits : conn.Awaits response later)
    (hlast : response.last.payload ≠ [])
    (hscan : scan conn.context response.bytes = (tokens, .complete context)) :
    ∃ stream, Yields (.new conn) tokens stream ∧ stream.conn.RestsAt later context ∧
      stream.next = TokenStream.finish { conn := stream.conn, lastError := finalError tokens } := by
  have hyields := TokenStream.yields_scanFrom response.bytes.length (.new conn) hawaits.within
    (Nat.le_refl _)
  rw [show scanFrom response.bytes.length (TokenStream.new conn).conn.context response.bytes =
    (tokens, .complete context) from hscan] at hyields
  obtain ⟨stream, hyields, herror, hcontext, hwithin⟩ := hyields
  obtain ⟨heof, hinbound, -, -⟩ := TokenStream.isEof_of_nil hwithin hlast
  refine ⟨stream, hyields, ⟨heof, hinbound, hcontext⟩, ?_⟩
  rw [TokenStream.next, heof, if_pos rfl, finalError]
  rw [show (TokenStream.new conn).lastError = none from rfl] at herror
  rw [← herror]

/-- A consumer whose outcome is none that it comes to early reads its stream to the end. -/
theorem Consumer.onStream_to_end (consumer : Consumer σ α) {stream final : TokenStream}
    {tokens : List ReceivedToken} {after : Connection} {last : Option Error}
    {expected : Except Error α} (hyields : Yields stream tokens final)
    (hend : final.next = TokenStream.finish { conn := after, lastError := last })
    (hearly : ∀ state token result, consumer.step state token = .inr result → result ≠ expected)
    (state : σ) (hexpected : consumer.onTokens last state tokens = expected) {fuel : ℕ}
    (hfuel : tokens.length < fuel) :
    consumer.onStream fuel state stream = .returned expected after := by
  induction hyields generalizing state fuel with
  | nil stream =>
    obtain ⟨fuel, rfl⟩ : ∃ turns, fuel = turns + 1 := ⟨fuel - 1, by omega⟩
    rw [onStream, hend, TokenStream.finish, ← hexpected]
    cases last <;> rfl
  | @cons stream next final token tokens hnext hrest ih =>
    rw [List.length_cons] at hfuel
    obtain ⟨fuel, rfl⟩ : ∃ turns, fuel = turns + 1 := ⟨fuel - 1, by omega⟩
    rw [onStream, hnext]
    simp only [onTokens] at hexpected ⊢
    cases hstep : consumer.step state token with
    | inl state =>
      rw [hstep] at hexpected
      exact ih hend state hexpected (by omega)
    | inr result =>
      rw [hstep] at hexpected
      exact absurd hexpected (hearly state token result hstep)

/-- The same on a connection in front of a complete response. -/
theorem Consumer.run_to_end (consumer : Consumer σ α) (state : σ) {conn : Connection}
    {response : Response} {later : List Packet} {tokens : List ReceivedToken} {context : Context}
    {expected : Except Error α} (hawaits : conn.Awaits response later)
    (hlast : response.last.payload ≠ [])
    (hscan : scan conn.context response.bytes = (tokens, .complete context))
    (hearly : ∀ state token result, consumer.step state token = .inr result → result ≠ expected)
    (hexpected : consumer.onTokens (finalError tokens) state tokens = expected) :
    ∃ after, consumer.run state conn = .returned expected after ∧ after.RestsAt later context := by
  obtain ⟨stream, hyields, hrests, hend⟩ := rests_of_awaits hawaits hlast hscan
  have hlength := scanFrom_length response.bytes.length conn.context response.bytes
  rw [show scanFrom response.bytes.length conn.context response.bytes = _ from hscan] at hlength
  have hunread : response.bytes.length ≤ conn.unread.length := by
    rw [Connection.unread, hawaits.inbound, List.flatMap_append, List.length_append,
      List.length_append, Response.bytes]
    omega
  refine ⟨stream.conn, onStream_to_end consumer hyields hend hearly state hexpected ?_, hrests⟩
  exact Nat.lt_succ_of_le (Nat.le_trans hlength hunread)

end Consumers

/-- The columns of each result set in front of its rows. -/
def setItems : ℕ → List (TokenColMetaData × List TokenRow) → List QueryItem
  | _, [] => []
  | index, (metadata, rows) :: rest =>
    .metadata { columns := metadata.toColumns, resultIndex := index } ::
      (rows.map fun data => .row (rowOf metadata.toColumns index data)) ++
        setItems (index + 1) rest

/-- The items behind some metadata. -/
theorem queryItems_sections (final : Option Error) (columns : List Column) (index : ℕ)
    (items : List QueryItem) (tokens : List ReceivedToken) :
    queryItems.onTokens final (.opened columns index, items) tokens =
      endWith final (items ++
        ((sections tokens).1.map fun data => QueryItem.row (rowOf columns index data)) ++
          setItems (index + 1) (sections tokens).2) := by
  induction tokens generalizing columns index items with
  | nil =>
    rw [Consumer.onTokens_nil _ _ items rfl]
    simp [sections, setItems]
  | cons token rest ih =>
    cases token with
    | newResultset next =>
      refine (ih next.toColumns (index + 1) _).trans ?_
      simp [sections, setItems, QueryStream.opened, nextIndex]
    | row data =>
      refine (ih columns index _).trans ?_
      simp [sections, rowOf, QueryStream.opened]
    | _ => exact ih columns index items

theorem queryItems_fresh (final : Option Error) (forwarded : Bool) (tokens : List ReceivedToken)
    (hrows : (sections tokens).1 = []) :
    queryItems.onTokens final (.fresh forwarded, []) tokens =
      endWith final (setItems 0 (sections tokens).2) := by
  induction tokens with
  | nil => exact Consumer.onTokens_nil _ _ [] rfl
  | cons token rest ih =>
    cases token with
    | newResultset next =>
      refine (queryItems_sections final next.toColumns 0 _ rest).trans ?_
      simp [sections, setItems, QueryStream.fresh, QueryStream.new, nextIndex]
    | row data => cases hrows
    | _ => exact ih hrows

theorem setItems_section (index : ℕ) (sets : List ServedSet) :
    setItems index (sets.map ServedSet.section) =
      (sets.mapIdx fun i set => set.itemsAt (index + i)).flatten := by
  induction sets generalizing index with
  | nil => rfl
  | cons set rest ih =>
    simp only [List.map_cons, setItems, ServedSet.section, List.mapIdx_cons, ih, List.map_map,
      List.flatten_cons]
    simp only [Nat.add_assoc, Nat.add_comm 1]
    simp [ServedSet.itemsAt, ServedSet.rowsAt, rowOf, Function.comp_def]

/-- The one outcome that a consumer of rows comes to early is not one of an answer. -/
theorem endWith_answerError {α : Type} (items : List Served) (value : α) :
    endWith (answerError items) value ≠ .error rowWithoutMetadata := by
  intro heq
  unfold answerError at heq
  cases hfound : items.findSome? fun
    | .error message => some message.received
    | _ => none with
  | none =>
    rw [hfound] at heq
    cases heq
  | some error =>
    rw [hfound] at heq
    cases heq

theorem QueryStream.onToken_error {stream next : QueryStream} {token : ReceivedToken}
    {error : Error} (htoken : stream.onToken token = (next, some (.error error))) :
    error = rowWithoutMetadata := by
  cases token with
  | row data =>
    unfold onToken at htoken
    by_cases hforwarded : stream.forwarded = true
    · cases hcolumns : stream.columns with
      | none =>
        simp only [hforwarded, hcolumns, if_true, Prod.mk.injEq, Option.some.injEq,
          Except.error.injEq] at htoken
        exact htoken.2.symm
      | some columns => simp [hforwarded, hcolumns] at htoken
    · simp [hforwarded] at htoken
  | _ => cases htoken

theorem CommandStream.onToken_error {stream next : CommandStream} {token : ReceivedToken}
    {error : Error} (htoken : stream.onToken token = (next, some (.error error))) :
    error = rowWithoutMetadata := by
  cases token with
  | row data =>
    unfold onToken at htoken
    cases hcolumns : stream.columns with
    | none =>
      simp only [hcolumns, Prod.mk.injEq, Option.some.injEq, Except.error.injEq] at htoken
      exact htoken.2.symm
    | some columns => simp [hcolumns] at htoken
  | doneProc done =>
    unfold onToken at htoken
    by_cases hfinal : done.isFinal = true
    · simp [hfinal] at htoken
    · simp [hfinal] at htoken
  | _ => cases htoken

theorem queryItems_early {state : QueryStream × List QueryItem} {token : ReceivedToken}
    {result : Except Error (List QueryItem)} (hstep : queryItems.step state token = .inr result) :
    result = .error rowWithoutMetadata := by
  unfold queryItems at hstep
  simp only at hstep
  cases htoken : state.1.onToken token with
  | mk stream item =>
    rw [htoken] at hstep
    cases item with
    | none => cases hstep
    | some outcome =>
      cases outcome with
      | ok item => cases hstep
      | error error =>
        cases hstep
        rw [QueryStream.onToken_error htoken]

theorem intoResults_early {state : QueryStream × Collected} {token : ReceivedToken}
    {result : Except Error (List (List Row))} (hstep : intoResults.step state token = .inr result) :
    result = .error rowWithoutMetadata := by
  unfold intoResults at hstep
  simp only at hstep
  cases htoken : state.1.onToken token with
  | mk stream item =>
    rw [htoken] at hstep
    cases item with
    | none => cases hstep
    | some outcome =>
      cases outcome with
      | ok item => cases item <;> cases hstep
      | error error =>
        cases hstep
        rw [QueryStream.onToken_error htoken]

theorem executeResult_early {counts : List UInt64} {token : ReceivedToken}
    {result : Except Error (List UInt64)} :
    ExecuteResult.new.step counts token ≠ .inr result := by
  intro hstep
  unfold ExecuteResult.new at hstep
  cases token with
  | doneProc done =>
    by_cases hfinal : done.isFinal = true
    · simp [hfinal] at hstep
    · simp [hfinal] at hstep
  | _ => cases hstep

theorem intoCommandResult_early {state : CommandState} {token : ReceivedToken}
    {result : Except Error CommandResult}
    (hstep : intoCommandResult.step state token = .inr result) :
    result = .error rowWithoutMetadata := by
  unfold intoCommandResult at hstep
  simp only at hstep
  cases htoken : state.stream.onToken token with
  | mk stream item =>
    rw [htoken] at hstep
    cases item with
    | none => cases hstep
    | some outcome =>
      cases outcome with
      | ok item => cases hstep
      | error error =>
        cases hstep
        rw [CommandStream.onToken_error htoken]

theorem commandResult_answer (context : Context) (items : List Served) :
    commandResult 0 [] (answerSets items) [] (answerTokens context items) = answerResult items := by
  simp only [commandResult, returnCodeOf_answer, returnValuesOf_answer, doneCounts_answer,
    List.nil_append]
  rfl

section Delivered

variable [EncodingRs] {conn : Connection} {response : Response} {later : List Packet}
  {items : List Served}

theorem answer_scan (hbytes : response.bytes = answerBytes conn.context items)
    (hfits : AnswerFits conn.context false items) :
    scan conn.context response.bytes =
      (answerTokens conn.context items, .complete (answerEnd conn.context items)) := by
  rw [hbytes]
  exact scan_answer hfits

/-- What a server answers comes back, however the answer is cut into packets of which the
last is not empty: the rows of each result set with its columns and ordinal, item by item
or set by set, the counts, and what a procedure returns; or the first error, where there is
one. Each consumer reads the answer to its end, leaves the session where the answer puts
it, and does not touch what the server sends next. -/
theorem answers_come_back (forwarded : Bool) (hawaits : conn.Awaits response later)
    (hlast : response.last.payload ≠ [])
    (hbytes : response.bytes = answerBytes conn.context items)
    (hfits : AnswerFits conn.context false items) :
    (∃ after, queryItems.run (.fresh forwarded, []) conn =
        .returned (endWith (answerError items) (answerItems items)) after ∧
      after.RestsAt later (answerEnd conn.context items)) ∧
    (∃ after, intoResults.run (.fresh forwarded, .empty) conn =
        .returned (endWith (answerError items) (answerSets items)) after ∧
      after.RestsAt later (answerEnd conn.context items)) ∧
    (∃ after, ExecuteResult.new.run [] conn =
        .returned (endWith (answerError items) (answerCounts items)) after ∧
      after.RestsAt later (answerEnd conn.context items)) ∧
    ∃ after, intoCommandResult.run .initial conn =
        .returned (endWith (answerError items) (answerResult items)) after ∧
      after.RestsAt later (answerEnd conn.context items) := by
  have hscan := answer_scan hbytes hfits
  have hsections : (sections (answerTokens conn.context items)).1 = [] := by
    rw [sections_answer, servedSections_fst hfits]
    rfl
  have hitems : setItems 0 (sections (answerTokens conn.context items)).2 = answerItems items := by
    rw [sections_answer, setItems_section, answerItems]
    simp
  refine ⟨?_, ?_, ?_, ?_⟩
  · refine Consumer.run_to_end _ _ hawaits hlast hscan ?_ ?_
    · intro state token result hstep heq
      exact endWith_answerError items _ (heq.symm.trans (queryItems_early hstep))
    · rw [queryItems_fresh _ _ _ hsections, hitems, finalError_answer]
  · refine Consumer.run_to_end _ _ hawaits hlast hscan ?_ ?_
    · intro state token result hstep heq
      exact endWith_answerError items _ (heq.symm.trans (intoResults_early hstep))
    · rw [intoResults_eq _ _ _ hsections, setsFrom_answer, finalError_answer]
  · refine Consumer.run_to_end _ _ hawaits hlast hscan ?_ ?_
    · intro state token result hstep
      exact absurd hstep executeResult_early
    · rw [executeResult_eq, doneCounts_answer, finalError_answer]
      rfl
  · refine Consumer.run_to_end _ _ hawaits hlast hscan ?_ ?_
    · intro state token result hstep heq
      exact endWith_answerError items _ (heq.symm.trans (intoCommandResult_early hstep))
    · have hsets := intoResults_eq (answerError items) true _ hsections
      rw [setsFrom_answer] at hsets
      have hstart : (CommandState.initial.stream.toQuery, CommandState.initial.collected) =
          (QueryStream.fresh true, Collected.empty) := rfl
      rw [intoCommandResult_eq, finalError_answer, hstart, hsets]
      cases answerError items with
      | some error => rfl
      | none => exact congrArg Except.ok (commandResult_answer conn.context items)

end Delivered

/-- A nullable integer as a server announces it. -/
def servedInteger (name : ShortText) : ServedColumn where
  userType := 0
  flags := 9
  ty := .varLenSized { type := .intn, len := 4, collation := none }
  description := [0x26, 4]
  described := fun _ => rfl
  table := []
  parts := Nat.zero_le _
  name := name

/-- A result set of two columns, with a row in either encoding and a NULL in each. -/
def twoRows : List Served :=
  [.columns [servedInteger ⟨"a", by decide⟩, servedInteger ⟨"b", by decide⟩],
    .row false [.value [4, 7, 0, 0, 0] (.i32 (some 7)), .null],
    .row true [.null, .value [4, 8, 0, 0, 0] (.i32 (some 8))],
    .done .done 0x10 0xC1 2]

/-- The same in two packets, the first of which ends inside the first row. -/
def twoRowsCut : Response where
  body := [responsePacket false ((answerBytes .new twoRows).take 31)]
  last := responsePacket true ((answerBytes .new twoRows).drop 31)
  body_open := by decide
  last_ends := by decide

theorem twoRows_fits : @AnswerFits .ascii .new false twoRows := by
  have hcount : 2 < 65535 := by decide
  refine ⟨hcount, fun h => (by cases h), ⟨_, rfl, .cons rfl (.cons ?_ .nil)⟩, fun _ => rfl,
    ⟨_, rfl, .cons ?_ (.cons rfl .nil)⟩, fun _ => rfl, .inl rfl,
    fun h => (by cases h), trivial⟩
  · exact .inr ⟨rfl, by intro cx hcx hty; cases hcx; cases hty⟩
  · exact .inl rfl

/-- The rows of the result set as a caller is to see them. -/
def twoRowsSeen : List (List Row) :=
  let columns : List Column :=
    [{ name := "a", columnType := .int4 }, { name := "b", columnType := .int4 }]
  [[rowOf columns 0 { data := [.i32 (some 7), .i32 none] },
    rowOf columns 0 { data := [.i32 none, .i32 (some 8)] }]]

theorem answers_come_back_twoRows :
    (∃ after, @Consumer.run _ _ .ascii intoResults (.fresh true, .empty)
        (.new twoRowsCut.packets .silent) = .returned (.ok twoRowsSeen) after) ∧
      ∃ after, @Consumer.run _ _ .ascii ExecuteResult.new [] (.new twoRowsCut.packets .silent) =
        .returned (.ok [2]) after := by
  obtain ⟨-, ⟨after, hsets, -⟩, ⟨other, hcounts, -⟩, -⟩ := @answers_come_back .ascii
    (.new twoRowsCut.packets .silent) twoRowsCut [] twoRows true
    ⟨by rw [List.append_nil]; rfl, rfl, rfl⟩ (by decide) (by decide) twoRows_fits
  exact ⟨⟨after, hsets⟩, other, hcounts⟩

end Tiberius

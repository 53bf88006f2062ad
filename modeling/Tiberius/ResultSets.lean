import Tiberius.Results

/-!
What the consumers make of the tokens of a response. The result sets are cut at
the column metadata, each row goes to the set that is open, and the counts are
those of the DONE tokens. The consumers keep this as a state of their own, token
by token; the sections of a token list say the same without a state.
-/

namespace Tiberius

/-- A consumer on the tokens of a response and the error the response ends with. -/
def Consumer.onResponse {σ α : Type} (consumer : Consumer σ α) (state : σ)
    (tokens : List ReceivedToken) : Except Error α :=
  consumer.onTokens (finalError tokens) state tokens

def ReceivedToken.isRow : ReceivedToken → Bool
  | .row _ => true
  | _ => false

def newResultsets (tokens : List ReceivedToken) : List TokenColMetaData :=
  tokens.filterMap fun
    | .newResultset metadata => some metadata
    | _ => none

/-- Every row comes behind column metadata. -/
def RowsHaveMetadata (tokens : List ReceivedToken) : Prop :=
  ∀ before data after, tokens = before ++ .row data :: after →
    ∃ metadata, ReceivedToken.newResultset metadata ∈ before

/-- A row as the tokens before it determine it: the columns are those of the
last metadata, and the index is the ordinal of that metadata. -/
def rowBehind (before : List ReceivedToken) (data : TokenRow) : Row where
  columns := ((newResultsets before).getLast?.map TokenColMetaData.toColumns).getD []
  data := data
  resultIndex := (newResultsets before).length - 1

def wireRows : List ReceivedToken → List ReceivedToken → List Row
  | _, [] => []
  | before, .row data :: rest => rowBehind before data :: wireRows (before ++ [.row data]) rest
  | before, token :: rest => wireRows (before ++ [token]) rest

/-- The rows in front of the first metadata, and the rows behind each metadata. -/
def sections : List ReceivedToken → List TokenRow × List (TokenColMetaData × List TokenRow)
  | [] => ([], [])
  | .newResultset metadata :: rest =>
    let (rows, sets) := sections rest
    ([], (metadata, rows) :: sets)
  | .row data :: rest =>
    let (rows, sets) := sections rest
    (data :: rows, sets)
  | _ :: rest => sections rest

def rowOf (columns : List Column) (index : ℕ) (data : TokenRow) : Row where
  columns := columns
  data := data
  resultIndex := index

/-- The result sets of sections, numbered from an ordinal on. -/
def setsFrom : ℕ → List (TokenColMetaData × List TokenRow) → List (List Row)
  | _, [] => []
  | index, (metadata, rows) :: rest =>
    rows.map (rowOf metadata.toColumns index) :: setsFrom (index + 1) rest

/-- The counts of all DONE tokens but a final DONEPROC. -/
def doneCounts (tokens : List ReceivedToken) : List UInt64 :=
  tokens.filterMap fun
    | .doneProc done => if done.isFinal then none else some done.rows
    | .doneInProc done => some done.rows
    | .done done => some done.rows
    | _ => none

theorem sections_fst_of_rowsHaveMetadata {tokens : List ReceivedToken}
    (hrows : RowsHaveMetadata tokens) : (sections tokens).1 = [] := by
  induction tokens with
  | nil => rfl
  | cons token rest ih =>
    have hrest : (∀ metadata, token ≠ .newResultset metadata) → RowsHaveMetadata rest := by
      intro htoken before data after hsplit
      obtain ⟨metadata, hmem⟩ := hrows (token :: before) data after (by rw [hsplit]; rfl)
      rcases List.mem_cons.mp hmem with hhead | htail
      · exact absurd hhead.symm (htoken metadata)
      · exact ⟨metadata, htail⟩
    cases token with
    | newResultset metadata => rfl
    | row data =>
      obtain ⟨metadata, hmem⟩ := hrows [] data rest rfl
      exact absurd hmem List.not_mem_nil
    | _ => exact ih (hrest fun metadata hmetadata => by cases hmetadata)

theorem rowsHaveMetadata_of_sections_fst {tokens : List ReceivedToken}
    (hsections : (sections tokens).1 = []) : RowsHaveMetadata tokens := by
  induction tokens with
  | nil =>
    intro before data after hsplit
    exact absurd hsplit.symm (List.append_ne_nil_of_right_ne_nil before (List.cons_ne_nil _ _))
  | cons token rest ih =>
    have hrest : (sections rest).1 = [] → token.isRow = false →
        RowsHaveMetadata (token :: rest) := by
      intro hnil htoken before data after hsplit
      cases before with
      | nil =>
        rw [List.nil_append, List.cons.injEq] at hsplit
        rw [hsplit.1] at htoken
        cases htoken
      | cons head before =>
        rw [List.cons_append, List.cons.injEq] at hsplit
        obtain ⟨metadata, hmem⟩ := ih hnil before data after hsplit.2
        exact ⟨metadata, List.mem_cons_of_mem head hmem⟩
    cases token with
    | newResultset metadata =>
      intro before data after hsplit
      cases before with
      | nil => cases hsplit
      | cons head before =>
        rw [List.cons_append, List.cons.injEq] at hsplit
        exact ⟨metadata, by rw [hsplit.1]; exact List.mem_cons_self⟩
    | row data => cases hsections
    | _ => exact hrest hsections rfl

instance (tokens : List ReceivedToken) : Decidable (RowsHaveMetadata tokens) :=
  decidable_of_iff ((sections tokens).1 = [])
    ⟨rowsHaveMetadata_of_sections_fst, sections_fst_of_rowsHaveMetadata⟩

/-- There are as many result sets as metadata tokens. -/
theorem sections_length (tokens : List ReceivedToken) :
    (sections tokens).2.length = (newResultsets tokens).length := by
  induction tokens with
  | nil => rfl
  | cons token rest ih =>
    cases token with
    | newResultset metadata =>
      simp only [sections, newResultsets, List.filterMap_cons, List.length_cons]
      rw [ih]
      rfl
    | _ => exact ih

theorem setsFrom_length (index : ℕ) (sets : List (TokenColMetaData × List TokenRow)) :
    (setsFrom index sets).length = sets.length := by
  induction sets generalizing index with
  | nil => rfl
  | cons head rest ih => simp only [setsFrom, List.length_cons, ih]

theorem setsFrom_resultIndex (index : ℕ) (sets : List (TokenColMetaData × List TokenRow)) (i : ℕ)
    {set : List Row} (hset : (setsFrom index sets)[i]? = some set) :
    ∀ row ∈ set, row.resultIndex = index + i := by
  induction sets generalizing index i with
  | nil => simp only [setsFrom, List.getElem?_nil, reduceCtorEq] at hset
  | cons head rest ih =>
    intro row hrow
    cases i with
    | zero =>
      simp only [setsFrom, List.getElem?_cons_zero, Option.some.injEq] at hset
      rw [← hset] at hrow
      obtain ⟨data, -, rfl⟩ := List.mem_map.mp hrow
      rfl
    | succ i =>
      simp only [setsFrom, List.getElem?_cons_succ] at hset
      rw [ih (index + 1) i hset row hrow]
      omega

theorem newResultsets_append (first second : List ReceivedToken) :
    newResultsets (first ++ second) = newResultsets first ++ newResultsets second :=
  List.filterMap_append

theorem wireRows_other (before rest : List ReceivedToken) {token : ReceivedToken}
    (htoken : token.isRow = false) :
    wireRows before (token :: rest) = wireRows (before ++ [token]) rest := by
  rw [wireRows]
  rintro data rfl
  cases htoken

/-- Behind some metadata, the rows of the wire are those of the open section and
of the sections that follow. -/
theorem wireRows_eq (before tokens : List ReceivedToken) {metadata : TokenColMetaData}
    (hlast : (newResultsets before).getLast? = some metadata) :
    wireRows before tokens =
      (sections tokens).1.map (rowOf metadata.toColumns ((newResultsets before).length - 1)) ++
        (setsFrom (newResultsets before).length (sections tokens).2).flatten := by
  induction tokens generalizing before metadata with
  | nil => rfl
  | cons token rest ih =>
    have hsame : newResultsets [token] = [] →
        newResultsets (before ++ [token]) = newResultsets before := by
      intro hnone
      rw [newResultsets_append, hnone, List.append_nil]
    cases token with
    | newResultset next =>
      have hnext : newResultsets (before ++ [.newResultset next]) =
          newResultsets before ++ [next] := newResultsets_append before _
      have hlastnext : (newResultsets (before ++ [.newResultset next])).getLast? = some next := by
        rw [hnext, List.getLast?_concat]
      rw [wireRows_other before rest rfl, ih _ hlastnext]
      simp only [hnext, List.length_append, List.length_cons, List.length_nil, Nat.zero_add,
        Nat.add_sub_cancel, sections, setsFrom, List.map_nil, List.nil_append, List.flatten_cons]
    | row data =>
      have hrest := ih (before ++ [.row data]) (by rw [hsame rfl]; exact hlast)
      rw [wireRows, hrest, hsame rfl]
      simp only [sections, List.map_cons, List.cons_append, rowBehind, hlast, Option.map_some,
        Option.getD_some, rowOf]
    | _ =>
      have hrest := ih (before ++ [_]) (by rw [hsame rfl]; exact hlast)
      rw [wireRows_other before rest rfl, hrest, hsame rfl]
      rfl

/-- Without rows in front of the metadata, the rows of the wire are those of the
result sets, one set behind the other. -/
theorem wireRows_flatten (before tokens : List ReceivedToken) (hnone : newResultsets before = [])
    (hrows : (sections tokens).1 = []) :
    (setsFrom 0 (sections tokens).2).flatten = wireRows before tokens := by
  induction tokens generalizing before with
  | nil => rfl
  | cons token rest ih =>
    cases token with
    | newResultset next =>
      have hnext : newResultsets (before ++ [.newResultset next]) = [next] := by
        rw [newResultsets_append, hnone]
        rfl
      have hlast : (newResultsets (before ++ [.newResultset next])).getLast? = some next := by
        rw [hnext]
        rfl
      rw [wireRows_other before rest rfl, wireRows_eq _ rest hlast]
      simp only [hnext, List.length_cons, List.length_nil, Nat.zero_add, sections, setsFrom,
        List.flatten_cons, Nat.sub_self]
    | row data => cases hrows
    | _ =>
      rw [wireRows_other before rest rfl]
      refine ih (before ++ [_]) ?_ hrows
      rw [newResultsets_append, hnone]
      rfl

/-- The outcome of a consumer that reads its stream to the end. -/
def endWith {α : Type} (final : Option Error) (value : α) : Except Error α :=
  match final with
  | none => .ok value
  | some error => .error error

theorem Consumer.onTokens_nil {σ α : Type} (consumer : Consumer σ α) (final : Option Error)
    {state : σ} (value : α) (hfinish : consumer.finish state = .ok value) :
    consumer.onTokens final state [] = endWith final value := by
  cases final with
  | none => exact hfinish
  | some error => rfl

theorem Consumer.onTokens_cons {σ α : Type} (consumer : Consumer σ α) (final : Option Error)
    {state next : σ} {token : ReceivedToken} (rest : List ReceivedToken)
    (hstep : consumer.step state token = .inl next) :
    consumer.onTokens final state (token :: rest) = consumer.onTokens final next rest := by
  simp only [onTokens, hstep]

theorem executeResult_eq (final : Option Error) (counts : List UInt64)
    (tokens : List ReceivedToken) :
    ExecuteResult.new.onTokens final counts tokens = endWith final (counts ++ doneCounts tokens) := by
  induction tokens generalizing counts with
  | nil =>
    rw [Consumer.onTokens_nil _ _ counts rfl]
    simp only [doneCounts, List.filterMap_nil, List.append_nil]
  | cons token rest ih =>
    have hnone : ExecuteResult.new.step counts token = .inl counts →
        doneCounts (token :: rest) = doneCounts rest →
          ExecuteResult.new.onTokens final counts (token :: rest) =
            endWith final (counts ++ doneCounts (token :: rest)) := by
      intro hstep hcounts
      rw [Consumer.onTokens_cons _ final rest hstep, ih, hcounts]
    have hsome : ∀ rows, ExecuteResult.new.step counts token = .inl (counts ++ [rows]) →
        doneCounts (token :: rest) = rows :: doneCounts rest →
          ExecuteResult.new.onTokens final counts (token :: rest) =
            endWith final (counts ++ doneCounts (token :: rest)) := by
      intro rows hstep hcounts
      rw [Consumer.onTokens_cons _ final rest hstep, ih, hcounts, List.append_assoc]
      rfl
    cases token with
    | doneProc done =>
      cases hfinal : done.isFinal with
      | true =>
        refine hnone ?_ ?_
        · simp only [ExecuteResult.new, hfinal, if_true]
        · simp only [doneCounts, List.filterMap_cons, hfinal, if_true]
      | false =>
        refine hsome done.rows ?_ ?_
        · simp only [ExecuteResult.new, hfinal, Bool.false_eq_true, if_false]
        · simp only [doneCounts, List.filterMap_cons, hfinal, Bool.false_eq_true, if_false]
    | doneInProc done => exact hsome done.rows rfl rfl
    | done done => exact hsome done.rows rfl rfl
    | _ => exact hnone rfl rfl

namespace QueryStream

/-- A stream behind the metadata of the result set with an ordinal. -/
def opened (columns : List Column) (index : ℕ) : QueryStream where
  forwarded := true
  columns := some columns
  resultSetIndex := some index

def fresh (forwarded : Bool) : QueryStream := { new with forwarded := forwarded }

end QueryStream

/-- The result sets behind some metadata: the open one takes the rows up to the
next metadata. -/
theorem intoResults_opened (final : Option Error) (columns : List Column) (index : ℕ)
    (results : List (List Row)) (current : List Row) (tokens : List ReceivedToken) :
    intoResults.onTokens final
        (.opened columns index, { results := results, current := some current }) tokens =
      endWith final (results ++
        (current ++ (sections tokens).1.map (rowOf columns index)) ::
          setsFrom (index + 1) (sections tokens).2) := by
  induction tokens generalizing columns index results current with
  | nil =>
    rw [Consumer.onTokens_nil _ _ (results ++ [current]) rfl]
    simp only [sections, List.map_nil, List.append_nil, setsFrom]
  | cons token rest ih =>
    cases token with
    | newResultset next =>
      refine (ih next.toColumns (index + 1) (results ++ [current]) []).trans ?_
      simp only [sections, setsFrom, List.map_nil, List.append_nil, List.append_assoc,
        List.cons_append, List.nil_append]
    | row data =>
      refine (ih columns index results (current ++ [rowOf columns index data])).trans ?_
      simp only [sections, List.map_cons, List.append_assoc, List.cons_append, List.nil_append]
    | _ => exact ih columns index results current

theorem intoResults_eq (final : Option Error) (forwarded : Bool) (tokens : List ReceivedToken)
    (hrows : (sections tokens).1 = []) :
    intoResults.onTokens final (.fresh forwarded, .empty) tokens =
      endWith final (setsFrom 0 (sections tokens).2) := by
  induction tokens with
  | nil => exact Consumer.onTokens_nil _ _ [] rfl
  | cons token rest ih =>
    cases token with
    | newResultset next =>
      refine (intoResults_opened final next.toColumns 0 [] [] rest).trans ?_
      simp only [sections, setsFrom, List.nil_append]
    | row data => cases hrows
    | _ => exact ih hrows

/-- The last return status, if there is one. -/
def returnCodeOf (code : UInt32) : List ReceivedToken → UInt32
  | [] => code
  | .returnStatus status :: rest => returnCodeOf status rest
  | _ :: rest => returnCodeOf code rest

def returnValuesOf (tokens : List ReceivedToken) : List CommandReturnValue :=
  tokens.filterMap fun
    | .returnValue value =>
      some { name := value.paramName, ord := value.paramOrdinal, data := value.value }
    | _ => none

/-- What `into_command_result` makes of the tokens behind what it has gathered. -/
def commandResult (code : UInt32) (values : List CommandReturnValue) (sets : List (List Row))
    (counts : List UInt64) (tokens : List ReceivedToken) : CommandResult where
  returnCode := returnCodeOf code tokens
  returnValues := values ++ returnValuesOf tokens
  queryResults := sets
  rowsAffected := counts ++ doneCounts tokens

/-- The query stream whose result sets a command stream gathers. -/
def CommandStream.toQuery (stream : CommandStream) : QueryStream where
  forwarded := true
  columns := stream.columns
  resultSetIndex := stream.resultSetIndex

/-- A command gathers the result sets of a query on the same tokens, and the
return values, the return status and the counts beside them. -/
theorem intoCommandResult_eq (final : Option Error) (state : CommandState)
    (tokens : List ReceivedToken) :
    intoCommandResult.onTokens final state tokens =
      (intoResults.onTokens final (state.stream.toQuery, state.collected) tokens).map fun sets =>
        commandResult state.returnStatus state.returnValues sets state.rowsAffected tokens := by
  induction tokens generalizing state with
  | nil =>
    cases final with
    | some error => rfl
    | none =>
      simp only [Consumer.onTokens, intoResults, Except.map, commandResult, returnCodeOf,
        returnValuesOf, doneCounts, List.filterMap_nil, List.append_nil]
      rfl
  | cons token rest ih =>
    have hdone : ∀ rows, intoCommandResult.step state token =
          .inl { state with rowsAffected := state.rowsAffected ++ [rows] } →
        intoResults.step (state.stream.toQuery, state.collected) token =
          .inl (state.stream.toQuery, state.collected) →
        returnCodeOf state.returnStatus (token :: rest) = returnCodeOf state.returnStatus rest →
        returnValuesOf (token :: rest) = returnValuesOf rest →
        doneCounts (token :: rest) = rows :: doneCounts rest →
          intoCommandResult.onTokens final state (token :: rest) =
            (intoResults.onTokens final (state.stream.toQuery, state.collected)
              (token :: rest)).map fun sets => commandResult state.returnStatus
                state.returnValues sets state.rowsAffected (token :: rest) := by
      intro rows hstep hquery hcode hvalues hcounts
      rw [Consumer.onTokens_cons _ final rest hstep, Consumer.onTokens_cons _ final rest hquery, ih]
      simp only [commandResult, hcode, hvalues, hcounts, List.append_assoc, List.cons_append,
        List.nil_append]
    cases token with
    | row data =>
      cases hcolumns : state.stream.columns with
      | none =>
        simp only [Consumer.onTokens, intoCommandResult, intoResults, CommandStream.onToken,
          QueryStream.onToken, CommandStream.toQuery, hcolumns, if_true, Except.map]
      | some columns =>
        have hstep : intoCommandResult.step state (.row data) = .inl { state with
            collected := state.collected.onRow (rowOf columns
              (state.stream.resultSetIndex.getD 0) data) } := by
          simp only [intoCommandResult, CommandStream.onToken, hcolumns]
          rfl
        have hquery : intoResults.step (state.stream.toQuery, state.collected) (.row data) =
            .inl (state.stream.toQuery, state.collected.onRow (rowOf columns
              (state.stream.resultSetIndex.getD 0) data)) := by
          simp only [intoResults, QueryStream.onToken, CommandStream.toQuery, hcolumns, if_true]
          rfl
        rw [Consumer.onTokens_cons _ final rest hstep, Consumer.onTokens_cons _ final rest hquery,
          ih]
        rfl
    | returnValue value =>
      refine (ih _).trans ?_
      simp only [commandResult, CommandState.onItem, List.append_assoc]
      rfl
    | doneProc done =>
      cases hfinal : done.isFinal with
      | true =>
        have hstep : intoCommandResult.step state (.doneProc done) = .inl state := by
          simp only [intoCommandResult, CommandStream.onToken, hfinal, if_true]
        have hcounts : doneCounts (.doneProc done :: rest) = doneCounts rest := by
          simp only [doneCounts, List.filterMap_cons, hfinal, if_true]
        rw [Consumer.onTokens_cons _ final rest hstep, ih]
        simp only [commandResult, hcounts]
        rfl
      | false =>
        refine hdone done.rows ?_ rfl rfl rfl ?_
        · simp only [intoCommandResult, CommandStream.onToken, hfinal, Bool.false_eq_true, if_false]
          rfl
        · simp only [doneCounts, List.filterMap_cons, hfinal, Bool.false_eq_true, if_false]
    | doneInProc done => exact hdone done.rows rfl rfl rfl rfl rfl
    | done done => exact hdone done.rows rfl rfl rfl rfl rfl
    | _ => exact ih _

/-- The first ERROR token of a response. -/
def firstError (tokens : List ReceivedToken) : Option TokenError :=
  tokens.findSome? fun
    | .error error => some error
    | _ => none

theorem foldl_rememberError (last : Option Error) (tokens : List ReceivedToken) :
    tokens.foldl rememberError last = last.or ((firstError tokens).map .server) := by
  induction tokens generalizing last with
  | nil =>
    cases last <;> rfl
  | cons token rest ih =>
    rw [List.foldl_cons, ih]
    cases token with
    | error error =>
      cases last <;> rfl
    | _ => rfl

theorem finalError_eq (tokens : List ReceivedToken) :
    finalError tokens = (firstError tokens).map .server :=
  foldl_rememberError none tokens

theorem firstError_eq_none {tokens : List ReceivedToken}
    (hnone : ∀ error, ReceivedToken.error error ∉ tokens) : firstError tokens = none := by
  refine List.findSome?_eq_none_iff.mpr fun token htoken => ?_
  cases token with
  | error error => exact absurd htoken (hnone error)
  | _ => rfl

/-- The three consumers agree on a response without errors: a command reports
the counts of an execution and the result sets of a query, there is one result
set for each metadata, and the rows stand in them in the order of the wire with
the columns and the ordinal of the metadata before them. -/
theorem consumers_agree (forwarded : Bool) (tokens : List ReceivedToken)
    (hnoerror : ∀ error, ReceivedToken.error error ∉ tokens) (hrows : RowsHaveMetadata tokens) :
    ∃ (sets : List (List Row)) (result : CommandResult),
      intoResults.onResponse (.fresh forwarded, .empty) tokens = .ok sets ∧
      intoCommandResult.onResponse .initial tokens = .ok result ∧
      ExecuteResult.new.onResponse [] tokens = .ok result.rowsAffected ∧
      result.queryResults = sets ∧
      sets.length = (newResultsets tokens).length ∧
      sets.flatten = wireRows [] tokens ∧
      ∀ (i : ℕ) (set : List Row), sets[i]? = some set → ∀ row ∈ set, row.resultIndex = i := by
  have hfinal : finalError tokens = none := by
    rw [finalError_eq, firstError_eq_none hnoerror]
    rfl
  have hsections := sections_fst_of_rowsHaveMetadata hrows
  have hquery : ∀ forwarded, intoResults.onResponse (.fresh forwarded, .empty) tokens =
      .ok (setsFrom 0 (sections tokens).2) := by
    intro forwarded
    rw [Consumer.onResponse, hfinal, intoResults_eq none forwarded tokens hsections]
    rfl
  have hcommand : intoCommandResult.onResponse .initial tokens =
      .ok (commandResult 0 [] (setsFrom 0 (sections tokens).2) [] tokens) := by
    have hsets := hquery true
    rw [Consumer.onResponse] at hsets ⊢
    rw [intoCommandResult_eq]
    exact congrArg _ hsets
  refine ⟨_, _, hquery forwarded, hcommand, ?_, rfl, ?_, ?_, ?_⟩
  · rw [Consumer.onResponse, hfinal, executeResult_eq]
    rfl
  · rw [setsFrom_length, sections_length]
  · exact wireRows_flatten [] tokens rfl hsections
  · intro i set hset row hrow
    rw [setsFrom_resultIndex 0 _ i hset row hrow, Nat.zero_add]

/-- Metadata of an integer and a bit. -/
def idAndFlag : TokenColMetaData where
  columns :=
    [{ base := { flags := 0, ty := .fixedLen .int4, tableName := none }, colName := "id" },
      { base := { flags := 0, ty := .fixedLen .bit, tableName := none }, colName := "flag" }]

/-- Two result sets, the second one empty, with a count for each. -/
theorem consumers_agree_two_sets :
    let tokens : List ReceivedToken :=
      [.newResultset idAndFlag, .row { data := [.i32 (some 1), .bit (some true)] },
        .doneInProc { status := .empty, curCmd := 0, doneRows := 1 },
        .newResultset idAndFlag, .returnStatus 7,
        .doneProc { status := .empty, curCmd := 0, doneRows := 0 }]
    ∃ sets, intoResults.onResponse (.fresh false, .empty) tokens = .ok sets ∧ sets.length = 2 ∧
      sets.flatten =
        [{ columns := [⟨"id", .int4⟩, ⟨"flag", .bit⟩]
           data := { data := [.i32 (some 1), .bit (some true)] }
           resultIndex := 0 }] := by
  intro tokens
  obtain ⟨sets, result, hsets, -, -, -, hlength, hrows, -⟩ :=
    consumers_agree false tokens (by simp [tokens]) (by decide)
  exact ⟨sets, hsets, hlength, hrows.trans rfl⟩

end Tiberius

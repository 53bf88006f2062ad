import Tiberius.Results

/-!
Asking a query stream for its columns. The call looks ahead in the token stream:
it drops the tokens that carry no item, and takes the columns of the metadata it
finds without consuming it. What it drops the reader of the stream would have
dropped, and what it records the reader would record, so the items that follow
are the same with the call and without it.
-/

namespace Tiberius

/-- What a token stream still yields. -/
abbrev TokenItems : Type := List (Except Error ReceivedToken)

/-- A query stream over the rest of its token stream, which can be peeked. -/
structure PeekableQuery where
  tokenStream : TokenItems
  state : QueryStream

namespace PeekableQuery

def new (tokens : TokenItems) : PeekableQuery where
  tokenStream := tokens
  state := .new

/-- The loop of `poll_next`: tokens are taken until one of them makes an item. -/
def pollNextLoop : TokenItems → QueryStream → Option (Except Error QueryItem) × PeekableQuery
  | [], state => (none, { tokenStream := [], state := state })
  | .error error :: rest, state => (some (.error error), { tokenStream := rest, state := state })
  | .ok token :: rest, state =>
    match state.onToken token with
    | (state, some item) => (some item, { tokenStream := rest, state := state })
    | (state, none) => pollNextLoop rest state

def pollNext (query : PeekableQuery) : Option (Except Error QueryItem) × PeekableQuery :=
  pollNextLoop query.tokenStream query.state

/-- The loop of `columns`. Metadata, a row or an error stays in the stream. -/
def columnsLoop :
    TokenItems → QueryStream → Except Error (Option (List Column)) × PeekableQuery
  | [], state => (.ok state.columns, { tokenStream := [], state := state })
  | .error error :: rest, state =>
    (.error error, { tokenStream := .error error :: rest, state := state })
  | .ok token :: rest, state =>
    match token with
    | .newResultset metadata =>
      let state := { state with columns := some metadata.toColumns }
      (.ok state.columns, { tokenStream := .ok token :: rest, state := state })
    | .row _ => (.ok state.columns, { tokenStream := .ok token :: rest, state := state })
    | _ => columnsLoop rest state

def columns (query : PeekableQuery) : Except Error (Option (List Column)) × PeekableQuery :=
  columnsLoop query.tokenStream query.state

/-- The loop of `forward_to_metadata`, which drops rows as well. -/
def forwardLoop : TokenItems → QueryStream → Except Error Unit × PeekableQuery
  | [], state => (.ok (), { tokenStream := [], state := state })
  | .error error :: rest, state =>
    (.error error, { tokenStream := .error error :: rest, state := state })
  | .ok token :: rest, state =>
    match token with
    | .newResultset _ => (.ok (), { tokenStream := .ok token :: rest, state := state })
    | _ => forwardLoop rest state

def forwardToMetadata (query : PeekableQuery) : Except Error Unit × PeekableQuery :=
  forwardLoop query.tokenStream query.state

end PeekableQuery

/-- A token that a reader of a query stream is given an item for. -/
def ReceivedToken.isItem : ReceivedToken → Bool
  | newResultset _ => true
  | row _ => true
  | _ => false

theorem ReceivedToken.item_cases (token : ReceivedToken) :
    (∃ metadata, token = .newResultset metadata) ∨ (∃ data, token = .row data) ∨
      token.isItem = false := by
  cases token with
  | newResultset metadata => exact Or.inl ⟨metadata, rfl⟩
  | row data => exact Or.inr (Or.inl ⟨data, rfl⟩)
  | _ => exact Or.inr (Or.inr rfl)

/-- What a call of `next` returns: an item for a token, or the error itself. -/
def returnsItem : Except Error ReceivedToken → Bool
  | .ok token => token.isItem
  | .error _ => true

/-- The columns of the last metadata among tokens. -/
def lastColumns : TokenItems → Option (List Column)
  | [] => none
  | .ok (.newResultset metadata) :: rest => (lastColumns rest).or (some metadata.toColumns)
  | _ :: rest => lastColumns rest

/-- The tokens up to the one that `next` returns after it has returned `count`
items; all of them when there is none left. -/
def upToNext : ℕ → TokenItems → TokenItems
  | _, [] => []
  | count, item :: rest =>
    if returnsItem item then
      match count with
      | 0 => [item]
      | count + 1 => item :: upToNext count rest
    else item :: upToNext count rest

namespace PeekableQuery

theorem pollNextLoop_skip {token : ReceivedToken} (hskip : token.isItem = false)
    (rest : TokenItems) (state : QueryStream) :
    pollNextLoop (.ok token :: rest) state = pollNextLoop rest state := by
  cases token with
  | newResultset metadata => cases hskip
  | row row => cases hskip
  | _ => rfl

theorem columnsLoop_skip {token : ReceivedToken} (hskip : token.isItem = false)
    (rest : TokenItems) (state : QueryStream) :
    columnsLoop (.ok token :: rest) state = columnsLoop rest state := by
  cases token with
  | newResultset metadata => cases hskip
  | row row => cases hskip
  | _ => rfl

/-- Looking at the columns first changes nothing about the next item. -/
theorem pollNext_columns (query : PeekableQuery) : query.columns.2.pollNext = query.pollNext := by
  obtain ⟨tokens, state⟩ := query
  simp only [columns, pollNext]
  induction tokens with
  | nil => rfl
  | cons item rest ih =>
    cases item with
    | error error => rfl
    | ok token =>
      rcases token.item_cases with ⟨metadata, rfl⟩ | ⟨data, rfl⟩ | hskip
      · rfl
      · rfl
      · rw [columnsLoop_skip hskip, ih, pollNextLoop_skip hskip]

end PeekableQuery

/-- A call on a query stream. -/
inductive QueryCall where
  | next
  | columns
  deriving DecidableEq

namespace PeekableQuery

/-- What the `next` calls among the calls return. -/
def items : List QueryCall → PeekableQuery → List (Option (Except Error QueryItem))
  | [], _ => []
  | .next :: rest, query => query.pollNext.1 :: items rest query.pollNext.2
  | .columns :: rest, query => items rest query.columns.2

/-- What the `columns` calls return, each with the number of `next` calls made
before it. -/
def columnAnswers :
    ℕ → List QueryCall → PeekableQuery → List (ℕ × Except Error (Option (List Column)))
  | _, [], _ => []
  | count, .next :: rest, query => columnAnswers (count + 1) rest query.pollNext.2
  | count, .columns :: rest, query =>
    (count, query.columns.1) :: columnAnswers count rest query.columns.2

theorem items_columns (calls : List QueryCall) (query : PeekableQuery) :
    items calls query.columns.2 = items calls query := by
  induction calls generalizing query with
  | nil => rfl
  | cons call rest ih =>
    cases call with
    | next => simp only [items, pollNext_columns]
    | columns => rw [items, ih, ih, items, ih]

/-- The items are those of the same calls without any call for the columns. -/
theorem items_filter (calls : List QueryCall) (query : PeekableQuery) :
    items calls query = items (calls.filter (· = .next)) query := by
  induction calls generalizing query with
  | nil => rfl
  | cons call rest ih =>
    cases call with
    | next => simp only [items, ih, decide_true, List.filter_cons_of_pos]
    | columns =>
      rw [items, items_columns, ih, List.filter_cons_of_neg]
      intro h
      cases of_decide_eq_true h

end PeekableQuery

/-- The number of items that `next` returns for tokens. -/
def itemCount (tokens : TokenItems) : ℕ := tokens.countP returnsItem

theorem lastColumns_skip {token : ReceivedToken} (hskip : token.isItem = false)
    (rest : TokenItems) : lastColumns (.ok token :: rest) = lastColumns rest := by
  cases token with
  | newResultset metadata => cases hskip
  | _ => rfl

theorem lastColumns_append (first second : TokenItems) :
    lastColumns (first ++ second) = (lastColumns second).or (lastColumns first) := by
  induction first with
  | nil => exact (Option.or_none).symm
  | cons item rest ih =>
    cases item with
    | error error => exact ih
    | ok token =>
      rcases token.item_cases with ⟨metadata, rfl⟩ | ⟨data, rfl⟩ | hskip
      · simp only [List.cons_append, lastColumns, ih, Option.or_assoc]
      · exact ih
      · rw [List.cons_append, lastColumns_skip hskip, lastColumns_skip hskip, ih]

theorem upToNext_skip {item : Except Error ReceivedToken} (hitem : ¬returnsItem item = true)
    (count : ℕ) (rest : TokenItems) :
    upToNext count (item :: rest) = item :: upToNext count rest := by
  rw [upToNext.eq_def]
  exact if_neg hitem

theorem upToNext_append (first second : TokenItems) :
    upToNext (itemCount first) (first ++ second) = first ++ upToNext 0 second := by
  induction first with
  | nil => rfl
  | cons item rest ih =>
    by_cases hitem : returnsItem item = true
    · rw [itemCount, List.countP_cons_of_pos hitem, ← itemCount, List.cons_append, upToNext,
        if_pos hitem, ih, List.cons_append]
    · rw [itemCount, List.countP_cons_of_neg hitem, ← itemCount, List.cons_append,
        upToNext_skip hitem, ih, List.cons_append]

theorem upToNext_of_le {count : ℕ} {tokens : TokenItems} (hcount : itemCount tokens ≤ count) :
    upToNext count tokens = tokens := by
  induction tokens generalizing count with
  | nil => rfl
  | cons item rest ih =>
    by_cases hitem : returnsItem item = true
    · rw [itemCount, List.countP_cons_of_pos hitem, ← itemCount] at hcount
      obtain ⟨count, rfl⟩ : ∃ less, count = less + 1 := ⟨count - 1, by omega⟩
      rw [upToNext, if_pos hitem, ih (by omega)]
    · rw [itemCount, List.countP_cons_of_neg hitem, ← itemCount] at hcount
      rw [upToNext_skip hitem, ih hcount]

namespace PeekableQuery

/-- Where a query stream stands after `count` calls of `next`: what it has
consumed of the tokens, and the columns it has cached of them. The columns may
be those of metadata that is still to be returned. -/
structure Awaits (tokens : TokenItems) (count : ℕ) (query : PeekableQuery)
    (consumed : TokenItems) : Prop where
  forwarded : query.state.forwarded = true
  split : tokens = consumed ++ query.tokenStream
  counted : itemCount consumed = count ∨ query.tokenStream = [] ∧ itemCount consumed ≤ count
  cached : query.state.columns = lastColumns consumed ∨
    ∃ metadata rest, query.tokenStream = .ok (.newResultset metadata) :: rest ∧
      query.state.columns = some metadata.toColumns

theorem Awaits.upToNext_eq {tokens consumed : TokenItems} {count : ℕ} {query : PeekableQuery}
    (hawaits : Awaits tokens count query consumed) :
    upToNext count tokens = consumed ++ upToNext 0 query.tokenStream := by
  rcases hawaits.counted with hcount | ⟨hend, hcount⟩
  · rw [hawaits.split, ← hcount, upToNext_append]
  · rw [hawaits.split, hend, List.append_nil, upToNext_of_le hcount]
    exact (List.append_nil consumed).symm

theorem not_returnsItem {token : ReceivedToken} (hskip : token.isItem = false) :
    ¬returnsItem (.ok token) = true := by
  rw [returnsItem, hskip]
  exact Bool.false_ne_true

/-- A token that carries no item leaves the cached columns those of what has been
consumed. -/
theorem cached_skip {token : ReceivedToken} {consumed rest : TokenItems} {state : QueryStream}
    (hskip : token.isItem = false)
    (hcached : state.columns = lastColumns consumed ∨
      ∃ metadata other, .ok token :: rest = .ok (.newResultset metadata) :: other ∧
        state.columns = some metadata.toColumns) :
    state.columns = lastColumns (consumed ++ [.ok token]) := by
  rw [lastColumns_append, lastColumns_skip hskip]
  apply hcached.resolve_right
  rintro ⟨metadata, other, hcons, -⟩
  cases hcons
  cases hskip

/-- The loop of `columns` from any point: what it drops returns no item, and it
answers with the columns up to the item that comes next. -/
theorem columnsLoop_spec (tokens consumed : TokenItems) (state : QueryStream)
    (hcached : state.columns = lastColumns consumed ∨
      ∃ metadata rest, tokens = .ok (.newResultset metadata) :: rest ∧
        state.columns = some metadata.toColumns) :
    ∃ dropped, itemCount dropped = 0 ∧
      tokens = dropped ++ (columnsLoop tokens state).2.tokenStream ∧
      (columnsLoop tokens state).2.state.forwarded = state.forwarded ∧
      ((columnsLoop tokens state).2.state.columns = lastColumns (consumed ++ dropped) ∨
        ∃ metadata rest,
          (columnsLoop tokens state).2.tokenStream = .ok (.newResultset metadata) :: rest ∧
          (columnsLoop tokens state).2.state.columns = some metadata.toColumns) ∧
      ∀ cols, (columnsLoop tokens state).1 = .ok cols →
        cols = lastColumns (consumed ++ upToNext 0 tokens) := by
  induction tokens generalizing consumed with
  | nil =>
    have hsame := hcached.resolve_right (by rintro ⟨metadata, rest, hnil, -⟩; cases hnil)
    refine ⟨[], rfl, rfl, rfl, Or.inl ?_, ?_⟩
    · rw [List.append_nil]
      exact hsame
    · intro cols hcols
      cases hcols
      rw [upToNext, List.append_nil]
      exact hsame
  | cons item rest ih =>
    cases item with
    | error error =>
      refine ⟨[], rfl, rfl, rfl, ?_, ?_⟩
      · rw [List.append_nil]
        exact hcached
      · intro cols hcols
        cases hcols
    | ok token =>
      rcases token.item_cases with ⟨metadata, rfl⟩ | ⟨data, rfl⟩ | hskip
      · refine ⟨[], rfl, rfl, rfl, Or.inr ⟨metadata, rest, rfl, rfl⟩, ?_⟩
        intro cols hcols
        cases hcols
        rw [lastColumns_append]
        rfl
      · have hsame := hcached.resolve_right (by rintro ⟨metadata, other, hcons, -⟩; cases hcons)
        refine ⟨[], rfl, rfl, rfl, Or.inl ?_, ?_⟩
        · rw [List.append_nil]
          exact hsame
        · intro cols hcols
          cases hcols
          rw [lastColumns_append]
          exact hsame
      · have hsame := cached_skip hskip hcached
        have hcounted := not_returnsItem hskip
        obtain ⟨dropped, hcount, hsplit, hforwarded, hcache, hanswer⟩ := ih _ (Or.inl hsame)
        rw [columnsLoop_skip hskip]
        simp only [List.append_assoc, List.singleton_append] at hcache hanswer
        refine ⟨.ok token :: dropped, ?_, ?_, hforwarded, hcache, ?_⟩
        · rw [itemCount, List.countP_cons_of_neg hcounted]
          exact hcount
        · rw [List.cons_append, ← hsplit]
        · rw [upToNext_skip hcounted]
          exact hanswer

/-- The loop of `poll_next` from any point: it uses the tokens up to one that
returns an item, or all of them. -/
theorem pollNextLoop_spec (tokens consumed : TokenItems) {state : QueryStream}
    (hforwarded : state.forwarded = true)
    (hcached : state.columns = lastColumns consumed ∨
      ∃ metadata rest, tokens = .ok (.newResultset metadata) :: rest ∧
        state.columns = some metadata.toColumns) :
    ∃ used, tokens = used ++ (pollNextLoop tokens state).2.tokenStream ∧
      (itemCount used = 1 ∨
        itemCount used = 0 ∧ (pollNextLoop tokens state).2.tokenStream = []) ∧
      (pollNextLoop tokens state).2.state.forwarded = true ∧
      (pollNextLoop tokens state).2.state.columns = lastColumns (consumed ++ used) := by
  induction tokens generalizing consumed with
  | nil =>
    have hsame := hcached.resolve_right (by rintro ⟨metadata, rest, hnil, -⟩; cases hnil)
    refine ⟨[], rfl, Or.inr ⟨rfl, rfl⟩, hforwarded, ?_⟩
    rw [List.append_nil]
    exact hsame
  | cons item rest ih =>
    cases item with
    | error error =>
      have hsame := hcached.resolve_right (by rintro ⟨metadata, other, hcons, -⟩; cases hcons)
      refine ⟨[.error error], rfl, Or.inl rfl, hforwarded, ?_⟩
      rw [lastColumns_append]
      exact hsame
    | ok token =>
      rcases token.item_cases with ⟨metadata, rfl⟩ | ⟨data, rfl⟩ | hskip
      · refine ⟨[.ok (.newResultset metadata)], rfl, Or.inl rfl, rfl, ?_⟩
        rw [lastColumns_append]
        rfl
      · have hsame := hcached.resolve_right (by rintro ⟨metadata, other, hcons, -⟩; cases hcons)
        have htoken : ∃ item, state.onToken (.row data) = (state, some item) := by
          simp only [QueryStream.onToken, hforwarded, if_true]
          cases state.columns with
          | none => exact ⟨_, rfl⟩
          | some columns => exact ⟨_, rfl⟩
        obtain ⟨item, hitem⟩ := htoken
        simp only [pollNextLoop, hitem]
        refine ⟨[.ok (.row data)], rfl, Or.inl rfl, hforwarded, ?_⟩
        rw [lastColumns_append]
        exact hsame
      · have hsame := cached_skip hskip hcached
        have hcounted := not_returnsItem hskip
        obtain ⟨used, hsplit, hcount, hstill, hcache⟩ := ih _ (Or.inl hsame)
        rw [pollNextLoop_skip hskip]
        rw [List.append_assoc, List.singleton_append] at hcache
        refine ⟨.ok token :: used, ?_, ?_, hstill, hcache⟩
        · rw [List.cons_append, ← hsplit]
        · rw [itemCount, List.countP_cons_of_neg hcounted]
          exact hcount

variable {tokens consumed : TokenItems} {count : ℕ} {query : PeekableQuery}

theorem Awaits.next (hawaits : Awaits tokens count query consumed) :
    ∃ further, Awaits tokens (count + 1) query.pollNext.2 further := by
  obtain ⟨used, hsplit, hcount, hforwarded, hcached⟩ :=
    pollNextLoop_spec query.tokenStream consumed hawaits.forwarded hawaits.cached
  refine ⟨consumed ++ used, hforwarded, ?_, ?_, Or.inl hcached⟩
  · rw [List.append_assoc]
    exact hawaits.split.trans (congrArg (consumed ++ ·) hsplit)
  · have hsum : itemCount (consumed ++ used) = itemCount consumed + itemCount used :=
      List.countP_append
    rw [hsum]
    rcases hawaits.counted with hbefore | ⟨hend, hbefore⟩
    · rcases hcount with hone | ⟨hnone, hend⟩
      · exact Or.inl (by omega)
      · exact Or.inr ⟨hend, by omega⟩
    · have hnil : used = [] ∧ query.pollNext.2.tokenStream = [] :=
        List.append_eq_nil_iff.mp (hsplit.symm.trans hend)
      refine Or.inr ⟨hnil.2, ?_⟩
      rw [hnil.1]
      exact Nat.le_succ_of_le hbefore

theorem Awaits.columns (hawaits : Awaits tokens count query consumed) :
    (∃ further, Awaits tokens count query.columns.2 further) ∧
      ∀ cols, query.columns.1 = .ok cols → cols = lastColumns (upToNext count tokens) := by
  obtain ⟨dropped, hcount, hsplit, hforwarded, hcached, hanswer⟩ :=
    columnsLoop_spec query.tokenStream consumed query.state hawaits.cached
  constructor
  · refine ⟨consumed ++ dropped, hforwarded.trans hawaits.forwarded, ?_, ?_, hcached⟩
    · rw [List.append_assoc]
      exact hawaits.split.trans (congrArg (consumed ++ ·) hsplit)
    · have hsum : itemCount (consumed ++ dropped) = itemCount consumed := by
        rw [itemCount, List.countP_append]
        exact congrArg (itemCount consumed + ·) hcount
      rw [hsum]
      rcases hawaits.counted with hbefore | ⟨hend, hbefore⟩
      · exact Or.inl hbefore
      · have hnil : dropped = [] ∧ query.columns.2.tokenStream = [] :=
          List.append_eq_nil_iff.mp (hsplit.symm.trans hend)
        exact Or.inr ⟨hnil.2, hbefore⟩
  · rw [hawaits.upToNext_eq]
    exact hanswer

theorem columnAnswers_of_awaits (calls : List QueryCall)
    (hawaits : Awaits tokens count query consumed) :
    ∀ answer ∈ columnAnswers count calls query, ∀ cols, answer.2 = .ok cols →
      cols = lastColumns (upToNext answer.1 tokens) := by
  induction calls generalizing count query consumed with
  | nil => exact fun answer hanswer => absurd hanswer List.not_mem_nil
  | cons call rest ih =>
    cases call with
    | next =>
      obtain ⟨further, hfurther⟩ := hawaits.next
      exact ih hfurther
    | columns =>
      obtain ⟨⟨further, hfurther⟩, hfirst⟩ := hawaits.columns
      intro answer hanswer
      rcases List.mem_cons.mp hanswer with rfl | hlater
      · exact hfirst
      · exact ih hfurther answer hlater

end PeekableQuery

/-- Forwarding a new stream leaves a new stream over the rest of its tokens, and
no metadata is passed over. -/
theorem PeekableQuery.forwardToMetadata_new (tokens : TokenItems) :
    ∃ dropped rest, tokens = dropped ++ rest ∧ lastColumns dropped = none ∧
      (PeekableQuery.new tokens).forwardToMetadata.2 = .new rest := by
  rw [forwardToMetadata, new]
  induction tokens with
  | nil => exact ⟨[], [], rfl, rfl, rfl⟩
  | cons item rest ih =>
    obtain ⟨dropped, left, hsplit, hnone, hforward⟩ := ih
    cases item with
    | error error => exact ⟨[], .error error :: rest, rfl, rfl, rfl⟩
    | ok token =>
      cases token with
      | newResultset metadata => exact ⟨[], .ok (.newResultset metadata) :: rest, rfl, rfl, rfl⟩
      | _ => exact ⟨_ :: dropped, left, congrArg (_ :: ·) hsplit, hnone, hforward⟩

/-- Calls for the columns are invisible to the reader of a query stream, and
every one that succeeds shows the columns that hold for the item to come. -/
theorem columns_transparent (tokens : TokenItems) (calls : List QueryCall) :
    PeekableQuery.items calls (.new tokens) =
        PeekableQuery.items (calls.filter (· = .next)) (.new tokens) ∧
      ∀ answer ∈ PeekableQuery.columnAnswers 0 calls (.new tokens), ∀ columns,
        answer.2 = .ok columns → columns = lastColumns (upToNext answer.1 tokens) := by
  have hstart : PeekableQuery.Awaits tokens 0 (.new tokens) [] :=
    ⟨rfl, rfl, Or.inl rfl, Or.inl rfl⟩
  exact ⟨PeekableQuery.items_filter calls (.new tokens),
    PeekableQuery.columnAnswers_of_awaits calls hstart⟩

-- Behind the only row of a first result set the columns are those of the second.
example (first second : TokenColMetaData) (data : TokenRow) :
    PeekableQuery.columnAnswers 0 [.columns, .next, .columns, .next, .columns]
        (.new [.ok (.newResultset first), .ok (.row data), .ok (.returnStatus 0),
          .ok (.newResultset second)]) =
      [(0, .ok (some first.toColumns)), (1, .ok (some first.toColumns)),
        (2, .ok (some second.toColumns))] := rfl

end Tiberius

import Mathlib.Data.List.TakeWhile
import Tiberius.Ledger
import Tiberius.ResultSets

/-!
The consumers on whole responses. A response is complete when its bytes are
tokens and the last one ends in the packet that ends the message. A consumer that
reads it from the connection comes to what the tokens alone determine; an ERROR
token anywhere among them is what the consumer ends with, and the first one is
the one that is reported. A token that the context refuses ends the reading where it
stands, whatever errors are in front of it or behind.
-/

namespace Tiberius

open Reading

/-- The tokens that the bytes of a response are, up to a packet that ends the
message and holds the end of the last one. -/
structure Response.Carries [EncodingRs] (response : Response) (context : Context)
    (tokens : List ReceivedToken) : Prop where
  tokens_eq : ∃ reached, scan context response.bytes = (tokens, .complete reached)
  closes : response.last.payload ≠ []

theorem scanFrom_length [EncodingRs] (fuel : ℕ) (context : Context) (bytes : List UInt8) :
    (scanFrom fuel context bytes).1.length ≤ fuel := by
  induction fuel generalizing context bytes with
  | zero => exact Nat.le_refl _
  | succ fuel ih =>
    rw [scanFrom]
    split
    · exact Nat.zero_le _
    · cases hdecode : ReceivedToken.decode.run context bytes with
      | done token rest =>
        simp only
        cases hreceive : context.receive token with
        | ok after => exact Nat.succ_le_succ (ih after rest)
        | error error => exact Nat.zero_le _
      | failed fault rest => cases fault <;> exact Nat.zero_le _
      | short left rest => exact Nat.zero_le _

namespace Consumer

variable {σ α : Type} [EncodingRs]

theorem onStream_of_yields (consumer : Consumer σ α) (state : σ) {stream final : TokenStream}
    {tokens : List ReceivedToken} {after : Connection} {last : Option Error} {fuel : ℕ}
    (hyields : Yields stream tokens final)
    (hend : final.next = TokenStream.finish { conn := after, lastError := last })
    (hfuel : tokens.length < fuel) :
    ∃ conn, consumer.onStream fuel state stream =
      .returned (consumer.onTokens last state tokens) conn := by
  obtain ⟨fuel, rfl⟩ : ∃ turns, fuel = turns + 1 := ⟨fuel - 1, by omega⟩
  induction hyields generalizing state fuel with
  | nil stream =>
    refine ⟨after, ?_⟩
    rw [onStream, hend, TokenStream.finish]
    cases last <;> rfl
  | cons hnext hrest ih =>
    rename_i stream next final token tokens
    rw [onStream, hnext, onTokens]
    simp only
    cases hstep : consumer.step state token with
    | inl state =>
      obtain ⟨turns, rfl⟩ : ∃ turns, fuel = turns + 1 := ⟨fuel - 1, by
        rw [List.length_cons] at hfuel
        omega⟩
      refine ih state hend turns ?_
      rw [List.length_cons] at hfuel
      omega
    | inr result => exact ⟨next.conn, rfl⟩

theorem run_of_carries (consumer : Consumer σ α) (state : σ) {conn : Connection}
    {response : Response} {later : List Packet} {tokens : List ReceivedToken}
    (hawaits : conn.Awaits response later) (hcarries : response.Carries conn.context tokens) :
    ∃ after, consumer.run state conn = .returned (consumer.onResponse state tokens) after := by
  obtain ⟨reached, hscan⟩ := hcarries.tokens_eq
  obtain ⟨stream, after, hyields, hnext, -⟩ := yields_of_awaits hawaits hcarries.closes hscan
  have htokens : tokens.length ≤ response.bytes.length := by
    have hlength := scanFrom_length response.bytes.length conn.context response.bytes
    rw [show scanFrom response.bytes.length conn.context response.bytes = _ from hscan] at hlength
    exact hlength
  have hunread : response.bytes.length ≤ conn.unread.length := by
    rw [Connection.unread, hawaits.inbound, List.flatMap_append, List.length_append,
      List.length_append, Response.bytes]
    omega
  exact onStream_of_yields consumer state hyields hnext (by omega)

end Consumer

/-- Behind some metadata no token stops a query stream. -/
theorem queryItems_opened (final : Option Error) (columns : List Column) (index : ℕ)
    (items : List QueryItem) (tokens : List ReceivedToken) :
    ∃ all, queryItems.onTokens final (.opened columns index, items) tokens =
      endWith final all := by
  induction tokens generalizing columns index items with
  | nil => exact ⟨items, Consumer.onTokens_nil _ _ items rfl⟩
  | cons token rest ih =>
    cases token with
    | newResultset next => exact ih next.toColumns (index + 1) _
    | row data => exact ih columns index _
    | _ => exact ih columns index items

theorem queryItems_eq (final : Option Error) (forwarded : Bool) (items : List QueryItem)
    (tokens : List ReceivedToken) (hrows : (sections tokens).1 = []) :
    ∃ all, queryItems.onTokens final (.fresh forwarded, items) tokens = endWith final all := by
  induction tokens generalizing items with
  | nil => exact ⟨items, Consumer.onTokens_nil _ _ items rfl⟩
  | cons token rest ih =>
    cases token with
    | newResultset next => exact queryItems_opened final next.toColumns 0 _ rest
    | row data => cases hrows
    | _ => exact ih items hrows

/-- The tokens that bytes are, one behind the other. One that is refused leaves the context
alone. -/
def AreTokens [EncodingRs] : Context → List UInt8 → List ReceivedToken → Prop
  | _, bytes, [] => bytes = []
  | context, bytes, token :: rest =>
    ∃ left, ReceivedToken.decode.run context bytes = .done token left ∧
      AreTokens (context.passed token) left rest

section Refusals

/-- The error with which a token is refused: a packet size outside the range of the
protocol is, and nothing else. -/
def ReceivedToken.refused : ReceivedToken → Option Error
  | .envChange (.packetSize _ new) =>
    if 512 ≤ new ∧ new ≤ 32767 then none
    else some (.protocol ("server requested an invalid packet size of " ++ toString new))
  | _ => none

/-- The error of the first token that is refused. -/
def refusal (tokens : List ReceivedToken) : Option Error :=
  tokens.findSome? ReceivedToken.refused

/-- The tokens in front of the first one that is refused. -/
def taken (tokens : List ReceivedToken) : List ReceivedToken :=
  tokens.takeWhile fun token => token.refused.isNone

theorem receive_of_refused {token : ReceivedToken} {error : Error}
    (hrefused : token.refused = some error) (context : Context) :
    context.receive token = .error error := by
  cases token with
  | envChange change =>
    cases change with
    | packetSize old new =>
      by_cases hrange : 512 ≤ new ∧ new ≤ 32767
      · rw [ReceivedToken.refused, if_pos hrange] at hrefused
        cases hrefused
      · have herror := Option.some.inj ((if_neg hrange).symm.trans hrefused)
        exact (if_neg hrange).trans (congrArg Except.error herror)
    | _ => cases hrefused
  | _ => cases hrefused

theorem receive_of_not_refused {token : ReceivedToken} (htaken : token.refused = none)
    (context : Context) : context.receive token = .ok (context.passed token) := by
  have hok : ∃ after, context.receive token = .ok after := by
    cases token with
    | envChange change =>
      cases change with
      | packetSize old new =>
        by_cases hrange : 512 ≤ new ∧ new ≤ 32767
        · exact ⟨_, if_pos hrange⟩
        · rw [ReceivedToken.refused, if_neg hrange] at htaken
          cases htaken
      | _ => exact ⟨_, rfl⟩
    | _ => exact ⟨_, rfl⟩
  obtain ⟨after, hreceive⟩ := hok
  rw [Context.passed_of_ok hreceive, hreceive]

theorem RowsHaveMetadata.left {first second : List ReceivedToken}
    (hrows : RowsHaveMetadata (first ++ second)) : RowsHaveMetadata first := by
  intro before data after hsplit
  apply hrows before data (after ++ second)
  rw [hsplit, List.append_assoc, List.cons_append]

theorem RowsHaveMetadata.taken {tokens : List ReceivedToken} (hrows : RowsHaveMetadata tokens) :
    RowsHaveMetadata (taken tokens) := by
  have hsplit := @List.takeWhile_append_dropWhile _ (fun token => token.refused.isNone) tokens
  rw [← hsplit] at hrows
  exact hrows.left

theorem taken_of_refusal_none {tokens : List ReceivedToken} (hnone : refusal tokens = none) :
    taken tokens = tokens := by
  rw [refusal, List.findSome?_eq_none_iff] at hnone
  rw [taken, List.takeWhile_eq_self_iff]
  intro token htoken
  rw [hnone token htoken]
  rfl

variable [EncodingRs]

/-- Reading tokens one by one stops at the first that is refused, or at their end. -/
theorem scanFrom_areTokens {context : Context} {bytes : List UInt8} {tokens : List ReceivedToken}
    (htokens : AreTokens context bytes tokens) {fuel : ℕ} (hfuel : bytes.length ≤ fuel) :
    ∃ ending, scanFrom fuel context bytes = (taken tokens, ending) ∧
      (refusal tokens = none → ∃ reached, ending = .complete reached) ∧
        ∀ error, refusal tokens = some error → ending = .rejected error := by
  induction tokens generalizing context bytes fuel with
  | nil =>
    cases htokens
    refine ⟨.complete context, by cases fuel <;> rfl, fun _ => ⟨context, rfl⟩, ?_⟩
    intro error herror
    cases herror
  | cons token rest ih =>
    obtain ⟨left, hdecode, hrest⟩ := htokens
    have hless := ReceivedToken.decode_shrinks hdecode
    obtain ⟨fuel, rfl⟩ : ∃ turns, fuel = turns + 1 := ⟨fuel - 1, by omega⟩
    have hempty : bytes.isEmpty = false := by
      rw [List.isEmpty_eq_false_iff]
      rintro rfl
      simp at hless
    simp only [scanFrom, hempty, hdecode, Bool.false_eq_true, if_false]
    cases hrefused : token.refused with
    | some error =>
      have htaken : taken (token :: rest) = [] := by simp [taken, hrefused]
      have hrefusal : refusal (token :: rest) = some error := by simp [refusal, hrefused]
      simp only [receive_of_refused hrefused, htaken, hrefusal]
      refine ⟨_, rfl, ?_, ?_⟩
      · intro hnone
        cases hnone
      · intro other hother
        rw [Option.some.inj hother]
    | none =>
      obtain ⟨ending, hscan, hcomplete, hrejected⟩ := ih hrest (show left.length ≤ fuel by omega)
      have htaken : taken (token :: rest) = token :: taken rest := by simp [taken, hrefused]
      have hrefusal : refusal (token :: rest) = refusal rest := by simp [refusal, hrefused]
      simp only [receive_of_not_refused hrefused, htaken, hrefusal, hscan]
      exact ⟨ending, rfl, hcomplete, hrejected⟩

/-- A consumer on a connection in front of a response whose bytes are tokens: it comes to
what the tokens give that are taken, and ends with the refusal if there is one. -/
theorem Consumer.run_of_areTokens {σ α : Type} (consumer : Consumer σ α) (state : σ)
    {conn : Connection} {response : Response} {later : List Packet}
    {tokens : List ReceivedToken} (hawaits : conn.Awaits response later)
    (htokens : AreTokens conn.context response.bytes tokens)
    (hlast : response.last.payload ≠ []) :
    ∃ after, consumer.run state conn = .returned
      (consumer.onTokens ((refusal tokens).or (finalError tokens)) state (taken tokens)) after := by
  obtain ⟨ending, hscan, hcomplete, hrejected⟩ := scanFrom_areTokens htokens (Nat.le_refl _)
  have hlength := scanFrom_length response.bytes.length conn.context response.bytes
  rw [hscan] at hlength
  have hunread : response.bytes.length ≤ conn.unread.length := by
    rw [Connection.unread, hawaits.inbound, List.flatMap_append, List.length_append,
      List.length_append, Response.bytes]
    omega
  have hfuel : (taken tokens).length < conn.unread.length + 1 :=
    Nat.lt_succ_of_le (Nat.le_trans hlength hunread)
  cases hrefusal : refusal tokens with
  | none =>
    obtain ⟨reached, rfl⟩ := hcomplete hrefusal
    rw [taken_of_refusal_none hrefusal] at hscan hfuel ⊢
    obtain ⟨stream, after, hyields, hnext, -⟩ := yields_of_awaits hawaits hlast hscan
    exact onStream_of_yields consumer state hyields hnext hfuel
  | some error =>
    obtain rfl := hrejected error hrefusal
    have hyields := TokenStream.yields_scanFrom response.bytes.length (.new conn) hawaits.within
      (Nat.le_refl _)
    rw [show scanFrom response.bytes.length (TokenStream.new conn).conn.context response.bytes =
      (taken tokens, .rejected error) from hscan] at hyields
    obtain ⟨final, hyields, -, after, left, hnext, -⟩ := hyields
    have hend : final.next = TokenStream.finish { conn := after, lastError := some error } := hnext
    exact onStream_of_yields consumer state hyields hend hfuel

end Refusals

/-- The consumers of a command end a response with an error. -/
def AllReport [EncodingRs] (forwarded : Bool) (conn : Connection) (error : Error) : Prop :=
  (∃ after, ExecuteResult.new.run [] conn = .returned (.error error) after) ∧
    (∃ after, queryItems.run (.fresh forwarded, []) conn = .returned (.error error) after) ∧
    (∃ after, intoResults.run (.fresh forwarded, .empty) conn = .returned (.error error) after) ∧
    ∃ after, intoCommandResult.run .initial conn = .returned (.error error) after

/-- The consumers of a command end a response with a value each. -/
def AllSucceed [EncodingRs] (forwarded : Bool) (conn : Connection) : Prop :=
  (∃ counts after, ExecuteResult.new.run [] conn = .returned (.ok counts) after) ∧
    (∃ items after, queryItems.run (.fresh forwarded, []) conn = .returned (.ok items) after) ∧
    (∃ sets after, intoResults.run (.fresh forwarded, .empty) conn = .returned (.ok sets) after) ∧
    ∃ result after, intoCommandResult.run .initial conn = .returned (.ok result) after

/-- The consumers of a command report the first ERROR token of a response, and succeed
where there is none. -/
def ErrorsReported [EncodingRs] (forwarded : Bool) (conn : Connection)
    (tokens : List ReceivedToken) : Prop :=
  (∀ error, firstError tokens = some error → AllReport forwarded conn (.server error)) ∧
    (firstError tokens = none → AllSucceed forwarded conn)

/-- What each of the consumers makes of a complete response: the error it ends
with, or a value. -/
private theorem runs_eq [EncodingRs] (forwarded : Bool) {conn : Connection} {response : Response}
    {later : List Packet} {tokens : List ReceivedToken} (hawaits : conn.Awaits response later)
    (htokens : AreTokens conn.context response.bytes tokens) (hlast : response.last.payload ≠ [])
    (hrows : RowsHaveMetadata tokens) :
    (∃ counts after, ExecuteResult.new.run [] conn =
      .returned (endWith ((refusal tokens).or (finalError tokens)) counts) after) ∧
    (∃ items after, queryItems.run (.fresh forwarded, []) conn =
      .returned (endWith ((refusal tokens).or (finalError tokens)) items) after) ∧
    (∃ sets after, intoResults.run (.fresh forwarded, .empty) conn =
      .returned (endWith ((refusal tokens).or (finalError tokens)) sets) after) ∧
    ∃ result after, intoCommandResult.run .initial conn =
      .returned (endWith ((refusal tokens).or (finalError tokens)) result) after := by
  have hsections := sections_fst_of_rowsHaveMetadata hrows.taken
  generalize hfinal : (refusal tokens).or (finalError tokens) = final
  refine ⟨?_, ?_, ?_, ?_⟩
  · obtain ⟨after, hrun⟩ := Consumer.run_of_areTokens ExecuteResult.new [] hawaits htokens hlast
    rw [hfinal, executeResult_eq] at hrun
    exact ⟨_, after, hrun⟩
  · obtain ⟨after, hrun⟩ := Consumer.run_of_areTokens queryItems (.fresh forwarded, []) hawaits
      htokens hlast
    obtain ⟨items, hitems⟩ := queryItems_eq final forwarded [] (taken tokens) hsections
    rw [hfinal, hitems] at hrun
    exact ⟨items, after, hrun⟩
  · obtain ⟨after, hrun⟩ := Consumer.run_of_areTokens intoResults (.fresh forwarded, .empty)
      hawaits htokens hlast
    rw [hfinal, intoResults_eq _ forwarded (taken tokens) hsections] at hrun
    exact ⟨_, after, hrun⟩
  · obtain ⟨after, hrun⟩ := Consumer.run_of_areTokens intoCommandResult .initial hawaits htokens
      hlast
    have hsets := intoResults_eq final true (taken tokens) hsections
    rw [hfinal, intoCommandResult_eq,
      show (CommandState.initial.stream.toQuery, CommandState.initial.collected) =
        (QueryStream.fresh true, Collected.empty) from rfl, hsets] at hrun
    cases final with
    | none => exact ⟨_, after, hrun⟩
    | some error => exact ⟨commandResult 0 [] [] [] [], after, hrun⟩

/-- All consumers of a complete response without a token that is refused report its first
ERROR token, wherever it stands, and without one all of them succeed; where a token is
refused all of them end with the refusal. -/
theorem errors_reported [EncodingRs] (forwarded : Bool) {conn : Connection} {response : Response}
    {later : List Packet} {tokens : List ReceivedToken} (hawaits : conn.Awaits response later)
    (htokens : AreTokens conn.context response.bytes tokens) (hlast : response.last.payload ≠ [])
    (hrows : RowsHaveMetadata tokens) :
    (refusal tokens = none → ErrorsReported forwarded conn tokens) ∧
      ∀ error, refusal tokens = some error → AllReport forwarded conn error := by
  obtain ⟨⟨counts, after₁, hexecute⟩, ⟨items, after₂, hitems⟩, ⟨sets, after₃, hsets⟩,
    result, after₄, hresult⟩ := runs_eq forwarded hawaits htokens hlast hrows
  have hreport : ∀ error, (refusal tokens).or (finalError tokens) = some error →
      AllReport forwarded conn error := by
    intro error herror
    rw [herror] at hexecute hitems hsets hresult
    exact ⟨⟨after₁, hexecute⟩, ⟨after₂, hitems⟩, ⟨after₃, hsets⟩, after₄, hresult⟩
  have hfinal := finalError_eq tokens
  refine ⟨fun hnone => ⟨fun error herror => ?_, fun hnoerror => ?_⟩, fun error herror => ?_⟩
  · apply hreport
    rw [hnone, Option.none_or, hfinal, herror]
    rfl
  · rw [hnone, Option.none_or, hfinal, hnoerror] at hexecute hitems hsets hresult
    exact ⟨⟨counts, after₁, hexecute⟩, ⟨items, after₂, hitems⟩, ⟨sets, after₃, hsets⟩,
      result, after₄, hresult⟩
  · apply hreport
    rw [herror]
    rfl

/-- An ERROR token in front of any metadata, in a packet of its own, and a DONE. -/
def failedBatch : Response where
  body := [responsePacket false [0xAA, 14, 0, 0x35, 0x08, 0, 0, 1, 16, 0, 0, 0, 0, 7, 0, 0, 0]]
  last := responsePacket true [0xFD, 2, 0, 0, 0, 0, 0, 0, 0, 0, 0, 0, 0]
  body_open := by decide
  last_ends := by decide

def failedBatchError : TokenError where
  code := 2101
  state := 1
  class_ := 16
  message := ""
  server := ""
  procedure := ""
  line := 7

def failedBatchTokens : List ReceivedToken :=
  [.error failedBatchError, .done { status := .fromBitsTruncate 2, curCmd := 0, doneRows := 0 }]

theorem errors_reported_failedBatch :
    @AllReport .ascii true (.new failedBatch.packets .silent) (.server failedBatchError) := by
  refine ((@errors_reported .ascii true (.new failedBatch.packets .silent) failedBatch []
    failedBatchTokens ?_ ?_ (by decide) (by decide)).1 rfl).1 _ rfl
  · exact ⟨by rw [List.append_nil]; rfl, rfl, rfl⟩
  · exact ⟨_, rfl, _, rfl, rfl⟩

/-- The same ERROR token, and behind it a packet size of 100 bytes. -/
def resizedBatch : Response where
  body := failedBatch.body
  last := responsePacket true
    ([0xE3, 17, 0, 4, 3, 0x31, 0, 0x30, 0, 0x30, 0, 4, 0x34, 0, 0x30, 0, 0x39, 0, 0x36, 0] ++
      failedBatch.last.payload)
  body_open := by decide
  last_ends := by decide

def resizedBatchTokens : List ReceivedToken :=
  [.error failedBatchError, .envChange (.packetSize 4096 100),
    .done { status := .fromBitsTruncate 2, curCmd := 0, doneRows := 0 }]

theorem resizedBatch_areTokens :
    @AreTokens .ascii .new resizedBatch.bytes resizedBatchTokens :=
  ⟨_, rfl, _, rfl, _, rfl, rfl⟩

/-- The same response as `failedBatch`, with an empty packet at its end. -/
def emptyEndBatch : Response where
  body := failedBatch.body ++ [responsePacket false failedBatch.last.payload]
  last := responsePacket true []
  body_open := by decide
  last_ends := by decide

theorem emptyEndBatch_waits : ∃ after, @Consumer.run _ _ .ascii ExecuteResult.new []
    (.new emptyEndBatch.packets .silent) = .waiting after :=
  ⟨_, rfl⟩

/-- Two things lose the error: a packet size that is refused behind it, and an empty packet
at the end, behind which the consumers wait for more. -/
theorem errors_lost :
    (¬ ∀ (conn : Connection) (response : Response) (later : List Packet)
        (tokens : List ReceivedToken), conn.Awaits response later →
      @AreTokens .ascii conn.context response.bytes tokens → RowsHaveMetadata tokens →
        response.last.payload ≠ [] → @ErrorsReported .ascii true conn tokens) ∧
    ¬ ∀ (conn : Connection) (response : Response) (later : List Packet)
        (tokens : List ReceivedToken), conn.Awaits response later →
      @AreTokens .ascii conn.context response.bytes tokens → RowsHaveMetadata tokens →
        refusal tokens = none → @ErrorsReported .ascii true conn tokens := by
  constructor
  · intro hreported
    have hawaits : (Connection.new resizedBatch.packets .silent).Awaits resizedBatch [] :=
      ⟨by rw [List.append_nil]; rfl, rfl, rfl⟩
    obtain ⟨⟨after, hrun⟩, -⟩ := (hreported _ _ _ _ hawaits resizedBatch_areTokens (by decide)
      (by decide)).1 failedBatchError rfl
    obtain ⟨⟨counts, other, hrefused⟩, -⟩ := @runs_eq .ascii true _ _ _ _ hawaits
      resizedBatch_areTokens (by decide) (by decide)
    rw [hrefused] at hrun
    cases hrun
  · intro hreported
    obtain ⟨⟨after, hrun⟩, -⟩ := (hreported (.new emptyEndBatch.packets .silent) emptyEndBatch []
      failedBatchTokens ⟨by rw [List.append_nil]; rfl, rfl, rfl⟩
      ⟨_, rfl, _, rfl, rfl⟩ (by decide) rfl).1 failedBatchError rfl
    obtain ⟨other, hwaits⟩ := emptyEndBatch_waits
    rw [hwaits] at hrun
    cases hrun

end Tiberius

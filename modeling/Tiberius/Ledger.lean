import Tiberius.Unread

/-!
What the server has told the client in its tokens: the descriptor of the current
transaction and the packet size. The context of a connection follows the tokens
that are read; the tokens that a response holds are those of its bytes, whether
or not they are read.
-/

namespace Tiberius

open Reading

/-- The values that the ENVCHANGE tokens of a server set. -/
structure Ledger where
  transactionDesc : Vector UInt8 8
  packetSize : UInt32
  deriving DecidableEq, Repr

namespace Ledger

/-- Begin and enlist give a descriptor, commit, rollback and defect reset it; a
packet size counts if it lies in range. -/
def record (ledger : Ledger) : ReceivedToken → Ledger
  | .envChange (.beginTransaction desc) => { ledger with transactionDesc := desc }
  | .envChange .commitTransaction | .envChange .rollbackTransaction
  | .envChange .defectTransaction => { ledger with transactionDesc := Vector.replicate 8 0 }
  | .envChange (.packetSize _ new) =>
    if 512 ≤ new ∧ new ≤ 32767 then { ledger with packetSize := new } else ledger
  | _ => ledger

def recordAll (ledger : Ledger) (tokens : List ReceivedToken) : Ledger := tokens.foldl record ledger

end Ledger

namespace Context

def ledger (context : Context) : Ledger where
  transactionDesc := context.transactionDesc
  packetSize := context.packetSize

/-- The context behind a token, which may have been refused. -/
def passed (context : Context) (token : ReceivedToken) : Context :=
  (context.receive token).toOption.getD context

/-- Reading a token keeps the context with what the server has told. -/
theorem passed_ledger (context : Context) (token : ReceivedToken) :
    (context.passed token).ledger = context.ledger.record token := by
  unfold passed
  cases token with
  | envChange change =>
    cases change with
    | packetSize old new =>
      unfold receive receiveEnvChange Ledger.record
      dsimp only
      by_cases hnew : 512 ≤ new ∧ new ≤ 32767
      · rw [if_pos hnew, if_pos hnew]
        rfl
      · rw [if_neg hnew, if_neg hnew]
        rfl
    | _ => rfl
  | _ => rfl

theorem passed_of_ok {context after : Context} {token : ReceivedToken}
    (hreceive : context.receive token = .ok after) : context.passed token = after := by
  rw [passed, hreceive]
  rfl

end Context

section

variable [EncodingRs]

/-- The tokens of a byte string, from one that a reader has begun. -/
inductive TokensLeft : Reader ReceivedToken → Context → List UInt8 → List ReceivedToken → Prop where
  | token {reader : Reader ReceivedToken} {context : Context} {bytes rest : List UInt8}
      {token : ReceivedToken} {tokens : List ReceivedToken}
      (hrun : reader.run context bytes = .done token rest)
      (hrest : TokensLeft ReceivedToken.decode (context.passed token) rest tokens) :
      TokensLeft reader context bytes (token :: tokens)
  | stop {reader : Reader ReceivedToken} {context : Context} {bytes : List UInt8}
      (hrun : ∀ token rest, reader.run context bytes ≠ .done token rest) :
      TokensLeft reader context bytes []

/-- The tokens that a byte string holds; one that is refused does not end them. -/
def tokensFrom : ℕ → Context → List UInt8 → List ReceivedToken
  | 0, _, _ => []
  | fuel + 1, context, bytes =>
    match ReceivedToken.decode.run context bytes with
    | .done token rest => token :: tokensFrom fuel (context.passed token) rest
    | _ => []

/-- Every token takes at least one byte. -/
def tokensSent (context : Context) (bytes : List UInt8) : List ReceivedToken :=
  tokensFrom bytes.length context bytes

theorem tokensFrom_left (fuel : ℕ) (context : Context) (bytes : List UInt8)
    (hfuel : bytes.length ≤ fuel) :
    TokensLeft ReceivedToken.decode context bytes (tokensFrom fuel context bytes) := by
  induction fuel generalizing context bytes with
  | zero =>
    refine .stop fun token rest hrun => ?_
    have hless := ReceivedToken.decode_shrinks hrun
    omega
  | succ fuel ih =>
    unfold tokensFrom
    cases hrun : ReceivedToken.decode.run context bytes with
    | done token rest =>
      have hless := ReceivedToken.decode_shrinks hrun
      exact .token hrun (ih _ rest (by omega))
    | failed fault rest =>
      refine .stop fun token other hdone => ?_
      rw [hrun] at hdone
      cases hdone
    | short left rest =>
      refine .stop fun token other hdone => ?_
      rw [hrun] at hdone
      cases hdone

theorem tokensSent_left (context : Context) (bytes : List UInt8) :
    TokensLeft ReceivedToken.decode context bytes (tokensSent context bytes) :=
  tokensFrom_left bytes.length context bytes (Nat.le_refl _)

namespace TokensLeft

variable {reader other : Reader ReceivedToken} {context : Context} {bytes more : List UInt8}
  {tokens : List ReceivedToken}

/-- The tokens depend on the reader by its runs alone. -/
theorem of_run_eq (hleft : TokensLeft reader context bytes tokens)
    (hrun : other.run context more = reader.run context bytes) :
    TokensLeft other context more tokens := by
  cases hleft with
  | token hdone hrest => exact .token (hrun.trans hdone) hrest
  | stop hstop =>
    refine .stop fun token rest hdone => ?_
    rw [hrun] at hdone
    exact hstop token rest hdone

theorem of_done {token : ReceivedToken} {rest : List UInt8}
    (hleft : TokensLeft reader context bytes tokens)
    (hrun : reader.run context bytes = .done token rest) :
    ∃ others, tokens = token :: others ∧
      TokensLeft ReceivedToken.decode (context.passed token) rest others := by
  cases hleft with
  | token hdone hrest =>
    rw [hrun, Outcome.done.injEq] at hdone
    obtain ⟨rfl, rfl⟩ := hdone
    exact ⟨_, rfl, hrest⟩
  | stop hstop => exact absurd hrun (hstop token rest)

end TokensLeft

end

end Tiberius

import Mathlib.Logic.Function.Basic
/-!
# The withdrawal state machine

| here | there |
| --- | --- |
| `WithdrawalStatus`, `transitions`, `canTransition` | `types/src/withdrawal-states.ts` |
| `Tx`         | a signed transaction: the withdrawal it pays, the nonce account and the value it was built on |
| `Withdrawal` | the columns of `withdrawals` the workers read and write (`withdrawal.repository.ts`) |
| `RetryEdge`  | the three edges of `processRetries` (`withdrawal-workers.ts:849-857`) |
| `Move`       | the calls of `transition` that end a worker's path |

Two signings of one withdrawal on one nonce value give the same bytes: the request id is
`withdrawal:<id>:<nonce>`, and the signer answers a repeated id with the signature it gave before
(`withdrawal-workers.ts:387-410`). So `Tx` has no field for the signature.
-/
namespace AtlasCex.Withdrawals

abbrev WithdrawalId := Nat
abbrev AccountId := Nat

inductive WithdrawalStatus where
  | requested
  | riskEvaluating
  | manualReview
  | approved
  | fundsLocked
  | signing
  | signed
  | broadcast
  | confirmed
  | settled
  | signFailed
  | broadcastFailed
  | expired
  | rejected
  | failed
deriving DecidableEq, Repr

namespace WithdrawalStatus

/-- `WITHDRAWAL_TRANSITIONS`. -/
def transitions : WithdrawalStatus → List WithdrawalStatus
  | requested => [riskEvaluating]
  | riskEvaluating => [approved, manualReview, rejected]
  | manualReview => [approved, rejected]
  | approved => [fundsLocked, rejected]
  | fundsLocked => [signing, rejected, failed]
  | signing => [signed, signFailed]
  | signed => [broadcast]
  | broadcast => [confirmed, broadcastFailed, expired]
  | confirmed => [settled]
  | signFailed => [fundsLocked, failed]
  | broadcastFailed => [fundsLocked, failed]
  | expired => [fundsLocked, failed]
  | settled => []
  | rejected => []
  | failed => []

def canTransition (source target : WithdrawalStatus) : Bool := source.transitions.contains target

end WithdrawalStatus

structure Tx where
  withdrawal : WithdrawalId
  account : AccountId
  nonce : Nat
deriving DecidableEq, Repr

structure Withdrawal where
  status : WithdrawalStatus
  signAttempts : Nat
  broadcastAttempts : Nat
  expiryAttempts : Nat
  signedTransaction : Option Tx
  txSignature : Option Tx
  nonceAccountId : Option AccountId
  nonceValue : Option Nat
deriving DecidableEq, Repr

inductive RetryEdge where
  | sign
  | broadcast
  | expiry
deriving DecidableEq, Repr

namespace RetryEdge

def status : RetryEdge → WithdrawalStatus
  | sign => .signFailed
  | broadcast => .broadcastFailed
  | expiry => .expired

def attempts : RetryEdge → Withdrawal → Nat
  | sign => Withdrawal.signAttempts
  | broadcast => Withdrawal.broadcastAttempts
  | expiry => Withdrawal.expiryAttempts

end RetryEdge

/-- `incrementAttempt`. -/
def Withdrawal.increment (row : Withdrawal) : Option RetryEdge → Withdrawal
  | none => row
  | some .sign => { row with signAttempts := row.signAttempts + 1 }
  | some .broadcast => { row with broadcastAttempts := row.broadcastAttempts + 1 }
  | some .expiry => { row with expiryAttempts := row.expiryAttempts + 1 }

/-- The row a guarded transition leaves, or nothing when the row was not in `source`. -/
def Withdrawal.transition (row : Withdrawal) (source target : WithdrawalStatus)
    (increment : Option RetryEdge) : Option Withdrawal :=
  if source.canTransition target && row.status = source then
    some ({ row with status := target }.increment increment)
  else none

/-- The transitions the workers ask for once they have decided how an attempt ended. -/
inductive Move where
  /-- No nonce account to lease (`withdrawal-workers.ts:318-329`). -/
  | poolDry
  /-- Anything thrown while signing (`:528-537`). -/
  | signError
  /-- The RPC refused the bytes, or the transaction failed on chain (`:624-632`, `:660-669`). -/
  | broadcastFailed
  /-- The nonce has moved on (`:606-614`, `:725-732`). -/
  | expired
  /-- Back to the queue (`:873-880`). -/
  | retry (edge : RetryEdge)
  /-- The budget is used up (`:177-184`). -/
  | giveUp (edge : RetryEdge)
deriving DecidableEq, Repr

namespace Move

def source : Move → WithdrawalStatus
  | poolDry => .signing
  | signError => .signing
  | broadcastFailed => .broadcast
  | expired => .broadcast
  | retry edge => edge.status
  | giveUp edge => edge.status

def target : Move → WithdrawalStatus
  | poolDry => .signFailed
  | signError => .signFailed
  | broadcastFailed => .broadcastFailed
  | expired => .expired
  | retry _ => .fundsLocked
  | giveUp _ => .failed

def increment : Move → Option RetryEdge
  | poolDry => none
  | signError => some .sign
  | broadcastFailed => some .broadcast
  | expired => some .expiry
  | retry _ => none
  | giveUp _ => none

/-- Every transition the workers ask for is in the table. -/
theorem legal (move : Move) : move.source.canTransition move.target = true := by
  cases move with
  | retry edge => cases edge <;> rfl
  | giveUp edge => cases edge <;> rfl
  | _ => rfl

end Move

/-! ## The bytes a row offers -/

/-- The bytes a worker would take from the row: the broadcast worker claims rows in `SIGNED`, the
confirmation worker lists rows in `BROADCAST`. -/
def Withdrawal.offers (row : Withdrawal) : Option Tx :=
  if row.status = .signed ∨ row.status = .broadcast then row.signedTransaction else none

@[simp] theorem Withdrawal.increment_status (row : Withdrawal) (edge : Option RetryEdge) :
    (row.increment edge).status = row.status := by
  rcases edge with _ | _ | _ | _ <;> rfl

theorem Withdrawal.transition_eq {row row' : Withdrawal} {source target : WithdrawalStatus}
    {edge : Option RetryEdge} (h : row.transition source target edge = some row') :
    row.status = source ∧ row' = { row with status := target }.increment edge := by
  unfold Withdrawal.transition at h
  split at h
  · rename_i hc
    rw [Bool.and_eq_true, decide_eq_true_eq] at hc
    cases h
    exact ⟨hc.2, rfl⟩
  · cases h

end AtlasCex.Withdrawals

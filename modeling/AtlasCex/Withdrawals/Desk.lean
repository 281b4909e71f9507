import AtlasCex.Ledger.Custody
import AtlasCex.Withdrawals.Workers
/-!
# Withdrawals and the ledger

| here | there |
| --- | --- |
| `holdsLock`   | `types/src/withdrawal-states.ts:76-101` |
| `Details`     | the other columns of `withdrawals` that decide an amount (`withdrawal.repository.ts`, `withdrawals_amount_positive`) |
| `Label.request`, `Decision` | `request`, `requestInternal`, `approve`, `reject` (`withdrawal.service.ts:266-514`) |
| `Details.lock`, `Label.lockFunds` | `lockFunds` (`withdrawal.service.ts:125-207`) |
| `Details.release` | `releaseLock` (`withdrawal.service.ts:522-551`) |
| `Details.settlement` | the posting of `settle` (`withdrawal-workers.ts:770-795`) |
| `Label.worker` | the workers of `Workers.lean`, with what they post |

A call of the service may stop between any two of its transactions, and every transition is guarded,
so each of them may come at any time. What `evaluate` answers is left open. The lock and the settlement
are posted in the transaction of their transition; a release is posted alone, and the transition
follows. Postings that are not of a withdrawal come from elsewhere and leave the two locked accounts
alone; the trigger that refuses a negative trading balance is not modelled, so that more is possible
here than there.
-/
namespace AtlasCex.Withdrawals

open Ledger (UserId AssetKey AccountRef LedgerTransaction PostingError balance)

def WithdrawalStatus.holdsLock : WithdrawalStatus → Bool
  | .fundsLocked | .signing | .signed | .broadcast | .confirmed | .signFailed | .broadcastFailed
  | .expired => true
  | .requested | .riskEvaluating | .manualReview | .approved | .settled | .rejected | .failed => false

inductive Purpose where
  | external
  | allocation
  | deallocation
deriving DecidableEq, Repr

structure Details where
  id : String
  userId : UserId
  asset : AssetKey
  amount : Int
  purpose : Purpose
  positive : 0 < amount
deriving DecidableEq

namespace Details

/-- A deallocation spends the clearing tier, everything else the vault. -/
def fromTrading (d : Details) : Bool := d.purpose = .deallocation

def availableAccount (d : Details) : AccountRef :=
  if d.fromTrading then Ledger.userTradingAvailable d.userId d.asset
  else Ledger.userCustodyAvailable d.userId d.asset

def lockedAccount (d : Details) : AccountRef :=
  if d.fromTrading then Ledger.userTradingLocked d.userId d.asset
  else Ledger.userCustodyLocked d.userId d.asset

def lock (d : Details) : Except PostingError LedgerTransaction :=
  (if d.fromTrading then Ledger.postTradingLock else Ledger.postWithdrawalLock)
    d.id d.userId d.asset d.amount

def release (d : Details) : Except PostingError LedgerTransaction :=
  (if d.fromTrading then Ledger.postTradingRelease else Ledger.postWithdrawalRelease)
    d.id d.userId d.asset d.amount

/-- What the movement was decides how it posts. -/
def settlement (d : Details) (feeAsset : AssetKey) (networkFee : Int) :
    Except PostingError LedgerTransaction :=
  (match d.purpose with
    | .allocation => Ledger.postAllocation
    | .deallocation => Ledger.postDeallocation
    | .external => Ledger.postWithdrawalSettlement)
    d.id d.userId d.asset d.amount feeAsset networkFee

end Details

/-- The transitions of the service, but for the lock. -/
inductive Decision where
  | evaluating
  | denied
  | queued
  | autoApproved
  | operatorApproved
  | operatorRejected
  | lockFailed
deriving DecidableEq, Repr

namespace Decision

def source : Decision → WithdrawalStatus
  | evaluating => .requested
  | denied | queued | autoApproved => .riskEvaluating
  | operatorApproved | operatorRejected => .manualReview
  | lockFailed => .approved

def target : Decision → WithdrawalStatus
  | evaluating => .riskEvaluating
  | denied | operatorRejected | lockFailed => .rejected
  | queued => .manualReview
  | autoApproved | operatorApproved => .approved

end Decision

/-- The kinds of `referenceType` withdrawal. -/
def isOut (kind : Ledger.TransactionKind) : Bool :=
  kind ∈ [.withdrawalRelease, .withdrawalSettle, .allocation, .deallocation]

/-- Not a posting of a withdrawal. -/
def Foreign (t : LedgerTransaction) : Prop :=
  t.kind ≠ .withdrawalLock ∧ isOut t.kind = false ∧
    ∀ e ∈ t.entries, e.account.type ≠ .userCustodyLocked ∧ e.account.type ≠ .userTradingLocked

instance (t : LedgerTransaction) : Decidable (Foreign t) := inferInstanceAs (Decidable (_ ∧ _ ∧ _))

structure Desk where
  world : World
  withdrawals : List (WithdrawalId × Details)
  ledger : List LedgerTransaction

namespace Desk

inductive Label where
  | request (w : WithdrawalId) (details : Details)
  | decide (w : WithdrawalId) (decision : Decision)
  | lockFunds (w : WithdrawalId)
  | worker (label : Withdrawals.Label) (networkFee : Int)
  | post (t : LedgerTransaction)
deriving DecidableEq

structure Config where
  workers : Withdrawals.Config
  nativeKey : AssetKey

def details (desk : Desk) (w : WithdrawalId) : Option Details :=
  (desk.withdrawals.find? (·.1 = w)).map (·.2)

/-- What a worker's step posts; `none` when the posting throws. -/
def posting (config : Config) (desk : Desk) (networkFee : Int) :
    Withdrawals.Label → Option (Option LedgerTransaction)
  | .lockFunds _ => none
  | .work (.giveUp w _) .ok => (desk.details w).bind fun d => d.release.toOption.map some
  | .work (.settle w) .ok =>
    (desk.details w).bind fun d => (d.settlement config.nativeKey networkFee).toOption.map some
  | _ => some none

def step (config : Config) (desk : Desk) : Label → Option Desk
  | .request w details =>
    if desk.withdrawals.all fun (w', d) => w' ≠ w ∧ d.id ≠ details.id then
      some { desk with withdrawals := desk.withdrawals ++ [(w, details)] }
    else none
  | .decide w decision =>
    (desk.details w).bind fun _ =>
      ((desk.world.rows w).transition decision.source decision.target none).map fun row =>
        { desk with world := desk.world.setRow w row }
  | .lockFunds w =>
    (desk.details w).bind fun d =>
      if d.amount ≤ balance desk.ledger d.availableAccount then
        d.lock.toOption.bind fun t =>
          (desk.world.step config.workers (.lockFunds w)).map fun world =>
            { desk with world, ledger := desk.ledger ++ [t] }
      else none
  | .worker label networkFee =>
    (desk.posting config networkFee label).bind fun t =>
      (desk.world.step config.workers label).map fun world =>
        { desk with world, ledger := desk.ledger ++ t.toList }
  | .post t => if Foreign t then some { desk with ledger := desk.ledger ++ [t] } else none

/-- Nothing requested yet. -/
def initial : Desk where
  world := { World.initial with rows := fun _ => ⟨.requested, 0, 0, 0, none, none, none, none⟩ }
  withdrawals := []
  ledger := []

/-- One attempt on each edge, for the runs that follow. -/
def sampleConfig : Config := ⟨⟨[0], fun _ => 1⟩, ⟨"mainnet", "SOL"⟩⟩

def usdc : AssetKey := ⟨"mainnet", "USDC"⟩

def funding : LedgerTransaction :=
  ⟨.deposit, "deposit", "d1", [Ledger.debit (Ledger.chainAssets "alice" usdc) usdc 100,
    Ledger.credit (Ledger.userCustodyAvailable "alice" usdc) usdc 100]⟩

end Desk

end AtlasCex.Withdrawals

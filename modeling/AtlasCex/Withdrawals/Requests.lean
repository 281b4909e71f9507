import AtlasCex.Risk.Engine
import AtlasCex.Withdrawals.Desk
/-!
# The withdrawal service

| here | there |
| --- | --- |
| `Columns`  | the other columns of `withdrawals` the service reads |
| `Call`     | where a call of `request`, `requestInternal` or `approve` is between two awaits, with what it has read |
| `Label.request` | `create` (`withdrawal.repository.ts:147-183`), the first await of `request` and `requestInternal` |
| `listRecentForUser`, `listPriorDestinations` | `withdrawal.repository.ts:216-240` |
| `readUser` … `evaluate` | `buildRiskInput` (`withdrawal.service.ts:209-261`), `evaluate`, `decisions.record` |
| `conclude` | the transition the verdict asks for (`:333-361`) |
| `lock`, `lockFailed` | `lockFunds` and its `catch` (`:363-379`) |
| `Label.approve`, `Label.reject` | `approve`, `reject` (`:459-514`) |

Any number of calls is in flight and a step advances one of them; a call may stop anywhere. The
clock, the account status, what the chain adapter says of the destination and the price are answers
from outside. A row with an idempotency key the user has used is not inserted, and the call returns
the one there is. The rows come in order of insertion, not of `created_at`: the engine sums and
counts them. The states and the ledger are those of `Desk`: `step_desk` says that whatever the
service does to them is a step of it.
-/
namespace AtlasCex.Withdrawals

open Ledger (UserId AssetKey LedgerTransaction)
open Risk (RiskInput RiskPolicy RiskDecision Verdict AccountStatus DestinationCheck PriorDestination
  WithdrawalHistoryEntry day)

structure Columns where
  destination : String
  idempotencyKey : String
  createdAt : Int
deriving DecidableEq, Repr

inductive Call where
  | evaluating (w : WithdrawalId) (d : Details) (destination : String)
  | readUser (w : WithdrawalId) (d : Details) (destination : String)
  | readRecent (w : WithdrawalId) (d : Details) (destination : String) (now : Int)
      (status : AccountStatus)
  | readPrior (w : WithdrawalId) (d : Details) (destination : String) (now : Int)
      (status : AccountStatus) (recent : List WithdrawalHistoryEntry)
  | evaluate (w : WithdrawalId) (d : Details) (destination : String) (now : Int)
      (status : AccountStatus) (recent : List WithdrawalHistoryEntry)
      (prior : List PriorDestination)
  | conclude (w : WithdrawalId) (verdict : Verdict)
  | approveInternal (w : WithdrawalId)
  | lock (w : WithdrawalId)
  | lockFailed (w : WithdrawalId)
deriving DecidableEq

/-- What a call is answered. -/
inductive Answer where
  | ok
  | throws
  | user (now : Int) (status : AccountStatus)
  | check (check : DestinationCheck) (valueUsdMicros : Option (Option Int))
deriving DecidableEq

/-- A row of `risk_decisions`. -/
structure Evaluation where
  withdrawal : WithdrawalId
  input : RiskInput
  decision : RiskDecision

structure Service where
  desk : Desk
  columns : WithdrawalId → Columns
  calls : List Call
  decisions : List Evaluation

namespace Service

structure Config where
  desk : Desk.Config
  policy : RiskPolicy

inductive Label where
  | request (w : WithdrawalId) (d : Details) (columns : Columns)
  | call (call : Call) (answer : Answer)
  | stop (call : Call)
  | approve (w : WithdrawalId)
  | reject (w : WithdrawalId)
  | worker (label : Withdrawals.Label) (networkFee : Int)
  | post (t : LedgerTransaction)
deriving DecidableEq

def status (s : Service) (w : WithdrawalId) : WithdrawalStatus := (s.desk.world.rows w).status

def createdAt (s : Service) (w : WithdrawalId) : Int := (s.columns w).createdAt

/-- A rejected withdrawal never moved money; anything else counts. -/
def listRecentForUser (s : Service) (userId : UserId) (since : Int) :
    List (WithdrawalId × Details) :=
  s.desk.withdrawals.filter fun (w, d) =>
    d.userId = userId && since ≤ s.createdAt w && s.status w ≠ .rejected

def historyEntry (s : Service) (row : WithdrawalId × Details) : WithdrawalHistoryEntry :=
  ⟨row.2.amount, row.2.asset, s.createdAt row.1⟩

/-- The destinations money went to, each with the last time. -/
def listPriorDestinations (s : Service) (userId : UserId) (since : Int) : List PriorDestination :=
  let used := s.desk.withdrawals.filter fun (w, d) =>
    d.userId = userId && since ≤ s.createdAt w &&
      [.settled, .confirmed, .broadcast].contains (s.status w)
  (used.map fun (w, _) => (s.columns w).destination).eraseDups.map fun address =>
    let times := (used.filter fun (w, _) => (s.columns w).destination = address).map
      fun (w, _) => s.createdAt w
    ⟨address, times.max?.getD 0⟩

/-- A guarded transition, and what follows if it was made. -/
def decide (config : Config) (s : Service) (w : WithdrawalId) (decision : Decision)
    (next : Option Call) : Service × Option Call :=
  match s.desk.step config.desk (.decide w decision) with
  | some desk => ({ s with desk }, next)
  | none => (s, none)

/-- One step of a call: the state it leaves and where the call goes on. -/
def act (config : Config) (s : Service) : Call → Answer → Option (Service × Option Call)
  | .evaluating w d destination, .ok =>
    some (s.decide config w .evaluating (some (
      if d.purpose = .external then .readUser w d destination else .approveInternal w)))
  | .readUser w d destination, .user now status =>
    some (s, some (.readRecent w d destination now status))
  | .readRecent w d destination now status, .ok =>
    let recent := (s.listRecentForUser d.userId (now - day)).map s.historyEntry
    some (s, some (.readPrior w d destination now status recent))
  | .readPrior w d destination now status recent, .ok =>
    let prior :=
      s.listPriorDestinations d.userId (now - config.policy.knownDestinationWindowDays * day)
    some (s, some (.evaluate w d destination now status recent prior))
  | .evaluate w d destination now status recent prior, .check check valueUsdMicros =>
    let input : RiskInput :=
      { userId := d.userId
        accountStatus := status
        asset := d.asset
        amount := d.amount
        destination
        destinationCheck := check
        priorDestinations := prior
        recentWithdrawals := recent
        valueUsdMicros
        now }
    let decision := Risk.evaluate input config.policy
    some ({ s with decisions := s.decisions ++ [⟨w, input, decision⟩] },
      some (.conclude w decision.verdict))
  | .conclude w .deny, .ok => some (s.decide config w .denied none)
  | .conclude w .review, .ok => some (s.decide config w .queued none)
  | .conclude w .approve, .ok => some (s.decide config w .autoApproved (some (.lock w)))
  | .approveInternal w, .ok => some (s.decide config w .autoApproved (some (.lock w)))
  | .lock w, .ok =>
    (s.desk.step config.desk (.lockFunds w)).map fun desk => ({ s with desk }, none)
  | .lock w, .throws => some (s, some (.lockFailed w))
  | .lockFailed w, .ok => some (s.decide config w .lockFailed none)
  | _, _ => none

def step (config : Config) (s : Service) : Label → Option Service
  | .request w d columns =>
    if s.desk.withdrawals.any fun (w', d') =>
        d'.userId = d.userId && (s.columns w').idempotencyKey = columns.idempotencyKey then some s
    else
      (s.desk.step config.desk (.request w d)).map fun desk =>
        { s with
          desk
          columns := Function.update s.columns w columns
          calls := .evaluating w d columns.destination :: s.calls }
  | .call call answer =>
    if call ∈ s.calls then
      (act config { s with calls := s.calls.erase call } call answer).map fun
        | (s, next) => { s with calls := next.toList ++ s.calls }
    else none
  | .stop call => if call ∈ s.calls then some { s with calls := s.calls.erase call } else none
  | .approve w =>
    (s.desk.step config.desk (.decide w .operatorApproved)).map fun desk =>
      { s with desk, calls := .lock w :: s.calls }
  | .reject w =>
    (s.desk.step config.desk (.decide w .operatorRejected)).map fun desk => { s with desk }
  | .worker label networkFee =>
    (s.desk.step config.desk (.worker label networkFee)).map fun desk => { s with desk }
  | .post t => (s.desk.step config.desk (.post t)).map fun desk => { s with desk }

/-- No withdrawal requested yet. -/
def initial : Service where
  desk := Desk.initial
  columns _ := ⟨"", "", 0⟩
  calls := []
  decisions := []

end Service

end AtlasCex.Withdrawals

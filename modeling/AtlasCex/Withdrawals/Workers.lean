import AtlasCex.Withdrawals.States
import AtlasCex.Lib.Transition
/-!
# The withdrawal workers and the chain

| here | there |
| --- | --- |
| `Task`                 | where a worker is between two awaits, with what it has read |
| `Label.claimSign`, `lease` … `persist` | `signOne` (`withdrawal-workers.ts:293-545`) |
| `Label.claimBroadcast`, `broadcast`, `saveSignature` | `broadcastOne` (`:550-640`) |
| `Label.listConfirm`, `confirm`, `confirmed` | `runConfirmationCycle`, `confirmOne` (`:645-681`) |
| `resolve`, `rebroadcast` | `resolveAmbiguity` (`:696-733`) |
| `settle`               | `settle` (`:735-843`) |
| `Label.listRetry`, `dropLease` | `processRetries` (`:848-882`) |
| `giveUp`, `giveUpLease` | `giveUp` (`:165-215`) |
| `leaseFor`, `releaseLeases` | `lease`, `release` (`nonce.repository.ts:54-90`) |
| `Outcome`              | `BroadcastOutcome`; a `submitted` without a readable signature stores the empty string, which reads as none (`withdrawal-tx.ts:208-210`) |

Any number of tasks is in flight at once and a step advances one of them; `Label.crash` drops one.
A record listed for confirmation or retry is a copy, and may be stale when it is used. On chain a
transaction that was sent lands, and succeeds or fails, while its nonce account holds its value;
landing moves the nonce on, and so may others. `readNonce` and `hasAdvanced` read the finalized
nonce. `signed` is a history of what the signer has signed: it is never read.

Signing-request rows, the transition history, metrics and the dead-letter queue are left out; of
the ledger there is which postings each withdrawal has.
-/
namespace AtlasCex.Withdrawals

inductive Lease where
  | available
  | leased (by_ : WithdrawalId)
deriving DecidableEq, Repr

inductive Posting where
  | lock
  | release
  | settlement
deriving DecidableEq, Repr

inductive Outcome where
  | submitted (signature : Bool)
  | nonceAdvanced
  | rejected
deriving DecidableEq, Repr

inductive FinalizedStatus where
  | final
  | pending
  | failed
deriving DecidableEq, Repr

inductive Task where
  | lease (w : WithdrawalId)
  | readNonce (w : WithdrawalId) (account : AccountId)
  | sign (tx : Tx)
  | persist (tx : Tx)
  | broadcast (w : WithdrawalId) (tx : Tx)
  | saveSignature (w : WithdrawalId) (signature : Option Tx)
  | confirm (w : WithdrawalId) (record : Withdrawal)
  | confirmed (w : WithdrawalId)
  | resolve (w : WithdrawalId) (record : Withdrawal)
  | rebroadcast (tx : Tx)
  | settle (w : WithdrawalId)
  | giveUp (w : WithdrawalId) (edge : RetryEdge)
  | giveUpLease (w : WithdrawalId) (edge : RetryEdge)
  | dropLease (w : WithdrawalId)
  | move (w : WithdrawalId) (move : Move)
deriving DecidableEq, Repr

/-- How a step of a task turns out. -/
inductive Choice where
  | ok
  | throws
  | account (available : Option AccountId)
  | outcome (outcome : Outcome) (reached : Bool)
  | status (status : FinalizedStatus)
deriving DecidableEq, Repr

structure World where
  rows : WithdrawalId → Withdrawal
  leases : AccountId → Lease
  postings : List (Posting × WithdrawalId)
  tasks : List Task
  nonce : AccountId → Nat
  finalized : AccountId → Nat
  sent : List Tx
  succeeded : List Tx
  failed : List Tx
  signed : List Tx

structure Config where
  /-- The nonce accounts of this chain. -/
  pool : List AccountId
  budget : RetryEdge → Nat

inductive Label where
  | lockFunds (w : WithdrawalId)
  | claimSign (w : WithdrawalId)
  | claimBroadcast (w : WithdrawalId)
  | listConfirm (w : WithdrawalId)
  | listRetry (w : WithdrawalId) (edge : RetryEdge)
  | work (task : Task) (choice : Choice)
  | crash (task : Task)
  | land (tx : Tx) (succeeds : Bool)
  | advance (account : AccountId)
  | finalize (account : AccountId)
deriving DecidableEq, Repr

namespace World

/-- The lock has been posted back to the user. -/
def released (s : World) (w : WithdrawalId) : Bool := s.postings.contains (.release, w)

def setRow (s : World) (w : WithdrawalId) (row : Withdrawal) : World :=
  { s with rows := Function.update s.rows w row }

@[simp] theorem setRow_rows (s : World) (w : WithdrawalId) (row : Withdrawal) :
    (s.setRow w row).rows = Function.update s.rows w row := by
  unfold setRow; rfl

/-- A guarded transition; a row that is not in `source` is left alone. -/
def transition (s : World) (w : WithdrawalId) (source target : WithdrawalStatus)
    (increment : Option RetryEdge) : World :=
  { s with rows :=
      match (s.rows w).transition source target increment with
      | some row => Function.update s.rows w row
      | none => s.rows }

def send (s : World) (tx : Tx) (reached : Bool) : World :=
  if reached then { s with sent := tx :: s.sent } else s

def releaseLeases (s : World) (w : WithdrawalId) : World :=
  { s with leases := fun account =>
      if s.leases account = .leased w then .available else s.leases account }

/-- The account the withdrawal holds, or else an available one: the one updated longest ago of those
no other transaction has locked (`SKIP LOCKED`), so any of them. -/
def leaseFor (config : Config) (s : World) (w : WithdrawalId) (available : Option AccountId) :
    Option (Option AccountId × World) :=
  match config.pool.find? (s.leases · = .leased w) with
  | some held => some (some held, s)
  | none =>
    match available with
    | none => some (none, s)
    | some account =>
      if account ∈ config.pool ∧ s.leases account = .available then
        some (some account, { s with leases := Function.update s.leases account (.leased w) })
      else none

/-- `getFinalizedStatus`: what the chain may answer for a signature. -/
def reports (s : World) (tx : Tx) : FinalizedStatus → Bool
  | .final => tx ∈ s.succeeded ∧ tx.nonce < s.finalized tx.account
  | .pending => true
  | .failed => tx ∈ s.failed

/-- What follows the broadcast worker's call of `broadcast`. -/
def afterBroadcast (w : WithdrawalId) (tx : Tx) : Outcome → Task
  | .submitted true => .saveSignature w (some tx)
  | .submitted false => .saveSignature w none
  | .nonceAdvanced => .move w .expired
  | .rejected => .move w .broadcastFailed

/-- One step of a task: the world it leaves and what the worker goes on with. -/
def work (config : Config) (s : World) : Task → Choice → Option (World × Option Task)
  | .lease w, .account available =>
    (s.leaseFor config w available).map fun
      | (some account, s) => (s, some (.readNonce w account))
      | (none, s) => (s, some (.move w .poolDry))
  | .lease w, .throws => some (s, some (.move w .signError))
  | .readNonce w account, .ok => some (s, some (.sign ⟨w, account, s.finalized account⟩))
  | .readNonce w _, .throws => some (s, some (.move w .signError))
  | .sign tx, .ok => some ({ s with signed := tx :: s.signed }, some (.persist tx))
  | .sign tx, .throws => some (s, some (.move tx.withdrawal .signError))
  | .persist tx, .ok =>
    match (s.rows tx.withdrawal).transition .signing .signed none with
    | some row =>
      some (s.setRow tx.withdrawal { row with
        signedTransaction := some tx
        nonceAccountId := some tx.account
        nonceValue := some tx.nonce }, none)
    | none => some (s, none)
  | .persist tx, .throws => some (s, some (.move tx.withdrawal .signError))
  | .broadcast w tx, .outcome outcome reached =>
    some (s.send tx reached, some (afterBroadcast w tx outcome))
  | .saveSignature w signature, .ok =>
    some (s.setRow w { s.rows w with txSignature := signature }, none)
  | .confirm w record, .ok =>
    if record.txSignature = none then some (s, some (.resolve w record)) else none
  | .confirm w record, .status status =>
    record.txSignature.bind fun tx =>
      if s.reports tx status then
        some (s, some (match status with
          | .final => .confirmed w
          | .pending => .resolve w record
          | .failed => .move w .broadcastFailed))
      else none
  | .confirmed w, .ok =>
    match (s.rows w).transition .broadcast .confirmed none with
    | some row => some (s.setRow w row, some (.settle w))
    | none => some (s, none)
  | .resolve w record, .ok =>
    match record.nonceAccountId, record.nonceValue with
    | some account, some value =>
      if s.finalized account ≠ value then some (s, some (.move w .expired))
      else some (s, record.signedTransaction.map .rebroadcast)
    | _, _ => some (s, none)
  | .rebroadcast tx, .outcome _ reached => some (s.send tx reached, none)
  | .settle w, .ok =>
    let s := { s with postings := (.settlement, w) :: s.postings }
    some ((s.transition w .confirmed .settled none).releaseLeases w, none)
  | .giveUp w edge, .ok =>
    some ({ s with postings := (.release, w) :: s.postings }, some (.giveUpLease w edge))
  | .giveUpLease w edge, .ok => some (s.releaseLeases w, some (.move w (.giveUp edge)))
  | .dropLease w, .ok => some (s.releaseLeases w, some (.move w (.retry .expiry)))
  | .move w move, .ok => some (s.transition w move.source move.target move.increment, none)
  | _, _ => none

def spawn (s : World) (task : Option Task) : World :=
  { s with tasks := task.toList ++ s.tasks }

/-- What `processRetries` starts for one listed record. -/
def retryTask (config : Config) (w : WithdrawalId) (record : Withdrawal) (edge : RetryEdge) :
    Task :=
  if config.budget edge ≤ edge.attempts record then .giveUp w edge
  else if edge = .expiry then .dropLease w
  else .move w (.retry edge)

def step (config : Config) (s : World) : Label → Option World
  | .lockFunds w =>
    ((s.rows w).transition .approved .fundsLocked none).map fun row =>
      { s.setRow w row with postings := (.lock, w) :: s.postings }
  | .claimSign w =>
    ((s.rows w).transition .fundsLocked .signing none).map fun row =>
      (s.setRow w row).spawn (some (.lease w))
  | .claimBroadcast w =>
    ((s.rows w).transition .signed .broadcast none).map fun row =>
      (s.setRow w row).spawn (some (match row.signedTransaction with
        | some tx => .broadcast w tx
        | none => .move w .broadcastFailed))
  | .listConfirm w =>
    if (s.rows w).status = .broadcast then some (s.spawn (some (.confirm w (s.rows w)))) else none
  | .listRetry w edge =>
    if (s.rows w).status = edge.status then
      some (s.spawn (some (retryTask config w (s.rows w) edge)))
    else none
  | .work task choice =>
    if task ∈ s.tasks then
      (work config { s with tasks := s.tasks.erase task } task choice).map fun
        | (s, next) => s.spawn next
    else none
  | .crash task =>
    if task ∈ s.tasks then some { s with tasks := s.tasks.erase task } else none
  | .land tx succeeds =>
    if tx ∈ s.sent ∧ s.nonce tx.account = tx.nonce then
      let s := { s with nonce := Function.update s.nonce tx.account (tx.nonce + 1) }
      some (if succeeds then { s with succeeded := tx :: s.succeeded }
        else { s with failed := tx :: s.failed })
    else none
  | .advance account =>
    some { s with nonce := Function.update s.nonce account (s.nonce account + 1) }
  | .finalize account =>
    if s.finalized account < s.nonce account then
      some { s with finalized := Function.update s.finalized account (s.finalized account + 1) }
    else none

/-- Every withdrawal approved and not yet locked, every nonce account free. -/
def initial : World where
  rows _ := ⟨.approved, 0, 0, 0, none, none, none, none⟩
  leases _ := .available
  postings := []
  tasks := []
  nonce _ := 0
  finalized _ := 0
  sent := []
  succeeded := []
  failed := []
  signed := []

end World

end AtlasCex.Withdrawals

import AtlasCex.Deposits.Transfers
import AtlasCex.Ledger.Custody
/-!
# Crediting a transfer

| here | there |
| --- | --- |
| `AddressRow`, `WalletRow` | `addresses`, `wallets`; `watched` is an active address in the deposit role |
| `DepositRow`, `key`       | `deposits` and its unique index (`schema.prisma:461-496`) |
| `CursorRow`               | `indexer_cursors`, one for each address and scanned account |
| `Db.record`               | `deposit.repository.ts:96-131`: `ON CONFLICT DO NOTHING` |
| `Credit`                  | a call of `creditTransfer` before each of its statements (`deposit.service.ts:58-240`) |
| `Db.creditStep`           | one of them; the last is the transaction: the row, the posting and the mark, or nothing |

`none` is a statement that throws: the transaction is rolled back and the call ends. Ids are fresh.
-/
namespace AtlasCex.Deposits

open Ledger (AssetKey UserId LedgerTransaction postDeposit)

structure AddressRow where
  id : String
  walletId : String
  chain : String
  address : Address
  watched : Bool
deriving DecidableEq, Repr

structure WalletRow where
  id : String
  userId : UserId
  active : Bool
deriving DecidableEq, Repr

inductive DepositStatus where
  | confirming
  | credited
  | ignored
deriving DecidableEq, Repr

structure DepositRow where
  id : String
  walletId : String
  addressId : String
  userId : UserId
  chain : String
  asset : AssetKey
  amount : Nat
  rentReserved : Nat
  txSignature : Signature
  instructionIndex : Nat
  position : Nat
  status : DepositStatus
  reason : Option String
  ledgerTransactionId : Option String
deriving DecidableEq, Repr

abbrev DepositKey := String × Signature × Nat

def DepositRow.key (row : DepositRow) : DepositKey :=
  (row.chain, row.txSignature, row.instructionIndex)

structure CursorRow where
  addressId : String
  scanAddress : Address
  lastSignature : Option Signature
  lastPosition : Option Nat
deriving DecidableEq, Repr

structure Db where
  addresses : List AddressRow
  wallets : List WalletRow
  deposits : List DepositRow
  ledger : List (String × LedgerTransaction)
  cursors : List CursorRow

/-! ## The call -/

inductive Credit where
  | address (event : TransferEvent) (rentReserved : Nat)
  | wallet (event : TransferEvent) (rentReserved : Nat) (address : AddressRow)
  | transaction (event : TransferEvent) (rentReserved : Nat) (address : AddressRow) (wallet : WalletRow)
deriving DecidableEq, Repr

def Credit.event : Credit → TransferEvent
  | .address event _ | .wallet event _ _ | .transaction event _ _ _ => event

inductive CreditOutcome where
  | credited (depositId : String)
  | duplicate
  | notFinal
  | ignored (reason : String)
deriving DecidableEq, Repr

/-- Where a call goes: on to its next statement, or back to its caller. -/
inductive CreditNext where
  | on (credit : Credit)
  | back (outcome : CreditOutcome)
deriving DecidableEq, Repr

def creditTransfer (event : TransferEvent) (rentReserved : Nat) : CreditNext :=
  if event.confirmation ≠ .final then .back .notFinal else .on (.address event rentReserved)

/-- A label for an operator: a token event names its token account. -/
def ignoredReason (event : TransferEvent) : String :=
  if event.tokenAccount.isSome then "mint_not_allowlisted" else "asset_not_allowlisted"

namespace Db

def findByAddress (db : Db) (chain : String) (address : Address) : Option AddressRow :=
  db.addresses.find? fun row => row.chain = chain ∧ row.address = address

def findWalletById (db : Db) (id : String) : Option WalletRow := db.wallets.find? (·.id = id)

/-- The insert, unless the key is there. -/
def record (db : Db) (row : DepositRow) : Option Db :=
  if db.deposits.any (·.key = row.key) then none
  else some { db with deposits := db.deposits ++ [row] }

def rowOf (event : TransferEvent) (address : AddressRow) (wallet : WalletRow) (id : String) :
    DepositRow where
  id := id
  walletId := wallet.id
  addressId := address.id
  userId := wallet.userId
  chain := event.chain
  asset := event.asset
  amount := event.amount
  rentReserved := 0
  txSignature := event.txReference
  instructionIndex := event.instructionIndex
  position := event.position
  status := .confirming
  reason := none
  ledgerTransactionId := none

/-- One statement of the call. -/
def creditStep (allowed : AssetKey → Bool) (db : Db) (depositId transactionId : String) :
    Credit → Option (Db × CreditNext)
  | .address event rent =>
    match db.findByAddress event.chain event.recipient with
    | none => some (db, .back (.ignored "address_not_owned"))
    | some address => some (db, .on (.wallet event rent address))
  | .wallet event rent address =>
    match db.findWalletById address.walletId with
    | none => some (db, .back (.ignored "wallet_missing"))
    | some wallet =>
      if wallet.active then some (db, .on (.transaction event rent address wallet))
      else some (db, .back (.ignored "wallet_not_active"))
  | .transaction event rent address wallet =>
    if db.deposits.any (·.id = depositId) ∨ db.ledger.any (·.1 = transactionId) then none
    else if allowed event.asset then
      -- rent can only be reserved out of what arrived
      let applicable := min rent event.amount
      match postDeposit depositId wallet.userId event.asset event.amount applicable with
      | .error _ =>
        -- the posting is built after the insert: a duplicate is reported first
        if db.deposits.any (·.key = (rowOf event address wallet depositId).key) then
          some (db, .back .duplicate)
        else none
      | .ok posting =>
        match db.record { rowOf event address wallet depositId with
            rentReserved := applicable, status := .credited,
            ledgerTransactionId := some transactionId } with
        | none => some (db, .back .duplicate)
        | some db => some ({ db with ledger := db.ledger ++ [(transactionId, posting)] },
            .back (.credited depositId))
    else
      match db.record { rowOf event address wallet depositId with
          status := .ignored, reason := some (ignoredReason event) } with
      | none => some (db, .back .duplicate)
      | some db => some (db, .back (.ignored (ignoredReason event)))

/-! ## What a statement does -/

variable {allowed : AssetKey → Bool} {db db' : Db} {depositId transactionId : String} {credit : Credit}
  {next : CreditNext}

theorem record_some {row : DepositRow} (h : db.record row = some db') :
    (∀ d ∈ db.deposits, d.key ≠ row.key) ∧ db' = { db with deposits := db.deposits ++ [row] } := by
  simp only [record, Option.ite_none_left_eq_some, Option.some.injEq, List.any_eq_true,
    decide_eq_true_eq, not_exists, not_and] at h
  exact ⟨h.1, h.2.symm⟩

theorem record_none {row : DepositRow} (h : db.record row = none) :
    ∃ d ∈ db.deposits, d.key = row.key := by
  simpa [record] using h

/-- Nothing is written, or one row with a new key, and for a credited row the posting with it. -/
inductive Writes (db : Db) : Credit → Db → Prop
  | nothing (credit : Credit) : Writes db credit db
  | ignored (event : TransferEvent) (rent : Nat) (address : AddressRow) (wallet : WalletRow)
      (id : String) (row : DepositRow)
      (fresh : ∀ d ∈ db.deposits, d.id ≠ row.id) (new : ∀ d ∈ db.deposits, d.key ≠ row.key)
      (row_eq : row = { rowOf event address wallet id with
        status := .ignored, reason := some (ignoredReason event) }) :
      Writes db (.transaction event rent address wallet) { db with deposits := db.deposits ++ [row] }
  | credited (event : TransferEvent) (rent : Nat) (address : AddressRow) (wallet : WalletRow)
      (id transactionId : String) (row : DepositRow) (applicable : Nat) (posting : LedgerTransaction)
      (fresh : ∀ d ∈ db.deposits, d.id ≠ row.id) (new : ∀ d ∈ db.deposits, d.key ≠ row.key)
      (unused : ∀ p ∈ db.ledger, p.1 ≠ transactionId)
      (row_eq : row = { rowOf event address wallet id with
        rentReserved := applicable, status := .credited, ledgerTransactionId := some transactionId })
      (posted : postDeposit id wallet.userId event.asset event.amount applicable = .ok posting) :
      Writes db (.transaction event rent address wallet) { db with
        deposits := db.deposits ++ [row], ledger := db.ledger ++ [(transactionId, posting)] }

theorem creditStep_writes
    (h : creditStep allowed db depositId transactionId credit = some (db', next)) :
    Writes db credit db' := by
  cases credit with
  | address event rent =>
    simp only [creditStep] at h
    split at h <;> cases h <;> exact .nothing _
  | wallet event rent address =>
    simp only [creditStep] at h
    split at h
    · cases h
      exact .nothing _
    · split at h <;> cases h <;> exact .nothing _
  | transaction event rent address wallet =>
    simp only [creditStep, Option.ite_none_left_eq_some] at h
    obtain ⟨hfresh, h⟩ := h
    simp only [List.any_eq_true, decide_eq_true_eq, not_or, not_exists, not_and] at hfresh
    split at h
    · split at h
      · split at h <;> cases h
        exact .nothing _
      · rename_i posting hposting
        split at h
        · cases h
          exact .nothing _
        · rename_i hrecord
          cases h
          obtain ⟨hnew, rfl⟩ := record_some hrecord
          exact .credited event rent address wallet depositId transactionId _ _ posting hfresh.1 hnew
            hfresh.2 rfl hposting
    · split at h
      · cases h
        exact .nothing _
      · rename_i hrecord
        cases h
        obtain ⟨hnew, rfl⟩ := record_some hrecord
        exact .ignored event rent address wallet depositId _ hfresh.1 hnew rfl

/-- The address a call has found is the recipient's. -/
def CreditOk (db : Db) : Credit → Prop
  | .address .. => True
  | .wallet event _ address | .transaction event _ address _ =>
    ∃ a ∈ db.addresses, a.id = address.id ∧ a.chain = event.chain ∧ a.address = event.recipient

variable {c : Credit}

/-- A call that goes on. -/
theorem creditStep_cases
    (h : creditStep allowed db depositId transactionId credit = some (db', .on c)) :
    (∃ event rent address, credit = .address event rent ∧ c = .wallet event rent address ∧
        db.findByAddress event.chain event.recipient = some address) ∨
      ∃ event rent address wallet, credit = .wallet event rent address ∧
        c = .transaction event rent address wallet ∧
        db.findWalletById address.walletId = some wallet ∧ wallet.active = true := by
  cases credit with
  | address event rent =>
    simp only [creditStep] at h
    split at h
    · simp at h
    · rename_i address hfind
      cases h
      exact .inl ⟨event, rent, address, rfl, rfl, hfind⟩
  | wallet event rent address =>
    simp only [creditStep] at h
    split at h
    · simp at h
    · rename_i wallet hfind
      split at h
      · rename_i hactive
        cases h
        exact .inr ⟨event, rent, address, wallet, rfl, rfl, hfind, hactive⟩
      · simp at h
  | transaction event rent address wallet =>
    simp only [creditStep, Option.ite_none_left_eq_some] at h
    obtain ⟨-, h⟩ := h
    split at h
    · split at h
      · split at h <;> simp at h
      · split at h <;> simp at h
    · split at h <;> simp at h

theorem creditStep_event
    (h : creditStep allowed db depositId transactionId credit = some (db', .on c)) :
    c.event = credit.event := by
  obtain ⟨_, _, _, rfl, rfl, -⟩ | ⟨_, _, _, _, rfl, rfl, -⟩ := creditStep_cases h <;> rfl

theorem creditStep_on (hok : CreditOk db credit)
    (h : creditStep allowed db depositId transactionId credit = some (db', .on c)) :
    CreditOk db c := by
  obtain ⟨event, rent, address, rfl, rfl, hfind⟩ | ⟨_, _, _, _, rfl, rfl, -⟩ := creditStep_cases h
  · exact ⟨address, List.mem_of_find?_eq_some hfind, rfl, by simpa using List.find?_some hfind⟩
  · exact hok

/-- A call that is back: the address is not ours, the wallet is not active, or the transfer has its
row. -/
theorem creditStep_back {outcome : CreditOutcome}
    (h : creditStep allowed db depositId transactionId credit = some (db', .back outcome)) :
    outcome ≠ .notFinal ∧
      ((∃ event rent, credit = .address event rent ∧
          db.findByAddress event.chain event.recipient = none) ∨
        (∃ event rent address, credit = .wallet event rent address ∧
          (db.findWalletById address.walletId).any (·.active) = false) ∨
        ∃ d ∈ db'.deposits, d.key =
          (credit.event.chain, credit.event.txReference, credit.event.instructionIndex)) := by
  cases credit with
  | address event rent =>
    simp only [creditStep] at h
    split at h
    · rename_i hfind
      cases h
      exact ⟨nofun, .inl ⟨event, rent, rfl, hfind⟩⟩
    · cases h
  | wallet event rent address =>
    simp only [creditStep] at h
    split at h
    · rename_i hfind
      cases h
      exact ⟨nofun, .inr (.inl ⟨event, rent, address, rfl, by simp [hfind]⟩)⟩
    · rename_i wallet hfind
      split at h
      · cases h
      · rename_i hactive
        cases h
        exact ⟨nofun, .inr (.inl ⟨event, rent, address, rfl, by simpa [hfind] using hactive⟩)⟩
  | transaction event rent address wallet =>
    simp only [creditStep, Option.ite_none_left_eq_some] at h
    obtain ⟨-, h⟩ := h
    split at h
    · split at h
      · split at h
        · rename_i hduplicate
          cases h
          simp only [List.any_eq_true, decide_eq_true_eq] at hduplicate
          exact ⟨nofun, .inr (.inr hduplicate)⟩
        · cases h
      · split at h
        · rename_i hrecord
          cases h
          exact ⟨nofun, .inr (.inr (record_none hrecord))⟩
        · rename_i hrecord
          cases h
          obtain ⟨-, rfl⟩ := record_some hrecord
          exact ⟨nofun, .inr (.inr ⟨_, List.mem_append_right _ (List.mem_singleton_self _), rfl⟩)⟩
    · split at h
      · rename_i hrecord
        cases h
        exact ⟨nofun, .inr (.inr (record_none hrecord))⟩
      · rename_i hrecord
        cases h
        obtain ⟨-, rfl⟩ := record_some hrecord
        exact ⟨nofun, .inr (.inr ⟨_, List.mem_append_right _ (List.mem_singleton_self _), rfl⟩)⟩

end Db

end AtlasCex.Deposits

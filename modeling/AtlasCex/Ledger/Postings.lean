import AtlasCex.Lib.Checked
import Mathlib.Algebra.BigOperators.Group.List.Basic
import Mathlib.Algebra.Order.Ring.Int
/-!
# Ledger transactions and the postings of the trading tier

| here | there |
| --- | --- |
| `AssetKey`     | a cluster-qualified asset key (`types`, `parseLedgerAssetKey`): a key it refuses (`entry_asset_not_cluster_qualified`) cannot be written |
| `AccountType`, `AccountRef` | `ledger/src/accounts.ts` |
| `Entry`, `LedgerTransaction`, `debit`, `credit`, `signedAmount` | `ledger/src/entries.ts` |
| `buildTransaction` | `ledger/src/transaction-builder.ts` |
| `postOrderHold`, `postOrderRelease`, `postTradeSettlement` | `ledger/src/postings.ts:440-473`, `:648-691` |
| `balance`      | a projection over entries, credit-positive: what `getUserTradingBalances` sums (`ledger.repository.ts:368-388`) |

Every posting function returns the entries it lists or an error; the entries are what balances are
made of. `at_` says what one entry adds to which account, and its lemmas settle it for every pair of
accounts the trading tier uses.
-/
namespace AtlasCex.Ledger

abbrev UserId := String

structure AssetKey where
  cluster : String
  asset : String
deriving DecidableEq, Repr

inductive AccountType where
  | userCustodyAvailable
  | userCustodyLocked
  | userTradingAvailable
  | userOrderLocked
  | userTradingLocked
  | clearingAssets
  | houseTradingFees
  | chainAssets
  | houseFees
  | houseRent
  | external
deriving DecidableEq, Repr

structure AccountRef where
  ownerId : Option UserId
  asset : AssetKey
  type : AccountType
deriving DecidableEq, Repr

def userTradingAvailable (ownerId : UserId) (asset : AssetKey) : AccountRef :=
  ⟨some ownerId, asset, .userTradingAvailable⟩

def userOrderLocked (ownerId : UserId) (asset : AssetKey) : AccountRef :=
  ⟨some ownerId, asset, .userOrderLocked⟩

def houseTradingFees (asset : AssetKey) : AccountRef := ⟨none, asset, .houseTradingFees⟩

inductive Direction where
  | debit
  | credit
deriving DecidableEq, Repr

structure Entry where
  account : AccountRef
  asset : AssetKey
  amount : Int
  direction : Direction
deriving DecidableEq, Repr

def debit (account : AccountRef) (asset : AssetKey) (amount : Int) : Entry :=
  ⟨account, asset, amount, .debit⟩

def credit (account : AccountRef) (asset : AssetKey) (amount : Int) : Entry :=
  ⟨account, asset, amount, .credit⟩

def Entry.signedAmount (entry : Entry) : Int :=
  match entry.direction with
  | .debit => entry.amount
  | .credit => -entry.amount

inductive TransactionKind where
  | deposit
  | withdrawalLock
  | withdrawalRelease
  | withdrawalSettle
  | sweep
  | fee
  | allocation
  | deallocation
  | orderHold
  | orderRelease
  | tradeSettle
  | adjustment
deriving DecidableEq, Repr

structure LedgerTransaction where
  kind : TransactionKind
  referenceType : String
  referenceId : String
  entries : List Entry
deriving DecidableEq, Repr

/-- What a posting throws; the texts are the reason codes of `InvalidEntryError`. -/
inductive PostingError where
  | invalidEntry (reason : String)
  | crossCluster (first second : String)
  | unbalanced (asset : AssetKey) (residual : Int)
deriving DecidableEq, Repr

/-! ## Building a transaction -/

open Lib (refuse bind_eq_ok refuse_eq_ok pure_eq_ok forM_eq_ok)

def checkEntry (entry : Entry) : Except PostingError Unit := do
  refuse (entry.amount < 0) (.invalidEntry "entry_amount_negative")
  refuse (entry.amount = 0) (.invalidEntry "entry_amount_zero")
  refuse (entry.asset ≠ entry.account.asset) (.invalidEntry "entry_asset_mismatch")

/-- All entries in the cluster of the first. -/
def checkCluster : List Entry → Except PostingError Unit
  | [] => .ok ()
  | first :: rest => rest.forM fun entry =>
      refuse (entry.asset.cluster ≠ first.asset.cluster)
        (.crossCluster first.asset.cluster entry.asset.cluster)

def residual (entries : List Entry) (asset : AssetKey) : Int :=
  ((entries.filter (·.asset = asset)).map Entry.signedAmount).sum

def checkBalanced (entries : List Entry) : Except PostingError Unit :=
  (entries.map (·.asset)).forM fun asset =>
    refuse (residual entries asset ≠ 0) (.unbalanced asset (residual entries asset))

def buildTransaction (kind : TransactionKind) (referenceType referenceId : String)
    (entries : List Entry) : Except PostingError LedgerTransaction := do
  refuse (entries.length < 2) (.invalidEntry "transaction_needs_two_entries")
  entries.forM checkEntry
  checkCluster entries
  checkBalanced entries
  pure ⟨kind, referenceType, referenceId, entries⟩

theorem buildTransaction_eq {kind : TransactionKind} {referenceType referenceId : String}
    {entries : List Entry} {t : LedgerTransaction}
    (h : buildTransaction kind referenceType referenceId entries = .ok t) :
    t = ⟨kind, referenceType, referenceId, entries⟩ := by
  simp only [buildTransaction, bind_eq_ok, pure_eq_ok] at h
  obtain ⟨-, -, -, -, -, -, -, -, rfl⟩ := h
  rfl

/-- Two positive entries or more of one cluster that balance are a transaction. -/
theorem buildTransaction_total {kind : TransactionKind} {referenceType referenceId : String}
    {entries : List Entry} (cluster : String) (hlength : 2 ≤ entries.length)
    (hentries : ∀ e ∈ entries, 0 < e.amount ∧ e.asset = e.account.asset ∧ e.asset.cluster = cluster)
    (hbalanced : ∀ asset, residual entries asset = 0) :
    buildTransaction kind referenceType referenceId entries =
      .ok ⟨kind, referenceType, referenceId, entries⟩ := by
  have hentry : entries.forM checkEntry = .ok () := by
    refine forM_eq_ok.2 fun e he => ?_
    obtain ⟨hpos, hasset, -⟩ := hentries e he
    simp only [checkEntry, refuse, not_lt.2 hpos.le, hpos.ne', hasset, ne_eq, not_true, if_false]
    rfl
  have hcluster : checkCluster entries = .ok () := by
    cases entries with
    | nil => rfl
    | cons first rest =>
      refine forM_eq_ok.2 fun e he => refuse_eq_ok.2 (not_not.2 ?_)
      rw [(hentries e (List.mem_cons_of_mem _ he)).2.2, (hentries first List.mem_cons_self).2.2]
  have hsum : checkBalanced entries = .ok () :=
    forM_eq_ok.2 fun asset _ => refuse_eq_ok.2 (not_not.2 (hbalanced asset))
  simp only [buildTransaction, refuse, not_lt.2 hlength, if_false, hentry, hcluster, hsum]
  rfl

/-! ## Postings of the trading tier -/

def requirePositive (amount : Int) (what : String) : Except PostingError Unit :=
  refuse (amount < 0 ∨ amount = 0) (.invalidEntry (what ++ "_amount_not_positive"))

def postOrderHold (orderId : String) (userId : UserId) (asset : AssetKey) (amount : Int) :
    Except PostingError LedgerTransaction := do
  requirePositive amount "order hold"
  buildTransaction .orderHold "order" orderId
    [debit (userTradingAvailable userId asset) asset amount,
      credit (userOrderLocked userId asset) asset amount]

def postOrderRelease (orderId : String) (userId : UserId) (asset : AssetKey) (amount : Int) :
    Except PostingError LedgerTransaction := do
  requirePositive amount "order release"
  buildTransaction .orderRelease "order" orderId
    [debit (userOrderLocked userId asset) asset amount,
      credit (userTradingAvailable userId asset) asset amount]

structure TradeSettlementPosting where
  fillId : String
  buyerId : UserId
  sellerId : UserId
  baseAsset : AssetKey
  quoteAsset : AssetKey
  qty : Int
  notional : Int
  buyerFee : Int
  sellerFee : Int
deriving DecidableEq, Repr

/-- The five legs of a fill; one of amount zero is left out. -/
def TradeSettlementPosting.legs (input : TradeSettlementPosting) : List Entry :=
  [debit (userOrderLocked input.buyerId input.quoteAsset) input.quoteAsset
      (input.notional + input.buyerFee),
    credit (userTradingAvailable input.sellerId input.quoteAsset) input.quoteAsset
      (input.notional - input.sellerFee),
    credit (houseTradingFees input.quoteAsset) input.quoteAsset (input.buyerFee + input.sellerFee),
    debit (userOrderLocked input.sellerId input.baseAsset) input.baseAsset input.qty,
    credit (userTradingAvailable input.buyerId input.baseAsset) input.baseAsset input.qty]

def postTradeSettlement (input : TradeSettlementPosting) :
    Except PostingError LedgerTransaction := do
  requirePositive input.qty "trade quantity"
  refuse (input.notional < 0) (.invalidEntry "trade_notional_negative")
  refuse (input.buyerFee < 0) (.invalidEntry "trade_buyer_fee_negative")
  refuse (input.sellerFee < 0) (.invalidEntry "trade_seller_fee_negative")
  refuse (input.notional < input.sellerFee) (.invalidEntry "trade_seller_fee_exceeds_notional")
  refuse (input.baseAsset = input.quoteAsset) (.invalidEntry "trade_assets_identical")
  buildTransaction .tradeSettle "fill" input.fillId (input.legs.filter (·.amount ≠ 0))

/-! ## Balances -/

/-- What an entry adds to an account, credit-positive. -/
def Entry.effect (entry : Entry) (account : AccountRef) : Int :=
  if entry.account = account then -entry.signedAmount else 0

def effects (entries : List Entry) (account : AccountRef) : Int :=
  (entries.map (·.effect account)).sum

def balance (ledger : List LedgerTransaction) (account : AccountRef) : Int :=
  (ledger.map fun t => effects t.entries account).sum

@[simp] theorem balance_append (ledger : List LedgerTransaction) (t : LedgerTransaction)
    (account : AccountRef) :
    balance (ledger ++ [t]) account = balance ledger account + effects t.entries account := by
  simp [balance]

/-- Leaving out entries of amount zero changes no balance. -/
theorem effects_filter (entries : List Entry) (account : AccountRef) :
    effects (entries.filter (·.amount ≠ 0)) account = effects entries account := by
  induction entries with
  | nil => rfl
  | cons entry rest ih =>
    by_cases hzero : entry.amount = 0
    · have heffect : entry.effect account = 0 := by
        unfold Entry.effect Entry.signedAmount
        split
        · split <;> omega
        · rfl
      rw [List.filter_cons_of_neg (by simpa using hzero), ih]
      simp [effects, heffect]
    · rw [List.filter_cons_of_pos (by simpa using hzero)]
      simpa [effects] using ih

/-- An amount in one account and nowhere else. -/
def at_ (account : AccountRef) (amount : Int) (x : AccountRef) : Int :=
  if account = x then amount else 0

@[simp] theorem debit_effect (account x : AccountRef) (asset : AssetKey) (amount : Int) :
    (debit account asset amount).effect x = at_ account (-amount) x := by
  unfold Entry.effect at_
  rfl

@[simp] theorem credit_effect (account x : AccountRef) (asset : AssetKey) (amount : Int) :
    (credit account asset amount).effect x = at_ account amount x := by
  simp [credit, Entry.effect, Entry.signedAmount, at_]

section Accounts

variable (user owner : UserId) (asset held : AssetKey) (amount : Int)

@[simp] theorem at_locked_locked :
    at_ (userOrderLocked owner held) amount (userOrderLocked user asset) =
      if owner = user ∧ held = asset then amount else 0 := by
  simp [at_, userOrderLocked]

@[simp] theorem at_available_available :
    at_ (userTradingAvailable owner held) amount (userTradingAvailable user asset) =
      if owner = user ∧ held = asset then amount else 0 := by
  simp [at_, userTradingAvailable]

@[simp] theorem at_locked_available :
    at_ (userOrderLocked owner held) amount (userTradingAvailable user asset) = 0 := by
  simp [at_, userOrderLocked, userTradingAvailable]

@[simp] theorem at_available_locked :
    at_ (userTradingAvailable owner held) amount (userOrderLocked user asset) = 0 := by
  simp [at_, userOrderLocked, userTradingAvailable]

@[simp] theorem at_fees_locked :
    at_ (houseTradingFees held) amount (userOrderLocked user asset) = 0 := by
  simp [at_, houseTradingFees, userOrderLocked]

@[simp] theorem at_fees_available :
    at_ (houseTradingFees held) amount (userTradingAvailable user asset) = 0 := by
  simp [at_, houseTradingFees, userTradingAvailable]

end Accounts

end AtlasCex.Ledger

import AtlasCex.Ledger.Postings
/-!
# Postings of the custody tier

| here | there |
| --- | --- |
| `userCustodyAvailable` .. `userTradingLocked` | `ledger/src/accounts.ts:209-290` |
| `postDeposit` | `ledger/src/postings.ts:55-94` |
| `postWithdrawalLock`, `postWithdrawalRelease`, `postWithdrawalSettlement` | `ledger/src/postings.ts:127-254` |
| `postAllocation`, `postDeallocation`, `postTradingLock`, `postTradingRelease` | `ledger/src/postings.ts:490-602` |
-/
namespace AtlasCex.Ledger

open Lib (refuse bind_eq_ok refuse_eq_ok pure_eq_ok)

def userCustodyAvailable (ownerId : UserId) (asset : AssetKey) : AccountRef :=
  ⟨some ownerId, asset, .userCustodyAvailable⟩

def chainAssets (ownerId : UserId) (asset : AssetKey) : AccountRef :=
  ⟨some ownerId, asset, .chainAssets⟩

def userCustodyLocked (ownerId : UserId) (asset : AssetKey) : AccountRef :=
  ⟨some ownerId, asset, .userCustodyLocked⟩

def userTradingLocked (ownerId : UserId) (asset : AssetKey) : AccountRef :=
  ⟨some ownerId, asset, .userTradingLocked⟩

def clearingAssets (asset : AssetKey) : AccountRef := ⟨none, asset, .clearingAssets⟩

def houseChainAssets (asset : AssetKey) : AccountRef := ⟨none, asset, .chainAssets⟩

def houseFees (asset : AssetKey) : AccountRef := ⟨none, asset, .houseFees⟩

def houseRent (asset : AssetKey) : AccountRef := ⟨none, asset, .houseRent⟩

/-- What arrived on chain is owed to the user, except the part that is immobilised as rent. -/
def postDeposit (depositId : String) (userId : UserId) (asset : AssetKey) (amount rent : Int) :
    Except PostingError LedgerTransaction := do
  refuse (amount < 0 ∨ amount = 0) (.invalidEntry "deposit_amount_not_positive")
  refuse (rent < 0) (.invalidEntry "deposit_rent_negative")
  refuse (amount < rent) (.invalidEntry "deposit_rent_exceeds_amount")
  let creditable := amount - rent
  refuse (creditable = 0 ∧ rent = 0) (.invalidEntry "deposit_amount_not_positive")
  buildTransaction .deposit "deposit" depositId
    (debit (chainAssets userId asset) asset amount ::
      [credit (userCustodyAvailable userId asset) asset creditable,
        credit (houseRent asset) asset rent].filter (·.amount ≠ 0))

variable {asset : AssetKey} {rent amount : Int} {t : LedgerTransaction}

/-- The user is credited with what is not rent, and the house with the rent. -/
theorem postDeposit_effects {depositId : String} {userId : UserId}
    (h : postDeposit depositId userId asset amount rent = .ok t) :
    effects t.entries (userCustodyAvailable userId asset) = amount - rent ∧
      effects t.entries (houseRent asset) = rent := by
  simp only [postDeposit, bind_eq_ok] at h
  obtain ⟨-, -, -, -, -, -, -, -, h⟩ := h
  obtain rfl := buildTransaction_eq h
  have hcons : ∀ account, effects (debit (chainAssets userId asset) asset amount ::
      [credit (userCustodyAvailable userId asset) asset (amount - rent),
        credit (houseRent asset) asset rent].filter (·.amount ≠ 0)) account =
      at_ (chainAssets userId asset) (-amount) account +
        (at_ (userCustodyAvailable userId asset) (amount - rent) account +
          at_ (houseRent asset) rent account) := by
    intro account
    have hfilter := effects_filter [credit (userCustodyAvailable userId asset) asset (amount - rent),
      credit (houseRent asset) asset rent] account
    simp only [effects, List.map_cons, List.sum_cons, List.map_nil, List.sum_nil, debit_effect,
      credit_effect, add_zero] at hfilter ⊢
    rw [hfilter]
  simp only [hcons]
  simp [at_, chainAssets, userCustodyAvailable, houseRent]

/-- **A deposit credits the user and the house with what arrived.** -/
theorem postDeposit_ok {depositId : String} {userId : UserId}
    (h : postDeposit depositId userId asset amount rent = .ok t) :
    t.kind = .deposit ∧ t.referenceId = depositId ∧
      effects t.entries (userCustodyAvailable userId asset) + effects t.entries (houseRent asset) =
        amount := by
  obtain ⟨huser, hhouse⟩ := postDeposit_effects h
  simp only [postDeposit, bind_eq_ok] at h
  obtain ⟨-, -, -, -, -, -, -, -, h⟩ := h
  obtain rfl := buildTransaction_eq h
  refine ⟨rfl, rfl, ?_⟩
  rw [huser, hhouse, sub_add_cancel]

/-- A positive amount can be posted, with any rent up to it. -/
theorem postDeposit_total (depositId : String) (userId : UserId)
    (asset : AssetKey) (hamount : 0 < amount) (hrent : 0 ≤ rent) (hle : rent ≤ amount) :
    ∃ t, postDeposit depositId userId asset amount rent = .ok t := by
  unfold postDeposit
  have h1 : ¬ (amount < 0 ∨ amount = 0) := by omega
  have h2 : ¬ rent < 0 := by omega
  have h3 : ¬ amount < rent := by omega
  have h4 : ¬ (amount - rent = 0 ∧ rent = 0) := by omega
  simp only [refuse, h1, h2, h3, h4, if_false]
  refine ⟨_, buildTransaction_total asset.cluster ?_ ?_ ?_⟩
  · by_cases hzero : rent = 0
    · simp [hzero, credit, hamount.ne']
    · by_cases hall : amount - rent = 0 <;> simp [hzero, hall, credit]
  · simp [debit, credit, chainAssets, userCustodyAvailable, houseRent]
    grind
  · intro asset'
    by_cases hzero : rent = 0 <;> by_cases hall : amount - rent = 0 <;> by_cases heq : asset = asset' <;>
      simp [residual, debit, credit, Entry.signedAmount, hzero, hall, heq,
        hamount.ne'] <;> omega
/-! ## Withdrawals -/

/-- An amount goes from one account of a user to another. -/
def postMove (kind : TransactionKind) (what withdrawalId : String) (source target : AccountRef)
    (asset : AssetKey) (amount : Int) : Except PostingError LedgerTransaction := do
  requirePositive amount what
  buildTransaction kind "withdrawal" withdrawalId
    [debit source asset amount, credit target asset amount]

def postWithdrawalLock (withdrawalId : String) (userId : UserId) (asset : AssetKey) (amount : Int) :
    Except PostingError LedgerTransaction :=
  postMove .withdrawalLock "lock" withdrawalId (userCustodyAvailable userId asset)
    (userCustodyLocked userId asset) asset amount

def postWithdrawalRelease (withdrawalId : String) (userId : UserId) (asset : AssetKey) (amount : Int) :
    Except PostingError LedgerTransaction :=
  postMove .withdrawalRelease "release" withdrawalId (userCustodyLocked userId asset)
    (userCustodyAvailable userId asset) asset amount

def postTradingLock (withdrawalId : String) (userId : UserId) (asset : AssetKey) (amount : Int) :
    Except PostingError LedgerTransaction :=
  postMove .withdrawalLock "trading lock" withdrawalId (userTradingAvailable userId asset)
    (userTradingLocked userId asset) asset amount

def postTradingRelease (withdrawalId : String) (userId : UserId) (asset : AssetKey) (amount : Int) :
    Except PostingError LedgerTransaction :=
  postMove .withdrawalRelease "trading release" withdrawalId (userTradingLocked userId asset)
    (userTradingAvailable userId asset) asset amount

/-- The house bears the network fee, in the native asset. -/
def houseFeeLegs (feeAsset : AssetKey) (networkFee : Int) : List Entry :=
  if networkFee = 0 then []
  else [debit (houseFees feeAsset) feeAsset networkFee,
    credit (houseChainAssets feeAsset) feeAsset networkFee]

/-- An amount that was locked leaves its account, on chain. -/
def postOut (kind : TransactionKind) (what feeReason withdrawalId : String) (legs : List Entry)
    (amount : Int) (feeAsset : AssetKey) (networkFee : Int) :
    Except PostingError LedgerTransaction := do
  requirePositive amount what
  refuse (networkFee < 0) (.invalidEntry feeReason)
  buildTransaction kind "withdrawal" withdrawalId (legs ++ houseFeeLegs feeAsset networkFee)

def postWithdrawalSettlement (withdrawalId : String) (userId : UserId) (asset : AssetKey)
    (amount : Int) (feeAsset : AssetKey) (networkFee : Int) : Except PostingError LedgerTransaction :=
  postOut .withdrawalSettle "settle" "withdrawal_fee_negative" withdrawalId
    [debit (userCustodyLocked userId asset) asset amount,
      credit (chainAssets userId asset) asset amount] amount feeAsset networkFee

def postAllocation (withdrawalId : String) (userId : UserId) (asset : AssetKey)
    (amount : Int) (feeAsset : AssetKey) (networkFee : Int) : Except PostingError LedgerTransaction :=
  postOut .allocation "allocation" "allocation_fee_negative" withdrawalId
    [debit (userCustodyLocked userId asset) asset amount,
      credit (chainAssets userId asset) asset amount,
      debit (clearingAssets asset) asset amount,
      credit (userTradingAvailable userId asset) asset amount] amount feeAsset networkFee

def postDeallocation (withdrawalId : String) (userId : UserId) (asset : AssetKey)
    (amount : Int) (feeAsset : AssetKey) (networkFee : Int) : Except PostingError LedgerTransaction :=
  postOut .deallocation "deallocation" "allocation_fee_negative" withdrawalId
    [debit (userTradingLocked userId asset) asset amount,
      credit (clearingAssets asset) asset amount,
      debit (chainAssets userId asset) asset amount,
      credit (userCustodyAvailable userId asset) asset amount] amount feeAsset networkFee

theorem at_of_type_ne {account x : AccountRef} (h : account.type ≠ x.type) (amount : Int) :
    at_ account amount x = 0 := by
  rw [at_, if_neg]
  rintro rfl
  exact h rfl

theorem postMove_ok {kind : TransactionKind} {what withdrawalId : String} {source target : AccountRef}
    (h : postMove kind what withdrawalId source target asset amount = .ok t) :
    t.kind = kind ∧ t.referenceId = withdrawalId ∧
      ∀ x, effects t.entries x = at_ source (-amount) x + at_ target amount x := by
  simp only [postMove, bind_eq_ok] at h
  obtain ⟨-, -, h⟩ := h
  obtain rfl := buildTransaction_eq h
  exact ⟨rfl, rfl, fun x => by simp [effects]⟩

/-- Fees are not in the accounts of a user. -/
theorem effects_houseFeeLegs {feeAsset : AssetKey} {networkFee : Int} {x : AccountRef}
    (hfees : x.type ≠ .houseFees) (hchain : x.type ≠ .chainAssets) :
    effects (houseFeeLegs feeAsset networkFee) x = 0 := by
  unfold houseFeeLegs
  split
  · rfl
  · have hdebit : at_ (houseFees feeAsset) (-networkFee) x = 0 := at_of_type_ne (hfees ·.symm) _
    have hcredit : at_ (houseChainAssets feeAsset) networkFee x = 0 := at_of_type_ne (hchain ·.symm) _
    simp [effects, hdebit, hcredit]

theorem postOut_ok {kind : TransactionKind} {what feeReason withdrawalId : String} {legs : List Entry}
    {networkFee : Int} {feeAsset : AssetKey}
    (h : postOut kind what feeReason withdrawalId legs amount feeAsset networkFee = .ok t) :
    t.kind = kind ∧ t.referenceId = withdrawalId ∧ ∀ x : AccountRef, x.type ≠ .houseFees →
      x.type ≠ .chainAssets → effects t.entries x = effects legs x := by
  simp only [postOut, bind_eq_ok] at h
  obtain ⟨-, -, -, -, h⟩ := h
  obtain rfl := buildTransaction_eq h
  refine ⟨rfl, rfl, fun x hfees hchain => ?_⟩
  have hlegs : effects (houseFeeLegs feeAsset networkFee) x = 0 := effects_houseFeeLegs hfees hchain
  simp only [effects, List.map_append, List.sum_append] at hlegs ⊢
  rw [hlegs, add_zero]

end AtlasCex.Ledger

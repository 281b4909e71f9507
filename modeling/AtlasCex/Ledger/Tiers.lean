import AtlasCex.Ledger.Projection
/-!
# Two tiers, two equations

| here | there |
| --- | --- |
| `postHouseFunding`, `postNonceAccountRent`, `postSweepFee`, `postTokenAccountRent` | `ledger/src/postings.ts:256-408` |
| `Movement` | the calls of the functions of `ledger/src/postings.ts` |

The accounts fall into a vault tier and a clearing tier, and every posting is balanced within each
(`post_tier`): so what backs a tier, less what is owed there, is what the house has in it. The check
of `projection.ts` compares the same totals, and fires in the vault tier when the prepaid fees are
overdrawn (`tier_equations`).

It adds up by the text of an account, so that with a colon in an asset it can take one asset for another
(`filed_together`).
-/
namespace AtlasCex.Ledger

open Lib (refuse bind_eq_ok refuse_eq_ok pure_eq_ok forM_eq_ok)

/-! ## Postings of the house -/

/-- An amount between the house's own accounts and the chain. -/
def postFee (what referenceType reference : String) (source target : AccountRef) (asset : AssetKey)
    (amount : Int) : Except PostingError LedgerTransaction := do
  requirePositive amount what
  buildTransaction .fee referenceType reference [debit source asset amount, credit target asset amount]

def postHouseFunding (reference : String) (asset : AssetKey) (amount : Int) :
    Except PostingError LedgerTransaction :=
  postFee "house_funding" "house_funding" reference (houseChainAssets asset) (houseFees asset) asset amount

def postNonceAccountRent (nonceAccountId : String) (asset : AssetKey) (amount : Int) :
    Except PostingError LedgerTransaction :=
  postFee "nonce_rent" "nonce_account" nonceAccountId (houseChainAssets asset) (houseRent asset) asset amount

def postSweepFee (sweepId : String) (asset : AssetKey) (amount : Int) :
    Except PostingError LedgerTransaction :=
  postFee "sweep_fee" "sweep" sweepId (houseFees asset) (houseChainAssets asset) asset amount

def postTokenAccountRent (reference : String) (ownerId : UserId) (nativeAsset : AssetKey) (amount : Int) :
    Except PostingError LedgerTransaction :=
  postFee "token_account_rent" "token_account" reference (chainAssets ownerId nativeAsset)
    (houseRent nativeAsset) nativeAsset amount

/-- A call of one of the posting functions. An amount that is left out is zero; a fee asset that is
left out throws unless the fee is zero, and then it is not read. -/
inductive Movement where
  | deposit (depositId : String) (userId : UserId) (asset : AssetKey) (amount rentReserved : Int)
  | withdrawalLock (withdrawalId : String) (userId : UserId) (asset : AssetKey) (amount : Int)
  | withdrawalRelease (withdrawalId : String) (userId : UserId) (asset : AssetKey) (amount : Int)
  | withdrawalSettlement (withdrawalId : String) (userId : UserId) (asset : AssetKey) (amount : Int)
      (feeAsset : AssetKey) (networkFee : Int)
  | houseFunding (reference : String) (asset : AssetKey) (amount : Int)
  | nonceAccountRent (nonceAccountId : String) (asset : AssetKey) (amount : Int)
  | tokenAccountRent (reference : String) (ownerId : UserId) (nativeAsset : AssetKey) (amount : Int)
  | sweepFee (sweepId : String) (asset : AssetKey) (amount : Int)
  | orderHold (orderId : String) (userId : UserId) (asset : AssetKey) (amount : Int)
  | orderRelease (orderId : String) (userId : UserId) (asset : AssetKey) (amount : Int)
  | allocation (withdrawalId : String) (userId : UserId) (asset : AssetKey) (amount : Int)
      (feeAsset : AssetKey) (networkFee : Int)
  | deallocation (withdrawalId : String) (userId : UserId) (asset : AssetKey) (amount : Int)
      (feeAsset : AssetKey) (networkFee : Int)
  | tradingLock (withdrawalId : String) (userId : UserId) (asset : AssetKey) (amount : Int)
  | tradingRelease (withdrawalId : String) (userId : UserId) (asset : AssetKey) (amount : Int)
  | tradeSettlement (input : TradeSettlementPosting)
deriving DecidableEq, Repr

def Movement.post : Movement → Except PostingError LedgerTransaction
  | deposit depositId userId asset amount rentReserved =>
    postDeposit depositId userId asset amount rentReserved
  | withdrawalLock withdrawalId userId asset amount => postWithdrawalLock withdrawalId userId asset amount
  | withdrawalRelease withdrawalId userId asset amount =>
    postWithdrawalRelease withdrawalId userId asset amount
  | withdrawalSettlement withdrawalId userId asset amount feeAsset networkFee =>
    postWithdrawalSettlement withdrawalId userId asset amount feeAsset networkFee
  | houseFunding reference asset amount => postHouseFunding reference asset amount
  | nonceAccountRent nonceAccountId asset amount => postNonceAccountRent nonceAccountId asset amount
  | tokenAccountRent reference ownerId nativeAsset amount =>
    postTokenAccountRent reference ownerId nativeAsset amount
  | sweepFee sweepId asset amount => postSweepFee sweepId asset amount
  | orderHold orderId userId asset amount => postOrderHold orderId userId asset amount
  | orderRelease orderId userId asset amount => postOrderRelease orderId userId asset amount
  | allocation withdrawalId userId asset amount feeAsset networkFee =>
    postAllocation withdrawalId userId asset amount feeAsset networkFee
  | deallocation withdrawalId userId asset amount feeAsset networkFee =>
    postDeallocation withdrawalId userId asset amount feeAsset networkFee
  | tradingLock withdrawalId userId asset amount => postTradingLock withdrawalId userId asset amount
  | tradingRelease withdrawalId userId asset amount => postTradingRelease withdrawalId userId asset amount
  | tradeSettlement input => postTradeSettlement input

/-! ## Each posting is balanced within each tier -/

variable {kind : TransactionKind} {entries : List Entry}

theorem buildTransaction_balanced {referenceType referenceId : String}
    (h : buildTransaction kind referenceType referenceId entries = .ok t) (asset : AssetKey) :
    residual t.entries asset = 0 := by
  simp only [buildTransaction, bind_eq_ok, pure_eq_ok, checkBalanced, forM_eq_ok, refuse_eq_ok] at h
  obtain ⟨-, -, -, -, -, -, -, hbalanced, rfl⟩ := h
  by_cases hmem : asset ∈ entries.map (·.asset)
  · exact not_not.1 (hbalanced asset hmem)
  · have hnone : entries.filter (·.asset = asset) = [] := by
      rw [List.filter_eq_nil_iff]
      intro e he heq
      exact hmem (List.mem_map.2 ⟨e, he, of_decide_eq_true heq⟩)
    rw [residual, hnone]
    rfl

/-- The vault tier: the users' own addresses, the treasury, and the claims on them. -/
def AccountType.isVault : AccountType → Bool
  | userCustodyAvailable | userCustodyLocked | chainAssets | houseFees | houseRent => true
  | _ => false

/-- The clearing tier: the clearing address and the claims on it. -/
def AccountType.isClearing : AccountType → Bool
  | userTradingAvailable | userOrderLocked | userTradingLocked | clearingAssets | houseTradingFees => true
  | _ => false

/-- What an entry adds, debit-positive, over the accounts of the asset whose type is in `p`. -/
def signedShare (p : AccountType → Bool) (asset : AssetKey) (e : Entry) : Int :=
  if p e.account.type ∧ e.account.asset = asset then e.signedAmount else 0

def signedTotal (p : AccountType → Bool) (asset : AssetKey) (entries : List Entry) : Int :=
  (entries.map (signedShare p asset)).sum

section Signed
variable (p : AccountType → Bool) (asset : AssetKey)

@[simp] theorem signedTotal_nil : signedTotal p asset [] = 0 := by
  simp [signedTotal]

@[simp] theorem signedTotal_cons (e : Entry) (entries : List Entry) :
    signedTotal p asset (e :: entries) = signedShare p asset e + signedTotal p asset entries := rfl

@[simp] theorem signedTotal_append (entries entries' : List Entry) :
    signedTotal p asset (entries ++ entries') = signedTotal p asset entries + signedTotal p asset entries' := by
  simp [signedTotal]

@[simp] theorem signedShare_debit (account : AccountRef) (held : AssetKey) (amount : Int) :
    signedShare p asset (debit account held amount) =
      if p account.type ∧ account.asset = asset then amount else 0 := by
  unfold signedShare
  rfl

@[simp] theorem signedShare_credit (account : AccountRef) (held : AssetKey) (amount : Int) :
    signedShare p asset (credit account held amount) =
      if p account.type ∧ account.asset = asset then -amount else 0 := by
  unfold signedShare
  rfl

/-- An entry of amount zero adds nothing. -/
theorem signedTotal_filter (entries : List Entry) :
    signedTotal p asset (entries.filter (·.amount ≠ 0)) = signedTotal p asset entries := by
  induction entries with
  | nil => rfl
  | cons e entries ih =>
    by_cases hzero : e.amount = 0
    · have hshare : signedShare p asset e = 0 := by
        cases hdir : e.direction <;> simp [signedShare, Entry.signedAmount, hdir, hzero]
      rw [List.filter_cons_of_neg (by simpa using hzero), ih, signedTotal_cons, hshare, zero_add]
    · rw [List.filter_cons_of_pos (by simpa using hzero), signedTotal_cons, signedTotal_cons, ih]

end Signed

/-- Balanced, in all and in both tiers, and the clearing tier's fees only grow. -/
structure Tiered (entries : List Entry) : Prop where
  balanced : ∀ asset, residual entries asset = 0
  vault : ∀ asset, signedTotal AccountType.isVault asset entries = 0
  clearing : ∀ asset, signedTotal AccountType.isClearing asset entries = 0
  fees : ∀ asset, signedTotal (· = .houseTradingFees) asset entries ≤ 0

theorem Tiered.nil : Tiered [] := ⟨fun _ => rfl, fun _ => rfl, fun _ => rfl, fun _ => Int.le_refl _⟩

theorem Tiered.append {entries' : List Entry} (h : Tiered entries) (h' : Tiered entries') :
    Tiered (entries ++ entries') where
  balanced asset := by
    rw [residual, List.filter_append, List.map_append, List.sum_append]
    change residual entries asset + residual entries' asset = 0
    rw [h.balanced, h'.balanced, add_zero]
  vault asset := by rw [signedTotal_append, h.vault, h'.vault, add_zero]
  clearing asset := by rw [signedTotal_append, h.clearing, h'.clearing, add_zero]
  fees asset := by
    rw [signedTotal_append]
    exact Int.add_nonpos (h.fees asset) (h'.fees asset)

theorem Tiered.followed {e e' : Entry} (h : Tiered [e, e'])
    (h' : Tiered entries) : Tiered (e :: e' :: entries) := h.append h'

variable {source target : AccountRef}

/-- From one account to another of its tier. -/
theorem Tiered.move (asset : AssetKey) (amount : Int)
    (hvault : source.type.isVault = target.type.isVault)
    (hclearing : source.type.isClearing = target.type.isClearing)
    (hsource : decide (source.type = .houseTradingFees) = false)
    (htarget : decide (target.type = .houseTradingFees) = false)
    (hasset : source.asset = target.asset) :
    Tiered [debit source asset amount, credit target asset amount] := by
  refine ⟨fun x => ?_, fun x => ?_, fun x => ?_, fun x => ?_⟩
  · by_cases hx : asset = x <;> simp [residual, debit, credit, Entry.signedAmount, hx]
  · by_cases hx : target.type.isVault = true ∧ target.asset = x <;> simp [hvault, hasset, hx]
  · by_cases hx : target.type.isClearing = true ∧ target.asset = x <;> simp [hclearing, hasset, hx]
  · rw [decide_eq_false_iff_not] at hsource htarget
    simp [hsource, htarget]

theorem houseFeeLegs_tiered (feeAsset : AssetKey) (networkFee : Int) :
    Tiered (houseFeeLegs feeAsset networkFee) := by
  unfold houseFeeLegs
  split
  · exact .nil
  · exact .move _ _ rfl rfl rfl rfl rfl

variable {t : LedgerTransaction}

variable {what : String} {asset : AssetKey} {amount : Int}

theorem postFee_tiered {referenceType reference : String}
    (h : postFee what referenceType reference source target asset amount = .ok t)
    (hlegs : Tiered [debit source asset amount, credit target asset amount]) : Tiered t.entries := by
  simp only [postFee, bind_eq_ok] at h
  obtain ⟨-, -, h⟩ := h
  obtain rfl := buildTransaction_eq h
  exact hlegs

theorem postMove_tiered {withdrawalId : String}
    (h : postMove kind what withdrawalId source target asset amount = .ok t)
    (hlegs : Tiered [debit source asset amount, credit target asset amount]) : Tiered t.entries := by
  simp only [postMove, bind_eq_ok] at h
  obtain ⟨-, -, h⟩ := h
  obtain rfl := buildTransaction_eq h
  exact hlegs

theorem postOut_tiered {feeReason withdrawalId : String}
    {legs : List Entry} {networkFee : Int} {feeAsset : AssetKey}
    (h : postOut kind what feeReason withdrawalId legs amount feeAsset networkFee = .ok t)
    (hlegs : Tiered legs) : Tiered t.entries := by
  simp only [postOut, bind_eq_ok] at h
  obtain ⟨-, -, -, -, h⟩ := h
  obtain rfl := buildTransaction_eq h
  exact hlegs.append (houseFeeLegs_tiered feeAsset networkFee)

variable {userId : UserId}

theorem postDeposit_tiered {depositId : String} {rent : Int}
    (h : postDeposit depositId userId asset amount rent = .ok t) : Tiered t.entries := by
  simp only [postDeposit, bind_eq_ok] at h
  obtain ⟨-, -, -, -, -, -, -, -, h⟩ := h
  have hbalanced := buildTransaction_balanced h
  obtain rfl := buildTransaction_eq h
  refine ⟨hbalanced, fun x => ?_, fun x => ?_, fun x => ?_⟩
  · rw [signedTotal_cons, signedTotal_filter]
    by_cases hx : asset = x <;>
      simp [AccountType.isVault, chainAssets, userCustodyAvailable, houseRent, hx]
    omega
  · rw [signedTotal_cons, signedTotal_filter]
    simp [AccountType.isClearing, chainAssets, userCustodyAvailable, houseRent]
  · rw [signedTotal_cons, signedTotal_filter]
    simp [chainAssets, userCustodyAvailable, houseRent]

theorem postOrderHold_tiered {orderId : String}
    (h : postOrderHold orderId userId asset amount = .ok t) : Tiered t.entries := by
  simp only [postOrderHold, bind_eq_ok] at h
  obtain ⟨-, -, h⟩ := h
  obtain rfl := buildTransaction_eq h
  exact .move _ _ rfl rfl rfl rfl rfl

theorem postOrderRelease_tiered {orderId : String}
    (h : postOrderRelease orderId userId asset amount = .ok t) : Tiered t.entries := by
  simp only [postOrderRelease, bind_eq_ok] at h
  obtain ⟨-, -, h⟩ := h
  obtain rfl := buildTransaction_eq h
  exact .move _ _ rfl rfl rfl rfl rfl

theorem postTradeSettlement_tiered {input : TradeSettlementPosting}
    (h : postTradeSettlement input = .ok t) : Tiered t.entries := by
  simp only [postTradeSettlement, bind_eq_ok, refuse_eq_ok] at h
  obtain ⟨-, -, -, -, -, hbuyer, -, hseller, -, -, -, -, h⟩ := h
  have hbalanced := buildTransaction_balanced h
  obtain rfl := buildTransaction_eq h
  refine ⟨hbalanced, fun x => ?_, fun x => ?_, fun x => ?_⟩
  · rw [signedTotal_filter]
    simp [TradeSettlementPosting.legs, AccountType.isVault, userOrderLocked, userTradingAvailable,
      houseTradingFees]
  · rw [signedTotal_filter]
    by_cases hquote : input.quoteAsset = x <;> by_cases hbase : input.baseAsset = x <;>
      simp [TradeSettlementPosting.legs, AccountType.isClearing, userOrderLocked, userTradingAvailable,
        houseTradingFees, hquote, hbase] <;> omega
  · rw [signedTotal_filter]
    by_cases hquote : input.quoteAsset = x <;>
      simp [TradeSettlementPosting.legs, userOrderLocked, userTradingAvailable, houseTradingFees, hquote]
    omega

/-- **Every posting is balanced within each tier.** -/
theorem post_tiered {m : Movement} (h : m.post = .ok t) : Tiered t.entries := by
  cases m with
  | deposit => exact postDeposit_tiered h
  | withdrawalLock | withdrawalRelease | tradingLock | tradingRelease =>
    exact postMove_tiered h (.move _ _ rfl rfl rfl rfl rfl)
  | houseFunding | nonceAccountRent | tokenAccountRent | sweepFee =>
    exact postFee_tiered h (.move _ _ rfl rfl rfl rfl rfl)
  | orderHold => exact postOrderHold_tiered h
  | orderRelease => exact postOrderRelease_tiered h
  | withdrawalSettlement =>
    exact postOut_tiered h (.move _ _ rfl rfl rfl rfl rfl)
  | allocation | deallocation =>
    refine postOut_tiered h (.followed ?_ ?_)
    · exact .move _ _ rfl rfl rfl rfl rfl
    · exact .move _ _ rfl rfl rfl rfl rfl
  | tradeSettlement => exact postTradeSettlement_tiered h

/-! ## The ledger -/

/-- The amounts of an asset on one side. -/
def turnover (direction : Direction) (asset : AssetKey) (entries : List Entry) : Int :=
  ((entries.filter fun e => e.asset = asset ∧ e.direction = direction).map (·.amount)).sum

def entriesOf (ledger : List LedgerTransaction) : List Entry := ledger.flatMap (·.entries)

theorem entriesOf_tiered {ledger : List LedgerTransaction}
    (h : ∀ t ∈ ledger, ∃ m : Movement, m.post = .ok t) : Tiered (entriesOf ledger) := by
  induction ledger with
  | nil => exact .nil
  | cons t ledger ih =>
    obtain ⟨m, hm⟩ := h t (by simp)
    exact (post_tiered hm).append (ih fun u hu => h u (List.mem_cons_of_mem _ hu))

theorem total_cons (p : AccountType → Bool) (asset : AssetKey) (e : Entry) (entries : List Entry) :
    total p asset (e :: entries) = share p asset ⟨e.account, e.signedAmount⟩ + total p asset entries := rfl

/-- The vault's totals, each in its own sign, are its debit-positive sum. -/
theorem vault_split (asset : AssetKey) (entries : List Entry) :
    signedTotal AccountType.isVault asset entries =
      total (bucketOf · = some .chain) asset entries - total (bucketOf · = some .rent) asset entries -
        total (bucketOf · = some .custody) asset entries - total (· = .houseFees) asset entries := by
  induction entries with
  | nil => rfl
  | cons e entries ih =>
    have hshare : signedShare AccountType.isVault asset e =
        share (bucketOf · = some .chain) asset ⟨e.account, e.signedAmount⟩ -
          share (bucketOf · = some .rent) asset ⟨e.account, e.signedAmount⟩ -
          share (bucketOf · = some .custody) asset ⟨e.account, e.signedAmount⟩ -
          share (· = .houseFees) asset ⟨e.account, e.signedAmount⟩ := by
      by_cases hasset : e.account.asset = asset
      · cases htype : e.account.type <;>
          simp [signedShare, share, hasset, htype, AccountType.isVault, bucketOf, normalBalance,
            AccountType.accountClass, AccountType.isCustodyAccount, AccountType.isTradingAccount]
      · simp [signedShare, share, hasset]
    simp only [total_cons, signedTotal_cons, ih, hshare]
    omega

/-- And the clearing tier's. -/
theorem clearing_split (asset : AssetKey) (entries : List Entry) :
    signedTotal AccountType.isClearing asset entries =
      total (bucketOf · = some .clearing) asset entries - total (bucketOf · = some .trading) asset entries -
        total (· = .houseTradingFees) asset entries := by
  induction entries with
  | nil => rfl
  | cons e entries ih =>
    have hshare : signedShare AccountType.isClearing asset e =
        share (bucketOf · = some .clearing) asset ⟨e.account, e.signedAmount⟩ -
          share (bucketOf · = some .trading) asset ⟨e.account, e.signedAmount⟩ -
          share (· = .houseTradingFees) asset ⟨e.account, e.signedAmount⟩ := by
      by_cases hasset : e.account.asset = asset
      · cases htype : e.account.type <;>
          simp [signedShare, share, hasset, htype, AccountType.isClearing, bucketOf, normalBalance,
            AccountType.accountClass, AccountType.isCustodyAccount, AccountType.isTradingAccount]
      · simp [signedShare, share, hasset]
    simp only [total_cons, signedTotal_cons, ih, hshare]
    omega

theorem total_houseTradingFees (asset : AssetKey) (entries : List Entry) :
    total (· = .houseTradingFees) asset entries = -signedTotal (· = .houseTradingFees) asset entries := by
  induction entries with
  | nil => rfl
  | cons e entries ih =>
    have hshare : share (· = .houseTradingFees) asset ⟨e.account, e.signedAmount⟩ =
        -signedShare (· = .houseTradingFees) asset e := by
      by_cases hcounts : e.account.type = .houseTradingFees ∧ e.account.asset = asset
      · simp [share, signedShare, hcounts, normalBalance, AccountType.accountClass]
      · simp [share, signedShare, hcounts]
    rw [total_cons, signedTotal_cons, ih, hshare]
    omega

theorem residual_eq (asset : AssetKey) (entries : List Entry) :
    residual entries asset = turnover .debit asset entries - turnover .credit asset entries := by
  induction entries with
  | nil => rfl
  | cons e entries ih =>
    unfold residual turnover at ih ⊢
    by_cases hasset : e.asset = asset
    · cases hdir : e.direction <;> simp [hasset, hdir, Entry.signedAmount, ih] <;> omega
    · simp [hasset, ih]

/-- The buckets of the check are the account types it says. -/
theorem bucketOf_types :
    (fun type => decide (bucketOf type = some .custody)) = AccountType.isCustodyAccount ∧
    (fun type => decide (bucketOf type = some .trading)) = AccountType.isTradingAccount ∧
    (fun type => decide (bucketOf type = some .chain)) = (· = AccountType.chainAssets) ∧
    (fun type => decide (bucketOf type = some .clearing)) = (· = AccountType.clearingAssets) ∧
    (fun type => decide (bucketOf type = some .rent)) = (· = AccountType.houseRent) := by
  refine ⟨?_, ?_, ?_, ?_, ?_⟩ <;> funext type <;> cases type <;> rfl

/-- Whatever movements the ledger is made of: its books balance, what backs a tier less what is owed
there is what the house has in it, and the check fires in the vault tier alone, when the prepaid fees
are overdrawn. The check is right for assets as `ledgerAssetKey` builds them; the equations hold for
any. -/
theorem tier_equations {movements : List Movement} {ledger : List LedgerTransaction}
    (hposted : movements.mapM Movement.post = .ok ledger) :
    (∀ asset,
      turnover .debit asset (entriesOf ledger) = turnover .credit asset (entriesOf ledger) ∧
      total (· = .chainAssets) asset (entriesOf ledger) - total (· = .houseRent) asset (entriesOf ledger) -
          total AccountType.isCustodyAccount asset (entriesOf ledger) =
        total (· = .houseFees) asset (entriesOf ledger) ∧
      total (· = .clearingAssets) asset (entriesOf ledger) -
          total AccountType.isTradingAccount asset (entriesOf ledger) =
        total (· = .houseTradingFees) asset (entriesOf ledger) ∧
      0 ≤ total (· = .houseTradingFees) asset (entriesOf ledger)) ∧
    ((∀ e ∈ entriesOf ledger, e.account.asset.Plain) →
      (∀ asset, (∃ e ∈ entriesOf ledger, e.account.type.isCustodyAccount = true ∧ e.account.asset = asset) →
        ((∃ v ∈ checkLiabilitiesCovered (entriesOf ledger), v.tier = .custody ∧ v.asset = asset) ↔
          total (· = .houseFees) asset (entriesOf ledger) < 0)) ∧
      ∀ v ∈ checkLiabilitiesCovered (entriesOf ledger), v.tier ≠ .clearing) := by
  have htiered : Tiered (entriesOf ledger) := entriesOf_tiered fun t ht => by
    obtain ⟨m, -, hm⟩ := Lib.mem_of_mapM_eq_ok hposted t ht
    exact ⟨m, hm⟩
  have hvault := fun asset => (vault_split asset (entriesOf ledger)).symm.trans (htiered.vault asset)
  have hclearing := fun asset => (clearing_split asset (entriesOf ledger)).symm.trans (htiered.clearing asset)
  have hfees : ∀ asset, 0 ≤ total (· = .houseTradingFees) asset (entriesOf ledger) := fun asset => by
    rw [total_houseTradingFees]
    have := htiered.fees asset
    omega
  obtain ⟨hcustody, htrading, hchain, hclear, hrent⟩ := bucketOf_types
  simp only [hcustody, htrading, hchain, hclear, hrent] at hvault hclearing
  refine ⟨fun asset => ⟨?_, ?_, ?_, hfees asset⟩, fun hplain => ⟨fun asset hasset => ?_, fun v hv htier => ?_⟩⟩
  · have hbalanced := htiered.balanced asset
    rw [residual_eq] at hbalanced
    omega
  · have := hvault asset
    omega
  · have := hclearing asset
    omega
  · have hiff := custody_violation_iff hplain hasset
    have := hvault asset
    simp only [hcustody, hchain, hrent] at hiff
    rw [hiff]
    omega
  · have hover := clearing_violation hplain hv htier
    simp only [htrading, hclear] at hover
    have := hclearing v.asset
    have := hfees v.asset
    omega

def devnetSol : AssetKey := ⟨"devnet", "SOL"⟩

/-- Alice withdraws; the house pays a network fee it has not funded. -/
def unfunded : List Movement :=
  [.deposit "d1" "alice" devnetSol 100 0, .withdrawalLock "w1" "alice" devnetSol 40,
    .withdrawalSettlement "w1" "alice" devnetSol 40 devnetSol 5]

theorem tier_equations_unfunded : ∃ ledger, unfunded.mapM Movement.post = .ok ledger ∧
    ∃ v ∈ checkLiabilitiesCovered (entriesOf ledger), v.tier = .custody ∧ v.asset = devnetSol := by
  refine ⟨_, rfl, ?_⟩
  refine (((@tier_equations unfunded _ rfl).2 ?_).1 devnetSol ?_).2 ?_
  · decide +kernel
  · decide +kernel
  · decide +kernel

/-- A colon in an asset: the custody accounts of `u` and of `u:devnet` have one text, and so have their
chain accounts. The first are filed under the asset of `u`, who came last, the others under that of
`u:devnet`, whose token account was paid for later; so the check misses what backs the first. -/
theorem filed_together : ∃ ledger, List.mapM Movement.post
    [.deposit "d1" "u:devnet" devnetSol 100 0, .deposit "d2" "u" ⟨"devnet", "devnet:SOL"⟩ 50 0,
      .tokenAccountRent "r1" "u:devnet" devnetSol 1] = .ok ledger ∧
    (∃ e ∈ entriesOf ledger, e.account.type.isCustodyAccount = true ∧
      e.account.asset = ⟨"devnet", "devnet:SOL"⟩) ∧
    (∃ v ∈ checkLiabilitiesCovered (entriesOf ledger),
      v.tier = .custody ∧ v.asset = ⟨"devnet", "devnet:SOL"⟩) ∧
    total (· = .houseFees) ⟨"devnet", "devnet:SOL"⟩ (entriesOf ledger) = 0 :=
  ⟨_, rfl, by decide +kernel, by decide +kernel, by decide +kernel⟩

end AtlasCex.Ledger

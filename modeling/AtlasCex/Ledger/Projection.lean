import AtlasCex.Lib.Buckets
import AtlasCex.Lib.Fields
import AtlasCex.Lib.Selection
import AtlasCex.Ledger.Custody
/-!
# Projections over entries

| here | there |
| --- | --- |
| `AccountClass`, `AccountType.accountClass`, `isCustodyAccount`, `isTradingAccount` | `ledger/src/accounts.ts:110-189` |
| `accountKey` | `ledger/src/accounts.ts:201-203` |
| `normalBalance`, `projectAll`, `checkLiabilitiesCovered` | `ledger/src/projection.ts:48-59`, `:174-272` |
| `AssetKey.Plain` | what `ledgerAssetKey` returns (`types/src/clusters.ts:23-59`) |

`projectAll` files an entry under the text of its account. The text does not fix the account when an
asset has a colon in it: a cluster name that ends the owner may as well begin the asset.
`parseLedgerAssetKey` lets such an asset through and `ledgerAssetKey` does not make one; without it the
text fixes the type and the asset (`accountKey_fixes`).
-/
namespace AtlasCex.Ledger
open List

inductive AccountClass where
  | asset
  | liability
  | equity
  | contra
deriving DecidableEq, Repr

namespace AccountType

def accountClass : AccountType → AccountClass
  | userCustodyAvailable | userCustodyLocked | userTradingAvailable | userOrderLocked
  | userTradingLocked => .liability
  | clearingAssets | chainAssets => .asset
  | houseTradingFees | houseFees | houseRent => .equity
  | external => .contra

def isCustodyAccount : AccountType → Bool
  | userCustodyAvailable | userCustodyLocked => true
  | _ => false

def isTradingAccount : AccountType → Bool
  | userTradingAvailable | userOrderLocked | userTradingLocked => true
  | _ => false

def text : AccountType → String
  | userCustodyAvailable => "user_custody_available"
  | userCustodyLocked => "user_custody_locked"
  | userTradingAvailable => "user_trading_available"
  | userOrderLocked => "user_order_locked"
  | userTradingLocked => "user_trading_locked"
  | clearingAssets => "clearing_assets"
  | houseTradingFees => "house_trading_fees"
  | chainAssets => "chain_assets"
  | houseFees => "house_fees"
  | houseRent => "house_rent"
  | external => "external"

end AccountType

/-- The asset as the source writes it. -/
def AssetKey.text (asset : AssetKey) : String := asset.cluster ++ ":" ++ asset.asset

def accountKey (ref : AccountRef) : String :=
  ref.type.text ++ ":" ++ ref.ownerId.getD "-" ++ ":" ++ ref.asset.text

/-- A debit-positive balance in the account's own sign. -/
def normalBalance (type : AccountType) (balance : Int) : Int :=
  if type.accountClass = .asset then balance else -balance

structure AccountBalance where
  account : AccountRef
  balance : Int
deriving DecidableEq, Repr

/-- An account's balance with one more entry; the account is the entry's. -/
def addEntry (existing : Option AccountBalance) (entry : Entry) : AccountBalance :=
  ⟨entry.account, (existing.map AccountBalance.balance).getD 0 + entry.signedAmount⟩

def projectAll (entries : List Entry) : List (String × AccountBalance) :=
  Lib.group (fun entry => accountKey entry.account) addEntry entries

/-! ## `checkLiabilitiesCovered` -/

/-- The five maps of the check. -/
inductive Bucket where
  | custody
  | trading
  | chain
  | clearing
  | rent
deriving DecidableEq, Repr

/-- The map an account is added to. -/
def bucketOf (type : AccountType) : Option Bucket :=
  if type.isCustodyAccount then some .custody
  else if type.isTradingAccount then some .trading
  else if type = .chainAssets then some .chain
  else if type = .clearingAssets then some .clearing
  else if type = .houseRent then some .rent
  else none

/-- One turn of the loop over the projected accounts. -/
def addBucket (maps : Bucket → List (AssetKey × Int)) (projected : AccountBalance) :
    Bucket → List (AssetKey × Int) :=
  match bucketOf projected.account.type with
  | some bucket => Function.update maps bucket
      (Lib.upsert projected.account.asset
        (·.getD 0 + normalBalance projected.account.type projected.balance) (maps bucket))
  | none => maps

def buckets (entries : List Entry) : Bucket → List (AssetKey × Int) :=
  ((projectAll entries).map (·.2)).foldl addBucket fun _ => []

inductive Tier where
  | custody
  | clearing
deriving DecidableEq, Repr

/-- The `detail` of a `liabilities_covered` violation; `held` is `chainAssets` or `clearingAssets`. -/
structure InvariantViolation where
  tier : Tier
  asset : AssetKey
  liabilities : Int
  held : Int
  rent : Option Int
  shortfall : Int
deriving DecidableEq, Repr

def checkLiabilitiesCovered (entries : List Entry) : List InvariantViolation :=
  let maps := buckets entries
  ((maps .custody).filterMap fun (asset, owed) =>
    let held := ((maps .chain).lookup asset).getD 0
    let immobilised := ((maps .rent).lookup asset).getD 0
    let spendable := held - immobilised
    if owed > spendable then
      some ⟨.custody, asset, owed, held, some immobilised, owed - spendable⟩
    else none) ++
  (maps .trading).filterMap fun (asset, owed) =>
    let held := ((maps .clearing).lookup asset).getD 0
    if owed > held then some ⟨.clearing, asset, owed, held, none, owed - held⟩ else none

/-! ## What the text of an account fixes -/

def clusters : List String := ["localnet", "devnet", "testnet", "mainnet-beta"]

/-- As `ledgerAssetKey` builds it: one of the clusters, and no separator in the asset. -/
def AssetKey.Plain (asset : AssetKey) : Prop :=
  asset.cluster ∈ clusters ∧ ':' ∉ asset.asset.toList

instance (asset : AssetKey) : Decidable asset.Plain := inferInstanceAs (Decidable (_ ∧ _))

theorem cluster_plain {cluster : String} (h : cluster ∈ clusters) : ':' ∉ cluster.toList := by
  revert cluster
  decide

theorem AccountType.text_plain (type : AccountType) : ':' ∉ type.text.toList := by
  cases type <;> decide

theorem AccountType.text_injective {a b : AccountType} (h : a.text = b.text) : a = b := by
  revert h
  cases a <;> cases b <;> decide

theorem toList_accountKey (ref : AccountRef) : (accountKey ref).toList =
    ref.type.text.toList ++ ':' :: (((ref.ownerId.getD "-").toList ++ ':' :: ref.asset.cluster.toList) ++
      ':' :: ref.asset.asset.toList) := by
  simp [accountKey, AssetKey.text, String.toList_append]

/-- From the left the text is read up to the owner, from the right up to the cluster. -/
theorem accountKey_fixes {a b : AccountRef} (ha : a.asset.Plain) (hb : b.asset.Plain)
    (h : accountKey a = accountKey b) : a.type = b.type ∧ a.asset = b.asset := by
  have htext := congrArg String.toList h
  rw [toList_accountKey, toList_accountKey] at htext
  obtain ⟨htype, hrest⟩ := Lib.first_field a.type.text_plain b.type.text_plain htext
  obtain ⟨howner, hasset⟩ := Lib.last_field ha.2 hb.2 hrest
  obtain ⟨-, hcluster⟩ := Lib.last_field (cluster_plain ha.1) (cluster_plain hb.1) howner
  refine ⟨AccountType.text_injective (String.toList_injective htype), ?_⟩
  cases hA : a.asset
  cases hB : b.asset
  rw [hA, hB] at hcluster hasset
  rw [AssetKey.mk.injEq]
  exact ⟨String.toList_injective hcluster, String.toList_injective hasset⟩

/-! ## What the check adds up -/

/-- What a projected account adds to the total of the asset over the types in `p`, in its own sign. -/
def share (p : AccountType → Bool) (asset : AssetKey) (projected : AccountBalance) : Int :=
  if p projected.account.type ∧ projected.account.asset = asset then
    normalBalance projected.account.type projected.balance
  else 0

/-- The accounts of the asset whose type is in `p`, each in its own sign, over all owners. -/
def total (p : AccountType → Bool) (asset : AssetKey) (entries : List Entry) : Int :=
  (entries.map fun e => share p asset ⟨e.account, e.signedAmount⟩).sum

theorem normalBalance_add (type : AccountType) (a b : Int) :
    normalBalance type (a + b) = normalBalance type a + normalBalance type b := by
  unfold normalBalance
  split <;> omega

theorem buckets_eq (entries : List Entry) (bucket : Bucket) :
    buckets entries bucket = Lib.tally (·.account.asset)
      (fun projected => normalBalance projected.account.type projected.balance)
      (((projectAll entries).map (·.2)).filter (bucketOf ·.account.type = some bucket)) := by
  unfold buckets
  generalize (projectAll entries).map (·.2) = projected
  induction projected using List.reverseRecOn with
  | nil => rfl
  | append_singleton projected last ih =>
    rw [foldl_append, filter_append, foldl_cons, foldl_nil, addBucket]
    cases htarget : bucketOf last.account.type with
    | none => simp [ih, htarget]
    | some target =>
      by_cases h : bucket = target
      · subst h
        dsimp only
        rw [Function.update_self, ih, filter_cons_of_pos (by simpa using htarget),
          filter_nil, Lib.tally_concat]
      · have hne : ¬ bucketOf last.account.type = some bucket := by
          rw [htarget, Option.some_inj]
          exact Ne.symm h
        simp [Function.update_of_ne h, ih, hne]

/-- A projected account is one of the entries' under its text. -/
theorem account_of_lookup {entries : List Entry} {k : String} {v : AccountBalance}
    (h : (projectAll entries).lookup k = some v) :
    ∃ e ∈ entries, accountKey e.account = k ∧ v.account = e.account := by
  unfold projectAll at h
  exact Lib.group_forall (P := fun k v => ∃ e ∈ entries, accountKey e.account = k ∧ v.account = e.account)
    (fun e he => ⟨e, he, rfl, rfl⟩) (fun e he _ _ => ⟨e, he, rfl, rfl⟩) h

section Check
variable {entries : List Entry} (hplain : ∀ e ∈ entries, e.account.asset.Plain)
include hplain

/-- The projected accounts add up to the entries. -/
theorem sum_projectAll (p : AccountType → Bool) (asset : AssetKey) :
    (((projectAll entries).map Prod.snd).map (share p asset)).sum = total p asset entries := by
  refine Lib.sum_group (fun k v => ∃ e ∈ entries, accountKey e.account = k ∧ v.account = e.account)
    (fun e he => ⟨⟨e, he, rfl, rfl⟩, by simp [addEntry]⟩) fun e he v hv => ⟨⟨e, he, rfl, rfl⟩, ?_⟩
  -- the account filed under this text so far agrees with the entry's on type and asset
  obtain ⟨e', he', hkey, haccount⟩ := hv
  obtain ⟨htype, hasset⟩ := accountKey_fixes (hplain e' he') (hplain e he) hkey
  by_cases hcounts : p e.account.type = true ∧ e.account.asset = asset
  · simp [addEntry, share, haccount, htype, hasset, hcounts, normalBalance_add]
  · simp [addEntry, share, haccount, htype, hasset, hcounts]

/-- The check's map holds the totals of its bucket. -/
theorem lookup_buckets (bucket : Bucket) (asset : AssetKey) :
    ((buckets entries bucket).lookup asset).getD 0 =
      total (bucketOf · = some bucket) asset entries := by
  rw [← sum_projectAll hplain, buckets_eq, Lib.getD_lookup_tally, filter_filter]
  generalize (projectAll entries).map Prod.snd = projected
  rw [← Lib.sum_map_ite]
  congr 1
  apply map_congr_left
  intro v _
  simp only [share, Bool.and_eq_true, decide_eq_true_eq, and_comm]

/-- Every account with an entry is projected, up to its owner. -/
theorem exists_projected {e : Entry} (he : e ∈ entries) : ∃ v ∈ (projectAll entries).map Prod.snd,
    v.account.type = e.account.type ∧ v.account.asset = e.account.asset := by
  obtain ⟨v, hv⟩ := Lib.exists_group (fun entry => accountKey entry.account) addEntry he
  obtain ⟨e', he', hkey, haccount⟩ := account_of_lookup hv
  refine ⟨v, mem_map_of_mem (Lib.mem_of_lookup hv), ?_⟩
  rw [haccount]
  exact accountKey_fixes (hplain e' he') (hplain e he) hkey

/-- A map's pairs are the totals of the assets its bucket has an account of. -/
theorem mem_buckets {bucket : Bucket} {asset : AssetKey} {owed : Int} :
    (asset, owed) ∈ buckets entries bucket →
      owed = total (bucketOf · = some bucket) asset entries := by
  intro hmem
  have hnodup : ((buckets entries bucket).map Prod.fst).Nodup := by
    rw [buckets_eq]
    exact Lib.nodup_group _
  rw [← lookup_buckets hplain, Lib.lookup_of_mem hnodup hmem, Option.getD_some]

theorem exists_mem_buckets {bucket : Bucket} {e : Entry} (he : e ∈ entries)
    (hbucket : bucketOf e.account.type = some bucket) :
    ∃ owed, (e.account.asset, owed) ∈ buckets entries bucket := by
  obtain ⟨v, hv, htype, hasset⟩ := exists_projected hplain he
  have hmem : v ∈ ((projectAll entries).map Prod.snd).filter (bucketOf ·.account.type = some bucket) := by
    refine mem_filter.2 ⟨hv, ?_⟩
    rw [htype, hbucket]
    exact decide_eq_true rfl
  rw [buckets_eq, ← hasset]
  obtain ⟨owed, howed⟩ := Lib.exists_group (fun projected => projected.account.asset)
    (fun total projected => total.getD 0 + normalBalance projected.account.type projected.balance) hmem
  exact ⟨owed, Lib.mem_of_lookup howed⟩

/-- **The check**: a custody violation for an asset with a custody account is a total of custody
liabilities over what is spendable. -/
theorem custody_violation_iff {asset : AssetKey}
    (hcustody : ∃ e ∈ entries, e.account.type.isCustodyAccount = true ∧ e.account.asset = asset) :
    (∃ v ∈ checkLiabilitiesCovered entries, v.tier = .custody ∧ v.asset = asset) ↔
      total (bucketOf · = some .custody) asset entries >
        total (bucketOf · = some .chain) asset entries - total (bucketOf · = some .rent) asset entries := by
  simp only [checkLiabilitiesCovered, lookup_buckets hplain]
  constructor
  · rintro ⟨v, hv, htier, rfl⟩
    obtain hv | hv := mem_append.1 hv
    · obtain ⟨⟨asset, owed⟩, hmem, hsome⟩ := mem_filterMap.1 hv
      obtain ⟨hover, heq⟩ := Option.ite_none_right_eq_some.1 hsome
      cases heq
      rwa [mem_buckets hplain hmem] at hover
    · obtain ⟨⟨asset, owed⟩, hmem, hsome⟩ := mem_filterMap.1 hv
      obtain ⟨-, heq⟩ := Option.ite_none_right_eq_some.1 hsome
      cases heq
      cases htier
  · intro hover
    obtain ⟨e, he, htype, rfl⟩ := hcustody
    have hbucket : bucketOf e.account.type = some .custody := if_pos htype
    obtain ⟨owed, hmem⟩ := exists_mem_buckets hplain he hbucket
    rw [← mem_buckets hplain hmem] at hover
    exact ⟨_, mem_append_left _ (mem_filterMap.2 ⟨_, hmem, if_pos hover⟩), rfl, rfl⟩

theorem clearing_violation {v : InvariantViolation} (hv : v ∈ checkLiabilitiesCovered entries)
    (htier : v.tier = .clearing) : total (bucketOf · = some .trading) v.asset entries >
      total (bucketOf · = some .clearing) v.asset entries := by
  simp only [checkLiabilitiesCovered, lookup_buckets hplain] at hv
  obtain hv | hv := mem_append.1 hv
  · obtain ⟨⟨asset, owed⟩, -, hsome⟩ := mem_filterMap.1 hv
    obtain ⟨-, heq⟩ := Option.ite_none_right_eq_some.1 hsome
    cases heq
    cases htier
  · obtain ⟨⟨asset, owed⟩, hmem, hsome⟩ := mem_filterMap.1 hv
    obtain ⟨hover, heq⟩ := Option.ite_none_right_eq_some.1 hsome
    cases heq
    rwa [mem_buckets hplain hmem] at hover

end Check

end AtlasCex.Ledger

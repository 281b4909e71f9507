import AtlasCex.Ledger.Postings
import Mathlib.Data.List.Nodup
/-!
# Transactions of the chain, and the transfers the adapter reads out of them

| here | there |
| --- | --- |
| `Executed`      | a transaction as the chain settled it: exact balances, before and after |
| `Carries`       | what moved: **the specification**, one transfer for each account that ends with more |
| `toNumber`      | a JSON integer as `JSON.parse` reads it: the nearest double, ties to even |
| `ParsedTransaction` | the answer of `getParsedTransaction`: lamports as numbers, token amounts as strings |
| `parseTransfers`      | `solana/src/transfers.ts:71-126` |
| `parseTokenTransfers` | `solana/src/token.ts:94-154` |
| `TransferEvent` | `blockchain`; the sender, the fee payer and the decimals are for display and left out |

`Executed` carries what the chain guarantees of a transaction: account keys are distinct, an account
has at most one token balance, and only token accounts have one. `tokenAccount` says which addresses
those are. An address whose key the wallet derived is not one of them, since an account is made a token
account only under its own signature.
-/
namespace AtlasCex.Deposits

open Ledger (AssetKey)

abbrev Address := String
abbrev Signature := String

inductive Cluster where
  | localnet
  | devnet
  | testnet
  | mainnetBeta
deriving DecidableEq, Repr

def Cluster.name : Cluster → String
  | localnet => "localnet"
  | devnet => "devnet"
  | testnet => "testnet"
  | mainnetBeta => "mainnet-beta"

def solanaChainId (cluster : Cluster) : String := "solana:" ++ cluster.name

theorem solanaChainId_inj {a b : Cluster} (h : solanaChainId a = solanaChainId b) : a = b := by
  cases a <;> cases b <;> first | rfl | exact absurd h (by decide)

def ledgerAssetKey (cluster : Cluster) (asset : String) : AssetKey := ⟨cluster.name, asset⟩

def nativeAssetKey (cluster : Cluster) : AssetKey := ledgerAssetKey cluster "SOL"

def tokenProgramId : String := "TokenkegQfeZyiNwAJbNbGKPFXCWuBvf9Ss623VQ5DA"

/-! ## The chain -/

structure TokenBalance where
  accountIndex : Nat
  mint : String
  owner : Option Address
  programId : Option String
  amount : Nat
deriving DecidableEq, Repr

/-- The canonical token program, or one that is not named. -/
def TokenBalance.ours (entry : TokenBalance) : Bool := entry.programId.all (· = tokenProgramId)

structure Executed (tokenAccount : Address → Bool) where
  slot : Nat
  accountKeys : List Address
  failed : Bool
  preBalances : List Nat
  postBalances : List Nat
  preTokenBalances : List TokenBalance
  postTokenBalances : List TokenBalance
  distinct : accountKeys.Nodup
  same : preBalances.length = postBalances.length
  single : (postTokenBalances.map (·.accountIndex)).Nodup
  tokens : ∀ entry ∈ postTokenBalances, ∀ address ∈ accountKeys[entry.accountIndex]?,
    tokenAccount address = true
deriving DecidableEq

/-- What was in a token account before: `new Map` keeps the last entry of a key. -/
def priorAmount (pre : List TokenBalance) (index : Nat) : Nat :=
  ((pre.reverse.find? (·.accountIndex = index)).map (·.amount)).getD 0

structure Transfer where
  /-- The position of the account in the account keys. -/
  index : Nat
  asset : AssetKey
  recipient : Address
  amount : Nat
deriving DecidableEq, Repr

variable {tokenAccount : Address → Bool}

/-- Lamports that arrived at an account. -/
structure CarriesNative (cluster : Cluster) (x : Executed tokenAccount) (transfer : Transfer) :
    Prop where
  success : x.failed = false
  asset : transfer.asset = nativeAssetKey cluster
  account : x.accountKeys[transfer.index]? = some transfer.recipient
  amount : ∃ before after, x.preBalances[transfer.index]? = some before ∧
    x.postBalances[transfer.index]? = some after ∧ before < after ∧
    transfer.amount = after - before

/-- Tokens that arrived at a token account, for its owner. -/
structure CarriesToken (cluster : Cluster) (x : Executed tokenAccount) (transfer : Transfer) :
    Prop where
  success : x.failed = false
  entry : ∃ entry ∈ x.postTokenBalances, entry.ours = true ∧ entry.accountIndex = transfer.index ∧
    entry.owner = some transfer.recipient ∧ transfer.asset = ledgerAssetKey cluster entry.mint ∧
    priorAmount x.preTokenBalances transfer.index < entry.amount ∧
    transfer.amount = entry.amount - priorAmount x.preTokenBalances transfer.index

def Carries (cluster : Cluster) (x : Executed tokenAccount) (transfer : Transfer) : Prop :=
  CarriesNative cluster x transfer ∨ CarriesToken cluster x transfer

variable {a b : Transfer} {cluster : Cluster} {x : Executed tokenAccount}

theorem CarriesNative.unique
    (ha : CarriesNative cluster x a) (hb : CarriesNative cluster x b) (h : a.index = b.index) :
    a = b := by
  obtain ⟨-, haasset, haccount, before, after, hbefore, hafter, -, haamount⟩ := ha
  obtain ⟨-, hbasset, hbaccount, before', after', hbefore', hafter', -, hbamount⟩ := hb
  rw [h] at haccount hbefore hafter
  cases a
  cases b
  simp_all

theorem CarriesToken.unique
    (ha : CarriesToken cluster x a) (hb : CarriesToken cluster x b) (h : a.index = b.index) :
    a = b := by
  obtain ⟨-, e, he, -, heindex, heowner, heasset, -, heamount⟩ := ha
  obtain ⟨-, f, hf, -, hfindex, hfowner, hfasset, -, hfamount⟩ := hb
  obtain rfl : e = f := List.inj_on_of_nodup_map x.single he hf (by rw [heindex, hfindex, h])
  cases a
  cases b
  simp_all

/-- **Two transfers of one transaction to wallet addresses are at two positions.** -/
theorem Carries.unique
    (ha : Carries cluster x a) (hb : Carries cluster x b) (hawallet : tokenAccount a.recipient = false)
    (hbwallet : tokenAccount b.recipient = false) (h : a.index = b.index) : a = b := by
  -- an account with a token balance is a token account, so no native transfer to a wallet is there
  have hmixed : ∀ {n t : Transfer}, CarriesNative cluster x n → CarriesToken cluster x t →
      n.index = t.index → tokenAccount n.recipient = true := by
    rintro n t hn ⟨-, e, he, -, heindex, -⟩ hindex
    refine x.tokens e he n.recipient ?_
    rw [heindex, ← hindex]
    exact hn.account
  obtain ha | ha := ha <;> obtain hb | hb := hb
  · exact ha.unique hb h
  · simp [hmixed ha hb h] at hawallet
  · simp [hmixed hb ha h.symm] at hbwallet
  · exact ha.unique hb h

/-! ## What the RPC answers -/

def toNumber (n : Nat) : Nat :=
  if n ≤ 2 ^ 53 then n
  else
    let ulp := 2 ^ (n.log2 - 52)
    let q := n / ulp
    let r := n % ulp
    if 2 * r < ulp ∨ 2 * r = ulp ∧ q % 2 = 0 then q * ulp else (q + 1) * ulp

theorem toNumber_exact {n : Nat} (h : n ≤ 2 ^ 53) : toNumber n = n := if_pos h

example : toNumber (2 ^ 53 + 1) = 2 ^ 53 := by decide
example : toNumber (2 ^ 53 + 3) = 2 ^ 53 + 4 := by decide

structure Meta where
  err : Bool
  preBalances : List Nat
  postBalances : List Nat
  preTokenBalances : List TokenBalance
  postTokenBalances : List TokenBalance
deriving DecidableEq, Repr

structure ParsedTransaction where
  slot : Nat
  accountKeys : List Address
  info : Option Meta
deriving DecidableEq, Repr

/-- The transaction with its balances as they are read. -/
def Executed.reported (x : Executed tokenAccount) : Executed tokenAccount :=
  { x with
    preBalances := x.preBalances.map toNumber
    postBalances := x.postBalances.map toNumber
    same := by simp [x.same] }

/-- An answer, with or without its metadata. -/
def Executed.parsed (x : Executed tokenAccount) (metadata : Bool) : ParsedTransaction where
  slot := x.slot
  accountKeys := x.accountKeys
  info := if metadata then
      some ⟨x.failed, x.reported.preBalances, x.reported.postBalances, x.preTokenBalances,
        x.postTokenBalances⟩
    else none

/-! ## Events -/

inductive Confirmation where
  | seen
  | probable
  | final
deriving DecidableEq, Repr

structure TransferEvent where
  chain : String
  asset : AssetKey
  amount : Nat
  recipient : Address
  txReference : Signature
  instructionIndex : Nat
  position : Nat
  confirmation : Confirmation
  tokenAccount : Option Address
deriving DecidableEq, Repr

def Transfer.event (transfer : Transfer) (cluster : Cluster) (txReference : Signature) (slot : Nat)
    (tokenAccount : Option Address) : TransferEvent :=
  ⟨solanaChainId cluster, transfer.asset, transfer.amount, transfer.recipient, txReference,
    transfer.index, slot, .final, tokenAccount⟩

def parseTransfers (transaction : ParsedTransaction) (watchedAddresses : List Address)
    (txReference : Signature) (cluster : Cluster) : List TransferEvent :=
  match transaction.info with
  | none => []
  | some info =>
    if info.err = true ∨ info.preBalances.length ≠ info.postBalances.length then []
    else (List.range transaction.accountKeys.length).filterMap fun index => do
      let address ← transaction.accountKeys[index]?
      guard (address ∈ watchedAddresses)
      let before ← info.preBalances[index]?
      let after ← info.postBalances[index]?
      guard (before < after)
      pure ((⟨index, nativeAssetKey cluster, address, after - before⟩ : Transfer).event cluster
        txReference transaction.slot none)

def parseTokenTransfers (transaction : ParsedTransaction) (watchedOwners : List Address)
    (txReference : Signature) (cluster : Cluster) : List TransferEvent :=
  match transaction.info with
  | none => []
  | some info =>
    if info.err = true then []
    else info.postTokenBalances.filterMap fun entry => do
      let owner ← entry.owner
      guard (owner ∈ watchedOwners)
      guard (entry.ours = true)
      let prior := priorAmount info.preTokenBalances entry.accountIndex
      guard (prior < entry.amount)
      pure ((⟨entry.accountIndex, ledgerAssetKey cluster entry.mint, owner, entry.amount - prior⟩ :
        Transfer).event cluster txReference transaction.slot
          (some (transaction.accountKeys[entry.accountIndex]?.getD "")))

/-- The native events are the native transfers, with the amounts as they are read. -/
theorem mem_parseTransfers {watched : List Address} {signature : Signature}
    {event : TransferEvent} :
    event ∈ parseTransfers (x.parsed true) watched signature cluster ↔
      ∃ transfer, CarriesNative cluster x.reported transfer ∧ transfer.recipient ∈ watched ∧
        event = transfer.event cluster signature x.slot none := by
  have hlength : ¬(x.failed = true ∨ x.reported.preBalances.length ≠ x.reported.postBalances.length) ↔
      x.failed = false := by simp [x.reported.same]
  simp only [parseTransfers, Executed.parsed, if_true]
  by_cases hfailed : x.failed = false
  · rw [if_neg (hlength.2 hfailed)]
    simp only [List.mem_filterMap, List.mem_range, Option.bind_eq_bind, Option.bind_eq_some_iff,
      Option.pure_def, Option.some.injEq, Option.guard_eq_some', exists_const]
    constructor
    · rintro ⟨index, -, address, haddress, hwatched, before, hbefore, after, hafter, hlt, rfl⟩
      exact ⟨⟨index, nativeAssetKey cluster, address, after - before⟩,
        ⟨hfailed, rfl, haddress, before, after, hbefore, hafter, hlt, rfl⟩, hwatched, rfl⟩
    · rintro ⟨⟨index, asset, address, amount⟩,
        ⟨-, rfl, haddress, before, after, hbefore, hafter, hlt, rfl⟩, hwatched, rfl⟩
      have hbound : index < x.accountKeys.length := (List.getElem?_eq_some_iff.1 haddress).1
      exact ⟨index, hbound, address, haddress, hwatched, before, hbefore, after, hafter, hlt, rfl⟩
  · rw [if_pos (not_not.1 (mt hlength.1 hfailed))]
    constructor
    · nofun
    · rintro ⟨transfer, htransfer, -⟩
      exact absurd htransfer.success hfailed

theorem mem_parseTokenTransfers {owners : List Address}
    {signature : Signature} {event : TransferEvent} :
    event ∈ parseTokenTransfers (x.parsed true) owners signature cluster ↔
      ∃ transfer, CarriesToken cluster x transfer ∧ transfer.recipient ∈ owners ∧
        event = transfer.event cluster signature x.slot
          (some (x.accountKeys[transfer.index]?.getD "")) := by
  simp only [parseTokenTransfers, Executed.parsed, if_true]
  by_cases hfailed : x.failed = false
  · rw [if_neg (by simp [hfailed])]
    simp only [List.mem_filterMap, Option.bind_eq_bind, Option.bind_eq_some_iff,
      Option.pure_def, Option.some.injEq, Option.guard_eq_some', exists_const]
    constructor
    · rintro ⟨entry, hentry, owner, howner, howned, hours, hlt, rfl⟩
      exact ⟨⟨entry.accountIndex, ledgerAssetKey cluster entry.mint, owner, _⟩,
        ⟨hfailed, entry, hentry, hours, rfl, howner, rfl, hlt, rfl⟩, howned, rfl⟩
    · rintro ⟨⟨index, asset, owner, amount⟩,
        ⟨-, entry, hentry, hours, hindex, howner, hasset, hlt, hamount⟩, howned, rfl⟩
      simp only at hindex hasset hamount hlt
      subst hindex hasset hamount
      exact ⟨entry, hentry, owner, howner, howned, hours, hlt, rfl⟩
  · rw [if_pos (by simpa using hfailed)]
    constructor
    · nofun
    · rintro ⟨transfer, htransfer, -⟩
      exact absurd htransfer.success hfailed

/-- Without metadata nothing is read. -/
theorem parse_without_metadata (x : Executed tokenAccount) (watched owners : List Address)
    (signature : Signature) (cluster : Cluster) :
    parseTransfers (x.parsed false) watched signature cluster = [] ∧
      parseTokenTransfers (x.parsed false) owners signature cluster = [] := ⟨rfl, rfl⟩

/-! ## Exact balances -/

/-- The balances of an account are small enough to be read exactly. -/
def Executed.Exact (x : Executed tokenAccount) (index : Nat) : Prop :=
  ∀ n ∈ x.preBalances[index]?.toList ++ x.postBalances[index]?.toList, n ≤ 2 ^ 53

instance (x : Executed tokenAccount) (index : Nat) : Decidable (x.Exact index) :=
  inferInstanceAs (Decidable (∀ n ∈ _, n ≤ 2 ^ 53))

theorem CarriesNative.reported_iff {transfer : Transfer} (h : x.Exact transfer.index) :
    CarriesNative cluster x.reported transfer ↔ CarriesNative cluster x transfer := by
  have hpre : ∀ n, x.preBalances[transfer.index]? = some n → toNumber n = n := fun n hn =>
    toNumber_exact (h n (by simp [hn]))
  have hpost : ∀ n, x.postBalances[transfer.index]? = some n → toNumber n = n := fun n hn =>
    toNumber_exact (h n (by simp [hn]))
  have hamount : (∃ before after, x.reported.preBalances[transfer.index]? = some before ∧
      x.reported.postBalances[transfer.index]? = some after ∧ before < after ∧
      transfer.amount = after - before) ↔
      ∃ before after, x.preBalances[transfer.index]? = some before ∧
        x.postBalances[transfer.index]? = some after ∧ before < after ∧
        transfer.amount = after - before := by
    simp only [Executed.reported, List.getElem?_map, Option.map_eq_some_iff]
    constructor
    · rintro ⟨_, _, ⟨before, hbefore, rfl⟩, ⟨after, hafter, rfl⟩, hrest⟩
      rw [hpre before hbefore, hpost after hafter] at hrest
      exact ⟨before, after, hbefore, hafter, hrest⟩
    · rintro ⟨before, after, hbefore, hafter, hrest⟩
      exact ⟨before, after, ⟨before, hbefore, hpre before hbefore⟩, ⟨after, hafter, hpost after hafter⟩,
        hrest⟩
  constructor
  · rintro ⟨hsuccess, hasset, haccount, hrest⟩
    exact ⟨hsuccess, hasset, haccount, hamount.1 hrest⟩
  · rintro ⟨hsuccess, hasset, haccount, hrest⟩
    exact ⟨hsuccess, hasset, haccount, hamount.2 hrest⟩

end AtlasCex.Deposits

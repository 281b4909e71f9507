import AtlasCex.Mpc.Authorization
import Mathlib.Data.List.Perm.Subperm
import Mathlib.Data.List.FinRange
/-!
# The tier check is an exact matching

`check_tier_authorization` takes the requirements most-constrained first and gives each the first
authority left that satisfies it. `checkAuthorities` is that check for any list of requirements.
`Blockchain` is the same check of `blockchain/src/custody.ts:61-189`, which goes on past a
requirement that finds none and lists all that are missing.

An operator's requirement and a ceremony's are met by their own kind alone and the risk engine's by
anything, so a matching exists exactly when there are enough of each kind and enough in all
(`Enough`). Both the greedy run and a matching are compared with that.
-/
namespace AtlasCex.Mpc
open List

def mostConstrainedFirst (required : List Authority) : List Authority :=
  required.insertionSort fun a b => a.satisfierCount ≤ b.satisfierCount

def checkAuthorities (required : List Authority) (approvedBy : String) : Option Authority :=
  firstMissing (parseAuthorities approvedBy) (mostConstrainedFirst required)

namespace Blockchain

/-- The names of the set `known`. -/
def known (name : List Char) : Option Authority :=
  if name = "risk-engine".toList then some .riskEngine
  else if name = "operator".toList then some .operator
  else if name = "ceremony".toList then some .ceremony
  else none

def parseAuthorities (approvedBy : String) : List Authority :=
  (approvedBy.toList.splitOn '+').filterMap fun part => known (Lib.trimText (part.takeWhile (· ≠ ':')))

/-- `TIER_POLICIES`. -/
def requiredAuthorities : CustodyTier → List Authority
  | .deposit => []
  | .hot => [.riskEngine]
  | .warm => [.riskEngine, .operator]
  | .cold => [.ceremony]

/-- The loop: every requirement that finds nothing is missing. -/
def missing : List Authority → List Authority → List Authority
  | _, [] => []
  | available, required :: rest =>
    match available.findIdx? (fun held => held.satisfies required) with
    | none => required :: missing available rest
    | some index => missing (available.eraseIdx index) rest

/-- The authorities missing: none when the check is `ok`. -/
def checkAuthorities (required : List Authority) (approvedBy : String) : List Authority :=
  missing (parseAuthorities approvedBy) (mostConstrainedFirst required)

def checkTierAuthorization (tier : CustodyTier) (approvedBy : String) : List Authority :=
  checkAuthorities (requiredAuthorities tier) approvedBy

end Blockchain

variable {held held' required required' : List Authority}

/-! ## Matchings -/

/-- Each requirement has an authority of its own that satisfies it. -/
def Matches (held required : List Authority) : Prop :=
  ∃ assign : Fin required.length → Fin held.length, Function.Injective assign ∧
    ∀ i, (held.get (assign i)).satisfies (required.get i) = true

/-- Enough authorities of each kind that only its own kind satisfies, and enough in all. -/
structure Enough (held required : List Authority) : Prop where
  operator : required.count .operator ≤ held.count .operator
  ceremony : required.count .ceremony ≤ held.count .ceremony
  length : required.length ≤ held.length

theorem eq_of_satisfies {a : Authority} (kind : Authority) (hkind : kind ≠ .riskEngine)
    (h : a.satisfies kind = true) : a = kind := by
  cases kind with
  | riskEngine => exact absurd rfl hkind
  | operator | ceremony => cases a <;> first | rfl | cases h

theorem Matches.enough (h : Matches held required) : Enough held required := by
  obtain ⟨assign, hinj, hsat⟩ := h
  have hsub : (((List.finRange required.length).map assign).map held.get).Subperm held := by
    obtain ⟨l, hperm, hl⟩ := ((nodup_finRange required.length).map hinj).subperm
      fun i _ => mem_finRange i
    refine ⟨l.map held.get, hperm.map _, ?_⟩
    simpa using hl.map held.get
  have hcount : ∀ kind, kind ≠ .riskEngine → required.count kind ≤ held.count kind := by
    intro kind hkind
    refine le_trans ?_ (hsub.count_le kind)
    conv_lhs => rw [← map_get_finRange required]
    rw [map_map, count_eq_countP, count_eq_countP, countP_map, countP_map]
    refine countP_mono_left fun i _ hi => ?_
    have heq : required.get i = kind := by simpa using hi
    simpa using eq_of_satisfies kind hkind (heq ▸ hsat i)
  refine ⟨hcount _ nofun, hcount _ nofun, ?_⟩
  simpa using hsub.length_le

theorem Matches.of_forall₂ {chosen : List Authority} (hsub : chosen.Subperm held)
    (h : List.Forall₂ (fun a b => a.satisfies b = true) chosen required) : Matches held required := by
  have hlength := h.length_eq
  refine ⟨fun i => hsub.idxInj ⟨i, by omega⟩, fun i j hij => ?_, fun i => ?_⟩
  · simpa [Fin.ext_iff] using hsub.idxInj_injective hij
  · have := (forall₂_iff_get.1 h).2 i (by omega) i.2
    simpa [hsub.getElem_idxInj_eq_getElem] using this

/-! ## The greedy run -/

theorem firstMissing_forall₂ (h : firstMissing held required = none) :
    ∃ chosen, chosen.Subperm held ∧ List.Forall₂ (fun a b => a.satisfies b = true) chosen required := by
  induction required generalizing held with
  | nil => exact ⟨[], nil_subperm, .nil⟩
  | cons a required ih =>
    rw [firstMissing] at h
    split at h
    next index hindex =>
      obtain ⟨chosen, hsub, hall⟩ := ih h
      obtain ⟨hlt, hsat, -⟩ := findIdx?_eq_some_iff_getElem.1 hindex
      refine ⟨held[index] :: chosen, ?_, .cons hsat hall⟩
      exact (subperm_cons _).2 hsub |>.trans (getElem_cons_eraseIdx_perm hlt).subperm
    next => cases h

theorem Enough.exists_satisfies {a : Authority} (h : Enough held (a :: required)) :
    ∃ b ∈ held, b.satisfies a = true := by
  obtain ⟨hoperator, hceremony, hlength⟩ := h
  cases a with
  | operator =>
    rw [count_cons_self] at hoperator
    exact ⟨.operator, count_pos_iff.1 (by omega), rfl⟩
  | ceremony =>
    rw [count_cons_self] at hceremony
    exact ⟨.ceremony, count_pos_iff.1 (by omega), rfl⟩
  | riskEngine =>
    rw [length_cons] at hlength
    obtain ⟨b, hb⟩ := exists_mem_of_length_pos (show 0 < held.length by omega)
    exact ⟨b, hb, by cases b <;> rfl⟩

/-- The risk engine's requirements come last, so what the others took is what only they can use. -/
theorem Enough.firstMissing (h : Enough held required)
    (hsorted : required.Pairwise fun a b => a.satisfierCount ≤ b.satisfierCount) :
    firstMissing held required = none := by
  induction required generalizing held with
  | nil => rfl
  | cons a required ih =>
    obtain ⟨hfirst, hsorted⟩ := pairwise_cons.1 hsorted
    obtain ⟨index, hindex⟩ := Option.isSome_iff_exists.1
      (findIdx?_isSome.trans (any_eq_true.2 h.exists_satisfies))
    obtain ⟨hlt, hsat, -⟩ := findIdx?_eq_some_iff_getElem.1 hindex
    have hperm := getElem_cons_eraseIdx_perm hlt
    have hcount := fun kind => hperm.count_eq kind
    have hlength := hperm.length_eq
    rw [Mpc.firstMissing, hindex]
    refine ih ?_ hsorted
    obtain ⟨hoperator, hceremony, hle⟩ := h
    simp only [length_cons] at hlength hle
    cases a with
    | operator =>
      rw [eq_of_satisfies .operator nofun hsat] at hcount
      simp [← hcount] at hoperator hceremony
      exact ⟨hoperator, hceremony, by omega⟩
    | ceremony =>
      rw [eq_of_satisfies .ceremony nofun hsat] at hcount
      simp [← hcount] at hoperator hceremony
      exact ⟨hoperator, hceremony, by omega⟩
    | riskEngine =>
      have hnone : ∀ kind, kind ≠ .riskEngine → required.count kind = 0 := by
        intro kind hkind
        refine count_eq_zero.2 fun hmem => hkind ?_
        have hcount := hfirst kind hmem
        cases kind with
        | riskEngine => rfl
        | operator | ceremony => exact absurd hcount (by decide)
      exact ⟨by simp [hnone], by simp [hnone], by omega⟩

theorem mostConstrainedFirst_sorted (required : List Authority) :
    (mostConstrainedFirst required).Pairwise fun a b => a.satisfierCount ≤ b.satisfierCount := by
  have : IsTrans Authority fun a b => a.satisfierCount ≤ b.satisfierCount :=
    ⟨fun _ _ _ => Nat.le_trans⟩
  have : Std.Total fun a b : Authority => a.satisfierCount ≤ b.satisfierCount :=
    ⟨fun _ _ => Nat.le_total _ _⟩
  exact pairwise_insertionSort _ _

theorem mostConstrainedFirst_perm (required : List Authority) :
    (mostConstrainedFirst required).Perm required :=
  perm_insertionSort _ _

theorem Enough.subperm (h : Enough held required) (hheld : held.Subperm held')
    (hrequired : required.Perm required') : Enough held' required' where
  operator := hrequired.count_eq .operator ▸ h.operator.trans (hheld.count_le _)
  ceremony := hrequired.count_eq .ceremony ▸ h.ceremony.trans (hheld.count_le _)
  length := hrequired.length_eq ▸ h.length.trans hheld.length_le

theorem Matches.of_firstMissing (h : firstMissing held (mostConstrainedFirst required) = none) :
    Matches held required := by
  obtain ⟨chosen, hsub, hall⟩ := firstMissing_forall₂ h
  obtain ⟨chosen', hchosen, hall'⟩ : Relation.Comp List.Perm (List.Forall₂ fun a b =>
      Authority.satisfies a b = true) chosen required := by
    rw [← forall₂_comp_perm_eq_perm_comp_forall₂]
    exact ⟨_, hall, mostConstrainedFirst_perm required⟩
  exact .of_forall₂ (hchosen.symm.subperm.trans hsub) hall'

theorem firstMissing_iff_enough :
    firstMissing held (mostConstrainedFirst required) = none ↔ Enough held required := by
  refine ⟨fun h => (Matches.of_firstMissing h).enough, fun h => ?_⟩
  exact (h.subperm (.refl _) (mostConstrainedFirst_perm required).symm).firstMissing
    (mostConstrainedFirst_sorted required)

theorem firstMissing_iff_matches :
    firstMissing held (mostConstrainedFirst required) = none ↔ Matches held required :=
  ⟨.of_firstMissing, fun h => firstMissing_iff_enough.2 h.enough⟩

/-! ## The two checks -/

theorem dropWhile_congr {p q : Char → Bool} {text : List Char} (h : ∀ c ∈ text, p c = q c) :
    text.dropWhile p = text.dropWhile q := by
  induction text with
  | nil => rfl
  | cons c text ih =>
    rw [dropWhile_cons, dropWhile_cons, h c (by simp), ih fun c hc => h c (by simp [hc])]

/-- The two notions of white space differ at U+0085 and U+FEFF alone. -/
theorem trim_ascii {text : List Char} (h : ∀ c ∈ text, c.toNat < 128) :
    Lib.trimText text = trim text := by
  have hsame : ∀ c ∈ text, Lib.isTrimmed c = isWhitespace c := by
    intro c hc
    have := h c hc
    simp only [Lib.isTrimmed, isWhitespace, contains_eq_mem, mem_cons, not_mem_nil,
      decide_eq_decide, or_false]
    omega
  rw [Lib.trimText, List.rdropWhile, trim, dropWhile_congr hsame, dropWhile_congr]
  exact fun c hc => hsame c ((dropWhile_sublist _).subset (mem_reverse.1 hc))

theorem mem_of_mem_splitOn {sep c : Char} {text part : List Char} (hpart : part ∈ text.splitOn sep)
    (hc : c ∈ part) : c ∈ text := by
  induction text generalizing part with
  | nil => simp_all
  | cons d text ih =>
    rw [splitOn_cons_eq_if_modifyHead] at hpart
    split at hpart
    · rcases mem_cons.1 hpart with rfl | hpart
      · cases hc
      · exact mem_cons_of_mem _ (ih hpart hc)
    · cases hsplit : text.splitOn sep with
      | nil => exact absurd hsplit (splitOn_ne_nil _ _)
      | cons first rest =>
        rw [hsplit] at ih hpart
        rcases mem_cons.1 hpart with rfl | hpart
        · exact mem_cons.2 ((mem_cons.1 hc).imp_right (ih mem_cons_self))
        · exact mem_cons_of_mem _ (ih (mem_cons_of_mem _ hpart) hc)

theorem parseAuthorities_ascii {approvedBy : String} (h : ∀ c ∈ approvedBy.toList, c.toNat < 128) :
    Blockchain.parseAuthorities approvedBy = parseAuthorities approvedBy := by
  refine filterMap_congr fun part hpart => ?_
  rw [trim_ascii fun c hc =>
    h c (mem_of_mem_splitOn hpart ((takeWhile_sublist _).subset hc))]
  rfl

theorem missing_head (held required : List Authority) :
    (Blockchain.missing held required).head? = firstMissing held required := by
  induction required generalizing held with
  | nil => rfl
  | cons a required ih =>
    rw [Blockchain.missing, firstMissing]
    split
    next hnone => simp [hnone]
    next index hindex => simp [hindex, ih]

/-- Another order, or further authorities: a proof that claims at least the authorities of one that
passes, in any order, passes. Of what `Blockchain` lists as missing, the first is returned here. -/
theorem checkAuthorities_is_matching (required : List Authority) (approvedBy : String) :
    (checkAuthorities required approvedBy = none ↔
      Matches (parseAuthorities approvedBy) required) ∧
    (∀ (required' : List Authority) (approvedBy' : String), required.Perm required' →
      (parseAuthorities approvedBy).Subperm (parseAuthorities approvedBy') →
      checkAuthorities required approvedBy = none → checkAuthorities required' approvedBy' = none) ∧
    ((∀ c ∈ approvedBy.toList, c.toNat < 128) →
      (Blockchain.checkAuthorities required approvedBy).head? = checkAuthorities required approvedBy ∧
      ∀ tier, (Blockchain.checkTierAuthorization tier approvedBy).head? =
        checkTierAuthorization tier approvedBy) := by
  have hsame : (∀ c ∈ approvedBy.toList, c.toNat < 128) → ∀ required,
      (Blockchain.checkAuthorities required approvedBy).head? =
        checkAuthorities required approvedBy := by
    intro hascii required
    rw [Blockchain.checkAuthorities, parseAuthorities_ascii hascii, missing_head]
    rfl
  refine ⟨firstMissing_iff_matches, fun required' approvedBy' hperm hsub h => ?_, fun hascii =>
    ⟨hsame hascii required, fun tier => ?_⟩⟩
  · exact firstMissing_iff_enough.2 ((firstMissing_iff_enough.1 h).subperm hsub hperm)
  · cases tier <;> exact hsame hascii _

example : checkTierAuthorization .warm "operator:a+ceremony" = none ∧
    Blockchain.checkTierAuthorization .warm "ceremony + superuser" = [.operator] := by decide

end AtlasCex.Mpc

import AtlasCex.Risk.Engine
import Mathlib.Algebra.Order.BigOperators.Group.List
/-!
# The verdict does not get milder

Asking for more, or having withdrawn more before, never helps. The rules that read the amount or the
history compare a quantity that grows with both against a limit; the other rules do not read them.

* `RuleOutcome.Milder` : one outcome is at most as severe as another and complains of no more.
* `Heavier` : the second request asks for no less, over a history that weighs no less.
* `rules_milder` : every rule is milder on the lighter request.
-/
namespace AtlasCex.Risk
open List

/-- approve < review < deny. -/
def Verdict.severity : Verdict → Nat
  | approve => 0
  | review => 1
  | deny => 2

theorem Verdict.severity_injective : Function.Injective Verdict.severity := by
  intro a b h
  cases a <;> cases b <;> first | rfl | cases h

/-! ## The history, as the rules read it -/

/-- What `velocityRule` counts. -/
def countSince (input : RiskInput) (cutoff : Int) : Nat :=
  (input.recentWithdrawals.filter fun w => cutoff ≤ w.createdAt).length

/-- The second request is for the same account, asset, destination, value and time as the first. It
asks for no less, and every window of its history sums and counts to no less. -/
structure Heavier (light heavy : RiskInput) : Prop where
  rest : heavy = { light with
    amount := heavy.amount, recentWithdrawals := heavy.recentWithdrawals }
  amount : light.amount ≤ heavy.amount
  sums : ∀ cutoff, sumSince light cutoff ≤ sumSince heavy cutoff
  counts : ∀ cutoff, countSince light cutoff ≤ countSince heavy cutoff

variable {input : RiskInput}

theorem Heavier.amount_raised {amount : Int} (h : input.amount ≤ amount) :
    Heavier input { input with amount := amount } :=
  ⟨rfl, h, fun _ => le_refl _, fun _ => le_refl _⟩

theorem Heavier.withdrawal_added {entry : WithdrawalHistoryEntry} (h : 0 < entry.amount) :
    Heavier input
      { input with recentWithdrawals := entry :: input.recentWithdrawals } where
  rest := rfl
  amount := le_refl _
  sums cutoff := by
    unfold sumSince
    rw [filter_cons]
    split
    · rw [map_cons, sum_cons]
      exact le_add_of_nonneg_left h.le
    · exact le_refl _
  counts cutoff := ((sublist_cons_self _ _).filter _).length_le

theorem Heavier.history_permuted {history : List WithdrawalHistoryEntry}
    (h : history.Perm input.recentWithdrawals) :
    Heavier input { input with recentWithdrawals := history } where
  rest := rfl
  amount := le_refl _
  sums _ := ((h.filter _).map _).sum_eq.ge
  counts _ := (h.filter _).length_eq.ge

/-! ## Rule by rule -/

/-- At most as severe, and with no complaint that the other lacks. -/
structure RuleOutcome.Milder (a b : RuleOutcome) : Prop where
  severity : a.verdict.severity ≤ b.verdict.severity
  codes : a.codes ⊆ b.codes

theorem RuleOutcome.Milder.refl (outcome : RuleOutcome) : outcome.Milder outcome :=
  ⟨le_refl _, List.Subset.refl _⟩

theorem RuleOutcome.Milder.pass (rule : String) (outcome : RuleOutcome) :
    (RuleOutcome.pass rule).Milder outcome :=
  ⟨Nat.zero_le _, nil_subset _⟩

/-- A rule that objects when a condition holds, with a condition that the second request meets
whenever the first does. -/
theorem RuleOutcome.Milder.ite {holds holds' : Prop} [Decidable holds] [Decidable holds']
    {rule : String} {verdict : Verdict} {codes : List ReasonCode}
    {detail detail' : List (String × String)} (h : holds → holds') :
    (if holds then ⟨rule, verdict, codes, detail⟩ else .pass rule : RuleOutcome).Milder
      (if holds' then ⟨rule, verdict, codes, detail'⟩ else .pass rule) := by
  by_cases hholds : holds
  · rw [if_pos hholds, if_pos (h hholds)]
    exact ⟨le_refl _, List.Subset.refl _⟩
  · rw [if_neg hholds]
    exact .pass _ _

section Rules

variable {light heavy : RiskInput} (h : Heavier light heavy) (policy : RiskPolicy)
include h

theorem amountRule_milder (hpos : 0 < light.amount) :
    (amountRule light policy).Milder (amountRule heavy policy) := by
  have hpos' : 0 < heavy.amount := hpos.trans_le h.amount
  have hasset : heavy.asset = light.asset := by rw [h.rest]
  unfold amountRule
  rw [if_neg (not_le.2 hpos), if_neg (not_le.2 hpos'), hasset]
  exact .refl _

theorem perTransactionLimitRule_milder :
    (perTransactionLimitRule light policy).Milder (perTransactionLimitRule heavy policy) := by
  have hasset : heavy.asset = light.asset := by rw [h.rest]
  unfold perTransactionLimitRule
  rw [hasset]
  split
  · exact .refl _
  · exact .ite fun hlt => hlt.trans_le h.amount

theorem dailyLimitRule_milder :
    (dailyLimitRule light policy).Milder (dailyLimitRule heavy policy) := by
  have hasset : heavy.asset = light.asset := by rw [h.rest]
  have hnow : heavy.now = light.now := by rw [h.rest]
  unfold dailyLimitRule
  rw [hasset, hnow]
  split
  · exact .refl _
  · exact .ite fun hlt => hlt.trans_le (add_le_add (h.sums _) h.amount)

theorem velocityRule_milder : (velocityRule light policy).Milder (velocityRule heavy policy) := by
  have hnow : heavy.now = light.now := by rw [h.rest]
  unfold velocityRule
  rw [hnow]
  exact .ite fun hle => hle.trans (h.counts _)

theorem manualReviewThresholdRule_milder :
    (manualReviewThresholdRule light policy).Milder (manualReviewThresholdRule heavy policy) := by
  have hasset : heavy.asset = light.asset := by rw [h.rest]
  unfold manualReviewThresholdRule
  rw [hasset]
  split
  · exact .refl _
  · split
    · exact .refl _
    · exact .ite fun hle => hle.trans h.amount

/-- The amount stands in the details of this rule only. -/
theorem usdReviewThresholdRule_milder :
    (usdReviewThresholdRule light policy).Milder (usdReviewThresholdRule heavy policy) := by
  have hasset : heavy.asset = light.asset := by rw [h.rest]
  have hvalue : heavy.valueUsdMicros = light.valueUsdMicros := by rw [h.rest]
  unfold usdReviewThresholdRule
  rw [hasset, hvalue]
  split
  · exact .refl _
  · split
    · exact ⟨le_refl _, List.Subset.refl _⟩
    · exact .refl _

theorem rules_milder (hpos : 0 < light.amount) :
    ∀ rule ∈ rules, (rule light policy).Milder (rule heavy policy) := by
  have haccount : accountStateRule heavy policy = accountStateRule light policy := by rw [h.rest]; rfl
  have hdestination : destinationRule heavy policy = destinationRule light policy := by
    rw [h.rest]; rfl
  have hconfigured : assetLimitsConfiguredRule heavy policy =
      assetLimitsConfiguredRule light policy := by rw [h.rest]; rfl
  simp only [rules, forall_mem_cons, not_mem_nil, false_imp_iff, implies_true, and_true]
  refine ⟨?_, amountRule_milder h policy hpos, ?_, ?_, perTransactionLimitRule_milder h policy,
    dailyLimitRule_milder h policy, velocityRule_milder h policy,
    manualReviewThresholdRule_milder h policy, usdReviewThresholdRule_milder h policy⟩
  · rw [haccount]
    exact .refl _
  · rw [hdestination]
    exact .refl _
  · rw [hconfigured]
    exact .refl _

end Rules

/-! ## The decision -/

/-- The verdict of a decision is the worst of its outcomes. -/
theorem severity_compose_le {outcomes : List RuleOutcome} {n : Nat} :
    (compose outcomes).severity ≤ n ↔ ∀ outcome ∈ outcomes, outcome.verdict.severity ≤ n := by
  constructor
  · intro hn outcome hmem
    refine le_trans ?_ hn
    unfold compose
    split
    · cases outcome.verdict <;> decide
    · rename_i hdeny
      simp only [Bool.not_eq_true, any_eq_false, decide_eq_true_eq] at hdeny
      split
      · cases hv : outcome.verdict with
        | deny => exact absurd hv (hdeny outcome hmem)
        | approve => decide
        | review => decide
      · rename_i hreview
        simp only [Bool.not_eq_true, any_eq_false, decide_eq_true_eq] at hreview
        cases hv : outcome.verdict with
        | deny => exact absurd hv (hdeny outcome hmem)
        | review => exact absurd hv (hreview outcome hmem)
        | approve => decide
  · intro hall
    unfold compose
    split
    · rename_i hdeny
      obtain ⟨outcome, hmem, hv⟩ := any_eq_true.1 hdeny
      have hle := hall outcome hmem
      rwa [of_decide_eq_true hv] at hle
    · split
      · rename_i hreview
        obtain ⟨outcome, hmem, hv⟩ := any_eq_true.1 hreview
        have hle := hall outcome hmem
        rwa [of_decide_eq_true hv] at hle
      · exact Nat.zero_le n

/-- The second decision is no more lenient: its verdict is at least as severe, and every problem the
first one reports is still reported. -/
structure RiskDecision.NoMilder (first second : RiskDecision) : Prop where
  verdict : first.verdict.severity ≤ second.verdict.severity
  problems : ∀ code ∈ first.codes, code.informational = false → code ∈ second.codes

theorem Heavier.noMilder {light heavy : RiskInput} (h : Heavier light heavy) (policy : RiskPolicy)
    (hpos : 0 < light.amount) : (evaluate light policy).NoMilder (evaluate heavy policy) where
  verdict := by
    refine severity_compose_le.2 (forall_mem_map.2 fun rule hrule => ?_)
    refine (rules_milder h policy hpos rule hrule).severity.trans ?_
    exact severity_compose_le.1 (le_refl _) _ (mem_map_of_mem hrule)
  problems code hcode hproblem := by
    rcases mem_evaluate_codes.1 hcode with ⟨rule, hrule, hmem⟩ | ⟨rfl, -⟩
    · exact mem_evaluate_codes.2
        (.inl ⟨rule, hrule, (rules_milder h policy hpos rule hrule).codes hmem⟩)
    · cases hproblem

/-- What two requests, each at least as heavy as the other, have in common. -/
theorem Heavier.same {light heavy : RiskInput} (h : Heavier light heavy) (h' : Heavier heavy light)
    (policy : RiskPolicy) (hpos : 0 < light.amount) :
    (evaluate heavy policy).verdict = (evaluate light policy).verdict ∧
      ∀ code, code ∈ (evaluate heavy policy).codes ↔ code ∈ (evaluate light policy).codes := by
  have hpos' : 0 < heavy.amount := hpos.trans_le h.amount
  have hverdict : (evaluate heavy policy).verdict = (evaluate light policy).verdict :=
    Verdict.severity_injective
      (le_antisymm (h'.noMilder policy hpos').verdict (h.noMilder policy hpos).verdict)
  refine ⟨hverdict, fun code => ?_⟩
  rw [mem_evaluate_codes, mem_evaluate_codes, hverdict]
  refine or_congr_left ⟨?_, ?_⟩
  · rintro ⟨rule, hrule, hmem⟩
    exact ⟨rule, hrule, (rules_milder h' policy hpos' rule hrule).codes hmem⟩
  · rintro ⟨rule, hrule, hmem⟩
    exact ⟨rule, hrule, (rules_milder h policy hpos rule hrule).codes hmem⟩

/-- The order of the history does not matter, and neither a larger amount nor a longer history makes
the decision more lenient. -/
theorem evaluate_monotone (input : RiskInput) (policy : RiskPolicy) (hpos : 0 < input.amount) :
    (∀ history : List WithdrawalHistoryEntry, history.Perm input.recentWithdrawals →
      (evaluate { input with recentWithdrawals := history } policy).verdict =
          (evaluate input policy).verdict ∧
        ∀ code, code ∈ (evaluate { input with recentWithdrawals := history } policy).codes ↔
          code ∈ (evaluate input policy).codes) ∧
    (∀ amount, input.amount ≤ amount →
      (evaluate input policy).NoMilder (evaluate { input with amount := amount } policy)) ∧
    ∀ entry : WithdrawalHistoryEntry, 0 < entry.amount →
      (evaluate input policy).NoMilder
        (evaluate { input with recentWithdrawals := entry :: input.recentWithdrawals } policy) := by
  refine ⟨fun history hperm => ?_, fun amount hle => ?_, fun entry hentry => ?_⟩
  · have back : Heavier { input with recentWithdrawals := history } input :=
      .history_permuted hperm.symm
    exact (Heavier.history_permuted hperm).same back policy hpos
  · exact (Heavier.amount_raised hle).noMilder policy hpos
  · exact (Heavier.withdrawal_added hentry).noMilder policy hpos

/-- One asset, at most 100 a day and two withdrawals an hour. -/
def modestPolicy : RiskPolicy where
  supportedAssets := [⟨"devnet", "SOL"⟩]
  assetLimits asset := if asset = ⟨"devnet", "SOL"⟩ then some ⟨80, 100, 90⟩ else none
  velocityWindowMinutes := 60
  velocityMaxCount := 2
  reviewNewDestinations := false
  manualReviewAboveUsdMicros := none
  knownDestinationWindowDays := 30

/-- Forty, after fifty on the same day. -/
def modestInput : RiskInput where
  userId := "u"
  accountStatus := .active
  asset := ⟨"devnet", "SOL"⟩
  amount := 40
  destination := "d"
  destinationCheck := .ok false
  priorDestinations := []
  recentWithdrawals := [⟨50, ⟨"devnet", "SOL"⟩, 0⟩]
  valueUsdMicros := none
  now := 1000

theorem evaluate_monotone_modest :
    (evaluate modestInput modestPolicy).verdict = .approve ∧
    (evaluate { modestInput with amount := 60 } modestPolicy).codes = [.dailyLimit] ∧
    (evaluate modestInput modestPolicy).NoMilder
      (evaluate { modestInput with amount := 60 } modestPolicy) :=
  ⟨by decide, by decide, (evaluate_monotone modestInput modestPolicy (by decide)).2.1 60 (by decide)⟩

end AtlasCex.Risk

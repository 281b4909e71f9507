import AtlasCex.Ledger.Postings
/-!
# The withdrawal policy

| here | there |
| --- | --- |
| `ReasonCode`, `informational` | `risk/src/reason-codes.ts` |
| `RiskInput`, `RiskPolicy`, `RuleOutcome`, `RiskDecision` | `risk/src/types.ts` |
| `accountStateRule` | `risk/src/rules/account.ts` |
| `destinationRule`  | `risk/src/rules/destination.ts` |
| `assetLimitsConfiguredRule` … `manualReviewThresholdRule` | `risk/src/rules/limits.ts` |
| `usdReviewThresholdRule` | `risk/src/rules/value.ts` |
| `rules`, `evaluate` | `RULES`, `evaluate` (`risk/src/engine.ts`) |

Times are milliseconds. A `valueUsdMicros` that is absent is `none`, one that is `null` is
`some none`. The codes of the pre-trade rules are left out, and so are the deprecated native limits
of `RiskPolicy`, which no rule reads.
-/
namespace AtlasCex.Risk

open List
open Ledger (UserId AssetKey)

inductive Verdict where
  | approve
  | deny
  | review
deriving DecidableEq, Repr

inductive ReasonCode where
  | accountNotActive
  | destinationInvalid
  | destinationNotSignable
  | destinationInternal
  | newDestination
  | perTransactionLimit
  | dailyLimit
  | velocityLimit
  | manualReviewThreshold
  | assetLimitsNotConfigured
  | usdReviewThreshold
  | valueUnpriced
  | amountNotPositive
  | assetNotSupported
  | withinAllLimits
  | knownDestination
deriving DecidableEq, Repr

/-- `INFORMATIONAL_CODES`. -/
def ReasonCode.informational : ReasonCode → Bool
  | withinAllLimits | knownDestination => true
  | _ => false

inductive AccountStatus where
  | active
  | suspended
  | closed
deriving DecidableEq, Repr

def AccountStatus.text : AccountStatus → String
  | active => "active"
  | suspended => "suspended"
  | closed => "closed"

inductive DestinationCheck where
  | ok (isPlatformOwned : Bool)
  | invalid
  | notSignable
deriving DecidableEq, Repr

structure PriorDestination where
  address : String
  lastUsedAt : Int
deriving DecidableEq, Repr

structure WithdrawalHistoryEntry where
  amount : Int
  asset : AssetKey
  createdAt : Int
deriving DecidableEq

structure RiskInput where
  userId : UserId
  accountStatus : AccountStatus
  asset : AssetKey
  amount : Int
  destination : String
  destinationCheck : DestinationCheck
  priorDestinations : List PriorDestination
  recentWithdrawals : List WithdrawalHistoryEntry
  valueUsdMicros : Option (Option Int)
  now : Int
deriving DecidableEq

structure AssetLimits where
  perTransactionLimit : Int
  dailyLimit : Int
  manualReviewAbove : Int

structure RiskPolicy where
  supportedAssets : List AssetKey
  assetLimits : AssetKey → Option AssetLimits
  velocityWindowMinutes : Int
  velocityMaxCount : Nat
  reviewNewDestinations : Bool
  manualReviewAboveUsdMicros : Option Int
  knownDestinationWindowDays : Int

structure RuleOutcome where
  rule : String
  verdict : Verdict
  codes : List ReasonCode
  detail : List (String × String)

abbrev Rule := RiskInput → RiskPolicy → RuleOutcome

def RuleOutcome.pass (rule : String) : RuleOutcome := ⟨rule, .approve, [], []⟩

/-- `ledgerAssetKey`. -/
def assetText (asset : AssetKey) : String := asset.cluster ++ ":" ++ asset.asset

/-- 24 hours. -/
def day : Int := 24 * 60 * 60 * 1000

/-! ## The rules -/

def accountStateRule : Rule := fun input _ =>
  if input.accountStatus ≠ .active then
    ⟨"account_state", .deny, [.accountNotActive], [("status", input.accountStatus.text)]⟩
  else .pass "account_state"

def amountRule : Rule := fun input policy =>
  let codes := (if input.amount ≤ 0 then [ReasonCode.amountNotPositive] else []) ++
    if input.asset ∈ policy.supportedAssets then [] else [.assetNotSupported]
  if codes ≠ [] then ⟨"amount", .deny, codes, []⟩ else .pass "amount"

def destinationRule : Rule := fun input policy =>
  match input.destinationCheck with
  | .notSignable => ⟨"destination", .deny, [.destinationNotSignable], []⟩
  | .invalid => ⟨"destination", .deny, [.destinationInvalid], []⟩
  | .ok true => ⟨"destination", .deny, [.destinationInternal], []⟩
  | .ok false =>
    let cutoff := input.now - policy.knownDestinationWindowDays * day
    if input.priorDestinations.any fun prior =>
        prior.address = input.destination && cutoff ≤ prior.lastUsedAt then
      ⟨"destination", .approve, [.knownDestination], []⟩
    else if policy.reviewNewDestinations then
      ⟨"destination", .review, [.newDestination], []⟩
    else .pass "destination"

def assetLimitsConfiguredRule : Rule := fun input policy =>
  match policy.assetLimits input.asset with
  | none =>
    ⟨"asset_limits_configured", .deny, [.assetLimitsNotConfigured],
      [("asset", assetText input.asset)]⟩
  | some _ => .pass "asset_limits_configured"

def perTransactionLimitRule : Rule := fun input policy =>
  match policy.assetLimits input.asset with
  | none => .pass "per_transaction_limit"
  | some limits =>
    if limits.perTransactionLimit < input.amount then
      ⟨"per_transaction_limit", .deny, [.perTransactionLimit],
        [("asset", assetText input.asset), ("amount", toString input.amount),
          ("limit", toString limits.perTransactionLimit)]⟩
    else .pass "per_transaction_limit"

def sumSince (input : RiskInput) (cutoff : Int) : Int :=
  ((input.recentWithdrawals.filter fun w => cutoff ≤ w.createdAt && w.asset = input.asset).map
    (·.amount)).sum

def dailyLimitRule : Rule := fun input policy =>
  match policy.assetLimits input.asset with
  | none => .pass "daily_limit"
  | some limits =>
    let cutoff := input.now - day
    let trailing := sumSince input cutoff
    let projected := trailing + input.amount
    if limits.dailyLimit < projected then
      ⟨"daily_limit", .deny, [.dailyLimit],
        [("asset", assetText input.asset), ("trailing", toString trailing),
          ("projected", toString projected), ("limit", toString limits.dailyLimit)]⟩
    else .pass "daily_limit"

def velocityRule : Rule := fun input policy =>
  let cutoff := input.now - policy.velocityWindowMinutes * 60 * 1000
  let count := (input.recentWithdrawals.filter fun w => cutoff ≤ w.createdAt).length
  if policy.velocityMaxCount ≤ count then
    ⟨"velocity", .deny, [.velocityLimit],
      [("count", toString count), ("max", toString policy.velocityMaxCount),
        ("windowMinutes", toString policy.velocityWindowMinutes)]⟩
  else .pass "velocity"

def usdReviewEnabled (policy : RiskPolicy) : Bool := policy.manualReviewAboveUsdMicros.isSome

def manualReviewThresholdRule : Rule := fun input policy =>
  match policy.assetLimits input.asset with
  | none => .pass "manual_review_threshold"
  | some limits =>
    if usdReviewEnabled policy then .pass "manual_review_threshold"
    else if limits.manualReviewAbove ≤ input.amount then
      ⟨"manual_review_threshold", .review, [.manualReviewThreshold],
        [("asset", assetText input.asset), ("amount", toString input.amount),
          ("threshold", toString limits.manualReviewAbove)]⟩
    else .pass "manual_review_threshold"

def usdReviewThresholdRule : Rule := fun input policy =>
  match policy.manualReviewAboveUsdMicros with
  | none => .pass "usd_review_threshold"
  | some threshold =>
    match input.valueUsdMicros.join with
    | none =>
      ⟨"usd_review_threshold", .review, [.valueUnpriced],
        [("asset", assetText input.asset), ("amount", toString input.amount)]⟩
    | some value =>
      if threshold < value then
        ⟨"usd_review_threshold", .review, [.usdReviewThreshold],
          [("asset", assetText input.asset), ("valueUsdMicros", toString value),
            ("thresholdUsdMicros", toString threshold)]⟩
      else ⟨"usd_review_threshold", .approve, [], [("valueUsdMicros", toString value)]⟩

/-! ## The decision -/

/-- `RULES`. -/
def rules : List Rule :=
  [accountStateRule, amountRule, destinationRule, assetLimitsConfiguredRule,
    perTransactionLimitRule, dailyLimitRule, velocityRule, manualReviewThresholdRule,
    usdReviewThresholdRule]

structure RiskDecision where
  verdict : Verdict
  codes : List ReasonCode
  outcomes : List RuleOutcome
  evaluatedRules : List String
  policyVersion : String
  evaluatedAt : Int

/-- Any deny wins; otherwise any review wins; otherwise approve. -/
def compose (outcomes : List RuleOutcome) : Verdict :=
  if outcomes.any (·.verdict = .deny) then .deny
  else if outcomes.any (·.verdict = .review) then .review
  else .approve

def evaluate (input : RiskInput) (policy : RiskPolicy) : RiskDecision :=
  let outcomes := rules.map fun rule => rule input policy
  let verdict := compose outcomes
  let codes := (outcomes.flatMap (·.codes)).eraseDups
  { verdict
    codes :=
      if verdict = .approve && codes.all (·.informational) then
        (codes ++ [ReasonCode.withinAllLimits]).eraseDups
      else codes
    outcomes
    evaluatedRules := outcomes.map (·.rule)
    policyVersion := "2"
    evaluatedAt := input.now }

/-- `problemCodes`. -/
def RiskDecision.problemCodes (decision : RiskDecision) : List ReasonCode :=
  decision.codes.filter fun code => !code.informational

/-- A rule that does not approve says why, and one that approves has nothing to complain of. -/
def RuleOutcome.Explained (outcome : RuleOutcome) : Prop :=
  outcome.verdict = .approve ↔ outcome.codes.all (·.informational)

theorem RuleOutcome.Explained.pass (rule : String) : (RuleOutcome.pass rule).Explained :=
  ⟨fun _ => rfl, fun _ => rfl⟩

variable {code : ReasonCode}

theorem RuleOutcome.Explained.objects {rule : String} {verdict : Verdict}
    {detail : List (String × String)} (hverdict : verdict ≠ .approve)
    (hcode : code.informational = false) :
    (⟨rule, verdict, [code], detail⟩ : RuleOutcome).Explained := by
  refine ⟨fun h => absurd h hverdict, fun h => ?_⟩
  rw [all_cons, hcode] at h
  cases h

variable {condition : Prop}

theorem RuleOutcome.Explained.ite [Decidable condition] {yes no : RuleOutcome}
    (hyes : yes.Explained) (hno : no.Explained) : (if condition then yes else no).Explained := by
  split
  · exact hyes
  · exact hno

theorem rules_explained (input : RiskInput) (policy : RiskPolicy) :
    ∀ rule ∈ rules, (rule input policy).Explained := by
  simp only [rules, forall_mem_cons, not_mem_nil, false_imp_iff, implies_true, and_true]
  refine ⟨?_, ?_, ?_, ?_, ?_, ?_, ?_, ?_, ?_⟩
  · exact .ite (.objects nofun rfl) (.pass _)
  · unfold amountRule
    by_cases hamount : input.amount ≤ 0 <;> by_cases hasset : input.asset ∈ policy.supportedAssets <;>
      simp [hamount, hasset, RuleOutcome.Explained, RuleOutcome.pass, ReasonCode.informational]
  · unfold destinationRule
    split
    · exact .objects nofun rfl
    · exact .objects nofun rfl
    · exact .objects nofun rfl
    · exact .ite ⟨fun _ => rfl, fun _ => rfl⟩ (.ite (.objects nofun rfl) (.pass _))
  · unfold assetLimitsConfiguredRule
    split
    · exact .objects nofun rfl
    · exact .pass _
  · unfold perTransactionLimitRule
    split
    · exact .pass _
    · exact .ite (.objects nofun rfl) (.pass _)
  · unfold dailyLimitRule
    split
    · exact .pass _
    · exact .ite (.objects nofun rfl) (.pass _)
  · exact .ite (.objects nofun rfl) (.pass _)
  · unfold manualReviewThresholdRule
    split
    · exact .pass _
    · exact .ite (.pass _) (.ite (.objects nofun rfl) (.pass _))
  · unfold usdReviewThresholdRule
    split
    · exact .pass _
    · split
      · exact .objects nofun rfl
      · exact .ite (.objects nofun rfl) ⟨fun _ => rfl, fun _ => rfl⟩

theorem compose_eq_approve {outcomes : List RuleOutcome} :
    compose outcomes = .approve ↔ ∀ outcome ∈ outcomes, outcome.verdict = .approve := by
  unfold compose
  constructor
  · intro h outcome hmem
    split at h
    · cases h
    · rename_i hdeny
      split at h
      · cases h
      · rename_i hreview
        simp only [Bool.not_eq_true, any_eq_false, decide_eq_true_eq] at hdeny hreview
        cases hv : outcome.verdict with
        | approve => rfl
        | deny => exact absurd hv (hdeny outcome hmem)
        | review => exact absurd hv (hreview outcome hmem)
  · intro h
    rw [if_neg, if_neg]
    · simp only [any_eq_true, decide_eq_true_eq, not_exists, not_and]
      intro outcome hmem hv
      rw [h outcome hmem] at hv
      cases hv
    · simp only [any_eq_true, decide_eq_true_eq, not_exists, not_and]
      intro outcome hmem hv
      rw [h outcome hmem] at hv
      cases hv

variable {input : RiskInput} {policy : RiskPolicy}

/-- No rule is skipped: an approval is an approval by every rule. -/
theorem evaluate_approve_iff :
    (evaluate input policy).verdict = .approve ↔
      ∀ rule ∈ rules, (rule input policy).verdict = .approve :=
  compose_eq_approve.trans forall_mem_map

/-- A decision reports what its rules report, and an approval that it is within all limits. -/
theorem mem_evaluate_codes :
    code ∈ (evaluate input policy).codes ↔
      (∃ rule ∈ rules, code ∈ (rule input policy).codes) ∨
        code = .withinAllLimits ∧ (evaluate input policy).verdict = .approve := by
  have hrules : ∀ code, code ∈ ((rules.map fun rule => rule input policy).flatMap
      (·.codes)).eraseDups ↔ ∃ rule ∈ rules, code ∈ (rule input policy).codes := by
    intro code
    rw [mem_eraseDups, flatMap_map, mem_flatMap]
  by_cases happrove : (evaluate input policy).verdict = .approve
  · have hquiet : (((rules.map fun rule => rule input policy).flatMap (·.codes)).eraseDups.all
        (·.informational)) = true := by
      refine all_eq_true.2 fun code hcode => ?_
      obtain ⟨rule, hrule, hmem⟩ := (hrules code).1 hcode
      have hall := (rules_explained input policy rule hrule).1
        (evaluate_approve_iff.1 happrove rule hrule)
      exact all_eq_true.1 hall code hmem
    have hcodes : (evaluate input policy).codes =
        (((rules.map fun rule => rule input policy).flatMap (·.codes)).eraseDups ++
          [ReasonCode.withinAllLimits]).eraseDups := by
      refine if_pos ?_
      rw [hquiet, Bool.and_true]
      exact decide_eq_true happrove
    rw [hcodes, mem_eraseDups, mem_append, hrules, mem_singleton]
    exact or_congr_right (and_iff_left happrove).symm
  · have hcodes : (evaluate input policy).codes =
        ((rules.map fun rule => rule input policy).flatMap (·.codes)).eraseDups := by
      refine if_neg ?_
      rw [Bool.and_eq_true, not_and]
      exact fun h => absurd (of_decide_eq_true h) happrove
    rw [hcodes, hrules]
    exact (or_iff_left fun h => happrove h.2).symm

/-- A decision is an approval exactly when it has no problem to report. -/
theorem problemCodes_eq_nil_iff :
    (evaluate input policy).problemCodes = [] ↔ (evaluate input policy).verdict = .approve := by
  have hcodes : (evaluate input policy).problemCodes = [] ↔
      ∀ rule ∈ rules, (rule input policy).codes.all (·.informational) := by
    simp only [RiskDecision.problemCodes, filter_eq_nil_iff, Bool.not_eq_true,
      Bool.not_eq_false', all_eq_true]
    constructor
    · intro h rule hrule code hcode
      exact h code (mem_evaluate_codes.2 (.inl ⟨rule, hrule, hcode⟩))
    · intro h code hcode
      rcases mem_evaluate_codes.1 hcode with ⟨rule, hrule, hmem⟩ | ⟨rfl, -⟩
      · exact h rule hrule code hmem
      · rfl
  rw [hcodes, evaluate_approve_iff]
  exact forall₂_congr fun rule hrule => (rules_explained input policy rule hrule).symm

/-- What each of the `rules` may report. -/
def reported : List (List ReasonCode) :=
  [[.accountNotActive], [.amountNotPositive, .assetNotSupported],
    [.destinationNotSignable, .destinationInvalid, .destinationInternal, .knownDestination,
      .newDestination],
    [.assetLimitsNotConfigured], [.perTransactionLimit], [.dailyLimit], [.velocityLimit],
    [.manualReviewThreshold], [.valueUnpriced, .usdReviewThreshold]]

theorem codes_pass_subset (rule : String) (codes : List ReasonCode) :
    (RuleOutcome.pass rule).codes ⊆ codes :=
  nil_subset _

theorem codes_ite_subset [Decidable condition] {yes no : RuleOutcome}
    {codes : List ReasonCode} (hyes : yes.codes ⊆ codes) (hno : no.codes ⊆ codes) :
    (if condition then yes else no).codes ⊆ codes := by
  split
  · exact hyes
  · exact hno

theorem rules_reported (input : RiskInput) (policy : RiskPolicy) :
    List.Forall₂ (fun rule codes => (rule input policy).codes ⊆ codes) rules reported := by
  simp only [rules, reported, forall₂_cons, forall₂_nil_left_iff, and_true]
  refine ⟨?_, ?_, ?_, ?_, ?_, ?_, ?_, ?_, ?_⟩
  · exact codes_ite_subset (List.Subset.refl _) (codes_pass_subset _ _)
  · refine codes_ite_subset (append_subset.2 ⟨?_, ?_⟩) (codes_pass_subset _ _)
    · split <;> simp
    · split <;> simp
  · unfold destinationRule
    split
    · simp
    · simp
    · simp
    · exact codes_ite_subset (by simp) (codes_ite_subset (by simp) (codes_pass_subset _ _))
  · unfold assetLimitsConfiguredRule
    split
    · exact List.Subset.refl _
    · exact codes_pass_subset _ _
  · unfold perTransactionLimitRule
    split
    · exact codes_pass_subset _ _
    · exact codes_ite_subset (List.Subset.refl _) (codes_pass_subset _ _)
  · unfold dailyLimitRule
    split
    · exact codes_pass_subset _ _
    · exact codes_ite_subset (List.Subset.refl _) (codes_pass_subset _ _)
  · exact codes_ite_subset (List.Subset.refl _) (codes_pass_subset _ _)
  · unfold manualReviewThresholdRule
    split
    · exact codes_pass_subset _ _
    · exact codes_ite_subset (codes_pass_subset _ _)
        (codes_ite_subset (List.Subset.refl _) (codes_pass_subset _ _))
  · unfold usdReviewThresholdRule
    split
    · exact codes_pass_subset _ _
    · split
      · simp
      · exact codes_ite_subset (by simp) (nil_subset _)

/-- The two limits over the history are each one rule's to report. -/
theorem history_codes {rule : Rule} (hrule : rule ∈ rules) :
    (.dailyLimit ∈ (rule input policy).codes → rule = dailyLimitRule) ∧
      (.velocityLimit ∈ (rule input policy).codes → rule = velocityRule) := by
  have hother : ∀ {codes : List ReasonCode}, (rule input policy).codes ⊆ codes →
      .dailyLimit ∉ codes → .velocityLimit ∉ codes →
      (.dailyLimit ∈ (rule input policy).codes → rule = dailyLimitRule) ∧
        (.velocityLimit ∈ (rule input policy).codes → rule = velocityRule) :=
    fun hsub hdaily hvelocity =>
      ⟨fun h => absurd (hsub h) hdaily, fun h => absurd (hsub h) hvelocity⟩
  have hall := rules_reported input policy
  simp only [rules, reported, forall₂_cons, forall₂_nil_left_iff, and_true] at hall
  obtain ⟨haccount, hamount, hdestination, hconfigured, hsingle, hdaily, hvelocity, hreview, husd⟩ :=
    hall
  simp only [rules, mem_cons, not_mem_nil, or_false] at hrule
  rcases hrule with rfl | rfl | rfl | rfl | rfl | rfl | rfl | rfl | rfl
  · exact hother haccount (by decide) (by decide)
  · exact hother hamount (by decide) (by decide)
  · exact hother hdestination (by decide) (by decide)
  · exact hother hconfigured (by decide) (by decide)
  · exact hother hsingle (by decide) (by decide)
  · exact ⟨fun _ => rfl, fun h => absurd (hdaily h) (by decide)⟩
  · exact ⟨fun h => absurd (hvelocity h) (by decide), fun _ => rfl⟩
  · exact hother hreview (by decide) (by decide)
  · exact hother husd (by decide) (by decide)

theorem mem_codes_ite [Decidable condition] {rule : String} {verdict : Verdict}
    {detail : List (String × String)} :
    code ∈ (if condition then ⟨rule, verdict, [code], detail⟩ else .pass rule : RuleOutcome).codes ↔
      condition := by
  split
  · rename_i h
    exact ⟨fun _ => h, fun _ => mem_singleton.2 rfl⟩
  · rename_i h
    exact ⟨fun hmem => absurd hmem not_mem_nil, fun hcondition => absurd hcondition h⟩

theorem dailyLimit_mem_codes :
    .dailyLimit ∈ (evaluate input policy).codes ↔
      ∃ limits, policy.assetLimits input.asset = some limits ∧
        limits.dailyLimit < sumSince input (input.now - day) + input.amount := by
  have hrule : .dailyLimit ∈ (evaluate input policy).codes ↔
      .dailyLimit ∈ (dailyLimitRule input policy).codes := by
    rw [mem_evaluate_codes]
    constructor
    · rintro (⟨rule, hrule, hmem⟩ | ⟨⟨⟩, -⟩)
      rwa [(history_codes hrule).1 hmem] at hmem
    · exact fun h => .inl ⟨_, by simp [rules], h⟩
  rw [hrule]
  unfold dailyLimitRule
  cases hlimits : policy.assetLimits input.asset with
  | none => exact ⟨fun h => absurd h not_mem_nil, by rintro ⟨_, ⟨⟩, _⟩⟩
  | some limits =>
    refine mem_codes_ite.trans ⟨fun h => ⟨limits, rfl, h⟩, ?_⟩
    rintro ⟨_, ⟨⟩, h⟩
    exact h

theorem velocityLimit_mem_codes :
    .velocityLimit ∈ (evaluate input policy).codes ↔
      policy.velocityMaxCount ≤ (input.recentWithdrawals.filter fun w =>
        input.now - policy.velocityWindowMinutes * 60 * 1000 ≤ w.createdAt).length := by
  have hrule : .velocityLimit ∈ (evaluate input policy).codes ↔
      .velocityLimit ∈ (velocityRule input policy).codes := by
    rw [mem_evaluate_codes]
    constructor
    · rintro (⟨rule, hrule, hmem⟩ | ⟨⟨⟩, -⟩)
      rwa [(history_codes hrule).2 hmem] at hmem
    · exact fun h => .inl ⟨_, by simp [rules], h⟩
  rw [hrule]
  exact mem_codes_ite

theorem dailyLimitRule_approve {limits : AssetLimits}
    (hlimits : policy.assetLimits input.asset = some limits)
    (h : (dailyLimitRule input policy).verdict = .approve) :
    sumSince input (input.now - day) + input.amount ≤ limits.dailyLimit := by
  unfold dailyLimitRule at h
  rw [hlimits] at h
  simp only at h
  split at h
  · cases h
  · rename_i hle
    exact not_lt.1 hle

end AtlasCex.Risk

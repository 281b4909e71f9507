import AtlasCex.Lib.Selection
import AtlasCex.Withdrawals.RollingCap
/-!
# What the limits compare

`request` inserts its row before `buildRiskInput` lists the recent withdrawals, and
`listRecentForUser` leaves out rejected rows only. So the list a request is judged by holds the
request itself and the movements between tiers (`purpose` other than external), and nothing older
than 24 hours even when the velocity window is longer. The daily rule adds the amount again to a sum
that has it already.

`limits_exact_iff`: both limits are decided by the other withdrawals, as ADR-0010 has it, just where
what the list holds beyond them (`surplus`, `ownCount`) and what it leaves out (`unlisted`) does not
take the total or the count over a limit, or keep it below. `limits_count_themselves` is the first
withdrawal of an account, refused by a limit it is within.
-/
namespace AtlasCex.Withdrawals.Service

open List
open Ledger (UserId AssetKey)
open Desk (usdc)
open Risk (RiskInput AccountStatus DestinationCheck PriorDestination WithdrawalHistoryEntry day)

variable {config : Config} {s t : Service} {w : WithdrawalId} {d : Details}

/-- The user's withdrawals but one. -/
def others (s : Service) (w : WithdrawalId) (userId : UserId) : List (WithdrawalId × Details) :=
  s.desk.withdrawals.filter fun row => row.1 ≠ w && row.2.userId = userId

/-- What the user's other external withdrawals of the asset come to, of the last 24 hours and not
rejected. -/
def otherTotal (s : Service) (w : WithdrawalId) (d : Details) (now : Int) : Int :=
  total ((s.others w d.userId).filter fun row =>
    row.2.purpose = .external && row.2.asset = d.asset && s.status row.1 ≠ .rejected &&
      now - day ≤ s.createdAt row.1)

/-- How many other withdrawals the user has made since. -/
def otherCount (s : Service) (w : WithdrawalId) (d : Details) (since : Int) : Nat :=
  ((s.others w d.userId).filter fun row => since ≤ s.createdAt row.1).length

/-- Where the velocity window starts. -/
def velocityStart (config : Config) (now : Int) : Int :=
  now - config.policy.velocityWindowMinutes * 60 * 1000

/-! ## The list a request is judged by -/

/-- The request's own row, if the list has it. -/
def ownRow (s : Service) (w : WithdrawalId) (d : Details) (since : Int) :
    List (WithdrawalId × Details) :=
  if since ≤ s.createdAt w && s.status w ≠ .rejected then [(w, d)] else []

/-- The list is the request's own row and those of the others. -/
theorem listRecentForUser_perm (hdistinct : (s.desk.withdrawals.map Prod.fst).Nodup)
    (hrow : (w, d) ∈ s.desk.withdrawals) (since : Int) :
    (s.listRecentForUser d.userId since).Perm (s.ownRow w d since ++
      (s.others w d.userId).filter fun row =>
        since ≤ s.createdAt row.1 && s.status row.1 ≠ .rejected) := by
  have hsplit := (Lib.perm_cons_filter_ne hdistinct hrow).filter fun row =>
    row.2.userId = d.userId && since ≤ s.createdAt row.1 && s.status row.1 ≠ .rejected
  have hothers : (s.desk.withdrawals.filter fun row => row.1 ≠ w).filter (fun row =>
        row.2.userId = d.userId && since ≤ s.createdAt row.1 && s.status row.1 ≠ .rejected) =
      (s.others w d.userId).filter fun row =>
        since ≤ s.createdAt row.1 && s.status row.1 ≠ .rejected := by
    unfold others
    rw [filter_filter, filter_filter]
    refine filter_congr fun row _ => ?_
    grind
  rw [filter_cons, hothers] at hsplit
  refine hsplit.trans (.of_eq ?_)
  unfold ownRow
  simp only [decide_true, Bool.true_and]
  split <;> rfl

/-- What the list adds to the others' total: the request's own row, and movements between tiers. -/
def surplus (s : Service) (w : WithdrawalId) (d : Details) (now : Int) : Int :=
  total (s.ownRow w d (now - day)) + total ((s.others w d.userId).filter fun row =>
    row.2.purpose ≠ .external && row.2.asset = d.asset && s.status row.1 ≠ .rejected &&
      now - day ≤ s.createdAt row.1)

/-- Other withdrawals made since that the list leaves out: rejected, or older than a day. -/
def unlisted (s : Service) (w : WithdrawalId) (d : Details) (now since : Int) : Nat :=
  ((s.others w d.userId).filter fun row => since ≤ s.createdAt row.1 &&
    (s.status row.1 = .rejected || s.createdAt row.1 < now - day)).length

/-- One if the request's own row is in the list and made since. -/
def ownCount (s : Service) (w : WithdrawalId) (d : Details) (now since : Int) : Nat :=
  ((s.ownRow w d (now - day)).filter fun row => since ≤ s.createdAt row.1).length

theorem total_nonneg (rows : List (WithdrawalId × Details)) : 0 ≤ total rows := by
  refine sum_nonneg fun amount hamount => ?_
  obtain ⟨row, -, rfl⟩ := mem_map.1 hamount
  exact Int.le_of_lt row.2.positive

theorem surplus_nonneg (now : Int) : 0 ≤ s.surplus w d now :=
  Int.add_nonneg (total_nonneg _) (total_nonneg _)

section Judged

variable {input : RiskInput} {now : Int} (hdistinct : (s.desk.withdrawals.map Prod.fst).Nodup)
  (hrow : (w, d) ∈ s.desk.withdrawals)
  (hrecent : input.recentWithdrawals =
    (s.listRecentForUser d.userId (now - day)).map s.historyEntry)
include hdistinct hrow hrecent

theorem sumSince_listed (hasset : input.asset = d.asset) :
    Risk.sumSince input (now - day) = s.otherTotal w d now + s.surplus w d now := by
  have hown : (s.ownRow w d (now - day)).filter (fun row =>
      now - day ≤ s.createdAt row.1 && row.2.asset = input.asset) = s.ownRow w d (now - day) := by
    refine filter_eq_self.2 fun row hmem => ?_
    unfold ownRow at hmem
    grind
  have hlisted := (listRecentForUser_perm hdistinct hrow (now - day)).filter fun row =>
    now - day ≤ s.createdAt row.1 && row.2.asset = input.asset
  rw [filter_append, hown] at hlisted
  -- the others in the list are external or not
  have hsplit := filter_append_perm
    (fun row : WithdrawalId × Details => row.2.purpose = .external)
    (((s.others w d.userId).filter fun row =>
      now - day ≤ s.createdAt row.1 && s.status row.1 ≠ .rejected).filter fun row =>
        now - day ≤ s.createdAt row.1 && row.2.asset = input.asset)
  simp only [filter_filter] at hlisted hsplit
  rw [sumSince_eq_total hrecent, total, ((hlisted.trans (hsplit.symm.append_left _)).map _).sum_eq,
    map_append, map_append, sum_append, sum_append, add_left_comm]
  unfold surplus otherTotal total
  refine congrArg₂ _ (congrArg (fun l => (map _ l).sum) ?_)
    (congrArg _ (congrArg (fun l => (map _ l).sum) ?_)) <;>
    exact filter_congr fun row _ => by grind

theorem countSince_listed (since : Int) :
    (input.recentWithdrawals.filter fun entry => since ≤ entry.createdAt).length +
        s.unlisted w d now since =
      s.otherCount w d since + s.ownCount w d now since := by
  have hcount := ((listRecentForUser_perm hdistinct hrow (now - day)).filter fun row =>
    since ≤ s.createdAt row.1).length_eq
  have hsplit := length_eq_length_filter_add
    (l := (s.others w d.userId).filter fun row => since ≤ s.createdAt row.1)
    fun row => now - day ≤ s.createdAt row.1 && s.status row.1 ≠ .rejected
  have hout : ((s.others w d.userId).filter fun row => since ≤ s.createdAt row.1).filter (fun row =>
      !(now - day ≤ s.createdAt row.1 && s.status row.1 ≠ .rejected)) =
      (s.others w d.userId).filter fun row => since ≤ s.createdAt row.1 &&
        (s.status row.1 = .rejected || s.createdAt row.1 < now - day) := by
    rw [filter_filter]
    exact filter_congr fun row _ => by grind
  rw [hout, filter_comm] at hsplit
  rw [filter_append, length_append] at hcount
  have hmap : (input.recentWithdrawals.filter fun entry => since ≤ entry.createdAt).length =
      ((s.listRecentForUser d.userId (now - day)).filter fun row =>
        since ≤ s.createdAt row.1).length := by
    rw [hrecent, filter_map, length_map]
    rfl
  unfold unlisted otherCount ownCount
  omega

end Judged

/-! ## The decision -/

/-- The steps that judge a request: it lists the recent withdrawals, then the prior destinations, and
evaluates. -/
def judge (config : Config) (s : Service) (w : WithdrawalId) (d : Details) (destination : String)
    (now : Int) (status : AccountStatus) (check : DestinationCheck)
    (valueUsdMicros : Option (Option Int)) : List Label :=
  let recent := (s.listRecentForUser d.userId (now - day)).map s.historyEntry
  let prior :=
    s.listPriorDestinations d.userId (now - config.policy.knownDestinationWindowDays * day)
  [.call (.readRecent w d destination now status) .ok,
    .call (.readPrior w d destination now status recent) .ok,
    .call (.evaluate w d destination now status recent prior) (.check check valueUsdMicros)]

/-- What the list has too much or too little decides neither limit. -/
structure Undisturbed (config : Config) (s : Service) (w : WithdrawalId) (d : Details) (now : Int) :
    Prop where
  total : ∀ limits, config.policy.assetLimits d.asset = some limits →
    limits.dailyLimit < d.amount + s.otherTotal w d now ∨
      d.amount + s.otherTotal w d now + s.surplus w d now ≤ limits.dailyLimit
  count : config.policy.velocityMaxCount ≤ s.otherCount w d (velocityStart config now) ↔
    config.policy.velocityMaxCount + s.unlisted w d now (velocityStart config now) ≤
      s.otherCount w d (velocityStart config now) + s.ownCount w d now (velocityStart config now)

/-- A call in flight takes its next step. -/
theorem step_call {s' : Service} {call next : Call} {answer : Answer} (hcall : call ∈ s.calls)
    (hact : act config { s with calls := s.calls.erase call } call answer = some (s', some next)) :
    step config s (.call call answer) = some { s' with calls := next :: s'.calls } := by
  simp only [step, if_pos hcall, hact]
  rfl

/-- Judging a waiting request records one decision, on the list as it is. -/
theorem judge_exec {destination : String} {now : Int} {status : AccountStatus}
    (hcall : .readRecent w d destination now status ∈ s.calls) (check : DestinationCheck)
    (valueUsdMicros : Option (Option Int)) :
    ∃ t input, Lib.exec (step config) s
        (judge config s w d destination now status check valueUsdMicros) = some t ∧
      t.decisions = s.decisions ++ [⟨w, input, Risk.evaluate input config.policy⟩] ∧
      input.asset = d.asset ∧ input.amount = d.amount ∧ input.now = now ∧
      input.recentWithdrawals =
        (s.listRecentForUser d.userId (now - day)).map s.historyEntry := by
  let recent := (s.listRecentForUser d.userId (now - day)).map s.historyEntry
  let prior :=
    s.listPriorDestinations d.userId (now - config.policy.knownDestinationWindowDays * day)
  let input : RiskInput := ⟨d.userId, status, d.asset, d.amount, destination, check, prior, recent,
    valueUsdMicros, now⟩
  have hexec : ∃ t, Lib.exec (step config) s
      (judge config s w d destination now status check valueUsdMicros) = some t ∧
      t.decisions = s.decisions ++ [⟨w, input, Risk.evaluate input config.policy⟩] := by
    simp only [judge, Lib.exec]
    rw [step_call hcall rfl, Option.bind_some, step_call mem_cons_self rfl, Option.bind_some,
      step_call mem_cons_self rfl, Option.bind_some]
    exact ⟨_, rfl, rfl⟩
  obtain ⟨t, hexec, hdecisions⟩ := hexec
  exact ⟨t, input, hexec, hdecisions, rfl, rfl, rfl, rfl⟩

/-- **When the limits are exact**: the two rules judge a request by the user's other withdrawals just
where the rest of the list, and what it leaves out, tips neither limit. -/
theorem limits_exact_iff {run : List Label} (hrun : Lib.exec (step config) initial run = some s)
    {destination : String} {now : Int} {status : AccountStatus}
    (hcall : .readRecent w d destination now status ∈ s.calls)
    (check : DestinationCheck) (valueUsdMicros : Option (Option Int)) :
    ∃ t e, Lib.exec (step config) s
        (judge config s w d destination now status check valueUsdMicros) = some t ∧
      t.decisions = s.decisions ++ [e] ∧ e.withdrawal = w ∧
      (((.dailyLimit ∈ e.decision.codes ↔ ∃ limits,
          config.policy.assetLimits d.asset = some limits ∧
            limits.dailyLimit < d.amount + s.otherTotal w d now) ∧
        (.velocityLimit ∈ e.decision.codes ↔
          config.policy.velocityMaxCount ≤ s.otherCount w d (velocityStart config now))) ↔
        Undisturbed config s w d now) := by
  have hkept := kept_run hrun
  have hrow : (w, d) ∈ s.desk.withdrawals := hkept.calls _ hcall
  obtain ⟨t, input, hexec, hdecisions, hasset, hamount, hnow, hrecent⟩ :=
    judge_exec hcall check valueUsdMicros
  refine ⟨t, _, hexec, hdecisions, rfl, ?_⟩
  have hsum := sumSince_listed hkept.distinct hrow hrecent hasset
  have hcount := countSince_listed hkept.distinct hrow hrecent (velocityStart config now)
  have hsurplus : 0 ≤ s.surplus w d now := surplus_nonneg now
  rw [Risk.dailyLimit_mem_codes, Risk.velocityLimit_mem_codes, hasset, hamount, hnow, hsum,
    ← velocityStart]
  constructor
  · rintro ⟨hdaily, hvelocity⟩
    refine ⟨fun limits hlimits => ?_, by omega⟩
    by_cases hover : limits.dailyLimit < s.otherTotal w d now + s.surplus w d now + d.amount
    · obtain ⟨limits', hlimits', hless⟩ := hdaily.1 ⟨limits, hlimits, hover⟩
      cases hlimits.symm.trans hlimits'
      exact .inl hless
    · exact .inr (by omega)
  · rintro ⟨htotal, hvelocity⟩
    refine ⟨exists_congr fun limits => and_congr_right fun hlimits => ?_, by omega⟩
    have := htotal limits hlimits
    omega

/-- Two requests of 30 on the same day; the second is about to list. -/
def twoRequests : List Label :=
  [.request 7 (thirty "w7") ⟨"out", "k7", 0⟩, .request 8 (thirty "w8") ⟨"out", "k8", 5⟩,
    .call (.evaluating 8 (thirty "w8") "out") .ok,
    .call (.readUser 8 (thirty "w8") "out") (.user 8 .active)]

theorem limits_exact_two_requests : ∃ s t e,
    Lib.exec (step sampleConfig) initial twoRequests = some s ∧
    Lib.exec (step sampleConfig) s
      (judge sampleConfig s 8 (thirty "w8") "out" 8 .active (.ok false) none) = some t ∧
    t.decisions = s.decisions ++ [e] ∧
    (.dailyLimit ∈ e.decision.codes ↔
      ∃ limits, sampleConfig.policy.assetLimits usdc = some limits ∧ limits.dailyLimit < 30 + 30) ∧
    (.velocityLimit ∈ e.decision.codes ↔ 10 ≤ 1) := by
  obtain ⟨s, hs, hcall, htotal, hsurplus, hcount, hvelocity⟩ : ∃ s,
      Lib.exec (step sampleConfig) initial twoRequests = some s ∧
      .readRecent 8 (thirty "w8") "out" 8 .active ∈ s.calls ∧
      s.otherTotal 8 (thirty "w8") 8 = 30 ∧ s.surplus 8 (thirty "w8") 8 = 30 ∧
      s.otherCount 8 (thirty "w8") (velocityStart sampleConfig 8) = 1 ∧
      (10 ≤ 1 ↔ 10 + s.unlisted 8 (thirty "w8") 8 (velocityStart sampleConfig 8) ≤
        1 + s.ownCount 8 (thirty "w8") 8 (velocityStart sampleConfig 8)) :=
    Lib.exec_reaches (by decide +kernel)
  obtain ⟨t, e, ht, hdecisions, -, hexact⟩ := limits_exact_iff hs hcall (.ok false) none
  rw [htotal, hcount] at hexact
  refine ⟨s, t, e, hs, ht, hdecisions, hexact.2 ⟨fun limits hlimits => ?_, ?_⟩⟩
  · simp only [sampleConfig, thirty, if_true, Option.some.injEq] at hlimits
    subst hlimits
    rw [htotal, hsurplus]
    exact .inr (by decide)
  · rw [hcount]
    exact hvelocity

/-- One withdrawal an hour, and at most 100 a day. -/
def tightConfig : Config :=
  { sampleConfig with policy := { sampleConfig.policy with velocityMaxCount := 1 } }

def sixty : Details := ⟨"w7", "alice", usdc, 60, .external, by decide⟩

/-- The first withdrawal of an account, of 60. -/
def firstRequest : List Label :=
  [.request 7 sixty ⟨"out", "k7", 0⟩, .call (.evaluating 7 sixty "out") .ok,
    .call (.readUser 7 sixty "out") (.user 8 .active)]

/-- There is no other withdrawal, 60 is within the limit of 100, and both limits refuse it. -/
theorem limits_count_themselves : ∃ s,
    Lib.exec (step tightConfig) initial firstRequest = some s ∧
    s.others 7 "alice" = [] ∧ s.otherTotal 7 sixty 8 = 0 ∧
    (tightConfig.policy.assetLimits usdc).map (·.dailyLimit) = some 100 ∧
    s.otherCount 7 sixty (velocityStart tightConfig 8) < tightConfig.policy.velocityMaxCount ∧
    ((Lib.exec (step tightConfig) s
      (judge tightConfig s 7 sixty "out" 8 .active (.ok false) none)).map fun t =>
        t.decisions.map (·.decision.codes)) = some [[.dailyLimit, .velocityLimit]] :=
  Lib.exec_reaches (by decide +kernel)

end AtlasCex.Withdrawals.Service

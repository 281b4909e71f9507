import AtlasCex.Withdrawals.Spend
/-!
# Nonce leases

A withdrawal signs on a nonce account leased to it (`nonce.repository.ts:54-90`). `release` is keyed
by the withdrawal alone and runs outside the guarded transition that follows it, so a retry pass
that listed the withdrawal before another pass requeued it drops whatever lease it finds.

`leases_exclusive`: as long as no retry pass releases a withdrawal that has been claimed again, the
account a transaction is built on stays with its withdrawal from the lease until the withdrawal
leaves `BROADCAST`, and no two withdrawals carry one nonce. `nonce_shared` is a run of the code as
it is: two passes list one expired withdrawal, and the slower one frees the account of the next
attempt.
-/
namespace AtlasCex.Withdrawals
open List

/-- The row carries a nonce that counts. -/
def Withdrawal.Carries (row : Withdrawal) : Prop := row.status = .signed ∨ row.status = .broadcast

instance (row : Withdrawal) : Decidable row.Carries := inferInstanceAs (Decidable (_ ∨ _))

/-- The nonce account a signing worker builds on. -/
def Task.builds : Task → Option (WithdrawalId × AccountId)
  | .readNonce w account => some (w, account)
  | .sign tx | .persist tx => some (tx.withdrawal, tx.account)
  | _ => none

theorem Task.signs_of_builds {task : Task} {w : WithdrawalId} {account : AccountId}
    (h : task.builds = some (w, account)) : task.signs = some w := by
  cases task <;> cases h <;> rfl

theorem Task.GoesOn.builds {task next : Task} {w : WithdrawalId} {account : AccountId}
    (h : task.GoesOn next) (hbuilds : next.builds = some (w, account)) :
    task.builds = some (w, account) := by
  cases h with
  | read => exact hbuilds
  | _ => cases hbuilds

theorem WithdrawalStatus.not_inFlight_of_late {status : WithdrawalStatus}
    (h : status.late = true) : status.inFlight = false := by
  cases status <;> first | rfl | cases h

namespace World

variable {config : Config} {s s' : World} {label : Label} {task : Task} {next : Option Task}
  {w : WithdrawalId} {account : AccountId} {choice : Choice} {row : Withdrawal}

/-! ## One step of a worker -/

/-- A worker builds on what it built on, or on what it has just leased. -/
theorem Worked.builds_next (h : Worked s task choice s' next) {t : Task} (ht : t ∈ next)
    (hbuilds : t.builds = some (w, account)) :
    task.builds = some (w, account) ∨ s'.leases account = .leased w := by
  cases h with
  | stays hnext _ => exact .inl ((hnext t ht).builds hbuilds)
  | sends _ _ hnext => exact .inl ((hnext t ht).builds hbuilds)
  | leases haccount _ =>
    cases ht
    cases hbuilds
    exact .inr haccount
  | signs =>
    cases ht
    exact .inl hbuilds
  | confirms | givesUp | relays | drops =>
    cases ht
    cases hbuilds
  | persists | saves | settles | moves => cases ht

/-- A settlement begins with the row confirmed. -/
theorem Worked.settle_next (h : Worked s task choice s' next) (ht : .settle w ∈ next) :
    (s.rows w).status = .broadcast ∧ (s'.rows w).status = .confirmed := by
  cases h with
  | stays hnext _ => cases hnext _ ht
  | sends _ _ hnext => cases hnext _ ht
  | confirms hstatus =>
    cases ht
    exact ⟨hstatus, by simp⟩
  | _ => cases ht

/-! ## Every step -/

/-- How many workers are signing for the withdrawal. -/
def signers (tasks : List Task) (w : WithdrawalId) : Nat := tasks.countP (·.signs = some w)

structure Leased (s : World) : Prop where
  sole : ∀ w, signers s.tasks w ≤ (decide ((s.rows w).status = .signing)).toNat
  builds : ∀ task ∈ s.tasks, ∀ w account, task.builds = some (w, account) →
    s.leases account = .leased w
  carried : ∀ w, (s.rows w).Carries →
    ∃ account, (s.rows w).nonceAccountId = some account ∧ s.leases account = .leased w
  settling : ∀ w, .settle w ∈ s.tasks → (s.rows w).status.late

/-- No retry pass drops the leases of a withdrawal that has been claimed again. -/
def Unclaimed (s : World) : Label → Bool
  | .work (.dropLease w) _ | .work (.giveUpLease w _) _ => !(s.rows w).status.inFlight
  | _ => true

theorem signers_cons (tasks : List Task) :
    signers (task :: tasks) w = signers tasks w + (decide (task.signs = some w)).toNat := by
  unfold signers
  rw [countP_cons]
  cases decide (task.signs = some w) <;> rfl

theorem signers_erase {tasks : List Task} (hmem : task ∈ tasks) :
    signers tasks w = signers (tasks.erase task) w + (decide (task.signs = some w)).toNat := by
  rw [← signers_cons]
  exact (perm_cons_erase hmem).countP_eq _

theorem Leased.signing (h : Leased s) (hmem : task ∈ s.tasks) (hsigns : task.signs = some w) :
    (s.rows w).status = .signing := by
  have hsole := h.sole w
  rw [signers_erase hmem, hsigns] at hsole
  by_contra hne
  rw [decide_eq_true rfl, decide_eq_false hne] at hsole
  exact absurd hsole (Nat.not_succ_le_zero _)

theorem Leased.signers_rest (h : Leased s) (hmem : task ∈ s.tasks) (hsigns : task.signs = some w) :
    signers (s.tasks.erase task) w = 0 := by
  have hsole := (h.sole w).trans (Bool.toNat_le _)
  rw [signers_erase hmem, decide_eq_true hsigns] at hsole
  exact Nat.le_zero.1 (Nat.le_of_add_le_add_right hsole)

/-- A worker hands over to at most one other, in the same role. -/
theorem signers_next {tasks : List Task} (hmem : task ∈ tasks)
    (hnext : ∀ t ∈ next, t.signs = task.signs) :
    signers (next.toList ++ tasks.erase task) w ≤ signers tasks w := by
  rw [signers_erase hmem]
  cases next with
  | none => exact Nat.le_add_right _ _
  | some t =>
    change signers (t :: tasks.erase task) w ≤ _
    rw [signers_cons, hnext t rfl]

/-- A task begins that is not at work on `w`. -/
theorem signers_of_ne (tasks : List Task) (h : ∀ t ∈ next, t.signs ≠ some w) :
    signers (next.toList ++ tasks) w = signers tasks w := by
  rw [signers, countP_append, countP_eq_zero.2, Nat.zero_add]
  · rfl
  · simpa using h

/-- A withdrawal keeps its lease as long as it is in flight. -/
theorem Leased.keeps (h : Leased s) (hok : s.Unclaimed label) (hstep : Stepped s label s')
    (hflight : (s.rows w).status.inFlight) (hleased : s.leases account = .leased w) :
    s'.leases account = .leased w := by
  cases hstep with
  | @works task _ _ _ hmem hworked =>
    rcases hworked.leases_cases account with hsame | ⟨_, -, hfree, -⟩ | ⟨w', hrel, hw', -⟩
    · exact hsame.trans hleased
    · exact absurd (hleased.symm.trans hfree) nofun
    · -- the leases of `w` are dropped: by its settlement, or by a retry pass
      obtain rfl : w = w' := Lease.leased.inj (hleased.symm.trans hw')
      cases task with
      | settle w' =>
        cases hrel
        have hnot := WithdrawalStatus.not_inFlight_of_late (h.settling w hmem)
        rw [hnot] at hflight
        cases hflight
      | giveUpLease | dropLease =>
        cases hrel
        simp [Unclaimed, hflight] at hok
      | _ => cases hrel
  | _ => exact hleased

theorem Leased.keeps_built (h : Leased s) (hok : s.Unclaimed label) (hstep : Stepped s label s')
    (hmem : task ∈ s.tasks) (hbuilds : task.builds = some (w, account)) :
    s'.leases account = .leased w := by
  have hstatus := h.signing hmem (Task.signs_of_builds hbuilds)
  exact h.keeps hok hstep (by rw [hstatus]; rfl) (h.builds task hmem w account hbuilds)

theorem Leased.keeps_carried (h : Leased s) (hok : s.Unclaimed label) (hstep : Stepped s label s')
    (hcarries : (s.rows w).Carries) :
    ∃ account, (s.rows w).nonceAccountId = some account ∧ s'.leases account = .leased w := by
  obtain ⟨account, haccount, hleased⟩ := h.carried w hcarries
  refine ⟨account, haccount, h.keeps hok hstep ?_ hleased⟩
  rcases hcarries with hstatus | hstatus <;> rw [hstatus] <;> rfl

theorem not_carries (hflight : row.status.inFlight = false) : ¬ row.Carries := by
  rintro (hstatus | hstatus) <;> rw [hstatus] at hflight <;> cases hflight

theorem Leased.work {t : World} (h : Leased s) (hok : s.Unclaimed (.work task choice))
    (hmem : task ∈ s.tasks)
    (hworked : Worked { s with tasks := s.tasks.erase task } task choice t next) :
    Leased (t.spawn next) := by
  have hstep : Stepped s (.work task choice) (t.spawn next) := .works hmem hworked
  have hrows : ∀ w, RowTurns task next w (s.rows w) (t.rows w) := hworked.rows
  constructor
  case sole =>
    intro w
    have hle := signers_next (w := w) hmem hworked.signs_next
    have hsole := h.sole w
    rw [hworked.spawn_tasks]
    change _ ≤ (decide ((t.rows w).status = .signing)).toNat
    cases hrows w with
    | same hstatus _ _ _ =>
      rw [hstatus]
      exact hle.trans hsole
    | passes _ hpasses _ =>
      rw [decide_eq_false (WithdrawalStatus.passesOn_spec hpasses).1] at hsole
      exact (hle.trans hsole).trans (Nat.zero_le _)
    | signed htask hw hnext _ _ =>
      subst htask hnext
      exact (h.signers_rest hmem (congrArg some hw)).le.trans (Nat.zero_le _)
    | failed hsigns hnext _ _ =>
      subst hnext
      exact (h.signers_rest hmem hsigns).le.trans (Nat.zero_le _)
  case builds =>
    intro t' ht' w account hbuilds
    rw [hworked.spawn_tasks] at ht'
    rcases mem_append.1 ht' with ht' | ht'
    · rcases hworked.builds_next (Option.mem_toList.1 ht') hbuilds with hb | hleased
      · exact h.keeps_built hok hstep hmem hb
      · exact hleased
    · exact h.keeps_built hok hstep (mem_of_mem_erase ht') hbuilds
  case carried =>
    intro w hcarries
    change (t.rows w).Carries at hcarries
    cases hrows w with
    | same hstatus hbytes _ _ =>
      rw [Withdrawal.Carries, hstatus] at hcarries
      obtain ⟨account, hsome, hleased⟩ := h.keeps_carried hok hstep hcarries
      exact ⟨account, hbytes.nonceAccountId.trans hsome, hleased⟩
    | @signed tx htask hw _ _ hrow =>
      subst htask hw
      exact ⟨tx.account, congrArg Withdrawal.nonceAccountId hrow, h.keeps_built hok hstep hmem rfl⟩
    | failed _ _ _ hstatus' => exact absurd hcarries (not_carries (by rw [hstatus']; rfl))
    | passes _ hpasses _ =>
      exact absurd hcarries (not_carries (WithdrawalStatus.passesOn_spec hpasses).2.1)
  case settling =>
    intro w hsettle
    rw [hworked.spawn_tasks] at hsettle
    change (t.rows w).status.late
    rcases mem_append.1 hsettle with hsettle | hsettle
    · rw [(hworked.settle_next (Option.mem_toList.1 hsettle)).2]
      rfl
    · have hlate := h.settling w (mem_of_mem_erase hsettle)
      cases hrows w with
      | same hstatus _ _ _ => rwa [hstatus]
      | passes _ hpasses _ => exact (WithdrawalStatus.passesOn_spec hpasses).2.2 hlate
      | signed _ _ _ hstatus _ =>
        rw [hstatus] at hlate
        cases hlate
      | failed _ _ hstatus _ =>
        rw [hstatus] at hlate
        cases hlate

/-- A row moves on outside the workers' tasks, and a worker may begin on it. -/
theorem Leased.enters (h : Leased s) (next : Option Task)
    (hrows : s'.rows = Function.update s.rows w row) (hleases : s'.leases = s.leases)
    (htasks : s'.tasks = next.toList ++ s.tasks)
    (hsole : signers s'.tasks w ≤ (decide (row.status = .signing)).toNat)
    (hnext : ∀ t ∈ next, t.builds = none ∧ (∀ w', t ≠ .settle w') ∧ ∀ w', t.signs = some w' → w' = w)
    (hlate : (s.rows w).status.late = false)
    (hcarries : row.Carries → (s.rows w).Carries ∧ row.nonceAccountId = (s.rows w).nonceAccountId) :
    Leased s' := by
  constructor
  case sole =>
    rw [hrows]
    refine (Function.forall_update_iff _ fun w' (row' : Withdrawal) =>
      signers s'.tasks w' ≤ (decide (row'.status = .signing)).toNat).2 ⟨hsole, fun w' hne => ?_⟩
    rw [htasks, signers_of_ne _ fun t ht hw' => hne ((hnext t ht).2.2 w' hw')]
    exact h.sole w'
  case builds =>
    intro task hmem w' account hbuilds
    rw [hleases]
    rw [htasks] at hmem
    rcases mem_append.1 hmem with hmem | hmem
    · rw [(hnext task (Option.mem_toList.1 hmem)).1] at hbuilds
      cases hbuilds
    · exact h.builds task hmem w' account hbuilds
  case carried =>
    rw [hrows, hleases]
    refine (Function.forall_update_iff _ fun w' (row' : Withdrawal) => row'.Carries →
      ∃ account, row'.nonceAccountId = some account ∧ s.leases account = .leased w').2
      ⟨fun hrow => ?_, fun w' _ => h.carried w'⟩
    rw [(hcarries hrow).2]
    exact h.carried w (hcarries hrow).1
  case settling =>
    intro w' hmem
    rw [htasks] at hmem
    rcases mem_append.1 hmem with hmem | hmem
    · exact absurd rfl ((hnext _ (Option.mem_toList.1 hmem)).2.1 w')
    · have hw' := h.settling w' hmem
      have hne : w' ≠ w := by
        rintro rfl
        rw [hlate] at hw'
        cases hw'
      rwa [hrows, Function.update_of_ne hne]

/-- Tasks that sign nothing and settle nothing may come, and any may go. -/
theorem Leased.idle (h : Leased s) (hleases : s'.leases = s.leases) (hrows : s'.rows = s.rows)
    (hsigners : ∀ w, signers s'.tasks w ≤ signers s.tasks w)
    (htasks : ∀ t ∈ s'.tasks, t ∈ s.tasks ∨ t.builds = none ∧ ∀ w, t ≠ .settle w) : Leased s' where
  sole w := by
    rw [hrows]
    exact (hsigners w).trans (h.sole w)
  builds task hmem w account hbuilds := by
    rw [hleases]
    rcases htasks task hmem with hmem | ⟨hnone, -⟩
    · exact h.builds task hmem w account hbuilds
    · rw [hnone] at hbuilds
      cases hbuilds
  carried := by
    rw [hrows, hleases]
    exact h.carried
  settling w hmem := by
    rw [hrows]
    rcases htasks _ hmem with hmem | ⟨-, hne⟩
    · exact h.settling w hmem
    · exact absurd rfl (hne w)

theorem Listed.kept (h : s.Listed task) :
    task.signs = none ∧ task.builds = none ∧ ∀ w, task ≠ .settle w := by
  cases h <;> exact ⟨rfl, rfl, nofun⟩

theorem Leased.step (h : Leased s) (hok : s.Unclaimed label)
    (hstep : World.step config s label = some s') : Leased s' := by
  cases step_stepped hstep with
  | works hmem hworked => exact h.work hok hmem hworked
  | @locks w hstatus =>
    have hsole := h.sole w
    rw [hstatus] at hsole
    exact h.enters none rfl rfl rfl (hsole.trans (Nat.zero_le _)) nofun (by rw [hstatus]; rfl)
      fun hrow => absurd hrow (not_carries rfl)
  | @signs w hstatus =>
    -- nobody was signing for a withdrawal in the queue
    have hsole := h.sole w
    rw [hstatus] at hsole
    refine h.enters (some (.lease w)) rfl rfl rfl ?_ ?_ (by rw [hstatus]; rfl) ?_
    · change signers (.lease w :: s.tasks) w ≤ _
      rw [signers_cons, Nat.le_zero.1 hsole, Nat.zero_add]
      exact Bool.toNat_le _
    · rintro _ ⟨⟩
      exact ⟨rfl, nofun, fun w' hw' => (Option.some.inj hw').symm⟩
    · rintro (hrow | hrow) <;> cases hrow
  | @broadcasts w task hstatus htask =>
    have hsole := h.sole w
    rw [hstatus] at hsole
    have hsigns : task.signs = none ∧ task.builds = none ∧ ∀ w', task ≠ .settle w' := by
      obtain ⟨tx, -, rfl⟩ | ⟨-, rfl⟩ := htask <;> exact ⟨rfl, rfl, nofun⟩
    refine h.enters (some task) rfl rfl rfl ?_ ?_ (by rw [hstatus]; rfl) fun _ => ⟨.inl hstatus, rfl⟩
    · change signers (task :: s.tasks) w ≤ _
      rw [signers_cons, hsigns.1]
      exact hsole.trans (Nat.zero_le _)
    · rintro _ ⟨⟩
      exact ⟨hsigns.2.1, hsigns.2.2, fun w' hw' => by rw [hsigns.1] at hw'; cases hw'⟩
  | @lists _ task htask =>
    refine h.idle rfl rfl (fun w => ?_) fun t ht => ?_
    · change signers (task :: s.tasks) w ≤ _
      rw [signers_cons, htask.kept.1]
      exact Nat.le_refl _
    · obtain rfl | ht := mem_cons.1 ht
      · exact .inr htask.kept.2
      · exact .inl ht
  | crashes _ =>
    exact h.idle rfl rfl (fun _ => erase_sublist.countP_le) fun _ ht => .inl (mem_of_mem_erase ht)
  | chain => exact h.idle rfl rfl (fun _ => Nat.le_refl _) fun _ => .inl

theorem initial_leased : Leased initial := by
  constructor
  · exact fun _ => Nat.zero_le _
  · nofun
  · rintro w (h | h) <;> cases h
  · nofun

/-! ## Every run -/

/-- The account is leased to the withdrawal, and `lease` gives it to no other. -/
structure Owns (config : Config) (s : World) (w : WithdrawalId) (account : AccountId) : Prop where
  leased : s.leases account = .leased w
  sole : ∀ w' available s', s.leaseFor config w' available = some (some account, s') → w' = w

theorem owns_of_leased (h : s.leases account = .leased w) : Owns config s w account := by
  refine ⟨h, fun w' available s' hlease => ?_⟩
  obtain ⟨⟨⟩, -⟩ | ⟨got, leases, ⟨⟩, rfl, hgot, hleases⟩ := leaseFor_spec hlease
  obtain heq | ⟨hfree, -⟩ := hleases account
  · exact Lease.leased.inj (hgot.symm.trans (heq.trans h))
  · exact absurd (h.symm.trans hfree) nofun

theorem leased_run {run : List Label} (h : Lib.exec (World.step config) initial run = some s)
    (hok : Lib.Along (World.step config) (fun s label => s.Unclaimed label) initial run) :
    Leased s :=
  Lib.exec_inv initial_leased (fun _ _ _ ht hok hstep => ht.step hok hstep) hok h

/-- What a withdrawal holds while it is in flight it holds until it no longer is. -/
theorem Leased.held {run : List Label} (h : Leased s)
    (hexec : Lib.exec (World.step config) s run = some s')
    (hok : Lib.Along (World.step config) (fun s label => s.Unclaimed label) s run)
    (hflight : Lib.Along (World.step config) (fun s _ => (s.rows w).status.inFlight) s run)
    (hleased : s.leases account = .leased w) : s'.leases account = .leased w := by
  have hboth : Lib.Along (World.step config)
      (fun s label => s.Unclaimed label ∧ (s.rows w).status.inFlight) s run :=
    fun pre label t hpre ht => ⟨hok pre label t hpre ht, hflight pre label t hpre ht⟩
  have hinv : Leased s' ∧ s'.leases account = .leased w := by
    refine Lib.exec_inv (I := fun t => Leased t ∧ t.leases account = .leased w) ⟨h, hleased⟩ ?_
      hboth hexec
    rintro t label t' ⟨ht, hl⟩ ⟨hunclaimed, hfl⟩ hstep
    exact ⟨ht.step hunclaimed hstep, ht.keeps hunclaimed (step_stepped hstep) hfl hl⟩
  exact hinv.2

/-- In every run in which no retry pass releases a withdrawal that has been claimed again: no two
withdrawals carry one nonce; the account of a `SIGNED` or `BROADCAST` row is its own; and so is the
account a signing worker builds on, from there for as long as the withdrawal is in flight. -/
theorem leases_exclusive {run : List Label}
    (h : Lib.exec (World.step config) initial run = some s)
    (hok : Lib.Along (World.step config) (fun s label => s.Unclaimed label) initial run) :
    (∀ w w', w ≠ w' → (s.rows w).Carries → (s.rows w').Carries →
      ((s.rows w).nonceAccountId, (s.rows w).nonceValue) ≠
        ((s.rows w').nonceAccountId, (s.rows w').nonceValue)) ∧
    (∀ w, (s.rows w).Carries →
      ∃ account, (s.rows w).nonceAccountId = some account ∧ Owns config s w account) ∧
    ∀ begun rest t task w account, run = begun ++ rest →
      Lib.exec (World.step config) initial begun = some t →
      task ∈ t.tasks → task.builds = some (w, account) →
      Lib.Along (World.step config) (fun u _ => (u.rows w).status.inFlight) t rest →
      Owns config s w account := by
  have hinv := leased_run h hok
  refine ⟨fun w w' hne hw hw' heq => ?_, fun w hw => ?_, ?_⟩
  · obtain ⟨account, haccount, hleased⟩ := hinv.carried w hw
    obtain ⟨account', haccount', hleased'⟩ := hinv.carried w' hw'
    have hsame : some account = some account' :=
      haccount.symm.trans ((congrArg Prod.fst heq).trans haccount')
    cases hsame
    rw [hleased] at hleased'
    cases hleased'
    exact hne rfl
  · obtain ⟨account, haccount, hleased⟩ := hinv.carried w hw
    exact ⟨account, haccount, owns_of_leased hleased⟩
  · rintro begun rest t task w account rfl ht hmem hbuilds hflight
    have hbegun := leased_run ht hok.of_append
    rw [Lib.exec_append, ht] at h
    exact owns_of_leased (hbegun.held h (hok.of_exec ht) hflight
      (hbegun.builds task hmem w account hbuilds))

/-- Claimed, leased and signed. -/
def signOn (tx : Tx) : List Label :=
  [.claimSign tx.withdrawal, .work (.lease tx.withdrawal) (.account (some tx.account)),
    .work (.readNonce tx.withdrawal tx.account) .ok, .work (.sign tx) .ok, .work (.persist tx) .ok]

/-- Another transaction takes the nonce of account 0 before withdrawal 7 is broadcast on it. -/
def expire : List Label :=
  [.advance 0, .finalize 0, .claimBroadcast 7,
    .work (.broadcast 7 ⟨7, 0, 0⟩) (.outcome .nonceAdvanced false), .work (.move 7 .expired) .ok]

/-- A retry pass lists the expired withdrawal and returns it to the queue. -/
def requeued : List Label :=
  [.listRetry 7 .expiry, .work (.dropLease 7) .ok, .work (.move 7 (.retry .expiry)) .ok]

/-- Withdrawal 7 expires on account 0 and is signed again on account 1, and withdrawal 8 signs on
account 0, which is free again. -/
def resigned : List Label :=
  [.lockFunds 7, .lockFunds 8] ++ signOn ⟨7, 0, 0⟩ ++ expire ++ requeued ++ signOn ⟨7, 1, 0⟩ ++
    signOn ⟨8, 0, 1⟩

theorem leases_exclusive_resigned : ∃ s,
    Lib.exec (World.step sampleConfig) initial resigned = some s ∧
      ((s.rows 7).Carries ∧ (s.rows 8).Carries) ∧
      ((s.rows 7).nonceAccountId, (s.rows 7).nonceValue) ≠
        ((s.rows 8).nonceAccountId, (s.rows 8).nonceValue) := by
  obtain ⟨s, hs, hcarry⟩ : ∃ s, Lib.exec (World.step sampleConfig) initial resigned = some s ∧
      ((s.rows 7).Carries ∧ (s.rows 8).Carries) := Lib.exec_reaches (by decide +kernel)
  exact ⟨s, hs, hcarry, (leases_exclusive hs (by decide +kernel)).1 7 8 nofun hcarry.1 hcarry.2⟩

/-- Two passes list withdrawal 7; one returns it to the queue and it is signed on account 1, and
withdrawal 8 on account 0; then the other pass drops the lease of withdrawal 7, and withdrawal 9 signs
on account 1, the only one that is free. Each lease takes the account that was updated longest ago. -/
def overlapping : List Label :=
  [.lockFunds 7, .lockFunds 8, .lockFunds 9] ++ signOn ⟨7, 0, 0⟩ ++ expire ++ [.listRetry 7 .expiry] ++
    requeued ++ signOn ⟨7, 1, 0⟩ ++ signOn ⟨8, 0, 1⟩ ++
    [.work (.dropLease 7) .ok, .work (.move 7 (.retry .expiry)) .ok] ++ signOn ⟨9, 1, 0⟩

/-- Both are `SIGNED` on account 1 at nonce 0, and the account is not withdrawal 7's. -/
theorem nonce_shared : ∃ s,
    Lib.exec (World.step sampleConfig) initial overlapping = some s ∧
      (s.rows 7).status = .signed ∧ (s.rows 9).status = .signed ∧
      ((s.rows 7).nonceAccountId, (s.rows 7).nonceValue) = (some 1, some 0) ∧
      ((s.rows 9).nonceAccountId, (s.rows 9).nonceValue) = (some 1, some 0) ∧
      s.leases 1 = .leased 9 := Lib.exec_reaches (by decide +kernel)

end World
end AtlasCex.Withdrawals

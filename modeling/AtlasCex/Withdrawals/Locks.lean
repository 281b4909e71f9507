import AtlasCex.Withdrawals.Desk
import AtlasCex.Withdrawals.Steps
/-!
# What is locked for a withdrawal

A release is a posting of its own, before the transition to `FAILED` and without a constraint that
there is only one. `Once` says what keeps it to one: a withdrawal that is released is failed or about
to be, by the give-up that released it. Three things break it, and `Careful` excludes them: a second
give-up of the same row, a retry of a row that was released, and a crash between the release and the
transition.

`Once.keeps` is for the steps that post nothing, `Once.lock`, `Once.release` and `Once.settle` are for
the others.
-/
namespace AtlasCex.Withdrawals
open List

/-- Before the lock. -/
def WithdrawalStatus.early : WithdrawalStatus → Bool
  | .requested | .riskEvaluating | .manualReview | .approved | .rejected => true
  | _ => false

/-- The give-up is between its release and its transition. -/
def Task.leaves : Task → Option (WithdrawalId × RetryEdge)
  | .giveUpLease w edge | .move w (.giveUp edge) => some (w, edge)
  | _ => none

/-- Neither a settlement nor a give-up after its release. -/
def Task.plain : Task → Bool
  | .settle _ | .giveUpLease .. | .move _ (.giveUp _) => false
  | _ => true

/-- The tasks that settle, give up or retry. -/
def Task.final : Task → Bool
  | .confirmed _ | .settle _ | .giveUp .. | .giveUpLease .. | .move _ (.retry _) | .move _ (.giveUp _) =>
    true
  | _ => false

theorem Task.plain_iff {task : Task} :
    task.plain = true ↔ task.leaves = none ∧ ∀ w, task ≠ .settle w := by
  cases task with
  | move w m => cases m <;> simp [Task.plain, Task.leaves]
  | _ => simp [Task.plain, Task.leaves]

theorem Task.plain_of_final {task : Task} (h : task.final = false) : task.plain = true := by
  cases task with
  | move w m => cases m <;> first | rfl | cases h
  | _ => first | rfl | cases h

theorem Task.GoesOn.not_final {task t : Task} (h : task.GoesOn t) :
    task.final = false ∧ t.plain = true := by
  cases h with
  | signError hsigns =>
    refine ⟨?_, rfl⟩
    cases task with
    | move w m => cases m <;> first | rfl | cases hsigns
    | _ => first | rfl | cases hsigns
  | _ => exact ⟨rfl, rfl⟩

theorem RetryEdge.status_cases (edge : RetryEdge) :
    edge.status.holdsLock = true ∧ edge.status.early = false ∧ edge.status ≠ .failed ∧
      edge.status ≠ .confirmed ∧ edge.status ≠ .settled := by
  cases edge <;> decide

namespace World

variable {config : Config} {s s' : World} {w : WithdrawalId}

/-! ## The invariant -/

/-- A give-up of `w` is between its release and its transition. -/
def Leaving (s : World) (w : WithdrawalId) (edge : RetryEdge) : Prop :=
  ∃ task ∈ s.tasks, task.leaves = some (w, edge)

structure OnceAt (s : World) (w : WithdrawalId) : Prop where
  locks : s.postings.count (.lock, w) ≤ 1
  locked : (.lock, w) ∈ s.postings → (s.rows w).status.early = false
  released : s.released w = true → (s.rows w).status = .failed ∨
    ∃ edge, (s.rows w).status = edge.status ∧ s.Leaving w edge
  leaving : ∀ edge, s.Leaving w edge → s.released w = true ∧
    ((s.rows w).status = edge.status ∨ (s.rows w).status = .failed)
  settling : .settle w ∈ s.tasks → (s.rows w).status = .confirmed
  settlers : s.tasks.count (.settle w) ≤ 1
  settled : (.settlement, w) ∈ s.postings → (s.rows w).status = .settled
  out : s.postings.count (.release, w) + s.postings.count (.settlement, w) ≤ 1

def Once (s : World) : Prop := ∀ w, OnceAt s w

/-- The withdrawal has something locked. -/
def Holds (s : World) (w : WithdrawalId) : Prop :=
  (s.rows w).status.holdsLock = true ∧ s.released w = false

instance (s : World) (w : WithdrawalId) : Decidable (s.Holds w) := inferInstanceAs (Decidable (_ ∧ _))

theorem OnceAt.not_released (h : OnceAt s w) (hfailed : (s.rows w).status ≠ .failed)
    (hedge : ∀ edge : RetryEdge, (s.rows w).status ≠ edge.status) : s.released w = false := by
  rw [Bool.eq_false_iff]
  intro hreleased
  obtain hstatus | ⟨edge, hstatus, -⟩ := h.released hreleased
  · exact hfailed hstatus
  · exact hedge edge hstatus

theorem released_iff : s.released w = true ↔ 0 < s.postings.count (.release, w) := by
  rw [released, contains_iff_mem, count_pos_iff]

theorem not_released_iff : s.released w = false ↔ s.postings.count (.release, w) = 0 := by
  rw [Bool.eq_false_iff, Ne, released_iff, Nat.pos_iff_ne_zero, not_not]

/-- The row moves on, and what is locked for it stays. -/
structure Passes (s : World) (w : WithdrawalId) (target : WithdrawalStatus) : Prop where
  early : (s.rows w).status.early = target.early
  holds : (s.rows w).status.holdsLock = target.holdsLock
  confirmed : (s.rows w).status ≠ .confirmed
  settled : (s.rows w).status ≠ .settled
  released : s.released w = false

/-- The step posts nothing for `w` and leaves its settlement and its give-up alone. -/
structure CalmAt (s s' : World) (w : WithdrawalId) : Prop where
  postings : ∀ p, s'.postings.count (p, w) = s.postings.count (p, w)
  row : (s'.rows w).status = (s.rows w).status ∨ Passes s w (s'.rows w).status
  settle : s'.tasks.count (.settle w) ≤ s.tasks.count (.settle w)
  leaves : ∀ edge, s'.Leaving w edge ↔ s.Leaving w edge

theorem CalmAt.mem_postings (hc : CalmAt s s' w) (p : Posting) :
    (p, w) ∈ s'.postings ↔ (p, w) ∈ s.postings := by
  rw [← count_pos_iff, hc.postings, count_pos_iff]

theorem CalmAt.released (hc : CalmAt s s' w) : s'.released w = s.released w := by
  rw [Bool.eq_iff_iff, released_iff, released_iff, hc.postings]

theorem OnceAt.calm (h : OnceAt s w) (hc : CalmAt s s' w) : OnceAt s' w := by
  -- a row that was released stays where it is
  have hstays : s.released w = true → (s'.rows w).status = (s.rows w).status := by
    intro hw
    refine hc.row.resolve_right fun hpasses => ?_
    rw [hpasses.released] at hw
    cases hw
  refine ⟨hc.postings _ ▸ h.locks, fun hw => ?_, fun hw => ?_, fun edge hedge => ?_, fun hw => ?_,
    hc.settle.trans h.settlers, fun hw => ?_, ?_⟩
  · have hlocked := h.locked ((hc.mem_postings _).1 hw)
    obtain hsame | hpasses := hc.row
    · rw [hsame, hlocked]
    · rw [← hpasses.early, hlocked]
  · rw [hc.released] at hw
    rw [hstays hw]
    exact (h.released hw).imp_right fun ⟨edge, hstatus, hleaving⟩ =>
      ⟨edge, hstatus, (hc.leaves edge).2 hleaving⟩
  · obtain ⟨hw, hstatus⟩ := h.leaving edge ((hc.leaves edge).1 hedge)
    rw [hc.released, hstays hw]
    exact ⟨hw, hstatus⟩
  · have hcount : 0 < s.tasks.count (.settle w) := (count_pos_iff.2 hw).trans_le hc.settle
    have hstatus := h.settling (count_pos_iff.1 hcount)
    obtain hsame | hpasses := hc.row
    · rw [hsame, hstatus]
    · exact absurd hstatus hpasses.confirmed
  · have hstatus := h.settled ((hc.mem_postings _).1 hw)
    obtain hsame | hpasses := hc.row
    · rw [hsame, hstatus]
    · exact absurd hstatus hpasses.settled
  · rw [hc.postings, hc.postings]
    exact h.out

theorem CalmAt.holds (hc : CalmAt s s' w) : s'.Holds w ↔ s.Holds w := by
  unfold Holds
  rw [hc.released]
  obtain hsame | hpasses := hc.row
  · rw [hsame]
  · rw [hpasses.holds]

/-- What a step that posts nothing keeps. -/
structure Keeps (s s' : World) : Prop where
  once : Once s'
  postings : s'.postings = s.postings
  holds : ∀ w, s'.Holds w ↔ s.Holds w

theorem Keeps.trans {s'' : World} (h : Keeps s s') (h' : Keeps s' s'') : Keeps s s'' :=
  ⟨h'.once, h'.postings.trans h.postings, fun w => (h'.holds w).trans (h.holds w)⟩

/-- A step that posts nothing and leaves settlements and give-ups alone. -/
structure Calm (s s' : World) : Prop where
  postings : s'.postings = s.postings
  rows : ∀ w, (s'.rows w).status = (s.rows w).status ∨ Passes s w (s'.rows w).status
  settle : ∀ w, s'.tasks.count (.settle w) ≤ s.tasks.count (.settle w)
  leaves : ∀ w edge, s'.Leaving w edge ↔ s.Leaving w edge

theorem Calm.calmAt (hc : Calm s s') (w : WithdrawalId) : CalmAt s s' w :=
  ⟨fun _ => by rw [hc.postings], hc.rows w, hc.settle w, hc.leaves w⟩

theorem Once.calm (h : Once s) (hc : Calm s s') : Keeps s s' :=
  ⟨fun w => (h w).calm (hc.calmAt w), hc.postings, fun w => (hc.calmAt w).holds⟩

/-! ## Calm steps -/

/-- The transition keeps what is locked, and is not one of a settlement or a give-up. -/
def Near (source target : WithdrawalStatus) : Prop :=
  source.early = target.early ∧ source.holdsLock = target.holdsLock ∧
    source ∉ [.failed, .signFailed, .broadcastFailed, .expired, .confirmed, .settled]

instance (source target : WithdrawalStatus) : Decidable (Near source target) :=
  inferInstanceAs (Decidable (_ ∧ _ ∧ _))

variable {source target : WithdrawalStatus}

theorem Once.passes (h : Once s) (hstatus : (s.rows w).status = source)
    (hnear : Near source target) : Passes s w target := by
  obtain ⟨hearly, hholds, hsource⟩ := hnear
  subst hstatus
  simp only [mem_cons, not_mem_nil, or_false, not_or] at hsource
  obtain ⟨hfailed, hsign, hbroadcast, hexpired, hconfirmed, hsettled⟩ := hsource
  refine ⟨hearly, hholds, hconfirmed, hsettled, (h w).not_released hfailed fun edge => ?_⟩
  cases edge with
  | sign => exact hsign
  | broadcast => exact hbroadcast
  | expiry => exact hexpired

variable {row : Withdrawal}

theorem rows_update (hrows : s'.rows = Function.update s.rows w row)
    (hrow : row.status = (s.rows w).status ∨ Passes s w row.status) (other : WithdrawalId) :
    (s'.rows other).status = (s.rows other).status ∨ Passes s other (s'.rows other).status := by
  rw [hrows]
  by_cases hother : other = w
  · subst hother
    rw [Function.update_self]
    exact hrow
  · rw [Function.update_of_ne hother]
    exact .inl rfl

theorem Once.rows_set (h : Once s) (target : WithdrawalStatus) (hstatus : (s.rows w).status = source)
    (hnear : Near source target)
    (hrows : s'.rows = Function.update s.rows w { s.rows w with status := target })
    (other : WithdrawalId) :
    (s'.rows other).status = (s.rows other).status ∨ Passes s other (s'.rows other).status :=
  rows_update hrows (.inr (h.passes hstatus hnear)) other

theorem leaving_congr (htasks : ∀ task, task.leaves ≠ none → (task ∈ s'.tasks ↔ task ∈ s.tasks))
    (w : WithdrawalId) (edge : RetryEdge) : s'.Leaving w edge ↔ s.Leaving w edge :=
  exists_congr fun task => and_congr_left fun hleaves => htasks task (by simp [hleaves])

variable {task : Task} {next : Option Task}

/-- A task that is plain is replaced by one that is. -/
theorem Calm.of_next (hpostings : s'.postings = s.postings)
    (hrows : ∀ w, (s'.rows w).status = (s.rows w).status ∨ Passes s w (s'.rows w).status)
    (htasks : s'.tasks = next.toList ++ s.tasks.erase task) (hplain : task.plain = true)
    (hnext : ∀ t ∈ next, t.plain = true) : Calm s s' where
  postings := hpostings
  rows := hrows
  settle w := by
    have hnone : next.toList.count (.settle w) = 0 := by
      refine count_eq_zero.2 fun hmem => ?_
      exact (Task.plain_iff.1 (hnext _ (Option.mem_toList.1 hmem))).2 w rfl
    rw [htasks, count_append, hnone, Nat.zero_add]
    exact erase_sublist.count_le _
  leaves := leaving_congr fun other hother => by
    have hne : other ≠ task := by
      rintro rfl
      exact hother (Task.plain_iff.1 hplain).1
    rw [htasks, mem_append, mem_erase_of_ne hne]
    refine or_iff_right fun hmem => ?_
    exact hother (Task.plain_iff.1 (hnext _ (Option.mem_toList.1 hmem))).1

/-- A task that is plain is done. -/
theorem Calm.done (hpostings : s'.postings = s.postings)
    (hrows : ∀ w, (s'.rows w).status = (s.rows w).status ∨ Passes s w (s'.rows w).status)
    (htasks : s'.tasks = s.tasks.erase task) (hplain : task.plain = true) : Calm s s' :=
  have htasks' : s'.tasks = (none : Option Task).toList ++ s.tasks.erase task := htasks
  .of_next hpostings hrows htasks' hplain (by rintro _ ⟨⟩)

/-- The task only reads, or writes what no lock depends on. -/
theorem Calm.reads (hpostings : s'.postings = s.postings)
    (hrows : s'.rows = s.rows) (htasks : s'.tasks = s.tasks.erase task) (hplain : task.plain = true)
    (hnext : ∀ t ∈ next, t.plain = true) : Calm s (s'.spawn next) :=
  .of_next hpostings (fun w => .inl (by rw [← hrows]; rfl)) (by rw [← htasks]; rfl) hplain hnext

theorem near_of_moves (h : task.moves = some (w, source, target)) (hfinal : task.final = false) :
    Near source target := by
  cases task with
  | persist =>
    cases h
    decide
  | move w' m =>
    cases h
    cases m with
    | retry | giveUp => cases hfinal
    | poolDry | signError | broadcastFailed | expired => decide
  | confirmed | settle => cases hfinal
  | _ => cases h

variable {t : World} {choice : Choice}

theorem Once.work (h : Once s) (hfinal : task.final = false)
    (hworked : Worked { s with tasks := s.tasks.erase task } task choice t next) :
    Calm s (t.spawn next) := by
  refine .of_next ?_ (fun w => ?_) hworked.spawn_tasks (Task.plain_of_final hfinal) ?_
  · cases hworked with
    | settles | givesUp => cases hfinal
    | _ => rfl
  · have hrow : RowTurns task next w (s.rows w) (t.rows w) := hworked.rows w
    show (t.rows w).status = _ ∨ Passes s w (t.rows w).status
    cases hrow with
    | same hstatus _ _ _ => exact .inl hstatus
    | signed _ _ _ hstatus hrow =>
      have hnear : Near .signing .signed := by decide
      rw [hrow]
      exact .inr (h.passes hstatus hnear)
    | failed _ _ hstatus hstatus' =>
      rw [hstatus']
      exact .inr (h.passes hstatus (by decide))
    | passes hmoves _ _ => exact .inr (h.passes rfl (near_of_moves hmoves hfinal))
  · cases hworked with
    | stays hnext _ => exact fun u hu => (hnext u hu).not_final.2
    | sends _ _ hnext => exact fun u hu => (hnext u hu).not_final.2
    | confirms | givesUp | relays => cases hfinal
    | leases | signs | drops =>
      rintro _ ⟨⟩
      rfl
    | persists | saves | settles | moves => nofun

/-! ## Steps that post nothing -/

/-- The give-up finds the row as it was listed and not released, a retry attempts its transition on one
that is not released. -/
def Steady (s : World) : Task → Prop
  | .giveUp w edge => (s.rows w).status = edge.status ∧ s.released w = false
  | .move w (.retry _) => s.released w = false
  | _ => True

/-- And nothing crashes between a release and its transition. -/
def Careful (s : World) : Label → Prop
  | .work task choice => choice = .ok → s.Steady task
  | .crash task => task.leaves = none
  | _ => True

instance (s : World) : DecidablePred s.Steady
  | .giveUp .. => inferInstanceAs (Decidable (_ ∧ _))
  | .move w (.retry _) => inferInstanceAs (Decidable (s.released w = false))
  | .lease .. | .readNonce .. | .sign .. | .persist .. | .broadcast .. | .saveSignature .. | .confirm ..
  | .confirmed .. | .resolve .. | .rebroadcast .. | .settle .. | .giveUpLease .. | .dropLease ..
  | .move _ .poolDry | .move _ .signError | .move _ .broadcastFailed | .move _ .expired
  | .move _ (.giveUp _) => .isTrue trivial

instance (s : World) : DecidablePred s.Careful
  | .work task choice => inferInstanceAs (Decidable (choice = .ok → s.Steady task))
  | .crash task => inferInstanceAs (Decidable (task.leaves = none))
  | .lockFunds .. | .claimSign .. | .claimBroadcast .. | .listConfirm .. | .listRetry .. | .land ..
  | .advance .. | .finalize .. => .isTrue trivial

theorem Calm.added (hpostings : s'.postings = s.postings)
    (hrows : ∀ w, (s'.rows w).status = (s.rows w).status ∨ Passes s w (s'.rows w).status)
    (htasks : s'.tasks = task :: s.tasks) (hplain : task.plain = true) : Calm s s' where
  postings := hpostings
  rows := hrows
  settle w := by
    have hne : task ≠ .settle w := (Task.plain_iff.1 hplain).2 w
    rw [htasks, count_cons_of_ne hne]
  leaves := leaving_congr fun other hother => by
    have hne : other ≠ task := by
      rintro rfl
      exact hother (Task.plain_iff.1 hplain).1
    rw [htasks, mem_cons, or_iff_right hne]

theorem Calm.of_eq (hpostings : s'.postings = s.postings) (hrows : s'.rows = s.rows)
    (htasks : s'.tasks = s.tasks) : Calm s s' where
  postings := hpostings
  rows _ := .inl (by rw [hrows])
  settle _ := by rw [htasks]
  leaves := leaving_congr fun _ _ => by rw [htasks]

theorem Calm.erase (hleaves : task.leaves = none) :
    Calm s { s with tasks := s.tasks.erase task } where
  postings := rfl
  rows _ := .inl rfl
  settle _ := erase_sublist.count_le _
  leaves := leaving_congr fun other hother => by
    refine mem_erase_of_ne ?_
    rintro rfl
    exact hother hleaves

/-- A settlement is begun for a row that has just been confirmed. -/
theorem Once.addSettle (h : Once s) (hstatus : (s.rows w).status = .confirmed)
    (hnone : Task.settle w ∉ s.tasks) : Keeps s (s.spawn (some (.settle w))) := by
  have hleaves : ∀ w' edge, (s.spawn (some (.settle w))).Leaving w' edge ↔ s.Leaving w' edge := by
    refine leaving_congr fun task htask => ?_
    rw [spawn, Option.toList_some, singleton_append, mem_cons, or_iff_right]
    rintro rfl
    exact htask rfl
  refine ⟨fun w' => ?_, rfl, fun _ => Iff.rfl⟩
  by_cases heq : w' = w
  · subst heq
    refine { h _ with
      released := fun hw => ?_
      leaving := fun edge hedge => ?_
      settling := fun _ => hstatus
      settlers := ?_ }
    · refine ((h _).released hw).imp_right ?_
      rintro ⟨edge, hstatus, hleaving⟩
      exact ⟨edge, hstatus, (hleaves _ edge).2 hleaving⟩
    · exact (h _).leaving edge ((hleaves _ edge).1 hedge)
    · change (Task.settle _ :: s.tasks).count _ ≤ 1
      rw [count_cons_self, count_eq_zero.2 hnone]
  · refine (h w').calm ⟨fun _ => rfl, .inl rfl, ?_, hleaves w'⟩
    change (Task.settle w :: s.tasks).count _ ≤ _
    rw [count_cons_of_ne (by simpa using Ne.symm heq)]

theorem Once.confirmed (h : Once s) (hstatus : (s.rows w).status = .broadcast) :
    Keeps s ((({ s with tasks := s.tasks.erase (.confirmed w) } : World).setRow w
      { s.rows w with status := .confirmed }).spawn (some (.settle w))) := by
  have hcalm : Calm s (({ s with tasks := s.tasks.erase (.confirmed w) } : World).setRow w
      { s.rows w with status := .confirmed }) :=
    .done rfl (h.rows_set .confirmed hstatus (by decide) rfl) rfl rfl
  have hkeeps := h.calm hcalm
  refine hkeeps.trans (hkeeps.once.addSettle (by simp) fun hmem => ?_)
  have hsettling := (h w).settling (mem_of_mem_erase hmem)
  rw [hstatus] at hsettling
  cases hsettling

variable {edge : RetryEdge}

theorem Once.retry (h : Once s) (hreleased : s.released w = false) :
    Keeps s ({ s with tasks := s.tasks.erase (.move w (.retry edge)) }.transition w edge.status
      .fundsLocked none) := by
  refine h.calm (.done rfl (fun other => ?_) rfl rfl)
  cases hrow : (s.rows w).transition edge.status .fundsLocked none with
  | none => exact .inl (by simp [transition, hrow])
  | some row =>
    obtain ⟨hstatus, hrow'⟩ := Withdrawal.transition_eq hrow
    have hedge := edge.status_cases
    refine rows_update (w := w) (by simp [transition, hrow]; rfl) (.inr ?_) other
    have htarget : row.status = .fundsLocked := by rw [hrow', Withdrawal.increment_status]
    rw [htarget]
    refine ⟨?_, ?_, ?_, ?_, hreleased⟩
    · rw [hstatus, hedge.2.1]
      rfl
    · rw [hstatus, hedge.1]
      rfl
    · rw [hstatus]
      exact hedge.2.2.2.1
    · rw [hstatus]
      exact hedge.2.2.2.2

/-- The release is done, the lease is dropped, the transition is left. -/
theorem Calm.relay (hmem : .giveUpLease w edge ∈ s.tasks) :
    Calm s (({ s with tasks := s.tasks.erase (.giveUpLease w edge) }.releaseLeases w).spawn
      (some (.move w (.giveUp edge)))) where
  postings := rfl
  rows _ := .inl rfl
  settle w' := by
    change (Task.move w (.giveUp edge) :: s.tasks.erase _).count (.settle w') ≤ _
    rw [count_cons_of_ne (by simp)]
    exact erase_sublist.count_le _
  leaves w' edge' := by
    constructor
    · rintro ⟨task, htask, hleaves⟩
      obtain rfl | htask := mem_cons.1 htask
      · exact ⟨_, hmem, hleaves⟩
      · exact ⟨task, mem_of_mem_erase htask, hleaves⟩
    · rintro ⟨task, htask, hleaves⟩
      by_cases heq : task = .giveUpLease w edge
      · subst heq
        exact ⟨_, mem_cons_self, hleaves⟩
      · exact ⟨task, mem_cons_of_mem _ ((mem_erase_of_ne heq).2 htask), hleaves⟩

theorem transition_failed
    (hstatus : (s.rows w).status = edge.status ∨ (s.rows w).status = .failed) :
    ∃ row : Withdrawal, row.status = .failed ∧
      (s.transition w edge.status .failed none).rows = Function.update s.rows w row := by
  cases hrow : (s.rows w).transition edge.status .failed none with
  | some row =>
    refine ⟨row, ?_, by simp [transition, hrow]⟩
    rw [(Withdrawal.transition_eq hrow).2, Withdrawal.increment_status]
  | none =>
    have hallowed : edge.status.canTransition .failed = true := by cases edge <;> rfl
    have hfailed : (s.rows w).status = .failed := hstatus.resolve_left fun heq => by
      simp [Withdrawal.transition, hallowed, heq] at hrow
    exact ⟨s.rows w, hfailed, by simp [transition, hrow]⟩

/-- A row that was given up is failed, by this transition or before it. -/
theorem Once.failed (h : Once s) (hmem : .move w (.giveUp edge) ∈ s.tasks) :
    Keeps s ({ s with tasks := s.tasks.erase (.move w (.giveUp edge)) }.transition w edge.status
      .failed none) := by
  obtain ⟨hreleased, hstatus⟩ := (h w).leaving edge ⟨_, hmem, rfl⟩
  obtain ⟨-, -, -, hconfirmed, hsettled⟩ := edge.status_cases
  obtain ⟨row, hrow, hrows⟩ := transition_failed
    (s := { s with tasks := s.tasks.erase (.move w (.giveUp edge)) }) hstatus
  set s' := { s with tasks := s.tasks.erase (.move w (.giveUp edge)) }.transition w edge.status
    .failed none
  have hself : (s'.rows w).status = .failed := by simp [hrows, hrow]
  have hothers : ∀ w', w' ≠ w → CalmAt s s' w' := fun w' hne => by
    refine ⟨fun _ => rfl, .inl ?_, erase_sublist.count_le _, fun edge' => ?_⟩
    · rw [hrows, Function.update_of_ne hne]
    · refine exists_congr fun task => and_congr_left fun hleaves => mem_erase_of_ne ?_
      rintro rfl
      cases hleaves
      exact hne rfl
  refine ⟨fun w' => ?_, rfl, fun w' => ?_⟩ <;> by_cases hne : w' = w
  · subst hne
    refine ⟨(h _).locks, fun _ => by rw [hself]; rfl, fun _ => .inl hself, fun _ _ => ⟨hreleased, .inr hself⟩,
      fun hw => ?_, (erase_sublist.count_le _).trans (h _).settlers, fun hw => ?_, (h _).out⟩
    · have hsettling := (h _).settling (mem_of_mem_erase hw)
      obtain hedge | hfailed := hstatus
      · exact absurd (hedge.symm.trans hsettling) hconfirmed
      · rw [hfailed] at hsettling
        cases hsettling
    · have hposted := (h _).settled hw
      obtain hedge | hfailed := hstatus
      · exact absurd (hedge.symm.trans hposted) hsettled
      · rw [hfailed] at hposted
        cases hposted
  · exact (h w').calm (hothers w' hne)
  · subst hne
    have hnot : ∀ t : World, t.released w' = true → ¬ t.Holds w' := fun t ht hholds => by
      rw [Holds, ht] at hholds
      cases hholds.2
    exact iff_of_false (hnot s' hreleased) (hnot s hreleased)
  · exact (hothers w' hne).holds

/-! ## Steps that post -/

/-- What a step that posts for `w` keeps. -/
structure Posts (s s' : World) (p : Posting) (w : WithdrawalId) : Prop where
  once : Once s'
  postings : s'.postings = (p, w) :: s.postings
  holds : ∀ w', w' ≠ w → (s'.Holds w' ↔ s.Holds w')

theorem Once.posts (h : Once s) {p : Posting} (hpostings : s'.postings = (p, w) :: s.postings)
    (hrows : ∀ w', w' ≠ w → s'.rows w' = s.rows w')
    (hsettle : ∀ w', w' ≠ w → s'.tasks.count (.settle w') ≤ s.tasks.count (.settle w'))
    (hleaves : ∀ w', w' ≠ w → ∀ edge, s'.Leaving w' edge ↔ s.Leaving w' edge)
    (hself : OnceAt s' w) : Posts s s' p w := by
  have hothers : ∀ w', w' ≠ w → CalmAt s s' w' := fun w' hne => by
    refine ⟨fun q => ?_, .inl (by rw [hrows w' hne]), hsettle w' hne, hleaves w' hne⟩
    rw [hpostings, count_cons_of_ne]
    rintro ⟨⟩
    exact hne rfl
  refine ⟨fun w' => ?_, hpostings, fun w' hne => (hothers w' hne).holds⟩
  by_cases hne : w' = w
  · subst hne
    exact hself
  · exact (h w').calm (hothers w' hne)

theorem released_cons_of_ne {p : Posting} (hpostings : s'.postings = (p, w) :: s.postings)
    (hp : p ≠ .release) : s'.released w = s.released w := by
  rw [Bool.eq_iff_iff, released_iff, released_iff, hpostings, count_cons_of_ne (by simpa using hp)]

theorem Once.lock (h : Once s) (hstep : s.step config (.lockFunds w) = some s') :
    Posts s s' .lock w ∧ ¬ s.Holds w ∧ s'.Holds w := by
  obtain ⟨row, hrow, rfl⟩ := Option.map_eq_some_iff.1 hstep
  obtain ⟨hstatus, hrow'⟩ := Withdrawal.transition_eq hrow
  have hlocked : row.status = .fundsLocked := by rw [hrow', Withdrawal.increment_status]
  set s' : World := { s.setRow w row with postings := (.lock, w) :: s.postings }
  have hself : (s'.rows w).status = .fundsLocked := by simp [s', hlocked]
  have hunlocked : (.lock, w) ∉ s.postings := fun hmem => by
    have hearly := (h w).locked hmem
    rw [hstatus] at hearly
    cases hearly
  have hunreleased : s.released w = false :=
    (h w).not_released (by simp [hstatus]) fun edge => by rw [hstatus]; cases edge <;> decide
  have hreleased : s'.released w = false := by
    rw [released_cons_of_ne rfl (by decide), hunreleased]
  refine ⟨h.posts rfl (fun w' hne => Function.update_of_ne hne _ _) (fun _ _ => Nat.le_refl _)
    (fun _ _ _ => Iff.rfl) ⟨?_, fun _ => by rw [hself]; rfl, fun hw => ?_, fun edge hedge => ?_,
      fun hw => ?_, (h w).settlers, fun hw => ?_, ?_⟩, ?_, by rw [hself]; rfl, hreleased⟩
  · change ((Posting.lock, w) :: s.postings).count (.lock, w) ≤ 1
    rw [count_cons_self, count_eq_zero.2 hunlocked]
  · rw [hreleased] at hw
    cases hw
  · have hw := ((h w).leaving edge hedge).1
    rw [hunreleased] at hw
    cases hw
  · have hsettling := (h w).settling hw
    rw [hstatus] at hsettling
    cases hsettling
  · obtain ⟨⟨⟩⟩ | hw := mem_cons.1 hw
    have hsettled := (h w).settled hw
    rw [hstatus] at hsettled
    cases hsettled
  · change ((Posting.lock, w) :: s.postings).count (.release, w) +
      ((Posting.lock, w) :: s.postings).count (.settlement, w) ≤ 1
    rw [count_cons_of_ne (by simp), count_cons_of_ne (by simp)]
    exact (h w).out
  · rintro ⟨hholds, -⟩
    rw [hstatus] at hholds
    cases hholds

/-- The release, of a row that is as it was listed. -/
theorem Once.release (h : Once s) (hstatus : (s.rows w).status = edge.status)
    (hunreleased : s.released w = false) (hs' : s' = ({ s with
      tasks := s.tasks.erase (.giveUp w edge)
      postings := (.release, w) :: s.postings } : World).spawn (some (.giveUpLease w edge))) :
    Posts s s' .release w ∧ s.Holds w ∧ ¬ s'.Holds w := by
  obtain ⟨hholds, hearly, -, hconfirmed, hsettled⟩ := edge.status_cases
  have hpostings : s'.postings = (.release, w) :: s.postings := by rw [hs']; rfl
  have hrows : s'.rows = s.rows := by rw [hs']; rfl
  have htasks : s'.tasks = .giveUpLease w edge :: s.tasks.erase (.giveUp w edge) := by rw [hs']; rfl
  have hreleased : s'.released w = true := by
    rw [released_iff, hpostings, count_cons_self]
    exact Nat.succ_pos _
  have hsettle : ∀ w', s'.tasks.count (.settle w') ≤ s.tasks.count (.settle w') := fun w' => by
    rw [htasks, count_cons_of_ne (by simp)]
    exact erase_sublist.count_le _
  -- nothing else was giving the row up
  have hleaves : ∀ w' edge', s'.Leaving w' edge' ↔ (w' = w ∧ edge' = edge) ∨ s.Leaving w' edge' := by
    intro w' edge'
    simp only [Leaving, htasks, mem_cons, or_and_right, exists_or, exists_eq_left]
    refine or_congr (by simp [Task.leaves, eq_comm]) (exists_congr fun task => and_congr_left fun hleaves => ?_)
    refine mem_erase_of_ne ?_
    rintro rfl
    cases hleaves
  refine ⟨h.posts hpostings (fun w' _ => by rw [hrows]) (fun w' _ => hsettle w') (fun w' hne edge' => ?_)
    ⟨?_, fun _ => by rw [hrows, hstatus, hearly], fun _ => .inr ⟨edge, by rw [hrows, hstatus], ?_⟩,
      fun edge' hedge' => ⟨hreleased, ?_⟩, fun hw => ?_, (hsettle w).trans (h w).settlers, fun hw => ?_, ?_⟩,
    ⟨by rw [hstatus, hholds], hunreleased⟩, fun hw => ?_⟩
  · rw [hleaves, or_iff_right fun heq => hne heq.1]
  · rw [hpostings, count_cons_of_ne (by simp)]
    exact (h w).locks
  · exact (hleaves w edge).2 (.inl ⟨rfl, rfl⟩)
  · rw [hrows]
    obtain ⟨-, rfl⟩ | hleaving := (hleaves w edge').1 hedge'
    · exact .inl hstatus
    · exact ((h w).leaving edge' hleaving).2
  · have hcount := (count_pos_iff.2 hw).trans_le (hsettle w)
    have hsettling := (h w).settling (count_pos_iff.1 hcount)
    exact absurd (hstatus.symm.trans hsettling) hconfirmed
  · rw [hpostings] at hw
    obtain ⟨⟨⟩⟩ | hw := mem_cons.1 hw
    exact absurd (hstatus.symm.trans ((h w).settled hw)) hsettled
  · have hnone : (Posting.settlement, w) ∉ s.postings := fun hw =>
      hsettled (hstatus.symm.trans ((h w).settled hw))
    rw [hpostings, count_cons_self, not_released_iff.1 hunreleased, count_cons_of_ne (by simp),
      count_eq_zero.2 hnone]
  · rw [Holds, hreleased] at hw
    cases hw.2

theorem Once.settle (h : Once s) (hmem : .settle w ∈ s.tasks)
    (hs' : s' = ({ s with
      tasks := s.tasks.erase (.settle w)
      postings := (.settlement, w) :: s.postings }.transition w .confirmed .settled none).releaseLeases w) :
    Posts s s' .settlement w ∧ s.Holds w ∧ ¬ s'.Holds w := by
  have hstatus := (h w).settling hmem
  have hedge : ∀ edge : RetryEdge, (s.rows w).status ≠ edge.status := fun edge => by
    rw [hstatus]
    exact edge.status_cases.2.2.2.1.symm
  have hunreleased := (h w).not_released (by simp [hstatus]) hedge
  have hpostings : s'.postings = (.settlement, w) :: s.postings := by rw [hs']; rfl
  have htasks : s'.tasks = s.tasks.erase (.settle w) := by rw [hs']; rfl
  obtain ⟨row, hrow, hrows⟩ : ∃ row : Withdrawal, row.status = .settled ∧
      s'.rows = Function.update s.rows w row := by
    refine ⟨{ s.rows w with status := .settled }, rfl, ?_⟩
    have hallowed : WithdrawalStatus.canTransition .confirmed .settled = true := rfl
    simp [hs', transition, releaseLeases, Withdrawal.transition, hallowed, hstatus, Withdrawal.increment]
  have hself : (s'.rows w).status = .settled := by simp [hrows, hrow]
  have hreleased : s'.released w = false := by
    rw [released_cons_of_ne hpostings (by decide), hunreleased]
  have hleaves : ∀ w' edge, s'.Leaving w' edge ↔ s.Leaving w' edge := leaving_congr fun task htask => by
    rw [htasks]
    refine mem_erase_of_ne ?_
    rintro rfl
    exact htask rfl
  have hsettle : ∀ w', s'.tasks.count (.settle w') ≤ s.tasks.count (.settle w') := fun w' => by
    rw [htasks]
    exact erase_sublist.count_le _
  refine ⟨h.posts hpostings (fun w' hne => by rw [hrows, Function.update_of_ne hne])
    (fun w' _ => hsettle w') (fun w' _ => hleaves w')
    ⟨?_, fun _ => by rw [hself]; rfl, fun hw => ?_, fun edge hleaving => ?_, fun hw => ?_,
      (hsettle w).trans (h w).settlers, fun _ => hself, ?_⟩, ⟨by rw [hstatus]; rfl, hunreleased⟩, ?_⟩
  · rw [hpostings, count_cons_of_ne (by simp)]
    exact (h w).locks
  · rw [hreleased] at hw
    cases hw
  · have hw := ((h w).leaving edge ((hleaves w edge).1 hleaving)).1
    rw [hunreleased] at hw
    cases hw
  · -- it was the only settlement of `w`
    have hcount : 0 < s'.tasks.count (.settle w) := count_pos_iff.2 hw
    rw [htasks, count_erase_self] at hcount
    have := (h w).settlers
    omega
  · have hnone : (Posting.settlement, w) ∉ s.postings := fun hw => by
      have hposted := (h w).settled hw
      rw [hstatus] at hposted
      cases hposted
    rw [hpostings, count_cons_self, count_cons_of_ne (by simp), not_released_iff.1 hunreleased,
      count_eq_zero.2 hnone]
  · rintro ⟨hholds, -⟩
    rw [hself] at hholds
    cases hholds

/-! ## Every step -/

/-- What the step posts. -/
def Label.posts : Label → Option (Posting × WithdrawalId)
  | .lockFunds w => some (.lock, w)
  | .work (.giveUp w _) .ok => some (.release, w)
  | .work (.settle w) .ok => some (.settlement, w)
  | _ => none

theorem Listed.plain (h : s.Listed task) : task.plain = true := by
  cases h <;> rfl

/-- What is left of a settlement, a give-up or a retry once its posting is set aside. -/
theorem Once.workFinal (h : Once s) (hmem : task ∈ s.tasks) (hfinal : task.final = true)
    (hposts : Label.posts (.work task choice) = none) (hok : Careful s (.work task choice))
    (hworked : Worked { s with tasks := s.tasks.erase task } task choice t next) :
    Keeps s (t.spawn next) := by
  cases hworked with
  | confirms hstatus => exact h.confirmed hstatus
  | relays => exact h.calm (.relay hmem)
  | @moves w m =>
    cases m with
    | retry edge => exact h.retry (hok rfl)
    | giveUp edge => exact h.failed hmem
    | _ => cases hfinal
  | stays hnext hidle =>
    cases next with
    | none =>
      cases task with
      | confirmed => exact h.calm (.reads rfl rfl rfl rfl nofun)
      | settle | giveUp | giveUpLease | move => exact (hidle rfl).elim
      | _ => cases hfinal
    | some u =>
      rw [(hnext u rfl).not_final.1] at hfinal
      cases hfinal
  | sends hholds _ _ =>
    cases task with
    | confirmed | settle | giveUp | giveUpLease | move => cases hholds
    | _ => cases hfinal
  | settles | givesUp => cases hposts
  | leases | signs | persists | saves | drops => cases hfinal

theorem Once.keeps (h : Once s) {label : Label} (hposts : Label.posts label = none)
    (hok : Careful s label) (hstep : s.step config label = some s') : Keeps s s' := by
  cases step_stepped hstep with
  | locks => cases hposts
  | signs hstatus =>
    exact h.calm (.added rfl (h.rows_set .signing hstatus (by decide) rfl) rfl rfl)
  | @broadcasts w task hstatus htask =>
    have hplain : task.plain = true := by obtain ⟨tx, -, rfl⟩ | ⟨-, rfl⟩ := htask <;> rfl
    exact h.calm (.added rfl (h.rows_set .broadcast hstatus (by decide) rfl) rfl hplain)
  | lists htask => exact h.calm (.added rfl (fun _ => .inl rfl) rfl htask.plain)
  | crashes _ => exact h.calm (.erase hok)
  | chain => exact h.calm (.of_eq rfl rfl rfl)
  | @works task _ _ _ hmem hworked =>
    by_cases hfinal : task.final = true
    · exact h.workFinal hmem hfinal hposts hok hworked
    · exact h.calm (h.work (Bool.eq_false_iff.2 hfinal) hworked)

end World

end AtlasCex.Withdrawals

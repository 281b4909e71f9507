import AtlasCex.Withdrawals.Desk
import AtlasCex.Withdrawals.Leases
/-!
# Withdrawals somebody attends to

The cycles find their work by status: `FUNDS_LOCKED` and `SIGNED` are claimed, `BROADCAST` is listed
for confirmation, the three failed statuses for a retry (`withdrawal-workers.ts:904-938`). `SIGNING`
and `CONFIRMED` are found by nobody: only the worker that moved the row there goes on with it.

`Attended` says that this worker is still there, and that no nonce account is left with a withdrawal
that is over. `Attends` is what a step must meet to keep it so (`Attended.step`): a worker does not
crash with a withdrawal in one of the two statuses, and a withdrawal is not given up while it holds
an account. The latter can happen when a give-up is slower than a stale retry: the withdrawal is
requeued and leases an account again before it is failed.
-/
namespace AtlasCex.Withdrawals

/-- The withdrawal that only this worker goes on with. -/
def Task.keeps : Task → Option WithdrawalId
  | .settle w => some w
  | task => task.signs

namespace World

variable {config : Config} {s s' : World} {label : Label} {task : Task} {next : Option Task}
  {w : WithdrawalId} {row : Withdrawal}

/-! ## One step of a worker -/

theorem releaseLeases_ne (s : World) (w : WithdrawalId) (account : AccountId) :
    (s.releaseLeases w).leases account ≠ .leased w := by
  obtain ⟨hsame, hne⟩ | ⟨-, hfree⟩ := releaseLeases_cases s w account
  · rwa [hsame]
  · rw [hfree]
    nofun

theorem Worked.settled_leases {choice : Choice} (h : Worked s (.settle w) choice s' next)
    (account : AccountId) : s'.leases account ≠ .leased w := by
  cases h with
  | settles => exact releaseLeases_ne _ w account
  | stays hnext hidle =>
    cases next with
    | none => exact (hidle rfl).elim
    | some t =>
      cases hnext t rfl with
      | signError hsigns => cases hsigns
  | sends hholds _ _ => cases hholds

/-- A withdrawal is over by its settlement or by a give-up. -/
theorem Task.moves_over {source target : WithdrawalStatus}
    (hmoves : task.moves = some (w, source, target)) : target.holdsLock = true ∨ task = .settle w ∨
      ∃ edge, task = .move w (.giveUp edge) := by
  cases task with
  | settle =>
    cases hmoves
    exact .inr (.inl rfl)
  | move w' move =>
    cases hmoves
    cases move with
    | giveUp edge => exact .inr (.inr ⟨edge, rfl⟩)
    | _ => exact .inl rfl
  | persist | confirmed =>
    cases hmoves
    exact .inl rfl
  | _ => cases hmoves

/-! ## Nobody is left behind -/

/-- No worker crashes with a withdrawal of its own in `SIGNING` or `CONFIRMED`, and no give-up attempts
its transition with a nonce account leased to the withdrawal. -/
def Attends (config : Config) (s : World) : Label → Prop
  | .crash task => ∀ w ∈ task.keeps,
    (s.rows w).status ≠ .signing ∧ (s.rows w).status ≠ .confirmed
  | .work (.move w (.giveUp _)) _ => ∀ account ∈ config.pool, s.leases account ≠ .leased w
  | _ => True

structure Attended (config : Config) (s : World) : Prop where
  signing : ∀ w, signers s.tasks w = (decide ((s.rows w).status = .signing)).toNat
  confirmed : ∀ w, (s.rows w).status = .confirmed → .settle w ∈ s.tasks
  bytes : ∀ w, (s.rows w).Carries → ∃ tx, (s.rows w).signedTransaction = some tx ∧
    (s.rows w).nonceAccountId = some tx.account ∧ (s.rows w).nonceValue = some tx.nonce
  lag : ∀ account, s.finalized account ≤ s.nonce account
  leased : ∀ account ∈ config.pool, ∀ w, s.leases account = .leased w →
    (s.rows w).status.holdsLock = true

theorem Attended.signer (h : Attended config s) (hstatus : (s.rows w).status = .signing) :
    ∃ task ∈ s.tasks, task.signs = some w := by
  have hcount := h.signing w
  rw [hstatus] at hcount
  obtain ⟨task, hmem, hsigns⟩ := List.countP_pos_iff.1
    (show 0 < signers s.tasks w by rw [hcount]; exact Nat.one_pos)
  exact ⟨task, hmem, of_decide_eq_true hsigns⟩

theorem Attended.status_of_signs (h : Attended config s) (hmem : task ∈ s.tasks)
    (hsigns : task.signs = some w) : (s.rows w).status = .signing := by
  have hcount := h.signing w
  rw [signers_erase hmem, hsigns, decide_eq_true rfl] at hcount
  by_contra hne
  rw [decide_eq_false hne] at hcount
  cases hcount

theorem Attended.initial : Attended config initial where
  signing _ := rfl
  confirmed _ h := by cases h
  bytes _ h := by rcases h with h | h <;> cases h
  lag _ := Nat.le_refl _
  leased _ _ _ h := by cases h

/-- A step that leaves every row and every lease alone, and ends no task that matters. -/
theorem Attended.idle (h : Attended config s) (hrows : s'.rows = s.rows)
    (hleases : s'.leases = s.leases) (hsigners : ∀ w, signers s'.tasks w = signers s.tasks w)
    (hsettle : ∀ w, (s.rows w).status = .confirmed → .settle w ∈ s.tasks → .settle w ∈ s'.tasks)
    (hlag : ∀ account, s'.finalized account ≤ s'.nonce account) : Attended config s' where
  signing w := by rw [hsigners, hrows]; exact h.signing w
  confirmed w hstatus := by
    rw [hrows] at hstatus
    exact hsettle w hstatus (h.confirmed w hstatus)
  bytes := by rw [hrows]; exact h.bytes
  lag := hlag
  leased := by rw [hrows, hleases]; exact h.leased

/-- A row moves on outside the workers' tasks, and a worker may begin on it. -/
theorem Attended.enters (h : Attended config s) (next : Option Task)
    (hrows : s'.rows = Function.update s.rows w row) (hleases : s'.leases = s.leases)
    (hlag : ∀ account, s'.finalized account ≤ s'.nonce account)
    (htasks : s'.tasks = next.toList ++ s.tasks)
    (hsigners : signers s'.tasks w = (decide (row.status = .signing)).toNat)
    (hothers : ∀ t ∈ next, ∀ w', t.signs = some w' → w' = w)
    (hcarries : row.Carries → (s.rows w).Carries) (hbytes : SameBytes (s.rows w) row)
    (hconfirmed : row.status ≠ .confirmed) (hholds : row.status.holdsLock = true) :
    Attended config s' where
  signing := by
    rw [hrows]
    refine (Function.forall_update_iff _ fun w' (row' : Withdrawal) =>
      signers s'.tasks w' = (decide (row'.status = .signing)).toNat).2 ⟨hsigners, fun w' hne => ?_⟩
    rw [htasks, signers_of_ne _ fun t ht hw' => hne (hothers t ht w' hw')]
    exact h.signing w'
  confirmed := by
    rw [hrows, htasks]
    exact (Function.forall_update_iff _ fun w' (row' : Withdrawal) => row'.status = .confirmed →
      .settle w' ∈ next.toList ++ s.tasks).2 ⟨fun hs => absurd hs hconfirmed,
        fun w' _ hs => List.mem_append_right _ (h.confirmed w' hs)⟩
  bytes := by
    rw [hrows]
    refine (Function.forall_update_iff _ fun _ (row' : Withdrawal) => row'.Carries →
      ∃ tx, row'.signedTransaction = some tx ∧ row'.nonceAccountId = some tx.account ∧
        row'.nonceValue = some tx.nonce).2 ⟨fun hrow => ?_, fun w' _ => h.bytes w'⟩
    rw [hbytes.signedTransaction, hbytes.nonceAccountId, hbytes.nonceValue]
    exact h.bytes w (hcarries hrow)
  lag := hlag
  leased account hpool := by
    rw [hrows, hleases]
    exact (Function.forall_update_iff _ fun w' (row' : Withdrawal) =>
      s.leases account = .leased w' → row'.status.holdsLock = true).2
      ⟨fun _ => hholds, fun w' _ => h.leased account hpool w'⟩

/-- A task hands over to the next: who signs changes only where a row leaves `SIGNING`. -/
theorem Attended.signing_work {t : World} (h : Attended config s) (hmem : task ∈ s.tasks)
    (hsigns : ∀ u ∈ next, u.signs = task.signs)
    (hrow : RowTurns task next w (s.rows w) (t.rows w)) :
    signers (next.toList ++ s.tasks.erase task) w =
      (decide ((t.rows w).status = .signing)).toNat := by
  have hcount := h.signing w
  cases hrow with
  | same hstatus _ hgoes _ =>
    rw [hstatus, ← hcount, signers_erase hmem]
    cases next with
    | none =>
      have hw : task.signs ≠ some w := fun hw => hgoes hw (h.status_of_signs hmem hw) rfl
      rw [decide_eq_false hw]
      rfl
    | some u =>
      change signers (u :: s.tasks.erase task) w = _
      rw [signers_cons, hsigns u rfl]
  | signed htask hw hnext hstatus hrow =>
    have hsigns : task.signs = some w := by rw [htask, ← hw]; rfl
    rw [hstatus, signers_erase hmem, decide_eq_true hsigns] at hcount
    rw [hnext, hrow]
    exact Nat.add_right_cancel hcount
  | failed htask hnext hstatus hstatus' =>
    rw [hstatus, signers_erase hmem, decide_eq_true htask] at hcount
    rw [hnext, hstatus']
    exact Nat.add_right_cancel hcount
  | passes _ hpasses _ =>
    obtain ⟨hbefore, hafter, -⟩ := WithdrawalStatus.passesOn_spec hpasses
    have hafter : (t.rows w).status ≠ .signing := by
      intro hs
      rw [hs] at hafter
      cases hafter
    rw [decide_eq_false hbefore] at hcount
    rw [decide_eq_false hafter]
    exact Nat.le_zero.1 ((signers_next hmem hsigns).trans hcount.le)

theorem Attended.work {t : World} {choice : Choice} (h : Attended config s)
    (hok : Attends config s (.work task choice)) (hmem : task ∈ s.tasks)
    (hworked : Worked { s with tasks := s.tasks.erase task } task choice t next) :
    Attended config (t.spawn next) := by
  have hrow : ∀ w, RowTurns task next w (s.rows w) (t.rows w) := hworked.rows
  refine ⟨fun w => ?_, fun w hstatus => ?_, fun w hw => ?_, ?_, fun account hpool w hleased => ?_⟩
  · rw [hworked.spawn_tasks]
    exact h.signing_work hmem hworked.signs_next (hrow w)
  · change (t.rows w).status = _ at hstatus
    rw [hworked.spawn_tasks]
    cases hrow w with
    | same hsame _ _ hsettle =>
      have hs := hsame.symm.trans hstatus
      have hne : Task.settle w ≠ task := fun ht => hsettle ht.symm hs
      exact List.mem_append_right _ ((List.mem_erase_of_ne hne).2 (h.confirmed w hs))
    | passes _ _ hnext =>
      rw [hnext hstatus]
      exact List.mem_cons_self
    | signed _ _ _ _ hrow =>
      rw [hrow] at hstatus
      cases hstatus
    | failed _ _ _ hs' =>
      rw [hs'] at hstatus
      cases hstatus
  · change (t.rows w).Carries at hw
    show ∃ tx, (t.rows w).signedTransaction = _ ∧ (t.rows w).nonceAccountId = _ ∧
      (t.rows w).nonceValue = _
    cases hrow w with
    | same hsame hbytes _ _ =>
      rw [Withdrawal.Carries, hsame] at hw
      rw [hbytes.signedTransaction, hbytes.nonceAccountId, hbytes.nonceValue]
      exact h.bytes w hw
    | @signed tx _ _ _ _ hrow =>
      rw [hrow]
      exact ⟨tx, rfl, rfl, rfl⟩
    | failed _ _ _ hs' => exact absurd hw (not_carries (by rw [hs']; rfl))
    | passes _ hpasses _ => exact absurd hw (not_carries (WithdrawalStatus.passesOn_spec hpasses).2.1)
  · intro account
    change t.finalized account ≤ t.nonce account
    rw [hworked.frame.2.1, hworked.frame.2.2.1]
    exact h.lag account
  · change t.leases account = .leased w at hleased
    change (t.rows w).status.holdsLock = true
    have hbefore : s.leases account = .leased w ∨ task = .lease w := by
      rcases hworked.leases_cases account with hsame | ⟨w', htask, -, hw'⟩ | ⟨_, -, -, hfree⟩
      · exact .inl (hsame.symm.trans hleased)
      · exact .inr (by rw [htask, Lease.leased.inj (hw'.symm.trans hleased)])
      · cases hfree.symm.trans hleased
    cases hrow w with
    | same hsame _ _ _ =>
      rw [hsame]
      rcases hbefore with hl | rfl
      · exact h.leased account hpool w hl
      · rw [h.status_of_signs hmem rfl]
        rfl
    | signed _ _ _ _ hrow => rw [hrow]; rfl
    | failed _ _ _ hs' => rw [hs']; rfl
    | passes hmoves _ _ =>
      rcases Task.moves_over hmoves with hholds | rfl | ⟨edge, rfl⟩
      · exact hholds
      · exact absurd hleased (hworked.settled_leases account)
      · rcases hbefore with hl | hlease
        · exact absurd hl (hok account hpool)
        · cases hlease

theorem Attended.crash (h : Attended config s) (hok : Attends config s (.crash task))
    (hmem : task ∈ s.tasks) : Attended config { s with tasks := s.tasks.erase task } := by
  refine h.idle rfl rfl (fun w => ?_) (fun w hstatus hsettle => ?_) h.lag
  · have hne : task.signs ≠ some w := by
      intro hsigns
      have hkeeps : w ∈ task.keeps := by
        cases task <;> first | exact hsigns | cases hsigns
      exact (hok w hkeeps).1 (h.status_of_signs hmem hsigns)
    rw [signers_erase hmem, decide_eq_false hne]
    rfl
  · refine (List.mem_erase_of_ne ?_).2 hsettle
    rintro rfl
    exact (hok w rfl).2 hstatus

theorem Attended.step (h : Attended config s) (hok : Attends config s label)
    (hstep : World.step config s label = some s') : Attended config s' := by
  have hcount := h.signing
  cases step_stepped hstep with
  | works hmem hworked => exact h.work hok hmem hworked
  | @locks w hstatus =>
    specialize hcount w
    rw [hstatus] at hcount
    exact h.enters none rfl rfl h.lag rfl hcount nofun (fun hrow => absurd hrow (not_carries rfl))
      ⟨rfl, rfl, rfl⟩ nofun rfl
  | @signs w hstatus =>
    specialize hcount w
    rw [hstatus] at hcount
    refine h.enters (some (.lease w)) rfl rfl h.lag rfl ?_ ?_ ?_ ⟨rfl, rfl, rfl⟩ nofun rfl
    · change signers (.lease w :: s.tasks) w = _
      rw [signers_cons, hcount, decide_eq_true (show (Task.lease w).signs = some w from rfl)]
      rfl
    · rintro _ ⟨⟩ w' ⟨⟩
      rfl
    · rintro (hc | hc) <;> cases hc
  | @broadcasts w task hstatus htask =>
    specialize hcount w
    rw [hstatus] at hcount
    obtain ⟨tx, hbytes, -, -⟩ := h.bytes w (.inl hstatus)
    obtain ⟨tx, -, rfl⟩ | ⟨hnone, -⟩ := htask
    · refine h.enters (some (.broadcast w tx)) rfl rfl h.lag rfl ?_ ?_ (fun _ => .inl hstatus)
        ⟨rfl, rfl, rfl⟩ nofun rfl
      · change signers (.broadcast w tx :: s.tasks) w = _
        rw [signers_cons, hcount]
        rfl
      · rintro _ ⟨⟩ w' ⟨⟩
    · rw [hbytes] at hnone
      cases hnone
  | @lists _ task htask =>
    refine h.idle rfl rfl (fun w => ?_) (fun _ _ => List.mem_cons_of_mem _) h.lag
    change signers (task :: s.tasks) w = _
    rw [signers_cons, htask.kept.1]
    rfl
  | crashes hmem => exact h.crash hok hmem
  | chain _ hlag _ => exact h.idle rfl rfl (fun _ => rfl) (fun _ _ => id) (hlag h.lag)

end World
end AtlasCex.Withdrawals

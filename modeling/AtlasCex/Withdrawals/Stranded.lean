import AtlasCex.Withdrawals.Attended
/-!
# Withdrawals that nobody picks up

A worker that crashes while it signs leaves the row in `SIGNING`, one that crashes between
`CONFIRMED` and `SETTLED` leaves it there, and no cycle looks for either. The funds stay locked
(`crash_strands`).

In a state in which every withdrawal is attended to (`Attended.lean`) each one whose funds are locked
can be brought to its end by ordinary cycles with everything healthy (`funds_not_stranded`). `Leads`
is such a continuation on behalf of one withdrawal; there is one lemma for each stage of the workers,
and the attempts left in its budgets bound how often it can go round. Where the pool of nonce accounts
is dry, a withdrawal that holds one is brought to its end first.
-/
namespace AtlasCex.Withdrawals
namespace World

variable {config : Config} {s s' : World} {label : Label} {task : Task} {next : Option Task}
  {w : WithdrawalId} {row : Withdrawal}

/-! ## Ordinary cycles -/

/-- What a chain that answers says of a signature. -/
def finalStatus (s : World) (tx : Tx) : FinalizedStatus :=
  if tx ∈ s.failed then .failed
  else if tx ∈ s.succeeded ∧ tx.nonce < s.finalized tx.account then .final
  else .pending

/-- Every dependency answers, and what it answers is so. -/
def Healthy (config : Config) (s : World) : Task → Choice → Prop
  | _, .throws => False
  | .lease _, .account none => ∀ account ∈ config.pool, s.leases account ≠ .available
  | _, .outcome outcome reached => outcome = .submitted true ∧ reached = true
  | .confirm _ record, .status status => ∀ tx ∈ record.txSignature, status = s.finalStatus tx
  | _, _ => True

/-- A step of a cycle, or of the chain letting a transaction land. A claim takes the oldest row of
its status (`withdrawal.repository.ts:314-330`); withdrawals are numbered as they were created. A listing
reaches any row of its status: the limit of a batch and its order are left out. -/
def Ordinary (config : Config) (s : World) : Label → Prop
  | .claimSign w => ∀ w' < w, (s.rows w').status ≠ .fundsLocked
  | .claimBroadcast w => ∀ w' < w, (s.rows w').status ≠ .signed
  | .listConfirm _ | .listRetry .. | .finalize _ => True
  | .work task choice => Healthy config s task choice
  | .land _ succeeds => succeeds = true
  | .lockFunds _ | .crash _ | .advance _ => False

/-- The withdrawal is over, and nothing is locked for it. -/
def Done (s : World) (w : WithdrawalId) : Prop :=
  (s.rows w).status = .settled ∨ (s.rows w).status = .failed ∧ s.released w = true

/-! ## A continuation on behalf of one withdrawal -/

/-- Ordinary cycles that give nonce accounts to `w` alone and bring no other withdrawal to its
end. -/
structure Serves (config : Config) (w : WithdrawalId) (s s' : World) : Prop where
  reaches : Lib.Reaches (step config) (fun s label => Ordinary config s label ∧ Attends config s label)
    s s'
  leases : ∀ account, s'.leases account = s.leases account ∨ s'.leases account = .available ∨
    s'.leases account = .leased w
  others : ∀ w', w' ≠ w → (s.rows w').status.holdsLock = true → (s'.rows w').status.holdsLock = true

theorem Serves.refl (config : Config) (w : WithdrawalId) (s : World) : Serves config w s s :=
  ⟨.refl s, fun _ => .inl rfl, fun _ _ => id⟩

theorem Serves.trans {s'' : World} (h : Serves config w s s') (h' : Serves config w s' s'') :
    Serves config w s s'' where
  reaches := h.reaches.trans h'.reaches
  leases account := by
    rcases h'.leases account with heq | hfree
    · rw [heq]
      exact h.leases account
    · exact .inr hfree
  others w' hne hw := h'.others w' hne (h.others w' hne hw)

theorem Serves.attended (h : Serves config w s s') (hs : Attended config s) : Attended config s' :=
  h.reaches.keeps hs fun _ _ _ ht hok hstep => ht.step hok.2 hstep

/-- Some such continuation ends in `P`. -/
def Leads (config : Config) (w : WithdrawalId) (s : World) (P : World → Prop) : Prop :=
  ∃ s', Serves config w s s' ∧ P s'

variable {P : World → Prop}

theorem Leads.now (h : P s) : Leads config w s P := ⟨s, .refl config w s, h⟩

theorem Leads.bind {Q : World → Prop} (h : Leads config w s P)
    (h' : ∀ s', Serves config w s s' → P s' → Leads config w s' Q) : Leads config w s Q := by
  obtain ⟨s', hs', hp⟩ := h
  obtain ⟨s'', hs'', hq⟩ := h' s' hs' hp
  exact ⟨s'', hs'.trans hs'', hq⟩

theorem Leads.imp {Q : World → Prop} (h : Leads config w s P) (h' : ∀ s', P s' → Q s') :
    Leads config w s Q := by
  obtain ⟨s', hs', hp⟩ := h
  exact ⟨s', hs', h' s' hp⟩

/-- A step that changes no lease and no other row. -/
theorem Leads.step (label : Label) (hordinary : Ordinary config s label)
    (hattends : Attends config s label) (hstep : World.step config s label = some s')
    (hleases : ∀ account, s'.leases account = s.leases account ∨ s'.leases account = .available ∨
      s'.leases account = .leased w)
    (hothers : ∀ w', w' ≠ w → s'.rows w' = s.rows w') (h : Leads config w s' P) :
    Leads config w s P := by
  have hone : Serves config w s s' :=
    ⟨.one ⟨hordinary, hattends⟩ hstep, hleases, fun w' hne hw => by rwa [hothers w' hne]⟩
  obtain ⟨s'', hs'', hp⟩ := h
  exact ⟨s'', hone.trans hs'', hp⟩

/-- One step of a task; what follows starts with the task it hands over to. -/
theorem Leads.work {t : World} (choice : Choice) (hmem : task ∈ s.tasks)
    (hhealthy : Healthy config s task choice) (hattends : Attends config s (.work task choice))
    (hwork : World.work config { s with tasks := s.tasks.erase task } task choice = some (t, next))
    (hleases : ∀ account, t.leases account = s.leases account ∨ t.leases account = .available ∨
      t.leases account = .leased w)
    (hothers : ∀ w', w' ≠ w → t.rows w' = s.rows w') (h : Leads config w (t.spawn next) P) :
    Leads config w s P := by
  have hstep : World.step config s (.work task choice) = some (t.spawn next) := by
    simp only [World.step, if_pos hmem, hwork, Option.map_some]
  exact .step (.work task choice) hhealthy hattends hstep hleases hothers h

/-- The same, of a step that leaves rows and leases alone. -/
theorem Leads.reads {t : World} (choice : Choice) (hmem : task ∈ s.tasks)
    (hhealthy : Healthy config s task choice) (hattends : Attends config s (.work task choice))
    (hwork : World.work config { s with tasks := s.tasks.erase task } task choice = some (t, next))
    (hleases : t.leases = s.leases) (hrows : t.rows = s.rows)
    (h : Leads config w (t.spawn next) P) : Leads config w s P :=
  .work choice hmem hhealthy hattends hwork (fun account => .inl (by rw [hleases]))
    (fun w' _ => by rw [hrows]) h

theorem mem_spawn (s : World) (task : Task) : task ∈ (s.spawn (some task)).tasks :=
  List.mem_cons_self

/-! ## The stages -/

variable {source : WithdrawalStatus}

theorem transition_some (target : WithdrawalStatus)
    (hlegal : source.canTransition target = true) (hstatus : row.status = source) :
    row.transition source target none = some { row with status := target } := by
  unfold Withdrawal.transition
  rw [hlegal, Bool.true_and, if_pos (decide_eq_true hstatus)]
  rfl

/-- The attempts that are left. -/
def left (config : Config) (row : Withdrawal) : Nat :=
  (config.budget .broadcast - row.broadcastAttempts) + (config.budget .expiry - row.expiryAttempts)

theorem leads_move {move : Move} (hmem : .move w move ∈ s.tasks)
    (hstatus : (s.rows w).status = move.source)
    (hattends : Attends config s (.work (.move w move) .ok)) :
    Leads config w s fun s' =>
      s'.rows w = ({ s.rows w with status := move.target } : Withdrawal).increment move.increment ∧
        s'.postings = s.postings := by
  have hmoved : (({ s with tasks := s.tasks.erase (.move w move) } : World).transition w move.source
      move.target move.increment).rows = Function.update s.rows w
        (({ s.rows w with status := move.target } : Withdrawal).increment move.increment) := by
    rw [transition_setRow move.legal, if_pos hstatus]
    rfl
  refine .work .ok hmem trivial hattends rfl (fun _ => .inl rfl) (fun w' hne => ?_) (.now ⟨?_, rfl⟩)
  · rw [hmoved, Function.update_of_ne hne]
  · show (World.transition _ w _ _ _).rows w = _
    rw [hmoved, Function.update_self]

theorem releaseLeases_free (s : World) (w : WithdrawalId) (account : AccountId) :
    (s.releaseLeases w).leases account = s.leases account ∨
      (s.releaseLeases w).leases account = .available ∨
      (s.releaseLeases w).leases account = .leased w := by
  simp only [releaseLeases]
  split
  · exact .inr (.inl rfl)
  · exact .inl rfl

theorem leads_settled (hmem : .settle w ∈ s.tasks) (hstatus : (s.rows w).status = .confirmed) :
    Leads config w s fun s' => (s'.rows w).status = .settled := by
  have hsettled : (({ s with
        tasks := s.tasks.erase (.settle w), postings := (.settlement, w) :: s.postings } : World).transition
      w .confirmed .settled none).rows =
        Function.update s.rows w { s.rows w with status := .settled } := by
    rw [transition_setRow rfl, if_pos hstatus]
    rfl
  refine .work .ok hmem trivial trivial rfl (releaseLeases_free _ w) (fun w' hne => ?_) (.now ?_)
  · show (World.transition _ w _ _ _).rows w' = _
    rw [hsettled, Function.update_of_ne hne]
  · show ((World.transition _ w _ _ _).rows w).status = _
    rw [hsettled, Function.update_self]

/-- The row is back on a retry edge, with fewer attempts left or none. -/
def Back (config : Config) (row row' : Withdrawal) : Prop :=
  ∃ edge : RetryEdge, row'.status = edge.status ∧
    (left config row' < left config row ∨ config.budget edge ≤ edge.attempts row')

theorem back_broadcastFailed (config : Config) (row : Withdrawal) :
    Back config row
      (({ row with status := .broadcastFailed } : Withdrawal).increment (some .broadcast)) := by
  refine ⟨.broadcast, rfl, ?_⟩
  show (config.budget .broadcast - (row.broadcastAttempts + 1)) +
      (config.budget .expiry - row.expiryAttempts) < left config row ∨
    config.budget .broadcast ≤ row.broadcastAttempts + 1
  unfold left
  omega

theorem back_expired (config : Config) (row : Withdrawal) :
    Back config row (({ row with status := .expired } : Withdrawal).increment (some .expiry)) := by
  refine ⟨.expiry, rfl, ?_⟩
  show (config.budget .broadcast - row.broadcastAttempts) +
      (config.budget .expiry - (row.expiryAttempts + 1)) < left config row ∨
    config.budget .expiry ≤ row.expiryAttempts + 1
  unfold left
  omega

/-- What one confirmation does to a row in `BROADCAST`: it settles it, sends it back, or finds its
nonce unspent and sends the bytes again. -/
inductive Checked (config : Config) (w : WithdrawalId) (row : Withdrawal)
    (finalized nonce : AccountId → Nat) (s' : World) : Prop where
  | settled (h : (s'.rows w).status = .settled)
  | back (h : Back config row (s'.rows w))
  | resent {tx : Tx} (hrow : s'.rows w = row) (hbytes : row.signedTransaction = some tx)
      (hsent : tx ∈ s'.sent) (hfinalized : s'.finalized = finalized) (hnonce : s'.nonce = nonce)
      (hvalue : finalized tx.account = tx.nonce)

theorem leads_confirmed (hmem : .confirmed w ∈ s.tasks) (hstatus : (s.rows w).status = .broadcast) :
    Leads config w s fun s' => (s'.rows w).status = .settled := by
  have hrow := transition_some .confirmed rfl hstatus
  have hwork : World.work config { s with tasks := s.tasks.erase (.confirmed w) } (.confirmed w) .ok =
      some (World.setRow { s with tasks := s.tasks.erase (.confirmed w) } w
        { s.rows w with status := .confirmed }, some (.settle w)) := by
    simp only [World.work, hrow]
  refine .work .ok hmem trivial trivial hwork (fun _ => .inl rfl) (fun w' hne => ?_)
    (leads_settled (mem_spawn _ _) ?_)
  · exact Function.update_of_ne hne ..
  · show (Function.update s.rows w _ w).status = _
    rw [Function.update_self]

variable {tx : Tx}

theorem leads_resolved (hmem : .resolve w row ∈ s.tasks) (hrow : s.rows w = row)
    (hstatus : row.status = .broadcast) (hbytes : row.signedTransaction = some tx)
    (haccount : row.nonceAccountId = some tx.account) (hvalue : row.nonceValue = some tx.nonce) :
    Leads config w s (Checked config w row s.finalized s.nonce) := by
  by_cases hspent : s.finalized tx.account ≠ tx.nonce
  · have hwork : World.work config { s with tasks := s.tasks.erase (.resolve w row) }
        (.resolve w row) .ok =
          some ({ s with tasks := s.tasks.erase (.resolve w row) }, some (.move w .expired)) := by
      simp only [World.work, haccount, hvalue, if_pos hspent]
    refine .reads .ok hmem trivial trivial hwork rfl rfl ?_
    refine Leads.imp (leads_move (mem_spawn _ _) (hrow ▸ hstatus) trivial) fun s' hs' => .back ?_
    rw [hs'.1, ← hrow]
    exact back_expired config (s.rows w)
  · have hwork : World.work config { s with tasks := s.tasks.erase (.resolve w row) }
        (.resolve w row) .ok =
          some ({ s with tasks := s.tasks.erase (.resolve w row) }, some (.rebroadcast tx)) := by
      simp only [World.work, haccount, hvalue, if_neg hspent, hbytes, Option.map_some]
    refine .reads .ok hmem trivial trivial hwork rfl rfl ?_
    refine .reads (.outcome (.submitted true) true) (mem_spawn _ _) ⟨rfl, rfl⟩ trivial rfl rfl rfl
      (.now ?_)
    exact .resent hrow hbytes List.mem_cons_self rfl rfl (not_not.1 hspent)

theorem reports_finalStatus (s : World) (tx : Tx) : s.reports tx (s.finalStatus tx) = true := by
  unfold finalStatus
  by_cases hfailed : tx ∈ s.failed
  · rw [if_pos hfailed]
    exact decide_eq_true hfailed
  · rw [if_neg hfailed]
    by_cases hfinal : tx ∈ s.succeeded ∧ tx.nonce < s.finalized tx.account
    · rw [if_pos hfinal]
      exact decide_eq_true hfinal
    · rw [if_neg hfinal]
      rfl

/-- What follows the status of the stored signature. -/
def afterStatus (w : WithdrawalId) (row : Withdrawal) : FinalizedStatus → Task
  | .final => .confirmed w
  | .pending => .resolve w row
  | .failed => .move w .broadcastFailed

theorem leads_listed (hmem : .confirm w row ∈ s.tasks) (hrow : s.rows w = row)
    (hstatus : row.status = .broadcast) (hbytes : row.signedTransaction = some tx)
    (haccount : row.nonceAccountId = some tx.account) (hvalue : row.nonceValue = some tx.nonce) :
    Leads config w s (Checked config w row s.finalized s.nonce) := by
  cases hsignature : row.txSignature with
  | none =>
    have hwork : World.work config { s with tasks := s.tasks.erase (.confirm w row) }
        (.confirm w row) .ok =
          some ({ s with tasks := s.tasks.erase (.confirm w row) }, some (.resolve w row)) := by
      simp only [World.work, hsignature, if_true]
    refine .reads .ok hmem trivial trivial hwork rfl rfl ?_
    exact leads_resolved (mem_spawn _ _) hrow hstatus hbytes haccount hvalue
  | some signature =>
    have hreports : World.reports { s with tasks := s.tasks.erase (.confirm w row) } signature
        (s.finalStatus signature) = true := reports_finalStatus s signature
    have hhealthy : Healthy config s (.confirm w row) (.status (s.finalStatus signature)) := by
      intro tx' htx'
      rw [hsignature] at htx'
      cases htx'
      rfl
    have hwork : World.work config { s with tasks := s.tasks.erase (.confirm w row) }
        (.confirm w row) (.status (s.finalStatus signature)) =
          some ({ s with tasks := s.tasks.erase (.confirm w row) },
            some (afterStatus w row (s.finalStatus signature))) := by
      cases hstatus : s.finalStatus signature <;> rw [hstatus] at hreports <;>
        simp only [World.work, hsignature, Option.bind_some, if_pos hreports, afterStatus]
    refine .reads _ hmem hhealthy trivial hwork rfl rfl ?_
    cases s.finalStatus signature with
    | final =>
      exact Leads.imp (leads_confirmed (mem_spawn _ _) (hrow ▸ hstatus)) fun _ => .settled
    | pending => exact leads_resolved (mem_spawn _ _) hrow hstatus hbytes haccount hvalue
    | failed =>
      refine Leads.imp (leads_move (mem_spawn _ _) (hrow ▸ hstatus) trivial) fun s' hs' => .back ?_
      rw [hs'.1, ← hrow]
      exact back_broadcastFailed config (s.rows w)

/-- One pass of the confirmation worker over a row in `BROADCAST`. -/
theorem leads_checked (h : Attended config s) (hstatus : (s.rows w).status = .broadcast) :
    Leads config w s (Checked config w (s.rows w) s.finalized s.nonce) := by
  obtain ⟨tx, hbytes, haccount, hvalue⟩ := h.bytes w (.inr hstatus)
  have hlisted : World.step config s (.listConfirm w) =
      some (s.spawn (some (.confirm w (s.rows w)))) := by
    simp only [World.step, if_pos hstatus]
  refine .step (.listConfirm w) trivial trivial hlisted (fun _ => .inl rfl) (fun _ _ => rfl) ?_
  exact leads_listed (mem_spawn _ _) rfl hstatus hbytes haccount hvalue

/-- A row in `BROADCAST` is settled or sent back. Bytes that can land do, and then the nonce has
moved on. -/
theorem leads_landed (h : Attended config s) (hstatus : (s.rows w).status = .broadcast) :
    Leads config w s fun s' => (s'.rows w).status = .settled ∨
      Back config (s.rows w) (s'.rows w) := by
  refine (leads_checked h hstatus).bind fun t hserves hchecked => ?_
  cases hchecked with
  | settled hsettled => exact .now (.inl hsettled)
  | back hback => exact .now (.inr hback)
  | @resent tx hrow hbytes hsent hfinalized hnonce hvalue =>
    -- the nonce is spent now: ours landed, or another took it
    have hspent : ∀ u : World, Attended config u → u.rows w = s.rows w →
        u.finalized tx.account = tx.nonce + 1 → Leads config w u fun s' =>
          (s'.rows w).status = .settled ∨ Back config (s.rows w) (s'.rows w) := by
      intro u hu hurow hufinalized
      refine Leads.imp (leads_checked hu (hurow ▸ hstatus)) fun s' hs' => ?_
      cases hs' with
      | settled hsettled => exact .inl hsettled
      | back hback => exact .inr (hurow ▸ hback)
      | resent _ hbytes' _ _ _ hvalue' =>
        rw [hurow, hbytes] at hbytes'
        cases hbytes'
        omega
    have hfinal : ∀ u : World, Attended config u → u.rows w = s.rows w →
        u.finalized tx.account = tx.nonce → tx.nonce < u.nonce tx.account →
        Leads config w u fun s' =>
          (s'.rows w).status = .settled ∨ Back config (s.rows w) (s'.rows w) := by
      intro u hu hurow hufinalized hunonce
      have hstep : World.step config u (.finalize tx.account) = some { u with
          finalized := Function.update u.finalized tx.account (u.finalized tx.account + 1) } := by
        simp only [World.step, if_pos (hufinalized.symm ▸ hunonce)]
      refine .step (.finalize tx.account) trivial trivial hstep (fun _ => .inl rfl) (fun _ _ => rfl) ?_
      refine hspent _ (hu.step (show Attends config u (.finalize tx.account) from trivial) hstep) hurow ?_
      show Function.update u.finalized _ _ _ = _
      rw [Function.update_self, hufinalized]
    have ht := hserves.attended h
    have htfinalized : t.finalized tx.account = tx.nonce := by rw [hfinalized, hvalue]
    have hlag := ht.lag tx.account
    by_cases hlands : t.nonce tx.account = tx.nonce
    · have hstep : World.step config t (.land tx true) = some { t with
          nonce := Function.update t.nonce tx.account (tx.nonce + 1)
          succeeded := tx :: t.succeeded } := by
        simp only [World.step, if_pos (And.intro hsent hlands), if_true]
      refine .step (.land tx true) rfl trivial hstep (fun _ => .inl rfl) (fun _ _ => rfl) ?_
      refine hfinal _ (ht.step (show Attends config t (.land tx true) from trivial) hstep) hrow htfinalized ?_
      show tx.nonce < Function.update t.nonce _ _ _
      rw [Function.update_self]
      omega
    · exact hfinal t ht hrow htfinalized (by omega)

/-! ## Claims -/

/-- A claim of the oldest row in `source`. -/
structure Claims (config : Config) (claim : WithdrawalId → Label) (source : WithdrawalStatus) :
    Prop where
  ordinary : ∀ s w, (∀ w' < w, (s.rows w').status ≠ source) → Ordinary config s (claim w)
  attends : ∀ s w, Attends config s (claim w)
  takes : ∀ s w, (s.rows w).status = source → ∃ s' row, step config s (claim w) = some s' ∧
    s'.rows = Function.update s.rows w row ∧ row.status ≠ source ∧ row.status.holdsLock = true ∧
    s'.leases = s.leases

theorem step_claimSign (hstatus : (s.rows w).status = .fundsLocked) :
    step config s (.claimSign w) =
      some ((s.setRow w { s.rows w with status := .signing }).spawn (some (.lease w))) := by
  have hrow := transition_some .signing rfl hstatus
  simp only [step, hrow, Option.map_some]

theorem step_claimBroadcast (hstatus : (s.rows w).status = .signed) :
    step config s (.claimBroadcast w) =
      some ((s.setRow w { s.rows w with status := .broadcast }).spawn
        (some (match (s.rows w).signedTransaction with
          | some tx => .broadcast w tx
          | none => .move w .broadcastFailed))) := by
  have hrow := transition_some .broadcast rfl hstatus
  cases htx : (s.rows w).signedTransaction <;> simp only [step, hrow, Option.map_some, htx]

theorem claims_sign (config : Config) : Claims config .claimSign .fundsLocked where
  ordinary _ _ h := h
  attends _ _ := trivial
  takes _ _ hstatus := ⟨_, _, step_claimSign hstatus, rfl, nofun, rfl, rfl⟩

theorem claims_broadcast (config : Config) : Claims config .claimBroadcast .signed where
  ordinary _ _ h := h
  attends _ _ := trivial
  takes _ _ hstatus := ⟨_, _, step_claimBroadcast hstatus, rfl, nofun, rfl, rfl⟩

/-- The older rows are claimed first, by workers that then take their time. -/
theorem leads_oldest {claim : WithdrawalId → Label}
    (h : Claims config claim source) (s : World) (w : WithdrawalId) :
    ∀ n ≤ w, Leads config w s fun s' => s'.rows w = s.rows w ∧ s'.leases = s.leases ∧
      ∀ w' < n, (s'.rows w').status ≠ source := by
  intro n
  induction n with
  | zero => exact fun _ => .now ⟨rfl, rfl, fun w' hw' => absurd hw' (Nat.not_lt_zero w')⟩
  | succ n ih =>
    intro hn
    refine (ih (Nat.le_of_succ_le hn)).bind fun t _ ht => ?_
    obtain ⟨hrow, hleases, holder⟩ := ht
    by_cases hstatus : (t.rows n).status = source
    · obtain ⟨t', row, hstep, hrows, hrow', hholds, hleases'⟩ := h.takes t n hstatus
      have hserves : Serves config w t t' := by
        refine ⟨.one ⟨h.ordinary t n holder, h.attends t n⟩ hstep,
          fun account => .inl (by rw [hleases']), fun w' _ hw' => ?_⟩
        rw [hrows]
        by_cases heq : w' = n
        · subst heq
          rwa [Function.update_self]
        · rwa [Function.update_of_ne heq]
      refine ⟨t', hserves, ?_, by rw [hleases', hleases], fun w' hw' => ?_⟩
      · rw [hrows, Function.update_of_ne (Nat.ne_of_gt hn), hrow]
      · rw [hrows]
        by_cases heq : w' = n
        · subst heq
          rwa [Function.update_self]
        · rw [Function.update_of_ne heq]
          exact holder w' (Nat.lt_of_le_of_ne (Nat.le_of_lt_succ hw') heq)
    · refine .now ⟨hrow, hleases, fun w' hw' => ?_⟩
      by_cases heq : w' = n
      · rwa [heq]
      · exact holder w' (Nat.lt_of_le_of_ne (Nat.le_of_lt_succ hw') heq)

/-! ## From the queue to the chain -/

/-- There is a nonce account for the withdrawal. -/
structure Ready (config : Config) (s : World) (w : WithdrawalId) : Prop where
  attended : Attended config s
  account : ∃ account ∈ config.pool, s.leases account = .available ∨ s.leases account = .leased w

theorem Ready.serves (h : Ready config s w) (hs : Serves config w s s') : Ready config s' w := by
  obtain ⟨account, hpool, hfree⟩ := h.account
  refine ⟨hs.attended h.attended, account, hpool, ?_⟩
  rcases hs.leases account with heq | heq
  · rwa [heq]
  · exact heq

/-- Signed, with the attempts it had. -/
def Signed (config : Config) (row row' : Withdrawal) : Prop :=
  row'.status = .signed ∧ left config row' = left config row

theorem leads_persisted (hmem : .persist tx ∈ s.tasks) (hw : tx.withdrawal = w)
    (hstatus : (s.rows w).status = .signing) :
    Leads config w s fun s' => Signed config (s.rows w) (s'.rows w) := by
  subst hw
  have hrow := transition_some .signed rfl hstatus
  have hwork : World.work config { s with tasks := s.tasks.erase (.persist tx) } (.persist tx) .ok =
      some (World.setRow { s with tasks := s.tasks.erase (.persist tx) } tx.withdrawal
        { s.rows tx.withdrawal with
          status := .signed
          signedTransaction := some tx
          nonceAccountId := some tx.account
          nonceValue := some tx.nonce }, none) := by
    simp only [World.work, hrow]
  refine .work .ok hmem trivial trivial hwork (fun _ => .inl rfl) (fun w' hne => ?_) (.now ?_)
  · exact Function.update_of_ne hne ..
  · show Signed config _ (Function.update s.rows tx.withdrawal _ tx.withdrawal)
    rw [Function.update_self]
    exact ⟨rfl, rfl⟩

theorem leads_signed_bytes (hmem : .sign tx ∈ s.tasks) (hw : tx.withdrawal = w)
    (hstatus : (s.rows w).status = .signing) :
    Leads config w s fun s' => Signed config (s.rows w) (s'.rows w) :=
  .reads .ok hmem trivial trivial rfl rfl rfl (leads_persisted (mem_spawn _ _) hw hstatus)

theorem leads_nonce_read {account : AccountId} (hmem : .readNonce w account ∈ s.tasks)
    (hstatus : (s.rows w).status = .signing) :
    Leads config w s fun s' => Signed config (s.rows w) (s'.rows w) :=
  .reads .ok hmem trivial trivial rfl rfl rfl (leads_signed_bytes (mem_spawn _ _) rfl hstatus)

/-- A lease that does not come back empty. -/
theorem leaseFor_some (h : ∃ account ∈ config.pool, s.leases account = .available ∨
      s.leases account = .leased w) : ∃ available account leases,
    s.leaseFor config w (some available) = some (some account, { s with leases := leases }) ∧
      ∀ other, leases other = s.leases other ∨ leases other = .leased w := by
  obtain ⟨free, hpool, hfree⟩ := h
  unfold World.leaseFor
  cases hheld : config.pool.find? (s.leases · = .leased w) with
  | some held => exact ⟨free, held, s.leases, rfl, fun _ => .inl rfl⟩
  | none =>
    have hnot : s.leases free ≠ .leased w := by
      simpa using List.find?_eq_none.1 hheld free hpool
    have havailable := hfree.resolve_right hnot
    refine ⟨free, free, Function.update s.leases free (.leased w), ?_, fun other => ?_⟩
    · simp only [if_pos (And.intro hpool havailable)]
    · by_cases heq : other = free
      · subst heq
        exact .inr (Function.update_self ..)
      · exact .inl (Function.update_of_ne heq ..)

theorem leads_leased (h : Ready config s w) (hmem : .lease w ∈ s.tasks)
    (hstatus : (s.rows w).status = .signing) :
    Leads config w s fun s' => Signed config (s.rows w) (s'.rows w) := by
  obtain ⟨available, account, leases, hlease, hleases⟩ :=
    leaseFor_some (s := { s with tasks := s.tasks.erase (.lease w) }) h.account
  have hwork : World.work config { s with tasks := s.tasks.erase (.lease w) } (.lease w)
      (.account (some available)) =
        some ({ s with tasks := s.tasks.erase (.lease w), leases := leases },
          some (.readNonce w account)) := by
    simp only [World.work, hlease, Option.map_some]
  refine .work (.account (some available)) hmem trivial trivial hwork (fun other => ?_)
    (fun _ _ => rfl) (leads_nonce_read (mem_spawn _ _) hstatus)
  exact (hleases other).imp_right .inr

/-- From the queue to `SIGNED`. -/
theorem leads_signed (h : Ready config s w) (hstatus : (s.rows w).status = .fundsLocked) :
    Leads config w s fun s' => Signed config (s.rows w) (s'.rows w) := by
  refine (leads_oldest (claims_sign config) s w w (Nat.le_refl _)).bind fun t ht hfirst => ?_
  obtain ⟨hrow, hleases, hfirst⟩ := hfirst
  rw [← hrow] at hstatus ⊢
  have hstep : World.step config t (.claimSign w) = _ := step_claimSign hstatus
  have hattended :=
    (ht.attended h.attended).step (show Attends config t (.claimSign w) from trivial) hstep
  refine .step (.claimSign w) hfirst trivial hstep (fun _ => .inl rfl)
    (fun w' hne => Function.update_of_ne hne ..) ?_
  have hself : ((t.setRow w { t.rows w with status := .signing }).spawn (some (.lease w))).rows w =
      { t.rows w with status := .signing } := Function.update_self ..
  refine Leads.imp (leads_leased ⟨hattended, (h.serves ht).account⟩ (mem_spawn _ _) ?_) fun s' hs' => ?_
  · rw [hself]
  · rw [hself] at hs'
    exact hs'

theorem leads_saved {signature : Option Tx} (hmem : .saveSignature w signature ∈ s.tasks) :
    Leads config w s fun s' => s'.rows w = { s.rows w with txSignature := signature } :=
  .work .ok hmem trivial trivial rfl (fun _ => .inl rfl)
    (fun _ hne => Function.update_of_ne hne ..) (.now (Function.update_self ..))

/-- From `SIGNED` to `BROADCAST`, with the bytes on their way and their signature stored. -/
theorem leads_broadcast (h : Attended config s) (hstatus : (s.rows w).status = .signed) :
    Leads config w s fun s' => (s'.rows w).status = .broadcast ∧
      left config (s'.rows w) = left config (s.rows w) := by
  refine (leads_oldest (claims_broadcast config) s w w (Nat.le_refl _)).bind fun t ht hfirst => ?_
  obtain ⟨hrow, -, hfirst⟩ := hfirst
  rw [← hrow] at hstatus ⊢
  obtain ⟨tx, hbytes, -, -⟩ := (ht.attended h).bytes w (.inl hstatus)
  have hstep : World.step config t (.claimBroadcast w) =
      some ((t.setRow w { t.rows w with status := .broadcast }).spawn (some (.broadcast w tx))) := by
    rw [step_claimBroadcast hstatus, hbytes]
  refine .step (.claimBroadcast w) hfirst trivial hstep (fun _ => .inl rfl)
    (fun w' hne => Function.update_of_ne hne ..) ?_
  refine .reads (.outcome (.submitted true) true) (mem_spawn _ _) ⟨rfl, rfl⟩ trivial rfl rfl rfl ?_
  refine Leads.imp (leads_saved (mem_spawn _ (.saveSignature w (some tx)))) fun s' hs' => ?_
  have hself : s'.rows w = { t.rows w with status := .broadcast, txSignature := some tx } := by
    rw [hs']
    show ({ Function.update t.rows w { t.rows w with status := .broadcast } w with
      txSignature := some tx } : Withdrawal) = _
    rw [Function.update_self]
  rw [hself]
  exact ⟨rfl, rfl⟩

/-! ## The retry edges -/

variable {edge : RetryEdge}

theorem leads_given_up (hmem : .giveUp w edge ∈ s.tasks)
    (hstatus : (s.rows w).status = edge.status) : Leads config w s fun s' => s'.Done w := by
  refine .reads .ok hmem trivial trivial rfl rfl rfl ?_
  refine .work .ok (mem_spawn _ (.giveUpLease w edge)) trivial trivial rfl (releaseLeases_free _ w)
    (fun _ _ => rfl) ?_
  refine Leads.imp (leads_move (mem_spawn _ (.move w (.giveUp edge))) hstatus
    fun account _ => releaseLeases_ne _ w account) fun s' hs' => .inr ⟨?_, ?_⟩
  · rw [hs'.1, Withdrawal.increment_status]
    rfl
  · rw [released, hs'.2]
    exact List.contains_iff_mem.2 List.mem_cons_self

theorem leads_requeued (hmem : .move w (.retry edge) ∈ s.tasks)
    (hstatus : (s.rows w).status = edge.status) :
    Leads config w s fun s' => (s'.rows w).status = .fundsLocked ∧
      left config (s'.rows w) = left config (s.rows w) := by
  refine Leads.imp (leads_move hmem hstatus trivial) fun s' hs' => ?_
  rw [hs'.1]
  exact ⟨rfl, rfl⟩

/-- A row on a retry edge is given up, or is back in the queue with attempts left. -/
theorem leads_retried (hstatus : (s.rows w).status = edge.status) :
    Leads config w s fun s' => s'.Done w ∨
      edge.attempts (s.rows w) < config.budget edge ∧ (s'.rows w).status = .fundsLocked ∧
        left config (s'.rows w) = left config (s.rows w) := by
  have hlisted : World.step config s (.listRetry w edge) =
      some (s.spawn (some (retryTask config w (s.rows w) edge))) := by
    simp only [World.step, if_pos hstatus]
  refine .step (.listRetry w edge) trivial trivial hlisted (fun _ => .inl rfl) (fun _ _ => rfl) ?_
  unfold retryTask
  by_cases hspent : config.budget edge ≤ edge.attempts (s.rows w)
  · rw [if_pos hspent]
    exact Leads.imp (leads_given_up (mem_spawn _ _) hstatus) fun _ => .inl
  · rw [if_neg hspent]
    have hleft := Nat.not_le.1 hspent
    by_cases hexpiry : edge = .expiry
    · subst hexpiry
      rw [if_pos rfl]
      refine .work .ok (mem_spawn _ (.dropLease w)) trivial trivial rfl (releaseLeases_free _ w)
        (fun _ _ => rfl) ?_
      exact Leads.imp (leads_requeued (mem_spawn _ _) hstatus) fun _ hs' => .inr ⟨hleft, hs'⟩
    · rw [if_neg hexpiry]
      exact Leads.imp (leads_requeued (mem_spawn _ _) hstatus) fun _ hs' => .inr ⟨hleft, hs'⟩

/-! ## To the end -/

/-- From the queue: every time round there are fewer attempts left. -/
theorem Ready.queued (n : Nat) : ∀ {s : World}, Ready config s w → (s.rows w).status = .fundsLocked →
    left config (s.rows w) = n → Leads config w s fun s' => s'.Done w := by
  induction n using Nat.strong_induction_on with
  | _ n ih =>
    intro s h hstatus hn
    refine (leads_signed h hstatus).bind fun t ht hsigned => ?_
    have h := h.serves ht
    refine (leads_broadcast h.attended hsigned.1).bind fun u hu hsent => ?_
    have h := h.serves hu
    refine (leads_landed h.attended hsent.1).bind fun v hv hlanded => ?_
    have h := h.serves hv
    rcases hlanded with hsettled | ⟨edge, hedge, hleft⟩
    · exact .now (.inl hsettled)
    · refine (leads_retried hedge).bind fun x hx hretried => ?_
      rcases hretried with hdone | ⟨hbudget, hqueued, hsame⟩
      · exact .now hdone
      · have hfewer := hleft.resolve_right (Nat.not_le.2 hbudget)
        rw [hsent.2, hsigned.2, hn] at hfewer
        exact ih _ (hsame ▸ hfewer) (h.serves hx) hqueued rfl

theorem Ready.onEdge (h : Ready config s w) (edge : RetryEdge)
    (hstatus : (s.rows w).status = edge.status) : Leads config w s fun s' => s'.Done w := by
  refine (leads_retried hstatus).bind fun t ht hretried => ?_
  rcases hretried with hdone | ⟨-, hqueued, -⟩
  · exact .now hdone
  · exact Ready.queued _ (h.serves ht) hqueued rfl

theorem Ready.sent (h : Ready config s w) (hstatus : (s.rows w).status = .broadcast) :
    Leads config w s fun s' => s'.Done w := by
  refine (leads_landed h.attended hstatus).bind fun t ht hlanded => ?_
  rcases hlanded with hsettled | ⟨edge, hedge, -⟩
  · exact .now (.inl hsettled)
  · exact (h.serves ht).onEdge edge hedge

theorem Ready.signed (h : Ready config s w) (hstatus : (s.rows w).status = .signed) :
    Leads config w s fun s' => s'.Done w :=
  (leads_broadcast h.attended hstatus).bind fun _ ht hsent => (h.serves ht).sent hsent.1

/-- The worker that is signing goes on. -/
theorem Ready.signing (h : Ready config s w) (hstatus : (s.rows w).status = .signing) :
    Leads config w s fun s' => s'.Done w := by
  have hgoes : (Leads config w s fun s' => Signed config (s.rows w) (s'.rows w)) →
      Leads config w s fun s' => s'.Done w :=
    fun hsigned => hsigned.bind fun _ ht hs => (h.serves ht).signed hs.1
  have hfails : ∀ move : Move, .move w move ∈ s.tasks → move.source = .signing →
      move.target = .signFailed → Attends config s (.work (.move w move) .ok) →
      Leads config w s fun s' => s'.Done w := by
    intro move hmem hsource htarget hattends
    refine (leads_move hmem (hstatus.trans hsource.symm) hattends).bind fun t ht hrow => ?_
    refine (h.serves ht).onEdge .sign ?_
    rw [hrow.1, Withdrawal.increment_status]
    exact htarget
  obtain ⟨task, hmem, hsigns⟩ := h.attended.signer hstatus
  cases task with
  | lease w' =>
    cases hsigns
    exact hgoes (leads_leased h hmem hstatus)
  | readNonce w' account =>
    cases hsigns
    exact hgoes (leads_nonce_read hmem hstatus)
  | sign tx => exact hgoes (leads_signed_bytes hmem (Option.some.inj hsigns) hstatus)
  | persist tx => exact hgoes (leads_persisted hmem (Option.some.inj hsigns) hstatus)
  | move w' move =>
    cases move with
    | poolDry =>
      cases hsigns
      exact hfails _ hmem rfl rfl trivial
    | signError =>
      cases hsigns
      exact hfails _ hmem rfl rfl trivial
    | _ => cases hsigns
  | _ => cases hsigns

theorem Ready.ends (h : Ready config s w) (hlocked : (s.rows w).status.holdsLock = true) :
    Leads config w s fun s' => s'.Done w := by
  cases hstatus : (s.rows w).status with
  | fundsLocked => exact Ready.queued _ h hstatus rfl
  | signing => exact h.signing hstatus
  | signed => exact h.signed hstatus
  | broadcast => exact h.sent hstatus
  | confirmed => exact Leads.imp (leads_settled (h.attended.confirmed w hstatus) hstatus) fun _ => .inl
  | signFailed => exact h.onEdge .sign hstatus
  | broadcastFailed => exact h.onEdge .broadcast hstatus
  | expired => exact h.onEdge .expiry hstatus
  | _ =>
    rw [hstatus] at hlocked
    cases hlocked

theorem Done.holdsLock (h : s.Done w) : (s.rows w).status.holdsLock = false := by
  rcases h with hs | ⟨hs, -⟩ <;> rw [hs] <;> rfl

/-- In every run in which no worker crashes with a withdrawal of its own in `SIGNING` or `CONFIRMED`,
and no withdrawal is given up while a nonce account is leased to it: from every state reached, a
withdrawal whose funds are locked can be settled, or failed and released, by ordinary cycles. -/
theorem funds_not_stranded {run : List Label} (hpool : config.pool ≠ [])
    (h : Lib.exec (step config) initial run = some s)
    (hok : Lib.Along (step config) (Attends config) initial run)
    (hlocked : (s.rows w).status.holdsLock = true) :
    ∃ more s', Lib.exec (step config) s more = some s' ∧
      Lib.Along (step config) (Ordinary config) s more ∧
      ((s'.rows w).status = .settled ∨ (s'.rows w).status = .failed ∧ s'.released w = true) := by
  have hattended : Attended config s :=
    Lib.exec_inv .initial (fun _ _ _ ht hok hstep => ht.step hok hstep) hok h
  have hends : ∃ s', Lib.Reaches (step config)
      (fun s label => Ordinary config s label ∧ Attends config s label) s s' ∧ s'.Done w := by
    by_cases haccount : ∃ account ∈ config.pool,
        s.leases account = .available ∨ s.leases account = .leased w
    · obtain ⟨s', hserves, hdone⟩ := Ready.ends ⟨hattended, haccount⟩ hlocked
      exact ⟨s', hserves.reaches, hdone⟩
    · -- the pool is dry: whoever has the first account is brought to its end before
      obtain ⟨account, hmem⟩ := List.exists_mem_of_ne_nil _ hpool
      cases hleased : s.leases account with
      | available => exact absurd ⟨account, hmem, .inl hleased⟩ haccount
      | leased other =>
        have hne : w ≠ other := by
          rintro rfl
          exact haccount ⟨account, hmem, .inr hleased⟩
        obtain ⟨t, hserves, hdone⟩ := Ready.ends ⟨hattended, account, hmem, .inr hleased⟩
          (hattended.leased account hmem other hleased)
        have ht := hserves.attended hattended
        have hnot : t.leases account ≠ .leased other := by
          intro hstill
          have hholds := ht.leased account hmem other hstill
          rw [hdone.holdsLock] at hholds
          cases hholds
        have hfree : t.leases account = .available := by
          rcases hserves.leases account with hsame | hfree | hstill
          · exact absurd (hsame.trans hleased) hnot
          · exact hfree
          · exact absurd hstill hnot
        obtain ⟨s', hserves', hdone'⟩ := Ready.ends ⟨ht, account, hmem, .inl hfree⟩
          (hserves.others w hne hlocked)
        exact ⟨s', hserves.reaches.trans hserves'.reaches, hdone'⟩
  obtain ⟨s', ⟨more, hmore, halong⟩, hdone⟩ := hends
  exact ⟨more, s', hmore, fun pre label t hpre ht => (halong pre label t hpre ht).1, hdone⟩

instance (config : Config) (s : World) : DecidablePred (Attends config s)
  | .crash task => inferInstanceAs (Decidable (∀ w ∈ task.keeps, _ ∧ _))
  | .work (.move w (.giveUp _)) _ =>
    inferInstanceAs (Decidable (∀ account ∈ config.pool, s.leases account ≠ .leased w))
  | .work (.move _ .poolDry) _ | .work (.move _ .signError) _ | .work (.move _ .broadcastFailed) _
  | .work (.move _ .expired) _ | .work (.move _ (.retry _)) _ | .work (.lease ..) _
  | .work (.readNonce ..) _ | .work (.sign ..) _ | .work (.persist ..) _ | .work (.broadcast ..) _
  | .work (.saveSignature ..) _ | .work (.confirm ..) _ | .work (.confirmed ..) _
  | .work (.resolve ..) _ | .work (.rebroadcast ..) _ | .work (.settle ..) _ | .work (.giveUp ..) _
  | .work (.giveUpLease ..) _ | .work (.dropLease ..) _ | .lockFunds .. | .claimSign ..
  | .claimBroadcast .. | .listConfirm .. | .listRetry .. | .land .. | .advance .. | .finalize .. =>
    .isTrue trivial

/-- The broadcast worker crashes before it stores the signature. -/
theorem funds_not_stranded_sample : ∃ s,
    Lib.exec (step sampleConfig) initial
      ([.lockFunds 7] ++ signOn ⟨7, 0, 0⟩ ++ [.claimBroadcast 7, .crash (.broadcast 7 ⟨7, 0, 0⟩)]) =
        some s ∧ (s.rows 7).status = .broadcast ∧
      ∃ more s', Lib.exec (step sampleConfig) s more = some s' ∧
        Lib.Along (step sampleConfig) (Ordinary sampleConfig) s more ∧
        ((s'.rows 7).status = .settled ∨ (s'.rows 7).status = .failed ∧ s'.released 7 = true) := by
  obtain ⟨s, hs, hstatus⟩ : ∃ s, Lib.exec (step sampleConfig) initial
      ([.lockFunds 7] ++ signOn ⟨7, 0, 0⟩ ++ [.claimBroadcast 7, .crash (.broadcast 7 ⟨7, 0, 0⟩)]) =
        some s ∧ (s.rows 7).status = .broadcast := Lib.exec_reaches (by decide +kernel)
  exact ⟨s, hs, hstatus, funds_not_stranded nofun hs (by decide +kernel) (by rw [hstatus]; rfl)⟩

/-! ## What a crash leaves behind -/

/-- The row is in a status nobody looks for, and its worker is gone. -/
inductive Abandoned (s : World) (w : WithdrawalId) : Prop where
  | signing (hstatus : (s.rows w).status = .signing) (htasks : signers s.tasks w = 0)
  | confirmed (hstatus : (s.rows w).status = .confirmed) (htasks : .settle w ∉ s.tasks)

theorem Abandoned.status (h : s.Abandoned w) :
    (s.rows w).status = .signing ∨ (s.rows w).status = .confirmed := by
  cases h with
  | signing hstatus _ => exact .inl hstatus
  | confirmed hstatus _ => exact .inr hstatus

/-- Nothing begins on the row that was not begun. -/
theorem Abandoned.keeps (h : s.Abandoned w) (hrow : (s'.rows w).status = (s.rows w).status)
    (hsigners : signers s'.tasks w ≤ signers s.tasks w)
    (hsettle : Task.settle w ∈ s'.tasks → Task.settle w ∈ s.tasks) : s'.Abandoned w := by
  cases h with
  | signing hstatus htasks =>
    exact .signing (hrow.trans hstatus) (Nat.le_zero.1 (htasks ▸ hsigners))
  | confirmed hstatus htasks => exact .confirmed (hrow.trans hstatus) fun hmem => htasks (hsettle hmem)

/-- A claim or a decision moves another row. -/
theorem Abandoned.elsewhere {w' : WithdrawalId} (h : s.Abandoned w)
    (hstatus : (s.rows w').status = source) (hsigning : source ≠ .signing)
    (hconfirmed : source ≠ .confirmed) : w ≠ w' := by
  rintro rfl
  rcases h.status with hs | hs
  · exact hsigning (hstatus.symm.trans hs)
  · exact hconfirmed (hstatus.symm.trans hs)

theorem Abandoned.work {t : World} {choice : Choice} (h : s.Abandoned w) (hmem : task ∈ s.tasks)
    (hworked : Worked { s with tasks := s.tasks.erase task } task choice t next) :
    (t.spawn next).Abandoned w ∧ ((t.spawn next).rows w).status = (s.rows w).status := by
  have hrow : RowTurns task next w (s.rows w) (t.rows w) := hworked.rows w
  have hsigner : task.signs = some w → (s.rows w).status ≠ .signing := by
    intro hsigns hstatus
    cases h with
    | signing _ htasks =>
      rw [signers_erase hmem, decide_eq_true hsigns] at htasks
      cases htasks
    | confirmed hstatus' _ =>
      rw [hstatus] at hstatus'
      cases hstatus'
  have hsame : (t.rows w).status = (s.rows w).status := by
    cases hrow with
    | same hstatus _ _ _ => exact hstatus
    | signed htask hw _ hstatus _ => exact absurd hstatus (hsigner (by rw [htask, ← hw]; rfl))
    | failed hsigns _ hstatus _ => exact absurd hstatus (hsigner hsigns)
    | passes hmoves hpasses _ =>
      -- a settlement, and there is none
      cases h with
      | signing hstatus _ => exact absurd hstatus (WithdrawalStatus.passesOn_spec hpasses).1
      | confirmed hstatus htasks =>
        rw [Task.eq_settle hmoves (.inl hstatus)] at hmem
        exact absurd hmem htasks
  refine ⟨h.keeps hsame (hworked.spawn_tasks ▸ signers_next hmem hworked.signs_next) fun hsettle => ?_,
    hsame⟩
  rw [hworked.spawn_tasks] at hsettle
  rcases List.mem_append.1 hsettle with hsettle | hsettle
  · have hstatus := (hworked.settle_next (Option.mem_toList.1 hsettle)).1
    exact absurd rfl (h.elsewhere hstatus (by decide) (by decide))
  · exact List.mem_of_mem_erase hsettle

/-- The row changed is another's, and the task begun is another's or leaves rows alone. -/
theorem Abandoned.begun (h : s.Abandoned w) (next : Option Task) (hrow : s'.rows w = s.rows w)
    (htasks : s'.tasks = next.toList ++ s.tasks)
    (hnext : ∀ t ∈ next, t.signs ≠ some w ∧ t ≠ .settle w) :
    s'.Abandoned w ∧ (s'.rows w).status = (s.rows w).status := by
  refine ⟨h.keeps (by rw [hrow]) ?_ fun hmem => ?_, by rw [hrow]⟩
  · rw [htasks, signers_of_ne _ fun t ht => (hnext t ht).1]
  · rw [htasks] at hmem
    rcases List.mem_append.1 hmem with hmem | hmem
    · exact absurd rfl (hnext _ (Option.mem_toList.1 hmem)).2
    · exact hmem

theorem Abandoned.step (h : s.Abandoned w) (hstep : World.step config s label = some s') :
    s'.Abandoned w ∧ (s'.rows w).status = (s.rows w).status := by
  cases step_stepped hstep with
  | works hmem hworked => exact h.work hmem hworked
  | locks hstatus =>
    have hne := h.elsewhere hstatus (by decide) (by decide)
    exact h.begun none (Function.update_of_ne hne ..) rfl nofun
  | signs hstatus =>
    have hne := h.elsewhere hstatus (by decide) (by decide)
    refine h.begun (some _) (Function.update_of_ne hne ..) rfl ?_
    rintro _ ⟨⟩
    exact ⟨fun hw => hne (Option.some.inj hw).symm, nofun⟩
  | broadcasts hstatus htask =>
    have hne := h.elsewhere hstatus (by decide) (by decide)
    refine h.begun (some _) (Function.update_of_ne hne ..) rfl ?_
    rintro _ ⟨⟩
    obtain ⟨tx, -, rfl⟩ | ⟨-, rfl⟩ := htask <;> exact ⟨nofun, nofun⟩
  | lists htask =>
    refine h.begun (some _) rfl rfl ?_
    rintro _ ⟨⟩
    exact ⟨by rw [htask.kept.1]; nofun, htask.kept.2.2 w⟩
  | crashes _ => exact ⟨h.keeps rfl List.erase_sublist.countP_le List.mem_of_mem_erase, rfl⟩
  | chain => exact h.begun none rfl rfl nofun

/-- Whatever happens next, the row stays where the crash left it. -/
theorem Abandoned.stays (h : s.Abandoned w) {more : List Label}
    (hexec : Lib.exec (World.step config) s more = some s') :
    (s'.rows w).status = (s.rows w).status := by
  have hinv : s'.Abandoned w ∧ (s'.rows w).status = (s.rows w).status := by
    refine Lib.exec_always (I := fun t => t.Abandoned w ∧ (t.rows w).status = (s.rows w).status)
      ⟨h, rfl⟩ ?_ hexec
    rintro t label t' ⟨ht, hsame⟩ hstep
    obtain ⟨ht', hsame'⟩ := ht.step hstep
    exact ⟨ht', hsame'.trans hsame⟩
  exact hinv.2

instance (s : World) (w : WithdrawalId) : Decidable (s.Abandoned w) :=
  decidable_of_iff ((s.rows w).status = .signing ∧ signers s.tasks w = 0 ∨
      (s.rows w).status = .confirmed ∧ .settle w ∉ s.tasks) (by
    constructor
    · rintro (⟨hstatus, htasks⟩ | ⟨hstatus, htasks⟩)
      · exact .signing hstatus htasks
      · exact .confirmed hstatus htasks
    · intro h
      cases h with
      | signing hstatus htasks => exact .inl ⟨hstatus, htasks⟩
      | confirmed hstatus htasks => exact .inr ⟨hstatus, htasks⟩)

/-- The signing worker crashes right after its claim. -/
def crashSigning : List Label := [.lockFunds 7, .claimSign 7, .crash (.lease 7)]

/-- The confirmation worker crashes before it settles. -/
def crashConfirmed : List Label :=
  [.lockFunds 7] ++ signOn ⟨7, 0, 0⟩ ++
    [.claimBroadcast 7, .work (.broadcast 7 ⟨7, 0, 0⟩) (.outcome (.submitted true) true),
      .work (.saveSignature 7 (some ⟨7, 0, 0⟩)) .ok, .land ⟨7, 0, 0⟩ true, .finalize 0,
      .listConfirm 7,
      .work (.confirm 7 ⟨.broadcast, 0, 0, 0, some ⟨7, 0, 0⟩, some ⟨7, 0, 0⟩, some 0, some 0⟩)
        (.status .final),
      .work (.confirmed 7) .ok, .crash (.settle 7)]

/-- No continuation whatever leads out of the two states; the lock is still there. -/
theorem crash_strands :
    (∃ s, Lib.exec (step sampleConfig) initial crashSigning = some s ∧ s.released 7 = false ∧
      (s.rows 7).status = .signing ∧
      ∀ more s', Lib.exec (step sampleConfig) s more = some s' → (s'.rows 7).status = .signing) ∧
    ∃ s, Lib.exec (step sampleConfig) initial crashConfirmed = some s ∧ s.released 7 = false ∧
      (s.rows 7).status = .confirmed ∧
      ∀ more s', Lib.exec (step sampleConfig) s more = some s' → (s'.rows 7).status = .confirmed := by
  constructor
  · obtain ⟨s, hs, hreleased, hstatus, habandoned⟩ : ∃ s,
        Lib.exec (step sampleConfig) initial crashSigning = some s ∧ s.released 7 = false ∧
          (s.rows 7).status = .signing ∧ s.Abandoned 7 := Lib.exec_reaches (by decide +kernel)
    exact ⟨s, hs, hreleased, hstatus, fun more s' h => (habandoned.stays h).trans hstatus⟩
  · obtain ⟨s, hs, hreleased, hstatus, habandoned⟩ : ∃ s,
        Lib.exec (step sampleConfig) initial crashConfirmed = some s ∧ s.released 7 = false ∧
          (s.rows 7).status = .confirmed ∧ s.Abandoned 7 := Lib.exec_reaches (by decide +kernel)
    exact ⟨s, hs, hreleased, hstatus, fun more s' h => (habandoned.stays h).trans hstatus⟩

end World
end AtlasCex.Withdrawals

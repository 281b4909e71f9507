import AtlasCex.Withdrawals.Workers
import Mathlib.Logic.Function.Basic
/-!
# What a step of the workers does

`Worked` is the step of one task and `Stepped` that of the system, each effect with what it takes. The
invariants of the modules that follow are read off these two.
-/
namespace AtlasCex.Withdrawals

/-- The bytes a worker has in hand. -/
def Task.holds : Task → Option Tx
  | .persist tx => some tx
  | .broadcast _ tx => some tx
  | .rebroadcast tx => some tx
  | .confirm _ record => record.signedTransaction
  | .resolve _ record => record.signedTransaction
  | _ => none

/-- The withdrawal a signing worker is at work on. -/
def Task.signs : Task → Option WithdrawalId
  | .lease w | .readNonce w _ | .move w .poolDry | .move w .signError => some w
  | .sign tx | .persist tx => some tx.withdrawal
  | _ => none

/-- The withdrawal whose leases a task drops. -/
def Task.releases : Task → Option WithdrawalId
  | .settle w | .giveUpLease w _ | .dropLease w => some w
  | _ => none

/-- The guarded transition a task asks for. -/
def Task.moves : Task → Option (WithdrawalId × WithdrawalStatus × WithdrawalStatus)
  | .persist tx => some (tx.withdrawal, .signing, .signed)
  | .confirmed w => some (w, .broadcast, .confirmed)
  | .settle w => some (w, .confirmed, .settled)
  | .move w m => some (w, m.source, m.target)
  | _ => none

/-- The moves that need no lease: out of `BROADCAST`, the settlement, and the retry edges. -/
def WithdrawalStatus.passesOn : WithdrawalStatus → WithdrawalStatus → Bool
  | broadcast, confirmed | broadcast, broadcastFailed | broadcast, expired
  | confirmed, settled
  | signFailed, fundsLocked | broadcastFailed, fundsLocked | expired, fundsLocked
  | signFailed, failed | broadcastFailed, failed | expired, failed => true
  | _, _ => false

def WithdrawalStatus.inFlight : WithdrawalStatus → Bool
  | signing | signed | broadcast => true
  | _ => false

/-- Settlement is ahead, or done. -/
def WithdrawalStatus.late : WithdrawalStatus → Bool
  | confirmed | settled => true
  | _ => false

theorem WithdrawalStatus.passesOn_spec {source target : WithdrawalStatus}
    (h : source.passesOn target = true) :
    source ≠ .signing ∧ target.inFlight = false ∧ (source.late = true → target.late = true) := by
  revert h
  cases source <;> cases target <;> decide

/-- What a worker goes on with after a step that reads or sends. -/
inductive Task.GoesOn : Task → Task → Prop where
  | dry (w : WithdrawalId) : GoesOn (.lease w) (.move w .poolDry)
  | read (w : WithdrawalId) (account : AccountId) (nonce : Nat) :
      GoesOn (.readNonce w account) (.sign ⟨w, account, nonce⟩)
  | signError {task : Task} {w : WithdrawalId} (hsigns : task.signs = some w) :
      GoesOn task (.move w .signError)
  | submitted (w : WithdrawalId) (tx : Tx) (signature : Option Tx) :
      GoesOn (.broadcast w tx) (.saveSignature w signature)
  | refused (w : WithdrawalId) (tx : Tx) : GoesOn (.broadcast w tx) (.move w .broadcastFailed)
  | overtaken (w : WithdrawalId) (tx : Tx) : GoesOn (.broadcast w tx) (.move w .expired)
  | resolve (w : WithdrawalId) (record : Withdrawal) : GoesOn (.confirm w record) (.resolve w record)
  | final (w : WithdrawalId) (record : Withdrawal) : GoesOn (.confirm w record) (.confirmed w)
  | failed (w : WithdrawalId) (record : Withdrawal) :
      GoesOn (.confirm w record) (.move w .broadcastFailed)
  | expired (w : WithdrawalId) (record : Withdrawal) : GoesOn (.resolve w record) (.move w .expired)
  | rebroadcast (w : WithdrawalId) {record : Withdrawal} {tx : Tx}
      (hbytes : record.signedTransaction = some tx) : GoesOn (.resolve w record) (.rebroadcast tx)

theorem Task.GoesOn.signs {task next : Task} (h : task.GoesOn next) : next.signs = task.signs := by
  cases h with
  | signError hsigns => exact hsigns.symm
  | _ => rfl

theorem Task.GoesOn.holds {task next : Task} {tx : Tx} (h : task.GoesOn next)
    (hholds : next.holds = some tx) : task.holds = some tx := by
  cases h with
  | resolve => exact hholds
  | rebroadcast w hbytes => exact hbytes.trans hholds
  | _ => cases hholds

namespace World

variable {config : Config} {s s' : World} {task : Task} {choice : Choice} {next : Option Task}
  {w : WithdrawalId} {row : Withdrawal} {source target : WithdrawalStatus} {edge : Option RetryEdge}
  {account : AccountId}

/-! ## One step of a task -/

/-- The tasks that can end without a trace, and when they do. -/
def Idle (s : World) : Task → Prop
  | .persist tx => (s.rows tx.withdrawal).status ≠ .signing
  | .confirmed w => (s.rows w).status ≠ .broadcast
  | .resolve .. | .rebroadcast _ => True
  | _ => False

inductive Worked (s : World) : Task → Choice → World → Option Task → Prop where
  | stays {task : Task} {choice : Choice} {next : Option Task} (hnext : ∀ t ∈ next, task.GoesOn t)
      (hidle : next = none → s.Idle task) : Worked s task choice s next
  | leases {w : WithdrawalId} {choice : Choice} {account : AccountId} {leases : AccountId → Lease}
      (haccount : leases account = .leased w)
      (hleases : ∀ other, leases other = s.leases other ∨
        s.leases other = .available ∧ leases other = .leased w) :
      Worked s (.lease w) choice { s with leases := leases } (some (.readNonce w account))
  | signs {tx : Tx} :
      Worked s (.sign tx) .ok { s with signed := tx :: s.signed } (some (.persist tx))
  | persists {tx : Tx} (hstatus : (s.rows tx.withdrawal).status = .signing) :
      Worked s (.persist tx) .ok (s.setRow tx.withdrawal { s.rows tx.withdrawal with
        status := .signed
        signedTransaction := some tx
        nonceAccountId := some tx.account
        nonceValue := some tx.nonce }) none
  | sends {task : Task} {choice : Choice} {tx : Tx} {next : Option Task}
      (hholds : task.holds = some tx) (hsigns : task.signs = none)
      (hnext : ∀ t ∈ next, task.GoesOn t) :
      Worked s task choice { s with sent := tx :: s.sent } next
  | saves {w : WithdrawalId} {signature : Option Tx} : Worked s (.saveSignature w signature) .ok
      (s.setRow w { s.rows w with txSignature := signature }) none
  | confirms {w : WithdrawalId} (hstatus : (s.rows w).status = .broadcast) :
      Worked s (.confirmed w) .ok (s.setRow w { s.rows w with status := .confirmed })
        (some (.settle w))
  | settles {w : WithdrawalId} : Worked s (.settle w) .ok
      ((({ s with postings := (.settlement, w) :: s.postings } : World).transition w .confirmed .settled
        none).releaseLeases w) none
  | givesUp {w : WithdrawalId} {edge : RetryEdge} : Worked s (.giveUp w edge) .ok
      { s with postings := (.release, w) :: s.postings } (some (.giveUpLease w edge))
  | relays {w : WithdrawalId} {edge : RetryEdge} : Worked s (.giveUpLease w edge) .ok
      (s.releaseLeases w) (some (.move w (.giveUp edge)))
  | drops {w : WithdrawalId} : Worked s (.dropLease w) .ok
      (s.releaseLeases w) (some (.move w (.retry .expiry)))
  | moves {w : WithdrawalId} {move : Move} : Worked s (.move w move) .ok
      (s.transition w move.source move.target move.increment) none

/-- `lease` hands out an account that is then leased to the caller, and takes none that is leased
to another. -/
theorem leaseFor_spec {available got : Option AccountId}
    (h : s.leaseFor config w available = some (got, s')) :
    (got = none ∧ s' = s) ∨ ∃ account leases, got = some account ∧ s' = { s with leases := leases } ∧
      leases account = .leased w ∧
      ∀ other, leases other = s.leases other ∨
        s.leases other = .available ∧ leases other = .leased w := by
  unfold leaseFor at h
  split at h
  · rename_i held hfind
    cases h
    exact .inr ⟨held, s.leases, rfl, rfl, by simpa using List.find?_some hfind, fun _ => .inl rfl⟩
  · split at h
    · cases h
      exact .inl ⟨rfl, rfl⟩
    · rename_i account
      rw [Option.ite_none_right_eq_some] at h
      obtain ⟨⟨-, hfree⟩, ⟨⟩⟩ := h
      refine .inr ⟨account, _, rfl, rfl, Function.update_self .., ?_⟩
      exact (Function.forall_update_iff _ fun other lease => lease = s.leases other ∨
        s.leases other = .available ∧ lease = .leased w).2 ⟨.inr ⟨hfree, rfl⟩, fun _ _ => .inl rfl⟩

/-- A step that only reads. -/
theorem Worked.reads {t : Task} (h : task.GoesOn t) : Worked s task choice s (some t) :=
  .stays (by rintro _ ⟨⟩; exact h) nofun

theorem Worked.ends (h : s.Idle task) : Worked s task choice s none :=
  .stays (fun t ht => absurd ht (Option.not_mem_none t)) fun _ => h

theorem Worked.sending {tx : Tx} {reached : Bool} (hholds : task.holds = some tx)
    (hsigns : task.signs = none) (hnext : ∀ t ∈ next, task.GoesOn t)
    (hidle : next = none → s.Idle task) : Worked s task choice (s.send tx reached) next := by
  unfold send
  split
  · exact .sends hholds hsigns hnext
  · exact .stays hnext hidle

theorem transition_eq_none (hlegal : source.canTransition target = true)
    (h : row.transition source target edge = none) : row.status ≠ source := by
  intro hstatus
  rw [Withdrawal.transition, hlegal, Bool.true_and, if_pos (decide_eq_true hstatus)] at h
  cases h

theorem work_worked (h : work config s task choice = some (s', next)) :
    Worked s task choice s' next := by
  unfold work at h
  split at h
  case h_1 w available =>
    obtain ⟨⟨got, t⟩, hlease, heq⟩ := Option.map_eq_some_iff.1 h
    obtain ⟨rfl, rfl⟩ | ⟨account, leases, rfl, rfl, haccount, hleases⟩ := leaseFor_spec hlease
    · cases heq
      exact .reads (.dry w)
    · cases heq
      exact .leases haccount hleases
  case h_3 w account =>
    cases h
    exact .reads (.read w account _)
  case h_5 tx =>
    cases h
    exact .signs
  case h_7 tx =>
    split at h
    · rename_i row hrow
      cases h
      obtain ⟨hstatus, rfl⟩ := Withdrawal.transition_eq hrow
      exact .persists hstatus
    · rename_i hrow
      cases h
      exact .ends (transition_eq_none rfl hrow)
  case h_9 w tx outcome reached =>
    cases h
    refine .sending rfl rfl ?_ nofun
    rintro _ ⟨⟩
    rcases outcome with ⟨_ | _⟩ | _ | _
    · exact .submitted w tx none
    · exact .submitted w tx (some tx)
    · exact .overtaken w tx
    · exact .refused w tx
  case h_10 w signature =>
    cases h
    exact .saves
  case h_11 w record =>
    obtain ⟨-, ⟨⟩⟩ := Option.ite_none_right_eq_some.1 h
    exact .reads (.resolve w record)
  case h_12 w record status =>
    obtain ⟨tx, -, h⟩ := Option.bind_eq_some_iff.1 h
    obtain ⟨-, ⟨⟩⟩ := Option.ite_none_right_eq_some.1 h
    cases status with
    | final => exact .reads (.final w record)
    | pending => exact .reads (.resolve w record)
    | failed => exact .reads (.failed w record)
  case h_13 w =>
    split at h
    · rename_i row hrow
      cases h
      obtain ⟨hstatus, rfl⟩ := Withdrawal.transition_eq hrow
      exact .confirms hstatus
    · rename_i hrow
      cases h
      exact .ends (transition_eq_none rfl hrow)
  case h_14 w record =>
    split at h
    · split at h
      · cases h
        exact .reads (.expired w record)
      · cases h
        cases hbytes : record.signedTransaction with
        | none => exact .ends trivial
        | some tx => exact .reads (.rebroadcast w hbytes)
    · cases h
      exact .ends trivial
  case h_15 tx outcome reached =>
    cases h
    exact .sending rfl rfl (fun t ht => absurd ht (Option.not_mem_none t)) fun _ => trivial
  case h_16 w =>
    cases h
    exact .settles
  case h_17 w edge =>
    cases h
    exact .givesUp
  case h_18 w edge =>
    cases h
    exact .relays
  case h_19 w =>
    cases h
    exact .drops
  case h_20 w move =>
    cases h
    exact .moves
  case h_21 => cases h
  all_goals
    cases h
    exact .reads (.signError rfl)

/-! ### What it leaves alone -/

theorem Worked.frame (h : Worked s task choice s' next) : s'.tasks = s.tasks ∧ s'.nonce = s.nonce ∧
    s'.finalized = s.finalized ∧ s'.succeeded = s.succeeded := by
  cases h <;> exact ⟨rfl, rfl, rfl, rfl⟩

theorem Worked.spawn_tasks (h : Worked { s with tasks := s.tasks.erase task } task choice s' next) :
    (s'.spawn next).tasks = next.toList ++ s.tasks.erase task := by
  rw [spawn, h.frame.1]

theorem Worked.signs_next (h : Worked s task choice s' next) : ∀ t ∈ next, t.signs = task.signs := by
  cases h with
  | stays hnext _ => exact fun t ht => (hnext t ht).signs
  | sends _ _ hnext => exact fun t ht => (hnext t ht).signs
  | leases | signs | confirms | givesUp | relays | drops =>
    rintro _ ⟨⟩
    rfl
  | persists | saves | settles | moves => nofun

theorem releaseLeases_cases (s : World) (w : WithdrawalId) (account : AccountId) :
    ((s.releaseLeases w).leases account = s.leases account ∧ s.leases account ≠ .leased w) ∨
      s.leases account = .leased w ∧ (s.releaseLeases w).leases account = .available := by
  simp only [releaseLeases]
  split
  · exact .inr ⟨‹_›, rfl⟩
  · exact .inl ⟨rfl, ‹_›⟩

theorem Worked.leases_cases (h : Worked s task choice s' next) (account : AccountId) :
    s'.leases account = s.leases account ∨
      (∃ w, task = .lease w ∧ s.leases account = .available ∧ s'.leases account = .leased w) ∨
      ∃ w, task.releases = some w ∧ s.leases account = .leased w ∧ s'.leases account = .available := by
  cases h with
  | @leases w _ _ _ _ hleases => exact (hleases account).imp_right fun ⟨hfree, hw⟩ => .inl ⟨w, rfl, hfree, hw⟩
  | @relays w | @drops w =>
    obtain ⟨hsame, -⟩ | hleased := releaseLeases_cases s w account
    · exact .inl hsame
    · exact .inr (.inr ⟨w, rfl, hleased⟩)
  | @settles w =>
    obtain ⟨hsame, -⟩ | hleased := releaseLeases_cases (({ s with
      postings := (.settlement, w) :: s.postings } : World).transition w .confirmed .settled none) w account
    · exact .inl hsame
    · exact .inr (.inr ⟨w, rfl, hleased⟩)
  | _ => exact .inl rfl

/-! ### What becomes of a row -/

/-- The columns that say which bytes a row carries. -/
structure SameBytes (row row' : Withdrawal) : Prop where
  signedTransaction : row'.signedTransaction = row.signedTransaction
  nonceAccountId : row'.nonceAccountId = row.nonceAccountId
  nonceValue : row'.nonceValue = row.nonceValue

inductive RowTurns (task : Task) (next : Option Task) (w : WithdrawalId) (row : Withdrawal) :
    Withdrawal → Prop where
  | same {row' : Withdrawal} (hstatus : row'.status = row.status) (hbytes : SameBytes row row')
      (hsigns : task.signs = some w → row.status = .signing → next ≠ none)
      (hsettle : task = .settle w → row.status ≠ .confirmed) : RowTurns task next w row row'
  | signed {row' : Withdrawal} {tx : Tx} (htask : task = .persist tx) (hw : tx.withdrawal = w)
      (hnext : next = none) (hstatus : row.status = .signing) (hrow : row' = { row with
        status := .signed
        signedTransaction := some tx
        nonceAccountId := some tx.account
        nonceValue := some tx.nonce }) : RowTurns task next w row row'
  | failed {row' : Withdrawal} (hsigns : task.signs = some w) (hnext : next = none)
      (hstatus : row.status = .signing) (hstatus' : row'.status = .signFailed) :
      RowTurns task next w row row'
  | passes {row' : Withdrawal} (hmoves : task.moves = some (w, row.status, row'.status))
      (hpasses : row.status.passesOn row'.status = true)
      (hnext : row'.status = .confirmed → next = some (.settle w)) : RowTurns task next w row row'

theorem Idle.not_signing (h : s.Idle task) (hsigns : task.signs = some w) :
    (s.rows w).status ≠ .signing := by
  cases task with
  | persist tx =>
    cases hsigns
    exact h
  | confirmed | resolve | rebroadcast => cases hsigns
  | _ => exact h.elim

theorem RowTurns.update (hrow : RowTurns task next w (s.rows w) row)
    (hsigns : ∀ w' ∈ task.signs, w' = w) (hsettle : ∀ w', task = .settle w' → w' = w)
    (w' : WithdrawalId) : RowTurns task next w' (s.rows w') (Function.update s.rows w row w') := by
  revert w'
  refine (Function.forall_update_iff _ fun w' row' => RowTurns task next w' (s.rows w') row').2
    ⟨hrow, fun w' hne => .same rfl ⟨rfl, rfl, rfl⟩ ?_ ?_⟩
  · exact fun hw' => absurd (hsigns w' hw') hne
  · exact fun hw' => absurd (hsettle w' hw') hne

/-- A guarded transition that its row may not be in the source of. -/
theorem transition_setRow (hlegal : source.canTransition target = true) :
    s.transition w source target edge = if (s.rows w).status = source then
      s.setRow w ({ s.rows w with status := target }.increment edge) else s := by
  unfold transition Withdrawal.transition
  by_cases hstatus : (s.rows w).status = source
  · simp only [hlegal, hstatus, decide_true, Bool.and_self, if_true]
    rfl
  · simp only [hstatus, decide_false, Bool.and_false, Bool.false_eq_true, if_false]

theorem RowTurns.transition (hlegal : source.canTransition target = true)
    (hsigns : ∀ w' ∈ task.signs, w' = w ∧ source = .signing)
    (hsettle : ∀ w', task = .settle w' → w' = w ∧ source = .confirmed)
    (hrow : (s.rows w).status = source → RowTurns task none w (s.rows w)
      ({ s.rows w with status := target }.increment edge)) (w' : WithdrawalId) :
    RowTurns task none w' (s.rows w') ((s.transition w source target edge).rows w') := by
  rw [transition_setRow hlegal]
  split
  · rename_i hstatus
    exact (hrow hstatus).update (fun w' hw' => (hsigns w' hw').1) (fun w' hw' => (hsettle w' hw').1) w'
  · rename_i hstatus
    refine .same rfl ⟨rfl, rfl, rfl⟩ (fun hw' hs => absurd ?_ hstatus) fun hw' hs => hstatus ?_
    · rw [← (hsigns w' hw').1, (hsigns w' hw').2, hs]
    · rw [← (hsettle w' hw').1, (hsettle w' hw').2, hs]

theorem Worked.rows (h : Worked s task choice s' next) (w : WithdrawalId) :
    RowTurns task next w (s.rows w) (s'.rows w) := by
  cases h with
  | stays hnext hidle =>
    refine .same rfl ⟨rfl, rfl, rfl⟩ (fun hsigns hs hnone => (hidle hnone).not_signing hsigns hs) ?_
    rintro rfl -
    cases next with
    | none => exact hidle rfl
    | some t =>
      cases hnext t rfl with
      | signError hsigns => cases hsigns
  | sends hholds hsigns _ =>
    refine .same rfl ⟨rfl, rfl, rfl⟩ (fun hw => ?_) ?_
    · rw [hsigns] at hw
      cases hw
    · rintro rfl
      cases hholds
  | leases | signs | givesUp | relays | drops => exact .same rfl ⟨rfl, rfl, rfl⟩ nofun nofun
  | persists hstatus =>
    refine RowTurns.update (.signed rfl rfl rfl hstatus rfl) ?_ nofun w
    rintro _ ⟨⟩
    rfl
  | saves =>
    refine RowTurns.update ?_ ?_ ?_ w
    · exact .same rfl ⟨rfl, rfl, rfl⟩ nofun nofun
    · nofun
    · nofun
  | confirms hstatus =>
    refine RowTurns.update ?_ ?_ ?_ w
    · refine .passes ?_ ?_ fun _ => rfl <;> rw [hstatus] <;> rfl
    · nofun
    · nofun
  | settles =>
    refine RowTurns.transition rfl ?_ ?_ (fun hstatus => ?_) w
    · nofun
    · rintro _ ⟨⟩
      exact ⟨rfl, rfl⟩
    · refine .passes ?_ ?_ nofun <;> rw [hstatus] <;> rfl
  | @moves w' move =>
    have hsigns : ∀ w ∈ (Task.move w' move).signs, w = w' ∧ move.source = .signing := by
      cases move <;> rintro _ ⟨⟩ <;> exact ⟨rfl, rfl⟩
    refine RowTurns.transition move.legal hsigns nofun (fun hstatus => ?_) w
    have hmoves : (Task.move w' move).moves = some (w', (s.rows w').status,
        (({ s.rows w' with status := move.target } : Withdrawal).increment move.increment).status) := by
      rw [hstatus, Withdrawal.increment_status]
      rfl
    cases move with
    | poolDry | signError => exact .failed rfl rfl hstatus rfl
    | broadcastFailed | expired => exact .passes hmoves (by rw [hstatus]; rfl) nofun
    | retry edge | giveUp edge =>
      exact .passes hmoves (by rw [hstatus]; cases edge <;> rfl) nofun

theorem Task.eq_settle (h : task.moves = some (w, source, target))
    (hstatus : source = .confirmed ∨ target = .settled) : task = .settle w := by
  cases task with
  | settle =>
    cases h
    rfl
  | move w' move =>
    cases h
    rcases move with _ | _ | _ | _ | ⟨_ | _ | _⟩ | ⟨_ | _ | _⟩ <;> 
      simp [Move.source, Move.target, RetryEdge.status] at hstatus
  | persist | confirmed =>
    cases h
    simp at hstatus
  | _ => cases h

/-! ## One step of the system -/

/-- What a cycle begins with for a row it lists. -/
inductive Listed (s : World) : Task → Prop where
  | confirm {w : WithdrawalId} (hstatus : (s.rows w).status = .broadcast) :
      Listed s (.confirm w (s.rows w))
  | giveUp (w : WithdrawalId) (edge : RetryEdge) : Listed s (.giveUp w edge)
  | dropLease (w : WithdrawalId) : Listed s (.dropLease w)
  | retry (w : WithdrawalId) (edge : RetryEdge) : Listed s (.move w (.retry edge))

inductive Stepped (s : World) : Label → World → Prop where
  | works {task : Task} {choice : Choice} {t : World} {next : Option Task} (hmem : task ∈ s.tasks)
      (hworked : Worked { s with tasks := s.tasks.erase task } task choice t next) :
      Stepped s (.work task choice) (t.spawn next)
  | locks {w : WithdrawalId} (hstatus : (s.rows w).status = .approved) : Stepped s (.lockFunds w)
      { s.setRow w { s.rows w with status := .fundsLocked } with postings := (.lock, w) :: s.postings }
  | signs {w : WithdrawalId} (hstatus : (s.rows w).status = .fundsLocked) : Stepped s (.claimSign w)
      ((s.setRow w { s.rows w with status := .signing }).spawn (some (.lease w)))
  | broadcasts {w : WithdrawalId} {task : Task} (hstatus : (s.rows w).status = .signed)
      (htask : (∃ tx, (s.rows w).signedTransaction = some tx ∧ task = .broadcast w tx) ∨
        (s.rows w).signedTransaction = none ∧ task = .move w .broadcastFailed) :
      Stepped s (.claimBroadcast w)
        ((s.setRow w { s.rows w with status := .broadcast }).spawn (some task))
  | lists {label : Label} {task : Task} (htask : s.Listed task) :
      Stepped s label (s.spawn (some task))
  | crashes {task : Task} (hmem : task ∈ s.tasks) :
      Stepped s (.crash task) { s with tasks := s.tasks.erase task }
  | chain {label : Label} {nonce finalized : AccountId → Nat} {succeeded failed : List Tx}
      (hnonce : ∀ account, s.nonce account ≤ nonce account)
      (hlag : (∀ account, s.finalized account ≤ s.nonce account) →
        ∀ account, finalized account ≤ nonce account)
      (hsucceeded : ∀ tx ∈ succeeded, tx ∈ s.succeeded ∨
        tx ∈ s.sent ∧ s.nonce tx.account = tx.nonce) :
      Stepped s label { s with
        nonce := nonce, finalized := finalized, succeeded := succeeded, failed := failed }

theorem retryTask_listed (config : Config) (w : WithdrawalId) (record : Withdrawal) (edge : RetryEdge) :
    s.Listed (retryTask config w record edge) := by
  unfold retryTask
  split
  · exact .giveUp w edge
  · split
    · exact .dropLease w
    · exact .retry w edge

theorem le_update {f : AccountId → Nat} {n : Nat} (h : f account ≤ n) (other : AccountId) :
    f other ≤ Function.update f account n other := by
  revert other
  exact (Function.forall_update_iff f fun other n => f other ≤ n).2 ⟨h, fun _ _ => Nat.le_refl _⟩

theorem step_stepped {label : Label} (h : step config s label = some s') : Stepped s label s' := by
  cases label with
  | lockFunds w =>
    obtain ⟨row, hrow, rfl⟩ := Option.map_eq_some_iff.1 h
    obtain ⟨hstatus, rfl⟩ := Withdrawal.transition_eq hrow
    exact .locks hstatus
  | claimSign w =>
    obtain ⟨row, hrow, rfl⟩ := Option.map_eq_some_iff.1 h
    obtain ⟨hstatus, rfl⟩ := Withdrawal.transition_eq hrow
    exact .signs hstatus
  | claimBroadcast w =>
    obtain ⟨row, hrow, rfl⟩ := Option.map_eq_some_iff.1 h
    obtain ⟨hstatus, rfl⟩ := Withdrawal.transition_eq hrow
    refine .broadcasts hstatus ?_
    cases hbytes : (s.rows w).signedTransaction with
    | none => exact .inr ⟨rfl, by simp [Withdrawal.increment]⟩
    | some tx => exact .inl ⟨tx, rfl, by simp [Withdrawal.increment]⟩
  | listConfirm w =>
    obtain ⟨hstatus, ⟨⟩⟩ := Option.ite_none_right_eq_some.1 h
    exact .lists (.confirm hstatus)
  | listRetry w edge =>
    obtain ⟨-, ⟨⟩⟩ := Option.ite_none_right_eq_some.1 h
    exact .lists (retryTask_listed config w _ edge)
  | work task choice =>
    obtain ⟨hmem, h⟩ := Option.ite_none_right_eq_some.1 h
    obtain ⟨⟨t, next⟩, hwork, rfl⟩ := Option.map_eq_some_iff.1 h
    exact .works hmem (work_worked hwork)
  | crash task =>
    obtain ⟨hmem, ⟨⟩⟩ := Option.ite_none_right_eq_some.1 h
    exact .crashes hmem
  | land tx succeeds =>
    obtain ⟨⟨hsent, hnonce⟩, ⟨⟩⟩ := Option.ite_none_right_eq_some.1 h
    have hle : ∀ account, s.nonce account ≤
        Function.update s.nonce tx.account (tx.nonce + 1) account := le_update (by omega)
    have hlag := fun (hlag : ∀ account, s.finalized account ≤ s.nonce account) account =>
      (hlag account).trans (hle account)
    cases succeeds with
    | true => exact .chain hle hlag (List.forall_mem_cons.2 ⟨.inr ⟨hsent, hnonce⟩, fun _ => .inl⟩)
    | false => exact .chain hle hlag fun _ => .inl
  | advance account =>
    cases h
    have hle := le_update (Nat.le_succ (s.nonce account))
    exact .chain hle (fun hlag other => (hlag other).trans (hle other)) fun _ => .inl
  | finalize account =>
    obtain ⟨hlt, ⟨⟩⟩ := Option.ite_none_right_eq_some.1 h
    refine .chain (fun _ => Nat.le_refl _) (fun hlag => ?_) fun _ => .inl
    exact (Function.forall_update_iff _ fun other n => n ≤ s.nonce other).2 ⟨hlt, fun other _ => hlag other⟩

end World

end AtlasCex.Withdrawals

import AtlasCex.Withdrawals.Steps
import Mathlib.Data.List.Dedup
/-!
# An amount leaves at most once

A transaction that was signed is `Gone` when it has not succeeded and never will: the nonce has
moved past it, or its bytes are lost (never sent, in no worker's hands, in no row a worker takes
bytes from). A transaction that is gone stays gone until it is signed again (`step_effect`).

`leaves_at_most_once`: as long as every signing finds the other attempts at the withdrawal gone
and the lock in place, and every release of a lock finds all attempts gone, no withdrawal has two
transactions that succeeded, or one and its lock released. `paid_twice` is a run of the code as it
is in which the worker reads the status before the transaction lands and the nonce after.
-/
namespace AtlasCex.Withdrawals
open List

namespace World

variable {config : Config} {s s' : World} {tx : Tx} {label : Label} {task : Task} {choice : Choice}
  {next : Option Task} {w : WithdrawalId} {row : Withdrawal}

def Held (s : World) (tx : Tx) : Prop :=
  (∃ task ∈ s.tasks, task.holds = some tx) ∨ ∃ w, (s.rows w).offers = some tx

structure Gone (s : World) (tx : Tx) : Prop where
  not_succeeded : tx ∉ s.succeeded
  ended : tx.nonce < s.nonce tx.account ∨ tx ∉ s.sent ∧ ¬s.Held tx

/-- What a step may do for one transaction: it succeeds only by landing, is sent only by someone
who has its bytes, and its bytes come from where they already were. -/
structure Carries (s s' : World) (tx : Tx) : Prop where
  succeeded : tx ∈ s'.succeeded → tx ∈ s.succeeded ∨ tx ∈ s.sent ∧ s.nonce tx.account = tx.nonce
  nonce : s.nonce tx.account ≤ s'.nonce tx.account
  sent : tx ∈ s'.sent → tx ∈ s.sent ∨ s.Held tx
  held : s'.Held tx → s.Held tx

theorem Gone.carry (h : s.Gone tx) (hc : Carries s s' tx) : s'.Gone tx := by
  constructor
  · intro hmem
    rcases hc.succeeded hmem with hmem | ⟨hsent, hnonce⟩
    · exact h.not_succeeded hmem
    · rcases h.ended with hlt | ⟨hnot, -⟩
      · omega
      · exact hnot hsent
  · rcases h.ended with hlt | ⟨hsent, hheld⟩
    · exact .inl (Nat.lt_of_lt_of_le hlt hc.nonce)
    · refine .inr ⟨fun hmem => ?_, fun hh => hheld (hc.held hh)⟩
      rcases hc.sent hmem with hmem | hh
      · exact hsent hmem
      · exact hheld hh

/-! ## One step -/

theorem offers_eq_none (hflight : row.status.inFlight = false) : row.offers = none := by
  refine if_neg ?_
  rintro (hstatus | hstatus) <;> rw [hstatus] at hflight <;> cases hflight

/-- The row a worker leaves offers what it did, or what the worker had. -/
theorem RowTurns.offers {row' : Withdrawal} (h : RowTurns task next w row row')
    (hoffers : row'.offers = some tx) : row.offers = some tx ∨ task.holds = some tx := by
  cases h with
  | same hstatus hbytes _ _ =>
    rw [Withdrawal.offers, hstatus, hbytes.signedTransaction] at hoffers
    exact .inl hoffers
  | signed htask _ _ _ hrow =>
    subst htask hrow
    exact .inr hoffers
  | failed _ _ _ hstatus' =>
    rw [offers_eq_none (by rw [hstatus']; rfl)] at hoffers
    cases hoffers
  | passes _ hpasses _ =>
    rw [offers_eq_none (WithdrawalStatus.passesOn_spec hpasses).2.1] at hoffers
    cases hoffers

theorem Worked.mem_sent (h : Worked s task choice s' next) (hsent : tx ∈ s'.sent) :
    tx ∈ s.sent ∨ task.holds = some tx := by
  cases h with
  | sends hholds _ _ =>
    obtain rfl | hsent := mem_cons.1 hsent
    · exact .inr hholds
    · exact .inl hsent
  | _ => exact .inl hsent

/-- A signature is the one step that comes to have bytes nobody had. -/
theorem Worked.holds_next (h : Worked s task choice s' next) {t : Task} (ht : t ∈ next)
    (hholds : t.holds = some tx) : task.holds = some tx ∨ task = .sign tx ∧ choice = .ok := by
  cases h with
  | stays hnext _ => exact .inl ((hnext t ht).holds hholds)
  | sends _ _ hnext => exact .inl ((hnext t ht).holds hholds)
  | signs =>
    cases ht
    cases hholds
    exact .inr ⟨rfl, rfl⟩
  | leases | confirms | givesUp | relays | drops =>
    cases ht
    cases hholds
  | persists | saves | settles | moves => cases ht

theorem Worked.carries (hmem : task ∈ s.tasks)
    (h : Worked { s with tasks := s.tasks.erase task } task choice s' next)
    (hsign : ¬(task = .sign tx ∧ choice = .ok)) : Carries s (s'.spawn next) tx where
  succeeded hsucceeded := .inl (by rw [spawn, h.frame.2.2.2] at hsucceeded; exact hsucceeded)
  nonce := by rw [spawn, h.frame.2.1]
  sent hsent := (h.mem_sent hsent).imp_right fun hholds => .inl ⟨task, hmem, hholds⟩
  held := by
    rintro (⟨t, ht, hholds⟩ | ⟨w, hoffers⟩)
    · rw [h.spawn_tasks] at ht
      obtain ht | ht := mem_append.1 ht
      · exact .inl ⟨task, hmem, (h.holds_next (Option.mem_toList.1 ht) hholds).resolve_right hsign⟩
      · exact .inl ⟨t, mem_of_mem_erase ht, hholds⟩
    · obtain hoffers | hholds := (h.rows w).offers hoffers
      · exact .inr ⟨w, hoffers⟩
      · exact .inl ⟨task, hmem, hholds⟩

/-- A row is moved on outside the tasks, and one may begin on it. -/
theorem held_of_update (hrows : s'.rows = Function.update s.rows w row)
    (htasks : s'.tasks = next.toList ++ s.tasks) (hrow : row.offers = some tx → s.Held tx)
    (hnext : ∀ t ∈ next, t.holds = some tx → s.Held tx) : s'.Held tx → s.Held tx := by
  rintro (⟨t, ht, hholds⟩ | ⟨w', hoffers⟩)
  · rw [htasks] at ht
    obtain ht | ht := mem_append.1 ht
    · exact hnext t (Option.mem_toList.1 ht) hholds
    · exact .inl ⟨t, ht, hholds⟩
  · rw [hrows] at hoffers
    revert w'
    exact (Function.forall_update_iff _ fun _ (row' : Withdrawal) => row'.offers = some tx → s.Held tx).2
      ⟨hrow, fun w' _ hoffers => .inr ⟨w', hoffers⟩⟩

theorem Stepped.carries (h : Stepped s label s') (hsign : label ≠ .work (.sign tx) .ok) :
    Carries s s' tx := by
  cases h with
  | works hmem hworked => exact hworked.carries hmem (by rintro ⟨rfl, rfl⟩; exact hsign rfl)
  | @locks w _ =>
    refine ⟨.inl, Nat.le_refl _, .inl,
      held_of_update rfl (show _ = none.toList ++ s.tasks from rfl) ?_ nofun⟩
    exact fun hoffers => by rw [offers_eq_none rfl] at hoffers; cases hoffers
  | signs _ =>
    refine ⟨.inl, Nat.le_refl _, .inl, held_of_update rfl rfl ?_ ?_⟩
    · exact fun hoffers => by cases hoffers
    · rintro _ ⟨⟩ ⟨⟩
  | @broadcasts w task hstatus htask =>
    -- the row was in SIGNED and offered the bytes already
    have hoffers : (s.rows w).signedTransaction = some tx → s.Held tx := fun hbytes =>
      .inr ⟨w, (if_pos (.inl hstatus)).trans hbytes⟩
    refine ⟨.inl, Nat.le_refl _, .inl, held_of_update rfl rfl hoffers ?_⟩
    rintro _ ⟨⟩ hholds
    obtain ⟨bytes, hbytes, rfl⟩ | ⟨-, rfl⟩ := htask
    · exact hoffers (hbytes.trans hholds)
    · cases hholds
  | lists htask =>
    refine ⟨.inl, Nat.le_refl _, .inl, ?_⟩
    rintro (⟨t, ht, hholds⟩ | hrow)
    · obtain rfl | ht := mem_cons.1 ht
      · cases htask with
        | @confirm w hstatus => exact .inr ⟨w, (if_pos (.inr hstatus)).trans hholds⟩
        | giveUp | dropLease | retry => cases hholds
      · exact .inl ⟨t, ht, hholds⟩
    · exact .inr hrow
  | crashes _ =>
    refine ⟨.inl, Nat.le_refl _, .inl, ?_⟩
    rintro (⟨t, ht, hholds⟩ | hrow)
    · exact .inl ⟨t, mem_of_mem_erase ht, hholds⟩
    · exact .inr hrow
  | chain hnonce _ hsucceeded => exact ⟨hsucceeded tx, hnonce _, .inl, id⟩

theorem Stepped.signed (h : Stepped s label s') :
    (∀ tx ∈ s.signed, tx ∈ s'.signed) ∧
      ∀ tx ∈ s'.signed, tx ∈ s.signed ∨ label = .work (.sign tx) .ok := by
  cases h with
  | works hmem hworked =>
    cases hworked with
    | signs => exact ⟨fun _ => mem_cons_of_mem _, forall_mem_cons.2 ⟨.inr rfl, fun _ => .inl⟩⟩
    | _ => exact ⟨fun _ => id, fun _ => .inl⟩
  | _ => exact ⟨fun _ => id, fun _ => .inl⟩

theorem Stepped.released (h : Stepped s label s') (hr : s'.released w = true) :
    s.released w = true ∨ ∃ edge, label = .work (.giveUp w edge) .ok := by
  simp only [World.released, contains_iff_mem] at *
  cases h with
  | works hmem hworked =>
    cases hworked with
    | @givesUp w' edge =>
      obtain ⟨⟨⟩⟩ | hr := mem_cons.1 hr
      · exact .inr ⟨edge, rfl⟩
      · exact .inl hr
    | settles => exact .inl ((mem_cons.1 hr).resolve_left nofun)
    | _ => exact .inl hr
  | locks _ => exact .inl ((mem_cons.1 hr).resolve_left nofun)
  | _ => exact .inl hr

/-! ## Every run -/

/-- A step that signs does so with the lock in place and every other attempt at the withdrawal
gone; a step that releases a lock does so with every attempt gone. -/
def ProvenDead (s : World) : Label → Prop
  | .work (.sign tx) .ok =>
    s.released tx.withdrawal = false ∧
      ∀ tx' ∈ s.signed, tx'.withdrawal = tx.withdrawal → tx' ≠ tx → s.Gone tx'
  | .work (.giveUp w _) .ok => ∀ tx ∈ s.signed, tx.withdrawal = w → s.Gone tx
  | _ => True

/-- Everything on chain, on the network or in someone's hands was signed; of two attempts at a
withdrawal one is gone; if the lock is released all are. -/
structure Exclusive (s : World) : Prop where
  signed : ∀ tx, tx ∈ s.succeeded ∨ tx ∈ s.sent ∨ s.Held tx → tx ∈ s.signed
  gone : ∀ tx ∈ s.signed, ∀ tx' ∈ s.signed, tx.withdrawal = tx'.withdrawal → tx ≠ tx' →
    s.Gone tx ∨ s.Gone tx'
  released : ∀ w, s.released w = true → ∀ tx ∈ s.signed, tx.withdrawal = w → s.Gone tx

theorem initial_exclusive : Exclusive initial := by
  refine ⟨?_, nofun, nofun⟩
  rintro tx (h | h | ⟨task, hmem, -⟩ | ⟨w, h⟩)
  · cases h
  · cases h
  · cases hmem
  · cases h

theorem mem_signed (hs : World.step config s (.work (.sign tx) .ok) = some s') : tx ∈ s'.signed := by
  simp only [World.step, work, Option.map_some] at hs
  split at hs
  · cases hs
    exact mem_cons_self
  · cases hs

theorem Exclusive.step (h : Exclusive s) (hok : ProvenDead s label)
    (hs : World.step config s label = some s') : Exclusive s' := by
  have hstep := step_stepped hs
  obtain ⟨hmono, hnew⟩ := hstep.signed
  -- what is gone stays gone, but for the transaction being signed
  have hkeep : ∀ tx, s.Gone tx → label ≠ .work (.sign tx) .ok → s'.Gone tx :=
    fun tx hg hne => hg.carry (hstep.carries hne)
  have hothers : ∀ tx, label = .work (.sign tx) .ok → ∀ tx' ∈ s'.signed,
      tx'.withdrawal = tx.withdrawal → tx' ≠ tx → s'.Gone tx' := by
    rintro tx rfl tx' htx' hw hne
    have hsign : Label.work (.sign tx) .ok ≠ .work (.sign tx') .ok := by simpa using hne.symm
    exact hkeep tx' (hok.2 tx' ((hnew tx' htx').resolve_right hsign) hw hne) hsign
  refine ⟨?_, ?_, ?_⟩
  · intro tx htx
    by_cases hsign : label = .work (.sign tx) .ok
    · subst hsign
      exact mem_signed hs
    · have hc := hstep.carries hsign
      refine hmono tx (h.signed tx ?_)
      rcases htx with htx | htx | htx
      · rcases hc.succeeded htx with htx | ⟨htx, -⟩
        · exact .inl htx
        · exact .inr (.inl htx)
      · exact .inr (hc.sent htx)
      · exact .inr (.inr (hc.held htx))
  · intro tx htx tx' htx' hw hne
    by_cases hsign : label = .work (.sign tx) .ok
    · exact .inr (hothers tx hsign tx' htx' hw.symm hne.symm)
    by_cases hsign' : label = .work (.sign tx') .ok
    · exact .inl (hothers tx' hsign' tx htx hw hne)
    exact (h.gone tx ((hnew tx htx).resolve_right hsign) tx' ((hnew tx' htx').resolve_right hsign')
      hw hne).imp (hkeep tx · hsign) (hkeep tx' · hsign')
  · intro w hr tx htx hw
    rcases hstep.released hr with hr | ⟨edge, rfl⟩
    · -- a released withdrawal is not signed for again
      have hsign : label ≠ .work (.sign tx) .ok := by
        rintro rfl
        rw [← hw] at hr
        exact absurd hr (by rw [hok.1]; nofun)
      exact hkeep tx (h.released w hr tx ((hnew tx htx).resolve_right hsign) hw) hsign
    · have hsign : Label.work (.giveUp w edge) .ok ≠ .work (.sign tx) .ok := nofun
      exact hkeep tx (hok tx ((hnew tx htx).resolve_right hsign) hw) hsign

/-- The transactions of a withdrawal that succeeded on chain. -/
def paid (s : World) (w : WithdrawalId) : List Tx :=
  (s.succeeded.filter (·.withdrawal = w)).dedup

theorem Exclusive.paid_le (h : Exclusive s) (w : WithdrawalId) :
    (s.paid w).length + (s.released w).toNat ≤ 1 := by
  have hmem : ∀ tx ∈ s.paid w, tx ∈ s.succeeded ∧ tx.withdrawal = w := by
    intro tx htx
    rw [paid, mem_dedup, mem_filter, decide_eq_true_eq] at htx
    exact htx
  have hnodup : (s.paid w).Nodup := nodup_dedup _
  cases hp : s.paid w with
  | nil => simpa using Bool.toNat_le (s.released w)
  | cons tx rest =>
    rw [hp] at hmem hnodup
    obtain ⟨hsucc, hw⟩ := hmem tx mem_cons_self
    have hsigned := h.signed tx (.inl hsucc)
    have hlock : s.released w = false := by
      rw [Bool.eq_false_iff]
      exact fun hr => (h.released w hr tx hsigned hw).not_succeeded hsucc
    have hrest : rest = [] := by
      rw [eq_nil_iff_forall_not_mem]
      intro tx' htx'
      obtain ⟨hsucc', hw'⟩ := hmem tx' (mem_cons_of_mem _ htx')
      have hne : tx ≠ tx' := fun heq => (nodup_cons.1 hnodup).1 (heq ▸ htx')
      rcases h.gone tx hsigned tx' (h.signed tx' (.inl hsucc')) (hw.trans hw'.symm) hne with hg | hg
      · exact hg.not_succeeded hsucc
      · exact hg.not_succeeded hsucc'
    simp [hlock, hrest]

/-- In every run in which each signing and each release finds the earlier attempts gone, an amount
leaves once, or goes back to its user, or neither. -/
theorem leaves_at_most_once {run : List Label}
    (h : Lib.exec (World.step config) initial run = some s)
    (hok : Lib.Along (World.step config) ProvenDead initial run) (w : WithdrawalId) :
    (s.paid w).length + (s.released w).toNat ≤ 1 :=
  (Lib.exec_inv initial_exclusive (fun _ _ _ ht hok hs => ht.step hok hs) hok h).paid_le w

/-- Two nonce accounts, three attempts on each edge. -/
def sampleConfig : Config := ⟨[0, 1], fun _ => 3⟩

/-- Withdrawal 7 is claimed, leases an account and reads its nonce. -/
def prepare (account : AccountId) : List Label :=
  [.claimSign 7, .work (.lease 7) (.account (some account)), .work (.readNonce 7 account) .ok]

/-- The signed bytes are stored and sent, and the signature is stored. -/
def deliver (account : AccountId) : List Label :=
  [.work (.persist ⟨7, account, 0⟩) .ok, .claimBroadcast 7,
    .work (.broadcast 7 ⟨7, account, 0⟩) (.outcome (.submitted true) true),
    .work (.saveSignature 7 (some ⟨7, account, 0⟩)) .ok]

/-- The record the confirmation worker lists after the first attempt. -/
def listed : Withdrawal :=
  ⟨.broadcast, 0, 0, 0, some ⟨7, 0, 0⟩, some ⟨7, 0, 0⟩, some 0, some 0⟩

/-- The expired withdrawal goes back to the queue. -/
def requeue : List Label :=
  [.work (.move 7 .expired) .ok, .listRetry 7 .expiry, .work (.dropLease 7) .ok,
    .work (.move 7 (.retry .expiry)) .ok]

/-- Sent on account 0, `between`, requeued, sent on account 1, landed there. -/
def retried (between : List Label) : List Label :=
  (.lockFunds 7 :: prepare 0) ++ (.work (.sign ⟨7, 0, 0⟩) .ok :: (deliver 0 ++ between ++ requeue ++
    prepare 1)) ++ (.work (.sign ⟨7, 1, 0⟩) .ok :: (deliver 1 ++ [.land ⟨7, 1, 0⟩ true]))

/-- Someone else advances the nonce account of the first attempt. -/
def overtaken : List Label :=
  [.advance 0, .finalize 0, .listConfirm 7, .work (.confirm 7 listed) (.status .pending),
    .work (.resolve 7 listed) .ok]

theorem leaves_at_most_once_retry : ∃ s,
    Lib.exec (World.step sampleConfig) initial (retried overtaken) = some s ∧
      s.paid 7 = [⟨7, 1, 0⟩] ∧ (s.paid 7).length + (s.released 7).toNat ≤ 1 := by
  obtain ⟨s, hs⟩ : ∃ s, Lib.exec (World.step sampleConfig) initial (retried overtaken) = some s :=
    Option.isSome_iff_exists.1 (by decide +kernel)
  have hpaid : (Lib.exec (World.step sampleConfig) initial (retried overtaken)).map (·.paid 7) =
      some [⟨7, 1, 0⟩] := by decide +kernel
  rw [hs, Option.map_some, Option.some.injEq] at hpaid
  refine ⟨s, hs, hpaid, leaves_at_most_once hs ?_ 7⟩
  refine .append (.append (.of_forall ?_) fun t ht => ?_) fun t ht => ?_
  · simp [prepare, ProvenDead]
  · -- nothing has been signed yet
    have hfirst : (Lib.exec (World.step sampleConfig) initial (.lockFunds 7 :: prepare 0)).map
        (fun s => (s.released 7, s.signed)) = some (false, []) := by decide +kernel
    rw [ht, Option.map_some, Option.some.injEq, Prod.mk.injEq] at hfirst
    refine .cons ⟨hfirst.1, ?_⟩ fun _ _ =>
      .of_forall (by simp [deliver, overtaken, requeue, prepare, ProvenDead])
    rw [hfirst.2]
    nofun
  · -- the first attempt was overtaken
    have hsecond : (Lib.exec (World.step sampleConfig) initial ((.lockFunds 7 :: prepare 0) ++
        (.work (.sign ⟨7, 0, 0⟩) .ok :: (deliver 0 ++ overtaken ++ requeue ++ prepare 1)))).map
        (fun s => (s.released 7, s.signed, s.succeeded, s.nonce 0)) =
        some (false, [⟨7, 0, 0⟩], [], 1) := by decide +kernel
    simp only [ht, Option.map_some, Option.some.injEq, Prod.mk.injEq] at hsecond
    obtain ⟨hlock, hsigned, hsucc, hnonce⟩ := hsecond
    refine .cons ⟨hlock, ?_⟩ fun _ _ => .of_forall (by simp [deliver, ProvenDead])
    intro tx htx _ _
    rw [hsigned, mem_singleton] at htx
    subst htx
    exact ⟨by rw [hsucc]; nofun, .inl (by simp only [hnonce]; decide)⟩

/-- The status is read before the first transaction lands, the nonce after. -/
def raced : List Label :=
  [.listConfirm 7, .work (.confirm 7 listed) (.status .pending), .land ⟨7, 0, 0⟩ true,
    .finalize 0, .work (.resolve 7 listed) .ok]

/-- The attempt counts as dead although it landed; both transactions succeed. -/
theorem paid_twice : ∃ s, Lib.exec (World.step sampleConfig) initial (retried raced) = some s ∧
    s.paid 7 = [⟨7, 1, 0⟩, ⟨7, 0, 0⟩] ∧ ¬(s.paid 7).length + (s.released 7).toNat ≤ 1 := by
  obtain ⟨s, hs⟩ : ∃ s, Lib.exec (World.step sampleConfig) initial (retried raced) = some s :=
    Option.isSome_iff_exists.1 (by decide +kernel)
  have hpaid : (Lib.exec (World.step sampleConfig) initial (retried raced)).map (·.paid 7) =
      some [⟨7, 1, 0⟩, ⟨7, 0, 0⟩] := by decide +kernel
  rw [hs, Option.map_some, Option.some.injEq] at hpaid
  exact ⟨s, hs, hpaid, by rw [hpaid, length_cons, length_singleton]; omega⟩

end World
end AtlasCex.Withdrawals

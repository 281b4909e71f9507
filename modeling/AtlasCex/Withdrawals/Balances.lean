import AtlasCex.Lib.Selection
import AtlasCex.Withdrawals.Locks
/-!
# The lock and the state agree

`locks_agree`: over any run that is careful (`World.Careful`), a withdrawal has one lock posting and one
posting out of the lock at most, and what is in a locked account is the sum of the withdrawals whose
status says so, whenever no give-up is between its release and its transition.

`released_twice` is a run that is not: the comment of `giveUp` has a second attempt find nothing
locked, but the release is posted whatever is locked.
-/
namespace AtlasCex.Withdrawals

open List
open Ledger (UserId AssetKey AccountRef LedgerTransaction PostingError Entry balance effects at_
  balance_append at_of_type_ne)
open Lib (exec Along exec_inv exec_reaches)

/-! ## What a withdrawal posts -/

/-- The two accounts a withdrawal locks in. -/
def Locked (x : AccountRef) : Prop := x.type = .userCustodyLocked ∨ x.type = .userTradingLocked

def lockOf (id : String) (t : LedgerTransaction) : Bool := t.kind = .withdrawalLock ∧ t.referenceId = id

def outOf (id : String) (t : LedgerTransaction) : Bool := isOut t.kind ∧ t.referenceId = id

namespace Details

/-- The transaction `t` locks `amount` for `d`; a negative one leaves the lock. -/
structure Posted (d : Details) (t : LedgerTransaction) (amount : Int) : Prop where
  referenceId : t.referenceId = d.id
  effect : ∀ x, Locked x → effects t.entries x = at_ d.lockedAccount amount x

variable {d : Details} {t : LedgerTransaction}

theorem availableAccount_type (d : Details) {x : AccountRef} (hx : Locked x) :
    d.availableAccount.type ≠ x.type := by
  intro heq
  unfold availableAccount at heq
  split at heq <;> rcases hx with hx | hx <;> rw [hx] at heq <;> cases heq

theorem lock_ok (h : d.lock = .ok t) : t.kind = .withdrawalLock ∧ d.Posted t d.amount := by
  have hmove : Ledger.postMove .withdrawalLock (if d.fromTrading then "trading lock" else "lock") d.id
      d.availableAccount d.lockedAccount d.asset d.amount = .ok t := by
    rw [← h]
    unfold lock availableAccount lockedAccount
    split <;> rfl
  obtain ⟨hkind, href, heffect⟩ := Ledger.postMove_ok hmove
  refine ⟨hkind, href, fun x hx => ?_⟩
  rw [heffect, at_of_type_ne (d.availableAccount_type hx), zero_add]

theorem release_ok (h : d.release = .ok t) : isOut t.kind = true ∧ d.Posted t (-d.amount) := by
  have hmove : Ledger.postMove .withdrawalRelease (if d.fromTrading then "trading release" else "release")
      d.id d.lockedAccount d.availableAccount d.asset d.amount = .ok t := by
    rw [← h]
    unfold release availableAccount lockedAccount
    split <;> rfl
  obtain ⟨hkind, href, heffect⟩ := Ledger.postMove_ok hmove
  refine ⟨by rw [hkind]; rfl, href, fun x hx => ?_⟩
  rw [heffect, at_of_type_ne (d.availableAccount_type hx), add_zero]

theorem settlement_ok {feeAsset : AssetKey} {networkFee : Int}
    (h : d.settlement feeAsset networkFee = .ok t) : isOut t.kind = true ∧ d.Posted t (-d.amount) := by
  -- only the first leg is in a locked account
  have hlegs : ∀ {kind what reason} {legs : List Entry}, isOut kind = true →
      Ledger.postOut kind what reason d.id legs d.amount feeAsset networkFee = .ok t →
      (∀ x, Locked x → effects legs x = at_ d.lockedAccount (-d.amount) x) →
      isOut t.kind = true ∧ d.Posted t (-d.amount) := by
    intro kind what reason legs hkind hpost heffect
    obtain ⟨rfl, href, hout⟩ := Ledger.postOut_ok hpost
    refine ⟨hkind, href, fun x hx => ?_⟩
    rw [hout x (by rintro heq; rw [Locked, heq] at hx; simp at hx)
      (by rintro heq; rw [Locked, heq] at hx; simp at hx), heffect x hx]
  have hzero : ∀ (account : AccountRef) (amount : Int) (x : AccountRef), Locked x → ¬ Locked account →
      at_ account amount x = 0 := by
    intro account amount x hx haccount
    refine at_of_type_ne (fun heq => haccount ?_) amount
    rwa [Locked, heq]
  unfold settlement at h
  cases hpurpose : d.purpose with
  | external =>
    rw [hpurpose] at h
    refine hlegs rfl h fun x hx => ?_
    have hchain := hzero (Ledger.chainAssets d.userId d.asset) d.amount x hx (by simp [Locked, Ledger.chainAssets])
    simp [effects, lockedAccount, fromTrading, hpurpose, hchain]
  | allocation =>
    rw [hpurpose] at h
    refine hlegs rfl h fun x hx => ?_
    have hchain := hzero (Ledger.chainAssets d.userId d.asset) d.amount x hx (by simp [Locked, Ledger.chainAssets])
    have hclearing := hzero (Ledger.clearingAssets d.asset) (-d.amount) x hx (by simp [Locked, Ledger.clearingAssets])
    have huser := hzero (Ledger.userTradingAvailable d.userId d.asset) d.amount x hx
      (by simp [Locked, Ledger.userTradingAvailable])
    simp [effects, lockedAccount, fromTrading, hpurpose, hchain, hclearing, huser]
  | deallocation =>
    rw [hpurpose] at h
    refine hlegs rfl h fun x hx => ?_
    have hchain := hzero (Ledger.chainAssets d.userId d.asset) (-d.amount) x hx (by simp [Locked, Ledger.chainAssets])
    have hclearing := hzero (Ledger.clearingAssets d.asset) d.amount x hx (by simp [Locked, Ledger.clearingAssets])
    have huser := hzero (Ledger.userCustodyAvailable d.userId d.asset) d.amount x hx
      (by simp [Locked, Ledger.userCustodyAvailable])
    simp [effects, lockedAccount, fromTrading, hpurpose, hchain, hclearing, huser]

end Details

theorem Foreign.effects_eq_zero {t : LedgerTransaction} (h : Foreign t) {x : AccountRef} (hx : Locked x) :
    effects t.entries x = 0 := by
  refine sum_eq_zero fun amount hamount => ?_
  obtain ⟨e, he, rfl⟩ := mem_map.1 hamount
  rw [Entry.effect, if_neg]
  rintro rfl
  exact hx.elim (h.2.2 e he).1 (h.2.2 e he).2

/-! ## The desk -/

/-- What the withdrawal has in the account. -/
def World.held (s : World) (x : AccountRef) (p : WithdrawalId × Details) : Int :=
  if p.2.lockedAccount = x ∧ s.Holds p.1 then p.2.amount else 0

namespace Desk

structure Agrees (desk : Desk) : Prop where
  once : desk.world.Once
  handles : (desk.withdrawals.map (·.1)).Nodup
  ids : (desk.withdrawals.map (·.2.id)).Nodup
  fresh : ∀ w, w ∉ desk.withdrawals.map (·.1) →
    ¬ desk.world.Holds w ∧ ∀ p, desk.world.postings.count (p, w) = 0
  references : ∀ t ∈ desk.ledger, t.kind = .withdrawalLock ∨ isOut t.kind = true →
    t.referenceId ∈ desk.withdrawals.map (·.2.id)
  locks : ∀ p ∈ desk.withdrawals,
    desk.ledger.countP (lockOf p.2.id) = desk.world.postings.count (.lock, p.1)
  outs : ∀ p ∈ desk.withdrawals, desk.ledger.countP (outOf p.2.id) =
    desk.world.postings.count (.release, p.1) + desk.world.postings.count (.settlement, p.1)
  locked : ∀ x, Locked x → balance desk.ledger x = (desk.withdrawals.map (desk.world.held x)).sum

variable {config : Config} {desk desk' : Desk} {world : World} {w : WithdrawalId} {d : Details}
  {t : LedgerTransaction}

theorem Agrees.initial : Agrees initial where
  once w := by
    refine ⟨by simp [Desk.initial, World.initial], ?_, ?_, ?_, ?_, ?_, ?_, ?_⟩ <;>
      simp [Desk.initial, World.initial, World.released, World.Leaving]
  handles := nodup_nil
  ids := nodup_nil
  fresh _ _ := ⟨(fun hholds => by cases hholds.1), fun _ => rfl⟩
  references := by simp [Desk.initial]
  locks := by simp [Desk.initial]
  outs := by simp [Desk.initial]
  locked _ _ := rfl

theorem mem_of_details (h : desk.details w = some d) : (w, d) ∈ desk.withdrawals := by
  obtain ⟨⟨w', d'⟩, hfind, rfl⟩ := Option.map_eq_some_iff.1 h
  have hw : w' = w := by simpa using find?_some hfind
  subst hw
  exact mem_of_find?_eq_some hfind

/-- A step that posts nothing. -/
theorem Agrees.keeps (h : Agrees desk) (hk : desk.world.Keeps world) :
    Agrees { desk with world } where
  once := hk.once
  handles := h.handles
  ids := h.ids
  fresh w hw := by
    rw [hk.holds, hk.postings]
    exact h.fresh w hw
  references := h.references
  locks p hp := by rw [hk.postings]; exact h.locks p hp
  outs p hp := by rw [hk.postings]; exact h.outs p hp
  locked x hx := by
    rw [h.locked x hx]
    congr 1
    apply map_congr_left
    intro p _
    simp only [World.held, hk.holds]

/-- Handles and ids name the same withdrawal. -/
theorem Agrees.id_eq_iff (h : Agrees desk) {p q : WithdrawalId × Details} (hp : p ∈ desk.withdrawals)
    (hq : q ∈ desk.withdrawals) : p.2.id = q.2.id ↔ p.1 = q.1 := by
  constructor
  · intro hid
    rw [inj_on_of_nodup_map h.ids hp hq hid]
  · intro hw
    rw [inj_on_of_nodup_map h.handles hp hq hw]

/-- A step that posts for one withdrawal. -/
theorem Agrees.posts (h : Agrees desk) (hmem : (w, d) ∈ desk.withdrawals) {p : Posting} {amount : Int}
    (hp : desk.world.Posts world p w) (hlock : t.kind = .withdrawalLock ↔ p = .lock)
    (hout : isOut t.kind = true ↔ p ≠ .lock) (hposted : d.Posted t amount)
    (hheld : ∀ x, world.held x (w, d) - desk.world.held x (w, d) = at_ d.lockedAccount amount x) :
    Agrees { desk with world, ledger := desk.ledger ++ [t] } where
  once := hp.once
  handles := h.handles
  ids := h.ids
  fresh w' hw' := by
    have hne : w' ≠ w := by
      rintro rfl
      exact hw' (mem_map_of_mem hmem)
    rw [hp.holds w' hne, hp.postings]
    obtain ⟨hholds, hnone⟩ := h.fresh w' hw'
    refine ⟨hholds, fun q => ?_⟩
    rw [count_cons_of_ne (by simpa using fun _ => Ne.symm hne)]
    exact hnone q
  references u hu hkind := by
    obtain hu | rfl := mem_append.1 hu |>.imp_right mem_singleton.1
    · exact h.references u hu hkind
    · rw [hposted.referenceId]
      exact mem_map_of_mem (f := fun q : WithdrawalId × Details => q.2.id) hmem
  locks q hq := by
    have hone : lockOf q.2.id t = true ↔ (p, w) = (.lock, q.1) := by
      rw [lockOf, decide_eq_true_eq, hlock, hposted.referenceId, h.id_eq_iff hmem hq, Prod.mk.injEq]
    rw [countP_append, countP_singleton, h.locks q hq, hp.postings, count_cons]
    simp only [hone, beq_iff_eq]
  outs q hq := by
    have hone : outOf q.2.id t = true ↔ p ≠ .lock ∧ w = q.1 := by
      rw [outOf, decide_eq_true_eq, hout, hposted.referenceId, h.id_eq_iff hmem hq]
    rw [countP_append, countP_singleton, h.outs q hq, hp.postings, count_cons,
      count_cons]
    simp only [hone, beq_iff_eq, Prod.mk.injEq]
    cases p <;> simp <;> omega
  locked x hx := by
    have hothers : ∀ q ∈ desk.withdrawals, q.1 ≠ w → world.held x q = desk.world.held x q := by
      intro q _ hne
      simp only [World.held, hp.holds q.1 hne]
    rw [balance_append, h.locked x hx, hposted.effect x hx, ← hheld,
      Lib.sum_map_change h.handles hmem hothers]

theorem Agrees.post (h : Agrees desk) (hforeign : Foreign t) :
    Agrees { desk with ledger := desk.ledger ++ [t] } where
  once := h.once
  handles := h.handles
  ids := h.ids
  fresh := h.fresh
  references u hu hkind := by
    obtain hu | rfl := mem_append.1 hu |>.imp_right mem_singleton.1
    · exact h.references u hu hkind
    · obtain hkind | hkind := hkind
      · exact absurd hkind hforeign.1
      · rw [hforeign.2.1] at hkind
        cases hkind
  locks q hq := by
    have hnot : lockOf q.2.id t = false := by simp [lockOf, hforeign.1]
    rw [countP_append, countP_singleton, hnot]
    exact h.locks q hq
  outs q hq := by
    have hnot : outOf q.2.id t = false := by simp [outOf, hforeign.2.1]
    rw [countP_append, countP_singleton, hnot]
    exact h.outs q hq
  locked x hx := by
    rw [balance_append, hforeign.effects_eq_zero hx, add_zero]
    exact h.locked x hx

theorem Agrees.request (h : Agrees desk) (hw : w ∉ desk.withdrawals.map (·.1))
    (hid : d.id ∉ desk.withdrawals.map (·.2.id)) :
    Agrees { desk with withdrawals := desk.withdrawals ++ [(w, d)] } := by
  obtain ⟨hholds, hnone⟩ := h.fresh w hw
  have hunused : ∀ u ∈ desk.ledger, u.kind = .withdrawalLock ∨ isOut u.kind = true → u.referenceId ≠ d.id :=
    fun u hu hkind heq => hid (heq ▸ h.references u hu hkind)
  refine ⟨h.once, ?_, ?_, fun w' hw' => h.fresh w' ?_, fun u hu hkind => ?_, fun q hq => ?_,
    fun q hq => ?_, fun x hx => ?_⟩
  · rw [map_append]
    exact nodup_append'.2 ⟨h.handles, nodup_singleton w, by simpa using hw⟩
  · rw [map_append]
    exact nodup_append'.2 ⟨h.ids, nodup_singleton d.id, by simpa using hid⟩
  · rw [map_append, mem_append, not_or] at hw'
    exact hw'.1
  · rw [map_append]
    exact mem_append_left _ (h.references u hu hkind)
  · obtain hq | rfl := mem_append.1 hq |>.imp_right mem_singleton.1
    · exact h.locks q hq
    · rw [hnone, countP_eq_zero]
      intro u hu hlock
      obtain ⟨hkind, href⟩ : u.kind = .withdrawalLock ∧ u.referenceId = d.id := by simpa [lockOf] using hlock
      exact hunused u hu (.inl hkind) href
  · obtain hq | rfl := mem_append.1 hq |>.imp_right mem_singleton.1
    · exact h.outs q hq
    · rw [hnone, hnone, countP_eq_zero]
      intro u hu hout
      obtain ⟨hkind, href⟩ : isOut u.kind = true ∧ u.referenceId = d.id := by simpa [outOf] using hout
      exact hunused u hu (.inr hkind) href
  · have hzero : desk.world.held x (w, d) = 0 := if_neg fun hh => hholds hh.2
    rw [map_append, sum_append, h.locked x hx]
    simp [hzero]

/-- The world's steps are careful. -/
def Careful (desk : Desk) : Label → Prop
  | .worker label _ => desk.world.Careful label
  | _ => True

instance (desk : Desk) : DecidablePred desk.Careful
  | .worker label _ => inferInstanceAs (Decidable (desk.world.Careful label))
  | .request .. | .decide .. | .lockFunds .. | .post .. => .isTrue trivial

theorem decision_near (decision : Decision) : World.Near decision.source decision.target := by
  cases decision <;> decide

theorem Agrees.decided (h : Agrees desk) {decision : Decision} {row : Withdrawal}
    (hrow : (desk.world.rows w).transition decision.source decision.target none = some row) :
    Agrees { desk with world := desk.world.setRow w row } := by
  refine h.keeps (h.once.calm ⟨rfl, ?_, fun _ => Nat.le_refl _, fun _ _ => Iff.rfl⟩)
  obtain ⟨hstatus, rfl⟩ := Withdrawal.transition_eq hrow
  exact h.once.rows_set decision.target hstatus (decision_near decision) rfl

theorem toOption_eq_some {e : Except PostingError LedgerTransaction} (h : e.toOption = some t) :
    e = .ok t := by
  cases e with
  | error => cases h
  | ok u =>
    cases h
    rfl

theorem Agrees.lockFunds (h : Agrees desk) (hstep : desk.step config (.lockFunds w) = some desk') :
    Agrees desk' := by
  obtain ⟨d, hd, hstep⟩ := Option.bind_eq_some_iff.1 hstep
  obtain ⟨-, hstep⟩ := Option.ite_none_right_eq_some.1 hstep
  obtain ⟨t, ht, hstep⟩ := Option.bind_eq_some_iff.1 hstep
  obtain ⟨world, hworld, rfl⟩ := Option.map_eq_some_iff.1 hstep
  obtain ⟨hkind, hposted⟩ := Details.lock_ok (toOption_eq_some ht)
  obtain ⟨hposts, hbefore, hafter⟩ := h.once.lock hworld
  refine h.posts (mem_of_details hd) hposts (by simp [hkind]) (by simp [hkind, isOut]) hposted fun x => ?_
  simp [World.held, at_, hbefore, hafter]

/-- A posting that takes the withdrawal's amount out of its lock. -/
theorem Agrees.out (h : Agrees desk) (hd : desk.details w = some d) {p : Posting} (hp : p ≠ .lock)
    (hposts : desk.world.Posts world p w ∧ desk.world.Holds w ∧ ¬ world.Holds w)
    (hposted : isOut t.kind = true ∧ d.Posted t (-d.amount)) :
    Agrees { desk with world, ledger := desk.ledger ++ [t] } := by
  obtain ⟨hposts, hbefore, hafter⟩ := hposts
  obtain ⟨hkind, hposted⟩ := hposted
  have hlock : t.kind ≠ .withdrawalLock := by
    intro heq
    rw [heq] at hkind
    cases hkind
  refine h.posts (mem_of_details hd) hposts (by simp [hlock, hp]) (by simp [hkind, hp]) hposted fun x => ?_
  by_cases hx : d.lockedAccount = x <;> simp [World.held, at_, hbefore, hafter, hx]

theorem posting_of_posts_none {networkFee : Int} {label : Withdrawals.Label} {t : Option LedgerTransaction}
    (hposts : World.Label.posts label = none) (h : desk.posting config networkFee label = some t) :
    t = none := by
  unfold World.Label.posts at hposts
  split at hposts <;> try cases hposts
  unfold posting at h
  split at h
  · cases h
  · simp_all
  · simp_all
  · simpa using h.symm

theorem Agrees.worker (h : Agrees desk) {label : Withdrawals.Label} {networkFee : Int}
    (hok : desk.world.Careful label) (hstep : desk.step config (.worker label networkFee) = some desk') :
    Agrees desk' := by
  obtain ⟨t, ht, hstep⟩ := Option.bind_eq_some_iff.1 hstep
  obtain ⟨world, hworld, rfl⟩ := Option.map_eq_some_iff.1 hstep
  cases hposts : World.Label.posts label with
  | none =>
    obtain rfl := posting_of_posts_none hposts ht
    have hkeeps := h.keeps (h.once.keeps hposts hok hworld)
    simpa using hkeeps
  | some posting =>
    unfold World.Label.posts at hposts
    split at hposts <;> cases hposts
    · cases ht
    · rename_i w edge
      obtain ⟨d, hd, hrelease⟩ := Option.bind_eq_some_iff.1 ht
      obtain ⟨u, hu, rfl⟩ := Option.map_eq_some_iff.1 hrelease
      obtain ⟨hstatus, hunreleased⟩ := hok rfl
      obtain ⟨-, hwork⟩ := Option.ite_none_right_eq_some.1 hworld
      obtain ⟨⟨s, next⟩, hdone, rfl⟩ := Option.map_eq_some_iff.1 hwork
      cases hdone
      exact h.out hd (by decide) (h.once.release hstatus hunreleased rfl)
        (Details.release_ok (toOption_eq_some hu))
    · rename_i w
      obtain ⟨d, hd, hsettlement⟩ := Option.bind_eq_some_iff.1 ht
      obtain ⟨u, hu, rfl⟩ := Option.map_eq_some_iff.1 hsettlement
      obtain ⟨hmem, hwork⟩ := Option.ite_none_right_eq_some.1 hworld
      obtain ⟨⟨s, next⟩, hdone, rfl⟩ := Option.map_eq_some_iff.1 hwork
      cases hdone
      exact h.out hd (by decide) (h.once.settle hmem rfl) (Details.settlement_ok (toOption_eq_some hu))

theorem Agrees.step (h : Agrees desk) {label : Label} (hok : desk.Careful label)
    (hstep : desk.step config label = some desk') : Agrees desk' := by
  cases label with
  | request w d =>
    obtain ⟨hall, hstep⟩ := Option.ite_none_right_eq_some.1 hstep
    cases hstep
    simp only [all_eq_true, decide_eq_true_eq] at hall
    refine h.request ?_ ?_
    · intro hw
      obtain ⟨p, hp, hpw⟩ := mem_map.1 hw
      exact (hall p hp).1 hpw
    · intro hid
      obtain ⟨p, hp, hpid⟩ := mem_map.1 hid
      exact (hall p hp).2 hpid
  | decide w decision =>
    obtain ⟨-, -, hstep⟩ := Option.bind_eq_some_iff.1 hstep
    obtain ⟨row, hrow, rfl⟩ := Option.map_eq_some_iff.1 hstep
    exact h.decided hrow
  | lockFunds w => exact h.lockFunds hstep
  | worker label networkFee => exact h.worker hok hstep
  | post t =>
    obtain ⟨hforeign, hstep⟩ := Option.ite_none_right_eq_some.1 hstep
    cases hstep
    exact h.post hforeign

/-- Nothing is between a release and its transition: the status alone says what is locked. -/
theorem Agrees.holds_iff (h : Agrees desk) (hquiet : ∀ task ∈ desk.world.tasks, task.leaves = none)
    (w : WithdrawalId) : desk.world.Holds w ↔ (desk.world.rows w).status.holdsLock = true := by
  refine and_iff_left_of_imp fun hstatus => ?_
  rw [Bool.eq_false_iff]
  intro hreleased
  obtain hfailed | ⟨edge, -, task, htask, hleaves⟩ := (h.once w).released hreleased
  · rw [hfailed] at hstatus
    cases hstatus
  · rw [hquiet task htask] at hleaves
    cases hleaves

/-- The withdrawals of a user and an asset that have something locked in the tier. -/
def lockedFor (desk : Desk) (user : UserId) (asset : AssetKey) (fromTrading : Bool) : List Details :=
  (desk.withdrawals.filter fun (w, d) => d.userId = user ∧ d.asset = asset ∧
    d.fromTrading = fromTrading ∧ (desk.world.rows w).status.holdsLock).map (·.2)

theorem Agrees.balance_eq (h : Agrees desk) (hquiet : ∀ task ∈ desk.world.tasks, task.leaves = none)
    (user : UserId) (asset : AssetKey) (fromTrading : Bool) :
    balance desk.ledger (if fromTrading then Ledger.userTradingLocked user asset
      else Ledger.userCustodyLocked user asset) =
      ((desk.lockedFor user asset fromTrading).map (·.amount)).sum := by
  have hx : Locked (if fromTrading then Ledger.userTradingLocked user asset
      else Ledger.userCustodyLocked user asset) := by
    cases fromTrading
    · exact .inl rfl
    · exact .inr rfl
  rw [h.locked _ hx, lockedFor, map_map, ← Lib.sum_map_ite]
  congr 1
  apply map_congr_left
  rintro ⟨w, d⟩ -
  -- the account names the user, the asset and the tier
  have haccount : d.lockedAccount = (if fromTrading then Ledger.userTradingLocked user asset
      else Ledger.userCustodyLocked user asset) ↔
      d.userId = user ∧ d.asset = asset ∧ d.fromTrading = fromTrading := by
    unfold Details.lockedAccount
    cases d.fromTrading <;> cases fromTrading <;>
      simp [Ledger.userTradingLocked, Ledger.userCustodyLocked]
  simp only [World.held, haccount, h.holds_iff hquiet, Function.comp, decide_eq_true_eq, and_assoc]

/-- In every run whose steps are careful, a withdrawal is locked once and leaves its lock once, at most;
and while no give-up is between its release and its transition, a user's locked balance is the sum of
the user's withdrawals whose status holds a lock. -/
theorem locks_agree {run : List Label} (hrun : exec (Desk.step config) initial run = some desk)
    (hok : Along (Desk.step config) Careful initial run) :
    (∀ p ∈ desk.withdrawals,
      desk.ledger.countP (lockOf p.2.id) ≤ 1 ∧ desk.ledger.countP (outOf p.2.id) ≤ 1) ∧
    ((∀ task ∈ desk.world.tasks, task.leaves = none) → ∀ user asset,
      balance desk.ledger (Ledger.userCustodyLocked user asset) =
        ((desk.lockedFor user asset false).map (·.amount)).sum ∧
      balance desk.ledger (Ledger.userTradingLocked user asset) =
        ((desk.lockedFor user asset true).map (·.amount)).sum) := by
  have h : Agrees desk := exec_inv Agrees.initial (fun _ _ _ ht hok hs => ht.step hok hs) hok hrun
  refine ⟨fun p hp => ?_, fun hquiet user asset => ?_⟩
  · rw [h.locks p hp, h.outs p hp]
    exact ⟨(h.once p.1).locks, (h.once p.1).out⟩
  · exact ⟨h.balance_eq hquiet user asset false, h.balance_eq hquiet user asset true⟩

/-- Alice has 100 and withdraws it; signing fails, and the budget is spent. -/
def exhausted : List Label :=
  [.post funding, .request 7 ⟨"w7", "alice", usdc, 100, .external, by decide⟩, .decide 7 .evaluating,
    .decide 7 .autoApproved, .lockFunds 7, .worker (.claimSign 7) 0,
    .worker (.work (.lease 7) .throws) 0, .worker (.work (.move 7 .signError) .ok) 0]

/-- The retry pass gives the withdrawal up and posts its release. -/
def giveUp : List Label :=
  [.worker (.listRetry 7 .sign) 0, .worker (.work (.giveUp 7 .sign) .ok) 0]

def fail : List Label :=
  [.worker (.work (.giveUpLease 7 .sign) .ok) 0, .worker (.work (.move 7 (.giveUp .sign)) .ok) 0]

theorem locks_agree_given_up : ∃ desk,
    exec (Desk.step sampleConfig) initial (exhausted ++ giveUp ++ fail) = some desk ∧
      (desk.world.rows 7).status = .failed ∧
      balance desk.ledger (Ledger.userCustodyLocked "alice" usdc) =
        ((desk.lockedFor "alice" usdc false).map (·.amount)).sum := by
  obtain ⟨desk, hrun, hstatus, htasks⟩ : ∃ desk,
      exec (Desk.step sampleConfig) initial (exhausted ++ giveUp ++ fail) = some desk ∧
        (desk.world.rows 7).status = .failed ∧ desk.world.tasks = [] :=
    exec_reaches (by decide +kernel)
  have hagree := locks_agree hrun (by decide +kernel)
  exact ⟨desk, hrun, hstatus, (hagree.2 (by simp [htasks]) "alice" usdc).1⟩

/-- The process dies between the release and the transition; the row is listed again and released
again, so that the locked account is short by the amount. -/
theorem released_twice : ∃ desk,
    exec (Desk.step sampleConfig) initial
      (exhausted ++ giveUp ++ [.worker (.crash (.giveUpLease 7 .sign)) 0] ++ giveUp ++ fail) = some desk ∧
      desk.world.tasks = [] ∧ desk.ledger.countP (outOf "w7") = 2 ∧
      balance desk.ledger (Ledger.userCustodyLocked "alice" usdc) = -100 ∧
      desk.lockedFor "alice" usdc false = [] :=
  exec_reaches (by decide +kernel)

end Desk

end AtlasCex.Withdrawals

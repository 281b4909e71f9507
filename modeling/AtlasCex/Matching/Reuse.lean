import AtlasCex.Matching.Invariants
/-!
# Ids that come back (`engine.rs:152-214`, `book.rs:159-176, 315-341`)

A cancelled order leaves the index at once and its queue only when the front reaches it. Until then
its id stands there as a tombstone, dead because the index does not know it. `place` asks the index
alone whether an id is taken, so an id may come back while a queue still holds it: the tombstone is
then live again, at the place the old order had (`rested_before_itself`).

Where no such id comes back (`clean`), nothing else about reuse matters: the book refines the
reference list whatever ids were used before. What a state remembers of the past is only the ids
its queues hold (`OrderBook.Queued`), and the refinement is taken up again with these after every
command.
-/
namespace AtlasCex.Matching
open List
open Lib (exec Along)
open Std (ExtTreeMap)

/-! ## Commands that bring no tombstone back -/

/-- A queue holds the id of an order that is gone. -/
def OrderBook.tombstoned (b : OrderBook) (id : OrderId) : Bool :=
  !b.contains id && (b.bids.levels.toList ++ b.asks.levels.toList).any (·.2.queue.contains id)

/-- Nothing else rests at the price of an order: its level goes when it goes. -/
def OrderBook.alone (b : OrderBook) (id : OrderId) : Bool :=
  (b.get id).all fun o => (b.levelAt o.side o.price).all fun lv => lv.totalQty = o.remaining

/-- The command's new order has an id that no queue holds as a tombstone; an amendment under the
order's own id would leave one, unless the order is alone at its price. -/
def clean (e : Engine) (c : SequencedCommand) : Bool :=
  match c.command with
  | .place orderId _ => !e.book.tombstoned orderId
  | .amend orderId newOrderId _ _ =>
    if newOrderId = orderId then e.book.alone orderId else !e.book.tombstoned newOrderId
  | .cancel _ => true
  | .setStatus _ => true

/-- The sequencer numbers commands upward. -/
def advance (e : Engine) (c : SequencedCommand) : Option Engine :=
  if e.lastSeq < c.seq then some (e.apply c).2 else none

/-! ## What the queues remember -/

def OrderBook.Queued (b : OrderBook) (id : OrderId) : Prop :=
  ∃ s p lv, b.levelAt s p = some lv ∧ id ∈ lv.queue

theorem OrderBook.Queued.tombstoned {b : OrderBook} {id : OrderId} (h : b.Queued id)
    (hid : b.contains id = false) : b.tombstoned id = true := by
  obtain ⟨s, p, lv, hlv, hmem⟩ := h
  have hlevel : (p, lv) ∈ (b.ladderFor s).levels.toList :=
    ExtTreeMap.mem_toList_iff_getElem?_eq_some.2 hlv
  simp only [OrderBook.tombstoned, hid, Bool.not_false, Bool.true_and, any_eq_true]
  refine ⟨(p, lv), ?_, by simpa using hmem⟩
  cases s with
  | buy => exact mem_append_left _ hlevel
  | sell => exact mem_append_right _ hlevel

section
variable {used : OrderId → Prop} {b b' : OrderBook} {l : List RestingOrder} {e : Engine}
  {r : RefEngine} {id : OrderId}

theorem Refines.contains_eq_false (h : Refines used b l) (hid : ∀ o ∈ l, o.orderId ≠ id) :
    b.contains id = false := by
  rw [Bool.eq_false_iff]
  intro hc
  obtain ⟨o, ho, he⟩ := h.contains_iff.1 hc
  exact hid o ho he

/-- The refinement needs to know of the past only the ids the queues hold. -/
theorem Refines.recall (h : Refines used b l) : Refines b.Queued b l where
  side := h.side
  nodup := h.nodup
  positive := h.positive
  known o ho := by
    obtain ⟨lv, hlv⟩ := h.levelAt_of_mem ho
    have hmem : o.orderId ∈ (atPrice o.side o.price l).map RestingOrder.orderId :=
      mem_map_of_mem (mem_atPrice.2 ⟨ho, rfl, rfl⟩)
    rw [← (h.level _ _ lv hlv).queue] at hmem
    exact ⟨_, _, lv, hlv, (mem_filter.1 hmem).1⟩
  index := h.index
  level s p lv hlv :=
    let hold := h.level s p lv hlv
    ⟨hold.nonempty, hold.queue, hold.total, fun _ hid => ⟨s, p, lv, hlv, hid⟩⟩
  gone := h.gone

theorem EngineRefines.recall (h : EngineRefines used e r) : EngineRefines e.book.Queued e r :=
  ⟨h.market, h.book.recall, h.price⟩

/-- A queued id that no order of the list has is a tombstone. -/
theorem Refines.tombstoned (h : Refines used b l) (hid : ∀ o ∈ l, o.orderId ≠ id)
    (hq : b.Queued id) : b.tombstoned id = true :=
  hq.tombstoned (h.contains_eq_false hid)

/-! ## One command -/

variable {o : RestingOrder}

/-- Taking an order out gives no queue an id it did not have. -/
theorem Queued.of_remove (hg : b.get id = some o) {id' : OrderId}
    (hq : (b.remove id).2.Queued id') : b.Queued id' := by
  obtain ⟨s, p, lv, hlv, hmem⟩ := hq
  rw [levelAt_remove hg] at hlv
  by_cases hsp : s = o.side ∧ p = o.price
  · rw [if_pos hsp] at hlv
    obtain ⟨lv₀, hlv₀, htaken⟩ := Option.bind_eq_some_iff.1 hlv
    refine ⟨s, p, lv₀, hlv₀, ?_⟩
    rw [Level.takenOff] at htaken
    split at htaken
    · cases htaken
    · cases htaken; exact hmem
  · rw [if_neg hsp] at hlv
    exact ⟨s, p, lv, hlv, hmem⟩

/-- An order alone at its price takes its id out of every queue. -/
theorem Refines.not_queued_remove (h : Refines used b l)
    (hg : b.get id = some o) (halone : b.alone id = true) : ¬(b.remove id).2.Queued id := by
  rintro ⟨s, p, lv, hlv, hmem⟩
  rw [levelAt_remove hg] at hlv
  by_cases hsp : s = o.side ∧ p = o.price
  · obtain ⟨rfl, rfl⟩ := hsp
    rw [if_pos ⟨rfl, rfl⟩] at hlv
    obtain ⟨lv₀, hlv₀, htaken⟩ := Option.bind_eq_some_iff.1 hlv
    have htotal : lv₀.totalQty = o.remaining := by
      simpa [OrderBook.alone, hg, hlv₀] using halone
    simp [Level.takenOff, htotal] at htaken
  · rw [if_neg hsp] at hlv
    exact hsp (h.elsewhere hg hlv hmem)

/-- What an amendment takes out leaves the replacement's id in no queue, or resting. -/
theorem Refines.not_queued_replacement (h : Refines used b l)
    (hg : b.get id = some o) {newId : OrderId}
    (hclean : (if newId = id then b.alone id else !b.tombstoned newId) = true)
    (hid : ∀ o ∈ without id l, o.orderId ≠ newId) : ¬(b.remove id).2.Queued newId := by
  by_cases he : newId = id
  · subst he
    rw [if_pos rfl] at hclean
    exact h.not_queued_remove hg hclean
  · rw [if_neg he] at hclean
    intro hq
    have habs : ∀ o ∈ l, o.orderId ≠ newId := by
      intro o' ho' hnew
      exact hid o' (mem_without.2 ⟨ho', fun hold => he (hnew.symm.trans hold)⟩) hnew
    simp [h.tombstoned habs (Queued.of_remove hg hq)] at hclean

theorem EngineRefines.apply_clean (h : EngineRefines e.book.Queued e r) {c : SequencedCommand}
    (hc : clean e c = true) : EngineRefines (e.apply c).2.book.Queued (e.apply c).2 (r.apply c).2 := by
  have h' : EngineRefines e.book.Queued { e with lastSeq := c.seq } r := ⟨h.market, h.book, h.price⟩
  unfold clean at hc
  unfold Engine.apply RefEngine.apply
  cases hcmd : c.command with
  | place orderId request =>
    simp only [hcmd, Bool.not_eq_true'] at hc
    refine (h'.place c.seq c.timestampMs (fun habs hq => ?_) request).2.recall
    simp [h.book.tombstoned habs hq] at hc
  | cancel orderId => exact (h'.cancel c.seq orderId).2.recall
  | amend orderId newOrderId price qty =>
    simp only [hcmd] at hc
    have hremove := h'.remove orderId
    simp only [Engine.amend, RefEngine.amend]
    cases hfind : r.resting.find? (·.orderId = orderId) with
    | some o =>
      rw [hfind] at hremove
      obtain ⟨b, hb, hrel⟩ := hremove
      have hg : e.book.get orderId = some o := (h.book.index orderId).trans hfind
      have hb' : (e.book.remove orderId).2 = b := congrArg Prod.snd hb
      rw [hb]
      refine (hrel.recall.place c.seq c.timestampMs (fun habs => ?_) _).2.recall
      have := h.book.not_queued_replacement hg hc habs
      rwa [hb'] at this
    | none =>
      rw [hfind] at hremove
      simp only at hremove
      rw [hremove]
      exact h'.recall
  | setStatus status =>
    exact EngineRefines.recall ⟨by simp only [Engine.setStatusCommand, h.market], h.book, h.price⟩

end

/-! ## Whole runs -/

/-- A state and the reference list it refines, with the orders by arrival. -/
structure Sound (e : Engine) (r : RefEngine) : Prop where
  refines : EngineRefines e.book.Queued e r
  orderly : Orderly (e.lastSeq + 1) r.resting

theorem Sound.new (market : MarketConfig) : Sound (Engine.new market) (RefEngine.new market) where
  refines := (EngineRefines.new market).recall
  orderly := ⟨List.Pairwise.nil, by simp [RefEngine.new], by simp [RefEngine.new]⟩

theorem Sound.advance {e e' : Engine} {r : RefEngine} {c : SequencedCommand} (h : Sound e r)
    (hc : clean e c = true) (hstep : advance e c = some e') : Sound e' (r.apply c).2 := by
  unfold Matching.advance at hstep
  split at hstep
  · rename_i hseq
    cases hstep
    exact ⟨h.refines.apply_clean hc,
      apply_lastSeq e c ▸ h.orderly.apply h.refines.book.nodup hseq⟩
  · cases hstep

theorem sound_exec {market : MarketConfig} {e : Engine} {commands : List SequencedCommand}
    (hclean : Along advance (fun e c => clean e c = true) (Engine.new market) commands)
    (hrun : exec advance (Engine.new market) commands = some e) : ∃ r, Sound e r := by
  refine Lib.exec_inv (I := fun e => ∃ r, Sound e r) ⟨_, Sound.new market⟩ ?_ hclean hrun
  rintro e c e' ⟨r, h⟩ hc hstep
  exact ⟨_, h.advance hc hstep⟩

section
variable {n : Nat} {l : List RestingOrder} {o : RestingOrder}

/-- The order of the latest arrival stands last. -/
theorem getLast?_of_latest (h : l.Pairwise (·.restedAtSeq < ·.restedAtSeq))
    (hpast : ∀ o' ∈ l, o'.restedAtSeq ≤ o.restedAtSeq) (ho : o ∈ l) : l.getLast? = some o := by
  obtain ⟨before, after, rfl⟩ := append_of_mem ho
  cases after with
  | nil => simp
  | cons o' after =>
    have hlater := (pairwise_cons.1 (pairwise_append.1 h).2.1).1 o' (by simp)
    have := hpast o' (by simp)
    omega

/-- So it stands last in the queue of its price. -/
theorem Orderly.last_atPrice (h : Orderly n l) (ho : o ∈ l) (hlast : o.restedAtSeq + 1 = n) :
    (atPrice o.side o.price l).getLast? = some o := by
  apply getLast?_of_latest (h.arrivals.sublist filter_sublist)
  · intro o' ho'
    have := h.past o' (mem_atPrice.1 ho').1
    omega
  · exact mem_atPrice.2 ⟨ho, rfl, rfl⟩

end

/-- **Reused ids**: in every run whose commands bring back no id that a queue still holds, the
check passes after every command, and an order that has just rested stands once in the queue of
its side and price, last, and in no other queue. -/
theorem reused_id_loses_priority (market : MarketConfig) (commands : List SequencedCommand)
    (c : SequencedCommand) (e e' : Engine)
    (hclean : Along advance (fun e c => clean e c = true) (Engine.new market) (commands ++ [c]))
    (hrun : exec advance (Engine.new market) commands = some e) (hstep : advance e c = some e') :
    e'.book.invariantsHold = true ∧
      ∀ id o, e'.book.get id = some o → o.restedAtSeq = c.seq →
        (e'.book.liveIdsAt o.side o.price).count id = 1 ∧
        (e'.book.liveIdsAt o.side o.price).getLast? = some id ∧
        ∀ s p lv, e'.book.levelAt s p = some lv → id ∈ lv.queue → s = o.side ∧ p = o.price := by
  have hrun' : exec advance (Engine.new market) (commands ++ [c]) = some e' := by
    rw [Lib.exec_concat, hrun, Option.bind_some, hstep]
  obtain ⟨r, h⟩ := sound_exec hclean hrun'
  have hseq : e'.lastSeq = c.seq := by
    unfold advance at hstep
    split at hstep
    · cases hstep; exact apply_lastSeq e c
    · cases hstep
  have hbook := h.refines.book
  refine ⟨hbook.invariantsHold h.orderly, fun id o hg hrested => ?_⟩
  obtain ⟨ho, rfl⟩ := hbook.of_get hg
  have hmem : o ∈ atPrice o.side o.price r.resting := mem_atPrice.2 ⟨ho, rfl, rfl⟩
  refine ⟨?_, ?_, fun s p lv hlv hid => hbook.elsewhere hg hlv hid⟩
  · rw [hbook.holdsExactly.queues]
    exact count_eq_one_of_mem (nodup_atPrice hbook.nodup) (mem_map_of_mem hmem)
  · rw [hbook.holdsExactly.queues, getLast?_map,
      h.orderly.last_atPrice ho (by rw [hrested, hseq])]
    rfl

/-- An id cancelled, let go with its level and placed again, then amended under itself. -/
def reusingStream : List SequencedCommand :=
  [⟨1, 0, .place "a" (sampleOrder "alice" .sell .gtc 1000 2000000000)⟩,
    ⟨2, 0, .cancel "a"⟩,
    ⟨3, 0, .place "b" (sampleOrder "bob" .sell .gtc 1000 3000000000)⟩,
    ⟨4, 0, .place "a" (sampleOrder "alice" .sell .gtc 1010 2000000000)⟩]

theorem reused_id_loses_priority_amended :
    ∃ e e', exec advance (Engine.new sampleMarket) reusingStream = some e ∧
      advance e ⟨5, 0, .amend "a" "a" 1000 1000000000⟩ = some e' ∧
      e'.book.liveIdsAt .sell 1000 = ["b", "a"] ∧ e'.book.invariantsHold = true := by
  obtain ⟨e, hrun, hstep⟩ : ∃ e, exec advance (Engine.new sampleMarket) reusingStream = some e ∧
      (advance e ⟨5, 0, .amend "a" "a" 1000 1000000000⟩).any
        (fun e' => decide (e'.book.liveIdsAt .sell 1000 = ["b", "a"])) = true :=
    Lib.exec_reaches (by decide +kernel)
  obtain ⟨e', hnext, hlive⟩ := (Option.any_eq_true _ _).1 hstep
  exact ⟨e, e', hrun, hnext, of_decide_eq_true hlive,
    (reused_id_loses_priority sampleMarket reusingStream _ e e' (by decide +kernel) hrun hnext).1⟩

/-- Two asks at one price. The first is cancelled and placed again, or amended under its own id at
its own price: it stands before the other as well as behind it. Amended to another price it stands
in both queues. The check fails each time. -/
theorem rested_before_itself :
    (∃ e, exec advance (Engine.new sampleMarket) (sampleStream.take 3 ++
        [⟨4, 0, .place "a" (sampleOrder "alice" .sell .gtc 1000 2000000000)⟩]) = some e ∧
      e.book.liveIdsAt .sell 1000 = ["a", "b", "a"] ∧ e.book.invariantsHold = false) ∧
    (∃ e, exec advance (Engine.new sampleMarket) (sampleStream.take 2 ++
        [⟨3, 0, .amend "a" "a" 1000 1000000000⟩]) = some e ∧
      e.book.liveIdsAt .sell 1000 = ["a", "b", "a"] ∧ e.book.invariantsHold = false) ∧
    (∃ e, exec advance (Engine.new sampleMarket) (sampleStream.take 2 ++
        [⟨3, 0, .amend "a" "a" 1010 1000000000⟩]) = some e ∧
      e.book.liveIdsAt .sell 1000 = ["a", "b"] ∧ e.book.liveIdsAt .sell 1010 = ["a"] ∧
      e.book.invariantsHold = false) :=
  ⟨Lib.exec_reaches (by decide +kernel), Lib.exec_reaches (by decide +kernel),
    Lib.exec_reaches (by decide +kernel)⟩

end AtlasCex.Matching

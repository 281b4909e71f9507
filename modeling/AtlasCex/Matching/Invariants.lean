import AtlasCex.Matching.Simulation
/-!
# The book's invariant over whole runs (`book.rs:402-450`)

What `invariants_hold` checks is read off the reference list. Most of it is `Refines` already: the
totals, the queues, the index. What is left is about the list alone (`Orderly`): orders stand in it
by arrival sequence, and no bid reaches an ask.

Matching only takes orders out of the list or lowers what remains of them, so `Orderly` is carried
through it by the list of `ticket`s, an order's record without its remaining quantity.
-/
namespace AtlasCex.Matching
open List
open Lib (Turn)
open Std (ExtTreeMap)

/-! ## Matching only takes away -/

/-- An order without the quantity that remains of it: what trading never changes. -/
def RestingOrder.ticket (o : RestingOrder) : RestingOrder := { o with remaining := 0 }

/-- `l'` is what is left of `l`: some of its orders, in their places, possibly lessened. -/
def LeftOf (l l' : List RestingOrder) : Prop :=
  List.Sublist (l'.map RestingOrder.ticket) (l.map RestingOrder.ticket)

theorem LeftOf.refl (l : List RestingOrder) : LeftOf l l := List.Sublist.refl _

theorem LeftOf.trans {l l' l'' : List RestingOrder} (h : LeftOf l l') (h' : LeftOf l' l'') :
    LeftOf l l'' := List.Sublist.trans h' h

theorem leftOf_without (id : OrderId) (l : List RestingOrder) : LeftOf l (without id l) :=
  filter_sublist.map _

theorem leftOf_traded (id : OrderId) (qty : Nat) (l : List RestingOrder) :
    LeftOf l (traded id qty l) := by
  have hmap : (l.map (lessened id qty)).map RestingOrder.ticket = l.map RestingOrder.ticket := by
    rw [map_map]
    apply map_congr_left
    intro o _
    simp only [Function.comp, lessened]
    split <;> rfl
  rw [LeftOf, ← hmap, traded_eq]
  exact filter_sublist.map _

theorem LeftOf.mem {l l' : List RestingOrder} (h : LeftOf l l') {o' : RestingOrder}
    (ho' : o' ∈ l') : ∃ o ∈ l, o.ticket = o'.ticket := by
  have := h.subset (mem_map_of_mem ho')
  simpa using this

/-- One turn only takes away. -/
theorem RefMatch.turn_leftOf (t : Taker) (s : RefMatch) :
    LeftOf s.resting (s.turn t).val.resting := by
  have hturn := s.turns t
  generalize s.turn t = turn at hturn
  cases hturn with
  | done | empty | uncrossed | stopTaker => exact LeftOf.refl _
  | dropMaker | stopBoth => exact leftOf_without _ _
  | trade => exact leftOf_traded _ _ _

theorem RefEngine.matched_leftOf (r : RefEngine) (t : Taker) (qty : Nat) :
    LeftOf r.resting (r.matched t qty).resting :=
  Lib.loop_induct (P := fun s : RefMatch => LeftOf r.resting s.resting)
    (fun s h => h.trans (s.turn_leftOf t)) _ (LeftOf.refl _)

/-! ## The list in order -/

/-- By arrival, all of it before `n`, and no bid at or over an ask. -/
structure Orderly (n : Nat) (l : List RestingOrder) : Prop where
  arrivals : l.Pairwise (·.restedAtSeq < ·.restedAtSeq)
  past : ∀ o ∈ l, o.restedAtSeq < n
  uncrossed : ∀ bid ∈ l, ∀ ask ∈ l, bid.side = .buy → ask.side = .sell → bid.price < ask.price

section
variable {n n' : Nat} {l l' : List RestingOrder}

theorem Orderly.mono (h : Orderly n l) (hle : n ≤ n') : Orderly n' l :=
  ⟨h.arrivals, fun o ho => Nat.lt_of_lt_of_le (h.past o ho) hle, h.uncrossed⟩

theorem Orderly.leftOf (h : Orderly n l) (hl : LeftOf l l') : Orderly n l' := by
  have hticket : ∀ o' ∈ l', ∃ o ∈ l, o.restedAtSeq = o'.restedAtSeq ∧ o.side = o'.side ∧
      o.price = o'.price := by
    intro o' ho'
    obtain ⟨o, ho, he⟩ := hl.mem ho'
    exact ⟨o, ho, congrArg (·.restedAtSeq) he, congrArg (·.side) he, congrArg (·.price) he⟩
  refine ⟨?_, fun o' ho' => ?_, fun bid hbid ask hask hb ha => ?_⟩
  · have harr : (l.map RestingOrder.ticket).Pairwise (·.restedAtSeq < ·.restedAtSeq) :=
      pairwise_map.2 h.arrivals
    have hsub := List.Pairwise.sublist hl harr
    rw [pairwise_map] at hsub
    exact hsub
  · obtain ⟨o, ho, hseq, -, -⟩ := hticket o' ho'
    exact hseq ▸ h.past o ho
  · obtain ⟨bid₀, hbid₀, -, hbs, hbp⟩ := hticket bid hbid
    obtain ⟨ask₀, hask₀, -, has, hap⟩ := hticket ask hask
    rw [← hbp, ← hap]
    exact h.uncrossed bid₀ hbid₀ ask₀ hask₀ (hbs.trans hb) (has.trans ha)

/-- A new order may rest behind the others when it crosses none of them. -/
theorem Orderly.append (h : Orderly n l) {o : RestingOrder} (hlater : n ≤ o.restedAtSeq)
    (hcross : ∀ o' ∈ l, o'.side = o.side.opposite → crosses o.side (some o.price) o'.price = false) :
    Orderly (o.restedAtSeq + 1) (l ++ [o]) := by
  refine ⟨?_, fun o' ho' => ?_, fun bid hbid ask hask hb ha => ?_⟩
  · rw [pairwise_append]
    refine ⟨h.arrivals, pairwise_singleton _ _, fun o' ho' o'' ho'' => ?_⟩
    rw [mem_singleton.1 ho'']
    exact Nat.lt_of_lt_of_le (h.past o' ho') hlater
  · rcases mem_append.1 ho' with ho' | ho'
    · have := h.past o' ho'; omega
    · rw [mem_singleton.1 ho']; omega
  · rcases mem_append.1 hbid with hbid | hbid <;> rcases mem_append.1 hask with hask | hask
    · exact h.uncrossed bid hbid ask hask hb ha
    · rw [mem_singleton.1 hask] at ha ⊢
      have := hcross bid hbid (by rw [hb, ha]; rfl)
      simpa [crosses, ha] using this
    · rw [mem_singleton.1 hbid] at hb ⊢
      have := hcross ask hask (by rw [hb, ha]; rfl)
      simpa [crosses, hb] using this
    · rw [mem_singleton.1 hbid] at hb
      rw [mem_singleton.1 hask, hb] at ha
      cases ha

end

/-! ## One command keeps the list in order -/

section
variable {r : RefEngine} {n : Nat}

theorem Orderly.place (h : Orderly n r.resting)
    (hnd : (r.resting.map RestingOrder.orderId).Nodup) {seq : Nat} (hseq : n ≤ seq)
    (timestampMs : Int) (orderId : OrderId) (request : OrderRequest) :
    Orderly (seq + 1) (r.place seq timestampMs orderId request).2.resting := by
  have hkeep : Orderly (seq + 1) r.resting := h.mono (by omega)
  rw [RefEngine.place]
  rcases r.admission_cases seq timestampMs orderId request with ⟨_, he⟩ | he | ⟨limit, he, hadm⟩
  · rw [he]; exact hkeep
  · rw [he]; exact hkeep
  rw [he]
  have hleft := r.matched_leftOf (request.taker seq timestampMs orderId limit) request.qty
  have hends := RefEngine.matched_ends hnd (request.taker seq timestampMs orderId limit) request.qty
  simp only
  generalize r.matched _ _ = s at hleft hends
  cases hrest : (disposition seq orderId request s.events s.remaining s.stpCancelledTaker).2 with
  | none => simpa using (h.leftOf hleft).mono (by omega)
  | some o =>
    obtain ⟨hstop, hrem, htype, rfl⟩ := disposition_rests hrest
    -- the loop broke with quantity left and no self-trade: what is left does not cross the limit
    have hnone := (hends.resolve_left hrem).resolve_left (by simp [hstop])
    obtain ⟨price, hprice⟩ := (validateRequest_none hadm.valid).limitPrice htype
    have hlimit : limit = some price := by
      rcases collarLimit_some hadm.limit with ⟨-, hl⟩ | ⟨hl, -⟩
      · rw [hl, hprice]
      · exact absurd htype hl
    refine Orderly.append (o := request.resting seq orderId s.remaining) (h.leftOf hleft) hseq
      fun o' ho' hs => ?_
    simpa [OrderRequest.taker, OrderRequest.resting, hlimit, hprice] using hnone o' ho' hs

theorem Orderly.apply (h : Orderly n r.resting)
    (hnd : (r.resting.map RestingOrder.orderId).Nodup) {c : SequencedCommand} (hseq : n ≤ c.seq) :
    Orderly (c.seq + 1) (r.apply c).2.resting := by
  have hkeep : Orderly (c.seq + 1) r.resting := h.mono (by omega)
  unfold RefEngine.apply
  cases c.command with
  | place orderId request => exact h.place hnd hseq _ _ _
  | cancel orderId =>
    simp only [RefEngine.cancel]
    split
    · exact hkeep.leftOf (leftOf_without _ _)
    · exact hkeep
  | amend orderId newOrderId price qty =>
    simp only [RefEngine.amend]
    split
    · exact hkeep
    · exact Orderly.place (r := { r with resting := without orderId r.resting })
        (h.leftOf (leftOf_without _ _)) (nodup_without hnd) hseq _ _ _
  | setStatus status => exact hkeep

end

/-! ## The book's invariant -/

/-- The live orders of a queue, in queue order. -/
def OrderBook.liveOrders (b : OrderBook) (lv : Level) : List RestingOrder :=
  lv.queue.filterMap b.get

structure BookInvariant (b : OrderBook) : Prop where
  /-- A level's total is what its live orders sum to, and a level that is there has some. -/
  total : ∀ s p lv, b.levelAt s p = some lv →
    lv.totalQty = totalOf (b.liveOrders lv) ∧ 0 < lv.totalQty
  /-- An indexed order stands once in the queue of its own side and price. -/
  queued : ∀ id o, b.get id = some o →
    ∃ lv, b.levelAt o.side o.price = some lv ∧ lv.queue.count id = 1
  /-- And in no other. -/
  elsewhere : ∀ id o, b.get id = some o → ∀ s p lv, b.levelAt s p = some lv → id ∈ lv.queue →
    s = o.side ∧ p = o.price
  arrivals : ∀ s p lv, b.levelAt s p = some lv →
    (b.liveOrders lv).Pairwise (·.restedAtSeq < ·.restedAtSeq)
  positive : ∀ id o, b.get id = some o → 0 < o.remaining
  uncrossed : ∀ bid ask, b.bestBid = some bid → b.bestAsk = some ask → bid < ask

section
variable {used : OrderId → Prop} {b : OrderBook} {l : List RestingOrder} {n : Nat}

variable {s : Side} {p : Nat} {lv : Level}

theorem Refines.liveOrders (h : Refines used b l)
    (hlv : b.levelAt s p = some lv) : b.liveOrders lv = atPrice s p l := by
  have hdead : lv.queue.filterMap b.get = (lv.queue.filter b.contains).filterMap b.get := by
    rw [filterMap_filter]
    congr 1; funext id
    rw [OrderBook.contains_eq]
    cases b.get id <;> rfl
  rw [OrderBook.liveOrders, hdead, (h.level s p lv hlv).queue, filterMap_map]
  have hget : ∀ o ∈ atPrice s p l, (b.get ∘ RestingOrder.orderId) o = some o :=
    fun o ho => h.get_of_mem (mem_atPrice.1 ho).1
  rw [filterMap_congr hget, filterMap_some]

theorem Refines.bestPrice_some (h : Refines used b l)
    (hp : (b.ladderFor s).bestPrice = some p) : ∃ o ∈ l, o.side = s ∧ o.price = p := by
  rw [h.bestPrice] at hp
  obtain ⟨o, ho, rfl⟩ := Option.map_eq_some_iff.1 hp
  exact ⟨o, (bestOf_mem ho).1, (bestOf_mem ho).2, rfl⟩

/-- The queue that holds an indexed order's id is the one of the order's side and price. -/
theorem Refines.elsewhere (h : Refines used b l) {id : OrderId} {o : RestingOrder}
    (hg : b.get id = some o) (hlv : b.levelAt s p = some lv)
    (hid : id ∈ lv.queue) : s = o.side ∧ p = o.price := by
  have hlive : b.contains id = true := by rw [OrderBook.contains_eq, hg]; rfl
  have hmem := mem_filter.2 ⟨hid, hlive⟩
  rw [(h.level s p lv hlv).queue] at hmem
  obtain ⟨o', ho', rfl⟩ := mem_map.1 hmem
  obtain ⟨hm, hs, hp⟩ := mem_atPrice.1 ho'
  rw [h.get_of_mem hm] at hg
  cases hg
  exact ⟨hs.symm, hp.symm⟩

theorem Refines.bookInvariant (h : Refines used b l) (ho : Orderly n l) : BookInvariant b where
  total s p lv hlv := by
    have hold := h.level s p lv hlv
    rw [h.liveOrders hlv, ← hold.total]
    refine ⟨rfl, hold.total ▸ totalOf_pos (fun o ho => ?_) hold.nonempty⟩
    exact h.positive o (mem_atPrice.1 ho).1
  queued id o hg := by
    obtain ⟨hm, rfl⟩ := h.of_get hg
    obtain ⟨lv, hlv⟩ := h.levelAt_of_mem hm
    refine ⟨lv, hlv, ?_⟩
    have hlive : b.contains o.orderId = true := by rw [OrderBook.contains_eq, hg]; rfl
    rw [← count_filter hlive, (h.level _ _ lv hlv).queue]
    exact count_eq_one_of_mem (nodup_atPrice h.nodup)
      (mem_map_of_mem (mem_atPrice.2 ⟨hm, rfl, rfl⟩))
  elsewhere _ _ hg _ _ _ hlv hid := h.elsewhere hg hlv hid
  arrivals s p lv hlv := by
    rw [h.liveOrders hlv]
    exact ho.arrivals.sublist filter_sublist
  positive id o hg := h.positive o (h.of_get hg).1
  uncrossed bid ask hb ha := by
    obtain ⟨o, hm, hs, rfl⟩ := h.bestPrice_some (s := .buy) hb
    obtain ⟨o', hm', hs', rfl⟩ := h.bestPrice_some (s := .sell) ha
    exact ho.uncrossed o hm o' hm' hs hs'

/-! ## The check itself: `invariants_hold` -/

/-- The scan of a queue, when its live orders are at its price and by arrival. -/
theorem scanQueue_eq : ∀ {q : List OrderId} (recomputed live : Nat)
    (previous : Option Nat), (∀ o ∈ q.filterMap b.get, o.side = s ∧ o.price = p) →
    (q.filterMap b.get).Pairwise (·.restedAtSeq < ·.restedAtSeq) →
    (∀ o ∈ q.filterMap b.get, ∀ seq, previous = some seq → seq < o.restedAtSeq) →
    ∃ last, b.scanQueue s p q (recomputed, live, previous) =
      some (recomputed + totalOf (q.filterMap b.get), live + (q.filterMap b.get).length, last)
  | [], recomputed, live, previous, _, _, _ => ⟨previous, by simp [OrderBook.scanQueue, totalOf]⟩
  | id :: q, recomputed, live, previous, hat, harr, hprev => by
    cases hg : b.get id with
    | none =>
      rw [filterMap_cons_none hg] at hat harr hprev ⊢
      simp only [OrderBook.scanQueue, hg]
      exact scanQueue_eq recomputed live previous hat harr hprev
    | some o =>
      rw [filterMap_cons_some hg] at hat harr hprev ⊢
      rw [pairwise_cons] at harr
      obtain ⟨hs, hp⟩ := hat o (by simp)
      have hfirst : previous.any (fun seq => decide (o.restedAtSeq < seq)) = false := by
        cases hpr : previous with
        | none => rfl
        | some seq =>
          have := hprev o (by simp) seq hpr
          simp only [Option.any_some, decide_eq_false_iff_not]; omega
      obtain ⟨last, hlast⟩ := scanQueue_eq (recomputed + o.remaining) (live + 1)
        (some o.restedAtSeq) (fun o' ho' => hat o' (by simp [ho'])) harr.2
        (fun o' ho' seq he => by cases he; exact harr.1 o' ho')
      refine ⟨last, ?_⟩
      simp only [OrderBook.scanQueue, hg, hs, hp, hfirst, ne_eq, not_true_eq_false, or_self,
        if_false, Bool.false_eq_true]
      rw [hlast]
      simp only [totalOf, map_cons, sum_cons, length_cons, Nat.add_assoc,
        Nat.add_comm 1]

theorem scanLevel_eq (h : Refines used b l) (ho : Orderly n l)
    (hlv : b.levelAt s p = some lv) : b.scanLevel s p lv = some (atPrice s p l).length := by
  have hlive : lv.queue.filterMap b.get = atPrice s p l := h.liveOrders hlv
  have hold := h.level s p lv hlv
  have hpos := totalOf_pos (fun o ho => h.positive o (mem_atPrice.1 ho).1) hold.nonempty
  obtain ⟨last, hscan⟩ := scanQueue_eq (b := b) (s := s) (p := p) (q := lv.queue) 0 0 none
    (by rw [hlive]; exact fun o ho => (mem_atPrice.1 ho).2)
    (by rw [hlive]; exact ho.arrivals.sublist filter_sublist) (by simp)
  rw [hlive, Nat.zero_add, Nat.zero_add] at hscan
  have hlen : (atPrice s p l).length ≠ 0 := by simpa using hold.nonempty
  simp only [OrderBook.scanLevel, hscan]
  rw [if_neg (by omega), if_neg (by simp [hold.total])]

theorem mapM_some {α β : Type} {f : α → Option β} {g : α → β} :
    ∀ {xs : List α}, (∀ x ∈ xs, f x = some (g x)) → xs.mapM f = some (xs.map g)
  | [], _ => rfl
  | x :: xs, h => by
    rw [mapM_cons, h x (by simp), mapM_some fun y hy => h y (by simp [hy])]
    rfl

theorem scanLadder_eq (h : Refines used b l) (ho : Orderly n l) (s : Side) :
    b.scanLadder (b.ladderFor s) =
      some ((b.ladderFor s).levels.keys.map fun p => (atPrice s p l).length) := by
  rw [OrderBook.scanLadder, h.side, ← ExtTreeMap.map_fst_toList_eq_keys, map_map]
  apply mapM_some
  intro x hx
  exact scanLevel_eq h ho (ExtTreeMap.mem_toList_iff_getElem?_eq_some.1 hx)

/-- Grouped by distinct prices, each order of the side is counted once. -/
theorem sum_atPrice (s : Side) : ∀ {prices : List Nat}, prices.Nodup →
    (prices.map fun p => (atPrice s p l).length).sum =
      l.countP fun o => o.side = s ∧ o.price ∈ prices
  | [], _ => by simp
  | p :: prices, hnd => by
    rw [nodup_cons] at hnd
    rw [map_cons, sum_cons, sum_atPrice s hnd.2, atPrice, ← countP_eq_length_filter]
    induction l with
    | nil => simp
    | cons o l ih =>
      simp only [countP_cons, mem_cons] at ih ⊢
      by_cases hs : o.side = s
      · by_cases hp : o.price = p
        · have : o.price ∉ prices := hp ▸ hnd.1
          simp [hs, hp, hnd.1] at ih ⊢; omega
        · simp [hs, hp] at ih ⊢; omega
      · simp [hs] at ih ⊢; omega

theorem Refines.invariantsHold (h : Refines used b l) (ho : Orderly n l) :
    b.invariantsHold = true := by
  have hcount : ∀ s, ((b.ladderFor s).levels.keys.map fun p => (atPrice s p l).length).sum =
      l.countP (·.side = s) := by
    intro s
    rw [sum_atPrice s ((keys_sorted _).imp Nat.ne_of_lt)]
    apply countP_congr
    intro o ho
    simp only [decide_eq_true_eq, and_iff_left_iff_imp]
    exact fun hs => h.mem_keys.2 ⟨o, ho, hs, rfl⟩
  have hbids : b.scanLadder b.bids = _ := scanLadder_eq h ho .buy
  have hasks : b.scanLadder b.asks = _ := scanLadder_eq h ho .sell
  simp only [OrderBook.invariantsHold, hbids, hasks, hcount, h.openOrderCount, Bool.and_eq_true,
    Bool.not_eq_true', beq_iff_eq]
  constructor
  · cases hb : b.bestBid with
    | none => rfl
    | some bid =>
      cases ha : b.bestAsk with
      | none => rfl
      | some ask =>
        have := (h.bookInvariant ho).uncrossed bid ask hb ha
        simp only [decide_eq_false_iff_not]; omega
  · rw [length_eq_countP_add_countP (fun o : RestingOrder => decide (o.side = .buy))]
    congr 1
    apply countP_congr
    intro o _
    cases o.side <;> simp

end

/-! ## Over whole runs -/

/-- Sequence numbers grow along the stream. -/
def Sequenced (commands : List SequencedCommand) : Prop :=
  commands.Pairwise (·.seq < ·.seq)

instance (commands : List SequencedCommand) : Decidable (Sequenced commands) :=
  inferInstanceAs (Decidable (List.Pairwise _ _))

theorem Sequenced.next {commands pre : List SequencedCommand} {c c' : SequencedCommand}
    (h : Sequenced commands) (hpre : pre ++ [c] ++ [c'] <+: commands) : c.seq + 1 ≤ c'.seq := by
  have := List.Pairwise.sublist hpre.sublist h
  exact (pairwise_append.1 this).2.2 c (by simp) c' (by simp)

/-- Along a run the reference list stays in order, before the next command's sequence. -/
theorem run_orderly (market : MarketConfig) {commands : List SequencedCommand}
    (hseq : Sequenced commands) (hfresh : FreshIds commands) :
    ∀ pre, pre <+: commands → ∃ n, Orderly n ((RefEngine.new market).run pre).2.resting ∧
      ∀ c, pre ++ [c] <+: commands → n ≤ c.seq := by
  refine Lib.run_induct (I := fun pre (r : RefEngine) =>
    ∃ n, Orderly n r.resting ∧ ∀ c, pre ++ [c] <+: commands → n ≤ c.seq) ?_ ?_
  · exact ⟨0, ⟨List.Pairwise.nil, by simp [RefEngine.new], by simp [RefEngine.new]⟩, by simp⟩
  · rintro pre c hpre ⟨n, horder, hnext⟩
    have hrel := (run_refines market hfresh ((prefix_append _ _).trans hpre)).2
    exact ⟨c.seq + 1, horder.apply hrel.book.nodup (hnext c hpre), fun c' hc' => hseq.next hc'⟩

/-- **The book's invariant**: after every command of every stream with growing sequences and no
reused id, `invariants_hold` returns true, and the book has each property it is there to check,
the strict ones included. -/
theorem book_invariant_always (market : MarketConfig) (commands : List SequencedCommand)
    (hseq : Sequenced commands) (hfresh : FreshIds commands) (pre : List SequencedCommand)
    (hpre : pre <+: commands) :
    ((Engine.new market).run pre).2.book.invariantsHold = true ∧
      BookInvariant ((Engine.new market).run pre).2.book := by
  have hbook := (run_refines market hfresh hpre).2.book
  obtain ⟨n, horder, -⟩ := run_orderly market hseq hfresh pre hpre
  exact ⟨hbook.invariantsHold horder, hbook.bookInvariant horder⟩

theorem book_invariant_always_sample :
    Sequenced sampleStream ∧ FreshIds sampleStream ∧
      ((Engine.new sampleMarket).run sampleStream).2.book.invariantsHold = true ∧
      BookInvariant ((Engine.new sampleMarket).run sampleStream).2.book :=
  ⟨by decide, by decide, book_invariant_always sampleMarket sampleStream (by decide) (by decide)
    sampleStream prefix_rfl⟩

end AtlasCex.Matching

import AtlasCex.Matching.Refinement
/-!
# Priority: the best level, the best order, and the fill-or-kill dry run

`ahead s` is the order the prices of a side are taken in. The book reads it off a sorted ladder,
the reference list off `argmin` and `argmax`; `Refines.bestPrice` says they agree, `bestOf_first`
that the best order is the first of its price.

`fillable_qty` walks the ladder once; the reference list is matched one best order at a time.
`reach` is what a taker can take of a list already in priority order, and both are it:
`Refines.fillableQty` for the walk, `RefEngine.matched_remaining` for the matching.
-/
namespace AtlasCex.Matching
open List
open Lib (Turn)
open Std (ExtTreeMap)

/-- Price `p` of side `s` is taken before price `q`. -/
def ahead (s : Side) (p q : Nat) : Prop :=
  match s with
  | .buy => q < p
  | .sell => p < q

variable {s : Side}

theorem ahead_ne {p q : Nat} (h : ahead s p q) : p ≠ q := by
  cases s <;> simp only [ahead] at h <;> omega

/-! ## The best order of the list -/

variable {l : List RestingOrder} {m : RestingOrder}

theorem bestOf_mem (h : bestOf s l = some m) : m ∈ l ∧ m.side = s := by
  have : m ∈ l.filter (·.side = s) := by
    cases s
    · exact argmax_mem h
    · exact argmin_mem h
  simpa using this

theorem bestOf_best (h : bestOf s l = some m) {o : RestingOrder} (ho : o ∈ l) (hs : o.side = s) :
    ¬ahead s o.price m.price := by
  have hmem : o ∈ l.filter (·.side = s) := by simpa using ⟨ho, hs⟩
  cases s
  · exact Nat.not_lt.2 (le_of_mem_argmax hmem h)
  · exact Nat.not_lt.2 (le_of_mem_argmin hmem h)

theorem bestOf_none (h : bestOf s l = none) :
    ∀ o ∈ l, o.side ≠ s := by
  have : l.filter (·.side = s) = [] := by
    cases s
    · exact argmax_eq_none.1 h
    · exact argmin_eq_none.1 h
  simpa using this

/-- **Time priority**: the best order is the first of the list at its price. -/
theorem bestOf_first (h : bestOf s l = some m) : ∃ os, atPrice s m.price l = m :: os := by
  have hhead : ((l.filter (·.side = s)).filter (·.price = m.price)).head? = some m := by
    cases s
    · exact Lib.argmax_first h
    · exact Lib.argmin_first h
  have hat : (l.filter (·.side = s)).filter (·.price = m.price) = atPrice s m.price l := by
    rw [filter_filter, atPrice]
    apply filter_congr
    intro o _
    simp [Bool.and_comm]
  rw [hat] at hhead
  cases hl : atPrice s m.price l with
  | nil => rw [hl] at hhead; cases hhead
  | cons o os => rw [hl] at hhead; cases hhead; exact ⟨os, rfl⟩

/-! ## The best price of the book -/

theorem keys_sorted (l : Ladder) : l.levels.keys.Pairwise (· < ·) :=
  (ExtTreeMap.ordered_keys (t := l.levels)).imp fun h => Nat.compare_eq_lt.1 h

theorem mem_keys_iff (l : Ladder) (p : Nat) : p ∈ l.levels.keys ↔ ∃ lv, l.level p = some lv := by
  rw [ExtTreeMap.mem_keys, ← ExtTreeMap.isSome_getElem?_iff_mem, Option.isSome_iff_exists]
  rfl

section
variable {used : OrderId → Prop} {b : OrderBook} {l : List RestingOrder}

theorem Refines.mem_keys (h : Refines used b l) {s : Side} {p : Nat} :
    p ∈ (b.ladderFor s).levels.keys ↔ ∃ o ∈ l, o.side = s ∧ o.price = p := by
  rw [mem_keys_iff]
  constructor
  · rintro ⟨lv, hlv⟩
    obtain ⟨o, ho⟩ := exists_mem_of_ne_nil _ (h.level s p lv hlv).nonempty
    exact ⟨o, mem_atPrice.1 ho⟩
  · rintro ⟨o, ho, rfl, rfl⟩
    exact h.levelAt_of_mem ho

/-- **Price priority**: the book's best price is the best order's. -/
theorem Refines.bestPrice (h : Refines used b l) (s : Side) :
    (b.ladderFor s).bestPrice = (bestOf s l).map RestingOrder.price := by
  have hsorted := keys_sorted (b.ladderFor s)
  cases hbest : bestOf s l with
  | none =>
    have hnil : (b.ladderFor s).levels.keys = [] := by
      rw [eq_nil_iff_forall_not_mem]
      intro p hp
      obtain ⟨o, ho, hs, -⟩ := h.mem_keys.1 hp
      exact bestOf_none hbest o ho hs
    rw [Ladder.bestPrice, hnil]
    cases (b.ladderFor s).side <;> rfl
  | some m =>
    obtain ⟨hm, hms⟩ := bestOf_mem hbest
    have hmem : m.price ∈ (b.ladderFor s).levels.keys := h.mem_keys.2 ⟨m, hm, hms, rfl⟩
    have hleast : ∀ p ∈ (b.ladderFor s).levels.keys, ¬ahead s p m.price := by
      intro p hp
      obtain ⟨o, ho, hs, rfl⟩ := h.mem_keys.1 hp
      exact bestOf_best hbest ho hs
    rw [Ladder.bestPrice, h.side]
    cases s
    · exact Lib.getLast?_of_greatest hsorted hmem fun p hp => Nat.not_lt.1 (hleast p hp)
    · exact Lib.head?_of_least hsorted hmem fun p hp => Nat.not_lt.1 (hleast p hp)

/-- The index holds one entry for each order of the list. -/
theorem Refines.openOrderCount (h : Refines used b l) : b.openOrderCount = l.length := by
  have hperm : b.orders.keys.Perm (l.map RestingOrder.orderId) := by
    rw [perm_ext_iff_of_nodup ?_ h.nodup]
    · intro id
      rw [ExtTreeMap.mem_keys, ← ExtTreeMap.contains_iff_mem]
      exact h.contains_iff.trans (by simp)
    · exact ExtTreeMap.distinct_keys.imp fun hne he => hne (by rw [he]; exact Std.ReflCmp.compare_self)
  rw [OrderBook.openOrderCount, ← ExtTreeMap.length_keys, hperm.length_eq, length_map]

end

/-! ## What a taker can take -/

/-- The quantity a taker takes of orders met in this order: it stops at the first it does not
cross, and at one of its own account unless its mode removes that maker and goes on. -/
def reach (t : Taker) : List RestingOrder → Nat
  | [] => 0
  | o :: os =>
    if !crosses t.side t.limit o.price then 0
    else if o.accountId = t.accountId then
      match t.stpMode with
      | .cancelTaker | .cancelBoth => 0
      | .cancelMaker => reach t os
    else o.remaining + reach t os

/-- The orders of a side, grouped by a list of prices. -/
def byPrice (s : Side) (prices : List Nat) (l : List RestingOrder) : List RestingOrder :=
  prices.flatMap fun p => atPrice s p l

/-- A list of prices in the order they are taken, with none of the side's missing. -/
structure Covers (s : Side) (prices : List Nat) (l : List RestingOrder) : Prop where
  sorted : prices.Pairwise (ahead s)
  all : ∀ o ∈ l, o.side = s → o.price ∈ prices

theorem byPrice_nil {prices : List Nat}
    (h : ∀ o ∈ l, o.side = s → o.price ∉ prices) : byPrice s prices l = [] := by
  rw [byPrice, flatMap_eq_nil_iff]
  intro p hp
  rw [eq_nil_iff_forall_not_mem]
  intro o ho
  obtain ⟨hm, hs, rfl⟩ := mem_atPrice.1 ho
  exact h o hm hs hp

/-- The best order heads the priority order, and taking it out of the list takes off the head. -/
theorem byPrice_best {prices : List Nat}
    (hnd : (l.map RestingOrder.orderId).Nodup) (hc : Covers s prices l)
    (hbest : bestOf s l = some m) :
    byPrice s prices l = m :: byPrice s prices (without m.orderId l) := by
  obtain ⟨hm, hms⟩ := bestOf_mem hbest
  obtain ⟨os, hos⟩ := bestOf_first hbest
  obtain ⟨before, after, rfl⟩ := append_of_mem (hc.all m hm hms)
  have hsorted := pairwise_append.1 hc.sorted
  -- nothing of the side rests at a price taken before the best one
  have hbefore : ∀ o ∈ l, o.side = s → o.price ∉ before := fun o ho hs hp =>
    bestOf_best hbest ho hs (hsorted.2.2 _ hp _ (by simp))
  have hafter : ∀ p ∈ after, atPrice s p (without m.orderId l) = atPrice s p l := by
    intro p hp
    rw [atPrice_without]
    apply without_of_not_mem
    intro o ho he
    obtain ⟨hol, -, rfl⟩ := mem_atPrice.1 ho
    have := eq_of_orderId hnd hol hm he
    subst this
    exact ahead_ne ((pairwise_cons.1 hsorted.2.1).1 _ hp) rfl
  have hhere : atPrice s m.price (without m.orderId l) = os := by
    have hnd' := nodup_atPrice (s := s) (p := m.price) hnd
    rw [hos, map_cons, nodup_cons] at hnd'
    have hos' : without m.orderId os = os :=
      without_of_not_mem fun o ho e => hnd'.1 (e ▸ mem_map_of_mem ho)
    rw [atPrice_without, hos]
    simpa [without] using hos'
  have hsplit : ∀ l', byPrice s (before ++ m.price :: after) l' =
      byPrice s before l' ++ (atPrice s m.price l' ++ byPrice s after l') := by
    intro l'; simp [byPrice]
  rw [hsplit, hsplit, byPrice_nil hbefore,
    byPrice_nil fun o ho => hbefore o (mem_without.1 ho).1, hos, hhere]
  simp only [nil_append, cons_append, List.cons.injEq, true_and,
    append_cancel_left_eq]
  rw [byPrice, byPrice]
  exact flatMap_congr fun p hp => (hafter p hp).symm

theorem Covers.without {prices : List Nat}
    (h : Covers s prices l) (id : OrderId) : Covers s prices (without id l) :=
  ⟨h.sorted, fun o ho => h.all o (mem_without.1 ho).1⟩

theorem Covers.traded {prices : List Nat}
    (h : Covers s prices l) (id : OrderId) (qty : Nat) : Covers s prices (traded id qty l) := by
  refine ⟨h.sorted, fun o ho hs => ?_⟩
  obtain ⟨o₀, ho₀, rfl⟩ := mem_traded ho
  rw [lessened_side] at hs
  rw [lessened_price]
  exact h.all o₀ ho₀ hs

/-! ## The walk of `fillable_qty` -/

section
variable {used : OrderId → Prop} {b : OrderBook} {l : List RestingOrder}

theorem fillableQueue_eq (h : Refines used b l) {t : Taker} {p : Nat}
    (hcross : crosses t.side t.limit p = true) (more : List RestingOrder) :
    ∀ {q : List OrderId} {orders : List RestingOrder} (total : Nat),
      q.filter b.contains = orders.map RestingOrder.orderId →
      (∀ o ∈ orders, o ∈ l ∧ o.price = p) →
      (match Engine.fillableQueue b t.accountId t.stpMode q total with
        | .error total => total
        | .ok total => total + reach t more) = total + reach t (orders ++ more)
  | [], orders, total, hq, _ => by
    have : orders = [] := by simpa using hq.symm
    simp [this, Engine.fillableQueue]
  | id :: q, orders, total, hq, hin => by
    simp only [Engine.fillableQueue]
    cases hg : b.get id with
    | none =>
      have hdead : b.contains id = false := by rw [OrderBook.contains_eq, hg]; rfl
      rw [filter_cons_of_neg (by simp [hdead])] at hq
      exact fillableQueue_eq h hcross more total hq hin
    | some o =>
      have hlive : b.contains id = true := by rw [OrderBook.contains_eq, hg]; rfl
      rw [filter_cons_of_pos hlive] at hq
      cases orders with
      | nil => simp at hq
      | cons o' orders =>
        rw [map_cons, List.cons.injEq] at hq
        have : o' = o := eq_of_orderId h.nodup (hin o' (by simp)).1 (h.of_get hg).1
          (by rw [← hq.1, (h.of_get hg).2])
        subst this
        have hc : crosses t.side t.limit o'.price = true := by
          rw [(hin o' (by simp)).2]; exact hcross
        have ih := fun total => fillableQueue_eq h hcross more total hq.2
          (fun o ho => hin o (by simp [ho]))
        simp only [cons_append, reach, hc, Bool.not_true, Bool.false_eq_true, if_false]
        by_cases hown : o'.accountId = t.accountId
        · simp only [hown, if_true]
          cases hmode : t.stpMode with
          | cancelTaker => simp
          | cancelBoth => simp
          | cancelMaker => simpa [hmode] using ih total
        · simp only [hown, if_false]
          rw [ih, Nat.add_assoc]

theorem fillableLevels_eq (h : Refines used b l) {t : Taker} :
    ∀ {levels : List (Nat × Level)} (total : Nat),
      (∀ x ∈ levels, b.levelAt t.side.opposite x.1 = some x.2) →
      Engine.fillableLevels b t.side t.limit t.accountId t.stpMode levels total =
        total + reach t (byPrice t.side.opposite (levels.map Prod.fst) l)
  | [], _, _ => by simp [Engine.fillableLevels, byPrice, reach]
  | (p, lv) :: levels, total, hin => by
    have hlv := h.level _ p lv (hin (p, lv) (by simp))
    have ih := fun total => fillableLevels_eq h (t := t) total
      (fun x (hx : x ∈ levels) => hin x (by simp [hx]))
    have hcons : byPrice t.side.opposite (((p, lv) :: levels).map Prod.fst) l =
        atPrice t.side.opposite p l ++ byPrice t.side.opposite (levels.map Prod.fst) l := by
      simp [byPrice]
    rw [hcons]
    simp only [Engine.fillableLevels]
    cases hcross : crosses t.side t.limit p with
    | false =>
      -- the level is not empty, so the first order met is one the taker does not cross
      obtain ⟨o, os, hos⟩ := exists_cons_of_ne_nil hlv.nonempty
      have hp : o.price = p := (mem_atPrice.1 (by rw [hos]; simp : o ∈ atPrice _ p l)).2.2
      simp [hos, reach, hp, hcross]
    | true =>
      have hqueue := fillableQueue_eq h hcross
        (byPrice t.side.opposite (levels.map Prod.fst) l) total hlv.queue
        (fun o ho => ⟨(mem_atPrice.1 ho).1, (mem_atPrice.1 ho).2.2⟩)
      rw [← hqueue]
      cases Engine.fillableQueue b t.accountId t.stpMode lv.queue total with
      | error total' => simp
      | ok total' => simpa using ih total'

/-- The prices a ladder is walked in. -/
def Ladder.prices (l : Ladder) : List Nat := l.iterFromBest.map Prod.fst

theorem Refines.covers (h : Refines used b l) (s : Side) : Covers s (b.ladderFor s).prices l := by
  have hkeys : (b.ladderFor s).levels.toList.map Prod.fst = (b.ladderFor s).levels.keys :=
    ExtTreeMap.map_fst_toList_eq_keys
  have hsorted := keys_sorted (b.ladderFor s)
  refine ⟨?_, fun o ho hs => ?_⟩
  · rw [Ladder.prices, Ladder.iterFromBest, h.side]
    cases s
    · rw [map_reverse, hkeys, pairwise_reverse]; exact hsorted
    · rw [hkeys]; exact hsorted
  · have hmem : o.price ∈ (b.ladderFor s).levels.keys := h.mem_keys.2 ⟨o, ho, hs, rfl⟩
    rw [Ladder.prices, Ladder.iterFromBest]
    cases (b.ladderFor s).side
    · rw [map_reverse, hkeys]; exact mem_reverse.2 hmem
    · rw [hkeys]; exact hmem

theorem fillableQty_eq {e : Engine} (h : Refines used e.book l) (t : Taker) :
    e.fillableQty t.side t.limit t.accountId t.stpMode =
      reach t (byPrice t.side.opposite (e.book.ladderFor t.side.opposite).prices l) := by
  rw [Engine.fillableQty, fillableLevels_eq h, Nat.zero_add, Ladder.prices]
  intro x hx
  have hmem : x ∈ (e.book.ladderFor t.side.opposite).levels.toList := by
    rw [Ladder.iterFromBest] at hx
    cases hs : (e.book.ladderFor t.side.opposite).side <;> rw [hs] at hx
    · exact mem_reverse.1 hx
    · exact hx
  exact ExtTreeMap.mem_toList_iff_getElem?_eq_some.1 hmem

end

/-! ## The matching of the list -/

theorem length_without_lt {o : RestingOrder} (ho : o ∈ l) :
    (without o.orderId l).length < l.length := by
  rw [without]
  exact length_filter_lt_length_iff_exists.2 ⟨o, ho, by simp⟩

/-- What matching still has to do: nothing once the taker is filled, else at most one turn for
each order left. -/
def RefMatch.todo (s : RefMatch) : Nat := if s.remaining = 0 then 0 else s.resting.length

theorem RefMatch.todo_decreases {t : Taker} {s s' : RefMatch}
    (hnd : (s.resting.map RestingOrder.orderId).Nodup) (h : s.turn t = .again s') :
    s'.todo < s.todo := by
  have hturn := s.turns t
  rw [h] at hturn
  cases hturn with
  | dropMaker m hrem hbest hcross hown hmode =>
    have := length_without_lt (bestOf_mem hbest).1
    simpa only [todo, if_neg hrem] using this
  | trade m hrem hbest hcross hown =>
    have hm := (bestOf_mem hbest).1
    have hlen := length_pos_of_mem hm
    simp only [todo, if_neg hrem]
    split
    · exact hlen
    · rename_i hmore
      have hqty : min s.remaining m.remaining = m.remaining := by omega
      rw [hqty, traded_whole hnd hm]
      exact length_without_lt hm

variable {r : RefEngine}

/-- The turn matching ends on, in a state where `P` still holds. -/
theorem RefEngine.matched_stops (t : Taker) (qty : Nat) {P : RefMatch → Prop}
    (hnd : (r.resting.map RestingOrder.orderId).Nodup)
    (h0 : P ⟨r.resting, r.lastTradePrice, [], qty, false⟩)
    (hagain : ∀ s s', P s → (s.resting.map RestingOrder.orderId).Nodup →
      s.turn t = .again s' → P s') :
    ∃ s, P s ∧ (s.resting.map RestingOrder.orderId).Nodup ∧ s.Turns t (.stop (r.matched t qty)) := by
  have hstep : ∀ s s', (P s ∧ (s.resting.map RestingOrder.orderId).Nodup) →
      s.turn t = .again s' →
      (P s' ∧ (s'.resting.map RestingOrder.orderId).Nodup) ∧ s'.todo < s.todo := by
    rintro s s' ⟨hP, hnd⟩ h
    refine ⟨⟨hagain s s' hP hnd h, ?_⟩, s.todo_decreases hnd h⟩
    have hturn := s.turns t
    rw [h] at hturn
    cases hturn with
    | dropMaker => exact nodup_without hnd
    | trade => exact nodup_traded hnd
  obtain ⟨s, ⟨hP, hnd'⟩, hstop⟩ := Lib.loop_halts (m := RefMatch.todo) hstep
    (r.resting.length + 1) (a := ⟨r.resting, r.lastTradePrice, [], qty, false⟩) ⟨h0, hnd⟩
    (by simp only [RefMatch.todo]; split <;> omega)
  exact ⟨s, hP, hnd', by rw [RefEngine.matched, ← hstop]; exact s.turns t⟩

/-- **The dry run is the match**: what matching leaves of a taker is what the orders it reaches
do not cover. -/
theorem RefEngine.matched_remaining {t : Taker} {prices : List Nat}
    (hnd : (r.resting.map RestingOrder.orderId).Nodup)
    (hc : Covers t.side.opposite prices r.resting) (qty : Nat) :
    (r.matched t qty).remaining = qty - reach t (byPrice t.side.opposite prices r.resting) := by
  let P (s : RefMatch) : Prop := Covers t.side.opposite prices s.resting ∧
    s.remaining - reach t (byPrice t.side.opposite prices s.resting) =
      qty - reach t (byPrice t.side.opposite prices r.resting)
  have hagain : ∀ s s', P s → (s.resting.map RestingOrder.orderId).Nodup →
      s.turn t = .again s' → P s' := by
    rintro s s' ⟨hc, heq⟩ hnd h
    have hturn := s.turns t
    rw [h] at hturn
    cases hturn with
    | dropMaker m hrem hbest hcross hown hmode =>
      refine ⟨hc.without _, ?_⟩
      rw [byPrice_best hnd hc hbest] at heq
      simpa [reach, hcross, hown, hmode] using heq
    | trade m hrem hbest hcross hown =>
      refine ⟨hc.traded _ _, ?_⟩
      rw [byPrice_best hnd hc hbest] at heq
      simp only [reach, hcross, hown, Bool.not_true, Bool.false_eq_true, if_false] at heq
      rcases Nat.lt_or_ge s.remaining m.remaining with hlt | hge
      · have hqty : min s.remaining m.remaining = s.remaining := by omega
        simp only [hqty]; omega
      · have hqty : min s.remaining m.remaining = m.remaining := by omega
        simp only [hqty, traded_whole hnd (bestOf_mem hbest).1]; omega
  obtain ⟨s, ⟨hc', heq⟩, hnd', hturn⟩ := RefEngine.matched_stops t qty hnd ⟨hc, rfl⟩ hagain
  -- the turn that broke left nothing within reach
  generalize r.matched t qty = final at hturn
  cases hturn with
  | done hrem => rw [hrem] at heq; omega
  | empty hrem hbest =>
    have := bestOf_none hbest
    rw [byPrice_nil fun o ho hs => absurd hs (this o ho)] at heq
    simpa [reach] using heq
  | uncrossed m hrem hbest hcross =>
    rw [byPrice_best hnd' hc' hbest] at heq
    simpa [reach, hcross] using heq
  | stopTaker m hrem hbest hcross hown hmode =>
    rw [byPrice_best hnd' hc' hbest] at heq
    simpa [reach, hcross, hown, hmode] using heq
  | stopBoth m hrem hbest hcross hown hmode =>
    rw [byPrice_best hnd' hc' hbest] at heq
    simpa [reach, hcross, hown, hmode] using heq

theorem crosses_of_not_ahead {limit : Option Nat} {p q : Nat}
    (hcross : crosses s limit p = true) (h : ¬ahead s.opposite p q) :
    crosses s limit q = true := by
  cases limit with
  | none => rfl
  | some limit =>
    cases s <;> simp only [crosses, ahead, Side.opposite, decide_eq_true_eq] at hcross h ⊢ <;> omega

/-- **Matching runs out**: it ends with the taker filled, stopped by self-trade prevention, or
with nothing left on the other side that the taker crosses. -/
theorem RefEngine.matched_ends (hnd : (r.resting.map RestingOrder.orderId).Nodup)
    (t : Taker) (qty : Nat) :
    (r.matched t qty).remaining = 0 ∨ (r.matched t qty).stpCancelledTaker = true ∨
      ∀ o ∈ (r.matched t qty).resting, o.side = t.side.opposite →
        crosses t.side t.limit o.price = false := by
  obtain ⟨s, -, -, hturn⟩ := RefEngine.matched_stops t qty (P := fun _ => True)
    hnd trivial (fun _ _ _ _ _ => trivial)
  generalize r.matched t qty = final at hturn
  cases hturn with
  | done hrem => exact .inl hrem
  | empty hrem hbest => exact .inr (.inr fun o ho hs => absurd hs (bestOf_none hbest o ho))
  | uncrossed m hrem hbest hcross =>
    refine .inr (.inr fun o ho hs => ?_)
    rw [← Bool.not_eq_true]
    intro hc
    rw [crosses_of_not_ahead hc (bestOf_best hbest ho hs)] at hcross
    cases hcross
  | stopTaker => exact .inr (.inl rfl)
  | stopBoth => exact .inr (.inl rfl)

end AtlasCex.Matching

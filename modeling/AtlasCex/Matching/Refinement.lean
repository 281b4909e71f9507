import AtlasCex.Lib.Selection
import AtlasCex.Matching.Reference
/-!
# The book refines the list

`Refines used b l`: the book `b` holds exactly the orders of the reference list `l`. The index is
`l` looked up by id; a level is there exactly when `l` has orders at its side and price, its queue
without tombstones is those orders' ids in arrival order, and its total is their sum. `used` covers
every id a queue holds, dead ones included, so that an id outside it is no tombstone anywhere.

Each book operation then has one lemma: `remove`, `consumeFront` and `rest` do to the book what
`without`, `traded` and an append do to the list, and `frontLive` only drops tombstones.
-/
namespace AtlasCex.Matching
open List
open Lib (Turn)
open Std (ExtTreeMap)

/-- The list's orders at a side and price, in arrival order. -/
def atPrice (side : Side) (price : Nat) (l : List RestingOrder) : List RestingOrder :=
  l.filter fun o => o.side = side ∧ o.price = price

def totalOf (l : List RestingOrder) : Nat := (l.map RestingOrder.remaining).sum

/-- A level that holds `orders` and, besides them, only tombstones. -/
structure LevelRefines (live : OrderId → Bool) (used : OrderId → Prop)
    (orders : List RestingOrder) (lv : Level) : Prop where
  nonempty : orders ≠ []
  queue : lv.queue.filter live = orders.map RestingOrder.orderId
  total : lv.totalQty = totalOf orders
  known : ∀ id ∈ lv.queue, used id

structure Refines (used : OrderId → Prop) (b : OrderBook) (l : List RestingOrder) : Prop where
  side : ∀ s, (b.ladderFor s).side = s
  nodup : (l.map RestingOrder.orderId).Nodup
  positive : ∀ o ∈ l, 0 < o.remaining
  known : ∀ o ∈ l, used o.orderId
  index : ∀ id, b.get id = l.find? (·.orderId = id)
  level : ∀ s p lv, b.levelAt s p = some lv → LevelRefines b.contains used (atPrice s p l) lv
  gone : ∀ s p, b.levelAt s p = none → atPrice s p l = []

/-! ## The list operations -/

variable {l : List RestingOrder} {o : RestingOrder}

theorem mem_atPrice {s : Side} {p : Nat} :
    o ∈ atPrice s p l ↔ o ∈ l ∧ o.side = s ∧ o.price = p := by
  simp [atPrice]

variable {id : OrderId}

theorem mem_without :
    o ∈ without id l ↔ o ∈ l ∧ o.orderId ≠ id := by
  simp [without]

theorem nodup_without
    (h : (l.map RestingOrder.orderId).Nodup) : ((without id l).map RestingOrder.orderId).Nodup :=
  h.sublist (filter_sublist.map _)

theorem atPrice_without (s : Side) (p : Nat) (id : OrderId) (l : List RestingOrder) :
    atPrice s p (without id l) = without id (atPrice s p l) := by
  simp only [atPrice, without, filter_filter, Bool.and_comm]

theorem atPrice_append (s : Side) (p : Nat) (l l' : List RestingOrder) :
    atPrice s p (l ++ l') = atPrice s p l ++ atPrice s p l' := by
  simp [atPrice]

theorem find?_without (id id' : OrderId) (l : List RestingOrder) :
    (without id l).find? (·.orderId = id') =
      if id' = id then none else l.find? (·.orderId = id') := by
  rw [without, find?_filter]
  split
  · rename_i h
    rw [find?_eq_none]
    intro o _; simp [h]
  · rename_i h
    congr 1; funext o
    by_cases ho : o.orderId = id' <;> simp [ho, h]

theorem map_orderId_without (id : OrderId) (l : List RestingOrder) :
    (without id l).map RestingOrder.orderId = (l.map RestingOrder.orderId).filter (· ≠ id) := by
  simp only [without, filter_map]; rfl

theorem nodup_atPrice {s : Side} {p : Nat}
    (h : (l.map RestingOrder.orderId).Nodup) : ((atPrice s p l).map RestingOrder.orderId).Nodup :=
  h.sublist (filter_sublist.map _)

/-- The id of one order of the list is no other order's. -/
theorem eq_of_orderId (h : (l.map RestingOrder.orderId).Nodup)
    {o' : RestingOrder} (ho : o ∈ l) (ho' : o' ∈ l) (he : o.orderId = o'.orderId) : o = o' :=
  inj_on_of_nodup_map h ho ho' he

theorem without_of_not_mem (h : ∀ o ∈ l, o.orderId ≠ id) : without id l = l := by
  rw [without, filter_eq_self]
  intro o ho; simpa using h o ho

theorem totalOf_without (h : (l.map RestingOrder.orderId).Nodup) (ho : o ∈ l) :
    totalOf (without o.orderId l) + o.remaining = totalOf l :=
  Lib.sum_filter_ne RestingOrder.remaining h ho

theorem totalOf_pos (hpos : ∀ o ∈ l, 0 < o.remaining) (hne : l ≠ []) :
    0 < totalOf l := by
  cases l with
  | nil => exact absurd rfl hne
  | cons o l =>
    have := hpos o (by simp)
    simp only [totalOf, map_cons, sum_cons]
    omega

/-- An order with `qty` of it traded away, when it is the one with this id. -/
def lessened (id : OrderId) (qty : Nat) (o : RestingOrder) : RestingOrder :=
  if o.orderId = id then { o with remaining := o.remaining - qty } else o

@[simp] theorem lessened_orderId (id : OrderId) (qty : Nat) (o : RestingOrder) :
    (lessened id qty o).orderId = o.orderId := by
  unfold lessened; split <;> rfl

@[simp] theorem lessened_side (id : OrderId) (qty : Nat) (o : RestingOrder) :
    (lessened id qty o).side = o.side := by
  unfold lessened; split <;> rfl

@[simp] theorem lessened_price (id : OrderId) (qty : Nat) (o : RestingOrder) :
    (lessened id qty o).price = o.price := by
  unfold lessened; split <;> rfl

variable {qty : Nat}

theorem map_lessened_of_ne (h : ∀ o ∈ l, o.orderId ≠ id) : l.map (lessened id qty) = l := by
  conv => rhs; rw [← map_id l]
  apply map_congr_left
  intro o ho
  simp [lessened, h o ho]

theorem traded_eq (id : OrderId) (qty : Nat) (l : List RestingOrder) :
    traded id qty l =
      (l.map (lessened id qty)).filter (fun o => o.orderId ≠ id ∨ o.remaining ≠ 0) := rfl

theorem mem_traded (h : o ∈ traded id qty l) : ∃ o₀ ∈ l, o = lessened id qty o₀ := by
  rw [traded_eq] at h
  obtain ⟨o₀, ho₀, rfl⟩ := mem_map.1 (mem_filter.1 h).1
  exact ⟨o₀, ho₀, rfl⟩

theorem positive_traded
    (h : ∀ o ∈ l, 0 < o.remaining) : ∀ o ∈ traded id qty l, 0 < o.remaining := by
  intro o ho
  rw [traded_eq] at ho
  obtain ⟨hm, hkept⟩ := mem_filter.1 ho
  obtain ⟨o₀, ho₀, rfl⟩ := mem_map.1 hm
  by_cases hid : o₀.orderId = id
  · exact Nat.pos_of_ne_zero (by simpa [hid] using hkept)
  · simpa [lessened, hid] using h o₀ ho₀

/-- A trade for all that remained of an order takes it out. -/
theorem traded_whole (h : (l.map RestingOrder.orderId).Nodup)
    (ho : o ∈ l) : traded o.orderId o.remaining l = without o.orderId l := by
  rw [traded_eq, filter_map, without]
  have hpred : l.filter ((fun o' => decide (o'.orderId ≠ o.orderId ∨ o'.remaining ≠ 0)) ∘
      lessened o.orderId o.remaining) = l.filter (·.orderId ≠ o.orderId) := by
    apply filter_congr
    intro o' ho'
    by_cases he : o'.orderId = o.orderId
    · have := eq_of_orderId h ho' ho he
      subst this
      simp [lessened]
    · simp [he]
  rw [hpred]
  apply map_lessened_of_ne
  intro o' ho'
  simpa using (mem_filter.1 ho').2

/-- A trade for less takes nothing out. -/
theorem traded_part (h : (l.map RestingOrder.orderId).Nodup)
    (ho : o ∈ l) (hlt : qty < o.remaining) :
    traded o.orderId qty l = l.map (lessened o.orderId qty) := by
  rw [traded_eq, filter_eq_self]
  intro o' ho'
  obtain ⟨o₀, ho₀, rfl⟩ := mem_map.1 ho'
  by_cases he : o₀.orderId = o.orderId
  · have := eq_of_orderId h ho₀ ho he
    subst this
    simp [lessened]; omega
  · simp [he]

theorem map_orderId_lessened (id : OrderId) (qty : Nat) (l : List RestingOrder) :
    (l.map (lessened id qty)).map RestingOrder.orderId = l.map RestingOrder.orderId := by
  rw [map_map]; apply map_congr_left; intro o _; simp

theorem nodup_traded (h : (l.map RestingOrder.orderId).Nodup) :
    ((traded id qty l).map RestingOrder.orderId).Nodup := by
  rw [← map_orderId_lessened id qty] at h
  exact h.sublist (filter_sublist.map _)

theorem atPrice_lessened (s : Side) (p : Nat) (id : OrderId) (qty : Nat)
    (l : List RestingOrder) :
    atPrice s p (l.map (lessened id qty)) = (atPrice s p l).map (lessened id qty) := by
  rw [atPrice, filter_map, atPrice]
  congr 1
  apply filter_congr; intro o _; simp

theorem totalOf_lessened (hle : qty ≤ o.remaining) :
    ∀ {l : List RestingOrder}, (l.map RestingOrder.orderId).Nodup → o ∈ l →
      totalOf (l.map (lessened o.orderId qty)) + qty = totalOf l
  | [], _, ho => by simp at ho
  | o' :: l, h, ho => by
    rw [map_cons, nodup_cons] at h
    rcases mem_cons.1 ho with rfl | ho
    · have hsame : l.map (lessened o.orderId qty) = l :=
        map_lessened_of_ne fun o' ho' e => h.1 (e ▸ mem_map_of_mem ho')
      simp only [totalOf, map_cons, sum_cons, hsame, lessened, if_true]
      omega
    · have hne : o'.orderId ≠ o.orderId := fun e => h.1 (e ▸ mem_map_of_mem ho)
      have ih := totalOf_lessened hle h.2 ho
      simp only [totalOf, map_cons, sum_cons, lessened, hne, if_false] at ih ⊢
      omega

/-! ## Reading the book through the list -/

section
variable {used : OrderId → Prop} {b b' : OrderBook} {l : List RestingOrder}

variable {o : RestingOrder}

theorem Refines.get_of_mem (h : Refines used b l) (ho : o ∈ l) :
    b.get o.orderId = some o := by
  rw [h.index]; exact Lib.find?_of_nodup h.nodup ho

variable {id : OrderId}

theorem Refines.of_get (h : Refines used b l)
    (hg : b.get id = some o) : o ∈ l ∧ o.orderId = id := by
  rw [h.index] at hg
  exact ⟨mem_of_find?_eq_some hg, by simpa using find?_some hg⟩

theorem Refines.contains_iff (h : Refines used b l) :
    b.contains id = true ↔ ∃ o ∈ l, o.orderId = id := by
  rw [OrderBook.contains_eq, Option.isSome_iff_exists]
  constructor
  · rintro ⟨o, ho⟩; exact ⟨o, h.of_get ho⟩
  · rintro ⟨o, ho, rfl⟩; exact ⟨o, h.get_of_mem ho⟩

theorem Refines.levelAt_of_mem (h : Refines used b l) (ho : o ∈ l) :
    ∃ lv, b.levelAt o.side o.price = some lv := by
  cases hlv : b.levelAt o.side o.price with
  | some lv => exact ⟨lv, rfl⟩
  | none =>
    have := h.gone _ _ hlv
    have hmem : o ∈ atPrice o.side o.price l := mem_atPrice.2 ⟨ho, rfl, rfl⟩
    rw [this] at hmem; simp at hmem

/-- What is live in a queue after `o` left the index: the orders of the list without it. -/
theorem queue_without {q : List OrderId} {orders : List RestingOrder}
    (hlive : ∀ id', b'.contains id' = (b.contains id' && id' ≠ id))
    (hq : q.filter b.contains = orders.map RestingOrder.orderId) :
    q.filter b'.contains = (without id orders).map RestingOrder.orderId := by
  rw [map_orderId_without, ← hq, filter_filter]
  apply filter_congr
  intro x _
  rw [hlive, Bool.and_comm]

/-! ## Taking an order out: `remove`, and `consume_front` of a whole order -/

theorem Refines.drop (h : Refines used b l) (ho : o ∈ l) (hside : ∀ s, (b'.ladderFor s).side = s)
    (hget : ∀ id, b'.get id = if id = o.orderId then none else b.get id)
    (hlevel : ∀ s p, b'.levelAt s p =
      if s = o.side ∧ p = o.price then (b.levelAt s p).bind (Level.takenOff o.remaining)
      else b.levelAt s p) :
    Refines used b' (without o.orderId l) := by
  have hlive : ∀ id, b'.contains id = (b.contains id && id ≠ o.orderId) := by
    intro id
    rw [OrderBook.contains_eq, OrderBook.contains_eq, hget]
    by_cases hid : id = o.orderId <;> simp [hid]
  -- a level whose queue is as before holds the list without `o`, whatever its total
  have hqueue : ∀ s p lv, b.levelAt s p = some lv →
      lv.queue.filter b'.contains =
        (atPrice s p (without o.orderId l)).map RestingOrder.orderId := by
    intro s p lv hlv
    rw [atPrice_without]
    exact queue_without hlive (h.level s p lv hlv).queue
  have htotal : totalOf (atPrice o.side o.price (without o.orderId l)) + o.remaining =
      totalOf (atPrice o.side o.price l) := by
    rw [atPrice_without]
    exact totalOf_without (nodup_atPrice h.nodup) (mem_atPrice.2 ⟨ho, rfl, rfl⟩)
  have hother : ∀ s p, ¬(s = o.side ∧ p = o.price) →
      atPrice s p (without o.orderId l) = atPrice s p l := by
    intro s p hsp
    rw [atPrice_without]
    apply without_of_not_mem
    intro o' ho' he
    obtain ⟨hm, hs, hp⟩ := mem_atPrice.1 ho'
    have := eq_of_orderId h.nodup hm ho he
    subst this
    exact hsp ⟨hs.symm, hp.symm⟩
  have hpos : ∀ o' ∈ without o.orderId l, 0 < o'.remaining :=
    fun o' ho' => h.positive o' (mem_without.1 ho').1
  refine ⟨hside, nodup_without h.nodup, hpos, fun o' ho' => h.known o' (mem_without.1 ho').1,
    fun id => by rw [hget, find?_without, h.index], fun s p lv' hlv' => ?_, fun s p hlv' => ?_⟩
  · rw [hlevel] at hlv'
    by_cases hsp : s = o.side ∧ p = o.price
    · obtain ⟨rfl, rfl⟩ := hsp
      rw [if_pos ⟨rfl, rfl⟩] at hlv'
      obtain ⟨lv, hlv, hoff⟩ := Option.bind_eq_some_iff.1 hlv'
      have hold := h.level _ _ _ hlv
      unfold Level.takenOff at hoff
      split at hoff
      · cases hoff
      · rename_i hne
        cases hoff
        have htot := hold.total
        refine ⟨?_, hqueue _ _ lv hlv, by simp only; omega, hold.known⟩
        intro hnil
        rw [hnil] at htotal
        simp only [totalOf, map_nil, sum_nil] at htotal htot
        omega
    · rw [if_neg hsp] at hlv'
      have hold := h.level _ _ _ hlv'
      refine ⟨by rw [hother s p hsp]; exact hold.nonempty, hqueue _ _ lv' hlv',
        by rw [hother s p hsp]; exact hold.total, hold.known⟩
  · rw [hlevel] at hlv'
    by_cases hsp : s = o.side ∧ p = o.price
    · obtain ⟨rfl, rfl⟩ := hsp
      rw [if_pos ⟨rfl, rfl⟩] at hlv'
      obtain ⟨lv, hlv⟩ := h.levelAt_of_mem ho
      rw [hlv, Option.bind_some, Level.takenOff] at hlv'
      split at hlv'
      · rename_i hz
        by_contra hne
        have hp := totalOf_pos (fun o' ho' => hpos o' (mem_atPrice.1 ho').1) hne
        have := (h.level _ _ _ hlv).total
        omega
      · cases hlv'
    · rw [if_neg hsp] at hlv'
      rw [hother s p hsp]
      exact h.gone s p hlv'

theorem levelAt_remove (hg : b.get id = some o) (s : Side) (p : Nat) : (b.remove id).2.levelAt s p =
      if s = o.side ∧ p = o.price then (b.levelAt s p).bind (Level.takenOff o.remaining)
      else b.levelAt s p := by
  rw [OrderBook.remove, hg]
  by_cases hs : s = o.side
  · by_cases hp : p = o.price <;> simp [OrderBook.levelAt, hs, hp, Ladder.forget]
  · simp [OrderBook.levelAt, hs]

theorem get_remove (hg : b.get id = some o) (id' : OrderId) :
    (b.remove id).2.get id' = if id' = id then none else b.get id' := by
  rw [OrderBook.remove, hg]
  simp

theorem Refines.remove (h : Refines used b l) (ho : o ∈ l) :
    ∃ b', b.remove o.orderId = (some o, b') ∧ Refines used b' (without o.orderId l) ∧
      b'.lastTradePrice = b.lastTradePrice := by
  have hg := h.get_of_mem ho
  refine ⟨(b.remove o.orderId).2, ?_, ?_, ?_⟩
  · rw [OrderBook.remove, hg]
  · apply h.drop ho
    · intro s
      rw [OrderBook.remove, hg]
      by_cases hs : s = o.side <;> simp [hs, Ladder.forget, h.side]
    · exact get_remove hg
    · exact levelAt_remove hg
  · rw [OrderBook.remove, hg]
    simp

theorem Refines.remove_unknown (h : Refines used b l)
    (hid : ∀ o ∈ l, o.orderId ≠ id) : b.remove id = (none, b) := by
  have : b.get id = none := by
    rw [h.index, find?_eq_none]
    intro o ho; simpa using hid o ho
  rw [OrderBook.remove, this]

/-! ## Dropping tombstones: `front_live` -/

variable {s : Side} {p : Nat}

/-- Popping a dead front changes nothing the list sees; the level stays, for it has live orders. -/
theorem Refines.pop_dead (h : Refines used b l) {lv : Level}
    {q : List OrderId} (hlv : b.levelAt s p = some lv) (hq : lv.queue = id :: q)
    (hdead : b.contains id = false) :
    Refines used (b.setLadder s ((b.ladderFor s).popFront p)) l ∧
      (b.setLadder s ((b.ladderFor s).popFront p)).levelAt s p = some { lv with queue := q } := by
  have hold := h.level s p lv hlv
  have hfilter : q.filter b.contains = (atPrice s p l).map RestingOrder.orderId := by
    have := hold.queue
    rwa [hq, filter_cons_of_neg (by simp [hdead])] at this
  have hne : q ≠ [] := by
    rintro rfl
    have := hold.nonempty
    simp at hfilter
    exact this hfilter
  have hself : (b.setLadder s ((b.ladderFor s).popFront p)).levelAt s p =
      some { lv with queue := q } := by
    have hlv' : (b.ladderFor s).level p = some lv := hlv
    simp [OrderBook.levelAt, hlv', hq, hne]
  have hother : ∀ s' p', ¬(s' = s ∧ p' = p) →
      (b.setLadder s ((b.ladderFor s).popFront p)).levelAt s' p' = b.levelAt s' p' := by
    intro s' p' hsp
    by_cases hs : s' = s
    · have hp : p' ≠ p := fun e => hsp ⟨hs, e⟩
      simp [OrderBook.levelAt, hs, hp]
    · simp [OrderBook.levelAt, hs]
  have hlive : ∀ id', (b.setLadder s ((b.ladderFor s).popFront p)).contains id' = b.contains id' := by
    intro id'; simp [OrderBook.contains_eq]
  refine ⟨⟨fun s' => ?_, h.nodup, h.positive, h.known, fun id' => by rw [← h.index]; simp,
    fun s' p' lv' hlv' => ?_, fun s' p' hlv' => ?_⟩, hself⟩
  · by_cases hs : s' = s <;> simp [hs, h.side]
  · rw [funext hlive]
    by_cases hsp : s' = s ∧ p' = p
    · obtain ⟨rfl, rfl⟩ := hsp
      rw [hself] at hlv'
      cases hlv'
      exact ⟨hold.nonempty, hfilter, hold.total, fun x hx => hold.known x (by simp [hq, hx])⟩
    · rw [hother s' p' hsp] at hlv'
      exact h.level s' p' lv' hlv'
  · by_cases hsp : s' = s ∧ p' = p
    · obtain ⟨rfl, rfl⟩ := hsp
      rw [hself] at hlv'
      cases hlv'
    · rw [hother s' p' hsp] at hlv'
      exact h.gone s' p' hlv'

/-- What `front_live` hands back: the first order of the list at that price, over a book that
still holds the list, with that order at the head of its queue. -/
structure FrontIs (used : OrderId → Prop) (b b' : OrderBook) (l : List RestingOrder) (s : Side)
    (p : Nat) (o : RestingOrder) : Prop where
  refines : Refines used b' l
  index : ∀ id, b'.get id = b.get id
  front : ∃ lv q, b'.levelAt s p = some lv ∧ lv.queue = o.orderId :: q
  price : b'.lastTradePrice = b.lastTradePrice

variable {os : List RestingOrder}

theorem Refines.frontLiveLoop (hat : atPrice s p l = o :: os) :
    ∀ (fuel : Nat) (b : OrderBook) (lv : Level), Refines used b l → b.levelAt s p = some lv →
      lv.queue.length < fuel →
      ∃ b', OrderBook.frontLiveLoop fuel b s p = (some o, b') ∧ FrontIs used b b' l s p o
  | 0, _, _, _, _, hf => absurd hf (Nat.not_lt_zero _)
  | fuel + 1, b, lv, h, hlv, hf => by
    have hold := h.level s p lv hlv
    have hqueue := hold.queue
    rw [hat] at hqueue
    have hlv' : (b.ladderFor s).level p = some lv := hlv
    cases hq : lv.queue with
    | nil => rw [hq] at hqueue; simp at hqueue
    | cons id q =>
      rw [hq] at hqueue hf
      simp only [OrderBook.frontLiveLoop, hlv', Option.bind_some, hq, head?_cons]
      cases hg : b.get id with
      | some o' =>
        have hc : b.contains id = true := by rw [OrderBook.contains_eq, hg]; rfl
        rw [filter_cons_of_pos (by simpa using hc), map_cons, List.cons.injEq] at hqueue
        have ho : o ∈ l := (mem_atPrice.1 (by rw [hat]; simp : o ∈ atPrice s p l)).1
        have : o' = o := eq_of_orderId h.nodup (h.of_get hg).1 ho
          (by rw [(h.of_get hg).2, hqueue.1])
        subst this
        exact ⟨b, rfl, h, fun _ => rfl, ⟨lv, q, hlv, by rw [hq, hqueue.1]⟩, rfl⟩
      | none =>
        have hc : b.contains id = false := by rw [OrderBook.contains_eq, hg]; rfl
        obtain ⟨h', hlv''⟩ := h.pop_dead hlv hq hc
        obtain ⟨b', he, hb'⟩ := frontLiveLoop hat fuel _ _ h' hlv'' (by simp at hf ⊢; omega)
        refine ⟨b', he, hb'.refines, fun id' => ?_, hb'.front, ?_⟩
        · rw [hb'.index]; simp
        · rw [hb'.price]; simp

theorem Refines.frontLive (h : Refines used b l) (hat : atPrice s p l = o :: os) :
    ∃ b', b.frontLive s p = (some o, b') ∧ FrontIs used b b' l s p o := by
  have ho : o ∈ atPrice s p l := by rw [hat]; simp
  obtain ⟨hm, rfl, rfl⟩ := mem_atPrice.1 ho
  obtain ⟨lv, hlv⟩ := h.levelAt_of_mem hm
  have hlv' : (b.ladderFor o.side).level o.price = some lv := hlv
  simp only [OrderBook.frontLive, hlv', Option.map_some, Option.getD_some]
  exact Refines.frontLiveLoop hat _ b lv h hlv (by omega)

/-! ## Trading with the front order: `consume_front` -/

/-- Only what is read of a book matters. -/
theorem Refines.of_view (h : Refines used b l) (hside : ∀ s, (b'.ladderFor s).side = s)
    (hget : ∀ id, b'.get id = b.get id) (hlevel : ∀ s p, b'.levelAt s p = b.levelAt s p) :
    Refines used b' l := by
  have hlive : b'.contains = b.contains := by
    funext id; rw [OrderBook.contains_eq, OrderBook.contains_eq, hget]
  refine ⟨hside, h.nodup, h.positive, h.known, fun id => by rw [hget, h.index],
    fun s p lv hlv => ?_, fun s p hlv => ?_⟩
  · rw [hlevel] at hlv; rw [hlive]; exact h.level s p lv hlv
  · rw [hlevel] at hlv; exact h.gone s p hlv

theorem Refines.lessen (h : Refines used b l) (ho : o ∈ l) {qty : Nat}
    (hlt : qty < o.remaining) (hside : ∀ s, (b'.ladderFor s).side = s) (hget : ∀ id, b'.get id =
      if id = o.orderId then some { o with remaining := o.remaining - qty } else b.get id)
    (hlevel : ∀ s p, b'.levelAt s p =
      if s = o.side ∧ p = o.price then (b.levelAt s p).bind (Level.takenOff qty)
      else b.levelAt s p) :
    Refines used b' (l.map (lessened o.orderId qty)) := by
  have hlive : b'.contains = b.contains := by
    funext id
    rw [OrderBook.contains_eq, OrderBook.contains_eq, hget]
    by_cases hid : id = o.orderId
    · rw [if_pos hid, hid, h.get_of_mem ho]; rfl
    · rw [if_neg hid]
  have hat : o ∈ atPrice o.side o.price l := mem_atPrice.2 ⟨ho, rfl, rfl⟩
  have htotal := totalOf_lessened (Nat.le_of_lt hlt) (nodup_atPrice h.nodup) hat
  have hother : ∀ s p, ¬(s = o.side ∧ p = o.price) →
      atPrice s p (l.map (lessened o.orderId qty)) = atPrice s p l := by
    intro s p hsp
    rw [atPrice_lessened]
    apply map_lessened_of_ne
    intro o' ho' he
    obtain ⟨hm, hs, hp⟩ := mem_atPrice.1 ho'
    have := eq_of_orderId h.nodup hm ho he
    subst this
    exact hsp ⟨hs.symm, hp.symm⟩
  -- the level keeps live quantity: `o` itself has some left
  have hstays : qty < totalOf (atPrice o.side o.price l) := by
    have := totalOf_without (nodup_atPrice h.nodup) hat
    omega
  refine ⟨hside, by rw [map_orderId_lessened]; exact h.nodup, fun o' ho' => ?_, fun o' ho' => ?_,
    fun id => ?_, fun s p lv' hlv' => ?_, fun s p hlv' => ?_⟩
  · obtain ⟨o₀, ho₀, rfl⟩ := mem_map.1 ho'
    have hpos := h.positive o₀ ho₀
    by_cases he : o₀.orderId = o.orderId
    · have := eq_of_orderId h.nodup ho₀ ho he
      subst this
      simp only [lessened, if_true]; omega
    · simpa [lessened, he] using hpos
  · obtain ⟨o₀, ho₀, rfl⟩ := mem_map.1 ho'
    rw [lessened_orderId]; exact h.known o₀ ho₀
  · rw [hget, find?_map]
    have hp : (fun x : RestingOrder => decide (x.orderId = id)) ∘ lessened o.orderId qty =
        fun x => decide (x.orderId = id) := by funext x; simp
    rw [hp, ← h.index]
    by_cases hid : id = o.orderId
    · rw [if_pos hid, hid, h.get_of_mem ho]; simp [lessened]
    · rw [if_neg hid]
      cases hg : b.get id with
      | none => rfl
      | some o' =>
        have hne : o'.orderId ≠ o.orderId := by rw [(h.of_get hg).2]; exact hid
        simp [lessened, hne]
  · rw [hlevel] at hlv'
    rw [hlive]
    by_cases hsp : s = o.side ∧ p = o.price
    · obtain ⟨rfl, rfl⟩ := hsp
      rw [if_pos ⟨rfl, rfl⟩] at hlv'
      obtain ⟨lv, hlv, hoff⟩ := Option.bind_eq_some_iff.1 hlv'
      have hold := h.level _ _ _ hlv
      have htot := hold.total
      rw [Level.takenOff, if_neg (by omega)] at hoff
      cases hoff
      rw [atPrice_lessened]
      exact ⟨by simpa using hold.nonempty, by rw [map_orderId_lessened]; exact hold.queue,
        by simp only; omega, hold.known⟩
    · rw [if_neg hsp] at hlv'
      rw [hother s p hsp]
      exact h.level s p lv' hlv'
  · rw [hlevel] at hlv'
    by_cases hsp : s = o.side ∧ p = o.price
    · obtain ⟨rfl, rfl⟩ := hsp
      rw [if_pos ⟨rfl, rfl⟩] at hlv'
      obtain ⟨lv, hlv⟩ := h.levelAt_of_mem ho
      have htot := (h.level _ _ _ hlv).total
      rw [hlv, Option.bind_some, Level.takenOff, if_neg (by omega)] at hlv'
      cases hlv'
    · rw [if_neg hsp] at hlv'
      rw [hother s p hsp]
      exact h.gone s p hlv'

/-- Popping the front of a level that is gone, or whose front is dead. -/
theorem Refines.pop_front (h : Refines used b l) (id : OrderId) (hdead : b.contains id = false)
    (hfront : ∀ lv, b.levelAt s p = some lv → ∃ q, lv.queue = id :: q) :
    Refines used (b.setLadder s ((b.ladderFor s).popFront p)) l := by
  cases hlv : b.levelAt s p with
  | some lv =>
    obtain ⟨q, hq⟩ := hfront lv hlv
    exact (h.pop_dead hlv hq hdead).1
  | none =>
    have hlv' : (b.ladderFor s).level p = none := hlv
    refine h.of_view (fun s' => ?_) (fun id' => by simp) (fun s' p' => ?_)
    · by_cases hs : s' = s <;> simp [hs, h.side]
    · by_cases hs : s' = s
      · by_cases hp : p' = p <;> simp [OrderBook.levelAt, hs, hp, hlv']
      · simp [OrderBook.levelAt, hs]

theorem Refines.consumeFront (h : Refines used b l) {qty : Nat}
    (hat : atPrice s p l = o :: os) (hqty : qty ≤ o.remaining) :
    ∃ b', b.consumeFront s p qty = (some o, b') ∧ Refines used b' (traded o.orderId qty l) ∧
      b'.lastTradePrice = b.lastTradePrice := by
  obtain ⟨ho, rfl, rfl⟩ := mem_atPrice.1 (by rw [hat]; simp : o ∈ atPrice s p l)
  obtain ⟨b₁, hfl, hb₁⟩ := h.frontLive hat
  obtain ⟨lv, q, hlv, hq⟩ := hb₁.front
  -- `b₂` is the book after `reduce` and `touch`, the index not yet written
  obtain ⟨b₂, hb₂⟩ : ∃ b₂, b₂ = (b₁.setLadder o.side
      ((b₁.ladderFor o.side).reduce o.price qty)).touch o.side o.price := ⟨_, rfl⟩
  have hget : ∀ id, b₂.get id = b₁.get id := by intro id; simp [hb₂]
  have hprice : b₂.lastTradePrice = b.lastTradePrice := by simp [hb₂, hb₁.price]
  have hside : ∀ s, (b₂.ladderFor s).side = s := by
    intro s
    by_cases hs : s = o.side <;> simp [hb₂, hs, Ladder.reduce, hb₁.refines.side]
  have hlevel : ∀ s p, b₂.levelAt s p =
      if s = o.side ∧ p = o.price then (b₁.levelAt s p).bind (Level.takenOff qty)
      else b₁.levelAt s p := by
    intro s p
    by_cases hs : s = o.side
    · by_cases hp : p = o.price <;> simp [OrderBook.levelAt, hb₂, hs, hp, Ladder.reduce]
    · simp [OrderBook.levelAt, hb₂, hs]
  rcases Nat.lt_or_ge qty o.remaining with hlt | hge
  · have hne : o.remaining - qty ≠ 0 := by omega
    let rest : RestingOrder := { o with remaining := o.remaining - qty }
    refine ⟨{ b₂ with orders := b₂.orders.insert o.orderId rest }, ?_, ?_, hprice⟩
    · simp only [OrderBook.consumeFront, hfl, if_neg hne, ← hb₂, hget,
        hb₁.refines.get_of_mem ho, rest]
    rw [traded_part h.nodup ho hlt]
    apply hb₁.refines.lessen ho hlt
    · intro s; simpa using hside s
    · intro id; simp [hget, rest]
    · intro s p; simpa [OrderBook.levelAt] using hlevel s p
  · obtain rfl : qty = o.remaining := by omega
    let b₃ : OrderBook := { b₂ with orders := b₂.orders.erase o.orderId }
    refine ⟨b₃.setLadder o.side ((b₃.ladderFor o.side).popFront o.price), ?_, ?_, ?_⟩
    · simp only [OrderBook.consumeFront, hfl, Nat.sub_self, if_true, ← hb₂, b₃]
    · rw [traded_whole h.nodup ho]
      have hdrop : Refines used b₃ (without o.orderId l) := by
        apply hb₁.refines.drop ho
        · intro s; simpa [b₃] using hside s
        · intro id; simp [b₃, hget]
        · intro s p; simpa [OrderBook.levelAt, b₃] using hlevel s p
      refine hdrop.pop_front o.orderId ?_ ?_
      · simp [OrderBook.contains_eq, b₃]
      · intro lv₃ hlv₃
        have hlv₂ : b₂.levelAt o.side o.price = some lv₃ := by
          simpa [OrderBook.levelAt, b₃] using hlv₃
        rw [hlevel, if_pos ⟨rfl, rfl⟩, hlv, Option.bind_some, Level.takenOff] at hlv₂
        split at hlv₂
        · cases hlv₂
        · cases hlv₂; exact ⟨q, hq⟩
    · simpa [b₃] using hprice

/-! ## Resting a new order: `rest` -/

theorem Refines.mono (h : Refines used b l) {used' : OrderId → Prop}
    (hu : ∀ id, used id → used' id) : Refines used' b l :=
  ⟨h.side, h.nodup, h.positive, fun o ho => hu _ (h.known o ho), h.index,
    fun s p lv hlv =>
      let hold := h.level s p lv hlv
      ⟨hold.nonempty, hold.queue, hold.total, fun id hid => hu _ (hold.known id hid)⟩,
    h.gone⟩

/-- An id no queue holds, not even as a tombstone, may be rested: nothing dead comes back. -/
theorem Refines.rest (h : Refines used b l) (hnew : ¬used o.orderId) (hpos : 0 < o.remaining) :
    Refines (fun id => used id ∨ id = o.orderId) (b.rest o) (l ++ [o]) := by
  have hfresh : ∀ o' ∈ l, o'.orderId ≠ o.orderId := fun o' ho' e => hnew (e ▸ h.known o' ho')
  have hget : ∀ id, (b.rest o).get id = if id = o.orderId then some o else b.get id := by
    intro id; simp [OrderBook.rest]
  have hlevel : ∀ s p, (b.rest o).levelAt s p =
      if s = o.side ∧ p = o.price then
        some ⟨((b.levelAt s p).getD ⟨[], 0⟩).queue ++ [o.orderId],
          ((b.levelAt s p).getD ⟨[], 0⟩).totalQty + o.remaining⟩
      else b.levelAt s p := by
    intro s p
    by_cases hs : s = o.side
    · by_cases hp : p = o.price <;> simp [OrderBook.levelAt, OrderBook.rest, hs, hp]
    · simp [OrderBook.levelAt, OrderBook.rest, hs]
  have hlive : ∀ id, (b.rest o).contains id = (b.contains id || decide (id = o.orderId)) := by
    intro id
    rw [OrderBook.contains_eq, OrderBook.contains_eq, hget]
    by_cases hid : id = o.orderId <;> simp [hid]
  have hqueue : ∀ q : List OrderId, (∀ id ∈ q, used id) →
      q.filter (b.rest o).contains = q.filter b.contains := by
    intro q hq
    apply filter_congr
    intro id hid
    have : id ≠ o.orderId := fun e => hnew (e ▸ hq id hid)
    simp [hlive, this]
  have hself : (b.rest o).contains o.orderId = true := by simp [hlive]
  have hat : ∀ s p, atPrice s p (l ++ [o]) =
      if s = o.side ∧ p = o.price then atPrice s p l ++ [o] else atPrice s p l := by
    intro s p
    rw [atPrice_append]
    by_cases hsp : s = o.side ∧ p = o.price
    · obtain ⟨rfl, rfl⟩ := hsp; simp [atPrice]
    · have : ¬(o.side = s ∧ o.price = p) := fun e => hsp ⟨e.1.symm, e.2.symm⟩
      rw [if_neg hsp]
      simp [atPrice, this]
  refine ⟨fun s => ?_, ?_, ?_, ?_, fun id => ?_, fun s p lv hlv => ?_, fun s p hlv => ?_⟩
  · by_cases hs : s = o.side <;> simp [OrderBook.rest, hs, h.side]
  · rw [map_append, nodup_append]
    refine ⟨h.nodup, by simp, fun id hid id' hid' => ?_⟩
    obtain ⟨o', ho', rfl⟩ := mem_map.1 hid
    simp only [map_cons, map_nil, mem_singleton] at hid'
    exact hid' ▸ hfresh o' ho'
  · intro o' ho'
    rcases mem_append.1 ho' with ho' | ho'
    · exact h.positive o' ho'
    · rw [mem_singleton.1 ho']; exact hpos
  · intro o' ho'
    rcases mem_append.1 ho' with ho' | ho'
    · exact .inl (h.known o' ho')
    · rw [mem_singleton.1 ho']; exact .inr rfl
  · rw [hget, find?_append, ← h.index]
    by_cases hid : id = o.orderId
    · have : b.get o.orderId = none := by
        rw [h.index, find?_eq_none]
        intro o' ho'; simpa using hfresh o' ho'
      simp [hid, this]
    · have : o.orderId ≠ id := fun e => hid e.symm
      simp [hid, this]
  · rw [hlevel] at hlv
    rw [hat]
    by_cases hsp : s = o.side ∧ p = o.price
    · rw [if_pos hsp] at hlv ⊢
      cases hlv
      cases hold : b.levelAt s p with
      | none =>
        rw [h.gone s p hold]
        exact ⟨by simp, by simp [hself], by simp [totalOf], by simp⟩
      | some lv =>
        have hlv := h.level s p lv hold
        refine ⟨by simp, ?_, ?_, ?_⟩
        · simp [hqueue lv.queue hlv.known, hlv.queue, hself]
        · simp [totalOf, hlv.total]
        · intro id hid
          simp only [Option.getD_some, mem_append, mem_singleton] at hid
          exact hid.imp_left (hlv.known id)
    · rw [if_neg hsp] at hlv ⊢
      have hold := h.level s p lv hlv
      exact ⟨hold.nonempty, by rw [hqueue lv.queue hold.known, hold.queue], hold.total,
        fun id hid => .inl (hold.known id hid)⟩
  · rw [hlevel] at hlv
    rw [hat]
    by_cases hsp : s = o.side ∧ p = o.price
    · rw [if_pos hsp] at hlv; cases hlv
    · rw [if_neg hsp] at hlv ⊢
      exact h.gone s p hlv

end

end AtlasCex.Matching

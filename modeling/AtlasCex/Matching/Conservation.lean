import AtlasCex.Matching.Invariants
/-!
# Quantity is conserved, order by order

`Settles id placing out start finish`: over the events `out` an order went from `start` to `finish`
in the book, and what left was filled or released, each once. It is proved of one event, composes
over `++`, and so holds of a match turn, a command and a run.

A `Rejected` ends an order only when its own placing command emits it (`placing`): a cancel or an
amend of an id that does not rest answers `Rejected` for that id too, and releases nothing.
-/
namespace AtlasCex.Matching
open List
open Lib (Turn)

/-! ## What an event says about an order -/

def Event.trades (id : OrderId) : Event → Bool
  | .fill f => f.takerOrderId = id ∨ f.makerOrderId = id
  | _ => false

def Event.fillQty (id : OrderId) : Event → Nat
  | .fill f => if f.takerOrderId = id ∨ f.makerOrderId = id then f.qty else 0
  | _ => 0

def Event.releasedQty (id : OrderId) : Event → Nat
  | .cancelled _ orderId remainingQty | .expired _ orderId remainingQty =>
    if orderId = id then remainingQty else 0
  | _ => 0

def Event.rejects (id : OrderId) : Event → Bool
  | .rejected _ orderId _ => orderId = id
  | _ => false

/-- The event ends the order: `Cancelled`, `Expired`, or `Rejected` by its placing command. -/
def Event.ends (id : OrderId) (placing : Bool) : Event → Bool
  | .cancelled _ orderId _ | .expired _ orderId _ => orderId = id
  | .rejected _ orderId _ => placing && orderId = id
  | _ => false

def Event.quiet (id : OrderId) (placing : Bool) (e : Event) : Bool :=
  !e.ends id placing && !e.trades id

def filled (id : OrderId) (out : List Event) : Nat := (out.map (Event.fillQty id)).sum

def releasedBy (id : OrderId) (out : List Event) : Nat := (out.map (Event.releasedQty id)).sum

/-- What was released for an order of quantity `qty`. -/
def released (id : OrderId) (placing : Bool) (qty : Nat) (out : List Event) : Nat :=
  if placing ∧ out.any (Event.rejects id) then qty else releasedBy id out

/-- What remains of an order in the list, 0 when it is not there. -/
def remainingOf (id : OrderId) (l : List RestingOrder) : Nat :=
  ((l.find? (·.orderId = id)).map RestingOrder.remaining).getD 0

variable {l : List RestingOrder} {o : RestingOrder}

theorem remainingOf_mem (hnd : (l.map RestingOrder.orderId).Nodup)
    (ho : o ∈ l) : remainingOf o.orderId l = o.remaining := by
  rw [remainingOf, Lib.find?_of_nodup hnd ho]; rfl

variable {id : OrderId}

theorem remainingOf_absent (h : ∀ o ∈ l, o.orderId ≠ id) : remainingOf id l = 0 := by
  have : l.find? (·.orderId = id) = none := by
    rw [find?_eq_none]; intro o ho; simpa using h o ho
  rw [remainingOf, this]; rfl

theorem remainingOf_without (id id' : OrderId) (l : List RestingOrder) :
    remainingOf id (without id' l) = if id = id' then 0 else remainingOf id l := by
  rw [remainingOf, find?_without]
  split <;> rfl

theorem remainingOf_append (h : ∀ o' ∈ l, o'.orderId ≠ o.orderId) :
    remainingOf id (l ++ [o]) = if id = o.orderId then o.remaining else remainingOf id l := by
  rw [remainingOf, find?_append]
  by_cases hid : id = o.orderId
  · subst hid
    have : l.find? (·.orderId = o.orderId) = none := by
      rw [find?_eq_none]; intro o' ho'; simpa using h o' ho'
    simp [this]
  · simp [hid, Ne.symm hid, remainingOf]

variable {qty : Nat}

theorem remainingOf_traded (hnd : (l.map RestingOrder.orderId).Nodup)
    (ho : o ∈ l) (hle : qty ≤ o.remaining) (id : OrderId) :
    remainingOf id (traded o.orderId qty l) =
      if id = o.orderId then o.remaining - qty else remainingOf id l := by
  rcases Nat.lt_or_ge qty o.remaining with hlt | hge
  · rw [traded_part hnd ho hlt, remainingOf, find?_map]
    have hp : (fun x : RestingOrder => decide (x.orderId = id)) ∘ lessened o.orderId qty =
        fun x => decide (x.orderId = id) := by funext x; simp
    rw [hp]
    by_cases hid : id = o.orderId
    · subst hid
      simp [Lib.find?_of_nodup hnd ho, lessened]
    · rw [if_neg hid, remainingOf]
      cases hf : l.find? (·.orderId = id) with
      | none => rfl
      | some o' =>
        have : o'.orderId = id := by simpa using find?_some hf
        have hne : o'.orderId ≠ o.orderId := this ▸ hid
        simp [lessened, hne]
  · obtain rfl : qty = o.remaining := by omega
    rw [traded_whole hnd ho, remainingOf_without, Nat.sub_self]

/-! ## Settling -/

/-- From `start` in the book to `finish`, with nothing lost and nothing told twice. -/
structure Settles (id : OrderId) (placing : Bool) (out : List Event) (start finish : Nat) : Prop where
  balance : filled id out + released id placing start out + finish = start
  once : out.Pairwise fun x y => x.ends id placing = true → y.quiet id placing = true
  closed : (∃ x ∈ out, x.ends id placing = true) → finish = 0
  idle : placing = false → start = 0 → ∀ x ∈ out, x.quiet id false = true

section
variable {id : OrderId} {a b c : Nat} {out out' : List Event}

theorem released_later (id : OrderId) (qty : Nat) (out : List Event) :
    released id false qty out = releasedBy id out := by simp [released]

theorem filled_append (id : OrderId) (out out' : List Event) :
    filled id (out ++ out') = filled id out + filled id out' := by simp [filled]

theorem releasedBy_append (id : OrderId) (out out' : List Event) :
    releasedBy id (out ++ out') = releasedBy id out + releasedBy id out' := by simp [releasedBy]

theorem Settles.nil (id : OrderId) (a : Nat) : Settles id false [] a a :=
  ⟨by simp [filled, released, releasedBy], .nil, by simp, by simp⟩

theorem Settles.append (h : Settles id false out a b) (h' : Settles id false out' b c) :
    Settles id false (out ++ out') a c := by
  refine ⟨?_, ?_, ?_, ?_⟩
  · have hb := h.balance
    have hb' := h'.balance
    simp only [released_later, filled_append, releasedBy_append] at hb hb' ⊢
    omega
  · rw [pairwise_append]
    exact ⟨h.once, h'.once, fun x hx y hy he => h'.idle rfl (h.closed ⟨x, hx, he⟩) y hy⟩
  · rintro ⟨x, hx, he⟩
    rcases mem_append.1 hx with hx | hx
    · have := h'.balance
      rw [h.closed ⟨x, hx, he⟩] at this
      omega
    · exact h'.closed ⟨x, hx, he⟩
  · intro _ ha x hx
    have hb := h.balance
    rcases mem_append.1 hx with hx | hx
    · exact h.idle rfl ha x hx
    · exact h'.idle rfl (by omega) x hx

variable {placing : Bool} {e : Event}

/-- An event that says nothing about the order leaves it where it was. -/
theorem Event.fillQty_of_quiet (h : e.quiet id placing = true) :
    e.fillQty id = 0 := by
  cases e <;> simp_all [Event.quiet, Event.fillQty, Event.trades]

theorem Event.releasedQty_of_quiet (h : e.quiet id placing = true) :
    e.releasedQty id = 0 := by
  cases e <;> simp_all [Event.quiet, Event.releasedQty, Event.ends]

theorem Settles.quiet (h : e.quiet id false = true) (a : Nat) :
    Settles id false [e] a a := by
  refine ⟨?_, pairwise_singleton _ _, ?_, ?_⟩
  · simp [filled, releasedBy, released_later, Event.fillQty_of_quiet h,
      Event.releasedQty_of_quiet h]
  · rintro ⟨x, hx, he⟩
    rw [mem_singleton.1 hx] at he
    simp [Event.quiet, he] at h
  · intro _ _ x hx
    rw [mem_singleton.1 hx]; exact h

/-- A quiet event ahead of a placing command's own. -/
theorem Settles.cons_quiet (h : Settles id placing out a b)
    (he : e.quiet id placing = true) (hrej : e.rejects id = false)
    (hq : e.quiet id false = true) : Settles id placing (e :: out) a b := by
  refine ⟨?_, pairwise_cons.2 ⟨fun y hy hends => ?_, h.once⟩, ?_, ?_⟩
  · have hb := h.balance
    simp only [filled, released, releasedBy, map_cons, sum_cons, any_cons, hrej,
      Bool.false_or, Event.fillQty_of_quiet he, Event.releasedQty_of_quiet he, Nat.zero_add] at hb ⊢
    exact hb
  · simp [Event.quiet, hends] at he
  · rintro ⟨x, hx, hends⟩
    rcases mem_cons.1 hx with rfl | hx
    · simp [Event.quiet, hends] at he
    · exact h.closed ⟨x, hx, hends⟩
  · intro hp ha x hx
    rcases mem_cons.1 hx with rfl | hx
    · exact hq
    · exact h.idle hp ha x hx

end

/-! ## The match loop -/

theorem mem_left_orderId {l' : List RestingOrder} (h : LeftOf l l')
    (habs : ∀ o ∈ l, o.orderId ≠ id) : ∀ o ∈ l', o.orderId ≠ id := by
  intro o' ho'
  obtain ⟨o, ho, he⟩ := h.mem ho'
  have : o.orderId = o'.orderId := congrArg (·.orderId) he
  exact this ▸ habs o ho

/-- What a run of the match loop, from `r` with a taker for `qty`, has settled so far. -/
structure MatchSettles (r : RefEngine) (t : Taker) (qty : Nat) (s : RefMatch) : Prop where
  nodup : (s.resting.map RestingOrder.orderId).Nodup
  positive : ∀ o ∈ s.resting, 0 < o.remaining
  absent : ∀ o ∈ s.resting, o.orderId ≠ t.orderId
  makers : ∀ id, id ≠ t.orderId →
    Settles id false s.events (remainingOf id r.resting) (remainingOf id s.resting)
  taker : filled t.orderId s.events + s.remaining = qty
  still : ∀ x ∈ s.events, x.ends t.orderId true = false

section
variable {r : RefEngine} {t : Taker} {qty : Nat}

variable {m : RestingOrder}

/-- A maker cancelled to prevent a self-trade releases all that was left of it. -/
theorem settles_cancelled {l : List RestingOrder} (hnd : (l.map RestingOrder.orderId).Nodup)
    (hpos : ∀ o ∈ l, 0 < o.remaining) (hm : m ∈ l) (seq : Nat) (id : OrderId) :
    Settles id false [.cancelled seq m.orderId m.remaining] (remainingOf id l)
      (remainingOf id (without m.orderId l)) := by
  rw [remainingOf_without]
  by_cases hid : id = m.orderId
  · subst hid
    rw [if_pos rfl, remainingOf_mem hnd hm]
    refine ⟨?_, pairwise_singleton _ _, fun _ => rfl, fun _ h0 => ?_⟩
    · simp [filled, released_later, releasedBy, Event.fillQty, Event.releasedQty]
    · have := hpos m hm; omega
  · rw [if_neg hid]
    exact Settles.quiet (by simp [Event.quiet, Event.ends, Event.trades, Ne.symm hid]) _

theorem settles_fill {l : List RestingOrder} (hnd : (l.map RestingOrder.orderId).Nodup)
    (hpos : ∀ o ∈ l, 0 < o.remaining) (hm : m ∈ l) {n : Nat}
    (hle : n ≤ m.remaining) (events : List Event) {id : OrderId} (hid : id ≠ t.orderId) :
    Settles id false [t.fill events m.orderId m.price n] (remainingOf id l)
      (remainingOf id (traded m.orderId n l)) := by
  rw [remainingOf_traded hnd hm hle]
  by_cases hmid : id = m.orderId
  · subst hmid
    rw [if_pos rfl, remainingOf_mem hnd hm]
    refine ⟨?_, pairwise_singleton _ _, ?_, fun _ h0 => ?_⟩
    · simp only [filled, released_later, releasedBy, Taker.fill, map_cons, map_nil,
        Event.fillQty, Event.releasedQty, or_true, if_true, sum_cons, sum_nil]
      omega
    · rintro ⟨x, hx, he⟩
      rw [mem_singleton.1 hx] at he
      simp [Taker.fill, Event.ends] at he
    · have := hpos m hm; omega
  · rw [if_neg hmid]
    exact Settles.quiet
      (by simp [Taker.fill, Event.quiet, Event.ends, Event.trades, Ne.symm hid, Ne.symm hmid]) _

/-- A maker of the list is not the taker, so cancelling it says nothing of the taker. -/
theorem MatchSettles.cancel {s : RefMatch} (h : MatchSettles r t qty s)
    (hm : m ∈ s.resting) (stop : Bool) : MatchSettles r t qty { s with
      resting := without m.orderId s.resting
      events := s.events ++ [.cancelled t.seq m.orderId m.remaining]
      stpCancelledTaker := stop } := by
  have hmt := h.absent m hm
  refine ⟨nodup_without h.nodup, fun o ho => h.positive o (mem_without.1 ho).1,
    fun o ho => h.absent o (mem_without.1 ho).1, fun id hid => ?_, ?_, fun x hx => ?_⟩
  · exact (h.makers id hid).append (settles_cancelled h.nodup h.positive hm t.seq id)
  · have := h.taker
    simp only [filled, map_append, map_cons, map_nil, sum_append,
      sum_cons, sum_nil, Event.fillQty] at this ⊢
    omega
  · rcases mem_append.1 hx with hx | hx
    · exact h.still x hx
    · rw [mem_singleton.1 hx]; simpa [Event.ends] using hmt

theorem MatchSettles.turn {s : RefMatch} (h : MatchSettles r t qty s) :
    MatchSettles r t qty (s.turn t).val := by
  have hturn := s.turns t
  generalize s.turn t = turn at hturn
  cases hturn with
  | done | empty | uncrossed => exact h
  | stopTaker => exact ⟨h.nodup, h.positive, h.absent, h.makers, h.taker, h.still⟩
  | dropMaker m hrem hbest => exact h.cancel (bestOf_mem hbest).1 s.stpCancelledTaker
  | stopBoth m hrem hbest => exact h.cancel (bestOf_mem hbest).1 true
  | trade m hrem hbest hcross hown =>
    have hm := (bestOf_mem hbest).1
    have hmt := h.absent m hm
    refine ⟨nodup_traded h.nodup, positive_traded h.positive,
      mem_left_orderId (leftOf_traded _ _ _) h.absent, fun id hid => ?_, ?_, fun x hx => ?_⟩
    · exact (h.makers id hid).append
        (settles_fill h.nodup h.positive hm (Nat.min_le_right _ _) s.events hid)
    · have := h.taker
      simp only [Turn.val, filled, Taker.fill, map_append, map_cons, map_nil,
        sum_append, sum_cons, sum_nil, Event.fillQty, true_or, if_true] at this ⊢
      omega
    · rcases mem_append.1 hx with hx | hx
      · exact h.still x hx
      · rw [mem_singleton.1 hx]; rfl

theorem RefEngine.matched_settles (hnd : (r.resting.map RestingOrder.orderId).Nodup)
    (hpos : ∀ o ∈ r.resting, 0 < o.remaining) (habs : ∀ o ∈ r.resting, o.orderId ≠ t.orderId)
    (qty : Nat) : MatchSettles r t qty (r.matched t qty) :=
  Lib.loop_induct (P := MatchSettles r t qty) (fun _ h => h.turn) _
    ⟨hnd, hpos, habs, fun id _ => Settles.nil id _, by simp [filled], by simp⟩

end

/-! ## One command -/

/-- The order a command brings in, and its quantity. An amend brings one in only when the order it
replaces rests. -/
def RefEngine.introduces (r : RefEngine) : Command → Option (OrderId × Nat)
  | .place orderId request => some (orderId, request.qty)
  | .amend orderId newOrderId _ qty =>
    if r.resting.any (·.orderId = orderId) then some (newOrderId, qty) else none
  | .cancel _ | .setStatus _ => none

section
variable {r : RefEngine} (hnd : (r.resting.map RestingOrder.orderId).Nodup)
  (hpos : ∀ o ∈ r.resting, 0 < o.remaining)
include hnd hpos

variable {id : OrderId}

/-- A placement settles every other order. -/
theorem place_settles_other (seq : Nat) (timestampMs : Int) (orderId : OrderId)
    (request : OrderRequest) (hid : id ≠ orderId) :
    Settles id false (r.place seq timestampMs orderId request).1 (remainingOf id r.resting)
      (remainingOf id (r.place seq timestampMs orderId request).2.resting) := by
  have hquiet : ∀ {e : Event}, e.quiet id false = true → ∀ {s : RefMatch}, Settles id false s.events
      (remainingOf id r.resting) (remainingOf id s.resting) →
      Settles id false (s.events ++ [e]) (remainingOf id r.resting)
        (remainingOf id s.resting) := fun he _ hs => hs.append (Settles.quiet he _)
  rw [RefEngine.place]
  rcases r.admission_cases seq timestampMs orderId request with ⟨_, he⟩ | he | ⟨limit, he, hadm⟩
  · rw [he]; exact Settles.quiet (by simp [Event.quiet, Event.ends, Event.trades]) _
  · rw [he]
    exact Settles.quiet (by simp [Event.quiet, Event.ends, Event.trades, Ne.symm hid]) _
  rw [he]
  have hs := RefEngine.matched_settles (t := request.taker seq timestampMs orderId limit) hnd hpos
    hadm.absent request.qty
  simp only
  generalize r.matched _ _ = s at hs
  have hm := hs.makers id hid
  have hd := disposed seq orderId request s.events s.remaining s.stpCancelledTaker
  generalize disposition seq orderId request s.events s.remaining s.stpCancelledTaker = d at hd
  cases hd with
  | expired =>
    simpa using hquiet (by simp [Event.quiet, Event.ends, Event.trades, Ne.symm hid]) hm
  | prevented => simpa using hquiet (by simp [Event.quiet, Event.ends, Event.trades]) hm
  | filled => simpa using hquiet (by simp [Event.quiet, Event.ends, Event.trades]) hm
  | rested =>
    have hrest : remainingOf id (s.resting ++ [request.resting seq orderId s.remaining]) =
        remainingOf id s.resting := by
      rw [remainingOf_append hs.absent]; exact if_neg hid
    simpa [hrest] using hquiet (by simp [Event.quiet, Event.ends, Event.trades]) hm

/-- A placement settles the order it places, from all of its quantity. -/
theorem place_settles_own (seq : Nat) (timestampMs : Int) {orderId : OrderId}
    (habs : ∀ o ∈ r.resting, o.orderId ≠ orderId) (request : OrderRequest) :
    Settles orderId true (r.place seq timestampMs orderId request).1 request.qty
      (remainingOf orderId (r.place seq timestampMs orderId request).2.resting) := by
  have habsent : remainingOf orderId r.resting = 0 := remainingOf_absent habs
  rw [RefEngine.place]
  rcases r.admission_cases seq timestampMs orderId request with ⟨_, he⟩ | he | ⟨limit, he, hadm⟩
  · rw [he]
    exact ⟨by simp [filled, released, Event.fillQty, Event.rejects, habsent],
      pairwise_singleton _ _, fun _ => habsent, by simp⟩
  · rw [he]
    exact ⟨by simp [filled, released, releasedBy, Event.fillQty, Event.rejects,
        Event.releasedQty, habsent],
      pairwise_singleton _ _, fun _ => habsent, by simp⟩
  rw [he]
  have hs := RefEngine.matched_settles (t := request.taker seq timestampMs orderId limit) hnd hpos
    hadm.absent request.qty
  simp only
  generalize r.matched _ _ = s at hs
  have hnone : remainingOf orderId s.resting = 0 := remainingOf_absent hs.absent
  have htaker : filled orderId s.events + s.remaining = request.qty := hs.taker
  have hstill : ∀ x ∈ s.events, x.ends orderId true = false := hs.still
  have hrejects : s.events.any (Event.rejects orderId) = false := by
    rw [any_eq_false]
    intro x hx
    have := hstill x hx
    cases x <;> simp_all [Event.rejects, Event.ends]
  have hreleased : releasedBy orderId s.events = 0 := by
    rw [releasedBy, List.sum_eq_zero_iff_forall_eq_nat]
    intro n hn
    obtain ⟨x, hx, rfl⟩ := mem_map.1 hn
    have := hstill x hx
    cases x <;> simp_all [Event.releasedQty, Event.ends]
  -- one more event, about the taker: nothing before it ended the order
  have hlast : ∀ {e : Event} {finish : Nat},
      (e.ends orderId true = true → finish = 0) →
      filled orderId s.events + e.fillQty orderId +
        (if e.rejects orderId then request.qty else e.releasedQty orderId) + finish =
          request.qty → Settles orderId true (s.events ++ [e]) request.qty finish := by
    intro e finish hends hbal
    refine ⟨?_, ?_, ?_, by simp⟩
    · simp only [released, filled_append, releasedBy_append, hreleased, any_append, hrejects,
        any_cons, any_nil, Bool.or_false, Bool.false_or, true_and]
      simpa [filled, releasedBy] using hbal
    · rw [pairwise_append]
      refine ⟨?_, pairwise_singleton _ _, fun x hx y _ he => ?_⟩
      · refine pairwise_of_forall_mem_list fun x hx y _ he => ?_
        rw [hstill x hx] at he; cases he
      · rw [hstill x hx] at he; cases he
    · rintro ⟨x, hx, he⟩
      rcases mem_append.1 hx with hx | hx
      · rw [hstill x hx] at he; cases he
      · rw [mem_singleton.1 hx] at he; exact hends he
  have hd := disposed seq orderId request s.events s.remaining s.stpCancelledTaker
  generalize disposition seq orderId request s.events s.remaining s.stpCancelledTaker = d at hd
  cases hd with
  | expired =>
    simp only [Option.toList_none, append_nil, hnone]
    exact hlast (fun _ => rfl) (by simp [Event.fillQty, Event.rejects, Event.releasedQty, htaker])
  | prevented hstop hfills =>
    simp only [Option.toList_none, append_nil, hnone]
    have : filled orderId s.events = 0 := by
      rw [filled, List.sum_eq_zero_iff_forall_eq_nat]
      intro n hn
      obtain ⟨x, hx, rfl⟩ := mem_map.1 hn
      have := any_eq_false.1 hfills x hx
      cases x <;> simp_all [Event.fillQty, Event.isFill]
    exact hlast (fun _ => rfl) (by simp [Event.fillQty, Event.rejects, this])
  | filled hrem =>
    simp only [Option.toList_none, append_nil, hnone]
    exact hlast (fun _ => rfl) (by simp [Event.fillQty, Event.rejects, Event.releasedQty]; omega)
  | rested hstop hrem =>
    have hrest : remainingOf orderId (s.resting ++ [request.resting seq orderId s.remaining]) =
        s.remaining := by
      rw [remainingOf_append hs.absent]; exact if_pos rfl
    simp only [Option.toList_some, hrest]
    exact hlast (by simp [Event.ends]) (by simp [Event.fillQty, Event.rejects, Event.releasedQty, htaker])

/-- A command settles every order it does not bring in. -/
theorem apply_settles (c : SequencedCommand) (hid : id ∉ c.command.introduced) :
    Settles id false (r.apply c).1 (remainingOf id r.resting)
      (remainingOf id (r.apply c).2.resting) := by
  have hrejected : ∀ (orderId : OrderId) (reason : RejectReason) (a : Nat),
      Settles id false [.rejected c.seq orderId reason] a a := fun orderId reason a =>
    Settles.quiet (by simp [Event.quiet, Event.ends, Event.trades]) a
  have hcancelled : ∀ {o : RestingOrder} {orderId : OrderId},
      r.resting.find? (·.orderId = orderId) = some o →
      Settles id false [.cancelled c.seq orderId o.remaining] (remainingOf id r.resting)
        (remainingOf id (without orderId r.resting)) := by
    intro o orderId hfind
    obtain rfl : o.orderId = orderId := by simpa using find?_some hfind
    exact settles_cancelled hnd hpos (mem_of_find?_eq_some hfind) c.seq id
  unfold RefEngine.apply
  cases hc : c.command with
  | place orderId request =>
    have : id ≠ orderId := by simpa [hc, Command.introduced] using hid
    exact place_settles_other hnd hpos _ _ _ _ this
  | cancel orderId =>
    simp only [RefEngine.cancel]
    cases hfind : r.resting.find? (·.orderId = orderId) with
    | some o => exact hcancelled hfind
    | none => exact hrejected _ _ _
  | amend orderId newOrderId price qty =>
    have hne : id ≠ newOrderId := by simpa [hc, Command.introduced] using hid
    simp only [RefEngine.amend]
    cases hfind : r.resting.find? (·.orderId = orderId) with
    | none => exact hrejected _ _ _
    | some o =>
      exact (hcancelled hfind).append (place_settles_other
        (r := { r with resting := without orderId r.resting }) (nodup_without hnd)
        (fun o ho => hpos o (mem_without.1 ho).1) _ _ _ _ hne)
  | setStatus status => exact Settles.quiet rfl _

/-- A command settles the order it brings in, from all of its quantity. -/
theorem apply_settles_introduced (c : SequencedCommand) {qty : Nat}
    (hintro : r.introduces c.command = some (id, qty)) (habs : ∀ o ∈ r.resting, o.orderId ≠ id) :
    Settles id true (r.apply c).1 qty (remainingOf id (r.apply c).2.resting) := by
  unfold RefEngine.apply
  cases hc : c.command with
  | place orderId request =>
    rw [hc] at hintro
    cases hintro
    exact place_settles_own hnd hpos _ _ habs _
  | cancel | setStatus => rw [hc] at hintro; cases hintro
  | amend orderId newOrderId price qty' =>
    rw [hc] at hintro
    simp only [RefEngine.introduces] at hintro
    split at hintro
    · rename_i hrests
      cases hintro
      obtain ⟨o, hfind⟩ := Option.isSome_iff_exists.1
        ((find?_isSome (p := fun o : RestingOrder => o.orderId = orderId)).2
          (any_eq_true.1 hrests))
      have hne : orderId ≠ id := by
        have := habs o (mem_of_find?_eq_some hfind)
        obtain rfl : o.orderId = orderId := by simpa using find?_some hfind
        exact this
      have hplaced := place_settles_own (r := { r with resting := without orderId r.resting })
        (nodup_without hnd) (fun o ho => hpos o (mem_without.1 ho).1) c.seq c.timestampMs
        (fun o ho => habs o (mem_without.1 ho).1)
        (Engine.replacement o id price qty)
      simp only [RefEngine.amend, hfind]
      exact hplaced.cons_quiet (by simp [Event.quiet, Event.ends, Event.trades, hne]) rfl
        (by simp [Event.quiet, Event.ends, Event.trades, hne])
    · cases hintro

end

/-! ## Whole runs -/

def Engine.introduces (e : Engine) : Command → Option (OrderId × Nat)
  | .place orderId request => some (orderId, request.qty)
  | .amend orderId newOrderId _ qty =>
    if e.book.contains orderId then some (newOrderId, qty) else none
  | .cancel _ | .setStatus _ => none

def OrderBook.remainingOf (b : OrderBook) (id : OrderId) : Nat :=
  ((b.get id).map RestingOrder.remaining).getD 0

variable {used : OrderId → Prop} {e : Engine}

theorem EngineRefines.introduces {r : RefEngine}
    (h : EngineRefines used e r) (c : Command) : e.introduces c = r.introduces c := by
  cases c <;> simp only [Engine.introduces, RefEngine.introduces, h.contains]

variable {b : OrderBook}

theorem Refines.remainingOf (h : Refines used b l) (id : OrderId) :
    b.remainingOf id = AtlasCex.Matching.remainingOf id l := by
  rw [OrderBook.remainingOf, h.index, AtlasCex.Matching.remainingOf]

/-- Commands that never bring an order in settle it from where it was. -/
theorem EngineRefines.run_settles {r : RefEngine}
    (h : EngineRefines used e r) : ∀ {commands : List SequencedCommand},
    FreshIds commands → (∀ id ∈ introducedIds commands, ¬used id) → id ∉ introducedIds commands →
      Settles id false (e.run commands).1.flatten (e.book.remainingOf id)
        ((e.run commands).2.book.remainingOf id) := by
  intro commands hfresh hnew hid
  obtain ⟨hevents, hrel⟩ := h.run hfresh hnew
  rw [hevents, h.book.remainingOf, hrel.book.remainingOf]
  clear hevents hrel
  induction commands using List.reverseRecOn with
  | nil => exact Settles.nil id _
  | append_singleton commands c ih =>
    rw [mem_introducedIds_concat, not_or] at hid
    have hfresh' := hfresh.of_prefix (prefix_append commands [c])
    have hnew' : ∀ id ∈ introducedIds commands, ¬used id := fun id hid =>
      hnew id (mem_introducedIds_concat.2 (.inl hid))
    have hmid := (h.run hfresh' hnew').2.book
    rw [RefEngine.run, Lib.run_concat, flatten_append, flatten_singleton]
    exact (ih hfresh' hnew' hid.1).append (apply_settles hmid.nodup hmid.positive c hid.2)

theorem Refines.get_unused (h : Refines used b l) (hid : ¬used id) : b.get id = none := by
  rw [h.index, find?_eq_none]
  intro o ho he
  exact hid ((by simpa using he : o.orderId = id) ▸ h.known o ho)

theorem Refines.get_of_remainingOf
    (h : Refines used b l) (hzero : b.remainingOf id = 0) : b.get id = none := by
  cases hg : b.get id with
  | none => rfl
  | some o =>
    have := h.positive o (h.of_get hg).1
    simp only [OrderBook.remainingOf, hg, Option.map_some, Option.getD_some] at hzero
    omega

theorem Engine.introduces_mem {c : Command}
    (h : e.introduces c = some (id, qty)) : id ∈ c.introduced := by
  cases c with
  | place => cases h; simp [Command.introduced]
  | amend =>
    simp only [introduces] at h
    split at h
    · cases h; simp [Command.introduced]
    · cases h
  | cancel | setStatus => cases h

/-- A stream without reuse, cut at one of its commands. -/
structure FreshAt (before : List SequencedCommand) (c : SequencedCommand)
    (after : List SequencedCommand) : Prop where
  freshBefore : FreshIds before
  freshAfter : FreshIds after
  here : ∀ id ∈ c.command.introduced, id ∉ introducedIds before
  later : ∀ id ∈ introducedIds after, ¬(id ∈ introducedIds before ∨ id ∈ c.command.introduced)

theorem FreshIds.cut {before after : List SequencedCommand} {c : SequencedCommand}
    (h : FreshIds (before ++ c :: after)) : FreshAt before c after := by
  simp only [FreshIds, introducedIds, flatMap_append, flatMap_cons,
    nodup_append] at h
  obtain ⟨hb, ⟨-, ha, hca⟩, hbc⟩ := h
  refine ⟨hb, ha, fun id hid hid' => ?_, fun id hid hid' => hid'.elim (fun hid' => ?_) fun hid' => ?_⟩
  · exact hbc id hid' id (mem_append.2 (.inl hid)) rfl
  · exact hbc id hid' id (mem_append.2 (.inr hid)) rfl
  · exact hca id hid' id hid rfl

/-- The account of an order of quantity `qty`: the events before its placing command, that
command's own, and those after it; and what is left of it in the book. -/
structure Conserved (id : OrderId) (qty : Nat) (earlier own later : List Event) (left : Nat) :
    Prop where
  /-- Filled, released and resting add up to the whole. -/
  balance : filled id (earlier ++ own ++ later) +
    (if own.any (Event.rejects id) then qty else releasedBy id (earlier ++ own ++ later)) + left = qty
  /-- After the event that ends it, no other ends it and none fills it. -/
  once : (earlier.map (false, ·) ++ own.map (true, ·) ++ later.map (false, ·)).Pairwise
    fun x y => x.2.ends id x.1 = true → y.2.quiet id y.1 = true

/-- Nothing, then the placing command, then whatever follows. -/
theorem Conserved.of_settles {mid left : Nat} {earlier own later : List Event}
    (hearlier : Settles id false earlier 0 0) (hown : Settles id true own qty mid)
    (hlater : Settles id false later mid left) : Conserved id qty earlier own later left := by
  refine ⟨?_, ?_⟩
  · have h₁ := hearlier.balance
    have h₂ := hown.balance
    have h₃ := hlater.balance
    simp only [released_later] at h₁ h₃
    simp only [released, true_and] at h₂
    simp only [filled_append, releasedBy_append]
    by_cases hrej : own.any (Event.rejects id) = true
    · obtain ⟨x, hx, hr⟩ := any_eq_true.1 hrej
      have hmid := hown.closed ⟨x, hx, by cases x <;> simp_all [Event.rejects, Event.ends]⟩
      rw [if_pos hrej] at h₂ ⊢
      omega
    · rw [if_neg hrej] at h₂ ⊢
      omega
  · rw [pairwise_append, pairwise_append]
    have hquiet := hearlier.idle rfl rfl
    refine ⟨⟨?_, ?_, ?_⟩, ?_, ?_⟩
    · exact pairwise_map.2 hearlier.once
    · exact pairwise_map.2 hown.once
    · intro x hx y _ he
      obtain ⟨x', hx', rfl⟩ := mem_map.1 hx
      have := hquiet x' hx'
      simp [Event.quiet, he] at this
    · exact pairwise_map.2 hlater.once
    · intro x hx y hy he
      obtain ⟨y', hy', rfl⟩ := mem_map.1 hy
      rcases mem_append.1 hx with hx | hx
      · obtain ⟨x', hx', rfl⟩ := mem_map.1 hx
        have := hquiet x' hx'
        simp [Event.quiet, he] at this
      · obtain ⟨x', hx', rfl⟩ := mem_map.1 hx
        exact hlater.idle rfl (hown.closed ⟨x', hx', he⟩) y' hy'

/-- **Quantity conservation**: in every run without reused ids, for every command in it and every
order that command brings in, at every later point (`after` is any continuation), filled, released
and resting quantity add up to the order's own, and one event ends it at most, with no fill after
it. An amend of an order that does not rest answers only a rejection of that order, and its
replacement is then never in the book, filled, cancelled or expired. -/
theorem quantity_conserved (market : MarketConfig) (before after : List SequencedCommand)
    (c : SequencedCommand) (hfresh : FreshIds (before ++ c :: after)) :
    let e := ((Engine.new market).run before).2
    let earlier := ((Engine.new market).run before).1.flatten
    let own := (e.apply c).1
    let later := ((e.apply c).2.run after).1.flatten
    let book := ((e.apply c).2.run after).2.book
    (∀ id qty, e.introduces c.command = some (id, qty) →
      Conserved id qty earlier own later (book.remainingOf id)) ∧
    (∀ orderId newOrderId price qty, c.command = .amend orderId newOrderId price qty →
      e.book.contains orderId = false →
        own = [.rejected c.seq orderId .unknownOrder] ∧ book.get newOrderId = none ∧
          ∀ x ∈ earlier ++ own ++ later, x.quiet newOrderId false = true) := by
  intro e earlier own later book
  have hcut := hfresh.cut
  have hbefore := (run_refines market hcut.freshBefore prefix_rfl).2
  obtain ⟨hevents, hafter⟩ := hbefore.apply c hcut.here
  have hlater : ∀ {id}, id ∈ c.command.introduced →
      Settles id false later ((e.apply c).2.book.remainingOf id) (book.remainingOf id) :=
    fun {id} hid => hafter.run_settles hcut.freshAfter hcut.later fun h => hcut.later id h (.inr hid)
  have hearlier : ∀ {id}, id ∈ c.command.introduced → Settles id false earlier 0 0 := by
    intro id hid
    have hzero : e.book.remainingOf id = 0 := by
      rw [OrderBook.remainingOf, hbefore.book.get_unused (hcut.here id hid)]; rfl
    have := (EngineRefines.new market).run_settles hcut.freshBefore (fun _ _ => not_false)
      (hcut.here id hid)
    rwa [hzero] at this
  constructor
  · intro id qty hintro
    have hid := Engine.introduces_mem hintro
    have habs : ∀ o ∈ ((RefEngine.new market).run before).2.resting, o.orderId ≠ id :=
      fun o ho he => hcut.here id hid (he ▸ hbefore.book.known o ho)
    have hown := apply_settles_introduced hbefore.book.nodup hbefore.book.positive c
      (hbefore.introduces c.command ▸ hintro) habs
    rw [← hevents, ← hafter.book.remainingOf] at hown
    exact Conserved.of_settles (hearlier hid) hown (hlater hid)
  · intro orderId newOrderId price qty hc hrests
    have hid : newOrderId ∈ c.command.introduced := by simp [hc, Command.introduced]
    have hremove : e.book.remove orderId = (none, e.book) := by
      rw [OrderBook.contains_eq, Option.isSome_eq_false_iff, Option.isNone_iff_eq_none] at hrests
      rw [OrderBook.remove, hrests]
    have happly : e.apply c =
        ([.rejected c.seq orderId .unknownOrder], { e with lastSeq := c.seq }) := by
      simp only [Engine.apply, hc, Engine.amend, hremove]
    have hzero : (e.apply c).2.book.remainingOf newOrderId = 0 := by
      rw [happly, OrderBook.remainingOf, hbefore.book.get_unused (hcut.here _ hid)]; rfl
    have hsettles := hlater hid
    rw [hzero] at hsettles
    have hrejected : own = [.rejected c.seq orderId .unknownOrder] := congrArg Prod.fst happly
    refine ⟨hrejected, ?_, fun x hx => ?_⟩
    · have hend := (hafter.run hcut.freshAfter hcut.later).2.book
      have hleft : book.remainingOf newOrderId = 0 := by have := hsettles.balance; omega
      exact hend.get_of_remainingOf hleft
    · rcases mem_append.1 hx with hx | hx
      · rcases mem_append.1 hx with hx | hx
        · exact (hearlier hid).idle rfl rfl x hx
        · rw [hrejected] at hx
          rw [mem_singleton.1 hx]; rfl
      · exact hsettles.idle rfl rfl x hx

/-- The second ask of the sample, cut at its placement: one fill, the rest cancelled by the amend. -/
theorem quantity_conserved_sample :
    FreshIds (sampleStream.take 1 ++ ⟨2, 0, .place "b" (sampleOrder "bob" .sell .gtc 1000 3000000000)⟩ ::
      sampleStream.drop 2) ∧
    ∃ earlier own later, filled "b" (earlier ++ own ++ later) = 1000000000 ∧
      releasedBy "b" (earlier ++ own ++ later) = 2000000000 ∧
      Conserved "b" 3000000000 earlier own later 0 := by
  refine ⟨by decide, ((Engine.new sampleMarket).run (sampleStream.take 1)).1.flatten, _, _, ?_, ?_,
    (quantity_conserved sampleMarket (sampleStream.take 1) (sampleStream.drop 2)
      ⟨2, 0, .place "b" (sampleOrder "bob" .sell .gtc 1000 3000000000)⟩ (by decide)).1
      "b" 3000000000 rfl⟩
  · decide +kernel
  · decide +kernel

end AtlasCex.Matching

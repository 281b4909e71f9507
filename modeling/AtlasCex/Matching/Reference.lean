import AtlasCex.Matching.Engine
/-!
# The reference engine

What the matching engine is for, stated without its data structures: the resting orders are one
plain list in arrival order, an order that is cancelled or filled leaves the list at once, and a
taker trades against the live order of the opposite side with the best price and, within a price,
the smallest position in the list. Mathlib's `List.argmin` and `List.argmax` return the first
element that attains the extremum, which is price-time priority.

The rules a placement is judged by (`validateRequest`, `collarLimit`, `crosses`, `disposition`)
are the engine's own. A fill-or-kill order is killed exactly when matching it would leave a rest:
there is no separate dry run here, so refining this engine says the dry run of `fillable_qty` and
the match loop agree.
-/
namespace AtlasCex.Matching
open Lib (Turn)

/-- The best-priced, earliest-arrived order of a side. -/
def bestOf (side : Side) (resting : List RestingOrder) : Option RestingOrder :=
  let own := resting.filter (·.side = side)
  match side with
  | .buy => own.argmax RestingOrder.price
  | .sell => own.argmin RestingOrder.price

/-- Take the order with this id out of the list. -/
def without (orderId : OrderId) (resting : List RestingOrder) : List RestingOrder :=
  resting.filter (·.orderId ≠ orderId)

/-- Trade `qty` against the order with this id: it leaves when nothing of it remains. -/
def traded (orderId : OrderId) (qty : Nat) (resting : List RestingOrder) : List RestingOrder :=
  (resting.map fun o => if o.orderId = orderId then { o with remaining := o.remaining - qty } else o).filter
    (fun o => o.orderId ≠ orderId ∨ o.remaining ≠ 0)

structure RefEngine where
  market : MarketConfig
  /-- In arrival order. -/
  resting : List RestingOrder
  lastTradePrice : Option Nat

structure RefMatch where
  resting : List RestingOrder
  lastTradePrice : Option Nat
  events : List Event
  remaining : Nat
  stpCancelledTaker : Bool

def RefMatch.turn (t : Taker) (s : RefMatch) : Turn RefMatch :=
  if s.remaining = 0 then .stop s
  else
    match bestOf t.side.opposite s.resting with
    | none => .stop s
    | some maker =>
      if !crosses t.side t.limit maker.price then .stop s
      else if maker.accountId = t.accountId then
        match t.stpMode with
        | .cancelTaker => .stop { s with stpCancelledTaker := true }
        | .cancelMaker => .again { s with
            resting := without maker.orderId s.resting
            events := s.events ++ [.cancelled t.seq maker.orderId maker.remaining] }
        | .cancelBoth => .stop { s with
            resting := without maker.orderId s.resting
            events := s.events ++ [.cancelled t.seq maker.orderId maker.remaining]
            stpCancelledTaker := true }
      else
        let qty := min s.remaining maker.remaining
        .again { s with
          resting := traded maker.orderId qty s.resting
          lastTradePrice := some maker.price
          remaining := s.remaining - qty
          events := s.events ++ [t.fill s.events maker.orderId maker.price qty] }

/-- Everything a turn can do, with what it found. -/
inductive RefMatch.Turns (t : Taker) (s : RefMatch) : Turn RefMatch → Prop where
  | done (hrem : s.remaining = 0) : Turns t s (.stop s)
  | empty (hrem : s.remaining ≠ 0) (hbest : bestOf t.side.opposite s.resting = none) :
    Turns t s (.stop s)
  | uncrossed (m : RestingOrder) (hrem : s.remaining ≠ 0)
    (hbest : bestOf t.side.opposite s.resting = some m)
    (hcross : crosses t.side t.limit m.price = false) : Turns t s (.stop s)
  | stopTaker (m : RestingOrder) (hrem : s.remaining ≠ 0)
    (hbest : bestOf t.side.opposite s.resting = some m)
    (hcross : crosses t.side t.limit m.price = true) (hown : m.accountId = t.accountId)
    (hmode : t.stpMode = .cancelTaker) : Turns t s (.stop { s with stpCancelledTaker := true })
  | dropMaker (m : RestingOrder) (hrem : s.remaining ≠ 0)
    (hbest : bestOf t.side.opposite s.resting = some m)
    (hcross : crosses t.side t.limit m.price = true) (hown : m.accountId = t.accountId)
    (hmode : t.stpMode = .cancelMaker) : Turns t s (.again { s with
      resting := without m.orderId s.resting
      events := s.events ++ [.cancelled t.seq m.orderId m.remaining] })
  | stopBoth (m : RestingOrder) (hrem : s.remaining ≠ 0)
    (hbest : bestOf t.side.opposite s.resting = some m)
    (hcross : crosses t.side t.limit m.price = true) (hown : m.accountId = t.accountId)
    (hmode : t.stpMode = .cancelBoth) : Turns t s (.stop { s with
      resting := without m.orderId s.resting
      events := s.events ++ [.cancelled t.seq m.orderId m.remaining]
      stpCancelledTaker := true })
  | trade (m : RestingOrder) (hrem : s.remaining ≠ 0)
    (hbest : bestOf t.side.opposite s.resting = some m)
    (hcross : crosses t.side t.limit m.price = true) (hown : m.accountId ≠ t.accountId) :
    Turns t s (.again { s with
      resting := traded m.orderId (min s.remaining m.remaining) s.resting
      lastTradePrice := some m.price
      remaining := s.remaining - min s.remaining m.remaining
      events := s.events ++
        [t.fill s.events m.orderId m.price (min s.remaining m.remaining)] })

theorem RefMatch.turns (t : Taker) (s : RefMatch) : s.Turns t (s.turn t) := by
  unfold turn
  by_cases hrem : s.remaining = 0
  · rw [if_pos hrem]; exact .done hrem
  rw [if_neg hrem]
  cases hbest : bestOf t.side.opposite s.resting with
  | none => exact .empty hrem hbest
  | some m =>
    cases hcross : crosses t.side t.limit m.price with
    | false => simpa [hcross] using .uncrossed m hrem hbest hcross
    | true =>
      by_cases hown : m.accountId = t.accountId
      · cases hmode : t.stpMode with
        | cancelTaker => simpa [hcross, hown] using .stopTaker m hrem hbest hcross hown hmode
        | cancelMaker => simpa [hcross, hown] using .dropMaker m hrem hbest hcross hown hmode
        | cancelBoth => simpa [hcross, hown] using .stopBoth m hrem hbest hcross hown hmode
      · simpa [hcross, hown] using .trade m hrem hbest hcross hown

namespace RefEngine

def new (market : MarketConfig) : RefEngine := ⟨market, [], none⟩

/-- Last trade, then the mid of a two-sided quote, then nothing. -/
def referencePrice (r : RefEngine) : Option Nat :=
  match r.lastTradePrice with
  | some last => some last
  | none =>
    match bestOf .buy r.resting, bestOf .sell r.resting with
    | some bid, some ask => some ((bid.price + ask.price) / 2)
    | _, _ => none

/-- Match a taker until it is filled, stopped, or nothing it may take is left. -/
def matched (r : RefEngine) (t : Taker) (qty : Nat) : RefMatch :=
  Lib.loop (RefMatch.turn t) (r.resting.length + 1) ⟨r.resting, r.lastTradePrice, [], qty, false⟩

/-- The events of a placement that is refused or killed, or the limit it may trade at. -/
def admission (r : RefEngine) (seq : Nat) (timestampMs : Int) (orderId : OrderId)
    (request : OrderRequest) : Except (List Event) (Option Nat) :=
  let reject := fun reason => Except.error [Event.rejected seq orderId reason]
  if r.resting.any (·.orderId = orderId) then reject .duplicateClientOrderId
  else
    match validateRequest r.market r.referencePrice request with
    | some reason => reject reason
    | none =>
      if request.postOnly ∧
          (bestOf request.side.opposite r.resting).any
            (fun o => crosses request.side (some (request.price.getD 0)) o.price) then
        reject .postOnlyWouldCross
      else
        match collarLimit r.market r.referencePrice request with
        | none => reject .noReferencePrice
        | some limit =>
          if request.timeInForce = .fok ∧
              (r.matched (request.taker seq timestampMs orderId limit) request.qty).remaining ≠ 0 then
            .error [.expired seq orderId request.qty]
          else .ok limit

def place (r : RefEngine) (seq : Nat) (timestampMs : Int) (orderId : OrderId)
    (request : OrderRequest) : List Event × RefEngine :=
  match r.admission seq timestampMs orderId request with
  | .error events => (events, r)
  | .ok limit =>
    let s := r.matched (request.taker seq timestampMs orderId limit) request.qty
    let (events, resting) :=
      disposition seq orderId request s.events s.remaining s.stpCancelledTaker
    (events, { r with
      resting := s.resting ++ resting.toList
      lastTradePrice := s.lastTradePrice })

/-- What an admitted placement passed. -/
structure Admitted (r : RefEngine) (orderId : OrderId) (request : OrderRequest)
    (limit : Option Nat) : Prop where
  absent : ∀ o ∈ r.resting, o.orderId ≠ orderId
  valid : validateRequest r.market r.referencePrice request = none
  passive : request.postOnly = true → ∀ o, bestOf request.side.opposite r.resting = some o →
    crosses request.side (some (request.price.getD 0)) o.price = false
  limit : collarLimit r.market r.referencePrice request = some limit

/-- Everything `admission` can say: a rejection, a kill, or a limit. -/
theorem admission_cases (r : RefEngine) (seq : Nat) (timestampMs : Int) (orderId : OrderId)
    (request : OrderRequest) :
    (∃ reason, r.admission seq timestampMs orderId request = .error [.rejected seq orderId reason]) ∨
      r.admission seq timestampMs orderId request = .error [.expired seq orderId request.qty] ∨
      ∃ limit, r.admission seq timestampMs orderId request = .ok limit ∧
        r.Admitted orderId request limit := by
  unfold admission
  by_cases habsent : r.resting.any (·.orderId = orderId) = true
  · exact .inl ⟨.duplicateClientOrderId, by simp only [habsent, if_true]⟩
  cases hvalid : validateRequest r.market r.referencePrice request with
  | some reason => exact .inl ⟨reason, by simp only [habsent, Bool.false_eq_true, if_false]⟩
  | none =>
    by_cases hpost : request.postOnly = true ∧
        (bestOf request.side.opposite r.resting).any
          (fun o => crosses request.side (some (request.price.getD 0)) o.price) = true
    · exact .inl ⟨.postOnlyWouldCross, by
        simp only [habsent, hpost, and_self, Bool.false_eq_true, if_true, if_false]⟩
    cases hlimit : collarLimit r.market r.referencePrice request with
    | none =>
      exact .inl ⟨.noReferencePrice, by simp only [habsent, hpost, Bool.false_eq_true, if_false]⟩
    | some limit =>
      by_cases hkill : request.timeInForce = .fok ∧
          (r.matched (request.taker seq timestampMs orderId limit) request.qty).remaining ≠ 0
      · exact .inr (.inl (by simp only [habsent, hpost, hkill, Bool.false_eq_true, if_false,
          ne_eq, not_false_eq_true, and_self, if_true]))
      · refine .inr (.inr ⟨limit, by simp only [habsent, hpost, hkill, Bool.false_eq_true,
          if_false], ?_, hvalid, ?_, hlimit⟩)
        · simpa using habsent
        · intro hpo o ho
          simpa [hpo, ho] using hpost

def cancel (r : RefEngine) (seq : Nat) (orderId : OrderId) : List Event × RefEngine :=
  match r.resting.find? (·.orderId = orderId) with
  | some order =>
    ([.cancelled seq orderId order.remaining], { r with resting := without orderId r.resting })
  | none => ([.rejected seq orderId .unknownOrder], r)

def amend (r : RefEngine) (seq : Nat) (timestampMs : Int) (orderId newOrderId : OrderId)
    (price : Nat) (qty : Nat) : List Event × RefEngine :=
  match r.resting.find? (·.orderId = orderId) with
  | none => ([.rejected seq orderId .unknownOrder], r)
  | some existing =>
    let (events, r) := { r with resting := without orderId r.resting }.place seq timestampMs
      newOrderId (Engine.replacement existing newOrderId price qty)
    (.cancelled seq orderId existing.remaining :: events, r)

def apply (r : RefEngine) (sequenced : SequencedCommand) : List Event × RefEngine :=
  match sequenced.command with
  | .place orderId request => r.place sequenced.seq sequenced.timestampMs orderId request
  | .cancel orderId => r.cancel sequenced.seq orderId
  | .amend orderId newOrderId price qty =>
    r.amend sequenced.seq sequenced.timestampMs orderId newOrderId price qty
  | .setStatus status =>
    ([.statusChanged sequenced.seq r.market.status status],
      { r with market := { r.market with status } })

def run (r : RefEngine) (commands : List SequencedCommand) : List (List Event) × RefEngine :=
  Lib.run apply r commands

end RefEngine

end AtlasCex.Matching

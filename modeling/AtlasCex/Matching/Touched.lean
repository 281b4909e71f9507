import AtlasCex.Matching.Engine
/-!
# `touched` is written, never read (`book.rs:179-257`)

Two engines that differ only in the levels touched since they were last asked for emit the same
events for every command, and still differ only in that. `PartialEq for OrderBook` says as much of
equality; recovery relies on it of `apply`, since it replays a tail and then drops what that touched.
-/
namespace AtlasCex.Matching
open Lib (Turn)

namespace OrderBook
variable {b b' b'' : OrderBook}

theorem Same.refl (b : OrderBook) : Same b b := ⟨rfl, rfl, rfl, rfl⟩

theorem Same.symm (h : Same b b') : Same b' b :=
  ⟨h.1.symm, h.2.1.symm, h.2.2.1.symm, h.2.2.2.symm⟩

theorem Same.trans (h : Same b b') (h' : Same b' b'') : Same b b'' :=
  ⟨h.1.trans h'.1, h.2.1.trans h'.2.1, h.2.2.1.trans h'.2.2.1, h.2.2.2.trans h'.2.2.2⟩

theorem Same.ladderFor (h : Same b b') : ∀ s, b.ladderFor s = b'.ladderFor s
  | .buy => h.1
  | .sell => h.2.1

theorem Same.get (h : Same b b') (id : OrderId) : b.get id = b'.get id := by
  unfold OrderBook.get; rw [h.2.2.1]

theorem Same.contains (h : Same b b') (id : OrderId) : b.contains id = b'.contains id := by
  unfold OrderBook.contains; rw [h.2.2.1]

theorem Same.openOrderCount (h : Same b b') : b.openOrderCount = b'.openOrderCount := by
  unfold OrderBook.openOrderCount; rw [h.2.2.1]

theorem Same.setLadder (h : Same b b') (l : Ladder) :
    ∀ s, Same (b.setLadder s l) (b'.setLadder s l)
  | .buy => ⟨rfl, h.2⟩
  | .sell => ⟨h.1, rfl, h.2.2⟩

theorem Same.setOrders (h : Same b b') (orders : Std.ExtTreeMap OrderId RestingOrder) :
    Same { b with orders := orders } { b' with orders := orders } :=
  ⟨h.1, h.2.1, rfl, h.2.2.2⟩

theorem Same.touch (h : Same b b') (s : Side) (p : Nat) : Same (b.touch s p) (b'.touch s p) := h

theorem Same.setLastTradePrice (h : Same b b') (p : Nat) :
    Same (b.setLastTradePrice p) (b'.setLastTradePrice p) := ⟨h.1, h.2.1, h.2.2.1, rfl⟩

theorem Same.rest (h : Same b b') (o : RestingOrder) : Same (b.rest o) (b'.rest o) := by
  have h₁ : Same { b with orders := b.orders.insert o.orderId o }
      { b' with orders := b'.orders.insert o.orderId o } := by
    rw [← h.2.2.1]; exact h.setOrders _
  unfold OrderBook.rest
  simp only [← h₁.ladderFor]
  exact (h₁.setLadder _ _).touch _ _

/-- A result and the book it leaves, the book up to what it touched. -/
def SameResult {α : Type} (r r' : α × OrderBook) : Prop := r.1 = r'.1 ∧ Same r.2 r'.2

theorem Same.frontLiveLoop (s : Side) (p : Nat) : ∀ (fuel : Nat) {b b' : OrderBook}, Same b b' →
    SameResult (frontLiveLoop fuel b s p) (frontLiveLoop fuel b' s p)
  | 0, _, _, h => ⟨rfl, h⟩
  | fuel + 1, b, b', h => by
    simp only [OrderBook.frontLiveLoop, ← h.ladderFor, ← h.get]
    cases ((b.ladderFor s).level p).bind (·.queue.head?) with
    | none => exact ⟨rfl, h⟩
    | some front =>
      simp only
      cases b.get front with
      | some o => exact ⟨rfl, h⟩
      | none => exact Same.frontLiveLoop s p fuel (h.setLadder _ s)

theorem Same.frontLive (h : Same b b') (s : Side) (p : Nat) :
    SameResult (b.frontLive s p) (b'.frontLive s p) := by
  unfold OrderBook.frontLive
  rw [← h.ladderFor]
  exact Same.frontLiveLoop s p _ h

theorem Same.consumeFront (h : Same b b') (s : Side) (p qty : Nat) :
    SameResult (b.consumeFront s p qty) (b'.consumeFront s p qty) := by
  have hfront := h.frontLive s p
  unfold OrderBook.consumeFront
  generalize b.frontLive s p = r at hfront
  generalize b'.frontLive s p = r' at hfront
  obtain ⟨o, b₁⟩ := r
  obtain ⟨o', b₁'⟩ := r'
  obtain ⟨rfl, h₁⟩ : o = o' ∧ Same b₁ b₁' := hfront
  cases o with
  | none => exact ⟨rfl, h₁⟩
  | some before =>
    have h₂ : Same ((b₁.setLadder s ((b₁.ladderFor s).reduce p qty)).touch s p)
        ((b₁'.setLadder s ((b₁'.ladderFor s).reduce p qty)).touch s p) := by
      rw [← h₁.ladderFor]; exact (h₁.setLadder _ s).touch s p
    simp only
    generalize (b₁.setLadder s ((b₁.ladderFor s).reduce p qty)).touch s p = b₂ at h₂
    generalize (b₁'.setLadder s ((b₁'.ladderFor s).reduce p qty)).touch s p = b₂' at h₂
    split
    · have h₃ : Same { b₂ with orders := b₂.orders.erase before.orderId }
          { b₂' with orders := b₂'.orders.erase before.orderId } := by
        rw [← h₂.2.2.1]; exact h₂.setOrders _
      refine ⟨rfl, ?_⟩
      simp only [← h₃.ladderFor]
      exact h₃.setLadder _ s
    · simp only [← h₂.get]
      cases b₂.get before.orderId with
      | none => exact ⟨rfl, h₂⟩
      | some o => refine ⟨rfl, ?_⟩; simp only [← h₂.2.2.1]; exact h₂.setOrders _

theorem Same.remove (h : Same b b') (id : OrderId) : SameResult (b.remove id) (b'.remove id) := by
  unfold OrderBook.remove
  rw [← h.get]
  cases b.get id with
  | none => exact ⟨rfl, h⟩
  | some o =>
    have h₁ : Same { b with orders := b.orders.erase id } { b' with orders := b'.orders.erase id } := by
      rw [← h.2.2.1]; exact h.setOrders _
    refine ⟨rfl, ?_⟩
    simp only [← h₁.ladderFor]
    exact (h₁.setLadder _ _).touch _ _

end OrderBook

open OrderBook (Same SameResult)

/-! ## The engine -/

structure MatchSame (s s' : MatchState) : Prop where
  book : Same s.book s'.book
  events : s.events = s'.events
  remaining : s.remaining = s'.remaining
  stop : s.stpCancelledTaker = s'.stpCancelledTaker

theorem matchTurn_same (t : Taker) {s s' : MatchState} (h : MatchSame s s') :
    Turn.Rel MatchSame (matchTurn t s) (matchTurn t s') := by
  obtain ⟨book, events, remaining, stop⟩ := s
  obtain ⟨book', events', remaining', stop'⟩ := s'
  obtain ⟨hbook, rfl, rfl, rfl⟩ : Same book book' ∧ events = events' ∧ remaining = remaining' ∧
    stop = stop' := ⟨h.book, h.events, h.remaining, h.stop⟩
  unfold matchTurn
  by_cases hrem : remaining = 0
  · simp only [hrem, if_true]; exact .stop ⟨hbook, rfl, rfl, rfl⟩
  simp only [hrem, if_false, ← hbook.ladderFor]
  cases (book.ladderFor t.side.opposite).bestPrice with
  | none => exact .stop ⟨hbook, rfl, rfl, rfl⟩
  | some best =>
    simp only
    by_cases hcross : (!crosses t.side t.limit best) = true
    · simp only [hcross, if_true]; exact .stop ⟨hbook, rfl, rfl, rfl⟩
    simp only [hcross, if_false, Bool.false_eq_true]
    have hfront := hbook.frontLive t.side.opposite best
    generalize book.frontLive t.side.opposite best = r at hfront
    generalize book'.frontLive t.side.opposite best = r' at hfront
    obtain ⟨maker, b⟩ := r
    obtain ⟨maker', b'⟩ := r'
    obtain ⟨rfl, hb⟩ : maker = maker' ∧ Same b b' := hfront
    cases maker with
    | none => exact .stop ⟨hb, rfl, rfl, rfl⟩
    | some maker =>
      simp only
      by_cases hown : maker.accountId = t.accountId
      · simp only [hown, if_true]
        have hremove := hb.remove maker.orderId
        generalize b.remove maker.orderId = q at hremove
        generalize b'.remove maker.orderId = q' at hremove
        obtain ⟨removed, c⟩ := q
        obtain ⟨removed', c'⟩ := q'
        obtain ⟨rfl, hc⟩ : removed = removed' ∧ Same c c' := hremove
        cases t.stpMode with
        | cancelTaker => exact .stop ⟨hb, rfl, rfl, rfl⟩
        | cancelMaker => exact .again ⟨hc, rfl, rfl, rfl⟩
        | cancelBoth => exact .stop ⟨hc, rfl, rfl, rfl⟩
      · simp only [hown, if_false]
        have hconsume := hb.consumeFront t.side.opposite best (min remaining maker.remaining)
        exact .again ⟨hconsume.2.setLastTradePrice best, rfl, rfl, rfl⟩

namespace Engine

/-- Equal but for what their books have touched. -/
structure Same (e e' : Engine) : Prop where
  market : e.market = e'.market
  book : e.book.Same e'.book
  lastSeq : e.lastSeq = e'.lastSeq

variable {e e' e'' : Engine}

theorem Same.refl (e : Engine) : Same e e := ⟨rfl, OrderBook.Same.refl _, rfl⟩

theorem Same.symm (h : Same e e') : Same e' e := ⟨h.market.symm, h.book.symm, h.lastSeq.symm⟩

theorem Same.trans (h : Same e e') (h' : Same e' e'') : Same e e'' :=
  ⟨h.market.trans h'.market, h.book.trans h'.book, h.lastSeq.trans h'.lastSeq⟩

theorem Same.referencePrice (h : Same e e') : e.referencePrice = e'.referencePrice := by
  unfold Engine.referencePrice OrderBook.bestBid OrderBook.bestAsk
  rw [h.book.2.2.2, h.book.1, h.book.2.1]

theorem fillableQueue_same {b b' : OrderBook} (h : b.Same b') (accountId : String)
    (stpMode : StpMode) : ∀ (q : List OrderId) (total : Nat),
    fillableQueue b accountId stpMode q total = fillableQueue b' accountId stpMode q total
  | [], _ => rfl
  | id :: q, total => by
    have ih := fillableQueue_same h accountId stpMode q
    simp only [fillableQueue, ← h.get, ih]

theorem fillableLevels_same {b b' : OrderBook} (h : b.Same b') (side : Side)
    (limit : Option Nat) (accountId : String) (stpMode : StpMode) :
    ∀ (levels : List (Nat × Level)) (total : Nat),
    fillableLevels b side limit accountId stpMode levels total =
      fillableLevels b' side limit accountId stpMode levels total
  | [], _ => rfl
  | (price, level) :: levels, total => by
    have ih := fillableLevels_same h side limit accountId stpMode levels
    simp only [fillableLevels, fillableQueue_same h, ih]

theorem Same.admission (h : Same e e') (seq : Nat) (orderId : OrderId) (request : OrderRequest) :
    e.admission seq orderId request = e'.admission seq orderId request := by
  unfold Engine.admission Engine.validate Engine.wouldCross Engine.fillableQty
  simp only [h.book.contains, h.market, h.referencePrice, h.book.ladderFor,
    fillableLevels_same h.book]

theorem Same.place (h : Same e e') (seq : Nat) (timestampMs : Int) (orderId : OrderId)
    (request : OrderRequest) :
    (e.place seq timestampMs orderId request).1 = (e'.place seq timestampMs orderId request).1 ∧
      Same (e.place seq timestampMs orderId request).2
        (e'.place seq timestampMs orderId request).2 := by
  unfold Engine.place
  rw [← h.admission]
  cases e.admission seq orderId request with
  | error events => exact ⟨rfl, h⟩
  | ok limit =>
    have hloop : MatchSame
        (matchLoop (request.taker seq timestampMs orderId limit) (e.book.openOrderCount + 1)
          ⟨e.book, [], request.qty, false⟩)
        (matchLoop (request.taker seq timestampMs orderId limit) (e'.book.openOrderCount + 1)
          ⟨e'.book, [], request.qty, false⟩) := by
      rw [← h.book.openOrderCount]
      exact Lib.loop_sim (fun _ _ => matchTurn_same _) _ ⟨h.book, rfl, rfl, rfl⟩
    simp only
    generalize matchLoop _ _ ⟨e.book, _, _, _⟩ = s at hloop
    generalize matchLoop _ _ ⟨e'.book, _, _, _⟩ = s' at hloop
    simp only [← hloop.events, ← hloop.remaining, ← hloop.stop]
    refine ⟨trivial, h.market, ?_, h.lastSeq⟩
    cases (disposition seq orderId request s.events s.remaining s.stpCancelledTaker).2 with
    | none => exact hloop.book
    | some o => exact hloop.book.rest o

/-- **One command**: the same events, whatever had been touched before it. -/
theorem Same.apply (h : Same e e') (c : SequencedCommand) :
    (e.apply c).1 = (e'.apply c).1 ∧ Same (e.apply c).2 (e'.apply c).2 := by
  have h₀ : Same { e with lastSeq := c.seq } { e' with lastSeq := c.seq } :=
    ⟨h.market, h.book, rfl⟩
  unfold Engine.apply
  cases c.command with
  | place orderId request => exact h₀.place _ _ _ _
  | setStatus status =>
    refine ⟨?_, ?_, h.book, rfl⟩ <;> simp only [setStatusCommand, h.market]
  | cancel orderId =>
    simp only [Engine.cancel]
    have hremove := h.book.remove orderId
    generalize e.book.remove orderId = q at hremove
    generalize e'.book.remove orderId = q' at hremove
    obtain ⟨removed, b⟩ := q
    obtain ⟨removed', b'⟩ := q'
    obtain ⟨rfl, hb⟩ : removed = removed' ∧ b.Same b' := hremove
    cases removed with
    | none => exact ⟨rfl, h.market, hb, rfl⟩
    | some o => exact ⟨rfl, h.market, hb, rfl⟩
  | amend orderId newOrderId price qty =>
    simp only [Engine.amend]
    have hremove := h.book.remove orderId
    generalize e.book.remove orderId = q at hremove
    generalize e'.book.remove orderId = q' at hremove
    obtain ⟨removed, b⟩ := q
    obtain ⟨removed', b'⟩ := q'
    obtain ⟨rfl, hb⟩ : removed = removed' ∧ b.Same b' := hremove
    cases removed with
    | none => exact ⟨rfl, h.market, hb, rfl⟩
    | some o =>
      have hbook : Same ⟨e.market, b, c.seq⟩ ⟨e'.market, b', c.seq⟩ := ⟨h.market, hb, rfl⟩
      obtain ⟨hevents, hplaced⟩ := hbook.place c.seq c.timestampMs newOrderId
        (replacement o newOrderId price qty)
      exact ⟨by simp only [hevents], hplaced⟩

theorem Same.run (h : Same e e') (commands : List SequencedCommand) :
    (e.run commands).1 = (e'.run commands).1 ∧ Same (e.run commands).2 (e'.run commands).2 :=
  Lib.run_sim (R := fun _ => Same) h (fun _ c _ _ _ h => h.apply c) commands List.prefix_rfl

/-- Dropping what was touched. -/
def clear (e : Engine) : Engine := e.takeLevelChanges.2

theorem same_clear (e : Engine) : Same e.clear e := ⟨rfl, ⟨rfl, rfl, rfl, rfl⟩, rfl⟩

/-- Two engines that differ only in what they touched are one once it is dropped. -/
theorem Same.clear_eq (h : Same e e') : e.clear = e'.clear := by
  obtain ⟨m, ⟨bids, asks, orders, ltp, touched⟩, n⟩ := e
  obtain ⟨m', ⟨bids', asks', orders', ltp', touched'⟩, n'⟩ := e'
  obtain ⟨rfl, ⟨rfl, rfl, rfl, rfl⟩, rfl⟩ := h
  rfl

end Engine

end AtlasCex.Matching

import AtlasCex.Trading.Holds
import Mathlib.Algebra.Order.BigOperators.Group.List
/-!
# Orders and ledger agree after every transaction

Each transaction is taken apart once (`transition_ok`, `settleSide_ok`, `finish_ok`) into the moves
of `Trading.Holds`, so each keeps the invariant. Nothing is assumed of the order in which events
arrive, of who sends them, or of the rates a fill is charged at: every amount is checked against
the books by the transaction that uses it.
-/
namespace AtlasCex.Trading

open List
open Ledger (UserId AssetKey LedgerTransaction balance userOrderLocked userTradingAvailable)
open EngineStream (EventKey)
open Matching (OrderId Side)
open Lib (refuse require bind_eq_ok pure_eq_ok refuse_eq_ok require_eq_ok map_eq_ok
  mapError_eq_ok)

variable {books books' : Books} {o o' : Order}

/-! ## What each transaction does to a row -/

variable {target : OrderStatus}

theorem OrderStatus.holds_of_transition {source : OrderStatus}
    (h : source.canOrderTransition target = true) : source.orderHoldsFunds = true := by
  cases source <;> simp [canOrderTransition, transitions, orderHoldsFunds] at h ⊢

/-- A patch that leaves `filled_qty` alone. -/
theorem Recorded.patched {patch : OrderPatch} (hlive : o.status.orderHoldsFunds = true)
    (hpatch : patch.filledQty = none) (status : OrderStatus) :
    Recorded o 0 (patch.apply { o with status := status }) where
  live := hlive
  same := ⟨rfl, rfl, rfl, rfl, rfl, rfl⟩
  filled := by simp [OrderPatch.apply, hpatch]
  within := by simp [OrderPatch.apply, hpatch]

/-- A guarded transition moves the row it finds in `source`, or nothing. -/
theorem Books.transition_ok {id : OrderId} {source : OrderStatus} {patch : OrderPatch}
    {result : Option (Order × Books)} (h : books.transition id source target patch = .ok result) :
    source.orderHoldsFunds = true ∧ (result = none ∨ ∃ o ∈ books.orders, o.id = id ∧
      o.status = source ∧ result = some (patch.apply { o with status := target },
        books.replace (patch.apply { o with status := target }))) := by
  simp only [transition, bind_eq_ok, refuse_eq_ok, Bool.not_eq_false] at h
  obtain ⟨-, hlegal, h⟩ := h
  refine ⟨OrderStatus.holds_of_transition hlegal, ?_⟩
  split at h
  · exact .inl (pure_eq_ok.1 h).symm
  · rename_i o hfind
    have hrow := find?_some hfind
    simp only [Bool.and_eq_true, decide_eq_true_eq] at hrow
    exact .inr ⟨o, mem_of_find?_eq_some hfind, hrow.1, hrow.2, (pure_eq_ok.1 h).symm⟩

variable {key : EventKey}

theorem attemptFill_ok {traded : Int} (hnd : (books.orders.map (·.id)).Nodup)
    (ho : o ∈ books.orders) (h : attemptFill books o traded key = .ok (some (o', books'))) :
    Recorded o traded o' ∧ (o'.status.orderHoldsFunds = true ∨ o'.status = .filled) ∧
      books' = books.replace o' := by
  simp only [attemptFill, bind_eq_ok, refuse_eq_ok] at h
  obtain ⟨-, hwithin, h⟩ := h
  -- the row a transition finds under the order's id is the order
  have hmove : ∀ {target : OrderStatus} {patch : OrderPatch},
      target.orderHoldsFunds = true ∨ target = .filled →
      patch.filledQty = some (o.filledQty + traded) →
      books.transition o.id o.status target patch = .ok (some (o', books')) →
      Recorded o traded o' ∧ (o'.status.orderHoldsFunds = true ∨ o'.status = .filled) ∧
        books' = books.replace o' := by
    intro target patch htarget hpatch hmoved
    obtain ⟨hlive, hcase⟩ := Books.transition_ok hmoved
    rcases hcase with hcase | ⟨x, hx, hid, -, heq⟩
    · cases hcase
    obtain rfl := Books.eq_of_id hnd hx ho hid
    cases heq
    refine ⟨⟨hlive, ⟨rfl, rfl, rfl, rfl, rfl, rfl⟩, ?_, fun _ => ?_⟩, htarget, rfl⟩
    · simp [OrderPatch.apply, hpatch]
    · simpa [OrderPatch.apply, hpatch] using hwithin
  have hpatched : o.status.orderHoldsFunds = true →
      books.recordFill o.id o.status (o.filledQty + traded) = some (o', books') →
      Recorded o traded o' ∧ (o'.status.orderHoldsFunds = true ∨ o'.status = .filled) ∧
        books' = books.replace o' := by
    intro hlive hpatched
    rw [Books.recordFill, Option.map_eq_some_iff] at hpatched
    obtain ⟨x, hfind, heq⟩ := hpatched
    have hrow := find?_some hfind
    simp only [Bool.and_eq_true, decide_eq_true_eq] at hrow
    obtain rfl := Books.eq_of_id hnd (mem_of_find?_eq_some hfind) ho hrow.1.1
    cases heq
    exact ⟨⟨hlive, ⟨rfl, rfl, rfl, rfl, rfl, rfl⟩, rfl, fun _ => by simpa using hwithin⟩, .inl hlive, rfl⟩
  have hdone : ∀ complete : Bool, (if complete = true then OrderStatus.filled
      else .partiallyFilled).orderHoldsFunds = true ∨
      (if complete = true then OrderStatus.filled else .partiallyFilled) = .filled := by decide
  split at h
  · exact hmove (hdone _) rfl h
  · exact hmove (hdone _) rfl h
  · rename_i hstatus
    split at h
    · exact hmove (.inr rfl) rfl h
    · exact hpatched (hstatus ▸ rfl) (pure_eq_ok.1 h)
  · rename_i hstatus
    split at h
    · exact hmove (.inr rfl) rfl h
    · exact hpatched (hstatus ▸ rfl) (pure_eq_ok.1 h)
  · cases h

/-- A re-read of the order finds the same row, so every attempt is the first. -/
theorem recordFill_ok {traded : Int} (hnd : (books.orders.map (·.id)).Nodup) :
    ∀ {attempts : Nat} {o : Order}, o ∈ books.orders →
      recordFill books o traded key attempts = .ok (o', books') →
      Recorded o traded o' ∧ (o'.status.orderHoldsFunds = true ∨ o'.status = .filled) ∧
        books' = books.replace o'
  | 0, _, _, h => by cases h
  | attempts + 1, o, ho, h => by
    rw [recordFill, bind_eq_ok] at h
    obtain ⟨result, hattempt, h⟩ := h
    cases result with
    | some moved =>
      obtain rfl := pure_eq_ok.1 h
      exact attemptFill_ok hnd ho hattempt
    | none =>
      simp only [bind_eq_ok, require_eq_ok] at h
      obtain ⟨current, hcurrent, h⟩ := h
      obtain ⟨hmem, hid⟩ := Books.findById_mem hcurrent
      obtain rfl := Books.eq_of_id hnd hmem ho hid
      exact recordFill_ok hnd hmem h

variable {qty : Int}

theorem settleSide_ok (hnd : (books.orders.map (·.id)).Nodup)
    (ho : o ∈ books.orders) (h : settleSide books o qty key = .ok books') :
    ∃ o', Recorded o qty o' ∧ Follows books o' books' := by
  rw [settleSide, bind_eq_ok] at h
  obtain ⟨⟨o', after⟩, hrecord, h⟩ := h
  obtain ⟨hrecorded, hstatus, rfl⟩ := recordFill_ok hnd ho hrecord
  refine ⟨o', hrecorded, ?_⟩
  by_cases hfilled : o'.status = .filled
  · simp only [hfilled, if_true] at h
    exact .inr ⟨hfilled ▸ rfl, _, h⟩
  · simp only [hfilled, if_false, pure_eq_ok] at h
    exact .inl ⟨hstatus.resolve_right hfilled, h.symm⟩

/-- A disposition finishes the order, or found it finished that way. -/
theorem finish_ok {allowedFrom : List OrderStatus}
    {rejectReason : Option String} (hnd : (books.orders.map (·.id)).Nodup) :
    ∀ {attempts : Nat} {o : Order} {result : Option Books}, o ∈ books.orders →
      finish books o allowedFrom target rejectReason attempts = .ok result →
      result = none ∨ ∃ o' books', Recorded o 0 o' ∧ o'.status = target ∧ result = some books' ∧
        releaseOutstanding (books.replace o') o' false = .ok books'
  | 0, _, _, _, h => by cases h
  | attempts + 1, o, result, ho, h => by
    rw [finish] at h
    split at h
    · exact .inl (pure_eq_ok.1 h).symm
    simp only [bind_eq_ok, refuse_eq_ok] at h
    obtain ⟨-, -, moved, hmoved, h⟩ := h
    obtain ⟨hlive, rfl | ⟨x, hx, hid, hstatus, rfl⟩⟩ := Books.transition_ok hmoved
    · simp only [bind_eq_ok, require_eq_ok] at h
      obtain ⟨current, hcurrent, h⟩ := h
      obtain ⟨hmem, hid⟩ := Books.findById_mem hcurrent
      obtain rfl := Books.eq_of_id hnd hmem ho hid
      exact finish_ok hnd hmem h
    · obtain rfl := Books.eq_of_id hnd hx ho hid
      obtain ⟨after, hrelease, rfl⟩ := map_eq_ok.1 h
      exact .inr ⟨_, after, .patched hlive rfl target, rfl, rfl, hrelease⟩

/-! ## Every transaction keeps the invariant -/

namespace Sound

variable {pending pending' : OrderId → Int}

/-- A side's row takes its fill up. -/
theorem settleSide {qty : Int} {key : EventKey} (h : Sound books pending) (ho : o ∈ books.orders)
    (hpending : pending o.id = qty) (hdone : pending' o.id = 0)
    (hother : ∀ id, id ≠ o.id → pending' id = pending id)
    (hside : settleSide books o qty key = .ok books') : Sound books' pending' := by
  obtain ⟨o', hrecorded, hnext⟩ := settleSide_ok h.nodup ho hside
  exact h.moves ho hrecorded hnext (by rw [hdone, hpending, Int.zero_add]) hother

theorem dispose {allowedFrom : List OrderStatus} {target : OrderStatus}
    {rejectReason : Option String} (h : Sound books pending) (ho : o ∈ books.orders)
    (hdone : target.isTerminalOrder = true)
    (hdispose : dispose books o allowedFrom target rejectReason = .ok books') :
    Sound books' pending := by
  simp only [Trading.dispose, bind_eq_ok, pure_eq_ok] at hdispose
  obtain ⟨result, hfinish, -, -, rfl⟩ := hdispose
  rcases finish_ok h.nodup ho hfinish with rfl | ⟨o', after, hrecorded, rfl, rfl, hrel⟩
  · exact h
  · exact h.unchanged ho hrecorded (.inr ⟨hdone, _, hrel⟩)

theorem moveResting {id : OrderId} {move : Resting} (h : Sound books pending)
    (hmove : moveResting books id move = .ok books') : Sound books' pending := by
  rw [Trading.moveResting, bind_eq_ok] at hmove
  obtain ⟨result, hmoved, hmove⟩ := hmove
  obtain ⟨hlive, rfl | ⟨x, hx, -, hstatus, rfl⟩⟩ := Books.transition_ok hmoved
  · obtain rfl := pure_eq_ok.1 hmove
    exact h
  · obtain rfl := pure_eq_ok.1 hmove
    refine h.unchanged hx (.patched (hstatus ▸ hlive) ?_ _) (.inl ⟨?_, rfl⟩) <;> cases move <;> rfl

theorem finalizeUnfilled {id : OrderId} {how : Unfilled} (h : Sound books pending)
    (hfinal : finalizeUnfilled books id how = .ok books') : Sound books' pending := by
  rw [Trading.finalizeUnfilled, bind_eq_ok] at hfinal
  obtain ⟨result, hmoved, hfinal⟩ := hfinal
  obtain ⟨hlive, rfl | ⟨x, hx, -, hstatus, rfl⟩⟩ := Books.transition_ok hmoved
  · obtain rfl := pure_eq_ok.1 hfinal
    exact h
  · refine h.unchanged hx (.patched (hstatus ▸ hlive) ?_ _) (.inr ⟨?_, _, hfinal⟩) <;> cases how <;> rfl

theorem createWithHold {order : Order} (h : Sound books fun _ => 0)
    (hcreate : createWithHold books order = .ok books') : Sound books' fun _ => 0 := by
  rw [Trading.createWithHold, bind_eq_ok] at hcreate
  obtain ⟨result, hpending, hcreate⟩ := hcreate
  rw [Books.createPending] at hpending
  split at hpending
  · obtain rfl := pure_eq_ok.1 hpending
    obtain rfl := pure_eq_ok.1 hcreate
    exact h
  · simp only [bind_eq_ok, refuse_eq_ok, pure_eq_ok] at hpending
    obtain ⟨-, hnew, -, hqty, -, hamount, rfl⟩ := hpending
    simp only [bind_eq_ok, refuse_eq_ok, mapError_eq_ok, pure_eq_ok, Ledger.postOrderHold]
      at hcreate
    obtain ⟨-, hfunds, t, ⟨-, -, hbuild⟩, rfl⟩ := hcreate
    rw [Ledger.buildTransaction_eq hbuild]
    have hid : order.id ∉ books.orders.map (·.id) := by
      intro hmem
      obtain ⟨x, hx, heq⟩ := mem_map.1 hmem
      refine hnew ?_
      rw [Books.findById, find?_isSome]
      exact ⟨x, hx, by simpa using heq⟩
    exact h.place hid rfl rfl (by simpa using hqty) (by simpa using hamount) (by simpa using hfunds)

end Sound

/-! ## Fills -/

theorem load_ok {id : OrderId} {market : SettlementMarket} (h : load books id market = .ok o) :
    o ∈ books.orders ∧ o.id = id := by
  simp only [load, bind_eq_ok, require_eq_ok, refuse_eq_ok, pure_eq_ok] at h
  obtain ⟨x, hfind, -, -, rfl⟩ := h
  exact Books.findById_mem hfind

theorem insertFill_ok {fill : Fill} (h : books.insertFill fill = .ok (some books')) :
    fill.takerOrderId ≠ fill.makerOrderId ∧
      books' = { books with fills := books.fills ++ [fill] } := by
  rw [Books.insertFill] at h
  split at h
  · cases h
  · simp only [bind_eq_ok, refuse_eq_ok, pure_eq_ok, Option.some.injEq] at h
    obtain ⟨-, -, -, -, -, hdistinct, rfl⟩ := h
    exact ⟨hdistinct, rfl⟩

theorem postTradeSettlement_ok {input : Ledger.TradeSettlementPosting} {t : LedgerTransaction}
    (h : Ledger.postTradeSettlement input = .ok t) :
    0 < input.qty ∧ input.sellerFee ≤ input.notional ∧ t = tradeOf input := by
  simp only [Ledger.postTradeSettlement, Ledger.requirePositive, bind_eq_ok, refuse_eq_ok] at h
  obtain ⟨-, hqty, -, -, -, -, -, -, -, hfee, -, -, hbuild⟩ := h
  exact ⟨by omega, by omega, Ledger.buildTransaction_eq hbuild⟩

theorem fillAmounts_ok {price takerBps makerBps : Int} {takerSide : Side} {a : FillAmounts}
    (h : fillAmounts price qty takerSide takerBps makerBps = .ok a) :
    a.buyerFee = if takerSide = .buy then a.takerFee else a.makerFee := by
  simp only [fillAmounts, bind_eq_ok, refuse_eq_ok, pure_eq_ok] at h
  obtain ⟨-, -, -, -, _, -, _, -, _, -, rfl⟩ := h
  rfl

theorem checkConsumption_ok {u : Unit} (hnd : (books.orders.map (·.id)).Nodup)
    (ho : o ∈ books.orders) (h : checkConsumption books o = .ok u) : 0 ≤ books.outstanding o := by
  simp only [checkConsumption, bind_eq_ok, require_eq_ok, refuse_eq_ok] at h
  obtain ⟨amount, hamount, hnonneg⟩ := h
  rw [Books.outstandingHold, Option.map_eq_some_iff] at hamount
  obtain ⟨x, hfind, rfl⟩ := hamount
  obtain ⟨hx, hid⟩ := Books.findById_mem hfind
  obtain rfl := Books.eq_of_id hnd hx ho hid
  omega

theorem Books.mem_of_replaced {x : Order} (h : books'.orders = (books.replace o').orders)
    (hx : x ∈ books.orders) (hne : x.id ≠ o'.id) : x ∈ books'.orders := by
  rw [h]
  exact mem_map.2 ⟨x, hx, if_neg hne⟩

/-- If both rows take a fill up, both orders were live. -/
theorem settleSide_live {taker maker : Order} {between : Books}
    (hnd : (books.orders.map (·.id)).Nodup) (htaker : taker ∈ books.orders)
    (hmaker : maker ∈ books.orders) (hne : taker.id ≠ maker.id)
    (hfirst : settleSide books taker qty key = .ok between)
    (hsecond : settleSide between maker qty key = .ok books') :
    taker.status.orderHoldsFunds = true ∧ maker.status.orderHoldsFunds = true ∧
      maker ∈ between.orders := by
  obtain ⟨taker', htaker', hnext⟩ := settleSide_ok hnd htaker hfirst
  have hmaker' : maker ∈ between.orders :=
    Books.mem_of_replaced hnext.orders hmaker fun hc => hne (htaker'.same.id ▸ hc.symm)
  have hnd' : (between.orders.map (·.id)).Nodup := by
    rw [hnext.orders, Books.replace_ids]
    exact hnd
  obtain ⟨maker', hrow, -⟩ := settleSide_ok hnd' hmaker' hsecond
  exact ⟨htaker'.live, hrow.live, hmaker'⟩

/-- The buyer is the taker when the taker bought, otherwise the maker. -/
theorem matched_of_sides {taker maker : Order} {fill : Fill} {input : Ledger.TradeSettlementPosting}
    (hinsert : books.insertFill fill = .ok (some books')) (htaker : taker ∈ books.orders)
    (hmaker : maker ∈ books.orders)
    (hlive : taker.status.orderHoldsFunds = true ∧ maker.status.orderHoldsFunds = true)
    (hids : fill.takerOrderId = taker.id ∧ fill.makerOrderId = maker.id)
    (hside : taker.side = fill.takerSide ∧ maker.side ≠ taker.side)
    (hqty : 0 < input.qty) (hfee : input.sellerFee ≤ input.notional)
    (hamounts : input.notional = fill.notional ∧ input.qty = fill.qty ∧
      input.buyerFee = if fill.takerSide = .buy then fill.takerFee else fill.makerFee)
    (hbuyer : input.buyerId = (if fill.takerSide = .buy then taker else maker).userId ∧
      (if fill.takerSide = .buy then taker else maker).holdAsset = input.quoteAsset)
    (hseller : input.sellerId = (if fill.takerSide = .buy then maker else taker).userId ∧
      (if fill.takerSide = .buy then maker else taker).holdAsset = input.baseAsset) :
    Matched books (if fill.takerSide = .buy then taker else maker)
      (if fill.takerSide = .buy then maker else taker) fill input := by
  have hne : taker.id ≠ maker.id := hids.1 ▸ hids.2 ▸ (insertFill_ok hinsert).1
  have htouches : ∀ id, fill.touches id = true ↔ id = taker.id ∨ id = maker.id := by
    intro id
    rw [Fill.touches, hids.1, hids.2, Bool.or_eq_true, decide_eq_true_eq, decide_eq_true_eq,
      eq_comm, eq_comm (a := id) (b := maker.id)]
  cases hs : fill.takerSide with
  | buy =>
    simp only [hs, if_true] at hside hamounts hbuyer hseller ⊢
    have hsell : maker.side ≠ .buy := hside.1 ▸ hside.2
    exact ⟨htaker, hmaker, hne, hlive.1, hlive.2, htouches, hqty, hfee,
      by simp [consumption, hside.1, hids.1, hamounts], by simp [consumption, hsell, hamounts],
      hbuyer.1, hseller.1, hbuyer.2.symm, hseller.2.symm⟩
  | sell =>
    simp only [hs, reduceCtorEq, if_false] at hside hamounts hbuyer hseller ⊢
    have hbuy : maker.side = .buy := by
      cases hm : maker.side with
      | buy => rfl
      | sell => exact absurd (hm.trans hside.1.symm) hside.2
    exact ⟨hmaker, htaker, hne.symm, hlive.2, hlive.1, fun id => (htouches id).trans or_comm,
      hqty, hfee, by simp [consumption, hbuy, hids.1, hne, hamounts],
      by simp [consumption, hside.1, hamounts], hbuyer.1, hseller.1, hbuyer.2.symm,
      hseller.2.symm⟩

namespace Sound

variable {key : EventKey}

/-- Both rows take their fill up, the taker's first. -/
theorem settleSides {fill : Fill} {taker maker : Order} {between : Books}
    (h : Sound books fun id => if fill.touches id = true then fill.qty else 0)
    (hids : fill.takerOrderId = taker.id ∧ fill.makerOrderId = maker.id)
    (htaker : taker ∈ books.orders) (hmaker : maker ∈ between.orders) (hne : taker.id ≠ maker.id)
    (hfirst : Trading.settleSide books taker fill.qty key = .ok between)
    (hsecond : Trading.settleSide between maker fill.qty key = .ok books') :
    Sound books' fun _ => 0 := by
  have hbetween : Sound between fun id => if id = maker.id then fill.qty else 0 := by
    refine h.settleSide htaker ?_ ?_ ?_ hfirst
    · simp [Fill.touches, hids.1]
    · exact if_neg hne
    · intro id hid
      simp [Fill.touches, hids.1, hids.2, Ne.symm hid, eq_comm]
  refine hbetween.settleSide hmaker ?_ rfl ?_ hsecond
  · exact if_pos rfl
  · intro id hid
    exact (if_neg hid).symm

theorem settleFill {market : SettlementMarket} {event : FillEvent}
    {takerBps makerBps : Int} (h : Sound books fun _ => 0)
    (hsettle : settleFill books market key event takerBps makerBps = .ok books') :
    Sound books' fun _ => 0 := by
  simp only [Trading.settleFill, bind_eq_ok, refuse_eq_ok] at hsettle
  obtain ⟨taker, htaker, maker, hmaker, -, hside, -, hassets, amounts, hamounts, recorded, hinsert,
    hsettle⟩ := hsettle
  obtain ⟨htaker, -⟩ := load_ok htaker
  obtain ⟨hmaker, -⟩ := load_ok hmaker
  cases recorded with
  | none =>
    obtain rfl := pure_eq_ok.1 hsettle
    exact h
  | some inserted =>
    obtain ⟨hne, rfl⟩ := insertFill_ok hinsert
    simp only [bind_eq_ok, mapError_eq_ok, pure_eq_ok] at hsettle
    obtain ⟨t, hpost, _, hbuyer, _, hseller, between, hfirst, after, hsecond, -, -, -, -, rfl⟩ :=
      hsettle
    obtain ⟨hqty, hfee, rfl⟩ := postTradeSettlement_ok hpost
    have hnd : ∀ fill input, ((books.settled fill input).orders.map (·.id)).Nodup :=
      fun _ _ => h.nodup
    obtain ⟨hlive, hlive', hmaker'⟩ := settleSide_live (hnd _ _) htaker hmaker hne hfirst hsecond
    push Not at hside hassets
    have hm := matched_of_sides hinsert htaker hmaker ⟨hlive, hlive'⟩ ⟨rfl, rfl⟩ hside hqty hfee
      ⟨rfl, rfl, fillAmounts_ok hamounts⟩ ⟨rfl, hassets.1⟩ ⟨rfl, hassets.2⟩
    have htraded := h.trade hm (checkConsumption_ok (hnd _ _) hm.bought hbuyer)
      (checkConsumption_ok (hnd _ _) hm.sold hseller)
    exact htraded.settleSides ⟨rfl, rfl⟩ htaker hmaker' hne hfirst hsecond

theorem apply {market : SettlementMarket} {takerBps makerBps : Int}
    {event : SettlementEvent} (h : Sound books fun _ => 0)
    (happly : apply books market key takerBps makerBps event = .ok books') :
    Sound books' fun _ => 0 := by
  cases event with
  | fill event => exact h.settleFill happly
  | cancelled orderId remainingQty | expired orderId remainingQty =>
    rw [Trading.apply, bind_eq_ok] at happly
    obtain ⟨order, hload, happly⟩ := happly
    have ho := (load_ok hload).1
    split at happly
    · rw [bind_eq_ok] at happly
      obtain ⟨_, -, hdispose⟩ := happly
      exact h.dispose ho rfl hdispose
    · exact h.dispose ho rfl happly
  | rejected orderId reason =>
    rw [Trading.apply] at happly
    split at happly
    · obtain rfl := pure_eq_ok.1 happly
      exact h
    · simp only [bind_eq_ok] at happly
      obtain ⟨order, hload, -, -, hdispose⟩ := happly
      exact h.dispose (load_ok hload).1 rfl hdispose
  | accepted orderId restingQty =>
    simp only [Trading.apply, bind_eq_ok] at happly
    obtain ⟨order, hload, -, -, happly⟩ := happly
    split at happly
    · simp only [bind_eq_ok, pure_eq_ok] at happly
      obtain ⟨-, -, rfl⟩ := happly
      exact h
    split at happly
    · obtain rfl := pure_eq_ok.1 happly
      exact h
    simp only [bind_eq_ok] at happly
    obtain ⟨result, hmoved, happly⟩ := happly
    obtain ⟨hlive, rfl | ⟨x, hx, -, hstatus, rfl⟩⟩ := Books.transition_ok hmoved
    · obtain rfl := pure_eq_ok.1 happly
      exact h
    · obtain rfl := pure_eq_ok.1 happly
      exact h.unchanged hx (.patched (hstatus ▸ hlive) rfl _) (.inl ⟨rfl, rfl⟩)
  | statusChanged =>
    obtain rfl := pure_eq_ok.1 happly
    exact h

/-- One transaction, committed or rolled back. -/
theorem step (h : Sound books fun _ => 0) (label : Label) :
    Sound (step books label) fun _ => 0 := by
  rw [Trading.step]
  cases htransact : transact books label with
  | error e => exact h
  | ok after =>
    show Sound after _
    cases label with
    | createWithHold order => exact h.createWithHold htransact
    | finalizeUnfilled id how => exact h.finalizeUnfilled htransact
    | moveResting id move => exact h.moveResting htransact
    | settle market key takerBps makerBps event => exact h.apply htransact

theorem run (h : Sound books fun _ => 0) (labels : List Label) :
    Sound (labels.foldl Trading.step books) fun _ => 0 := by
  induction labels generalizing books with
  | nil => exact h
  | cons label labels ih => exact ih (h.step label)

/-! ## What the invariant says of the books -/

variable {pending : OrderId → Int}

theorem outstandingHold_eq (h : Sound books pending)
    (ho : o ∈ books.orders) : books.outstandingHold o.id = some (books.outstanding o) := by
  rw [Books.outstandingHold, Books.findById, Lib.find?_of_nodup h.nodup ho, Option.map_some]

theorem locked_eq (h : Sound books pending) (user : UserId)
    (asset : AssetKey) : balance books.ledger (userOrderLocked user asset) =
      ((books.orders.filter fun o =>
          o.userId = user ∧ o.holdAsset = asset ∧ o.status.orderHoldsFunds = true).map
        fun o => (books.outstandingHold o.id).getD 0).sum := by
  have hvalue : ∀ x ∈ books.orders.filter fun o =>
        o.userId = user ∧ o.holdAsset = asset ∧ o.status.orderHoldsFunds = true,
      (books.outstandingHold x.id).getD 0 = books.outstanding x := by
    intro x hx
    rw [h.outstandingHold_eq (mem_of_mem_filter hx), Option.getD_some]
  rw [h.locked, map_congr_left hvalue, Books.totalHeld]
  have hsplit := sum_map_ite
    (fun o : Order => o.userId = user ∧ o.holdAsset = asset ∧ o.status.orderHoldsFunds = true)
    books.outstanding (fun _ => 0) books.orders
  rw [map_const', sum_replicate] at hsplit
  unfold Books.share
  simpa using hsplit

theorem locked_nonneg (h : Sound books pending) (user : UserId)
    (asset : AssetKey) : 0 ≤ balance books.ledger (userOrderLocked user asset) := by
  rw [h.locked, Books.totalHeld]
  apply sum_nonneg
  intro amount hamount
  obtain ⟨x, hx, rfl⟩ := mem_map.1 hamount
  rw [Books.share]
  split
  · rename_i hc
    exact ((h.rows x hx).holding hc.2.2).1
  · exact le_refl 0

end Sound

/-- A ledger before any order: nothing is locked for orders, nobody owes trading funds. -/
structure Opening (ledger : List LedgerTransaction) : Prop where
  locked : ∀ user asset, balance ledger (userOrderLocked user asset) = 0
  available : ∀ user asset, 0 ≤ balance ledger (userTradingAvailable user asset)
  unreleased : ∀ t ∈ ledger, t.kind ≠ .orderRelease

theorem Opening.sound {ledger : List LedgerTransaction} (h : Opening ledger) :
    Sound ⟨[], [], ledger⟩ fun _ => 0 where
  nodup := nodup_nil
  rows := nofun
  locked := h.locked
  available := h.available
  known := nofun
  references := fun t ht hrelease => absurd hrelease (h.unreleased t ht)

/-- **Orders and ledger agree.** After every transaction of every run: each user's locked balance
of an asset is what their live orders have outstanding in it; a finished order has nothing
outstanding and was released at most once; `filled_qty` is the sum of the order's fills and within
its quantity; and no trading balance is negative. -/
theorem holds_agree {ledger : List LedgerTransaction} (hopen : Opening ledger)
    (labels : List Label) :
    let books := labels.foldl step ⟨[], [], ledger⟩
    (∀ user asset, balance books.ledger (userOrderLocked user asset) =
      ((books.orders.filter fun o =>
          o.userId = user ∧ o.holdAsset = asset ∧ o.status.orderHoldsFunds = true).map
        fun o => (books.outstandingHold o.id).getD 0).sum) ∧
    (∀ o ∈ books.orders, o.status.isTerminalOrder = true →
      books.outstandingHold o.id = some 0 ∧ (releases books.ledger o.id).length ≤ 1) ∧
    (∀ o ∈ books.orders, o.filledQty = fillsQty books.fills o.id ∧ o.filledQty ≤ o.qty) ∧
    ∀ user asset, 0 ≤ balance books.ledger (userTradingAvailable user asset) ∧
      0 ≤ balance books.ledger (userOrderLocked user asset) := by
  intro books
  have h : Sound books fun _ => 0 := hopen.sound.run labels
  refine ⟨h.locked_eq, ?_, ?_, fun user asset => ⟨h.available user asset, h.locked_nonneg user asset⟩⟩
  · intro o ho hdone
    obtain ⟨hzero, hreleases⟩ := (h.rows o ho).terminal hdone
    exact ⟨by rw [h.outstandingHold_eq ho, hzero], hreleases⟩
  · intro o ho
    exact ⟨by rw [← (h.rows o ho).filled, Int.add_zero], (h.rows o ho).within⟩

/-- Two users with trading funds: one has quote to spend, the other base to sell. -/
def fundedLedger (base quote : AssetKey) : List LedgerTransaction :=
  [⟨.allocation, "withdrawal", "w1",
      [Ledger.debit ⟨none, quote, .clearingAssets⟩ quote 50000,
        Ledger.credit (userTradingAvailable "buyer" quote) quote 50000]⟩,
    ⟨.allocation, "withdrawal", "w2",
      [Ledger.debit ⟨none, base, .clearingAssets⟩ base 10,
        Ledger.credit (userTradingAvailable "seller" base) base 10]⟩]

theorem fundedLedger_opening (base quote : AssetKey) : Opening (fundedLedger base quote) where
  locked user asset := by
    simp [fundedLedger, balance, Ledger.effects, Ledger.at_, userOrderLocked,
      userTradingAvailable]
  available user asset := by
    simp only [fundedLedger, balance, Ledger.effects, map_cons, map_nil,
      Ledger.debit_effect, Ledger.credit_effect, Ledger.at_available_available, sum_cons,
      sum_nil]
    simp only [Ledger.at_, userTradingAvailable, Ledger.AccountRef.mk.injEq, reduceCtorEq,
      false_and, if_false, zero_add, add_zero]
    split <;> split <;> omega
  unreleased := by simp [fundedLedger]

/-- A buy of 20 meets a sell of 10, and what is left of it is cancelled. -/
def partialFillRun (market : SettlementMarket) : List Label :=
  [.createWithHold ⟨"o1", "buyer", "c1", market.id, .buy, 20, 0, .pendingEngine,
      market.quoteAsset, 40100, none, none⟩,
    .createWithHold ⟨"o2", "seller", "c2", market.id, .sell, 10, 0, .pendingEngine,
      market.baseAsset, 10, none, none⟩,
    .settle market ⟨1, 0⟩ 10 5 (.accepted "o1" 20),
    .settle market ⟨2, 1⟩ 10 5 (.fill ⟨"2:0", "o2", "o1", .sell, 2000000000000, 10⟩),
    .settle market ⟨2, 1⟩ 10 5 (.fill ⟨"2:0", "o2", "o1", .sell, 2000000000000, 10⟩),
    .settle market ⟨3, 0⟩ 10 5 (.cancelled "o1" 10)]

theorem holds_agree_partial_fill :
    let market : SettlementMarket := ⟨"SOL-USDC", ⟨"devnet", "SOL"⟩, ⟨"devnet", "USDC"⟩⟩
    let books := (partialFillRun market).foldl step
      ⟨[], [], fundedLedger market.baseAsset market.quoteAsset⟩
    (books.orders.map (·.status) = [.cancelled, .filled] ∧ books.fills.length = 1 ∧
      (releases books.ledger "o1").map lockedDebits = [20090]) ∧
    (∀ user asset, balance books.ledger (userOrderLocked user asset) =
      ((books.orders.filter fun o =>
          o.userId = user ∧ o.holdAsset = asset ∧ o.status.orderHoldsFunds = true).map
        fun o => (books.outstandingHold o.id).getD 0).sum) :=
  ⟨by decide +kernel, (holds_agree (fundedLedger_opening _ _) (partialFillRun _)).1⟩

end AtlasCex.Trading

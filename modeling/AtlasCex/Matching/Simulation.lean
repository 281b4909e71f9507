import AtlasCex.Matching.Priority
/-!
# The engine simulates the reference engine

`MatchRefines` and `EngineRefines` put `Refines` under the match loop's state and under a whole
engine. One turn, one placement and one command each take related states to related states and
emit the same events; `Lib.loop_sim` and `Lib.run_sim` carry that through the loop and the stream.

The fuel of the two match loops is the same number: an index entry for each order of the list.
-/
namespace AtlasCex.Matching
open List
open Lib (Turn)

/-! ## The stream -/

/-- The order id a command brings in. -/
def Command.introduced : Command → List OrderId
  | .place orderId _ => [orderId]
  | .amend _ newOrderId _ _ => [newOrderId]
  | .cancel _ | .setStatus _ => []

def introducedIds (commands : List SequencedCommand) : List OrderId :=
  commands.flatMap (·.command.introduced)

/-- No order id is brought in twice. -/
def FreshIds (commands : List SequencedCommand) : Prop := (introducedIds commands).Nodup

instance (commands : List SequencedCommand) : Decidable (FreshIds commands) :=
  inferInstanceAs (Decidable (List.Nodup _))

variable {pre commands : List SequencedCommand}

/-- In a stream without reuse, what a command brings in no earlier one did. -/
theorem FreshIds.not_mem {c : SequencedCommand}
    (h : FreshIds commands) (hpre : pre ++ [c] <+: commands) {id : OrderId}
    (hid : id ∈ c.command.introduced) : id ∉ introducedIds pre := by
  obtain ⟨post, rfl⟩ := hpre
  simp only [FreshIds, introducedIds, flatMap_append, flatMap_cons, flatMap_nil,
    append_nil] at h
  exact fun hin => (nodup_append.1 (nodup_append.1 h).1).2.2 id hin id hid rfl

theorem mem_introducedIds_concat {c : SequencedCommand} {id : OrderId} :
    id ∈ introducedIds (pre ++ [c]) ↔ id ∈ introducedIds pre ∨ id ∈ c.command.introduced := by
  simp [introducedIds]

/-! ## The match loop -/

structure MatchRefines (used : OrderId → Prop) (s : MatchState) (r : RefMatch) : Prop where
  book : Refines used s.book r.resting
  price : s.book.lastTradePrice = r.lastTradePrice
  events : s.events = r.events
  remaining : s.remaining = r.remaining
  stop : s.stpCancelledTaker = r.stpCancelledTaker

section
variable {used : OrderId → Prop}

theorem Refines.setLastTradePrice {b : OrderBook} {l : List RestingOrder} (h : Refines used b l)
    (price : Nat) : Refines used (b.setLastTradePrice price) l :=
  h.of_view (fun s => by cases s; exacts [h.side .buy, h.side .sell]) (fun _ => rfl)
    (fun s _ => by cases s <;> rfl)

theorem matchTurn_sim (t : Taker) {s : MatchState} {r : RefMatch} (h : MatchRefines used s r) :
    Turn.Rel (MatchRefines used) (matchTurn t s) (r.turn t) := by
  obtain ⟨hbook, hprice, hevents, hremaining, hstop⟩ := h
  obtain ⟨book, events, remaining, stop⟩ := s
  simp only at hbook hprice hevents hremaining hstop
  subst hevents hremaining hstop
  have hbp := hbook.bestPrice t.side.opposite
  have hturn := r.turns t
  generalize r.turn t = turn at hturn
  unfold matchTurn
  cases hturn with
  | done hrem => rw [if_pos hrem]; exact .stop ⟨hbook, hprice, rfl, rfl, rfl⟩
  | empty hrem hbest =>
    rw [hbest] at hbp
    simp only [hrem, if_false, hbp, Option.map_none]
    exact .stop ⟨hbook, hprice, rfl, rfl, rfl⟩
  | uncrossed m hrem hbest hcross =>
    rw [hbest] at hbp
    simp only [hrem, if_false, hbp, Option.map_some, hcross, Bool.not_false, if_true]
    exact .stop ⟨hbook, hprice, rfl, rfl, rfl⟩
  | stopTaker m hrem hbest hcross hown hmode =>
    rw [hbest] at hbp
    obtain ⟨os, hos⟩ := bestOf_first hbest
    obtain ⟨b', hfront, hb'⟩ := hbook.frontLive hos
    simp only [hrem, if_false, hbp, Option.map_some, hcross, Bool.not_true, Bool.false_eq_true,
      hfront, hown, if_true, hmode]
    exact .stop ⟨hb'.refines, hb'.price.trans hprice, rfl, rfl, rfl⟩
  | dropMaker m hrem hbest hcross hown hmode =>
    rw [hbest] at hbp
    obtain ⟨os, hos⟩ := bestOf_first hbest
    obtain ⟨b', hfront, hb'⟩ := hbook.frontLive hos
    obtain ⟨b'', hremove, hb'', hp''⟩ := hb'.refines.remove (bestOf_mem hbest).1
    simp only [hrem, if_false, hbp, Option.map_some, hcross, Bool.not_true, Bool.false_eq_true,
      hfront, hown, if_true, hmode, hremove, reduceCtorEq]
    exact .again ⟨hb'', hp''.trans (hb'.price.trans hprice), rfl, rfl, rfl⟩
  | stopBoth m hrem hbest hcross hown hmode =>
    rw [hbest] at hbp
    obtain ⟨os, hos⟩ := bestOf_first hbest
    obtain ⟨b', hfront, hb'⟩ := hbook.frontLive hos
    obtain ⟨b'', hremove, hb'', hp''⟩ := hb'.refines.remove (bestOf_mem hbest).1
    simp only [hrem, if_false, hbp, Option.map_some, hcross, Bool.not_true, Bool.false_eq_true,
      hfront, hown, if_true, hmode, hremove]
    exact .stop ⟨hb'', hp''.trans (hb'.price.trans hprice), rfl, rfl, rfl⟩
  | trade m hrem hbest hcross hown =>
    rw [hbest] at hbp
    obtain ⟨os, hos⟩ := bestOf_first hbest
    obtain ⟨b', hfront, hb'⟩ := hbook.frontLive hos
    obtain ⟨b'', hconsume, hb'', hp''⟩ :=
      hb'.refines.consumeFront hos (Nat.min_le_right r.remaining m.remaining)
    simp only [hrem, if_false, hbp, Option.map_some, hcross, Bool.not_true, Bool.false_eq_true,
      hfront, hown, hconsume]
    exact .again ⟨hb''.setLastTradePrice _, rfl, rfl, rfl, rfl⟩

theorem matchLoop_sim (t : Taker) {b : OrderBook} {r : RefEngine}
    (h : Refines used b r.resting) (hprice : b.lastTradePrice = r.lastTradePrice) (qty : Nat) :
    MatchRefines used (matchLoop t (b.openOrderCount + 1) ⟨b, [], qty, false⟩)
      (r.matched t qty) := by
  rw [matchLoop, RefEngine.matched, h.openOrderCount]
  exact Lib.loop_sim (R := MatchRefines used) (fun _ _ => matchTurn_sim t) _
    ⟨h, hprice, rfl, rfl, rfl⟩

end

/-! ## One command -/

structure EngineRefines (used : OrderId → Prop) (e : Engine) (r : RefEngine) : Prop where
  market : e.market = r.market
  book : Refines used e.book r.resting
  price : e.book.lastTradePrice = r.lastTradePrice

section
variable {used : OrderId → Prop} {e : Engine} {r : RefEngine}

theorem EngineRefines.mono (h : EngineRefines used e r) {used' : OrderId → Prop}
    (hu : ∀ id, used id → used' id) : EngineRefines used' e r :=
  ⟨h.market, h.book.mono hu, h.price⟩

theorem EngineRefines.referencePrice (h : EngineRefines used e r) :
    e.referencePrice = r.referencePrice := by
  have hbid : e.book.bestBid = (bestOf .buy r.resting).map RestingOrder.price :=
    h.book.bestPrice .buy
  have hask : e.book.bestAsk = (bestOf .sell r.resting).map RestingOrder.price :=
    h.book.bestPrice .sell
  rw [Engine.referencePrice, RefEngine.referencePrice, h.price, hbid, hask]
  cases r.lastTradePrice with
  | some last => rfl
  | none =>
    cases bestOf .buy r.resting with
    | none => rfl
    | some bid => cases bestOf .sell r.resting <;> rfl

theorem EngineRefines.wouldCross (h : EngineRefines used e r) (side : Side) (price : Nat) :
    e.wouldCross side price =
      (bestOf side.opposite r.resting).any (fun o => crosses side (some price) o.price) := by
  rw [Engine.wouldCross, h.book.bestPrice]
  cases bestOf side.opposite r.resting <;> rfl

theorem EngineRefines.contains (h : EngineRefines used e r) (id : OrderId) :
    e.book.contains id = r.resting.any (·.orderId = id) := by
  rw [Bool.eq_iff_iff, h.book.contains_iff]
  simp

/-- The engine's dry run and the list's matching kill the same fill-or-kill orders. -/
theorem EngineRefines.fillableQty_lt (h : EngineRefines used e r) (t : Taker) (qty : Nat) :
    e.fillableQty t.side t.limit t.accountId t.stpMode < qty ↔
      (r.matched t qty).remaining ≠ 0 := by
  rw [fillableQty_eq h.book, RefEngine.matched_remaining h.book.nodup (h.book.covers _)]
  omega

theorem EngineRefines.admission (h : EngineRefines used e r) (seq : Nat) (timestampMs : Int)
    (orderId : OrderId) (request : OrderRequest) :
    e.admission seq orderId request = r.admission seq timestampMs orderId request := by
  simp only [Engine.admission, Engine.validate, RefEngine.admission, h.contains, h.referencePrice,
    h.market, h.wouldCross]
  cases collarLimit r.market r.referencePrice request with
  | none => rfl
  | some limit =>
    have hfok := h.fillableQty_lt (request.taker seq timestampMs orderId limit) request.qty
    have hkill := and_congr_right (a := request.timeInForce = .fok) fun _ => hfok
    simp only [OrderRequest.taker] at hkill ⊢
    simp only [if_congr hkill rfl rfl]
    rfl

/-- A placement. A request that is refused leaves its id alone, so only an id that does not rest
has to be new. -/
theorem EngineRefines.place (h : EngineRefines used e r) (seq : Nat) (timestampMs : Int)
    {orderId : OrderId} (hnew : (∀ o ∈ r.resting, o.orderId ≠ orderId) → ¬used orderId)
    (request : OrderRequest) :
    (e.place seq timestampMs orderId request).1 = (r.place seq timestampMs orderId request).1 ∧
      EngineRefines (fun id => used id ∨ id = orderId)
        (e.place seq timestampMs orderId request).2
        (r.place seq timestampMs orderId request).2 := by
  rw [Engine.place, RefEngine.place, h.admission seq timestampMs]
  rcases r.admission_cases seq timestampMs orderId request with ⟨_, he⟩ | he | ⟨limit, he, hadm⟩
  · rw [he]; exact ⟨rfl, h.mono fun _ => .inl⟩
  · rw [he]; exact ⟨rfl, h.mono fun _ => .inl⟩
  rw [he]
  have hloop := matchLoop_sim (request.taker seq timestampMs orderId limit) h.book h.price
    request.qty
  simp only
  generalize matchLoop _ _ _ = s at hloop
  generalize r.matched _ _ = s' at hloop
  simp only [hloop.events, hloop.remaining, hloop.stop]
  refine ⟨trivial, h.market, ?_, ?_⟩ <;>
    cases hrest : (disposition seq orderId request s'.events s'.remaining
      s'.stpCancelledTaker).2 with
    | none => ?_
    | some o => ?_
  · simpa using hloop.book.mono fun _ => Or.inl
  · obtain ⟨-, hrem, -, rfl⟩ := disposition_rests hrest
    exact hloop.book.rest (o := request.resting seq orderId s'.remaining) (hnew hadm.absent)
      (Nat.pos_of_ne_zero hrem)
  · exact hloop.price
  · simpa [OrderBook.rest] using hloop.price

/-- `remove`, by what the list finds under the id. -/
theorem EngineRefines.remove (h : EngineRefines used e r) (id : OrderId) :
    match r.resting.find? (·.orderId = id) with
    | some o => ∃ b, e.book.remove id = (some o, b) ∧
        EngineRefines used { e with book := b } { r with resting := without id r.resting }
    | none => e.book.remove id = (none, e.book) := by
  cases hfind : r.resting.find? (·.orderId = id) with
  | some o =>
    have ho := mem_of_find?_eq_some hfind
    obtain rfl : o.orderId = id := by simpa using find?_some hfind
    obtain ⟨b, hremove, hb, hprice⟩ := h.book.remove ho
    exact ⟨b, hremove, h.market, hb, hprice.trans h.price⟩
  | none => exact h.book.remove_unknown (by simpa using hfind)

theorem EngineRefines.cancel (h : EngineRefines used e r) (seq : Nat) (orderId : OrderId) :
    (e.cancel seq orderId).1 = (r.cancel seq orderId).1 ∧
      EngineRefines used (e.cancel seq orderId).2 (r.cancel seq orderId).2 := by
  have hremove := h.remove orderId
  rw [Engine.cancel, RefEngine.cancel]
  cases hfind : r.resting.find? (·.orderId = orderId) with
  | some o =>
    rw [hfind] at hremove
    obtain ⟨b, hb, hrel⟩ := hremove
    rw [hb]
    exact ⟨rfl, hrel⟩
  | none =>
    rw [hfind] at hremove
    simp only at hremove
    rw [hremove]
    exact ⟨rfl, h⟩

theorem EngineRefines.amend (h : EngineRefines used e r) (seq : Nat) (timestampMs : Int)
    (orderId : OrderId) {newOrderId : OrderId} (hnew : ¬used newOrderId) (price qty : Nat) :
    (e.amend seq timestampMs orderId newOrderId price qty).1 =
        (r.amend seq timestampMs orderId newOrderId price qty).1 ∧
      EngineRefines (fun id => used id ∨ id = newOrderId)
        (e.amend seq timestampMs orderId newOrderId price qty).2
        (r.amend seq timestampMs orderId newOrderId price qty).2 := by
  have hremove := h.remove orderId
  rw [Engine.amend, RefEngine.amend]
  cases hfind : r.resting.find? (·.orderId = orderId) with
  | some o =>
    rw [hfind] at hremove
    obtain ⟨b, hb, hrel⟩ := hremove
    obtain ⟨hevents, hplaced⟩ := hrel.place seq timestampMs (fun _ => hnew)
      (Engine.replacement o newOrderId price qty)
    rw [hb]
    exact ⟨by simp only [hevents], hplaced⟩
  | none =>
    rw [hfind] at hremove
    simp only at hremove
    rw [hremove]
    exact ⟨rfl, h.mono fun _ => .inl⟩

/-- **One command**: the same events from related engines, and related engines after it. -/
theorem EngineRefines.apply (h : EngineRefines used e r) (c : SequencedCommand)
    (hnew : ∀ id ∈ c.command.introduced, ¬used id) :
    (e.apply c).1 = (r.apply c).1 ∧
      EngineRefines (fun id => used id ∨ id ∈ c.command.introduced) (e.apply c).2
        (r.apply c).2 := by
  have h' : EngineRefines used { e with lastSeq := c.seq } r := ⟨h.market, h.book, h.price⟩
  unfold Engine.apply RefEngine.apply
  cases hc : c.command with
  | place orderId request =>
    rw [hc] at hnew
    simpa [Command.introduced] using h'.place c.seq c.timestampMs
      (fun _ => hnew orderId (by simp [Command.introduced])) request
  | cancel orderId => simpa [Command.introduced] using h'.cancel c.seq orderId
  | amend orderId newOrderId price qty =>
    rw [hc] at hnew
    simpa [Command.introduced] using h'.amend c.seq c.timestampMs orderId
      (hnew newOrderId (by simp [Command.introduced])) price qty
  | setStatus status =>
    refine ⟨?_, ?_, h.book.mono fun _ => .inl, h.price⟩
    · simp only [Engine.setStatusCommand, h.market]
    · simp only [Engine.setStatusCommand, h.market]

end

/-! ## The whole stream -/

theorem Refines.new (used : OrderId → Prop) : Refines used OrderBook.new [] where
  side s := by cases s <;> rfl
  nodup := nodup_nil
  positive := by simp
  known := by simp
  index id := by simp [OrderBook.get, OrderBook.new]
  level s p lv h := by cases s <;> simp [OrderBook.levelAt, OrderBook.ladderFor, OrderBook.new] at h
  gone _ _ _ := rfl

/-- **A stream**: related engines emit the same events over commands that bring in each id once,
and only new ones. -/
theorem EngineRefines.run {used : OrderId → Prop} {e : Engine} {r : RefEngine}
    (h : EngineRefines used e r) (hfresh : FreshIds commands)
    (hnew : ∀ id ∈ introducedIds commands, ¬used id) :
    (e.run commands).1 = (r.run commands).1 ∧
      EngineRefines (fun id => used id ∨ id ∈ introducedIds commands) (e.run commands).2
        (r.run commands).2 := by
  refine Lib.run_sim (R := fun pre e r =>
    EngineRefines (fun id => used id ∨ id ∈ introducedIds pre) e r) (l := commands)
    (h.mono fun _ => .inl) ?_ commands prefix_rfl
  intro pre c e r hpre h
  have hc : ∀ id ∈ c.command.introduced, id ∈ introducedIds commands := by
    intro id hid
    obtain ⟨post, rfl⟩ := hpre
    simp [introducedIds, hid]
  obtain ⟨hevents, hrel⟩ := h.apply c fun id hid hused =>
    hused.elim (hnew id (hc id hid)) (hfresh.not_mem hpre hid)
  refine ⟨hevents, hrel.mono fun id hid => ?_⟩
  rw [mem_introducedIds_concat]
  tauto

theorem EngineRefines.new (market : MarketConfig) :
    EngineRefines (fun _ => False) (Engine.new market) (RefEngine.new market) :=
  ⟨rfl, Refines.new _, rfl⟩

theorem FreshIds.of_prefix (h : FreshIds commands) (hpre : pre <+: commands) : FreshIds pre := by
  obtain ⟨post, rfl⟩ := hpre
  rw [FreshIds, introducedIds, flatMap_append] at h
  exact (nodup_append.1 h).1

/-- From the empty book, over every prefix of a stream that reuses no id. -/
theorem run_refines (market : MarketConfig) (hfresh : FreshIds commands) (hpre : pre <+: commands) :
    ((Engine.new market).run pre).1 = ((RefEngine.new market).run pre).1 ∧
      EngineRefines (· ∈ introducedIds pre) ((Engine.new market).run pre).2
        ((RefEngine.new market).run pre).2 := by
  obtain ⟨hevents, hrel⟩ :=
    (EngineRefines.new market).run (hfresh.of_prefix hpre) (fun _ _ => id)
  exact ⟨hevents, hrel.mono fun _ hid => hid.resolve_left id⟩

/-- The book's live orders are the list's: the same records under the same ids, as many of them,
and at each side and price the same queue. -/
structure HoldsExactly (b : OrderBook) (l : List RestingOrder) : Prop where
  orders : ∀ id o, b.get id = some o ↔ o ∈ l ∧ o.orderId = id
  count : b.openOrderCount = l.length
  queues : ∀ s p, b.liveIdsAt s p = (atPrice s p l).map RestingOrder.orderId

theorem Refines.holdsExactly {used : OrderId → Prop} {b : OrderBook} {l : List RestingOrder}
    (h : Refines used b l) : HoldsExactly b l where
  orders id o := ⟨h.of_get, fun ⟨ho, hid⟩ => hid ▸ h.get_of_mem ho⟩
  count := h.openOrderCount
  queues s p := by
    rw [OrderBook.liveIdsAt]
    cases hlv : b.levelAt s p with
    | none =>
      have hlv' : (b.ladderFor s).level p = none := hlv
      rw [hlv', h.gone s p hlv]; rfl
    | some lv =>
      have hlv' : (b.ladderFor s).level p = some lv := hlv
      rw [hlv']; exact (h.level s p lv hlv).queue

/-- **The engine refines price-time priority over a plain list**: on every stream that brings no
order id in twice, after every prefix, it has emitted the reference engine's events command by
command and its live orders are the reference list's. -/
theorem engine_refines_reference (market : MarketConfig) (commands : List SequencedCommand)
    (hfresh : FreshIds commands) (pre : List SequencedCommand) (hpre : pre <+: commands) :
    ((Engine.new market).run pre).1 = ((RefEngine.new market).run pre).1 ∧
      HoldsExactly ((Engine.new market).run pre).2.book
        ((RefEngine.new market).run pre).2.resting := by
  obtain ⟨hevents, hrel⟩ := run_refines market hfresh hpre
  exact ⟨hevents, hrel.book.holdsExactly⟩

/-! A stream to evaluate the statements on: two asks at one price, the first cancelled (so that a
tombstone heads the queue), a fill-or-kill buy that trades with the second, an amend of what is
left of it, and a status change. -/

def sampleMarket : MarketConfig where
  id := "SOL-USDC"
  tickSize := 10
  lotSize := 1000000
  minNotional := 100
  collarBps := 1000
  status := .open

def sampleOrder (accountId : String) (side : Side) (timeInForce : TimeInForce) (price qty : Nat) :
    OrderRequest where
  clientOrderId := accountId
  side := side
  orderType := .limit
  timeInForce := timeInForce
  price := some price
  qty := qty
  postOnly := false
  stpMode := .cancelMaker
  accountId := accountId

def sampleStream : List SequencedCommand :=
  [⟨1, 0, .place "a" (sampleOrder "alice" .sell .gtc 1000 2000000000)⟩,
    ⟨2, 0, .place "b" (sampleOrder "bob" .sell .gtc 1000 3000000000)⟩,
    ⟨3, 0, .cancel "a"⟩,
    ⟨4, 0, .place "c" (sampleOrder "carol" .buy .fok 1000 1000000000)⟩,
    ⟨5, 0, .amend "b" "d" 1010 4000000000⟩,
    ⟨6, 0, .setStatus .postOnly⟩]

theorem engine_refines_reference_sample :
    FreshIds sampleStream ∧
      ((Engine.new sampleMarket).run sampleStream).1 =
        ((RefEngine.new sampleMarket).run sampleStream).1 ∧
      HoldsExactly ((Engine.new sampleMarket).run sampleStream).2.book
        ((RefEngine.new sampleMarket).run sampleStream).2.resting :=
  ⟨by decide, engine_refines_reference sampleMarket sampleStream (by decide) sampleStream
    prefix_rfl⟩

example : ((Engine.new sampleMarket).run (sampleStream.take 4)).1.getLast? =
    some [.fill ⟨"4:0", 4, "c", "b", .buy, 1000, 1000000000, 0, none, none⟩, .accepted 4 "c" 0] := by
  decide +kernel

end AtlasCex.Matching

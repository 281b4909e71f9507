import AtlasCex.Lib.Transition
import AtlasCex.Matching.Book
/-!
# The engine (`services/matching/src/engine.rs`)

`Engine::apply` is pure; here it returns the events and the next engine.

| here | there |
| --- | --- |
| `Engine.referencePrice` | `engine.rs:90-98` |
| `Engine.cancel`, `Engine.amend` | `engine.rs:132-190` |
| `Engine.admission` | the early returns of `place`, `engine.rs:201-265` |
| `MatchState`, `matchTurn`, `matchLoop` | the `loop` of `place`, `engine.rs:266-328` |
| `disposition` | the end of `place`, `engine.rs:330-386` |
| `Engine.validate`, `Engine.wouldCross`, `Engine.fillableQty` | `engine.rs:395-491` |
| `crosses` | `engine.rs:497-506` |

`place` reads `limit_price.expect(..)` twice; `validate` has already refused a limit order without
a price (`Valid.limitPrice`), so the default the model reads there is never used.
-/
namespace AtlasCex.Matching
open Lib (Turn)

/-- Does a taker at `limit` cross a resting order at `resting`? -/
def crosses (takerSide : Side) (limit : Option Nat) (resting : Nat) : Bool :=
  match limit with
  | none => true
  | some limit =>
    match takerSide with
    | .buy => decide (resting ≤ limit)
    | .sell => decide (limit ≤ resting)

/-- The collar of `validate`: applied to limit orders, and only against a reference price. -/
def outsideCollar (market : MarketConfig) (price reference : Option Nat) : Bool :=
  match price, reference with
  | some price, some reference =>
    let (lower, upper) := market.collarBand reference
    decide (price < lower ∨ price > upper)
  | _, _ => false

/-- `Engine::validate` over the market and the reference price it reads. The first failing check
is the reason; `none` accepts. -/
def validateRequest (market : MarketConfig) (reference : Option Nat) (request : OrderRequest) :
    Option RejectReason :=
  if !market.status.acceptsPlacement then some .marketNotOpen
  else if market.status = .postOnly ∧ !request.postOnly then some .marketNotOpen
  else if request.qty = 0 then some .quantityNotPositive
  else if request.orderType = .limit ∧ request.price = none then some .priceRequired
  else if request.orderType ≠ .limit ∧ request.price ≠ none then some .priceNotAllowed
  else if request.postOnly ∧ request.orderType ≠ .limit then some .postOnlyRequiresLimit
  else if request.price.any (fun price => !isMultipleOf price market.tickSize) then
    some .tickViolation
  else if !isMultipleOf request.qty market.lotSize then some .lotViolation
  else
    match request.price.or reference with
    | none => some .noReferencePrice
    | some judgedAt =>
      if outsideCollar market request.price reference then some .outsideCollar
      else
        match notional judgedAt request.qty with
        | none => some .notionalOverflow
        | some value => if value < market.minNotional then some .belowMinNotional else none

/-- The ceiling (or floor) a taker may reach: its own limit, or for a market order the collar
edge on its side. `none` when a market order has no reference price. -/
def collarLimit (market : MarketConfig) (reference : Option Nat) (request : OrderRequest) :
    Option (Option Nat) :=
  if request.orderType = .limit then some request.price
  else reference.map fun reference =>
    let (lower, upper) := market.collarBand reference
    some (if request.side = .buy then upper else lower)

structure Engine where
  market : MarketConfig
  book : OrderBook
  lastSeq : Nat

/-- What the match loop carries round: the book, the events, `remaining`, `stp_cancelled_taker`. -/
structure MatchState where
  book : OrderBook
  events : List Event
  remaining : Nat
  stpCancelledTaker : Bool

/-- The fields of a placement the match loop reads. -/
structure Taker where
  seq : Nat
  timestampMs : Int
  orderId : OrderId
  side : Side
  limit : Option Nat
  accountId : String
  stpMode : StpMode

/-- The taker a placement becomes once its limit is known. -/
def OrderRequest.taker (request : OrderRequest) (seq : Nat) (timestampMs : Int)
    (orderId : OrderId) (limit : Option Nat) : Taker :=
  ⟨seq, timestampMs, orderId, request.side, limit, request.accountId, request.stpMode⟩

def Taker.fill (t : Taker) (events : List Event) (makerOrderId : OrderId) (price : Nat)
    (qty : Nat) : Event :=
  .fill {
    fillId := fillId t.seq (events.filter Event.isFill).length
    seq := t.seq
    takerOrderId := t.orderId
    makerOrderId := makerOrderId
    takerSide := t.side
    price := price
    qty := qty
    timestampMs := t.timestampMs
    makerFee := none
    takerFee := none }

/-- The body of `place`'s `loop` (`engine.rs:267-327`). -/
def matchTurn (t : Taker) (s : MatchState) : Turn MatchState :=
  if s.remaining = 0 then .stop s
  else
    match (s.book.ladderFor t.side.opposite).bestPrice with
    | none => .stop s
    | some best =>
      if !crosses t.side t.limit best then .stop s
      else
        match s.book.frontLive t.side.opposite best with
        | (none, book) => .stop { s with book }
        | (some maker, book) =>
          if maker.accountId = t.accountId then
            match t.stpMode with
            | .cancelTaker => .stop { s with book, stpCancelledTaker := true }
            | .cancelMaker | .cancelBoth =>
              let (removed, book) := book.remove maker.orderId
              let events := match removed with
                | some removed =>
                  s.events ++ [.cancelled t.seq removed.orderId removed.remaining]
                | none => s.events
              if t.stpMode = .cancelBoth then
                .stop { s with book, events, stpCancelledTaker := true }
              else .again { s with book, events }
          else
            let traded := min s.remaining maker.remaining
            let book := (book.consumeFront t.side.opposite best traded).2
            .again { s with
              book := book.setLastTradePrice best
              remaining := s.remaining - traded
              events := s.events ++ [t.fill s.events maker.orderId best traded] }

/-- Each turn that goes round takes a maker out of the index or finishes the taker, so one more
turn than there are open orders is enough fuel (`RefMatch.todo_decreases`, `matchLoop_sim`). -/
def matchLoop (t : Taker) (fuel : Nat) (s : MatchState) : MatchState :=
  Lib.loop (matchTurn t) fuel s

/-- The disposition (`engine.rs:330-386`): what becomes of what the loop left unfilled. The second
component is the order to rest, when there is one. -/
def disposition (seq : Nat) (orderId : OrderId) (request : OrderRequest) (events : List Event)
    (remaining : Nat) (stpCancelledTaker : Bool) : List Event × Option RestingOrder :=
  if stpCancelledTaker then
    if events.any Event.isFill then (events ++ [.expired seq orderId remaining], none)
    else (events ++ [.rejected seq orderId .selfTradePrevented], none)
  else if remaining = 0 then (events ++ [.accepted seq orderId 0], none)
  else if request.orderType = .limit ∧ request.timeInForce = .gtc then
    (events ++ [.accepted seq orderId remaining],
      some {
        orderId := orderId
        accountId := request.accountId
        side := request.side
        price := request.price.getD 0
        remaining := remaining
        stpMode := request.stpMode
        restedAtSeq := seq })
  else (events ++ [.expired seq orderId remaining], none)

namespace Engine

def new (market : MarketConfig) : Engine := ⟨market, OrderBook.new, 0⟩

def withBook (market : MarketConfig) (book : OrderBook) (lastSeq : Nat) : Engine :=
  ⟨market, book, lastSeq⟩

/-- Last trade, then the mid of a two-sided quote, then nothing. -/
def referencePrice (e : Engine) : Option Nat :=
  match e.book.lastTradePrice with
  | some last => some last
  | none =>
    match e.book.bestBid, e.book.bestAsk with
    | some bid, some ask => some ((bid + ask) / 2)
    | _, _ => none

def takeLevelChanges (e : Engine) : List LevelChange × Engine :=
  let (levels, book) := e.book.takeLevelChanges
  (levels, { e with book })

def setStatusCommand (e : Engine) (seq : Nat) (status : MarketStatus) : List Event × Engine :=
  ([.statusChanged seq e.market.status status],
    { e with market := { e.market with status } })

def validate (e : Engine) (request : OrderRequest) : Option RejectReason :=
  validateRequest e.market e.referencePrice request

def wouldCross (e : Engine) (side : Side) (price : Nat) : Bool :=
  match (e.book.ladderFor side.opposite).bestPrice with
  | some best => crosses side (some price) best
  | none => false

/-- The inner loop of `fillable_qty`; `error` is its early `return total`. -/
def fillableQueue (b : OrderBook) (accountId : String) (stpMode : StpMode) :
    List OrderId → Nat → Except Nat Nat
  | [], total => .ok total
  | id :: ids, total =>
    match b.get id with
    | none => fillableQueue b accountId stpMode ids total
    | some order =>
      if order.accountId = accountId then
        match stpMode with
        | .cancelTaker | .cancelBoth => .error total
        | .cancelMaker => fillableQueue b accountId stpMode ids total
      else fillableQueue b accountId stpMode ids (total + order.remaining)

def fillableLevels (b : OrderBook) (side : Side) (limit : Option Nat) (accountId : String)
    (stpMode : StpMode) : List (Nat × Level) → Nat → Nat
  | [], total => total
  | (price, level) :: rest, total =>
    if !crosses side limit price then total
    else
      match fillableQueue b accountId stpMode level.queue total with
      | .error total => total
      | .ok total => fillableLevels b side limit accountId stpMode rest total

/-- How much a taker could fill, without mutating anything. FOK's dry run. -/
def fillableQty (e : Engine) (side : Side) (limit : Option Nat) (accountId : String)
    (stpMode : StpMode) : Nat :=
  fillableLevels e.book side limit accountId stpMode
    (e.book.ladderFor side.opposite).iterFromBest 0

/-- The part of `place` before anything is mutated: the events of an early return, or the limit
the match loop runs with. -/
def admission (e : Engine) (seq : Nat) (orderId : OrderId) (request : OrderRequest) :
    Except (List Event) (Option Nat) :=
  let reject := fun reason => Except.error [Event.rejected seq orderId reason]
  if e.book.contains orderId then reject .duplicateClientOrderId
  else
    match e.validate request with
    | some reason => reject reason
    | none =>
      if request.postOnly ∧ e.wouldCross request.side (request.price.getD 0) then
        reject .postOnlyWouldCross
      else
        match collarLimit e.market e.referencePrice request with
        | none => reject .noReferencePrice
        | some limit =>
          if request.timeInForce = .fok ∧
              e.fillableQty request.side limit request.accountId request.stpMode < request.qty then
            .error [.expired seq orderId request.qty]
          else .ok limit

def place (e : Engine) (seq : Nat) (timestampMs : Int) (orderId : OrderId)
    (request : OrderRequest) : List Event × Engine :=
  match e.admission seq orderId request with
  | .error events => (events, e)
  | .ok limit =>
    let s := matchLoop (request.taker seq timestampMs orderId limit) (e.book.openOrderCount + 1)
      ⟨e.book, [], request.qty, false⟩
    let (events, resting) :=
      disposition seq orderId request s.events s.remaining s.stpCancelledTaker
    (events, { e with book := (resting.map s.book.rest).getD s.book })

def cancel (e : Engine) (seq : Nat) (orderId : OrderId) : List Event × Engine :=
  match e.book.remove orderId with
  | (some order, book) => ([.cancelled seq orderId order.remaining], { e with book })
  | (none, book) => ([.rejected seq orderId .unknownOrder], { e with book })

/-- The placement an amend makes of the order it replaces. -/
def replacement (existing : RestingOrder) (newOrderId : OrderId) (price : Nat) (qty : Nat) :
    OrderRequest where
  clientOrderId := newOrderId
  side := existing.side
  orderType := .limit
  timeInForce := .gtc
  price := some price
  qty := qty
  postOnly := false
  stpMode := existing.stpMode
  accountId := existing.accountId

/-- An atomic cancel-and-replace. It loses time priority. -/
def amend (e : Engine) (seq : Nat) (timestampMs : Int) (orderId newOrderId : OrderId)
    (price : Nat) (qty : Nat) : List Event × Engine :=
  match e.book.remove orderId with
  | (none, book) => ([.rejected seq orderId .unknownOrder], { e with book })
  | (some existing, book) =>
    let (events, e) := { e with book }.place seq timestampMs newOrderId
      (replacement existing newOrderId price qty)
    (.cancelled seq orderId existing.remaining :: events, e)

def apply (e : Engine) (sequenced : SequencedCommand) : List Event × Engine :=
  let e := { e with lastSeq := sequenced.seq }
  match sequenced.command with
  | .place orderId request => e.place sequenced.seq sequenced.timestampMs orderId request
  | .cancel orderId => e.cancel sequenced.seq orderId
  | .amend orderId newOrderId price qty =>
    e.amend sequenced.seq sequenced.timestampMs orderId newOrderId price qty
  | .setStatus status => e.setStatusCommand sequenced.seq status

/-- Apply a stream of commands: the event list of each, and the engine they leave. -/
def run (e : Engine) (commands : List SequencedCommand) : List (List Event) × Engine :=
  Lib.run apply e commands

end Engine

theorem apply_lastSeq (e : Engine) (c : SequencedCommand) : (e.apply c).2.lastSeq = c.seq := by
  have hplace : ∀ (e' : Engine) (orderId : OrderId) (request : OrderRequest),
      (e'.place c.seq c.timestampMs orderId request).2.lastSeq = e'.lastSeq := by
    intro e' orderId request; unfold Engine.place; split <;> rfl
  unfold Engine.apply
  cases c.command with
  | place orderId request => simp only [hplace]
  | cancel orderId => simp only [Engine.cancel]; split <;> rfl
  | amend orderId newOrderId price qty =>
    simp only [Engine.amend]
    split
    · rfl
    · simp only [hplace]
  | setStatus status => rfl

/-! ## What `validate` and `collar_limit` guarantee -/

/-- Every check of `validate` that a request has passed. -/
structure Valid (market : MarketConfig) (reference : Option Nat) (request : OrderRequest) : Prop where
  accepts : market.status.acceptsPlacement = true
  status : market.status = .postOnly → request.postOnly = true
  qty : request.qty ≠ 0
  limitPrice : request.orderType = .limit → ∃ price, request.price = some price
  marketPrice : request.orderType ≠ .limit → request.price = none
  postOnly : request.postOnly = true → request.orderType = .limit
  tick : ∀ price, request.price = some price → isMultipleOf price market.tickSize = true
  lot : isMultipleOf request.qty market.lotSize = true
  collar : ∀ price last, request.price = some price → reference = some last →
    (market.collarBand last).1 ≤ price ∧ price ≤ (market.collarBand last).2
  notional : ∃ judgedAt value, request.price.or reference = some judgedAt ∧
    notional judgedAt request.qty = some value ∧ market.minNotional ≤ value

theorem of_check_none {α : Type} {failed : Prop} [Decidable failed] {reason : α} {rest : Option α}
    (h : (if failed then some reason else rest) = none) : ¬failed ∧ rest = none := by
  by_cases hf : failed
  · rw [if_pos hf] at h; cases h
  · rw [if_neg hf] at h; exact ⟨hf, h⟩

theorem of_check_some {α : Type} {failed : Prop} [Decidable failed] {reason other : α}
    {rest : Option α} (h : (if failed then some reason else rest) = some other) :
    (failed ∧ reason = other) ∨ (¬failed ∧ rest = some other) := by
  by_cases hf : failed
  · rw [if_pos hf] at h; cases h; exact .inl ⟨hf, rfl⟩
  · rw [if_neg hf] at h; exact .inr ⟨hf, h⟩

variable {market : MarketConfig} {reference : Option Nat} {request : OrderRequest}

theorem validateRequest_none (h : validateRequest market reference request = none) :
    Valid market reference request := by
  unfold validateRequest at h
  obtain ⟨haccepts, h⟩ := of_check_none h
  obtain ⟨hstatus, h⟩ := of_check_none h
  obtain ⟨hqty, h⟩ := of_check_none h
  obtain ⟨hlimit, h⟩ := of_check_none h
  obtain ⟨hmarket, h⟩ := of_check_none h
  obtain ⟨hpost, h⟩ := of_check_none h
  obtain ⟨htick, h⟩ := of_check_none h
  obtain ⟨hlot, h⟩ := of_check_none h
  cases hjudged : request.price.or reference with
  | none => rw [hjudged] at h; cases h
  | some judgedAt =>
    rw [hjudged] at h
    obtain ⟨hcollar, h⟩ := of_check_none h
    cases hnotional : AtlasCex.Matching.notional judgedAt request.qty with
    | none => rw [hnotional] at h; cases h
    | some value =>
      rw [hnotional] at h
      obtain ⟨hmin, -⟩ := of_check_none h
      refine ⟨by simpa using haccepts, by simpa using hstatus, hqty, fun hl => ?_, fun hl => ?_,
        fun hp => ?_, fun price hp => ?_, by simpa using hlot, fun price last hp hr => ?_,
        judgedAt, value, hjudged, hnotional, Nat.not_lt.1 hmin⟩
      · exact Option.ne_none_iff_exists'.1 fun hn => hlimit ⟨hl, hn⟩
      · exact Decidable.not_not.1 fun hn => hmarket ⟨hl, hn⟩
      · exact Decidable.not_not.1 fun hn => hpost ⟨hp, hn⟩
      · simpa [hp] using htick
      · simp only [outsideCollar, hp, hr, decide_eq_true_eq] at hcollar
        omega

/-- There is no other check. -/
theorem Valid.validateRequest (h : Valid market reference request) :
    validateRequest market reference request = none := by
  obtain ⟨judgedAt, value, hjudged, hvalue, hmin⟩ := h.notional
  have hstatus : ¬(market.status = .postOnly ∧ (!request.postOnly) = true) :=
    fun ⟨hs, hp⟩ => by rw [h.status hs] at hp; cases hp
  have hlimit : ¬(request.orderType = .limit ∧ request.price = none) := by
    rintro ⟨hl, hp⟩
    obtain ⟨price, hprice⟩ := h.limitPrice hl
    rw [hp] at hprice; cases hprice
  have hmarket : ¬(request.orderType ≠ .limit ∧ request.price ≠ none) :=
    fun ⟨hl, hp⟩ => hp (h.marketPrice hl)
  have hpost : ¬(request.postOnly = true ∧ request.orderType ≠ .limit) :=
    fun ⟨hp, hl⟩ => hl (h.postOnly hp)
  have htick : ¬request.price.any (fun price => !isMultipleOf price market.tickSize) = true := by
    intro hany
    obtain ⟨price, hprice, hoff⟩ := (Option.any_eq_true _ _).1 hany
    rw [h.tick price hprice] at hoff
    cases hoff
  have hcollar : ¬outsideCollar market request.price reference = true := by
    intro hout
    cases hprice : request.price with
    | none => rw [hprice] at hout; cases hout
    | some price =>
      cases hlast : reference with
      | none => rw [hprice, hlast] at hout; cases hout
      | some last =>
        have := h.collar price last hprice hlast
        simp only [outsideCollar, hprice, hlast, decide_eq_true_eq] at hout
        omega
  unfold AtlasCex.Matching.validateRequest
  rw [if_neg (by simp [h.accepts]), if_neg hstatus, if_neg h.qty, if_neg hlimit, if_neg hmarket,
    if_neg hpost, if_neg htick, if_neg (by simp [h.lot]), hjudged]
  simp only [if_neg hcollar, hvalue, if_neg (Nat.not_lt.2 hmin)]

/-- The limit of a limit order is its own price; of a market order, the collar's edge. -/
theorem collarLimit_some
    {limit : Option Nat} (h : collarLimit market reference request = some limit) :
    (request.orderType = .limit ∧ limit = request.price) ∨
      (request.orderType ≠ .limit ∧ ∃ last, reference = some last ∧
        limit = some (if request.side = .buy then (market.collarBand last).2
          else (market.collarBand last).1)) := by
  unfold collarLimit at h
  by_cases hl : request.orderType = .limit
  · rw [if_pos hl] at h; cases h; exact .inl ⟨hl, rfl⟩
  · rw [if_neg hl] at h
    obtain ⟨last, hlast, rfl⟩ := Option.map_eq_some_iff.1 h
    exact .inr ⟨hl, last, hlast, rfl⟩

/-! ## What becomes of a taker -/

/-- The taker as it rests, with `remaining` of it. -/
def OrderRequest.resting (request : OrderRequest) (seq : Nat) (orderId : OrderId)
    (remaining : Nat) : RestingOrder :=
  ⟨orderId, request.accountId, request.side, request.price.getD 0, remaining, request.stpMode, seq⟩

/-- Everything `disposition` can do: one event about the taker, and at most the taker rests. -/
inductive Disposed (seq : Nat) (orderId : OrderId) (request : OrderRequest) (events : List Event)
    (remaining : Nat) (stop : Bool) : List Event × Option RestingOrder → Prop where
  | expired : Disposed seq orderId request events remaining stop
      (events ++ [.expired seq orderId remaining], none)
  | prevented (hstop : stop = true) (hfills : events.any Event.isFill = false) :
    Disposed seq orderId request events remaining stop
      (events ++ [.rejected seq orderId .selfTradePrevented], none)
  | filled (hrem : remaining = 0) : Disposed seq orderId request events remaining stop
      (events ++ [.accepted seq orderId 0], none)
  | rested (hstop : stop = false) (hrem : remaining ≠ 0) (htype : request.orderType = .limit) :
    Disposed seq orderId request events remaining stop
      (events ++ [.accepted seq orderId remaining], some (request.resting seq orderId remaining))

theorem disposed (seq : Nat) (orderId : OrderId) (request : OrderRequest) (events : List Event)
    (remaining : Nat) (stop : Bool) : Disposed seq orderId request events remaining stop
      (disposition seq orderId request events remaining stop) := by
  unfold disposition
  cases stop with
  | true =>
    rw [if_pos rfl]
    cases hfills : events.any Event.isFill with
    | true => exact .expired
    | false => exact .prevented rfl hfills
  | false =>
    rw [if_neg (by simp)]
    by_cases hrem : remaining = 0
    · rw [if_pos hrem]; exact .filled hrem
    · rw [if_neg hrem]
      by_cases hgtc : request.orderType = .limit ∧ request.timeInForce = .gtc
      · rw [if_pos hgtc]; exact .rested rfl hrem hgtc.1
      · rw [if_neg hgtc]; exact .expired

variable {seq : Nat} {orderId : OrderId} {events : List Event}

theorem disposition_rests {remaining : Nat} {stop : Bool} {o : RestingOrder}
    (h : (disposition seq orderId request events remaining stop).2 = some o) :
    stop = false ∧ remaining ≠ 0 ∧ request.orderType = .limit ∧
      o = request.resting seq orderId remaining := by
  have hd := disposed seq orderId request events remaining stop
  generalize disposition seq orderId request events remaining stop = d at h hd
  cases hd with
  | expired | prevented | filled => cases h
  | rested hstop hrem htype => cases h; exact ⟨hstop, hrem, htype, rfl⟩

/-! ## Every event carries its command's sequence -/

def OfSeq (seq : Nat) (events : List Event) : Prop := ∀ ev ∈ events, ev.seq = seq

theorem OfSeq.single {ev : Event} (h : ev.seq = seq) : OfSeq seq [ev] := by
  intro ev' hev'
  rw [List.mem_singleton.1 hev', h]

theorem OfSeq.append {later : List Event} (h : OfSeq seq events)
    (h' : OfSeq seq later) : OfSeq seq (events ++ later) := by
  intro ev hev
  rcases List.mem_append.1 hev with hev | hev
  · exact h ev hev
  · exact h' ev hev

/-- What a turn adds to the events: nothing, a maker that self-trade prevention cancelled, or a fill. -/
inductive Adds (t : Taker) (events : List Event) : List Event → Prop where
  | nothing : Adds t events events
  | cancelled (maker : OrderId) (remaining : Nat) :
    Adds t events (events ++ [.cancelled t.seq maker remaining])
  | fill (maker : OrderId) (price qty : Nat) : Adds t events (events ++ [t.fill events maker price qty])

theorem matchTurn_adds (t : Taker) (s : MatchState) : Adds t s.events (matchTurn t s).val.events := by
  -- what self-trade prevention does with the maker it removed
  have hremoved : ∀ removed : Option RestingOrder, Adds t s.events (match removed with
      | some removed => s.events ++ [.cancelled t.seq removed.orderId removed.remaining]
      | none => s.events) := by
    rintro (_ | removed)
    · exact .nothing
    · exact .cancelled _ _
  unfold matchTurn
  split
  · exact .nothing
  split
  · exact .nothing
  split
  · exact .nothing
  split
  · exact .nothing
  rename_i maker book _
  split
  · split
    · exact .nothing
    all_goals
      generalize book.remove maker.orderId = r
      simp only
      split <;> exact hremoved r.1
  · exact .fill _ _ _

theorem matchTurn_ofSeq (t : Taker) (s : MatchState) (h : OfSeq t.seq s.events) :
    OfSeq t.seq (matchTurn t s).val.events := by
  have hadds := matchTurn_adds t s
  generalize (matchTurn t s).val.events = events at hadds
  cases hadds with
  | nothing => exact h
  | cancelled maker remaining => exact h.append (.single rfl)
  | fill maker price qty => exact h.append (.single rfl)

/-- What a command gives: at least one event, and all under its sequence. -/
structure Emits (seq : Nat) (events : List Event) : Prop where
  ne_nil : events ≠ []
  ofSeq : OfSeq seq events

theorem Emits.single {ev : Event} (h : ev.seq = seq) : Emits seq [ev] :=
  ⟨by simp, .single h⟩

theorem OfSeq.emits {later : List Event} (h : OfSeq seq events)
    (h' : Emits seq later) : Emits seq (events ++ later) :=
  ⟨List.append_ne_nil_of_right_ne_nil _ h'.ne_nil, h.append h'.ofSeq⟩

/-- A placement that does not reach the loop has one event, which is not a fill. -/
theorem admission_event {e : Engine} (h : e.admission seq orderId request = .error events) :
    ∃ ev : Event, events = [ev] ∧ ev.seq = seq ∧ ev.isFill = false := by
  unfold Engine.admission at h
  simp only at h
  split at h
  · cases h; exact ⟨_, rfl, rfl, rfl⟩
  split at h
  · cases h; exact ⟨_, rfl, rfl, rfl⟩
  split at h
  · cases h; exact ⟨_, rfl, rfl, rfl⟩
  split at h
  · cases h; exact ⟨_, rfl, rfl, rfl⟩
  split at h
  · cases h; exact ⟨_, rfl, rfl, rfl⟩
  · cases h

theorem admission_emits {e : Engine} (h : e.admission seq orderId request = .error events) :
    Emits seq events := by
  obtain ⟨ev, rfl, hseq, -⟩ := admission_event h
  exact .single hseq

theorem disposition_emits (orderId : OrderId) (request : OrderRequest)
    (h : OfSeq seq events) (remaining : Nat) (stop : Bool) :
    Emits seq (disposition seq orderId request events remaining stop).1 := by
  have hd := disposed seq orderId request events remaining stop
  generalize disposition seq orderId request events remaining stop = d at hd
  cases hd <;> exact h.emits (.single rfl)

theorem place_emits (e : Engine) (seq : Nat) (timestampMs : Int) (orderId : OrderId)
    (request : OrderRequest) : Emits seq (e.place seq timestampMs orderId request).1 := by
  unfold Engine.place
  cases hadm : e.admission seq orderId request with
  | error events => exact admission_emits hadm
  | ok limit =>
    apply disposition_emits
    exact Lib.loop_induct (P := fun s : MatchState => OfSeq seq s.events)
      (matchTurn_ofSeq (request.taker seq timestampMs orderId limit)) _ (by simp [OfSeq])

theorem apply_emits (e : Engine) (c : SequencedCommand) : Emits c.seq (e.apply c).1 := by
  unfold Engine.apply
  cases c.command with
  | place orderId request => exact place_emits _ _ _ _ _
  | cancel orderId =>
    simp only [Engine.cancel]
    split <;> exact .single rfl
  | amend orderId newOrderId price qty =>
    simp only [Engine.amend]
    split
    · exact .single rfl
    · exact @OfSeq.emits c.seq [_] _ (.single rfl) (place_emits _ _ _ _ _)
  | setStatus status => exact .single rfl

end AtlasCex.Matching

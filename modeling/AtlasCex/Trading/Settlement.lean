import AtlasCex.Trading.Orders
import AtlasCex.Lib.Transition
/-!
# The gateway's transactions and settlement

| here | there |
| --- | --- |
| `releaseOutstanding` | `settlement/holds.ts:39-64` |
| `createWithHold`     | `order.service.ts:425-488`, the transaction |
| `Unfilled`, `finalizeUnfilled` | `order.service.ts:163-188` and its callers: a rejection, an unfilled expiry, a refused or never received placement, a cancel at full quantity |
| `Resting`            | the gateway's other moves: `PENDING_ENGINE → OPEN`, and `→ PENDING_CANCEL` |
| `notional`, `feeAmount`, `fillAmounts` | `types/src/price.ts:118-143`, `orders/src/settlement.ts:53-82` |
| `recordFill`, `finish`, `assertHoldAgrees`, `settleFill`, `apply` | `settlement/applier.ts:132-451` |
| `Label`, `step`      | one committed transaction; one that throws leaves the books as they were |

The rates of a fill come from the tier snapshots (`fee-tiers.ts`) and are arguments here: nothing
depends on where they come from. A redelivered event is the same label again. `finalizeUnfilled`
is called on the strength of an engine answer; here it may be called at any time, for any order.
-/
namespace AtlasCex.Trading

open Ledger (UserId AssetKey LedgerTransaction postOrderHold postOrderRelease postTradeSettlement
  userTradingAvailable userOrderLocked balance)
open EngineStream (EventKey)
open Matching (OrderId Side)
open Lib (refuse require)

def halt {α : Type} (reason : HaltReason) : Except Failure α := .error (.halt reason)

/-- Release whatever is still held. -/
def releaseOutstanding (books : Books) (order : Order) (requireUnfilled : Bool) :
    Except Failure Books := do
  let outstanding ← require (books.outstandingHold order.id) (.hold "order_not_found")
  refuse (outstanding < 0) (.hold "outstanding_negative")
  refuse (requireUnfilled = true ∧ outstanding ≠ order.holdAmount)
    (.hold "released_as_unfilled_but_consumed")
  if outstanding = 0 then pure books
  else
    let t ← (postOrderRelease order.id order.userId order.holdAsset outstanding).mapError .posting
    pure (books.post t)

/-! ## The gateway -/

/-- The order row and its hold, in one transaction. -/
def createWithHold (books : Books) (order : Order) : Except Failure Books := do
  let result ← books.createPending order
  match result with
  | (_, none) => pure books
  | (created, some books) =>
    let available := balance books.ledger (userTradingAvailable created.userId created.holdAsset)
    refuse (available < created.holdAmount) .insufficientFunds
    let t ← (postOrderHold created.id created.userId created.holdAsset created.holdAmount).mapError
      .posting
    pure (books.post t)

/-- The ways the gateway finishes an order that never filled. -/
inductive Unfilled where
  | rejected (reason : String)
  | expired
  | failed
  | cancelled (source : OrderStatus)
deriving DecidableEq, Repr

namespace Unfilled

def source : Unfilled → OrderStatus
  | cancelled source => source
  | _ => .pendingEngine

def target : Unfilled → OrderStatus
  | rejected _ => .rejected
  | expired => .expired
  | failed => .failed
  | cancelled _ => .cancelled

def patch : Unfilled → OrderPatch
  | rejected reason => ⟨none, none, some reason⟩
  | _ => .empty

end Unfilled

def finalizeUnfilled (books : Books) (id : OrderId) (how : Unfilled) : Except Failure Books := do
  match ← books.transition id how.source how.target how.patch with
  | none => pure books
  | some (moved, books) => releaseOutstanding books moved true

/-- The gateway's moves that leave the hold alone. -/
inductive Resting where
  | accepted (engineSeq : Option Nat)
  | cancelRequested (afterFill : Bool)
deriving DecidableEq, Repr

namespace Resting

def source : Resting → OrderStatus
  | accepted _ => .pendingEngine
  | cancelRequested afterFill => if afterFill then .partiallyFilled else .open

def target : Resting → OrderStatus
  | accepted _ => .open
  | cancelRequested _ => .pendingCancel

def patch : Resting → OrderPatch
  | accepted engineSeq => ⟨none, engineSeq, none⟩
  | cancelRequested _ => .empty

end Resting

def moveResting (books : Books) (id : OrderId) (move : Resting) : Except Failure Books := do
  match ← books.transition id move.source move.target move.patch with
  | none => pure books
  | some (_, books) => pure books

/-! ## What a fill costs each side -/

def priceScale : Int := 1000000000
def bpsDenominator : Int := 10000
def maxU64 : Int := 18446744073709551615

def notional (price qty : Int) : Except Failure Int := do
  refuse (price < 0 ∨ qty < 0) (.range "notional operands must be non-negative")
  refuse (maxU64 < price * qty / priceScale) (.range "notional exceeds u64")
  pure (price * qty / priceScale)

def feeAmount (notionalValue bps : Int) : Except Failure Int := do
  refuse (bps < 0) (.range "fee basis points must be a non-negative integer")
  refuse (notionalValue < 0) (.range "fee notional must be non-negative")
  pure (notionalValue * bps / bpsDenominator)

structure FillAmounts where
  notional : Int
  buyerFee : Int
  sellerFee : Int
  takerFee : Int
  makerFee : Int

def fillAmounts (price qty : Int) (takerSide : Side) (takerBps makerBps : Int) :
    Except Failure FillAmounts := do
  refuse (price ≤ 0) (.range "fill price must be positive")
  refuse (qty ≤ 0) (.range "fill quantity must be positive")
  let value ← notional price qty
  let takerFee ← feeAmount value takerBps
  let makerFee ← feeAmount value makerBps
  pure
    { notional := value
      buyerFee := if takerSide = .buy then takerFee else makerFee
      sellerFee := if takerSide = .buy then makerFee else takerFee
      takerFee := takerFee
      makerFee := makerFee }

/-! ## Settlement -/

structure SettlementMarket where
  id : String
  baseAsset : AssetKey
  quoteAsset : AssetKey
deriving DecidableEq, Repr

def settlementFillId (market : SettlementMarket) (engineFillId : String) : String :=
  market.id ++ ":" ++ engineFillId

structure FillEvent where
  fillId : String
  takerOrderId : OrderId
  makerOrderId : OrderId
  takerSide : Side
  price : Int
  qty : Int
deriving DecidableEq, Repr

inductive SettlementEvent where
  | fill (event : FillEvent)
  | accepted (orderId : OrderId) (restingQty : Int)
  | rejected (orderId : OrderId) (reason : String)
  | cancelled (orderId : OrderId) (remainingQty : Int)
  | expired (orderId : OrderId) (remainingQty : Int)
  | statusChanged
deriving DecidableEq, Repr

def cancellable : List OrderStatus := [.open, .partiallyFilled, .pendingCancel]
def expirable : List OrderStatus := [.pendingEngine, .open, .partiallyFilled, .pendingCancel]

/-- A guarded transition is retried this often after losing to another writer. -/
def contentionRetries : Nat := 3

def load (books : Books) (id : OrderId) (market : SettlementMarket) : Except Failure Order := do
  let order ← require (books.findById id) (.halt .unknownOrder)
  refuse (order.market ≠ market.id) (.halt .orderMarketMismatch)
  pure order

/-- One attempt of `recordFill`: the move the order's status calls for. -/
def attemptFill (books : Books) (order : Order) (traded : Int) (key : EventKey) :
    Except Failure (Option (Order × Books)) := do
  let filled := order.filledQty + traded
  refuse (order.qty < filled) (.halt .overfill)
  let complete : Bool := filled = order.qty
  let patch : OrderPatch :=
    ⟨some filled, if order.engineSeq = none then some key.seq else none, none⟩
  match order.status with
  | .pendingEngine | .open =>
    books.transition order.id order.status (if complete then .filled else .partiallyFilled) patch
  | .partiallyFilled | .pendingCancel =>
    if complete then books.transition order.id order.status .filled patch
    else pure (books.recordFill order.id order.status filled)
  | _ => halt .fillForTerminalOrder

/-- Record a fill's quantity on one order; a lost race re-reads and tries again. -/
def recordFill (books : Books) (order : Order) (traded : Int) (key : EventKey) :
    Nat → Except Failure (Order × Books)
  | 0 => halt .orderContended
  | attempts + 1 => do
    match ← attemptFill books order traded key with
    | some moved => pure moved
    | none =>
      let current ← require (books.findById order.id) (.halt .unknownOrder)
      recordFill books current traded key attempts

/-- Move an order to a terminal status and release what it still holds. `none` if it was in that
status already. -/
def finish (books : Books) (order : Order) (allowedFrom : List OrderStatus) (target : OrderStatus)
    (rejectReason : Option String) : Nat → Except Failure (Option Books)
  | 0 => halt .orderContended
  | attempts + 1 =>
    if order.status = target then pure none
    else do
      refuse (order.status.isTerminalOrder = true ∨ order.status ∉ allowedFrom)
        (.halt (.finishedFrom target order.status))
      match ← books.transition order.id order.status target ⟨none, none, rejectReason⟩ with
      | some (moved, books) => some <$> releaseOutstanding books moved false
      | none =>
        let current ← require (books.findById order.id) (.halt .unknownOrder)
        finish books current allowedFrom target rejectReason attempts

/-- A holding order still holds something, a terminal one exactly nothing. -/
def assertHoldAgrees (books : Books) (id : OrderId) : Except Failure Unit := do
  let order ← require (books.findById id) (.halt .unknownOrder)
  let outstanding ← require (books.outstandingHold id) (.halt .unknownOrder)
  if order.status.orderHoldsFunds then
    refuse (outstanding ≤ 0) (.halt .holdingOrderHoldsNothing)
  else refuse (outstanding ≠ 0) (.halt .terminalOrderHoldsFunds)

/-- Record the fill on one of its two orders, and release the rest of the hold if it is done. -/
def settleSide (books : Books) (order : Order) (qty : Int) (key : EventKey) :
    Except Failure Books := do
  let (updated, books) ← recordFill books order qty key (contentionRetries + 1)
  if updated.status = .filled then releaseOutstanding books updated false else pure books

/-- Neither hold may go below zero. -/
def checkConsumption (books : Books) (order : Order) : Except Failure Unit := do
  let outstanding ← require (books.outstandingHold order.id) (.halt .overConsumption)
  refuse (outstanding < 0) (.halt .overConsumption)

def settleFill (books : Books) (market : SettlementMarket) (key : EventKey) (event : FillEvent)
    (takerBps makerBps : Int) : Except Failure Books := do
  let taker ← load books event.takerOrderId market
  let maker ← load books event.makerOrderId market
  refuse (taker.side ≠ event.takerSide ∨ maker.side = taker.side) (.halt .sideMismatch)
  let buyer := if event.takerSide = .buy then taker else maker
  let seller := if event.takerSide = .buy then maker else taker
  refuse (buyer.holdAsset ≠ market.quoteAsset ∨ seller.holdAsset ≠ market.baseAsset)
    (.halt .holdAssetMismatch)
  let amounts ← fillAmounts event.price event.qty event.takerSide takerBps makerBps
  let fillId := settlementFillId market event.fillId
  let recorded ← books.insertFill
    { fillId := fillId
      market := market.id
      key := key
      takerOrderId := taker.id
      makerOrderId := maker.id
      takerSide := event.takerSide
      price := event.price
      qty := event.qty
      notional := amounts.notional
      takerFee := amounts.takerFee
      makerFee := amounts.makerFee }
  match recorded with
  | none => pure books
  | some books =>
    let t ← (postTradeSettlement
      { fillId := fillId
        buyerId := buyer.userId
        sellerId := seller.userId
        baseAsset := market.baseAsset
        quoteAsset := market.quoteAsset
        qty := event.qty
        notional := amounts.notional
        buyerFee := amounts.buyerFee
        sellerFee := amounts.sellerFee }).mapError .posting
    let books := books.post t
    checkConsumption books buyer
    checkConsumption books seller
    let books ← settleSide books taker event.qty key
    let books ← settleSide books maker event.qty key
    assertHoldAgrees books taker.id
    assertHoldAgrees books maker.id
    pure books

/-- `remaining` as the engine reports it matches what the books say is unfilled. -/
def checkRemaining (order : Order) (remaining : Int) : Except Failure Unit :=
  refuse (order.qty - order.filledQty ≠ remaining) (.halt .remainingMismatch)

/-- A disposition: finish the order unless it is finished that way already. -/
def dispose (books : Books) (order : Order) (allowedFrom : List OrderStatus)
    (target : OrderStatus) (rejectReason : Option String) : Except Failure Books := do
  let moved ← finish books order allowedFrom target rejectReason (contentionRetries + 1)
  let books := moved.getD books
  assertHoldAgrees books order.id
  pure books

def apply (books : Books) (market : SettlementMarket) (key : EventKey) (takerBps makerBps : Int) :
    SettlementEvent → Except Failure Books
  | .fill event => settleFill books market key event takerBps makerBps
  | .cancelled orderId remainingQty => do
    let order ← load books orderId market
    if order.status ≠ .cancelled then checkRemaining order remainingQty else pure ()
    dispose books order cancellable .cancelled none
  | .expired orderId remainingQty => do
    let order ← load books orderId market
    if order.status ≠ .expired then checkRemaining order remainingQty else pure ()
    dispose books order expirable .expired none
  | .rejected orderId reason =>
    if reason = "UNKNOWN_ORDER" then pure books
    else do
      let order ← load books orderId market
      refuse (order.filledQty ≠ 0) (.halt .rejectedAfterFill)
      dispose books order [.pendingEngine] .rejected (some reason)
  | .accepted orderId restingQty => do
    let order ← load books orderId market
    checkRemaining order restingQty
    if restingQty = 0 then
      refuse (order.status ≠ .filled) (.halt .acceptedUnfilled)
      pure books
    else if order.status ≠ .pendingEngine then pure books
    else
      match ← books.transition order.id .pendingEngine .open ⟨none, some key.seq, none⟩ with
      | some (_, books) => pure books
      | none => pure books
  | .statusChanged => pure books

/-! ## Runs -/

inductive Label where
  | createWithHold (order : Order)
  | finalizeUnfilled (id : OrderId) (how : Unfilled)
  | moveResting (id : OrderId) (move : Resting)
  | settle (market : SettlementMarket) (key : EventKey) (takerBps makerBps : Int)
      (event : SettlementEvent)
deriving DecidableEq, Repr

def transact (books : Books) : Label → Except Failure Books
  | .createWithHold order => createWithHold books order
  | .finalizeUnfilled id how => finalizeUnfilled books id how
  | .moveResting id move => moveResting books id move
  | .settle market key takerBps makerBps event => apply books market key takerBps makerBps event

/-- The transaction commits, or is rolled back. -/
def step (books : Books) (label : Label) : Books := (transact books label).toOption.getD books

end AtlasCex.Trading

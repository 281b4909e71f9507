import AtlasCex.EngineStream.Journal
import AtlasCex.Ledger.Postings
import AtlasCex.Matching.Types
/-!
# Orders, fills and the books

| here | there |
| --- | --- |
| `OrderStatus`, `transitions`, `isTerminalOrder`, `orderHoldsFunds` | `types/src/order-states.ts` |
| `Order`, `OrderPatch` | the columns of `orders` the gateway and settlement use (`order.repository.ts`) |
| `Fill`                | the columns of `fills` that decide an amount (`settlement.repository.ts:29-48`) |
| `Books`               | the three tables one transaction sees: orders, fills, ledger |
| `outstandingHold`     | `settlement.repository.ts:195-224` |
| `insertFill`          | `settlement.repository.ts:161-193`, with the constraints of the settlement migration |
| `transition`, `recordFill`, `createPending` | `order.repository.ts:183-291` |

`bigint` is `Int`. A transaction is a function from books to books or to what it throws; one that
throws is rolled back. The deferred triggers of the ledger (one `order_release` an order, no
negative trading balance) are not checked here: what is proved of the books is that they never
fire.
-/
namespace AtlasCex.Trading

open Ledger (UserId AssetKey LedgerTransaction PostingError AccountRef)
open EngineStream (EventKey)
open Matching (OrderId Side)
open Lib (refuse require)

inductive OrderStatus where
  | pendingEngine
  | open
  | partiallyFilled
  | pendingCancel
  | filled
  | cancelled
  | rejected
  | expired
  | failed
deriving DecidableEq, Repr

namespace OrderStatus

/-- `ORDER_TRANSITIONS`. -/
def transitions : OrderStatus → List OrderStatus
  | pendingEngine => [.open, partiallyFilled, filled, rejected, expired, failed]
  | .open => [partiallyFilled, filled, pendingCancel, cancelled, expired]
  | partiallyFilled => [filled, pendingCancel, cancelled, expired]
  | pendingCancel => [cancelled, filled, partiallyFilled, expired]
  | filled => []
  | cancelled => []
  | rejected => []
  | expired => []
  | failed => []

def canOrderTransition (source target : OrderStatus) : Bool := source.transitions.contains target

def isTerminalOrder : OrderStatus → Bool
  | filled | cancelled | rejected | expired | failed => true
  | _ => false

def orderHoldsFunds : OrderStatus → Bool
  | pendingEngine | .open | partiallyFilled | pendingCancel => true
  | _ => false

/-- An order is in the book's hands or done with. -/
theorem holds_iff (status : OrderStatus) :
    status.orderHoldsFunds = true ↔ status.isTerminalOrder = false := by
  cases status <;> decide

end OrderStatus

structure Order where
  id : OrderId
  userId : UserId
  clientOrderId : String
  market : String
  side : Side
  qty : Int
  filledQty : Int
  status : OrderStatus
  holdAsset : AssetKey
  holdAmount : Int
  engineSeq : Option Nat
  rejectReason : Option String
deriving DecidableEq, Repr

structure OrderPatch where
  filledQty : Option Int
  engineSeq : Option Nat
  rejectReason : Option String

def OrderPatch.empty : OrderPatch := ⟨none, none, none⟩

def OrderPatch.apply (patch : OrderPatch) (order : Order) : Order :=
  { order with
    filledQty := patch.filledQty.getD order.filledQty
    engineSeq := patch.engineSeq <|> order.engineSeq
    rejectReason := patch.rejectReason <|> order.rejectReason }

structure Fill where
  fillId : String
  market : String
  key : EventKey
  takerOrderId : OrderId
  makerOrderId : OrderId
  takerSide : Side
  price : Int
  qty : Int
  notional : Int
  takerFee : Int
  makerFee : Int
deriving DecidableEq, Repr

/-- The reasons settlement halts with (`applier.ts`). -/
inductive HaltReason where
  | unknownOrder
  | orderMarketMismatch
  | overfill
  | fillForTerminalOrder
  | orderContended
  | finishedFrom (target source : OrderStatus)
  | holdingOrderHoldsNothing
  | terminalOrderHoldsFunds
  | sideMismatch
  | holdAssetMismatch
  | overConsumption
  | remainingMismatch
  | rejectedAfterFill
  | acceptedUnfilled
deriving DecidableEq, Repr

/-- What a transaction can throw. -/
inductive Failure where
  | halt (reason : HaltReason)
  | hold (reason : String)
  | posting (error : PostingError)
  | illegalTransition (source target : OrderStatus)
  | constraint (name : String)
  | range (what : String)
  | insufficientFunds
deriving DecidableEq, Repr

structure Books where
  orders : List Order
  fills : List Fill
  ledger : List LedgerTransaction
deriving DecidableEq, Repr

/-! ## The outstanding hold -/

/-- What a fill takes from an order's hold. -/
def consumption (order : Order) (fill : Fill) : Int :=
  if order.side = .buy then
    fill.notional + (if fill.takerOrderId = order.id then fill.takerFee else fill.makerFee)
  else fill.qty

def Fill.touches (fill : Fill) (id : OrderId) : Bool :=
  fill.takerOrderId = id || fill.makerOrderId = id

def consumed (fills : List Fill) (order : Order) : Int :=
  ((fills.filter (·.touches order.id)).map (consumption order)).sum

/-- The `order_release` transactions of an order. -/
def releases (ledger : List LedgerTransaction) (id : OrderId) : List LedgerTransaction :=
  ledger.filter fun t => t.kind = .orderRelease && t.referenceId = id

/-- What a transaction debits from `user_order_locked` accounts. -/
def lockedDebits (t : LedgerTransaction) : Int :=
  ((t.entries.filter fun e => e.account.type = .userOrderLocked && e.direction = .debit).map
    (·.amount)).sum

def released (ledger : List LedgerTransaction) (id : OrderId) : Int :=
  ((releases ledger id).map lockedDebits).sum

namespace Books

def findById (books : Books) (id : OrderId) : Option Order := books.orders.find? (·.id = id)

def outstanding (books : Books) (order : Order) : Int :=
  order.holdAmount - consumed books.fills order - released books.ledger order.id

def outstandingHold (books : Books) (id : OrderId) : Option Int :=
  (books.findById id).map books.outstanding

def post (books : Books) (t : LedgerTransaction) : Books :=
  { books with ledger := books.ledger ++ [t] }

/-! ## Rows -/

def replace (books : Books) (order : Order) : Books :=
  { books with orders := books.orders.map fun o => if o.id = order.id then order else o }

/-- The guarded transition: nothing when the order is not in `source`. -/
def transition (books : Books) (id : OrderId) (source target : OrderStatus) (patch : OrderPatch) :
    Except Failure (Option (Order × Books)) := do
  refuse (source.canOrderTransition target = false) (.illegalTransition source target)
  match books.orders.find? fun o => o.id = id && o.status = source with
  | none => pure none
  | some order =>
    let moved := patch.apply { order with status := target }
    pure (some (moved, books.replace moved))

/-- Patch `filled_qty` under an unchanged status; it only grows. -/
def recordFill (books : Books) (id : OrderId) (status : OrderStatus) (filledQty : Int) :
    Option (Order × Books) :=
  (books.orders.find? fun o => o.id = id && o.status = status && o.filledQty < filledQty).map
    fun order =>
      let patched := { order with filledQty := filledQty }
      (patched, books.replace patched)

/-- A new order row, or the one the client order id already names. -/
def createPending (books : Books) (order : Order) : Except Failure (Order × Option Books) := do
  match books.orders.find? fun o => o.userId = order.userId && o.clientOrderId = order.clientOrderId with
  | some existing => pure (existing, none)
  | none =>
    refuse ((books.findById order.id).isSome = true) (.constraint "orders_pkey")
    refuse (order.qty ≤ 0) (.constraint "orders_qty_positive")
    refuse (order.holdAmount ≤ 0) (.constraint "orders_hold_positive")
    let created := { order with
      status := .pendingEngine, filledQty := 0, engineSeq := none, rejectReason := none }
    pure (created, some { books with orders := books.orders ++ [created] })

/-- A new fill row; nothing when the fill id is already there. -/
def insertFill (books : Books) (fill : Fill) : Except Failure (Option Books) := do
  if books.fills.any (·.fillId = fill.fillId) then pure none
  else
    refuse (books.fills.any fun f => f.market = fill.market && f.key = fill.key)
      (.constraint "fills_market_seq_idx_key")
    refuse (fill.notional < fill.takerFee ∨ fill.notional < fill.makerFee)
      (.constraint "fills_fees_within_notional")
    refuse (fill.takerOrderId = fill.makerOrderId) (.constraint "fills_distinct_orders")
    pure (some { books with fills := books.fills ++ [fill] })

end Books

end AtlasCex.Trading

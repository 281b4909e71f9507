import Mathlib.Data.List.MinMax
import Mathlib.Algebra.Ring.Int.Defs
import Mathlib.Algebra.Ring.Nat
/-!
# The engine's contracts (`services/matching/src/types.rs`)

Prices, quantities and sequences are `u64` in the source. They are `Nat` here: the only places
where the width decides anything are `notional` (`types.rs:317`, refused past `u64::MAX`) and
`collar_band` (`types.rs:365`, clamped to it), and both carry the bound explicitly.

| here | there |
| --- | --- |
| `Side`, `OrderType`, `TimeInForce`, `StpMode`, `RejectReason` | the enums at `types.rs:23-87` |
| `OrderRequest`, `Command`, `SequencedCommand` | `types.rs:89-149` |
| `Fill`, `Event`, `fillId` | `types.rs:157-177`, `:255-306` |
| `LevelChange`, `SequenceOutput` | `types.rs:188-208` |
| `notional`, `feeAmount`, `isMultipleOf` | `types.rs:317-331` |
| `MarketStatus`, `MarketConfig`, `collarBand` | `types.rs:334-373` |

`LevelChange::qty` is serialised as a string; the value is what is modelled.
-/
namespace AtlasCex.Matching

def priceScale : Nat := 1000000000
def bpsDenominator : Nat := 10000
def u64Max : Nat := 2 ^ 64 - 1

/-- An order id, assigned by the gateway. The engine never invents one. -/
abbrev OrderId := String

inductive Side where
  | buy
  | sell
deriving DecidableEq, Repr

def Side.opposite : Side → Side
  | .buy => .sell
  | .sell => .buy

inductive OrderType where
  | limit
  | market
deriving DecidableEq, Repr

inductive TimeInForce where
  | gtc
  | ioc
  | fok
deriving DecidableEq, Repr

inductive StpMode where
  | cancelTaker
  | cancelMaker
  | cancelBoth
deriving DecidableEq, Repr

inductive RejectReason where
  | unknownMarket
  | marketNotOpen
  | noReferencePrice
  | tickViolation
  | lotViolation
  | belowMinNotional
  | outsideCollar
  | notionalOverflow
  | quantityNotPositive
  | priceRequired
  | priceNotAllowed
  | postOnlyRequiresLimit
  | duplicateClientOrderId
  | postOnlyWouldCross
  | selfTradePrevented
  | unknownOrder
deriving DecidableEq, Repr

inductive MarketStatus where
  | preOpen
  | open
  | postOnly
  | halted
deriving DecidableEq, Repr

def MarketStatus.acceptsPlacement : MarketStatus → Bool
  | .open | .postOnly => true
  | _ => false

structure OrderRequest where
  clientOrderId : String
  side : Side
  orderType : OrderType
  timeInForce : TimeInForce
  price : Option Nat
  qty : Nat
  postOnly : Bool
  stpMode : StpMode
  accountId : String
deriving DecidableEq, Repr

inductive Command where
  | place (orderId : OrderId) (request : OrderRequest)
  | cancel (orderId : OrderId)
  | amend (orderId newOrderId : OrderId) (price : Nat) (qty : Nat)
  | setStatus (status : MarketStatus)
deriving DecidableEq, Repr

/-- A command with its assigned sequence and timestamp: what the journal stores. -/
structure SequencedCommand where
  seq : Nat
  timestampMs : Int
  command : Command
deriving DecidableEq, Repr

structure Fill where
  fillId : String
  seq : Nat
  takerOrderId : OrderId
  makerOrderId : OrderId
  takerSide : Side
  price : Nat
  qty : Nat
  timestampMs : Int
  makerFee : Option Nat
  takerFee : Option Nat
deriving DecidableEq, Repr

/-- `fill_id` (`types.rs:175`): the sequence and the index of the fill within its command. -/
def fillId (seq : Nat) (index : Nat) : String := s!"{seq}:{index}"

inductive Event where
  | accepted (seq : Nat) (orderId : OrderId) (restingQty : Nat)
  | rejected (seq : Nat) (orderId : OrderId) (reason : RejectReason)
  | fill (fill : Fill)
  | cancelled (seq : Nat) (orderId : OrderId) (remainingQty : Nat)
  | expired (seq : Nat) (orderId : OrderId) (remainingQty : Nat)
  | statusChanged (seq : Nat) (previous current : MarketStatus)
deriving DecidableEq, Repr

def Event.seq : Event → Nat
  | .accepted seq _ _ | .rejected seq _ _ | .cancelled seq _ _ | .expired seq _ _
  | .statusChanged seq _ _ => seq
  | .fill f => f.seq

/-- `matches!(e, Event::Fill(_))`. -/
def Event.isFill : Event → Bool
  | .fill _ => true
  | _ => false

/-- One price level's total resting quantity after a command. Absolute, never a difference. -/
structure LevelChange where
  side : Side
  price : Nat
  qty : Nat
deriving DecidableEq, Repr

/-- What one command produced: its events, and the levels it left changed. -/
structure SequenceOutput where
  seq : Nat
  events : List Event
  levels : List LevelChange
deriving DecidableEq, Repr

/-- `notional` (`types.rs:317`). `none` on overflow: a rejection, never a wrap. -/
def notional (price : Nat) (qty : Nat) : Option Nat :=
  let value := price * qty / priceScale
  if value ≤ u64Max then some value else none

/-- `fee_amount` (`types.rs:324`). -/
def feeAmount (notionalValue bps : Nat) : Option Nat :=
  let value := notionalValue * bps / bpsDenominator
  if value ≤ u64Max then some value else none

def isMultipleOf (value step : Nat) : Bool := step != 0 && value % step == 0

structure MarketConfig where
  id : String
  tickSize : Nat
  lotSize : Nat
  minNotional : Nat
  collarBps : Nat
  status : MarketStatus
deriving DecidableEq, Repr

/-- `MarketConfig::collar_band` (`types.rs:365`): the band around a reference price. -/
def MarketConfig.collarBand (m : MarketConfig) (reference : Nat) : Nat × Nat :=
  let deviation := reference * m.collarBps / bpsDenominator
  (reference - deviation, min (reference + deviation) u64Max)

theorem isMultipleOf_iff {value step : Nat} :
    isMultipleOf value step = true ↔ step ≠ 0 ∧ step ∣ value := by
  simp [isMultipleOf, Nat.dvd_iff_mod_eq_zero]

/-- A smaller quantity at the same price fits whenever the larger one did. -/
theorem notional_mono {price qty qty' : Nat} (hle : qty' ≤ qty)
    (h : (notional price qty).isSome = true) : (notional price qty').isSome = true := by
  have hmul : price * qty' / priceScale ≤ price * qty / priceScale :=
    Nat.div_le_div_right (Nat.mul_le_mul_left _ hle)
  simp only [notional] at h ⊢
  split at h
  · rename_i hfits
    rw [if_pos (Nat.le_trans hmul hfits)]; rfl
  · simp at h

end AtlasCex.Matching

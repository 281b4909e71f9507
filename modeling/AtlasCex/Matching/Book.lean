import AtlasCex.Matching.Types
/-!
# The order book (`services/matching/src/book.rs`)

| here | there |
| --- | --- |
| `RestingOrder`, `Level`, `Ladder`, `OrderBook` | `book.rs:14-29`, `:43-49`, `:72-76`, `:199-210` |
| `Ladder.bestPrice`, `Ladder.iterFromBest` | `book.rs:91-96`, `:112-117` |
| `Ladder.pushBack` / `reduce` / `popFront` / `forget` | `book.rs:119-176` |
| `OrderBook.rest` / `frontLive` / `consumeFront` / `remove` | `book.rs:316-400` |
| `OrderBook.takeLevelChanges` | `book.rs:241-257` |
| `OrderBook.invariantsHold` | `book.rs:407-450` |

`BTreeMap` and `HashMap` are both extensional maps here (`ExtTreeMap`): the index is only ever
looked up by key. A level's queue may hold tombstones, ids that left the index and not the queue.
`touched` takes no part in the book's equality (`book.rs:190-194`), see `OrderBook.Same`.
-/
namespace AtlasCex.Matching
open Std (ExtTreeMap ExtTreeSet TransCmp)

structure RestingOrder where
  orderId : OrderId
  accountId : String
  side : Side
  price : Nat
  remaining : Nat
  stpMode : StpMode
  restedAtSeq : Nat
deriving DecidableEq, Repr

/-- A price level: the queue is arrival order; `totalQty` counts live orders only. -/
structure Level where
  queue : List OrderId
  totalQty : Nat
deriving DecidableEq, Repr

structure Ladder where
  side : Side
  levels : ExtTreeMap Nat Level
deriving DecidableEq

namespace Ladder

def new (side : Side) : Ladder := ⟨side, ∅⟩

/-- Bids descend from the highest price, asks ascend from the lowest. -/
def bestPrice (l : Ladder) : Option Nat :=
  match l.side with
  | .buy => l.levels.keys.getLast?
  | .sell => l.levels.keys.head?

def level (l : Ladder) (price : Nat) : Option Level := l.levels[price]?

def iterFromBest (l : Ladder) : List (Nat × Level) :=
  match l.side with
  | .buy => l.levels.toList.reverse
  | .sell => l.levels.toList

def pushBack (l : Ladder) (price : Nat) (orderId : OrderId) (qty : Nat) : Ladder :=
  let level := (l.level price).getD ⟨[], 0⟩
  { l with levels := l.levels.insert price ⟨level.queue ++ [orderId], level.totalQty + qty⟩ }

/-- The shared body of `reduce` and `forget`: take `qty` off the level's live total (saturating)
and drop the level when nothing live is left, whatever ids its queue still holds. -/
def takeOff (l : Ladder) (price : Nat) (qty : Nat) : Ladder :=
  match l.level price with
  | some level =>
    if level.totalQty - qty = 0 then { l with levels := l.levels.erase price }
    else { l with levels := l.levels.insert price { level with totalQty := level.totalQty - qty } }
  | none => l

def reduce (l : Ladder) (price : Nat) (qty : Nat) : Ladder := l.takeOff price qty

def forget (l : Ladder) (price : Nat) (qty : Nat) : Ladder := l.takeOff price qty

def popFront (l : Ladder) (price : Nat) : Ladder :=
  match l.level price with
  | some level =>
    if level.queue.tail = [] then { l with levels := l.levels.erase price }
    else { l with levels := l.levels.insert price { level with queue := level.queue.tail } }
  | none => l

end Ladder

/-- The order of `BTreeSet<(bool, Price)>`: asks before bids, prices ascending. -/
def touchedCmp : Bool × Nat → Bool × Nat → Ordering :=
  compareLex (compareOn Prod.fst) (compareOn Prod.snd)

instance : TransCmp touchedCmp := inferInstanceAs (TransCmp (compareLex _ _))

structure OrderBook where
  bids : Ladder
  asks : Ladder
  orders : ExtTreeMap OrderId RestingOrder
  lastTradePrice : Option Nat
  touched : ExtTreeSet (Bool × Nat) touchedCmp

namespace OrderBook

def new : OrderBook := ⟨Ladder.new .buy, Ladder.new .sell, ∅, none, ∅⟩

/-- `PartialEq for OrderBook`: `Touched` compares equal to everything. -/
def Same (b b' : OrderBook) : Prop :=
  b.bids = b'.bids ∧ b.asks = b'.asks ∧ b.orders = b'.orders ∧
    b.lastTradePrice = b'.lastTradePrice

def ladderFor (b : OrderBook) : Side → Ladder
  | .buy => b.bids
  | .sell => b.asks

/-- Writing through `ladder(&mut self, side)`. -/
def setLadder (b : OrderBook) (side : Side) (l : Ladder) : OrderBook :=
  match side with
  | .buy => { b with bids := l }
  | .sell => { b with asks := l }

def touch (b : OrderBook) (side : Side) (price : Nat) : OrderBook :=
  { b with touched := b.touched.insert (side == .buy, price) }

def takeLevelChanges (b : OrderBook) : List LevelChange × OrderBook :=
  (b.touched.toList.map fun (isBuy, price) =>
      let side := if isBuy then Side.buy else Side.sell
      ⟨side, price, (((b.ladderFor side).level price).map Level.totalQty).getD 0⟩,
    { b with touched := ∅ })

def bestBid (b : OrderBook) : Option Nat := b.bids.bestPrice
def bestAsk (b : OrderBook) : Option Nat := b.asks.bestPrice

def setLastTradePrice (b : OrderBook) (price : Nat) : OrderBook :=
  { b with lastTradePrice := some price }

def get (b : OrderBook) (orderId : OrderId) : Option RestingOrder := b.orders[orderId]?
def contains (b : OrderBook) (orderId : OrderId) : Bool := b.orders.contains orderId
def openOrderCount (b : OrderBook) : Nat := b.orders.size

def rest (b : OrderBook) (order : RestingOrder) : OrderBook :=
  let b := { b with orders := b.orders.insert order.orderId order }
  let b := b.setLadder order.side
    ((b.ladderFor order.side).pushBack order.price order.orderId order.remaining)
  b.touch order.side order.price

/-- The `loop` of `front_live`. Every turn that goes round pops an id off the level's queue, so
the queue's length is enough fuel (`Refines.frontLive`). -/
def frontLiveLoop : Nat → OrderBook → Side → Nat → Option RestingOrder × OrderBook
  | 0, b, _, _ => (none, b)
  | fuel + 1, b, side, price =>
    match ((b.ladderFor side).level price).bind (·.queue.head?) with
    | none => (none, b)
    | some front =>
      match b.get front with
      | some order => (some order, b)
      | none => frontLiveLoop fuel (b.setLadder side ((b.ladderFor side).popFront price)) side price

def frontLive (b : OrderBook) (side : Side) (price : Nat) : Option RestingOrder × OrderBook :=
  let length := (((b.ladderFor side).level price).map (·.queue.length)).getD 0
  frontLiveLoop (length + 1) b side price

/-- The live orders resting at a price, in queue order. Tombstones excluded. -/
def liveIdsAt (b : OrderBook) (side : Side) (price : Nat) : List OrderId :=
  match (b.ladderFor side).level price with
  | some level => level.queue.filter b.contains
  | none => []

def consumeFront (b : OrderBook) (side : Side) (price : Nat) (qty : Nat) :
    Option RestingOrder × OrderBook :=
  match b.frontLive side price with
  | (none, b) => (none, b)
  | (some before, b) =>
    let remaining := before.remaining - qty
    let b := b.setLadder side ((b.ladderFor side).reduce price qty)
    let b := b.touch side price
    if remaining = 0 then
      let b := { b with orders := b.orders.erase before.orderId }
      -- a no-op when `reduce` already dropped the level: the queue went with it
      (some before, b.setLadder side ((b.ladderFor side).popFront price))
    else
      match b.get before.orderId with
      | some order =>
        (some before,
          { b with orders := b.orders.insert before.orderId { order with remaining } })
      | none => (some before, b)

def remove (b : OrderBook) (orderId : OrderId) : Option RestingOrder × OrderBook :=
  match b.get orderId with
  | none => (none, b)
  | some order =>
    let b := { b with orders := b.orders.erase orderId }
    let b := b.setLadder order.side ((b.ladderFor order.side).forget order.price order.remaining)
    (some order, b.touch order.side order.price)

def levelAt (b : OrderBook) (side : Side) (price : Nat) : Option Level :=
  (b.ladderFor side).level price

/-! ## `invariants_hold` -/

/-- The inner `for id in level.queue.iter()` loop: `(recomputed, live_here, previous_seq)`;
`none` is the early `return false`. -/
def scanQueue (b : OrderBook) (side : Side) (price : Nat) :
    List OrderId → Nat × Nat × Option Nat → Option (Nat × Nat × Option Nat)
  | [], st => some st
  | id :: ids, (recomputed, live, previous) =>
    match b.get id with
    | none => scanQueue b side price ids (recomputed, live, previous)
    | some order =>
      if order.price ≠ price ∨ order.side ≠ side then none
      else if previous.any (fun p => order.restedAtSeq < p) then none
      else scanQueue b side price ids
        (recomputed + order.remaining, live + 1, some order.restedAtSeq)

/-- One level: its live orders, or `none` for the early `return false`. -/
def scanLevel (b : OrderBook) (side : Side) (price : Nat) (level : Level) : Option Nat :=
  match scanQueue b side price level.queue (0, 0, none) with
  | none => none
  | some (recomputed, live, _) =>
    if live = 0 ∨ recomputed = 0 then none
    else if recomputed ≠ level.totalQty then none
    else some live

def scanLadder (b : OrderBook) (ladder : Ladder) : Option (List Nat) :=
  ladder.levels.toList.mapM fun (price, level) => scanLevel b ladder.side price level

def invariantsHold (b : OrderBook) : Bool :=
  match scanLadder b b.bids, scanLadder b b.asks with
  | some bids, some asks =>
    let crossed := match b.bestBid, b.bestAsk with
      | some bid, some ask => decide (ask ≤ bid)
      | _, _ => false
    !crossed && b.openOrderCount == bids.sum + asks.sum
  | _, _ => false

end OrderBook

/-! ## What each operation does to a level and to the index -/

/-- A level with `n` off its live total, gone when that leaves nothing. -/
def Level.takenOff (n : Nat) (lv : Level) : Option Level :=
  if lv.totalQty - n = 0 then none else some { lv with totalQty := lv.totalQty - n }

namespace Ladder

@[simp] theorem level_new (side : Side) (p : Nat) : (new side).level p = none := by
  simp [new, level]

@[simp] theorem level_pushBack (l : Ladder) (p q : Nat) (id : OrderId) (n : Nat) :
    (l.pushBack p id n).level q =
      if q = p then
        some ⟨((l.level p).getD ⟨[], 0⟩).queue ++ [id], ((l.level p).getD ⟨[], 0⟩).totalQty + n⟩
      else l.level q := by
  simp only [pushBack, level, ExtTreeMap.getElem?_insert, compare_eq_iff_eq, eq_comm (a := q)]

@[simp] theorem level_takeOff (l : Ladder) (p q : Nat) (n : Nat) :
    (l.takeOff p n).level q =
      if q = p then (l.level p).bind (Level.takenOff n) else l.level q := by
  unfold takeOff
  cases hp : l.level p with
  | none => by_cases hq : q = p <;> simp_all
  | some lv =>
    by_cases h0 : lv.totalQty - n = 0
    · by_cases hq : q = p
      · simp [h0, hq, level, Level.takenOff]
      · simp [h0, hq, level, ExtTreeMap.getElem?_erase, Ne.symm hq]
    · by_cases hq : q = p
      · simp [h0, hq, level, Level.takenOff]
      · simp [h0, hq, level, ExtTreeMap.getElem?_insert, Ne.symm hq]

@[simp] theorem level_popFront (l : Ladder) (p q : Nat) :
    (l.popFront p).level q =
      if q = p then
        (l.level p).bind fun lv =>
          if lv.queue.tail = [] then none else some { lv with queue := lv.queue.tail }
      else l.level q := by
  unfold popFront
  cases hp : l.level p with
  | none => by_cases hq : q = p <;> simp_all
  | some lv =>
    by_cases h0 : lv.queue.tail = []
    · by_cases hq : q = p
      · simp [h0, hq, level]
      · simp [h0, hq, level, ExtTreeMap.getElem?_erase, Ne.symm hq]
    · by_cases hq : q = p
      · simp [h0, hq, level]
      · simp [h0, hq, level, ExtTreeMap.getElem?_insert, Ne.symm hq]

@[simp] theorem side_pushBack (l : Ladder) (p : Nat) (id : OrderId) (n : Nat) :
    (l.pushBack p id n).side = l.side := by
  unfold pushBack; rfl

@[simp] theorem side_takeOff (l : Ladder) (p : Nat) (n : Nat) :
    (l.takeOff p n).side = l.side := by
  unfold takeOff; split
  · split <;> rfl
  · rfl

@[simp] theorem side_popFront (l : Ladder) (p : Nat) : (l.popFront p).side = l.side := by
  unfold popFront; split
  · split <;> rfl
  · rfl

end Ladder

namespace OrderBook

@[simp] theorem ladderFor_setLadder (b : OrderBook) (s s' : Side) (l : Ladder) :
    (b.setLadder s l).ladderFor s' = if s' = s then l else b.ladderFor s' := by
  cases s <;> cases s' <;> rfl

@[simp] theorem orders_setLadder (b : OrderBook) (s : Side) (l : Ladder) :
    (b.setLadder s l).orders = b.orders := by cases s <;> rfl

@[simp] theorem lastTradePrice_setLadder (b : OrderBook) (s : Side) (l : Ladder) :
    (b.setLadder s l).lastTradePrice = b.lastTradePrice := by cases s <;> rfl

@[simp] theorem ladderFor_touch (b : OrderBook) (s s' : Side) (p : Nat) :
    (b.touch s p).ladderFor s' = b.ladderFor s' := by cases s' <;> rfl

@[simp] theorem orders_touch (b : OrderBook) (s : Side) (p : Nat) :
    (b.touch s p).orders = b.orders := by unfold touch; rfl

@[simp] theorem lastTradePrice_touch (b : OrderBook) (s : Side) (p : Nat) :
    (b.touch s p).lastTradePrice = b.lastTradePrice := by unfold touch; rfl

@[simp] theorem ladderFor_orders (b : OrderBook) (o : ExtTreeMap OrderId RestingOrder) (s : Side) :
    ({ b with orders := o } : OrderBook).ladderFor s = b.ladderFor s := by cases s <;> rfl

@[simp] theorem get_setLadder (b : OrderBook) (s : Side) (l : Ladder) (id : OrderId) :
    (b.setLadder s l).get id = b.get id := by simp [get]

@[simp] theorem get_touch (b : OrderBook) (s : Side) (p : Nat) (id : OrderId) :
    (b.touch s p).get id = b.get id := by simp [get]

@[simp] theorem get_erase (b : OrderBook) (id id' : OrderId) :
    ({ b with orders := b.orders.erase id } : OrderBook).get id' =
      if id' = id then none else b.get id' := by
  simp only [get, ExtTreeMap.getElem?_erase, Std.LawfulEqCmp.compare_eq_iff_eq, eq_comm (a := id')]

@[simp] theorem get_insert (b : OrderBook) (id id' : OrderId) (o : RestingOrder) :
    ({ b with orders := b.orders.insert id o } : OrderBook).get id' =
      if id' = id then some o else b.get id' := by
  simp only [get, ExtTreeMap.getElem?_insert, Std.LawfulEqCmp.compare_eq_iff_eq,
    eq_comm (a := id')]

theorem contains_eq (b : OrderBook) (id : OrderId) : b.contains id = (b.get id).isSome := by
  simp [contains, get]

end OrderBook

end AtlasCex.Matching

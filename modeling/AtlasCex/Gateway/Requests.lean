import AtlasCex.Server.Lookup
import AtlasCex.Trading.Settlement
/-!
# Orders between the gateway and the engine

| here | there |
| --- | --- |
| `Request`, `EngineResult`, `EngineResult.ofOutput` | `engine-client.ts:63-70`, `:311-362` |
| `placeCommand`       | the body `place` sends (`engine-client.ts:367-391`, `order.service.ts:503-518`) |
| `touches`, `resolvePending` | `order.service.ts:222-271` |
| `Call`, `State.proceed`, `State.receive` | `place`, `amend`, `actOnPlacement`, `toPendingCancel`, `order.service.ts:201-220`, `:273-311`, `:520-573`, `:642-741` |
| `Request.inWindow`   | `CallerVerifier::verify`, `auth.rs:130-140` |
| `Label.deliver`, `Label.submit` | `authenticate`, then `Service::submit` (`http.rs:112-210`) |
| `Sweep`, `Label.claim` .. `Label.conclude` | `pending-engine-sweeper.ts:82-129` |
| `conclusiveAfterMs`  | `pending-engine-sweeper.ts:62-67` |

One market. Time is in milliseconds, as the slowest of the clocks has it; a clock that is read is
ahead of it by at most the sweeper's skew margin, so that any two are that close to each other. A
call or a sweep may stop anywhere, a request may be lost, and an answer may be lost or late: what the
gateway makes of that is `ambiguous`. A request that was authenticated waits for the runtime lock
before it is journaled.

The lookup is answered from the journal: every journaled placement is in the index. Risk, holds'
amounts and the price of a market order are settled before the row is written and are arguments here.
`amend` also asks for a limit order; a market order never rests. The order in which a sweeper claims
rows, its backoff and its dead letters are left out.
-/
namespace AtlasCex.Gateway

open Ledger (LedgerTransaction)
open Matching (OrderId OrderRequest TimeInForce Command Event RejectReason SequencedCommand
  SequenceOutput)
open Server (Runtime LookupIndex LookupOutcome)
open Trading (Order OrderStatus Books Unfilled Resting)

/-- `SKEW_MARGIN_MS`. -/
def skewMarginMs : Nat := 60000

structure Config where
  engine : Server.Config
  /-- The engine's tolerance window, on both sides. -/
  toleranceSeconds : Nat
  afterMs : Nat
  maxAttempts : Nat

def Config.conclusiveAfterMs (config : Config) : Nat := config.toleranceSeconds * 1000 + skewMarginMs

/-! ## The engine client -/

structure Request where
  id : String
  /-- `x-atlas-timestamp`, in seconds. -/
  timestamp : Nat
  timestampMs : Int
  command : Command
deriving DecidableEq, Repr

/-- The engine's clock check, in seconds. -/
def Request.inWindow (config : Config) (request : Request) (at_ : Nat) : Prop :=
  at_ / 1000 ≤ request.timestamp + config.toleranceSeconds ∧
    request.timestamp ≤ at_ / 1000 + config.toleranceSeconds

instance (config : Config) (request : Request) (at_ : Nat) : Decidable (request.inWindow config at_) :=
  inferInstanceAs (Decidable (_ ∧ _))

inductive EngineResult where
  | ok (seq : Nat) (events : List Event)
  | refused
  | ambiguous
deriving DecidableEq, Repr

/-- A 200, or the 5xx of a command that was journaled and not confirmed. -/
def EngineResult.ofOutput (output : Option SequenceOutput) (published : Bool) : EngineResult :=
  match output with
  | some output => if published then .ok output.seq output.events else .ambiguous
  | none => .ambiguous

/-- What the order's own columns do not say: limit price and how long it stands. -/
structure Terms where
  timeInForce : TimeInForce
  price : Nat
  postOnly : Bool
deriving DecidableEq, Repr

/-- The engine is handed the order's id for the client order id as well. -/
def placeCommand (order : Order) (terms : Terms) : Command :=
  .place order.id
    { clientOrderId := order.id
      side := order.side
      orderType := .limit
      timeInForce := terms.timeInForce
      price := some terms.price
      qty := order.qty.toNat
      postOnly := terms.postOnly
      stpMode := .cancelTaker
      accountId := order.userId }

/-! ## What an answer says of an order -/

/-- The name a reason is serialised under. -/
def rejectCode : RejectReason → String
  | .unknownMarket => "UNKNOWN_MARKET"
  | .marketNotOpen => "MARKET_NOT_OPEN"
  | .noReferencePrice => "NO_REFERENCE_PRICE"
  | .tickViolation => "TICK_VIOLATION"
  | .lotViolation => "LOT_VIOLATION"
  | .belowMinNotional => "BELOW_MIN_NOTIONAL"
  | .outsideCollar => "OUTSIDE_COLLAR"
  | .notionalOverflow => "NOTIONAL_OVERFLOW"
  | .quantityNotPositive => "QUANTITY_NOT_POSITIVE"
  | .priceRequired => "PRICE_REQUIRED"
  | .priceNotAllowed => "PRICE_NOT_ALLOWED"
  | .postOnlyRequiresLimit => "POST_ONLY_REQUIRES_LIMIT"
  | .duplicateClientOrderId => "DUPLICATE_CLIENT_ORDER_ID"
  | .postOnlyWouldCross => "POST_ONLY_WOULD_CROSS"
  | .selfTradePrevented => "SELF_TRADE_PREVENTED"
  | .unknownOrder => "UNKNOWN_ORDER"

def touches (id : OrderId) : Event → Bool
  | .fill f => f.takerOrderId = id || f.makerOrderId = id
  | .statusChanged .. => false
  | .accepted _ orderId _ | .rejected _ orderId _ | .cancelled _ orderId _ | .expired _ orderId _ =>
    orderId = id

def rejection : Event → Option RejectReason
  | .rejected _ _ reason => some reason
  | _ => none

def isExpired : Event → Bool
  | .expired .. => true
  | _ => false

/-- The transaction an answer calls for, if any. -/
def resolvePending (id : OrderId) (events : List Event) : Option Trading.Label :=
  let mine := events.filter (touches id)
  match mine.findSome? rejection with
  | some reason => some (.finalizeUnfilled id (.rejected (rejectCode reason)))
  | none =>
    if mine.any isExpired && !mine.any Event.isFill then some (.finalizeUnfilled id .expired)
    else mine.head?.map fun first => .moveResting id (.accepted (some first.seq))

/-- What the old order had left when it came off the book. -/
def cancelledQty (id : OrderId) : Event → Option Nat
  | .cancelled _ orderId remainingQty => if orderId = id then some remainingQty else none
  | _ => none

/-- The old order of an amend is cancelled, if it never filled. -/
def cancelOld (old pendingOld : Order) (events : List Event) : Option Trading.Label :=
  if !pendingOld.status.isTerminalOrder &&
      (events.findSome? (cancelledQty old.id)).any fun remainingQty => remainingQty = old.qty then
    some (.finalizeUnfilled pendingOld.id (.cancelled pendingOld.status))
  else none

/-- The engine did not have the old order, or has placed the replacement. -/
def resolveReplacement (id : OrderId) (events : List Event) : Option Trading.Label :=
  if events.any (touches id) then resolvePending id events
  else some (.finalizeUnfilled id (.rejected "UNKNOWN_ORDER"))

/-! ## State -/

/-- Where a call of the gateway is. -/
inductive Call where
  /-- Row and hold are committed, the request is still to be sent. -/
  | place (order : Order) (terms : Terms)
  | placed (order : Order) (requestId : String)
  /-- The order was read, and may be amended. -/
  | amend (old : Order)
  /-- In `toPendingCancel`. -/
  | held (old current order : Order) (price attempt : Nat)
  | ready (old pendingOld order : Order) (price : Nat)
  | amended (old pendingOld order : Order) (requestId : String)
  | replaced (order : Order) (events : List Event)
deriving DecidableEq, Repr

def Call.requestId : Call → Option String
  | .placed _ requestId | .amended _ _ _ requestId => some requestId
  | _ => none

inductive Sweep where
  | claimed (id : OrderId) (createdAt : Nat)
  /-- `lookedAt` is no field of the source: when the answer was given. -/
  | answered (id : OrderId) (createdAt : Nat) (outcome : LookupOutcome) (lookedAt : Nat)
  | fetched (id : OrderId) (events : List Event)
deriving DecidableEq, Repr

structure State where
  now : Nat
  books : Books
  createdAt : OrderId → Option Nat
  sweepAttempts : OrderId → Nat
  calls : List Call
  sweeps : List Sweep
  /-- Every request id that was minted. -/
  requestIds : List String
  inFlight : List Request
  /-- Authenticated, with the engine's clock at that moment, and waiting for the runtime lock. -/
  queue : List (Request × Nat)
  answers : List (String × EngineResult)
  runtime : Runtime
  /-- The orders `failNeverSeen` has moved. -/
  neverReceived : List OrderId
  /-- The orders an amend has created. No column says so. -/
  replacements : List OrderId

inductive Label where
  | tick (ms : Nat)
  | place (order : Order) (terms : Terms) (at_ : Nat)
  | readOld (userId : Ledger.UserId) (id : OrderId)
  | replace (old order : Order) (price at_ : Nat)
  | pendCancel (old current order : Order) (price attempt : Nat)
  | send (call : Call) (requestId : String) (at_ : Nat)
  | receive (call : Call) (result : EngineResult)
  | finish (order : Order) (events : List Event)
  | abandon (call : Call)
  /-- A cancel, or a change of the market's status. -/
  | command (requestId : String) (at_ : Nat) (command : Command)
  /-- Settlement, and the transactions of a cancel. -/
  | transact (label : Trading.Label)
  | deliver (request : Request) (at_ : Nat)
  | refuse (request : Request)
  | lose (request : Request)
  | submit (request : Request) (verifiedAt : Nat) (writes published : Bool)
  | drop (request : Request) (verifiedAt : Nat)
  | restart
  | claim (id : OrderId) (at_ : Nat)
  | lookup (id : OrderId) (createdAt : Nat)
  | conclude (sweep : Sweep) (at_ : Nat)
  | giveUp (sweep : Sweep)
deriving DecidableEq, Repr

namespace State

def journal (s : State) : List SequencedCommand := s.runtime.disk.journal

/-- A clock may show this. -/
def reads (s : State) (at_ : Nat) : Prop := s.now ≤ at_ ∧ at_ ≤ s.now + skewMarginMs

instance (s : State) (at_ : Nat) : Decidable (s.reads at_) := inferInstanceAs (Decidable (_ ∧ _))

def transact (s : State) (label : Option Trading.Label) : State :=
  { s with books := (label.map (Trading.step s.books)).getD s.books }

def drop (s : State) (call : Call) : State := { s with calls := s.calls.erase call }

def dropSweep (s : State) (sweep : Sweep) : State := { s with sweeps := s.sweeps.erase sweep }

/-- The transaction of `createWithHold`, with a new id. Nothing to do for a client order id that is
there already. -/
def create (s : State) (order : Order) (at_ : Nat) : Option (Order × State) :=
  if s.reads at_ ∧ s.createdAt order.id = none ∧
      (s.books.orders.any fun o =>
        o.userId = order.userId && o.clientOrderId = order.clientOrderId) = false then
    (Trading.createWithHold s.books order).toOption.bind fun books =>
      (books.findById order.id).map fun created =>
        (created, { s with books, createdAt := Function.update s.createdAt order.id (some at_) })
  else none

/-- A new request, signed and sent. -/
def post (s : State) (requestId : String) (at_ : Nat) (command : Command) : Option State :=
  if s.reads at_ ∧ requestId ∉ s.requestIds then
    some { s with
      requestIds := requestId :: s.requestIds
      inFlight := ⟨requestId, at_ / 1000, at_, command⟩ :: s.inFlight }
  else none

/-- One attempt of `toPendingCancel`; a lost race re-reads. -/
def pendCancel (s : State) (old current order : Order) (price attempt : Nat) : State :=
  let s := s.drop (.held old current order price attempt)
  let ready (pendingOld : Order) : List Call := .ready old pendingOld order price :: s.calls
  if attempt < 3 ∧ (current.status = .open ∨ current.status = .partiallyFilled) then
    match s.books.transition current.id current.status .pendingCancel .empty with
    | .ok (some (moved, books)) => { s with books, calls := ready moved }
    | _ =>
      let reread := (s.books.findById current.id).getD current
      { s with calls := .held old reread order price (attempt + 1) :: s.calls }
  else { s with calls := ready current }

/-- What an answer makes of a call. -/
def receive (s : State) (call : Call) (result : EngineResult) : Option State :=
  match call, result with
  | .placed .., .ambiguous | .amended .., .ambiguous => some s
  | .placed order _, .refused | .amended _ _ order _, .refused =>
    some (s.transact (some (.finalizeUnfilled order.id .failed)))
  | .placed order _, .ok _ events => some (s.transact (resolvePending order.id events))
  | .amended old pendingOld order _, .ok _ events =>
    let s := s.transact (cancelOld old pendingOld events)
    some { s with calls := .replaced order events :: s.calls }
  | _, _ => none

/-- The index with every journaled placement in it. -/
def lookup (s : State) (id : OrderId) : LookupOutcome :=
  LookupIndex.get ⟨s.journal.foldl LookupIndex.insertPlacement ∅, true⟩ id

/-- The events of one sequence, re-emitted. -/
def eventsOf (config : Config) (s : State) (seq : Nat) : List Event :=
  ((Runtime.replayWithLevels config.engine.market s.journal).getD []).flatMap fun output =>
    if output.seq = seq then output.events else []

/-- `failNeverSeen`: the guarded transition and the release, in one transaction. -/
def failNeverSeen (s : State) (id : OrderId) : State :=
  match Trading.finalizeUnfilled s.books id .failed with
  | .error _ => s
  | .ok books =>
    if (s.books.findById id).any (·.status = .pendingEngine) then
      { s with books, neverReceived := id :: s.neverReceived }
    else { s with books }

/-- `resolve`, from the answer on. -/
def conclude (config : Config) (s : State) (at_ : Nat) : Sweep → Option State
  | .claimed .. => none
  | .answered id createdAt .neverSeen _ =>
    if at_ ≤ createdAt + config.conclusiveAfterMs then some s else some (s.failNeverSeen id)
  | .answered id _ (.seen seq _) _ =>
    some { s with sweeps := .fetched id (s.eventsOf config seq) :: s.sweeps }
  | .answered _ _ .rebuilding _ => some s
  | .fetched id events => some (s.transact (resolvePending id events))

def step (config : Config) (s : State) : Label → Option State
  | .tick ms => some { s with now := s.now + ms }
  | .place order terms at_ =>
    (s.create order at_).map fun (created, s) => { s with calls := .place created terms :: s.calls }
  | .readOld userId id =>
    match s.books.findById id with
    | none => none
    | some old =>
      if old.userId = userId ∧ (old.status = .open ∨ old.status = .partiallyFilled) then
        some { s with calls := .amend old :: s.calls }
      else none
  | .replace old order price at_ =>
    if .amend old ∈ s.calls ∧ order.userId = old.userId ∧ order.side = old.side ∧
        order.market = old.market then
      ((s.drop (.amend old)).create order at_).map fun (created, s) => { s with
        calls := .held old old created price 0 :: s.calls
        replacements := created.id :: s.replacements }
    else none
  | .pendCancel old current order price attempt =>
    if .held old current order price attempt ∈ s.calls then
      some (s.pendCancel old current order price attempt)
    else none
  | .send call requestId at_ =>
    if call ∈ s.calls then
      match call with
      | .place order terms =>
        ((s.drop call).post requestId at_ (placeCommand order terms)).map fun s =>
          { s with calls := .placed order requestId :: s.calls }
      | .ready old pendingOld order price =>
        ((s.drop call).post requestId at_ (.amend old.id order.id price order.qty.toNat)).map fun s =>
          { s with calls := .amended old pendingOld order requestId :: s.calls }
      | _ => none
    else none
  | .receive call result =>
    -- an answer that is lost or late is ambiguous
    if call ∈ s.calls ∧ (result = .ambiguous ∨
        (call.requestId.any fun requestId => (requestId, result) ∈ s.answers) = true) then
      (s.drop call).receive call result
    else none
  | .finish order events =>
    if .replaced order events ∈ s.calls then
      some ((s.drop (.replaced order events)).transact (resolveReplacement order.id events))
    else none
  | .abandon call => if call ∈ s.calls then some (s.drop call) else none
  | .command requestId at_ command =>
    match command with
    | .cancel _ | .setStatus _ => s.post requestId at_ command
    | .place .. | .amend .. => none
  | .transact label =>
    match label with
    | .createWithHold _ => none
    | _ => some (s.transact (some label))
  | .deliver request at_ =>
    if request ∈ s.inFlight ∧ s.reads at_ then
      let s := { s with inFlight := s.inFlight.erase request }
      if request.inWindow config at_ then some { s with queue := (request, at_) :: s.queue }
      else some { s with answers := (request.id, .refused) :: s.answers }
    else none
  | .refuse request =>
    if request ∈ s.inFlight then
      some { s with
        inFlight := s.inFlight.erase request
        answers := (request.id, .refused) :: s.answers }
    else none
  | .lose request =>
    if request ∈ s.inFlight then some { s with inFlight := s.inFlight.erase request } else none
  | .submit request verifiedAt writes published =>
    if (request, verifiedAt) ∈ s.queue then
      let (output, runtime) := s.runtime.submitWithLevels request.timestampMs request.command writes
      some { s with
        runtime
        queue := s.queue.erase (request, verifiedAt)
        answers := (request.id, .ofOutput output published) :: s.answers }
    else none
  | .drop request verifiedAt =>
    if (request, verifiedAt) ∈ s.queue then
      some { s with queue := s.queue.erase (request, verifiedAt) }
    else none
  | .restart =>
    (Runtime.recover config.engine s.runtime.disk).map fun runtime => { s with runtime, queue := [] }
  | .claim id at_ =>
    match s.createdAt id with
    | none => none
    | some createdAt =>
      if s.reads at_ ∧ (s.books.findById id).any (·.status = .pendingEngine) = true ∧
          createdAt + config.afterMs < at_ ∧ s.sweepAttempts id < config.maxAttempts then
        some { s with
          sweepAttempts := Function.update s.sweepAttempts id (s.sweepAttempts id + 1)
          sweeps := .claimed id createdAt :: s.sweeps }
      else none
  | .lookup id createdAt =>
    if .claimed id createdAt ∈ s.sweeps then
      let s := s.dropSweep (.claimed id createdAt)
      some { s with sweeps := .answered id createdAt (s.lookup id) s.now :: s.sweeps }
    else none
  | .conclude sweep at_ =>
    if sweep ∈ s.sweeps ∧ s.reads at_ then (s.dropSweep sweep).conclude config at_ sweep else none
  | .giveUp sweep => if sweep ∈ s.sweeps then some (s.dropSweep sweep) else none

def initial (config : Config) (ledger : List LedgerTransaction) : State where
  now := 0
  books := ⟨[], [], ledger⟩
  createdAt := fun _ => none
  sweepAttempts := fun _ => 0
  calls := []
  sweeps := []
  requestIds := []
  inFlight := []
  queue := []
  answers := []
  runtime := ⟨Matching.Engine.new config.engine.market, .empty, config.engine.snapshotEveryN, 0⟩
  neverReceived := []
  replacements := []

end State

end AtlasCex.Gateway

import AtlasCex.Trading.Settlement
/-!
# Markets, and what is asked of an order before the engine sees it

| here | there |
| --- | --- |
| `parseUnsigned`, `isMultipleOf` | `types/src/price.ts:40-50, 146-149` |
| `parseLedgerAssetKey` | `types/src/clusters.ts:67-84` |
| `MarketDefinition`, `Market`, `createMarket` | `types/src/market.ts:49-164` |
| `feeTiers`, `worstCaseTakerBps` | `orders/src/fees.ts:32-48` |
| `CollarBand`, `collarBand`, `withinCollar` | `orders/src/collar.ts:13-50` |
| `validateOrder` | `orders/src/validate.ts:18-146` |
| `Hold`, `computeHold` | `orders/src/hold.ts:22-74` |
| `engineTerms` | `order.service.ts:121-124, 503-517` |

A price or a quantity is a decimal string bounded by u64 wherever it crosses a boundary; here it is
its value, and a request is the engine's own record of one. `bigInt` is what JavaScript's `BigInt`
makes of a text, `none` where it throws. A `number` that should be an integer is the integer it is,
`none` when it is not one.
-/
namespace AtlasCex.Trading

open Ledger (AssetKey)
open Matching (Side OrderRequest MarketStatus RejectReason TimeInForce)
open Lib (refuse require)

/-- What the constructors and pure functions of the order packages throw. -/
inductive Thrown where
  | typeError (message : String)
  | rangeError (message : String)
  | syntaxError (message : String)
  | error (message : String)
  | failure (failure : Failure)
deriving DecidableEq, Repr

/-! ## Markets -/

/-- `/^(0|[1-9]\d*)$/`. -/
def isUnsignedInteger (value : String) : Bool :=
  match value.toList with
  | [] => false
  | ['0'] => true
  | c :: cs => '1' ≤ c && c ≤ '9' && cs.all Char.isDigit

section
variable (bigInt : String → Option Int)

def parseBigInt (value : String) : Except Thrown Int :=
  require (bigInt value) (.syntaxError s!"Cannot convert {value} to a BigInt")

def parseUnsigned (value what : String) : Except Thrown Int := do
  refuse (isUnsignedInteger value = false)
    (.typeError s!"{what} must be a non-negative integer string: {value}")
  let parsed ← parseBigInt bigInt value
  refuse (maxU64 < parsed) (.rangeError s!"{what} exceeds u64: {value}")
  pure parsed

def clusters : List String := ["localnet", "devnet", "testnet", "mainnet-beta"]

def parseLedgerAssetKey (key : String) : Except Thrown AssetKey := do
  let (cluster, rest) := key.toList.span (· ≠ ':')
  refuse (rest = []) (.typeError s!"not a ledger asset key (no cluster): {key}")
  let cluster := String.ofList cluster
  let asset := String.ofList rest.tail
  refuse (cluster ∉ clusters) (.typeError s!"unknown cluster in asset key: {cluster}")
  refuse (asset = "") (.typeError s!"empty asset in key: {key}")
  pure ⟨cluster, asset⟩

/-- `/^[A-Z0-9]+-[A-Z0-9]+$/`. -/
def isSymbol (symbol : String) : Bool :=
  let plain := fun c : Char => c.isUpper || c.isDigit
  match symbol.toList.span plain with
  | (base, '-' :: quote) => !base.isEmpty && !quote.isEmpty && quote.all plain
  | _ => false

structure Market where
  id : String
  cluster : String
  symbol : String
  baseAsset : AssetKey
  quoteAsset : AssetKey
  tickSize : Int
  lotSize : Int
  minNotional : Int
  collarBps : Int
  status : MarketStatus
deriving DecidableEq, Repr

structure MarketDefinition where
  cluster : String
  symbol : String
  baseAsset : String
  quoteAsset : String
  tickSize : String
  lotSize : String
  minNotional : String
  collarBps : Option Int
  status : Option MarketStatus
deriving DecidableEq, Repr

def createMarket (definition : MarketDefinition) : Except Thrown Market := do
  let base ← parseLedgerAssetKey definition.baseAsset
  let quote ← parseLedgerAssetKey definition.quoteAsset
  refuse (base.cluster ≠ definition.cluster ∨ quote.cluster ≠ definition.cluster)
    (.typeError s!"market {definition.symbol} spans clusters: {definition.baseAsset} / {definition.quoteAsset}")
  refuse (definition.baseAsset = definition.quoteAsset)
    (.typeError s!"market {definition.symbol} has the same base and quote asset")
  let tickSize ← parseUnsigned bigInt definition.tickSize "price"
  let lotSize ← parseUnsigned bigInt definition.lotSize "quantity"
  let minNotional ← parseBigInt bigInt definition.minNotional
  refuse (tickSize ≤ 0) (.typeError s!"tickSize must be positive: {tickSize}")
  refuse (lotSize ≤ 0) (.typeError s!"lotSize must be positive: {lotSize}")
  refuse (minNotional ≤ 0) (.typeError s!"minNotional must be positive: {minNotional}")
  let collarBps ← require definition.collarBps (.typeError "collarBps must be a positive integer")
  refuse (collarBps ≤ 0) (.typeError s!"collarBps must be a positive integer: {collarBps}")
  refuse (isSymbol definition.symbol = false)
    (.typeError s!"market symbol must be BASE-QUOTE in uppercase: {definition.symbol}")
  pure
    { id := s!"{definition.cluster}:{definition.symbol}"
      cluster := definition.cluster
      symbol := definition.symbol
      baseAsset := base
      quoteAsset := quote
      tickSize := tickSize
      lotSize := lotSize
      minNotional := minNotional
      collarBps := collarBps
      status := definition.status.getD .preOpen }

end

/-! ## Fees and the collar -/

structure FeeTier where
  tier : Nat
  minVolume : Int
  makerBps : Int
  takerBps : Int
deriving DecidableEq, Repr

def feeTiers : List FeeTier :=
  [⟨0, 0, 10, 20⟩,
    ⟨1, 100000000000, 8, 18⟩,
    ⟨2, 1000000000000, 5, 15⟩,
    ⟨3, 10000000000000, 2, 10⟩]

def worstCaseTakerBps : Int := feeTiers.foldl (fun worst tier => max worst tier.takerBps) 0

structure CollarBand where
  lower : Int
  upper : Int
deriving DecidableEq, Repr

def collarBand (reference : Int) (market : Market) : Except Failure CollarBand := do
  refuse (reference < 0) (.range "reference price must be non-negative")
  let deviation := reference * market.collarBps / bpsDenominator
  let lower := reference - deviation
  pure ⟨if lower < 0 then 0 else lower, reference + deviation⟩

def withinCollar (price : Int) (band : CollarBand) : Bool :=
  decide (price ≥ band.lower) && decide (price ≤ band.upper)

def isMultipleOf (value step : Int) : Except Failure Bool := do
  refuse (step ≤ 0) (.range "step must be positive")
  pure (decide (value % step = 0))

/-! ## Validation -/

/-- `notional`, but an overflow is a value rather than an exception. -/
def safeNotional (price qty : Int) : Option Int := (notional price qty).toOption

structure OrderValidation where
  reasons : List RejectReason
  /-- The band the order was judged against, when one could be computed. -/
  band : Option CollarBand
  /-- The truncated notional, when one could be computed. -/
  notional : Option Int
deriving DecidableEq, Repr

def OrderValidation.ok (validation : OrderValidation) : Bool := validation.reasons.isEmpty

/-- `if (failed) reasons.push(reason)`. -/
def pushIf (failed : Prop) [Decidable failed] (reason : RejectReason) : List RejectReason :=
  if failed then [reason] else []

def limitPrice (request : OrderRequest) : Option Int :=
  if request.orderType = .limit then request.price.map Int.ofNat else none

def onTick (request : OrderRequest) (market : Market) : Except Failure Bool :=
  match limitPrice request with
  | some price => isMultipleOf price market.tickSize
  | none => .ok true

def onLot (request : OrderRequest) (market : Market) : Except Failure Bool :=
  if 0 < request.qty then isMultipleOf request.qty market.lotSize else .ok true

def bandFor (reference : Option Int) (market : Market) : Except Failure (Option CollarBand) :=
  match reference with
  | some reference => some <$> collarBand reference market
  | none => .ok none

/-- A limit price against the band; nothing is outside of no band. -/
def outsideBand (price : Option Int) (band : Option CollarBand) : Bool :=
  match price, band with
  | some price, some band => !withinCollar price band
  | _, _ => false

/-- The reserve of a buy at `price` does not fit, or its fee on top does not. -/
def unreservable (price qty : Int) : Bool :=
  match safeNotional price qty with
  | none => true
  | some reserve => decide (maxU64 < reserve + reserve * worstCaseTakerBps / 10000)

/-- Every check runs on every order. -/
def validateOrder (request : OrderRequest) (market : Market) (reference : Option Int) :
    Except Failure OrderValidation := do
  let qty : Int := request.qty
  let onTick ← onTick request market
  let onLot ← onLot request market
  let judgedAt := (limitPrice request).or reference
  let band ← bandFor reference market
  let truncated := if 0 < qty then judgedAt.bind (safeNotional · qty) else none
  let overflowed := judgedAt.isSome && decide (0 < qty) && truncated.isNone
  -- a market buy reserves at the top of the band, above the reference it was judged at
  let reservePrice := (limitPrice request).or (band.map CollarBand.upper)
  let unreserved := !overflowed && decide (request.side = .buy) && decide (0 < qty) &&
    reservePrice.any (unreservable · qty)
  pure
    { reasons :=
        pushIf (market.status.acceptsPlacement = false ∨
          (market.status = .postOnly ∧ request.postOnly = false)) .marketNotOpen ++
        pushIf (qty ≤ 0) .quantityNotPositive ++
        pushIf (request.orderType = .limit ∧ request.price = none) .priceRequired ++
        pushIf (request.orderType ≠ .limit ∧ request.price ≠ none) .priceNotAllowed ++
        pushIf (request.postOnly = true ∧ request.orderType ≠ .limit) .postOnlyRequiresLimit ++
        pushIf (onTick = false) .tickViolation ++
        pushIf (onLot = false) .lotViolation ++
        pushIf (request.orderType ≠ .limit ∧ reference = none) .noReferencePrice ++
        pushIf (outsideBand (limitPrice request) band = true) .outsideCollar ++
        pushIf (truncated.any (· < market.minNotional) = true) .belowMinNotional ++
        pushIf (overflowed = true ∨ unreserved = true) .notionalOverflow
      band := band
      notional := truncated }

/-! ## The hold, and what the engine is sent -/

structure Hold where
  asset : AssetKey
  amount : Int
  feeHeadroom : Int
deriving DecidableEq, Repr

/-- The price a buy reserves at: its own, or the top of the collar. -/
def priceToReserveAt (request : OrderRequest) (market : Market) (reference : Option Int) :
    Except Thrown Int := do
  if request.orderType = .limit then
    let price ← require request.price (.typeError "a limit order must carry a price")
    pure price
  else
    let reference ← require reference
      (.typeError "a market buy needs a reference price to reserve against")
    let band ← (collarBand reference market).mapError .failure
    pure band.upper

def computeHold (request : OrderRequest) (market : Market) (reference : Option Int) :
    Except Thrown Hold := do
  let qty : Int := request.qty
  refuse (qty ≤ 0) (.rangeError "hold quantity must be positive")
  if request.side = .sell then
    pure ⟨market.baseAsset, qty, 0⟩
  else
    let price ← priceToReserveAt request market reference
    let value ← (notional price qty).mapError .failure
    let feeHeadroom ← (feeAmount value worstCaseTakerBps).mapError .failure
    pure ⟨market.quoteAsset, value + feeHeadroom, feeHeadroom⟩

def floorToTick (price tick : Int) : Int := price / tick * tick
def ceilToTick (price tick : Int) : Int := (price + tick - 1) / tick * tick

/-- Always a limit order; a market order is an IOC at the edge of the collar, on a tick inside. -/
structure EngineTerms where
  timeInForce : TimeInForce
  price : Int
deriving DecidableEq, Repr

def engineTerms (request : OrderRequest) (market : Market) (reference : Option Int) :
    Except Thrown EngineTerms := do
  if request.orderType = .limit then
    pure ⟨request.timeInForce, request.price.getD 0⟩
  else
    let reference ← require reference (.error "unreachable: validated with a reference")
    let band ← (collarBand reference market).mapError .failure
    pure ⟨.ioc, if request.side = .buy then floorToTick band.upper market.tickSize
      else ceilToTick band.lower market.tickSize⟩

end AtlasCex.Trading

import AtlasCex.Matching.Simulation
import AtlasCex.Trading.Market
/-!
# Two validators, one answer (`orders/src/validate.ts`, `engine.rs:394-444`)

The gateway's validator runs every check over bigints and collects the reasons; the engine's
returns the first reason over u64. Each number they compute is the same (`notional_eq`,
`collarBand_eq`, `isMultipleOf_eq`), so `validateOrder` can be written with the engine's own checks
(`validateOrder_eq`). Then the engine's first reason is one of the gateway's (`reason_mem`), and a
request the engine accepts has at most the reserve of a buy against it (`accepted_reasons`).
-/
namespace AtlasCex.Trading

open Matching (OrderRequest MarketConfig RejectReason u64Max validateRequest of_check_some)
open Lib (refuse require bind_eq_ok refuse_eq_ok pure_eq_ok require_eq_ok)

/-- The engine was started with the market's own numbers. -/
structure Mirrors (config : MarketConfig) (market : Market) : Prop where
  tickSize : (config.tickSize : Int) = market.tickSize
  lotSize : (config.lotSize : Int) = market.lotSize
  minNotional : (config.minNotional : Int) = market.minNotional
  collarBps : (config.collarBps : Int) = market.collarBps
  status : config.status = market.status

/-! ## The same integers -/

theorem notional_eq (price qty : Nat) : notional price qty =
    ((Matching.notional price qty).map Int.ofNat).elim (.error (.range "notional exceeds u64")) .ok := by
  have hdiv : ((price : Int) * qty) / priceScale = ((price * qty / Matching.priceScale : Nat) : Int) := by
    simp [priceScale, Matching.priceScale]
  have hmax : maxU64 = (u64Max : Int) := by decide
  have hneg : ¬((price : Int) < 0 ∨ (qty : Int) < 0) := by omega
  simp only [notional, refuse, hneg, if_false, hdiv, hmax, Matching.notional]
  by_cases hfits : price * qty / Matching.priceScale ≤ u64Max
  · rw [if_neg (by omega), if_pos hfits]; rfl
  · rw [if_pos (by omega), if_neg hfits]; rfl

theorem safeNotional_eq (price qty : Nat) :
    safeNotional price qty = (Matching.notional price qty).map Int.ofNat := by
  rw [safeNotional, notional_eq]
  cases Matching.notional price qty <;> rfl

theorem feeAmount_eq (value bps : Nat) :
    feeAmount value bps = .ok ((value * bps / Matching.bpsDenominator : Nat) : Int) := by
  have hbps : ¬((bps : Int) < 0) := by omega
  have hvalue : ¬((value : Int) < 0) := by omega
  simp only [feeAmount, refuse, hbps, hvalue, if_false]
  simp [bpsDenominator, Matching.bpsDenominator, bind, Except.bind, pure, Except.pure]

/-- How far from the reference the band reaches. -/
def deviation (config : MarketConfig) (reference : Nat) : Nat :=
  reference * config.collarBps / Matching.bpsDenominator

theorem collarBand_eq {config : MarketConfig} {market : Market} (h : Mirrors config market)
    (reference : Nat) : collarBand reference market =
      .ok ⟨(config.collarBand reference).1, reference + deviation config reference⟩ := by
  have hneg : ¬((reference : Int) < 0) := by omega
  have hdev : (reference : Int) * market.collarBps / bpsDenominator =
      (deviation config reference : Int) := by
    simp [← h.collarBps, deviation, bpsDenominator, Matching.bpsDenominator]
  simp only [collarBand, refuse, hneg, if_false, hdev, MarketConfig.collarBand]
  rw [← deviation]
  generalize deviation config reference = dev
  have hlower : (if (reference : Int) - dev < 0 then 0 else (reference : Int) - dev) =
      ((reference - dev : Nat) : Int) := by
    split <;> omega
  rw [hlower]; rfl

theorem collarBand_upper (config : MarketConfig) (reference : Nat) :
    (config.collarBand reference).2 = min (reference + deviation config reference) u64Max := rfl

theorem isMultipleOf_eq {value step : Nat} (hstep : 0 < step) :
    isMultipleOf value step = .ok (Matching.isMultipleOf value step) := by
  have hpos : ¬((step : Int) ≤ 0) := by omega
  have hmod : decide ((value : Int) % step = 0) = Matching.isMultipleOf value step := by
    rw [Bool.eq_iff_iff, Matching.isMultipleOf_iff, decide_eq_true_eq]
    omega
  simp only [isMultipleOf, refuse, hpos, if_false, hmod]
  rfl

/-- The gateway's collar check is the engine's: no u64 price passes the cap. -/
theorem withinCollar_eq {config : MarketConfig} {price reference : Nat} (hprice : price ≤ u64Max) :
    (!withinCollar price
      ⟨(config.collarBand reference).1, reference + deviation config reference⟩) =
      Matching.outsideCollar config (some price) (some reference) := by
  have hupper := collarBand_upper config reference
  simp only [withinCollar, Matching.outsideCollar]
  generalize config.collarBand reference = band at hupper
  obtain ⟨lower, upper⟩ := band
  simp only at hupper ⊢
  rw [Bool.eq_iff_iff]
  simp only [Bool.not_eq_true', Bool.and_eq_false_iff, decide_eq_false_iff_not, decide_eq_true_eq]
  omega

/-! ## The gateway's validation in the engine's checks -/

section
variable (config : MarketConfig) (request : OrderRequest) (reference : Option Nat)

/-- The price of a limit order, the only one the gateway looks at. -/
def ownPrice : Option Nat := if request.orderType = .limit then request.price else none

/-- The value an order is judged by, when it fits. -/
def judgedValue : Option Nat :=
  if 0 < request.qty then ((ownPrice request).or reference).bind (Matching.notional · request.qty)
  else none

def valueOverflows : Bool :=
  ((ownPrice request).or reference).isSome && decide (0 < request.qty) &&
    (judgedValue request reference).isNone

/-- The band as the gateway computes it: the top is not capped. -/
def bandAt : Option CollarBand :=
  reference.map fun reference =>
    ⟨(config.collarBand reference).1, reference + deviation config reference⟩

def reserveOverflows : Bool :=
  !valueOverflows request reference && decide (request.side = .buy) && decide (0 < request.qty) &&
    ((limitPrice request).or ((bandAt config reference).map CollarBand.upper)).any
      (unreservable · request.qty)

def validation : OrderValidation where
  reasons :=
    pushIf (config.status.acceptsPlacement = false ∨
      (config.status = .postOnly ∧ request.postOnly = false)) .marketNotOpen ++
    pushIf ((request.qty : Int) ≤ 0) .quantityNotPositive ++
    pushIf (request.orderType = .limit ∧ request.price = none) .priceRequired ++
    pushIf (request.orderType ≠ .limit ∧ request.price ≠ none) .priceNotAllowed ++
    pushIf (request.postOnly = true ∧ request.orderType ≠ .limit) .postOnlyRequiresLimit ++
    pushIf ((ownPrice request).all (Matching.isMultipleOf · config.tickSize) = false)
      .tickViolation ++
    pushIf (decide (0 < request.qty → Matching.isMultipleOf request.qty config.lotSize = true) = false)
      .lotViolation ++
    pushIf (request.orderType ≠ .limit ∧ reference = none) .noReferencePrice ++
    pushIf (Matching.outsideCollar config (ownPrice request) reference = true) .outsideCollar ++
    pushIf ((judgedValue request reference).any (· < config.minNotional) = true) .belowMinNotional ++
    pushIf (valueOverflows request reference = true ∨
      reserveOverflows config request reference = true) .notionalOverflow
  band := bandAt config reference
  notional := (judgedValue request reference).map Int.ofNat

end

section
variable {config : MarketConfig} {market : Market} {request : OrderRequest} {reference : Option Nat}

theorem limitPrice_eq (request : OrderRequest) :
    limitPrice request = (ownPrice request).map Int.ofNat := by
  unfold limitPrice ownPrice
  split <;> rfl

theorem ownPrice_mem {price : Nat} (h : ownPrice request = some price) :
    request.price = some price := by
  unfold ownPrice at h
  split at h
  · exact h
  · cases h

theorem judgedValue_eq (request : OrderRequest) (reference : Option Nat) :
    (if 0 < (request.qty : Int) then
      ((limitPrice request).or (reference.map Int.ofNat)).bind (safeNotional · request.qty)
      else none) = (judgedValue request reference).map Int.ofNat := by
  rw [limitPrice_eq, ← Option.map_or]
  unfold judgedValue
  by_cases hqty : 0 < request.qty
  · rw [if_pos (by omega), if_pos hqty]
    cases (ownPrice request).or reference with
    | none => rfl
    | some price => exact safeNotional_eq price request.qty
  · rw [if_neg (by omega), if_neg hqty]
    rfl

theorem onTick_eq (h : Mirrors config market) (htick : 0 < config.tickSize) :
    onTick request market =
      .ok ((ownPrice request).all (Matching.isMultipleOf · config.tickSize)) := by
  rw [onTick, limitPrice_eq, ← h.tickSize]
  cases ownPrice request with
  | none => rfl
  | some price => exact isMultipleOf_eq htick

theorem onLot_eq (h : Mirrors config market) (hlot : 0 < config.lotSize) :
    onLot request market =
      .ok (decide (0 < request.qty → Matching.isMultipleOf request.qty config.lotSize = true)) := by
  rw [onLot, ← h.lotSize]
  by_cases hqty : 0 < request.qty
  · rw [if_pos hqty, isMultipleOf_eq hlot]
    simp [hqty]
  · rw [if_neg hqty]
    simp [hqty]

theorem bandFor_eq (h : Mirrors config market) (reference : Option Nat) :
    bandFor (reference.map Int.ofNat) market = .ok (bandAt config reference) := by
  cases reference with
  | none => rfl
  | some reference =>
    have hband := collarBand_eq h reference
    simp only [bandFor, Option.map_some, Int.ofNat_eq_natCast, hband]
    rfl

theorem outsideBand_eq (hprice : ∀ price, request.price = some price → price ≤ u64Max) :
    outsideBand (limitPrice request) (bandAt config reference) =
      Matching.outsideCollar config (ownPrice request) reference := by
  rw [limitPrice_eq]
  cases hown : ownPrice request with
  | none => cases reference <;> rfl
  | some price =>
    cases reference with
    | none => rfl
    | some reference => exact withinCollar_eq (hprice price (ownPrice_mem hown))

theorem validateOrder_eq (h : Mirrors config market) (htick : 0 < config.tickSize)
    (hlot : 0 < config.lotSize) (hprice : ∀ price, request.price = some price → price ≤ u64Max) :
    validateOrder request market (reference.map Int.ofNat) =
      .ok (validation config request reference) := by
  have hsome : ((limitPrice request).or (reference.map Int.ofNat)).isSome =
      ((ownPrice request).or reference).isSome := by
    rw [limitPrice_eq, ← Option.map_or, Option.isSome_map]
  have hnone : reference.map Int.ofNat = none ↔ reference = none := Option.map_eq_none_iff
  have hmin : ((judgedValue request reference).map Int.ofNat).any (· < market.minNotional) =
      (judgedValue request reference).any (· < config.minNotional) := by
    rw [← h.minNotional]
    cases judgedValue request reference <;> simp
  have hqty : decide (0 < (request.qty : Int)) = decide (0 < request.qty) := by simp
  unfold validateOrder validation reserveOverflows
  simp only [onTick_eq h htick, onLot_eq h hlot, bandFor_eq h, bind, Except.bind, judgedValue_eq,
    outsideBand_eq hprice, hsome, Option.isNone_map, hmin, hnone, h.status, hqty]
  rfl

/-! ## The engine's reason is one of the gateway's -/

theorem mem_pushIf {failed : Prop} [Decidable failed] {reason reason' : RejectReason} :
    reason' ∈ pushIf failed reason ↔ failed ∧ reason' = reason := by
  unfold pushIf
  split <;> simp_all

theorem pushIf_neg {failed : Prop} [Decidable failed] (h : ¬failed) (reason : RejectReason) :
    pushIf failed reason = [] := if_neg h

/-- Past the check of `price` against the order's type, the gateway reads the price it has. -/
theorem ownPrice_eq (h : ¬(request.orderType ≠ .limit ∧ request.price ≠ none)) :
    ownPrice request = request.price := by
  unfold ownPrice
  split
  · rfl
  · rename_i hl
    exact (not_not.1 fun hp => h ⟨hl, hp⟩).symm

theorem reason_mem {reason : RejectReason}
    (h : validateRequest config reference request = some reason) :
    reason ∈ (validation config request reference).reasons ∧
      (reason = .notionalOverflow → (validation config request reference).notional = none) := by
  unfold validateRequest at h
  obtain ⟨hc, rfl⟩ | ⟨-, h⟩ := of_check_some h
  · exact ⟨by simp [validation, mem_pushIf, by simpa using hc], nofun⟩
  obtain ⟨hc, rfl⟩ | ⟨-, h⟩ := of_check_some h
  · exact ⟨by simp [validation, mem_pushIf, hc.1, by simpa using hc.2], nofun⟩
  obtain ⟨hc, rfl⟩ | ⟨hqty, h⟩ := of_check_some h
  · exact ⟨by simp [validation, mem_pushIf, hc], nofun⟩
  obtain ⟨hc, rfl⟩ | ⟨hlimit, h⟩ := of_check_some h
  · exact ⟨by simp [validation, mem_pushIf, hc], nofun⟩
  obtain ⟨hc, rfl⟩ | ⟨hmarket, h⟩ := of_check_some h
  · exact ⟨by simp [validation, mem_pushIf, hc], nofun⟩
  obtain ⟨hc, rfl⟩ | ⟨-, h⟩ := of_check_some h
  · exact ⟨by simp [validation, mem_pushIf, hc], nofun⟩
  -- from here on the price is the limit order's own, and the quantity is positive
  have hown := ownPrice_eq hmarket
  have hpos : 0 < request.qty := Nat.pos_of_ne_zero hqty
  obtain ⟨hc, rfl⟩ | ⟨-, h⟩ := of_check_some h
  · obtain ⟨price, hprice, hoff⟩ := (Option.any_eq_true _ _).1 hc
    exact ⟨by simp [validation, mem_pushIf, hown, hprice, by simpa using hoff], nofun⟩
  obtain ⟨hc, rfl⟩ | ⟨-, h⟩ := of_check_some h
  · exact ⟨by simp [validation, mem_pushIf, hpos, by simpa using hc], nofun⟩
  cases hjudged : request.price.or reference with
  | none =>
    rw [hjudged] at h
    cases h
    obtain ⟨hprice, href⟩ := Option.or_eq_none_iff.1 hjudged
    have htype : request.orderType ≠ .limit := fun hl => hlimit ⟨hl, hprice⟩
    exact ⟨by simp [validation, mem_pushIf, htype, href], nofun⟩
  | some judgedAt =>
    rw [hjudged] at h
    have hvalue : judgedValue request reference = Matching.notional judgedAt request.qty := by
      rw [judgedValue, if_pos hpos, hown, hjudged, Option.bind_some]
    obtain ⟨hc, rfl⟩ | ⟨-, h⟩ := of_check_some h
    · exact ⟨by simp [validation, mem_pushIf, hown, hc], nofun⟩
    cases hnotional : Matching.notional judgedAt request.qty with
    | none =>
      rw [hnotional] at h hvalue
      cases h
      exact ⟨by simp [validation, mem_pushIf, valueOverflows, hown, hjudged, hpos, hvalue],
        fun _ => by simp [validation, hvalue]⟩
    | some value =>
      rw [hnotional] at h hvalue
      obtain ⟨hc, rfl⟩ | ⟨-, h⟩ := of_check_some h
      · exact ⟨by simp [validation, mem_pushIf, hvalue, hc], nofun⟩
      · cases h

/-! ## What the engine accepts -/

/-- Against a request the engine accepts, the gateway can only have the reserve of a buy. -/
theorem accepted_reasons (h : validateRequest config reference request = none) :
    (validation config request reference).reasons =
        pushIf (reserveOverflows config request reference = true) .notionalOverflow ∧
      (validation config request reference).notional ≠ none := by
  have hv := Matching.validateRequest_none h
  have hown : ownPrice request = request.price :=
    ownPrice_eq fun ⟨hl, hp⟩ => hp (hv.marketPrice hl)
  have hpos : 0 < request.qty := Nat.pos_of_ne_zero hv.qty
  obtain ⟨judgedAt, value, hjudged, hvalue, hmin⟩ := hv.notional
  have hjv : judgedValue request reference = some value := by
    rw [judgedValue, if_pos hpos, hown, hjudged, Option.bind_some, hvalue]
  have hstatus : ¬(config.status.acceptsPlacement = false ∨
      (config.status = .postOnly ∧ request.postOnly = false)) := by
    rintro (hs | ⟨hs, hp⟩)
    · rw [hv.accepts] at hs; cases hs
    · rw [hv.status hs] at hp; cases hp
  have hlimit : ¬(request.orderType = .limit ∧ request.price = none) := by
    rintro ⟨hl, hp⟩
    obtain ⟨price, hprice⟩ := hv.limitPrice hl
    rw [hp] at hprice; cases hprice
  have hmarket : ¬(request.orderType ≠ .limit ∧ request.price ≠ none) :=
    fun ⟨hl, hp⟩ => hp (hv.marketPrice hl)
  have hpost : ¬(request.postOnly = true ∧ request.orderType ≠ .limit) :=
    fun ⟨hp, hl⟩ => hl (hv.postOnly hp)
  have htick : (ownPrice request).all (Matching.isMultipleOf · config.tickSize) = true := by
    rw [hown, Option.all_eq_true]
    exact hv.tick
  have href : ¬(request.orderType ≠ .limit ∧ reference = none) := by
    rintro ⟨hl, hr⟩
    rw [hv.marketPrice hl, hr] at hjudged
    cases hjudged
  have hcollar : Matching.outsideCollar config (ownPrice request) reference = false := by
    rw [hown]
    cases hp : request.price with
    | none => rfl
    | some price =>
      cases hr : reference with
      | none => rfl
      | some last =>
        have := hv.collar price last hp hr
        simp only [Matching.outsideCollar, decide_eq_false_iff_not]
        omega
  have hover : valueOverflows request reference = false := by simp [valueOverflows, hjv]
  refine ⟨?_, by simp [validation, hjv]⟩
  simp only [validation, pushIf_neg hstatus, pushIf_neg hlimit, pushIf_neg hmarket,
    pushIf_neg hpost, pushIf_neg href, htick, hcollar, hover, hjv, hv.lot]
  simp [pushIf, hpos, hv.qty, Nat.not_lt.2 hmin]

/-- A reserve that does not fit is a buy's. -/
theorem reserveOverflows_buy (h : reserveOverflows config request reference = true) :
    request.side = .buy := by
  simp only [reserveOverflows, Bool.and_eq_true, decide_eq_true_eq] at h
  exact h.1.1.2

end

/-! ## Agreement -/

theorem createMarket_positive {bigInt : String → Option Int} {definition : MarketDefinition}
    {market : Market} (h : createMarket bigInt definition = .ok market) :
    0 < market.tickSize ∧ 0 < market.lotSize ∧ 0 < market.collarBps := by
  simp only [createMarket, bind_eq_ok, refuse_eq_ok, pure_eq_ok] at h
  obtain ⟨-, -, -, -, -, -, -, -, tick, -, lot, -, -, -, -, htick, -, hlot, -, -, collar, -, -, hcollar,
    -, -, rfl⟩ := h
  exact ⟨by simpa using htick, by simpa using hlot, by simpa using hcollar⟩

/-- **The two validators agree**: on every market `createMarket` accepts and the engine was started
with, and every request and reference price of u64 numbers. The engine accepts exactly what the
gateway has nothing against but, at most, the reserve of a buy; its reason is one of the gateway's;
and the two compute the same notionals, fees and bands. -/
theorem validators_agree (bigInt : String → Option Int) (definition : MarketDefinition)
    (market : Market) (config : MarketConfig) (request : OrderRequest) (reference : Option Nat)
    (hmarket : createMarket bigInt definition = .ok market) (hmirrors : Mirrors config market)
    (hprice : ∀ price, request.price = some price → price ≤ u64Max) :
    (∃ v, validateOrder request market (reference.map Int.ofNat) = .ok v ∧
      (validateRequest config reference request = none ↔
        v.reasons = [] ∨
          (v.reasons = [.notionalOverflow] ∧ request.side = .buy ∧ v.notional ≠ none)) ∧
      (∀ reason, validateRequest config reference request = some reason → reason ∈ v.reasons)) ∧
    (∀ price qty : Nat,
      (notional price qty).toOption = (Matching.notional price qty).map Int.ofNat) ∧
    (∀ value bps : Nat, ∀ fee, Matching.feeAmount value bps = some fee →
      feeAmount value bps = .ok (fee : Int)) ∧
    (∀ last : Nat, ∃ band, collarBand last market = .ok band ∧
      band.lower = (config.collarBand last).1 ∧
      min band.upper u64Max = ((config.collarBand last).2 : Int)) := by
  obtain ⟨htick, hlot, -⟩ := createMarket_positive hmarket
  rw [← hmirrors.tickSize] at htick
  rw [← hmirrors.lotSize] at hlot
  refine ⟨⟨validation config request reference, ?_, ?_, fun reason h => (reason_mem h).1⟩,
    safeNotional_eq, fun value bps fee hfee => ?_, fun last => ?_⟩
  · exact validateOrder_eq hmirrors (by omega) (by omega) hprice
  · constructor
    · intro h
      obtain ⟨hreasons, hvalue⟩ := accepted_reasons h
      by_cases hreserve : reserveOverflows config request reference = true
      · rw [pushIf, if_pos hreserve] at hreasons
        exact .inr ⟨hreasons, reserveOverflows_buy hreserve, hvalue⟩
      · rw [pushIf_neg hreserve] at hreasons
        exact .inl hreasons
    · intro h
      cases hengine : validateRequest config reference request with
      | none => rfl
      | some reason =>
        obtain ⟨hmem, hoverflow⟩ := reason_mem hengine
        obtain hnone | ⟨honly, -, hvalue⟩ := h
        · rw [hnone] at hmem; cases hmem
        · rw [honly, List.mem_singleton] at hmem
          exact absurd (hoverflow hmem) hvalue
  · simp only [Matching.feeAmount] at hfee
    split at hfee
    · cases hfee; exact feeAmount_eq value bps
    · cases hfee
  · refine ⟨_, collarBand_eq hmirrors last, rfl, ?_⟩
    rw [collarBand_upper]
    simp only
    omega

/-- A market of the tests' own numbers, and the engine started with them. -/
def solUsdc : MarketDefinition where
  cluster := "devnet"
  symbol := "SOL-USDC"
  baseAsset := "devnet:SOL"
  quoteAsset := "devnet:USDC"
  tickSize := "10"
  lotSize := "1000000"
  minNotional := "100"
  collarBps := some 1000
  status := some .open

def decimal (text : String) : Option Int :=
  some (text.toList.foldl (fun n c => 10 * n + (c.toNat - '0'.toNat)) 0)

def solUsdcMarket : Market where
  id := "devnet:SOL-USDC"
  cluster := "devnet"
  symbol := "SOL-USDC"
  baseAsset := ⟨"devnet", "SOL"⟩
  quoteAsset := ⟨"devnet", "USDC"⟩
  tickSize := 10
  lotSize := 1000000
  minNotional := 100
  collarBps := 1000
  status := .open

/-- A market buy whose value at the reference fits u64, and at the top of the collar does not. -/
def hugeBuy : OrderRequest where
  clientOrderId := "huge-buy"
  side := .buy
  orderType := .market
  timeInForce := .ioc
  price := none
  qty := 18446744073709000000
  postOnly := false
  stpMode := .cancelTaker
  accountId := "alice"

theorem validators_agree_huge :
    ∃ v, validateOrder hugeBuy solUsdcMarket (some 1000000000) = .ok v ∧
      validateRequest Matching.sampleMarket (some 1000000000) hugeBuy = none ∧
      (v.reasons = [] ∨
        (v.reasons = [.notionalOverflow] ∧ hugeBuy.side = .buy ∧ v.notional ≠ none)) := by
  obtain ⟨⟨v, hv, hiff, -⟩, -⟩ := validators_agree decimal solUsdc solUsdcMarket
    Matching.sampleMarket hugeBuy (some 1000000000) (by decide +kernel)
    ⟨rfl, rfl, rfl, rfl, rfl⟩ (by decide)
  have haccepts : validateRequest Matching.sampleMarket (some 1000000000) hugeBuy = none := by
    decide +kernel
  exact ⟨v, hv, haccepts, hiff.1 haccepts⟩

example : validateOrder hugeBuy solUsdcMarket (some 1000000000) =
    .ok ⟨[.notionalOverflow], some ⟨900000000, 1100000000⟩, some 18446744073709000000⟩ := by
  decide +kernel

end AtlasCex.Trading

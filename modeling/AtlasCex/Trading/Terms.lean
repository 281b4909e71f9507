import AtlasCex.Trading.Reserve
import Mathlib.Order.Bounds.Basic
/-!
# What the gateway admits and the engine judges (`order.service.ts:491-517`)

A limit order goes to the engine as it was validated. A market order goes as an IOC limit order at the
edge of the collar, rounded to a tick: the gateway has judged it at the reference, and the engine
judges it at that edge.

For a sell the edge is below the reference: the order is worth less there than the gateway saw, and may
be below the minimum. The tick nearest to an edge may lie on the far side of the whole band, when the
reference is the mid of a quote, and the upper edge need not be a u64.
`admitted_passes_engine_iff`: the engine's `validate` has nothing against what the gateway admits just
where that tick is a u64 inside the band and the order is worth the minimum there.
-/
namespace AtlasCex.Trading

open Matching (OrderRequest MarketConfig u64Max validateRequest)
open Lib (bind_eq_ok)

/-- The order as it is sent. -/
def OrderRequest.sent (request : OrderRequest) (terms : EngineTerms) : OrderRequest :=
  { request with
    orderType := .limit
    timeInForce := terms.timeInForce
    price := some terms.price.toNat }

/-- The last tick inside the edge of the collar a market order may reach. -/
def EdgeTick (config : MarketConfig) (side : Matching.Side) (reference price : Nat) : Prop :=
  match side with
  | .buy => IsGreatest {p | config.tickSize ∣ p ∧ p ≤ reference + deviation config reference} price
  | .sell => IsLeast {p | config.tickSize ∣ p ∧ reference - deviation config reference ≤ p} price

/-- What a market order needs of that tick: a u64 inside the collar, where the order is worth the
minimum and no more than a u64. -/
def Reaches (config : MarketConfig) (request : OrderRequest) (reference : Nat) : Prop :=
  ∃ price, EdgeTick config request.side reference price ∧ price ≤ u64Max ∧
    reference - deviation config reference ≤ price ∧
    price ≤ reference + deviation config reference ∧
    config.minNotional ≤ price * request.qty / Matching.priceScale ∧
    price * request.qty / Matching.priceScale ≤ u64Max

/-! ## Ticks -/

section
variable {tick x : Nat}

theorem floorToTick_eq (x tick : Nat) : floorToTick x tick = ((x / tick * tick : Nat) : Int) := by
  simp [floorToTick]

theorem ceilToTick_eq (x : Nat) (htick : 0 < tick) :
    ceilToTick x tick = (((x + tick - 1) / tick * tick : Nat) : Int) := by
  have hsub : (x : Int) + tick - 1 = ((x + tick - 1 : Nat) : Int) := by omega
  rw [ceilToTick, hsub]
  simp

/-- The floor is the greatest multiple that is not above. -/
theorem le_floor {p : Nat} (hdvd : tick ∣ p) (hle : p ≤ x) : p ≤ x / tick * tick := by
  obtain ⟨k, rfl⟩ := hdvd
  by_cases htick : tick = 0
  · simp [htick]
  · rw [Nat.mul_comm]
    exact Nat.mul_le_mul_right _ ((Nat.le_div_iff_mul_le (Nat.pos_of_ne_zero htick)).2
      (by rwa [Nat.mul_comm]))

theorem le_ceil (x : Nat) (htick : 0 < tick) : x ≤ (x + tick - 1) / tick * tick := by
  have hmod := Nat.div_add_mod (x + tick - 1) tick
  have hlt := Nat.mod_lt (x + tick - 1) htick
  rw [Nat.mul_comm] at hmod
  omega

/-- The ceiling is the least multiple that is not below. -/
theorem ceil_le {p : Nat} (htick : 0 < tick) (hdvd : tick ∣ p) (hle : x ≤ p) :
    (x + tick - 1) / tick * tick ≤ p := by
  obtain ⟨k, rfl⟩ := hdvd
  rw [Nat.mul_comm tick]
  refine Nat.mul_le_mul_right _ (Nat.lt_succ_iff.1 ?_)
  rw [Nat.div_lt_iff_lt_mul htick, Nat.succ_mul, Nat.mul_comm k]
  omega

end

/-! ## A market order at the edge -/

section
variable {config : MarketConfig} {market : Market} {request : OrderRequest} {reference price : Nat}

/-- The price a market order is sent at. -/
def edge (config : MarketConfig) (side : Matching.Side) (reference : Nat) : Nat :=
  if side = .buy then (reference + deviation config reference) / config.tickSize * config.tickSize
  else (reference - deviation config reference + config.tickSize - 1) / config.tickSize *
    config.tickSize

theorem edgeTick_iff (htick : 0 < config.tickSize) (side : Matching.Side) :
    EdgeTick config side reference price ↔ price = edge config side reference := by
  have hedge : EdgeTick config side reference (edge config side reference) := by
    cases side with
    | buy => exact ⟨⟨Nat.dvd_mul_left _ _, Nat.div_mul_le_self _ _⟩, fun p hp => le_floor hp.1 hp.2⟩
    | sell => exact ⟨⟨Nat.dvd_mul_left _ _, le_ceil _ htick⟩, fun p hp => ceil_le htick hp.1 hp.2⟩
  refine ⟨fun h => ?_, fun h => h ▸ hedge⟩
  cases side with
  | buy => exact IsGreatest.unique h hedge
  | sell => exact IsLeast.unique h hedge

theorem notional_some {qty value : Nat} : Matching.notional price qty = some value ↔
    price * qty / Matching.priceScale ≤ u64Max ∧ price * qty / Matching.priceScale = value := by
  simp [Matching.notional]

/-- The market order was judged at the reference; here is its limit, and what is left to check. -/
theorem sent_valid_iff (hv : Matching.Valid config (some reference) request)
    (hmarket : request.orderType ≠ .limit) (htick : Matching.isMultipleOf price config.tickSize = true) :
    validateRequest config (some reference) (OrderRequest.sent request ⟨.ioc, price⟩) = none ↔
      ((config.collarBand reference).1 ≤ price ∧ price ≤ (config.collarBand reference).2) ∧
      config.minNotional ≤ price * request.qty / Matching.priceScale ∧
      price * request.qty / Matching.priceScale ≤ u64Max := by
  have hpost : request.postOnly = false := by
    cases hp : request.postOnly with
    | false => rfl
    | true => exact absurd (hv.postOnly hp) hmarket
  constructor
  · intro h
    have hsent := Matching.validateRequest_none h
    obtain ⟨judgedAt, value, hjudged, hvalue, hmin⟩ := hsent.notional
    cases hjudged
    obtain ⟨hfits, rfl⟩ := notional_some.1 hvalue
    exact ⟨hsent.collar price reference rfl rfl, hmin, hfits⟩
  · rintro ⟨hcollar, hmin, hfits⟩
    apply Matching.Valid.validateRequest
    constructor
    case accepts => exact hv.accepts
    case status => exact hv.status
    case qty => exact hv.qty
    case limitPrice => exact fun _ => ⟨price, rfl⟩
    case marketPrice => exact fun h => absurd rfl h
    case postOnly => exact fun _ => rfl
    case tick =>
      rintro p ⟨⟩
      exact htick
    case lot => exact hv.lot
    case collar =>
      rintro p last ⟨⟩ ⟨⟩
      exact hcollar
    case notional => exact ⟨price, _, rfl, notional_some.2 ⟨hfits, rfl⟩, hmin⟩

/-- What `engineTerms` makes of a market order. -/
theorem engineTerms_market (reference : Nat) (hmirrors : Mirrors config market)
    (htick : 0 < config.tickSize) (hmarket : request.orderType ≠ .limit) :
    engineTerms request market (some (reference : Int)) =
      .ok ⟨.ioc, (edge config request.side reference : Int)⟩ := by
  have hband := collarBand_eq hmirrors reference
  rw [engineTerms, if_neg hmarket, bind_eq_ok]
  refine ⟨(reference : Int), rfl, bind_eq_ok.2 ⟨_, Lib.mapError_eq_ok.2 hband, ?_⟩⟩
  rw [← hmirrors.tickSize]
  cases request.side with
  | buy =>
    exact congrArg (fun price => Except.ok (EngineTerms.mk .ioc price))
      (floorToTick_eq (reference + deviation config reference) config.tickSize)
  | sell =>
    exact congrArg (fun price => Except.ok (EngineTerms.mk .ioc price))
      (ceilToTick_eq (config.collarBand reference).1 htick)

theorem market_passes_iff (hmirrors : Mirrors config market) (htick : 0 < config.tickSize)
    (hv : Matching.Valid config (some reference) request) (hmarket : request.orderType ≠ .limit) :
    (∃ terms, engineTerms request market (some (reference : Int)) = .ok terms ∧
      (0 ≤ terms.price ∧ terms.price ≤ u64Max) ∧
      validateRequest config (some reference) (OrderRequest.sent request terms) = none) ↔
      Reaches config request reference := by
  have hterms := engineTerms_market reference hmirrors htick hmarket
  have hmultiple : Matching.isMultipleOf (edge config request.side reference) config.tickSize = true := by
    refine Matching.isMultipleOf_iff.2 ⟨Nat.ne_of_gt htick, ?_⟩
    unfold edge
    split <;> exact Nat.dvd_mul_left _ _
  have hsent := sent_valid_iff hv hmarket hmultiple
  have hupper := collarBand_upper config reference
  have hlower : (config.collarBand reference).1 = reference - deviation config reference := rfl
  rw [hupper, hlower] at hsent
  simp only [Reaches, edgeTick_iff htick, exists_eq_left]
  constructor
  · rintro ⟨terms, h, ⟨-, hle⟩, hnone⟩
    cases hterms.symm.trans h
    simp only at hle
    have := hsent.1 hnone
    omega
  · intro h
    exact ⟨_, hterms, ⟨by simp only; omega, by simp only; omega⟩, hsent.2 (by omega)⟩

end

/-- **When the engine takes what the gateway admits**: on every market `createMarket` accepts and the
engine was started with, for every request and reference price of u64 numbers. A limit order always
passes; a market order just where the last tick before its edge of the collar will do. -/
theorem admitted_passes_engine_iff (bigInt : String → Option Int) (definition : MarketDefinition)
    (market : Market) (config : MarketConfig) (request : OrderRequest) (reference : Option Nat)
    (v : OrderValidation) (hmarket : createMarket bigInt definition = .ok market)
    (hmirrors : Mirrors config market)
    (hprice : ∀ price, request.price = some price → price ≤ u64Max)
    (hvalid : validateOrder request market (reference.map Int.ofNat) = .ok v) (hok : v.ok = true) :
    (∃ terms, engineTerms request market (reference.map Int.ofNat) = .ok terms ∧
      (0 ≤ terms.price ∧ terms.price ≤ u64Max) ∧
      validateRequest config reference (OrderRequest.sent request terms) = none) ↔
      (request.orderType ≠ .limit → ∀ last, reference = some last → Reaches config request last) := by
  obtain ⟨htick, hlot, -⟩ := createMarket_positive hmarket
  rw [← hmirrors.tickSize] at htick
  rw [← hmirrors.lotSize] at hlot
  have hadmitted := admitted hvalid hok
  -- the engine has nothing against the order as the gateway judged it
  have hjudged : validateRequest config reference request = none := by
    have hsame : validateOrder request market (reference.map Int.ofNat) =
        .ok (validation config request reference) :=
      validateOrder_eq hmirrors (by omega) (by omega) hprice
    rw [hvalid] at hsame
    cases hsame
    cases hengine : validateRequest config reference request with
    | none => rfl
    | some reason =>
      have hmem := (reason_mem hengine).1
      rw [List.isEmpty_iff.1 hok] at hmem
      cases hmem
  by_cases hl : request.orderType = .limit
  · obtain ⟨price, hown⟩ := hadmitted.limitPrice hl
    refine iff_of_true ⟨⟨request.timeInForce, price⟩, ?_, ⟨by simp only; omega, ?_⟩, ?_⟩
      (absurd hl)
    · rw [engineTerms, if_pos hl, hown]
      rfl
    · have := hprice price hown
      simp only
      omega
    · have hsame : OrderRequest.sent request ⟨request.timeInForce, price⟩ = request := by
        obtain ⟨_, _, orderType, _, _, _, _, _, _⟩ := request
        cases hl
        cases hown
        rfl
      rw [hsame]
      exact hjudged
  · obtain ⟨last, hlast⟩ := hadmitted.referenced hl
    obtain ⟨reference, rfl, rfl⟩ := Option.map_eq_some_iff.1 hlast
    have hv := Matching.validateRequest_none hjudged
    have hpasses := market_passes_iff hmirrors (by omega) hv hl
    exact hpasses.trans ⟨fun h _ last hlast => Option.some.inj hlast ▸ h, fun h => h hl reference rfl⟩

/-- A market sell of a tenth of a SOL: worth the minimum of 100 at a reference of 1000, and 90 at 900. -/
def smallSell : OrderRequest :=
  { hugeBuy with clientOrderId := "small-sell", side := .sell, qty := 100000000 }

/-- The gateway admits it, and the engine refuses it as below the minimum. -/
theorem market_sell_refused :
    createMarket decimal solUsdc = .ok solUsdcMarket ∧ Mirrors Matching.sampleMarket solUsdcMarket ∧
      validateOrder smallSell solUsdcMarket (some 1000) = .ok ⟨[], some ⟨900, 1100⟩, some 100⟩ ∧
      engineTerms smallSell solUsdcMarket (some 1000) = .ok ⟨.ioc, 900⟩ ∧
      validateRequest Matching.sampleMarket (some 1000) (OrderRequest.sent smallSell ⟨.ioc, 900⟩) =
        some .belowMinNotional :=
  ⟨by decide +kernel, ⟨rfl, rfl, rfl, rfl, rfl⟩, by decide +kernel, by decide +kernel,
    by decide +kernel⟩

/-- Three SOL of the same market pass. -/
theorem admitted_passes_engine_buy :
    ∃ terms, engineTerms marketBuy solUsdcMarket (some 1000) = .ok terms ∧
      (0 ≤ terms.price ∧ terms.price ≤ u64Max) ∧
      validateRequest Matching.sampleMarket (some 1000) (OrderRequest.sent marketBuy terms) = none := by
  refine (admitted_passes_engine_iff decimal solUsdc solUsdcMarket Matching.sampleMarket marketBuy
    (some 1000) ⟨[], some ⟨900, 1100⟩, some 3000⟩ (by decide +kernel) ⟨rfl, rfl, rfl, rfl, rfl⟩
    (by decide) (by decide +kernel) rfl).2 ?_
  rintro - last ⟨⟩
  exact ⟨1100, (edgeTick_iff (by decide) _).2 (by decide), by decide, by decide, by decide, by decide,
    by decide⟩

end AtlasCex.Trading

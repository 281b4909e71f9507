import AtlasCex.Lib.Floors
import AtlasCex.Trading.Validation
/-!
# A hold is enough (`orders/src/hold.ts`, `settlement.ts`, `order.service.ts:503-517`)

A buy reserves the notional of its whole quantity at the highest price it can pay, and the fee on
that at the highest rate. The engine is given a price no higher (`Reserved.terms_le`), so its fills
are parts of that whole, each rounded down on its own: `Lib.sum_floor_le`, once for the notionals
at their prices and once for the fees at their rates. A sell reserves the bare quantity; its fee
comes out of the proceeds, which cover it.
-/
namespace AtlasCex.Trading

open Matching (OrderRequest Side)
open Lib (refuse require bind_eq_ok refuse_eq_ok pure_eq_ok require_eq_ok mapError_eq_ok)

/-- A fill as settlement prices it (`FillTerms`). -/
structure FillTerms where
  price : Int
  qty : Int
  takerSide : Side
  takerBps : Int
  makerBps : Int
deriving DecidableEq, Repr

namespace FillTerms

def amounts (fill : FillTerms) : Except Failure FillAmounts :=
  fillAmounts fill.price fill.qty fill.takerSide fill.takerBps fill.makerBps

def value (fill : FillTerms) : Int := fill.price * fill.qty / priceScale

def buyerBps (fill : FillTerms) : Int :=
  if fill.takerSide = .buy then fill.takerBps else fill.makerBps

def feeAt (fill : FillTerms) (bps : Int) : Int := fill.value * bps / bpsDenominator

/-- What `fillAmounts` returns when it returns. -/
def priced (fill : FillTerms) : FillAmounts where
  notional := fill.value
  buyerFee := if fill.takerSide = .buy then fill.feeAt fill.takerBps else fill.feeAt fill.makerBps
  sellerFee := if fill.takerSide = .buy then fill.feeAt fill.makerBps else fill.feeAt fill.takerBps
  takerFee := fill.feeAt fill.takerBps
  makerFee := fill.feeAt fill.makerBps

/-- A fill of the engine, charged at rates of the schedule. -/
structure Charged (fill : FillTerms) : Prop where
  price : 0 < fill.price
  qty : 0 < fill.qty
  takerBps : 0 ≤ fill.takerBps ∧ fill.takerBps ≤ worstCaseTakerBps
  makerBps : 0 ≤ fill.makerBps ∧ fill.makerBps ≤ worstCaseTakerBps

end FillTerms

structure Consumption where
  buyerQuote : Int
  sellerBase : Int
deriving DecidableEq, Repr

def holdConsumption (amounts : FillAmounts) (qty : Int) : Consumption :=
  ⟨amounts.notional + amounts.buyerFee, qty⟩

/-- What a fill consumes from each side's hold. -/
def FillTerms.consumption (fill : FillTerms) : Except Failure Consumption := do
  let amounts ← fill.amounts
  pure (holdConsumption amounts fill.qty)

/-! ## What a fill costs -/

section
variable {fill : FillTerms}

theorem FillTerms.Charged.value_nonneg (h : fill.Charged) : 0 ≤ fill.value :=
  Int.ediv_nonneg (Int.mul_nonneg (by have := h.price; omega) (by have := h.qty; omega)) (by decide)

theorem FillTerms.Charged.buyerBps_le (h : fill.Charged) :
    0 ≤ fill.buyerBps ∧ fill.buyerBps ≤ worstCaseTakerBps := by
  unfold FillTerms.buyerBps
  split
  · exact h.takerBps
  · exact h.makerBps

theorem FillTerms.priced_buyerFee (fill : FillTerms) :
    fill.priced.buyerFee = fill.buyerBps * fill.value / bpsDenominator := by
  simp only [FillTerms.priced, FillTerms.buyerBps, FillTerms.feeAt, Int.mul_comm fill.value]
  split <;> rfl

/-- A fill whose notional fits is priced. -/
theorem FillTerms.Charged.amounts_eq (h : fill.Charged) (hfits : fill.value ≤ maxU64) :
    fill.amounts = .ok fill.priced := by
  have hprice := h.price
  have hqty := h.qty
  have hvalue := h.value_nonneg
  have hnotional : notional fill.price fill.qty = .ok fill.value := by
    rw [notional, bind_eq_ok]
    refine ⟨(), refuse_eq_ok.2 (by omega), bind_eq_ok.2 ⟨(), refuse_eq_ok.2 ?_, rfl⟩⟩
    rw [← FillTerms.value]; omega
  have hfee : ∀ bps, 0 ≤ bps → feeAmount fill.value bps = .ok (fill.feeAt bps) := by
    intro bps hbps
    rw [feeAmount, bind_eq_ok]
    exact ⟨(), refuse_eq_ok.2 (by omega), bind_eq_ok.2 ⟨(), refuse_eq_ok.2 (by omega), rfl⟩⟩
  simp only [FillTerms.amounts, fillAmounts, bind_eq_ok, refuse_eq_ok, pure_eq_ok]
  exact ⟨(), by omega, (), by omega, _, hnotional, _, hfee _ h.takerBps.1, _, hfee _ h.makerBps.1,
    rfl⟩

/-- A fee of the schedule is at most the notional it is charged on. -/
theorem fee_le {value bps fee : Int} (hvalue : 0 ≤ value) (hbps : bps ≤ worstCaseTakerBps)
    (h : feeAmount value bps = .ok fee) : fee ≤ value := by
  simp only [feeAmount, bind_eq_ok, refuse_eq_ok, pure_eq_ok] at h
  obtain ⟨-, -, -, -, rfl⟩ := h
  have hworst : worstCaseTakerBps ≤ bpsDenominator := by decide
  calc value * bps / bpsDenominator ≤ value * bpsDenominator / bpsDenominator :=
        Int.ediv_le_ediv (by decide) (Int.mul_le_mul_of_nonneg_left (by omega) hvalue)
    _ = value := Int.mul_ediv_cancel _ (by decide)

theorem FillTerms.Charged.sellerFee_le (h : fill.Charged) {a : FillAmounts}
    (ha : fill.amounts = .ok a) : a.sellerFee ≤ a.notional := by
  simp only [FillTerms.amounts, fillAmounts, bind_eq_ok, refuse_eq_ok, pure_eq_ok] at ha
  obtain ⟨-, -, -, -, value, hvalue, takerFee, htaker, makerFee, hmaker, rfl⟩ := ha
  have hnonneg : 0 ≤ value := by
    simp only [notional, bind_eq_ok, refuse_eq_ok, pure_eq_ok] at hvalue
    obtain ⟨-, -, -, -, rfl⟩ := hvalue
    exact h.value_nonneg
  simp only
  split
  · exact fee_le hnonneg h.makerBps.2 hmaker
  · exact fee_le hnonneg h.takerBps.2 htaker

end

/-! ## What an admitted order reserves -/

/-- What the validator leaves of an order it has nothing against. -/
structure Admitted (request : OrderRequest) (market : Market) (reference : Option Int) : Prop where
  qty : 0 < (request.qty : Int)
  limitPrice : request.orderType = .limit → ∃ price, request.price = some price
  referenced : request.orderType ≠ .limit → ∃ last, reference = some last
  nonneg : ∀ last, reference = some last → 0 ≤ last
  reserve : request.side = .buy → ∀ price, priceToReserveAt request market reference = .ok price →
    unreservable price request.qty = false

section
variable {request : OrderRequest} {market : Market} {reference : Option Int}

@[simp] theorem pushIf_eq_nil {failed : Prop} [Decidable failed] {reason : Matching.RejectReason} :
    pushIf failed reason = [] ↔ ¬failed := by
  unfold pushIf
  split <;> simp_all

theorem bandFor_ok {band : Option CollarBand} (h : bandFor reference market = .ok band) {last : Int}
    (hlast : reference = some last) : ∃ b, band = some b ∧ collarBand last market = .ok b := by
  subst hlast
  obtain ⟨b, hb, rfl⟩ := Lib.map_eq_ok.1 h
  exact ⟨b, rfl, hb⟩

theorem admitted {v : OrderValidation} (h : validateOrder request market reference = .ok v)
    (hok : v.ok = true) : Admitted request market reference := by
  simp only [validateOrder, bind_eq_ok, pure_eq_ok] at h
  obtain ⟨tick, -, lot, -, band, hband, rfl⟩ := h
  simp only [OrderValidation.ok, List.isEmpty_iff, List.append_eq_nil_iff, pushIf_eq_nil] at hok
  obtain ⟨⟨⟨⟨⟨⟨⟨⟨⟨⟨-, hqty⟩, hlimit⟩, -⟩, -⟩, -⟩, -⟩, href⟩, -⟩, -⟩, hover⟩ := hok
  have hpos : 0 < (request.qty : Int) := by omega
  have hreference : request.orderType ≠ .limit → ∃ last, reference = some last :=
    fun hl => Option.ne_none_iff_exists'.1 fun hn => href ⟨hl, hn⟩
  have hnonneg : ∀ last, reference = some last → 0 ≤ last := by
    intro last hlast
    obtain ⟨b, -, hb⟩ := bandFor_ok hband hlast
    simp only [collarBand, bind_eq_ok, refuse_eq_ok] at hb
    obtain ⟨-, hneg, -⟩ := hb
    omega
  refine ⟨hpos, fun hl => Option.ne_none_iff_exists'.1 fun hn => hlimit ⟨hl, hn⟩, hreference,
    hnonneg, fun hbuy price hreserve => ?_⟩
  -- the price reserved at is the one the validator tried
  have hprice : (limitPrice request).or (band.map CollarBand.upper) = some price := by
    unfold priceToReserveAt at hreserve
    unfold limitPrice
    by_cases hl : request.orderType = .limit
    · rw [if_pos hl] at hreserve ⊢
      simp only [bind_eq_ok, require_eq_ok, pure_eq_ok] at hreserve
      obtain ⟨own, hown, rfl⟩ := hreserve
      rw [hown]; rfl
    · rw [if_neg hl] at hreserve ⊢
      simp only [bind_eq_ok, require_eq_ok, pure_eq_ok, mapError_eq_ok] at hreserve
      obtain ⟨last, hlast, b, hb, rfl⟩ := hreserve
      obtain ⟨b', rfl, hb'⟩ := bandFor_ok hband hlast
      rw [hb] at hb'
      cases hb'
      rfl
  rw [not_or] at hover
  have hvalue := Bool.eq_false_iff.2 hover.1
  have hunreserved := hover.2
  rw [hvalue, hprice] at hunreserved
  simpa [hbuy, Int.natCast_pos.1 hpos] using hunreserved

/-- The price a buy reserves at, and the price the engine is given. -/
structure Reserved (request : OrderRequest) (market : Market) (reference : Option Int)
    (price : Int) (terms : EngineTerms) : Prop where
  reserves : priceToReserveAt request market reference = .ok price
  sends : engineTerms request market reference = .ok terms
  nonneg : 0 ≤ price
  terms_le : request.side = .buy → terms.price ≤ price

theorem Admitted.reserved (h : Admitted request market reference) (htick : 0 < market.tickSize)
    (hcollar : 0 < market.collarBps) :
    ∃ price terms, Reserved request market reference price terms := by
  by_cases hl : request.orderType = .limit
  · obtain ⟨price, hprice⟩ := h.limitPrice hl
    refine ⟨price, ⟨request.timeInForce, price⟩, ?_, ?_, by omega, fun _ => Int.le_refl _⟩
    · simp only [priceToReserveAt, if_pos hl, hprice]; rfl
    · simp only [engineTerms, if_pos hl, hprice]; rfl
  · obtain ⟨last, rfl⟩ := h.referenced hl
    have hlast := h.nonneg last rfl
    have hdev : 0 ≤ last * market.collarBps / bpsDenominator :=
      Int.ediv_nonneg (Int.mul_nonneg hlast (by omega)) (by decide)
    obtain ⟨band, hband, hupper⟩ : ∃ band, collarBand last market = .ok band ∧ 0 ≤ band.upper := by
      refine ⟨_, bind_eq_ok.2 ⟨(), refuse_eq_ok.2 (by omega), rfl⟩, ?_⟩
      simp only; omega
    refine ⟨band.upper, ⟨.ioc, if request.side = .buy then floorToTick band.upper market.tickSize
      else ceilToTick band.lower market.tickSize⟩, ?_, ?_, hupper, ?_⟩
    · rw [priceToReserveAt, if_neg hl, bind_eq_ok]
      exact ⟨last, rfl, bind_eq_ok.2 ⟨band, mapError_eq_ok.2 hband, rfl⟩⟩
    · rw [engineTerms, if_neg hl, bind_eq_ok]
      exact ⟨last, rfl, bind_eq_ok.2 ⟨band, mapError_eq_ok.2 hband, rfl⟩⟩
    · intro hbuy
      simp only [hbuy, if_true, floorToTick]
      exact Int.ediv_mul_le _ (by omega)

end

/-! ## The parts and the whole -/

section
variable {fills : List FillTerms} {price qty value : Int}

theorem notional_ok {value : Int} (h : notional price qty = .ok value) :
    value = price * qty / priceScale ∧ value ≤ maxU64 := by
  simp only [notional, bind_eq_ok, refuse_eq_ok, pure_eq_ok] at h
  obtain ⟨-, -, -, hfits, rfl⟩ := h
  exact ⟨rfl, by omega⟩

/-- Fills at or under a price whose whole notional fits: each is priced, and together they cost at
most the notional and the worst fee on it. -/
theorem fills_cost (hfills : ∀ fill ∈ fills, fill.Charged) (hprice : 0 ≤ price)
    (hle : ∀ fill ∈ fills, fill.price ≤ price) (hqty : (fills.map FillTerms.qty).sum ≤ qty)
    (hvalue : notional price qty = .ok value) :
    ∃ taken, fills.mapM FillTerms.consumption = .ok taken ∧
      (taken.map Consumption.buyerQuote).sum ≤
        value + value * worstCaseTakerBps / bpsDenominator := by
  obtain ⟨rfl, hfits⟩ := notional_ok hvalue
  have hqtys : ∀ fill ∈ fills, 0 ≤ fill.qty := fun fill hf => by have := (hfills fill hf).qty; omega
  have htaken : ∀ fill ∈ fills,
      fill.consumption = .ok (holdConsumption fill.priced fill.qty) := by
    intro fill hf
    have hpart : fill.value ≤ price * qty / priceScale :=
      Lib.floor_le (by decide) hprice hle hqtys hqty hf
    exact bind_eq_ok.2 ⟨_, (hfills fill hf).amounts_eq (by omega), rfl⟩
  refine ⟨_, Lib.mapM_eq_ok htaken, ?_⟩
  have hsplit : ((fills.map fun fill => holdConsumption fill.priced fill.qty).map
      Consumption.buyerQuote).sum = (fills.map FillTerms.value).sum +
        (fills.map fun fill => fill.buyerBps * fill.value / bpsDenominator).sum := by
    rw [List.map_map, ← List.sum_map_add]
    congr 1
    apply List.map_congr_left
    intro fill _
    simp only [Function.comp, holdConsumption, fill.priced_buyerFee]
    rfl
  have hvalues : (fills.map FillTerms.value).sum ≤ price * qty / priceScale :=
    Lib.sum_floor_le (by decide) hprice hle hqtys hqty
  have hfees : (fills.map fun fill => fill.buyerBps * fill.value / bpsDenominator).sum ≤
      worstCaseTakerBps * (price * qty / priceScale) / bpsDenominator :=
    Lib.sum_floor_le (by decide) (by decide) (fun fill hf => (hfills fill hf).buyerBps_le.2)
      (fun fill hf => (hfills fill hf).value_nonneg) hvalues
  rw [hsplit, Int.mul_comm _ worstCaseTakerBps]
  omega

end

/-! ## The hold -/

section
variable {request : OrderRequest} {market : Market} {reference : Option Int}

theorem Admitted.hold_sell (h : Admitted request market reference) (hside : request.side = .sell) :
    computeHold request market reference = .ok ⟨market.baseAsset, request.qty, 0⟩ := by
  have := h.qty
  rw [computeHold, bind_eq_ok]
  exact ⟨(), refuse_eq_ok.2 (by omega), by rw [if_pos hside]; rfl⟩

theorem Admitted.hold_buy (h : Admitted request market reference) (hside : request.side = .buy)
    {price : Int} (hprice : priceToReserveAt request market reference = .ok price)
    (hnonneg : 0 ≤ price) : ∃ value hold, notional price request.qty = .ok value ∧
      computeHold request market reference = .ok hold ∧
      hold.amount = value + value * worstCaseTakerBps / bpsDenominator := by
  have hqty := h.qty
  have hreserve := h.reserve hside price hprice
  unfold unreservable safeNotional at hreserve
  cases hvalue : notional price request.qty with
  | error e => rw [hvalue] at hreserve; cases hreserve
  | ok value =>
    have hpos : 0 ≤ value := by
      rw [(notional_ok hvalue).1]
      exact Int.ediv_nonneg (Int.mul_nonneg hnonneg (by omega)) (by decide)
    have hfee : feeAmount value worstCaseTakerBps =
        .ok (value * worstCaseTakerBps / bpsDenominator) := by
      rw [feeAmount, bind_eq_ok]
      exact ⟨(), refuse_eq_ok.2 (by decide), bind_eq_ok.2 ⟨(), refuse_eq_ok.2 (by omega), rfl⟩⟩
    have hsell : request.side ≠ .sell := by rw [hside]; decide
    refine ⟨value, ⟨market.quoteAsset, value + value * worstCaseTakerBps / bpsDenominator,
      value * worstCaseTakerBps / bpsDenominator⟩, rfl, ?_, rfl⟩
    rw [computeHold, bind_eq_ok]
    refine ⟨(), refuse_eq_ok.2 (by omega), ?_⟩
    rw [if_neg hsell, bind_eq_ok]
    exact ⟨price, hprice, bind_eq_ok.2 ⟨value, mapError_eq_ok.2 hvalue,
      bind_eq_ok.2 ⟨_, mapError_eq_ok.2 hfee, rfl⟩⟩⟩

end

/-- **A hold is enough**: for every order the gateway admits, whatever its fills, a buy's at the
price the engine is given or below are priced and together cost at most its hold; a sell's take at
most its hold in base, and no fee exceeds the proceeds it comes out of. -/
theorem hold_suffices (bigInt : String → Option Int) (definition : MarketDefinition)
    (market : Market) (request : OrderRequest) (reference : Option Int) (v : OrderValidation)
    (hmarket : createMarket bigInt definition = .ok market)
    (hvalid : validateOrder request market reference = .ok v) (hok : v.ok = true) :
    ∃ hold terms, computeHold request market reference = .ok hold ∧
      engineTerms request market reference = .ok terms ∧
      ∀ fills : List FillTerms, (∀ fill ∈ fills, fill.Charged) →
        (fills.map FillTerms.qty).sum ≤ request.qty →
        (request.side = .buy → (∀ fill ∈ fills, fill.price ≤ terms.price) →
          ∃ taken, fills.mapM FillTerms.consumption = .ok taken ∧
            (taken.map Consumption.buyerQuote).sum ≤ hold.amount) ∧
        (request.side = .sell →
          (∀ taken, fills.mapM FillTerms.consumption = .ok taken →
            (taken.map Consumption.sellerBase).sum ≤ hold.amount) ∧
          ∀ fill ∈ fills, ∀ a, fill.amounts = .ok a → a.sellerFee ≤ a.notional) := by
  have hadmitted := admitted hvalid hok
  obtain ⟨htick, -, hcollar⟩ := createMarket_positive hmarket
  obtain ⟨price, terms, hreserved⟩ := hadmitted.reserved htick hcollar
  cases hside : request.side with
  | buy =>
    obtain ⟨value, hold, hvalue, hhold, hamount⟩ :=
      hadmitted.hold_buy hside hreserved.reserves hreserved.nonneg
    refine ⟨hold, terms, hhold, hreserved.sends, fun fills hfills hqty => ⟨fun _ hle => ?_, nofun⟩⟩
    rw [hamount]
    exact fills_cost hfills hreserved.nonneg
      (fun fill hf => Int.le_trans (hle fill hf) (hreserved.terms_le hside)) hqty hvalue
  | sell =>
    refine ⟨_, terms, hadmitted.hold_sell hside, hreserved.sends, fun fills hfills hqty =>
      ⟨nofun, fun _ => ⟨fun taken htaken => ?_, fun fill hf a => (hfills fill hf).sellerFee_le⟩⟩⟩
    have hbase : taken.map Consumption.sellerBase = fills.map FillTerms.qty := by
      refine Lib.map_of_mapM_eq_ok (fun fill c hc => ?_) htaken
      obtain ⟨a, -, ha⟩ := bind_eq_ok.1 hc
      rw [pure_eq_ok] at ha
      rw [← ha]; rfl
    rw [hbase]
    exact hqty

/-- A market buy of 3 SOL at a reference of 1000, filled in three parts under 1100: the parts cost
less than the hold. -/
def partsOfABuy : List FillTerms :=
  [⟨1000, 1000000000, .buy, 20, 10⟩, ⟨1100, 1500000000, .buy, 18, 8⟩, ⟨990, 500000000, .sell, 20, 10⟩]

def marketBuy : OrderRequest :=
  { hugeBuy with clientOrderId := "market-buy", qty := 3000000000 }

theorem hold_suffices_parts :
    ∃ hold terms, computeHold marketBuy solUsdcMarket (some 1000) = .ok hold ∧
      engineTerms marketBuy solUsdcMarket (some 1000) = .ok terms ∧ terms.price = 1100 ∧
      ∃ taken, partsOfABuy.mapM FillTerms.consumption = .ok taken ∧
        (taken.map Consumption.buyerQuote).sum ≤ hold.amount := by
  obtain ⟨hold, terms, hhold, hterms, h⟩ := hold_suffices decimal solUsdc solUsdcMarket marketBuy
    (some 1000) ⟨[], some ⟨900, 1100⟩, some 3000⟩ (by decide +kernel) (by decide +kernel) rfl
  have hprice : terms.price = 1100 := by
    have : engineTerms marketBuy solUsdcMarket (some 1000) = .ok ⟨.ioc, 1100⟩ := by decide +kernel
    rw [this] at hterms
    cases hterms; rfl
  have hcharged : ∀ fill ∈ partsOfABuy, fill.Charged := by
    simp only [partsOfABuy, List.forall_mem_cons]
    exact ⟨⟨by decide, by decide, by decide, by decide⟩, ⟨by decide, by decide, by decide, by decide⟩,
      ⟨by decide, by decide, by decide, by decide⟩, by simp⟩
  exact ⟨hold, terms, hhold, hterms, hprice,
    (h partsOfABuy hcharged (by decide)).1 rfl (by rw [hprice]; decide)⟩

end AtlasCex.Trading

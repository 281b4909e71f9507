import AtlasCex.Matching.Invariants
/-!
# Every trade is legal

A fill is judged against the engine as it stood when its command began. What was checked of the
maker was checked at its own placement, so it is carried with the resting order (`SoundOrder`); what
is checked of the taker is `Valid` and `collarLimit`, before the loop. The loop then only trades with
makers of the list it began with (`LeftOf`), at their prices, within the limit.
-/
namespace AtlasCex.Matching
open Lib (Turn)

/-! ## What a resting order keeps of its placement -/

structure SoundOrder (market : MarketConfig) (o : RestingOrder) : Prop where
  positive : 0 < o.remaining
  tick : isMultipleOf o.price market.tickSize = true
  lot : isMultipleOf o.remaining market.lotSize = true
  fits : (notional o.price o.remaining).isSome = true

theorem isMultipleOf_sub {a b step : Nat} (ha : isMultipleOf a step = true)
    (hb : isMultipleOf b step = true) : isMultipleOf (a - b) step = true := by
  rw [isMultipleOf_iff] at ha hb ⊢
  exact ⟨ha.1, Nat.dvd_sub ha.2 hb.2⟩

theorem isMultipleOf_min {a b step : Nat} (ha : isMultipleOf a step = true)
    (hb : isMultipleOf b step = true) : isMultipleOf (min a b) step = true := by
  rcases Nat.le_total a b with h | h
  · rwa [Nat.min_eq_left h]
  · rwa [Nat.min_eq_right h]

section
variable {market : MarketConfig} {l : List RestingOrder}

theorem sound_without (h : ∀ o ∈ l, SoundOrder market o) (id : OrderId) :
    ∀ o ∈ without id l, SoundOrder market o :=
  fun o ho => h o (mem_without.1 ho).1

/-- What is left of a sound order after a trade in whole lots is sound. -/
theorem sound_traded (h : ∀ o ∈ l, SoundOrder market o) (id : OrderId) {qty : Nat}
    (hlot : isMultipleOf qty market.lotSize = true) :
    ∀ o ∈ traded id qty l, SoundOrder market o := by
  intro o ho
  have hpos := positive_traded (fun o ho => (h o ho).positive) o ho
  obtain ⟨o₀, ho₀, rfl⟩ := mem_traded ho
  have hs := h o₀ ho₀
  unfold lessened at hpos ⊢
  by_cases hid : o₀.orderId = id
  · rw [if_pos hid] at hpos ⊢
    exact ⟨hpos, hs.tick, isMultipleOf_sub hs.lot hlot, notional_mono (Nat.sub_le _ _) hs.fits⟩
  · rw [if_neg hid]; exact hs

end

/-! ## The match loop -/

/-- A fill of taker `t` against the list `l` it began with. -/
structure FillsFrom (market : MarketConfig) (l : List RestingOrder) (t : Taker) (m : RestingOrder)
    (f : Fill) : Prop where
  maker : m ∈ l ∧ m.orderId = f.makerOrderId ∧ m.side = t.side.opposite
  taker : f.takerOrderId = t.orderId ∧ f.takerSide = t.side
  price : f.price = m.price
  crosses : crosses t.side t.limit f.price = true
  accounts : m.accountId ≠ t.accountId
  positive : 0 < f.qty
  tick : isMultipleOf f.price market.tickSize = true
  lot : isMultipleOf f.qty market.lotSize = true
  fits : (notional f.price f.qty).isSome = true

structure MatchLegal (market : MarketConfig) (l : List RestingOrder) (t : Taker) (qty : Nat)
    (s : RefMatch) : Prop where
  left : LeftOf l s.resting
  sound : ∀ o ∈ s.resting, SoundOrder market o
  lot : isMultipleOf s.remaining market.lotSize = true
  atMost : s.remaining ≤ qty
  fills : ∀ f, .fill f ∈ s.events → ∃ m, FillsFrom market l t m f

section
variable {market : MarketConfig} {l : List RestingOrder} {t : Taker} {qty : Nat}

theorem MatchLegal.turn {s : RefMatch} (h : MatchLegal market l t qty s) :
    MatchLegal market l t qty (s.turn t).val := by
  have hturn := s.turns t
  generalize s.turn t = turn at hturn
  have hcancelled : ∀ (m : RestingOrder) f,
      .fill f ∈ s.events ++ [.cancelled t.seq m.orderId m.remaining] →
        ∃ m, FillsFrom market l t m f :=
    fun m f hf => h.fills f (by simpa using hf)
  cases hturn with
  | done | empty | uncrossed => exact h
  | stopTaker => exact ⟨h.left, h.sound, h.lot, h.atMost, h.fills⟩
  | dropMaker m | stopBoth m =>
    exact ⟨h.left.trans (leftOf_without _ _), sound_without h.sound _, h.lot, h.atMost,
      hcancelled m⟩
  | trade m hrem hbest hcross hown =>
    obtain ⟨hm, hside⟩ := bestOf_mem hbest
    have hs := h.sound m hm
    have hlot := isMultipleOf_min h.lot hs.lot
    refine ⟨h.left.trans (leftOf_traded _ _ _), sound_traded h.sound _ hlot,
      isMultipleOf_sub h.lot hlot, Nat.le_trans (Nat.sub_le _ _) h.atMost, fun f hf => ?_⟩
    rcases List.mem_append.1 hf with hf | hf
    · exact h.fills f hf
    · cases List.mem_singleton.1 hf
      -- the maker as it stood when the command began: same ticket, possibly more of it
      obtain ⟨m₀, hm₀, hticket⟩ := h.left.mem hm
      have hid : m₀.orderId = m.orderId := congrArg (·.orderId) hticket
      have hside₀ : m₀.side = m.side := congrArg (·.side) hticket
      have hprice : m₀.price = m.price := congrArg (·.price) hticket
      have haccount : m₀.accountId = m.accountId := congrArg (·.accountId) hticket
      exact ⟨m₀, ⟨hm₀, hid, hside₀.trans hside⟩, ⟨rfl, rfl⟩, hprice.symm, hcross,
        haccount ▸ hown, by have := hs.positive; simp only; omega, hs.tick, hlot,
        notional_mono (Nat.min_le_right _ _) hs.fits⟩

theorem RefEngine.matched_legal {r : RefEngine} (h : ∀ o ∈ r.resting, SoundOrder market o)
    (hqty : isMultipleOf qty market.lotSize = true) :
    MatchLegal market r.resting t qty (r.matched t qty) :=
  Lib.loop_induct (P := MatchLegal market r.resting t qty) (fun _ h => h.turn) _
    ⟨LeftOf.refl _, h, hqty, Nat.le_refl _, by simp⟩

end

/-! ## One command -/

/-- No worse than the taker's limit, or for a market order than the collar around the reference
price. -/
def NoWorse (market : MarketConfig) (reference : Option Nat) (request : OrderRequest)
    (price : Nat) : Prop :=
  match request.orderType with
  | .limit => ∃ limit, request.price = some limit ∧
      (request.side = .buy → price ≤ limit) ∧ (request.side = .sell → limit ≤ price)
  | .market => ∃ last, reference = some last ∧
      (request.side = .buy → price ≤ (market.collarBand last).2) ∧
      (request.side = .sell → (market.collarBand last).1 ≤ price)

structure LegalFill (market : MarketConfig) (reference : Option Nat) (request : OrderRequest)
    (maker : RestingOrder) (f : Fill) : Prop where
  sides : f.takerSide = request.side ∧ maker.side = request.side.opposite
  price : f.price = maker.price
  bound : NoWorse market reference request f.price
  positive : 0 < f.qty
  lot : isMultipleOf f.qty market.lotSize = true
  tick : isMultipleOf f.price market.tickSize = true
  fits : (notional f.price f.qty).isSome = true
  accounts : maker.accountId ≠ request.accountId
  taker : request.postOnly = false
  status : market.status = .open

section
variable {r : RefEngine} {orderId : OrderId} {request : OrderRequest} {limit : Option Nat}

/-- A post-only order that was admitted crosses nothing. -/
theorem RefEngine.Admitted.no_cross (h : r.Admitted orderId request limit)
    (hpost : request.postOnly = true) {o : RestingOrder} (ho : o ∈ r.resting)
    (hs : o.side = request.side.opposite) : crosses request.side limit o.price = false := by
  have hvalid := validateRequest_none h.valid
  obtain ⟨price, hprice⟩ := hvalid.limitPrice (hvalid.postOnly hpost)
  have hlimit : limit = some price := by
    rcases collarLimit_some h.limit with ⟨-, hl⟩ | ⟨hl, -⟩
    · rw [hl, hprice]
    · exact absurd (hvalid.postOnly hpost) hl
  rw [← Bool.not_eq_true]
  intro hcross
  cases hbest : bestOf request.side.opposite r.resting with
  | none => exact bestOf_none hbest o ho hs
  | some m =>
    have hm := h.passive hpost m hbest
    rw [hprice, Option.getD_some, ← hlimit,
      crosses_of_not_ahead hcross (bestOf_best hbest ho hs)] at hm
    cases hm

theorem RefEngine.Admitted.noWorse (h : r.Admitted orderId request limit) {price : Nat}
    (hcross : crosses request.side limit price = true) :
    NoWorse r.market r.referencePrice request price := by
  have hvalid := validateRequest_none h.valid
  unfold NoWorse
  rcases collarLimit_some h.limit with ⟨htype, rfl⟩ | ⟨htype, last, hlast, rfl⟩
  · obtain ⟨limit, hlimit⟩ := hvalid.limitPrice htype
    rw [htype]
    refine ⟨limit, hlimit, fun hs => ?_, fun hs => ?_⟩ <;>
      simpa [crosses, hlimit, hs] using hcross
  · have hmarket : request.orderType = .market := by
      cases ht : request.orderType with
      | limit => exact absurd ht htype
      | market => rfl
    rw [hmarket]
    refine ⟨last, hlast, fun hs => ?_, fun hs => ?_⟩ <;>
      simpa [crosses, hs] using hcross

/-- A placement keeps the book sound, and its fills are legal. -/
theorem place_legal (h : ∀ o ∈ r.resting, SoundOrder r.market o) (seq : Nat) (timestampMs : Int)
    (orderId : OrderId) (request : OrderRequest) :
    (∀ o ∈ (r.place seq timestampMs orderId request).2.resting, SoundOrder r.market o) ∧
      ∀ f, .fill f ∈ (r.place seq timestampMs orderId request).1 →
        f.takerOrderId = orderId ∧ ∃ m ∈ r.resting, m.orderId = f.makerOrderId ∧
          LegalFill r.market r.referencePrice request m f := by
  rw [RefEngine.place]
  rcases r.admission_cases seq timestampMs orderId request with ⟨_, he⟩ | he | ⟨limit, he, hadm⟩
  · rw [he]; exact ⟨h, by simp⟩
  · rw [he]; exact ⟨h, by simp⟩
  rw [he]
  have hvalid := validateRequest_none hadm.valid
  have hs := RefEngine.matched_legal (t := request.taker seq timestampMs orderId limit) h hvalid.lot
  simp only
  generalize r.matched _ _ = s at hs
  have hfills : ∀ f, .fill f ∈ s.events → f.takerOrderId = orderId ∧
      ∃ m ∈ r.resting, m.orderId = f.makerOrderId ∧
        LegalFill r.market r.referencePrice request m f := by
    intro f hf
    obtain ⟨m, hm⟩ := hs.fills f hf
    have hpost : request.postOnly = false := by
      rw [← Bool.not_eq_true]
      intro hpost
      have hno := hadm.no_cross hpost hm.maker.1 hm.maker.2.2
      rw [← hm.price] at hno
      exact absurd hm.crosses (by simpa [OrderRequest.taker] using hno)
    have hopen : r.market.status = .open := by
      have haccepts := hvalid.accepts
      have hstatus := hvalid.status
      cases hst : r.market.status <;> simp_all [MarketStatus.acceptsPlacement]
    exact ⟨hm.taker.1, m, hm.maker.1, hm.maker.2.1, ⟨hm.taker.2, hm.maker.2.2⟩, hm.price,
      hadm.noWorse hm.crosses, hm.positive, hm.lot, hm.tick, hm.fits, hm.accounts, hpost, hopen⟩
  have hd := disposed seq orderId request s.events s.remaining s.stpCancelledTaker
  generalize disposition seq orderId request s.events s.remaining s.stpCancelledTaker = d at hd
  cases hd with
  | expired | prevented | filled =>
    exact ⟨by simpa using hs.sound, fun f hf => hfills f (by simpa using hf)⟩
  | rested hstop hrem htype =>
    refine ⟨fun o ho => ?_, fun f hf => hfills f (by simpa using hf)⟩
    simp only [Option.toList_some, List.mem_append, List.mem_singleton] at ho
    rcases ho with ho | rfl
    · exact hs.sound o ho
    · -- what rests is at most what was judged, at the price it was judged at
      obtain ⟨price, hprice⟩ := hvalid.limitPrice htype
      obtain ⟨judgedAt, value, hjudged, hnotional, -⟩ := hvalid.notional
      rw [hprice, Option.some_or, Option.some.injEq] at hjudged
      subst hjudged
      refine ⟨Nat.pos_of_ne_zero hrem, ?_, hs.lot, ?_⟩
      · simpa [OrderRequest.resting, hprice] using hvalid.tick price hprice
      · simp only [OrderRequest.resting, hprice, Option.getD_some]
        exact notional_mono hs.atMost (by rw [hnotional]; rfl)

end

/-- The placement a command makes, if it makes one: its id and its request. -/
def RefEngine.taking (r : RefEngine) : Command → Option (OrderId × OrderRequest)
  | .place orderId request => some (orderId, request)
  | .amend orderId newOrderId price qty =>
    (r.resting.find? (·.orderId = orderId)).map fun existing =>
      (newOrderId, Engine.replacement existing newOrderId price qty)
  | .cancel _ | .setStatus _ => none

/-- Only the status of a market ever changes. -/
def SameRules (market market' : MarketConfig) : Prop :=
  market' = { market with status := market'.status }

theorem SoundOrder.sameRules {market market' : MarketConfig} {o : RestingOrder}
    (h : SoundOrder market o) (hm : SameRules market market') : SoundOrder market' o := by
  rw [hm]; exact ⟨h.positive, h.tick, h.lot, h.fits⟩

theorem RefEngine.place_market (r : RefEngine) (seq : Nat) (timestampMs : Int) (orderId : OrderId)
    (request : OrderRequest) : (r.place seq timestampMs orderId request).2.market = r.market := by
  rw [place]; split <;> rfl

theorem RefEngine.apply_market (r : RefEngine) (c : SequencedCommand) :
    SameRules r.market (r.apply c).2.market := by
  have hplace : ∀ (r' : RefEngine) (orderId : OrderId) (request : OrderRequest),
      (r'.place c.seq c.timestampMs orderId request).2.market = r'.market :=
    fun r' => r'.place_market _ _
  unfold apply
  cases c.command with
  | place orderId request => simp only [SameRules, hplace]
  | cancel orderId => simp only [RefEngine.cancel]; split <;> rfl
  | amend orderId newOrderId price qty =>
    simp only [RefEngine.amend]
    split
    · rfl
    · simp only [SameRules, hplace]
  | setStatus status => rfl

/-- **One command**: sound resting orders stay sound, and every fill is legal for the placement the
command makes and a maker that rested before it. -/
theorem apply_legal {r : RefEngine} (h : ∀ o ∈ r.resting, SoundOrder r.market o)
    (c : SequencedCommand) :
    (∀ o ∈ (r.apply c).2.resting, SoundOrder (r.apply c).2.market o) ∧
      ∀ f, .fill f ∈ (r.apply c).1 → ∃ request, r.taking c.command = some (f.takerOrderId, request) ∧
        ∃ m ∈ r.resting, m.orderId = f.makerOrderId ∧
          LegalFill r.market r.referencePrice request m f := by
  have hsame := r.apply_market c
  refine ⟨fun o ho => SoundOrder.sameRules ?_ hsame, ?_⟩
  · unfold RefEngine.apply at ho
    cases hc : c.command with
    | place orderId request => rw [hc] at ho; exact (place_legal h _ _ _ _).1 o ho
    | cancel orderId =>
      rw [hc] at ho
      simp only [RefEngine.cancel] at ho
      split at ho
      · exact sound_without h _ o ho
      · exact h o ho
    | amend orderId newOrderId price qty =>
      rw [hc] at ho
      simp only [RefEngine.amend] at ho
      split at ho
      · exact h o ho
      · exact (place_legal (r := { r with resting := without orderId r.resting })
          (sound_without h _) _ _ _ _).1 o ho
    | setStatus status => rw [hc] at ho; exact h o ho
  · intro f hf
    unfold RefEngine.apply at hf
    cases hc : c.command with
    | place orderId request =>
      rw [hc] at hf
      obtain ⟨htaker, m, hm, hmid, hlegal⟩ := (place_legal h _ _ _ _).2 f hf
      exact ⟨request, by simp [RefEngine.taking, htaker], m, hm, hmid, hlegal⟩
    | cancel orderId =>
      rw [hc] at hf
      simp only [RefEngine.cancel] at hf
      split at hf <;> simp at hf
    | amend orderId newOrderId price qty =>
      rw [hc] at hf
      simp only [RefEngine.amend] at hf
      cases hfind : r.resting.find? (·.orderId = orderId) with
      | none => rw [hfind] at hf; simp at hf
      | some existing =>
        rw [hfind] at hf
        obtain ⟨htaker, m, hm, hmid, hlegal⟩ :=
          (place_legal (r := { r with resting := without orderId r.resting })
            (sound_without h _) _ _ _ _).2 f (by simpa using hf)
        refine ⟨Engine.replacement existing newOrderId price qty,
          by simp [RefEngine.taking, hfind, htaker], m, (mem_without.1 hm).1, hmid,
          hlegal.sides, hlegal.price, ?_, hlegal.positive, hlegal.lot, hlegal.tick, hlegal.fits,
          hlegal.accounts, hlegal.taker, hlegal.status⟩
        -- the replacement is a limit order: no reference price bounds it
        exact hlegal.bound
    | setStatus status => rw [hc] at hf; simp at hf

/-! ## Whole runs -/

def Engine.taking (e : Engine) : Command → Option (OrderId × OrderRequest)
  | .place orderId request => some (orderId, request)
  | .amend orderId newOrderId price qty =>
    (e.book.get orderId).map fun existing =>
      (newOrderId, replacement existing newOrderId price qty)
  | .cancel _ | .setStatus _ => none

theorem EngineRefines.taking {used : OrderId → Prop} {e : Engine} {r : RefEngine}
    (h : EngineRefines used e r) (c : Command) : e.taking c = r.taking c := by
  cases c <;> simp only [Engine.taking, RefEngine.taking, h.book.index]

theorem run_sound (market : MarketConfig) (commands : List SequencedCommand) :
    SameRules market ((RefEngine.new market).run commands).2.market ∧
      ∀ o ∈ ((RefEngine.new market).run commands).2.resting,
        SoundOrder ((RefEngine.new market).run commands).2.market o := by
  refine Lib.run_induct (s := RefEngine.new market) (I := fun _ r => SameRules market r.market ∧
    ∀ o ∈ r.resting, SoundOrder r.market o) ⟨rfl, by simp [RefEngine.new]⟩ ?_ commands
    List.prefix_rfl
  rintro pre c - ⟨hrules, hsound⟩
  refine ⟨?_, (apply_legal hsound c).1⟩
  have hstep := (Lib.run RefEngine.apply (RefEngine.new market) pre).2.apply_market c
  rw [SameRules, hrules] at hstep
  exact hstep

/-- **Trade legality**: in every run without reused ids, every fill a command emits is between the
placement that command makes and an order that rested when it began, and is legal: at the maker's
price, within the taker's limit or the collar around the reference price of that moment, in whole
ticks and lots, of positive quantity whose notional fits, between two accounts, with a taker that is
not post-only, in an open market. The market's rules are the configured ones throughout. -/
theorem fills_are_legal (market : MarketConfig) (commands : List SequencedCommand)
    (hfresh : FreshIds commands) (before : List SequencedCommand) (c : SequencedCommand)
    (hpre : before ++ [c] <+: commands) :
    let e := ((Engine.new market).run before).2
    SameRules market e.market ∧
      ∀ f, .fill f ∈ (e.apply c).1 → ∃ request maker,
        e.taking c.command = some (f.takerOrderId, request) ∧
        e.book.get f.makerOrderId = some maker ∧
        LegalFill e.market e.referencePrice request maker f := by
  intro e
  have hrel := (run_refines market hfresh ((List.prefix_append before [c]).trans hpre)).2
  obtain ⟨hrules, hsound⟩ := run_sound market before
  obtain ⟨hevents, -⟩ := hrel.apply c fun id hid => hfresh.not_mem hpre hid
  rw [← hrel.market] at hrules
  refine ⟨hrules, fun f hf => ?_⟩
  rw [hevents] at hf
  obtain ⟨request, htaking, m, hm, hmid, hlegal⟩ := (apply_legal hsound c).2 f hf
  refine ⟨request, m, (hrel.taking c.command).trans htaking, hmid ▸ hrel.book.get_of_mem hm, ?_⟩
  rw [hrel.market, hrel.referencePrice]
  exact hlegal

theorem fills_are_legal_sample :
    FreshIds sampleStream ∧
      .fill ⟨"4:0", 4, "c", "b", .buy, 1000, 1000000000, 0, none, none⟩ ∈
        (((Engine.new sampleMarket).run (sampleStream.take 3)).2.apply
          ⟨4, 0, .place "c" (sampleOrder "carol" .buy .fok 1000 1000000000)⟩).1 ∧
      ∃ request maker, LegalFill ((Engine.new sampleMarket).run (sampleStream.take 3)).2.market
        ((Engine.new sampleMarket).run (sampleStream.take 3)).2.referencePrice request maker
        ⟨"4:0", 4, "c", "b", .buy, 1000, 1000000000, 0, none, none⟩ := by
  have hfill : .fill ⟨"4:0", 4, "c", "b", .buy, 1000, 1000000000, 0, none, none⟩ ∈
      (((Engine.new sampleMarket).run (sampleStream.take 3)).2.apply
        ⟨4, 0, .place "c" (sampleOrder "carol" .buy .fok 1000 1000000000)⟩).1 := by decide +kernel
  obtain ⟨request, maker, -, -, hlegal⟩ := (fills_are_legal sampleMarket sampleStream (by decide)
    (sampleStream.take 3) ⟨4, 0, .place "c" (sampleOrder "carol" .buy .fok 1000 1000000000)⟩
    ⟨sampleStream.drop 4, rfl⟩).2 _ hfill
  exact ⟨by decide, hfill, request, maker, hlegal⟩

end AtlasCex.Matching

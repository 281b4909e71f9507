import AtlasCex.Ledger.Postings
import AtlasCex.Trading.Decimal
import Mathlib.Data.List.Sort
/-!
# Portfolio series

| here | there |
| --- | --- |
| `projectSeries`, `valueAll` | `projectSeries` and its inner loop (`portfolio/src/series.ts:87-141`) |
| `Cursor.to` on a `Walk`, then `Walk.price` | `priceAt` (`:150-171`) |
| `parseUsd`, `valueOf` | `portfolio/src/money.ts:30-69` |

Both loops over sorted rows are a `Cursor`: the rows still ahead, and what the rows passed have been
folded into. For the entries that is the balances (a `Map` with its keys in the order they were
set), for an asset's ticks the last one. Instants are milliseconds. The collation of
`localeCompare` is a parameter. `pointAt` is the valuation of one instant by itself.
-/
namespace AtlasCex.Portfolio

open List
open Ledger (Direction)
open Lib (trimText)

structure TimedEntry where
  asset : String
  amount : Int
  direction : Direction
  time : Int
deriving DecidableEq, Repr

structure PriceTick where
  priceUsd : String
  time : Int
deriving DecidableEq, Repr

structure Holding where
  asset : String
  amount : Int
  valueUsd : Option Int
deriving DecidableEq, Repr

structure PortfolioPoint where
  time : Int
  totalUsd : Int
  holdings : List Holding
  complete : Bool
deriving DecidableEq, Repr

structure ProjectInput where
  entries : List TimedEntry
  buckets : List Int
  /-- Empty for an asset without prices. -/
  prices : String → List PriceTick
  decimalsOf : String → Int
  localeCompare : String → String → Int

/-- The text of the `TypeError` thrown. -/
abbrev Thrown := String

/-! ## Money -/

/-- The groups of `/^-?\d+(\.\d+)?$/` after the sign. -/
def execUsd (unsigned : List Char) : Option (List Char × List Char) :=
  let whole := unsigned.takeWhile Char.isDigit
  if whole = [] then none
  else match unsigned.dropWhile Char.isDigit with
    | [] => some (whole, [])
    | '.' :: fraction =>
      if fraction ≠ [] ∧ fraction.all Char.isDigit then some (whole, fraction) else none
    | _ => none

def parseUsd (value : String) : Except Thrown Int :=
  let trimmed := trimText value.toList
  let negative := trimmed.head? = some '-'
  match execUsd (if negative then trimmed.tail else trimmed) with
  | none => .error s!"not a decimal price: {value}"
  | some (whole, fraction) =>
    let micros : Int := Nat.ofDigitChars 10 whole 0 * 1000000 +
      Nat.ofDigitChars 10 ((Trading.padEnd fraction 6).take 6) 0
    .ok (if negative then -micros else micros)

def valueOf (amount priceMicros decimals : Int) : Except Thrown Int :=
  if decimals < 0 ∨ decimals > 30 then .error s!"implausible decimals: {decimals}"
  else .ok ((amount * priceMicros).tdiv (10 ^ decimals.toNat))

/-! ## Cursors -/

structure Cursor (σ α : Type) where
  rest : List α
  state : σ

variable {σ α : Type} {time : α → Int} {step : σ → α → σ}

/-- Past every row at or before `now`. -/
def advance (time : α → Int) (step : σ → α → σ) (now : Int) : List α → σ → Cursor σ α
  | [], state => ⟨[], state⟩
  | row :: rest, state =>
    if time row > now then ⟨row :: rest, state⟩ else advance time step now rest (step state row)

def Cursor.to (time : α → Int) (step : σ → α → σ) (cursor : Cursor σ α) (now : Int) : Cursor σ α :=
  advance time step now cursor.rest cursor.state

/-- The rows passed are a first part of `rows`, none of them after any of the instants to come. -/
def Cursor.Within (time : α → Int) (step : σ → α → σ) (init : σ) (rows : List α)
    (buckets : List Int) (cursor : Cursor σ α) : Prop :=
  ∃ passed, passed ++ cursor.rest = rows ∧ cursor.state = passed.foldl step init ∧
    ∀ row ∈ passed, ∀ bucket ∈ buckets, time row ≤ bucket

theorem Cursor.Within.tail {init : σ} {rows : List α} {bucket : Int} {buckets : List Int}
    {cursor : Cursor σ α} (h : cursor.Within time step init rows (bucket :: buckets)) :
    cursor.Within time step init rows buckets := by
  obtain ⟨passed, hrows, hstate, hle⟩ := h
  exact ⟨passed, hrows, hstate, fun row hrow b hb => hle row hrow b (mem_cons_of_mem _ hb)⟩

theorem Cursor.Within.to {init : σ} {rows : List α} {now : Int} {buckets : List Int}
    {cursor : Cursor σ α} (h : cursor.Within time step init rows (now :: buckets))
    (hrows : rows.Pairwise fun a b => time a ≤ time b) (hbuckets : ∀ b ∈ buckets, now ≤ b) :
    (cursor.to time step now).Within time step init rows (now :: buckets) ∧
      (cursor.to time step now).state = (rows.filter (time · ≤ now)).foldl step init := by
  obtain ⟨passed, heq, hstate, hle⟩ := h
  obtain ⟨rest, state⟩ := cursor
  change passed ++ rest = rows at heq
  change state = _ at hstate
  change Within _ _ _ _ _ (advance time step now rest state) ∧
    (advance time step now rest state).state = _
  induction rest generalizing passed state with
  | nil =>
    rw [append_nil] at heq
    subst heq
    refine ⟨⟨passed, append_nil _, hstate, hle⟩, ?_⟩
    rw [filter_eq_self.2 fun row hrow => by simpa using hle row hrow now (by simp)]
    exact hstate
  | cons row rest ih =>
    rw [advance]
    split
    next hafter =>
      refine ⟨⟨passed, heq, hstate, hle⟩, ?_⟩
      have hlate : (row :: rest).filter (time · ≤ now) = [] := by
        have hsorted := pairwise_cons.1 (pairwise_append.1 (heq ▸ hrows)).2.1
        refine filter_eq_nil_iff.2 fun other hother => ?_
        have hge : time row ≤ time other := by
          rcases mem_cons.1 hother with rfl | hother
          · exact Int.le_refl _
          · exact hsorted.1 other hother
        simp
        omega
      rw [← heq, filter_append, hlate, append_nil,
        filter_eq_self.2 fun row hrow => by simpa using hle row hrow now (by simp)]
      exact hstate
    next hnow =>
      refine ih (passed ++ [row]) ?_ (step state row) (by simpa using heq) (by simp [hstate])
      intro other hother bucket hbucket
      rcases mem_append.1 hother with hother | hother
      · exact hle other hother bucket hbucket
      · rw [mem_singleton.1 hother]
        rcases mem_cons.1 hbucket with rfl | hbucket
        · omega
        · have := hbuckets bucket hbucket
          omega

/-! ## The projection -/

/-- `Map<string, bigint>`: its keys in insertion order, and zero for any other. -/
structure Balances where
  assets : List String
  amount : String → Int

def Balances.empty : Balances := ⟨[], fun _ => 0⟩

def TimedEntry.signed (entry : TimedEntry) : Int :=
  if entry.direction = .credit then entry.amount else -entry.amount

def Balances.add (balances : Balances) (entry : TimedEntry) : Balances where
  assets := if entry.asset ∈ balances.assets then balances.assets
    else balances.assets ++ [entry.asset]
  amount := Function.update balances.amount entry.asset (balances.amount entry.asset + entry.signed)

abbrev Walk := Cursor (Option PriceTick) PriceTick

/-- `priceWalk`: for an asset not walked yet, all its ticks ahead. -/
abbrev Walks := String → Walk

def lastTick (_ : Option PriceTick) (tick : PriceTick) : Option PriceTick := some tick

def Walk.price (walk : Walk) : Except Thrown (Option Int) :=
  match walk.state with
  | none => .ok none
  | some tick => some <$> parseUsd tick.priceUsd

variable (input : ProjectInput)

/-- The inner loop: `holdings`, `total` and `complete` so far. -/
def valueAll (now : Int) (balances : Balances) :
    List String → Walks → PortfolioPoint → Except Thrown (Walks × PortfolioPoint)
  | [], walks, point => .ok (walks, point)
  | asset :: rest, walks, point => do
    let amount := balances.amount asset
    let walk := (walks asset).to PriceTick.time lastTick now
    let walks := Function.update walks asset walk
    match ← Walk.price walk with
    | none =>
      valueAll now balances rest walks { point with
        complete := point.complete && amount = 0
        holdings := point.holdings ++ [⟨asset, amount, none⟩] }
    | some priceMicros =>
      let value ← valueOf amount priceMicros (input.decimalsOf asset)
      valueAll now balances rest walks { point with
        totalUsd := point.totalUsd + value
        holdings := point.holdings ++ [⟨asset, amount, some value⟩] }

def sorted (assets : List String) : List String :=
  assets.insertionSort fun a b => input.localeCompare a b ≤ 0

def projectFrom : List Int → Cursor Balances TimedEntry → Walks →
    Except Thrown (List PortfolioPoint)
  | [], _, _ => .ok []
  | now :: buckets, cursor, walks => do
    let cursor := cursor.to TimedEntry.time Balances.add now
    let (walks, point) ← valueAll input now cursor.state (sorted input cursor.state.assets) walks
      ⟨now, 0, [], true⟩
    return point :: (← projectFrom buckets cursor walks)

def projectSeries : Except Thrown (List PortfolioPoint) :=
  projectFrom input input.buckets ⟨input.entries, .empty⟩ fun asset => ⟨input.prices asset, none⟩

/-! ## One instant by itself -/

/-- What an asset is worth at `now`: credits less debits, at the last price known. -/
def holdingAt (now : Int) (asset : String) : Except Thrown Holding := do
  let entries := input.entries.filter fun entry => entry.time ≤ now ∧ entry.asset = asset
  let credits := ((entries.filter (·.direction = .credit)).map (·.amount)).sum
  let debits := ((entries.filter (·.direction = .debit)).map (·.amount)).sum
  match ((input.prices asset).filter (·.time ≤ now)).getLast? with
  | none => return ⟨asset, credits - debits, none⟩
  | some tick =>
    let priceMicros ← parseUsd tick.priceUsd
    let value ← valueOf (credits - debits) priceMicros (input.decimalsOf asset)
    return ⟨asset, credits - debits, some value⟩

/-- Every asset with an entry at or before `now`. -/
def pointAt (now : Int) : Except Thrown PortfolioPoint := do
  let assets := ((input.entries.filter (·.time ≤ now)).map (·.asset)).eraseDups
  let holdings ← (sorted input assets).mapM (holdingAt input now)
  return { time := now
           totalUsd := (holdings.filterMap (·.valueUsd)).sum
           holdings
           complete := holdings.all fun holding => holding.amount = 0 || holding.valueUsd.isSome }

/-! ## The pass is the valuation of each instant -/

variable {input}

theorem foldl_add_amount (entries : List TimedEntry) (asset : String) :
    (entries.foldl Balances.add .empty).amount asset =
      ((entries.filter (·.asset = asset)).map TimedEntry.signed).sum := by
  induction entries using List.reverseRecOn with
  | nil => rfl
  | append_singleton entries entry ih =>
    rw [foldl_append, filter_append, map_append, sum_append, ← ih]
    by_cases h : entry.asset = asset
    · subst h
      simp [Balances.add]
    · simp [Balances.add, h, Ne.symm h]

theorem foldl_add_assets (entries : List TimedEntry) :
    (entries.foldl Balances.add .empty).assets = (entries.map (·.asset)).eraseDups := by
  induction entries using List.reverseRecOn with
  | nil => rfl
  | append_singleton entries entry ih =>
    rw [foldl_append, map_append, eraseDups_append, ← ih]
    have hmem : entry.asset ∈ (entries.foldl Balances.add .empty).assets ↔
        entry.asset ∈ entries.map (·.asset) := by
      rw [ih, mem_eraseDups]
    by_cases h : entry.asset ∈ entries.map (·.asset)
    · simp [Balances.add, hmem.2 h, List.removeAll, mem_map.1 h]
    · rw [List.removeAll, filter_eq_self.2 (by simpa using h)]
      simp [Balances.add, mt hmem.1 h, eraseDups_cons]

theorem sum_signed (entries : List TimedEntry) : (entries.map TimedEntry.signed).sum =
    ((entries.filter (·.direction = .credit)).map (·.amount)).sum -
      ((entries.filter (·.direction = .debit)).map (·.amount)).sum := by
  induction entries with
  | nil => rfl
  | cons entry entries ih =>
    rw [map_cons, sum_cons, ih]
    cases h : entry.direction <;> simp [TimedEntry.signed, h] <;> omega

theorem foldl_lastTick (ticks : List PriceTick) : ticks.foldl lastTick none = ticks.getLast? := by
  induction ticks using List.reverseRecOn with
  | nil => rfl
  | append_singleton ticks tick _ => simp [lastTick]

/-- The point with further holdings. -/
def PortfolioPoint.with (point : PortfolioPoint) (holdings : List Holding) : PortfolioPoint :=
  { point with
    totalUsd := point.totalUsd + (holdings.filterMap (·.valueUsd)).sum
    holdings := point.holdings ++ holdings
    complete := point.complete &&
      holdings.all fun holding => holding.amount = 0 || holding.valueUsd.isSome }

theorem PortfolioPoint.with_cons (point : PortfolioPoint) (holding : Holding)
    (holdings : List Holding) :
    (point.with [holding]).with holdings = point.with (holding :: holdings) := by
  cases h : holding.valueUsd <;>
    simp [PortfolioPoint.with, h, Int.add_assoc, Bool.and_assoc]

/-- Every asset's walk has passed only ticks before the instants to come. -/
def Walks.Within (input : ProjectInput) (buckets : List Int) (walks : Walks) : Prop :=
  ∀ asset, (walks asset).Within PriceTick.time lastTick none (input.prices asset) buckets

/-- One asset of the inner loop. -/
theorem valueAll_cons {now : Int} {balances : Balances} {asset : String} {walks : Walks}
    (hbalances : balances = (input.entries.filter (·.time ≤ now)).foldl Balances.add .empty)
    (hstate : ((walks asset).to PriceTick.time lastTick now).state =
      ((input.prices asset).filter (·.time ≤ now)).getLast?)
    (assets : List String) (point : PortfolioPoint) :
    valueAll input now balances (asset :: assets) walks point =
      (holdingAt input now asset).bind fun holding => valueAll input now balances assets
        (Function.update walks asset ((walks asset).to PriceTick.time lastTick now))
        (point.with [holding]) := by
  have hamount : balances.amount asset = ((input.entries.filter fun entry =>
      entry.time ≤ now ∧ entry.asset = asset).map TimedEntry.signed).sum := by
    rw [hbalances, foldl_add_amount, filter_filter]
    simp only [Bool.decide_and, Bool.and_comm]
  rw [valueAll, holdingAt, ← sum_signed, ← hamount, Walk.price, hstate]
  cases ((input.prices asset).filter (·.time ≤ now)).getLast? with
  | none => simp [PortfolioPoint.with, bind, Except.bind, pure, Except.pure]
  | some tick =>
    simp only [Functor.map, Except.map, bind, Except.bind]
    cases parseUsd tick.priceUsd with
    | error _ => rfl
    | ok priceMicros =>
      simp only
      cases valueOf (balances.amount asset) priceMicros (input.decimalsOf asset) with
      | error _ => rfl
      | ok value => simp [PortfolioPoint.with, pure, Except.pure]

theorem valueAll_eq {now : Int} {buckets : List Int} {balances : Balances}
    (hbalances : balances = (input.entries.filter (·.time ≤ now)).foldl Balances.add .empty)
    (hprices : ∀ asset, (input.prices asset).Pairwise (·.time ≤ ·.time))
    (hbuckets : ∀ bucket ∈ buckets, now ≤ bucket) (assets : List String) {walks : Walks}
    (hwalks : walks.Within input (now :: buckets)) (point : PortfolioPoint) :
    ∃ walks', Walks.Within input (now :: buckets) walks' ∧
      valueAll input now balances assets walks point =
        (assets.mapM (holdingAt input now)).map fun holdings => (walks', point.with holdings) := by
  induction assets generalizing walks point with
  | nil =>
    refine ⟨walks, hwalks, ?_⟩
    simp [valueAll, PortfolioPoint.with, pure, Except.pure, Except.map]
  | cons asset assets ih =>
    obtain ⟨hwithin, hstate⟩ := (hwalks asset).to (hprices asset) hbuckets
    rw [foldl_lastTick] at hstate
    rw [valueAll_cons hbalances hstate, mapM_cons]
    cases holdingAt input now asset with
    | error _ => exact ⟨walks, hwalks, rfl⟩
    | ok holding =>
      have hwalks' : Walks.Within input (now :: buckets)
          (Function.update walks asset ((walks asset).to PriceTick.time lastTick now)) :=
        (Function.forall_update_iff walks fun asset (walk : Walk) => walk.Within PriceTick.time
          lastTick none (input.prices asset) (now :: buckets)).2 ⟨hwithin, fun other _ => hwalks other⟩
      obtain ⟨walks', hwithin', heq⟩ := ih hwalks' (point.with [holding])
      refine ⟨walks', hwithin', heq.trans ?_⟩
      cases assets.mapM (holdingAt input now) with
      | error _ => rfl
      | ok holdings => exact congrArg (fun p => Except.ok (walks', p)) (point.with_cons holding holdings)

theorem projectFrom_eq (hentries : input.entries.Pairwise (·.time ≤ ·.time))
    (hprices : ∀ asset, (input.prices asset).Pairwise (·.time ≤ ·.time)) {buckets : List Int}
    (hbuckets : buckets.Pairwise (· ≤ ·)) {cursor : Cursor Balances TimedEntry} {walks : Walks}
    (hcursor : cursor.Within TimedEntry.time Balances.add .empty input.entries buckets)
    (hwalks : walks.Within input buckets) :
    projectFrom input buckets cursor walks = buckets.mapM (pointAt input) := by
  induction buckets generalizing cursor walks with
  | nil => rfl
  | cons now buckets ih =>
    obtain ⟨hfirst, hbuckets⟩ := pairwise_cons.1 hbuckets
    obtain ⟨hcursor', hstate⟩ := hcursor.to hentries hfirst
    obtain ⟨walks', hwalks', heq⟩ := valueAll_eq hstate hprices hfirst
      (sorted input ((input.entries.filter (·.time ≤ now)).map (·.asset)).eraseDups) hwalks
      ⟨now, 0, [], true⟩
    rw [projectFrom, mapM_cons, pointAt]
    simp only [hstate, foldl_add_assets] at heq ⊢
    rw [heq]
    cases (sorted input ((input.entries.filter (·.time ≤ now)).map (·.asset)).eraseDups).mapM
        (holdingAt input now) with
    | error _ => rfl
    | ok holdings =>
      have hrest := ih hbuckets hcursor'.tail fun asset => (hwalks' asset).tail
      simp [Except.map, bind, Except.bind, pure, Except.pure, hrest, PortfolioPoint.with]

/-- The single pass is the valuation of every instant by itself. -/
theorem projectSeries_eq_pointAt (input : ProjectInput)
    (hentries : input.entries.Pairwise (·.time ≤ ·.time))
    (hbuckets : input.buckets.Pairwise (· ≤ ·))
    (hprices : ∀ asset, (input.prices asset).Pairwise (·.time ≤ ·.time)) :
    projectSeries input = input.buckets.mapM (pointAt input) :=
  projectFrom_eq hentries hprices hbuckets ⟨[], rfl, rfl, nofun⟩ fun _ => ⟨[], rfl, rfl, nofun⟩

/-- Two ticks, one before and one with the first bucket, and a debit between the buckets. -/
def sample : ProjectInput where
  entries := [⟨"SOL", 3000000000, .credit, 5⟩, ⟨"SOL", 1000000000, .debit, 15⟩]
  buckets := [10, 20]
  prices := fun asset => if asset = "SOL" then [⟨"150.5", 1⟩, ⟨"160", 10⟩] else []
  decimalsOf := fun _ => 9
  localeCompare := fun _ _ => 0

theorem projectSeries_sample : projectSeries sample = sample.buckets.mapM (pointAt sample) ∧
    projectSeries sample = .ok
      [⟨10, 480000000, [⟨"SOL", 3000000000, some 480000000⟩], true⟩,
        ⟨20, 320000000, [⟨"SOL", 2000000000, some 320000000⟩], true⟩] := by
  refine ⟨projectSeries_eq_pointAt sample (by decide) (by decide) fun asset => ?_, by decide +kernel⟩
  unfold sample
  dsimp only
  split <;> decide

end AtlasCex.Portfolio

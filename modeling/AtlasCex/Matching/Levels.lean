import AtlasCex.Lib.Patch
import AtlasCex.Matching.Simulation
/-!
# Every changed level is touched (`book.rs:229-257`, `315-400`)

`Reported b b'` says that `b'` came from `b` and has marked every level whose total is no longer
what it was. Resting, removing and trading each mark the one level they change. Only `front_live`
writes a ladder without marking it: it pops tombstones, and on a book that refines a list that
changes no total, since both books hold the same list (`Refines.qtyAt`).
-/
namespace AtlasCex.Matching
open Std (ExtTreeSet LawfulEqCmp)

/-! ## Totals -/

/-- What rests at a price: the level's own total, `none` when there is no level. -/
def OrderBook.qtyAt (b : OrderBook) (side : Side) (price : Nat) : Option Nat :=
  (b.levelAt side price).map Level.totalQty

/-- The key `touch` files a level under. -/
def levelKey (side : Side) (price : Nat) : Bool × Nat := (side == .buy, price)

instance : LawfulEqCmp touchedCmp where
  eq_of_compare {a b} h := by
    simpa [touchedCmp, compareLex, compareOn, Ordering.then_eq_eq, Prod.ext_iff] using h

variable {b : OrderBook}

theorem mem_touch {s : Side} {p : Nat} {k : Bool × Nat} :
    k ∈ (b.touch s p).touched ↔ levelKey s p = k ∨ k ∈ b.touched := by
  simp only [OrderBook.touch, ExtTreeSet.mem_insert, levelKey, LawfulEqCmp.compare_eq_iff_eq]

/-- The total at a price, read off the list. -/
theorem Refines.qtyAt {used : OrderId → Prop} {l : List RestingOrder}
    (h : Refines used b l) (s : Side) (p : Nat) :
    b.qtyAt s p = if atPrice s p l = [] then none else some (totalOf (atPrice s p l)) := by
  rw [OrderBook.qtyAt]
  cases hlv : b.levelAt s p with
  | none => rw [if_pos (h.gone s p hlv)]; rfl
  | some lv =>
    have hold := h.level s p lv hlv
    rw [if_neg hold.nonempty, Option.map_some, hold.total]

/-! ## What an operation marks -/

structure Reported (b b' : OrderBook) : Prop where
  kept : ∀ k ∈ b.touched, k ∈ b'.touched
  rest : ∀ s p, levelKey s p ∉ b'.touched → b'.qtyAt s p = b.qtyAt s p

section
variable {used : OrderId → Prop} {b b' b'' : OrderBook} {l : List RestingOrder} {s : Side} {p : Nat}

theorem Reported.refl (b : OrderBook) : Reported b b := ⟨fun _ => id, fun _ _ _ => rfl⟩

theorem Reported.trans (h : Reported b b') (h' : Reported b' b'') : Reported b b'' where
  kept k hk := h'.kept k (h.kept k hk)
  rest s p hk := (h'.rest s p hk).trans (h.rest s p fun hk' => hk (h'.kept _ hk'))

/-- An operation that changes one level and marks it. -/
theorem Reported.of_touch (htouch : ∀ k, k ∈ b'.touched ↔ levelKey s p = k ∨ k ∈ b.touched)
    (hother : ∀ s' p', ¬(s' = s ∧ p' = p) → b'.levelAt s' p' = b.levelAt s' p') :
    Reported b b' where
  kept k hk := (htouch k).2 (.inr hk)
  rest s' p' hk := by
    have hne : ¬(s' = s ∧ p' = p) := by
      rintro ⟨rfl, rfl⟩
      exact hk ((htouch _).2 (.inl rfl))
    rw [OrderBook.qtyAt, OrderBook.qtyAt, hother s' p' hne]

/-- An operation on a book that still holds the same list. -/
theorem Reported.of_refines (h : Refines used b l) (h' : Refines used b' l)
    (htouched : b'.touched = b.touched) : Reported b b' where
  kept k hk := htouched ▸ hk
  rest s p _ := by rw [h.qtyAt, h'.qtyAt]

@[simp] theorem touched_setLadder (b : OrderBook) (s : Side) (l : Ladder) :
    (b.setLadder s l).touched = b.touched := by cases s <;> rfl

/-- Writing a ladder at one price leaves the other levels. -/
theorem levelAt_setLadder (b : OrderBook) {ladder : Ladder}
    (hladder : ∀ p', p' ≠ p → ladder.level p' = (b.ladderFor s).level p') {s' : Side} {p' : Nat}
    (hne : ¬(s' = s ∧ p' = p)) : (b.setLadder s ladder).levelAt s' p' = b.levelAt s' p' := by
  by_cases hs : s' = s
  · subst hs
    simpa [OrderBook.levelAt] using hladder p' fun e => hne ⟨rfl, e⟩
  · simp [OrderBook.levelAt, hs]

theorem reported_rest (b : OrderBook) (o : RestingOrder) : Reported b (b.rest o) := by
  apply Reported.of_touch (s := o.side) (p := o.price)
  · intro k
    rw [OrderBook.rest, mem_touch, touched_setLadder]
  · intro s' p' hne
    rw [OrderBook.rest, OrderBook.levelAt, OrderBook.ladderFor_touch]
    refine (levelAt_setLadder _ (fun p' hp => by simp [hp]) hne).trans ?_
    rw [OrderBook.levelAt, OrderBook.ladderFor_orders, OrderBook.levelAt]

theorem reported_remove (b : OrderBook) (id : OrderId) : Reported b (b.remove id).2 := by
  cases hg : b.get id with
  | none =>
    have : (b.remove id).2 = b := by rw [OrderBook.remove, hg]
    rw [this]
    exact Reported.refl b
  | some o =>
    apply Reported.of_touch (s := o.side) (p := o.price)
    · intro k
      rw [OrderBook.remove, hg]
      simp only [mem_touch, touched_setLadder]
    · intro s' p' hne
      rw [levelAt_remove hg, if_neg hne]

theorem touched_frontLiveLoop (s : Side) (p : Nat) : ∀ (fuel : Nat) (b : OrderBook),
    (OrderBook.frontLiveLoop fuel b s p).2.touched = b.touched
  | 0, _ => rfl
  | fuel + 1, b => by
    simp only [OrderBook.frontLiveLoop]
    split
    · rfl
    · split
      · rfl
      · rw [touched_frontLiveLoop s p fuel, touched_setLadder]

/-- `front_live` leaves a book that holds the same list, whether or not anything rests there. -/
theorem Refines.frontLive_keeps (h : Refines used b l) (s : Side) (p : Nat) :
    Refines used (b.frontLive s p).2 l := by
  cases hat : atPrice s p l with
  | cons o os =>
    obtain ⟨b', hb', hfront⟩ := h.frontLive hat
    rw [hb']
    exact hfront.refines
  | nil =>
    have hlv : (b.ladderFor s).level p = none := by
      cases hlv : (b.ladderFor s).level p with
      | none => rfl
      | some lv => exact absurd hat (h.level s p lv hlv).nonempty
    simpa [OrderBook.frontLive, OrderBook.frontLiveLoop, hlv] using h

theorem Refines.frontLive_reported (h : Refines used b l) (s : Side) (p : Nat) :
    Reported b (b.frontLive s p).2 :=
  Reported.of_refines h (h.frontLive_keeps s p) (touched_frontLiveLoop s p _ b)

theorem Refines.consumeFront_reported (h : Refines used b l) (s : Side) (p qty : Nat) :
    Reported b (b.consumeFront s p qty).2 := by
  refine (h.frontLive_reported s p).trans ?_
  rw [OrderBook.consumeFront]
  generalize b.frontLive s p = front
  obtain ⟨o, b₁⟩ := front
  cases o with
  | none => exact Reported.refl b₁
  | some before =>
    have htouch : ∀ k, k ∈ ((b₁.setLadder s ((b₁.ladderFor s).reduce p qty)).touch s p).touched ↔
        levelKey s p = k ∨ k ∈ b₁.touched := by
      intro k; rw [mem_touch, touched_setLadder]
    have hreduce : ∀ s' p', ¬(s' = s ∧ p' = p) →
        ((b₁.setLadder s ((b₁.ladderFor s).reduce p qty)).touch s p).levelAt s' p' =
          b₁.levelAt s' p' := by
      intro s' p' hne
      rw [OrderBook.levelAt, OrderBook.ladderFor_touch]
      exact levelAt_setLadder b₁ (fun p' hp => by simp [Ladder.reduce, hp]) hne
    simp only
    generalize (b₁.setLadder s ((b₁.ladderFor s).reduce p qty)).touch s p = b₂ at htouch hreduce
    apply Reported.of_touch (s := s) (p := p)
    · intro k
      rw [← htouch]
      split
      · rw [touched_setLadder]
      · split <;> rfl
    · intro s' p' hne
      rw [← hreduce s' p' hne]
      split
      · rw [levelAt_setLadder _ (fun p' hp => by simp [hp]) hne, OrderBook.levelAt,
          OrderBook.ladderFor_orders, OrderBook.levelAt]
      · split
        · rw [OrderBook.levelAt, OrderBook.ladderFor_orders, OrderBook.levelAt]
        · rfl

end

/-! ## One command -/

section
variable {used : OrderId → Prop} {e : Engine} {r : RefEngine}

theorem Reported.setLastTradePrice {b b' : OrderBook} (h : Reported b b') (price : Nat) :
    Reported b (b'.setLastTradePrice price) :=
  ⟨h.kept, fun s p hk => (by cases s <;> rfl : _ = b'.qtyAt s p).trans (h.rest s p hk)⟩

theorem matchTurn_reported (t : Taker) {s : MatchState} {l : List RestingOrder}
    (h : Refines used s.book l) : Reported s.book (matchTurn t s).val.book := by
  unfold matchTurn
  split
  · exact Reported.refl _
  split
  · exact Reported.refl _
  rename_i best _
  split
  · exact Reported.refl _
  have hkeeps := h.frontLive_keeps t.side.opposite best
  have hfront := h.frontLive_reported t.side.opposite best
  generalize s.book.frontLive t.side.opposite best = front at hkeeps hfront
  obtain ⟨maker, book⟩ := front
  cases maker with
  | none => exact hfront
  | some maker =>
    have hremove := hfront.trans (reported_remove book maker.orderId)
    simp only
    split
    · cases t.stpMode with
      | cancelTaker => exact hfront
      | cancelMaker => exact hremove
      | cancelBoth => exact hremove
    · exact (hfront.trans (hkeeps.consumeFront_reported _ _ _)).setLastTradePrice best

theorem matchLoop_reported (t : Taker) {b : OrderBook} (h : Refines used b r.resting)
    (hprice : b.lastTradePrice = r.lastTradePrice) (fuel qty : Nat) :
    Reported b (matchLoop t fuel ⟨b, [], qty, false⟩).book := by
  -- a turn needs the list the book refines, so the simulation is carried along
  have hturn : ∀ s : MatchState, (∃ r, MatchRefines used s r) ∧ Reported b s.book →
      (∃ r, MatchRefines used (matchTurn t s).val r) ∧ Reported b (matchTurn t s).val.book := by
    rintro s ⟨⟨r, hr⟩, hs⟩
    refine ⟨?_, hs.trans (matchTurn_reported t hr.book)⟩
    have hsim := matchTurn_sim t hr
    generalize matchTurn t s = turn at hsim
    generalize r.turn t = turn' at hsim
    cases hsim with
    | stop h => exact ⟨_, h⟩
    | again h => exact ⟨_, h⟩
  exact (Lib.loop_induct hturn fuel (a := ⟨b, [], qty, false⟩)
    ⟨⟨⟨r.resting, r.lastTradePrice, [], qty, false⟩, h, hprice, rfl, rfl, rfl⟩,
      Reported.refl b⟩).2

theorem EngineRefines.place_reported (h : EngineRefines used e r) (seq : Nat) (timestampMs : Int)
    (orderId : OrderId) (request : OrderRequest) :
    Reported e.book (e.place seq timestampMs orderId request).2.book := by
  rw [Engine.place]
  split
  · exact Reported.refl _
  · rename_i limit _
    have hloop := matchLoop_reported (request.taker seq timestampMs orderId limit) h.book h.price
      (e.book.openOrderCount + 1) request.qty
    simp only
    generalize matchLoop _ _ _ = s at hloop
    cases (disposition seq orderId request s.events s.remaining s.stpCancelledTaker).2 with
    | none => exact hloop
    | some o => exact hloop.trans (reported_rest s.book o)

/-- **One command** marks every level whose total it changed. -/
theorem EngineRefines.apply_reported (h : EngineRefines used e r) (c : SequencedCommand) :
    Reported e.book (e.apply c).2.book := by
  have h' : EngineRefines used { e with lastSeq := c.seq } r := ⟨h.market, h.book, h.price⟩
  unfold Engine.apply
  cases c.command with
  | place orderId request => exact h'.place_reported _ _ _ _
  | cancel orderId =>
    have hremove := reported_remove e.book orderId
    simp only [Engine.cancel]
    generalize e.book.remove orderId = removed at hremove
    obtain ⟨o, b⟩ := removed
    cases o <;> exact hremove
  | amend orderId newOrderId price qty =>
    have hremove := reported_remove e.book orderId
    have hrel := h'.remove orderId
    simp only [Engine.amend]
    cases hfind : r.resting.find? (·.orderId = orderId) with
    | some o =>
      rw [hfind] at hrel
      obtain ⟨b, hb, hrel⟩ := hrel
      rw [hb] at hremove ⊢
      exact hremove.trans (hrel.place_reported _ _ _ _)
    | none =>
      rw [hfind] at hrel
      simp only at hrel
      rw [hrel]
      exact Reported.refl _
  | setStatus status => exact Reported.refl _

end

/-! ## What a command reports -/

/-- The aggregated book: what rests at each side and price, where something does. -/
def aggregated (b : OrderBook) : Side × Nat → Option Nat := fun k => b.qtyAt k.1 k.2

/-- A level change as a consumer takes it: set the level, or forget it at quantity zero. -/
def LevelChange.entry (change : LevelChange) : (Side × Nat) × Option Nat :=
  ((change.side, change.price), if change.qty = 0 then none else some change.qty)

theorem mem_takeLevelChanges {change : LevelChange} :
    change ∈ b.takeLevelChanges.1 ↔ levelKey change.side change.price ∈ b.touched ∧
      change.qty = (b.qtyAt change.side change.price).getD 0 := by
  obtain ⟨side, price, qty⟩ := change
  simp only [OrderBook.takeLevelChanges, List.mem_map, ExtTreeSet.mem_toList]
  constructor
  · rintro ⟨⟨isBuy, p⟩, hk, he⟩
    cases isBuy <;> cases he <;> exact ⟨hk, rfl⟩
  · rintro ⟨hk, rfl⟩
    refine ⟨levelKey side price, hk, ?_⟩
    cases side <;> rfl

section
variable {used : OrderId → Prop} {b b' : OrderBook} {l : List RestingOrder}

/-- A level that is there has something in it. -/
theorem Refines.qtyAt_ne_zero (h : Refines used b l) (s : Side) (p : Nat) :
    b.qtyAt s p ≠ some 0 := by
  rw [h.qtyAt]
  split
  · simp
  · rename_i hne
    have := totalOf_pos (fun o ho => h.positive o (mem_atPrice.1 ho).1) hne
    simp only [ne_eq, Option.some.injEq]; omega

/-- A reported quantity is the book's own, and zero says that the level is gone. -/
theorem Refines.entry_reads (h : Refines used b l) {change : LevelChange}
    (hc : change ∈ b.takeLevelChanges.1) : change.entry.2 = aggregated b change.entry.1 := by
  have hq := (mem_takeLevelChanges.1 hc).2
  have hne := h.qtyAt_ne_zero change.side change.price
  simp only [LevelChange.entry, aggregated]
  cases hb : b.qtyAt change.side change.price with
  | none => rw [hb] at hq; simp [hq]
  | some n =>
    rw [hb] at hq hne
    have : n ≠ 0 := by simpa using hne
    simp [hq, this]

/-- A consumer that has the old book takes the report and has the new one. -/
theorem Reported.patch_eq (hr : Reported b b') (h : Refines used b' l) :
    Lib.patch (aggregated b) (b'.takeLevelChanges.1.map LevelChange.entry) = aggregated b' := by
  apply Lib.patch_eq
  · intro c hc
    obtain ⟨change, hmem, rfl⟩ := List.mem_map.1 hc
    exact h.entry_reads hmem
  · rintro ⟨s, p⟩ hk
    refine (hr.rest s p fun htouched => ?_).symm
    have hmem : ⟨s, p, (b'.qtyAt s p).getD 0⟩ ∈ b'.takeLevelChanges.1 :=
      mem_takeLevelChanges.2 ⟨htouched, rfl⟩
    exact hk _ (List.mem_map_of_mem hmem) rfl

/-- Taken again, it changes nothing. -/
theorem Refines.patch_eq (h : Refines used b l) :
    Lib.patch (aggregated b) (b.takeLevelChanges.1.map LevelChange.entry) = aggregated b :=
  (Reported.refl b).patch_eq h

end

end AtlasCex.Matching

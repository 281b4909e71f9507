import AtlasCex.Matching.Levels
import AtlasCex.Server.Runtime
/-!
# Level changes rebuild the book (`tests/level_changes.rs`, ADR-0036 §1)

A consumer starts from the aggregated book at some sequence and takes each later command's level
changes, in order, once or several times over. It holds the engine's aggregated book after every
command: what a command does not report it did not change (`Reported`), and what it reports is the
book's own total, so taking it again changes nothing.
-/
namespace AtlasCex.Server
open List
open Matching

/-- A consumer's book: what rests at each side and price. -/
abbrev Mirror := Side × Nat → Option Nat

/-- `apply` of the consumer: set each level, or forget it at zero. -/
def Mirror.apply (mirror : Mirror) (changes : List LevelChange) : Mirror :=
  Lib.patch mirror (changes.map LevelChange.entry)

/-- Each output's level changes are delivered, and then `again` more times. -/
def Mirror.follow (mirror : Mirror) (deliveries : List (SequenceOutput × Nat)) : Mirror :=
  deliveries.foldl (fun mirror (output, again) =>
    (List.replicate (again + 1) output.levels).foldl Mirror.apply mirror) mirror

/-- The engine after a stream, its level changes taken after every command. -/
def watched (market : MarketConfig) (commands : List SequencedCommand) : Engine :=
  (Lib.run applyWithLevels (Engine.new market) commands).2

theorem watched_concat (market : MarketConfig) (commands : List SequencedCommand)
    (c : SequencedCommand) :
    watched market (commands ++ [c]) = (applyWithLevels (watched market commands) c).2 := by
  rw [watched, Lib.run_concat]; rfl

/-! ## One command -/

/-- Only what is compared of an engine matters to what it refines. -/
theorem refines_of_same {used : OrderId → Prop} {e e' : Engine} {r : RefEngine} (h : e.Same e')
    (hr : EngineRefines used e' r) : EngineRefines used e r where
  market := h.market.trans hr.market
  book := hr.book.of_view (fun s => by rw [h.book.ladderFor]; exact hr.book.side s) h.book.get
    (fun s p => by rw [OrderBook.levelAt, h.book.ladderFor, OrderBook.levelAt])
  price := h.book.2.2.2.trans hr.price

theorem watched_refines (market : MarketConfig) {commands : List SequencedCommand}
    (hfresh : FreshIds commands) : EngineRefines (· ∈ introducedIds commands)
      (watched market commands) ((RefEngine.new market).run commands).2 :=
  refines_of_same (run_applyWithLevels_same (Engine.Same.refl _) commands).2
    (run_refines market hfresh prefix_rfl).2

section
variable (market : MarketConfig) {commands : List SequencedCommand} {c : SequencedCommand}

theorem watched_reported (hfresh : FreshIds (commands ++ [c])) :
    Reported (watched market commands).book ((watched market commands).apply c).2.book :=
  (watched_refines market (hfresh.of_prefix (prefix_append _ _))).apply_reported c

/-- The book a command leaves, before its level changes are taken, holds the same orders. -/
theorem watched_next_refines (hfresh : FreshIds (commands ++ [c])) :
    Refines (· ∈ introducedIds (commands ++ [c])) ((watched market commands).apply c).2.book
      ((RefEngine.new market).run (commands ++ [c])).2.resting := by
  have h := watched_refines market hfresh
  rw [watched_concat] at h
  exact (refines_of_same (Engine.same_clear _).symm h).book

/-- A consumer that has the book takes a command's changes, any number of times, and has the next. -/
theorem mirror_command (hfresh : FreshIds (commands ++ [c])) (again : Nat) :
    (List.replicate (again + 1) (applyWithLevels (watched market commands) c).1.levels).foldl
      Mirror.apply (aggregated (watched market commands).book) =
      aggregated (watched market (commands ++ [c])).book := by
  have hbook := watched_next_refines market hfresh
  rw [watched_concat, replicate_succ, foldl_cons]
  have hfirst : Mirror.apply (aggregated (watched market commands).book)
      (applyWithLevels (watched market commands) c).1.levels =
      aggregated (applyWithLevels (watched market commands) c).2.book :=
    (watched_reported market hfresh).patch_eq hbook
  rw [hfirst]
  induction again with
  | zero => rfl
  | succ again ih =>
    rw [replicate_succ, foldl_cons]
    have hagain : Mirror.apply (aggregated (applyWithLevels (watched market commands) c).2.book)
        (applyWithLevels (watched market commands) c).1.levels =
        aggregated (applyWithLevels (watched market commands) c).2.book := hbook.patch_eq
    rw [hagain]
    exact ih

end

/-! ## The stream -/

/-- **Level changes rebuild the book**: from the aggregated book after any commands, a consumer
that is given the level changes of the later ones, each once or more, holds the engine's aggregated
book when it has been given them all, and a command reports every level whose total it changed. -/
theorem level_changes_rebuild (market : MarketConfig) (before : List SequencedCommand)
    (after : List (SequencedCommand × Nat)) (hfresh : FreshIds (before ++ after.map Prod.fst)) :
    Mirror.follow (aggregated (watched market before).book)
        ((Lib.run applyWithLevels (watched market before) (after.map Prod.fst)).1.zip
          (after.map Prod.snd)) =
        aggregated (watched market (before ++ after.map Prod.fst)).book ∧
      ∀ mid c post, after.map Prod.fst = mid ++ c :: post → ∀ s p,
        (watched market (before ++ mid)).book.qtyAt s p ≠
            (watched market (before ++ mid ++ [c])).book.qtyAt s p →
          ∃ change ∈ (applyWithLevels (watched market (before ++ mid)) c).1.levels,
            change.side = s ∧ change.price = p ∧
              change.qty = ((watched market (before ++ mid ++ [c])).book.qtyAt s p).getD 0 := by
  constructor
  · induction after using List.reverseRecOn with
    | nil => simp [Mirror.follow, Lib.run]
    | append_singleton after last ih =>
      obtain ⟨c, again⟩ := last
      simp only [map_append, map_cons, map_nil, ← append_assoc] at hfresh ⊢
      have hrun : (Lib.run applyWithLevels (watched market before) (after.map Prod.fst)).2 =
          watched market (before ++ after.map Prod.fst) := by
        rw [watched, watched, Lib.run_append]
      rw [Lib.run_concat, hrun, zip_append (by simp [Lib.run_length]), Mirror.follow,
        foldl_append]
      have ih := ih (hfresh.of_prefix (prefix_append _ _))
      rw [Mirror.follow] at ih
      rw [ih]
      exact mirror_command market hfresh again
  · intro mid c post hafter s p hchanged
    have hfresh' : FreshIds (before ++ mid ++ [c]) := by
      apply hfresh.of_prefix
      rw [hafter]
      exact ⟨post, by simp⟩
    have hreported := watched_reported market hfresh'
    refine ⟨⟨s, p, ((watched market (before ++ mid ++ [c])).book.qtyAt s p).getD 0⟩, ?_, rfl, rfl, rfl⟩
    rw [watched_concat] at hchanged ⊢
    refine mem_takeLevelChanges.2 ⟨?_, rfl⟩
    by_contra hk
    exact hchanged (hreported.rest s p hk).symm

/-- A snapshot of two asks at one price, and a cancel, a trade and an amend delivered twice each:
the mirror ends with what is left at the amended price. -/
theorem level_changes_rebuild_sample :
    Mirror.follow (aggregated (watched sampleMarket (sampleStream.take 2)).book)
        ((Lib.run applyWithLevels (watched sampleMarket (sampleStream.take 2))
          (((sampleStream.drop 2).map fun c => (c, 1)).map Prod.fst)).1.zip
          (((sampleStream.drop 2).map fun c => (c, 1)).map Prod.snd)) =
        aggregated (watched sampleMarket (sampleStream.take 2 ++
          ((sampleStream.drop 2).map fun c => (c, 1)).map Prod.fst)).book ∧
      (watched sampleMarket (sampleStream.take 2)).book.qtyAt .sell 1000 = some 5000000000 ∧
      (watched sampleMarket sampleStream).book.qtyAt .sell 1000 = none ∧
      (watched sampleMarket sampleStream).book.qtyAt .sell 1010 = some 4000000000 :=
  ⟨(level_changes_rebuild sampleMarket (sampleStream.take 2)
    ((sampleStream.drop 2).map fun c => (c, 1)) (by decide)).1,
    by decide +kernel, by decide +kernel, by decide +kernel⟩

end AtlasCex.Server

import Mathlib.Data.List.Basic
/-!
# Positions within runs

A list cut into runs of equal keys, each element numbered from zero within its run. When the list
is a concatenation of blocks with distinct neighbouring keys, the numbers are the positions in the
blocks.
-/
namespace AtlasCex.Lib
open List

section
variable {α κ : Type} [DecidableEq κ]

/-- Number each element within its run, given the key and the number of the element before. -/
def indexRuns (f : α → κ) : Option κ → Nat → List α → List Nat
  | _, _, [] => []
  | previous, idx, a :: l =>
    let idx := if previous = some (f a) then idx + 1 else 0
    idx :: indexRuns f (some (f a)) idx l

/-- A block of one key is numbered on from the element before, if that had the same key, and from
zero if not. -/
theorem indexRuns_block (f : α → κ) {k : κ} : ∀ {block : List α}, (∀ a ∈ block, f a = k) →
    ∀ (previous : Option κ) (idx : Nat) (rest : List α), ∃ previous' idx',
      indexRuns f previous idx (block ++ rest) =
        List.range' (if previous = some k then idx + 1 else 0) block.length ++
          indexRuns f previous' idx' rest ∧ (previous' = previous ∨ previous' = some k)
  | [], _, previous, idx, rest => ⟨previous, idx, by simp, .inl rfl⟩
  | a :: block, hkey, previous, idx, rest => by
    have ha : f a = k := hkey a mem_cons_self
    obtain ⟨previous', idx', heq, hprev⟩ := indexRuns_block f
      (fun b hb => hkey b (mem_cons_of_mem _ hb)) (some k)
      (if previous = some k then idx + 1 else 0) rest
    refine ⟨previous', idx', ?_, .inr (hprev.elim id id)⟩
    simp only [cons_append, indexRuns, ha, heq, length_cons, List.range'_succ, if_true]

/-- Blocks whose keys are distinct, none of them the key of the element before, are each numbered
from zero. -/
theorem indexRuns_flatMap {β : Type} (f : α → κ) (key : β → κ) (items : β → List α) :
    ∀ {blocks : List β}, (∀ b ∈ blocks, ∀ a ∈ items b, f a = key b) →
      blocks.Pairwise (key · ≠ key ·) →
      ∀ (previous : Option κ) (idx : Nat), (∀ b ∈ blocks, previous ≠ some (key b)) →
        indexRuns f previous idx (blocks.flatMap items) =
          blocks.flatMap fun b => List.range' 0 (items b).length
  | [], _, _, _, _, _ => rfl
  | b :: blocks, hkey, hdistinct, previous, idx, hprev => by
    obtain ⟨hfirst, hrest⟩ := pairwise_cons.1 hdistinct
    obtain ⟨previous', idx', heq, hprev'⟩ := indexRuns_block f (hkey b mem_cons_self)
      previous idx (blocks.flatMap items)
    rw [flatMap_cons, heq, if_neg (hprev b mem_cons_self), flatMap_cons]
    congr 1
    refine indexRuns_flatMap f key items (fun b' hb' => hkey b' (mem_cons_of_mem _ hb')) hrest
      previous' idx' fun b' hb' => ?_
    rcases hprev' with rfl | rfl
    · exact hprev b' (mem_cons_of_mem _ hb')
    · exact fun h => hfirst b' hb' (Option.some.inj h)

end

/-- Zipping two lists cut into the same blocks. -/
theorem zip_flatMap {α β γ : Type} (f : γ → List α) (g : γ → List β)
    (hlen : ∀ c, (f c).length = (g c).length) :
    ∀ blocks : List γ, (blocks.flatMap f).zip (blocks.flatMap g) =
      blocks.flatMap fun c => (f c).zip (g c)
  | [] => rfl
  | c :: blocks => by
    simp only [flatMap_cons]
    rw [zip_append (hlen c), zip_flatMap f g hlen blocks]

end AtlasCex.Lib

import Mathlib.Logic.Function.Basic
import Mathlib.Data.List.Induction
/-!
# Maps kept up to date by absolute changes

A map is its lookup, `K → Option V`; a change says what a key holds now, `none` when it holds
nothing. Changes that all read one target leave that target wherever they speak (`patch_reads`), so
a map that was right wherever they do not speak is the target (`patch_eq`), however often they come.
-/
namespace AtlasCex.Lib

section
variable {K V : Type} [DecidableEq K] {m target : K → Option V} {changes : List (K × Option V)}

/-- Set each key to what its change says, in order. -/
def patch (m : K → Option V) (changes : List (K × Option V)) : K → Option V :=
  changes.foldl (fun m c => Function.update m c.1 c.2) m

theorem patch_concat (m : K → Option V) (changes : List (K × Option V)) (c : K × Option V) :
    patch m (changes ++ [c]) = Function.update (patch m changes) c.1 c.2 := by
  simp [patch]

theorem patch_of_not_mem {k : K} (hk : ∀ c ∈ changes, c.1 ≠ k) : patch m changes k = m k := by
  induction changes using List.reverseRecOn with
  | nil => rfl
  | append_singleton changes c ih =>
    have hc : k ≠ c.1 := (hk c (by simp)).symm
    rw [patch_concat, Function.update_of_ne hc]
    exact ih fun c' hc' => hk c' (by simp [hc'])

theorem patch_reads (h : ∀ c ∈ changes, c.2 = target c.1) {k : K} (hk : ∃ c ∈ changes, c.1 = k) :
    patch m changes k = target k := by
  induction changes using List.reverseRecOn with
  | nil => simp at hk
  | append_singleton changes c ih =>
    rw [patch_concat]
    by_cases hc : k = c.1
    · subst hc
      rw [Function.update_self]
      exact h c (by simp)
    · rw [Function.update_of_ne hc]
      obtain ⟨c', hc', rfl⟩ := hk
      have hmem : c' ∈ changes := by
        rcases List.mem_append.1 hc' with hc' | hc'
        · exact hc'
        · exact absurd (congrArg Prod.fst (List.mem_singleton.1 hc')) hc
      exact ih (fun c' hc' => h c' (by simp [hc'])) ⟨c', hmem, rfl⟩

/-- Changes that read the target, to a map that has it everywhere else. -/
theorem patch_eq (h : ∀ c ∈ changes, c.2 = target c.1)
    (hrest : ∀ k, (∀ c ∈ changes, c.1 ≠ k) → m k = target k) : patch m changes = target := by
  funext k
  by_cases hk : ∃ c ∈ changes, c.1 = k
  · exact patch_reads h hk
  · have hk' : ∀ c ∈ changes, c.1 ≠ k := fun c hc he => hk ⟨c, hc, he⟩
    rw [patch_of_not_mem hk', hrest k hk']

end

end AtlasCex.Lib

import Mathlib.Data.List.MinMax
import Mathlib.Data.List.Nodup
import Mathlib.Algebra.BigOperators.Group.List.Basic
import Mathlib.Algebra.Ring.Int.Defs
import Mathlib.Algebra.Ring.Nat
/-!
# Selecting by key from a list

* `head?_of_least`, `getLast?_of_greatest` — the ends of a strictly sorted list.
* `argmin_first`, `argmax_first` — `List.argmin` and `List.argmax` return the first element that
  attains the extremum.
* `sum_filter_ne`, `sum_map_replace`, `sum_map_sub_at`, `sum_map_change` — a sum over a list whose keys
  are distinct, less one element, with one replaced, with one changed; `sum_map_ite` — a sum over what is
  selected.
* `filter_concat` — selecting one element more from a sorted list.
* `filter_numbered` — in a list numbered without gaps, the elements from a number on are a tail.
* `filter_le_append_filter_lt`, `dropWhile_eq_filter`, `filter_between` — cutting a list that is in
  the order of a key.
-/
namespace AtlasCex.Lib
open List

variable {α κ : Type}

/-! ## The ends of a sorted list -/

theorem head?_of_least [LinearOrder κ] : ∀ {l : List κ} {m : κ}, l.Pairwise (· < ·) → m ∈ l →
    (∀ a ∈ l, m ≤ a) → l.head? = some m
  | [], _, _, hm, _ => by simp at hm
  | a :: l, m, hs, hm, hle => by
    rcases mem_cons.1 hm with rfl | hm
    · rfl
    · exact absurd ((pairwise_cons.1 hs).1 m hm) (not_lt.2 (hle a (by simp)))

theorem getLast?_of_greatest [LinearOrder κ] {l : List κ} {m : κ} (hs : l.Pairwise (· < ·))
    (hm : m ∈ l) (hle : ∀ a ∈ l, a ≤ m) : l.getLast? = some m := by
  induction l using List.reverseRecOn with
  | nil => simp at hm
  | append_singleton l a _ =>
    simp only [getLast?_append, getLast?_singleton, Option.some_or, Option.some.injEq]
    simp only [mem_append, mem_singleton] at hm
    rcases hm with hm | rfl
    · have hlt := (pairwise_append.1 hs).2.2 m hm a (by simp)
      exact absurd hlt (not_lt.2 (hle a (by simp)))
    · rfl

/-! ## First extremum -/

theorem argmin_first [LinearOrder κ] {f : α → κ} : ∀ {l : List α} {m : α}, l.argmin f = some m →
    (l.filter (f · = f m)).head? = some m
  | [], _, h => by simp at h
  | a :: l, m, h => by
    rw [argmin_cons] at h
    cases hl : l.argmin f with
    | none =>
      rw [hl] at h
      cases h
      simp
    | some c =>
      rw [hl] at h
      simp only at h
      split at h
      · rename_i hlt
        cases h
        rw [filter_cons_of_neg (by simpa using (ne_of_gt hlt))]
        exact argmin_first hl
      · cases h
        simp

variable {l : List α}

theorem argmax_first [LinearOrder κ] {f : α → κ} {m : α} (h : l.argmax f = some m) :
    (l.filter (f · = f m)).head? = some m :=
  @argmin_first α κᵒᵈ _ f l m h

/-! ## Sums and lookups over distinct keys -/

variable {key : α → κ}

theorem find?_of_nodup [DecidableEq κ] : ∀ {l : List α} {a : α},
    (l.map key).Nodup → a ∈ l → l.find? (key · = key a) = some a
  | [], _, _, ha => by simp at ha
  | b :: l, a, hnd, ha => by
    rw [map_cons, nodup_cons] at hnd
    rcases mem_cons.1 ha with rfl | ha
    · simp
    · have hne : key b ≠ key a := fun e => hnd.1 (e ▸ mem_map_of_mem ha)
      rw [find?_cons_of_neg (by simpa using hne)]
      exact find?_of_nodup hnd.2 ha

theorem filter_ne_of_not_mem [DecidableEq κ] {k : κ}
    (h : k ∉ l.map key) : l.filter (key · ≠ k) = l := by
  rw [filter_eq_self]
  intro a ha
  simpa using fun e : key a = k => h (e ▸ mem_map_of_mem ha)

/-- An entry, and the entries with other keys. -/
theorem perm_cons_filter_ne [DecidableEq κ] : ∀ {l : List α} {a : α},
    (l.map key).Nodup → a ∈ l → l.Perm (a :: l.filter (key · ≠ key a))
  | [], _, _, ha => by simp at ha
  | b :: l, a, hnd, ha => by
    rw [map_cons, nodup_cons] at hnd
    rcases mem_cons.1 ha with rfl | ha
    · rw [filter_cons_of_neg (by simp), filter_ne_of_not_mem hnd.1]
    · have hne : key b ≠ key a := fun e => hnd.1 (e ▸ mem_map_of_mem ha)
      rw [filter_cons_of_pos (by simpa using hne)]
      exact ((perm_cons_filter_ne hnd.2 ha).cons b).trans (.swap a b _)

variable {a : α}

theorem sum_filter_ne [DecidableEq κ] (f : α → Nat) (hnd : (l.map key).Nodup) (ha : a ∈ l) :
    ((l.filter (key · ≠ key a)).map f).sum + f a = (l.map f).sum := by
  rw [((perm_cons_filter_ne hnd ha).map f).sum_nat, map_cons, sum_cons, Nat.add_comm]

theorem map_key_replace [DecidableEq κ] {b : α} :
    (l.map fun x => if key x = key b then b else x).map key = l.map key := by
  rw [map_map]
  apply map_congr_left
  intro x _
  simp only [Function.comp]
  split
  · rename_i h; exact h.symm
  · rfl

/-- Two sums over a list with distinct keys that differ at one of them. -/
theorem sum_map_change [DecidableEq κ] {f g : α → Int}
    (hnd : (l.map key).Nodup) (ha : a ∈ l) (hsame : ∀ x ∈ l, key x ≠ key a → g x = f x) :
    (l.map g).sum = (l.map f).sum + (g a - f a) := by
  have hperm := perm_cons_filter_ne hnd ha
  have hrest : (l.filter (key · ≠ key a)).map g = (l.filter (key · ≠ key a)).map f := by
    refine map_congr_left fun x hx => ?_
    obtain ⟨hx, hne⟩ := mem_filter.1 hx
    exact hsame x hx (by simpa using hne)
  rw [(hperm.map g).sum_eq, (hperm.map f).sum_eq, map_cons, map_cons, hrest,
    sum_cons, sum_cons]
  omega

/-- One element of a list with distinct keys put in the place of another. -/
theorem sum_map_replace [DecidableEq κ] (f : α → Int) {b : α} (hnd : (l.map key).Nodup)
    (ha : a ∈ l) (hkey : key b = key a) :
    ((l.map fun x => if key x = key b then b else x).map f).sum = (l.map f).sum - f a + f b := by
  have hmap : (l.map fun x => if key x = key b then b else x).map f =
      l.map fun x => if key x = key a then f b else f x := by
    simp only [map_map, Function.comp_def, hkey, apply_ite f]
  rw [hmap, sum_map_change hnd ha fun x _ hne => if_neg hne, if_pos rfl]
  omega

/-- A change at one key of a list with distinct keys. -/
theorem sum_map_sub_at [DecidableEq κ] (f : α → Int) (d : Int) (hnd : (l.map key).Nodup)
    (ha : a ∈ l) : (l.map fun x => f x - if key x = key a then d else 0).sum = (l.map f).sum - d := by
  rw [sum_map_change (f := f) hnd ha fun x _ hne => by rw [if_neg hne, Int.sub_zero], if_pos rfl]
  omega

theorem sum_map_ite (p : α → Bool) (f : α → Int) : ∀ l : List α,
    (l.map fun x => if p x then f x else 0).sum = ((l.filter p).map f).sum
  | [] => rfl
  | x :: l => by
    rw [map_cons, sum_cons, sum_map_ite p f l]
    by_cases hx : p x = true
    · rw [filter_cons_of_pos hx, if_pos hx, map_cons, sum_cons]
    · rw [filter_cons_of_neg hx, if_neg hx, Int.zero_add]

/-! ## One more element -/

/-- In a list sorted by `R`, letting in one element that comes after all those already selected
puts it at the end of the selection. -/
theorem filter_concat {R : α → α → Prop} {p q : α → Bool}
    (hs : l.Pairwise R) (ha : a ∈ l) (hq : ∀ x ∈ l, q x = true ↔ p x = true ∨ x = a)
    (hafter : ∀ x ∈ l, p x = true → ¬R a x) (hpa : p a = false) (hirr : ¬R a a) :
    l.filter q = l.filter p ++ [a] := by
  obtain ⟨before, after, rfl⟩ := append_of_mem ha
  rw [pairwise_append, pairwise_cons] at hs
  obtain ⟨-, ⟨hlt, -⟩, hcross⟩ := hs
  have hlow : before.filter q = before.filter p := by
    apply filter_congr
    intro x hx
    have hne : x ≠ a := by
      rintro rfl
      exact hirr (hcross x hx x mem_cons_self)
    have := hq x (by simp [hx])
    rw [Bool.eq_iff_iff, this]
    exact or_iff_left hne
  have hhigh : ∀ x ∈ after, ¬p x = true := fun x hx hp => hafter x (by simp [hx]) hp (hlt x hx)
  have hnone : after.filter p = [] := filter_eq_nil_iff.2 hhigh
  have hnone' : after.filter q = [] := by
    rw [filter_eq_nil_iff]
    intro x hx
    rw [hq x (by simp [hx])]
    rintro (hp | rfl)
    · exact hhigh x hx hp
    · exact hirr (hlt x hx)
  have hqa : q a = true := (hq a (by simp)).2 (.inr rfl)
  rw [filter_append, filter_append, filter_cons_of_pos hqa,
    filter_cons_of_neg (by simp [hpa]), hlow, hnone, hnone', append_nil]

/-! ## Numbered lists -/

theorem filter_numbered {num : α → Nat} : ∀ {l : List α} {a : Nat} (n : Nat),
    l.map num = List.range' a l.length → l.filter (a + n ≤ num ·) = l.drop n
  | [], _, _, _ => by simp
  | x :: l, a, n, h => by
    simp only [map_cons, length_cons, List.range'_succ, List.cons.injEq] at h
    obtain ⟨rfl, hl⟩ := h
    cases n with
    | zero =>
      have hall : ∀ y ∈ l, num x + 1 ≤ num y := by
        intro y hy
        have hmem : num y ∈ l.map num := mem_map_of_mem hy
        rw [hl, mem_range'_1] at hmem
        exact hmem.1
      rw [drop_zero, filter_eq_self]
      intro y hy
      rcases mem_cons.1 hy with rfl | hy
      · simp
      · have := hall y hy
        simp only [decide_eq_true_eq]; omega
    | succ n =>
      rw [filter_cons_of_neg (by simp), drop_succ_cons, ← filter_numbered n hl]
      apply filter_congr
      intro y _
      simp only [decide_eq_decide]; omega

/-! ## Lists in the order of a key -/

section Keyed
variable {α : Type} {f : α → Nat} {l : List α}

/-- A list in key order is what is at most `a`, then what is above. -/
theorem filter_le_append_filter_lt (h : l.Pairwise (f · ≤ f ·)) (a : Nat) :
    l.filter (f · ≤ a) ++ l.filter (a < f ·) = l := by
  induction l with
  | nil => rfl
  | cons x l ih =>
    rw [pairwise_cons] at h
    by_cases hx : f x ≤ a
    · rw [filter_cons_of_pos (by simpa using hx), filter_cons_of_neg (by simpa using hx),
        cons_append, ih h.2]
    · have hlow : l.filter (f · ≤ a) = [] := by
        rw [filter_eq_nil_iff]
        intro y hy
        have := h.1 y hy
        simp only [decide_eq_true_eq]; omega
      have hhigh : l.filter (a < f ·) = l := by
        rw [filter_eq_self]
        intro y hy
        have := h.1 y hy
        simp only [decide_eq_true_eq]; omega
      rw [filter_cons_of_neg (by simpa using hx),
        filter_cons_of_pos (by simpa using hx), hlow, hhigh, nil_append]

/-- Dropping the least key from the front of a list in key order drops it everywhere. -/
theorem dropWhile_eq_filter (h : l.Pairwise (f · ≤ f ·)) {a : Nat} (hge : ∀ x ∈ l, a ≤ f x) :
    l.dropWhile (f · = a) = l.filter (a < f ·) := by
  induction l with
  | nil => rfl
  | cons x l ih =>
    rw [pairwise_cons] at h
    by_cases hx : f x = a
    · rw [dropWhile_cons_of_pos (by simpa using hx),
        filter_cons_of_neg (by simp only [decide_eq_true_eq]; omega)]
      exact ih h.2 fun y hy => hge y (mem_cons_of_mem _ hy)
    · rw [dropWhile_cons_of_neg (by simpa using hx), eq_comm, filter_eq_self]
      have hxa := hge x mem_cons_self
      intro y hy
      rw [decide_eq_true_eq]
      rcases mem_cons.1 hy with rfl | hy
      · omega
      · have := h.1 y hy
        omega

/-- The keys strictly between `a` and `a + 1 + n`, one after another. -/
theorem filter_between (h : l.Pairwise (f · ≤ f ·)) (a : Nat) : ∀ n,
    l.filter (fun x => a < f x ∧ f x < a + 1 + n) =
      (List.range' (a + 1) n).flatMap fun k => l.filter (f · = k)
  | 0 => by
    rw [List.range'_zero, flatMap_nil, filter_eq_nil_iff]
    intro x _
    simp only [decide_eq_true_eq]; omega
  | n + 1 => by
    rw [List.range'_concat, flatMap_append, ← filter_between h a n,
      ← filter_le_append_filter_lt (h.filter _) (a + n), filter_filter, filter_filter,
      flatMap_singleton]
    congr 1
    · apply filter_congr
      intro x _
      rw [← Bool.decide_and, decide_eq_decide]; omega
    · apply filter_congr
      intro x _
      rw [← Bool.decide_and, decide_eq_decide]; omega

end Keyed

end AtlasCex.Lib

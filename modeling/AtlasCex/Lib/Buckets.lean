import Mathlib.Algebra.BigOperators.Group.List.Basic
import Mathlib.Algebra.Order.Ring.Int
import Mathlib.Data.List.Induction
import Mathlib.Data.List.Nodup
/-!
# Maps that keep the order of insertion

A map as a list of pairs, in the order in which its keys first came: setting a key that is there keeps
its place. `group` folds a list into such a map, one value for each key.

* `lookup_upsert`, `nodup_upsert` — one write.
* `lookup_group` — a key's value is the fold over the elements of that key.
* `sum_group` — a sum over the groups is the sum over the elements, when each step adds to its group
  what the element is worth.
* `tally` — totals by key, `getD_lookup_tally`.
-/
namespace AtlasCex.Lib
open List

variable {α κ ν : Type} [DecidableEq κ]

/-- Set `k` to `f` of what it was. -/
def upsert (k : κ) (f : Option ν → ν) : List (κ × ν) → List (κ × ν)
  | [] => [(k, f none)]
  | (k', v) :: m => if k' = k then (k', f (some v)) :: m else (k', v) :: upsert k f m

variable {k : κ} {v : ν}

theorem lookup_cons_of_ne {k₀ : κ} {m : List (κ × ν)} (h : k ≠ k₀) :
    List.lookup k ((k₀, v) :: m) = m.lookup k := by
  rw [lookup_cons, beq_false_of_ne h]

theorem lookup_upsert (k k' : κ) (f : Option ν → ν) : ∀ m : List (κ × ν),
    (upsert k f m).lookup k' = if k' = k then some (f (m.lookup k)) else m.lookup k'
  | [] => by
    by_cases h : k' = k
    · simp [upsert, h]
    · rw [upsert, lookup_cons_of_ne h, if_neg h]
  | (k₀, v) :: m => by
    have ih := lookup_upsert k k' f m
    by_cases h₀ : k₀ = k
    · subst h₀
      by_cases h : k' = k₀
      · simp [upsert, h]
      · rw [upsert, if_pos rfl, lookup_cons_of_ne h, lookup_cons_of_ne h, if_neg h]
    · rw [upsert, if_neg h₀, lookup_cons_of_ne (Ne.symm h₀)]
      by_cases h : k' = k₀
      · subst h
        rw [lookup_cons_self, lookup_cons_self, if_neg h₀]
      · rw [lookup_cons_of_ne h, lookup_cons_of_ne h, ih]

theorem mem_of_lookup : ∀ {m : List (κ × ν)}, m.lookup k = some v → (k, v) ∈ m
  | (k₀, v₀) :: m, h => by
    by_cases h₀ : k = k₀
    · subst h₀
      rw [lookup_cons_self, Option.some_inj] at h
      rw [h]
      exact mem_cons_self
    · rw [lookup_cons_of_ne h₀] at h
      exact mem_cons_of_mem _ (mem_of_lookup h)

theorem lookup_of_mem : ∀ {m : List (κ × ν)}, (m.map Prod.fst).Nodup → (k, v) ∈ m →
    m.lookup k = some v
  | (k₀, v₀) :: m, hnd, h => by
    rw [map_cons, nodup_cons] at hnd
    obtain heq | hm := mem_cons.1 h
    · cases heq
      exact lookup_cons_self
    · have hne : k ≠ k₀ := fun heq => hnd.1 (mem_map.2 ⟨_, hm, heq⟩)
      rw [lookup_cons_of_ne hne]
      exact lookup_of_mem hnd.2 hm

theorem mem_keys_upsert {k' : κ} {f : Option ν → ν} : ∀ {m : List (κ × ν)},
    k' ∈ (upsert k f m).map Prod.fst ↔ k' = k ∨ k' ∈ m.map Prod.fst
  | [] => by simp [upsert]
  | (k₀, v) :: m => by
    have ih : k' ∈ (upsert k f m).map Prod.fst ↔ k' = k ∨ k' ∈ m.map Prod.fst := mem_keys_upsert
    by_cases h₀ : k₀ = k
    · subst h₀
      simp [upsert]
    · simp only [upsert, h₀, if_false, map_cons, mem_cons, ih]
      exact or_left_comm

theorem nodup_upsert {f : Option ν → ν} : ∀ {m : List (κ × ν)},
    (m.map Prod.fst).Nodup → ((upsert k f m).map Prod.fst).Nodup
  | [], _ => by simp [upsert]
  | (k₀, v) :: m, h => by
    rw [map_cons, nodup_cons] at h
    by_cases h₀ : k₀ = k
    · simpa [upsert, h₀] using h
    · have hfresh : k₀ ∉ (upsert k f m).map Prod.fst := by
        rw [mem_keys_upsert, not_or]
        exact ⟨h₀, h.1⟩
      rw [upsert, if_neg h₀, map_cons, nodup_cons]
      exact ⟨hfresh, nodup_upsert h.2⟩

theorem sum_upsert (g : ν → Int) (k : κ) (f : Option ν → ν) : ∀ m : List (κ × ν),
    (((upsert k f m).map Prod.snd).map g).sum =
      ((m.map Prod.snd).map g).sum + (g (f (m.lookup k)) - ((m.lookup k).map g).getD 0)
  | [] => by simp [upsert]
  | (k₀, v) :: m => by
    have ih := sum_upsert g k f m
    by_cases h₀ : k₀ = k
    · subst h₀
      simp only [upsert, if_true, map_cons, sum_cons, lookup_cons_self,
        Option.map_some, Option.getD_some]
      omega
    · simp only [upsert, h₀, if_false, map_cons, sum_cons, lookup_cons_of_ne (Ne.symm h₀), ih]
      omega

/-! ## Grouping a list -/

/-- One value for each key, from the elements of that key. -/
def group (key : α → κ) (step : Option ν → α → ν) (l : List α) : List (κ × ν) :=
  l.foldl (fun m a => upsert (key a) (step · a) m) []

section Group
variable {key : α → κ} {step : Option ν → α → ν}

theorem group_concat (l : List α) (a : α) :
    group key step (l ++ [a]) = upsert (key a) (step · a) (group key step l) := by
  simp [group]

theorem lookup_group (l : List α) (k : κ) : (group key step l).lookup k =
    (l.filter (key · = k)).foldl (fun v a => some (step v a)) none := by
  induction l using List.reverseRecOn with
  | nil => rfl
  | append_singleton l a ih =>
    rw [group_concat, lookup_upsert, filter_append]
    by_cases h : key a = k
    · simp [h, ih]
    · simp [h, Ne.symm h, ih]

variable {l : List α}

theorem exists_group (key : α → κ) (step : Option ν → α → ν) {a : α} (ha : a ∈ l) :
    ∃ v, (group key step l).lookup (key a) = some v := by
  have hmem : a ∈ l.filter (key · = key a) := mem_filter.2 ⟨ha, by simp⟩
  rw [lookup_group, ← dropLast_append_getLast (ne_nil_of_mem hmem), foldl_append]
  exact ⟨_, rfl⟩

theorem nodup_group (l : List α) : ((group key step l).map Prod.fst).Nodup := by
  induction l using List.reverseRecOn with
  | nil => exact nodup_nil
  | append_singleton l a ih =>
    rw [group_concat]
    exact nodup_upsert ih

/-- What every value has that an element wrote. -/
theorem group_forall {P : κ → ν → Prop} (hnew : ∀ a ∈ l, P (key a) (step none a))
    (hold : ∀ a ∈ l, ∀ v, P (key a) v → P (key a) (step (some v) a)) {k : κ} {v : ν}
    (h : (group key step l).lookup k = some v) : P k v := by
  induction l using List.reverseRecOn generalizing k v with
  | nil => cases h
  | append_singleton l a ih =>
    have ih' := @ih (fun b hb => hnew b (mem_append_left _ hb))
      (fun b hb => hold b (mem_append_left _ hb))
    rw [group_concat, lookup_upsert] at h
    split at h
    · rename_i hk
      subst hk
      cases h
      cases hv : (group key step l).lookup (key a) with
      | none => exact hnew a (by simp)
      | some v => exact hold a (by simp) v (ih' hv)
    · exact ih' h

theorem sum_group (P : κ → ν → Prop) {g : ν → Int} {worth : α → Int}
    (hnew : ∀ a ∈ l, P (key a) (step none a) ∧ g (step none a) = worth a)
    (hold : ∀ a ∈ l, ∀ v, P (key a) v →
      P (key a) (step (some v) a) ∧ g (step (some v) a) = g v + worth a) :
    (((group key step l).map Prod.snd).map g).sum = (l.map worth).sum := by
  induction l using List.reverseRecOn with
  | nil => rfl
  | append_singleton l a ih =>
    have hnew' := fun b (hb : b ∈ l) => hnew b (mem_append_left _ hb)
    have hold' := fun b (hb : b ∈ l) => hold b (mem_append_left _ hb)
    have hadds : g (step ((group key step l).lookup (key a)) a) -
        (((group key step l).lookup (key a)).map g).getD 0 = worth a := by
      cases hv : (group key step l).lookup (key a) with
      | none =>
        rw [Option.map_none, Option.getD_none, (hnew a (by simp)).2]
        omega
      | some v =>
        have hP := group_forall (fun b hb => (hnew' b hb).1) (fun b hb v hv => (hold' b hb v hv).1) hv
        rw [Option.map_some, Option.getD_some, (hold a (by simp) v hP).2]
        omega
    rw [group_concat, sum_upsert, ih hnew' hold', hadds]
    simp

end Group

/-! ## Adding up by key -/

/-- A total for each key. -/
def tally (key : α → κ) (worth : α → Int) (l : List α) : List (κ × Int) :=
  group key (fun total a => total.getD 0 + worth a) l

/-- A key that nothing has counts as zero. -/
theorem getD_lookup_tally (key : α → κ) (worth : α → Int) (l : List α) (k : κ) :
    ((tally key worth l).lookup k).getD 0 = ((l.filter (key · = k)).map worth).sum := by
  rw [tally, lookup_group]
  generalize l.filter (key · = k) = same
  induction same using List.reverseRecOn with
  | nil => rfl
  | append_singleton same a ih => simp [ih]

theorem tally_concat (key : α → κ) (worth : α → Int) (l : List α) (a : α) :
    tally key worth (l ++ [a]) = upsert (key a) (·.getD 0 + worth a) (tally key worth l) :=
  group_concat l a

end AtlasCex.Lib

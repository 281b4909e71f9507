import Mathlib.Algebra.Order.BigOperators.Group.List
import Mathlib.Algebra.Order.Ring.Int
/-!
# Charging in parts

A charge is a rate times a weight over a scale, rounded down. Charged part by part, each part
rounded on its own at a rate of its own, the parts never come to more than the whole charged once
at the highest rate (`sum_floor_le`).
-/
namespace AtlasCex.Lib

variable {α : Type} {d : Int}

theorem sum_ediv_le (hd : 0 < d) (f : α → Int) (l : List α) :
    (l.map fun a => f a / d).sum ≤ (l.map f).sum / d := by
  induction l with
  | nil => simp
  | cons a l ih =>
    rw [List.map_cons, List.sum_cons, List.map_cons, List.sum_cons, Int.le_ediv_iff_mul_le hd,
      Int.add_mul]
    have hhead : f a / d * d ≤ f a := Int.ediv_mul_le _ (by omega)
    have htail : (l.map fun a => f a / d).sum * d ≤ (l.map f).sum :=
      (Int.le_ediv_iff_mul_le hd).1 ih
    omega

variable {rate weight : α → Int} {bound : Int} {l : List α}

theorem sum_mul_le (hrate : ∀ a ∈ l, rate a ≤ bound) (hweight : ∀ a ∈ l, 0 ≤ weight a) :
    (l.map fun a => rate a * weight a).sum ≤ bound * (l.map weight).sum := by
  induction l with
  | nil => simp
  | cons a l ih =>
    have hhead : rate a * weight a ≤ bound * weight a :=
      Int.mul_le_mul_of_nonneg_right (hrate a (by simp)) (hweight a (by simp))
    have htail := ih (fun b hb => hrate b (by simp [hb])) (fun b hb => hweight b (by simp [hb]))
    simp only [List.map_cons, List.sum_cons, Int.mul_add]
    omega

theorem sum_floor_le (hd : 0 < d) {total : Int}
    (hbound : 0 ≤ bound) (hrate : ∀ a ∈ l, rate a ≤ bound) (hweight : ∀ a ∈ l, 0 ≤ weight a)
    (htotal : (l.map weight).sum ≤ total) :
    (l.map fun a => rate a * weight a / d).sum ≤ bound * total / d := by
  calc (l.map fun a => rate a * weight a / d).sum
      ≤ (l.map fun a => rate a * weight a).sum / d := sum_ediv_le hd _ l
    _ ≤ bound * (l.map weight).sum / d := Int.ediv_le_ediv hd (sum_mul_le hrate hweight)
    _ ≤ bound * total / d := Int.ediv_le_ediv hd (Int.mul_le_mul_of_nonneg_left htotal hbound)

/-- One part is at most the whole. -/
theorem floor_le (hd : 0 < d) {total : Int}
    (hbound : 0 ≤ bound) (hrate : ∀ a ∈ l, rate a ≤ bound) (hweight : ∀ a ∈ l, 0 ≤ weight a)
    (htotal : (l.map weight).sum ≤ total) {a : α} (ha : a ∈ l) :
    rate a * weight a / d ≤ bound * total / d := by
  have hpart : weight a ≤ (l.map weight).sum := by
    apply List.single_le_sum
    · intro w hw
      obtain ⟨b, hb, rfl⟩ := List.mem_map.1 hw
      exact hweight b hb
    · exact List.mem_map_of_mem ha
  apply Int.ediv_le_ediv hd
  calc rate a * weight a ≤ bound * weight a :=
        Int.mul_le_mul_of_nonneg_right (hrate a ha) (hweight a ha)
    _ ≤ bound * total := Int.mul_le_mul_of_nonneg_left (by omega) hbound

end AtlasCex.Lib

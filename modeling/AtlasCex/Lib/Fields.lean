import Mathlib.Data.List.Basic
import Mathlib.Data.List.DropRight
import Mathlib.Algebra.Order.BigOperators.Group.List
import Mathlib.Algebra.Order.Ring.Nat
/-!
# Fields joined by a separator

A record written as its fields with a separator between them can be read back only if the fields do
not contain it. `joinFields_inj` needs that of one of the two records: with as many fields on both
sides, the separators of the other are then all used up. Where a field may contain the separator,
what stands before it and after it still fixes it (`last_field`). `trimText` is JavaScript's `trim`.
-/
namespace AtlasCex.Lib
open List

variable {α : Type} {sep : α}

def joinFields (sep : α) : List (List α) → List α
  | [] => []
  | [f] => f
  | f :: g :: rest => f ++ sep :: joinFields sep (g :: rest)

theorem first_field : ∀ {a a' b b' : List α}, sep ∉ a → sep ∉ a' →
    a ++ sep :: b = a' ++ sep :: b' → a = a' ∧ b = b'
  | [], [], _, _, _, _, h => ⟨rfl, (List.cons.inj h).2⟩
  | [], x :: a', _, _, _, h', h => by
    have hx : sep = x := (List.cons.inj h).1
    exact absurd (hx ▸ mem_cons_self) h'
  | x :: a, [], _, _, ha, _, h => by
    have hx : x = sep := (List.cons.inj h).1
    exact absurd (hx ▸ mem_cons_self) ha
  | x :: a, y :: a', _, _, ha, ha', h => by
    obtain ⟨rfl, hrest⟩ := List.cons.inj h
    obtain ⟨rfl, rfl⟩ := first_field (fun hc => ha (mem_cons_of_mem _ hc))
      (fun hc => ha' (mem_cons_of_mem _ hc)) hrest
    exact ⟨rfl, rfl⟩

theorem last_field {a a' b b' : List α} (hb : sep ∉ b) (hb' : sep ∉ b')
    (h : a ++ sep :: b = a' ++ sep :: b') : a = a' ∧ b = b' := by
  have hrev := congrArg List.reverse h
  simp only [reverse_append, reverse_cons, append_assoc, singleton_append]
    at hrev
  obtain ⟨h1, h2⟩ := first_field (by simpa using hb) (by simpa using hb') hrev
  exact ⟨reverse_injective h2, reverse_injective h1⟩

theorem joinFields_inj_of_free : ∀ {fs gs : List (List α)}, fs.length = gs.length →
    (∀ f ∈ fs, sep ∉ f) → (∀ g ∈ gs, sep ∉ g) → joinFields sep fs = joinFields sep gs → fs = gs
  | [], [], _, _, _, _ => rfl
  | [], _ :: _, hlen, _, _, _ => by cases hlen
  | _ :: _, [], hlen, _, _, _ => by cases hlen
  | [f], [g], _, _, _, h => by simpa [joinFields] using h
  | [_], _ :: _ :: _, hlen, _, _, _ => by simp at hlen
  | _ :: _ :: _, [_], hlen, _, _, _ => by simp at hlen
  | f :: f' :: fs, g :: g' :: gs, hlen, hf, hg, h => by
    obtain ⟨rfl, hrest⟩ := first_field (hf f mem_cons_self) (hg g mem_cons_self) h
    rw [joinFields_inj_of_free (by simpa using hlen)
      (fun x hx => hf x (mem_cons_of_mem _ hx)) (fun x hx => hg x (mem_cons_of_mem _ hx))
      hrest]

section Counting

variable [DecidableEq α]

theorem count_joinFields : ∀ (f : List α) (fs : List (List α)),
    (joinFields sep (f :: fs)).count sep = fs.length + ((f :: fs).map (List.count sep)).sum
  | f, [] => by simp [joinFields]
  | f, g :: fs => by
    rw [joinFields, count_append, count_cons_self, count_joinFields g fs]
    simp only [map_cons, sum_cons, length_cons]
    omega

/-- With as many fields on both sides and no separator in those of one, there is none in those of
the other. -/
theorem separator_free {fs gs : List (List α)} (hlen : fs.length = gs.length)
    (hfree : ∀ f ∈ fs, sep ∉ f) (h : joinFields sep fs = joinFields sep gs) :
    ∀ g ∈ gs, sep ∉ g := by
  cases fs with
  | nil =>
    rw [length_eq_zero_iff.1 hlen.symm]
    nofun
  | cons f fs =>
  cases gs with
  | nil => cases hlen
  | cons g gs =>
    have hzero : ((f :: fs).map (List.count sep)).sum = 0 := by
      rw [sum_eq_zero_iff]
      intro n hn
      obtain ⟨x, hx, rfl⟩ := mem_map.1 hn
      exact count_eq_zero.2 (hfree x hx)
    have hcount := congrArg (List.count sep) h
    rw [count_joinFields, count_joinFields, hzero] at hcount
    have hsum : ((g :: gs).map (List.count sep)).sum = 0 := by
      simp only [length_cons] at hlen
      omega
    intro x hx
    rw [sum_eq_zero_iff] at hsum
    exact count_eq_zero.1 (hsum _ (mem_map_of_mem hx))

theorem joinFields_inj {fs gs : List (List α)} (hlen : fs.length = gs.length)
    (hfree : ∀ f ∈ fs, sep ∉ f) (h : joinFields sep fs = joinFields sep gs) : fs = gs :=
  joinFields_inj_of_free hlen hfree (separator_free hlen hfree h) h

end Counting

/-! ## Trimming -/

/-- White space and line terminators. -/
def isTrimmed (c : Char) : Bool :=
  [0x9, 0xA, 0xB, 0xC, 0xD, 0x20, 0xA0, 0x1680, 0x2000, 0x2001, 0x2002, 0x2003, 0x2004, 0x2005,
    0x2006, 0x2007, 0x2008, 0x2009, 0x200A, 0x2028, 0x2029, 0x202F, 0x205F, 0x3000, 0xFEFF].contains
    c.toNat

def trimText (text : List Char) : List Char := (text.dropWhile isTrimmed).rdropWhile isTrimmed

end AtlasCex.Lib

import Mathlib.Data.List.Basic
import Mathlib.Algebra.Ring.Int.Defs
import Mathlib.Algebra.Ring.Nat
/-!
# Byte formats

A format writes a value as bytes and reads one off the front of a list of bytes. What it writes it
reads back, whatever comes after, for every value that fits (`get_put`). Formats are built from
fixed-width integers by `pair`, `times`, `option`, length-prefixed `bytes`, and `via`, which
writes a value of one type as one of another.
-/
namespace AtlasCex.Lib
open List

structure Format (α : Type) where
  put : α → List UInt8
  get : List UInt8 → Option (α × List UInt8)
  Fits : α → Prop
  get_put : ∀ a rest, Fits a → get (put a ++ rest) = some (a, rest)

namespace Format

variable {α β : Type}

/-! ## Integers -/

def putUint : Nat → Nat → List UInt8
  | 0, _ => []
  | width + 1, n => UInt8.ofNat n :: putUint width (n / 256)

def getUint : Nat → List UInt8 → Option (Nat × List UInt8)
  | 0, rest => some (0, rest)
  | _ + 1, [] => none
  | width + 1, b :: rest => (getUint width rest).map fun (n, rest) => (b.toNat + 256 * n, rest)

theorem length_putUint (width n : Nat) : (putUint width n).length = width := by
  induction width generalizing n with
  | zero => rfl
  | succ width ih => rw [putUint, length_cons, ih]

theorem getUint_putUint (width n : Nat) (rest : List UInt8) (h : n < 256 ^ width) :
    getUint width (putUint width n ++ rest) = some (n, rest) := by
  induction width generalizing n with
  | zero =>
    have : n = 0 := by simpa using h
    subst this; rfl
  | succ width ih =>
    have hdiv : n / 256 < 256 ^ width := by
      rw [Nat.div_lt_iff_lt_mul (by omega), ← Nat.pow_succ]
      exact h
    rw [putUint, cons_append, getUint, ih _ hdiv]
    simp only [Option.map_some, UInt8.toNat_ofNat', Option.some.injEq, Prod.mk.injEq, and_true]
    omega

variable {width : Nat}

/-- Too few bytes to read. -/
theorem getUint_short {bytes : List UInt8} (h : bytes.length < width) :
    getUint width bytes = none := by
  induction width generalizing bytes with
  | zero => cases h
  | succ width ih =>
    cases bytes with
    | nil => rfl
    | cons b rest => rw [getUint, ih (by simpa using h)]; rfl

variable {rest : List UInt8}

theorem length_getUint {n : Nat} {bytes : List UInt8}
    (h : getUint width bytes = some (n, rest)) : bytes.length = width + rest.length := by
  induction width generalizing bytes n with
  | zero => cases h; simp
  | succ width ih =>
    cases bytes with
    | nil => cases h
    | cons b bytes =>
      rw [getUint, Option.map_eq_some_iff] at h
      obtain ⟨⟨m, rest'⟩, hm, he⟩ := h
      cases he
      have := ih hm
      simp only [length_cons]
      omega

/-- `width` bytes, least significant first. -/
def uint (width : Nat) : Format Nat where
  put := putUint width
  get := getUint width
  Fits n := n < 256 ^ width
  get_put n rest h := getUint_putUint width n rest h

/-- `width` bytes, most significant first. -/
def uintBE (width : Nat) : Format Nat where
  put n := (putUint width n).reverse
  get bytes :=
    if width ≤ bytes.length then
      (getUint width (bytes.take width).reverse).map fun (n, _) => (n, bytes.drop width)
    else none
  Fits n := n < 256 ^ width
  get_put n rest h := by
    have hlength : (putUint width n).reverse.length = width := by
      rw [length_reverse, length_putUint]
    have hread := getUint_putUint width n [] h
    rw [append_nil] at hread
    rw [if_pos (by rw [length_append, hlength]; exact Nat.le_add_right ..),
      take_left' hlength, drop_left' hlength, reverse_reverse, hread, Option.map_some]

/-! ## Composites -/

/-- What is written says where it ends and what it was. -/
theorem put_inj (f : Format α) {a b : α} {rest' : List UInt8} (ha : f.Fits a) (hb : f.Fits b)
    (h : f.put a ++ rest = f.put b ++ rest') : a = b ∧ rest = rest' := by
  have hread := f.get_put a rest ha
  rw [h, f.get_put b rest' hb] at hread
  cases hread
  exact ⟨rfl, rfl⟩

def pair (f : Format α) (g : Format β) : Format (α × β) where
  put ab := f.put ab.1 ++ g.put ab.2
  get bytes := (f.get bytes).bind fun (a, rest) => (g.get rest).map fun (b, rest) => ((a, b), rest)
  Fits ab := f.Fits ab.1 ∧ g.Fits ab.2
  get_put ab rest h := by
    simp only [append_assoc, f.get_put _ _ h.1, Option.bind_some, g.get_put _ _ h.2,
      Option.map_some]

/-- Write a `β` as an `α`; what is read may turn out not to be one. -/
def via (f : Format α) (to_ : β → α) (of : α → Option β) (Ok : β → Prop)
    (h : ∀ b, Ok b → of (to_ b) = some b) : Format β where
  put b := f.put (to_ b)
  get bytes := (f.get bytes).bind fun (a, rest) => (of a).map fun b => (b, rest)
  Fits b := Ok b ∧ f.Fits (to_ b)
  get_put b rest hb := by
    simp only [f.get_put _ _ hb.2, Option.bind_some, h b hb.1, Option.map_some]

/-- A byte that says whether a value follows. -/
def option (f : Format α) : Format (Option α) where
  put
    | none => [0]
    | some a => 1 :: f.put a
  get
    | 0 :: rest => some (none, rest)
    | 1 :: rest => (f.get rest).map fun (a, rest) => (some a, rest)
    | _ => none
  Fits o := ∀ a, o = some a → f.Fits a
  get_put o rest h := by
    cases o with
    | none => rfl
    | some a =>
      rw [cons_append]
      simp only [f.get_put a rest (h a rfl), Option.map_some]

/-- As many bytes as the number before them says. -/
def bytes (length : Format Nat) : Format (List UInt8) where
  put l := length.put l.length ++ l
  get all := (length.get all).bind fun (n, rest) =>
    if n ≤ rest.length then some (rest.take n, rest.drop n) else none
  Fits l := length.Fits l.length
  get_put l rest h := by
    rw [append_assoc, length.get_put _ _ h, Option.bind_some]
    simp

def getTimes (f : Format α) : Nat → List UInt8 → Option (List α × List UInt8)
  | 0, rest => some ([], rest)
  | count + 1, bytes => (f.get bytes).bind fun (a, rest) =>
    (getTimes f count rest).map fun (l, rest) => (a :: l, rest)

/-- So many values, one after the other. -/
def times (f : Format α) (count : Nat) : Format (List α) where
  put l := l.flatMap f.put
  get := getTimes f count
  Fits l := l.length = count ∧ ∀ a ∈ l, f.Fits a
  get_put l rest h := by
    obtain ⟨rfl, hfits⟩ := h
    induction l with
    | nil => rfl
    | cons a l ih =>
      rw [flatMap_cons, append_assoc, length_cons, getTimes,
        f.get_put _ _ (hfits a mem_cons_self), Option.bind_some]
      simp only [ih fun b hb => hfits b (mem_cons_of_mem a hb), Option.map_some]

/-- One of a list of values, as its place in the list. -/
def enum [DecidableEq α] (index : Format Nat) (values : List α) : Format α :=
  via index (fun a => values.idxOf a) (fun n => values[n]?) (· ∈ values)
    (fun _ ha => getElem?_idxOf ha)

/-- UTF-8, after its length in bytes. -/
def utf8 (length : Format Nat) : Format String :=
  via (bytes length) (fun s => s.toUTF8.data.toList) (fun l => String.fromUTF8? ⟨l.toArray⟩)
    (fun _ => True) (fun s _ => by
      simp only [String.fromUTF8?, Array.toArray_toList]
      exact dif_pos s.isValidUTF8)

end Format

/-- Blocks of the same lengths, one after the other, are equal one by one. -/
theorem flatMap_eq_flatMap {α β : Type} {f g : α → List β} (hlength : ∀ a, (f a).length = (g a).length)
    {l : List α} (h : l.flatMap f = l.flatMap g) : ∀ a ∈ l, f a = g a := by
  induction l with
  | nil => exact fun a ha => absurd ha not_mem_nil
  | cons b l ih =>
    obtain ⟨hhead, hrest⟩ := append_inj h (hlength b)
    intro a ha
    rcases mem_cons.1 ha with rfl | ha
    · exact hhead
    · exact ih hrest a ha

end AtlasCex.Lib

import Mathlib.Data.List.Infix
/-!
# Logs that play a script

A writer delivers the items of a script at least once: it may go back and deliver some again, but
it never goes past one it has not delivered. `Plays script m log` says the log so far is such a
delivery and has reached the first `m` items. The script may grow while it is played.
-/
namespace AtlasCex.Lib
open List

section
variable {α : Type}

inductive Plays (script : List α) : Nat → List α → Prop where
  | nil : Plays script 0 []
  | again {m j : Nat} {log : List α} {x : α} : Plays script m log → j < m →
    script[j]? = some x → Plays script m (log ++ [x])
  | next {m : Nat} {log : List α} {x : α} : Plays script m log →
    script[m]? = some x → Plays script (m + 1) (log ++ [x])

variable {script script' log : List α} {m : Nat}

theorem Plays.mono (h : Plays script m log) (hpre : script <+: script') :
    Plays script' m log := by
  obtain ⟨more, rfl⟩ := hpre
  have hget : ∀ {j : Nat} {x : α}, script[j]? = some x → (script ++ more)[j]? = some x := by
    intro j x hx
    obtain ⟨hlt, -⟩ := List.getElem?_eq_some_iff.1 hx
    rw [List.getElem?_append_left hlt, hx]
  induction h with
  | nil => exact .nil
  | again _ hj hx ih => exact ih.again hj (hget hx)
  | next _ hx ih => exact ih.next (hget hx)

variable {x : α}

theorem mem_take_of_getElem? {j : Nat} (hj : j < m) (hx : script[j]? = some x) :
    x ∈ script.take m :=
  mem_of_getElem? (by rw [getElem?_take_of_lt hj, hx])

/-- What has been delivered is what has been reached. -/
theorem Plays.mem_iff (h : Plays script m log) : x ∈ log ↔ x ∈ script.take m := by
  induction h with
  | nil => simp
  | @again m j log y _ hj hy ih =>
    rw [mem_append, ih, mem_singleton]
    constructor
    · rintro (hx | rfl)
      · exact hx
      · exact mem_take_of_getElem? hj hy
    · exact .inl
  | @next m log y _ hy ih =>
    rw [mem_append, ih, mem_singleton]
    obtain ⟨hlt, rfl⟩ := List.getElem?_eq_some_iff.1 hy
    rw [List.take_succ_eq_append_getElem hlt, List.mem_append, List.mem_singleton]

/-- Deliver the item at a place already reached, or the one right after. -/
theorem Plays.emit {pre post : List α} (h : Plays (pre ++ x :: post) m log) (hle : pre.length ≤ m) :
    ∃ m', m ≤ m' ∧ pre.length + 1 ≤ m' ∧ Plays (pre ++ x :: post) m' (log ++ [x]) := by
  have hx : (pre ++ x :: post)[pre.length]? = some x := by simp
  rcases Nat.lt_or_ge pre.length m with hlt | hge
  · exact ⟨m, Nat.le_refl m, hlt, h.again hlt hx⟩
  · have : m = pre.length := by omega
    subst this
    exact ⟨_, Nat.le_succ _, Nat.le_refl _, h.next hx⟩

/-- Whatever stands in the log for the first time comes after everything before it. -/
def FirstsInOrder (r : α → α → Prop) (log : List α) : Prop :=
  ∀ pre x, pre ++ [x] <+: log → x ∉ pre → ∀ y ∈ pre, r y x

/-- A script in order is delivered in order, repetitions apart. -/
theorem Plays.firstsInOrder {r : α → α → Prop} (h : Plays script m log)
    (hsorted : script.Pairwise r) : FirstsInOrder r log := by
  induction h with
  | nil => intro pre x hpre; simp at hpre
  | @again m j log z h hj hz ih =>
    intro pre x hpre hfirst
    rcases prefix_concat_iff.1 hpre with heq | hpre
    · -- what is delivered again is in the log already
      obtain ⟨rfl, hzx⟩ := append_inj' heq rfl
      cases hzx
      exact absurd (h.mem_iff.2 (mem_take_of_getElem? hj hz)) hfirst
    · exact ih pre x hpre hfirst
  | @next m log z h hz ih =>
    intro pre x hpre hfirst
    rcases prefix_concat_iff.1 hpre with heq | hpre
    · obtain ⟨rfl, hzx⟩ := append_inj' heq rfl
      cases hzx
      intro y hy
      obtain ⟨hlt, rfl⟩ := List.getElem?_eq_some_iff.1 hz
      have hsplit := List.take_append_drop m script
      rw [drop_eq_getElem_cons hlt] at hsplit
      rw [← hsplit, pairwise_append] at hsorted
      exact hsorted.2.2 y (h.mem_iff.1 hy) _ mem_cons_self
    · exact ih pre x hpre hfirst

end

end AtlasCex.Lib

import Mathlib.Data.List.Infix
/-!
# Loops, transducers and guarded steps

Three shapes of step after step, each with the rule that takes what one step does to what a whole
run does.

* `loop` — a `loop { .. break .. }` with fuel: `loop_sim` carries a simulation through it,
  `loop_induct` an invariant, `loop_halts` shows a decreasing measure is enough fuel.
* `run` — a deterministic machine over a list of inputs, with outputs: `run_induct`, `run_sim`.
* `exec` — a machine whose steps may be disabled, over a schedule of labels: `exec_inv`, with a
  condition every step of the schedule meets (`Along`), `exec_always` with none; `Reaches` when some
  schedule leads from one state to another.
-/
namespace AtlasCex.Lib
open List

/-! ## Loops -/

section Loop
variable {α β : Type}

/-- One turn of a loop: break with a state, or go round again with one. -/
inductive Turn (α : Type) where
  | stop (a : α)
  | again (a : α)

def Turn.val : Turn α → α
  | .stop a => a
  | .again a => a

/-- Two turns that end the same way, in related states. -/
inductive Turn.Rel (R : α → β → Prop) : Turn α → Turn β → Prop where
  | stop {a : α} {b : β} : R a b → Turn.Rel R (.stop a) (.stop b)
  | again {a : α} {b : β} : R a b → Turn.Rel R (.again a) (.again b)

def loop (turn : α → Turn α) : Nat → α → α
  | 0, a => a
  | fuel + 1, a =>
    match turn a with
    | .stop a => a
    | .again a => loop turn fuel a

theorem loop_sim {R : α → β → Prop} {f : α → Turn α} {g : β → Turn β}
    (h : ∀ a b, R a b → Turn.Rel R (f a) (g b)) :
    ∀ (fuel : Nat) {a : α} {b : β}, R a b → R (loop f fuel a) (loop g fuel b)
  | 0, _, _, hab => hab
  | fuel + 1, a, b, hab => by
    have hturn := h a b hab
    simp only [loop]
    generalize f a = ta at hturn
    generalize g b = tb at hturn
    cases hturn with
    | stop hr => exact hr
    | again hr => exact loop_sim h fuel hr

theorem loop_induct {P : α → Prop} {turn : α → Turn α} (h : ∀ a, P a → P (turn a).val) :
    ∀ (fuel : Nat) {a : α}, P a → P (loop turn fuel a)
  | 0, _, ha => ha
  | fuel + 1, a, ha => by
    have hturn := h a ha
    simp only [loop]
    cases ht : turn a with
    | stop b => rw [ht] at hturn; exact hturn
    | again b => rw [ht] at hturn; exact loop_induct h fuel hturn

/-- A measure that falls at every turn that goes round: more fuel than that, and the loop ended
on a turn that broke. -/
theorem loop_halts {P : α → Prop} {m : α → Nat} {turn : α → Turn α}
    (hagain : ∀ a a', P a → turn a = .again a' → P a' ∧ m a' < m a) :
    ∀ (fuel : Nat) {a : α}, P a → m a < fuel → ∃ b, P b ∧ turn b = .stop (loop turn fuel a)
  | 0, _, _, hlt => absurd hlt (Nat.not_lt_zero _)
  | fuel + 1, a, ha, hlt => by
    simp only [loop]
    cases ht : turn a with
    | stop b => exact ⟨a, ha, by rw [ht]⟩
    | again b =>
      obtain ⟨hb, hlt'⟩ := hagain a b ha ht
      exact loop_halts hagain fuel hb (by omega)

end Loop

/-! ## Transducers -/

section Run
variable {σ τ ι ο : Type}

/-- Feed a list of inputs: the output of each, and the state they leave. -/
def run (step : σ → ι → ο × σ) : σ → List ι → List ο × σ
  | s, [] => ([], s)
  | s, i :: is =>
    let r := step s i
    let rest := run step r.2 is
    (r.1 :: rest.1, rest.2)

theorem run_append (step : σ → ι → ο × σ) :
    ∀ (s : σ) (is js : List ι), run step s (is ++ js) =
      ((run step s is).1 ++ (run step (run step s is).2 js).1, (run step (run step s is).2 js).2)
  | _, [], _ => rfl
  | s, i :: is, js => by
    simp only [cons_append, run, run_append step (step s i).2 is js]

theorem run_concat (step : σ → ι → ο × σ) (s : σ) (is : List ι) (i : ι) :
    run step s (is ++ [i]) =
      ((run step s is).1 ++ [(step (run step s is).2 i).1], (step (run step s is).2 i).2) := by
  rw [run_append]; rfl

theorem run_length (step : σ → ι → ο × σ) :
    ∀ (s : σ) (is : List ι), (run step s is).1.length = is.length
  | _, [] => rfl
  | s, i :: is => by simp [run, run_length step (step s i).2 is]

/-- An invariant that may speak of the inputs consumed so far. A step starts where the inputs
before it led, so what is already known of that state may be used. -/
theorem run_induct {step : σ → ι → ο × σ} {s : σ} {l : List ι} {I : List ι → σ → Prop} (h0 : I [] s)
    (hstep : ∀ pre i, pre ++ [i] <+: l → I pre (run step s pre).2 →
      I (pre ++ [i]) (step (run step s pre).2 i).2) :
    ∀ pre, pre <+: l → I pre (run step s pre).2 := by
  intro pre
  induction pre using List.reverseRecOn with
  | nil => intro _; exact h0
  | append_singleton pre i ih =>
    intro hpre
    rw [run_concat]
    exact hstep pre i hpre (ih ((prefix_append _ _).trans hpre))

/-- Related machines give the same outputs and stay related. -/
theorem run_sim {f : σ → ι → ο × σ} {g : τ → ι → ο × τ} {s : σ} {t : τ} {l : List ι}
    {R : List ι → σ → τ → Prop} (h0 : R [] s t)
    (hstep : ∀ pre i a b, pre ++ [i] <+: l → R pre a b →
      (f a i).1 = (g b i).1 ∧ R (pre ++ [i]) (f a i).2 (g b i).2) :
    ∀ pre, pre <+: l →
      (run f s pre).1 = (run g t pre).1 ∧ R pre (run f s pre).2 (run g t pre).2 := by
  intro pre
  induction pre using List.reverseRecOn with
  | nil => intro _; exact ⟨rfl, h0⟩
  | append_singleton pre i ih =>
    intro hpre
    obtain ⟨hout, hrel⟩ := ih ((prefix_append _ _).trans hpre)
    obtain ⟨hout', hrel'⟩ := hstep pre i _ _ hpre hrel
    rw [run_concat, run_concat]
    exact ⟨by simp only [hout, hout'], hrel'⟩

end Run

/-! ## Guarded steps -/

section Exec
variable {σ ι : Type}

/-- Run a schedule of labels; `none` when one of them is not enabled where it comes. -/
def exec (step : σ → ι → Option σ) : σ → List ι → Option σ
  | s, [] => some s
  | s, i :: is => (step s i).bind fun t => exec step t is

theorem exec_append (step : σ → ι → Option σ) : ∀ (s : σ) (is js : List ι),
    exec step s (is ++ js) = (exec step s is).bind fun t => exec step t js
  | _, [], _ => rfl
  | s, i :: is, js => by
    simp only [cons_append, exec]
    cases step s i with
    | none => rfl
    | some t => exact exec_append step t is js

theorem exec_concat (step : σ → ι → Option σ) (s : σ) (is : List ι) (i : ι) :
    exec step s (is ++ [i]) = (exec step s is).bind fun t => step t i := by
  rw [exec_append]
  cases exec step s is with
  | none => rfl
  | some t =>
    simp only [exec, Option.bind_some]
    cases step t i <;> rfl

/-- Every step of the schedule meets `Ok` in the state it is taken from. -/
def Along (step : σ → ι → Option σ) (Ok : σ → ι → Prop) (s : σ) (is : List ι) : Prop :=
  ∀ pre i t, pre ++ [i] <+: is → exec step s pre = some t → Ok t i

variable {step : σ → ι → Option σ} {Ok : σ → ι → Prop} {I : σ → Prop} {s t u : σ} {i : ι}
  {is js : List ι}

theorem Along.of_append (h : Along step Ok s (is ++ js)) : Along step Ok s is :=
  fun pre i t hpre => h pre i t (hpre.trans (prefix_append _ _))

theorem Along.of_exec
    (h : Along step Ok s (is ++ js)) (ht : exec step s is = some t) : Along step Ok t js := by
  intro pre i u hpre hu
  refine h (is ++ pre) i u ?_ ?_
  · rw [append_assoc]
    exact (prefix_append_right_inj is).2 hpre
  · rw [exec_append, ht, Option.bind_some, hu]

theorem Along.nil : Along step Ok s [] := by
  intro pre i t hpre
  simp at hpre

theorem Along.cons (h : Ok s i) (h' : ∀ t, step s i = some t → Along step Ok t is) :
    Along step Ok s (i :: is) := by
  intro pre j t hpre ht
  cases pre with
  | nil =>
    cases ht
    rw [nil_append, cons_prefix_cons] at hpre
    rw [hpre.1]; exact h
  | cons k pre =>
    rw [cons_append, cons_prefix_cons] at hpre
    obtain ⟨rfl, hpre⟩ := hpre
    obtain ⟨t₀, ht₀, ht⟩ := Option.bind_eq_some_iff.1 ht
    exact h' t₀ ht₀ pre j t hpre ht

theorem Along.append
    (h : Along step Ok s is) (h' : ∀ t, exec step s is = some t → Along step Ok t js) :
    Along step Ok s (is ++ js) := by
  induction is generalizing s with
  | nil => exact h' s rfl
  | cons i is ih =>
    refine .cons (h [] i s (by simp) rfl) fun t ht => ih ?_ ?_
    · intro pre j u hpre hu
      exact h (i :: pre) j u (by simpa using hpre) (by simp only [exec, ht, Option.bind_some, hu])
    · intro u hu
      exact h' u (by simp only [exec, ht, Option.bind_some, hu])

theorem along_cons_iff :
    Along step Ok s (i :: is) ↔ Ok s i ∧ ∀ t ∈ step s i, Along step Ok t is := by
  constructor
  · intro h
    refine ⟨h [] i s (by simp) rfl, fun t ht pre j u hpre hu => ?_⟩
    exact h (i :: pre) j u (by simpa using hpre) (by rw [exec, ht, Option.bind_some, hu])
  · rintro ⟨h, h'⟩
    exact .cons h h'

/-- A condition that can be decided step by step can be decided of a schedule. -/
instance decidableAlong
    [∀ s i, Decidable (Ok s i)] : ∀ s is, Decidable (Along step Ok s is)
  | _, [] => isTrue .nil
  | _, _ :: is =>
    have (t : σ) : Decidable (Along step Ok t is) := decidableAlong t is
    decidable_of_iff _ along_cons_iff.symm

/-- Labels that meet `Ok` in any state. -/
theorem Along.of_forall (h : ∀ i ∈ is, ∀ t, Ok t i) : Along step Ok s is :=
  fun pre i t hpre _ => h i (hpre.subset (by simp)) t

/-- What holds at the start and is kept by every step that meets `Ok` holds in every state a
schedule of such steps reaches. -/
theorem exec_inv (h0 : I s) (hstep : ∀ t i t', I t → Ok t i → step t i = some t' → I t') :
    ∀ {is : List ι} {t : σ}, Along step Ok s is → exec step s is = some t → I t := by
  intro is
  induction is using List.reverseRecOn with
  | nil => rintro t - ⟨⟩; exact h0
  | append_singleton is i ih =>
    intro t hok ht
    rw [exec_concat] at ht
    obtain ⟨t₀, ht₀, hlast⟩ := Option.bind_eq_some_iff.1 ht
    exact hstep t₀ i t (ih hok.of_append ht₀) (hok is i t₀ prefix_rfl ht₀) hlast

/-- The same, of every schedule. -/
theorem exec_always (h0 : I s)
    (hstep : ∀ t i t', I t → step t i = some t' → I t') (h : exec step s is = some t) : I t := by
  have hok : Along step (fun _ _ => True) s is := fun _ _ _ _ _ => trivial
  exact exec_inv h0 (fun t i t' ht _ => hstep t i t' ht) hok h

/-- One state leads to another by steps that all meet `Ok`. -/
def Reaches (step : σ → ι → Option σ) (Ok : σ → ι → Prop) (s t : σ) : Prop :=
  ∃ is, exec step s is = some t ∧ Along step Ok s is

theorem Reaches.refl (s : σ) : Reaches step Ok s s :=
  ⟨[], rfl, .nil⟩

theorem Reaches.one (h : Ok s i) (hstep : step s i = some t) : Reaches step Ok s t :=
  ⟨[i], by simp only [exec, hstep, Option.bind_some], .cons h fun _ _ => .nil⟩

theorem Reaches.trans
    (h : Reaches step Ok s t) (h' : Reaches step Ok t u) : Reaches step Ok s u := by
  obtain ⟨is, his, hok⟩ := h
  obtain ⟨js, hjs, hok'⟩ := h'
  refine ⟨is ++ js, by rw [exec_append, his, Option.bind_some, hjs], hok.append fun t' ht' => ?_⟩
  rw [his] at ht'
  cases ht'
  exact hok'

/-- What every such step keeps is kept on the way. -/
theorem Reaches.keeps (h : Reaches step Ok s t) (h0 : I s)
    (hstep : ∀ t i t', I t → Ok t i → step t i = some t' → I t') : I t := by
  obtain ⟨is, his, hok⟩ := h
  exact exec_inv h0 hstep hok his

/-- A schedule of fixed labels, evaluated. -/
theorem exec_reaches {P : σ → Prop}
    [DecidablePred P] (h : (exec step s is).any (fun t => decide (P t)) = true) :
    ∃ t, exec step s is = some t ∧ P t := by
  obtain ⟨t, ht, hp⟩ := (Option.any_eq_true _ _).1 h
  exact ⟨t, ht, of_decide_eq_true hp⟩

end Exec

end AtlasCex.Lib

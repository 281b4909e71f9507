import Mathlib.Data.List.Basic
/-!
# Code that checks and throws

`refuse c e` throws `e` when `c` holds; a function that throws is a sequence of binds in `Except`,
and `bind_eq_ok` takes a result of it apart: what was not refused, and what each part returned.
-/
namespace AtlasCex.Lib

variable {ε δ α β : Type}

/-- `if (c) throw e`. -/
def refuse (c : Prop) [Decidable c] (e : ε) : Except ε Unit := if c then .error e else .ok ()

/-- The value, or `e` when there is none. -/
def require (o : Option α) (e : ε) : Except ε α :=
  match o with
  | some a => .ok a
  | none => .error e

variable {x : Except ε α} {f : α → Except ε β}

theorem bind_eq_ok {b : β} :
    (x >>= f) = .ok b ↔ ∃ a, x = .ok a ∧ f a = .ok b := by
  cases x with
  | error e => simp [bind, Except.bind]
  | ok a => simp [bind, Except.bind]

variable {a : α}

theorem pure_eq_ok {b : α} : (pure a : Except ε α) = .ok b ↔ a = b := by
  simp [pure, Except.pure]

theorem refuse_eq_ok {c : Prop} [Decidable c] {e : ε} {u : Unit} : refuse c e = .ok u ↔ ¬c := by
  unfold refuse
  split <;> simp_all

theorem require_eq_ok {o : Option α} {e : ε} : require o e = .ok a ↔ o = some a := by
  cases o <;> simp [require]

theorem map_eq_ok {f : α → β} {b : β} :
    (f <$> x) = .ok b ↔ ∃ a, x = .ok a ∧ f a = b := by
  cases x with
  | error e => simp [Functor.map, Except.map]
  | ok a => simp [Functor.map, Except.map]

theorem mapError_eq_ok {f : ε → δ} :
    x.mapError f = .ok a ↔ x = .ok a := by
  cases x <;> simp [Except.mapError]

theorem forM_eq_ok {f : α → Except ε Unit} {u : Unit} : ∀ {l : List α},
    l.forM f = .ok u ↔ ∀ a ∈ l, f a = .ok ()
  | [] => by simp [List.forM, pure, Except.pure]
  | a :: l => by
    rw [List.forM, bind_eq_ok, List.forall_mem_cons]
    exact ⟨fun ⟨_, ha, hl⟩ => ⟨ha, forM_eq_ok.1 hl⟩, fun ⟨ha, hl⟩ => ⟨(), ha, forM_eq_ok.2 hl⟩⟩

theorem mapM_eq_ok {g : α → β} : ∀ {l : List α}, (∀ a ∈ l, f a = .ok (g a)) →
    l.mapM f = .ok (l.map g)
  | [], _ => rfl
  | a :: l, h => by
    rw [List.mapM_cons, h a (by simp), mapM_eq_ok fun b hb => h b (by simp [hb])]
    rfl

/-- What is read off each result was already to be read off its argument. -/
theorem map_of_mapM_eq_ok {γ : Type} {p : β → γ} {q : α → γ}
    (hf : ∀ a b, f a = .ok b → p b = q a) : ∀ {l : List α} {bs : List β}, l.mapM f = .ok bs →
    bs.map p = l.map q
  | [], bs, h => by
    rw [List.mapM_nil, pure_eq_ok] at h
    rw [← h]; rfl
  | a :: l, bs, h => by
    rw [List.mapM_cons, bind_eq_ok] at h
    obtain ⟨b, hb, h⟩ := h
    rw [bind_eq_ok] at h
    obtain ⟨rest, hrest, h⟩ := h
    rw [pure_eq_ok] at h
    rw [← h, List.map_cons, List.map_cons, hf a b hb, map_of_mapM_eq_ok hf hrest]

/-- Everything that was made was made from something. -/
theorem mem_of_mapM_eq_ok : ∀ {l : List α} {bs : List β}, l.mapM f = .ok bs →
    ∀ b ∈ bs, ∃ a ∈ l, f a = .ok b
  | [], bs, h, b, hb => by
    rw [List.mapM_nil, pure_eq_ok] at h
    rw [← h] at hb
    cases hb
  | a :: l, bs, h, b, hb => by
    rw [List.mapM_cons, bind_eq_ok] at h
    obtain ⟨first, hfirst, h⟩ := h
    rw [bind_eq_ok] at h
    obtain ⟨rest, hrest, h⟩ := h
    rw [pure_eq_ok] at h
    rw [← h] at hb
    obtain rfl | hb := List.mem_cons.1 hb
    · exact ⟨a, by simp, hfirst⟩
    · obtain ⟨a', ha', hfa'⟩ := mem_of_mapM_eq_ok hrest b hb
      exact ⟨a', List.mem_cons_of_mem _ ha', hfa'⟩

end AtlasCex.Lib

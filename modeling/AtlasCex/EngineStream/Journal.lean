import AtlasCex.Lib.Runs
import AtlasCex.Lib.Selection
/-!
# Event keys and the journal a consumer follows

| here | there |
| --- | --- |
| `EventKey`, `compareKeys` | `settlement.repository.ts:19-27` |
| `Raw`                     | an undecoded event: `keyByPosition` reads its `seq` and nothing else |
| `KeyedRaw`, `keyByPosition` | `settlement/events.ts:136-147` |
| `Journal`                 | what the engine journals: sequence `k + 1` is the `k`-th list of events |
| `Journal.items`           | the events of the journal under the keys the engine publishes them with |
| `Journal.page`            | the answer of `GET /v1/events`: whole sequences, in emission order, none left out (a hole in the ring is outside this model) |

A page starts at a sequence boundary, so keying it by position gives back the journal's own keys
(`keyByPosition_page`).
-/
namespace AtlasCex.EngineStream
open List

/-! ## Keys -/

structure EventKey where
  seq : Nat
  idx : Nat
deriving DecidableEq, Repr

def compareKeys (a b : EventKey) : Int :=
  if a.seq ≠ b.seq then (if a.seq < b.seq then -1 else 1) else (a.idx : Int) - b.idx

instance : LE EventKey := ⟨fun a b => a.seq < b.seq ∨ a.seq = b.seq ∧ a.idx ≤ b.idx⟩
instance : LT EventKey := ⟨fun a b => a.seq < b.seq ∨ a.seq = b.seq ∧ a.idx < b.idx⟩

namespace EventKey

variable {a b : EventKey}

theorem le_def : a ≤ b ↔ a.seq < b.seq ∨ a.seq = b.seq ∧ a.idx ≤ b.idx := Iff.rfl

theorem lt_def : a < b ↔ a.seq < b.seq ∨ a.seq = b.seq ∧ a.idx < b.idx := Iff.rfl

instance (a b : EventKey) : Decidable (a ≤ b) := decidable_of_iff _ le_def.symm
instance (a b : EventKey) : Decidable (a < b) := decidable_of_iff _ lt_def.symm

theorem not_le : ¬a ≤ b ↔ b < a := by
  simp only [le_def, lt_def]; omega

theorem not_lt : ¬a < b ↔ b ≤ a := by
  simp only [le_def, lt_def]; omega

theorem le_antisymm (h : a ≤ b) (h' : b ≤ a) : a = b := by
  obtain ⟨seq, idx⟩ := a
  obtain ⟨seq', idx'⟩ := b
  simp only [le_def] at h h'
  simp only [mk.injEq]
  omega

theorem lt_of_le_of_lt {c : EventKey} (h : a ≤ b) (h' : b < c) : a < c := by
  simp only [le_def, lt_def] at *; omega

theorem le_trans {c : EventKey} (h : a ≤ b) (h' : b ≤ c) : a ≤ c := by
  simp only [le_def] at *; omega

theorem le_of_lt (h : a < b) : a ≤ b := by
  simp only [le_def, lt_def] at *; omega

theorem le_refl (a : EventKey) : a ≤ a := .inr ⟨rfl, Nat.le_refl _⟩

end EventKey

theorem compareKeys_le {a b : EventKey} : compareKeys a b ≤ 0 ↔ a ≤ b := by
  rw [EventKey.le_def]
  unfold compareKeys
  split
  · split <;> omega
  · omega

/-! ## Keying by position -/

variable {ε : Type}

structure Raw (ε : Type) where
  seq : Nat
  event : ε
deriving DecidableEq, Repr

structure KeyedRaw (ε : Type) where
  key : EventKey
  raw : Raw ε
deriving DecidableEq, Repr

def keyByPosition (raws : List (Raw ε)) : List (KeyedRaw ε) :=
  List.zipWith (fun raw idx => ⟨⟨raw.seq, idx⟩, raw⟩) raws (Lib.indexRuns Raw.seq none 0 raws)

/-! ## The journal -/

/-- What the engine journals. Every command emits at least one event. -/
structure Journal (ε : Type) where
  outputs : List (List ε)
  nonempty : ∀ events ∈ outputs, events ≠ []

/-- The raw events of one sequence. -/
def raws (seq : Nat) (events : List ε) : List (Raw ε) := events.map (⟨seq, ·⟩)

/-- The events of one sequence, keyed. -/
def keyed (seq : Nat) (events : List ε) : List (KeyedRaw ε) :=
  events.mapIdx fun idx event => ⟨⟨seq, idx⟩, ⟨seq, event⟩⟩

/-- The sequences from `seq` on, each turned to a list by `f`. -/
def sequences {α : Type} (f : Nat → List ε → List α) : Nat → List (List ε) → List α
  | _, [] => []
  | seq, events :: rest => f seq events ++ sequences f (seq + 1) rest

section
variable {α : Type} {f : Nat → List ε → List α}

theorem mem_sequences {x : α} : ∀ {seq : Nat} {l : List (List ε)},
    x ∈ sequences f seq l ↔ ∃ (k : Nat) (events : List ε), l[k]? = some events ∧ x ∈ f (seq + k) events
  | _, [] => by simp [sequences]
  | seq, events :: rest => by
    rw [sequences, mem_append, mem_sequences]
    constructor
    · rintro (h | ⟨k, events', hk, hx⟩)
      · exact ⟨0, events, rfl, h⟩
      · exact ⟨k + 1, events', hk, by rwa [Nat.add_assoc, Nat.add_comm 1] at hx⟩
    · rintro ⟨_ | k, events', hk, hx⟩
      · cases hk
        exact .inl hx
      · exact .inr ⟨k, events', hk, by rwa [Nat.add_assoc, Nat.add_comm 1]⟩

theorem sequences_append : ∀ (seq : Nat) (l l' : List (List ε)),
    sequences f seq (l ++ l') = sequences f seq l ++ sequences f (seq + l.length) l'
  | _, [], _ => rfl
  | seq, events :: rest, l' => by
    rw [cons_append, sequences, sequences, sequences_append (seq + 1) rest l',
      append_assoc, length_cons, Nat.add_assoc, Nat.add_comm 1]

end

theorem mem_keyed {seq : Nat} {events : List ε} {x : KeyedRaw ε} :
    x ∈ keyed seq events ↔ x.key.seq = seq ∧ x.raw.seq = seq ∧
      events[x.key.idx]? = some x.raw.event := by
  rw [keyed, mem_mapIdx]
  constructor
  · rintro ⟨idx, hidx, rfl⟩
    exact ⟨rfl, rfl, getElem?_eq_getElem hidx⟩
  · obtain ⟨⟨seq', idx⟩, seq'', event⟩ := x
    simp only
    rintro ⟨rfl, rfl, hev⟩
    obtain ⟨hidx, rfl⟩ := List.getElem?_eq_some_iff.1 hev
    exact ⟨idx, hidx, rfl⟩

theorem keyed_pairwise (seq : Nat) (events : List ε) :
    (keyed seq events).Pairwise (·.key < ·.key) := by
  rw [pairwise_iff_getElem]
  intro i j hi hj hij
  simp only [keyed, getElem_mapIdx]
  exact .inr ⟨rfl, hij⟩

theorem sequences_keyed_pairwise : ∀ (seq : Nat) (l : List (List ε)),
    (sequences keyed seq l).Pairwise (·.key < ·.key)
  | _, [] => .nil
  | seq, events :: rest => by
    refine pairwise_append.2
      ⟨keyed_pairwise seq events, sequences_keyed_pairwise (seq + 1) rest, ?_⟩
    intro x hx y hy
    obtain ⟨k, events', -, hy⟩ := mem_sequences.1 hy
    have hxs := (mem_keyed.1 hx).1
    have hys := (mem_keyed.1 hy).1
    exact .inl (by omega)

theorem zipWith_raws (seq : Nat) (events : List ε) :
    List.zipWith (fun (raw : Raw ε) idx => (⟨⟨raw.seq, idx⟩, raw⟩ : KeyedRaw ε)) (raws seq events)
      (List.range' 0 events.length) = keyed seq events := by
  apply ext_getElem
  · simp [raws, keyed]
  · intro i _ _
    simp [raws, keyed]

/-- Whole sequences, keyed by position, have the keys of the journal. -/
theorem keyByPosition_sequences (seq : Nat) (l : List (List ε)) :
    keyByPosition (sequences raws seq l) = sequences keyed seq l := by
  -- the numbering starts afresh at each sequence, whatever came before it
  suffices h : ∀ (l : List (List ε)) (seq : Nat) (previous : Option Nat) (idx : Nat),
      (∀ p, previous = some p → p < seq) →
      List.zipWith (fun raw idx => ⟨⟨raw.seq, idx⟩, raw⟩) (sequences raws seq l)
        (Lib.indexRuns Raw.seq previous idx (sequences raws seq l)) = sequences keyed seq l from
    h l seq none 0 (by simp)
  intro l
  induction l with
  | nil => intros; rfl
  | cons events rest ih =>
    intro seq previous idx hprev
    have hkey : ∀ raw ∈ raws seq events, raw.seq = seq := by simp [raws]
    obtain ⟨previous', idx', heq, hprev'⟩ :=
      Lib.indexRuns_block Raw.seq hkey previous idx (sequences raws (seq + 1) rest)
    have hfresh : previous ≠ some seq := fun h => Nat.lt_irrefl _ (hprev seq h)
    rw [if_neg hfresh] at heq
    have hlen : (raws seq events).length = events.length := by simp [raws]
    rw [sequences, sequences, heq, hlen, zipWith_append (by simp [raws]), zipWith_raws,
      ih (seq + 1) previous' idx']
    rintro p rfl
    rcases hprev' with h | h
    · exact Nat.lt_succ_of_lt (hprev p h.symm)
    · cases h
      exact Nat.lt_succ_self _

namespace Journal

/-- Every event of the journal, under its key, in order. -/
def items (journal : Journal ε) : List (KeyedRaw ε) := sequences keyed 1 journal.outputs

/-- Those of the sequences as far as `last`. -/
def upTo (journal : Journal ε) (last : Nat) : List (KeyedRaw ε) :=
  sequences keyed 1 (journal.outputs.take last)

/-- `GET /v1/events`: the whole sequences after `after`, as far as `last`. -/
def page (journal : Journal ε) (after last : Nat) : List (Raw ε) :=
  sequences raws (after + 1) ((journal.outputs.take last).drop after)

variable {journal : Journal ε} {x y : KeyedRaw ε}

theorem mem_items : x ∈ journal.items ↔ ∃ (k : Nat) (events : List ε),
    journal.outputs[k]? = some events ∧ x.key.seq = k + 1 ∧ x.raw.seq = k + 1 ∧
      events[x.key.idx]? = some x.raw.event := by
  simp only [items, mem_sequences, mem_keyed, Nat.add_comm 1]

theorem mem_upTo {last : Nat} : x ∈ journal.upTo last ↔ x ∈ journal.items ∧ x.key.seq ≤ last := by
  simp only [mem_items, upTo, mem_sequences, mem_keyed, Nat.add_comm 1]
  constructor
  · rintro ⟨k, events, hk, hx⟩
    rw [getElem?_take] at hk
    split at hk
    · exact ⟨⟨k, events, hk, hx⟩, by omega⟩
    · cases hk
  · rintro ⟨⟨k, events, hk, hx⟩, hle⟩
    exact ⟨k, events, by rw [getElem?_take, if_pos (by omega), hk], hx⟩

theorem items_pairwise : journal.items.Pairwise (·.key < ·.key) := sequences_keyed_pairwise _ _

theorem raw_seq (hx : x ∈ journal.items) : x.raw.seq = x.key.seq := by
  obtain ⟨k, events, -, hseq, hraw, -⟩ := mem_items.1 hx
  rw [hraw, hseq]

theorem seq_pos (hx : x ∈ journal.items) : 0 < x.key.seq := by
  obtain ⟨k, events, -, hseq, -, -⟩ := mem_items.1 hx
  omega

/-- A key is the key of one event. -/
theorem eq_of_key_eq (hx : x ∈ journal.items) (hy : y ∈ journal.items) (h : x.key = y.key) :
    x = y := by
  obtain ⟨k, events, hk, hseq, hraw, hev⟩ := mem_items.1 hx
  obtain ⟨k', events', hk', hseq', hraw', hev'⟩ := mem_items.1 hy
  obtain rfl : k = k' := by rw [h] at hseq; omega
  obtain rfl : events = events' := Option.some.inj (hk ▸ hk')
  rw [h, hev'] at hev
  obtain ⟨key, seq, event⟩ := x
  obtain ⟨key', seq', event'⟩ := y
  simp_all

/-- The positions of a sequence before one of its events are taken. -/
theorem earlier_idx (hx : x ∈ journal.items) {idx : Nat} (h : idx < x.key.idx) :
    ∃ y ∈ journal.items, y.key = ⟨x.key.seq, idx⟩ := by
  obtain ⟨k, events, hk, hseq, -, hev⟩ := mem_items.1 hx
  obtain ⟨hlt, -⟩ := List.getElem?_eq_some_iff.1 hev
  have hidx := List.getElem?_eq_getElem (h.trans hlt)
  exact ⟨⟨⟨k + 1, idx⟩, ⟨k + 1, _⟩⟩, mem_items.2 ⟨k, events, hk, rfl, rfl, hidx⟩, by rw [hseq]⟩

/-- No sequence is skipped: those before one with an event have a first event. -/
theorem first_of_seq (hx : x ∈ journal.items) {seq : Nat} (hpos : 0 < seq) (h : seq ≤ x.key.seq) :
    ∃ y ∈ journal.items, y.key = ⟨seq, 0⟩ := by
  obtain ⟨k, events, hk, hseq, -, -⟩ := mem_items.1 hx
  obtain ⟨hlt, -⟩ := List.getElem?_eq_some_iff.1 hk
  have hget := List.getElem?_eq_getElem (show seq - 1 < journal.outputs.length by omega)
  have hne := journal.nonempty _ (getElem_mem (show seq - 1 < journal.outputs.length by omega))
  have hev := getElem?_eq_getElem (length_pos_of_ne_nil hne)
  exact ⟨⟨⟨seq, 0⟩, ⟨seq, _⟩⟩,
    mem_items.2 ⟨seq - 1, _, hget, by simp only; omega, by simp only; omega, hev⟩, rfl⟩

/-- Keying a page by position gives the next events of the journal. -/
theorem upTo_page {after last : Nat} (h : after < last) (hlast : last ≤ journal.outputs.length) :
    journal.upTo last = journal.upTo after ++ keyByPosition (journal.page after last) := by
  have hlen : ((journal.outputs.take last).take after).length = after := by
    rw [length_take, length_take]; omega
  have hcut := sequences_append (f := keyed) 1 ((journal.outputs.take last).take after)
    ((journal.outputs.take last).drop after)
  rw [take_append_drop, hlen, take_take, Nat.min_eq_left (Nat.le_of_lt h),
    Nat.add_comm 1] at hcut
  rw [page, keyByPosition_sequences]
  exact hcut

end Journal

end AtlasCex.EngineStream

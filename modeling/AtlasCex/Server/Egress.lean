import AtlasCex.Lib.Runs
import AtlasCex.Lib.Selection
import AtlasCex.Matching.Engine
/-!
# The publishing side (`services/matching/src/egress.rs`, `types.rs:200-253`)

| here | there |
| --- | --- |
| `eventIndices`, `takeWholeSequences` | `types.rs:221-253` |
| `Entry`, `toEntries` | the `XADD`s of `RedisSink::publish_inner`, `egress.rs:120-167` |
| `EventRing` | `egress.rs:218-293` |
| `Watermark` | `egress.rs:301-359` |

`Entry` is one stream entry; `toEntries` lists the entries a publish sends, in order, so that a
publish that fails or times out has sent some prefix of them.
-/
namespace AtlasCex.Server
open List
open Matching
open Std (ExtTreeMap)

/-- Level changes by sequence. Absent is "unknown", which is not the empty list. -/
abbrev LevelsBySeq := ExtTreeMap Nat (List LevelChange)

/-- The position of each event within its sequence. -/
def eventIndices (events : List Event) : List Nat := Lib.indexRuns Event.seq none 0 events

/-- `limit` is `none` for `usize::MAX`, which no list in memory reaches. -/
def takeWholeLoop (limit : Option Nat) : List Event → List Event → List Event
  | [], out => out
  | event :: events, out =>
    if limit.any (· ≤ out.length) ∧ out.getLast?.map Event.seq ≠ some event.seq then out
    else takeWholeLoop limit events (out ++ [event])

def takeWholeSequences (events : List Event) (limit : Option Nat) : List Event :=
  takeWholeLoop limit events []

/-- One entry of the stream: its fields `seq`, `idx`, `event` and, on some, `levels`. -/
structure Entry where
  seq : Nat
  idx : Nat
  event : Event
  levels : Option (List LevelChange)
deriving DecidableEq, Repr

/-- The loop of `publish_inner`. The levels go on the last entry of a run of one sequence. -/
def toEntriesLoop (levels : LevelsBySeq) : List (Event × Nat) → List Entry
  | [] => []
  | (event, idx) :: rest =>
    let lastOfSeq := rest.head?.map (·.1.seq) ≠ some event.seq
    ⟨event.seq, idx, event, if lastOfSeq then levels[event.seq]? else none⟩ ::
      toEntriesLoop levels rest

def toEntries (events : List Event) (levels : LevelsBySeq) : List Entry :=
  toEntriesLoop levels (events.zip (eventIndices events))

structure EventRing where
  events : List Event
  levels : LevelsBySeq
  capacity : Nat

namespace EventRing

def new (capacity : Nat) : EventRing := ⟨[], ∅, capacity⟩

/-- Pop the front and, with it, the rest of its sequence. -/
def evict : List Event → List Event
  | [] => []
  | evicted :: events => events.dropWhile (·.seq = evicted.seq)

/-- The check before each push. -/
def makeRoom (capacity : Nat) (held : List Event) : List Event :=
  if held.length = capacity then evict held else held

def recordLoop (capacity : Nat) : List Event → List Event → List Event
  | held, [] => held
  | held, event :: events => recordLoop capacity (makeRoom capacity held ++ [event]) events

def record (ring : EventRing) (events : List Event) : EventRing :=
  { ring with events := recordLoop ring.capacity ring.events events }

def oldestSeq (ring : EventRing) : Option Nat := ring.events.head?.map Event.seq

def recordWithLevels (ring : EventRing) (events : List Event) (levels : List LevelChange) :
    EventRing :=
  let ring := ring.record events
  let ring := match events.head? with
    | some first => { ring with levels := ring.levels.insert first.seq levels }
    | none => ring
  match ring.oldestSeq with
  | some oldest => { ring with levels := ring.levels.filter fun seq _ => oldest ≤ seq }
  | none => ring

def levelsSince (ring : EventRing) (seq : Nat) : LevelsBySeq :=
  ring.levels.filter fun k _ => seq < k

/-- `none` when the ring does not reach back to `seq`, or is empty. -/
def since (ring : EventRing) (seq : Nat) (limit : Option Nat) : Option (List Event) :=
  match ring.oldestSeq with
  | some oldest =>
    if oldest ≤ seq + 1 then
      some (takeWholeSequences (ring.events.filter (seq < ·.seq)) limit)
    else none
  | none => none

end EventRing

/-- `file` is what the watermark's file holds, 0 before the first flush. -/
structure Watermark where
  value : Nat
  sinceSync : Nat
  syncEvery : Nat
  file : Nat

namespace Watermark

def flush (w : Watermark) : Watermark := { w with file := w.value, sinceSync := 0 }

/-- `false` is the error of a flush that was due and failed: the value has moved all the same. -/
def advanceTo (w : Watermark) (seq : Nat) (flushes : Bool) : Bool × Watermark :=
  if seq ≤ w.value then (true, w)
  else
    let w := { w with value := seq, sinceSync := w.sinceSync + 1 }
    if w.syncEvery ≤ w.sinceSync then
      if flushes then (true, w.flush) else (false, w)
    else (true, w)

/-- Advance, never retreat; and the file holds what it held, or the value reached. -/
theorem advanceTo_spec (w : Watermark) (seq : Nat) (flushes : Bool) :
    (w.advanceTo seq flushes).2.value = max w.value seq ∧
      ((w.advanceTo seq flushes).2.file = w.file ∨
        (w.advanceTo seq flushes).2.file = max w.value seq) := by
  unfold advanceTo
  split
  · exact ⟨by show w.value = _; omega, .inl rfl⟩
  · have hmax : seq = max w.value seq := by omega
    simp only
    split
    · split
      · exact ⟨hmax, .inr hmax⟩
      · exact ⟨hmax, .inl rfl⟩
    · exact ⟨hmax, .inl rfl⟩

end Watermark

/-! ## What a publish sends -/

/-- The entries of one command, keyed by position from `idx`, the level changes on the last. -/
def entriesFrom (seq : Nat) (levels : List LevelChange) : Nat → List Event → List Entry
  | _, [] => []
  | idx, event :: events =>
    ⟨seq, idx, event, if events = [] then some levels else none⟩ ::
      entriesFrom seq levels (idx + 1) events

def entriesOf (out : SequenceOutput) : List Entry := entriesFrom out.seq out.levels 0 out.events

/-- `x` is published before `y`: the order of the keys `(seq, idx)`. -/
def Entry.Before (x y : Entry) : Prop := x.seq < y.seq ∨ (x.seq = y.seq ∧ x.idx < y.idx)

variable {seq : Nat}

theorem mem_entriesFrom {levels : List LevelChange} {x : Entry} :
    ∀ {idx : Nat} {events : List Event}, x ∈ entriesFrom seq levels idx events →
      x.seq = seq ∧ idx ≤ x.idx
  | _, [], h => by simp [entriesFrom] at h
  | idx, event :: events, h => by
    rcases mem_cons.1 h with rfl | h
    · exact ⟨rfl, Nat.le_refl _⟩
    · obtain ⟨hseq, hle⟩ := mem_entriesFrom h
      exact ⟨hseq, by omega⟩

theorem entriesFrom_sorted (seq : Nat) (levels : List LevelChange) :
    ∀ (idx : Nat) (events : List Event), (entriesFrom seq levels idx events).Pairwise Entry.Before
  | _, [] => .nil
  | idx, event :: events => by
    refine List.Pairwise.cons ?_ (entriesFrom_sorted seq levels (idx + 1) events)
    intro y hy
    obtain ⟨hseq, hle⟩ := mem_entriesFrom hy
    exact .inr ⟨hseq.symm, hle⟩

variable {outs : List SequenceOutput}

/-- Outputs in sequence order have entries in key order. -/
theorem entriesOf_sorted (h : outs.Pairwise (·.seq < ·.seq)) :
    (outs.flatMap entriesOf).Pairwise Entry.Before := by
  induction outs with
  | nil => exact .nil
  | cons out outs ih =>
    rw [pairwise_cons] at h
    rw [flatMap_cons, pairwise_append]
    refine ⟨entriesFrom_sorted _ _ _ _, ih h.2, ?_⟩
    intro x hx y hy
    obtain ⟨out', hout', hy⟩ := mem_flatMap.1 hy
    rw [Entry.Before, (mem_entriesFrom hx).1, (mem_entriesFrom hy).1]
    exact .inl (h.1 out' hout')

variable {levels : LevelsBySeq}

/-- The loop over one whole sequence: indices go on from the one before, if it was of the same
sequence, and from zero if not. -/
theorem toEntriesLoop_sequence {changes : List LevelChange}
    (hlevels : levels[seq]? = some changes) {rest : List Event}
    (hrest : rest.head?.map Event.seq ≠ some seq) :
    ∀ {events : List Event}, OfSeq seq events → ∀ (previous : Option Nat) (idx : Nat),
      ∃ previous' idx', toEntriesLoop levels ((events ++ rest).zip
          (Lib.indexRuns Event.seq previous idx (events ++ rest))) =
        entriesFrom seq changes (if previous = some seq then idx + 1 else 0) events ++
          toEntriesLoop levels (rest.zip (Lib.indexRuns Event.seq previous' idx' rest)) ∧
        (previous' = previous ∨ previous' = some seq)
  | [], _, previous, idx => ⟨previous, idx, by simp [entriesFrom], .inl rfl⟩
  | event :: events, hof, previous, idx => by
    have hseq : event.seq = seq := hof event mem_cons_self
    have hof' : OfSeq seq events := fun ev hev => hof ev (mem_cons_of_mem _ hev)
    obtain ⟨previous', idx', heq, hprev⟩ := toEntriesLoop_sequence hlevels hrest hof'
      (some seq) (if previous = some seq then idx + 1 else 0)
    refine ⟨previous', idx', ?_, .inr (hprev.elim id id)⟩
    have hhead : (((events ++ rest).zip (Lib.indexRuns Event.seq (some seq)
        (if previous = some seq then idx + 1 else 0) (events ++ rest))).head?.map (·.1.seq) ≠
          some seq) ↔ events = [] := by
      cases events with
      | nil => cases rest <;> simp_all [Lib.indexRuns]
      | cons e es => simp [Lib.indexRuns, hof' e mem_cons_self]
    simp only [cons_append, Lib.indexRuns, zip_cons_cons, toEntriesLoop, hseq, hhead,
      hlevels, entriesFrom, heq, if_true]

theorem toEntriesLoop_outputs
    (hsorted : outs.Pairwise (·.seq < ·.seq)) (hof : ∀ out ∈ outs, OfSeq out.seq out.events)
    (hlevels : ∀ out ∈ outs, levels[out.seq]? = some out.levels) :
    ∀ (previous : Option Nat) (idx : Nat), (∀ out ∈ outs, previous ≠ some out.seq) →
      toEntriesLoop levels ((outs.flatMap (·.events)).zip
        (Lib.indexRuns Event.seq previous idx (outs.flatMap (·.events)))) = outs.flatMap entriesOf := by
  induction outs with
  | nil => intros; rfl
  | cons out outs ih =>
    intro previous idx hprev
    rw [pairwise_cons] at hsorted
    have hrest : (outs.flatMap (·.events)).head?.map Event.seq ≠ some out.seq := by
      intro h
      obtain ⟨ev, hev, hseq⟩ := Option.map_eq_some_iff.1 h
      obtain ⟨out', hout', hmem⟩ := mem_flatMap.1 (mem_of_mem_head? hev)
      have := hof out' (mem_cons_of_mem _ hout') ev hmem
      have := hsorted.1 out' hout'
      omega
    obtain ⟨previous', idx', heq, hprev'⟩ := toEntriesLoop_sequence
      (hlevels out mem_cons_self) hrest (hof out mem_cons_self) previous idx
    rw [flatMap_cons, heq, if_neg (hprev out mem_cons_self), flatMap_cons]
    congr 1
    refine ih hsorted.2 (fun o ho => hof o (mem_cons_of_mem _ ho))
      (fun o ho => hlevels o (mem_cons_of_mem _ ho)) previous' idx' (fun o ho => ?_)
    rcases hprev' with rfl | rfl
    · exact hprev o (mem_cons_of_mem _ ho)
    · have := hsorted.1 o ho
      simp only [ne_eq, Option.some.injEq]; omega

/-- **What is sent is keyed by position**: the entries of whole commands in sequence order, each
with its own levels, are those commands' entries one after another. -/
theorem toEntries_outputs
    (hsorted : outs.Pairwise (·.seq < ·.seq)) (hof : ∀ out ∈ outs, OfSeq out.seq out.events)
    (hlevels : ∀ out ∈ outs, levels[out.seq]? = some out.levels) :
    toEntries (outs.flatMap (·.events)) levels = outs.flatMap entriesOf :=
  toEntriesLoop_outputs hsorted hof hlevels none 0 (fun _ _ => by simp)

/-- Without a limit every event is taken. -/
theorem takeWholeLoop_none : ∀ (events out : List Event),
    takeWholeLoop none events out = out ++ events
  | [], out => by simp [takeWholeLoop]
  | event :: events, out => by
    simp only [takeWholeLoop, Option.any_none, Bool.false_eq_true, false_and, if_false,
      takeWholeLoop_none events, append_assoc, singleton_append]

theorem takeWholeSequences_none (events : List Event) : takeWholeSequences events none = events :=
  takeWholeLoop_none events []

/-! ## The ring -/

def BySeq (events : List Event) : Prop := events.Pairwise (·.seq ≤ ·.seq)

/-- Eviction drops the front sequence, whole, and nothing else. -/
theorem evict_spec {held : List Event} (h : BySeq held) : ∃ dropped,
    dropped ++ EventRing.evict held = held ∧
      (∀ x ∈ dropped, held.head?.map Event.seq = some x.seq) ∧
      ∀ x ∈ dropped, ∀ y ∈ EventRing.evict held, x.seq < y.seq := by
  cases held with
  | nil => exact ⟨[], rfl, by simp, by simp⟩
  | cons first held =>
    obtain ⟨hfirst, hsorted⟩ := pairwise_cons.1 h
    have hevict : EventRing.evict (first :: held) = held.filter (first.seq < ·.seq) :=
      Lib.dropWhile_eq_filter hsorted hfirst
    have hdropped : ∀ x ∈ first :: held.filter (·.seq ≤ first.seq), x.seq = first.seq := by
      intro x hx
      rcases mem_cons.1 hx with rfl | hx
      · rfl
      · obtain ⟨hx, hle⟩ := mem_filter.1 hx
        have := hfirst x hx
        rw [decide_eq_true_eq] at hle
        omega
    rw [hevict]
    refine ⟨first :: held.filter (·.seq ≤ first.seq), ?_, ?_, ?_⟩
    · rw [cons_append, Lib.filter_le_append_filter_lt hsorted]
    · intro x hx
      rw [hdropped x hx]; rfl
    · intro x hx y hy
      rw [hdropped x hx]
      exact of_decide_eq_true (mem_filter.1 hy).2

/-- A command whose events the ring can hold all at once. The check `len == capacity` never stops a
ring of capacity zero from growing. -/
def Fits (capacity : Nat) (events : List Event) : Prop := capacity = 0 ∨ events.length ≤ capacity

instance (capacity : Nat) (events : List Event) : Decidable (Fits capacity events) :=
  inferInstanceAs (Decidable (_ ∨ _))

theorem makeRoom_spec (capacity seq : Nat) {held : List Event} (hsorted : BySeq held)
    (hle : ∀ x ∈ held, x.seq ≤ seq) : ∃ front, front ++ EventRing.makeRoom capacity held = held ∧
      (∀ x ∈ front, ∀ y ∈ EventRing.makeRoom capacity held, x.seq < y.seq) ∧
      ∀ event events, Fits capacity (held.filter (·.seq = seq) ++ event :: events) →
        ∀ x ∈ front, x.seq ≠ seq := by
  unfold EventRing.makeRoom
  split
  · rename_i hfull
    obtain ⟨front, hfront, hhead, hlt⟩ := evict_spec hsorted
    refine ⟨front, hfront, hlt, fun event events hfits x hx hseq => ?_⟩
    -- the front sequence is the one being recorded, so it is all the ring holds
    obtain ⟨first, hfirst, hseq'⟩ := Option.map_eq_some_iff.1 (hhead x hx)
    obtain ⟨tail, rfl⟩ := head?_eq_some_iff.1 hfirst
    have hall : (first :: tail).filter (·.seq = seq) = first :: tail := by
      rw [filter_eq_self]
      intro y hy
      have hy' := hle y hy
      have hxy : first.seq ≤ y.seq := by
        rcases mem_cons.1 hy with rfl | hy
        · exact Nat.le_refl _
        · exact (pairwise_cons.1 hsorted).1 y hy
      rw [decide_eq_true_eq]; omega
    rw [hall] at hfits
    rcases hfits with hzero | hlen
    · rw [length_cons] at hfull; omega
    · simp only [length_append, length_cons] at hlen hfull; omega
  · exact ⟨[], rfl, by simp, by simp⟩

/-- Recording the events of a sequence at least as new as all that are held: what is dropped comes
off the front, a whole sequence at a time, unless the command overruns the ring by itself. -/
theorem recordLoop_spec (capacity seq : Nat) : ∀ (events held : List Event), BySeq held →
    (∀ x ∈ held, x.seq ≤ seq) → OfSeq seq events → ∃ dropped,
      dropped ++ EventRing.recordLoop capacity held events = held ++ events ∧
        (∀ x ∈ dropped, ∀ y ∈ EventRing.recordLoop capacity held events,
          x.seq < y.seq ∨ x.seq = seq) ∧
        (Fits capacity (held.filter (·.seq = seq) ++ events) → ∀ x ∈ dropped, x.seq ≠ seq)
  | [], held, _, _, _ => ⟨[], by simp [EventRing.recordLoop], by simp, by simp⟩
  | event :: events, held, hsorted, hle, hof => by
    have hevent : event.seq = seq := hof event mem_cons_self
    obtain ⟨front, hfront, hlt, hfits⟩ := makeRoom_spec capacity seq hsorted hle
    rw [EventRing.recordLoop]
    generalize EventRing.makeRoom capacity held = kept at hfront hlt
    subst hfront
    obtain ⟨-, hkept, -⟩ := pairwise_append.1 hsorted
    have hle' : ∀ x ∈ kept ++ [event], x.seq ≤ seq := by
      intro x hx
      rcases mem_append.1 hx with hx | hx
      · exact hle x (mem_append_right _ hx)
      · rw [mem_singleton.1 hx, hevent]
    have hsorted' : BySeq (kept ++ [event]) := by
      refine pairwise_append.2 ⟨hkept, pairwise_singleton _ _, ?_⟩
      intro x hx y hy
      rw [mem_singleton.1 hy, hevent]
      exact hle' x (mem_append_left _ hx)
    obtain ⟨dropped, heq, hold, hwhole⟩ := recordLoop_spec capacity seq events (kept ++ [event])
      hsorted' hle' fun ev hev => hof ev (mem_cons_of_mem _ hev)
    refine ⟨front ++ dropped, by rw [append_assoc, heq]; simp, ?_, ?_⟩
    · intro x hx y hy
      rcases mem_append.1 hx with hx | hx
      · have hxle := hle x (mem_append_left _ hx)
        have hy' : y ∈ kept ++ event :: events := by
          rw [append_cons, ← heq]; exact mem_append_right _ hy
        rcases mem_append.1 hy' with hy' | hy'
        · exact .inl (hlt x hx y hy')
        · have : y.seq = seq := hof y hy'
          omega
      · exact hold x hx y hy
    · intro hfit x hx
      have hnone : front.filter (·.seq = seq) = [] := by
        rw [filter_eq_nil_iff]
        intro y hy
        simpa using hfits _ _ hfit y hy
      rcases mem_append.1 hx with hx | hx
      · exact hfits _ _ hfit x hx
      · refine hwhole ?_ x hx
        rw [filter_append, hnone, nil_append] at hfit
        rw [filter_append, filter_cons_of_pos (by simpa using hevent)]
        simpa using hfit

variable {ring : EventRing} {out : SequenceOutput} {events : List Event}

/-- What `recordWithLevels` leaves, when there is something to record. -/
theorem recordWithLevels_head (ring : EventRing) (levels : List LevelChange)
    (h : Emits seq events) : ∃ oldest held, (ring.record events).events = oldest :: held ∧
      ring.recordWithLevels events levels =
        { ring.record events with
          levels := (ring.levels.insert seq levels).filter fun k _ => oldest.seq ≤ k } := by
  obtain ⟨first, events, rfl⟩ := exists_cons_of_ne_nil h.ne_nil
  have hfirst : first.seq = seq := h.ofSeq first mem_cons_self
  -- the last event recorded is still there
  have hpushed : ∀ (events held : List Event) (event : Event),
      EventRing.recordLoop ring.capacity held (event :: events) ≠ [] := by
    intro events
    induction events with
    | nil => intro held event; simp [EventRing.recordLoop]
    | cons next events ih => intro held event; rw [EventRing.recordLoop]; exact ih _ next
  obtain ⟨oldest, held, hheld⟩ := exists_cons_of_ne_nil (hpushed events ring.events first)
  have hrecord : (ring.record (first :: events)).events = oldest :: held := hheld
  refine ⟨oldest, held, hrecord, ?_⟩
  unfold EventRing.recordWithLevels EventRing.oldestSeq
  simp only [head?_cons, hfirst, hrecord, Option.map_some]
  rfl

/-- The levels after a record: the new ones, and of the old what is not older than the events. -/
theorem getElem?_recorded (levels : LevelsBySeq) (seq oldest : Nat) (changes : List LevelChange)
    (k : Nat) : ((levels.insert seq changes).filter fun k _ => oldest ≤ k)[k]? =
      if oldest ≤ k then if seq = k then some changes else levels[k]? else none := by
  rw [ExtTreeMap.getElem?_filter', ExtTreeMap.getElem?_insert]
  simp only [compare_eq_iff_eq]
  generalize (if seq = k then some changes else levels[k]?) = found
  by_cases hle : oldest ≤ k
  · rw [if_pos hle]
    cases found <;> simp [hle]
  · rw [if_neg hle]
    cases found <;> simp [hle]

theorem eq_of_seq (h : outs.Pairwise (·.seq < ·.seq))
    {o : SequenceOutput} (ho : o ∈ outs) (hout : out ∈ outs) (hseq : o.seq = out.seq) :
    o = out := by
  have hnd : (outs.map SequenceOutput.seq).Nodup :=
    List.Pairwise.map _ (fun _ _ hlt => Nat.ne_of_lt hlt) h
  exact inj_on_of_nodup_map hnd ho hout hseq

/-! ## A history in the ring -/

/-- The ring after the commands of a history were recorded in it. -/
def recorded (capacity : Nat) (outs : List SequenceOutput) : EventRing :=
  outs.foldl (fun ring out => ring.recordWithLevels out.events out.levels) (EventRing.new capacity)

theorem recorded_concat (capacity : Nat) (outs : List SequenceOutput) (out : SequenceOutput) :
    recorded capacity (outs ++ [out]) =
      (recorded capacity outs).recordWithLevels out.events out.levels := by
  simp [recorded]

/-- The command of this sequence has more events than the ring holds. -/
def Overruns (capacity : Nat) (outs : List SequenceOutput) (seq : Nat) : Prop :=
  ∃ out ∈ outs, out.seq = seq ∧ ¬ Fits capacity out.events

instance (capacity : Nat) (outs : List SequenceOutput) (seq : Nat) :
    Decidable (Overruns capacity outs seq) :=
  inferInstanceAs (Decidable (∃ out ∈ outs, _ ∧ _))

/-- The ring holds a tail of the history, and the levels of every sequence it reaches back to. -/
structure Tail (capacity : Nat) (outs : List SequenceOutput) (ring : EventRing)
    (dropped : List Event) : Prop where
  sized : ring.capacity = capacity
  split : dropped ++ ring.events = outs.flatMap (·.events)
  cut : ∀ x ∈ dropped, ∀ y ∈ ring.events, x.seq < y.seq ∨ Overruns capacity outs y.seq
  levels : ∀ y ∈ ring.events, ∀ out ∈ outs, y.seq ≤ out.seq →
    ring.levels[out.seq]? = some out.levels
  known : ∀ k ∈ ring.levels, (∃ y ∈ ring.events, y.seq ≤ k) ∧ ∃ out ∈ outs, out.seq = k

variable {capacity : Nat}

theorem Overruns.mono {seq : Nat} (h : Overruns capacity outs seq) (out : SequenceOutput) :
    Overruns capacity (outs ++ [out]) seq := by
  obtain ⟨o, ho, hover⟩ := h
  exact ⟨o, mem_append_left _ ho, hover⟩

theorem history_bySeq (hsorted : outs.Pairwise (·.seq < ·.seq))
    (hemits : ∀ out ∈ outs, Emits out.seq out.events) : BySeq (outs.flatMap (·.events)) := by
  induction outs with
  | nil => exact .nil
  | cons out outs ih =>
    obtain ⟨hfirst, hrest⟩ := pairwise_cons.1 hsorted
    have hown := (hemits out mem_cons_self).ofSeq
    rw [flatMap_cons]
    refine pairwise_append.2 ⟨?_, ih hrest fun o ho => hemits o (mem_cons_of_mem _ ho), ?_⟩
    · exact pairwise_of_forall_mem_list fun x hx y hy => by rw [hown x hx, hown y hy]
    · intro x hx y hy
      obtain ⟨o, ho, hy⟩ := mem_flatMap.1 hy
      rw [hown x hx, (hemits o (mem_cons_of_mem _ ho)).ofSeq y hy]
      exact Nat.le_of_lt (hfirst o ho)

/-- The events of a sequence are those of its command. -/
theorem history_at (hsorted : outs.Pairwise (·.seq < ·.seq))
    (hemits : ∀ out ∈ outs, Emits out.seq out.events) (hout : out ∈ outs) :
    (outs.flatMap (·.events)).filter (·.seq = out.seq) = out.events := by
  obtain ⟨before, later, rfl⟩ := append_of_mem hout
  have hother : ∀ o ∈ before ++ out :: later, o.seq ≠ out.seq →
      o.events.filter (·.seq = out.seq) = [] := by
    intro o ho hne
    rw [filter_eq_nil_iff]
    intro ev hev
    rw [decide_eq_true_eq, (hemits o ho).ofSeq ev hev]
    exact hne
  obtain ⟨-, hlater, hbefore⟩ := pairwise_append.1 hsorted
  have hnone : before.flatMap (fun o => o.events.filter (·.seq = out.seq)) = [] := by
    rw [flatMap_eq_nil_iff]
    intro o ho
    exact hother o (mem_append_left _ ho) (Nat.ne_of_lt (hbefore o ho out mem_cons_self))
  have hnone' : later.flatMap (fun o => o.events.filter (·.seq = out.seq)) = [] := by
    rw [flatMap_eq_nil_iff]
    intro o ho
    exact hother o (by simp [ho]) (Nat.ne_of_gt ((pairwise_cons.1 hlater).1 o ho))
  have hown : out.events.filter (·.seq = out.seq) = out.events := by
    rw [filter_eq_self]
    intro ev hev
    rw [decide_eq_true_eq]
    exact (hemits out hout).ofSeq ev hev
  rw [filter_flatMap, flatMap_append, flatMap_cons, hnone, hnone', hown]
  simp

theorem Tail.record {ring : EventRing} {dropped : List Event} (h : Tail capacity outs ring dropped)
    (hsorted : (outs ++ [out]).Pairwise (·.seq < ·.seq))
    (hemits : ∀ o ∈ outs ++ [out], Emits o.seq o.events) :
    ∃ dropped', Tail capacity (outs ++ [out]) (ring.recordWithLevels out.events out.levels)
      dropped' := by
  obtain ⟨hbefore, -, hlast⟩ := pairwise_append.1 hsorted
  have hlater : ∀ o ∈ outs, o.seq < out.seq := fun o ho => hlast o ho out mem_cons_self
  have hown : Emits out.seq out.events := hemits out (by simp)
  have hall : BySeq (dropped ++ ring.events) := by
    rw [h.split]
    exact history_bySeq hbefore fun o ho => hemits o (mem_append_left _ ho)
  have hold : ∀ x ∈ dropped ++ ring.events, x.seq < out.seq := by
    intro x hx
    rw [h.split] at hx
    obtain ⟨o, ho, hx⟩ := mem_flatMap.1 hx
    rw [(hemits o (mem_append_left _ ho)).ofSeq x hx]
    exact hlater o ho
  have hheld : ∀ x ∈ ring.events, x.seq < out.seq := fun x hx => hold x (mem_append_right _ hx)
  have hsorted' : BySeq (ring.events ++ out.events) :=
    pairwise_append.2 ⟨(pairwise_append.1 hall).2.1,
      pairwise_of_forall_mem_list fun x hx y hy => by rw [hown.ofSeq x hx, hown.ofSeq y hy],
      fun x hx y hy => by rw [hown.ofSeq y hy]; exact Nat.le_of_lt (hheld x hx)⟩
  obtain ⟨oldest, rest, holdest, heq⟩ := recordWithLevels_head ring out.levels hown
  obtain ⟨evicted, hsplit, hevicted, hfits⟩ := recordLoop_spec ring.capacity out.seq out.events
    ring.events (pairwise_append.1 hall).2.1 (fun x hx => Nat.le_of_lt (hheld x hx)) hown.ofSeq
  rw [← hsplit] at hsorted'
  rw [heq]
  unfold EventRing.record at holdest ⊢
  generalize EventRing.recordLoop ring.capacity ring.events out.events = held at *
  have hmem : ∀ y ∈ held, y ∈ ring.events ∨ y ∈ out.events := by
    intro y hy
    rw [← mem_append, ← hsplit]
    exact mem_append_right _ hy
  dsimp only at holdest
  obtain ⟨-, hheldSorted, hacross⟩ := pairwise_append.1 hsorted'
  refine ⟨dropped ++ evicted, h.sized, ?_, ?_, ?_, fun k hk => ?_⟩
  · rw [append_assoc, hsplit, ← append_assoc, h.split]
    simp
  · intro x hx y hy
    rcases mem_append.1 hx with hx | hx
    · rcases hmem y hy with hy | hy
      · exact (h.cut x hx y hy).imp_right fun hover => hover.mono out
      · rw [hown.ofSeq y hy]
        exact .inl (hold x (mem_append_left _ hx))
    · rcases hevicted x hx y hy with hlt | hseq
      · exact .inl hlt
      · -- the command evicted its own events, so it does not fit
        have hnone : ring.events.filter (·.seq = out.seq) = [] := by
          rw [filter_eq_nil_iff]
          intro z hz
          have := hheld z hz
          simp only [decide_eq_true_eq]
          omega
        rw [hnone, h.sized] at hfits
        have hover : ¬ Fits capacity out.events := fun hfit => hfits hfit x hx hseq
        have hle := hacross x hx y hy
        have hge : y.seq ≤ out.seq := by
          rcases hmem y hy with hy | hy
          · exact Nat.le_of_lt (hheld y hy)
          · exact Nat.le_of_eq (hown.ofSeq y hy)
        exact .inr ⟨out, by simp, by omega, hover⟩
  · intro y hy o ho hle
    have hreach : oldest.seq ≤ o.seq := by
      rw [holdest] at hy hheldSorted
      rcases mem_cons.1 hy with rfl | hy
      · exact hle
      · exact Nat.le_trans ((pairwise_cons.1 hheldSorted).1 y hy) hle
    rw [getElem?_recorded, if_pos hreach]
    rcases mem_append.1 ho with ho | ho
    · have hlt := hlater o ho
      rw [if_neg (by omega)]
      rcases hmem y hy with hy | hy
      · exact h.levels y hy o ho hle
      · rw [hown.ofSeq y hy] at hle
        omega
    · rw [mem_singleton.1 ho, if_pos rfl]
  · rw [ExtTreeMap.mem_iff_isSome_getElem?, getElem?_recorded] at hk
    split at hk
    · refine ⟨⟨oldest, by rw [holdest]; exact mem_cons_self, ‹_›⟩, ?_⟩
      split at hk
      · exact ⟨out, by simp, ‹_›⟩
      · obtain ⟨-, o, ho, hseq⟩ := h.known k (ExtTreeMap.mem_iff_isSome_getElem?.2 hk)
        exact ⟨o, mem_append_left _ ho, hseq⟩
    · cases hk

theorem recorded_tail (hsorted : outs.Pairwise (·.seq < ·.seq))
    (hemits : ∀ out ∈ outs, Emits out.seq out.events) (capacity : Nat) :
    ∃ dropped, Tail capacity outs (recorded capacity outs) dropped := by
  induction outs using List.reverseRecOn with
  | nil =>
    exact ⟨[], rfl, rfl, fun x hx => absurd hx not_mem_nil,
      fun y hy => absurd hy not_mem_nil, fun k hk => by simp [recorded, EventRing.new] at hk⟩
  | append_singleton outs out ih =>
    obtain ⟨dropped, htail⟩ := ih (pairwise_append.1 hsorted).1
      fun o ho => hemits o (mem_append_left _ ho)
    rw [recorded_concat]
    exact htail.record hsorted hemits

/-- What is held of a command that fits is all of it. -/
theorem Tail.whole {dropped : List Event} (h : Tail capacity outs ring dropped)
    (hsorted : outs.Pairwise (·.seq < ·.seq)) (hemits : ∀ out ∈ outs, Emits out.seq out.events)
    (hout : out ∈ outs) (hfits : Fits capacity out.events)
    (hheld : ∃ y ∈ ring.events, y.seq ≤ out.seq) :
    ring.events.filter (·.seq = out.seq) = out.events := by
  obtain ⟨y, hy, hseq⟩ := hheld
  have hall := history_bySeq hsorted hemits
  rw [← h.split] at hall
  have hgone : dropped.filter (·.seq = out.seq) = [] := by
    rw [filter_eq_nil_iff]
    intro x hx hxseq
    rw [decide_eq_true_eq] at hxseq
    have hle := (pairwise_append.1 hall).2.2 x hx y hy
    rcases h.cut x hx y hy with hcut | ⟨o, ho, hoseq, hover⟩
    · omega
    · rw [eq_of_seq hsorted ho hout (by omega)] at hover
      exact hover hfits
  have hsplit := congrArg (List.filter (·.seq = out.seq)) h.split
  rw [filter_append, hgone, nil_append] at hsplit
  rw [hsplit, history_at hsorted hemits hout]

end AtlasCex.Server

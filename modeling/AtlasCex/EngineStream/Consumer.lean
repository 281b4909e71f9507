import AtlasCex.EngineStream.Journal
import AtlasCex.Lib.Transition
import Mathlib.Data.List.Sort
/-!
# The sequenced consumer

| here | there |
| --- | --- |
| `follows`       | `follows` (`sequenced-consumer.ts:105-109`) |
| `HaltReason`    | the reasons `doHalt` is called with; `refused` stands for those `decode` and `haltReason` give |
| `Outcome`       | how `applyOne`'s loop over attempts ends: the transaction commits, the retries run out, or the error is a halt |
| `Task`          | where `runOnce` and `recover` are between two awaits |
| `advanceOffset` | `settlement.repository.ts:233-243`: the row only moves forward |
| `applyOne`      | `sequenced-consumer.ts:137-187`; `apply` and `advanceOffset` are one transaction |
| `Label.next`    | one turn of the loop over a batch (`:264-289`) or over a page (`:212-221`) |
| `Label.fetch`   | one call of `eventsAfter` (`:200-203`) |
| `Label.restart` | a new process: `init` (`:239-250`) |

The engine journals one sequence after another while the consumer reads; the stream hands over any
entries of what is journaled, in any order and any number of times. `committed` is a history of
the transactions that committed, oldest first: it is never read.
-/
namespace AtlasCex.EngineStream

variable {ε : Type}

/-- The key that must come next after `offset`, if the stream is contiguous. -/
def follows (offset key : EventKey) : Bool :=
  if key.seq = offset.seq then key.idx = offset.idx + 1
  else key.seq = offset.seq + 1 ∧ key.idx = 0

inductive HaltReason where
  | keyMismatch
  | reemissionGap
  | unrecoverableGap
  | refused (code : String)
deriving DecidableEq, Repr

inductive Outcome where
  | commits
  | gaveUp
  | refused (code : String)
deriving DecidableEq, Repr

/-- What `runOnce` does when `recover` returns true: the entry at the gap is looked at again, and
then the rest of the batch. `none` when the cycle ends there. -/
abbrev Resume (ε : Type) := Option (KeyedRaw ε × List (KeyedRaw ε))

inductive Task (ε : Type) where
  | idle
  /-- The entries of the batch the loop has not reached. -/
  | batch (todo : List (KeyedRaw ε))
  /-- About to ask for the page after `after`. -/
  | recover (after : Nat) (resume : Resume ε)
  /-- The items of a page not reached yet; the page ends with sequence `last`. -/
  | page (items : List (KeyedRaw ε)) (last : Nat) (resume : Resume ε)
  /-- Recovered: the second look at the entry the gap was found at. -/
  | resumed (entry : KeyedRaw ε) (todo : List (KeyedRaw ε))

def Task.isIdle : Task ε → Bool
  | .idle => true
  | _ => false

structure Consumer (ε : Type) where
  /-- How many sequences the engine has journaled. -/
  journaled : Nat
  /-- The consumer's row of `engine_offsets`. -/
  stored : Option EventKey
  committed : List (KeyedRaw ε)
  offset : EventKey
  halted : Option (EventKey × HaltReason)
  task : Task ε

inductive Label (ε : Type) where
  | journal
  | read (entries : List (KeyedRaw ε))
  | reset
  | empty (reachable : Bool)
  | next (outcome : Outcome)
  | fetch (last : Option Nat)
  | restart

namespace Consumer

def advanceOffset (stored : Option EventKey) (key : EventKey) : Option EventKey :=
  match stored with
  | none => some key
  | some row => if row < key then some key else some row

def doHalt (s : Consumer ε) (key : EventKey) (reason : HaltReason) : Consumer ε :=
  { s with halted := some (key, reason), task := .idle }

/-- Apply one event and go on with `task`; anything but a commit ends the cycle. -/
def applyOne (s : Consumer ε) (item : KeyedRaw ε) (outcome : Outcome) (task : Task ε) :
    Consumer ε :=
  if compareKeys item.key s.offset ≤ 0 then { s with task := task }
  else if item.raw.seq ≠ item.key.seq then s.doHalt item.key .keyMismatch
  else
    match outcome with
    | .commits =>
      { s with
        stored := advanceOffset s.stored item.key
        committed := s.committed ++ [item]
        offset := item.key
        task := task }
    | .gaveUp => { s with task := .idle }
    | .refused code => s.doHalt item.key (.refused code)

/-- The sequence before the offset's: the offset may sit in the middle of a sequence, and its
events are keyed by position. -/
def recover (s : Consumer ε) (resume : Resume ε) : Consumer ε :=
  { s with task := .recover (if 0 < s.offset.seq then s.offset.seq - 1 else 0) resume }

/-- One turn of the loop the consumer is in. -/
def next (s : Consumer ε) (outcome : Outcome) : Option (Consumer ε) :=
  match s.task with
  | .batch [] => some { s with task := .idle }
  | .batch (entry :: todo) =>
    if compareKeys entry.key s.offset ≤ 0 then some { s with task := .batch todo }
    else if !follows s.offset entry.key then some (s.recover (some (entry, todo)))
    else some (s.applyOne entry outcome (.batch todo))
  | .resumed entry todo =>
    if compareKeys entry.key s.offset ≤ 0 then some { s with task := .batch todo }
    else if !follows s.offset entry.key then some (s.doHalt entry.key .unrecoverableGap)
    else some (s.applyOne entry outcome (.batch todo))
  | .page [] last resume => some { s with task := .recover last resume }
  | .page (item :: items) last resume =>
    if compareKeys item.key s.offset ≤ 0 then some { s with task := .page items last resume }
    else if !follows s.offset item.key then some (s.doHalt item.key .reemissionGap)
    else some (s.applyOne item outcome (.page items last resume))
  | _ => none

/-- Where the cycle goes on once `recover` has returned true. -/
def afterRecovery : Resume ε → Task ε
  | none => .idle
  | some (entry, todo) => .resumed entry todo

/-- The engine's answer to `eventsAfter`: unreachable, or the whole sequences as far as `last`,
which is an empty page when the consumer has asked for everything there is. -/
def fetch (journal : Journal ε) (s : Consumer ε) (last : Option Nat) : Option (Consumer ε) :=
  match s.task, last with
  | .recover _ _, none => some { s with task := .idle }
  | .recover after resume, some last =>
    if s.journaled ≤ after then some { s with task := afterRecovery resume }
    else if after < last ∧ last ≤ s.journaled then
      some { s with task := .page (keyByPosition (journal.page after last)) last resume }
    else none
  | _, _ => none

/-- A cycle starts only when none is going on and nothing has halted the consumer. -/
def ready (s : Consumer ε) : Bool := s.halted.isNone && s.task.isIdle

def step [DecidableEq ε] (journal : Journal ε) (startKey : EventKey) (s : Consumer ε) :
    Label ε → Option (Consumer ε)
  | .journal =>
    if s.journaled < journal.outputs.length then some { s with journaled := s.journaled + 1 }
    else none
  | .read entries =>
    if s.ready ∧ entries ≠ [] ∧ ∀ entry ∈ entries, entry ∈ journal.upTo s.journaled then
      some { s with task := .batch (entries.insertionSort (compareKeys ·.key ·.key ≤ 0)) }
    else none
  | .reset => if s.ready then some (s.recover none) else none
  | .empty reachable =>
    if s.ready then
      if reachable ∧ s.offset.seq < s.journaled then some (s.recover none) else some s
    else none
  | .next outcome => s.next outcome
  | .fetch last => s.fetch journal last
  | .restart => some { s with offset := s.stored.getD startKey, halted := none, task := .idle }

/-- No row yet, nothing journaled, `startKey` configured. -/
def initial (startKey : EventKey) : Consumer ε := ⟨0, none, [], startKey, none, .idle⟩

/-! ## Where a task stands -/

section
variable (journal : Journal ε)

def ResumeAt (journaled : Nat) (resume : Resume ε) : Prop :=
  ∀ entry todo, resume = some (entry, todo) → ∀ x ∈ entry :: todo, x ∈ journal.upTo journaled

/-- What is known of a task's data, given the offset: stream entries are of the journal, a recovery
has left no sequence behind it, and the items of a page are the next ones of the journal. -/
def TaskAt (journaled : Nat) (offset : EventKey) : Task ε → Prop
  | .idle => True
  | .batch todo => ∀ x ∈ todo, x ∈ journal.upTo journaled
  | .recover after resume =>
    (∀ x ∈ journal.upTo after, x.key ≤ offset) ∧ ResumeAt journal journaled resume
  | .page items last resume =>
    (∃ before, journal.upTo last = before ++ items ∧ ∀ x ∈ before, x.key ≤ offset) ∧
      ResumeAt journal journaled resume
  | .resumed entry todo => entry.key ≤ offset ∧ ∀ x ∈ todo, x ∈ journal.upTo journaled

structure Standing (startKey : EventKey) (s : Consumer ε) : Prop where
  journaled : s.journaled ≤ journal.outputs.length
  offset : s.offset = s.stored.getD startKey
  start_le : startKey ≤ s.offset
  task : TaskAt journal s.journaled s.offset s.task

end

variable {journal : Journal ε} {startKey offset : EventKey} {journaled : Nat} {task : Task ε}
  {s s' : Consumer ε}

theorem upTo_mono {m n : Nat} (h : m ≤ n) {x : KeyedRaw ε} (hx : x ∈ journal.upTo m) :
    x ∈ journal.upTo n := by
  rw [Journal.mem_upTo] at hx ⊢
  exact ⟨hx.1, hx.2.trans h⟩

theorem TaskAt.mono {offset' : EventKey} {journaled' : Nat} (hj : journaled ≤ journaled')
    (ho : offset ≤ offset') (h : TaskAt journal journaled offset task) :
    TaskAt journal journaled' offset' task := by
  have hresume : ∀ {resume : Resume ε}, ResumeAt journal journaled resume →
      ResumeAt journal journaled' resume :=
    fun hr entry todo he x hx => upTo_mono hj (hr entry todo he x hx)
  cases task with
  | idle => trivial
  | batch todo => exact fun x hx => upTo_mono hj (h x hx)
  | recover after resume => exact ⟨fun x hx => EventKey.le_trans (h.1 x hx) ho, hresume h.2⟩
  | page items last resume =>
    obtain ⟨⟨before, heq, hle⟩, hr⟩ := h
    exact ⟨⟨before, heq, fun x hx => EventKey.le_trans (hle x hx) ho⟩, hresume hr⟩
  | resumed entry todo => exact ⟨EventKey.le_trans h.1 ho, fun x hx => upTo_mono hj (h.2 x hx)⟩

/-- Recovery starts with the whole of the offset's sequence still to come. -/
theorem recover_at {resume : Resume ε} (h : ResumeAt journal s.journaled resume) :
    TaskAt journal s.journaled s.offset (s.recover resume).task := by
  refine ⟨?_, h⟩
  intro x hx
  obtain ⟨hmem, hle⟩ := Journal.mem_upTo.1 hx
  have hpos := Journal.seq_pos hmem
  split at hle
  · exact .inl (by omega)
  · omega

/-! ## The next event -/

theorem follows_iff {key : EventKey} : follows offset key = true ↔
    key.seq = offset.seq ∧ key.idx = offset.idx + 1 ∨
      key.seq = offset.seq + 1 ∧ key.idx = 0 := by
  unfold follows
  split
  · simp only [decide_eq_true_eq]; omega
  · simp only [decide_eq_true_eq]; omega

theorem lt_of_follows {key : EventKey} (h : follows offset key = true) : offset < key := by
  rw [follows_iff] at h
  rw [EventKey.lt_def]
  omega

/-- In a journal without empty sequences the least event above any key follows it. -/
theorem follows_of_least {x : KeyedRaw ε} (hx : x ∈ journal.items) (hlt : offset < x.key)
    (hleast : ∀ y ∈ journal.items, y.key < x.key → y.key ≤ offset) :
    follows offset x.key = true := by
  -- a position the event would skip is taken, and its event lies between the two keys
  have hno : ∀ key : EventKey, (∃ y ∈ journal.items, y.key = key) → key < x.key → key ≤ offset := by
    rintro _ ⟨y, hy, rfl⟩
    exact hleast y hy
  have hidx : ∀ idx, idx < x.key.idx → (⟨x.key.seq, idx⟩ : EventKey) ≤ offset := fun idx h =>
    hno _ (Journal.earlier_idx hx h) (.inr ⟨rfl, h⟩)
  have hseq : ∀ seq, 0 < seq → seq < x.key.seq → (⟨seq, 0⟩ : EventKey) ≤ offset := fun seq h h' =>
    hno _ (Journal.first_of_seq hx h (Nat.le_of_lt h')) (.inl h')
  rw [follows_iff]
  simp only [EventKey.le_def] at hidx hseq
  rcases hlt with hlt | ⟨heq, hlt⟩
  · right
    constructor
    · by_contra hne
      have := hseq (offset.seq + 1) (by omega) (by omega)
      omega
    · by_contra hne
      have := hidx 0 (by omega)
      omega
  · left
    refine ⟨heq.symm, ?_⟩
    by_contra hne
    have := hidx (offset.idx + 1) (by omega)
    omega

end Consumer

end AtlasCex.EngineStream

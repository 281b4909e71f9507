import AtlasCex.Lib.Selection
import AtlasCex.Matching.Simulation
import AtlasCex.Matching.Touched
/-!
# The durable engine (`services/matching/src/runtime.rs`, `snapshot.rs`, `journal.rs`)

| here | there |
| --- | --- |
| `Snapshot`, `Disk` | `snapshot.rs:21-25`; the journal file and the snapshot file |
| `replay` | the loop of `journal::replay`, `journal.rs:144-170` |
| `Runtime.recover` | `runtime.rs:41-66` |
| `Runtime.append`, `Runtime.applyJournaled`, `Runtime.submitWithLevels` | `runtime.rs:89-108` |
| `Runtime.writeSnapshot` | `runtime.rs:110-120` |
| `Runtime.replayFromScratch`, `Runtime.replayWithLevels` | `runtime.rs:125-160` |

The journal is the list of its records: an append is durable before it returns, and a torn tail is
a record that was never there. A snapshot is renamed into place, so it is on disk whole or not at
all; writing it may fail (`writes`), after the command was journaled and matched.
-/
namespace AtlasCex.Server
open List
open Matching

structure Snapshot where
  lastSeq : Nat
  book : OrderBook

structure Disk where
  journal : List SequencedCommand
  snapshot : Option Snapshot

def Disk.empty : Disk := ⟨[], none⟩

/-- The fields of `Config` the service reads. -/
structure Config where
  market : MarketConfig
  snapshotEveryN : Nat
  watermarkSyncEvery : Nat
  eventRingCapacity : Nat

/-- The records after `afterSeq`; `none` is `SequenceRegression`. The pair is `(commands, last_seq)`. -/
def replayLoop (afterSeq : Nat) : List SequencedCommand → List SequencedCommand × Nat →
    Option (List SequencedCommand × Nat)
  | [], st => some st
  | c :: records, (commands, lastSeq) =>
    if c.seq ≤ lastSeq ∧ commands ≠ [] then none
    else if afterSeq < c.seq then replayLoop afterSeq records (commands ++ [c], c.seq)
    else replayLoop afterSeq records (commands, max lastSeq c.seq)

def replay (journal : List SequencedCommand) (afterSeq : Nat) : Option (List SequencedCommand) :=
  (replayLoop afterSeq journal ([], afterSeq)).map Prod.fst

/-- One command through the engine, with the levels it left changed. -/
def applyWithLevels (e : Engine) (c : SequencedCommand) : SequenceOutput × Engine :=
  let (events, e) := e.apply c
  let (levels, e) := e.takeLevelChanges
  (⟨c.seq, events, levels⟩, e)

structure Runtime where
  engine : Engine
  disk : Disk
  snapshotEveryN : Nat
  lastSnapshotSeq : Nat

namespace Runtime

def recover (config : Config) (disk : Disk) : Option Runtime :=
  let (book, fromSeq) := match disk.snapshot with
    | some snapshot => (snapshot.book, snapshot.lastSeq)
    | none => (OrderBook.new, 0)
  (replay disk.journal fromSeq).map fun commands =>
    let engine := ((Engine.withBook config.market book fromSeq).run commands).2
    { engine := engine.clear
      disk := disk
      snapshotEveryN := config.snapshotEveryN
      lastSnapshotSeq := fromSeq }

def nextSeq (rt : Runtime) : Nat := rt.engine.lastSeq + 1

def append (rt : Runtime) (timestampMs : Int) (command : Command) : SequencedCommand × Runtime :=
  let sequenced := ⟨rt.nextSeq, timestampMs, command⟩
  (sequenced, { rt with disk := { rt.disk with journal := rt.disk.journal ++ [sequenced] } })

/-- `touched` is `#[serde(skip)]`: it is not in the file. -/
def writeSnapshot (rt : Runtime) : Runtime :=
  { rt with
    disk := { rt.disk with snapshot := some ⟨rt.engine.lastSeq, rt.engine.clear.book⟩ }
    lastSnapshotSeq := rt.engine.lastSeq }

def snapshotDue (rt : Runtime) (seq : Nat) : Bool :=
  rt.snapshotEveryN ≤ seq - rt.lastSnapshotSeq

/-- Match a journaled command, then snapshot on cadence. `none` is the `?` on a snapshot that could
not be written: the command has happened and the caller gets neither its events nor its levels. -/
def applyJournaled (rt : Runtime) (sequenced : SequencedCommand) (writes : Bool) :
    Option SequenceOutput × Runtime :=
  let (output, engine) := applyWithLevels rt.engine sequenced
  let rt := { rt with engine }
  if rt.snapshotDue sequenced.seq then
    if writes then (some output, rt.writeSnapshot) else (none, rt)
  else (some output, rt)

def submitWithLevels (rt : Runtime) (timestampMs : Int) (command : Command) (writes : Bool) :
    Option SequenceOutput × Runtime :=
  let (sequenced, rt) := rt.append timestampMs command
  rt.applyJournaled sequenced writes

def replayFromScratch (market : MarketConfig) (journal : List SequencedCommand) :
    Option (Engine × List Event) :=
  (replay journal 0).map fun commands =>
    let (events, engine) := (Engine.new market).run commands
    (engine, events.flatten)

def replayWithLevels (market : MarketConfig) (journal : List SequencedCommand) :
    Option (List SequenceOutput) :=
  (replay journal 0).map fun commands =>
    (Lib.run applyWithLevels (Engine.new market) commands).1

end Runtime

/-! ## The journal -/

/-- A journal whose records are numbered from one, without gaps. -/
def Numbered (journal : List SequencedCommand) : Prop :=
  journal.map SequencedCommand.seq = List.range' 1 journal.length

variable {journal : List SequencedCommand}

theorem Numbered.append (h : Numbered journal)
    {c : SequencedCommand} (hc : c.seq = journal.length + 1) : Numbered (journal ++ [c]) := by
  unfold Numbered at h ⊢
  rw [map_append, h, length_append, length_singleton, List.range'_concat]
  simp [hc, Nat.add_comm]

theorem Numbered.sequenced (h : Numbered journal) :
    journal.Pairwise (·.seq < ·.seq) := by
  have : (journal.map SequencedCommand.seq).Pairwise (· < ·) := by
    rw [h]; exact pairwise_lt_range'
  exact pairwise_map.1 this

/-- On a numbered journal the check for a regression never fires. -/
theorem replayLoop_eq (afterSeq : Nat) : ∀ (records commands : List SequencedCommand)
    (lastSeq : Nat), (∀ c ∈ records, lastSeq < c.seq ∨ commands = []) →
    records.Pairwise (·.seq < ·.seq) →
    ∃ last, replayLoop afterSeq records (commands, lastSeq) =
      some (commands ++ records.filter (afterSeq < ·.seq), last)
  | [], commands, lastSeq, _, _ => ⟨lastSeq, by simp [replayLoop]⟩
  | c :: records, commands, lastSeq, hlast, hsorted => by
    rw [pairwise_cons] at hsorted
    have hok : ¬(c.seq ≤ lastSeq ∧ commands ≠ []) := by
      rintro ⟨hle, hne⟩
      rcases hlast c (by simp) with h | h
      · omega
      · exact hne h
    rw [replayLoop, if_neg hok]
    by_cases hafter : afterSeq < c.seq
    · obtain ⟨last, hl⟩ := replayLoop_eq afterSeq records (commands ++ [c]) c.seq
        (fun c' hc' => .inl (hsorted.1 c' hc')) hsorted.2
      refine ⟨last, ?_⟩
      rw [if_pos hafter, hl, filter_cons_of_pos (by simpa using hafter)]
      simp
    · have hlast' : ∀ c' ∈ records, max lastSeq c.seq < c'.seq ∨ commands = [] := by
        intro c' hc'
        have := hsorted.1 c' hc'
        rcases hlast c' (by simp [hc']) with h | h
        · left; omega
        · exact .inr h
      obtain ⟨last, hl⟩ := replayLoop_eq afterSeq records commands _ hlast' hsorted.2
      exact ⟨last, by rw [if_neg hafter, hl, filter_cons_of_neg (by simpa using hafter)]⟩

/-- **Replay is a suffix**: of a numbered journal, what comes after the first `n` records. -/
theorem Numbered.replay (h : Numbered journal) (n : Nat) :
    replay journal n = some (journal.drop n) := by
  obtain ⟨last, hl⟩ := replayLoop_eq n journal [] n (fun _ _ => .inr rfl) h.sequenced
  rw [AtlasCex.Server.replay, hl, Option.map_some, nil_append, ← Lib.filter_numbered n h]
  congr 1
  apply filter_congr
  intro c _
  simp only [decide_eq_decide]; omega

/-! ## Engines over a journal -/

/-- The status a list of commands leaves: the last one set, or the one they began with. -/
def statusAfter (status : MarketStatus) (commands : List Command) : MarketStatus :=
  commands.foldl (fun status command => match command with
    | .setStatus status => status
    | _ => status) status

theorem place_market (e : Engine) (seq : Nat) (timestampMs : Int) (orderId : OrderId)
    (request : OrderRequest) : (e.place seq timestampMs orderId request).2.market = e.market := by
  unfold Engine.place; split <;> rfl

theorem apply_market (e : Engine) (c : SequencedCommand) :
    (e.apply c).2.market = { e.market with status := statusAfter e.market.status [c.command] } := by
  unfold Engine.apply
  cases c.command with
  | place orderId request => simp only [place_market]; rfl
  | cancel orderId => simp only [Engine.cancel]; split <;> rfl
  | amend orderId newOrderId price qty =>
    simp only [Engine.amend]
    split
    · rfl
    · simp only [place_market]; rfl
  | setStatus status => rfl

theorem run_market (e : Engine) (commands : List SequencedCommand) :
    (e.run commands).2.market =
      { e.market with status := statusAfter e.market.status (commands.map (·.command)) } := by
  induction commands using List.reverseRecOn with
  | nil => rfl
  | append_singleton commands c ih =>
    unfold Engine.run at ih ⊢
    rw [Lib.run_concat, apply_market, ih]
    simp only [statusAfter, map_append, foldl_append, map_cons, map_nil]

/-- Dropping what each command touched, one at a time, or never: the same events and engine. -/
theorem run_applyWithLevels_same {e e' : Engine} (h : e.Same e') (commands : List SequencedCommand) :
    (Lib.run applyWithLevels e commands).1.map SequenceOutput.events = (e'.run commands).1 ∧
      (Lib.run applyWithLevels e commands).2.Same (e'.run commands).2 := by
  induction commands using List.reverseRecOn with
  | nil => exact ⟨rfl, h⟩
  | append_singleton commands c ih =>
    unfold Engine.run at ih ⊢
    obtain ⟨hevents, hsame⟩ := ih
    obtain ⟨hlast, hsame'⟩ := hsame.apply c
    rw [Lib.run_concat, Lib.run_concat]
    refine ⟨?_, (Engine.same_clear _).trans hsame'⟩
    simp only [map_append, hevents, map_cons, map_nil, ← hlast]
    rfl

/-- The engine a journal leaves when it is replayed from nothing. -/
def scratch (market : MarketConfig) (journal : List SequencedCommand) : Engine :=
  ((Engine.new market).run journal).2

theorem scratch_append (market : MarketConfig) (journal later : List SequencedCommand) :
    scratch market (journal ++ later) = ((scratch market journal).run later).2 := by
  unfold scratch Engine.run; rw [Lib.run_append]

theorem scratch_status (market : MarketConfig) (journal : List SequencedCommand) :
    (scratch market journal).market =
      { market with status := statusAfter market.status (journal.map (·.command)) } :=
  run_market (Engine.new market) journal

/-- A run leaves the sequence of its last command. -/
theorem run_lastSeq (e : Engine) (commands : List SequencedCommand) :
    (e.run commands).2.lastSeq = ((commands.map SequencedCommand.seq).getLast?).getD e.lastSeq := by
  induction commands using List.reverseRecOn with
  | nil => rfl
  | append_singleton commands c _ =>
    unfold Engine.run
    rw [Lib.run_concat, map_append]
    simp [apply_lastSeq]

/-- Whatever engine the tail of a numbered journal is replayed into, it ends on the last record. -/
theorem Numbered.run_drop (h : Numbered journal) {n : Nat}
    (hle : n ≤ journal.length) {e : Engine} (he : e.lastSeq = n) :
    (e.run (journal.drop n)).2.lastSeq = journal.length := by
  rw [run_lastSeq, map_drop, h, drop_range', getLast?_range', he]
  split
  · simp only [Option.getD_none]; omega
  · simp only [Option.getD_some]; omega

theorem Numbered.scratch_take (h : Numbered journal)
    (market : MarketConfig) {n : Nat} (hle : n ≤ journal.length) :
    (scratch market (journal.take n)).lastSeq = n := by
  have htake : Numbered (journal.take n) := by
    unfold Numbered at h ⊢
    rw [map_take, h, length_take_of_le hle]
    have hsplit : List.range' 1 n ++ List.range' (1 + n) (journal.length - n) =
        List.range' 1 journal.length := by
      rw [List.range'_append_1, Nat.add_sub_cancel' hle]
    rw [← hsplit, take_left' (by simp)]
  have hrun := htake.run_drop (Nat.zero_le _) (show (Engine.new market).lastSeq = 0 from rfl)
  rwa [drop_zero, length_take_of_le hle] at hrun

/-! ## Runs of a runtime -/

inductive RuntimeStep where
  | submit (timestampMs : Int) (command : Command)
  | restart

/-- A submit whose snapshot, if one is due, is written; or a restart from what is on disk. -/
def Runtime.step (config : Config) (rt : Runtime) : RuntimeStep → Option Runtime
  | .submit timestampMs command => some (rt.submitWithLevels timestampMs command true).2
  | .restart => recover config rt.disk

/-- A runtime started on an empty disk and taken through `steps`. -/
def Runtime.runFrom (config : Config) (steps : List RuntimeStep) : Option Runtime :=
  (recover config Disk.empty).bind fun rt => Lib.exec (step config) rt steps

def submitted (steps : List RuntimeStep) : List Command :=
  steps.filterMap fun
    | .submit _ command => some command
    | .restart => none

/-- Where a snapshot taken every `n` sequences last fell among `k`. -/
def lastSnapshotAt (n k : Nat) : Nat := if n = 0 then k else n * (k / n)

/-- A snapshot falls after exactly `k` commands. -/
def SnapshotAt (n k : Nat) : Prop := 0 < k ∧ (n = 0 ∨ n ∣ k)

theorem lastSnapshotAt_le (n k : Nat) : lastSnapshotAt n k ≤ k := by
  unfold lastSnapshotAt
  split
  · omega
  · exact Nat.mul_div_le k n

/-- The cadence check of `submit_with_levels`, in terms of how many commands there were. -/
theorem due_iff (n k : Nat) : n ≤ k + 1 - lastSnapshotAt n k ↔ SnapshotAt n (k + 1) := by
  unfold lastSnapshotAt SnapshotAt
  rcases Nat.eq_zero_or_pos n with rfl | hn
  · simp
  · rw [if_neg (by omega)]
    have hdiv := Nat.div_add_mod k n
    have hmod := Nat.mod_lt k hn
    have hsplit : k + 1 = n * (k / n) + (k % n + 1) := by omega
    have hdvd : n ∣ k + 1 ↔ k % n + 1 = n := by
      rw [hsplit, Nat.dvd_add_right (Nat.dvd_mul_right n _)]
      constructor
      · intro h
        have := Nat.le_of_dvd (by omega) h
        omega
      · intro h
        exact ⟨1, by omega⟩
    rw [hdvd]
    omega

theorem lastSnapshotAt_succ (n k : Nat) :
    lastSnapshotAt n (k + 1) =
      if n ≤ k + 1 - lastSnapshotAt n k then k + 1 else lastSnapshotAt n k := by
  have hdue := due_iff n k
  split
  · rename_i h
    obtain ⟨-, rfl | ⟨m, hm⟩⟩ := hdue.1 h
    · rfl
    · unfold lastSnapshotAt
      split
      · rfl
      · rw [hm, Nat.mul_div_cancel_left _ (by omega)]
  · rename_i h
    have hn : ¬(n = 0 ∨ n ∣ k + 1) := fun hs => h (hdue.2 ⟨by omega, hs⟩)
    rw [not_or] at hn
    unfold lastSnapshotAt
    rw [if_neg hn.1, if_neg hn.1, Nat.succ_div_of_not_dvd hn.2]

/-! ## What a submit does -/

/-- Everything `applyJournaled` leaves behind. -/
structure Applied (rt : Runtime) (c : SequencedCommand) (writes : Bool) (rt' : Runtime) : Prop where
  engine : rt'.engine = (applyWithLevels rt.engine c).2
  journal : rt'.disk.journal = rt.disk.journal
  cadence : rt'.snapshotEveryN = rt.snapshotEveryN
  files : (rt.snapshotDue c.seq = true ∧ writes = true ∧ rt'.lastSnapshotSeq = c.seq ∧
      rt'.disk.snapshot = some ⟨c.seq, rt'.engine.book⟩) ∨
    (¬(rt.snapshotDue c.seq = true ∧ writes = true) ∧ rt'.lastSnapshotSeq = rt.lastSnapshotSeq ∧
      rt'.disk.snapshot = rt.disk.snapshot)

theorem applied (rt : Runtime) (c : SequencedCommand) (writes : Bool) :
    Applied rt c writes (rt.applyJournaled c writes).2 := by
  have hseq : (applyWithLevels rt.engine c).2.lastSeq = c.seq := apply_lastSeq rt.engine c
  unfold Runtime.applyJournaled
  simp only
  cases hdue : rt.snapshotDue c.seq with
  | false =>
    have : ({ rt with engine := (applyWithLevels rt.engine c).2 } : Runtime).snapshotDue c.seq =
      false := hdue
    simp only [this, Bool.false_eq_true, if_false]
    exact ⟨rfl, rfl, rfl, .inr ⟨by simp [hdue], rfl, rfl⟩⟩
  | true =>
    have : ({ rt with engine := (applyWithLevels rt.engine c).2 } : Runtime).snapshotDue c.seq =
      true := hdue
    simp only [this, if_true]
    cases writes with
    | false =>
      simp only [Bool.false_eq_true, if_false]
      exact ⟨rfl, rfl, rfl, .inr ⟨by simp, rfl, rfl⟩⟩
    | true =>
      refine ⟨rfl, rfl, rfl, .inl ⟨hdue, rfl, hseq, ?_⟩⟩
      show some (Snapshot.mk _ _) = some (Snapshot.mk _ _)
      rw [hseq]; rfl

theorem Applied.of_eq {rt rt' : Runtime} {c : SequencedCommand} {writes : Bool}
    {out : Option SequenceOutput} (h : rt.applyJournaled c writes = (out, rt')) :
    Applied rt c writes rt' := by
  have happ := applied rt c writes
  rwa [h] at happ

/-- The caller gets the output, unless a snapshot was due and could not be written. -/
theorem applyJournaled_output (rt : Runtime) (c : SequencedCommand) (writes : Bool) :
    (rt.applyJournaled c writes).1 =
      if rt.snapshotDue c.seq = true ∧ writes = false then none
      else some (applyWithLevels rt.engine c).1 := by
  unfold Runtime.applyJournaled
  simp only [Runtime.snapshotDue]
  by_cases hdue : rt.snapshotEveryN ≤ c.seq - rt.lastSnapshotSeq <;> cases writes <;> simp [hdue]

/-- What is on disk is in order: the journal is numbered, and the snapshot is of a point in it. -/
structure Files (rt : Runtime) : Prop where
  numbered : Numbered rt.disk.journal
  last_le : rt.lastSnapshotSeq ≤ rt.disk.journal.length
  snapshot : ∀ s, rt.disk.snapshot = some s → s.lastSeq = rt.lastSnapshotSeq
  absent : rt.disk.snapshot = none → rt.lastSnapshotSeq = 0

/-- What `recover` starts from: the snapshot's book, or an empty one. -/
def Disk.base (disk : Disk) : OrderBook × Nat :=
  match disk.snapshot with
  | some snapshot => (snapshot.book, snapshot.lastSeq)
  | none => (OrderBook.new, 0)

section
variable {config : Config} {rt rt' : Runtime} {c : SequencedCommand}

theorem Files.empty (market : MarketConfig) : Files ⟨Engine.new market, Disk.empty, 0, 0⟩ :=
  ⟨rfl, Nat.le_refl _, fun _ hs => (nomatch hs), fun _ => rfl⟩

theorem Files.base_seq (h : Files rt) : rt.disk.base.2 = rt.lastSnapshotSeq := by
  unfold Disk.base
  cases hs : rt.disk.snapshot with
  | none => exact (h.absent hs).symm
  | some s => exact h.snapshot s hs

/-- Recovery on such a disk never fails: it replays the records after the snapshot. -/
theorem Files.recover (h : Files rt) (config : Config) : Runtime.recover config rt.disk = some
    { engine := ((Engine.withBook config.market rt.disk.base.1 rt.lastSnapshotSeq).run
        (rt.disk.journal.drop rt.lastSnapshotSeq)).2.clear
      disk := rt.disk
      snapshotEveryN := config.snapshotEveryN
      lastSnapshotSeq := rt.lastSnapshotSeq } := by
  have hreplay := h.numbered.replay rt.lastSnapshotSeq
  have hbase := h.base_seq
  unfold Runtime.recover
  unfold Disk.base at hbase ⊢
  cases hs : rt.disk.snapshot with
  | none => rw [hs] at hbase; simp only at hbase ⊢; rw [hbase, hreplay]; rfl
  | some s => rw [hs] at hbase; simp only at hbase ⊢; rw [hbase, hreplay]; rfl

/-- A restart leaves the files as they were, and sequencing resumes after the last record. -/
theorem Files.restart (h : Files rt) (hrec : Runtime.recover config rt.disk = some rt') :
    Files rt' ∧ rt'.disk = rt.disk ∧ rt'.lastSnapshotSeq = rt.lastSnapshotSeq ∧
      rt'.snapshotEveryN = config.snapshotEveryN ∧
      rt'.engine.lastSeq = rt.disk.journal.length := by
  rw [h.recover] at hrec
  cases hrec
  exact ⟨⟨h.numbered, h.last_le, h.snapshot, h.absent⟩, rfl, rfl, rfl,
    h.numbered.run_drop h.last_le rfl⟩

theorem Files.append (h : Files rt) (hseq : rt.engine.lastSeq = rt.disk.journal.length)
    (timestampMs : Int) (command : Command) : Files (rt.append timestampMs command).2 := by
  refine ⟨h.numbered.append ?_, ?_, h.snapshot, h.absent⟩
  · show rt.engine.lastSeq + 1 = _
    rw [hseq]
  · show rt.lastSnapshotSeq ≤ (rt.disk.journal ++ [_]).length
    rw [length_append]
    exact Nat.le_add_right_of_le h.last_le

theorem Files.applied (h : Files rt) {writes : Bool} (happ : Applied rt c writes rt')
    (hc : c.seq ≤ rt.disk.journal.length) : Files rt' := by
  have hjournal := happ.journal
  rcases happ.files with ⟨-, -, hlast, hsnap⟩ | ⟨-, hlast, hsnap⟩
  · refine ⟨hjournal ▸ h.numbered, by rw [hlast, hjournal]; exact hc, ?_, ?_⟩
    · intro s hs
      rw [hsnap] at hs; cases hs; exact hlast.symm
    · intro hs
      rw [hsnap] at hs; cases hs
  · refine ⟨hjournal ▸ h.numbered, by rw [hlast, hjournal]; exact h.last_le, ?_, ?_⟩
    · intro s hs
      rw [hsnap] at hs; rw [hlast]; exact h.snapshot s hs
    · intro hs
      rw [hsnap] at hs; rw [hlast]; exact h.absent hs

end

/-- Where a run stands after `k` commands: what is in the files and the counters. True of every
run, whatever a restart made of the status. -/
structure Stands (config : Config) (commands : List Command) (rt : Runtime) : Prop
    extends Files rt where
  journal : rt.disk.journal.map (·.command) = commands
  lastSeq : rt.engine.lastSeq = commands.length
  cadence : rt.snapshotEveryN = config.snapshotEveryN
  last : rt.lastSnapshotSeq = lastSnapshotAt config.snapshotEveryN commands.length

section
variable {config : Config} {commands : List Command} {rt : Runtime}

theorem Stands.length (h : Stands config commands rt) :
    rt.disk.journal.length = commands.length := by
  rw [← h.journal, length_map]

theorem Stands.start (config : Config) : ∃ rt, Runtime.recover config Disk.empty = some rt ∧
    Stands config [] rt := by
  refine ⟨_, rfl, ⟨⟨rfl, Nat.le_refl _, fun s hs => ?_, fun _ => rfl⟩, rfl, rfl, rfl, ?_⟩⟩
  · cases hs
  · show 0 = lastSnapshotAt _ 0
    unfold lastSnapshotAt; split <;> simp

/-- A submit: one more record, one more command, and a snapshot where the cadence says so. -/
theorem Stands.submit (h : Stands config commands rt) (timestampMs : Int) (command : Command) :
    Stands config (commands ++ [command]) (rt.submitWithLevels timestampMs command true).2 := by
  have hseq : rt.nextSeq = commands.length + 1 := by rw [Runtime.nextSeq, h.lastSeq]
  have hfiles := h.append (h.lastSeq.trans h.length.symm) timestampMs command
  have happ := applied (rt.append timestampMs command).2 (rt.append timestampMs command).1 true
  unfold Runtime.submitWithLevels
  simp only
  generalize ((rt.append timestampMs command).2.applyJournaled _ true).2 = rt' at happ
  have hjournal : rt'.disk.journal = rt.disk.journal ++ [⟨rt.nextSeq, timestampMs, command⟩] :=
    happ.journal
  have hdue : (rt.append timestampMs command).2.snapshotDue (rt.append timestampMs command).1.seq =
      decide (config.snapshotEveryN ≤
        commands.length + 1 - lastSnapshotAt config.snapshotEveryN commands.length) := by
    show decide (rt.snapshotEveryN ≤ rt.nextSeq - rt.lastSnapshotSeq) = _
    rw [h.cadence, hseq, h.last]
  refine ⟨hfiles.applied happ ?_, ?_, ?_, happ.cadence.trans h.cadence, ?_⟩
  · show rt.nextSeq ≤ (rt.disk.journal ++ [_]).length
    rw [hseq, length_append, h.length, length_singleton]
  · rw [hjournal, map_append, h.journal]; rfl
  · rw [happ.engine, length_append, length_singleton]
    exact (apply_lastSeq rt.engine _).trans hseq
  · rw [length_append, length_singleton, lastSnapshotAt_succ]
    rcases happ.files with ⟨hd, -, hlast, -⟩ | ⟨hd, hlast, -⟩
    · rw [hdue, decide_eq_true_eq] at hd
      rw [if_pos hd, hlast]; exact hseq
    · rw [hdue, decide_eq_true_eq, and_iff_left rfl] at hd
      rw [if_neg hd, hlast]; exact h.last

theorem Stands.restart (h : Stands config commands rt) {rt' : Runtime}
    (hrec : Runtime.recover config rt.disk = some rt') : Stands config commands rt' := by
  obtain ⟨hfiles, hdisk, hlast, hevery, hseq⟩ := h.toFiles.restart hrec
  exact ⟨hfiles, hdisk ▸ h.journal, hseq.trans h.length, hevery, hlast.trans h.last⟩

end

end AtlasCex.Server

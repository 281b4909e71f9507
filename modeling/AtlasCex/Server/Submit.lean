import AtlasCex.Server.Egress
import AtlasCex.Server.Recovery
/-!
# The service, step by step (`services/matching/src/service.rs`, `lookup.rs`)

| here | there |
| --- | --- |
| `LookupIndex` | `lookup.rs:33-80` |
| `replayOutputsAfter`, `outputsFrom` | `service.rs:223-243` |
| `boot` | `Service::recover`, `republish_gap`, `service.rs:42-95` |
| `Step.append` .. `Step.confirm` | `Service::submit`, `service.rs:147-207`, cut where it can be seen |

`submit` takes the runtime lock, then the egress lock before it lets go of the first. So at any
moment one call may be inside the runtime and one behind it on the way out; `RuntimeTask` and
`EgressTask` say how far each has come. A step is what happens between two points where another
task can look, an error can return or the future can be dropped:

* `append` and `apply` are not separated by an await, so a future is not dropped between them, but
  the process can die there and a lookup can run on another thread;
* `index` covers the lookup record, the ring record and the choice of what to republish, which
  follow one another with no await between them;
* `publish` is one `XADD`; `abandon` is an error, a timeout or a dropped future, at any point after
  the egress lock was taken.

`restart` may find the process anywhere, and the watermark file behind where it was last seen.
-/
namespace AtlasCex.Server
open List
open Matching
open Std (ExtTreeMap)

inductive LookupOutcome where
  | neverSeen
  | seen (seq : Nat) (orderId : OrderId)
  | rebuilding
deriving DecidableEq, Repr

structure LookupIndex where
  entries : ExtTreeMap String (Nat × OrderId)
  ready : Bool

namespace LookupIndex

def insertPlacement (entries : ExtTreeMap String (Nat × OrderId)) (c : SequencedCommand) :
    ExtTreeMap String (Nat × OrderId) :=
  match c.command with
  | .place orderId request => entries.insert request.clientOrderId (c.seq, orderId)
  | _ => entries

def rebuild (journal : List SequencedCommand) : Option LookupIndex :=
  (replay journal 0).map fun commands => ⟨commands.foldl insertPlacement ∅, true⟩

/-- The `if let Some(..) = placement` of `submit`, with `record_with_order_id` inside. -/
def record (index : LookupIndex) (c : SequencedCommand) : LookupIndex :=
  { index with entries := insertPlacement index.entries c }

def get (index : LookupIndex) (clientOrderId : String) : LookupOutcome :=
  if !index.ready then .rebuilding
  else
    match index.entries[clientOrderId]? with
    | some (seq, orderId) => .seen seq orderId
    | none => .neverSeen

end LookupIndex

def levelsOf (outputs : List SequenceOutput) : LevelsBySeq :=
  outputs.foldl (fun levels output => levels.insert output.seq output.levels) ∅

def replayOutputsAfter (market : MarketConfig) (journal : List SequencedCommand) (seq : Nat) :
    Option (List Event × LevelsBySeq) :=
  (Runtime.replayWithLevels market journal).map fun outputs =>
    let outputs := outputs.filter (seq < ·.seq)
    (outputs.flatMap (·.events), levelsOf outputs)

def outputsFrom (market : MarketConfig) (journal : List SequencedCommand) (ring : EventRing)
    (seq : Nat) : Option (List Event × LevelsBySeq) :=
  match ring.since seq none with
  | some events => some (events, ring.levelsSince seq)
  | none => replayOutputsAfter market journal seq

/-- The call inside the runtime lock. -/
inductive RuntimeTask where
  | idle
  | appended (c : SequencedCommand)
  /-- Journaled and matched, waiting for the egress lock. -/
  | applied (c : SequencedCommand) (out : SequenceOutput)

/-- The call inside the egress lock. -/
inductive EgressTask where
  | idle
  /-- Has the egress lock, waiting for the lookup's. -/
  | indexing (c : SequencedCommand) (out : SequenceOutput)
  /-- Republishing what comes before `out`. -/
  | gap (todo : List Entry) (out : SequenceOutput)
  | publishing (todo : List Entry) (out : SequenceOutput)
  /-- `republish_gap`, before the service takes requests. -/
  | recovering (todo : List Entry) (toSeq : Nat)
  /-- `recover` returned an error: there is no service. -/
  | failed

/-- The next `XADD`, and what remains of the task after it. -/
def EgressTask.send : EgressTask → Option (Entry × EgressTask)
  | .gap (x :: todo) out => some (x, .gap todo out)
  | .publishing (x :: todo) out => some (x, .publishing todo out)
  | .recovering (x :: todo) toSeq => some (x, .recovering todo toSeq)
  | _ => none

/-- What an error or a dropped future leaves. -/
def EgressTask.abandon : EgressTask → Option EgressTask
  | .indexing _ _ | .gap _ _ | .publishing _ _ => some .idle
  | .recovering _ _ => some .failed
  | .idle | .failed => none

structure Service where
  runtime : Runtime
  runtimeTask : RuntimeTask
  egressTask : EgressTask
  watermark : Watermark
  ring : EventRing
  lookup : LookupIndex
  /-- Every entry the stream was ever sent, in order. -/
  stream : List Entry
  /-- The sequences journaled by this process that have not reached its lookup. No field of the
  source: a record of the run. -/
  unindexed : List Nat

namespace Service

def journal (s : Service) : List SequencedCommand := s.runtime.disk.journal

/-- `Service::recover`, up to the first `XADD` of `republish_gap`. -/
def boot (config : Config) (disk : Disk) (watermark : Nat) (file : Nat) (stream : List Entry) :
    Option Service :=
  (Runtime.recover config disk).bind fun runtime =>
    (LookupIndex.rebuild disk.journal).bind fun lookup =>
      let service : Service := {
        runtime, lookup, stream
        runtimeTask := .idle
        egressTask := .idle
        watermark := ⟨watermark, 0, config.watermarkSyncEvery, file⟩
        ring := EventRing.new config.eventRingCapacity
        unindexed := [] }
      let toSeq := runtime.engine.lastSeq
      if toSeq ≤ watermark then some service
      else
        (replayOutputsAfter config.market disk.journal watermark).map fun (events, levels) =>
          if events = [] then service
          else { service with egressTask := .recovering (toEntries events levels) toSeq }

def start (config : Config) : Option Service := boot config Disk.empty 0 0 []

/-- `recover` has returned a service. -/
def up (s : Service) : Bool :=
  match s.egressTask with
  | .recovering _ _ | .failed => false
  | _ => true

def own (out : SequenceOutput) : EgressTask :=
  .publishing (toEntries out.events ((∅ : LevelsBySeq).insert out.seq out.levels)) out

/-- What `submit` publishes first, once its events are in the ring. -/
def plan (config : Config) (s : Service) (out : SequenceOutput) : EgressTask :=
  let confirmed := s.watermark.value
  if confirmed + 1 < out.seq then
    match outputsFrom config.market s.journal s.ring confirmed with
    | none => .idle
    | some (gap, gapLevels) =>
      let gap := gap.filter (·.seq < out.seq)
      if gap = [] then own out else .gap (toEntries gap gapLevels) out
  else own out

def index (config : Config) (s : Service) (c : SequencedCommand) (out : SequenceOutput) : Service :=
  let s := { s with
    lookup := s.lookup.record c
    ring := s.ring.recordWithLevels out.events out.levels
    unindexed := s.unindexed.filter (· ≠ c.seq) }
  { s with egressTask := s.plan config out }

def apply (s : Service) (c : SequencedCommand) (writes : Bool) : Service :=
  match s.runtime.applyJournaled c writes with
  | (some out, runtime) => { s with runtime, runtimeTask := .applied c out }
  | (none, runtime) => { s with runtime, runtimeTask := .idle }

/-- `Egress::publish` has sent everything: advance the watermark and go on to `next`, or return the
error of the flush. -/
def confirm (s : Service) (seq : Nat) (flushes : Bool) (next err : EgressTask) : Service :=
  let (ok, watermark) := s.watermark.advanceTo seq flushes
  { s with watermark, egressTask := if ok then next else err }

/-- The end of `republish_gap`, which flushes in any case. -/
def confirmRecovery (s : Service) (toSeq : Nat) (flushes : Bool) : Service :=
  let s := s.confirm toSeq flushes .idle .failed
  if flushes then { s with watermark := s.watermark.flush }
  else { s with egressTask := .failed }

end Service

inductive Step where
  | append (timestampMs : Int) (command : Command)
  | apply (writes : Bool)
  | handOver
  | drop
  | index
  | publish
  | confirm (flushes : Bool)
  | abandon
  | restart (watermark : Nat)

namespace Service

def step (config : Config) (s : Service) : Step → Option Service
  | .append timestampMs command =>
    match s.runtimeTask with
    | .idle =>
      if s.up then
        let (sequenced, runtime) := s.runtime.append timestampMs command
        some { s with
          runtime
          runtimeTask := .appended sequenced
          unindexed := sequenced.seq :: s.unindexed }
      else none
    | _ => none
  | .apply writes =>
    match s.runtimeTask with
    | .appended c => some (s.apply c writes)
    | _ => none
  | .handOver =>
    match s.runtimeTask, s.egressTask with
    | .applied c out, .idle =>
      some { s with runtimeTask := .idle, egressTask := .indexing c out }
    | _, _ => none
  | .drop =>
    match s.runtimeTask with
    | .applied _ _ => some { s with runtimeTask := .idle }
    | _ => none
  | .index =>
    match s.egressTask with
    | .indexing c out => some (s.index config c out)
    | _ => none
  | .publish =>
    s.egressTask.send.map fun (x, task) =>
      { s with stream := s.stream ++ [x], egressTask := task }
  | .confirm flushes =>
    match s.egressTask with
    | .gap [] out => some (s.confirm (out.seq - 1) flushes (own out) .idle)
    | .publishing [] out => some (s.confirm out.seq flushes .idle .idle)
    | .recovering [] toSeq => some (s.confirmRecovery toSeq flushes)
    | _ => none
  | .abandon => s.egressTask.abandon.map fun task => { s with egressTask := task }
  | .restart watermark =>
    if watermark ≤ s.watermark.file then
      boot config s.runtime.disk watermark s.watermark.file s.stream
    else none

/-- A service started on an empty disk and taken through `steps`. -/
def runFrom (config : Config) (steps : List Step) : Option Service :=
  (start config).bind fun s => Lib.exec (step config) s steps

/-- Everything a step can do. -/
inductive Stepped (config : Config) (s : Service) : Step → Service → Prop where
  | append {timestampMs : Int} {command : Command} (hidle : s.runtimeTask = .idle)
      (hup : s.up = true) : Stepped config s (.append timestampMs command) { s with
        runtime := (s.runtime.append timestampMs command).2
        runtimeTask := .appended (s.runtime.append timestampMs command).1
        unindexed := (s.runtime.append timestampMs command).1.seq :: s.unindexed }
  | applied {writes : Bool} {c : SequencedCommand} {out : SequenceOutput} {rt : Runtime}
      (htask : s.runtimeTask = .appended c) (happ : s.runtime.applyJournaled c writes = (some out, rt)) :
      Stepped config s (.apply writes) { s with runtime := rt, runtimeTask := .applied c out }
  | unwritten {writes : Bool} {c : SequencedCommand} {rt : Runtime}
      (htask : s.runtimeTask = .appended c) (happ : s.runtime.applyJournaled c writes = (none, rt)) :
      Stepped config s (.apply writes) { s with runtime := rt, runtimeTask := .idle }
  | handOver {c : SequencedCommand} {out : SequenceOutput} (hrun : s.runtimeTask = .applied c out)
      (hegress : s.egressTask = .idle) :
      Stepped config s .handOver { s with runtimeTask := .idle, egressTask := .indexing c out }
  | drop {c : SequencedCommand} {out : SequenceOutput} (hrun : s.runtimeTask = .applied c out) :
      Stepped config s .drop { s with runtimeTask := .idle }
  | index {c : SequencedCommand} {out : SequenceOutput} (hegress : s.egressTask = .indexing c out) :
      Stepped config s .index (s.index config c out)
  | publish {x : Entry} {task : EgressTask} (hsend : s.egressTask.send = some (x, task)) :
      Stepped config s .publish { s with stream := s.stream ++ [x], egressTask := task }
  | confirmGap {flushes : Bool} {out : SequenceOutput} (hegress : s.egressTask = .gap [] out) :
      Stepped config s (.confirm flushes) (s.confirm (out.seq - 1) flushes (own out) .idle)
  | confirmOwn {flushes : Bool} {out : SequenceOutput}
      (hegress : s.egressTask = .publishing [] out) :
      Stepped config s (.confirm flushes) (s.confirm out.seq flushes .idle .idle)
  | confirmRecovery {flushes : Bool} {toSeq : Nat} (hegress : s.egressTask = .recovering [] toSeq) :
      Stepped config s (.confirm flushes) (s.confirmRecovery toSeq flushes)
  | abandon {task : EgressTask} (habandon : s.egressTask.abandon = some task) :
      Stepped config s .abandon { s with egressTask := task }
  | restart {watermark : Nat} {s' : Service} (hle : watermark ≤ s.watermark.file)
      (hboot : boot config s.runtime.disk watermark s.watermark.file s.stream = some s') :
      Stepped config s (.restart watermark) s'

theorem stepped {config : Config} {s s' : Service} {i : Step} (h : step config s i = some s') :
    Stepped config s i s' := by
  cases i with
  | append timestampMs command =>
    simp only [step] at h
    split at h
    · split at h
      · cases h; exact .append ‹_› ‹_›
      · cases h
    · cases h
  | apply writes =>
    simp only [step] at h
    split at h
    · cases h
      rename_i c htask
      unfold apply
      rcases happ : s.runtime.applyJournaled c writes with ⟨_ | out, rt⟩
      · exact .unwritten htask happ
      · exact .applied htask happ
    · cases h
  | handOver =>
    simp only [step] at h
    split at h
    · cases h; exact .handOver ‹_› ‹_›
    · cases h
  | drop =>
    simp only [step] at h
    split at h
    · cases h; exact .drop ‹_›
    · cases h
  | index =>
    simp only [step] at h
    split at h
    · cases h; exact .index ‹_›
    · cases h
  | publish =>
    simp only [step] at h
    obtain ⟨⟨x, task⟩, hsend, rfl⟩ := Option.map_eq_some_iff.1 h
    exact .publish hsend
  | confirm flushes =>
    simp only [step] at h
    split at h
    · cases h; exact .confirmGap ‹_›
    · cases h; exact .confirmOwn ‹_›
    · cases h; exact .confirmRecovery ‹_›
    · cases h
  | abandon =>
    simp only [step] at h
    obtain ⟨task, habandon, rfl⟩ := Option.map_eq_some_iff.1 h
    exact .abandon habandon
  | restart watermark =>
    simp only [step] at h
    split at h
    · exact .restart ‹_› h
    · cases h

/-- Everything `boot` sets. -/
structure Booted (config : Config) (disk : Disk) (fromSeq file : Nat) (stream : List Entry)
    (s : Service) : Prop where
  runtime : Runtime.recover config disk = some s.runtime
  lookup : LookupIndex.rebuild disk.journal = some s.lookup
  runtimeTask : s.runtimeTask = .idle
  watermark : s.watermark = ⟨fromSeq, 0, config.watermarkSyncEvery, file⟩
  ring : s.ring = EventRing.new config.eventRingCapacity
  stream : s.stream = stream
  unindexed : s.unindexed = []
  egressTask : s.egressTask = .idle ∨ ∃ events levels,
    replayOutputsAfter config.market disk.journal fromSeq = some (events, levels) ∧
      s.egressTask = .recovering (toEntries events levels) s.runtime.engine.lastSeq

theorem booted {config : Config} {disk : Disk} {watermark file : Nat} {stream : List Entry}
    {s : Service} (h : boot config disk watermark file stream = some s) :
    Booted config disk watermark file stream s := by
  unfold boot at h
  obtain ⟨rt, hrt, h⟩ := Option.bind_eq_some_iff.1 h
  obtain ⟨lookup, hlookup, h⟩ := Option.bind_eq_some_iff.1 h
  simp only at h
  split at h
  · cases h
    exact ⟨hrt, hlookup, rfl, rfl, rfl, rfl, rfl, .inl rfl⟩
  · obtain ⟨⟨events, levels⟩, hreplay, hs⟩ := Option.map_eq_some_iff.1 h
    simp only at hs
    split at hs
    · cases hs
      exact ⟨hrt, hlookup, rfl, rfl, rfl, rfl, rfl, .inl rfl⟩
    · cases hs
      exact ⟨hrt, hlookup, rfl, rfl, rfl, rfl, rfl, .inr ⟨events, levels, hreplay, rfl⟩⟩

end Service

/-! ## The commands on their way out -/

/-- The command the call inside the runtime lock has journaled. -/
def RuntimeTask.waiting : RuntimeTask → List SequencedCommand
  | .idle => []
  | .appended c | .applied c _ => [c]

def EgressTask.waiting : EgressTask → List SequencedCommand
  | .indexing c _ => [c]
  | _ => []

/-- Journaled by a call that has yet to reach the index, in order. -/
def Service.waiting (s : Service) : List SequencedCommand :=
  s.egressTask.waiting ++ s.runtimeTask.waiting

/-- What a step of publishing leaves alone. -/
structure Outward (s s' : Service) : Prop where
  runtime : s'.runtime = s.runtime
  runtimeTask : s'.runtimeTask = s.runtimeTask
  lookup : s'.lookup = s.lookup
  ring : s'.ring = s.ring
  unindexed : s'.unindexed = s.unindexed
  waiting : s'.egressTask.waiting = []

variable {s : Service}

theorem Outward.publish {x : Entry} {task : EgressTask} (h : s.egressTask.send = some (x, task)) :
    Outward s { s with stream := s.stream ++ [x], egressTask := task } := by
  refine ⟨rfl, rfl, rfl, rfl, rfl, ?_⟩
  unfold EgressTask.send at h
  split at h <;> cases h <;> rfl

theorem Outward.confirm (s : Service) (seq : Nat) (flushes : Bool) {next err : EgressTask}
    (hnext : next.waiting = []) (herr : err.waiting = []) :
    Outward s (s.confirm seq flushes next err) := by
  refine ⟨rfl, rfl, rfl, rfl, rfl, ?_⟩
  unfold Service.confirm
  simp only
  split
  · exact hnext
  · exact herr

theorem Outward.confirmRecovery (s : Service) (toSeq : Nat) (flushes : Bool) :
    Outward s (s.confirmRecovery toSeq flushes) := by
  have h : Outward s (s.confirm toSeq flushes .idle .failed) := .confirm _ _ _ rfl rfl
  unfold Service.confirmRecovery
  simp only
  split
  · exact ⟨rfl, rfl, rfl, rfl, rfl, h.waiting⟩
  · exact ⟨rfl, rfl, rfl, rfl, rfl, rfl⟩

theorem Outward.abandon {task : EgressTask}
    (h : s.egressTask.abandon = some task) : Outward s { s with egressTask := task } := by
  refine ⟨rfl, rfl, rfl, rfl, rfl, ?_⟩
  unfold EgressTask.abandon at h
  split at h <;> cases h <;> rfl

theorem Outward.waiting_sublist {s' : Service} (h : Outward s s') :
    s'.waiting.Sublist s.waiting := by
  unfold Service.waiting
  rw [h.waiting, h.runtimeTask]
  exact sublist_append_right _ _

/-- What holds of every reachable service, whatever failed on the way. -/
structure Orderly (s : Service) : Prop where
  files : Files s.runtime
  resumed : (∀ c, s.runtimeTask ≠ .appended c) → s.runtime.engine.lastSeq = s.journal.length
  matching : ∀ c, s.runtimeTask = .appended c → s.runtime.engine.lastSeq + 1 = s.journal.length
  newest : ∀ c ∈ s.runtimeTask.waiting, s.journal.getLast? = some c
  waiting_mem : ∀ c ∈ s.waiting, c ∈ s.journal
  waiting_sorted : s.waiting.Pairwise (·.seq < ·.seq)

theorem Numbered.seq_bounds {journal : List SequencedCommand} (h : Numbered journal)
    {c : SequencedCommand} (hc : c ∈ journal) : 1 ≤ c.seq ∧ c.seq ≤ journal.length := by
  have : c.seq ∈ journal.map SequencedCommand.seq := mem_map_of_mem hc
  rw [h, mem_range'_1] at this
  omega

theorem Numbered.seq_last {journal : List SequencedCommand} (h : Numbered journal)
    {c : SequencedCommand} (hc : journal.getLast? = some c) : c.seq = journal.length := by
  have hlast : (journal.map SequencedCommand.seq).getLast? = some c.seq := by
    rw [getLast?_map, hc]; rfl
  rw [h, getLast?_range'] at hlast
  split at hlast
  · cases hlast
  · simp only [Option.some.injEq] at hlast; omega

namespace Orderly
variable {config : Config} {s s' : Service}

/-- A step that leaves the runtime alone, and nothing of the egress task to index. -/
theorem of_egress (h : Orderly s) (hrt : s'.runtime = s.runtime)
    (htask : s'.runtimeTask = s.runtimeTask) (hsub : s'.waiting.Sublist s.waiting) :
    Orderly s' := by
  have hjournal : s'.journal = s.journal := by unfold Service.journal; rw [hrt]
  refine ⟨hrt ▸ h.files, ?_, ?_, ?_, ?_, h.waiting_sorted.sublist hsub⟩
  · rw [htask, hrt, hjournal]; exact h.resumed
  · rw [htask, hrt, hjournal]; exact h.matching
  · rw [htask, hjournal]; exact h.newest
  · intro c hc
    rw [hjournal]; exact h.waiting_mem c (hsub.subset hc)

theorem of_outward (h : Orderly s) (hout : Outward s s') : Orderly s' :=
  h.of_egress hout.runtime hout.runtimeTask hout.waiting_sublist

theorem of_booted {disk : Disk} {fromSeq file : Nat} {stream : List Entry} {rt : Runtime}
    (hfiles : Files rt) (hdisk : rt.disk = disk)
    (h : Service.Booted config disk fromSeq file stream s) : Orderly s := by
  subst hdisk
  obtain ⟨hfiles', hdisk', -, -, hseq⟩ := hfiles.restart h.runtime
  have hwait : s.waiting = [] := by
    unfold Service.waiting
    rcases h.egressTask with he | ⟨_, _, -, he⟩ <;> rw [he, h.runtimeTask] <;> rfl
  refine ⟨hfiles', fun _ => ?_, fun c hc => ?_, fun c hc => ?_, fun c hc => ?_, ?_⟩
  · unfold Service.journal; rw [hdisk', hseq]
  · rw [h.runtimeTask] at hc; cases hc
  · rw [h.runtimeTask] at hc; cases hc
  · rw [hwait] at hc; cases hc
  · rw [hwait]; exact .nil

theorem append (h : Orderly s) (hidle : s.runtimeTask = .idle) (timestampMs : Int)
    (command : Command) (unindexed : List Nat) : Orderly { s with
      runtime := (s.runtime.append timestampMs command).2
      runtimeTask := .appended (s.runtime.append timestampMs command).1
      unindexed := unindexed } := by
  have hseq := h.resumed (by rw [hidle]; intro c hc; cases hc)
  refine ⟨h.files.append hseq timestampMs command, fun hc => absurd rfl (hc _), fun c _ => ?_,
    fun c hc => ?_, fun c hc => ?_, ?_⟩
  · show s.runtime.engine.lastSeq + 1 = (s.journal ++ [_]).length
    rw [hseq, length_append]; rfl
  · rw [mem_singleton.1 hc]
    exact getLast?_concat
  · rcases mem_append.1 hc with hc | hc
    · exact mem_append_left _ (h.waiting_mem c (mem_append_left _ hc))
    · rw [mem_singleton.1 hc]
      exact mem_append_right _ mem_cons_self
  · have hsorted := h.waiting_sorted
    unfold Service.waiting at hsorted
    rw [hidle, RuntimeTask.waiting, append_nil] at hsorted
    refine pairwise_append.2 ⟨hsorted, pairwise_singleton _ _, ?_⟩
    intro c hc c' hc'
    rw [mem_singleton.1 hc']
    have := (h.files.numbered.seq_bounds (h.waiting_mem c (mem_append_left _ hc))).2
    show c.seq < s.runtime.engine.lastSeq + 1
    rw [hseq]
    exact Nat.lt_succ_of_le this

/-- The call inside the runtime lock has matched its command: it waits on, or has returned. -/
theorem applied (h : Orderly s) {c : SequencedCommand} {writes : Bool} {rt : Runtime}
    {task : RuntimeTask} (htask : s.runtimeTask = .appended c) (happ : Applied s.runtime c writes rt)
    (hnot : ∀ c', task ≠ .appended c') (hwait : task.waiting.Sublist [c]) :
    Orderly { s with runtime := rt, runtimeTask := task } := by
  have hmem : c ∈ s.journal := h.waiting_mem c (by
    unfold Service.waiting; rw [htask]; exact mem_append_right _ mem_cons_self)
  have hnewest := h.newest c (by rw [htask]; exact mem_cons_self)
  have hseq : c.seq = s.journal.length := h.files.numbered.seq_last hnewest
  have hjournal : rt.disk.journal = s.journal := happ.journal
  have hsub : ({ s with runtime := rt, runtimeTask := task } : Service).waiting.Sublist
      s.waiting := by
    unfold Service.waiting
    rw [htask]
    exact (List.Sublist.refl _).append hwait
  refine ⟨h.files.applied happ (Nat.le_of_eq hseq), fun _ => ?_, fun c' hc' => absurd hc' (hnot c'),
    fun c' hc' => ?_, fun c' hc' => ?_, h.waiting_sorted.sublist hsub⟩
  · show rt.engine.lastSeq = rt.disk.journal.length
    rw [happ.engine, hjournal, ← hseq]
    exact apply_lastSeq _ _
  · show rt.disk.journal.getLast? = some c'
    rw [hjournal, mem_singleton.1 (hwait.subset hc')]
    exact hnewest
  · show c' ∈ rt.disk.journal
    rw [hjournal]
    exact h.waiting_mem c' (hsub.subset hc')

theorem plan_waiting (config : Config) (s : Service) (out : SequenceOutput) :
    (s.plan config out).waiting = [] := by
  unfold Service.plan Service.own
  simp only
  split
  · split
    · rfl
    · split <;> rfl
  · rfl

theorem index_waiting (config : Config) (s : Service) (c : SequencedCommand)
    (out : SequenceOutput) : (s.index config c out).egressTask.waiting = [] :=
  plan_waiting config _ out

theorem step (h : Orderly s) {i : Step} (hs : Service.Stepped config s i s') : Orderly s' := by
  cases hs with
  | append hidle _ => exact h.append hidle _ _ _
  | applied htask happ =>
    exact h.applied htask (.of_eq happ) (by simp) (List.Sublist.refl _)
  | unwritten htask happ =>
    exact h.applied htask (.of_eq happ) (by simp) (nil_sublist _)
  | handOver hrun hegress =>
    have hwait : s.waiting = s.runtimeTask.waiting := by
      unfold Service.waiting; rw [hegress]; rfl
    refine ⟨h.files, fun _ => h.resumed (by rw [hrun]; simp), by simp,
      fun c hc => (not_mem_nil hc).elim, fun c hc => h.waiting_mem c ?_, ?_⟩
    · rw [hwait, hrun]; exact hc
    · exact pairwise_singleton _ _
  | drop hrun =>
    refine ⟨h.files, fun _ => h.resumed (by rw [hrun]; simp), by simp,
      fun c hc => (not_mem_nil hc).elim, fun c hc => h.waiting_mem c ?_, h.waiting_sorted.sublist ?_⟩
    · unfold Service.waiting at hc ⊢
      rw [RuntimeTask.waiting, append_nil] at hc
      exact mem_append_left _ hc
    · unfold Service.waiting
      rw [RuntimeTask.waiting, append_nil]
      exact sublist_append_left _ _
  | index hegress =>
    refine h.of_egress rfl rfl ?_
    unfold Service.waiting
    rw [index_waiting]
    exact sublist_append_right _ _
  | publish hsend => exact h.of_outward (.publish hsend)
  | confirmGap => exact h.of_outward (.confirm _ _ _ rfl rfl)
  | confirmOwn => exact h.of_outward (.confirm _ _ _ rfl rfl)
  | confirmRecovery => exact h.of_outward (.confirmRecovery _ _ _)
  | abandon habandon => exact h.of_outward (.abandon habandon)
  | restart hle hboot => exact of_booted h.files rfl (Service.booted hboot)

theorem start (h : Service.start config = some s) : Orderly s :=
  of_booted (Files.empty config.market) rfl (Service.booted h)

end Orderly

/-- A snapshot on every command. -/
def sampleConfig : Config := ⟨sampleMarket, 1, 1, 8⟩

def samplePlacement : Command := .place "o-1" (sampleOrder "alice" .buy .gtc 1000 1000000000)

end AtlasCex.Server

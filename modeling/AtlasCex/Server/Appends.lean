import AtlasCex.Server.Bincode
/-!
# Appends that fail (`journal.rs:67-87`, `runtime.rs:76-120`)

An append that returns an error may have written any part of its record, all of it when only the
fsync failed. The sequence is the engine's, and the engine has not seen the command, so the next
submit takes the same sequence and lands behind whatever was left. A part of a record then stands
in the middle of the file, a whole one is followed by another of the same sequence: neither file
can be replayed (`append_after_failure`).

Where nothing is appended behind a failure that left bytes, the file is the records of the commands
whose submit returned, and at most what the last failure left. `Intact` says so of a runtime
between submits; replay then gives back exactly those commands.
-/
namespace AtlasCex.Server
open List
open Matching

/-! ## The runtime over its file -/

/-- What `write_all` and `sync_all` of one append did: returned, or failed with this many bytes of
the record in the file. -/
inductive Appended where
  | ok
  | failed (written : Nat)
deriving DecidableEq, Repr

structure Submission where
  timestampMs : Int
  command : Command
  outcome : Appended
deriving DecidableEq, Repr

structure FileRuntime where
  file : List UInt8
  engine : Engine
  snapshot : Option Snapshot
  snapshotEveryN : Nat
  lastSnapshotSeq : Nat

namespace FileRuntime

def sequenced (f : FileRuntime) (s : Submission) : SequencedCommand :=
  ⟨f.engine.lastSeq + 1, s.timestampMs, s.command⟩

def writeSnapshot (f : FileRuntime) : FileRuntime :=
  { f with
    snapshot := some ⟨f.engine.lastSeq, f.engine.clear.book⟩
    lastSnapshotSeq := f.engine.lastSeq }

/-- Match what was appended, and snapshot on cadence. -/
def applyAppended (f : FileRuntime) (c : SequencedCommand) : SequenceOutput × FileRuntime :=
  let (output, engine) := applyWithLevels f.engine c
  let f := { f with engine }
  if f.snapshotEveryN ≤ c.seq - f.lastSnapshotSeq then (output, f.writeSnapshot) else (output, f)

/-- `submit_with_levels`; `none` is the error of the append. -/
def submit (k : Codec) (f : FileRuntime) (s : Submission) : Option SequenceOutput × FileRuntime :=
  let c := f.sequenced s
  if maxRecordLen < (k.bincode.put c).length then (none, f)
  else
    match s.outcome with
    | .failed written => (none, { f with file := f.file ++ (k.record c).take written })
    | .ok =>
      let (output, f) := { f with file := f.file ++ k.record c }.applyAppended c
      (some output, f)

/-- The commands and the file `replay` leaves; where there is no file, `Journal::open` then makes
one. -/
def replayed (k : Codec) (file : Option (List UInt8)) (afterSeq : Nat) :
    Except JournalError (List SequencedCommand × List UInt8) :=
  match file with
  | none => .ok ([], header)
  | some file => (fun (r, kept) => (r.commands, kept)) <$> k.replayFile file afterSeq

def recover (k : Codec) (config : Config) (file : Option (List UInt8)) (snapshot : Option Snapshot) :
    Except JournalError FileRuntime :=
  let (book, fromSeq) := Disk.base ⟨[], snapshot⟩
  (fun (commands, kept) =>
    { file := kept
      engine := ((Engine.withBook config.market book fromSeq).run commands).2.clear
      snapshot := snapshot
      snapshotEveryN := config.snapshotEveryN
      lastSnapshotSeq := fromSeq }) <$> replayed k file fromSeq

/-- A runtime recovered where nothing is. -/
def start (config : Config) : FileRuntime :=
  ⟨header, (Engine.withBook config.market OrderBook.new 0).clear, none, config.snapshotEveryN, 0⟩

/-- The same runtime with its journal as a list of records. -/
def view (f : FileRuntime) (journal : List SequencedCommand) : Runtime :=
  ⟨f.engine, ⟨journal, f.snapshot⟩, f.snapshotEveryN, f.lastSnapshotSeq⟩

theorem view_applyAppended (f : FileRuntime) (c : SequencedCommand)
    (journal : List SequencedCommand) : (f.view journal).applyJournaled c true =
      (some (f.applyAppended c).1, (f.applyAppended c).2.view journal) := by
  unfold Runtime.applyJournaled applyAppended
  simp only [Runtime.snapshotDue, view, if_true]
  by_cases hdue : f.snapshotEveryN ≤ c.seq - f.lastSnapshotSeq
  · simp only [hdue, decide_true, if_true]; rfl
  · simp only [hdue, decide_false, if_false, Bool.false_eq_true]

end FileRuntime

/-- The commands whose submit returned, with the sequences it gave them. -/
def accepted (submissions : List Submission) (outputs : List (Option SequenceOutput)) :
    List SequencedCommand :=
  (submissions.zip outputs).filterMap fun (s, output) =>
    output.map fun output => ⟨output.seq, s.timestampMs, s.command⟩

theorem accepted_concat {submissions : List Submission} {outputs : List (Option SequenceOutput)}
    (h : submissions.length = outputs.length) (s : Submission) (output : Option SequenceOutput) :
    accepted (submissions ++ [s]) (outputs ++ [output]) = accepted submissions outputs ++
      (output.map fun output => (⟨output.seq, s.timestampMs, s.command⟩ : SequencedCommand)).toList := by
  unfold accepted
  rw [zip_append h, filterMap_append]
  cases output <;> rfl

/-! ## One submit -/

/-- The file is the records of the journal, and nothing else. -/
structure Intact (k : Codec) (config : Config) (f : FileRuntime)
    (journal : List SequencedCommand) : Prop where
  file : f.file = header ++ k.records journal
  journalled : ∀ c ∈ journal, k.Journalled c
  stands : Stands config (journal.map (·.command)) (f.view journal)

section
variable {k : Codec} {config : Config} {f : FileRuntime} {journal : List SequencedCommand} {s : Submission}

theorem Intact.start (k : Codec) (config : Config) : Intact k config (FileRuntime.start config) [] := by
  obtain ⟨rt, hrt, hs⟩ := Stands.start config
  cases hrt
  exact ⟨by simp [FileRuntime.start, Codec.records], by simp, hs⟩

theorem Intact.lastSeq (h : Intact k config f journal) : f.engine.lastSeq = journal.length := by
  have := h.stands.lastSeq
  rwa [length_map] at this

theorem records_concat (k : Codec) (journal : List SequencedCommand) (c : SequencedCommand) :
    k.records (journal ++ [c]) = k.records journal ++ k.record c := by
  simp [Codec.records]

/-- Its numbers are those of the Rust types. -/
structure Submission.Typed (s : Submission) : Prop where
  timestampMs : -2 ^ 63 ≤ s.timestampMs ∧ s.timestampMs < 2 ^ 63
  command : Representable.command s.command

theorem Intact.journalled_next (h : Intact k config f journal) (hs : s.Typed)
    (hseq : journal.length + 1 < 2 ^ 64)
    (hlen : (k.bincode.put (f.sequenced s)).length ≤ maxRecordLen) :
    ∀ c ∈ journal ++ [f.sequenced s], k.Journalled c := by
  intro c hc
  rcases mem_append.1 hc with hc | hc
  · exact h.journalled c hc
  · rw [mem_singleton.1 hc]
    refine ⟨⟨?_, hs.timestampMs, hs.command⟩, hlen⟩
    show f.engine.lastSeq + 1 < 2 ^ 64
    rw [h.lastSeq]
    exact hseq

/-- A submit that is not refused for its length, and whose append returns. -/
theorem Intact.submit_ok (h : Intact k config f journal) (hs : s.Typed)
    (hseq : journal.length + 1 < 2 ^ 64)
    (hlen : (k.bincode.put (f.sequenced s)).length ≤ maxRecordLen) (hok : s.outcome = .ok) :
    ∃ output, (f.submit k s).1 = some output ∧ output.seq = f.engine.lastSeq + 1 ∧
      Intact k config (f.submit k s).2 (journal ++ [f.sequenced s]) := by
  have hnot : ¬maxRecordLen < (k.bincode.put (f.sequenced s)).length := by omega
  let appended : FileRuntime := { f with file := f.file ++ k.record (f.sequenced s) }
  have hsubmit : f.submit k s =
      (some (appended.applyAppended (f.sequenced s)).1, (appended.applyAppended (f.sequenced s)).2) := by
    simp only [FileRuntime.submit, if_neg hnot, hok]
    rfl
  have hfile : (appended.applyAppended (f.sequenced s)).2.file = appended.file := by
    unfold FileRuntime.applyAppended
    simp only
    split <;> rfl
  have hout : (appended.applyAppended (f.sequenced s)).1.seq = (f.sequenced s).seq := by
    unfold FileRuntime.applyAppended
    simp only
    split <;> rfl
  have hstands := h.stands.submit s.timestampMs s.command
  have hview : ((f.view journal).submitWithLevels s.timestampMs s.command true).2 =
      (appended.applyAppended (f.sequenced s)).2.view (journal ++ [f.sequenced s]) :=
    congrArg Prod.snd (appended.view_applyAppended (f.sequenced s) (journal ++ [f.sequenced s]))
  rw [hview] at hstands
  rw [hsubmit]
  refine ⟨_, rfl, hout, ?_, h.journalled_next hs hseq hlen, ?_⟩
  · rw [hfile, records_concat, ← append_assoc, ← h.file]
  · rw [map_append]
    exact hstands

/-- A submit whose append failed and left nothing changes nothing. -/
theorem submit_failed_nothing (f : FileRuntime) (hfailed : s.outcome = .failed 0) :
    f.submit k s = (none, f) := by
  simp only [FileRuntime.submit, hfailed, take_zero, append_nil]
  split <;> rfl

theorem submit_too_long (h : maxRecordLen < (k.bincode.put (f.sequenced s)).length) :
    f.submit k s = (none, f) := by
  rw [FileRuntime.submit, if_pos h]

end

/-! ## Runs -/

/-- Appends that return, or fail and leave nothing. -/
def Harmless (submissions : List Submission) : Prop :=
  ∀ s ∈ submissions, s.outcome = .ok ∨ s.outcome = .failed 0

instance (submissions : List Submission) : Decidable (Harmless submissions) :=
  inferInstanceAs (Decidable (∀ s ∈ submissions, _))

theorem intact_run (k : Codec) (config : Config) (submissions : List Submission) (h : Harmless submissions)
    (htyped : ∀ s ∈ submissions, s.Typed) (hcount : submissions.length < 2 ^ 64) :
    Intact k config (Lib.run (FileRuntime.submit k) (FileRuntime.start config) submissions).2
        (accepted submissions (Lib.run (FileRuntime.submit k) (FileRuntime.start config) submissions).1) ∧
      (accepted submissions
        (Lib.run (FileRuntime.submit k) (FileRuntime.start config) submissions).1).length ≤
        submissions.length := by
  induction submissions using List.reverseRecOn with
  | nil => exact ⟨Intact.start k config, Nat.le_refl _⟩
  | append_singleton submissions s ih =>
    rw [length_append, length_singleton] at hcount
    obtain ⟨hintact, hlength⟩ := ih (fun s' hs' => h s' (by simp [hs']))
      (fun s' hs' => htyped s' (by simp [hs'])) (by omega)
    have houtputs := Lib.run_length (FileRuntime.submit k) (FileRuntime.start config) submissions
    rw [Lib.run_concat, accepted_concat houtputs.symm]
    generalize (Lib.run (FileRuntime.submit k) (FileRuntime.start config) submissions).2 = f at hintact
    generalize accepted submissions _ = journal at hintact hlength
    have hkeep : f.submit k s = (none, f) → Intact k config (f.submit k s).2 (journal ++
        ((f.submit k s).1.map fun output =>
          (⟨output.seq, s.timestampMs, s.command⟩ : SequencedCommand)).toList) ∧
        (journal ++ ((f.submit k s).1.map fun output =>
          (⟨output.seq, s.timestampMs, s.command⟩ : SequencedCommand)).toList).length ≤
          (submissions ++ [s]).length := by
      intro he
      rw [he, Option.map_none, Option.toList_none, append_nil]
      exact ⟨hintact, by rw [length_append]; omega⟩
    by_cases hlong : maxRecordLen < (k.bincode.put (f.sequenced s)).length
    · exact hkeep (submit_too_long hlong)
    · rcases h s (by simp) with hok | hfailed
      · obtain ⟨output, hout, hseq, hnext⟩ := hintact.submit_ok (htyped s (by simp)) (by omega)
          (Nat.not_lt.1 hlong) hok
        rw [hout, Option.map_some, Option.toList_some, hseq]
        exact ⟨hnext, by simp only [length_append, length_singleton]; omega⟩
      · exact hkeep (submit_failed_nothing f hfailed)

/-! ## Recovery -/

/-- What `replay` and `recover` make of a file of records with a torn tail behind them. -/
structure Rebuilds (k : Codec) (config : Config) (f : FileRuntime)
    (journal : List SequencedCommand) : Prop where
  numbered : Numbered journal
  replays : ∀ afterSeq, ∃ r, k.replayFile f.file afterSeq = .ok (r, header ++ k.records journal) ∧
    r.commands = journal.drop afterSeq
  recovers : ∃ g, FileRuntime.recover k config (some f.file) f.snapshot = .ok g ∧
    g.file = header ++ k.records journal ∧ g.engine.lastSeq = journal.length ∧
    Runtime.recover config ⟨journal, f.snapshot⟩ = some (g.view journal)

theorem rebuilds {k : Codec} {config : Config} {f : FileRuntime} {journal : List SequencedCommand}
    {tail : List UInt8} (hfile : f.file = header ++ k.records journal ++ tail) (htail : k.Torn tail)
    (hj : ∀ c ∈ journal, k.Journalled c) (hfiles : Files (f.view journal)) :
    Rebuilds k config f journal := by
  have hreplay : ∀ afterSeq, ∃ r, k.replayFile f.file afterSeq = .ok (r, header ++ k.records journal) ∧
      r.commands = journal.drop afterSeq := by
    intro afterSeq
    rw [hfile]
    exact Codec.replayFile_records hj htail (hfiles.numbered.replay afterSeq)
  refine ⟨hfiles.numbered, hreplay, ?_⟩
  have hbase : (Disk.base ⟨[], f.snapshot⟩).2 = f.lastSnapshotSeq := hfiles.base_seq
  obtain ⟨r, hr, hcommands⟩ := hreplay (Disk.base ⟨[], f.snapshot⟩).2
  have hlist := hfiles.recover config
  have hlast : ((Engine.withBook config.market (Disk.base ⟨[], f.snapshot⟩).1
      (Disk.base ⟨[], f.snapshot⟩).2).run r.commands).2.clear.lastSeq = journal.length := by
    rw [hcommands, hbase]
    exact hfiles.numbered.run_drop hfiles.last_le rfl
  refine ⟨⟨header ++ k.records journal, _, f.snapshot, config.snapshotEveryN,
    (Disk.base ⟨[], f.snapshot⟩).2⟩, ?_, rfl, hlast, ?_⟩
  · simp only [FileRuntime.recover, FileRuntime.replayed, hr]
    rfl
  · refine hlist.trans (congrArg some ?_)
    simp only [FileRuntime.view, hcommands, hbase]
    rfl

/-- **A failed append**: in every run whose appends return, or fail and leave nothing, up to a last
one that may fail after any part of its record, the file replays and recovers to exactly the
commands whose submit returned, and at most the last, when all of its record was left. -/
theorem failed_append_recovers (k : Codec) (config : Config) (init : List Submission) (last : Submission)
    (f : FileRuntime) (outputs : List (Option SequenceOutput))
    (hrun : Lib.run (FileRuntime.submit k) (FileRuntime.start config) init = (outputs, f))
    (hinit : Harmless init) (htyped : ∀ s ∈ init ++ [last], s.Typed)
    (hcount : (init ++ [last]).length < 2 ^ 64)
    (hquiet : ∀ written, last.outcome = .failed written →
      written < (k.record (f.sequenced last)).length →
      k.hasValidRecordAfter ((k.record (f.sequenced last)).take written) = false) :
    ∃ extra, (extra = [] ∨ ((f.submit k last).1 = none ∧ extra = [f.sequenced last])) ∧
      Rebuilds k config (f.submit k last).2
        (accepted (init ++ [last]) (outputs ++ [(f.submit k last).1]) ++ extra) := by
  rw [length_append, length_singleton] at hcount
  obtain ⟨hintact, hlength⟩ := intact_run k config init hinit
    (fun s hs => htyped s (by simp [hs])) (by omega)
  have houtputs := Lib.run_length (FileRuntime.submit k) (FileRuntime.start config) init
  rw [hrun] at hintact hlength houtputs
  rw [accepted_concat houtputs.symm]
  simp only at hintact hlength
  generalize accepted init outputs = journal at hintact hlength
  have hlastTyped := htyped last (by simp)
  by_cases hlong : maxRecordLen < (k.bincode.put (f.sequenced last)).length
  · refine ⟨[], .inl rfl, ?_⟩
    rw [submit_too_long hlong, Option.map_none, Option.toList_none, append_nil,
      append_nil]
    exact rebuilds (by rw [hintact.file, append_nil]) Codec.Torn.nil hintact.journalled
      hintact.stands.toFiles
  have hfits := Nat.not_lt.1 hlong
  cases houtcome : last.outcome with
  | ok =>
    obtain ⟨output, hout, hseq, hnext⟩ :=
      hintact.submit_ok hlastTyped (by omega) hfits houtcome
    refine ⟨[], .inl rfl, ?_⟩
    rw [hout, Option.map_some, Option.toList_some, hseq, append_nil]
    exact rebuilds (by rw [hnext.file, append_nil]; rfl) Codec.Torn.nil hnext.journalled
      hnext.stands.toFiles
  | failed written =>
    have hsubmit : f.submit k last =
        (none, { f with file := f.file ++ (k.record (f.sequenced last)).take written }) := by
      simp only [FileRuntime.submit, if_neg hlong, houtcome]
    rw [hsubmit, Option.map_none, Option.toList_none, append_nil]
    by_cases hpart : written < (k.record (f.sequenced last)).length
    · -- a torn tail: the command never happened
      refine ⟨[], .inl rfl, ?_⟩
      rw [append_nil]
      refine rebuilds (by rw [hintact.file]) ⟨fun _ => Codec.readRecord_torn hfits hpart,
        hquiet written houtcome hpart⟩ hintact.journalled hintact.stands.toFiles
    · -- the whole record is there: the command is replayed although its submit failed
      refine ⟨[f.sequenced last], .inr ⟨rfl, rfl⟩, ?_⟩
      have hwhole : (k.record (f.sequenced last)).take written = k.record (f.sequenced last) :=
        take_of_length_le (Nat.not_lt.1 hpart)
      have hfiles : Files ((f.view journal).append last.timestampMs last.command).2 :=
        hintact.stands.append (by rw [hintact.stands.lastSeq, hintact.stands.length]) _ _
      refine rebuilds (by simp only [hwhole, hintact.file, records_concat, append_assoc,
        append_nil]) Codec.Torn.nil (hintact.journalled_next hlastTyped (by omega) hfits)
        ⟨hfiles.numbered, hfiles.last_le, hfiles.snapshot, hfiles.absent⟩

/-- The append of a halt fails, and the market's halt is submitted again. -/
def halting (outcome : Appended) : Submission := ⟨0, .setStatus .halted, outcome⟩

theorem failed_append_recovers_torn :
    ∃ f outputs, Lib.run (FileRuntime.submit bincode) (FileRuntime.start ⟨sampleMarket, 8, 1, 8⟩)
        [halting .ok, halting (.failed 0), halting .ok] = (outputs, f) ∧
      ∃ extra, (extra = [] ∨ ((f.submit bincode (halting (.failed 20))).1 = none ∧
          extra = [f.sequenced (halting (.failed 20))])) ∧
        Rebuilds bincode ⟨sampleMarket, 8, 1, 8⟩ (f.submit bincode (halting (.failed 20))).2
          (accepted ([halting .ok, halting (.failed 0), halting .ok] ++ [halting (.failed 20)])
            (outputs ++ [(f.submit bincode (halting (.failed 20))).1]) ++ extra) := by
  have hseq : (Lib.run (FileRuntime.submit bincode) (FileRuntime.start ⟨sampleMarket, 8, 1, 8⟩)
      [halting .ok, halting (.failed 0), halting .ok]).2.sequenced (halting (.failed 20)) =
        ⟨3, 0, .setStatus .halted⟩ := by decide +kernel
  refine ⟨_, _, rfl, failed_append_recovers bincode ⟨sampleMarket, 8, 1, 8⟩
    [halting .ok, halting (.failed 0), halting .ok] (halting (.failed 20)) _ _ rfl (by decide)
    (fun s hs => ?_) (by decide) (fun written hfailed _ => ?_)⟩
  · simp only [mem_append, mem_cons, not_mem_nil, or_false] at hs
    obtain (rfl | rfl | rfl) | rfl := hs <;> exact ⟨by decide, trivial⟩
  · cases hfailed
    exact (congrArg (fun c => bincode.hasValidRecordAfter ((bincode.record c).take 20)) hseq).trans
      (by decide +kernel)

/-- Twenty bytes of the record are left, or all of it with only the fsync failed; then the halt is
submitted again and its submit returns. Neither file can be replayed. -/
theorem append_after_failure :
    bincode.replayFile (Lib.run (FileRuntime.submit bincode) (FileRuntime.start ⟨sampleMarket, 8, 1, 8⟩)
        [halting (.failed 20), halting .ok]).2.file 0 = .error (.journalCorruption 0
          "a record at offset 10 failed its checksum with intact records after it") ∧
      bincode.replayFile (Lib.run (FileRuntime.submit bincode) (FileRuntime.start ⟨sampleMarket, 8, 1, 8⟩)
        [halting (.failed 32), halting .ok]).2.file 0 = .error (.sequenceRegression 1 1) := by
  decide +kernel

end AtlasCex.Server

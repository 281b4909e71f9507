import AtlasCex.Server.Runtime
/-!
# Snapshot plus tail against a full replay

`recover` starts from the newest snapshot's book and the *configured* market; a replay from nothing
starts from the configured market and the first record. The two meet exactly when every snapshot
was taken while the market stood as configured, because the snapshot does not carry the status that
the records before it may have set.
-/
namespace AtlasCex.Server
open List
open Matching

/-! ## Replay with the levels taken after each command -/

/-- `Engine.apply` and `take_level_changes`, record after record, from nothing. -/
def levelled (market : MarketConfig) (journal : List SequencedCommand) :
    List SequenceOutput × Engine :=
  Lib.run applyWithLevels (Engine.new market) journal

theorem levelled_append (market : MarketConfig) (journal later : List SequencedCommand) :
    levelled market (journal ++ later) =
      ((levelled market journal).1 ++
          (Lib.run applyWithLevels (levelled market journal).2 later).1,
        (Lib.run applyWithLevels (levelled market journal).2 later).2) :=
  Lib.run_append ..

theorem levelled_concat (market : MarketConfig) (journal : List SequencedCommand)
    (c : SequencedCommand) : levelled market (journal ++ [c]) =
      ((levelled market journal).1 ++ [(applyWithLevels (levelled market journal).2 c).1],
        (applyWithLevels (levelled market journal).2 c).2) :=
  Lib.run_concat ..

theorem levelled_same (market : MarketConfig) (journal : List SequencedCommand) :
    (levelled market journal).2.Same (scratch market journal) :=
  (run_applyWithLevels_same (Engine.Same.refl _) journal).2

theorem levelled_clear (market : MarketConfig) (journal : List SequencedCommand) :
    (levelled market journal).2.clear = (levelled market journal).2 := by
  induction journal using List.reverseRecOn with
  | nil => rfl
  | append_singleton journal c _ => rw [levelled_concat]; rfl

/-- An engine with nothing touched that agrees with the replay is the replay's. -/
theorem eq_levelled {market : MarketConfig} {journal : List SequencedCommand} {e : Engine}
    (h : e.Same (scratch market journal)) : e.clear = (levelled market journal).2 := by
  rw [← levelled_clear]
  exact (h.trans (levelled_same market journal).symm).clear_eq

/-! ## Runs that recover exactly -/

/-- The snapshot's book is that of the records up to it. -/
def SnapshotBook (config : Config) (rt : Runtime) : Prop :=
  rt.disk.base.1.Same (scratch config.market (rt.disk.journal.take rt.lastSnapshotSeq)).book

/-- The records up to the snapshot leave the market at the status recovery will start it with. -/
def AsConfigured (config : Config) (rt : Runtime) : Prop :=
  statusAfter config.market.status ((rt.disk.journal.take rt.lastSnapshotSeq).map (·.command)) =
    config.market.status

/-- The live engine is the replay's, and the snapshot agrees with it. -/
structure Faithful (config : Config) (rt : Runtime) : Prop where
  live : rt.engine = (levelled config.market rt.disk.journal).2
  book : SnapshotBook config rt

section
variable {config : Config} {commands : List Command} {rt rt' : Runtime} {c : SequencedCommand}

theorem SnapshotBook.append (h : SnapshotBook config rt) (hfiles : Files rt) (timestampMs : Int)
    (command : Command) : SnapshotBook config (rt.append timestampMs command).2 := by
  show rt.disk.base.1.Same
    (scratch config.market ((rt.disk.journal ++ [_]).take rt.lastSnapshotSeq)).book
  rw [take_append_of_le_length hfiles.last_le]
  exact h

/-- Matching the last record keeps it, whether or not a snapshot is taken. -/
theorem SnapshotBook.applied (h : SnapshotBook config rt) {writes : Bool}
    (happ : Applied rt c writes rt') (hc : c.seq = rt.disk.journal.length)
    (hlive : rt'.engine = (levelled config.market rt'.disk.journal).2) :
    SnapshotBook config rt' := by
  unfold SnapshotBook at h ⊢
  rcases happ.files with ⟨-, -, hlast, hsnap⟩ | ⟨-, hlast, hsnap⟩
  · have hall : rt'.disk.journal.take rt'.lastSnapshotSeq = rt'.disk.journal := by
      rw [hlast, hc, happ.journal, take_length]
    rw [hall, Disk.base, hsnap, hlive]
    exact (levelled_same _ _).book
  · have hbook : rt'.disk.base = rt.disk.base := by unfold Disk.base; rw [hsnap]
    rw [hbook, hlast, happ.journal]
    exact h

/-- The tail after the snapshot leads back to the replay of the whole journal. -/
theorem SnapshotBook.tail (h : SnapshotBook config rt) (hconf : AsConfigured config rt)
    (hfiles : Files rt) :
    ((Engine.withBook config.market rt.disk.base.1 rt.lastSnapshotSeq).run
      (rt.disk.journal.drop rt.lastSnapshotSeq)).2.clear =
        (levelled config.market rt.disk.journal).2 := by
  have hbase : (Engine.withBook config.market rt.disk.base.1 rt.lastSnapshotSeq).Same
      (scratch config.market (rt.disk.journal.take rt.lastSnapshotSeq)) := by
    refine ⟨?_, h, (hfiles.numbered.scratch_take config.market hfiles.last_le).symm⟩
    rw [scratch_status, hconf]; rfl
  have hrun := (hbase.run (rt.disk.journal.drop rt.lastSnapshotSeq)).2
  rw [← scratch_append, take_append_drop] at hrun
  exact eq_levelled hrun

/-- A restart from such files. -/
theorem SnapshotBook.restart (h : SnapshotBook config rt) (hfiles : Files rt)
    (hconf : AsConfigured config rt) (hrec : Runtime.recover config rt.disk = some rt') :
    Faithful config rt' := by
  rw [hfiles.recover] at hrec
  cases hrec
  exact ⟨h.tail hconf hfiles, h⟩

theorem Faithful.submit (h : Faithful config rt) (hs : Stands config commands rt)
    (timestampMs : Int) (command : Command) :
    Faithful config (rt.submitWithLevels timestampMs command true).2 := by
  have happ := Server.applied (rt.append timestampMs command).2 (rt.append timestampMs command).1 true
  have hbook := h.book.append hs.toFiles timestampMs command
  unfold Runtime.submitWithLevels
  simp only
  generalize ((rt.append timestampMs command).2.applyJournaled _ true).2 = rt' at happ
  have hlive : rt'.engine = (levelled config.market rt'.disk.journal).2 := by
    rw [happ.engine, happ.journal]
    show (applyWithLevels rt.engine _).2 = (levelled config.market (rt.disk.journal ++ [_])).2
    rw [levelled_concat, ← h.live]; rfl
  refine ⟨hlive, hbook.applied happ ?_ hlive⟩
  show rt.engine.lastSeq + 1 = (rt.disk.journal ++ [_]).length
  rw [hs.lastSeq, length_append, hs.length]; rfl

/-- A snapshot taken by a submit is as configured if the commands so far leave the status so. -/
theorem AsConfigured.submit (h : AsConfigured config rt) (hs : Stands config commands rt)
    (timestampMs : Int) (command : Command)
    (hstatus : SnapshotAt config.snapshotEveryN (commands.length + 1) →
      statusAfter config.market.status (commands ++ [command]) = config.market.status) :
    AsConfigured config (rt.submitWithLevels timestampMs command true).2 := by
  have hs' := hs.submit timestampMs command
  have hlast := hs'.last
  rw [length_append, length_singleton, lastSnapshotAt_succ] at hlast
  unfold AsConfigured at h ⊢
  rw [map_take, hs'.journal, hlast]
  split
  · rename_i hdue
    rw [take_of_length_le (by simp)]
    exact hstatus ((due_iff _ _).1 hdue)
  · rw [take_append_of_le_length (lastSnapshotAt_le _ _), ← hs.last, ← hs.journal,
      ← map_take]
    exact h

end

/-! ## Runs -/

theorem runFrom_concat (config : Config) (steps : List RuntimeStep) (i : RuntimeStep) :
    Runtime.runFrom config (steps ++ [i]) =
      (Runtime.runFrom config steps).bind fun rt => rt.step config i := by
  unfold Runtime.runFrom
  rw [Option.bind_assoc]
  simp only [Lib.exec_concat]

theorem submitted_submit (steps : List RuntimeStep) (timestampMs : Int) (command : Command) :
    submitted (steps ++ [.submit timestampMs command]) = submitted steps ++ [command] := by
  simp [submitted]

theorem submitted_restart (steps : List RuntimeStep) :
    submitted (steps ++ [.restart]) = submitted steps := by
  simp [submitted]

/-- No step of a run fails, and every run stands where its commands put it. -/
theorem runFrom_stands (config : Config) (steps : List RuntimeStep) :
    ∃ rt, Runtime.runFrom config steps = some rt ∧ Stands config (submitted steps) rt := by
  induction steps using List.reverseRecOn with
  | nil =>
    obtain ⟨rt, hrt, hs⟩ := Stands.start config
    exact ⟨rt, by rw [Runtime.runFrom, hrt]; rfl, hs⟩
  | append_singleton steps i ih =>
    obtain ⟨rt, hrt, hs⟩ := ih
    rw [runFrom_concat, hrt, Option.bind_some]
    cases i with
    | submit timestampMs command =>
      rw [submitted_submit]
      exact ⟨_, rfl, hs.submit timestampMs command⟩
    | restart =>
      rw [submitted_restart]
      exact ⟨_, hs.recover config, hs.restart (hs.recover config)⟩

/-- Every snapshot the cadence takes along `steps` is taken at the configured status. -/
def SnapshotsAsConfigured (config : Config) (steps : List RuntimeStep) : Prop :=
  ∀ pre, pre <+: steps → SnapshotAt config.snapshotEveryN (submitted pre).length →
    statusAfter config.market.status (submitted pre) = config.market.status

variable {rt : Runtime}

theorem runFrom_faithful (config : Config) (steps : List RuntimeStep)
    (h : SnapshotsAsConfigured config steps) (hrt : Runtime.runFrom config steps = some rt) :
    Faithful config rt ∧ AsConfigured config rt := by
  induction steps using List.reverseRecOn generalizing rt with
  | nil =>
    cases hrt
    exact ⟨⟨rfl, OrderBook.Same.refl _⟩, rfl⟩
  | append_singleton steps i ih =>
    obtain ⟨rt₀, hrt₀, hs⟩ := runFrom_stands config steps
    obtain ⟨hf, hconf⟩ := ih (fun pre hpre => h pre (hpre.trans (prefix_append _ _))) hrt₀
    rw [runFrom_concat, hrt₀, Option.bind_some] at hrt
    cases i with
    | submit timestampMs command =>
      cases hrt
      have hat := h _ prefix_rfl
      rw [submitted_submit, length_append, length_singleton] at hat
      exact ⟨hf.submit hs timestampMs command, hconf.submit hs timestampMs command hat⟩
    | restart =>
      refine ⟨hf.book.restart hs.toFiles hconf hrt, ?_⟩
      change Runtime.recover config rt₀.disk = some rt at hrt
      rw [hs.recover] at hrt
      cases hrt
      exact hconf

/-! ## Recovery against replay -/

/-- What the restart of `rt`, the replay of its journal and its live engine agree on. -/
structure Recovers (config : Config) (rt : Runtime) : Prop where
  /-- Book, last trade price, sequence and market are those of the live engine. -/
  recovered : ∃ rt', Runtime.recover config rt.disk = some rt' ∧ rt'.engine.Same rt.engine
  /-- So are those of a replay from nothing; and whatever is journaled later, the replay gives the
  events the live engine gives for it. -/
  replayed : ∃ e events, Runtime.replayFromScratch config.market rt.disk.journal =
      some (e, events) ∧ e.Same rt.engine ∧
    ∀ later, Numbered (rt.disk.journal ++ later) →
      ∃ e', Runtime.replayFromScratch config.market (rt.disk.journal ++ later) =
        some (e', events ++ (rt.engine.run later).1.flatten)
  /-- The same with the level changes of each command. -/
  levels : ∃ outputs, outputs.length = rt.disk.journal.length ∧
    ∀ later, Numbered (rt.disk.journal ++ later) →
      Runtime.replayWithLevels config.market (rt.disk.journal ++ later) =
        some (outputs ++ (Lib.run applyWithLevels rt.engine later).1)

variable {config : Config} {commands : List Command}

theorem Faithful.recovers
    (h : Faithful config rt) (hconf : AsConfigured config rt) (hs : Stands config commands rt) :
    Recovers config rt := by
  have hsame : (scratch config.market rt.disk.journal).Same rt.engine := by
    rw [h.live]; exact (levelled_same _ _).symm
  refine ⟨⟨_, hs.recover config, ?_⟩, ?_, (levelled config.market rt.disk.journal).1, ?_, ?_⟩
  · rw [h.live]
    show (((Engine.withBook config.market rt.disk.base.1 rt.lastSnapshotSeq).run
      (rt.disk.journal.drop rt.lastSnapshotSeq)).2.clear).Same _
    rw [h.book.tail hconf hs.toFiles]
    exact Engine.Same.refl _
  · refine ⟨_, _, by rw [Runtime.replayFromScratch, hs.numbered.replay]; rfl, hsame, ?_⟩
    intro later hnumbered
    refine ⟨scratch config.market (rt.disk.journal ++ later), ?_⟩
    rw [Runtime.replayFromScratch, hnumbered.replay, ← (hsame.run later).1]
    unfold scratch Engine.run
    simp [Lib.run_append]
  · exact Lib.run_length ..
  · intro later hnumbered
    rw [Runtime.replayWithLevels, hnumbered.replay, h.live]
    exact congrArg some (congrArg Prod.fst (levelled_append config.market _ later))

/-- Where a snapshot has just been taken there is no tail: recovery ends at the configured
market. -/
theorem Stands.recovered_market {rt' : Runtime}
    (hs : Stands config commands rt) (hat : SnapshotAt config.snapshotEveryN commands.length)
    (hrec : Runtime.recover config rt.disk = some rt') : rt'.engine.market = config.market := by
  have hlast : rt.lastSnapshotSeq = commands.length := by
    rw [hs.last]
    unfold lastSnapshotAt
    rcases hat.2 with h | h
    · rw [if_pos h]
    · split
      · rfl
      · exact Nat.mul_div_cancel' h
  rw [hs.recover, hlast, ← hs.length, drop_length] at hrec
  cases hrec
  rfl

theorem Recovers.status (h : Recovers config rt) (hs : Stands config commands rt)
    (hat : SnapshotAt config.snapshotEveryN commands.length) :
    statusAfter config.market.status commands = config.market.status := by
  obtain ⟨rt', hrec, hsame⟩ := h.recovered
  obtain ⟨e, events, hreplay, hsame', -⟩ := h.replayed
  rw [Runtime.replayFromScratch, hs.numbered.replay, Option.map_some] at hreplay
  have hmarket : e.market = (scratch config.market rt.disk.journal).market := by
    cases hreplay; rfl
  rw [hsame'.market, ← hsame.market, hs.recovered_market hat hrec, scratch_status, hs.journal]
    at hmarket
  exact (congrArg MarketConfig.status hmarket).symm

/-- **Recovery is exact** at every point of a run, whatever is submitted, whenever it restarts and
however often it snapshots, if and only if no snapshot is taken while the market stands at another
status than the configured one. -/
theorem recovery_exact_iff (config : Config) (steps : List RuntimeStep) :
    (∀ pre, pre <+: steps → ∃ rt, Runtime.runFrom config pre = some rt ∧ Recovers config rt) ↔
      SnapshotsAsConfigured config steps := by
  constructor
  · intro h pre hpre hat
    obtain ⟨rt, hrt, hrecovers⟩ := h pre hpre
    obtain ⟨rt', hrt', hs⟩ := runFrom_stands config pre
    rw [hrt] at hrt'
    cases hrt'
    exact hrecovers.status hs hat
  · intro h pre hpre
    obtain ⟨rt, hrt, hs⟩ := runFrom_stands config pre
    refine ⟨rt, hrt, ?_⟩
    obtain ⟨hf, hconf⟩ := runFrom_faithful config pre (fun q hq => h q (hq.trans hpre)) hrt
    exact hf.recovers hconf hs

/-- A halt, then the snapshot it brings the cadence to. -/
theorem halted_snapshot_not_recovered : ∃ rt,
    Runtime.runFrom ⟨sampleMarket, 1, 1, 8⟩ [.submit 0 (.setStatus .halted)] = some rt ∧
      ¬Recovers ⟨sampleMarket, 1, 1, 8⟩ rt := by
  obtain ⟨rt, hrt, hs⟩ := runFrom_stands ⟨sampleMarket, 1, 1, 8⟩ [.submit 0 (.setStatus .halted)]
  refine ⟨rt, hrt, fun h => ?_⟩
  have := h.status hs ⟨Nat.one_pos, .inr ⟨1, rfl⟩⟩
  revert this
  decide

end AtlasCex.Server

import AtlasCex.Lib.Script
import AtlasCex.Server.Submit
/-!
# The stream against the journal

The stream plays a script: the entries of a replay of the journal, in order. Each publish sends a
stretch of it that begins no later than where the stream has got to, and the watermark follows. Two
things can break that, and both are conditions on a step here:

* a gap served from the ring, when the ring has not recorded every sequence in it, or recorded one
  with more events than it holds;
* a restart from a snapshot taken at another status than the configured one, after which the live
  events are not those of the replay.
-/
namespace AtlasCex.Server
open List
open Matching
open Std (ExtTreeMap)

/-! ## The outputs of a replay -/

/-- Outputs numbered from one without gaps, each with at least one event. -/
structure Outputs (outs : List SequenceOutput) : Prop where
  numbered : outs.map SequenceOutput.seq = List.range' 1 outs.length
  emits : ∀ out ∈ outs, Emits out.seq out.events

theorem levelled_seqs (market : MarketConfig) (journal : List SequencedCommand) :
    (levelled market journal).1.map SequenceOutput.seq = journal.map SequencedCommand.seq := by
  induction journal using List.reverseRecOn with
  | nil => rfl
  | append_singleton journal c ih =>
    rw [levelled_concat, map_append, map_append, ih]; rfl

theorem levelled_length (market : MarketConfig) (journal : List SequencedCommand) :
    (levelled market journal).1.length = journal.length := by
  have := congrArg List.length (levelled_seqs market journal)
  rwa [length_map, length_map] at this

theorem levelled_outputs (market : MarketConfig) {journal : List SequencedCommand}
    (h : Numbered journal) : Outputs (levelled market journal).1 := by
  refine ⟨by rw [levelled_seqs, h, levelled_length], ?_⟩
  clear h
  induction journal using List.reverseRecOn with
  | nil => intro out hout; cases hout
  | append_singleton journal c ih =>
    intro out hout
    rw [levelled_concat] at hout
    rcases mem_append.1 hout with hout | hout
    · exact ih out hout
    · rw [mem_singleton.1 hout]
      exact apply_emits _ c

namespace Outputs
variable {outs : List SequenceOutput}

theorem sorted (h : Outputs outs) : outs.Pairwise (·.seq < ·.seq) := by
  have : (outs.map SequenceOutput.seq).Pairwise (· < ·) := by
    rw [h.numbered]; exact pairwise_lt_range'
  exact pairwise_map.1 this

theorem seq_bounds (h : Outputs outs) {out : SequenceOutput} (hout : out ∈ outs) :
    1 ≤ out.seq ∧ out.seq ≤ outs.length := by
  have : out.seq ∈ outs.map SequenceOutput.seq := mem_map_of_mem hout
  rw [h.numbered, mem_range'_1] at this
  omega

theorem get (h : Outputs outs) {k : Nat} (hk : k < outs.length) : outs[k].seq = k + 1 := by
  have hmap : (outs.map SequenceOutput.seq)[k]? = some outs[k].seq := by simp [hk]
  rw [h.numbered, getElem?_range' hk] at hmap
  simp only [Option.some.injEq] at hmap
  omega

theorem mem_iff_get (h : Outputs outs) {out : SequenceOutput} (hout : out ∈ outs) :
    outs[out.seq - 1]? = some out := by
  obtain ⟨k, hk, rfl⟩ := getElem_of_mem hout
  rw [h.get hk, Nat.add_sub_cancel, getElem?_eq_getElem hk]

end Outputs

/-- The entries of the sequences up to `k`. -/
def upTo (outs : List SequenceOutput) (k : Nat) : List Entry := (outs.take k).flatMap entriesOf

/-- The outputs after `a`, up to and with `b`. -/
def slice (outs : List SequenceOutput) (a b : Nat) : List SequenceOutput :=
  (outs.drop a).take (b - a)

theorem upTo_slice (outs : List SequenceOutput) {a b : Nat} (h : a ≤ b) :
    upTo outs b = upTo outs a ++ (slice outs a b).flatMap entriesOf := by
  unfold upTo slice
  rw [← flatMap_append, ← take_add, Nat.add_sub_cancel' h]

theorem upTo_le (outs : List SequenceOutput) {a b : Nat} (h : a ≤ b) :
    upTo outs a <+: upTo outs b := by
  rw [upTo_slice outs h]; exact prefix_append _ _

theorem upTo_script (outs : List SequenceOutput) (k : Nat) :
    upTo outs k <+: outs.flatMap entriesOf := by
  refine ⟨(outs.drop k).flatMap entriesOf, ?_⟩
  unfold upTo
  rw [← flatMap_append, take_append_drop]

theorem upTo_append (outs : List SequenceOutput) (out : SequenceOutput) {k : Nat}
    (h : k ≤ outs.length) : upTo (outs ++ [out]) k = upTo outs k := by
  unfold upTo; rw [take_append_of_le_length h]

namespace Outputs
variable {outs : List SequenceOutput}

theorem slice_sub (a b : Nat) : (slice outs a b).Sublist outs :=
  (take_sublist _ _).trans (drop_sublist _ _)

variable {a b : Nat}

theorem slice_seqs (h : Outputs outs) (hb : b ≤ outs.length) :
    (slice outs a b).map SequenceOutput.seq = List.range' (a + 1) (b - a) := by
  unfold slice
  rw [map_take, map_drop, h.numbered, drop_range']
  have hsplit : List.range' (1 + a) (outs.length - a) =
      List.range' (1 + a) (b - a) ++ List.range' (1 + a + (b - a)) (outs.length - a - (b - a)) := by
    rw [List.range'_append_1]
    congr 1
    omega
  rw [Nat.mul_one, hsplit, take_left' (by simp), Nat.add_comm 1 a]

variable {out : SequenceOutput}

theorem mem_slice (h : Outputs outs) (hb : b ≤ outs.length)
    (hout : out ∈ slice outs a b) : out ∈ outs ∧ a < out.seq ∧ out.seq ≤ b := by
  have hmem : out.seq ∈ (slice outs a b).map SequenceOutput.seq := mem_map_of_mem hout
  rw [h.slice_seqs hb, mem_range'_1] at hmem
  exact ⟨(slice_sub a b).subset hout, by omega, by omega⟩

/-- What a stretch of the outputs is sent as, whatever else the levels hold. -/
theorem toEntries_slice (h : Outputs outs) {levels : LevelsBySeq}
    (hlevels : ∀ out ∈ slice outs a b, levels[out.seq]? = some out.levels) :
    toEntries ((slice outs a b).flatMap (·.events)) levels =
      (slice outs a b).flatMap entriesOf :=
  toEntries_outputs (h.sorted.sublist (slice_sub a b))
    (fun out hout => (h.emits out ((slice_sub a b).subset hout)).ofSeq) hlevels

/-- A command's own entries end what there is up to its sequence. -/
theorem upTo_own (h : Outputs outs) (hout : out ∈ outs) :
    upTo outs out.seq = upTo outs (out.seq - 1) ++ entriesOf out := by
  have hget := h.mem_iff_get hout
  have hpos := (h.seq_bounds hout).1
  unfold upTo
  have htake : outs.take out.seq = outs.take (out.seq - 1) ++ [out] := by
    conv => lhs; rw [show out.seq = out.seq - 1 + 1 by omega]
    rw [take_add_one, hget]; rfl
  rw [htake, flatMap_append, flatMap_singleton]

theorem toEntries_own (h : Outputs outs) (hout : out ∈ outs) :
    toEntries out.events ((∅ : LevelsBySeq).insert out.seq out.levels) = entriesOf out := by
  have hone : toEntries ([out].flatMap (·.events)) (((∅ : LevelsBySeq).insert out.seq out.levels)) =
      [out].flatMap entriesOf :=
    toEntries_outputs (pairwise_singleton _ _) (by simpa using (h.emits out hout).ofSeq) (by simp)
  simpa using hone

/-- The ring has recorded `seen`, some of the outputs, in order. -/
structure RingOf (outs seen : List SequenceOutput) (ring : EventRing) : Prop where
  recorded : ∃ capacity, ring = recorded capacity seen
  known : seen ⊆ outs
  sorted : seen.Pairwise (·.seq < ·.seq)

/-- What such a ring has levels for it holds whole, unless it overran the ring. -/
theorem ring_whole (h : Outputs outs) {seen : List SequenceOutput} {ring : EventRing}
    (hring : RingOf outs seen ring) : BySeq ring.events ∧
      ∀ out ∈ outs, out.seq ∈ ring.levels → ring.levels[out.seq]? = some out.levels ∧
        (Fits ring.capacity out.events → ring.events.filter (·.seq = out.seq) = out.events) := by
  obtain ⟨⟨capacity, rfl⟩, hseen, hsorted⟩ := hring
  have hemits : ∀ out ∈ seen, Emits out.seq out.events := fun o ho => h.emits o (hseen ho)
  obtain ⟨dropped, htail⟩ := recorded_tail hsorted hemits capacity
  have hall := history_bySeq hsorted hemits
  rw [← htail.split] at hall
  refine ⟨(pairwise_append.1 hall).2.1, fun out hout hk => ?_⟩
  obtain ⟨hheld, o, ho, hseq⟩ := htail.known _ hk
  obtain rfl := eq_of_seq h.sorted (hseen ho) hout hseq
  rw [htail.sized]
  refine ⟨?_, fun hfits => htail.whole hsorted hemits ho hfits hheld⟩
  obtain ⟨y, hy, hle⟩ := hheld
  exact htail.levels y hy o ho hle

/-- What `outputs_from` gives for a gap, from either source: the events of the gap, once those from
`b + 1` on are filtered out, and their levels. -/
structure Gap (outs : List SequenceOutput) (a b : Nat) (events : List Event)
    (levels : LevelsBySeq) : Prop where
  events : events.filter (·.seq < b + 1) = (slice outs a b).flatMap (·.events)
  levels : ∀ out ∈ slice outs a b, levels[out.seq]? = some out.levels

/-- From a ring that has recorded all of the gap, and could hold each of its commands. -/
theorem ring_gap (h : Outputs outs) {seen : List SequenceOutput} {ring : EventRing}
    (hring : RingOf outs seen ring)
    (hab : a ≤ b) (hb : b ≤ outs.length) (hheld : ∀ out ∈ outs, a < out.seq → out.seq ≤ b →
      out.seq ∈ ring.levels ∧ Fits ring.capacity out.events) :
    Gap outs a b (ring.events.filter (a < ·.seq)) (ring.levelsSince a) := by
  obtain ⟨hsorted, hwhole⟩ := h.ring_whole hring
  refine ⟨?_, fun out hout => ?_⟩
  · have hbetween := Lib.filter_between hsorted a (b - a)
    rw [← h.slice_seqs hb, flatMap_map] at hbetween
    rw [filter_filter]
    calc ring.events.filter (fun ev => decide (ev.seq < b + 1) && decide (a < ev.seq))
        = ring.events.filter (fun ev => a < ev.seq ∧ ev.seq < a + 1 + (b - a)) := by
          apply filter_congr
          intro ev _
          rw [← Bool.decide_and, decide_eq_decide]; omega
      _ = (slice outs a b).flatMap (fun out => ring.events.filter (·.seq = out.seq)) := hbetween
      _ = (slice outs a b).flatMap (·.events) := by
          apply flatMap_congr
          intro out hout
          obtain ⟨hmem, hlt, hle⟩ := h.mem_slice hb hout
          obtain ⟨hk, hfits⟩ := hheld out hmem hlt hle
          exact (hwhole out hmem hk).2 hfits
  · obtain ⟨hmem, hlt, hle⟩ := h.mem_slice hb hout
    obtain ⟨hk, -⟩ := hheld out hmem hlt hle
    unfold EventRing.levelsSince
    rw [ExtTreeMap.getElem?_filter', (hwhole out hmem hk).1]
    simp [hlt]

theorem levelsOf_get (h : outs.Pairwise (·.seq < ·.seq))
    (hout : out ∈ outs) : (levelsOf outs)[out.seq]? = some out.levels := by
  unfold levelsOf
  induction outs using List.reverseRecOn with
  | nil => cases hout
  | append_singleton outs o ih =>
    rw [pairwise_append] at h
    rw [foldl_append, foldl_cons, foldl_nil, ExtTreeMap.getElem?_insert]
    simp only [Std.LawfulEqCmp.compare_eq_iff_eq]
    rcases mem_append.1 hout with hout | hout
    · have := h.2.2 out hout o mem_cons_self
      rw [if_neg (by omega)]
      exact ih h.1 hout
    · rw [mem_singleton.1 hout, if_pos rfl]

/-- From a replay of the journal. -/
theorem journal_gap (h : Outputs outs) (hab : a ≤ b) (hb : b ≤ outs.length) :
    Gap outs a b ((outs.filter (a < ·.seq)).flatMap (·.events))
      (levelsOf (outs.filter (a < ·.seq))) := by
  have hdrop : outs.filter (a < ·.seq) = outs.drop a := by
    rw [← Lib.filter_numbered a h.numbered]
    apply filter_congr
    intro out _
    rw [decide_eq_decide]; omega
  rw [hdrop]
  refine ⟨?_, fun out hout => ?_⟩
  · have hsplit : outs.drop a = slice outs a b ++ outs.drop b := by
      unfold slice
      conv => lhs; rw [← take_append_drop (b - a) (outs.drop a)]
      rw [drop_drop, Nat.add_sub_cancel' hab]
    rw [hsplit, filter_flatMap, flatMap_append]
    have hin : (slice outs a b).flatMap (fun out => out.events.filter (·.seq < b + 1)) =
        (slice outs a b).flatMap (·.events) := by
      apply flatMap_congr
      intro out hout
      obtain ⟨hmem, -, hle⟩ := h.mem_slice hb hout
      rw [filter_eq_self]
      intro ev hev
      rw [(h.emits out hmem).ofSeq ev hev, decide_eq_true_eq]; omega
    have hout : (outs.drop b).flatMap (fun out => out.events.filter (·.seq < b + 1)) = [] := by
      rw [flatMap_eq_nil_iff]
      intro out hout
      have hmem := mem_of_mem_drop hout
      have hlt : b < out.seq := by
        obtain ⟨k, hk, rfl⟩ := getElem_of_mem hout
        rw [getElem_drop, h.get]; omega
      rw [filter_eq_nil_iff]
      intro ev hev
      rw [(h.emits out hmem).ofSeq ev hev, decide_eq_true_eq]; omega
    rw [hin, hout, append_nil]
  · exact levelsOf_get (h.sorted.sublist (drop_sublist _ _)) ((take_sublist _ _).subset hout)

end Outputs

/-! ## The conditions -/

/-- When the gap before `out` is served from the ring: every sequence in it is recorded there, and
has no more events than the ring holds. -/
def GapHeld (config : Config) (s : Service) (out : SequenceOutput) : Prop :=
  let ring := s.ring.recordWithLevels out.events out.levels
  s.watermark.value + 1 < out.seq → ring.since s.watermark.value none ≠ none →
    ∀ o ∈ (levelled config.market s.journal).1, s.watermark.value < o.seq → o.seq < out.seq →
      o.seq ∈ ring.levels ∧ Fits ring.capacity o.events

/-- A gap is served from the ring only when it holds all of it, and a restart finds a snapshot that
was taken at the configured status. Nothing is asked of any other step. -/
def Kept (config : Config) (s : Service) : Step → Prop
  | .index => ∀ c out, s.egressTask = .indexing c out → GapHeld config s out
  | .restart _ => AsConfigured config s.runtime
  | _ => True

/-! ## On course -/

/-- What a publishing task still has to send, and the sequence it leads up to. -/
def EgressTask.target : EgressTask → Option (List Entry × Nat)
  | .gap todo out => some (todo, out.seq - 1)
  | .publishing todo out => some (todo, out.seq)
  | .recovering todo toSeq => some (todo, toSeq)
  | _ => none

def EgressTask.output : EgressTask → Option SequenceOutput
  | .indexing _ out | .gap _ out | .publishing _ out => some out
  | _ => none

/-- What is still to be sent is the rest of the script up to the target, from a point the stream has
reached. -/
def OnCourse (outs : List SequenceOutput) (m : Nat) (task : EgressTask) : Prop :=
  ∀ todo k, task.target = some (todo, k) →
    k ≤ outs.length ∧ ∃ pre, pre ++ todo = upTo outs k ∧ pre.length ≤ m

variable {outs : List SequenceOutput} {m : Nat}

theorem OnCourse.of_none {task : EgressTask} (h : task.target = none) : OnCourse outs m task := by
  intro todo k htarget
  rw [h] at htarget; cases htarget

theorem OnCourse.own (h : Outputs outs)
    {out : SequenceOutput} (hout : out ∈ outs) (hm : (upTo outs (out.seq - 1)).length ≤ m) :
    OnCourse outs m (Service.own out) := by
  rintro todo k ⟨⟩
  refine ⟨(h.seq_bounds hout).2, upTo outs (out.seq - 1), ?_, hm⟩
  rw [h.toEntries_own hout, ← h.upTo_own hout]

/-- Sending the next entry goes on with the script. -/
theorem OnCourse.send {task task' : EgressTask} {x : Entry}
    {stream : List Entry} (h : OnCourse outs m task) (hsend : task.send = some (x, task'))
    (hplays : Lib.Plays (outs.flatMap entriesOf) m stream) :
    ∃ m', m ≤ m' ∧ Lib.Plays (outs.flatMap entriesOf) m' (stream ++ [x]) ∧
      OnCourse outs m' task' := by
  obtain ⟨todo, k, htarget, htarget'⟩ : ∃ todo k, task.target = some (x :: todo, k) ∧
      task'.target = some (todo, k) := by
    unfold EgressTask.send at hsend
    split at hsend <;> cases hsend <;> exact ⟨_, _, rfl, rfl⟩
  obtain ⟨hk, pre, hpre, hle⟩ := h _ _ htarget
  obtain ⟨rest, hrest⟩ := upTo_script outs k
  have hscript : pre ++ x :: (todo ++ rest) = outs.flatMap entriesOf := by
    rw [← hrest, ← hpre]; simp
  rw [← hscript] at hplays
  obtain ⟨m', hm, hm', hplays'⟩ := hplays.emit hle
  rw [hscript] at hplays'
  refine ⟨m', hm, hplays', ?_⟩
  intro todo' k' ht
  rw [htarget'] at ht
  cases ht
  exact ⟨hk, pre ++ [x], by rw [← hpre]; simp, by simpa using hm'⟩

theorem replayOutputsAfter_eq (market : MarketConfig) {journal : List SequencedCommand}
    (h : Numbered journal) (seq : Nat) : replayOutputsAfter market journal seq =
      some (((levelled market journal).1.filter (seq < ·.seq)).flatMap (·.events),
        levelsOf ((levelled market journal).1.filter (seq < ·.seq))) := by
  rw [replayOutputsAfter, Runtime.replayWithLevels, h.replay]; rfl

/-- What a restart republishes: everything after the watermark. -/
theorem OnCourse.recovering (h : Outputs outs) {fromSeq : Nat}
    (hle : fromSeq ≤ outs.length) (hm : (upTo outs fromSeq).length ≤ m) :
    OnCourse outs m (.recovering (toEntries ((outs.filter (fromSeq < ·.seq)).flatMap (·.events))
      (levelsOf (outs.filter (fromSeq < ·.seq)))) outs.length) := by
  have hgap := h.journal_gap hle (Nat.le_refl _)
  have hall : ∀ ev ∈ (outs.filter (fromSeq < ·.seq)).flatMap (·.events),
      decide (ev.seq < outs.length + 1) = true := by
    intro ev hev
    obtain ⟨o, ho, hev⟩ := mem_flatMap.1 hev
    have hmem := (mem_filter.1 ho).1
    have := (h.seq_bounds hmem).2
    rw [(h.emits o hmem).ofSeq ev hev, decide_eq_true_eq]
    omega
  have hentries := h.toEntries_slice hgap.levels
  rw [← hgap.events, filter_eq_self.2 hall] at hentries
  rintro todo k ⟨⟩
  exact ⟨Nat.le_refl _, upTo outs fromSeq, by rw [hentries, ← upTo_slice outs hle], hm⟩

/-- **The choice of what to republish**: from a watermark the stream has reached, `submit` first
sends the whole gap, from either source. -/
theorem OnCourse.plan {config : Config} {s : Service} {out : SequenceOutput}
    {seen : List SequenceOutput} (hnumbered : Numbered s.journal)
    (hring : Outputs.RingOf (levelled config.market s.journal).1 seen s.ring)
    (hout : out ∈ (levelled config.market s.journal).1)
    (hheld : s.watermark.value + 1 < out.seq → s.ring.since s.watermark.value none ≠ none →
      ∀ o ∈ (levelled config.market s.journal).1, s.watermark.value < o.seq → o.seq < out.seq →
        o.seq ∈ s.ring.levels ∧ Fits s.ring.capacity o.events)
    (hm : (upTo (levelled config.market s.journal).1 s.watermark.value).length ≤ m) :
    OnCourse (levelled config.market s.journal).1 m (s.plan config out) := by
  have houts : Outputs (levelled config.market s.journal).1 :=
    levelled_outputs _ hnumbered
  have hreplay := replayOutputsAfter_eq config.market hnumbered s.watermark.value
  generalize (levelled config.market s.journal).1 = outs at *
  obtain ⟨hpos, hlen⟩ := houts.seq_bounds hout
  unfold Service.plan
  simp only
  split
  · rename_i hgap
    -- whichever source it is, what `outputs_from` gives is the gap
    obtain ⟨events, levels, hfrom, hg⟩ : ∃ events levels,
        outputsFrom config.market s.journal s.ring s.watermark.value = some (events, levels) ∧
          Outputs.Gap outs s.watermark.value (out.seq - 1) events levels := by
      unfold outputsFrom
      cases hsince : s.ring.since s.watermark.value none with
      | none =>
        exact ⟨_, _, hreplay, houts.journal_gap (by omega) (by omega)⟩
      | some events =>
        refine ⟨_, _, rfl, ?_⟩
        have hevents : events = s.ring.events.filter (s.watermark.value < ·.seq) := by
          unfold EventRing.since at hsince
          split at hsince
          · split at hsince
            · cases hsince; exact takeWholeSequences_none _
            · cases hsince
          · cases hsince
        rw [hevents]
        refine houts.ring_gap hring (by omega) (by omega) fun o ho hlt hle => ?_
        exact hheld hgap (by rw [hsince]; simp) o ho hlt (by omega)
    have hfilter := hg.events
    rw [show out.seq - 1 + 1 = out.seq by omega] at hfilter
    have hentries := houts.toEntries_slice hg.levels
    rw [hfrom]
    simp only [hfilter]
    split
    · rename_i hnil
      apply OnCourse.own houts hout
      rw [hnil] at hentries
      rw [upTo_slice outs (by omega : s.watermark.value ≤ out.seq - 1), ← hentries]
      simpa [toEntries, toEntriesLoop, eventIndices, Lib.indexRuns] using hm
    · rintro todo k ⟨⟩
      refine ⟨by omega, upTo outs s.watermark.value, ?_, hm⟩
      rw [hentries, ← upTo_slice outs (by omega)]
  · apply OnCourse.own houts hout
    exact (upTo_le outs (by omega)).length_le.trans hm

/-! ## The invariant -/

/-- The stream has reached `m` entries of the script: all that the watermark, or its file, says, and
all that comes before what is being published. -/
structure Reaches (outs : List SequenceOutput) (s : Service) (m : Nat) : Prop where
  plays : Lib.Plays (outs.flatMap entriesOf) m s.stream
  value_le : s.watermark.value ≤ outs.length
  file_le : s.watermark.file ≤ outs.length
  value : (upTo outs s.watermark.value).length ≤ m
  file : (upTo outs s.watermark.file).length ≤ m
  course : OnCourse outs m s.egressTask

structure Streams (config : Config) (s : Service) : Prop where
  book : SnapshotBook config s.runtime
  live : (∀ c, s.runtimeTask ≠ .appended c) →
    s.runtime.engine = (levelled config.market s.journal).2
  appended : ∀ c, s.runtimeTask = .appended c → ∃ before, s.journal = before ++ [c] ∧
    s.runtime.engine = (levelled config.market before).2
  applied : ∀ c out, s.runtimeTask = .applied c out →
    out ∈ (levelled config.market s.journal).1 ∧ out.seq = c.seq
  outgoing : ∀ out, s.egressTask.output = some out → out ∈ (levelled config.market s.journal).1
  indexing : ∀ c out, s.egressTask = .indexing c out → out.seq = c.seq
  ring : ∃ seen, Outputs.RingOf (levelled config.market s.journal).1 seen s.ring ∧
    ∀ c ∈ s.waiting, ∀ out ∈ seen, out.seq < c.seq
  reaches : ∃ m, Reaches (levelled config.market s.journal).1 s m

namespace Streams
variable {config : Config} {s s' : Service}

/-- A step of publishing: only how far the stream has got is at stake. -/
theorem of_outward (h : Streams config s) (hout : Outward s s')
    (houtgoing : ∀ out, s'.egressTask.output = some out → s.egressTask.output = some out)
    (hreaches : ∀ m, Reaches (levelled config.market s.journal).1 s m →
      ∃ m', Reaches (levelled config.market s.journal).1 s' m') : Streams config s' := by
  have hjournal : s'.journal = s.journal := by unfold Service.journal; rw [hout.runtime]
  refine ⟨hout.runtime ▸ h.book, ?_, ?_, ?_, ?_, ?_, ?_, ?_⟩
  · rw [hout.runtimeTask, hout.runtime, hjournal]; exact h.live
  · rw [hout.runtimeTask, hout.runtime, hjournal]; exact h.appended
  · rw [hout.runtimeTask, hjournal]; exact h.applied
  · intro out ho
    rw [hjournal]; exact h.outgoing out (houtgoing out ho)
  · intro c out ht
    have := hout.waiting
    rw [ht] at this
    cases this
  · obtain ⟨seen, hring, hold⟩ := h.ring
    rw [hjournal, hout.ring]
    exact ⟨seen, hring, fun c hc => hold c (hout.waiting_sublist.subset hc)⟩
  · obtain ⟨m, hm⟩ := h.reaches
    rw [hjournal]; exact hreaches m hm

variable {outs : List SequenceOutput} {m : Nat}

/-- Advancing the watermark to where the task has led. -/
theorem reaches_confirm (h : Reaches outs s m) {k : Nat}
    (htarget : s.egressTask.target = some ([], k)) (flushes : Bool) {next err : EgressTask}
    (hnext : (upTo outs k).length ≤ m → OnCourse outs m next) (herr : OnCourse outs m err) :
    Reaches outs (s.confirm k flushes next err) m := by
  obtain ⟨hk, pre, hpre, hle⟩ := h.course _ _ htarget
  rw [append_nil] at hpre
  rw [hpre] at hle
  obtain ⟨hvalue, hfile⟩ := s.watermark.advanceTo_spec k flushes
  have hmax : max s.watermark.value k ≤ outs.length ∧
      (upTo outs (max s.watermark.value k)).length ≤ m := by
    rcases Nat.le_total s.watermark.value k with hvk | hvk
    · rw [Nat.max_eq_right hvk]; exact ⟨hk, hle⟩
    · rw [Nat.max_eq_left hvk]; exact ⟨h.value_le, h.value⟩
  unfold Service.confirm
  generalize s.watermark.advanceTo k flushes = r at hvalue hfile
  obtain ⟨ok, w⟩ := r
  simp only at hvalue hfile ⊢
  refine ⟨h.plays, by rw [hvalue]; exact hmax.1, ?_, by rw [hvalue]; exact hmax.2, ?_, ?_⟩
  · rcases hfile with hf | hf <;> rw [hf]
    · exact h.file_le
    · exact hmax.1
  · rcases hfile with hf | hf <;> rw [hf]
    · exact h.file
    · exact hmax.2
  · show OnCourse outs m (if ok = true then next else err)
    split
    · exact hnext hle
    · exact herr

/-- One more record: the script grows, and nothing reached so far changes. -/
theorem reaches_grow (h : Reaches outs s m)
    (out : SequenceOutput) (hstream : s'.stream = s.stream) (hmark : s'.watermark = s.watermark)
    (htask : s'.egressTask = s.egressTask) : Reaches (outs ++ [out]) s' m := by
  have hlen : (outs ++ [out]).length = outs.length + 1 := by simp
  refine ⟨?_, ?_, ?_, ?_, ?_, ?_⟩
  · rw [hstream, flatMap_append]
    exact h.plays.mono (prefix_append _ _)
  · rw [hmark, hlen]; exact Nat.le_succ_of_le h.value_le
  · rw [hmark, hlen]; exact Nat.le_succ_of_le h.file_le
  · rw [hmark, upTo_append outs out h.value_le]; exact h.value
  · rw [hmark, upTo_append outs out h.file_le]; exact h.file
  · rw [htask]
    intro todo k htarget
    obtain ⟨hk, hpre⟩ := h.course todo k htarget
    rw [upTo_append outs out hk, hlen]
    exact ⟨Nat.le_succ_of_le hk, hpre⟩

theorem append (h : Streams config s) (ho : Orderly s) (hidle : s.runtimeTask = .idle)
    (timestampMs : Int) (command : Command) (unindexed : List Nat) : Streams config { s with
      runtime := (s.runtime.append timestampMs command).2
      runtimeTask := .appended (s.runtime.append timestampMs command).1
      unindexed := unindexed } := by
  have hnot : ∀ c, s.runtimeTask ≠ .appended c := by rw [hidle]; simp
  have hseq : (s.runtime.append timestampMs command).1.seq = s.journal.length + 1 := by
    show s.runtime.engine.lastSeq + 1 = _
    rw [ho.resumed hnot]
  have hbook := h.book.append ho.files timestampMs command
  have houts : Outputs (levelled config.market s.journal).1 := levelled_outputs _ ho.files.numbered
  have hbound : ∀ out ∈ (levelled config.market s.journal).1, out.seq < s.journal.length + 1 := by
    intro out hout
    have := (houts.seq_bounds hout).2
    rw [levelled_length] at this
    exact Nat.lt_succ_of_le this
  refine ⟨hbook, fun hc => absurd rfl (hc _), fun c hc => ?_, fun c out hc => (nomatch hc),
    fun out hout => ?_, h.indexing, ?_, ?_⟩
  · cases hc
    exact ⟨s.journal, rfl, h.live hnot⟩
  · show out ∈ (levelled config.market (s.journal ++ [_])).1
    rw [levelled_concat]
    exact mem_append_left _ (h.outgoing out hout)
  · obtain ⟨seen, hring, hold⟩ := h.ring
    refine ⟨seen, { hring with known := ?_ }, fun c hc out hout => ?_⟩
    · show seen ⊆ (levelled config.market (s.journal ++ [_])).1
      rw [levelled_concat]
      exact subset_append_of_subset_left _ hring.known
    · rcases mem_append.1 hc with hc | hc
      · exact hold c (mem_append_left _ hc) out hout
      · rw [mem_singleton.1 hc, hseq]
        exact hbound out (hring.known hout)
  · obtain ⟨m, hm⟩ := h.reaches
    refine ⟨m, ?_⟩
    show Reaches (levelled config.market (s.journal ++ [_])).1 _ m
    rw [levelled_concat]
    exact reaches_grow hm _ rfl rfl rfl

variable {c : SequencedCommand} {rt : Runtime}

/-- The last record has been matched: the live engine is the replay's again, and what it gave is
what the replay gives. -/
theorem applied_live (h : Streams config s) (ho : Orderly s) {writes : Bool}
    (htask : s.runtimeTask = .appended c) (happ : Applied s.runtime c writes rt) :
    SnapshotBook config rt ∧ rt.disk.journal = s.journal ∧
      rt.engine = (levelled config.market s.journal).2 ∧
      (applyWithLevels s.runtime.engine c).1 ∈ (levelled config.market s.journal).1 := by
  obtain ⟨before, hbefore, hlive⟩ := h.appended c htask
  have hnewest := ho.newest c (by rw [htask]; exact mem_cons_self)
  have hengine : rt.engine = (levelled config.market s.journal).2 := by
    rw [happ.engine, hbefore, levelled_concat, hlive]
  have hjournal : rt.disk.journal = s.journal := happ.journal
  refine ⟨h.book.applied happ (ho.files.numbered.seq_last hnewest) ?_, hjournal, hengine, ?_⟩
  · rw [hengine, hjournal]
  · rw [hbefore, levelled_concat, hlive]
    exact mem_append_right _ mem_cons_self

/-- What follows once the last record has been matched, whether its call goes on or returns. -/
theorem applied_step (h : Streams config s) (ho : Orderly s) {writes : Bool}
    {task : RuntimeTask} (htask : s.runtimeTask = .appended c)
    (happ : Applied s.runtime c writes rt)
    (hnext : task = .idle ∨ task = .applied c (applyWithLevels s.runtime.engine c).1) :
    Streams config { s with runtime := rt, runtimeTask := task } := by
  obtain ⟨hbook, hjournal, hlive, hmem⟩ := h.applied_live ho htask happ
  have hjournal' : ({ s with runtime := rt, runtimeTask := task } : Service).journal = s.journal :=
    hjournal
  refine ⟨hbook, fun _ => ?_, fun c' hc' => ?_, fun c' out hc' => ?_, ?_, h.indexing, ?_, ?_⟩
  · rw [hjournal']; exact hlive
  · rcases hnext with rfl | rfl <;> cases hc'
  · rcases hnext with rfl | rfl <;> cases hc'
    rw [hjournal']
    exact ⟨hmem, rfl⟩
  · rw [hjournal']; exact h.outgoing
  · obtain ⟨seen, hring, hold⟩ := h.ring
    rw [hjournal']
    refine ⟨seen, hring, fun c' hc' => hold c' ?_⟩
    unfold Service.waiting at hc' ⊢
    rw [htask]
    rcases mem_append.1 hc' with hc' | hc'
    · exact mem_append_left _ hc'
    · rcases hnext with rfl | rfl
      · cases hc'
      · exact mem_append_right _ hc'
  · obtain ⟨m, hm⟩ := h.reaches
    rw [hjournal']
    exact ⟨m, hm.plays, hm.value_le, hm.file_le, hm.value, hm.file, hm.course⟩

variable {out : SequenceOutput}

theorem plan_output {o : SequenceOutput} (h : (s.plan config out).output = some o) :
    o = out := by
  unfold Service.plan Service.own at h
  simp only at h
  split at h
  · split at h
    · cases h
    · split at h <;> cases h <;> rfl
  · cases h; rfl

theorem index (h : Streams config s) (ho : Orderly s)
    (hegress : s.egressTask = .indexing c out) (hheld : GapHeld config s out) :
    Streams config (s.index config c out) := by
  have hwait : s.waiting = c :: s.runtimeTask.waiting := by
    unfold Service.waiting; rw [hegress]; rfl
  have hsorted := ho.waiting_sorted
  rw [hwait, pairwise_cons] at hsorted
  have hseq := h.indexing c out hegress
  have hout := h.outgoing out (by rw [hegress]; rfl)
  have houts : Outputs (levelled config.market s.journal).1 := levelled_outputs _ ho.files.numbered
  obtain ⟨seen, ⟨⟨capacity, hrecorded⟩, hseen, hsorted'⟩, hold⟩ := h.ring
  have hring : Outputs.RingOf (levelled config.market s.journal).1 (seen ++ [out])
      (s.ring.recordWithLevels out.events out.levels) := by
    refine ⟨⟨capacity, by rw [recorded_concat, ← hrecorded]⟩, ?_, ?_⟩
    · exact append_subset.2 ⟨hseen, by simpa using hout⟩
    · refine pairwise_append.2 ⟨hsorted', pairwise_singleton _ _, fun o ho' o' ho'' => ?_⟩
      rw [mem_singleton.1 ho'', hseq]
      exact hold c (by rw [hwait]; exact mem_cons_self) o ho'
  refine ⟨h.book, h.live, h.appended, h.applied, fun o ho' => ?_, fun c' o ht => ?_,
    ⟨_, hring, fun c' hc' o ho' => ?_⟩, ?_⟩
  · rw [plan_output ho']; exact hout
  · have hnone := Orderly.index_waiting config s c out
    rw [ht] at hnone
    cases hnone
  · unfold Service.waiting at hc'
    rw [Orderly.index_waiting, nil_append] at hc'
    rcases mem_append.1 ho' with ho' | ho'
    · exact hold c' (by rw [hwait]; exact mem_cons_of_mem _ hc') o ho'
    · rw [mem_singleton.1 ho', hseq]
      exact hsorted.1 c' hc'
  · obtain ⟨m, hm⟩ := h.reaches
    exact ⟨m, hm.plays, hm.value_le, hm.file_le, hm.value, hm.file,
      OnCourse.plan ho.files.numbered hring hout hheld hm.value⟩

/-- A restart publishes again from the watermark it found. -/
theorem of_booted {disk : Disk} {fromSeq file : Nat} {stream : List Entry}
    (hfiles : Files rt) (hdisk : rt.disk = disk) (hbook : SnapshotBook config rt)
    (hconf : AsConfigured config rt) (h : Service.Booted config disk fromSeq file stream s)
    (hplays : Lib.Plays ((levelled config.market disk.journal).1.flatMap entriesOf) m stream)
    (hfile_le : file ≤ disk.journal.length)
    (hfile : (upTo (levelled config.market disk.journal).1 file).length ≤ m)
    (hle : fromSeq ≤ file) : Streams config s := by
  subst hdisk
  obtain ⟨hfiles', hdisk', -, -, hlast⟩ := hfiles.restart h.runtime
  have hfaithful := hbook.restart hfiles hconf h.runtime
  have hjournal : s.journal = rt.disk.journal := by unfold Service.journal; rw [hdisk']
  have houts := levelled_outputs config.market hfiles.numbered
  have hlen := levelled_length config.market rt.disk.journal
  have hfrom : (upTo (levelled config.market rt.disk.journal).1 fromSeq).length ≤ m :=
    (upTo_le _ hle).length_le.trans hfile
  refine ⟨hfaithful.book, fun _ => hfaithful.live, ?_, ?_, ?_, ?_, ?_, ⟨m, ?_⟩⟩
  · rw [h.runtimeTask]; intro c hc; cases hc
  · rw [h.runtimeTask]; intro c out hc; cases hc
  · intro out hout
    rcases h.egressTask with he | ⟨_, _, -, he⟩ <;> rw [he] at hout <;> cases hout
  · intro c out ht
    rcases h.egressTask with he | ⟨_, _, -, he⟩ <;> rw [he] at ht <;> cases ht
  · exact ⟨[], ⟨⟨_, h.ring⟩, nil_subset _, .nil⟩, fun _ _ _ hout => absurd hout not_mem_nil⟩
  · rw [hjournal]
    refine ⟨h.stream ▸ hplays, ?_, ?_, ?_, ?_, ?_⟩
    · rw [h.watermark, hlen]; exact hle.trans hfile_le
    · rw [h.watermark, hlen]; exact hfile_le
    · rw [h.watermark]; exact hfrom
    · rw [h.watermark]; exact hfile
    · rcases h.egressTask with he | ⟨events, levels, hreplay, he⟩
      · rw [he]; exact .of_none rfl
      · -- the republished gap runs from the watermark to the end of the journal
        rw [he, hlast, ← hlen]
        rw [replayOutputsAfter_eq _ hfiles.numbered] at hreplay
        cases hreplay
        exact .recovering houts (by rw [hlen]; exact hle.trans hfile_le) hfrom

theorem start (h : Service.start config = some s) : Streams config s := by
  refine of_booted (Files.empty config.market) rfl (OrderBook.Same.refl _) rfl (Service.booted h)
    .nil (Nat.le_refl _) (Nat.le_refl _) (Nat.le_refl _)

/-- The end of a restart's republishing. -/
theorem reaches_recovered {toSeq : Nat} (h : Reaches outs s m)
    (hegress : s.egressTask = .recovering [] toSeq) (flushes : Bool) :
    Reaches outs (s.confirmRecovery toSeq flushes) m := by
  have hm : Reaches outs (s.confirm toSeq flushes .idle .failed) m :=
    reaches_confirm h (by rw [hegress]; rfl) flushes (fun _ => .of_none rfl) (.of_none rfl)
  unfold Service.confirmRecovery
  simp only
  split
  · exact ⟨hm.plays, hm.value_le, hm.value_le, hm.value, hm.value, hm.course⟩
  · exact ⟨hm.plays, hm.value_le, hm.file_le, hm.value, hm.file, .of_none rfl⟩

/-- The call inside the runtime lock lets go of it: its command goes on to `task`, or nowhere. -/
theorem letGo (h : Streams config s) {task : EgressTask} (hrun : s.runtimeTask = .applied c out)
    (htask : task = s.egressTask ∨ task = .indexing c out) :
    Streams config { s with runtimeTask := .idle, egressTask := task } := by
  obtain ⟨hmem, hseq⟩ := h.applied c out hrun
  refine ⟨h.book, fun _ => h.live (by rw [hrun]; simp), fun _ hc => (nomatch hc),
    fun _ _ hc => (nomatch hc), fun o ho => ?_, fun c' o ht => ?_, ?_, ?_⟩
  · rcases htask with rfl | rfl
    · exact h.outgoing o ho
    · cases ho; exact hmem
  · rcases htask with rfl | rfl
    · exact h.indexing c' o ht
    · cases ht; exact hseq
  · obtain ⟨seen, hring, hold⟩ := h.ring
    refine ⟨seen, hring, fun c' hc' => hold c' ?_⟩
    unfold Service.waiting at hc' ⊢
    rw [RuntimeTask.waiting, append_nil] at hc'
    rcases htask with rfl | rfl
    · exact mem_append_left _ hc'
    · rw [hrun]; exact mem_append_right _ hc'
  · obtain ⟨m, hm⟩ := h.reaches
    refine ⟨m, hm.plays, hm.value_le, hm.file_le, hm.value, hm.file, ?_⟩
    rcases htask with rfl | rfl
    · exact hm.course
    · exact .of_none rfl

theorem step (h : Streams config s) (ho : Orderly s) {i : Step} (hi : Kept config s i)
    (hs : Service.Stepped config s i s') : Streams config s' := by
  cases hs with
  | append hidle _ => exact h.append ho hidle _ _ _
  | @applied writes c out rt htask happ =>
    have hout := applyJournaled_output s.runtime c writes
    rw [happ] at hout
    refine h.applied_step ho htask (.of_eq happ) (.inr ?_)
    split at hout
    · cases hout
    · rw [Option.some.inj hout]
  | unwritten htask happ => exact h.applied_step ho htask (.of_eq happ) (.inl rfl)
  | handOver hrun _ => exact h.letGo hrun (.inr rfl)
  | drop hrun => exact h.letGo hrun (.inl rfl)
  | index hegress => exact h.index ho hegress (hi _ _ hegress)
  | publish hsend =>
    refine h.of_outward (.publish hsend) (fun out hout => ?_) fun m hm => ?_
    · unfold EgressTask.send at hsend
      split at hsend
      all_goals first | (rename_i he; cases hsend; rw [he]; exact hout) | cases hsend
    · obtain ⟨m', hle, hplays, hcourse⟩ := hm.course.send hsend hm.plays
      exact ⟨m', hplays, hm.value_le, hm.file_le, hm.value.trans hle, hm.file.trans hle, hcourse⟩
  | @confirmGap flushes out hegress =>
    have houts : Outputs (levelled config.market s.journal).1 :=
      levelled_outputs _ ho.files.numbered
    have hmem := h.outgoing out (by rw [hegress]; rfl)
    refine h.of_outward (.confirm _ _ _ rfl rfl) (fun o hout => ?_) fun m hm => ⟨m, ?_⟩
    · rw [hegress]
      unfold Service.confirm Service.own at hout
      simp only at hout
      split at hout
      · exact hout
      · cases hout
    · exact reaches_confirm hm (by rw [hegress]; rfl) flushes (.own houts hmem) (.of_none rfl)
  | @confirmOwn flushes out hegress =>
    refine h.of_outward (.confirm _ _ _ rfl rfl) (fun o hout => ?_) fun m hm => ⟨m, ?_⟩
    · unfold Service.confirm at hout
      simp only [ite_self] at hout
      cases hout
    · exact reaches_confirm hm (by rw [hegress]; rfl) flushes (fun _ => .of_none rfl) (.of_none rfl)
  | @confirmRecovery flushes toSeq hegress =>
    refine h.of_outward (.confirmRecovery _ _ _) (fun o hout => ?_) fun m hm =>
      ⟨m, reaches_recovered hm hegress flushes⟩
    unfold Service.confirmRecovery Service.confirm at hout
    simp only at hout
    split at hout
    · simp only at hout
      split at hout <;> cases hout
    · cases hout
  | abandon habandon =>
    refine h.of_outward (.abandon habandon) (fun o hout => ?_) fun m hm => ⟨m, ?_⟩
    · unfold EgressTask.abandon at habandon
      split at habandon <;> cases habandon <;> cases hout
    · refine ⟨hm.plays, hm.value_le, hm.file_le, hm.value, hm.file, .of_none ?_⟩
      unfold EgressTask.abandon at habandon
      split at habandon <;> cases habandon <;> rfl
  | restart hle hboot =>
    obtain ⟨m, hm⟩ := h.reaches
    refine of_booted ho.files rfl h.book hi (Service.booted hboot) hm.plays ?_ hm.file hle
    have := hm.file_le
    rwa [levelled_length] at this

end Streams

/-! ## Nothing is skipped -/

/-- The stream against `outs`, the outputs of a replay of the journal: everything up to the
watermark is there, with its key and, on the last entry of a sequence, its level changes; nothing
else is there; and first occurrences are in key order. -/
structure Published (config : Config) (s : Service) (outs : List SequenceOutput) : Prop where
  replayed : Runtime.replayWithLevels config.market s.journal = some outs
  complete : ∀ out ∈ outs, out.seq ≤ s.watermark.value → ∀ x ∈ entriesOf out, x ∈ s.stream
  sound : ∀ x ∈ s.stream, ∃ out ∈ outs, x ∈ entriesOf out
  ordered : Lib.FirstsInOrder Entry.Before s.stream

theorem Streams.published {config : Config} {s : Service} (h : Streams config s) (ho : Orderly s) :
    Published config s (levelled config.market s.journal).1 := by
  have houts : Outputs (levelled config.market s.journal).1 := levelled_outputs _ ho.files.numbered
  obtain ⟨m, hm⟩ := h.reaches
  refine ⟨?_, fun out hout hle x hx => ?_, fun x hx => ?_, ?_⟩
  · have hnumbered : Numbered s.journal := ho.files.numbered
    rw [Runtime.replayWithLevels, hnumbered.replay]; rfl
  · have hupto : x ∈ upTo (levelled config.market s.journal).1 s.watermark.value := by
      refine (upTo_le _ hle).subset ?_
      rw [houts.upTo_own hout]
      exact mem_append_right _ hx
    obtain ⟨rest, hrest⟩ := upTo_script (levelled config.market s.journal).1 s.watermark.value
    rw [hm.plays.mem_iff, ← hrest, take_append, take_of_length_le hm.value]
    exact mem_append_left _ hupto
  · rw [hm.plays.mem_iff] at hx
    exact mem_flatMap.1 (mem_of_mem_take hx)
  · exact hm.plays.firstsInOrder (entriesOf_sorted houts.sorted)

/-- **No journaled event is skipped**, in any interleaving of calls, failed snapshots, failed or
abandoned publishes and restarts, as long as a gap served from the ring is all in the ring and a
restart finds a snapshot taken at the configured status. -/
theorem no_event_skipped {config : Config} {steps : List Step} {s₀ s : Service}
    (hstart : Service.start config = some s₀)
    (hkept : Lib.Along (Service.step config) (Kept config) s₀ steps)
    (hrun : Lib.exec (Service.step config) s₀ steps = some s) :
    ∃ outs, Published config s outs := by
  have h := Lib.exec_inv (I := fun s => Orderly s ∧ Streams config s)
    ⟨Orderly.start hstart, Streams.start hstart⟩
    (fun _ _ _ ht hi hs => ⟨ht.1.step (Service.stepped hs), ht.2.step ht.1 hi (Service.stepped hs)⟩)
    hkept hrun
  exact ⟨_, h.2.published h.1⟩

/-- A crash right after the journal write: the restart publishes what was matched. -/
theorem no_event_skipped_restart : ∃ s₀ s, Service.start sampleConfig = some s₀ ∧
    Lib.exec (Service.step sampleConfig) s₀ [.append 0 samplePlacement, .apply true, .restart 0,
      .publish, .confirm true] = some s ∧ s.watermark.value = 1 ∧
      ∃ outs, Published sampleConfig s outs := by
  obtain ⟨s₀, hstart⟩ : ∃ s₀, Service.start sampleConfig = some s₀ :=
    Option.isSome_iff_exists.1 (by decide +kernel)
  obtain ⟨s, hs⟩ : ∃ s, Service.runFrom sampleConfig [.append 0 samplePlacement, .apply true,
      .restart 0, .publish, .confirm true] = some s :=
    Option.isSome_iff_exists.1 (by decide +kernel)
  have hmark : (Service.runFrom sampleConfig [.append 0 samplePlacement, .apply true,
      .restart 0, .publish, .confirm true]).map (·.watermark.value) = some 1 := by decide +kernel
  have hconf : (Service.runFrom sampleConfig [.append 0 samplePlacement, .apply true]).map
      (fun s => statusAfter sampleMarket.status
        ((s.runtime.disk.journal.take s.runtime.lastSnapshotSeq).map (·.command))) =
      some .open := by decide +kernel
  rw [hs, Option.map_some, Option.some.injEq] at hmark
  rw [Service.runFrom, hstart, Option.bind_some] at hs hconf
  refine ⟨s₀, s, hstart, hs, hmark, no_event_skipped hstart ?_ hs⟩
  refine .cons trivial fun s₁ h₁ => .cons trivial fun s₂ h₂ => .cons ?_ fun _ _ =>
    .cons trivial fun _ _ => .cons trivial fun _ _ => .nil
  simp only [Lib.exec, h₁, h₂, Option.bind_some, Option.map_some, Option.some.injEq] at hconf
  exact hconf

/-- The snapshot of the second command, a fill, is not written; the third goes through. -/
def skippingRun : List Step :=
  [.append 0 samplePlacement, .apply true, .handOver, .index, .publish, .confirm true,
    .append 0 (.place "o-2" (sampleOrder "bob" .sell .gtc 1000 1000000000)), .apply false,
    .append 0 (.cancel "o-3"), .apply true, .handOver, .index, .publish, .confirm true]

/-- The third command finds a ring that reaches back past the second without holding it, and moves
the watermark over it. -/
theorem fill_skipped : ∃ s, Service.runFrom ⟨sampleMarket, 2, 1, 8⟩ skippingRun = some s ∧
    s.watermark.value = 3 ∧ (∀ x ∈ s.stream, x.seq ≠ 2) ∧
      ¬∃ outs, Published ⟨sampleMarket, 2, 1, 8⟩ s outs := by
  obtain ⟨s, hs⟩ : ∃ s, Service.runFrom ⟨sampleMarket, 2, 1, 8⟩ skippingRun = some s :=
    Option.isSome_iff_exists.1 (by decide +kernel)
  have hrun : (Service.runFrom ⟨sampleMarket, 2, 1, 8⟩ skippingRun).map (fun s =>
      (s.watermark.value, s.stream.map (·.seq), (Runtime.replayWithLevels sampleMarket s.journal).map
        fun outs => outs.map fun out => (out.seq, out.events.length))) =
      some (3, [1, 3], some [(1, 1), (2, 2), (3, 1)]) := by decide +kernel
  rw [hs, Option.map_some, Option.some.injEq, Prod.mk.injEq, Prod.mk.injEq] at hrun
  obtain ⟨hmark, hstream, hreplay⟩ := hrun
  have hnot : ∀ x ∈ s.stream, x.seq ≠ 2 := by
    intro x hx heq
    have : x.seq ∈ s.stream.map (·.seq) := mem_map_of_mem hx
    rw [hstream, heq] at this
    simp at this
  refine ⟨s, hs, hmark, hnot, ?_⟩
  rintro ⟨outs, hpub⟩
  rw [hpub.replayed, Option.map_some, Option.some.injEq] at hreplay
  obtain ⟨out, hout, hseq⟩ := mem_map.1 (hreplay ▸ (by simp) :
    (2, 2) ∈ outs.map fun out => (out.seq, out.events.length))
  simp only [Prod.mk.injEq] at hseq
  obtain ⟨event, events, hevents⟩ := exists_cons_of_length_pos (by omega : 0 < out.events.length)
  have hfirst : ∃ levels, (⟨out.seq, 0, event, levels⟩ : Entry) ∈ entriesOf out :=
    ⟨_, by rw [entriesOf, hevents, entriesFrom]; exact mem_cons_self⟩
  obtain ⟨levels, hmem⟩ := hfirst
  exact hnot _ (hpub.complete out hout (by omega) _ hmem) hseq.1

end AtlasCex.Server

import AtlasCex.Server.Submit
/-!
# The lookup against the journal

The sweeper releases a customer's hold when the lookup says `NeverSeen`. The journal is written
first and the index last, in another critical section, so the two disagree for as long as a
placement is on its way from the one to the other: that is a moment for a `submit` that goes
through, and the rest of the process's life for one that returned early or was dropped.
-/
namespace AtlasCex.Server
open List
open Matching
open Std (ExtTreeMap)

/-- The entry a command makes for a client order id. -/
def placementOf (clientOrderId : String) (c : SequencedCommand) : Option (Nat × OrderId) :=
  match c.command with
  | .place orderId request =>
    if request.clientOrderId = clientOrderId then some (c.seq, orderId) else none
  | _ => none

/-- Sequence and order id of the last placement under a client order id. -/
def lastPlacement (clientOrderId : String) (commands : List SequencedCommand) :
    Option (Nat × OrderId) :=
  (commands.filterMap (placementOf clientOrderId)).getLast?

theorem lastPlacement_concat (clientOrderId : String) (commands : List SequencedCommand)
    (c : SequencedCommand) : lastPlacement clientOrderId (commands ++ [c]) =
      (placementOf clientOrderId c).or (lastPlacement clientOrderId commands) := by
  unfold lastPlacement
  rw [filterMap_append, getLast?_append]
  congr 1
  cases h : placementOf clientOrderId c <;> simp [h]

theorem insertPlacement_get (entries : ExtTreeMap String (Nat × OrderId)) (c : SequencedCommand)
    (clientOrderId : String) : (LookupIndex.insertPlacement entries c)[clientOrderId]? =
      (placementOf clientOrderId c).or entries[clientOrderId]? := by
  unfold LookupIndex.insertPlacement placementOf
  cases c.command with
  | place orderId request =>
    simp only [ExtTreeMap.getElem?_insert, Std.LawfulEqCmp.compare_eq_iff_eq]
    split <;> rfl
  | cancel | amend | setStatus => rfl

theorem rebuild_entries (commands : List SequencedCommand) (clientOrderId : String) :
    (commands.foldl LookupIndex.insertPlacement ∅)[clientOrderId]? =
      lastPlacement clientOrderId commands := by
  induction commands using List.reverseRecOn with
  | nil => exact ExtTreeMap.getElem?_empty
  | append_singleton commands c ih =>
    rw [foldl_append, lastPlacement_concat, ← ih]
    exact insertPlacement_get _ _ _

/-! ## What the index holds -/

/-- The index is the journal's, less what has not reached it; and what is waiting to reach it comes
after everything that has. -/
structure Indexed (s : Service) : Prop where
  ready : s.lookup.ready = true
  entries : ∀ clientOrderId, s.lookup.entries[clientOrderId]? =
    lastPlacement clientOrderId (s.journal.filter (·.seq ∉ s.unindexed))
  pending : ∀ c ∈ s.waiting, ∀ c' ∈ s.journal, c.seq ≤ c'.seq → c'.seq ∈ s.unindexed

namespace Indexed
variable {config : Config} {s s' : Service}

theorem of_same (h : Indexed s) (hlookup : s'.lookup = s.lookup) (hjournal : s'.journal = s.journal)
    (hunindexed : s'.unindexed = s.unindexed) (hwait : ∀ c ∈ s'.waiting, c ∈ s.waiting) :
    Indexed s' := by
  refine ⟨hlookup ▸ h.ready, fun id => ?_, fun c hc => ?_⟩
  · rw [hlookup, hjournal, hunindexed]; exact h.entries id
  · rw [hjournal, hunindexed]; exact h.pending c (hwait c hc)

theorem append (h : Indexed s) (ho : Orderly s) (hidle : s.runtimeTask = .idle) (timestampMs : Int)
    (command : Command) : Indexed { s with
      runtime := (s.runtime.append timestampMs command).2
      runtimeTask := .appended (s.runtime.append timestampMs command).1
      unindexed := (s.runtime.append timestampMs command).1.seq :: s.unindexed } := by
  have hseq : (s.runtime.append timestampMs command).1.seq = s.journal.length + 1 := by
    show s.runtime.engine.lastSeq + 1 = _
    rw [ho.resumed (by rw [hidle]; simp)]
  have hjournal : (s.runtime.append timestampMs command).2.disk.journal =
    s.journal ++ [(s.runtime.append timestampMs command).1] := rfl
  generalize (s.runtime.append timestampMs command).1 = c at *
  refine ⟨h.ready, fun id => ?_, fun c₀ hc₀ c' hc' hle => ?_⟩
  · show s.lookup.entries[id]? = _
    rw [h.entries id]
    unfold Service.journal
    simp only [hjournal, filter_append]
    rw [filter_cons_of_neg (by simp), filter_nil, append_nil]
    congr 1
    apply filter_congr
    intro c' hc'
    have := (ho.files.numbered.seq_bounds hc').2
    have hne : c'.seq ≠ c.seq := by unfold Service.journal at hseq; omega
    simp [hne]
  · change c' ∈ (s.runtime.append timestampMs command).2.disk.journal at hc'
    rw [hjournal] at hc'
    rcases mem_append.1 hc' with hc' | hc'
    · have hbound := (ho.files.numbered.seq_bounds hc').2
      rcases mem_append.1 hc₀ with hc₀ | hc₀
      · exact mem_cons_of_mem _ (h.pending c₀ (mem_append_left _ hc₀) c' hc' hle)
      · rw [mem_singleton.1 hc₀] at hle
        unfold Service.journal at hseq
        omega
    · rw [mem_singleton.1 hc']
      exact mem_cons_self

/-- What reaches the index comes after everything in it. -/
theorem index (h : Indexed s) (ho : Orderly s) {c : SequencedCommand} {out : SequenceOutput}
    (hegress : s.egressTask = .indexing c out) : Indexed (s.index config c out) := by
  have hwait : s.waiting = c :: s.runtimeTask.waiting := by
    unfold Service.waiting; rw [hegress]; rfl
  have hpending := h.pending c (by rw [hwait]; exact mem_cons_self)
  have hmem := ho.waiting_mem c (by rw [hwait]; exact mem_cons_self)
  have hsorted := ho.waiting_sorted
  rw [hwait, pairwise_cons] at hsorted
  obtain ⟨before, after, hsplit⟩ := append_of_mem hmem
  have hjsorted := ho.files.numbered.sequenced
  change s.journal.Pairwise _ at hjsorted
  rw [hsplit, pairwise_append, pairwise_cons] at hjsorted
  obtain ⟨-, ⟨hafter, -⟩, hbefore⟩ := hjsorted
  refine ⟨h.ready, fun id => ?_, fun c₀ hc₀ c' hc' hle => ?_⟩
  · show (LookupIndex.insertPlacement s.lookup.entries c)[id]? =
      lastPlacement id (s.journal.filter (·.seq ∉ s.unindexed.filter (· ≠ c.seq)))
    -- everything at `c` and after it was still to be indexed; now `c` is
    have hold : s.journal.filter (·.seq ∉ s.unindexed) = before.filter (·.seq ∉ s.unindexed) := by
      rw [hsplit, filter_append]
      have : (c :: after).filter (·.seq ∉ s.unindexed) = [] := by
        rw [filter_eq_nil_iff]
        intro c' hc'
        have hle : c.seq ≤ c'.seq := by
          rcases mem_cons.1 hc' with rfl | hc'
          · exact Nat.le_refl _
          · exact Nat.le_of_lt (hafter c' hc')
        simpa using hpending c' (by rw [hsplit]; exact mem_append_right _ hc') hle
      rw [this, append_nil]
    have hnew : s.journal.filter (·.seq ∉ s.unindexed.filter (· ≠ c.seq)) =
        before.filter (·.seq ∉ s.unindexed) ++ [c] := by
      rw [hsplit, filter_append, filter_cons_of_pos (by simp)]
      congr 1
      · apply filter_congr
        intro c' hc'
        have := hbefore c' hc' c mem_cons_self
        have hne : c'.seq ≠ c.seq := by omega
        simp [hne]
      · congr 1
        rw [filter_eq_nil_iff]
        intro c' hc'
        have hlt := hafter c' hc'
        have hmem' := hpending c' (by
          rw [hsplit]; exact mem_append_right _ (mem_cons_of_mem _ hc'))
            (Nat.le_of_lt hlt)
        have hne : c'.seq ≠ c.seq := by omega
        simp [hmem', hne]
    rw [hnew, lastPlacement_concat, insertPlacement_get, h.entries, hold]
  · have hc₀' : c₀ ∈ s.runtimeTask.waiting := by
      unfold Service.waiting at hc₀
      rwa [Orderly.index_waiting, nil_append] at hc₀
    have hlt := hsorted.1 c₀ hc₀'
    have hmem' := h.pending c₀ (by rw [hwait]; exact mem_cons_of_mem _ hc₀') c' hc' hle
    refine mem_filter.2 ⟨hmem', ?_⟩
    simp only [ne_eq, decide_not, Bool.not_eq_eq_eq_not, Bool.not_true, decide_eq_false_iff_not]
    omega

theorem of_outward (h : Indexed s) (hout : Outward s s') : Indexed s' := by
  refine h.of_same hout.lookup ?_ hout.unindexed fun c hc => hout.waiting_sublist.subset hc
  unfold Service.journal; rw [hout.runtime]

/-- The rebuilt index is the whole journal's. -/
theorem of_booted {disk : Disk} {fromSeq file : Nat} {stream : List Entry} {rt : Runtime}
    (hfiles : Files rt) (hdisk : rt.disk = disk)
    (h : Service.Booted config disk fromSeq file stream s) : Indexed s := by
  subst hdisk
  obtain ⟨-, hdisk', -, -, -⟩ := hfiles.restart h.runtime
  have hlookup := h.lookup
  rw [LookupIndex.rebuild, hfiles.numbered.replay, drop_zero, Option.map_some] at hlookup
  have hlookup := Option.some.inj hlookup
  refine ⟨by rw [← hlookup], fun id => ?_, fun c hc => ?_⟩
  · rw [← hlookup, h.unindexed]
    unfold Service.journal
    rw [hdisk', rebuild_entries]
    simp
  · unfold Service.waiting at hc
    rcases h.egressTask with he | ⟨_, _, -, he⟩ <;> rw [he, h.runtimeTask] at hc <;> cases hc

theorem step (h : Indexed s) (ho : Orderly s) {i : Step} (hs : Service.Stepped config s i s') :
    Indexed s' := by
  cases hs with
  | append hidle _ => exact h.append ho hidle _ _
  | applied htask happ =>
    refine h.of_same rfl (Applied.of_eq happ).journal rfl fun c hc => ?_
    unfold Service.waiting at hc ⊢
    rw [htask]; exact hc
  | unwritten htask happ =>
    refine h.of_same rfl (Applied.of_eq happ).journal rfl fun c hc => ?_
    unfold Service.waiting at hc ⊢
    rw [RuntimeTask.waiting, append_nil] at hc
    exact mem_append_left _ hc
  | handOver hrun hegress =>
    refine h.of_same rfl rfl rfl fun c hc => ?_
    unfold Service.waiting at hc ⊢
    rw [hrun, hegress]; exact hc
  | drop hrun =>
    refine h.of_same rfl rfl rfl fun c hc => ?_
    unfold Service.waiting at hc ⊢
    rw [RuntimeTask.waiting, append_nil] at hc
    exact mem_append_left _ hc
  | index hegress => exact h.index ho hegress
  | publish hsend => exact h.of_outward (.publish hsend)
  | confirmGap => exact h.of_outward (.confirm _ _ _ rfl rfl)
  | confirmOwn => exact h.of_outward (.confirm _ _ _ rfl rfl)
  | confirmRecovery => exact h.of_outward (.confirmRecovery _ _ _)
  | abandon habandon => exact h.of_outward (.abandon habandon)
  | restart hle hboot => exact of_booted ho.files rfl (Service.booted hboot)

end Indexed

variable {s : Service}

theorem Service.runFrom_indexed {config : Config} {steps : List Step}
    (h : Service.runFrom config steps = some s) : Orderly s ∧ Indexed s := by
  obtain ⟨s₀, hstart, hrun⟩ := Option.bind_eq_some_iff.1 h
  have h₀ : Indexed s₀ := Indexed.of_booted (Files.empty config.market) rfl (booted hstart)
  exact Lib.exec_always (I := fun s => Orderly s ∧ Indexed s) ⟨Orderly.start hstart, h₀⟩
    (fun _ _ _ ht hs => ⟨ht.1.step (stepped hs), ht.2.step ht.1 (stepped hs)⟩) hrun

/-! ## What a lookup answers -/

/-- The answer the sweeper relies on: not `NeverSeen` for a client order id the journal holds a
placement of, and what is `Seen` is the last of those placements. -/
structure NeverDenies (s : Service) (clientOrderId : String) : Prop where
  notDenied : lastPlacement clientOrderId s.journal ≠ none →
    s.lookup.get clientOrderId ≠ .neverSeen
  seen : ∀ seq orderId, s.lookup.get clientOrderId = .seen seq orderId →
    lastPlacement clientOrderId s.journal = some (seq, orderId)

variable {clientOrderId : String} {seq : Nat} {orderId : OrderId}

theorem placementOf_seq {c : SequencedCommand}
    (h : placementOf clientOrderId c = some (seq, orderId)) : c.seq = seq := by
  unfold placementOf at h
  split at h
  · split at h
    · cases h; rfl
    · cases h
  · cases h

variable {commands : List SequencedCommand}

theorem lastPlacement_none :
    lastPlacement clientOrderId commands = none ↔
      ∀ c ∈ commands, placementOf clientOrderId c = none := by
  simp [lastPlacement]

theorem lastPlacement_mem (h : lastPlacement clientOrderId commands = some (seq, orderId)) :
    ∃ c ∈ commands, c.seq = seq := by
  obtain ⟨c, hc, hplace⟩ := mem_filterMap.1 (mem_of_getLast? h)
  exact ⟨c, hc, placementOf_seq hplace⟩

/-- Taking commands out does not change the last placement while it stays. -/
theorem lastPlacement_filter {p : SequencedCommand → Bool}
    (h : lastPlacement clientOrderId commands = some (seq, orderId))
    (hp : ∀ c ∈ commands, c.seq = seq → p c = true) :
    lastPlacement clientOrderId (commands.filter p) = some (seq, orderId) := by
  induction commands using List.reverseRecOn with
  | nil => exact h
  | append_singleton commands c ih =>
    have ih' := fun h => ih h fun c hc => hp c (mem_append_left _ hc)
    rw [lastPlacement_concat] at h
    rw [filter_append]
    cases hplace : placementOf clientOrderId c with
    | none =>
      rw [hplace, Option.none_or] at h
      by_cases hc : p c = true
      · rw [filter_cons_of_pos hc, filter_nil, lastPlacement_concat, hplace,
          Option.none_or, ih' h]
      · rw [filter_cons_of_neg hc, filter_nil, append_nil, ih' h]
    | some found =>
      rw [hplace, Option.some_or] at h
      have hc := hp c (by simp) (placementOf_seq (hplace.trans h))
      rw [filter_cons_of_pos hc, filter_nil, lastPlacement_concat, hplace,
        Option.some_or, h]

theorem Indexed.get_eq (h : Indexed s) (clientOrderId : String) :
    s.lookup.get clientOrderId =
      match lastPlacement clientOrderId (s.journal.filter (·.seq ∉ s.unindexed)) with
      | some (seq, orderId) => .seen seq orderId
      | none => .neverSeen := by
  unfold LookupIndex.get
  rw [h.ready, ← h.entries]
  rfl

/-- The answer is the journal's exactly when the last placement has reached the index. -/
theorem Indexed.neverDenies_iff (h : Indexed s) (clientOrderId : String) :
    NeverDenies s clientOrderId ↔
      ∀ seq orderId, lastPlacement clientOrderId s.journal = some (seq, orderId) →
        seq ∉ s.unindexed := by
  have hget := h.get_eq clientOrderId
  constructor
  · intro hnever seq orderId hlast hmem
    cases hfound : lastPlacement clientOrderId (s.journal.filter (·.seq ∉ s.unindexed)) with
    | none =>
      rw [hfound] at hget
      exact hnever.notDenied (by rw [hlast]; simp) hget
    | some found =>
      obtain ⟨seq', orderId'⟩ := found
      rw [hfound] at hget
      have hsame := hnever.seen seq' orderId' hget
      rw [hlast] at hsame
      cases hsame
      obtain ⟨c, hc, rfl⟩ := lastPlacement_mem hfound
      have hnot := (mem_filter.1 hc).2
      rw [decide_eq_true_eq] at hnot
      exact hnot hmem
  · intro hcond
    cases hlast : lastPlacement clientOrderId s.journal with
    | none =>
      have hfound : lastPlacement clientOrderId (s.journal.filter (·.seq ∉ s.unindexed)) = none :=
        lastPlacement_none.2 fun c hc =>
          lastPlacement_none.1 hlast c (mem_filter.1 hc).1
      rw [hfound] at hget
      refine ⟨fun hsome => absurd hlast hsome, fun seq orderId hseen => ?_⟩
      rw [hget] at hseen
      cases hseen
    | some found =>
      obtain ⟨seq, orderId⟩ := found
      have hkeep := hcond seq orderId hlast
      have hfound : lastPlacement clientOrderId (s.journal.filter (·.seq ∉ s.unindexed)) =
          some (seq, orderId) :=
        lastPlacement_filter hlast fun c _ hseq => by simpa [hseq] using hkeep
      rw [hfound] at hget
      refine ⟨fun _ => by rw [hget]; simp, fun seq' orderId' hseen => ?_⟩
      rw [hget] at hseen
      cases hseen
      exact hlast

/-- **The lookup and the journal**: in every reachable state, whatever was dropped, failed or
restarted on the way, the lookup does not deny a client order id exactly when the last placement
journaled under it has reached the index. -/
theorem lookup_agrees_iff {config : Config} {steps : List Step} {s : Service}
    (h : Service.runFrom config steps = some s) (clientOrderId : String) :
    NeverDenies s clientOrderId ↔
      ∀ seq orderId, lastPlacement clientOrderId s.journal = some (seq, orderId) →
        seq ∉ s.unindexed :=
  (Service.runFrom_indexed h).2.neverDenies_iff clientOrderId

theorem lookup_agrees_once_indexed : ∃ s, Service.runFrom sampleConfig
    [.append 0 samplePlacement, .apply true, .handOver, .index, .abandon] = some s ∧
      NeverDenies s "alice" := by
  obtain ⟨s, hs⟩ : ∃ s, Service.runFrom sampleConfig
      [.append 0 samplePlacement, .apply true, .handOver, .index, .abandon] = some s :=
    Option.isSome_iff_exists.1 (by decide +kernel)
  have hnone : (Service.runFrom sampleConfig [.append 0 samplePlacement, .apply true, .handOver,
      .index, .abandon]).map Service.unindexed = some [] := by decide +kernel
  rw [hs, Option.map_some, Option.some.injEq] at hnone
  exact ⟨s, hs, (lookup_agrees_iff hs "alice").2 (by simp [hnone])⟩

/-- The snapshot of a journaled placement could not be written: its call has returned, no other is
under way, and the lookup denies it. -/
theorem unwritten_snapshot_denied : ∃ s, Service.runFrom sampleConfig
    [.append 0 samplePlacement, .apply false] = some s ∧ s.waiting = [] ∧
      lastPlacement "alice" s.journal = some (1, "o-1") ∧ s.lookup.get "alice" = .neverSeen ∧
      ¬NeverDenies s "alice" := by
  obtain ⟨s, hs⟩ : ∃ s, Service.runFrom sampleConfig
      [.append 0 samplePlacement, .apply false] = some s :=
    Option.isSome_iff_exists.1 (by decide +kernel)
  have hrun : (Service.runFrom sampleConfig [.append 0 samplePlacement, .apply false]).map
      (fun s => (s.waiting.length, lastPlacement "alice" s.journal, s.lookup.get "alice")) =
        some (0, some (1, "o-1"), .neverSeen) := by decide +kernel
  rw [hs, Option.map_some, Option.some.injEq, Prod.mk.injEq, Prod.mk.injEq] at hrun
  obtain ⟨hwait, hlast, hget⟩ := hrun
  exact ⟨s, hs, eq_nil_of_length_eq_zero hwait, hlast, hget,
    fun h => h.notDenied (by rw [hlast]; simp) hget⟩

/-! ## Runs in which every call reaches the index -/

/-- The step does not cut a call off between the journal and the index: a snapshot that is due is
written, and no future is dropped while it waits for a lock. -/
def Carried (s : Service) : Step → Prop
  | .apply writes => ∀ c, s.runtimeTask = .appended c → s.runtime.snapshotDue c.seq = true →
    writes = true
  | .drop => False
  | .abandon => s.egressTask.waiting = []
  | _ => True

/-- Only what a call is still carrying has not reached the index. -/
def AllCarried (s : Service) : Prop := ∀ k ∈ s.unindexed, ∃ c ∈ s.waiting, c.seq = k

namespace AllCarried
variable {config : Config} {s s' : Service}

theorem of_outward (h : AllCarried s) (hout : Outward s s') (hwait : s.egressTask.waiting = []) :
    AllCarried s' := by
  unfold AllCarried Service.waiting at h ⊢
  rw [hout.unindexed, hout.waiting, hout.runtimeTask, ← hwait]
  exact h

theorem step (h : AllCarried s) {i : Step} (hi : Carried s i)
    (hs : Service.Stepped config s i s') : AllCarried s' := by
  cases hs with
  | append hidle _ =>
    intro k hk
    rcases mem_cons.1 hk with rfl | hk
    · exact ⟨_, mem_append_right _ mem_cons_self, rfl⟩
    · obtain ⟨c, hc, hseq⟩ := h k hk
      unfold Service.waiting at hc
      rw [hidle, RuntimeTask.waiting, append_nil] at hc
      exact ⟨c, mem_append_left _ hc, hseq⟩
  | applied htask happ =>
    unfold AllCarried Service.waiting at h
    rw [htask] at h
    exact h
  | @unwritten writes c rt htask happ =>
    have hout := applyJournaled_output s.runtime c writes
    rw [happ] at hout
    split at hout
    · rename_i hfailed
      have := hi c htask hfailed.1
      rw [hfailed.2] at this
      cases this
    · cases hout
  | handOver hrun hegress =>
    unfold AllCarried Service.waiting at h
    rw [hrun, hegress] at h
    exact h
  | drop => exact hi.elim
  | @index c out hegress =>
    intro k hk
    obtain ⟨hk, hne⟩ := mem_filter.1 hk
    obtain ⟨c', hc', hseq⟩ := h k hk
    unfold Service.waiting at hc'
    rw [hegress] at hc'
    rcases mem_cons.1 hc' with rfl | hc'
    · simp [hseq] at hne
    · exact ⟨c', mem_append_right _ hc', hseq⟩
  | publish hsend =>
    refine h.of_outward (.publish hsend) ?_
    unfold EgressTask.send at hsend
    split at hsend
    · rename_i he; rw [he]; rfl
    · rename_i he; rw [he]; rfl
    · rename_i he; rw [he]; rfl
    · cases hsend
  | confirmGap hegress => exact h.of_outward (.confirm _ _ _ rfl rfl) (by rw [hegress]; rfl)
  | confirmOwn hegress => exact h.of_outward (.confirm _ _ _ rfl rfl) (by rw [hegress]; rfl)
  | confirmRecovery hegress => exact h.of_outward (.confirmRecovery _ _ _) (by rw [hegress]; rfl)
  | abandon habandon => exact h.of_outward (.abandon habandon) hi
  | restart hle hboot =>
    intro k hk
    rw [(Service.booted hboot).unindexed] at hk
    cases hk

end AllCarried

end AtlasCex.Server

import AtlasCex.EngineStream.Consumer
/-!
# What the consumer has applied

`Moved` says once what a step can do: leave the position alone, halt on an event that was refused,
or commit one event of the journal. From it:

* `standing` — the position in memory is the stored one, in every run;
* `applied_exactly_iff` — the committed events are exactly those between the start key and the
  stored offset as long as, and only as long as, the first event of a sequence is taken from the
  stream with the sequence before it complete.
-/
namespace AtlasCex.EngineStream
open List
namespace Consumer

variable {ε : Type} {journal : Journal ε} {startKey : EventKey} {s s' : Consumer ε}

/-- An event is committed and the offset is at its key; the cycle goes on with `task`. -/
def commit (s : Consumer ε) (item : KeyedRaw ε) (task : Task ε) : Consumer ε :=
  { s with
    stored := some item.key
    committed := s.committed ++ [item]
    offset := item.key
    task := task }

/-- What a step can do, from a state that stands. -/
inductive Moved (journal : Journal ε) (s : Consumer ε) : Label ε → Consumer ε → Prop where
  | waits {label : Label ε} {s' : Consumer ε} (hstored : s'.stored = s.stored)
      (hcommitted : s'.committed = s.committed) (hoffset : s'.offset = s.offset)
      (hhalted : s'.halted = s.halted ∨ s'.halted = none) (hjournaled : s.journaled ≤ s'.journaled)
      (hlen : s'.journaled ≤ journal.outputs.length)
      (htask : TaskAt journal s'.journaled s'.offset s'.task) : Moved journal s label s'
  | refused {key : EventKey} {code : String} :
      Moved journal s (.next (.refused code)) (s.doHalt key (.refused code))
  | commits {item : KeyedRaw ε} {task : Task ε} (hmem : item ∈ journal.items)
      (hfollows : follows s.offset item.key = true)
      (hfirst : (∃ todo, s.task = .batch (item :: todo)) ∨
        ∀ x ∈ journal.items, x.key < item.key → x.key ≤ s.offset)
      (htask : TaskAt journal s.journaled item.key task) :
      Moved journal s (.next .commits) (s.commit item task)

variable {label : Label ε} {task : Task ε}

theorem Moved.goes (h : Standing journal startKey s)
    (htask : TaskAt journal s.journaled s.offset task) :
    Moved journal s label { s with task := task } :=
  .waits rfl rfl rfl (.inl rfl) (Nat.le_refl _) h.journaled htask

theorem advanceOffset_stored (h : Standing journal startKey s) {key : EventKey}
    (hlt : s.offset < key) : advanceOffset s.stored key = some key := by
  have hoff := h.offset
  unfold advanceOffset
  cases hs : s.stored with
  | none => rfl
  | some row =>
    rw [hs, Option.getD_some] at hoff
    simp only [← hoff, hlt, if_true]

variable {item : KeyedRaw ε}

/-- `applyOne` of an event of the journal that follows the offset. -/
theorem applyOne_moved (h : Standing journal startKey s) {outcome : Outcome}
    (hmem : item ∈ journal.items) (hfollows : follows s.offset item.key = true)
    (hfirst : (∃ todo, s.task = .batch (item :: todo)) ∨
      ∀ x ∈ journal.items, x.key < item.key → x.key ≤ s.offset)
    (htask : TaskAt journal s.journaled item.key task) :
    Moved journal s (.next outcome) (s.applyOne item outcome task) := by
  have hlt := lt_of_follows hfollows
  have hnew : ¬compareKeys item.key s.offset ≤ 0 := by
    rwa [compareKeys_le, EventKey.not_le]
  unfold applyOne
  rw [if_neg hnew, if_neg (not_not.2 (Journal.raw_seq hmem))]
  cases outcome with
  | commits =>
    simp only [advanceOffset_stored h hlt]
    exact .commits hmem hfollows hfirst htask
  | gaveUp => exact .goes h trivial
  | refused code => exact .refused

/-- The first item of the rest of a page that is above the offset is the least event above it. -/
theorem page_least {before items : List (KeyedRaw ε)} {last : Nat}
    {offset : EventKey} (heq : journal.upTo last = before ++ item :: items)
    (hle : ∀ x ∈ before, x.key ≤ offset) :
    ∀ x ∈ journal.items, x.key < item.key → x.key ≤ offset := by
  intro x hx hlt
  have hitem : item ∈ journal.upTo last := by rw [heq]; simp
  have hsorted : (journal.upTo last).Pairwise (·.key < ·.key) := sequences_keyed_pairwise _ _
  have hmem : x ∈ journal.upTo last := by
    rw [Journal.mem_upTo] at hitem ⊢
    refine ⟨hx, ?_⟩
    have := hitem.2
    rw [EventKey.lt_def] at hlt
    omega
  rw [heq, pairwise_append, pairwise_cons] at hsorted
  rw [heq, mem_append, mem_cons] at hmem
  rcases hmem with hmem | rfl | hmem
  · exact hle x hmem
  · exact absurd (EventKey.le_refl _) (EventKey.not_le.2 hlt)
  · exact absurd (EventKey.le_of_lt hlt) (EventKey.not_le.2 (hsorted.2.1.1 x hmem))

theorem next_moved (h : Standing journal startKey s) {outcome : Outcome}
    (hs : s.next outcome = some s') : Moved journal s (.next outcome) s' := by
  have htask := h.task
  unfold next at hs
  split at hs
  · cases hs
    exact .goes h trivial
  case h_2 entry todo heq =>
    rw [heq] at htask
    have hentry := htask entry mem_cons_self
    have htodo : ∀ x ∈ todo, x ∈ journal.upTo s.journaled :=
      fun x hx => htask x (mem_cons_of_mem _ hx)
    split at hs
    · cases hs
      exact .goes h htodo
    split at hs
    · cases hs
      refine .goes h (recover_at ?_)
      rintro _ _ ⟨⟩
      exact htask
    · rename_i hfollows
      cases hs
      exact applyOne_moved h (Journal.mem_upTo.1 hentry).1 (by simpa using hfollows)
        (.inl ⟨todo, heq⟩) htodo
  case h_3 entry todo heq =>
    -- recovery has passed the entry it was started for
    rw [heq] at htask
    rw [if_pos (compareKeys_le.2 htask.1)] at hs
    cases hs
    exact .goes h htask.2
  case h_4 last resume heq =>
    rw [heq] at htask
    obtain ⟨⟨before, heq, hle⟩, hresume⟩ := htask
    cases hs
    rw [append_nil] at heq
    exact .goes h ⟨heq ▸ hle, hresume⟩
  case h_5 item items last resume heq =>
    rw [heq] at htask
    obtain ⟨⟨before, heq, hle⟩, hresume⟩ := htask
    -- once the item is at or below the offset, the rest of the page stands
    have hrest : ∀ {offset : EventKey}, s.offset ≤ offset → item.key ≤ offset →
        TaskAt journal s.journaled offset (.page items last resume) := by
      intro offset hoff hitem
      refine ⟨⟨before ++ [item], by rw [heq, append_assoc]; rfl, ?_⟩, hresume⟩
      intro x hx
      rcases mem_append.1 hx with hx | hx
      · exact EventKey.le_trans (hle x hx) hoff
      · rw [mem_singleton.1 hx]; exact hitem
    split at hs
    · rename_i hskip
      cases hs
      exact .goes h (hrest (EventKey.le_refl _) (compareKeys_le.1 hskip))
    · rename_i hnew
      rw [compareKeys_le, EventKey.not_le] at hnew
      have hmem : item ∈ journal.items := by
        have hitem : item ∈ journal.upTo last := by rw [heq]; simp
        exact (Journal.mem_upTo.1 hitem).1
      have hleast := page_least heq hle
      have hfollows := follows_of_least hmem hnew hleast
      rw [hfollows] at hs
      cases hs
      exact applyOne_moved h hmem hfollows (.inr hleast)
        (hrest (EventKey.le_of_lt hnew) (EventKey.le_refl _))
  · cases hs

theorem fetch_moved (h : Standing journal startKey s) {last : Option Nat}
    (hs : s.fetch journal last = some s') : Moved journal s label s' := by
  have htask := h.task
  have hlen := h.journaled
  unfold fetch at hs
  split at hs
  · cases hs
    exact .goes h trivial
  · rename_i after resume last heq
    rw [heq] at htask
    split at hs
    · -- everything journaled is behind the offset, the entry of the gap with it
      rename_i hall
      cases hs
      refine .goes h ?_
      cases resume with
      | none => trivial
      | some r =>
        have hr := htask.2 r.1 r.2 rfl
        exact ⟨htask.1 _ (upTo_mono hall (hr _ mem_cons_self)),
          fun x hx => hr x (mem_cons_of_mem _ hx)⟩
    · split at hs
      · rename_i hlast
        cases hs
        exact .goes h ⟨⟨_, Journal.upTo_page hlast.1 (hlast.2.trans hlen), htask.1⟩, htask.2⟩
      · cases hs
  · cases hs

theorem step_moved [DecidableEq ε] (h : Standing journal startKey s)
    (hs : step journal startKey s label = some s') : Moved journal s label s' := by
  have hrecover : ∀ {label : Label ε}, Moved journal s label (s.recover none) :=
    .goes h (recover_at nofun)
  cases label with
  | journal =>
    simp only [step] at hs
    split at hs
    · cases hs
      exact .waits rfl rfl rfl (.inl rfl) (Nat.le_succ _) ‹_›
        (h.task.mono (Nat.le_succ _) (EventKey.le_refl _))
    · cases hs
  | read entries =>
    simp only [step] at hs
    split at hs
    · rename_i hread
      cases hs
      refine .goes h ?_
      intro x hx
      exact hread.2.2 x ((perm_insertionSort _ _).mem_iff.1 hx)
    · cases hs
  | reset =>
    simp only [step] at hs
    split at hs
    · cases hs
      exact hrecover
    · cases hs
  | empty reachable =>
    simp only [step] at hs
    split at hs
    · split at hs
      · cases hs
        exact hrecover
      · cases hs
        exact .goes h h.task
    · cases hs
  | next outcome => exact next_moved h hs
  | fetch last => exact fetch_moved h hs
  | restart =>
    cases hs
    exact .waits rfl rfl h.offset.symm (.inr rfl) (Nat.le_refl _) h.journaled trivial

/-! ## Every run -/

theorem Moved.standing (h : Standing journal startKey s)
    (hm : Moved journal s label s') : Standing journal startKey s' := by
  cases hm with
  | waits hstored hcommitted hoffset hhalted hjournaled hlen htask =>
    exact ⟨hlen, by rw [hoffset, hstored, h.offset], hoffset ▸ h.start_le, htask⟩
  | refused => exact ⟨h.journaled, h.offset, h.start_le, trivial⟩
  | commits hmem hfollows hfirst htask =>
    exact ⟨h.journaled, rfl,
      EventKey.le_trans h.start_le (EventKey.le_of_lt (lt_of_follows hfollows)), htask⟩

theorem initial_standing : Standing journal startKey (initial startKey) :=
  ⟨Nat.zero_le _, rfl, EventKey.le_refl _, trivial⟩

section Runs
variable [DecidableEq ε] {run : List (Label ε)}

theorem standing (h : Lib.exec (step journal startKey) (initial startKey) run = some s) :
    Standing journal startKey s :=
  Lib.exec_always initial_standing (fun _ _ _ ht hs => (step_moved ht hs).standing ht) h

end Runs

/-! ## Exactly once, in order -/

/-- The committed events are the journal's with key greater than the start key and at most the
stored offset, each once and in the journal's order. -/
def Exactly (journal : Journal ε) (startKey : EventKey) (s : Consumer ε) : Prop :=
  s.committed =
    journal.items.filter fun x => startKey < x.key ∧ x.key ≤ s.stored.getD startKey

/-- A step that commits the first event of the next sequence straight from the stream does so with
every event of the offset's own sequence applied. -/
def SequenceDone (journal : Journal ε) (s : Consumer ε) (label : Label ε) : Prop :=
  label = .next .commits → ∀ entry todo, s.task = .batch (entry :: todo) →
    follows s.offset entry.key = true → entry.key.seq = s.offset.seq + 1 →
    ∀ x ∈ journal.items, x.key.seq = s.offset.seq → x.key ≤ s.offset

/-- A commit of the least event above the offset. -/
theorem Exactly.commit (h : Standing journal startKey s) (hex : Exactly journal startKey s)
    (hmem : item ∈ journal.items) (hlt : s.offset < item.key)
    (hleast : ∀ x ∈ journal.items, x.key < item.key → x.key ≤ s.offset) :
    Exactly journal startKey (s.commit item task) := by
  have hstart := EventKey.lt_of_le_of_lt h.start_le hlt
  rw [Exactly, ← h.offset] at hex
  show s.committed ++ [item] =
    journal.items.filter fun x => startKey < x.key ∧ x.key ≤ item.key
  rw [hex]
  refine (Lib.filter_concat Journal.items_pairwise hmem ?_ ?_ ?_ ?_).symm
  · intro x hx
    simp only [decide_eq_true_eq]
    constructor
    · rintro ⟨hs, hle⟩
      by_cases hx' : x.key < item.key
      · exact .inl ⟨hs, hleast x hx hx'⟩
      · refine .inr (Journal.eq_of_key_eq hx hmem ?_)
        exact EventKey.le_antisymm hle (EventKey.not_lt.1 hx')
    · rintro (⟨hs, hle⟩ | rfl)
      · exact ⟨hs, EventKey.le_trans hle (EventKey.le_of_lt hlt)⟩
      · exact ⟨hstart, EventKey.le_refl _⟩
  · intro x _ hp
    simp only [decide_eq_true_eq] at hp
    exact EventKey.not_lt.2 (EventKey.le_trans hp.2 (EventKey.le_of_lt hlt))
  · simp only [decide_eq_false_iff_not, not_and]
    exact fun _ => EventKey.not_le.2 hlt
  · exact EventKey.not_lt.2 (EventKey.le_refl _)

/-- An entry that follows the offset, with the sequence before it done, is the least above it. -/
theorem least_of_done {offset : EventKey} (hfollows : follows offset item.key = true)
    (hdone : item.key.seq = offset.seq + 1 →
      ∀ x ∈ journal.items, x.key.seq = offset.seq → x.key ≤ offset) :
    ∀ x ∈ journal.items, x.key < item.key → x.key ≤ offset := by
  intro x hx hlt
  rw [follows_iff] at hfollows
  rw [EventKey.lt_def] at hlt
  rcases hfollows with ⟨hseq, hidx⟩ | ⟨hseq, hidx⟩
  · rw [EventKey.le_def]; omega
  · by_cases heq : x.key.seq = offset.seq
    · exact hdone hseq x hx heq
    · exact .inl (by omega)

variable [DecidableEq ε]

theorem Exactly.step (h : Standing journal startKey s) (hex : Exactly journal startKey s)
    (hok : SequenceDone journal s label)
    (hs : step journal startKey s label = some s') : Exactly journal startKey s' := by
  cases step_moved h hs with
  | waits hstored hcommitted =>
    rw [Exactly, hcommitted, hstored]
    exact hex
  | refused => exact hex
  | commits hmem hfollows hfirst htask =>
    refine hex.commit h hmem (lt_of_follows hfollows) ?_
    rcases hfirst with ⟨todo, htask⟩ | hleast
    · exact least_of_done hfollows (hok rfl _ todo htask hfollows)
    · exact hleast

/-- The step the condition speaks of: it commits the entry. -/
theorem step_commits (h : Standing journal startKey s) {entry : KeyedRaw ε}
    {todo : List (KeyedRaw ε)} (htask : s.task = .batch (entry :: todo))
    (hfollows : follows s.offset entry.key = true) :
    Consumer.step journal startKey s (.next .commits) = some (s.commit entry (.batch todo)) := by
  have hlt := lt_of_follows hfollows
  have hmem : entry ∈ journal.items := by
    have := h.task
    rw [htask] at this
    exact (Journal.mem_upTo.1 (this entry mem_cons_self)).1
  have hnew : ¬compareKeys entry.key s.offset ≤ 0 := by
    rwa [compareKeys_le, EventKey.not_le]
  simp only [Consumer.step, next, htask, if_neg hnew, hfollows, applyOne,
    Journal.raw_seq hmem, advanceOffset_stored h hlt, Consumer.commit, ne_eq, not_true, if_false,
    Bool.not_true, Bool.false_eq_true]

/-- In every run: the consumer has applied exactly the events between its start key and its stored
offset at every moment, if and only if every step that takes the first event of a sequence from
the stream finds the sequence before it complete. -/
theorem applied_exactly_iff (journal : Journal ε) (startKey : EventKey) (run : List (Label ε)) :
    (∀ pre t, pre <+: run →
      Lib.exec (Consumer.step journal startKey) (initial startKey) pre = some t →
        Exactly journal startKey t) ↔
      Lib.Along (Consumer.step journal startKey) (SequenceDone journal) (initial startKey) run := by
  constructor
  · intro hall pre label t hpre ht hlabel entry todo htask hfollows hseq x hx hxseq
    subst hlabel
    have hstand := standing ht
    have hbefore := hall pre t ((prefix_append _ _).trans hpre) ht
    have hafter := hall _ (t.commit entry (.batch todo)) hpre (by
      rw [Lib.exec_concat, ht]; exact step_commits hstand htask hfollows)
    -- an event of the offset's sequence above the offset would be due, and was not committed
    by_contra hnot
    rw [EventKey.not_le] at hnot
    have hdue : x ∈ (t.commit entry (.batch todo)).committed := by
      rw [hafter, mem_filter, decide_eq_true_eq]
      exact ⟨hx, EventKey.lt_of_le_of_lt hstand.start_le hnot,
        .inl (show x.key.seq < entry.key.seq by omega)⟩
    rw [Consumer.commit, mem_append, mem_singleton, hbefore, mem_filter,
      decide_eq_true_eq, ← hstand.offset] at hdue
    rcases hdue with hdue | rfl
    · exact absurd hdue.2.2 (EventKey.not_le.2 hnot)
    · omega
  · rintro hok pre t ⟨rest, rfl⟩ ht
    have hinv : Standing journal startKey t ∧ Exactly journal startKey t := by
      refine Lib.exec_inv (I := fun s => Standing journal startKey s ∧ Exactly journal startKey s)
        ⟨initial_standing, ?_⟩ ?_ hok.of_append ht
      · refine (filter_eq_nil_iff.2 ?_).symm
        intro x _
        simp only [decide_eq_true_eq, not_and]
        exact fun hlt => EventKey.not_le.2 hlt
      · rintro t label t' ⟨hstand, hex⟩ hdone hs
        exact ⟨(step_moved hstand hs).standing hstand, hex.step hstand hdone hs⟩
    exact hinv.2

/-- Two events in sequence 1, one in sequence 2. The stream has lost the second event of sequence
1; the first of sequence 2 is taken to follow, and the offset passes an event never applied. -/
def brokenJournal : Journal Nat := ⟨[[10, 11], [20]], by decide⟩

theorem lost_tail_passed : ∃ s,
    Lib.exec (Consumer.step brokenJournal ⟨0, 0⟩) (initial ⟨0, 0⟩)
      [.journal, .journal, .read [⟨⟨1, 0⟩, ⟨1, 10⟩⟩, ⟨⟨2, 0⟩, ⟨2, 20⟩⟩],
        .next .commits, .next .commits] = some s ∧
      s.stored = some ⟨2, 0⟩ ∧ s.committed.map (·.key) = [⟨1, 0⟩, ⟨2, 0⟩] ∧
      ¬Exactly brokenJournal ⟨0, 0⟩ s := by
  refine ⟨_, rfl, rfl, rfl, ?_⟩
  unfold Exactly
  decide +kernel

end Consumer
end AtlasCex.EngineStream

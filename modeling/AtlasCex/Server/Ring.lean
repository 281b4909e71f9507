import AtlasCex.Server.Published
/-!
# The ring and the journal (`egress.rs:218-293`, `service.rs:245-266`)

| here | there |
| --- | --- |
| `recorded` | `EventRing::record_with_levels` for each command of a history, `egress.rs:236-270` |
| `eventsSince`, `replayEventsAfter` | `service.rs:245-266` |

A page is served from the ring when the ring reaches back far enough, and from a replay of the journal
when it does not.

What the ring has dropped is a front part of the history (`Tail`). It ends at a sequence boundary,
except inside a command with more events than the ring holds: `record` evicts the front sequence while
it is still appending to it. `ring_agrees`: a page from the ring is the page of a replay, if the first
sequence asked for is not of such a command.
-/
namespace AtlasCex.Server
open List
open Matching
open Std (ExtTreeMap)

/-- What a ring that answers has: an event it reaches back with. -/
theorem since_some {ring : EventRing} {seq : Nat} {limit : Option Nat} {page : List Event}
    (h : ring.since seq limit = some page) : (∃ oldest ∈ ring.events, oldest.seq ≤ seq + 1) ∧
      page = takeWholeSequences (ring.events.filter (seq < ·.seq)) limit := by
  unfold EventRing.since EventRing.oldestSeq at h
  cases hhead : ring.events.head? with
  | none => rw [hhead] at h; cases h
  | some oldest =>
    simp only [hhead, Option.map_some] at h
    split at h
    · rename_i hreach
      cases h
      exact ⟨⟨oldest, mem_of_mem_head? hhead, hreach⟩, rfl⟩
    · cases h

/-! ## A history -/

section
variable {capacity : Nat} {outs : List SequenceOutput}
  (hsorted : outs.Pairwise (·.seq < ·.seq)) (hemits : ∀ out ∈ outs, Emits out.seq out.events)
include hsorted hemits

variable {seq : Nat}

/-- Nothing after `seq` has been dropped, if the ring reaches back to it. -/
theorem Tail.filter_eq {ring : EventRing} {dropped : List Event} (h : Tail capacity outs ring dropped)
    {oldest : Event} (hmem : oldest ∈ ring.events) (hreach : oldest.seq ≤ seq + 1)
    (hfits : ¬ Overruns capacity outs (seq + 1)) :
    (outs.flatMap (·.events)).filter (seq < ·.seq) = ring.events.filter (seq < ·.seq) := by
  have hall := history_bySeq hsorted hemits
  rw [← h.split] at hall ⊢
  have hgone : dropped.filter (seq < ·.seq) = [] := by
    rw [filter_eq_nil_iff]
    intro x hx hlt
    rw [decide_eq_true_eq] at hlt
    have hle : x.seq ≤ oldest.seq := (pairwise_append.1 hall).2.2 x hx oldest hmem
    rcases h.cut x hx oldest hmem with hcut | hover
    · omega
    · have hoverrun : oldest.seq = seq + 1 := by omega
      exact hfits (hoverrun ▸ hover)
  rw [filter_append, hgone, nil_append]

/-- A page of the ring is cut from the whole history. -/
theorem since_recorded {limit : Option Nat} {page : List Event}
    (hfits : ¬ Overruns capacity outs (seq + 1))
    (hsince : (recorded capacity outs).since seq limit = some page) :
    page = takeWholeSequences ((outs.flatMap (·.events)).filter (seq < ·.seq)) limit := by
  obtain ⟨dropped, htail⟩ := recorded_tail hsorted hemits capacity
  obtain ⟨⟨oldest, hmem, hreach⟩, rfl⟩ := since_some hsince
  rw [htail.filter_eq hsorted hemits hmem hreach hfits]

theorem levels_recorded {page : List Event}
    (hsince : (recorded capacity outs).since seq none = some page) {x : Event} (hx : x ∈ page)
    {out : SequenceOutput} (hout : out ∈ outs) (hseq : out.seq = x.seq) :
    ((recorded capacity outs).levelsSince seq)[out.seq]? = some out.levels := by
  obtain ⟨dropped, htail⟩ := recorded_tail hsorted hemits capacity
  rw [(since_some hsince).2, takeWholeSequences_none] at hx
  obtain ⟨hheld, hlt⟩ := mem_filter.1 hx
  have hlevels := htail.levels x hheld out hout (Nat.le_of_eq hseq.symm)
  rw [EventRing.levelsSince, ExtTreeMap.getElem?_filter', hlevels]
  simpa [hseq] using hlt

/-- **The ring agrees with the journal**: whatever the capacity and the history, a page the ring serves
is the page cut from the whole history, if the first command asked for fits the ring; the ring gives the
levels of every sequence it serves; and what it holds of a command that fits is all of it. -/
theorem ring_agrees :
    (∀ seq limit page, ¬ Overruns capacity outs (seq + 1) →
      (recorded capacity outs).since seq limit = some page →
        page = takeWholeSequences ((outs.flatMap (·.events)).filter (seq < ·.seq)) limit) ∧
    (∀ seq page, (recorded capacity outs).since seq none = some page →
      ∀ x ∈ page, ∀ out ∈ outs, out.seq = x.seq →
        ((recorded capacity outs).levelsSince seq)[out.seq]? = some out.levels) ∧
    ∀ out ∈ outs, Fits capacity out.events →
      (∃ y ∈ (recorded capacity outs).events, y.seq = out.seq) →
        (recorded capacity outs).events.filter (·.seq = out.seq) = out.events := by
  refine ⟨fun seq limit page hfits => since_recorded hsorted hemits hfits,
    fun seq page hsince x hx out hout => levels_recorded hsorted hemits hsince hx hout, ?_⟩
  intro out hout hfits hheld
  obtain ⟨dropped, htail⟩ := recorded_tail hsorted hemits capacity
  obtain ⟨y, hy, hseq⟩ := hheld
  exact htail.whole hsorted hemits hout hfits ⟨y, hy, hseq.le⟩

end

/-- Sequence 7 prevents two self-trades and rests: three events. -/
def longCommand : SequenceOutput :=
  ⟨7, [.cancelled 7 "m-1" 5, .cancelled 7 "m-2" 5, .accepted 7 "t-1" 9], [⟨.sell, 100, 0⟩]⟩

/-- A ring of four keeps it whole beside its neighbour. -/
theorem ring_agrees_four : (recorded 4 [longCommand, ⟨8, [.accepted 8 "t-2" 1], []⟩]).since 6 none =
      some (longCommand.events ++ [.accepted 8 "t-2" 1]) ∧
    ∀ page, (recorded 4 [longCommand, ⟨8, [.accepted 8 "t-2" 1], []⟩]).since 6 none = some page →
      page = takeWholeSequences (longCommand.events ++ [.accepted 8 "t-2" 1]) none := by
  refine ⟨by decide, fun page => (ring_agrees ?_ ?_).1 6 none page ?_⟩
  · decide
  · have hown : ∀ out ∈ [longCommand, ⟨8, [.accepted 8 "t-2" 1], []⟩], out.events ≠ [] ∧
        ∀ ev ∈ out.events, ev.seq = out.seq := by decide
    exact fun out hout => ⟨(hown out hout).1, (hown out hout).2⟩
  · decide

/-- In a ring of two it evicts its own head, and the ring serves what is left as the whole sequence. -/
theorem head_evicted : (recorded 2 [longCommand]).since 6 none = some [.accepted 7 "t-1" 9] ∧
    takeWholeSequences (longCommand.events.filter (6 < ·.seq)) none = longCommand.events := by
  decide

/-! ## The service -/

end AtlasCex.Server

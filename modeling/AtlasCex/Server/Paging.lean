import AtlasCex.Lib.Fields
import AtlasCex.Server.Ring
import Mathlib.Data.List.Nodup
/-!
# Keys across pages (`types.rs:210-253`, `tests/event_keys.rs`)

| here | there |
| --- | --- |
| `keyed` | each event with its key `(seq, idx)`, `event_indices`, `types.rs:221-232` |
| `request`, `requests` | a consumer that asks for the events after the last sequence it saw |

A page is a run of whole sequences (`takeWholeSequences_outputs`), and the keys of a run of whole
sequences are those of each sequence alone (`keyed_outputs`). So a consumer that pages through a
history, with whatever limits, gets every event under the key it was published with:
`paging_keeps_keys`.
-/
namespace AtlasCex.Server
open List
open Matching

/-- Each event with its key. -/
def keyed (events : List Event) : List ((Nat × Nat) × Event) :=
  (events.zip (eventIndices events)).map fun (event, idx) => ((event.seq, idx), event)

/-- What a consumer has: the last sequence it saw, and the events it got, with the keys it gave them. -/
structure Reader where
  after : Nat
  got : List ((Nat × Nat) × Event)

/-- One request: a page of the history, keyed by position within the page. -/
def request (history : List Event) (reader : Reader) (limit : Nat) : Reader :=
  let page := takeWholeSequences (history.filter (reader.after < ·.seq)) (some limit)
  { after := (page.getLast?.map Event.seq).getD reader.after
    got := reader.got ++ keyed page }

def requests (history : List Event) (reader : Reader) (limits : List Nat) : Reader :=
  limits.foldl (request history) reader

def fillIds (events : List Event) : List String :=
  events.filterMap fun
    | .fill f => some f.fillId
    | _ => none

/-! ## Keys -/

section
variable {outs : List SequenceOutput} (hsorted : outs.Pairwise (·.seq < ·.seq))
  (hemits : ∀ out ∈ outs, Emits out.seq out.events)

theorem eventIndices_own {seq : Nat} {events : List Event} (h : OfSeq seq events) :
    eventIndices events = List.range' 0 events.length := by
  obtain ⟨_, _, heq, -⟩ := Lib.indexRuns_block Event.seq h none 0 []
  rw [append_nil] at heq
  rw [eventIndices, heq]
  simp [Lib.indexRuns]

include hsorted hemits in
/-- The keys of whole sequences, taken together, are those each has alone. -/
theorem keyed_outputs :
    keyed (outs.flatMap (·.events)) = outs.flatMap fun out => keyed out.events := by
  have hindices : eventIndices (outs.flatMap (·.events)) =
      outs.flatMap fun out => List.range' 0 out.events.length :=
    Lib.indexRuns_flatMap Event.seq SequenceOutput.seq SequenceOutput.events
      (fun out hout => (hemits out hout).ofSeq) (hsorted.imp Nat.ne_of_lt) none 0
      fun out _ => nofun
  rw [keyed, hindices, Lib.zip_flatMap _ _ fun out => by rw [length_range'], map_flatMap]
  apply flatMap_congr
  intro out hout
  rw [keyed, eventIndices_own (hemits out hout).ofSeq]

/-- One command's keys: its own sequence and distinct positions. -/
theorem keyed_own {seq : Nat} {events : List Event} (h : OfSeq seq events) :
    (keyed events).map Prod.snd = events ∧ (∀ x ∈ keyed events, x.1.1 = seq) ∧
      ((keyed events).map Prod.fst).Nodup := by
  have hindices := eventIndices_own h
  have hlen : (eventIndices events).length = events.length := by rw [hindices, length_range']
  refine ⟨?_, ?_, ?_⟩
  · rw [keyed, map_map]
    exact map_fst_zip (Nat.le_of_eq hlen.symm)
  · intro x hx
    obtain ⟨⟨event, idx⟩, hzip, rfl⟩ := mem_map.1 hx
    exact h event (of_mem_zip hzip).1
  · apply List.Nodup.of_map Prod.snd
    have hpositions : ((keyed events).map Prod.fst).map Prod.snd = eventIndices events := by
      rw [keyed, map_map, map_map]
      exact map_snd_zip (Nat.le_of_eq hlen)
    rw [hpositions, hindices]
    exact nodup_range'

include hsorted hemits in
theorem keys_nodup : ((outs.flatMap fun out => keyed out.events).map Prod.fst).Nodup := by
  rw [map_flatMap, nodup_flatMap]
  refine ⟨fun out hout => (keyed_own (hemits out hout).ofSeq).2.2, ?_⟩
  refine hsorted.imp_of_mem fun {out later} hout hlater hlt => ?_
  intro key hkey hkey'
  obtain ⟨x, hx, rfl⟩ := mem_map.1 hkey
  obtain ⟨y, hy, hxy⟩ := mem_map.1 hkey'
  have hxseq := (keyed_own (hemits out hout).ofSeq).2.1 x hx
  have hyseq := (keyed_own (hemits later hlater).ofSeq).2.1 y hy
  rw [hxy] at hyseq
  omega

end

/-! ## Pages -/

section
variable {limit : Option Nat}

/-- Once a sequence is begun, it is taken to its end. -/
theorem takeWholeLoop_sequence {seq : Nat} (rest : List Event) : ∀ {events out : List Event},
    OfSeq seq events → out.getLast?.map Event.seq = some seq →
      takeWholeLoop limit (events ++ rest) out = takeWholeLoop limit rest (out ++ events)
  | [], out, _, _ => by rw [nil_append, append_nil]
  | event :: events, out, hof, hlast => by
    have hseq : event.seq = seq := hof event mem_cons_self
    rw [cons_append, takeWholeLoop, if_neg (by simp [hlast, hseq]),
      takeWholeLoop_sequence rest (fun ev hev => hof ev (mem_cons_of_mem _ hev))
        (by simp [hseq]), append_assoc, singleton_append]

theorem getLast?_emits {seq : Nat} {events : List Event} (out : List Event) (h : Emits seq events) :
    (out ++ events).getLast?.map Event.seq = some seq := by
  rw [getLast?_append, getLast?_eq_some_getLast h.ne_nil]
  simp [h.ofSeq _ (getLast_mem h.ne_nil)]

/-- The loop takes whole commands, and at least the first, if nothing is taken yet. -/
theorem takeWholeLoop_outputs : ∀ {outs : List SequenceOutput} {out : List Event},
    outs.Pairwise (·.seq < ·.seq) → (∀ o ∈ outs, Emits o.seq o.events) →
      (∀ o ∈ outs, out.getLast?.map Event.seq ≠ some o.seq) →
      ∃ n, takeWholeLoop limit (outs.flatMap (·.events)) out =
          out ++ (outs.take n).flatMap (·.events) ∧
        (¬ limit.any (· ≤ out.length) → 0 < n)
  | [], out, _, _, _ => ⟨1, by simp [takeWholeLoop], fun _ => Nat.one_pos⟩
  | o :: outs, out, hsorted, hemits, hlast => by
    obtain ⟨hfirst, hrest⟩ := pairwise_cons.1 hsorted
    have hown := hemits o mem_cons_self
    obtain ⟨event, events, hevents⟩ := exists_cons_of_ne_nil hown.ne_nil
    have hseq : event.seq = o.seq := hown.ofSeq event (by rw [hevents]; exact mem_cons_self)
    rw [flatMap_cons, hevents, cons_append, takeWholeLoop]
    by_cases hfull : limit.any (· ≤ out.length)
    · rw [if_pos ⟨hfull, by rw [hseq]; exact hlast o mem_cons_self⟩]
      exact ⟨0, by simp, fun h => absurd hfull h⟩
    · rw [if_neg (fun h => hfull h.1)]
      have hof : OfSeq o.seq events :=
        fun ev hev => hown.ofSeq ev (by rw [hevents]; exact mem_cons_of_mem _ hev)
      rw [takeWholeLoop_sequence _ hof (by simp [hseq]), append_assoc, singleton_append,
        ← hevents]
      have hlast' : ∀ o' ∈ outs, (out ++ o.events).getLast?.map Event.seq ≠ some o'.seq := by
        intro o' ho'
        rw [getLast?_emits out hown, ne_eq, Option.some.injEq]
        exact Nat.ne_of_lt (hfirst o' ho')
      obtain ⟨n, heq, -⟩ := takeWholeLoop_outputs hrest
        (fun o' ho' => hemits o' (mem_cons_of_mem _ ho')) hlast'
      exact ⟨n + 1, by rw [heq]; simp, fun _ => Nat.succ_pos n⟩

theorem takeWholeSequences_outputs {outs : List SequenceOutput} {limit : Nat}
    (hsorted : outs.Pairwise (·.seq < ·.seq)) (hemits : ∀ out ∈ outs, Emits out.seq out.events)
    (hlimit : 1 ≤ limit) : ∃ n, 0 < n ∧ takeWholeSequences (outs.flatMap (·.events)) (some limit) =
      (outs.take n).flatMap (·.events) := by
  have hnone : ∀ o ∈ outs, (([] : List Event).getLast?.map Event.seq) ≠ some o.seq := fun _ _ => nofun
  obtain ⟨n, heq, hn⟩ := takeWholeLoop_outputs hsorted hemits hnone
  refine ⟨n, hn ?_, heq⟩
  simp only [Option.any_some, length_nil, decide_eq_true_eq]
  omega

end

/-! ## The consumer -/

section
variable {outs : List SequenceOutput} (hsorted : outs.Pairwise (·.seq < ·.seq))
  (hemits : ∀ out ∈ outs, Emits out.seq out.events)

include hemits in
theorem history_after (seq : Nat) : (outs.flatMap (·.events)).filter (seq < ·.seq) =
    (outs.filter (seq < ·.seq)).flatMap (·.events) := by
  induction outs with
  | nil => rfl
  | cons out outs ih =>
    have hown := (hemits out mem_cons_self).ofSeq
    rw [flatMap_cons, filter_append, ih fun o ho => hemits o (mem_cons_of_mem _ ho)]
    by_cases hlt : seq < out.seq
    · rw [filter_cons_of_pos (by simpa using hlt), flatMap_cons]
      congr 1
      rw [filter_eq_self]
      intro ev hev
      simpa [hown ev hev] using hlt
    · rw [filter_cons_of_neg (by simpa using hlt)]
      have hnone : out.events.filter (seq < ·.seq) = [] := by
        rw [filter_eq_nil_iff]
        intro ev hev
        simpa [hown ev hev] using hlt
      rw [hnone, nil_append]

/-- A consumer that began after `start` has the first `n` commands from there, and asks for the rest. -/
structure Reading (outs : List SequenceOutput) (start : Nat) (reader : Reader) (n : Nat) : Prop where
  got : reader.got = ((outs.filter (start < ·.seq)).take n).flatMap fun out => keyed out.events
  rest : outs.filter (reader.after < ·.seq) = (outs.filter (start < ·.seq)).drop n

include hsorted hemits in
/-- The consumer asks next for what comes after the last command of its page. -/
theorem rest_after_page (after : Nat) {m : Nat} (hm : 0 < m) :
    outs.filter (((((outs.filter (after < ·.seq)).take m).flatMap (·.events)).getLast?.map
        Event.seq).getD after < ·.seq) = (outs.filter (after < ·.seq)).drop m := by
  have hlater : (outs.filter (after < ·.seq)).Pairwise (·.seq < ·.seq) := hsorted.filter _
  rcases eq_nil_or_concat ((outs.filter (after < ·.seq)).take m) with hnil | ⟨page, last, hpage⟩
  · rw [take_eq_nil_iff] at hnil
    have hnone : outs.filter (after < ·.seq) = [] := hnil.resolve_left (by omega)
    rw [hnone, take_nil, drop_nil]
    exact hnone
  · have hlast : last ∈ outs ∧ after < last.seq := by
      have hmem : last ∈ (outs.filter (after < ·.seq)).take m := by rw [hpage]; simp
      simpa using mem_of_mem_take hmem
    rw [hpage, concat_eq_append, flatMap_append, flatMap_singleton,
      getLast?_emits _ (hemits last hlast.1), Option.getD_some]
    -- of the commands after `after`, those after `last`
    have hfilter : outs.filter (last.seq < ·.seq) =
        (outs.filter (after < ·.seq)).filter (last.seq < ·.seq) := by
      rw [filter_filter]
      apply filter_congr
      intro out _
      rw [← Bool.decide_and, decide_eq_decide]
      omega
    have hsplit := take_append_drop m (outs.filter (after < ·.seq))
    rw [hpage, concat_eq_append] at hsplit
    rw [hfilter]
    rw [← hsplit] at hlater
    conv => lhs; rw [← hsplit]
    obtain ⟨hpageSorted, -, hacross⟩ := pairwise_append.1 hlater
    have hnone : (page ++ [last]).filter (last.seq < ·.seq) = [] := by
      rw [filter_eq_nil_iff]
      intro out hout
      rw [decide_eq_true_eq]
      rcases mem_append.1 hout with hout | hout
      · have := (pairwise_append.1 hpageSorted).2.2 out hout last mem_cons_self
        omega
      · rw [mem_singleton.1 hout]
        omega
    rw [filter_append, hnone, nil_append, filter_eq_self]
    intro out hout
    simpa using hacross last (by simp) out hout

include hsorted hemits in
/-- A request brings at least one command more, if there is one. -/
theorem Reading.request {start n : Nat} {reader : Reader} (h : Reading outs start reader n)
    {limit : Nat} (hlimit : 1 ≤ limit) :
    ∃ n', n < n' ∧ Reading outs start (request (outs.flatMap (·.events)) reader limit) n' := by
  have hown : ∀ out ∈ outs.filter (reader.after < ·.seq), Emits out.seq out.events :=
    fun out hout => hemits out (mem_filter.1 hout).1
  obtain ⟨m, hm, hpage⟩ := takeWholeSequences_outputs (hsorted.filter (reader.after < ·.seq)) hown
    hlimit
  have hkeyed : keyed (((outs.filter (reader.after < ·.seq)).take m).flatMap (·.events)) =
      ((outs.filter (reader.after < ·.seq)).take m).flatMap fun out => keyed out.events :=
    keyed_outputs (hsorted.filter _).take fun out hout => hown out (mem_of_mem_take hout)
  have hrest := rest_after_page hsorted hemits reader.after hm
  refine ⟨n + m, by omega, ?_, ?_⟩
  · unfold AtlasCex.Server.request
    simp only
    rw [history_after hemits, hpage, hkeyed, h.got, h.rest, ← flatMap_append, take_add]
  · unfold AtlasCex.Server.request
    simp only
    rw [history_after hemits, hpage, hrest, h.rest, drop_drop]

include hsorted hemits in
theorem Reading.requests {start n : Nat} {limits : List Nat} (hlimits : ∀ limit ∈ limits, 1 ≤ limit)
    {reader : Reader} (h : Reading outs start reader n) :
    ∃ n', n + limits.length ≤ n' ∧
      Reading outs start (requests (outs.flatMap (·.events)) reader limits) n' := by
  induction limits generalizing reader n with
  | nil => exact ⟨n, Nat.le_refl _, h⟩
  | cons limit limits ih =>
    obtain ⟨n', hlt, hreading⟩ := h.request hsorted hemits (hlimits limit mem_cons_self)
    obtain ⟨n'', hle, hdone⟩ := ih (fun l hl => hlimits l (mem_cons_of_mem _ hl)) hreading
    exact ⟨n'', by rw [length_cons]; omega, hdone⟩

end

/-! ## Fill ids -/

theorem fillId_inj {seq seq' i j : Nat} (h : fillId seq i = fillId seq' j) : seq = seq' ∧ i = j := by
  have hdigits : ∀ n, ':' ∉ Nat.toDigits 10 n := by
    intro n hn
    have hdigit := Nat.isDigit_of_mem_toDigits (by decide) (by decide) hn
    exact absurd hdigit (by decide)
  have hinj : ∀ {m n : Nat}, Nat.toDigits 10 m = Nat.toDigits 10 n → m = n := by
    intro m n hmn
    have hread := congrArg (Nat.ofDigitChars 10 · 0) hmn
    simpa using hread
  have hchars : ∀ m n, (fillId m n).toList = Nat.toDigits 10 m ++ ':' :: Nat.toDigits 10 n := by
    intro m n
    change (toString m ++ ":" ++ toString n).toList = _
    simp [Nat.repr_eq_ofList_toDigits]
  have hlist := congrArg String.toList h
  rw [hchars, hchars] at hlist
  obtain ⟨hseq, hi⟩ := Lib.first_field (hdigits _) (hdigits _) hlist
  exact ⟨hinj hseq, hinj hi⟩

/-- The fills of a command are numbered from zero, in order. -/
def Counted (seq : Nat) (events : List Event) : Prop :=
  fillIds events = (List.range (events.filter Event.isFill).length).map (fillId seq)

section
variable {seq : Nat} {events : List Event}

theorem fillIds_append (events later : List Event) :
    fillIds (events ++ later) = fillIds events ++ fillIds later := filterMap_append

theorem fillIds_flatMap (outs : List SequenceOutput) :
    fillIds (outs.flatMap (·.events)) = outs.flatMap fun out => fillIds out.events :=
  filterMap_flatMap

variable {ev : Event}

theorem fillIds_other (h : ev.isFill = false) : fillIds [ev] = [] := by
  cases ev with
  | fill f => cases h
  | _ => rfl

theorem Counted.other (h : Counted seq events) (hev : ev.isFill = false) :
    Counted seq (events ++ [ev]) := by
  unfold Counted at h ⊢
  rw [fillIds_append, h, fillIds_other hev, filter_append]
  simp [hev]

theorem Counted.cons (h : Counted seq events) (hev : ev.isFill = false) :
    Counted seq (ev :: events) := by
  unfold Counted at h ⊢
  rw [← singleton_append, fillIds_append, h, fillIds_other hev, filter_append]
  simp [hev]

theorem Counted.fill {t : Taker} (h : Counted t.seq events) (maker : OrderId) (price qty : Nat) :
    Counted t.seq (events ++ [t.fill events maker price qty]) := by
  unfold Counted at h ⊢
  have hown : [t.fill events maker price qty].filter Event.isFill =
      [t.fill events maker price qty] := rfl
  rw [fillIds_append, h, filter_append, hown, length_append, length_singleton,
    range_succ, map_append]
  rfl

theorem matchTurn_counted (t : Taker) (s : MatchState) (h : Counted t.seq s.events) :
    Counted t.seq (matchTurn t s).val.events := by
  have hadds := matchTurn_adds t s
  generalize (matchTurn t s).val.events = events at hadds
  cases hadds with
  | nothing => exact h
  | cancelled maker remaining => exact h.other rfl
  | fill maker price qty => exact h.fill maker price qty

theorem disposition_counted (orderId : OrderId) (request : OrderRequest) (h : Counted seq events)
    (remaining : Nat) (stop : Bool) :
    Counted seq (disposition seq orderId request events remaining stop).1 := by
  have hd := disposed seq orderId request events remaining stop
  generalize disposition seq orderId request events remaining stop = d at hd
  cases hd <;> exact h.other rfl

theorem place_counted (e : Engine) (timestampMs : Int) (orderId : OrderId)
    (request : OrderRequest) : Counted seq (e.place seq timestampMs orderId request).1 := by
  unfold Engine.place
  cases hadm : e.admission seq orderId request with
  | error events =>
    obtain ⟨ev, rfl, -, hev⟩ := admission_event hadm
    have hnil : Counted seq [] := rfl
    exact hnil.other hev
  | ok limit =>
    apply disposition_counted
    exact Lib.loop_induct (P := fun s : MatchState => Counted seq s.events)
      (matchTurn_counted (request.taker seq timestampMs orderId limit)) _ rfl

theorem apply_counted (e : Engine) (c : SequencedCommand) : Counted c.seq (e.apply c).1 := by
  have hnil : Counted c.seq [] := rfl
  unfold Engine.apply
  cases c.command with
  | place orderId request => exact place_counted _ _ _ _
  | cancel orderId =>
    simp only [Engine.cancel]
    split <;> exact hnil.other rfl
  | amend orderId newOrderId price qty =>
    simp only [Engine.amend]
    split
    · exact hnil.other rfl
    · exact (place_counted _ _ _ _).cons rfl
  | setStatus status => exact hnil.other rfl

end

theorem fillIds_nodup {outs : List SequenceOutput} (hsorted : outs.Pairwise (·.seq < ·.seq))
    (hcounted : ∀ out ∈ outs, Counted out.seq out.events) :
    (fillIds (outs.flatMap (·.events))).Nodup := by
  rw [fillIds_flatMap, nodup_flatMap]
  refine ⟨fun out hout => ?_, ?_⟩
  · rw [hcounted out hout]
    exact nodup_range.map fun i j hij => (fillId_inj hij).2
  · refine hsorted.imp_of_mem fun {out later} hout hlater hlt => ?_
    show List.Disjoint (fillIds out.events) (fillIds later.events)
    rw [hcounted out hout, hcounted later hlater]
    intro id hid hid'
    obtain ⟨i, -, rfl⟩ := mem_map.1 hid
    obtain ⟨j, -, hsame⟩ := mem_map.1 hid'
    have := (fillId_inj hsame).1
    omega

/-! ## The engine's history -/

theorem outputs_seqs (e : Engine) (commands : List SequencedCommand) :
    (Lib.run applyWithLevels e commands).1.map SequenceOutput.seq =
      commands.map SequencedCommand.seq := by
  induction commands generalizing e with
  | nil => rfl
  | cons c commands ih =>
    rw [Lib.run, map_cons, map_cons, ih]
    rfl

theorem outputs_emit (e : Engine) (commands : List SequencedCommand) :
    ∀ out ∈ (Lib.run applyWithLevels e commands).1,
      Emits out.seq out.events ∧ Counted out.seq out.events := by
  induction commands generalizing e with
  | nil => exact fun out hout => absurd hout not_mem_nil
  | cons c commands ih =>
    intro out hout
    rcases mem_cons.1 hout with rfl | hout
    · exact ⟨apply_emits e c, apply_counted e c⟩
    · exact ih _ out hout

/-- **Paging keeps the keys**: a consumer that asks again and again for the events after the last
sequence it saw, with whatever limits, has some of the first commands after its start, each event once,
in order, under the key its command's events have alone; after as many requests as there are commands
it has them all, and its next page is empty. Any run of whole sequences gives the same keys, which are
distinct, as are the fill ids. -/
theorem paging_keeps_keys (e : Engine) {commands : List SequencedCommand}
    (hseq : commands.Pairwise (·.seq < ·.seq)) (start : Nat) {limits : List Nat}
    (hlimits : ∀ limit ∈ limits, 1 ≤ limit) :
    let outs := (Lib.run applyWithLevels e commands).1
    let history := outs.flatMap (·.events)
    let later := outs.filter (start < ·.seq)
    let reader := requests history ⟨start, []⟩ limits
    (∃ n, limits.length ≤ n ∧ reader.got = (later.take n).flatMap fun out => keyed out.events) ∧
      (later.length ≤ limits.length →
        reader.got = later.flatMap (fun out => keyed out.events) ∧
        reader.got.map Prod.snd = history.filter (start < ·.seq) ∧
        ∀ limit, takeWholeSequences (history.filter (reader.after < ·.seq)) limit = []) ∧
      (∀ run, run <:+: outs →
        keyed (run.flatMap (·.events)) = run.flatMap fun out => keyed out.events) ∧
      ((keyed history).map Prod.fst).Nodup ∧ (fillIds history).Nodup := by
  intro outs history later reader
  have hsorted : outs.Pairwise (·.seq < ·.seq) := by
    have hmap : (outs.map SequenceOutput.seq).Pairwise (· < ·) := by
      rw [outputs_seqs]
      exact pairwise_map.2 hseq
    exact pairwise_map.1 hmap
  have hemits : ∀ out ∈ outs, Emits out.seq out.events := fun out hout => (outputs_emit e _ out hout).1
  have hbegin : Reading outs start ⟨start, []⟩ 0 := ⟨rfl, rfl⟩
  obtain ⟨n, hn, hreading⟩ := hbegin.requests hsorted hemits hlimits
  rw [Nat.zero_add] at hn
  refine ⟨⟨n, hn, hreading.got⟩, fun hlong => ?_, fun run hrun => ?_, ?_, ?_⟩
  · have hall : later.length ≤ n := by omega
    have hgot : reader.got = later.flatMap fun out => keyed out.events := by
      rw [hreading.got, take_of_length_le hall]
    refine ⟨hgot, ?_, fun limit => ?_⟩
    · rw [hgot, map_flatMap, history_after hemits]
      apply flatMap_congr
      intro out hout
      exact (keyed_own (hemits out (mem_filter.1 hout).1).ofSeq).1
    · rw [history_after hemits, hreading.rest, drop_eq_nil_of_le hall]
      rfl
  · exact keyed_outputs (hsorted.sublist hrun.sublist) fun out hout => hemits out (hrun.subset hout)
  · rw [keyed_outputs hsorted hemits]
    exact keys_nodup hsorted hemits
  · exact fillIds_nodup hsorted fun out hout => (outputs_emit e _ out hout).2

theorem paging_keeps_keys_sample :
    let history := (Lib.run applyWithLevels (Engine.new sampleMarket) sampleStream).1.flatMap (·.events)
    let reader := requests history ⟨0, []⟩ [1, 3, 1, 1, 2, 1]
    (∀ limit ∈ [1, 3, 1, 1, 2, 1], 1 ≤ limit) ∧
      reader.got.map Prod.fst = [(1, 0), (2, 0), (3, 0), (4, 0), (4, 1), (5, 0), (5, 1), (6, 0)] ∧
      reader.got.map Prod.snd = history.filter (0 < ·.seq) :=
  ⟨by decide, by decide +kernel,
    ((paging_keeps_keys (Engine.new sampleMarket) (by decide) 0 (by decide)).2.1 (by decide +kernel)).2.1⟩

end AtlasCex.Server

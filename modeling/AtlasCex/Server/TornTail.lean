import AtlasCex.Server.Bincode
/-!
# Recovery from a torn tail (`journal.rs:124-265`)

A power loss during an append leaves the file cut somewhere in its last record. `replay` finds no
record there and asks `has_valid_record_after` whether an intact one follows, trying every offset.
The bytes it tries are those of the cut record, and a command's ids are text of the caller's. An id
that spells a record is found as one: the tear is then called corruption, and the engine does not
start (`spelled_record_refused`).

A cut file is recovered exactly if no intact record starts inside what is left of the cut record, and
no whole command has the sequence 0, which a replay after 0 skips (`torn_tail_exact_iff`).
-/
namespace AtlasCex.Server
open List
open Matching

namespace Codec
variable {k : Codec}

/-! ## A cut -/

/-- A journal cut after `room` bytes of records: the commands whose records are whole, and what is
left of the next record. -/
def cutAt (k : Codec) : Nat → List SequencedCommand → List SequencedCommand × List UInt8
  | _, [] => ([], [])
  | room, c :: journal =>
    if (k.record c).length ≤ room then
      let (whole, torn) := cutAt k (room - (k.record c).length) journal
      (c :: whole, torn)
    else ([], (k.record c).take room)

/-- The first bytes of a file of records are the whole ones and a part of the next. -/
theorem take_records (journal : List SequencedCommand) (room : Nat) :
    (k.records journal).take room =
      k.records (k.cutAt room journal).1 ++ (k.cutAt room journal).2 := by
  induction journal generalizing room with
  | nil => simp [records, cutAt]
  | cons c journal ih =>
    have hcons : ∀ l, k.records (c :: l) = k.record c ++ k.records l := fun l => flatMap_cons
    rw [hcons, cutAt]
    split
    case isTrue hfits =>
      simp only [take_append, take_of_length_le hfits, ih, hcons, append_assoc]
    case isFalse hshort =>
      rw [take_append_of_le_length (Nat.le_of_lt (Nat.not_le.1 hshort))]
      rfl

theorem cutAt_whole (journal : List SequencedCommand) (room : Nat) :
    (k.cutAt room journal).1 <+: journal := by
  induction journal generalizing room with
  | nil => exact prefix_refl _
  | cons c journal ih =>
    rw [cutAt]
    split
    · exact (prefix_cons_inj c).2 (ih _)
    · exact nil_prefix

/-- What is left of a record that is cut is no record. -/
theorem cutAt_torn {journal : List SequencedCommand} (hj : ∀ c ∈ journal, k.Journalled c)
    (room : Nat) : k.readRecord (k.cutAt room journal).2 = none := by
  induction journal generalizing room with
  | nil => rfl
  | cons c journal ih =>
    rw [cutAt]
    split
    case isTrue => exact ih (fun c' hc' => hj c' (mem_cons_of_mem c hc')) _
    case isFalse hshort => exact readRecord_torn (hj c mem_cons_self).fits (Nat.not_le.1 hshort)

/-! ## Replay of a cut file -/

/-- A replay from the start gives back a journal whose sequences increase from 1 on, and no other. -/
theorem replay_increasing {journal : List SequencedCommand}
    (hsorted : journal.Pairwise (·.seq < ·.seq)) :
    replay journal 0 = some (journal.filter (0 < ·.seq)) := by
  obtain ⟨last, hloop⟩ := replayLoop_eq 0 journal [] 0 (fun _ _ => .inr rfl) hsorted
  rw [replay, hloop]
  rfl

/-- What is asked of a file cut behind its header: replay returns the commands whose records are
whole and leaves the file at the end of the last of them; a second replay returns them again and
truncates nothing. -/
def RecoversCut (k : Codec) (journal : List SequencedCommand) (cut : Nat) : Prop :=
  let whole := (k.cutAt (cut - header.length) journal).1
  (∃ r, k.replayFile ((header ++ k.records journal).take cut) 0 =
      .ok (r, header ++ k.records whole) ∧ r.commands = whole) ∧
    ∃ r, k.replayFile (header ++ k.records whole) 0 = .ok (r, header ++ k.records whole) ∧
      r.commands = whole ∧ r.truncatedAtOffset = none

/-- **Torn-tail recovery** is exact just where no intact record starts inside what is left of the
cut record, and no whole command has the sequence 0. -/
theorem torn_tail_exact_iff (k : Codec) (journal : List SequencedCommand)
    (hsorted : journal.Pairwise (·.seq < ·.seq)) (hj : ∀ c ∈ journal, k.Journalled c) (cut : Nat)
    (hcut : header.length ≤ cut) :
    k.RecoversCut journal cut ↔
      (∀ c ∈ (k.cutAt (cut - header.length) journal).1, 0 < c.seq) ∧
        k.hasValidRecordAfter (k.cutAt (cut - header.length) journal).2 = false := by
  have hfile : (header ++ k.records journal).take cut = header ++
      k.records (k.cutAt (cut - header.length) journal).1 ++
        (k.cutAt (cut - header.length) journal).2 := by
    rw [take_append, take_of_length_le hcut, take_records, append_assoc]
  have hwhole := k.cutAt_whole journal (cut - header.length)
  have hbad := cutAt_torn hj (cut - header.length)
  rw [RecoversCut, hfile]
  generalize (k.cutAt (cut - header.length) journal).1 = whole at hwhole ⊢
  generalize (k.cutAt (cut - header.length) journal).2 = torn at hbad ⊢
  have hjournalled : ∀ c ∈ whole, k.Journalled c := fun c hc => hj c (hwhole.subset hc)
  have hreplay := replay_increasing (hsorted.sublist hwhole.sublist)
  obtain ⟨lastSeq, hagain⟩ := replayFile_tail hjournalled Torn.nil hreplay
  rw [append_nil, if_pos rfl] at hagain
  constructor
  · rintro ⟨⟨r, hr, -⟩, r', hr', hcommands, -⟩
    -- the second replay leaves out a sequence 0; the first fails on an intact record
    cases hagain.symm.trans hr'
    refine ⟨fun c hc => of_decide_eq_true (filter_eq_self.1 hcommands c hc), ?_⟩
    rw [← Bool.not_eq_true]
    intro hvalid
    have hnil : torn ≠ [] := by
      rintro rfl
      cases hvalid
    obtain ⟨⟨commands, last⟩, hloop, -⟩ := Option.map_eq_some_iff.1 hreplay
    rw [replayFile_bad hjournalled hnil hbad hloop, hvalid] at hr
    cases hr
  · rintro ⟨hpos, hquiet⟩
    have hall : whole.filter (0 < ·.seq) = whole :=
      filter_eq_self.2 fun c hc => decide_eq_true (hpos c hc)
    rw [hall] at hreplay hagain
    exact ⟨replayFile_records hjournalled ⟨fun _ => hbad, hquiet⟩ hreplay, _, hagain, rfl, rfl⟩

end Codec

/-- A cancel and a halt, cut in the middle of the second record. -/
theorem torn_tail_exact_two :
    bincode.RecoversCut [⟨1, 0, .cancel "o-1"⟩, ⟨2, 0, .setStatus .halted⟩] 60 := by
  refine (Codec.torn_tail_exact_iff bincode [⟨1, 0, .cancel "o-1"⟩, ⟨2, 0, .setStatus .halted⟩] (by decide)
    (fun c hc => ?_) 60 (by decide)).2 (by decide +kernel)
  rcases mem_cons.1 hc with rfl | hc
  · refine ⟨⟨by decide, by decide, ?_⟩, by decide +kernel⟩
    show ("o-1" : String).toUTF8.data.size < 2 ^ 64
    decide +kernel
  · rw [mem_singleton.1 hc]
    exact ⟨⟨by decide, by decide, trivial⟩, by decide +kernel⟩

/-! ## An id that spells a record -/

/-- The text whose bytes are the record of a command, where these are ASCII. -/
def spelled (c : SequencedCommand) : String :=
  String.ofList ((bincode.record c).map fun b => Char.ofNat b.toNat)

/-- The cancel of an order whose id spells the record of a status change, and goes on. -/
def spelledCancel : SequencedCommand :=
  ⟨1, 0, .cancel (spelled ⟨1, 0, .setStatus .postOnly⟩ ++ ".")⟩

/-- One byte short, the file is refused for an intact record after the damage: it is inside the id. -/
theorem spelled_record_refused :
    bincode.Journalled spelledCancel ∧
      bincode.replayFile ((header ++ bincode.records [spelledCancel]).take
          ((header ++ bincode.records [spelledCancel]).length - 1)) 0 =
        .error (.journalCorruption 0
          "a record at offset 10 failed its checksum with intact records after it") := by
  refine ⟨⟨⟨by decide, by decide, ?_⟩, by decide +kernel⟩, by decide +kernel⟩
  show (spelled ⟨1, 0, .setStatus .postOnly⟩ ++ ".").toUTF8.data.size < 2 ^ 64
  decide +kernel

end AtlasCex.Server

import AtlasCex.Lib.Format
import AtlasCex.Server.Runtime
/-!
# The journal file, byte for byte (`services/matching/src/journal.rs`)

| here | there |
| --- | --- |
| `Codec` | `bincode::serialize`, `bincode::deserialize` of a `SequencedCommand`, and `crc32fast::hash` |
| `header`, `verifyHeader` | `journal.rs:28-30, 90-119` |
| `record` | the bytes of `Journal::append`, `journal.rs:68-87` |
| `readRecord` | `read_record`, `journal.rs:223-247` |
| `hasValidRecordAfter` | `journal.rs:253-265` |
| `scan`, `replayFile` | `replay`, `journal.rs:124-204` |

A position in the file is the bytes from there to its end. The two crates are parameters, with what
the journal relies on as fields of `Codec`; `Bincode.lean` has the codec the samples run with.
-/
namespace AtlasCex.Server
open List
open Matching
open Lib (Format)

def u32 : Format Nat := Format.uint 4
def u64 : Format Nat := Format.uint 8

/-! ## What the machine types hold -/

/-- A Rust `String` is shorter than memory. -/
def Representable.text (s : String) : Prop := s.toUTF8.data.size < 2 ^ 64

def Representable.request (r : OrderRequest) : Prop :=
  Representable.text r.clientOrderId ∧ (∀ price, r.price = some price → price < 2 ^ 64) ∧
    r.qty < 2 ^ 64 ∧ Representable.text r.accountId

def Representable.command : Command → Prop
  | .place orderId r => Representable.text orderId ∧ Representable.request r
  | .cancel orderId => Representable.text orderId
  | .amend orderId newOrderId price qty =>
    Representable.text orderId ∧ Representable.text newOrderId ∧ price < 2 ^ 64 ∧ qty < 2 ^ 64
  | .setStatus _ => True

/-- The numbers and strings of a command are those of its Rust types. -/
def Representable (c : SequencedCommand) : Prop :=
  c.seq < 2 ^ 64 ∧ (-2 ^ 63 ≤ c.timestampMs ∧ c.timestampMs < 2 ^ 63) ∧
    Representable.command c.command

/-- The crates a record is made with. `bincode` reads back what it wrote, whatever bytes follow
(`Format.get_put`); it takes every value of the Rust types and writes no command as nothing. -/
structure Codec where
  bincode : Format SequencedCommand
  crc32 : List UInt8 → UInt32
  fits : ∀ c, Representable c → bincode.Fits c
  nonempty : ∀ c, 0 < (bincode.put c).length

/-- `MAGIC` and `FORMAT_VERSION`. -/
def magic : List UInt8 := [0x41, 0x54, 0x4C, 0x41, 0x53, 0x4D, 0x43, 0x48]
def formatVersion : Nat := 1
def header : List UInt8 := magic ++ (Format.uint 2).put formatVersion

def maxRecordLen : Nat := 8 * 1024 * 1024

inductive JournalError where
  | badJournalHeader (detail : String)
  | unsupportedJournalVersion (found expected : Nat)
  | sequenceRegression (previous next : Nat)
  | journalCorruption (seq : Nat) (detail : String)
deriving DecidableEq, Repr

def verifyHeader (file : List UInt8) : Except JournalError Unit :=
  if file.length < 8 then .error (.badJournalHeader "file is shorter than a header")
  else if file.take 8 ≠ magic then
    let found := file.take 8
    .error (.badJournalHeader s!"magic was {found}")
  else
    match (Format.uint 2).get (file.drop 8) with
    | none => .error (.badJournalHeader "header is truncated")
    | some (found, _) =>
      if found ≠ formatVersion then .error (.unsupportedJournalVersion found formatVersion)
      else .ok ()

/-- Where the loop of `replay` stopped: what it has read, `last_seq`, and the bytes from a bad
record on. -/
structure Scanned where
  commands : List SequencedCommand
  lastSeq : Nat
  bad : Option (List UInt8)
deriving DecidableEq

structure Replay where
  commands : List SequencedCommand
  truncatedAtOffset : Option Nat
  lastSeq : Nat
deriving DecidableEq

namespace Codec
variable (k : Codec)

/-! ## Records -/

def record (c : SequencedCommand) : List UInt8 :=
  let payload := k.bincode.put c
  u32.put payload.length ++ (u32.put (k.crc32 payload).toNat ++ payload)

/-- Read a record at the start of `rest`: the command and what follows. `none` is `Bad`. -/
def readRecord (rest : List UInt8) : Option (SequencedCommand × List UInt8) :=
  match (u32.pair u32).get rest with
  | none => none
  | some ((len, crc), body) =>
    if len = 0 ∨ maxRecordLen < len then none
    else if body.length < len then none
    else
      let payload := body.take len
      if (k.crc32 payload).toNat ≠ crc then none
      else (k.bincode.get payload).map fun (command, _) => (command, body.drop len)

/-- Is there an intact record anywhere past the start? -/
def hasValidRecordAfter : List UInt8 → Bool
  | [] => false
  | _ :: rest => (decide (8 < rest.length) && (k.readRecord rest).isSome) || hasValidRecordAfter rest

/-! ## Replay -/

/-- The loop of `replay`. A record is at least nine bytes, so the length of the file is fuel
enough. -/
def scan (afterSeq : Nat) : Nat → List UInt8 → List SequencedCommand × Nat →
    Except JournalError Scanned
  | 0, rest, (commands, lastSeq) => .ok ⟨commands, lastSeq, some rest⟩
  | fuel + 1, rest, (commands, lastSeq) =>
    if rest = [] then .ok ⟨commands, lastSeq, none⟩
    else
      match k.readRecord rest with
      | none => .ok ⟨commands, lastSeq, some rest⟩
      | some (c, next) =>
        if c.seq ≤ lastSeq ∧ commands ≠ [] then .error (.sequenceRegression lastSeq c.seq)
        else if afterSeq < c.seq then scan afterSeq fuel next (commands ++ [c], c.seq)
        else scan afterSeq fuel next (commands, max lastSeq c.seq)

/-- `replay` with `truncate`: the commands, and the file it leaves. -/
def replayFile (file : List UInt8) (afterSeq : Nat) : Except JournalError (Replay × List UInt8) := do
  verifyHeader file
  let body := file.drop header.length
  let scanned ← k.scan afterSeq (body.length + 1) body ([], afterSeq)
  match scanned.bad with
  | none => .ok (⟨scanned.commands, none, scanned.lastSeq⟩, file)
  | some bad =>
    let offset := file.length - bad.length
    if k.hasValidRecordAfter bad then
      .error (.journalCorruption scanned.lastSeq
        s!"a record at offset {offset} failed its checksum with intact records after it")
    else .ok (⟨scanned.commands, some offset, scanned.lastSeq⟩, file.take offset)

/-! ## What an append leaves is read back -/

variable {k} {c : SequencedCommand}

theorem length_record (k : Codec) (c : SequencedCommand) :
    (k.record c).length = 8 + (k.bincode.put c).length := by
  have hlen : ∀ n, (u32.put n).length = 4 := Format.length_putUint 4
  simp only [record, length_append, hlen]
  omega

/-- The two numbers before a payload. -/
theorem get_prefix (c : SequencedCommand) (hlen : (k.bincode.put c).length ≤ maxRecordLen)
    (rest : List UInt8) :
    (u32.pair u32).get (u32.put (k.bincode.put c).length ++
        (u32.put (k.crc32 (k.bincode.put c)).toNat ++ rest)) =
      some (((k.bincode.put c).length, (k.crc32 (k.bincode.put c)).toNat), rest) := by
  rw [← append_assoc]
  refine (u32.pair u32).get_put (_, _) rest ⟨?_, ?_⟩
  · exact Nat.lt_of_le_of_lt hlen (by decide)
  · exact UInt32.toNat_lt _

theorem readRecord_record (hc : Representable c)
    (hlen : (k.bincode.put c).length ≤ maxRecordLen) (rest : List UInt8) :
    k.readRecord (k.record c ++ rest) = some (c, rest) := by
  have hpos := k.nonempty c
  have hget : k.bincode.get (k.bincode.put c) = some (c, []) := by
    simpa using k.bincode.get_put c [] (k.fits c hc)
  simp only [record, append_assoc, readRecord, get_prefix c hlen]
  rw [if_neg (by omega), if_neg (by simp)]
  simp [hget]

/-- Fewer than eight bytes do not hold the two numbers. -/
theorem get_prefix_short {bytes : List UInt8} (h : bytes.length < 8) :
    (u32.pair u32).get bytes = none := by
  show (u32.get bytes).bind _ = none
  cases hfirst : u32.get bytes with
  | none => rfl
  | some r =>
    obtain ⟨len, rest⟩ := r
    have hrest : rest.length < 4 := by
      have := Format.length_getUint hfirst
      omega
    have hsecond : u32.get rest = none := Format.getUint_short hrest
    simp only [Option.bind_some, hsecond, Option.map_none]

/-- A record that was not written to its end is bad. -/
theorem readRecord_torn (hlen : (k.bincode.put c).length ≤ maxRecordLen) {written : Nat}
    (h : written < (k.record c).length) : k.readRecord ((k.record c).take written) = none := by
  rw [length_record] at h
  by_cases hshort : written < 8
  · rw [readRecord, get_prefix_short (by rw [length_take]; omega)]
  · obtain ⟨n, rfl⟩ : ∃ n, written = 8 + n := ⟨written - 8, by omega⟩
    have hu32 : ∀ n, (u32.put n).length = 4 := Format.length_putUint 4
    have htake : (k.record c).take (8 + n) = u32.put (k.bincode.put c).length ++
        (u32.put (k.crc32 (k.bincode.put c)).toNat ++ (k.bincode.put c).take n) := by
      have hn : 8 + n - 4 - 4 = n := by omega
      rw [record, take_append, take_append, hu32, hu32, hn,
        take_of_length_le (by rw [hu32]; omega), take_of_length_le (by rw [hu32]; omega)]
    rw [htake]
    simp only [readRecord, get_prefix c hlen]
    split
    · rfl
    · rw [if_pos (by rw [length_take]; omega)]

/-! ## A file of records -/

def records (k : Codec) (journal : List SequencedCommand) : List UInt8 := journal.flatMap k.record

/-- Each of these was written by an append. -/
structure Journalled (k : Codec) (c : SequencedCommand) : Prop where
  representable : Representable c
  fits : (k.bincode.put c).length ≤ maxRecordLen

/-- Bytes no record starts with, and none stands in: what `replay` calls a torn tail. -/
structure Torn (k : Codec) (tail : List UInt8) : Prop where
  bad : tail ≠ [] → k.readRecord tail = none
  quiet : k.hasValidRecordAfter tail = false

theorem Torn.nil : k.Torn [] := ⟨fun h => absurd rfl h, rfl⟩

variable {tail : List UInt8}

/-- The loop over a file of records is the loop over the list of them. -/
theorem scan_records (afterSeq : Nat) (hbad : tail ≠ [] → k.readRecord tail = none) :
    ∀ (journal : List SequencedCommand), (∀ c ∈ journal, k.Journalled c) →
    ∀ (fuel : Nat), journal.length < fuel → ∀ (st st' : List SequencedCommand × Nat),
      replayLoop afterSeq journal st = some st' →
      k.scan afterSeq fuel (k.records journal ++ tail) st =
        .ok ⟨st'.1, st'.2, if tail = [] then none else some tail⟩
  | [], _, fuel + 1, _, (commands, lastSeq), st', h => by
    cases h
    simp only [records, flatMap_nil, nil_append, scan]
    by_cases htailNil : tail = []
    · rw [if_pos htailNil, if_pos htailNil]
    · rw [if_neg htailNil, if_neg htailNil, hbad htailNil]
  | c :: journal, hj, fuel + 1, hfuel, (commands, lastSeq), st', h => by
    have hc := hj c (by simp)
    have hread : k.readRecord (k.records (c :: journal) ++ tail) = some (c, k.records journal ++ tail) := by
      rw [records, flatMap_cons, append_assoc]
      exact readRecord_record hc.representable hc.fits _
    have hne : k.records (c :: journal) ++ tail ≠ [] := by
      have := k.length_record c
      rw [records, flatMap_cons, append_assoc]
      intro he
      have := congrArg List.length he
      simp only [length_append, length_nil] at this
      omega
    have hrest := scan_records afterSeq hbad journal (fun c' hc' => hj c' (by simp [hc'])) fuel
      (by simpa using hfuel)
    rw [replayLoop] at h
    simp only [scan, if_neg hne, hread]
    by_cases hregress : c.seq ≤ lastSeq ∧ commands ≠ []
    · rw [if_pos hregress] at h; cases h
    · rw [if_neg hregress] at h ⊢
      by_cases hafter : afterSeq < c.seq
      · rw [if_pos hafter] at h ⊢
        exact hrest _ _ h
      · rw [if_neg hafter] at h ⊢
        exact hrest _ _ h

theorem verifyHeader_header (body : List UInt8) : verifyHeader (header ++ body) = .ok () := by
  have hversion : (Format.uint 2).get ((Format.uint 2).put formatVersion ++ body) =
      some (formatVersion, body) := (Format.uint 2).get_put formatVersion body (show 1 < 256 ^ 2 by decide)
  have hmagic : (header ++ body).take 8 = magic := by
    rw [header, append_assoc]
    exact take_left' rfl
  have hdrop : (header ++ body).drop 8 = (Format.uint 2).put formatVersion ++ body := by
    rw [header, append_assoc]
    exact drop_left' rfl
  have hlength : ¬(header ++ body).length < 8 := by
    rw [length_append]
    have : header.length = 10 := by decide
    omega
  simp only [verifyHeader, if_neg hlength, hmagic, hdrop, hversion]
  rfl

theorem length_le_records (k : Codec) (journal : List SequencedCommand) :
    journal.length ≤ (k.records journal).length := by
  induction journal with
  | nil => simp
  | cons c journal ih =>
    have := k.length_record c
    rw [records, flatMap_cons, length_append, length_cons]
    rw [records] at ih
    omega

section
variable {journal : List SequencedCommand} {afterSeq lastSeq : Nat} {commands : List SequencedCommand}

/-- Replay of a file whose records are followed by bytes no record starts with. -/
theorem replayFile_bad (hj : ∀ c ∈ journal, k.Journalled c) (hnil : tail ≠ [])
    (hbad : k.readRecord tail = none)
    (h : replayLoop afterSeq journal ([], afterSeq) = some (commands, lastSeq)) :
    k.replayFile (header ++ k.records journal ++ tail) afterSeq =
      let offset := (header ++ k.records journal).length
      if k.hasValidRecordAfter tail then
        .error (.journalCorruption lastSeq
          s!"a record at offset {offset} failed its checksum with intact records after it")
      else .ok (⟨commands, some offset, lastSeq⟩, header ++ k.records journal) := by
  have hscan := scan_records afterSeq (fun _ => hbad) journal hj
    ((k.records journal ++ tail).length + 1)
    (by have := k.length_le_records journal; rw [length_append]; omega) _ _ h
  rw [if_neg hnil] at hscan
  have hdrop : (header ++ (k.records journal ++ tail)).drop header.length = k.records journal ++ tail :=
    drop_left' rfl
  have hoffset : (header ++ (k.records journal ++ tail)).length - tail.length =
      (header ++ k.records journal).length := by
    rw [← append_assoc, length_append, Nat.add_sub_cancel]
  have hkept : (header ++ (k.records journal ++ tail)).take (header ++ k.records journal).length =
      header ++ k.records journal := by
    rw [← append_assoc]
    exact take_left' rfl
  rw [append_assoc]
  simp only [replayFile, verifyHeader_header, hdrop, hscan, bind, Except.bind, hoffset, hkept]

/-- Replay of a file of records and a torn tail: what it returns, and that the records alone stay in
the file. -/
theorem replayFile_tail (hj : ∀ c ∈ journal, k.Journalled c) (htail : k.Torn tail)
    (h : replay journal afterSeq = some commands) :
    ∃ lastSeq, k.replayFile (header ++ k.records journal ++ tail) afterSeq =
      .ok (⟨commands, if tail = [] then none else some (header ++ k.records journal).length, lastSeq⟩,
        header ++ k.records journal) := by
  obtain ⟨⟨commands', lastSeq⟩, hloop, rfl⟩ := Option.map_eq_some_iff.1 h
  refine ⟨lastSeq, ?_⟩
  by_cases hnil : tail = []
  · subst hnil
    have hscan := scan_records afterSeq htail.bad journal hj ((k.records journal).length + 1)
      (by have := k.length_le_records journal; omega) _ _ hloop
    have hdrop : (header ++ k.records journal).drop header.length = k.records journal :=
      drop_left' rfl
    rw [append_nil, if_pos rfl] at hscan
    rw [append_nil, if_pos rfl]
    simp only [replayFile, verifyHeader_header, hdrop, hscan, bind, Except.bind]
  · rw [replayFile_bad hj hnil (htail.bad hnil) hloop, htail.quiet, if_neg hnil]
    rfl

/-- **Replay of a file** of records and a torn tail is the replay of the records, and leaves them
alone in the file. -/
theorem replayFile_records (hj : ∀ c ∈ journal, k.Journalled c) (htail : k.Torn tail)
    (h : replay journal afterSeq = some commands) :
    ∃ r, k.replayFile (header ++ k.records journal ++ tail) afterSeq =
        .ok (r, header ++ k.records journal) ∧ r.commands = commands := by
  obtain ⟨lastSeq, hfile⟩ := replayFile_tail hj htail h
  exact ⟨_, hfile, rfl⟩

end

end Codec

end AtlasCex.Server

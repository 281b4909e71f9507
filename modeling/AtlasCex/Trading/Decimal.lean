import AtlasCex.Trading.Settlement
import AtlasCex.Lib.Fields
import Mathlib.Data.Rat.Cast.Order
import Mathlib.Tactic.FieldSimp
import Mathlib.Tactic.Ring
/-!
# Human decimals

`parseDecimal` and `formatDecimal` of `types/src/decimal.ts:24-67`. A text is the list of its
characters, and `decimals` and `minFractionDigits` are natural numbers: both functions throw on any
other `decimals`. `BigInt` of a text of digits is `Nat.ofDigitChars 10`, `toString` of a
non-negative `bigint` is `Nat.toDigits 10`.

What a text is worth is `Numeral`: the number it spells, as a rational.
-/
namespace AtlasCex.Trading

open List
open Lib (isTrimmed trimText)

inductive DecimalFailure where
  | empty
  | malformed
  | tooPrecise
  | tooLarge
deriving DecidableEq, Repr

/-- `DECIMAL.exec`, with the defaults of its groups: `match[1] ?? '0'` and
`match[2] ?? match[3] ?? ''`. -/
def execDecimal (text : List Char) : Option (List Char × List Char) :=
  let whole := text.takeWhile Char.isDigit
  match text.dropWhile Char.isDigit with
  | [] => if whole ≠ [] then some (whole, []) else none
  | '.' :: fraction =>
    -- The second alternative is the one with no digit before the point.
    if fraction.all Char.isDigit ∧ (whole ≠ [] ∨ fraction ≠ []) then
      some (if whole = [] then ['0'] else whole, fraction)
    else none
  | _ => none

/-- `padEnd(length, '0')`. -/
def padEnd (text : List Char) (length : Nat) : List Char :=
  text ++ List.replicate (length - text.length) '0'

def parseDecimal (input : List Char) (decimals : Nat) : Except DecimalFailure Nat :=
  let text := trimText input
  if text = [] then .error .empty
  else match execDecimal text with
    | none => .error .malformed
    | some (whole, fraction) =>
      let kept := fraction.take decimals
      if (fraction.drop decimals).any (fun c => '1' ≤ c ∧ c ≤ '9') then .error .tooPrecise
      else
        let value := Nat.ofDigitChars 10 (whole ++ padEnd kept decimals) 0
        if maxU64 < value then .error .tooLarge else .ok value

def formatDecimal (value : Int) (decimals minFractionDigits : Nat) : List Char :=
  let shown := Nat.toDigits 10 value.natAbs
  let digits := List.replicate (decimals + 1 - shown.length) '0' ++ shown
  let whole := digits.take (digits.length - decimals)
  let stripped := (digits.drop (digits.length - decimals)).rdropWhile (· = '0')
  let fraction :=
    if stripped.length < minFractionDigits then padEnd stripped minFractionDigits else stripped
  (if value < 0 then ['-'] else []) ++ whole ++ if fraction.length > 0 then '.' :: fraction else []

/-! ## Numerals -/

def Digits (text : List Char) : Prop := ∀ c ∈ text, c.isDigit = true

/-- `text` is an unsigned decimal numeral, and `number` is what it spells. One of its two parts
may be missing. -/
inductive Numeral : List Char → ℚ → Prop
  | integer {whole : List Char} (hdigits : Digits whole) (hne : whole ≠ []) :
    Numeral whole (Nat.ofDigitChars 10 whole 0)
  | point {whole fraction : List Char} (hwhole : Digits whole) (hfraction : Digits fraction)
      (hne : whole ≠ [] ∨ fraction ≠ []) :
    Numeral (whole ++ '.' :: fraction)
      (Nat.ofDigitChars 10 whole 0 + Nat.ofDigitChars 10 fraction 0 / 10 ^ fraction.length)

theorem ofDigitChars_append (a b : List Char) : Nat.ofDigitChars 10 (a ++ b) 0 =
    10 ^ b.length * Nat.ofDigitChars 10 a 0 + Nat.ofDigitChars 10 b 0 := by
  rw [Nat.ofDigitChars_append, Nat.ofDigitChars_eq_ofDigitChars_zero]

theorem ofDigitChars_padEnd (text : List Char) (length : Nat) :
    Nat.ofDigitChars 10 (padEnd text length) 0 =
      10 ^ (length - text.length) * Nat.ofDigitChars 10 text 0 := by
  rw [padEnd, ofDigitChars_append, Nat.ofDigitChars_replicate_zero, length_replicate]
  rfl

theorem isDigit_iff {c : Char} : c.isDigit = true ↔ 48 ≤ c.toNat ∧ c.toNat ≤ 57 := by
  simp [Char.isDigit, UInt32.le_iff_toNat_le]

theorem ofDigitChars_lt {text : List Char} (h : Digits text) :
    Nat.ofDigitChars 10 text 0 < 10 ^ text.length := by
  induction text using List.reverseRecOn with
  | nil => simp
  | append_singleton text c ih =>
    have hc := isDigit_iff.1 (h c (by simp))
    have hlt := ih fun c' hc' => h c' (by simp [hc'])
    simp only [ofDigitChars_append, Nat.ofDigitChars_cons, Nat.ofDigitChars_nil, length_append,
      length_singleton, pow_succ, Nat.mul_zero, Nat.zero_add]
    change 10 ^ 0 * 10 * _ + (c.toNat - 48) < _
    omega

/-- Digits spell zero exactly when `/[1-9]/` finds nothing in them. -/
theorem any_nonzero {text : List Char} (h : Digits text) :
    text.any (fun c => '1' ≤ c ∧ c ≤ '9') = true ↔ Nat.ofDigitChars 10 text 0 ≠ 0 := by
  induction text with
  | nil => simp
  | cons c text ih =>
    have hc := isDigit_iff.1 (h c (by simp))
    have hle : ('1' ≤ c ∧ c ≤ '9') ↔ c.toNat - 48 ≠ 0 := by
      change (49 ≤ c.val ∧ c.val ≤ 57) ↔ _
      simp only [UInt32.le_iff_toNat_le]
      change (49 ≤ c.toNat ∧ c.toNat ≤ 57) ↔ _
      omega
    have hpos : 0 < 10 ^ text.length := Nat.pow_pos (by omega)
    rw [any_cons, Bool.or_eq_true, ih fun c' hc' => h c' (by simp [hc']), decide_eq_true_iff, hle,
      ← singleton_append, ofDigitChars_append]
    simp [Nat.ofDigitChars_cons]
    omega

/-! ## The groups of the expression -/

/-- The number two groups of digits spell, before and after the point. -/
def worth (whole fraction : List Char) : ℚ :=
  Nat.ofDigitChars 10 whole 0 + Nat.ofDigitChars 10 fraction 0 / 10 ^ fraction.length

theorem digits_takeWhile (text : List Char) : Digits (text.takeWhile Char.isDigit) :=
  all_eq_true.1 all_takeWhile

theorem worth_default (whole fraction : List Char) :
    worth (if whole = [] then ['0'] else whole) fraction = worth whole fraction := by
  split
  next h => rw [h]; rfl
  next => rfl

theorem execDecimal_numeral {text whole fraction : List Char}
    (h : execDecimal text = some (whole, fraction)) :
    Digits fraction ∧ Numeral text (worth whole fraction) := by
  have htext := takeWhile_append_dropWhile (p := Char.isDigit) (l := text)
  have hdigits := digits_takeWhile text
  unfold execDecimal at h
  split at h
  next hrest =>
    obtain ⟨hne, ⟨⟩⟩ := Option.ite_none_right_eq_some.1 h
    refine ⟨nofun, ?_⟩
    rw [hrest, append_nil] at htext
    nth_rewrite 1 [← htext]
    simpa [worth] using Numeral.integer hdigits hne
  next hrest =>
    obtain ⟨⟨hall, hne⟩, ⟨⟩⟩ := Option.ite_none_right_eq_some.1 h
    have hfraction : Digits fraction := all_eq_true.1 hall
    refine ⟨hfraction, ?_⟩
    rw [worth_default]
    nth_rewrite 1 [← htext]
    rw [hrest]
    exact .point hdigits hfraction hne
  next => cases h

theorem Numeral.exec {text : List Char} {number : ℚ} (h : Numeral text number) :
    ∃ whole fraction, execDecimal text = some (whole, fraction) ∧ number = worth whole fraction := by
  cases h with
  | integer hdigits hne =>
    refine ⟨text, [], ?_, by simp [worth]⟩
    have htake : text.takeWhile Char.isDigit = text := takeWhile_eq_self_iff.2 hdigits
    have hdrop : text.dropWhile Char.isDigit = [] := dropWhile_eq_nil_iff.2 hdigits
    simp [execDecimal, htake, hdrop, hne]
  | @point whole fraction hwhole hfraction hne =>
    refine ⟨_, fraction, ?_, (worth_default whole fraction).symm⟩
    have htake : (whole ++ '.' :: fraction).takeWhile Char.isDigit = whole := by
      rw [takeWhile_append_of_pos hwhole]
      simp
    have hdrop : (whole ++ '.' :: fraction).dropWhile Char.isDigit = '.' :: fraction := by
      rw [dropWhile_append_of_pos hwhole]
      simp
    have hall : fraction.all Char.isDigit = true := all_eq_true.2 hfraction
    simp only [execDecimal, htake, hdrop, hall, hne, true_and, if_true]

/-! ## The two conversions -/

/-- What is spelled is what is parsed, plus the digits cut off. -/
theorem worth_mul (whole fraction : List Char) (decimals : Nat) :
    worth whole fraction * 10 ^ decimals =
      Nat.ofDigitChars 10 (whole ++ padEnd (fraction.take decimals) decimals) 0 +
        Nat.ofDigitChars 10 (fraction.drop decimals) 0 / 10 ^ (fraction.drop decimals).length := by
  have hsplit := ofDigitChars_append (fraction.take decimals) (fraction.drop decimals)
  have hlength : (padEnd (fraction.take decimals) decimals).length = decimals := by simp [padEnd]
  rw [take_append_drop] at hsplit
  rw [worth, hsplit, ofDigitChars_append, ofDigitChars_padEnd, hlength]
  rcases Nat.le_total fraction.length decimals with hle | hle
  · obtain ⟨rest, rfl⟩ := Nat.exists_eq_add_of_le hle
    simp [drop_eq_nil_of_le hle, take_of_length_le hle, pow_add]
    field_simp
  · obtain ⟨rest, hrest⟩ := Nat.exists_eq_add_of_le hle
    simp [hrest, pow_add]
    field_simp
    ring

/-- A difference of integers that is less than one. -/
theorem eq_of_add_div {a b rest unit : Nat} (hlt : rest < unit) (h : (a : ℚ) + rest / unit = b) :
    rest = 0 ∧ a = b := by
  have hunit : (unit : ℚ) ≠ 0 := by
    norm_cast
    omega
  field_simp at h
  norm_cast at h
  have hab : a = b := by
    have hdiv := congrArg (· / unit) h
    simpa [Nat.mul_add_div (Nat.zero_lt_of_lt hlt), Nat.div_eq_of_lt hlt, Nat.zero_lt_of_lt hlt,
      Nat.mul_comm a] using hdiv
  subst hab
  rw [Nat.mul_comm] at h
  omega

theorem parseDecimal_eq_ok {input : List Char} {decimals value : Nat} :
    parseDecimal input decimals = .ok value ↔
      ∃ number, Numeral (trimText input) number ∧ number * 10 ^ decimals = value ∧
        value ≤ 2 ^ 64 - 1 := by
  have hmax : maxU64 = ((2 ^ 64 - 1 : Nat) : Int) := by decide
  unfold parseDecimal
  constructor
  · intro h
    simp only at h
    split at h
    next => cases h
    next =>
      split at h
      next => cases h
      next whole fraction hexec =>
        obtain ⟨hfraction, hnumeral⟩ := execDecimal_numeral hexec
        split at h
        next => cases h
        next hcut =>
          split at h
          next => cases h
          next hfits =>
            cases h
            rw [any_nonzero fun c hc => hfraction c (mem_of_mem_drop hc), not_not] at hcut
            refine ⟨_, hnumeral, ?_, by omega⟩
            rw [worth_mul, hcut]
            simp
  · rintro ⟨number, hnumeral, hvalue, hfits⟩
    obtain ⟨whole, fraction, hexec, rfl⟩ := hnumeral.exec
    have hfraction : Digits (fraction.drop decimals) := fun c hc =>
      (execDecimal_numeral hexec).1 c (mem_of_mem_drop hc)
    have hne : trimText input ≠ [] := by
      intro h
      rw [h] at hexec
      cases hexec
    rw [worth_mul] at hvalue
    obtain ⟨hzero, hparsed⟩ := eq_of_add_div (ofDigitChars_lt hfraction)
      (by simpa using hvalue)
    have hany : ¬(fraction.drop decimals).any (fun c => '1' ≤ c ∧ c ≤ '9') = true := by
      rw [any_nonzero hfraction]
      exact not_not.2 hzero
    have hmax : ¬maxU64 < value := by omega
    simp only [hne, hexec, hany, hparsed, hmax, if_false, Bool.false_eq_true]

/-! ## What is written -/

theorem trimText_eq_self {text : List Char} (h : ∀ c ∈ text, c.isDigit = true ∨ c = '.') :
    trimText text = text := by
  have hkeep : ∀ c ∈ text, isTrimmed c = false := by
    intro c hc
    have hrange : 46 ≤ c.toNat ∧ c.toNat ≤ 57 := by
      rcases h c hc with hdigit | rfl
      · have := isDigit_iff.1 hdigit
        omega
      · decide
    simp [isTrimmed]
    omega
  have hdrop : text.dropWhile isTrimmed = text := by
    cases text with
    | nil => rfl
    | cons c text => simp [hkeep c (by simp)]
  rw [trimText, hdrop, rdropWhile_eq_self_iff]
  intro hne
  simp [hkeep _ (getLast_mem hne)]

/-- Stripping zeros at the end is undone by padding. -/
theorem padEnd_rdropWhile (text : List Char) :
    padEnd (text.rdropWhile (· = '0')) text.length = text := by
  induction text using List.reverseRecOn with
  | nil => rfl
  | append_singleton text c ih =>
    rw [rdropWhile_concat]
    split
    next hc =>
      have hle := List.IsPrefix.length_le <| List.rdropWhile_prefix (· = '0') text
      rw [length_append, length_singleton, padEnd, Nat.succ_sub hle, replicate_succ',
        ← append_assoc]
      exact congrArg₂ _ ih (by simpa using (of_decide_eq_true hc).symm)
    next => simp [padEnd]

theorem worth_padEnd (whole fraction : List Char) (length : Nat) :
    worth whole (padEnd fraction length) = worth whole fraction := by
  have hlength : (padEnd fraction length).length = fraction.length + (length - fraction.length) := by
    simp [padEnd]
  rw [worth, worth, ofDigitChars_padEnd, hlength, pow_add]
  push_cast
  field_simp

/-- `digits` with the point set, the zeros after it stripped and then padded. -/
theorem worth_point {digits fraction : List Char} {decimals : Nat} (h : decimals ≤ digits.length)
    (hfraction : ∃ length, fraction =
      padEnd ((digits.drop (digits.length - decimals)).rdropWhile (· = '0')) length) :
    worth (digits.take (digits.length - decimals)) fraction * 10 ^ decimals =
      Nat.ofDigitChars 10 digits 0 := by
  obtain ⟨length, rfl⟩ := hfraction
  have hlength : (digits.drop (digits.length - decimals)).length = decimals := by
    rw [length_drop]
    omega
  conv_rhs => rw [← take_append_drop (digits.length - decimals) digits]
  rw [worth_padEnd, ← worth_padEnd _ _ (digits.drop (digits.length - decimals)).length,
    padEnd_rdropWhile, worth, hlength, ofDigitChars_append, hlength]
  push_cast
  field_simp

theorem digits_padEnd {text : List Char} (h : Digits text) (length : Nat) :
    Digits (padEnd text length) := by
  intro c hc
  rcases mem_append.1 hc with hc | hc
  · exact h c hc
  · rw [eq_of_mem_replicate hc]
    rfl

/-- `digits` with the point set, as a numeral. -/
theorem numeral_point {whole fraction : List Char} (hwhole : Digits whole) (hne : whole ≠ [])
    (hfraction : Digits fraction) :
    Numeral (trimText (whole ++ if fraction.length > 0 then '.' :: fraction else []))
      (worth whole fraction) := by
  rw [trimText_eq_self]
  · split
    next => exact .point hwhole hfraction (.inl hne)
    next hnil =>
      cases eq_nil_of_length_eq_zero (Nat.eq_zero_of_not_pos hnil)
      simpa [worth] using Numeral.integer hwhole hne
  · intro c hc
    rcases mem_append.1 hc with hc | hc
    · exact .inl (hwhole c hc)
    · split at hc
      · exact (mem_cons.1 hc).symm.imp_left (hfraction c)
      · cases hc

theorem formatDecimal_numeral (amount decimals minFractionDigits : Nat) :
    ∃ number, Numeral (trimText (formatDecimal amount decimals minFractionDigits)) number ∧
      number * 10 ^ decimals = amount := by
  have hvalue : Nat.ofDigitChars 10 (List.replicate (decimals + 1 - (Nat.toDigits 10 amount).length)
      '0' ++ Nat.toDigits 10 amount) 0 = amount := by
    simp [ofDigitChars_append, Nat.ofDigitChars_replicate_zero, Nat.ofDigitChars_ten_toDigits]
  have hdigits : Digits (List.replicate (decimals + 1 - (Nat.toDigits 10 amount).length) '0' ++
      Nat.toDigits 10 amount) := by
    intro c hc
    rcases mem_append.1 hc with hc | hc
    · rw [eq_of_mem_replicate hc]
      rfl
    · exact Nat.isDigit_of_mem_toDigits (by omega) (by omega) hc
  have hlength : decimals < (List.replicate (decimals + 1 - (Nat.toDigits 10 amount).length) '0' ++
      Nat.toDigits 10 amount).length := by
    simp
    omega
  have hsign : ¬(amount : Int) < 0 := by omega
  simp only [formatDecimal, Int.natAbs_natCast, hsign, if_false, nil_append]
  generalize List.replicate _ '0' ++ Nat.toDigits 10 amount = digits at *
  generalize hfraction : (if _ < minFractionDigits then _ else _ : List Char) = fraction
  have hpad : ∃ length, fraction =
      padEnd ((digits.drop (digits.length - decimals)).rdropWhile (· = '0')) length := by
    split at hfraction
    · exact ⟨_, hfraction.symm⟩
    · exact ⟨0, by simp [padEnd, ← hfraction]⟩
  refine ⟨_, numeral_point ?_ ?_ ?_, (worth_point hlength.le hpad).trans (by rw [hvalue])⟩
  · exact fun c hc => hdigits c (mem_of_mem_take hc)
  · intro h
    have := congrArg List.length h
    simp at this
    omega
  · obtain ⟨length, rfl⟩ := hpad
    refine digits_padEnd (fun c hc => hdigits c (mem_of_mem_drop (i := digits.length - decimals) ?_)) _
    exact List.IsPrefix.subset ( List.rdropWhile_prefix _ _) hc

theorem parseDecimal_exact :
    (∀ amount decimals minFractionDigits : Nat, amount ≤ 2 ^ 64 - 1 →
      parseDecimal (formatDecimal amount decimals minFractionDigits) decimals = .ok amount) ∧
    ∀ (input : List Char) (decimals value : Nat), parseDecimal input decimals = .ok value ↔
      ∃ number, Numeral (trimText input) number ∧ number * 10 ^ decimals = value ∧
        value ≤ 2 ^ 64 - 1 := by
  refine ⟨fun amount decimals minFractionDigits hfits => ?_, fun _ _ _ => parseDecimal_eq_ok⟩
  obtain ⟨number, hnumeral, hnumber⟩ := formatDecimal_numeral amount decimals minFractionDigits
  exact parseDecimal_eq_ok.2 ⟨number, hnumeral, hnumber, hfits⟩

example : parseDecimal " .5".toList 6 = .ok 500000 ∧
    parseDecimal "1.0000005".toList 6 = .error .tooPrecise ∧
    formatDecimal 150250000 6 4 = "150.2500".toList := by decide

end AtlasCex.Trading

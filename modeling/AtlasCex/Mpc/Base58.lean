import Mathlib.Data.Nat.Digits.Defs
import Mathlib.Data.Nat.Digits.Lemmas
/-!
# Base 58

`bs58_encode` of `mpc/src/threshold.rs:918-942`, which writes a group's public key as a Solana
address. `carryByte` is the body of its outer loop. The digits stay below 58 and the carry below
256, so the casts to `u8` lose nothing. The decoder is the usual one; the source has none.
-/
namespace AtlasCex.Mpc
open List

def alphabet : List Char := "123456789ABCDEFGHJKLMNPQRSTUVWXYZabcdefghijkmnopqrstuvwxyz".toList

def symbol (digit : Nat) : Char := alphabet.getD digit '1'

/-- `while carry > 0`. -/
def pushCarry (carry : Nat) : List Nat :=
  if carry > 0 then carry % 58 :: pushCarry (carry / 58) else []
termination_by carry
decreasing_by omega

/-- The carry runs through the digits, least significant first, and what is left is pushed. -/
def carryByte : List Nat → Nat → List Nat
  | [], carry => pushCarry carry
  | digit :: digits, carry =>
    (carry + digit <<< 8) % 58 :: carryByte digits ((carry + digit <<< 8) / 58)

def bs58Encode (bytes : List UInt8) : String :=
  let digits := bytes.foldl (fun digits byte => carryByte digits byte.toNat) []
  let leading := (bytes.takeWhile (· = 0)).length
  String.ofList (List.replicate leading '1' ++ digits.reverse.map symbol)

/-- `none` when a character is not of the alphabet. -/
def bs58Decode (text : String) : Option (List UInt8) :=
  let leading := (text.toList.takeWhile (· = '1')).length
  let digits := (text.toList.dropWhile (· = '1')).map fun c => alphabet.idxOf c
  if digits.all (· < 58) then
    some (List.replicate leading 0 ++
      (Nat.digits 256 (Nat.ofDigits 58 digits.reverse)).reverse.map UInt8.ofNat)
  else none

/-- The bytes as a big-endian number. -/
def bigEndian (bytes : List UInt8) : Nat := Nat.ofDigits 256 (bytes.map (·.toNat)).reverse

theorem pushCarry_eq (carry : Nat) : pushCarry carry = Nat.digits 58 carry := by
  induction carry using Nat.strong_induction_on with
  | _ carry ih =>
    rw [pushCarry]
    split
    next hpos => rw [Nat.digits_def' (by omega) hpos, ih _ (by omega)]
    next hzero => rw [Nat.eq_zero_of_not_pos hzero, Nat.digits_zero]

/-- One byte: the digits of `n` become those of `256 n + carry`. -/
theorem carryByte_digits (n carry : Nat) :
    carryByte (Nat.digits 58 n) carry = Nat.digits 58 (256 * n + carry) := by
  induction n using Nat.strong_induction_on generalizing carry with
  | _ n ih =>
    rcases Nat.eq_zero_or_pos n with rfl | hn
    · rw [Nat.digits_zero, carryByte, pushCarry_eq, Nat.mul_zero, Nat.zero_add]
    · have hmod : (carry + n % 58 * 2 ^ 8) % 58 = (256 * n + carry) % 58 := by omega
      have hdiv : 256 * (n / 58) + (carry + n % 58 * 2 ^ 8) / 58 = (256 * n + carry) / 58 := by omega
      rw [Nat.digits_def' (by omega) hn, carryByte, ih _ (by omega), Nat.shiftLeft_eq, hmod, hdiv,
        ← Nat.digits_def' (by omega) (by omega)]

theorem foldl_carryByte (bytes : List UInt8) :
    bytes.foldl (fun digits byte => carryByte digits byte.toNat) [] =
      Nat.digits 58 (bigEndian bytes) := by
  induction bytes using List.reverseRecOn with
  | nil => rfl
  | append_singleton bytes byte ih =>
    rw [foldl_append, ih, foldl_cons, foldl_nil, carryByte_digits]
    simp [bigEndian, Nat.ofDigits_cons, Nat.add_comm]

/-- Leading zero bytes carry no value. -/
theorem bigEndian_dropWhile (bytes : List UInt8) :
    bigEndian (bytes.dropWhile (· = 0)) = bigEndian bytes := by
  induction bytes with
  | nil => rfl
  | cons byte bytes ih =>
    by_cases h : byte = 0
    · rw [dropWhile_cons_of_pos (by simpa using h), ih]
      simp [h, bigEndian, Nat.ofDigits_append]
    · rw [dropWhile_cons_of_neg (by simpa using h)]

theorem idxOf_symbol {digit : Nat} (h : digit < 58) : alphabet.idxOf (symbol digit) = digit := by
  revert digit
  decide

theorem head_digits_ne_zero (n : Nat) : (Nat.digits 58 n).reverse.head? ≠ some 0 := by
  rw [head?_reverse]
  intro h
  obtain ⟨hne, hlast⟩ := mem_getLast?_eq_getLast h
  have hn : n ≠ 0 := by
    rintro rfl
    exact hne (Nat.digits_zero 58)
  exact Nat.getLast_digit_ne_zero 58 hn hlast.symm

/-- A run of `a` followed by something that does not begin with `a`. -/
theorem span_replicate {α : Type} [DecidableEq α] {a : α} {rest : List α} (n : Nat)
    (h : rest.head? ≠ some a) :
    (List.replicate n a ++ rest).takeWhile (· = a) = List.replicate n a ∧
      (List.replicate n a ++ rest).dropWhile (· = a) = rest := by
  induction n with
  | zero => cases rest <;> simp_all
  | succ n ih => simp [replicate_succ, ih]

theorem bytes_eq (bytes : List UInt8) :
    List.replicate (bytes.takeWhile (· = 0)).length 0 ++ bytes.dropWhile (· = 0) = bytes := by
  conv_rhs => rw [← takeWhile_append_dropWhile (p := (· = 0)) (l := bytes)]
  congr 1
  refine (eq_replicate_of_mem fun byte hbyte => ?_).symm
  simpa using all_eq_true.1 all_takeWhile byte hbyte

/-- Bytes without a leading zero are the base-256 digits of their number. -/
theorem digits_bigEndian {bytes : List UInt8} (h : bytes.head? ≠ some 0) :
    (Nat.digits 256 (bigEndian bytes)).reverse.map UInt8.ofNat = bytes := by
  rw [bigEndian, Nat.digits_ofDigits 256 (by omega)]
  · simp [Function.comp_def]
  · simp only [mem_reverse, mem_map]
    rintro _ ⟨byte, -, rfl⟩
    exact byte.toNat_lt
  · cases bytes <;> simp_all [← UInt8.toNat_inj]

theorem bs58Encode_eq (bytes : List UInt8) :
    (bs58Encode bytes).toList = List.replicate (bytes.takeWhile (· = 0)).length '1' ++
      (Nat.digits 58 (bigEndian bytes)).reverse.map symbol := by
  simp only [bs58Encode, foldl_carryByte, String.toList_ofList]

theorem head_symbols_ne (n : Nat) : ((Nat.digits 58 n).reverse.map symbol).head? ≠ some '1' := by
  rw [head?_map]
  intro h
  obtain ⟨digit, hdigit, hsymbol⟩ := Option.map_eq_some_iff.1 h
  have hlt := Nat.digits_lt_base (by omega) (mem_reverse.1 (mem_of_head? hdigit))
  have hzero : digit = 0 := by
    rw [← idxOf_symbol hlt, hsymbol]
    decide
  exact head_digits_ne_zero n (hzero ▸ hdigit)

theorem bs58Decode_encode (bytes : List UInt8) : bs58Decode (bs58Encode bytes) = some bytes := by
  obtain ⟨htake, hdrop⟩ :=
    span_replicate (bytes.takeWhile (· = 0)).length (head_symbols_ne (bigEndian bytes))
  have hdigits : ((Nat.digits 58 (bigEndian bytes)).reverse.map symbol).map
      (fun c => alphabet.idxOf c) = (Nat.digits 58 (bigEndian bytes)).reverse := by
    rw [map_map]
    exact (map_congr_left fun d hd => idxOf_symbol
      (Nat.digits_lt_base (by omega) (mem_reverse.1 hd))).trans (map_id _)
  have hall : (Nat.digits 58 (bigEndian bytes)).reverse.all (· < 58) = true := by
    simpa using fun d hd => Nat.digits_lt_base (by omega) hd
  have hhead : (bytes.dropWhile (· = 0)).head? ≠ some 0 := by
    intro h
    simpa [h] using head?_dropWhile_not (· = 0) bytes
  rw [bs58Decode]
  simp only [bs58Encode_eq, htake, hdrop, hdigits, hall, length_replicate, if_true,
    reverse_reverse, Nat.ofDigits_digits]
  rw [← bigEndian_dropWhile, digits_bigEndian hhead, bytes_eq]

theorem bs58Encode_is_base58 (bytes : List UInt8) :
    (∃ digits : List Nat,
      (bs58Encode bytes).toList =
        List.replicate (bytes.takeWhile (· = 0)).length '1' ++ digits.map symbol ∧
      (∀ digit ∈ digits, digit < 58) ∧ digits.head? ≠ some 0 ∧
      Nat.ofDigits 58 digits.reverse = bigEndian (bytes.dropWhile (· = 0))) ∧
    bs58Decode (bs58Encode bytes) = some bytes ∧
    ∀ other, other ≠ bytes → bs58Encode other ≠ bs58Encode bytes := by
  refine ⟨⟨(Nat.digits 58 (bigEndian bytes)).reverse, bs58Encode_eq bytes, fun digit hdigit =>
    Nat.digits_lt_base (by omega) (mem_reverse.1 hdigit), head_digits_ne_zero _, ?_⟩,
    bs58Decode_encode bytes, fun other hne heq => hne ?_⟩
  · rw [reverse_reverse, Nat.ofDigits_digits, bigEndian_dropWhile]
  · have h := bs58Decode_encode other
    rw [heq, bs58Decode_encode] at h
    exact (Option.some.inj h).symm

example : bs58Encode "hello world".toUTF8.toList = "StV1DL6CwTryKyV" := by decide +kernel

end AtlasCex.Mpc

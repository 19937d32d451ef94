import Ironclaw.Lib.Base64
import Ironclaw.Secrets.Credentials

/-!
# The encoder of basic credentials

`base64_encode` of the credential injector walks over the bytes in steps of three. What it writes for a step are the
four digits of the standard encoding, with `=` for those that the last bytes leave open.

- `base64EncodeLoop_eq`: the loop writes what `base64Encode` does by recursion;
- `base64Encode_standard`: the encoding is standard base64.
-/

namespace Ironclaw.Secrets

open Base64

/-- `base64_encode`, from the position `i` on. -/
def base64EncodeLoop (input : List UInt8) (i : Nat) : Str :=
  if i < input.length then
    let b0 := input.getD i 0
    let b1 := if i + 1 < input.length then input.getD (i + 1) 0 else 0
    let b2 := if i + 2 < input.length then input.getD (i + 2) 0 else 0
    [base64Digit (b0 >>> 2), base64Digit ((b0 &&& 0x03) <<< 4 ||| b1 >>> 4),
      if i + 1 < input.length then base64Digit ((b1 &&& 0x0f) <<< 2 ||| b2 >>> 6) else '=',
      if i + 2 < input.length then base64Digit (b2 &&& 0x3f) else '='] ++ base64EncodeLoop input (i + 3)
  else []
termination_by input.length - i

/-- What is asked of an encoding: its length, its characters and its padding, and that the standard decoder reads it. -/
structure StandardBase64 (input : List UInt8) (output : Str) : Prop where
  length : output.length = 4 * ((input.length + 2) / 3)
  alphabet : ∃ digits, output = digits ++ List.replicate ((3 - input.length % 3) % 3) PAD ∧ ∀ c ∈ digits, c ∈ ALPHABET
  decodes : decode output = some input

/-! ## The loop -/

theorem base64EncodeLoop_drop (input : List UInt8) (i : Nat) :
    base64EncodeLoop input i = base64Encode (input.drop i) := by
  induction hn : input.length - i using Nat.strong_induction_on generalizing i with
  | _ n ih =>
    rw [base64EncodeLoop]
    split
    next hi =>
      have ih3 := ih (input.length - (i + 3)) (by omega) (i + 3) rfl
      rw [ih3, List.drop_eq_getElem_cons hi]
      by_cases h1 : i + 1 < input.length
      · rw [List.drop_eq_getElem_cons h1]
        by_cases h2 : i + 2 < input.length
        · rw [List.drop_eq_getElem_cons h2]
          simp [h1, h2, hi, base64Encode]
        · have hend : input.drop (i + 2) = [] := List.drop_eq_nil_of_le (by omega)
          have hend3 : input.drop (i + 3) = [] := List.drop_eq_nil_of_le (by omega)
          rw [hend, hend3]
          simp [h1, h2, hi, base64Encode]
      · have hend : input.drop (i + 1) = [] := List.drop_eq_nil_of_le (by omega)
        have hend3 : input.drop (i + 3) = [] := List.drop_eq_nil_of_le (by omega)
        have h2 : ¬i + 2 < input.length := by omega
        rw [hend, hend3]
        simp [h1, h2, hi, base64Encode]
    next hi =>
      rw [List.drop_eq_nil_of_le (by omega)]
      rfl

theorem base64EncodeLoop_eq (input : List UInt8) : base64EncodeLoop input 0 = base64Encode input :=
  base64EncodeLoop_drop input 0

/-! ## The digits of a step -/

section Digits

variable (b0 b1 b2 : UInt8)

theorem base64Digit_eq (n : UInt8) : base64Digit n = digit n.toNat := rfl

/-- High bits are put over low bits that leave room for them. -/
theorem toNat_pack (hi lo : UInt8) {k : Nat} (hk : k < 8) (hhi : hi.toNat * 2 ^ k < 256) (hlo : lo.toNat < 2 ^ k) :
    (hi <<< UInt8.ofNat k ||| lo).toNat = hi.toNat * 2 ^ k + lo.toNat := by
  have hshift : (UInt8.ofNat k).toNat % 8 = k := by
    rw [UInt8.toNat_ofNat']
    omega
  rw [UInt8.toNat_or, UInt8.toNat_shiftLeft, hshift, Nat.shiftLeft_eq, Nat.mod_eq_of_lt hhi, Nat.mul_comm,
    Nat.two_pow_add_eq_or_of_lt hlo]

theorem toNat_high : (b0 >>> 2).toNat = b0.toNat / 4 := by
  rw [UInt8.toNat_shiftRight]
  exact Nat.shiftRight_eq_div_pow _ 2

theorem toNat_and_3 : (b0 &&& 0x03).toNat = b0.toNat % 4 := by
  rw [UInt8.toNat_and]
  exact Nat.and_two_pow_sub_one_eq_mod _ 2

theorem toNat_and_15 : (b0 &&& 0x0f).toNat = b0.toNat % 16 := by
  rw [UInt8.toNat_and]
  exact Nat.and_two_pow_sub_one_eq_mod _ 4

theorem toNat_and_63 : (b0 &&& 0x3f).toNat = b0.toNat % 64 := by
  rw [UInt8.toNat_and]
  exact Nat.and_two_pow_sub_one_eq_mod _ 6

theorem toNat_second : ((b0 &&& 0x03) <<< 4 ||| b1 >>> 4).toNat = b0.toNat % 4 * 16 + b1.toNat / 16 := by
  have hlow : (b1 >>> 4).toNat = b1.toNat / 16 := by
    rw [UInt8.toNat_shiftRight]
    exact Nat.shiftRight_eq_div_pow _ 4
  have hb := b1.toNat_lt
  have hpack :=
    toNat_pack (b0 &&& 0x03) (b1 >>> 4) (k := 4) (by omega) (by rw [toNat_and_3]; omega) (by rw [hlow]; omega)
  rw [toNat_and_3, hlow] at hpack
  exact hpack

theorem toNat_third : ((b1 &&& 0x0f) <<< 2 ||| b2 >>> 6).toNat = b1.toNat % 16 * 4 + b2.toNat / 64 := by
  have hlow : (b2 >>> 6).toNat = b2.toNat / 64 := by
    rw [UInt8.toNat_shiftRight]
    exact Nat.shiftRight_eq_div_pow _ 6
  have hb := b2.toNat_lt
  have hpack :=
    toNat_pack (b1 &&& 0x0f) (b2 >>> 6) (k := 2) (by omega) (by rw [toNat_and_15]; omega) (by rw [hlow]; omega)
  rw [toNat_and_15, hlow] at hpack
  exact hpack

end Digits

/-! ## The encoding -/

/-- The steps of the encoding, in digits. -/
theorem base64Encode_one (b0 : UInt8) :
    base64Encode [b0] = [digit (b0.toNat / 4), digit (b0.toNat % 4 * 16), PAD, PAD] := by
  have hsecond : ((b0 &&& 0x03) <<< 4).toNat = b0.toNat % 4 * 16 := by
    have h := toNat_second b0 0
    simpa using h
  rw [base64Encode, base64Digit_eq, base64Digit_eq, toNat_high, hsecond]
  rfl

theorem base64Encode_two (b0 b1 : UInt8) : base64Encode [b0, b1] =
    [digit (b0.toNat / 4), digit (b0.toNat % 4 * 16 + b1.toNat / 16), digit (b1.toNat % 16 * 4), PAD] := by
  have hthird : ((b1 &&& 0x0f) <<< 2).toNat = b1.toNat % 16 * 4 := by
    have h := toNat_third b1 0
    simpa using h
  rw [base64Encode, base64Digit_eq, base64Digit_eq, base64Digit_eq, toNat_high, toNat_second, hthird]
  rfl

theorem base64Encode_three (b0 b1 b2 : UInt8) (rest : List UInt8) : base64Encode (b0 :: b1 :: b2 :: rest) =
    digit (b0.toNat / 4) :: digit (b0.toNat % 4 * 16 + b1.toNat / 16) :: digit (b1.toNat % 16 * 4 + b2.toNat / 64) ::
      digit (b2.toNat % 64) :: base64Encode rest := by
  rw [base64Encode, base64Digit_eq, base64Digit_eq, base64Digit_eq, base64Digit_eq, toNat_high,
    toNat_second, toNat_third, toNat_and_63]
  rfl

theorem standardBase64_encode : ∀ input : List UInt8, StandardBase64 input (base64Encode input)
  | [] => ⟨rfl, ⟨[], rfl, nofun⟩, rfl⟩
  | [b0] => by
    have hb := b0.toNat_lt
    rw [base64Encode_one]
    refine ⟨by simp, ⟨[digit (b0.toNat / 4), digit (b0.toNat % 4 * 16)], rfl, ?_⟩, ?_⟩
    · simp only [List.forall_mem_cons, List.not_mem_nil, false_imp_iff, implies_true, and_true]
      exact ⟨digit_mem (by omega), digit_mem (by omega)⟩
    · rw [decode_one hb, UInt8.ofNat_toNat]
  | [b0, b1] => by
    have hb := b0.toNat_lt
    have hb1 := b1.toNat_lt
    rw [base64Encode_two]
    refine ⟨by simp,
      ⟨[digit (b0.toNat / 4), digit (b0.toNat % 4 * 16 + b1.toNat / 16), digit (b1.toNat % 16 * 4)], rfl, ?_⟩, ?_⟩
    · simp only [List.forall_mem_cons, List.not_mem_nil, false_imp_iff, implies_true, and_true]
      exact ⟨digit_mem (by omega), digit_mem (by omega), digit_mem (by omega)⟩
    · rw [decode_two hb hb1, UInt8.ofNat_toNat, UInt8.ofNat_toNat]
  | b0 :: b1 :: b2 :: rest => by
    have hb := b0.toNat_lt
    have hb1 := b1.toNat_lt
    have hb2 := b2.toNat_lt
    obtain ⟨hlength, ⟨digits, houtput, halphabet⟩, hdecodes⟩ := standardBase64_encode rest
    have hmod : (b0 :: b1 :: b2 :: rest).length % 3 = rest.length % 3 := by
      simp only [List.length_cons]
      omega
    rw [base64Encode_three]
    refine ⟨?_, ⟨digit (b0.toNat / 4) :: digit (b0.toNat % 4 * 16 + b1.toNat / 16) ::
      digit (b1.toNat % 16 * 4 + b2.toNat / 64) :: digit (b2.toNat % 64) :: digits, ?_, ?_⟩, ?_⟩
    · simp only [List.length_cons, hlength]
      omega
    · rw [hmod, houtput]
      rfl
    · simp only [List.forall_mem_cons]
      exact ⟨digit_mem (by omega), digit_mem (by omega), digit_mem (by omega), digit_mem (by omega), halphabet⟩
    · rw [decode_full hb hb1 hb2, hdecodes, Option.map_some, UInt8.ofNat_toNat, UInt8.ofNat_toNat, UInt8.ofNat_toNat]

/-- **Standard base64.** For every list of bytes the encoder writes standard base64. -/
theorem base64Encode_standard (input : List UInt8) : StandardBase64 input (base64EncodeLoop input 0) := by
  rw [base64EncodeLoop_eq]
  exact standardBase64_encode input

end Ironclaw.Secrets

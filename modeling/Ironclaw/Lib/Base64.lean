import Ironclaw.Lib.Text

/-!
# Base64

The decoder of the standard alphabet: four characters are three bytes, and a last group of one or two bytes is filled up
with `=`. The bits that a filled group does not use are zero.

- `value_digit`: the characters of the alphabet have the values of their places;
- `decode_full`, `decode_two`, `decode_one`: the groups that three, two and one bytes are written as.
-/

namespace Ironclaw.Base64

/-- The alphabet, in the order of the values. -/
def ALPHABET : Str := "ABCDEFGHIJKLMNOPQRSTUVWXYZabcdefghijklmnopqrstuvwxyz0123456789+/".toList

/-- The character that fills up the last group. -/
def PAD : Char := '='

/-- The six bits of a character. -/
def value (c : Char) : Option Nat := if c ∈ ALPHABET then some (ALPHABET.idxOf c) else none

/-- The bytes of a last group with `=` at its end. -/
def decodeLast (a b c : Char) : Option (List UInt8) := do
  let x ← value a
  let y ← value b
  if c = PAD then
    if y % 16 = 0 then some [UInt8.ofNat (x * 4 + y / 16)] else none
  else
    let z ← value c
    if z % 4 = 0 then some [UInt8.ofNat (x * 4 + y / 16), UInt8.ofNat (y % 16 * 16 + z / 4)] else none

def decode : Str → Option (List UInt8)
  | [] => some []
  | a :: b :: c :: d :: rest =>
    if d = PAD then if rest.isEmpty then decodeLast a b c else none
    else do
      let x ← value a
      let y ← value b
      let z ← value c
      let w ← value d
      let bytes ← decode rest
      some (UInt8.ofNat (x * 4 + y / 16) :: UInt8.ofNat (y % 16 * 16 + z / 4) :: UInt8.ofNat (z % 4 * 64 + w) :: bytes)
  | _ => none

/-! ## Characters -/

/-- The character of six bits. -/
def digit (n : Nat) : Char := ALPHABET.getD n PAD

theorem digit_mem {n : Nat} (h : n < 64) : digit n ∈ ALPHABET := by
  have hall : ∀ i : Fin 64, digit i ∈ ALPHABET := by decide +kernel
  exact hall ⟨n, h⟩

theorem value_digit {n : Nat} (h : n < 64) : value (digit n) = some n := by
  have hall : ∀ i : Fin 64, value (digit i) = some i.val := by decide +kernel
  exact hall ⟨n, h⟩

theorem digit_ne_pad {n : Nat} (h : n < 64) : digit n ≠ PAD := by
  have hpad : PAD ∉ ALPHABET := by decide +kernel
  exact fun heq => hpad (heq ▸ digit_mem h)

/-! ## Groups -/

section Groups

variable {p q r : Nat}

/-- Three bytes, before what follows. -/
theorem decode_full (hp : p < 256) (hq : q < 256) (hr : r < 256) (rest : Str) :
    decode (digit (p / 4) :: digit (p % 4 * 16 + q / 16) :: digit (q % 16 * 4 + r / 64) :: digit (r % 64) :: rest) =
      (decode rest).map fun bytes => UInt8.ofNat p :: UInt8.ofNat q :: UInt8.ofNat r :: bytes := by
  have h₁ : p / 4 * 4 + (p % 4 * 16 + q / 16) / 16 = p := by omega
  have h₂ : (p % 4 * 16 + q / 16) % 16 * 16 + (q % 16 * 4 + r / 64) / 4 = q := by omega
  have h₃ : (q % 16 * 4 + r / 64) % 4 * 64 + r % 64 = r := by omega
  rw [decode, if_neg (digit_ne_pad (by omega)), value_digit (by omega), value_digit (by omega), value_digit (by omega),
    value_digit (by omega)]
  simp only [Option.bind_eq_bind, Option.bind_some, h₁, h₂, h₃]
  cases decode rest <;> rfl

/-- Two bytes at the end. -/
theorem decode_two (hp : p < 256) (hq : q < 256) :
    decode [digit (p / 4), digit (p % 4 * 16 + q / 16), digit (q % 16 * 4), PAD] =
      some [UInt8.ofNat p, UInt8.ofNat q] := by
  have h₁ : p / 4 * 4 + (p % 4 * 16 + q / 16) / 16 = p := by omega
  have h₂ : (p % 4 * 16 + q / 16) % 16 * 16 + q % 16 * 4 / 4 = q := by omega
  have h₃ : q % 16 * 4 % 4 = 0 := by omega
  have hpad : digit (q % 16 * 4) ≠ PAD := digit_ne_pad (by omega)
  rw [decode, if_pos rfl, List.isEmpty_nil, if_pos rfl, decodeLast, value_digit (by omega), value_digit (by omega),
    value_digit (by omega)]
  simp only [Option.bind_eq_bind, Option.bind_some, if_neg hpad, h₁, h₂, h₃, if_true]

/-- One byte at the end. -/
theorem decode_one (hp : p < 256) : decode [digit (p / 4), digit (p % 4 * 16), PAD, PAD] = some [UInt8.ofNat p] := by
  have h₁ : p / 4 * 4 + p % 4 * 16 / 16 = p := by omega
  have h₂ : p % 4 * 16 % 16 = 0 := by omega
  rw [decode, if_pos rfl, List.isEmpty_nil, if_pos rfl, decodeLast, value_digit (by omega), value_digit (by omega)]
  simp only [Option.bind_eq_bind, Option.bind_some, h₁, h₂, if_true]

end Groups

end Ironclaw.Base64

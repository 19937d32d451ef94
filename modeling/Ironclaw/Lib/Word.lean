import Mathlib.Tactic

/-!
# Signed machine integers

What the wrapping operations on 64-bit integers give, as numbers.

- `bmod_two_pow_64`: one wrap around the range;
- `toInt_sub_eq_iff`, `toInt_add_eq_iff`, `toInt_toInt64_eq_iff`: when a difference, a sum or a cast is exact;
- `toInt_abs_sub`: the absolute value of a difference.
-/

namespace Ironclaw.Word

/-- A number that is less than one range away is wrapped at most once. -/
theorem bmod_two_pow_64 {n : Int} (h : -2 ^ 64 ≤ n) (h' : n < 2 ^ 64) : n.bmod (2 ^ 64) =
    if n < -2 ^ 63 then n + 2 ^ 64 else if n < 2 ^ 63 then n else n - 2 ^ 64 := by
  rw [Int.bmod_eq_emod]
  norm_num at h h' ⊢
  split_ifs <;> omega

section Exact

variable (a b : Int64) (x : UInt64)

theorem toInt_sub_eq_iff : (a - b).toInt = a.toInt - b.toInt ↔
    -2 ^ 63 ≤ a.toInt - b.toInt ∧ a.toInt - b.toInt < 2 ^ 63 := by
  have ha := a.toInt_lt
  have ha' := a.le_toInt
  have hb := b.toInt_lt
  have hb' := b.le_toInt
  rw [Int64.toInt_sub, bmod_two_pow_64 (by omega) (by omega)]
  split_ifs <;> omega

theorem toInt_add_eq_iff : (a + b).toInt = a.toInt + b.toInt ↔
    -2 ^ 63 ≤ a.toInt + b.toInt ∧ a.toInt + b.toInt < 2 ^ 63 := by
  have ha := a.toInt_lt
  have ha' := a.le_toInt
  have hb := b.toInt_lt
  have hb' := b.le_toInt
  rw [Int64.toInt_add, bmod_two_pow_64 (by omega) (by omega)]
  split_ifs <;> omega

theorem toInt_toInt64 : x.toInt64.toInt = (x.toNat : Int).bmod (2 ^ 64) :=
  (BitVec.toInt_eq_toNat_bmod x.toBitVec).trans rfl

theorem toInt_toInt64_eq_iff : x.toInt64.toInt = x.toNat ↔ x.toNat < 2 ^ 63 := by
  have hx := x.toNat_lt
  rw [toInt_toInt64, bmod_two_pow_64 (by omega) (by omega)]
  split_ifs <;> omega

/-- The least number is its own absolute value. -/
theorem toInt_abs : a.abs.toInt = if a.toInt = -2 ^ 63 then -2 ^ 63 else |a.toInt| := by
  have habs : a.abs.toInt = if a.toBitVec = BitVec.intMin 64 then (BitVec.intMin 64).toInt else a.toInt.natAbs :=
    BitVec.toInt_abs_eq_natAbs
  have hmin : a.toBitVec = BitVec.intMin 64 ↔ a.toInt = -2 ^ 63 := by
    rw [← BitVec.toInt_inj]
    exact Iff.rfl
  simp only [habs, hmin, Int.natCast_natAbs]
  rfl

/-- The absolute value of a difference, as the machine computes it. -/
theorem toInt_abs_sub : (a - b).abs.toInt =
    if |a.toInt - b.toInt| < 2 ^ 63 then |a.toInt - b.toInt|
    else if |a.toInt - b.toInt| = 2 ^ 63 then -2 ^ 63
    else 2 ^ 64 - |a.toInt - b.toInt| := by
  have ha := a.toInt_lt
  have ha' := a.le_toInt
  have hb := b.toInt_lt
  have hb' := b.le_toInt
  rw [toInt_abs, Int64.toInt_sub, bmod_two_pow_64 (by omega) (by omega)]
  simp only [Int.abs_eq_natAbs]
  split_ifs <;> omega

end Exact

end Ironclaw.Word

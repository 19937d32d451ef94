import Ironclaw.Lib.Word

/-!
# The delay before a retry

`retry_backoff_delay` doubles one second with each attempt, in saturating 64-bit arithmetic, and adds a draw of at most
a quarter to both sides. The sum is computed in signed integers, which hold no more than half of what the base can be.

- `toNat_baseMs`: the base is the nominal one;
- `computed_iff`: when the signed computation is exact;
- `withinBackoff_iff`: for which attempts and draws the delay is what it should be.
-/

namespace Ironclaw.Llm

open Word

def U64_MAX : Nat := 2 ^ 64 - 1

/-- `u64::saturating_mul`. -/
def saturatingMul (a b : UInt64) : UInt64 := UInt64.ofNat (min (a.toNat * b.toNat) U64_MAX)

/-- `u64::saturating_pow`. -/
def saturatingPow (a : UInt64) (n : UInt32) : UInt64 := UInt64.ofNat (min (a.toNat ^ n.toNat) U64_MAX)

def baseMs (attempt : UInt32) : UInt64 := saturatingMul 1000 (saturatingPow 2 attempt)

/-- A quarter of the base. -/
def jitterRange (attempt : UInt32) : UInt64 := baseMs attempt / 4

/-- A draw of `gen_range(0..=jitter_range * 2)`. -/
structure Draw (attempt : UInt32) where
  offset : UInt64
  le : offset ≤ jitterRange attempt * 2

/-- The jitter, in wrapping arithmetic. -/
def jitter (attempt : UInt32) (offset : UInt64) : Int64 :=
  if 0 < jitterRange attempt then offset.toInt64 - (jitterRange attempt).toInt64 else 0

/-- `retry_backoff_delay`, in milliseconds. -/
def retryBackoffDelay (attempt : UInt32) (draw : Draw attempt) : UInt64 :=
  (max ((baseMs attempt).toInt64 + jitter attempt draw.offset) 100).toUInt64

/-! ## What the delay should be -/

/-- The nominal base: `1000 * 2 ^ attempt`, or the largest 64-bit number. -/
def nominal (attempt : UInt32) : Nat := min (1000 * 2 ^ attempt.toNat) U64_MAX

/-- Each step of the computation has its value as a number: the casts, the difference and the sum. -/
structure Computed (attempt : UInt32) (draw : Draw attempt) : Prop where
  base : (baseMs attempt).toInt64.toInt = (baseMs attempt).toNat
  offset : draw.offset.toInt64.toInt = draw.offset.toNat
  range : (jitterRange attempt).toInt64.toInt = (jitterRange attempt).toNat
  jitter : (jitter attempt draw.offset).toInt = draw.offset.toNat - (jitterRange attempt).toNat
  sum : ((baseMs attempt).toInt64 + Llm.jitter attempt draw.offset).toInt =
    (baseMs attempt).toNat + (Llm.jitter attempt draw.offset).toInt

/-- The delay is computed without an overflow or a wrap, lies within a quarter of the nominal base and not below 100
milliseconds, and no earlier attempt has a larger base. -/
structure WithinBackoff (attempt : UInt32) (draw : Draw attempt) : Prop where
  computed : Computed attempt draw
  within : 4 * |((retryBackoffDelay attempt draw).toNat : Int) - nominal attempt| ≤ nominal attempt
  least : 100 ≤ (retryBackoffDelay attempt draw).toNat
  grows : ∀ earlier ≤ attempt, (baseMs earlier).toInt64 ≤ (baseMs attempt).toInt64

/-! ## The base -/

section Base

variable (attempt : UInt32)

theorem toNat_ofNat_min (n : Nat) : (UInt64.ofNat (min n U64_MAX)).toNat = min n U64_MAX := by
  rw [UInt64.toNat_ofNat']
  exact Nat.mod_eq_of_lt (Nat.lt_of_le_of_lt (Nat.min_le_right n U64_MAX) (by decide))

theorem toNat_baseMs : (baseMs attempt).toNat = nominal attempt := by
  rw [baseMs, saturatingMul, saturatingPow, toNat_ofNat_min, toNat_ofNat_min, nominal]
  show min (1000 * min (2 ^ attempt.toNat) U64_MAX) U64_MAX = _
  generalize 2 ^ attempt.toNat = p
  unfold U64_MAX
  omega

theorem toNat_jitterRange : (jitterRange attempt).toNat = nominal attempt / 4 := by
  rw [jitterRange, UInt64.toNat_div, toNat_baseMs]
  rfl

theorem nominal_mono {earlier : UInt32} (h : earlier ≤ attempt) : nominal earlier ≤ nominal attempt := by
  have hpow : 2 ^ earlier.toNat ≤ 2 ^ attempt.toNat := Nat.pow_le_pow_right (by decide) (UInt32.le_iff_toNat_le.mp h)
  unfold nominal
  omega

theorem thousand_le_nominal : 1000 ≤ nominal attempt := by
  have hpow : 0 < 2 ^ attempt.toNat := Nat.two_pow_pos _
  unfold nominal U64_MAX
  omega

theorem draw_le (draw : Draw attempt) : draw.offset.toNat ≤ nominal attempt / 4 * 2 := by
  have hle := UInt64.le_iff_toNat_le.mp draw.le
  have hrange := toNat_jitterRange attempt
  have hnominal : nominal attempt < 2 ^ 64 := toNat_baseMs attempt ▸ (baseMs attempt).toNat_lt
  rw [UInt64.toNat_mul, hrange] at hle
  have hmod : nominal attempt / 4 * (2 : UInt64).toNat % 2 ^ 64 = nominal attempt / 4 * 2 := by
    show nominal attempt / 4 * 2 % 2 ^ 64 = _
    omega
  omega

end Base

/-! ## The computation -/

section Computation

variable {attempt : UInt32} {draw : Draw attempt}

theorem jitter_eq (offset : UInt64) :
    jitter attempt offset = offset.toInt64 - (jitterRange attempt).toInt64 := by
  have hnominal := thousand_le_nominal attempt
  have hpos : 0 < jitterRange attempt := by
    rw [UInt64.lt_iff_toNat_lt, toNat_jitterRange]
    show 0 < nominal attempt / 4
    omega
  rw [jitter, if_pos hpos]

/-- The jitter is exact for every draw: half of the base fits into a signed number. -/
theorem toInt_jitter (draw : Draw attempt) :
    (jitter attempt draw.offset).toInt = draw.offset.toNat - (jitterRange attempt).toNat := by
  have hnominal : nominal attempt < 2 ^ 64 := toNat_baseMs attempt ▸ (baseMs attempt).toNat_lt
  have hdraw := draw_le attempt draw
  have hrange := toNat_jitterRange attempt
  have hoffset : draw.offset.toInt64.toInt = draw.offset.toNat := (toInt_toInt64_eq_iff _).mpr (by omega)
  have hrange' : (jitterRange attempt).toInt64.toInt = (jitterRange attempt).toNat :=
    (toInt_toInt64_eq_iff _).mpr (by omega)
  rw [jitter_eq, (toInt_sub_eq_iff _ _).mpr (by omega), hoffset, hrange']

/-- The computation is exact when the base and the sum fit into signed numbers. -/
theorem computed_iff (draw : Draw attempt) : Computed attempt draw ↔
    nominal attempt < 2 ^ 63 ∧ nominal attempt + draw.offset.toNat < 2 ^ 63 + nominal attempt / 4 := by
  have hbase := toNat_baseMs attempt
  have hnominal : nominal attempt < 2 ^ 64 := hbase ▸ (baseMs attempt).toNat_lt
  have hdraw := draw_le attempt draw
  have hrange := toNat_jitterRange attempt
  have hjitter := toInt_jitter draw
  constructor
  · rintro ⟨hcast, -, -, -, hsum⟩
    have hfits := (toInt_toInt64_eq_iff _).mp hcast
    rw [← hcast, toInt_add_eq_iff, hcast, hjitter] at hsum
    omega
  · rintro ⟨hfits, hsum⟩
    have hcast := (toInt_toInt64_eq_iff (baseMs attempt)).mpr (by omega)
    refine ⟨hcast, (toInt_toInt64_eq_iff _).mpr (by omega), (toInt_toInt64_eq_iff _).mpr (by omega), hjitter, ?_⟩
    rw [(toInt_add_eq_iff _ _).mpr (by omega), hcast]

/-- The floor keeps what is above it, and makes 100 of the rest. -/
theorem toNat_floor (x : Int64) : ((max x 100).toUInt64.toNat : Int) = max x.toInt 100 := by
  have hnonneg : ∀ y : Int64, 0 ≤ y.toInt → (y.toUInt64.toNat : Int) = y.toInt := by
    intro y hy
    rw [Int64.toNat_toUInt64_of_le (Int64.le_iff_toInt_le.mpr hy)]
    exact Int.toNat_of_nonneg hy
  have hfloor : (100 : Int64).toInt = 100 := rfl
  show ((if x ≤ 100 then 100 else x : Int64).toUInt64.toNat : Int) = _
  split
  next hle =>
    rw [Int64.le_iff_toInt_le, hfloor] at hle
    rw [max_eq_right hle, hnonneg 100 (by decide), hfloor]
  next hgt =>
    rw [Int64.le_iff_toInt_le, hfloor] at hgt
    rw [hnonneg x (by omega), max_eq_left (by omega)]

/-- What an exact computation gives. -/
theorem toNat_delay (h : Computed attempt draw) : ((retryBackoffDelay attempt draw).toNat : Int) =
    nominal attempt + draw.offset.toNat - (nominal attempt / 4 : Nat) := by
  have hnominal := thousand_le_nominal attempt
  have hsum := h.sum
  rw [h.jitter, toNat_baseMs, toNat_jitterRange] at hsum
  rw [retryBackoffDelay, toNat_floor, hsum]
  omega

theorem withinBackoff_iff_computed (draw : Draw attempt) : WithinBackoff attempt draw ↔ Computed attempt draw := by
  refine ⟨WithinBackoff.computed, fun h => ⟨h, ?_, ?_, fun earlier hearlier => ?_⟩⟩
  · have hdraw := draw_le attempt draw
    rw [toNat_delay h]
    have hdiff : |(nominal attempt + draw.offset.toNat - (nominal attempt / 4 : Nat) : Int) - nominal attempt| ≤
        (nominal attempt / 4 : Nat) := abs_le.mpr ⟨by omega, by omega⟩
    omega
  · have hfloor := toNat_floor ((baseMs attempt).toInt64 + jitter attempt draw.offset)
    rw [retryBackoffDelay]
    omega
  · -- the base of an earlier attempt fits too, and is no larger
    have hle := nominal_mono attempt hearlier
    have hfits := ((computed_iff draw).mp h).1
    rw [Int64.le_iff_toInt_le, h.base, (toInt_toInt64_eq_iff _).mpr (by rw [toNat_baseMs]; omega), toNat_baseMs,
      toNat_baseMs]
    exact_mod_cast hle

/-- **The delay before a retry.** The delay of an attempt is computed exactly and is what it should be if and only if
the attempt is at most 52, or is 53 with a draw that leaves room. -/
theorem withinBackoff_iff (attempt : UInt32) (draw : Draw attempt) : WithinBackoff attempt draw ↔
    attempt ≤ 52 ∨ attempt = 53 ∧ draw.offset ≤ 2467972595799031807 := by
  have hdraw := draw_le attempt draw
  have hsmall : attempt ≤ 52 ↔ attempt.toNat ≤ 52 := UInt32.le_iff_toNat_le
  have hedge : attempt = 53 ↔ attempt.toNat = 53 := UInt32.toNat_inj.symm
  have hroom : draw.offset ≤ 2467972595799031807 ↔ draw.offset.toNat ≤ 2467972595799031807 := UInt64.le_iff_toNat_le
  rw [withinBackoff_iff_computed, computed_iff, hsmall, hedge, hroom]
  have hcases : attempt.toNat ≤ 52 ∨ attempt.toNat = 53 ∨ 54 ≤ attempt.toNat := by omega
  rcases hcases with hle | heq | hge
  · have hpow : 2 ^ attempt.toNat ≤ 2 ^ 52 := Nat.pow_le_pow_right (by decide) hle
    have hnominal : nominal attempt ≤ 1000 * 2 ^ 52 := (Nat.min_le_left _ _).trans (Nat.mul_le_mul_left 1000 hpow)
    omega
  · have hnominal : nominal attempt = 1000 * 2 ^ 53 := by
      rw [nominal, heq]
      decide
    omega
  · have hpow : 2 ^ 54 ≤ 2 ^ attempt.toNat := Nat.pow_le_pow_right (by decide) hge
    have hnominal : 1000 * 2 ^ 54 ≤ nominal attempt := by
      unfold nominal U64_MAX
      omega
    omega

end Computation

/-- The least draw. -/
def Draw.least (attempt : UInt32) : Draw attempt := ⟨0, UInt64.le_iff_toNat_le.mpr (Nat.zero_le _)⟩

/-- The base of attempt 54 is negative as a signed number, and with the least draw the delay is 100 milliseconds. -/
theorem base_wraps : retryBackoffDelay 54 (Draw.least 54) = 100 ∧ ¬WithinBackoff 54 (Draw.least 54) := by
  refine ⟨by decide, fun h => ?_⟩
  have hcast := h.computed.base
  revert hcast
  decide

end Ironclaw.Llm

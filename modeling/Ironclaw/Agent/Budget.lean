import Ironclaw.Agent.CostGuard

/-!
# The budget of a day

`check_allowed` refuses a call for the budget of the day when the flag is set, or when the daily total has reached the
limit. Both are set back by the next cost that is recorded on a new day, and by nothing else: a check never looks at the
date. So the budget of a day is kept as long as each check is made on the date of the daily total, or finds that total
below the limit; costs that are negative, or too large for `to_cents`, are left aside (`Priced`).

- `le_toCents_iff`: the comparison in cents;
- `denies_iff`: when a check refuses for the budget;
- `budgeted_step`: the flag is set only when the limit was reached on the date of the daily total;
- `checks_follow_day_iff`: in which runs all checks follow the day;
- `denied_next_day`: a refusal that lasts into the next day.
-/

namespace Ironclaw.Agent

open Text Llm Run

/-! ## A check -/

section Check

/-- A limit in cents is reached by the whole cents of an amount exactly when it is reached by the amount. -/
theorem le_toCents_iff {usd : ℚ} (limitCents : Nat) (h : 0 ≤ usd) (hfit : usd * 100 < 2 ^ 64) :
    limitCents ≤ toCents usd ↔ (limitCents : ℚ) ≤ usd * 100 := by
  have hnonneg : 0 ≤ usd * 100 := by positivity
  have hfloor : 0 ≤ ⌊usd * 100⌋ := Int.floor_nonneg.mpr hnonneg
  have hlt : ⌊usd * 100⌋ < 2 ^ 64 := Int.floor_lt.mpr (by exact_mod_cast hfit)
  have hcents : toCents usd = ⌊usd * 100⌋.toNat := by
    simp only [toCents]
    rw [if_neg hnonneg.not_gt, if_pos ⟨hfloor, hlt⟩]
  rw [hcents, Int.le_toNat hfloor, Int.le_floor]
  norm_cast

/-- A check refuses for the budget of the day. -/
def DeniesBudget (guard : CostGuard) (now : Nat) : Prop :=
  ∃ spentCents limitCents, (guard.checkAllowed now).1 = .error (.dailyBudget spentCents limitCents)

/-- A check refuses for the budget when the flag is set, or the total has reached the limit. -/
theorem denies_iff (guard : CostGuard) (now : Nat) : DeniesBudget guard now ↔
    guard.budgetExceeded = true ∨ CostGuard.Reached guard.config.maxCostPerDayCents guard.dailyCost.total := by
  unfold DeniesBudget CostGuard.checkAllowed
  split
  next hflag => exact ⟨fun _ => .inl hflag, fun _ => ⟨_, _, rfl⟩⟩
  next hflag =>
    split
    next limitCents hlimit =>
      obtain ⟨hsome, hle⟩ := Option.filter_eq_some_iff.mp hlimit
      exact ⟨fun _ => .inr ⟨limitCents, hsome, of_decide_eq_true hle⟩, fun _ => ⟨_, _, rfl⟩⟩
    next hnone =>
      have hnot : ¬CostGuard.Reached guard.config.maxCostPerDayCents guard.dailyCost.total := by
        rintro ⟨limitCents, hsome, hle⟩
        exact Option.filter_eq_none_iff.mp hnone limitCents hsome (decide_eq_true hle)
      refine ⟨?_, fun h => (h.elim hflag hnot).elim⟩
      rintro ⟨spentCents, limitCents, h⟩
      split at h
      · cases h
      · simp only at h
        split at h <;> cases h

end Check

/-! ## What the checks are to follow -/

/-- The limit is reached by an amount. -/
def OverBudget (limit : Option Nat) (usd : ℚ) : Prop := ∃ limitCents ∈ limit, (limitCents : ℚ) ≤ usd * 100

instance (limit : Option Nat) (usd : ℚ) : Decidable (OverBudget limit usd) :=
  inferInstanceAs (Decidable (∃ limitCents ∈ limit, (limitCents : ℚ) ≤ usd * 100))

/-- A check refuses for the budget exactly when what was recorded on its date has reached the limit. -/
def FollowsDay (w : Ledger) : GuardStep → Prop
  | .check _ today now => DeniesBudget w.guard now ↔ OverBudget w.guard.config.maxCostPerDayCents (w.spent today)
  | _ => True

section Conditions

variable (cm : CaseMap)

/-- The clock does not go back, and where there is a limit no cost is negative and a day costs less than 2^64 cents. -/
def Priced (w : Ledger) : GuardStep → Prop
  | .record _ usage today _ => w.now ≤ today ∧ (w.guard.config.maxCostPerDayCents.isSome →
      0 ≤ callCost cm usage ∧ (w.spent today + callCost cm usage) * 100 < 2 ^ 64)
  | .chargeUser _ today | .check _ today _ => w.now ≤ today

/-- A check is made on the date of the daily total, or that total is below the limit; a limit of nothing is reached on
every day. -/
def OnDate (w : Ledger) : GuardStep → Prop
  | .check _ today _ => ∀ limitCents ∈ w.guard.config.maxCostPerDayCents,
      today = w.guard.dailyCost.resetDate ∨ limitCents = 0 ∨ w.guard.dailyCost.total * 100 < limitCents
  | _ => True

instance (w : Ledger) : ∀ l, Decidable (Priced cm w l)
  | .record _ usage today _ => inferInstanceAs (Decidable (w.now ≤ today ∧ (w.guard.config.maxCostPerDayCents.isSome →
      0 ≤ callCost cm usage ∧ (w.spent today + callCost cm usage) * 100 < 2 ^ 64)))
  | .chargeUser _ today | .check _ today _ => inferInstanceAs (Decidable (w.now ≤ today))

instance (w : Ledger) : ∀ l, Decidable (OnDate w l)
  | .check _ today _ => inferInstanceAs (Decidable (∀ limitCents ∈ w.guard.config.maxCostPerDayCents,
      today = w.guard.dailyCost.resetDate ∨ limitCents = 0 ∨ w.guard.dailyCost.total * 100 < limitCents))
  | .record .. | .chargeUser .. => isTrue trivial

end Conditions

/-! ## The flag -/

/-- The daily total is what was recorded on its date; without a limit the flag is not set, and with one the total has a
number of cents, and has reached the limit when the flag is set. -/
structure Budgeted (w : Ledger) : Prop extends Counted w where
  unlimited : w.guard.config.maxCostPerDayCents = none → w.guard.budgetExceeded = false
  within : ∀ limitCents ∈ w.guard.config.maxCostPerDayCents,
    0 ≤ w.guard.dailyCost.total ∧ w.guard.dailyCost.total * 100 < 2 ^ 64 ∧
      (w.guard.budgetExceeded = true → (limitCents : ℚ) ≤ w.guard.dailyCost.total * 100)

section Flag

variable {w : Ledger} {today : Nat}

/-- The flag tells nothing that the daily total does not. -/
theorem Budgeted.reached_iff (h : Budgeted w) :
    (w.guard.budgetExceeded = true ∨ CostGuard.Reached w.guard.config.maxCostPerDayCents w.guard.dailyCost.total) ↔
      OverBudget w.guard.config.maxCostPerDayCents w.guard.dailyCost.total := by
  constructor
  · rintro (hflag | ⟨limitCents, hlimit, hle⟩)
    · cases hlimit : w.guard.config.maxCostPerDayCents with
      | none =>
        rw [h.unlimited hlimit] at hflag
        cases hflag
      | some limitCents => exact ⟨limitCents, rfl, (h.within limitCents hlimit).2.2 hflag⟩
    · obtain ⟨hnonneg, hfit, -⟩ := h.within limitCents hlimit
      exact ⟨limitCents, hlimit, (le_toCents_iff limitCents hnonneg hfit).mp hle⟩
  · rintro ⟨limitCents, hlimit, hle⟩
    obtain ⟨hnonneg, hfit, -⟩ := h.within limitCents hlimit
    exact .inr ⟨limitCents, hlimit, (le_toCents_iff limitCents hnonneg hfit).mpr hle⟩

theorem budgeted_start (config : CostGuardConfig) (today : Nat) : Budgeted (Ledger.start config today) where
  toCounted := counted_start config today
  unlimited _ := rfl
  within _ _ := ⟨le_refl 0, by norm_num [Ledger.start, CostGuard.new], fun h => by cases h⟩

variable (cm : CaseMap)

theorem budgeted_record (h : Budgeted w) (htoday : w.now ≤ today) {usage : LlmUsage}
    (hcost : w.guard.config.maxCostPerDayCents.isSome →
      0 ≤ callCost cm usage ∧ (w.spent today + callCost cm usage) * 100 < 2 ^ 64) (userId : Str) (instant : Nat) :
    Budgeted (guardStep cm w (.record userId usage today instant)) := by
  have hcounted := counted_record cm h.toCounted htoday userId usage instant
  have hspend := h.dailySpend_eq htoday
  have hconfig : (guardStep cm w (.record userId usage today instant)).guard.config = w.guard.config :=
    config_roll w.guard today
  have htotal : (guardStep cm w (.record userId usage today instant)).guard.dailyCost.total =
      w.spent today + callCost cm usage := by
    show (w.guard.roll today).dailyCost.total + callCost cm usage = _
    rw [total_roll, hspend]
  have hflag : (guardStep cm w (.record userId usage today instant)).guard.budgetExceeded = true →
      CostGuard.Reached w.guard.config.maxCostPerDayCents (w.spent today + callCost cm usage) ∨
        w.guard.budgetExceeded = true ∧ today = w.guard.dailyCost.resetDate := by
    intro hset
    have hset' : (if CostGuard.Reached (w.guard.roll today).config.maxCostPerDayCents
        ((w.guard.roll today).dailyCost.total + callCost cm usage) then true
        else (w.guard.roll today).budgetExceeded) = true := hset
    rw [config_roll, total_roll, hspend] at hset'
    split at hset'
    next hreached => exact .inl hreached
    next => exact .inr (budgetExceeded_roll w.guard today hset')
  refine { toCounted := hcounted, unlimited := fun hnone => ?_, within := fun limitCents hlimit => ?_ }
  · rw [hconfig] at hnone
    refine Bool.eq_false_iff.mpr fun hset => ?_
    rcases hflag hset with ⟨limitCents, hlimit, -⟩ | ⟨hold, -⟩
    · rw [hnone] at hlimit
      cases hlimit
    · rw [h.unlimited hnone] at hold
      cases hold
  · rw [hconfig] at hlimit
    obtain ⟨hnonneg, hfit, hold⟩ := h.within limitCents hlimit
    obtain ⟨hpos, hlt⟩ := hcost (by rw [hlimit]; rfl)
    have hspent : 0 ≤ w.spent today := by
      rw [← hspend]
      unfold CostGuard.dailySpend DailyCost.on
      split
      · exact hnonneg
      · exact le_refl 0
    rw [htotal]
    refine ⟨add_nonneg hspent hpos, hlt, fun hset => ?_⟩
    rcases hflag hset with ⟨limitCents', hlimit', hle⟩ | ⟨hset, hdate⟩
    · obtain rfl : limitCents' = limitCents := Option.some.inj (hlimit'.symm.trans hlimit)
      exact (le_toCents_iff limitCents' (add_nonneg hspent hpos) hlt).mp hle
    · have htoday' : w.spent today = w.guard.dailyCost.total := by rw [h.total, hdate]
      have hle := hold hset
      rw [htoday']
      linarith

/-- A step that writes neither the daily total nor the flag, or sets the flag when the limit is reached. -/
theorem budgeted_frame {w' : Ledger} (h : Budgeted w) (hcounted : Counted w')
    (hdaily : w'.guard.dailyCost = w.guard.dailyCost) (hconfig : w'.guard.config = w.guard.config)
    (hflag : w'.guard.budgetExceeded = true → w.guard.budgetExceeded = true ∨
      CostGuard.Reached w.guard.config.maxCostPerDayCents w.guard.dailyCost.total) : Budgeted w' where
  toCounted := hcounted
  unlimited hnone := by
    rw [hconfig] at hnone
    refine Bool.eq_false_iff.mpr fun hset => ?_
    obtain ⟨limitCents, hlimit, -⟩ := h.reached_iff.mp (hflag hset)
    rw [hnone] at hlimit
    cases hlimit
  within limitCents hlimit := by
    rw [hconfig] at hlimit
    obtain ⟨hnonneg, hfit, -⟩ := h.within limitCents hlimit
    rw [hdaily]
    refine ⟨hnonneg, hfit, fun hset => ?_⟩
    obtain ⟨limitCents', hlimit', hle⟩ := h.reached_iff.mp (hflag hset)
    obtain rfl : limitCents' = limitCents := Option.some.inj (hlimit'.symm.trans hlimit)
    exact hle

/-- Every step keeps what the flag tells. -/
theorem budgeted_step (w : Ledger) (l : GuardStep) (hl : Priced cm w l) (h : Budgeted w) :
    Budgeted (guardStep cm w l) := by
  cases l with
  | record userId usage today instant => exact budgeted_record cm h hl.1 hl.2 userId instant
  | chargeUser i today =>
    have hcounted := counted_step cm w (.chargeUser i today) hl h.toCounted
    obtain ⟨table, due, hstep⟩ := charge_frame cm w i today
    rw [hstep] at hcounted ⊢
    exact budgeted_frame h hcounted rfl rfl .inl
  | check userId today now =>
    have hcounted := counted_step cm w (.check userId today now) hl h.toCounted
    obtain ⟨exceeded, window, hflag, hstep⟩ := check_frame cm w userId today now
    rw [hstep] at hcounted ⊢
    exact budgeted_frame h hcounted rfl rfl hflag.mp

/-- At a check: it follows the day exactly when it is made on the date of the daily total, or that total is below the
limit. -/
theorem followsDay_iff (w : Ledger) (l : GuardStep) (hl : Priced cm w l) (h : Budgeted w) :
    FollowsDay w l ↔ OnDate w l := by
  cases l with
  | record userId usage today instant => exact Iff.rfl
  | chargeUser i today => exact Iff.rfl
  | check userId today now =>
    have hnow : w.now ≤ today := hl
    show (DeniesBudget w.guard now ↔ OverBudget w.guard.config.maxCostPerDayCents (w.spent today)) ↔ _
    rw [denies_iff, h.reached_iff]
    rcases h.date_cases hnow with hdate | hlt
    · rw [← hdate, ← h.total]
      exact ⟨fun _ _ _ => .inl rfl, fun _ => Iff.rfl⟩
    · rw [h.spent_later hlt]
      constructor
      · intro hsame limitCents hlimit
        by_cases hle : (limitCents : ℚ) ≤ w.guard.dailyCost.total * 100
        · obtain ⟨limitCents', hlimit', hzero⟩ := hsame.mp ⟨limitCents, hlimit, hle⟩
          obtain rfl : limitCents' = limitCents := Option.some.inj (hlimit'.symm.trans hlimit)
          rw [zero_mul] at hzero
          exact .inr (.inl (Nat.le_zero.mp (by exact_mod_cast hzero)))
        · exact .inr (.inr (not_le.mp hle))
      · intro hdates
        constructor
        · rintro ⟨limitCents, hlimit, hle⟩
          rcases hdates limitCents hlimit with hsame | hzero | hbelow
          · exact absurd hsame hlt.ne'
          · exact ⟨limitCents, hlimit, by rw [hzero, Nat.cast_zero, zero_mul]⟩
          · exact absurd hle (not_le.mpr hbelow)
        · rintro ⟨limitCents, hlimit, hle⟩
          rw [zero_mul] at hle
          exact ⟨limitCents, hlimit, hle.trans (mul_nonneg (h.within limitCents hlimit).1 (by norm_num))⟩

end Flag

/-! ## Every run -/

/-- In every run of recorded costs, none of them negative or too large, and of checks, with a clock that does not go
back: all checks refuse for the budget exactly when what was recorded on their own date has reached the limit, if and
only if each is made on the date of the daily total, or finds it below the limit. -/
theorem checks_follow_day_iff (cm : CaseMap) (config : CostGuardConfig) (startDate : Nat) (ls : List GuardStep)
    (h : Along (guardStep cm) (Priced cm) (Ledger.start config startDate) ls) :
    Along (guardStep cm) FollowsDay (Ledger.start config startDate) ls ↔
      Along (guardStep cm) OnDate (Ledger.start config startDate) ls :=
  along_congr (budgeted_step cm) (followsDay_iff cm) ls (budgeted_start config startDate) h

/-- A limit of a dollar, which a call reaches, and a check on the same day. -/
theorem checks_follow_day_iff_sameDay :
    Along (guardStep asciiCase) FollowsDay (Ledger.start ⟨some 100, none, none⟩ 0)
      [.check none 0 0, .record "a".toList oneDollar 0 0, .check none 0 1] :=
  (checks_follow_day_iff asciiCase ⟨some 100, none, none⟩ 0
    [.check none 0 0, .record "a".toList oneDollar 0 0, .check none 0 1] (by decide +kernel)).mpr (by decide +kernel)

/-- A refusal that lasts into the next day, on which nothing was recorded. -/
theorem denied_next_day :
    let w := run (guardStep asciiCase) (Ledger.start ⟨some 100, none, none⟩ 0) [.record "a".toList oneDollar 0 0]
    DeniesBudget w.guard 1 ∧ w.spent 1 = 0 ∧ ¬OverBudget w.guard.config.maxCostPerDayCents (w.spent 1) ∧
      ¬FollowsDay w (.check none 1 1) := by
  have hdenies : DeniesBudget (run (guardStep asciiCase) (Ledger.start ⟨some 100, none, none⟩ 0)
      [.record "a".toList oneDollar 0 0]).guard 1 := (denies_iff _ 1).mpr (by decide +kernel)
  have hover : ¬OverBudget (run (guardStep asciiCase) (Ledger.start ⟨some 100, none, none⟩ 0)
      [.record "a".toList oneDollar 0 0]).guard.config.maxCostPerDayCents
      (Ledger.spent (run (guardStep asciiCase) (Ledger.start ⟨some 100, none, none⟩ 0)
        [.record "a".toList oneDollar 0 0]) 1) := by decide +kernel
  exact ⟨hdenies, by decide +kernel, hover, fun hfollows => hover (hfollows.mp hdenies)⟩

/-- Once a check refuses for the budget, all later ones do, on whatever dates they are made, until a cost is
recorded. -/
theorem denies_until_record (cm : CaseMap) : ∀ (checks : List (Option Str × Nat × Nat)) (w : Ledger) (now now' : Nat),
    DeniesBudget w.guard now →
      DeniesBudget (run (guardStep cm) w (checks.map fun c => .check c.1 c.2.1 c.2.2)).guard now'
  | [], w, now, now', h => (denies_iff w.guard now').mpr ((denies_iff w.guard now).mp h)
  | c :: checks, w, now, now', h => by
    rw [List.map_cons, run_cons]
    obtain ⟨exceeded, window, hflag, hstep⟩ := check_frame cm w c.1 c.2.1 c.2.2
    refine denies_until_record cm checks _ now now' ((denies_iff _ now).mpr (.inl ?_))
    rw [hstep]
    exact hflag.mpr ((denies_iff w.guard now).mp h)

end Ironclaw.Agent

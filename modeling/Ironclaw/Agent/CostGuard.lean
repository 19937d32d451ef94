import Ironclaw.Lib.Run
import Ironclaw.Lib.Table
import Ironclaw.Llm.Costs

/-!
# The cost guard

`CostGuard` adds up what the calls of language models cost, for the current day and for each user, and is asked before a
call whether it is allowed. Each of the two totals has a date of its own and starts afresh when it is written on another
date. A call is recorded under the lock of the daily total first and then, with the clock read again, under the lock of
the totals of the users; other steps may come between (`Ledger`, `GuardStep`).

- `userSpend_roll`, `userSpend_chargeUser`: what a write does to the spend of the users;
- `steps_of_call`: a call for a user is two steps;
- `counted_step`, `balanced_step`: the daily total is what was recorded on its date, and what the users have spent or
  are still to be charged;
- `spend_conserved`: the totals in every run in which the clock stays on one date for each call;
- `straddled`: a call that begins on one day and ends on the next is only in one of the two totals.

The warnings are left out.
-/

namespace Ironclaw.Agent

open Text Llm Run

/-- The configuration; the limits have 64 bits. -/
structure CostGuardConfig where
  maxCostPerDayCents : Option Nat
  maxActionsPerHour : Option Nat
  maxCostPerUserPerDayCents : Option Nat
  deriving DecidableEq

inductive CostLimitExceeded
  | dailyBudget (spentCents limitCents : Nat)
  | hourlyRate (actions limit : Nat)
  | userDailyBudget (userId : Str) (spentCents limitCents : Nat)
  deriving DecidableEq

structure ModelTokens where
  inputTokens : Nat
  outputTokens : Nat
  cost : ℚ
  deriving DecidableEq

/-- A total in dollars, and the date that it is for; dates are numbers of days. -/
structure DailyCost where
  total : ℚ
  resetDate : Nat
  deriving DecidableEq

structure CostGuard where
  config : CostGuardConfig
  dailyCost : DailyCost
  /-- The instants of the actions, in nanoseconds, the oldest first. -/
  actionWindow : List Nat
  budgetExceeded : Bool
  modelTokens : Table Str ModelTokens
  perUserDailyCost : Table Str DailyCost

/-- `to_cents`: the whole cents, where they are a number of 64 bits. -/
def toCents (usd : ℚ) : Nat :=
  let cents := if usd * 100 < 0 then ⌈usd * 100⌉ else ⌊usd * 100⌋
  if 0 ≤ cents ∧ cents < 2 ^ 64 then cents.toNat else 0

/-- An hour in nanoseconds. -/
def HOUR : Nat := 3600 * 10 ^ 9

/-- The instants of the last hour; there is no time before the first instant. -/
def drainExpired (window : List Nat) (now : Nat) : List Nat :=
  if HOUR ≤ now then window.dropWhile fun t => t < now - HOUR else window

/-- The amount of a total on a date. -/
def DailyCost.on (entry : DailyCost) (today : Nat) : ℚ := if entry.resetDate = today then entry.total else 0

/-- A total with a cost written on a date: it starts afresh when the date is another one. -/
def DailyCost.add (entry : DailyCost) (cost : ℚ) (today : Nat) : DailyCost :=
  if today ≠ entry.resetDate then ⟨0 + cost, today⟩ else ⟨entry.total + cost, entry.resetDate⟩

namespace CostGuard

def new (config : CostGuardConfig) (today : Nat) : CostGuard := ⟨config, ⟨0, today⟩, [], false, ∅, ∅⟩

variable (cm : CaseMap) (guard : CostGuard)

/-- The limit of the day is reached by an amount. -/
def Reached (limit : Option Nat) (usd : ℚ) : Prop := ∃ limitCents ∈ limit, limitCents ≤ toCents usd

instance (limit : Option Nat) (usd : ℚ) : Decidable (Reached limit usd) :=
  inferInstanceAs (Decidable (∃ limitCents ∈ limit, limitCents ≤ toCents usd))

def checkAllowed (now : Nat) : Except CostLimitExceeded Unit × CostGuard :=
  if guard.budgetExceeded then
    (.error (.dailyBudget (toCents guard.dailyCost.total) (guard.config.maxCostPerDayCents.getD 0)), guard)
  else
    match guard.config.maxCostPerDayCents.filter fun limitCents => limitCents ≤ toCents guard.dailyCost.total with
    | some limitCents =>
      (.error (.dailyBudget (toCents guard.dailyCost.total) limitCents), { guard with budgetExceeded := true })
    | none =>
      match guard.config.maxActionsPerHour with
      | none => (.ok (), guard)
      | some limit =>
        let window := drainExpired guard.actionWindow now
        if limit ≤ window.length then (.error (.hourlyRate window.length limit), { guard with actionWindow := window })
        else (.ok (), { guard with actionWindow := window })

def checkAllowedForUser (userId : Str) (today now : Nat) : Except CostLimitExceeded Unit × CostGuard :=
  match guard.checkAllowed now with
  | (.error e, guard) => (.error e, guard)
  | (.ok (), guard) =>
    match guard.config.maxCostPerUserPerDayCents, guard.perUserDailyCost.lookup userId with
    | some limitCents, some entry =>
      if entry.resetDate = today ∧ limitCents ≤ toCents entry.total then
        (.error (.userDailyBudget userId (toCents entry.total) limitCents), guard)
      else (.ok (), guard)
    | _, _ => (.ok (), guard)

/-- The start of a new day, under the lock of the daily total: the entries of other days are pruned. -/
def roll (today : Nat) : CostGuard :=
  if today ≠ guard.dailyCost.resetDate then
    { guard with
      dailyCost := ⟨0, today⟩
      budgetExceeded := false
      perUserDailyCost := Table.retain (fun _ entry => entry.resetDate = today) guard.perUserDailyCost }
  else guard

/-- A cost is added to the daily total. -/
def charge (cost : ℚ) : CostGuard :=
  let total := guard.dailyCost.total + cost
  { guard with
    dailyCost := { guard.dailyCost with total := total }
    budgetExceeded := if Reached guard.config.maxCostPerDayCents total then true else guard.budgetExceeded }

/-- `record_llm_call`, at a date and an instant. -/
def recordLlmCall (usage : LlmUsage) (today instant : Nat) : ℚ × CostGuard :=
  let cost := callCost cm usage
  let guard := (guard.roll today).charge cost
  let tokens := (guard.modelTokens.lookup usage.model).getD ⟨0, 0, 0⟩
  (cost,
    { guard with
      actionWindow := guard.actionWindow ++ [instant]
      modelTokens := guard.modelTokens.insert usage.model
        ⟨tokens.inputTokens + usage.inputTokens, tokens.outputTokens + usage.outputTokens, tokens.cost + cost⟩ })

/-- A cost is added to the total of a user, with the clock read anew. -/
def chargeUser (userId : Str) (cost : ℚ) (today : Nat) : CostGuard :=
  let entry := (guard.perUserDailyCost.lookup userId).getD ⟨0, today⟩
  { guard with perUserDailyCost := guard.perUserDailyCost.insert userId (entry.add cost today) }

/-- `record_llm_call_for_user`: the clock shows one date for the call and another for the user, if the day ends
between. -/
def recordLlmCallForUser (userId : Str) (usage : LlmUsage) (today userToday instant : Nat) : ℚ × CostGuard :=
  let (cost, guard) := guard.recordLlmCall cm usage today instant
  (cost, guard.chargeUser userId cost userToday)

def dailySpend (today : Nat) : ℚ := guard.dailyCost.on today

def dailySpendForUser (userId : Str) (today : Nat) : ℚ :=
  (guard.perUserDailyCost.lookup userId).elim 0 fun entry => entry.on today

/-- What the users have spent on a date, added up over the users that have an entry. -/
def userSpend (today : Nat) : ℚ :=
  (guard.perUserDailyCost.keys.map fun userId => guard.dailySpendForUser userId today).sum

end CostGuard

/-! ## Runs -/

/-- A cost that was recorded and that its user is still to be charged, and the date on which it was recorded. -/
structure Due where
  userId : Str
  cost : ℚ
  date : Nat

/-- The guard, with the calls that are between their two locks, the costs that were recorded, with their dates, and the
date of the last step. -/
structure Ledger where
  guard : CostGuard
  due : List Due
  recorded : List (Nat × ℚ)
  now : Nat

namespace Ledger

def start (config : CostGuardConfig) (today : Nat) : Ledger := ⟨CostGuard.new config today, [], [], today⟩

/-- What was recorded on a date. -/
def spent (w : Ledger) (today : Nat) : ℚ := (w.recorded.map fun r => if r.1 = today then r.2 else 0).sum

/-- What was recorded on a date and not charged yet. -/
def dueOn (w : Ledger) (today : Nat) : ℚ := (w.due.map fun d => if d.date = today then d.cost else 0).sum

end Ledger

/-- A step under the locks: the first part of a call for a user, the second part of the `i`-th of the calls under way,
or a check, for a user or for none; with the date and the instant that the clock shows. -/
inductive GuardStep
  | record (userId : Str) (usage : LlmUsage) (today instant : Nat)
  | chargeUser (i : Nat) (today : Nat)
  | check (userId : Option Str) (today now : Nat)

def GuardStep.today : GuardStep → Nat
  | .record _ _ today _ => today
  | .chargeUser _ today => today
  | .check _ today _ => today

section Steps

variable (cm : CaseMap)

def guardStep (w : Ledger) : GuardStep → Ledger
  | .record userId usage today instant =>
    let (cost, guard) := w.guard.recordLlmCall cm usage today instant
    ⟨guard, w.due ++ [⟨userId, cost, today⟩], w.recorded ++ [(today, cost)], today⟩
  | .chargeUser i today =>
    match w.due[i]? with
    | none => { w with now := today }
    | some d => ⟨w.guard.chargeUser d.userId d.cost today, w.due.eraseIdx i, w.recorded, today⟩
  | .check userId today now =>
    let guard := match userId with
      | none => (w.guard.checkAllowed now).2
      | some userId => (w.guard.checkAllowedForUser userId today now).2
    { w with guard := guard, now := today }

/-- The steps of `record_llm_call_for_user`, from a state on. -/
def callSteps (w : Ledger) (userId : Str) (usage : LlmUsage) (today userToday instant : Nat) : List GuardStep :=
  [.record userId usage today instant, .chargeUser w.due.length userToday]

/-- A call for a user is two steps. -/
theorem steps_of_call (w : Ledger) (userId : Str) (usage : LlmUsage) (today userToday instant : Nat) :
    run (guardStep cm) w (callSteps w userId usage today userToday instant) =
      { guard := (w.guard.recordLlmCallForUser cm userId usage today userToday instant).2
        due := w.due
        recorded := w.recorded ++ [(today, callCost cm usage)]
        now := userToday } := by
  simp only [callSteps, run_cons, run_nil, guardStep, List.getElem?_concat_length]
  rw [List.eraseIdx_append_of_length_le (Nat.le_refl w.due.length), Nat.sub_self]
  simp [CostGuard.recordLlmCallForUser, CostGuard.recordLlmCall]

end Steps

/-! ## The spend of the users -/

section UserSpend

variable (guard : CostGuard) (today : Nat)

theorem on_add (entry : DailyCost) (cost : ℚ) : (entry.add cost today).on today = entry.on today + cost := by
  unfold DailyCost.add DailyCost.on
  by_cases h : today = entry.resetDate
  · rw [if_neg (not_not.mpr h), if_pos h.symm, if_pos h.symm]
  · rw [if_pos h, if_pos rfl, if_neg (Ne.symm h)]

theorem userSpend_eq : guard.userSpend today = Table.sum (fun _ entry => entry.on today) guard.perUserDailyCost :=
  Table.sum_keys (fun _ (entry : DailyCost) => entry.on today) guard.perUserDailyCost

/-- What is written for a user is added to the spend of the users. -/
theorem userSpend_chargeUser (userId : Str) (cost : ℚ) :
    (guard.chargeUser userId cost today).userSpend today = guard.userSpend today + cost := by
  rw [userSpend_eq, userSpend_eq]
  unfold CostGuard.chargeUser
  rw [Table.sum_insert, on_add]
  cases hlookup : guard.perUserDailyCost.lookup userId with
  | none =>
    have hzero : DailyCost.on ⟨0, today⟩ today = 0 := if_pos rfl
    rw [Option.getD_none, hzero, Table.erase_of_not_mem _ (AList.lookup_eq_none.mp hlookup), zero_add, add_comm]
  | some entry =>
    rw [Option.getD_some, Table.sum_of_lookup _ _ _ hlookup, add_right_comm]

/-- What is pruned was not of the day. -/
theorem userSpend_roll : (guard.roll today).userSpend today = guard.userSpend today := by
  rw [userSpend_eq, userSpend_eq]
  unfold CostGuard.roll
  split
  · rw [Table.sum_retain]
    refine congrArg (fun f => Table.sum f guard.perUserDailyCost) (funext fun _ => funext fun entry => ?_)
    unfold DailyCost.on
    by_cases h : entry.resetDate = today
    · rw [if_pos (decide_eq_true h)]
    · rw [if_neg h, ite_self]
  · rfl

theorem userSpend_eq_zero
    (h : ∀ userId entry, guard.perUserDailyCost.lookup userId = some entry → entry.resetDate ≠ today) :
    guard.userSpend today = 0 := by
  rw [userSpend_eq]
  exact Table.sum_eq_zero _ _ fun userId entry hentry => if_neg (h userId entry hentry)

end UserSpend

/-! ## The daily total -/

section Daily

variable (guard : CostGuard) (today : Nat)

theorem resetDate_roll : (guard.roll today).dailyCost.resetDate = today := by
  unfold CostGuard.roll
  split
  next => rfl
  next h => exact (not_not.mp h).symm

theorem config_roll : (guard.roll today).config = guard.config := by
  unfold CostGuard.roll
  split <;> rfl

/-- On the date of the daily total the flag is kept, on another one it is set back. -/
theorem budgetExceeded_roll (h : (guard.roll today).budgetExceeded = true) :
    guard.budgetExceeded = true ∧ today = guard.dailyCost.resetDate := by
  unfold CostGuard.roll at h
  split at h
  next => cases h
  next hdate => exact ⟨h, not_not.mp hdate⟩

theorem total_roll : (guard.roll today).dailyCost.total = guard.dailySpend today := by
  unfold CostGuard.roll CostGuard.dailySpend DailyCost.on
  split
  next h => rw [if_neg (Ne.symm h)]
  next h => rw [if_pos (not_not.mp h).symm]

/-- An entry that is left on a new day was there before. -/
theorem lookup_of_roll {userId : Str} {entry : DailyCost}
    (h : (guard.roll today).perUserDailyCost.lookup userId = some entry) :
    guard.perUserDailyCost.lookup userId = some entry := by
  unfold CostGuard.roll at h
  split at h
  · rw [Table.lookup_retain] at h
    exact (Option.filter_eq_some_iff.mp h).1
  · exact h

/-- A check changes the flag and the window of the actions; the flag is set when it was, or when the limit is
reached. -/
theorem eq_of_checkAllowed (now : Nat) : ∃ exceeded window,
    (exceeded = true ↔
      guard.budgetExceeded = true ∨ CostGuard.Reached guard.config.maxCostPerDayCents guard.dailyCost.total) ∧
    (guard.checkAllowed now).2 = { guard with budgetExceeded := exceeded, actionWindow := window } := by
  unfold CostGuard.checkAllowed
  split
  next hflag => exact ⟨true, guard.actionWindow, ⟨fun _ => .inl hflag, fun _ => rfl⟩, by rw [← hflag]⟩
  next hflag =>
    split
    next limitCents hlimit =>
      obtain ⟨hsome, hle⟩ := Option.filter_eq_some_iff.mp hlimit
      exact ⟨true, guard.actionWindow, ⟨fun _ => .inr ⟨limitCents, hsome, of_decide_eq_true hle⟩, fun _ => rfl⟩, rfl⟩
    next hnone =>
      have hflags : guard.budgetExceeded = true ↔
          guard.budgetExceeded = true ∨ CostGuard.Reached guard.config.maxCostPerDayCents guard.dailyCost.total := by
        refine ⟨.inl, fun h => h.resolve_right ?_⟩
        rintro ⟨limitCents, hsome, hle⟩
        exact Option.filter_eq_none_iff.mp hnone limitCents hsome (decide_eq_true hle)
      split
      · exact ⟨guard.budgetExceeded, guard.actionWindow, hflags, rfl⟩
      · simp only
        split <;> exact ⟨guard.budgetExceeded, _, hflags, rfl⟩

/-- A check for a user leaves what the check for all leaves. -/
theorem checkAllowedForUser_snd (userId : Str) (now : Nat) :
    (guard.checkAllowedForUser userId today now).2 = (guard.checkAllowed now).2 := by
  unfold CostGuard.checkAllowedForUser
  split
  next e guard' h => rw [h]
  next guard' h =>
    rw [h]
    split
    · split <;> rfl
    · rfl

end Daily

/-! ## The totals agree -/

/-- The clock does not go back, and a call is charged to its user on the date on which it was recorded. -/
def OneDate (w : Ledger) : GuardStep → Prop
  | .chargeUser i today => w.now ≤ today ∧ ∀ d ∈ w.due[i]?, d.date = today
  | .record _ _ today _ | .check _ today _ => w.now ≤ today

instance (w : Ledger) : ∀ l, Decidable (OneDate w l)
  | .chargeUser i today => inferInstanceAs (Decidable (w.now ≤ today ∧ ∀ d ∈ w.due[i]?, d.date = today))
  | .record _ _ today _ | .check _ today _ => inferInstanceAs (Decidable (w.now ≤ today))

/-- Nothing was recorded after the date of the daily total, which is what was recorded on its date. -/
structure Counted (w : Ledger) : Prop where
  reset_le : w.guard.dailyCost.resetDate ≤ w.now
  recorded_le : ∀ r ∈ w.recorded, r.1 ≤ w.guard.dailyCost.resetDate
  total : w.guard.dailyCost.total = w.spent w.guard.dailyCost.resetDate

/-- The entries of the users and the calls under way are not from a later date either, and the daily total is what the
users have spent on its date or are still to be charged. -/
structure Balanced (w : Ledger) : Prop extends Counted w where
  entries_le : ∀ userId entry, w.guard.perUserDailyCost.lookup userId = some entry →
    entry.resetDate ≤ w.guard.dailyCost.resetDate
  due_le : ∀ d ∈ w.due, d.date ≤ w.guard.dailyCost.resetDate
  users : w.guard.dailyCost.total =
    w.guard.userSpend w.guard.dailyCost.resetDate + w.dueOn w.guard.dailyCost.resetDate

section Sums

variable {w : Ledger} {today : Nat}

theorem spent_record (w : Ledger) (guard : CostGuard) (due : List Due) (cost : ℚ) (today : Nat) :
    Ledger.spent ⟨guard, due, w.recorded ++ [(today, cost)], today⟩ today = w.spent today + cost := by
  simp [Ledger.spent]

theorem dueOn_record (w : Ledger) (guard : CostGuard) (recorded : List (Nat × ℚ)) (userId : Str) (cost : ℚ)
    (today : Nat) : Ledger.dueOn ⟨guard, w.due ++ [⟨userId, cost, today⟩], recorded, today⟩ today =
      w.dueOn today + cost := by
  simp [Ledger.dueOn]

/-- A cost that is due is one part of what is due on its date. -/
theorem dueOn_eraseIdx {i : Nat} {d : Due} (h : w.due[i]? = some d) (hdate : d.date = today) (guard : CostGuard)
    (now : Nat) : w.dueOn today = d.cost + Ledger.dueOn ⟨guard, w.due.eraseIdx i, w.recorded, now⟩ today := by
  obtain ⟨hlt, rfl⟩ := List.getElem?_eq_some_iff.mp h
  have hperm := (List.getElem_cons_eraseIdx_perm hlt).symm.map fun d => if d.date = today then d.cost else 0
  unfold Ledger.dueOn
  rw [hperm.sum_eq, List.map_cons, List.sum_cons, if_pos hdate]

theorem spent_eq_zero (h : ∀ r ∈ w.recorded, r.1 ≠ today) : w.spent today = 0 := by
  refine List.sum_eq_zero fun x hx => ?_
  obtain ⟨r, hr, rfl⟩ := List.mem_map.mp hx
  exact if_neg (h r hr)

theorem dueOn_eq_zero (h : ∀ d ∈ w.due, d.date ≠ today) : w.dueOn today = 0 := by
  refine List.sum_eq_zero fun x hx => ?_
  obtain ⟨d, hd, rfl⟩ := List.mem_map.mp hx
  exact if_neg (h d hd)

/-- After the date of the daily total nothing was recorded. -/
theorem Counted.spent_later (h : Counted w) (hlt : w.guard.dailyCost.resetDate < today) : w.spent today = 0 :=
  spent_eq_zero fun r hr => ((h.recorded_le r hr).trans_lt hlt).ne

/-- The date of the last step, or a later one, is the date of the daily total or is later. -/
theorem Counted.date_cases (h : Counted w) (htoday : w.now ≤ today) :
    w.guard.dailyCost.resetDate = today ∨ w.guard.dailyCost.resetDate < today :=
  eq_or_lt_of_le (h.reset_le.trans htoday)

/-- The daily spend, on the date of the last step or later. -/
theorem Counted.dailySpend_eq (h : Counted w) (htoday : w.now ≤ today) : w.guard.dailySpend today = w.spent today := by
  unfold CostGuard.dailySpend DailyCost.on
  rcases h.date_cases htoday with hdate | hlt
  · rw [if_pos hdate, ← hdate]
    exact h.total
  · rw [if_neg hlt.ne, h.spent_later hlt]

theorem Balanced.dailySpend_eq_users (h : Balanced w) (htoday : w.now ≤ today) :
    w.guard.dailySpend today = w.guard.userSpend today + w.dueOn today := by
  unfold CostGuard.dailySpend DailyCost.on
  rcases h.date_cases htoday with hdate | hlt
  · rw [if_pos hdate, ← hdate]
    exact h.users
  · rw [if_neg hlt.ne, dueOn_eq_zero fun d hd => ((h.due_le d hd).trans_lt hlt).ne,
      userSpend_eq_zero _ _ fun userId entry hentry => ((h.entries_le userId entry hentry).trans_lt hlt).ne]
    exact (add_zero 0).symm

end Sums

/-! ## Steps keep the balance -/

section Balance

variable (cm : CaseMap) {w : Ledger} {today : Nat}

theorem counted_start (config : CostGuardConfig) (today : Nat) : Counted (Ledger.start config today) where
  reset_le := Nat.le_refl today
  recorded_le _ h := by cases h
  total := rfl

theorem balanced_start (config : CostGuardConfig) (today : Nat) : Balanced (Ledger.start config today) where
  toCounted := counted_start config today
  entries_le _ _ h := by cases h
  due_le _ h := by cases h
  users := (add_zero 0).symm

theorem counted_record (h : Counted w) (htoday : w.now ≤ today) (userId : Str) (usage : LlmUsage) (instant : Nat) :
    Counted (guardStep cm w (.record userId usage today instant)) := by
  have hdate := resetDate_roll w.guard today
  exact
    { reset_le := hdate.le
      recorded_le := fun r hr => by
        rcases List.mem_append.mp hr with hr | hr
        · exact ((h.recorded_le r hr).trans (h.reset_le.trans htoday)).trans hdate.ge
        · rw [List.mem_singleton.mp hr]
          exact hdate.ge
      total := by
        show (w.guard.roll today).dailyCost.total + callCost cm usage =
          Ledger.spent ⟨_, _, w.recorded ++ [(today, callCost cm usage)],
            today⟩ (w.guard.roll today).dailyCost.resetDate
        rw [hdate, total_roll, h.dailySpend_eq htoday, spent_record] }

/-- A step that writes neither the daily total nor what was recorded. -/
theorem counted_frame {w' : Ledger} (h : Counted w) (hdaily : w'.guard.dailyCost = w.guard.dailyCost)
    (hrecorded : w'.recorded = w.recorded) (hnow : w.now ≤ w'.now) : Counted w' where
  reset_le := by
    rw [hdaily]
    exact h.reset_le.trans hnow
  recorded_le := by
    rw [hdaily, hrecorded]
    exact h.recorded_le
  total := by
    rw [hdaily, h.total]
    unfold Ledger.spent
    rw [hrecorded]

/-- A check changes the flag and the window of the actions. -/
theorem check_frame (w : Ledger) (userId : Option Str) (today now : Nat) : ∃ exceeded window,
    (exceeded = true ↔ w.guard.budgetExceeded = true ∨
      CostGuard.Reached w.guard.config.maxCostPerDayCents w.guard.dailyCost.total) ∧
    guardStep cm w (.check userId today now) =
      { w with guard := { w.guard with budgetExceeded := exceeded, actionWindow := window }, now := today } := by
  obtain ⟨exceeded, window, hflag, hcheck⟩ := eq_of_checkAllowed w.guard now
  refine ⟨exceeded, window, hflag, ?_⟩
  cases userId with
  | none => simp only [guardStep, hcheck]
  | some userId => simp only [guardStep, checkAllowedForUser_snd, hcheck]

/-- A charge changes the totals of the users and what is due. -/
theorem charge_frame (w : Ledger) (i today : Nat) : ∃ table due,
    guardStep cm w (.chargeUser i today) =
      ⟨{ w.guard with perUserDailyCost := table }, due, w.recorded, today⟩ := by
  cases hd : w.due[i]? with
  | none => exact ⟨w.guard.perUserDailyCost, w.due, by simp only [guardStep, hd]⟩
  | some d =>
    refine ⟨(w.guard.chargeUser d.userId d.cost today).perUserDailyCost, w.due.eraseIdx i, ?_⟩
    simp only [guardStep, hd, CostGuard.chargeUser]

/-- The daily total is kept by every step at which the clock does not go back. -/
theorem counted_step (w : Ledger) (l : GuardStep) (hl : w.now ≤ l.today) (h : Counted w) :
    Counted (guardStep cm w l) := by
  cases l with
  | record userId usage today instant => exact counted_record cm h hl userId usage instant
  | chargeUser i today =>
    obtain ⟨table, due, hstep⟩ := charge_frame cm w i today
    rw [hstep]
    exact counted_frame h rfl rfl hl
  | check userId today now =>
    obtain ⟨exceeded, window, -, hstep⟩ := check_frame cm w userId today now
    rw [hstep]
    exact counted_frame h rfl rfl hl

/-- A cost is recorded: the daily total and what is due grow by it. -/
theorem balanced_record (h : Balanced w) (htoday : w.now ≤ today) (userId : Str) (usage : LlmUsage) (instant : Nat) :
    Balanced (guardStep cm w (.record userId usage today instant)) := by
  have hreset : w.guard.dailyCost.resetDate ≤ today := h.reset_le.trans htoday
  have hdate := resetDate_roll w.guard today
  exact
    { toCounted := counted_record cm h.toCounted htoday userId usage instant
      entries_le := fun userId' entry hentry =>
        ((h.entries_le userId' entry (lookup_of_roll w.guard today hentry)).trans hreset).trans hdate.ge
      due_le := fun d hd => by
        rcases List.mem_append.mp hd with hd | hd
        · exact ((h.due_le d hd).trans hreset).trans hdate.ge
        · rw [List.mem_singleton.mp hd]
          exact hdate.ge
      users := by
        show (w.guard.roll today).dailyCost.total + callCost cm usage =
          (w.guard.roll today).userSpend (w.guard.roll today).dailyCost.resetDate +
            Ledger.dueOn ⟨_, w.due ++ [⟨userId, callCost cm usage, today⟩], _,
              today⟩ (w.guard.roll today).dailyCost.resetDate
        rw [hdate, total_roll, h.dailySpend_eq_users htoday, userSpend_roll, dueOn_record, add_assoc] }

/-- A cost is charged to its user: it is due no more. -/
theorem balanced_chargeUser (h : Balanced w) (htoday : w.now ≤ today) {i : Nat} {d : Due} (hd : w.due[i]? = some d)
    (hdate : d.date = today) : Balanced (guardStep cm w (.chargeUser i today)) := by
  -- a call that is charged today was recorded today, so that the daily total is for today
  have hreset : w.guard.dailyCost.resetDate = today :=
    Nat.le_antisymm (h.reset_le.trans htoday) (hdate ▸ h.due_le d (List.mem_of_getElem? hd))
  have hstep : guardStep cm w (.chargeUser i today) =
      ⟨w.guard.chargeUser d.userId d.cost today, w.due.eraseIdx i, w.recorded, today⟩ := by
    simp only [guardStep, hd]
  rw [hstep]
  exact
    { toCounted := counted_frame h.toCounted rfl rfl htoday
      entries_le := fun userId entry hentry => by
        show entry.resetDate ≤ w.guard.dailyCost.resetDate
        simp only [CostGuard.chargeUser, Table.lookup_insert] at hentry
        split at hentry
        · cases hentry
          unfold DailyCost.add
          split
          · exact hreset.ge
          next heq => exact (not_not.mp heq).symm.trans_le hreset.ge
        · exact h.entries_le userId entry hentry
      due_le := fun d' hd' => h.due_le d' ((List.eraseIdx_sublist w.due i).subset hd')
      users := by
        show w.guard.dailyCost.total =
          (w.guard.chargeUser d.userId d.cost today).userSpend w.guard.dailyCost.resetDate +
            Ledger.dueOn ⟨_, w.due.eraseIdx i, w.recorded, today⟩ w.guard.dailyCost.resetDate
        have husers := h.users
        rw [hreset] at husers ⊢
        rw [husers, dueOn_eraseIdx hd hdate _ today, userSpend_chargeUser, add_assoc] }

/-- What writes no total, and charges nothing, keeps the balance. -/
theorem balanced_frame (h : Balanced w) (htoday : w.now ≤ today) (exceeded : Bool) (window : List Nat) :
    Balanced { w with guard := { w.guard with budgetExceeded := exceeded, actionWindow := window }, now := today } where
  toCounted := counted_frame h.toCounted rfl rfl htoday
  entries_le := h.entries_le
  due_le := h.due_le
  users := h.users

/-- Every step keeps the balance. -/
theorem balanced_step (w : Ledger) (l : GuardStep) (hl : OneDate w l) (h : Balanced w) :
    Balanced (guardStep cm w l) := by
  cases l with
  | record userId usage today instant => exact balanced_record cm h hl userId usage instant
  | chargeUser i today =>
    cases hd : w.due[i]? with
    | none =>
      have hstep : guardStep cm w (.chargeUser i today) = { w with now := today } := by simp only [guardStep, hd]
      rw [hstep]
      exact balanced_frame h hl.1 w.guard.budgetExceeded w.guard.actionWindow
    | some d => exact balanced_chargeUser cm h hl.1 hd (hl.2 d hd)
  | check userId today now =>
    obtain ⟨exceeded, window, -, hstep⟩ := check_frame cm w userId today now
    rw [hstep]
    exact balanced_frame h hl exceeded window

end Balance

/-! ## Every run -/

/-- In every run of calls for any users and of checks, their steps in any order, in which the clock does not go back and
shows one date for the two parts of each call: the daily spend is what was recorded on the day, and it is what the users
have spent together with what the calls under way are still to be charged to them. Between calls it is what the users
have spent. -/
theorem spend_conserved (cm : CaseMap) (config : CostGuardConfig) (startDate : Nat) (ls : List GuardStep)
    (h : Along (guardStep cm) OneDate (Ledger.start config startDate) ls) :
    let w := run (guardStep cm) (Ledger.start config startDate) ls
    ∀ today, w.now ≤ today →
      w.guard.dailySpend today = w.spent today ∧
      w.guard.dailySpend today = w.guard.userSpend today + w.dueOn today ∧
      (w.due = [] → w.guard.userSpend today = w.guard.dailySpend today ∧ w.guard.userSpend today = w.spent today) := by
  intro w today htoday
  have hbalanced : Balanced w := run_inv (balanced_step cm) ls (balanced_start config startDate) h
  have hspent := hbalanced.dailySpend_eq htoday
  have husers := hbalanced.dailySpend_eq_users htoday
  refine ⟨hspent, husers, fun hdue => ?_⟩
  have hnone : w.dueOn today = 0 := dueOn_eq_zero fun d hd => by
    rw [hdue] at hd
    cases hd
  rw [hnone, add_zero] at husers
  exact ⟨husers.symm, husers.symm.trans hspent⟩

/-- A call of one token, for a dollar. -/
def oneDollar : LlmUsage := ⟨"m".toList, 1, 0, 0, 0, 1, 1, some (1, 0)⟩

/-- A day with calls for two users, and a call on the next day. -/
def twoDays : List GuardStep :=
  [.record "a".toList oneDollar 0 0, .record "b".toList oneDollar 0 1, .check none 0 1, .chargeUser 1 0,
    .chargeUser 0 0, .record "b".toList oneDollar 1 2, .check (some "b".toList) 1 2, .chargeUser 0 1]

theorem spend_conserved_twoDays :
    let w := run (guardStep asciiCase) (Ledger.start ⟨none, none, none⟩ 0) twoDays
    w.guard.userSpend 1 = w.guard.dailySpend 1 ∧ w.guard.dailySpend 1 = 1 := by
  refine ⟨((spend_conserved asciiCase ⟨none, none, none⟩ 0 twoDays (by decide +kernel) 1 (by decide +kernel)).2.2
    (by decide +kernel)).1, by decide +kernel⟩

/-- A call that is recorded before the end of a day and charged to its user after it: on the next day the user has spent
a dollar, and the guard nothing. -/
theorem straddled :
    let start := Ledger.start ⟨none, none, none⟩ 0
    let w := run (guardStep asciiCase) start (callSteps start "a".toList oneDollar 0 1 0)
    w.due = [] ∧ w.now = 1 ∧ w.guard.dailySpend 1 = 0 ∧ w.guard.userSpend 1 = 1 := by
  decide +kernel

end Ironclaw.Agent

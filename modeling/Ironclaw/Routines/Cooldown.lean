import Ironclaw.Routines.Concurrency

/-!
# The cooldown of event-triggered routines

An event is checked against the cached copy of a routine, a completed run updates its row. `eventFired` is the routine
an event or a system event fires at a step, with the time of its check; `recordings` are the times at which the runs of
a routine were recorded as completed.

- `event_after_cooldown`: in a run where every event fires a copy with the stored `last_run_at`, an event fires a
  routine only when its cooldown is over, counted from the stored `last_run_at` and from every completion of the run;
- `stale_copy_fires_early`: with a copy from before the last completion, the routine fires again after one second of a
  cooldown of five minutes.
-/

namespace Ironclaw.Routines

open Run (run Along)

variable {cfg : RoutineConfig} {s : World} {id : Nat}

/-- The routine an event or a system event fires at a step, and the time of its cooldown check. -/
def eventFired (cfg : RoutineConfig) (s : World) (l : Label) : Option (Routine × Int) :=
  match picked s l with
  | some (.eventSweep msg counts todo, c) => (admits cfg s c (.eventSweep msg counts todo)).map fun a => (a.1, c.now)
  | some (.systemSweep ev counts todo, c) => (admits cfg s c (.systemSweep ev counts todo)).map fun a => (a.1, c.now)
  | _ => none

/-- The copy an event fires has the `last_run_at` of the routine's row. -/
def FiresFresh (cfg : RoutineConfig) (id : Nat) (s : World) (l : Label) : Prop :=
  ∀ p ∈ eventFired cfg s l, p.1.id = id → some p.1.lastRunAt = (s.getRoutine id).map Routine.lastRunAt

instance (cfg : RoutineConfig) (id : Nat) (s : World) (l : Label) : Decidable (FiresFresh cfg id s l) :=
  inferInstanceAs (Decidable (∀ p ∈ eventFired cfg s l,
    p.1.id = id → some p.1.lastRunAt = (s.getRoutine id).map Routine.lastRunAt))

/-- The time of a step. -/
def Label.now : Label → Option Int
  | .advance _ c => some c.now
  | _ => none

/-- The clock does not go back. -/
def Nondecreasing (ls : List Label) : Prop := (ls.filterMap Label.now).Pairwise (· ≤ ·)

instance (ls : List Label) : Decidable (Nondecreasing ls) :=
  inferInstanceAs (Decidable ((ls.filterMap Label.now).Pairwise (· ≤ ·)))

/-- The times at which runs of the routine are recorded as completed. -/
def recordings (cfg : RoutineConfig) (id : Nat) : World → List Label → List Int
  | _, [] => []
  | s, l :: ls => ((updates id s l).map fun u => u.2.2.now).toList ++ recordings cfg id (step cfg s l) ls

/-! ## The check -/

/-- An event passes the cooldown check of its copy. -/
theorem eventFired_spec {l : Label} {q : Routine} {now : Int} (h : eventFired cfg s l = some (q, now)) :
    q ∈ s.copies ∧ checkCooldown now q = true := by
  unfold eventFired at h
  split at h
  next msg counts todo c hp =>
    obtain ⟨⟨q', n⟩, ha, hq⟩ := Option.map_eq_some_iff.mp h
    cases hq
    refine ⟨World.mem_copies.mpr (.inr ⟨_, picked_mem hp, admits_mem_copies ha⟩), ?_⟩
    cases todo with
    | nil => cases ha
    | cons m todo => cases m <;> grind [admits, guardsPass]
  next ev counts todo c hp =>
    obtain ⟨⟨q', n⟩, ha, hq⟩ := Option.map_eq_some_iff.mp h
    cases hq
    refine ⟨World.mem_copies.mpr (.inr ⟨_, picked_mem hp, admits_mem_copies ha⟩), ?_⟩
    cases todo with
    | nil => cases ha
    | cons m todo => cases m <;> grind [admits, guardsPass]
  · cases h

/-- A fresh copy fires only when the cooldown is over by the row. -/
theorem stored_cooldown_over {rows : List Routine} {r q : Routine} {l : Label} {now t : Int}
    (hids : (rows.map Routine.id).Nodup) (hr : r ∈ rows) (hc : r.guardrails.cooldown ≤ MAX_DURATION)
    (hs : SameStatic rows s) (hf : FiresFresh cfg r.id s l) (hfire : eventFired cfg s l = some (q, now))
    (hq : q.id = r.id) (ht : (s.getRoutine r.id).bind Routine.lastRunAt = some t) :
    (r.guardrails.cooldown : Int) ≤ now - t := by
  obtain ⟨hcopy, hcheck⟩ := eventFired_spec hfire
  have hstatic := static_of_id hids hr (hs.2 q hcopy) hq
  have hg : q.guardrails = r.guardrails := Routine.guardrails_of_static hstatic
  have hlast := hf (q, now) hfire hq
  obtain ⟨row, hrow, hrt⟩ := Option.bind_eq_some_iff.mp ht
  rw [hrow, Option.map_some, hrt] at hlast
  have hover := cooldown_over hcheck (Option.some.inj hlast) (hg ▸ hc)
  rwa [hg] at hover

/-! ## The stored time -/

/-- The row was last written at `t` or later. -/
def StoredFrom (id : Nat) (t : Int) (s : World) : Prop :=
  ∃ t', (s.getRoutine id).bind Routine.lastRunAt = some t' ∧ t ≤ t'

theorem updates_now {l : Label} {q : Routine} {outcome : Outcome} {c : Choice}
    (h : updates id s l = some (q, outcome, c)) : l.now = some c.now := by
  cases l <;> simp_all [updates, picked]
  grind [Label.now]

theorem storedFrom_step {t : Int} (s : World) (l : Label) (hl : ∀ now ∈ l.now, t ≤ now) (h : StoredFrom id t s) :
    StoredFrom id t (step cfg s l) := by
  obtain ⟨t', ht', hle⟩ := h
  obtain ⟨row, hrow, hrt⟩ := Option.bind_eq_some_iff.mp ht'
  unfold StoredFrom
  rw [getRoutine_step]
  split
  · exact ⟨t', ht', hle⟩
  next q outcome c hu =>
    exact ⟨c.now, by simp [hrow, Routine.withRuntime], hl c.now (updates_now hu)⟩

theorem nondecreasing_cons {l : Label} {ls : List Label} (h : Nondecreasing (l :: ls)) :
    (∀ t ∈ l.now, ∀ a ∈ ls, ∀ now ∈ a.now, t ≤ now) ∧ Nondecreasing ls := by
  unfold Nondecreasing at *
  rw [List.filterMap_cons] at h
  cases hl : l.now with
  | none =>
    rw [hl] at h
    exact ⟨fun t ht => by simp at ht, h⟩
  | some t₀ =>
    rw [hl] at h
    obtain ⟨hle, hls⟩ := List.pairwise_cons.mp h
    refine ⟨fun t ht a ha now hnow => ?_, hls⟩
    rw [← Option.mem_some.mp ht]
    exact hle now (List.mem_filterMap.mpr ⟨a, ha, hnow⟩)

/-- The row keeps a time from `t` on while the clock does. -/
theorem storedFrom_run {t : Int} : ∀ (ls : List Label) (s : World), (∀ a ∈ ls, ∀ now ∈ a.now, t ≤ now) →
    StoredFrom id t s → StoredFrom id t (run (step cfg) s ls)
  | [], _, _, h => h
  | l :: ls, s, hls, h =>
    storedFrom_run ls _ (fun a ha => hls a (List.mem_cons_of_mem _ ha))
      (storedFrom_step s l (hls l List.mem_cons_self) h)

/-- Every completion recorded in a run is at or before the time the row holds at its end. -/
theorem recordings_stored {rows : List Routine} {r : Routine} (hids : (rows.map Routine.id).Nodup) (hr : r ∈ rows) :
    ∀ (ls : List Label) (s : World), SameStatic rows s → Nondecreasing ls → ∀ t ∈ recordings cfg r.id s ls,
      StoredFrom r.id t (run (step cfg) s ls)
  | [], _, _, _, _, ht => by cases ht
  | l :: ls, s, hs, hclock, t, ht => by
    obtain ⟨hle, hclock⟩ := nondecreasing_cons hclock
    rcases List.mem_append.mp ht with ht | ht
    · obtain ⟨⟨q, outcome, c⟩, hu, rfl⟩ := Option.map_eq_some_iff.mp (Option.mem_toList.mp ht)
      obtain ⟨row, hrow, -⟩ := getRoutine_static hids hr hs
      refine storedFrom_run ls _ (hle c.now (updates_now hu)) ⟨c.now, ?_, Int.le_refl _⟩
      rw [getRoutine_step, hu, hrow]
      rfl
    · exact recordings_stored hids hr ls _ (sameStatic_step rows s l hs) hclock t ht

/-- **The cooldown.** Where every event fires a fresh copy, an event fires a routine only when its cooldown is over,
counted from the stored `last_run_at` and from every completion recorded before. -/
theorem event_after_cooldown {rows : List Routine} {runs : List RoutineRun} {n : Nat} {r : Routine}
    (hids : (rows.map Routine.id).Nodup) (hr : r ∈ rows) (hc : r.guardrails.cooldown ≤ MAX_DURATION)
    {pre post : List Label} {l : Label} (hclock : Nondecreasing (pre ++ l :: post))
    (h : Along (step cfg) (FiresFresh cfg r.id) (World.boot rows runs n) (pre ++ l :: post)) {q : Routine} {now : Int}
    (hfire : eventFired cfg (run (step cfg) (World.boot rows runs n) pre) l = some (q, now)) (hq : q.id = r.id) :
    (∀ t, ((run (step cfg) (World.boot rows runs n) pre).getRoutine r.id).bind Routine.lastRunAt = some t →
      (r.guardrails.cooldown : Int) ≤ now - t) ∧
    ∀ t ∈ recordings cfg r.id (World.boot rows runs n) pre, (r.guardrails.cooldown : Int) ≤ now - t := by
  have hs : SameStatic rows (run (step cfg) (World.boot rows runs n) pre) := sameStatic_run rows runs n pre
  have hstored := fun t => stored_cooldown_over (t := t) hids hr hc hs (Run.along_at h) hfire hq
  refine ⟨hstored, fun t ht => ?_⟩
  have hpre : Nondecreasing pre := by
    unfold Nondecreasing at *
    rw [List.filterMap_append] at hclock
    exact (List.pairwise_append.mp hclock).1
  obtain ⟨t', ht', hle⟩ := recordings_stored hids hr pre _ (sameStatic_boot rows runs n) hpre t ht
  have := hstored t' ht'
  omega

/-! ## A stale copy -/

/-- A routine on messages with "build", with a cooldown of five minutes. -/
def onBuild : Routine := freshRoutine 1 (.event none "build".toList) (300 * 10 ^ 9) 2

def buildMessage : IncomingMessage := ⟨"alice".toList, "telegram".toList, "build failed".toList⟩

/-- The cache is filled, a message fires the routine, its run completes at time `0`. -/
def firstRun : List Label :=
  [.refresh, tick 0 0 .ok, .message buildMessage, tick 0 0 .ok, tick 0 0 .ok, tick 0 0 .ok, tick 0 0 .ok, tick 0 0 .ok,
    tick 0 0 .ok, tick 0 0 .ok]

/-- With a refresh after the run, the next message fires when five minutes are over. -/
theorem event_after_cooldown_refreshed :
    recordings tenRoutines 1 (World.boot [onBuild] [] 0)
        (firstRun ++ [.refresh, tick 0 0 .ok, .message buildMessage]) = [0] ∧
      (300 * 10 ^ 9 : Int) ≤ 300 * 10 ^ 9 - 0 := by
  have h := @event_after_cooldown tenRoutines [onBuild] [] 0 onBuild (by decide) (List.mem_singleton.mpr rfl)
    (by decide) (firstRun ++ [.refresh, tick 0 0 .ok, .message buildMessage]) [] (tick 0 (300 * 10 ^ 9) .ok)
    (by decide) (by decide) { onBuild with lastRunAt := some 0, runCount := 1 } (300 * 10 ^ 9) (by decide) rfl
  exact ⟨by decide, h.2 0 (by decide)⟩

/-- The message one second after the run still meets the copy from before it. -/
theorem stale_copy_fires_early :
    Nondecreasing (firstRun ++ [.message buildMessage, tick 0 (10 ^ 9) .ok]) ∧
      eventFired tenRoutines (run (step tenRoutines) (World.boot [onBuild] [] 0) (firstRun ++ [.message buildMessage]))
        (tick 0 (10 ^ 9) .ok) = some (onBuild, 10 ^ 9) ∧
      ((run (step tenRoutines) (World.boot [onBuild] [] 0) (firstRun ++ [.message buildMessage])).getRoutine 1).bind
        Routine.lastRunAt = some 0 ∧
      ¬((onBuild.guardrails.cooldown : Int) ≤ 10 ^ 9 - 0) := by
  decide

end Ironclaw.Routines

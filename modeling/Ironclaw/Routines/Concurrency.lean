import Ironclaw.Routines.Copies

/-!
# The concurrency guardrail

A fire reads its routine's running count, is accepted below `max_concurrent`, and creates its run record at a later
step. The `load` of a routine counts its running runs together with the fires that are accepted and not yet recorded:
only an acceptance makes it grow (`load_step`), and an acceptance whose check read at least the load keeps it within
the limit (`load_le_step`).

- `running_le_max`: in a run where every check reads the whole load, the routine never has more than `max_concurrent`
  running runs;
- `two_fires_pass_one_check`: two manual fires that check before either is recorded run side by side under a limit of
  one.
-/

namespace Ironclaw.Routines

open Run (run Along)

variable {cfg : RoutineConfig} {s : World} {id : Nat}

/-- An accepted fire of the routine. -/
def Task.isAccepted (id : Nat) : Task → Bool
  | .accepted _ r => r.id == id
  | _ => false

/-- The running runs of a routine and its accepted fires. -/
def World.load (s : World) (id : Nat) : Nat := s.countRunning id + s.tasks.countP (Task.isAccepted id)

/-- The acceptance a step makes, with the count its check read. -/
def admitted (cfg : RoutineConfig) (s : World) (l : Label) : Option (Routine × Nat) :=
  (picked s l).bind fun p => admits cfg s p.2 p.1

/-- A fire of the routine is accepted only on a count that covers its running runs and its accepted fires. -/
def ChecksLoad (cfg : RoutineConfig) (id : Nat) (s : World) (l : Label) : Prop :=
  ∀ p ∈ admitted cfg s l, p.1.id = id → s.load id ≤ p.2

instance (cfg : RoutineConfig) (id : Nat) (s : World) (l : Label) : Decidable (ChecksLoad cfg id s l) :=
  inferInstanceAs (Decidable (∀ p ∈ admitted cfg s l, p.1.id = id → s.load id ≤ p.2))

/-! ## What a step does to the load -/

theorem countRunning_complete (s : World) (run : Nat) (outcome : Outcome) (id : Nat) :
    (s.completeRoutineRun run outcome).countRunning id ≤ s.countRunning id := by
  simp only [World.countRunning, World.completeRoutineRun, List.countP_map]
  refine List.countP_mono_left fun r _ h => ?_
  simp only [Function.comp] at h
  split at h
  · cases outcome <;> simp [Outcome.status] at h
  · exact h

theorem spawned_not_accepted (s : World) (l : Label) (id : Nat) : (spawned s l).countP (Task.isAccepted id) = 0 := by
  rw [List.countP_eq_zero]
  intro t ht
  cases l <;> grind [spawned, Task.isAccepted]

/-- The acceptances a task leaves are those of `admits`. -/
theorem countP_accept (c : Choice) (path : TriggerPath) (t : Task) :
    (accept cfg s c path t).countP (Task.isAccepted id) =
      if (admits cfg s c t).any (fun p => p.1.id == id) then 1 else 0 := by
  unfold accept
  split
  next h => simp [h]
  next r n h => simp [h, Task.isAccepted, List.countP_cons]

/-- A task step moves an accepted fire to the run table, completes runs, or accepts. -/
theorem load_taskStep (cfg : RoutineConfig) (s : World) (id : Nat) (c : Choice) (t : Task) :
    (taskStep cfg s c t).1.countRunning id + (taskStep cfg s c t).2.countP (Task.isAccepted id) ≤
      s.countRunning id + [t].countP (Task.isAccepted id) +
        if (admits cfg s c t).any (fun p => p.1.id == id) then 1 else 0 := by
  cases t with
  | eventSweep msg counts todo =>
    cases todo with
    | nil => exact Nat.le_trans (Nat.le_add_right _ _) (Nat.le_add_right _ _)
    | cons m todo => simp [taskStep, countP_accept, Task.isAccepted]
  | systemSweep ev counts todo =>
    cases todo with
    | nil => exact Nat.le_trans (Nat.le_add_right _ _) (Nat.le_add_right _ _)
    | cons m todo => simp [taskStep, countP_accept, Task.isAccepted]
  | cronSweep todo =>
    cases todo with
    | nil => exact Nat.le_trans (Nat.le_add_right _ _) (Nat.le_add_right _ _)
    | cons r todo =>
      simp only [taskStep]
      split
      · exact Nat.le_trans (Nat.le_add_right _ _) (Nat.le_add_right _ _)
      · simp [countP_accept, Task.isAccepted]
  | manualRequest r => simp [taskStep, countP_accept, Task.isAccepted]
  | webhookRequest r => simp [taskStep, countP_accept, Task.isAccepted]
  | accepted path r =>
    cases hc : c.ok with
    | false =>
      simp only [taskStep, hc]
      exact Nat.le_trans (Nat.le_add_right _ _) (Nat.le_add_right _ _)
    | true =>
      -- the fire leaves the accepted ones and becomes a running run
      by_cases hid : r.id = id <;> simp [taskStep, hc, World.countRunning, Task.isAccepted, hid, admits]
  | recorded run r => simp [taskStep, World.countRunning, Task.isAccepted]
  | executing run r => simp [taskStep, World.countRunning, Task.isAccepted]
  | finished run r outcome =>
    have h := countRunning_complete s run outcome id
    cases hc : c.ok with
    | false => simp [taskStep, hc, World.countRunning, Task.isAccepted]
    | true => exact Nat.le_add_right_of_le (by
      simp only [taskStep, hc]
      exact h)
  | completed run r outcome =>
    cases hc : c.ok <;> simp [taskStep, hc, World.countRunning, World.updateRoutineRuntime, Task.isAccepted]
  | refreshing rows =>
    simp only [taskStep]
    split <;> simp [World.countRunning, Task.isAccepted]
  | recovering run routineId outcome =>
    have h := countRunning_complete s run outcome id
    cases hc : c.ok with
    | false => simp [taskStep, hc, Task.isAccepted]
    | true => exact Nat.le_add_right_of_le (by
      simp only [taskStep, hc]
      exact h)
  | finalizing run routineId outcome =>
    simp only [taskStep]
    split <;> simp [Task.isAccepted]

/-- Only an acceptance makes the load grow. -/
theorem load_step (l : Label) :
    (step cfg s l).load id ≤ s.load id + if (admitted cfg s l).any (fun p => p.1.id == id) then 1 else 0 := by
  obtain ⟨hp, hs⟩ | ⟨i, t, c, hi, hp, hs⟩ := step_cases cfg s l <;> rw [hs]
  · have h := spawned_not_accepted s l id
    simp only [World.load, List.countP_append, h]
    exact Nat.le_add_right _ _
  · have hperm := (tasks_perm hi).countP_eq (Task.isAccepted id)
    have hstep := load_taskStep cfg s id c t
    have hadm : admitted cfg s l = admits cfg s c t := by simp [admitted, hp]
    rw [hadm]
    simp only [World.load, List.countP_append, List.countP_cons, List.countP_nil] at *
    simp only [World.countRunning] at *
    omega

/-- A step whose check reads the whole load keeps the load within the limit. -/
theorem load_le_step {rows : List Routine} {r : Routine} (hids : (rows.map Routine.id).Nodup) (hr : r ∈ rows)
    (s : World) (l : Label) (hg : ChecksLoad cfg r.id s l)
    (h : SameStatic rows s ∧ s.load r.id ≤ r.guardrails.maxConcurrent) :
    SameStatic rows (step cfg s l) ∧ (step cfg s l).load r.id ≤ r.guardrails.maxConcurrent := by
  refine ⟨sameStatic_step rows s l h.1, (load_step l).trans ?_⟩
  split
  next hany =>
    obtain ⟨⟨q, n⟩, hq, hid⟩ := (Option.any_eq_true _ _).mp hany
    have hid : q.id = r.id := by simpa using hid
    obtain ⟨⟨t, c⟩, hp, ha⟩ := Option.bind_eq_some_iff.mp hq
    have hcovered : s.load r.id ≤ n := hg (q, n) hq hid
    have hlt : n < q.guardrails.maxConcurrent := admits_lt ha
    have hcopy : q ∈ s.copies := World.mem_copies.mpr (.inr ⟨t, picked_mem hp, admits_mem_copies ha⟩)
    have hsame := static_of_id hids hr (h.1.2 q hcopy) hid
    rw [Routine.guardrails_of_static hsame] at hlt
    omega
  · exact h.2

/-- **The guardrail.** When every check of a routine reads the whole load, its running runs stay within
`max_concurrent`. -/
theorem running_le_max {rows : List Routine} {runs : List RoutineRun} {n : Nat} {r : Routine}
    (hids : (rows.map Routine.id).Nodup) (hr : r ∈ rows)
    (hboot : (World.boot rows runs n).countRunning r.id ≤ r.guardrails.maxConcurrent) (ls : List Label)
    (h : Along (step cfg) (ChecksLoad cfg r.id) (World.boot rows runs n) ls) :
    (run (step cfg) (World.boot rows runs n) ls).countRunning r.id ≤ r.guardrails.maxConcurrent := by
  have hinv := Run.run_inv (load_le_step hids hr) ls ⟨sameStatic_boot rows runs n, hboot⟩ h
  exact (Nat.le_add_right _ _).trans hinv.2

/-! ## Two fires at once -/

/-- A routine that has never run, with the given trigger and guardrails. -/
def freshRoutine (id : Nat) (trigger : Trigger) (cooldown maxConcurrent : Nat) : Routine where
  id := id
  name := "digest".toList
  userId := "alice".toList
  enabled := true
  trigger := trigger
  action := .lightweight "Summarise the inbox".toList [] 4096 false 3
  guardrails := ⟨cooldown, maxConcurrent⟩
  notify := ⟨none, none, true, true, false⟩
  lastRunAt := none
  nextFireAt := none
  runCount := 0
  consecutiveFailures := 0
  state := .null

/-- Ten routines at a time; a pattern matches the texts that contain it. -/
def tenRoutines : RoutineConfig :=
  ⟨⟨fun _ => true, fun pattern content => content.tails.any pattern.isPrefixOf⟩, 10, true, 3⟩

/-- A step of the `i`-th task at time `now` whose query succeeds. -/
def tick (i : Nat) (now : Int) (outcome : Outcome) : Label := .advance i ⟨now, true, none, outcome⟩

/-- One fire after the other: the second is checked when the first is recorded. -/
theorem running_le_max_sequential :
    (run (step tenRoutines) (World.boot [freshRoutine 1 .manual 0 1] [] 0)
      [.fireManual 1 none, tick 0 0 .ok, tick 0 0 .ok, .fireManual 1 none, tick 1 0 .ok]).countRunning 1 ≤ 1 :=
  running_le_max (r := freshRoutine 1 .manual 0 1) (by decide) (by simp) (by decide) _ (by decide)

/-- Both fires read a count of zero, both are recorded: two runs under a limit of one. -/
theorem two_fires_pass_one_check :
    (freshRoutine 1 .manual 0 1).guardrails.maxConcurrent = 1 ∧
      (run (step tenRoutines) (World.boot [freshRoutine 1 .manual 0 1] [] 0)
        [.fireManual 1 none, .fireManual 1 none, tick 0 0 .ok, tick 0 0 .ok, tick 0 0 .ok,
          tick 0 0 .ok]).countRunning 1 = 2 := by
  decide

end Ironclaw.Routines

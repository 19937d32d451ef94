import Ironclaw.Routines.Engine

/-!
# Copies of a routine

The engine works on copies of a routine's row: the event cache holds one, and a task carries the one it was started
with. This module says once what a step can do to the rows, to the copies and to the tasks.

- `step_cases`: a step starts the task of its label or advances one task;
- `mem_copies_step`: every copy after a step is a copy or a row of the state before it;
- `routines_step`: only the update of a completed run changes a row, and only its runtime fields;
- `SameStatic`, `copies_static`: a copy agrees with the row of its routine on all the fields no run changes.
-/

namespace Ironclaw.Routines

variable {cfg : RoutineConfig} {s : World}

/-- The copies a task carries. -/
def Task.copies : Task → List Routine
  | .eventSweep _ _ todo => todo.map EventMatcher.routine
  | .systemSweep _ _ todo => todo.map EventMatcher.routine
  | .cronSweep todo => todo
  | .manualRequest r => [r]
  | .webhookRequest r => [r]
  | .accepted _ r => [r]
  | .recorded _ r => [r]
  | .executing _ r => [r]
  | .finished _ r _ => [r]
  | .completed _ r _ => [r]
  | .refreshing rows => rows
  | .recovering .. => []
  | .finalizing .. => []

/-- All the copies of a state: those of the cache and those of the tasks. -/
def World.copies (s : World) : List Routine := s.cache.map EventMatcher.routine ++ s.tasks.flatMap Task.copies

theorem World.mem_copies {s : World} {q : Routine} :
    q ∈ s.copies ↔ (∃ m ∈ s.cache, m.routine = q) ∨ ∃ t ∈ s.tasks, q ∈ t.copies := by
  simp [World.copies]

/-! ## What a step can do -/

/-- A step starts the task of its label, or advances the task its label picks. -/
theorem step_cases (cfg : RoutineConfig) (s : World) (l : Label) :
    (picked s l = none ∧ step cfg s l = { s with tasks := s.tasks ++ spawned s l }) ∨
      ∃ i t c, s.tasks[i]? = some t ∧ picked s l = some (t, c) ∧
        step cfg s l = { (taskStep cfg s c t).1 with tasks := s.tasks.eraseIdx i ++ (taskStep cfg s c t).2 } := by
  cases l with
  | advance i c =>
    cases h : s.tasks[i]? with
    | none => exact .inl ⟨by simp [picked, h], by simp [step, spawned, h]⟩
    | some t => exact .inr ⟨i, t, c, h, by simp [picked, h], by simp [step, h]⟩
  | _ => exact .inl ⟨rfl, rfl⟩

/-- The picked task and the others are all the tasks. -/
theorem tasks_perm {i : Nat} {t : Task} (h : s.tasks[i]? = some t) : (t :: s.tasks.eraseIdx i).Perm s.tasks := by
  obtain ⟨hi, rfl⟩ := List.getElem?_eq_some_iff.mp h
  exact List.getElem_cons_eraseIdx_perm hi

theorem mem_tasks_of_getElem? {i : Nat} {t : Task} (h : s.tasks[i]? = some t) : t ∈ s.tasks :=
  List.mem_of_getElem? h

theorem picked_mem {l : Label} {t : Task} {c : Choice} (h : picked s l = some (t, c)) : t ∈ s.tasks := by
  cases l with
  | advance i c' =>
    obtain ⟨t', hi, ht⟩ := Option.map_eq_some_iff.mp h
    cases ht
    exact mem_tasks_of_getElem? hi
  | _ => cases h

theorem cacheOf_subset {rows : List Routine} {m : EventMatcher} (h : m ∈ cacheOf cfg rows) : m.routine ∈ rows := by
  obtain ⟨r, hr, hm⟩ := List.mem_filterMap.mp h
  split at hm
  · split at hm
    · obtain rfl := Option.some.inj hm
      exact hr
    · cases hm
  · obtain rfl := Option.some.inj hm
    exact hr
  · cases hm

theorem getRoutine_mem {id : Nat} {r : Routine} (h : s.getRoutine id = some r) : r ∈ s.routines ∧ r.id = id :=
  ⟨List.mem_of_find?_eq_some h, by simpa using List.find?_some h⟩

/-- The accepted routine is the copy at the head of the task. -/
theorem admits_mem_copies {c : Choice} {t : Task} {q : Routine} {n : Nat} (h : admits cfg s c t = some (q, n)) :
    q ∈ t.copies := by
  cases t with
  | eventSweep msg counts todo =>
    cases todo with
    | nil => cases h
    | cons m todo => cases m <;> simp_all [admits, Task.copies, EventMatcher.routine]
  | systemSweep ev counts todo =>
    cases todo with
    | nil => cases h
    | cons m todo => cases m <;> simp_all [admits, Task.copies, EventMatcher.routine]
  | cronSweep todo => cases todo <;> simp_all [admits, Task.copies]
  | _ => simp_all [admits, Task.copies]

/-- An accepted routine was below its limit by the count its check read. -/
theorem admits_lt {c : Choice} {t : Task} {q : Routine} {n : Nat} (h : admits cfg s c t = some (q, n)) :
    n < q.guardrails.maxConcurrent := by
  cases t with
  | eventSweep msg counts todo =>
    cases todo with
    | nil => cases h
    | cons m todo => cases m <;> grind [admits, guardsPass]
  | systemSweep ev counts todo =>
    cases todo with
    | nil => cases h
    | cons m todo => cases m <;> grind [admits, guardsPass]
  | cronSweep todo => cases todo <;> grind [admits]
  | _ => grind [admits]

theorem copies_accept {c : Choice} {path : TriggerPath} {t u : Task} {q : Routine} (hu : u ∈ accept cfg s c path t)
    (hq : q ∈ u.copies) : q ∈ t.copies := by
  unfold accept at hu
  split at hu
  · cases hu
  next r n h =>
    obtain rfl := List.mem_singleton.mp hu
    obtain rfl := List.mem_singleton.mp hq
    exact admits_mem_copies h

/-- What a task step leaves carries only copies of the task, or a row. -/
theorem copies_taskStep {c : Choice} {t u : Task} {q : Routine} (hu : u ∈ (taskStep cfg s c t).2)
    (hq : q ∈ u.copies) : q ∈ t.copies ∨ q ∈ s.routines := by
  cases t with
  | eventSweep msg counts todo =>
    cases todo with
    | nil => cases hu
    | cons m todo =>
      rcases List.mem_cons.mp hu with rfl | hu
      · exact .inl (List.mem_cons_of_mem _ hq)
      · exact .inl (copies_accept hu hq)
  | systemSweep ev counts todo =>
    cases todo with
    | nil => cases hu
    | cons m todo =>
      rcases List.mem_cons.mp hu with rfl | hu
      · exact .inl (List.mem_cons_of_mem _ hq)
      · exact .inl (copies_accept hu hq)
  | cronSweep todo =>
    cases todo with
    | nil => cases hu
    | cons r todo =>
      simp only [taskStep] at hu
      split at hu
      · cases hu
      · rcases List.mem_cons.mp hu with rfl | hu
        · exact .inl (List.mem_cons_of_mem _ hq)
        · exact .inl (copies_accept hu hq)
  | manualRequest r => exact .inl (copies_accept hu hq)
  | webhookRequest r => exact .inl (copies_accept hu hq)
  | finalizing run id outcome =>
    simp only [taskStep] at hu
    split at hu
    · cases hu
    next r h =>
      obtain rfl := List.mem_singleton.mp hu
      obtain rfl := List.mem_singleton.mp hq
      have hr : s.getRoutine id = some q := by
        cases hc : c.ok <;> simp_all
      exact .inr (getRoutine_mem hr).1
  | refreshing rows =>
    simp only [taskStep] at hu
    split at hu
    · obtain rfl := List.mem_singleton.mp hu
      exact .inl hq
    · cases hu
  | recovering run id outcome =>
    cases hc : c.ok
    · simp [taskStep, hc] at hu
    · simp [taskStep, hc] at hu
      simp [hu, Task.copies] at hq
  | accepted path r =>
    cases hc : c.ok <;> simp [taskStep, hc] at hu
    exact .inl (by simpa [hu, Task.copies] using hq)
  | completed run r outcome => cases hu
  | _ =>
    obtain rfl := List.mem_singleton.mp hu
    exact .inl hq

/-- The cache after a task step. -/
theorem cache_taskStep {c : Choice} {t : Task} {m : EventMatcher} (hm : m ∈ (taskStep cfg s c t).1.cache) :
    m ∈ s.cache ∨ m.routine ∈ t.copies := by
  cases t with
  | refreshing rows =>
    simp only [taskStep] at hm
    split at hm
    · exact .inl hm
    · exact .inr (cacheOf_subset hm)
  | eventSweep msg counts todo => cases todo <;> exact .inl hm
  | systemSweep ev counts todo => cases todo <;> exact .inl hm
  | cronSweep todo => cases todo <;> grind [taskStep]
  | _ => grind [taskStep, World.completeRoutineRun, World.updateRoutineRuntime]

/-- What a label starts carries copies of the cache, or rows. -/
theorem copies_spawned {l : Label} {u : Task} {q : Routine} (hu : u ∈ spawned s l) (hq : q ∈ u.copies) :
    q ∈ s.copies ∨ q ∈ s.routines := by
  cases l with
  | message msg =>
    obtain rfl := List.mem_singleton.mp hu
    exact .inl (List.mem_append_left _ hq)
  | systemEvent ev =>
    obtain rfl := List.mem_singleton.mp hu
    exact .inl (List.mem_append_left _ hq)
  | cronTick now =>
    obtain rfl := List.mem_singleton.mp hu
    exact .inr (List.mem_of_mem_filter hq)
  | refresh =>
    obtain rfl := List.mem_singleton.mp hu
    exact .inr (List.mem_of_mem_filter hq)
  | fireManual id userId =>
    cases h : s.getRoutine id <;> simp [spawned, h] at hu
    obtain ⟨-, rfl⟩ := hu
    obtain rfl := List.mem_singleton.mp hq
    exact .inr (getRoutine_mem h).1
  | fireWebhook id =>
    cases h : s.getRoutine id <;> simp [spawned, h] at hu
    obtain ⟨-, rfl⟩ := hu
    obtain rfl := List.mem_singleton.mp hq
    exact .inr (getRoutine_mem h).1
  | recover run outcome =>
    simp only [spawned] at hu
    split at hu
    · cases hu
    · split at hu
      · cases hu
      · obtain rfl := List.mem_singleton.mp hu
        cases hq
  | advance i c => cases hu

/-- Every copy after a step is a copy or a row of the state before it. -/
theorem mem_copies_step {l : Label} {q : Routine} (hq : q ∈ (step cfg s l).copies) :
    q ∈ s.copies ∨ q ∈ s.routines := by
  obtain ⟨-, hs⟩ | ⟨i, t, c, hi, -, hs⟩ := step_cases cfg s l <;> rw [hs] at hq
  · rcases World.mem_copies.1 hq with hc | ⟨u, hu, hq⟩
    · exact .inl (World.mem_copies.2 (.inl hc))
    · rcases List.mem_append.mp hu with hu | hu
      · exact .inl (World.mem_copies.2 (.inr ⟨u, hu, hq⟩))
      · exact copies_spawned hu hq
  · have ht : t ∈ s.tasks := mem_tasks_of_getElem? hi
    rcases World.mem_copies.1 hq with ⟨m, hm, rfl⟩ | ⟨u, hu, hq⟩
    · rcases cache_taskStep hm with hm | hm
      · exact .inl (World.mem_copies.2 (.inl ⟨m, hm, rfl⟩))
      · exact .inl (World.mem_copies.2 (.inr ⟨t, ht, hm⟩))
    · rcases List.mem_append.mp hu with hu | hu
      · exact .inl (World.mem_copies.2 (.inr ⟨u, List.mem_of_mem_eraseIdx hu, hq⟩))
      · rcases copies_taskStep hu hq with hq | hq
        · exact .inl (World.mem_copies.2 (.inr ⟨t, ht, hq⟩))
        · exact .inr hq

/-- Only the update of a completed run changes the rows. -/
theorem routines_step (cfg : RoutineConfig) (s : World) (l : Label) :
    (step cfg s l).routines = s.routines ∨
      ∃ run q outcome c, picked s l = some (.completed run q outcome, c) ∧ c.ok = true ∧
        (step cfg s l).routines = (s.updateRoutineRuntime q outcome c.now c.nextFire).routines := by
  obtain ⟨-, hs⟩ | ⟨i, t, c, hi, hp, hs⟩ := step_cases cfg s l <;> rw [hs]
  · exact .inl rfl
  · cases t with
    | completed run q outcome =>
      cases hc : c.ok with
      | true => exact .inr ⟨run, q, outcome, c, hp, hc, by simp [taskStep, hc]⟩
      | false => exact .inl (by simp [taskStep, hc])
    | eventSweep msg counts todo => cases todo <;> exact .inl rfl
    | systemSweep ev counts todo => cases todo <;> exact .inl rfl
    | cronSweep todo => cases todo <;> grind [taskStep]
    | _ => grind [taskStep, World.completeRoutineRun]

/-- The update of the routine's row that a step makes: the copy it is computed from, how the run ended, and the
environment's choice. -/
def updates (id : Nat) (s : World) (l : Label) : Option (Routine × Outcome × Choice) :=
  match picked s l with
  | some (.completed _ q outcome, c) => if c.ok && q.id == id then some (q, outcome, c) else none
  | _ => none

theorem getRoutine_update (s : World) (q : Routine) (outcome : Outcome) (now : Int) (nextFire : Option Int)
    (id : Nat) :
    (s.updateRoutineRuntime q outcome now nextFire).getRoutine id =
      (s.getRoutine id).map fun row => if q.id = id then row.withRuntime q outcome now nextFire else row := by
  have hid : ∀ r : Routine, (if r.id = q.id then r.withRuntime q outcome now nextFire else r).id = r.id := by
    intro r
    split <;> rfl
  simp only [World.getRoutine, World.updateRoutineRuntime, List.find?_map, Function.comp_def, hid]
  cases h : s.routines.find? fun r => r.id == id with
  | none => rfl
  | some row =>
    have hrow : row.id = id := by simpa using List.find?_some h
    simp [hrow, eq_comm]

/-- A routine's row after a step. -/
theorem getRoutine_step (cfg : RoutineConfig) (s : World) (l : Label) (id : Nat) :
    (step cfg s l).getRoutine id =
      match updates id s l with
      | none => s.getRoutine id
      | some (q, outcome, c) => (s.getRoutine id).map fun row => row.withRuntime q outcome c.now c.nextFire := by
  obtain ⟨hp, hs⟩ | ⟨i, t, c, hi, hp, hs⟩ := step_cases cfg s l <;> rw [hs]
  · simp only [updates, hp]
    rfl
  · cases t with
    | completed run q outcome =>
      cases hc : c.ok with
      | false =>
        simp only [updates, hp, hc, taskStep]
        rfl
      | true =>
        have h := getRoutine_update s q outcome c.now c.nextFire id
        simp only [updates, hp, hc, taskStep, if_true, Bool.true_and]
        by_cases hid : q.id = id
        · simp only [hid, beq_self_eq_true, if_true] at h ⊢
          exact h
        · simp only [hid, if_false, Option.map_id'] at h
          simp only [beq_eq_false_iff_ne.mpr hid]
          exact h
    | eventSweep msg counts todo => cases todo <;> simp only [updates, hp, taskStep] <;> rfl
    | systemSweep ev counts todo => cases todo <;> simp only [updates, hp, taskStep] <;> rfl
    | cronSweep todo => cases todo <;> simp only [updates, hp, taskStep] <;> grind [World.getRoutine]
    | _ => simp only [updates, hp, taskStep]; grind [World.getRoutine, World.completeRoutineRun]

/-! ## The fields no run changes -/

/-- A routine without its runtime fields. -/
def Routine.static (r : Routine) : Routine :=
  { r with lastRunAt := none, nextFireAt := none, runCount := 0, consecutiveFailures := 0, state := .null }

theorem Routine.static_withRuntime (row q : Routine) (outcome : Outcome) (now : Int) (nextFire : Option Int) :
    (row.withRuntime q outcome now nextFire).static = row.static := rfl

theorem Routine.id_of_static {q r : Routine} (h : q.static = r.static) : q.id = r.id := by
  injection h

theorem Routine.guardrails_of_static {q r : Routine} (h : q.static = r.static) : q.guardrails = r.guardrails := by
  injection h

/-- Rows and copies agree with the routines `rows` on the fields no run changes. -/
def SameStatic (rows : List Routine) (s : World) : Prop :=
  s.routines.map Routine.static = rows.map Routine.static ∧ ∀ q ∈ s.copies, q.static ∈ rows.map Routine.static

theorem sameStatic_boot (rows : List Routine) (runs : List RoutineRun) (n : Nat) :
    SameStatic rows (World.boot rows runs n) :=
  ⟨rfl, fun q hq => by simp [World.copies, World.boot] at hq⟩

theorem static_step (l : Label) :
    (step cfg s l).routines.map Routine.static = s.routines.map Routine.static := by
  obtain h | ⟨run, q, outcome, c, -, -, h⟩ := routines_step cfg s l <;> rw [h]
  simp only [World.updateRoutineRuntime, List.map_map]
  refine List.map_congr_left fun r _ => ?_
  simp only [Function.comp]
  split
  · exact Routine.static_withRuntime ..
  · rfl

theorem sameStatic_step (rows : List Routine) (s : World) (l : Label) (h : SameStatic rows s) :
    SameStatic rows (step cfg s l) := by
  refine ⟨(static_step l).trans h.1, fun q hq => ?_⟩
  rcases mem_copies_step hq with hq | hq
  · exact h.2 q hq
  · rw [← h.1]
    exact List.mem_map_of_mem hq

/-- The copies of a routine and its row agree on the fields no run changes, in every reachable state. -/
theorem sameStatic_run (rows : List Routine) (runs : List RoutineRun) (n : Nat) (ls : List Label) :
    SameStatic rows (Run.run (step cfg) (World.boot rows runs n) ls) :=
  Run.run_inv_all (sameStatic_step rows) ls (sameStatic_boot rows runs n)

/-- Distinct rows have distinct ids, so the id of a copy gives its fields. -/
theorem static_of_id {rows : List Routine} {q r : Routine} (hids : (rows.map Routine.id).Nodup) (hr : r ∈ rows)
    (hq : q.static ∈ rows.map Routine.static) (hid : q.id = r.id) : q.static = r.static := by
  obtain ⟨r', hr', hs⟩ := List.mem_map.mp hq
  have h : r' = r := List.inj_on_of_nodup_map hids hr' hr ((Routine.id_of_static hs).trans hid)
  rw [← hs, h]

theorem SameStatic.ids_nodup {rows : List Routine} (h : SameStatic rows s) (hids : (rows.map Routine.id).Nodup) :
    (s.routines.map Routine.id).Nodup := by
  have hid : ∀ l : List Routine, l.map Routine.id = (l.map Routine.static).map Routine.id := by
    intro l
    rw [List.map_map]
    rfl
  rw [hid, h.1, ← hid]
  exact hids

/-- Where ids are distinct, a row is the one its id finds. -/
theorem getRoutine_of_mem {q : Routine} (hids : (s.routines.map Routine.id).Nodup) (hq : q ∈ s.routines) :
    s.getRoutine q.id = some q := by
  cases h : s.getRoutine q.id with
  | none => exact absurd (List.find?_eq_none.mp h q hq) (by simp)
  | some row =>
    obtain ⟨hm, hid⟩ := getRoutine_mem h
    rw [List.inj_on_of_nodup_map hids hm hq hid]

/-- A routine's row in a state that agrees with `rows`. -/
theorem getRoutine_static {rows : List Routine} {r : Routine} (hids : (rows.map Routine.id).Nodup) (hr : r ∈ rows)
    (h : SameStatic rows s) : ∃ row, s.getRoutine r.id = some row ∧ row.static = r.static := by
  have hmem : r.static ∈ s.routines.map Routine.static := h.1 ▸ List.mem_map_of_mem hr
  obtain ⟨q, hq, hs⟩ := List.mem_map.mp hmem
  refine ⟨q, ?_, hs⟩
  rw [← Routine.id_of_static hs]
  exact getRoutine_of_mem (h.ids_nodup hids) hq

end Ironclaw.Routines

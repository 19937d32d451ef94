import Ironclaw.Routines.Concurrency

/-!
# Run accounting

A completed run writes `run_count + 1` and a failure count, both computed from the copy of the routine its task holds.
The update counts when that copy is still the row. `Accounted` says that the row accounts for all ended runs but those
whose update is still to come; `Overtaken` says that one of these holds a copy the row has moved past, so its update
can never be in turn.

- `row_accounts`: in a run whose updates of the routine are all in turn, the row counts every ended run and the trailing
  failures, once no update is left to come;
- `overlapping_runs_count_once`: two overlapping failed runs are counted as one.
-/

namespace Ironclaw.Routines

open Run (run Along)

variable {cfg : RoutineConfig} {s : World} {id : Nat}

/-- How an ended run whose update is still to come has ended. -/
def Task.pending (id : Nat) : Task → Option Outcome
  | .completed _ r outcome => if r.id = id then some outcome else none
  | .finalizing _ routineId outcome => if routineId = id then some outcome else none
  | _ => none

/-- The ended runs of a routine whose update is still to come. -/
def World.pending (s : World) (id : Nat) : List Outcome := s.tasks.filterMap (Task.pending id)

/-- How the runs of a routine ended, in completion order. -/
def World.ended (s : World) (id : Nat) : List Outcome :=
  s.history.filterMap fun p => if p.1 = id then some p.2 else none

/-- The failure count after the outcomes `os`, from the count `c`. -/
def failureCount (c : Nat) (os : List Outcome) : Nat := os.foldl (fun k o => if o = .failed then k + 1 else 0) c

/-- A recovered run of the routine has ended and its task has not read the row yet. -/
def Task.isFinalizing (id : Nat) : Task → Bool
  | .finalizing _ routineId _ => routineId == id
  | _ => false

/-- The update of a completed run goes through, its copy has the run count of the row, the counters do not overflow and
no recovered run is about to read the row; a recovered run gets to read its row. -/
def inTurn (id : Nat) (s : World) (l : Label) : Bool :=
  match picked s l with
  | some (.completed _ q outcome, c) =>
    q.id != id || (c.ok && !s.tasks.any (Task.isFinalizing id) &&
      (s.getRoutine id).any fun row => q.runCount == row.runCount && decide (row.runCount + 1 < 2 ^ 64) &&
        (outcome != .failed || decide (row.consecutiveFailures + 1 < 2 ^ 32)))
  | some (.finalizing _ routineId _, c) => routineId != id || c.ok
  | _ => true

/-! ## Copies and the row -/

/-- A copy is the row of an earlier time: it counts no more runs, and as many only with the same failures. -/
def Behind (q row : Routine) : Prop :=
  q.runCount ≤ row.runCount ∧ (q.runCount = row.runCount → q.consecutiveFailures = row.consecutiveFailures)

/-- All copies of the routine are behind its row. -/
def CopiesBehind (id : Nat) (s : World) : Prop :=
  ∀ row, s.getRoutine id = some row → ∀ q ∈ s.copies, q.id = id → Behind q row

/-- The row after an update in turn. -/
theorem updates_inTurn {l : Label} {q row : Routine} {outcome : Outcome} {c : Choice} (hg : inTurn id s l = true)
    (hu : updates id s l = some (q, outcome, c)) (hrow : s.getRoutine id = some row) :
    q.runCount = row.runCount ∧ row.runCount + 1 < 2 ^ 64 ∧
      (outcome = .failed → row.consecutiveFailures + 1 < 2 ^ 32) ∧ s.tasks.any (Task.isFinalizing id) = false := by
  unfold updates at hu
  split at hu
  next run q' outcome' c' hp =>
    split at hu
    next hc =>
      obtain ⟨rfl, rfl, rfl⟩ : q' = q ∧ outcome' = outcome ∧ c' = c := by simpa using hu
      simp only [Bool.and_eq_true, beq_iff_eq] at hc
      simp only [inTurn, hp, hrow, hc.2, bne_self_eq_false, Bool.false_or, Bool.and_eq_true, Option.any_some,
        beq_iff_eq, decide_eq_true_eq, Bool.not_eq_true', Bool.or_eq_true, bne_iff_ne] at hg
      obtain ⟨⟨-, hfin⟩, ⟨hcount, hlt⟩, hfail⟩ := hg
      refine ⟨hcount, hlt, fun ho => ?_, hfin⟩
      exact hfail.resolve_left (fun h => h ho)
    · cases hu
  · cases hu

/-- An update in turn counts one more run. -/
theorem behind_update {q row : Routine} {l : Label} {outcome : Outcome} {c : Choice} (hg : inTurn id s l = true)
    (hu : updates id s l = some (q, outcome, c)) (hrow : s.getRoutine id = some row) :
    (row.withRuntime q outcome c.now c.nextFire).runCount = row.runCount + 1 := by
  obtain ⟨hcount, hlt, -, -⟩ := updates_inTurn hg hu hrow
  simp only [Routine.withRuntime, hcount]
  exact Nat.mod_eq_of_lt hlt

/-- Steps in turn do not count back. -/
theorem runCount_step {l : Label} {row row' : Routine} (hg : inTurn id s l = true) (hrow : s.getRoutine id = some row)
    (hrow' : (step cfg s l).getRoutine id = some row') :
    row' = row ∨ row.runCount < row'.runCount := by
  rw [getRoutine_step] at hrow'
  split at hrow'
  · exact .inl (Option.some.inj (hrow'.symm.trans hrow))
  next q outcome c hu =>
    rw [hrow, Option.map_some] at hrow'
    rw [← Option.some.inj hrow', behind_update hg hu hrow]
    exact .inr (Nat.lt_succ_self _)

theorem behind_mono {q row row' : Routine} (h : Behind q row) (hle : row' = row ∨ row.runCount < row'.runCount) :
    Behind q row' := by
  rcases hle with rfl | hlt
  · exact h
  · have := h.1
    exact ⟨by omega, fun he => by omega⟩

theorem copiesBehind_step {l : Label} (hids : (s.routines.map Routine.id).Nodup) (hg : inTurn id s l = true)
    (h : CopiesBehind id s) : CopiesBehind id (step cfg s l) := by
  intro row' hrow' q hq hid
  have hrow : ∃ row, s.getRoutine id = some row := by
    rw [getRoutine_step] at hrow'
    split at hrow'
    · exact ⟨row', hrow'⟩
    · obtain ⟨row, hrow, -⟩ := Option.map_eq_some_iff.mp hrow'
      exact ⟨row, hrow⟩
  obtain ⟨row, hrow⟩ := hrow
  refine behind_mono ?_ (runCount_step hg hrow hrow')
  rcases mem_copies_step hq with hq | hq
  · exact h row hrow q hq hid
  · have hrow₂ := getRoutine_of_mem hids hq
    rw [hid, hrow] at hrow₂
    rw [Option.some.inj hrow₂]
    exact ⟨Nat.le_refl _, fun _ => rfl⟩

/-! ## What a step does to the ended and the pending runs -/

theorem pending_spawned (s : World) (l : Label) (id : Nat) : (spawned s l).filterMap (Task.pending id) = [] := by
  rw [List.filterMap_eq_nil_iff]
  intro t ht
  cases l <;> grind [spawned, Task.pending]

theorem pending_accept (s : World) (c : Choice) (path : TriggerPath) (t : Task) (id : Nat) :
    (accept cfg s c path t).filterMap (Task.pending id) = [] := by
  unfold accept
  split <;> simp [Task.pending]

/-- A task step that is not an update ends runs and leaves them pending. -/
theorem pending_taskStep {l : Label} {c : Choice} {t : Task} (cfg : RoutineConfig)
    (hp : picked s l = some (t, c)) (hg : inTurn id s l = true) (hu : updates id s l = none)
    (hrow : (s.getRoutine id).isSome = true) :
    ∃ new, (taskStep cfg s c t).1.ended id = s.ended id ++ new ∧
      (taskStep cfg s c t).2.filterMap (Task.pending id) = (t.pending id).toList ++ new := by
  cases t with
  | eventSweep msg counts todo =>
    cases todo with
    | nil => exact ⟨[], by simp [taskStep], rfl⟩
    | cons m todo => exact ⟨[], by simp [taskStep], (List.filterMap_cons_none rfl).trans (pending_accept ..)⟩
  | systemSweep ev counts todo =>
    cases todo with
    | nil => exact ⟨[], by simp [taskStep], rfl⟩
    | cons m todo => exact ⟨[], by simp [taskStep], (List.filterMap_cons_none rfl).trans (pending_accept ..)⟩
  | cronSweep todo =>
    cases todo with
    | nil => exact ⟨[], by simp [taskStep], rfl⟩
    | cons r todo =>
      simp only [taskStep]
      split
      · exact ⟨[], by simp, rfl⟩
      · exact ⟨[], by simp, (List.filterMap_cons_none rfl).trans (pending_accept ..)⟩
  | manualRequest r => exact ⟨[], by simp [taskStep], pending_accept ..⟩
  | webhookRequest r => exact ⟨[], by simp [taskStep], pending_accept ..⟩
  | accepted path r =>
    simp only [taskStep]
    split <;> exact ⟨[], by simp [World.ended], by simp [Task.pending]⟩
  | recorded run r => exact ⟨[], by simp [taskStep, World.ended], by simp [taskStep, Task.pending]⟩
  | executing run r => exact ⟨[], by simp [taskStep, World.ended], by simp [taskStep, Task.pending]⟩
  | finished run r outcome =>
    refine ⟨if r.id = id then [outcome] else [], ?_, ?_⟩
    · cases hc : c.ok <;> simp only [taskStep, hc] <;> by_cases hid : r.id = id <;>
        simp [World.ended, World.completeRoutineRun, hid]
    · by_cases hid : r.id = id <;> simp [taskStep, Task.pending, hid]
  | completed run r outcome =>
    have hid : r.id ≠ id := by
      rintro rfl
      simp_all [inTurn, updates]
    refine ⟨[], ?_, by simp [taskStep, Task.pending, hid]⟩
    cases hc : c.ok <;> simp [taskStep, hc, World.ended, World.updateRoutineRuntime]
  | refreshing rows =>
    simp only [taskStep]
    split <;> exact ⟨[], by simp [World.ended], by simp [Task.pending]⟩
  | recovering run routineId outcome =>
    cases hc : c.ok with
    | false => exact ⟨[], by simp [taskStep, hc], by simp [taskStep, hc, Task.pending]⟩
    | true =>
      refine ⟨if routineId = id then [outcome] else [], ?_, ?_⟩
      · by_cases hid : routineId = id <;> simp [taskStep, hc, World.ended, World.completeRoutineRun, hid]
      · by_cases hid : routineId = id <;> simp [taskStep, hc, Task.pending, hid]
  | finalizing run routineId outcome =>
    by_cases hid : routineId = id
    · have hc : c.ok = true := by simpa [inTurn, hp, hid] using hg
      obtain ⟨row, hrow⟩ := Option.isSome_iff_exists.mp hrow
      have hrid : row.id = id := (getRoutine_mem hrow).2
      exact ⟨[], by simp [taskStep, hc, hid, hrow], by simp [taskStep, hc, hid, hrow, Task.pending, hrid]⟩
    · simp only [taskStep]
      split
      · exact ⟨[], by simp, by simp [Task.pending, hid]⟩
      next r hr =>
        have hrid : r.id = routineId := by
          cases hc : c.ok <;> simp [hc] at hr
          exact (getRoutine_mem hr).2
        exact ⟨[], by simp, by simp [Task.pending, hid, hrid]⟩

/-- The pending runs are those of the picked task and of the others. -/
theorem pending_perm {i : Nat} {t : Task} (hi : s.tasks[i]? = some t) (id : Nat) :
    ((t.pending id).toList ++ (s.tasks.eraseIdx i).filterMap (Task.pending id)).Perm (s.pending id) := by
  have h := (tasks_perm hi).filterMap (Task.pending id)
  rw [List.filterMap_cons] at h
  cases ht : t.pending id <;> rw [ht] at h <;> exact h

/-- A step that is no update of the routine. -/
theorem pending_step {l : Label} (cfg : RoutineConfig) (hg : inTurn id s l = true) (hu : updates id s l = none)
    (hrow : (s.getRoutine id).isSome = true) :
    ∃ new, (step cfg s l).ended id = s.ended id ++ new ∧ ((step cfg s l).pending id).Perm (s.pending id ++ new) := by
  obtain ⟨-, hs⟩ | ⟨i, t, c, hi, hp, hs⟩ := step_cases cfg s l <;> rw [hs]
  · refine ⟨[], by simp [World.ended], ?_⟩
    simp only [World.pending, List.filterMap_append, pending_spawned, List.append_nil]
    exact List.Perm.refl _
  · obtain ⟨new, hended, hpend⟩ := pending_taskStep cfg hp hg hu hrow
    refine ⟨new, hended, ?_⟩
    simp only [World.pending, List.filterMap_append, hpend]
    rw [← List.append_assoc]
    exact (List.perm_append_comm.trans (pending_perm hi id)).append_right new

/-- An update takes its run from the pending ones and ends none. -/
theorem pending_update {l : Label} {q : Routine} {outcome : Outcome} {c : Choice} (cfg : RoutineConfig)
    (hu : updates id s l = some (q, outcome, c)) :
    (step cfg s l).ended id = s.ended id ∧ (outcome :: (step cfg s l).pending id).Perm (s.pending id) ∧
      ∀ t ∈ (step cfg s l).tasks, t ∈ s.tasks := by
  obtain ⟨hp, -⟩ | ⟨i, t, c', hi, hp, hs⟩ := step_cases cfg s l
  · simp [updates, hp] at hu
  · cases t with
    | completed run q' outcome' =>
      simp only [updates, hp] at hu
      split at hu
      next hc =>
        obtain ⟨rfl, rfl, rfl⟩ : q' = q ∧ outcome' = outcome ∧ c' = c := by simpa using hu
        simp only [Bool.and_eq_true, beq_iff_eq] at hc
        have hperm := pending_perm hi id
        simp only [Task.pending, hc.2, if_true] at hperm
        rw [hs]
        refine ⟨by simp [taskStep, hc.1, World.ended, World.updateRoutineRuntime], ?_, ?_⟩
        · simpa [World.pending, taskStep] using hperm
        · intro t ht
          exact List.mem_of_mem_eraseIdx (by simpa [taskStep] using ht)
      · cases hu
    | _ => simp [updates, hp] at hu

/-! ## The invariant -/

/-- A pending run of the routine holds a copy the row has moved past. -/
def Overtaken (id : Nat) (s : World) : Prop :=
  ∃ run q outcome row, Task.completed run q outcome ∈ s.tasks ∧ q.id = id ∧ s.getRoutine id = some row ∧
    q.runCount < row.runCount

/-- The row accounts for the ended runs but the pending ones, from the counters of `r`. -/
def Accounted (r : Routine) (s : World) : Prop :=
  ∃ counted waiting row, s.ended r.id = counted ++ waiting ∧ waiting.Perm (s.pending r.id) ∧
    s.getRoutine r.id = some row ∧ row.runCount = r.runCount + counted.length ∧
    row.consecutiveFailures = failureCount r.consecutiveFailures counted

theorem overtaken_step {l : Label} {row' : Routine} (hg : inTurn id s l = true)
    (hrow' : (step cfg s l).getRoutine id = some row') (h : Overtaken id s) : Overtaken id (step cfg s l) := by
  obtain ⟨run, q, outcome, row, ht, hid, hrow, hlt⟩ := h
  have hmono := runCount_step hg hrow hrow'
  refine ⟨run, q, outcome, row', ?_, hid, hrow', ?_⟩
  · obtain ⟨-, hs⟩ | ⟨i, t, c, hi, hp, hs⟩ := step_cases cfg s l <;> rw [hs]
    · exact List.mem_append_left _ ht
    · rcases List.mem_cons.mp ((tasks_perm hi).mem_iff.mpr ht) with rfl | ht
      · -- the overtaken run itself is not in turn
        simp only [inTurn, hp, hid, hrow, bne_self_eq_false, Bool.false_or, Bool.and_eq_true, Option.any_some,
          beq_iff_eq] at hg
        omega
      · exact List.mem_append_left _ ht
  · rcases hmono with rfl | hmono <;> omega

theorem failureCount_append (c : Nat) (os : List Outcome) (o : Outcome) :
    failureCount c (os ++ [o]) = if o = .failed then failureCount c os + 1 else 0 := by
  simp [failureCount]

/-- A pending run that is not recovered holds a copy of the routine. -/
theorem mem_pending {o : Outcome} (h : o ∈ s.pending id) (hfin : s.tasks.any (Task.isFinalizing id) = false) :
    ∃ run q, Task.completed run q o ∈ s.tasks ∧ q.id = id := by
  obtain ⟨t, ht, ho⟩ := List.mem_filterMap.mp h
  have hnot : ¬(Task.isFinalizing id t = true) := List.any_eq_false.mp hfin t ht
  cases t with
  | completed run q outcome =>
    simp only [Task.pending] at ho
    split at ho
    next hid => exact ⟨run, q, Option.some.inj ho ▸ ht, hid⟩
    · cases ho
  | finalizing run routineId outcome =>
    simp only [Task.pending] at ho
    split at ho
    next hid => exact absurd (beq_iff_eq.mpr hid) hnot
    · cases ho
  | _ => cases ho

/-- The copy an update is computed from is a copy of the routine. -/
theorem updates_copy {l : Label} {q : Routine} {outcome : Outcome} {c : Choice}
    (hu : updates id s l = some (q, outcome, c)) : q ∈ s.copies ∧ q.id = id := by
  unfold updates at hu
  split at hu
  next run q' outcome' c' hp =>
    split at hu
    next hc =>
      obtain ⟨rfl, rfl, rfl⟩ : q' = q ∧ outcome' = outcome ∧ c' = c := by simpa using hu
      simp only [Bool.and_eq_true, beq_iff_eq] at hc
      exact ⟨World.mem_copies.mpr (.inr ⟨_, picked_mem hp, List.mem_singleton.mpr rfl⟩), hc.2⟩
    · cases hu
  · cases hu

/-- An update in turn is counted, or it overtakes another pending run. -/
theorem accounted_update {r q : Routine} {l : Label} {outcome : Outcome} {c : Choice} (cfg : RoutineConfig)
    (hg : inTurn r.id s l = true) (hu : updates r.id s l = some (q, outcome, c)) (hb : CopiesBehind r.id s)
    (h : Accounted r s) : Overtaken r.id (step cfg s l) ∨ Accounted r (step cfg s l) := by
  obtain ⟨counted, waiting, row, hended, hwait, hrow, hcount, hfail⟩ := h
  obtain ⟨hq, hlt, hlt', hfin⟩ := updates_inTurn hg hu hrow
  obtain ⟨hended', hpend', hsub⟩ := pending_update cfg hu
  have hrow' : (step cfg s l).getRoutine r.id = some (row.withRuntime q outcome c.now c.nextFire) := by
    rw [getRoutine_step, hu, hrow]
    rfl
  have hcount' := behind_update hg hu hrow
  cases hp : (step cfg s l).pending r.id with
  | cons o os =>
    -- another ended run waits: its copy is behind the row, which has now moved
    have hfin' : (step cfg s l).tasks.any (Task.isFinalizing r.id) = false :=
      List.any_eq_false.mpr fun t ht => List.any_eq_false.mp hfin t (hsub t ht)
    obtain ⟨run, q', ht, hid⟩ := mem_pending (by rw [hp]; exact List.mem_cons_self) hfin'
    have hcopy : q' ∈ s.copies := World.mem_copies.mpr (.inr ⟨_, hsub _ ht, List.mem_singleton.mpr rfl⟩)
    have hle := (hb row hrow q' hcopy hid).1
    exact .inl ⟨run, q', o, _, ht, hid, hrow', by omega⟩
  | nil =>
    rw [hp] at hpend'
    have hw : waiting = [outcome] := List.perm_singleton.mp (hwait.trans hpend'.symm)
    obtain ⟨hcopy, hid⟩ := updates_copy hu
    have hqf : q.consecutiveFailures = row.consecutiveFailures := (hb row hrow q hcopy hid).2 hq
    refine .inr ⟨counted ++ [outcome], [], _, by rw [hended', hended, hw, List.append_nil], by rw [hp], hrow', ?_, ?_⟩
    · rw [hcount', hcount, List.length_append, List.length_singleton]
      omega
    · rw [failureCount_append, ← hfail]
      simp only [Routine.withRuntime]
      split
      next ho => rw [hqf, Nat.mod_eq_of_lt (hlt' ho)]
      · rfl

/-- What a run in turn keeps. -/
def Books (rows : List Routine) (r : Routine) (s : World) : Prop :=
  SameStatic rows s ∧ CopiesBehind r.id s ∧ (Overtaken r.id s ∨ Accounted r s)

theorem books_boot {rows : List Routine} {r : Routine} (runs : List RoutineRun) (n : Nat)
    (hids : (rows.map Routine.id).Nodup) (hr : r ∈ rows) : Books rows r (World.boot rows runs n) := by
  refine ⟨sameStatic_boot rows runs n, fun row _ q hq => ?_, .inr ⟨[], [], r, rfl, List.Perm.refl _, ?_, rfl, rfl⟩⟩
  · simp [World.copies, World.boot] at hq
  · exact getRoutine_of_mem hids hr

theorem books_step {rows : List Routine} {r : Routine} (hids : (rows.map Routine.id).Nodup) (hr : r ∈ rows)
    (s : World) (l : Label) (hg : inTurn r.id s l = true) (h : Books rows r s) : Books rows r (step cfg s l) := by
  obtain ⟨hs, hb, hacc⟩ := h
  have hs' : SameStatic rows (step cfg s l) := sameStatic_step rows s l hs
  refine ⟨hs', copiesBehind_step (hs.ids_nodup hids) hg hb, ?_⟩
  rcases hacc with hover | hacc
  · obtain ⟨row', hrow', -⟩ := getRoutine_static hids hr hs'
    exact .inl (overtaken_step hg hrow' hover)
  · cases hu : updates r.id s l with
    | some u => exact accounted_update cfg hg hu hb hacc
    | none =>
      obtain ⟨counted, waiting, row, hended, hwait, hrow, hcount, hfail⟩ := hacc
      obtain ⟨new, hended', hpend'⟩ := pending_step cfg hg hu (by rw [hrow]; rfl)
      refine .inr ⟨counted, waiting ++ new, row, ?_, ?_, ?_, hcount, hfail⟩
      · rw [hended', hended, List.append_assoc]
      · exact (hwait.append_right new).trans hpend'.symm
      · rw [getRoutine_step, hu]
        exact hrow

/-- The number of failed runs at the end of `os`. -/
def trailingFailures (os : List Outcome) : Nat := (os.reverse.takeWhile (· = .failed)).length

/-- A failure count is the trailing failures, on top of the first count when there is nothing else. -/
theorem failureCount_eq (c : Nat) (os : List Outcome) :
    failureCount c os = trailingFailures os + if os.all (· = .failed) then c else 0 := by
  induction os using List.reverseRecOn with
  | nil => simp [failureCount, trailingFailures]
  | append_singleton os o ih =>
    rw [failureCount_append, ih]
    by_cases ho : o = .failed
    · simp [trailingFailures, ho]
      omega
    · simp [trailingFailures, ho]

/-- **The accounting.** Where every update of the routine is in turn, the row has counted every ended run and the
trailing failures, once none is pending. -/
theorem row_accounts (cfg : RoutineConfig) {rows : List Routine} {r : Routine} (runs : List RoutineRun) (n : Nat)
    (hids : (rows.map Routine.id).Nodup) (hr : r ∈ rows) (ls : List Label)
    (h : Along (step cfg) (fun s l => inTurn r.id s l = true) (World.boot rows runs n) ls)
    (hdone : (run (step cfg) (World.boot rows runs n) ls).pending r.id = []) :
    ∃ row, (run (step cfg) (World.boot rows runs n) ls).getRoutine r.id = some row ∧
      row.runCount = r.runCount + ((run (step cfg) (World.boot rows runs n) ls).ended r.id).length ∧
      row.consecutiveFailures = trailingFailures ((run (step cfg) (World.boot rows runs n) ls).ended r.id) +
        if ((run (step cfg) (World.boot rows runs n) ls).ended r.id).all (· = .failed) then r.consecutiveFailures
        else 0 := by
  obtain ⟨-, -, hover | hacc⟩ := Run.run_inv (books_step hids hr) ls (books_boot runs n hids hr) h
  · obtain ⟨run', q, outcome, row, ht, hid, -, -⟩ := hover
    have hmem : outcome ∈ (run (step cfg) (World.boot rows runs n) ls).pending r.id :=
      List.mem_filterMap.mpr ⟨_, ht, by simp [Task.pending, hid]⟩
    rw [hdone] at hmem
    cases hmem
  · obtain ⟨counted, waiting, row, hended, hwait, hrow, hcount, hfail⟩ := hacc
    rw [hdone] at hwait
    rw [List.perm_nil.mp hwait, List.append_nil] at hended
    rw [hended]
    exact ⟨row, hrow, hcount, hfail.trans (failureCount_eq _ _)⟩

/-! ## Overlapping runs -/

/-- Two manual runs, the second fired when the row has counted the first. -/
def consecutiveRuns : List Label :=
  [.fireManual 1 none, tick 0 0 .ok, tick 0 0 .ok, tick 0 0 .ok, tick 0 0 .failed, tick 0 0 .ok, tick 0 0 .ok,
    .fireManual 1 none, tick 0 0 .ok, tick 0 0 .ok, tick 0 0 .ok, tick 0 0 .failed, tick 0 0 .ok, tick 0 0 .ok]

theorem row_accounts_consecutive :
    ∃ row, (run (step tenRoutines) (World.boot [freshRoutine 1 .manual 0 2] [] 0) consecutiveRuns).getRoutine 1 =
      some row ∧ row.runCount = 2 ∧ row.consecutiveFailures = 2 := by
  obtain ⟨row, hrow, hcount, hfail⟩ := row_accounts tenRoutines (r := freshRoutine 1 .manual 0 2) [] 0
    (by decide) (List.mem_singleton.mpr rfl) consecutiveRuns (by decide) (by decide)
  exact ⟨row, hrow, hcount.trans (by decide), hfail.trans (by decide)⟩

/-- Two manual runs, the second fired while the first is running; both fail. -/
def overlappingRuns : List Label :=
  [.fireManual 1 none, tick 0 0 .ok, tick 0 0 .ok, .fireManual 1 none, tick 1 0 .ok, tick 1 0 .ok, tick 0 0 .ok,
    tick 0 0 .ok, tick 0 0 .failed, tick 0 0 .failed, tick 0 0 .ok, tick 0 0 .ok, tick 0 0 .ok, tick 0 0 .ok]

/-- The row counts one run and one failure. -/
theorem overlapping_runs_count_once :
    (run (step tenRoutines) (World.boot [freshRoutine 1 .manual 0 2] [] 0) overlappingRuns).tasks = [] ∧
      (run (step tenRoutines) (World.boot [freshRoutine 1 .manual 0 2] [] 0) overlappingRuns).ended 1 =
        [.failed, .failed] ∧
      ((run (step tenRoutines) (World.boot [freshRoutine 1 .manual 0 2] [] 0) overlappingRuns).getRoutine 1).map
        (fun row => (row.runCount, row.consecutiveFailures)) = some (1, 1) := by
  decide

end Ironclaw.Routines

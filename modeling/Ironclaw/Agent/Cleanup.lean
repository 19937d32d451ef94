import Ironclaw.Agent.Scheduler

/-!
# Cleaning up finished jobs

Every scheduled job has the handle of its worker in the map of jobs, and a cleanup task of its own that removes it. The
task reads whether the job has finished under one lock and removes it under a later one; `cleanup_finished` does both
under one.

- `cleanupFinished_finished`: `cleanup_finished` removes finished jobs only, from any state;
- `Sound`: what a cleanup task has read is true of the entry it will remove (`sound_step`);
- `raced_removes`: where a job is scheduled again behind such a read, the task removes it while it runs;
- `cleanup_removes_finished`: where no job is, every cleanup step of a run removes finished jobs only.
-/

namespace Ironclaw.Agent

open Text Run Context

/-- The cleanup task of a job: what its last read said. -/
structure CleanupTask where
  jobId : Nat
  finished : Bool
  deriving DecidableEq

/-- The scheduler with the workers it has spawned: the handle of each scheduled job, the workers that have finished, and
the cleanup tasks, each under the number of its worker. -/
structure Pool where
  config : SchedulerConfig
  contextManager : ContextManager
  jobs : Table Nat Nat
  spawned : Nat
  finished : List Nat
  cleanups : Table Nat CleanupTask

namespace Pool

variable (p : Pool)

/-- No job is scheduled. -/
def new (config : SchedulerConfig) (contextManager : ContextManager) : Pool := ⟨config, contextManager, ∅, 0, [], ∅⟩

/-- The scheduler with the ids of its jobs. -/
def scheduler : Scheduler := ⟨p.config, p.contextManager, none, p.jobs.keys⟩

def isFinished (handle : Nat) : Bool := p.finished.contains handle

/-- `schedule`: a job that is not there yet gets a worker and a cleanup task. -/
def schedule (jobId : Nat) (clock : JobContext.Clock) (afterContext afterCount : List Touch) : Pool :=
  let (scheduled, s) := p.scheduler.schedule jobId clock afterContext afterCount
  let p := { p with contextManager := s.contextManager }
  match scheduled with
  | .error _ => p
  | .ok _ =>
    if jobId ∈ p.jobs then p
    else
      { p with
        jobs := p.jobs.insert jobId p.spawned
        spawned := p.spawned + 1
        cleanups := p.cleanups.insert p.spawned ⟨jobId, false⟩ }

/-- The worker with this handle ends, or is aborted. -/
def finish (handle : Nat) : Pool :=
  if handle < p.spawned then { p with finished := handle :: p.finished } else p

/-- A cleanup task reads the map; a job that is gone counts as finished. -/
def cleanupRead (worker : Nat) : Pool :=
  match p.cleanups.lookup worker with
  | none => p
  | some task =>
    let finished := match p.jobs.lookup task.jobId with
      | some handle => p.isFinished handle
      | none => true
    { p with cleanups := p.cleanups.insert worker { task with finished := finished } }

/-- A cleanup task that has read that its job has finished removes it, and ends. -/
def cleanupWrite (worker : Nat) : Pool :=
  match p.cleanups.lookup worker with
  | some ⟨jobId, true⟩ => { p with jobs := p.jobs.erase jobId, cleanups := p.cleanups.erase worker }
  | _ => p

/-- `cleanup_finished`, on the jobs. -/
def cleanupFinished : Pool := { p with jobs := Table.retain (fun _ handle => !p.isFinished handle) p.jobs }

/-- `stop`: the job is removed and cancelled; its worker ends by itself or is aborted. -/
def stop (jobId : Nat) (clock : JobContext.Clock) : Pool :=
  if jobId ∈ p.jobs then
    { p with
      jobs := p.jobs.erase jobId
      contextManager := (ManagerOp.updateContext jobId
        (.transitionTo clock .cancelled (some "Stopped by scheduler".toList))).apply p.contextManager }
  else p

end Pool

/-- A step of the scheduler or of one of the tasks beside it. -/
inductive PoolStep
  | schedule (jobId : Nat) (clock : JobContext.Clock) (afterContext afterCount : List Touch)
  | context (op : ManagerOp)
  | finish (handle : Nat)
  | cleanupRead (worker : Nat)
  | cleanupWrite (worker : Nat)
  | cleanupFinished
  | stop (jobId : Nat) (clock : JobContext.Clock)

namespace PoolStep

def apply (p : Pool) : PoolStep → Pool
  | schedule jobId clock afterContext afterCount => p.schedule jobId clock afterContext afterCount
  | context op => { p with contextManager := op.apply p.contextManager }
  | finish handle => p.finish handle
  | cleanupRead worker => p.cleanupRead worker
  | cleanupWrite worker => p.cleanupWrite worker
  | cleanupFinished => p.cleanupFinished
  | stop jobId clock => p.stop jobId clock

/-- The steps that clean up: by a cleanup task, or by `cleanup_finished`. -/
def isCleanup : PoolStep → Bool
  | cleanupRead _ | cleanupWrite _ | cleanupFinished => true
  | _ => false

end PoolStep

/-- Every entry that the step removes or replaces has a worker that has finished. -/
def RemovesFinished (p : Pool) (step : PoolStep) : Prop :=
  ∀ jobId handle, p.jobs.lookup jobId = some handle → (step.apply p).jobs.lookup jobId ≠ some handle →
    p.isFinished handle = true

/-- A cleanup task has read that this job has finished, and has not removed it yet. -/
def Pool.Pending (p : Pool) (jobId : Nat) : Prop := ∃ worker, p.cleanups.lookup worker = some ⟨jobId, true⟩

/-- No job is scheduled again while one of its cleanup tasks stands between its read and its write. -/
def Unraced (p : Pool) : PoolStep → Prop
  | .schedule jobId _ _ _ => jobId ∈ p.jobs ∨ ¬p.Pending jobId
  | _ => True

/-! ## The steps -/

section Steps

variable {p : Pool}

/-- A schedule step adds nothing, or a worker for a job that was not there, with its cleanup task. -/
theorem schedule_cases (p : Pool) (jobId : Nat) (clock : JobContext.Clock) (afterContext afterCount : List Touch) :
    ∃ m, p.schedule jobId clock afterContext afterCount = { p with contextManager := m } ∨
      jobId ∉ p.jobs ∧ p.schedule jobId clock afterContext afterCount =
        { p with
          contextManager := m
          jobs := p.jobs.insert jobId p.spawned
          spawned := p.spawned + 1
          cleanups := p.cleanups.insert p.spawned ⟨jobId, false⟩ } := by
  unfold Pool.schedule
  obtain ⟨scheduled, s⟩ := p.scheduler.schedule jobId clock afterContext afterCount
  refine ⟨s.contextManager, ?_⟩
  cases scheduled with
  | error e => exact .inl rfl
  | ok _ =>
    dsimp only
    by_cases hthere : jobId ∈ p.jobs
    · rw [if_pos hthere]
      exact .inl rfl
    · rw [if_neg hthere]
      exact .inr ⟨hthere, rfl⟩

/-- A cleanup task writes nothing, or removes the job that it has read to be finished, and ends. -/
theorem cleanupWrite_cases (p : Pool) (worker : Nat) :
    p.cleanupWrite worker = p ∨
      ∃ jobId, p.cleanups.lookup worker = some ⟨jobId, true⟩ ∧
        p.cleanupWrite worker = { p with jobs := p.jobs.erase jobId, cleanups := p.cleanups.erase worker } := by
  unfold Pool.cleanupWrite
  split
  next jobId h => exact .inr ⟨jobId, h, rfl⟩
  · exact .inl rfl

@[simp] theorem cleanupRead_jobs (worker : Nat) : (p.cleanupRead worker).jobs = p.jobs := by
  unfold Pool.cleanupRead
  split <;> rfl

/-- A worker that has finished stays so. -/
theorem isFinished_mono {handle : Nat} (step : PoolStep) (h : p.isFinished handle = true) :
    (step.apply p).isFinished handle = true := by
  cases step with
  | schedule jobId clock afterContext afterCount =>
    obtain ⟨m, hs | ⟨-, hs⟩⟩ := schedule_cases p jobId clock afterContext afterCount
    · rw [PoolStep.apply, hs]
      exact h
    · rw [PoolStep.apply, hs]
      exact h
  | context op => exact h
  | finish other =>
    simp only [PoolStep.apply, Pool.finish]
    split
    · simp only [Pool.isFinished, List.contains_cons]
      rw [Pool.isFinished] at h
      rw [h, Bool.or_true]
    · exact h
  | cleanupRead worker =>
    simp only [PoolStep.apply, Pool.cleanupRead]
    split <;> exact h
  | cleanupWrite worker =>
    simp only [PoolStep.apply]
    rcases cleanupWrite_cases p worker with hs | ⟨jobId, -, hs⟩
    · rw [hs]
      exact h
    · rw [hs]
      exact h
  | cleanupFinished => exact h
  | stop jobId clock =>
    simp only [PoolStep.apply, Pool.stop]
    split <;> exact h

/-- **`cleanup_finished` removes finished jobs only**: it reads and removes under one lock. -/
theorem cleanupFinished_finished (p : Pool) : RemovesFinished p .cleanupFinished := by
  intro jobId handle hthere hgone
  simp only [PoolStep.apply, Pool.cleanupFinished, ne_eq] at hgone
  rw [Table.lookup_retain, hthere] at hgone
  by_contra hrunning
  simp [hrunning] at hgone

end Steps

/-! ## What a cleanup task has read -/

/-- A job that a cleanup task is about to remove has finished, if it is there. -/
def Sound (p : Pool) : Prop :=
  ∀ jobId, p.Pending jobId → ∀ handle, p.jobs.lookup jobId = some handle → p.isFinished handle = true

section Invariant

variable {p : Pool}

/-- Fewer tasks between read and write, fewer jobs. -/
theorem Sound.anti (h : Sound p) {p' : Pool} (hfinished : p'.finished = p.finished)
    (hcleanups : ∀ jobId, p'.Pending jobId → p.Pending jobId)
    (hjobs : ∀ jobId handle, p'.jobs.lookup jobId = some handle → p.jobs.lookup jobId = some handle) : Sound p' := by
  intro jobId hpending handle hthere
  have hdone := h jobId (hcleanups jobId hpending) handle (hjobs jobId handle hthere)
  rw [Pool.isFinished, hfinished]
  exact hdone

theorem lookup_of_erase {jobId other handle : Nat} (h : (p.jobs.erase other).lookup jobId = some handle) :
    p.jobs.lookup jobId = some handle := by
  rw [Table.lookup_erase] at h
  split at h
  · cases h
  · exact h

/-- The new task has read nothing yet. -/
theorem sound_schedule (h : Sound p) {jobId : Nat} {clock : JobContext.Clock} {afterContext afterCount : List Touch}
    (hunraced : jobId ∈ p.jobs ∨ ¬p.Pending jobId) : Sound (p.schedule jobId clock afterContext afterCount) := by
  obtain ⟨m, hs | ⟨hnew, hs⟩⟩ := schedule_cases p jobId clock afterContext afterCount
  · rw [hs]
    exact h
  · rw [hs]
    rintro jobId' ⟨worker, hworker⟩ handle hthere
    rw [Table.lookup_insert] at hworker
    have hpending : p.Pending jobId' := by
      split at hworker
      · cases hworker
      · exact ⟨worker, hworker⟩
    rw [Table.lookup_insert] at hthere
    split at hthere
    next heq =>
      rw [heq] at hpending
      exact absurd hpending (hunraced.resolve_left hnew)
    · exact h jobId' hpending handle hthere

/-- What the task reads is true when it reads it. -/
theorem sound_cleanupRead (h : Sound p) (worker : Nat) : Sound (p.cleanupRead worker) := by
  unfold Pool.cleanupRead
  cases hworker : p.cleanups.lookup worker with
  | none => exact h
  | some task =>
    rintro jobId ⟨other, hother⟩ handle hthere
    rw [Table.lookup_insert] at hother
    by_cases heq : other = worker
    · rw [if_pos heq] at hother
      obtain ⟨rfl, hread⟩ := CleanupTask.mk.inj (Option.some.inj hother)
      have hjob : p.jobs.lookup task.jobId = some handle := hthere
      rw [hjob] at hread
      exact hread
    · rw [if_neg heq] at hother
      exact h jobId ⟨other, hother⟩ handle hthere

theorem sound_cleanupWrite (h : Sound p) (worker : Nat) : Sound (p.cleanupWrite worker) := by
  rcases cleanupWrite_cases p worker with hs | ⟨jobId, -, hs⟩
  · rw [hs]
    exact h
  · rw [hs]
    refine h.anti rfl ?_ fun _ _ => lookup_of_erase
    rintro jobId' ⟨other, hother⟩
    rw [Table.lookup_erase] at hother
    split at hother
    · cases hother
    · exact ⟨other, hother⟩

/-- **What the cleanup tasks have read stays true** under every step that schedules no job behind such a read. -/
theorem sound_step (p : Pool) (step : PoolStep) (hunraced : Unraced p step) (h : Sound p) : Sound (step.apply p) := by
  cases step with
  | schedule jobId clock afterContext afterCount => exact sound_schedule h hunraced
  | context op => exact h
  | finish handle =>
    -- a worker that finishes makes nothing wrong that was read
    intro jobId hpending other hthere
    refine isFinished_mono (.finish handle) (h jobId ?_ other ?_)
    · obtain ⟨worker, hworker⟩ := hpending
      refine ⟨worker, ?_⟩
      simp only [PoolStep.apply, Pool.finish] at hworker
      split at hworker <;> exact hworker
    · simp only [PoolStep.apply, Pool.finish] at hthere
      split at hthere <;> exact hthere
  | cleanupRead worker => exact sound_cleanupRead h worker
  | cleanupWrite worker => exact sound_cleanupWrite h worker
  | cleanupFinished =>
    show Sound p.cleanupFinished
    refine h.anti rfl (fun _ hpending => hpending) fun jobId handle hthere => ?_
    rw [Pool.cleanupFinished, Table.lookup_retain] at hthere
    exact (Option.filter_eq_some_iff.mp hthere).1
  | stop jobId clock =>
    simp only [PoolStep.apply, Pool.stop]
    split
    · exact h.anti rfl (fun _ hpending => hpending) fun _ _ => lookup_of_erase
    · exact h

/-- Where the reads are true, a cleanup step removes finished jobs only. -/
theorem cleanup_finished_of_sound (h : Sound p) {step : PoolStep} (hcleanup : step.isCleanup = true) :
    RemovesFinished p step := by
  cases step with
  | cleanupRead worker =>
    intro jobId handle hthere hgone
    refine absurd ?_ hgone
    show (p.cleanupRead worker).jobs.lookup jobId = some handle
    rw [cleanupRead_jobs]
    exact hthere
  | cleanupWrite worker =>
    intro jobId handle hthere hgone
    simp only [PoolStep.apply] at hgone
    rcases cleanupWrite_cases p worker with hs | ⟨jobId', hread, hs⟩
    · rw [hs] at hgone
      exact absurd hthere hgone
    · rw [hs, ne_eq, Table.lookup_erase] at hgone
      by_cases heq : jobId = jobId'
      · subst heq
        exact h jobId ⟨worker, hread⟩ handle hthere
      · rw [if_neg heq] at hgone
        exact absurd hthere hgone
  | cleanupFinished => exact cleanupFinished_finished p
  | schedule => cases hcleanup
  | context => cases hcleanup
  | finish => cases hcleanup
  | stop => cases hcleanup

theorem not_pending_of_empty (h : p.cleanups = ∅) {jobId : Nat} : ¬p.Pending jobId := by
  rintro ⟨worker, hworker⟩
  rw [h, AList.lookup_empty] at hworker
  cases hworker

theorem sound_new (config : SchedulerConfig) (contextManager : ContextManager) :
    Sound (.new config contextManager) := by
  rintro jobId - handle hthere
  rw [Pool.new, AList.lookup_empty] at hthere
  cases hthere

/-- The workers that have finished, and those that have a cleanup task, were spawned. -/
structure Numbered (p : Pool) : Prop where
  finished : ∀ handle ∈ p.finished, handle < p.spawned
  cleanups : ∀ worker ∈ p.cleanups, worker < p.spawned

theorem numbered_step (p : Pool) (step : PoolStep) (h : Numbered p) : Numbered (step.apply p) := by
  cases step with
  | schedule jobId clock afterContext afterCount =>
    obtain ⟨m, hs | ⟨-, hs⟩⟩ := schedule_cases p jobId clock afterContext afterCount
    · rw [PoolStep.apply, hs]
      exact ⟨h.finished, h.cleanups⟩
    · rw [PoolStep.apply, hs]
      refine ⟨fun handle hmem => Nat.lt_succ_of_lt (h.finished handle hmem), fun worker hmem => ?_⟩
      rcases AList.mem_insert _ |>.mp hmem with rfl | hold
      · exact Nat.lt_succ_self _
      · exact Nat.lt_succ_of_lt (h.cleanups worker hold)
  | context op => exact ⟨h.finished, h.cleanups⟩
  | finish handle =>
    simp only [PoolStep.apply, Pool.finish]
    split
    next hlt => exact ⟨List.forall_mem_cons.mpr ⟨hlt, h.finished⟩, h.cleanups⟩
    · exact h
  | cleanupRead worker =>
    simp only [PoolStep.apply, Pool.cleanupRead]
    split
    · exact h
    next task hworker =>
      refine ⟨h.finished, fun other hmem => ?_⟩
      rcases AList.mem_insert _ |>.mp hmem with rfl | hold
      · exact h.cleanups _ (AList.lookup_isSome.mp (Option.isSome_of_mem hworker))
      · exact h.cleanups other hold
  | cleanupWrite worker =>
    simp only [PoolStep.apply]
    rcases cleanupWrite_cases p worker with hs | ⟨jobId, -, hs⟩
    · rw [hs]
      exact h
    · rw [hs]
      exact ⟨h.finished, fun other hmem => h.cleanups other (AList.mem_erase.mp hmem).2⟩
  | cleanupFinished => exact ⟨h.finished, h.cleanups⟩
  | stop jobId clock =>
    simp only [PoolStep.apply, Pool.stop]
    split
    · exact ⟨h.finished, h.cleanups⟩
    · exact h

theorem numbered_new (config : SchedulerConfig) (contextManager : ContextManager) :
    Numbered (.new config contextManager) :=
  ⟨fun _ hmem => absurd hmem List.not_mem_nil, fun worker hmem => absurd hmem (AList.notMem_empty worker)⟩

/-- **The race.** A job that is scheduled again behind the read of a cleanup task is removed by the write of that task
while its worker runs. -/
theorem raced_removes (h : Numbered p) {worker jobId : Nat} {clock : JobContext.Clock}
    {afterContext afterCount : List Touch} (hread : p.cleanups.lookup worker = some ⟨jobId, true⟩)
    (hgone : jobId ∉ p.jobs) (hscheduled : jobId ∈ (p.schedule jobId clock afterContext afterCount).jobs) :
    ¬RemovesFinished (p.schedule jobId clock afterContext afterCount) (.cleanupWrite worker) := by
  obtain ⟨m, hs | ⟨-, hs⟩⟩ := schedule_cases p jobId clock afterContext afterCount
  · rw [hs] at hscheduled
    exact absurd hscheduled hgone
  · rw [hs]
    have hworker : worker < p.spawned := h.cleanups worker (AList.lookup_isSome.mp (Option.isSome_of_mem hread))
    have hrunning : p.isFinished p.spawned ≠ true := by
      rw [Pool.isFinished, ne_eq, List.contains_iff_mem]
      exact fun hmem => Nat.lt_irrefl _ (h.finished _ hmem)
    intro hfinished
    refine hrunning (hfinished jobId p.spawned (AList.lookup_insert _) ?_)
    simp [PoolStep.apply, Pool.cleanupWrite, AList.lookup_insert_ne hworker.ne, hread]

end Invariant

/-- **Cleanup removes finished jobs only**, in every run in which no job is scheduled again between the read and the
write of one of its cleanup tasks. -/
theorem cleanup_removes_finished (config : SchedulerConfig) (contextManager : ContextManager) {steps : List PoolStep}
    (hunraced : Along PoolStep.apply Unraced (.new config contextManager) steps) :
    Along PoolStep.apply (fun p step => step.isCleanup = true → RemovesFinished p step) (.new config contextManager)
      steps := by
  refine along_inv sound_step ?_ steps (sound_new config contextManager) hunraced
  exact fun p step _ hsound hcleanup => cleanup_finished_of_sound hsound hcleanup

/-- A job gets stuck, and its worker ends; its cleanup task has read so when `cleanup_finished` removes the job, the job
is scheduled again, and the task removes it. -/
def restart : List PoolStep :=
  [.context (.createJob 7 0 [] []), .schedule 7 ⟨1, 1⟩ [] [], .context (.updateContext 7 (.markStuck ⟨2, 2⟩ [])),
    .finish 0, .cleanupRead 0, .cleanupFinished, .schedule 7 ⟨3, 3⟩ [] []]

theorem cleanup_removes_finished_restart :
    Along PoolStep.apply (fun p step => step.isCleanup = true → RemovesFinished p step)
      (.new ⟨2, none, 0⟩ (.new 2)) (restart.take 6 ++ [.cleanupWrite 0, .schedule 7 ⟨3, 3⟩ [] []]) := by
  refine cleanup_removes_finished _ _ ⟨trivial, .inr (not_pending_of_empty rfl), trivial, trivial, trivial,
    trivial, trivial, .inr (not_pending_of_empty rfl), trivial⟩

theorem restarted_job_removed :
    ¬∀ (config : SchedulerConfig) (contextManager : ContextManager) (steps : List PoolStep),
      Along PoolStep.apply (fun p step => step.isCleanup = true → RemovesFinished p step) (.new config contextManager)
        steps := by
  intro h
  have hlast := along_at (h ⟨2, none, 0⟩ (.new 2) (restart ++ [.cleanupWrite 0])) rfl 7 1
  revert hlast
  decide

end Ironclaw.Agent

import Ironclaw.Agent.Scheduler

/-!
# Stopping a job

`stop` takes the handle of a job out of the map, moves the job to `Cancelled` and persists this status, while the worker
and other tasks move the job too. Statuses are written by tasks of their own, so that a write may land at any later
time.

- `settled_step`: a job that is cancelled in memory stays so;
- `marked_step`: where a cancellation in the store comes from;
- `stop_consistent_iff`: when the store agrees with the memory.
-/

namespace Ironclaw.Agent

open Text Run Context

/-- How far a call of `stop` is: the handle is taken and the worker told, or the state is updated. -/
inductive StopPhase
  | signalled
  | updated
  deriving DecidableEq

/-- What a worker makes of its job. -/
inductive WorkerResult
  | completed
  | failed (reason : Str)
  | stuck (reason : Str)

/-- The call on the context. -/
def WorkerResult.op (clock : JobContext.Clock) : WorkerResult → JobOp
  | completed => .transitionTo clock .completed (some "Job completed successfully".toList)
  | failed reason => .transitionTo clock .failed (some reason)
  | stuck reason => .markStuck clock reason

def WorkerResult.status : WorkerResult → JobState
  | completed => .completed
  | failed _ => .failed
  | stuck _ => .stuck

/-- The scheduler, the call of `stop` that holds the lock of the scheduled jobs, and the statuses that are being
written. -/
structure StopSystem where
  scheduler : Scheduler
  stopping : Option (Nat × StopPhase)
  writes : List (Nat × JobState)

/-- A dispatch creates, persists or starts a job; a worker or another task moves it, or it is removed; the handle of a
finished job is dropped; `stop` begins, updates the state or persists it; a write lands. -/
inductive StopEvent
  | create (jobId : Nat) (now : Int) (userId title description : Str)
  | save (jobId : Nat)
  | start (jobId : Nat) (clock : JobContext.Clock)
  | worker (jobId : Nat) (clock : JobContext.Clock) (result : WorkerResult)
  | other (jobId : Nat) (op : JobOp)
  | remove (jobId : Nat)
  | cleanup (jobId : Nat)
  | stop (jobId : Nat)
  | update (clock : JobContext.Clock)
  | persist
  | land (n : Nat)

/-- `update_job_status` on the rows. -/
def updateJobStatus (rows : List JobContext) (jobId : Nat) (status : JobState) : List JobContext :=
  rows.map fun row => if row.jobId = jobId then { row with state := status } else row

namespace StopSystem

variable (s : StopSystem)

def manager : ContextManager := s.scheduler.contextManager

def withManager (m : ContextManager) : StopSystem := { s with scheduler := s.scheduler.withManager m }

def rows : List JobContext := s.scheduler.store.getD []

/-- The id is new. -/
def unused (jobId : Nat) : Bool :=
  (s.manager.contexts.lookup jobId).isNone && s.rows.all (fun row => row.jobId != jobId) &&
    s.writes.all (fun write => write.1 != jobId) && s.stopping.all fun call => call.1 != jobId

/-- A status is given to a task that writes it, where there is a store. -/
def persistStatus (jobId : Nat) (status : JobState) : StopSystem :=
  if s.scheduler.store.isSome then { s with writes := s.writes ++ [(jobId, status)] } else s

/-- The worker moves its job, and persists the status when the move is permitted. -/
def mark (jobId : Nat) (clock : JobContext.Clock) (result : WorkerResult) : StopSystem :=
  match s.manager.updateContext jobId (JobOp.apply · (result.op clock)) with
  | .error _ => s
  | .ok (.error _, m) => s.withManager m
  | .ok (.ok _, m) => (s.withManager m).persistStatus jobId result.status

/-- `stop` moves the job; a refused move is only logged. -/
def updateState (jobId : Nat) (clock : JobContext.Clock) : StopSystem :=
  match s.manager.updateContext jobId (JobOp.apply ·
    (.transitionTo clock .cancelled (some "Stopped by scheduler".toList))) with
  | .error _ => { s with stopping := none }
  | .ok (_, m) => { s.withManager m with stopping := some (jobId, .updated) }

def step : StopEvent → StopSystem
  | .create jobId now userId title description =>
    if s.unused jobId then
      s.withManager ((ManagerOp.createJobForUser jobId now userId title description).apply s.manager)
    else s
  | .save jobId =>
    match s.manager.contexts.lookup jobId with
    | none => s
    | some ctx =>
      match s.scheduler.saveJob jobId ctx none with
      | .error _ => s
      | .ok scheduler => { s with scheduler := scheduler }
  | .start jobId clock => if s.stopping.isNone then { s with scheduler := (s.scheduler.start jobId clock).2 } else s
  | .worker jobId clock result => s.mark jobId clock result
  | .other jobId op => s.withManager ((ManagerOp.updateContext jobId op).apply s.manager)
  | .remove jobId => s.withManager ((ManagerOp.removeJob jobId).apply s.manager)
  | .cleanup jobId =>
    if s.stopping.isNone then { s with scheduler := { s.scheduler with jobs := s.scheduler.jobs.erase jobId } } else s
  | .stop jobId =>
    if s.stopping.isNone && s.scheduler.jobs.contains jobId then
      { s with
        scheduler := { s.scheduler with jobs := s.scheduler.jobs.erase jobId }
        stopping := some (jobId, .signalled) }
    else s
  | .update clock =>
    match s.stopping with
    | some (jobId, .signalled) => s.updateState jobId clock
    | _ => s
  | .persist =>
    match s.stopping with
    | some (jobId, .updated) => { s.persistStatus jobId .cancelled with stopping := none }
    | _ => s
  | .land n =>
    match s.writes[n]?, s.scheduler.store with
    | some (jobId, status), some rows =>
      { s with
        scheduler := { s.scheduler with store := some (updateJobStatus rows jobId status) }
        writes := s.writes.eraseIdx n }
    | _, _ => s

/-- No jobs, with a store or without. -/
def init (config : SchedulerConfig) (maxJobs : Nat) (hasStore : Bool) : StopSystem where
  scheduler :=
    { config := config
      contextManager := .new maxJobs
      store := if hasStore then some [] else none
      jobs := [] }
  stopping := none
  writes := []

/-- In memory the job is cancelled, if it is there. -/
def Settled (jobId : Nat) : Prop := ∀ ctx, s.manager.contexts.lookup jobId = some ctx → ctx.state = .cancelled

/-- The store says that the job is cancelled, or is going to: `stop` is about to persist it, it is being written, or it
is the stored status. -/
def Marked (jobId : Nat) : Prop :=
  (s.scheduler.store.isSome = true ∧ s.stopping = some (jobId, .updated)) ∨ (jobId, JobState.cancelled) ∈ s.writes ∨
    ∃ row ∈ s.rows, row.jobId = jobId ∧ row.state = .cancelled

/-- What is persisted as cancelled is cancelled in memory. -/
def Consistent : Prop := ∀ jobId, s.Marked jobId → s.Settled jobId

/-- When `stop` updates the state of a job that is there, and there is a store, then the job may still be cancelled, or
is so already. -/
def Permitted : StopEvent → Prop
  | .update _ => ∀ jobId ctx, s.scheduler.store.isSome = true → s.stopping = some (jobId, .signalled) →
      s.manager.contexts.lookup jobId = some ctx → ctx.state.canTransitionTo .cancelled = true ∨ ctx.state = .cancelled
  | _ => True

end StopSystem

/-! ## The jobs in memory -/

/-- Every context is kept under its own id. -/
def Keyed (m : ContextManager) : Prop := ∀ jobId ctx, m.contexts.lookup jobId = some ctx → ctx.jobId = jobId

section Memory

variable {m : ContextManager}

theorem step_jobId (ctx : JobContext) (op : JobOp) : (Context.step ctx op).jobId = ctx.jobId := by
  rcases step_cases ctx op with hs | ⟨clock, newState, reason, -, -, -, hs⟩
  · rw [hs]
  · rw [hs]
    cases op <;> rfl

/-- A job after a call on one of the jobs. -/
theorem lookup_updateContext {jobId j : Nat} {op : JobOp} {ctx' : JobContext}
    (h : ((ManagerOp.updateContext jobId op).apply m).contexts.lookup j = some ctx') :
    ∃ ctx, m.contexts.lookup j = some ctx ∧ (ctx' = ctx ∨ ctx' = Context.step ctx op) := by
  simp only [ManagerOp.apply, ContextManager.updateContext] at h
  cases hctx : m.contexts.lookup jobId with
  | none =>
    simp only [hctx] at h
    exact ⟨ctx', h, Or.inl rfl⟩
  | some ctx =>
    simp only [hctx] at h
    change AList.lookup j (Table.modify jobId (fun ctx => (op.apply ctx).2) m.contexts) = some ctx' at h
    rw [Table.lookup_modify] at h
    split at h
    · obtain ⟨old, hold, rfl⟩ := Option.map_eq_some_iff.mp h
      exact ⟨old, hold, Or.inr rfl⟩
    · exact ⟨ctx', h, Or.inl rfl⟩

theorem lookup_removeJob {jobId j : Nat} {ctx : JobContext}
    (h : ((ManagerOp.removeJob jobId).apply m).contexts.lookup j = some ctx) : m.contexts.lookup j = some ctx := by
  simp only [ManagerOp.apply, ContextManager.removeJob] at h
  cases hctx : m.contexts.lookup jobId with
  | none =>
    simp only [hctx] at h
    exact h
  | some old =>
    simp only [hctx] at h
    change AList.lookup j (m.contexts.erase jobId) = some ctx at h
    rw [Table.lookup_erase] at h
    split at h
    · cases h
    · exact h

theorem lookup_createJob {jobId j : Nat} {now : Int} {userId title description : Str} {ctx : JobContext}
    (h : ((ManagerOp.createJobForUser jobId now userId title description).apply m).contexts.lookup j = some ctx) :
    m.contexts.lookup j = some ctx ∨ j = jobId ∧ ctx = .withUser jobId now userId title description := by
  simp only [ManagerOp.apply, ContextManager.createJobForUser, ContextManager.insertContext] at h
  split at h
  · exact Or.inl h
  · change AList.lookup j (m.contexts.insert jobId _) = some ctx at h
    rw [Table.lookup_insert] at h
    split at h
    next heq => exact Or.inr ⟨heq, (Option.some.inj h).symm⟩
    next => exact Or.inl h

/-- Starting a job is a call on its context. -/
theorem manager_start (s : Scheduler) (jobId : Nat) (clock : JobContext.Clock) :
    (s.start jobId clock).2.contextManager = (ManagerOp.updateContext jobId
      (.transitionTo clock .inProgress (some "Scheduled for execution".toList))).apply s.contextManager ∧
      (s.start jobId clock).2.store = s.store := by
  unfold Scheduler.start
  simp only [ManagerOp.apply, ContextManager.updateContext, JobOp.apply]
  cases s.contextManager.contexts.lookup jobId with
  | none => exact ⟨rfl, rfl⟩
  | some ctx =>
    simp only
    cases (ctx.transitionTo clock .inProgress (some "Scheduled for execution".toList)).1 <;> exact ⟨rfl, rfl⟩

end Memory

/-! ## One event -/

section Events

variable {s : StopSystem}

/-- A worker's move is a call on the context of its job, and is persisted at most. -/
theorem mark_cases (s : StopSystem) (jobId : Nat) (clock : JobContext.Clock) (result : WorkerResult) :
    (s.mark jobId clock result).manager = (ManagerOp.updateContext jobId (result.op clock)).apply s.manager ∧
      (s.mark jobId clock result).scheduler.store = s.scheduler.store ∧
      (s.mark jobId clock result).stopping = s.stopping ∧
      ((s.mark jobId clock result).writes = s.writes ∨
        (s.mark jobId clock result).writes = s.writes ++ [(jobId, result.status)]) := by
  unfold StopSystem.mark
  simp only [ManagerOp.apply, ContextManager.updateContext]
  cases s.manager.contexts.lookup jobId with
  | none => exact ⟨rfl, rfl, rfl, Or.inl rfl⟩
  | some ctx =>
    simp only
    cases ((result.op clock).apply ctx).1 with
    | error e => exact ⟨rfl, rfl, rfl, Or.inl rfl⟩
    | ok u =>
      simp only [StopSystem.persistStatus]
      split
      · exact ⟨rfl, rfl, rfl, Or.inr rfl⟩
      · exact ⟨rfl, rfl, rfl, Or.inl rfl⟩

/-- `stop` moves the job, or finds it gone. -/
theorem updateState_cases (s : StopSystem) (jobId : Nat) (clock : JobContext.Clock) :
    (s.updateState jobId clock).manager = (ManagerOp.updateContext jobId
      (.transitionTo clock .cancelled (some "Stopped by scheduler".toList))).apply s.manager ∧
      (s.updateState jobId clock).scheduler.store = s.scheduler.store ∧
      (s.updateState jobId clock).writes = s.writes ∧
      (s.updateState jobId clock).stopping =
        (s.manager.contexts.lookup jobId).map fun _ => (jobId, StopPhase.updated) := by
  unfold StopSystem.updateState
  simp only [ManagerOp.apply, ContextManager.updateContext]
  cases s.manager.contexts.lookup jobId with
  | none => exact ⟨rfl, rfl, rfl, rfl⟩
  | some ctx => exact ⟨rfl, rfl, rfl, rfl⟩

/-- What an event does to the jobs in memory: nothing, a new job, a call on a job, or a removal. -/
theorem manager_step (s : StopSystem) (ev : StopEvent) : (s.step ev).manager = s.manager ∨
    (∃ jobId now userId title description, s.unused jobId = true ∧
      (s.step ev).manager = (ManagerOp.createJobForUser jobId now userId title description).apply s.manager) ∨
    (∃ jobId op, (s.step ev).manager = (ManagerOp.updateContext jobId op).apply s.manager) ∨
    ∃ jobId, (s.step ev).manager = (ManagerOp.removeJob jobId).apply s.manager := by
  cases ev with
  | create jobId now userId title description =>
    simp only [StopSystem.step]
    split
    next hunused => exact Or.inr (Or.inl ⟨jobId, now, userId, title, description, hunused, rfl⟩)
    next => exact Or.inl rfl
  | save jobId =>
    refine Or.inl ?_
    simp only [StopSystem.step]
    split
    next => rfl
    next ctx hctx =>
      rcases saveJob_cases s.scheduler jobId ctx none with ⟨-, e, hsave⟩ | ⟨-, scheduler, hsave, -, hmanager, -⟩
      · rw [hsave]
      · rw [hsave]
        exact hmanager
  | start jobId clock =>
    simp only [StopSystem.step]
    split
    next => exact Or.inr (Or.inr (Or.inl ⟨jobId, _, (manager_start s.scheduler jobId clock).1⟩))
    next => exact Or.inl rfl
  | worker jobId clock result => exact Or.inr (Or.inr (Or.inl ⟨jobId, _, (mark_cases s jobId clock result).1⟩))
  | other jobId op => exact Or.inr (Or.inr (Or.inl ⟨jobId, op, rfl⟩))
  | remove jobId => exact Or.inr (Or.inr (Or.inr ⟨jobId, rfl⟩))
  | cleanup jobId =>
    refine Or.inl ?_
    simp only [StopSystem.step]
    split <;> rfl
  | stop jobId =>
    refine Or.inl ?_
    simp only [StopSystem.step]
    split <;> rfl
  | update clock =>
    simp only [StopSystem.step]
    split
    next jobId _ => exact Or.inr (Or.inr (Or.inl ⟨jobId, _, (updateState_cases s jobId clock).1⟩))
    next => exact Or.inl rfl
  | persist =>
    refine Or.inl ?_
    simp only [StopSystem.step]
    split
    next jobId _ =>
      simp only [StopSystem.persistStatus]
      split <;> rfl
    next => rfl
  | land n =>
    refine Or.inl ?_
    simp only [StopSystem.step]
    split <;> rfl

theorem keyed_step (h : Keyed s.manager) (ev : StopEvent) : Keyed (s.step ev).manager := by
  intro j ctx' hctx'
  rcases manager_step s ev with heq | ⟨jobId, now, userId, title, description, -, heq⟩ | ⟨jobId, op, heq⟩ |
    ⟨jobId, heq⟩ <;>
    rw [heq] at hctx'
  · exact h j ctx' hctx'
  · rcases lookup_createJob hctx' with hold | ⟨rfl, rfl⟩
    · exact h j ctx' hold
    · rfl
  · obtain ⟨ctx, hctx, rfl | rfl⟩ := lookup_updateContext hctx'
    · exact h j ctx' hctx
    · exact (step_jobId ctx op).trans (h j ctx hctx)
  · exact h j ctx' (lookup_removeJob hctx')

/-- A job that is cancelled in memory stays so. -/
theorem settled_step {jobId : Nat} (h : s.Settled jobId) (hused : s.unused jobId = false) (ev : StopEvent) :
    (s.step ev).Settled jobId := by
  intro ctx' hctx'
  rcases manager_step s ev with heq | ⟨k, now, userId, title, description, hunused, heq⟩ | ⟨k, op, heq⟩ | ⟨k, heq⟩ <;>
    rw [heq] at hctx'
  · exact h ctx' hctx'
  · rcases lookup_createJob hctx' with hold | ⟨rfl, rfl⟩
    · exact h ctx' hold
    · rw [hused] at hunused
      cases hunused
  · obtain ⟨ctx, hctx, rfl | rfl⟩ := lookup_updateContext hctx'
    · exact h ctx' hctx
    · have hcancelled := h ctx hctx
      rw [step_of_terminal op (by rw [hcancelled]; rfl)]
      exact hcancelled
  · exact h ctx' (lookup_removeJob hctx')

/-- A mark belongs to an id that is in use. -/
theorem used_of_marked {jobId : Nat} (h : s.Marked jobId) : s.unused jobId = false := by
  by_contra hunused
  simp only [Bool.not_eq_false, StopSystem.unused, Bool.and_eq_true, List.all_eq_true, Option.all_eq_true] at hunused
  obtain ⟨⟨⟨-, hrows⟩, hwrites⟩, hstopping⟩ := hunused
  rcases h with ⟨-, h⟩ | h | ⟨row, hrow, hid, -⟩
  · simpa using hstopping _ h
  · simpa using hwrites _ h
  · simpa [hid] using hrows row hrow

theorem marked_congr {s' : StopSystem} (hstore : s'.scheduler.store = s.scheduler.store)
    (hstopping : s'.stopping = s.stopping)
    (hwrites : s'.writes = s.writes) {jobId : Nat} (h : s'.Marked jobId) : s.Marked jobId := by
  simp only [StopSystem.Marked, StopSystem.rows, hstore, hstopping, hwrites] at h
  exact h

/-- A status that is given to a writer. -/
theorem marked_persistStatus {jobId k : Nat} {status : JobState} (h : (s.persistStatus k status).Marked jobId) :
    s.Marked jobId ∨ (s.scheduler.store.isSome = true ∧ jobId = k ∧ status = .cancelled) := by
  unfold StopSystem.persistStatus at h
  split at h
  next hstore =>
    rcases h with h | h | h
    · exact Or.inl (Or.inl h)
    · rcases List.mem_append.mp h with h | h
      · exact Or.inl (Or.inr (Or.inl h))
      · obtain ⟨rfl, hstatus⟩ := Prod.mk.inj (List.mem_singleton.mp h)
        exact Or.inr ⟨hstore, rfl, hstatus.symm⟩
    · exact Or.inl (Or.inr (Or.inr h))
  next => exact Or.inl h

theorem mem_updateJobStatus {rows : List JobContext} {k : Nat} {status : JobState} {row' : JobContext}
    (h : row' ∈ updateJobStatus rows k status) :
    row' ∈ rows ∨ (row'.jobId = k ∧ row'.state = status) := by
  obtain ⟨row, hrow, rfl⟩ := List.mem_map.mp h
  split
  next hid => exact Or.inr ⟨hid, rfl⟩
  next => exact Or.inl hrow

/-- A cancellation in the store was on its way there, or is that of a job that was persisted when it was cancelled, or
of a job whose state `stop` has just updated. -/
theorem marked_step (hkeyed : Keyed s.manager) (ev : StopEvent) {jobId : Nat} (h : (s.step ev).Marked jobId) :
    s.Marked jobId ∨ (∃ ctx, s.manager.contexts.lookup jobId = some ctx ∧ ctx.state = .cancelled) ∨
      ∃ clock, ev = .update clock ∧ s.scheduler.store.isSome = true ∧ s.stopping = some (jobId, .signalled) ∧
        (s.manager.contexts.lookup jobId).isSome = true := by
  cases ev with
  | create k now userId title description =>
    refine Or.inl ?_
    simp only [StopSystem.step] at h
    split at h <;> exact marked_congr rfl rfl rfl h
  | save k =>
    simp only [StopSystem.step] at h
    split at h
    next => exact Or.inl h
    next ctx hctx =>
      cases hstore : s.scheduler.store with
      | none =>
        simp only [Scheduler.saveJob, hstore] at h
        exact Or.inl h
      | some rows =>
        simp only [Scheduler.saveJob, hstore] at h
        rcases h with ⟨-, h⟩ | h | ⟨row, hrow, hid, hstate⟩
        · exact Or.inl (Or.inl ⟨by rw [hstore]; rfl, h⟩)
        · exact Or.inl (Or.inr (Or.inl h))
        · rcases List.mem_append.mp hrow with hrow | hrow
          · refine Or.inl (Or.inr (Or.inr ⟨row, ?_, hid, hstate⟩))
            rw [StopSystem.rows, hstore]
            exact hrow
          · obtain rfl := List.mem_singleton.mp hrow
            obtain rfl : k = jobId := (hkeyed k row hctx).symm.trans hid
            exact Or.inr (Or.inl ⟨row, hctx, hstate⟩)
  | start k clock =>
    refine Or.inl ?_
    simp only [StopSystem.step] at h
    split at h
    next =>
      have hstore : ({ s with scheduler := (s.scheduler.start k clock).2 } : StopSystem).scheduler.store =
        s.scheduler.store :=
        (manager_start s.scheduler k clock).2
      exact marked_congr hstore rfl rfl h
    next => exact h
  | worker k clock result =>
    refine Or.inl ?_
    obtain ⟨-, hstore, hstopping, hwrites⟩ := mark_cases s k clock result
    rcases hwrites with hwrites | hwrites
    · exact marked_congr hstore hstopping hwrites h
    · have hstatus : result.status ≠ .cancelled := by cases result <;> simp [WorkerResult.status]
      change (s.mark k clock result).Marked jobId at h
      simp only [StopSystem.Marked, StopSystem.rows, hstore, hstopping, hwrites, List.mem_append, List.mem_singleton,
        Prod.mk.injEq] at h
      rcases h with h | (h | ⟨-, h⟩) | h
      · exact Or.inl h
      · exact Or.inr (Or.inl h)
      · exact absurd h.symm hstatus
      · exact Or.inr (Or.inr h)
  | other k op => exact Or.inl (marked_congr rfl rfl rfl h)
  | remove k => exact Or.inl (marked_congr rfl rfl rfl h)
  | cleanup k =>
    refine Or.inl ?_
    simp only [StopSystem.step] at h
    split at h <;> exact marked_congr rfl rfl rfl h
  | stop k =>
    refine Or.inl ?_
    simp only [StopSystem.step] at h
    split at h
    next =>
      rcases h with ⟨-, h⟩ | h
      · cases h
      · exact Or.inr h
    next => exact h
  | update clock =>
    simp only [StopSystem.step] at h
    split at h
    next k hstopping =>
      obtain ⟨-, hstore, hwrites, hnow⟩ := updateState_cases s k clock
      simp only [StopSystem.Marked, StopSystem.rows, hstore, hwrites, hnow] at h
      rcases h with ⟨hsome, h⟩ | h
      · obtain ⟨ctx, hctx, heq⟩ := Option.map_eq_some_iff.mp h
        obtain rfl := (Prod.mk.inj heq).1
        exact Or.inr (Or.inr ⟨clock, rfl, hsome, hstopping, by rw [hctx]; rfl⟩)
      · exact Or.inl (Or.inr h)
    next => exact Or.inl h
  | persist =>
    refine Or.inl ?_
    simp only [StopSystem.step] at h
    split at h
    next k hstopping =>
      have hpersisted : (s.persistStatus k .cancelled).Marked jobId := by
        rcases h with ⟨-, h⟩ | h
        · cases h
        · exact Or.inr h
      rcases marked_persistStatus hpersisted with h | ⟨hstore, rfl, -⟩
      · exact h
      · exact Or.inl ⟨hstore, hstopping⟩
    next => exact h
  | land n =>
    refine Or.inl ?_
    simp only [StopSystem.step] at h
    split at h
    next k status rows hwrite hstore =>
      rcases h with ⟨-, h⟩ | h | ⟨row, hrow, hid, hstate⟩
      · exact Or.inl ⟨by rw [hstore]; rfl, h⟩
      · exact Or.inr (Or.inl (List.mem_of_mem_eraseIdx h))
      · rcases mem_updateJobStatus hrow with hrow | ⟨hid', hstate'⟩
        · refine Or.inr (Or.inr ⟨row, ?_, hid, hstate⟩)
          rw [StopSystem.rows, hstore]
          exact hrow
        · have hmem := List.mem_of_getElem? hwrite
          rw [← hid', hid, ← hstate', hstate] at hmem
          exact Or.inr (Or.inl hmem)
    next => exact h

end Events

/-! ## Every run -/

section Runs

variable {s : StopSystem}

/-- The job that `stop` moves is cancelled then, if it may be. -/
theorem settled_update {clock : JobContext.Clock} {jobId : Nat} (hstopping : s.stopping = some (jobId, .signalled))
    (hpermitted : ∀ ctx, s.manager.contexts.lookup jobId = some ctx →
      ctx.state.canTransitionTo .cancelled = true ∨ ctx.state = .cancelled) :
    (s.step (.update clock)).Settled jobId := by
  intro ctx' hctx'
  simp only [StopSystem.step, hstopping] at hctx'
  rw [(updateState_cases s jobId clock).1] at hctx'
  simp only [ManagerOp.apply, ContextManager.updateContext] at hctx'
  cases hctx : s.manager.contexts.lookup jobId with
  | none =>
    simp only [hctx] at hctx'
    change AList.lookup jobId s.manager.contexts = some ctx' at hctx'
    rw [hctx] at hctx'
    cases hctx'
  | some ctx =>
    simp only [hctx] at hctx'
    change AList.lookup jobId (Table.modify jobId _ s.manager.contexts) = some ctx' at hctx'
    rw [Table.lookup_modify, if_pos rfl, hctx] at hctx'
    obtain rfl := Option.some.inj hctx'
    refine (transitionTo_state clock .cancelled _).trans ?_
    rcases hpermitted ctx hctx with hcan | hcancelled
    · rw [hcan]
      rfl
    · rw [hcancelled]
      rfl

theorem consistent_step (h : s.Consistent) (hkeyed : Keyed s.manager) {ev : StopEvent} (hev : s.Permitted ev) :
    (s.step ev).Consistent := by
  intro jobId hmarked
  rcases marked_step hkeyed ev hmarked with hold | ⟨ctx, hctx, hcancelled⟩ | ⟨clock, rfl, hstore, hstopping, -⟩
  · exact settled_step (h jobId hold) (used_of_marked hold) ev
  · have hsettled : s.Settled jobId := by
      intro ctx' hctx'
      obtain rfl : ctx = ctx' := Option.some.inj (hctx.symm.trans hctx')
      exact hcancelled
    refine settled_step hsettled ?_ ev
    simp [StopSystem.unused, hctx]
  · exact settled_update hstopping fun ctx hctx => hev jobId ctx hstore hstopping hctx

/-- A state after which the store agrees with the memory was a permitted one. -/
theorem permitted_of_consistent {ev : StopEvent} (h : (s.step ev).Consistent) : s.Permitted ev := by
  cases ev with
  | update clock =>
    intro jobId ctx hstore hstopping hctx
    obtain ⟨hmanager, hstore', -, hnow⟩ := updateState_cases s jobId clock
    have hstep : s.step (.update clock) = s.updateState jobId clock := by
      simp only [StopSystem.step, hstopping]
    have hmarked : (s.step (.update clock)).Marked jobId := by
      rw [hstep]
      exact Or.inl ⟨by rw [hstore', hstore], by rw [hnow, hctx]; rfl⟩
    have hlookup : (s.step (.update clock)).manager.contexts.lookup jobId =
        some (ctx.transitionTo clock .cancelled (some "Stopped by scheduler".toList)).2 := by
      rw [hstep, hmanager]
      simp only [ManagerOp.apply, ContextManager.updateContext, hctx]
      change AList.lookup jobId (Table.modify jobId _ s.manager.contexts) = _
      rw [Table.lookup_modify, if_pos rfl, hctx]
      rfl
    have hcancelled := (transitionTo_state clock .cancelled _).symm.trans (h jobId hmarked _ hlookup)
    cases hcan : ctx.state.canTransitionTo .cancelled with
    | true => exact Or.inl rfl
    | false =>
      rw [hcan] at hcancelled
      exact Or.inr hcancelled
  | _ => trivial

/-- **Stopping a job.** In every state of a run, what is persisted as cancelled is cancelled in memory, exactly when
each `stop` that updates the state of its job finds one that may be cancelled, or is so already. -/
theorem stop_consistent_iff (config : SchedulerConfig) (maxJobs : Nat) (hasStore : Bool) (events : List StopEvent) :
    (∀ pre, pre <+: events → (run StopSystem.step (.init config maxJobs hasStore) pre).Consistent) ↔
      Along StopSystem.step StopSystem.Permitted (.init config maxJobs hasStore) events := by
  have hinit : (StopSystem.init config maxJobs hasStore).Consistent ∧
      Keyed (StopSystem.init config maxJobs hasStore).manager := by
    constructor
    · rintro jobId (⟨-, h⟩ | h | ⟨row, h, -⟩)
      · cases h
      · cases h
      · cases hasStore <;> simp [StopSystem.rows, StopSystem.init] at h
    · intro jobId ctx hctx
      simp [StopSystem.manager, StopSystem.init, ContextManager.new] at hctx
  exact states_iff (I := fun s => s.Consistent ∧ Keyed s.manager) (S := StopSystem.Consistent)
    (fun s ev h hev => ⟨consistent_step h.1 h.2 hev, keyed_step h.2 ev⟩) (fun s h => h.1)
    (fun s ev _ h => permitted_of_consistent h) events hinit

/-- A job that completes just before it is stopped, and whose writes land in order. -/
def completedThenStopped : List StopEvent :=
  [.create 7 0 "alice".toList "t".toList "d".toList, .save 7, .start 7 ⟨1, 1⟩, .worker 7 ⟨2, 2⟩ .completed,
    .land 0, .stop 7, .update ⟨3, 3⟩, .persist, .land 0]

/-- The job is completed in memory, and cancelled in the store. -/
theorem completed_job_is_stored_cancelled :
    ¬(run StopSystem.step (.init ⟨5, none, 0⟩ 5 true) completedThenStopped).Consistent ∧
    (run StopSystem.step (.init ⟨5, none, 0⟩ 5 true) completedThenStopped).rows.map JobContext.state = [.cancelled] ∧
    ((run StopSystem.step (.init ⟨5, none, 0⟩ 5 true) completedThenStopped).manager.contexts.lookup 7).map
      JobContext.state =
      some .completed := by
  have hrows : (run StopSystem.step (.init ⟨5, none, 0⟩ 5 true) completedThenStopped).rows.map
      (fun row => (row.jobId, row.state)) = [(7, .cancelled)] := by decide
  have hmemory : ((run StopSystem.step (.init ⟨5, none, 0⟩ 5 true) completedThenStopped).manager.contexts.lookup 7).map
      JobContext.state = some .completed := by decide
  refine ⟨fun h => ?_, by decide, hmemory⟩
  obtain ⟨ctx, hctx, hstate⟩ := Option.map_eq_some_iff.mp hmemory
  have hmem : (7, JobState.cancelled) ∈ (run StopSystem.step (.init ⟨5, none, 0⟩ 5 true) completedThenStopped).rows.map
      fun row => (row.jobId, row.state) := by
    rw [hrows]
    exact List.mem_singleton.mpr rfl
  obtain ⟨row, hrow, heq⟩ := List.mem_map.mp hmem
  have hcancelled := h 7 (Or.inr (Or.inr ⟨row, hrow, (Prod.mk.inj heq).1, (Prod.mk.inj heq).2⟩)) ctx hctx
  rw [hcancelled] at hstate
  cases hstate

end Runs

end Ironclaw.Agent

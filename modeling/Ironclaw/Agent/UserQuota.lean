import Ironclaw.Agent.Scheduler

/-!
# The jobs of one user

Dispatches of many users run beside each other, and workers move the jobs that are started. A dispatch creates its job,
persists it, takes the lock of the scheduled jobs, counts the jobs of its user and starts the job; between any two of
these steps other tasks may act.

- `advance_decided`: where a dispatch is decided;
- `decision_iff`: when the decision is the one that the limit asks for;
- `running_bound`: how many jobs of a user run;
- `user_quota_iff`: both for every run.
-/

namespace Ironclaw.Agent

open Text Run Context

/-! ## Dispatches in flight -/

inductive DispatchEnd
  | scheduled
  | userLimit (max : Nat)
  | failed (e : JobError)
  deriving DecidableEq

/-- How far a dispatch is: its job is created, to be persisted, persisted; it holds the lock and is about to count, or
is within the limits; it has ended. -/
inductive DispatchPhase
  | created
  | updated (ctx : JobContext)
  | saved
  | counting (max : Nat) (userId : Str)
  | checked
  | ended (result : DispatchEnd)
  deriving DecidableEq

namespace DispatchPhase

/-- The dispatch holds the lock of the scheduled jobs. -/
def holdsLock : DispatchPhase → Bool
  | counting _ _ | checked => true
  | _ => false

/-- It is known whether the dispatch is within the limit of its user. -/
def decided : DispatchPhase → Bool
  | checked | ended _ => true
  | _ => false

def counts : DispatchPhase → Bool
  | counting _ _ => true
  | _ => false

end DispatchPhase

structure DispatchCall where
  userId : Str
  phase : DispatchPhase
  deriving DecidableEq

/-- The next step of a dispatch, with what it gets from outside. -/
inductive CallStep
  | applyMetadata (metadata : Option Json)
  | saveJob (saveError : Option Str)
  | enter
  | count
  | start (clock : JobContext.Clock)

namespace Scheduler

variable (s : Scheduler) (jobId : Nat)

/-- The first checks under the lock. -/
def enter : DispatchPhase :=
  if s.jobs.contains jobId then .ended .scheduled
  else if s.config.maxParallelJobs ≤ s.jobs.length then .ended (.failed (.maxJobsExceeded s.config.maxParallelJobs))
  else
    match s.config.maxJobsPerUser, s.contextManager.getContext jobId with
    | some max, .ok ctx => .counting max ctx.userId
    | _, _ => .checked

/-- One step of a dispatch. -/
def advance (lockFree : Bool) : DispatchPhase → CallStep → Option (Scheduler × DispatchPhase)
  | .created, .applyMetadata metadata =>
    match s.applyMetadata jobId metadata with
    | .error e => some (s, .ended (.failed e))
    | .ok (ctx, m) => some (s.withManager m, .updated ctx)
  | .updated ctx, .saveJob saveError =>
    match s.saveJob jobId ctx saveError with
    | .error e => some (s, .ended (.failed e))
    | .ok s => some (s, .saved)
  | .saved, .enter => if lockFree then some (s, s.enter jobId) else none
  | .counting max userId, .count =>
    if max ≤ s.contextManager.parallelBlockingCountFor userId then some (s, .ended (.userLimit max))
    else some (s, .checked)
  | .checked, .start clock =>
    match s.start jobId clock with
    | (.error e, s) => some (s, .ended (.failed e))
    | (.ok _, s) => some (s, .ended .scheduled)
  | _, _ => none

end Scheduler

/-- Only the scheduler starts a job that waits. -/
def starts : JobOp → Bool
  | .transitionTo _ .inProgress _ => true
  | _ => false

/-- What happens beside the scheduler: a dispatch begins or goes on, a job is scheduled again, another task changes,
removes or creates a job, or the handle of a finished job is dropped. -/
inductive QuotaEvent
  | dispatch (jobId : Nat) (now : Int) (userId title description : Str)
  | schedule (jobId : Nat)
  | call (jobId : Nat) (next : CallStep)
  | update (jobId : Nat) (op : { op : JobOp // starts op = false })
  | remove (jobId : Nat)
  | create (jobId : Nat) (now : Int) (userId title description : Str)
  | registerSandbox (jobId : Nat) (created started : Int) (userId title description : Str)
  | finished (jobId : Nat)

/-- The event starts a sandbox job of the user. -/
def QuotaEvent.registers (userId : Str) : QuotaEvent → Bool
  | .registerSandbox _ _ _ user _ _ => user == userId
  | _ => false

/-- The scheduler and the dispatches. -/
structure Dispatches where
  scheduler : Scheduler
  calls : Table Nat DispatchCall

namespace Dispatches

variable (s : Dispatches)

/-- No dispatch holds the lock of the scheduled jobs. -/
def lockFree : Bool := s.calls.entries.all fun e => !e.2.phase.holdsLock

/-- The id is new. -/
def unused (jobId : Nat) : Bool :=
  (s.scheduler.contextManager.contexts.lookup jobId).isNone && (s.calls.lookup jobId).isNone

def withContexts (op : ManagerOp) : Dispatches :=
  { s with scheduler := s.scheduler.withManager (op.apply s.scheduler.contextManager) }

/-- A job that is there is scheduled again. -/
def schedule (jobId : Nat) : Dispatches :=
  match s.scheduler.contextManager.contexts.lookup jobId, (s.calls.lookup jobId).map DispatchCall.phase with
  | some ctx, none | some ctx, some (.ended _) => { s with calls := s.calls.insert jobId ⟨ctx.userId, .saved⟩ }
  | _, _ => s

def step : QuotaEvent → Dispatches
  | .dispatch jobId now userId title description =>
    if s.unused jobId then
      match s.scheduler.contextManager.createJobForUser jobId now userId title description with
      | .error e => { s with calls := s.calls.insert jobId ⟨userId, .ended (.failed e)⟩ }
      | .ok m => ⟨s.scheduler.withManager m, s.calls.insert jobId ⟨userId, .created⟩⟩
    else s
  | .schedule jobId => s.schedule jobId
  | .call jobId next =>
    match s.calls.lookup jobId with
    | none => s
    | some c =>
      match s.scheduler.advance jobId s.lockFree c.phase next with
      | none => s
      | some (scheduler, phase) => ⟨scheduler, s.calls.insert jobId ⟨c.userId, phase⟩⟩
  | .update jobId op => s.withContexts (.updateContext jobId op.1)
  | .remove jobId => s.withContexts (.removeJob jobId)
  | .create jobId now userId title description =>
    if s.unused jobId then s.withContexts (.createJobForUser jobId now userId title description) else s
  | .registerSandbox jobId created started userId title description =>
    if s.unused jobId then s.withContexts (.registerSandboxJob jobId created started userId title description) else s
  | .finished jobId =>
    if s.lockFree then { s with scheduler := { s.scheduler with jobs := s.scheduler.jobs.erase jobId } } else s

/-- The scheduler before any job, with a limit for each user. -/
def init (maxJobs maxParallelJobs maxJobsPerUser maxTokensPerJob : Nat) (store : Option (List JobContext)) :
    Dispatches where
  scheduler :=
    { config := ⟨maxParallelJobs, some maxJobsPerUser, maxTokensPerJob⟩
      contextManager := .new maxJobs
      store := store
      jobs := [] }
  calls := ∅

end Dispatches

/-- The other jobs of the user that take a slot. -/
def othersBlocking (m : ContextManager) (userId : Str) (jobId : Nat) : Nat :=
  { m with contexts := m.contexts.erase jobId }.parallelBlockingCountFor userId

/-- The job is one of the user's that were started and hold a slot: it is in progress, or stuck. -/
def runsFor (userId : Str) (ctx : JobContext) : Bool :=
  decide (ctx.userId = userId) && (ctx.state == .inProgress || ctx.state == .stuck)

def runningCount (m : ContextManager) (userId : Str) : Nat := Table.count (runsFor userId) m.contexts

def inProgressCount (m : ContextManager) (userId : Str) : Nat :=
  Table.count (fun ctx => decide (ctx.userId = userId) && ctx.state == .inProgress) m.contexts

/-- The job itself takes a slot of the user. -/
def holdsSlot (m : ContextManager) (userId : Str) (jobId : Nat) : Bool :=
  match m.contexts.lookup jobId with
  | some ctx => decide (ctx.userId = userId) && ctx.state.isParallelBlocking
  | none => false

/-! ## Counting -/

section Counting

variable (m : ContextManager) (userId : Str) (jobId : Nat)

/-- The count of a dispatch is that of the other jobs and of its own. -/
theorem blocking_split : m.parallelBlockingCountFor userId =
    othersBlocking m userId jobId + if holdsSlot m userId jobId then 1 else 0 := by
  unfold ContextManager.parallelBlockingCountFor othersBlocking holdsSlot
  cases h : m.contexts.lookup jobId with
  | none =>
    rw [Table.erase_of_not_mem _ (AList.lookup_eq_none.mp h)]
    rfl
  | some ctx => exact Table.count_of_lookup _ _ _ h

theorem inProgressCount_le : inProgressCount m userId ≤ runningCount m userId := by
  refine List.countP_mono_left fun e _ h => ?_
  simp only [Bool.and_eq_true, decide_eq_true_eq, beq_iff_eq] at h
  simp [runsFor, h.1, h.2]

/-- A job that waits takes a slot, and does not run. -/
theorem running_lt_blocking {ctx : JobContext} (hctx : m.contexts.lookup jobId = some ctx) (huser : ctx.userId = userId)
    (hpending : ctx.state = .pending) : runningCount m userId + 1 ≤ m.parallelBlockingCountFor userId := by
  have hle : Table.count (runsFor userId) (m.contexts.erase jobId) ≤ othersBlocking m userId jobId := by
    refine List.countP_mono_left fun e _ h => ?_
    simp only [runsFor, Bool.and_eq_true, decide_eq_true_eq, Bool.or_eq_true, beq_iff_eq] at h
    rcases h with ⟨huser, h | h⟩ <;> simp [huser, h, JobState.isParallelBlocking]
  have hrunning := Table.count_of_lookup (runsFor userId) _ _ hctx
  have hblocking := blocking_split m userId jobId
  simp only [holdsSlot, runsFor, hctx, huser, hpending] at hrunning hblocking
  simp [JobState.isParallelBlocking] at hrunning hblocking
  rw [runningCount, hblocking, hrunning]
  omega

end Counting

/-! ## One step of a dispatch -/

/-- What a step of a dispatch can do. -/
inductive Advanced (s : Scheduler) (jobId : Nat) (lockFree : Bool) : DispatchPhase → Scheduler → DispatchPhase → Prop
  | refused {phase : DispatchPhase} (e : JobError) (h : phase.decided = false) (hcounts : phase.counts = false) :
    Advanced s jobId lockFree phase s (.ended (.failed e))
  | metadata (metadata : Option Json) (ctx : JobContext) (m : ContextManager)
      (h : s.applyMetadata jobId metadata = .ok (ctx, m)) :
    Advanced s jobId lockFree .created (s.withManager m) (.updated ctx)
  | saved (ctx : JobContext) (s' : Scheduler) (hconfig : s'.config = s.config)
    (hmanager : s'.contextManager = s.contextManager) : Advanced s jobId lockFree (.updated ctx) s' .saved
  | entered (h : lockFree = true) : Advanced s jobId lockFree .saved s (s.enter jobId)
  | exceeds (max : Nat) (userId : Str) (h : max ≤ s.contextManager.parallelBlockingCountFor userId) :
    Advanced s jobId lockFree (.counting max userId) s (.ended (.userLimit max))
  | within (max : Nat) (userId : Str) (h : ¬max ≤ s.contextManager.parallelBlockingCountFor userId) :
    Advanced s jobId lockFree (.counting max userId) s .checked
  | started (clock : JobContext.Clock) (result : DispatchEnd) :
    Advanced s jobId lockFree .checked (s.start jobId clock).2 (.ended result)

theorem advance_cases {s s' : Scheduler} {jobId : Nat} {lockFree : Bool} {phase phase' : DispatchPhase}
    {next : CallStep}
    (h : s.advance jobId lockFree phase next = some (s', phase')) : Advanced s jobId lockFree phase s' phase' := by
  unfold Scheduler.advance at h
  split at h
  next metadata =>
    cases hmeta : s.applyMetadata jobId metadata with
    | error e =>
      rw [hmeta] at h
      cases h
      exact .refused e rfl rfl
    | ok r =>
      rw [hmeta] at h
      cases h
      exact .metadata metadata r.1 r.2 hmeta
  next ctx saveError =>
    rcases saveJob_cases s jobId ctx saveError with ⟨-, e, hsave⟩ | ⟨-, saved, hsave, hconfig, hmanager, -⟩
    · rw [hsave] at h
      cases h
      exact .refused e rfl rfl
    · rw [hsave] at h
      cases h
      exact .saved ctx _ hconfig hmanager
  next =>
    split at h
    next hfree =>
      cases h
      exact .entered hfree
    next => cases h
  next max userId =>
    split at h
    next hover =>
      cases h
      exact .exceeds max userId hover
    next hwithin =>
      cases h
      exact .within max userId hwithin
  next clock =>
    have hstarted := @Advanced.started s jobId lockFree clock
    generalize s.start jobId clock = r at h hstarted
    obtain ⟨e | u, started⟩ := r <;> cases h <;> exact hstarted _
  next => cases h

/-! ## What becomes of the contexts -/

/-- Every job of the new manager was there, for the same user, and waited if it waits. -/
def Evolves (m m' : ContextManager) : Prop :=
  ∀ jobId ctx', m'.contexts.lookup jobId = some ctx' → ∃ ctx, m.contexts.lookup jobId = some ctx ∧
    ctx'.userId = ctx.userId ∧ (ctx'.state = .pending → ctx.state = .pending)

section Contexts

variable {m m' : ContextManager} {userId : Str}

theorem Evolves.refl (m : ContextManager) : Evolves m m := fun _ ctx h => ⟨ctx, h, rfl, id⟩

/-- A change of one context. -/
theorem evolves_modify (jobId : Nat) {f : JobContext → JobContext} (huser : ∀ ctx, (f ctx).userId = ctx.userId)
    (hstate : ∀ ctx, (f ctx).state = .pending → ctx.state = .pending) :
    Evolves m { m with contexts := Table.modify jobId f m.contexts } := by
  intro k ctx' h
  rw [Table.lookup_modify] at h
  split at h
  · obtain ⟨ctx, hctx, rfl⟩ := Option.map_eq_some_iff.mp h
    exact ⟨ctx, hctx, huser ctx, hstate ctx⟩
  · exact ⟨ctx', h, rfl, id⟩

theorem evolves_erase (jobId : Nat) : Evolves m { m with contexts := m.contexts.erase jobId } := by
  intro k ctx' h
  rw [Table.lookup_erase] at h
  split at h
  · cases h
  · exact ⟨ctx', h, rfl, id⟩

/-- No transition leads to a job that waits, and none but to `InProgress` and `Stuck` to one that runs. -/
theorem transition_sources : ∀ st newState : JobState,
    ((if st.canTransitionTo newState then newState else st) = .pending → st = .pending) ∧
      (newState ≠ .inProgress →
        (if st.canTransitionTo newState then newState else st) = .inProgress ∨
          (if st.canTransitionTo newState then newState else st) = .stuck → st = .inProgress ∨ st = .stuck) := by
  decide

theorem next_pending {st : JobState} (op : JobOp) (h : op.next st = .pending) : st = .pending := by
  cases op with
  | transitionTo clock newState reason => exact (transition_sources st newState).1 h
  | markStuck clock reason => exact (transition_sources st .stuck).1 h
  | attemptRecovery clock =>
    simp only [JobOp.next] at h
    split at h
    · cases h
    · exact h

/-- Other tasks do not start a job. -/
theorem next_running {st : JobState} {op : JobOp} (hop : starts op = false)
    (h : op.next st = .inProgress ∨ op.next st = .stuck) : st = .inProgress ∨ st = .stuck := by
  cases op with
  | transitionTo clock newState reason =>
    refine (transition_sources st newState).2 ?_ h
    rintro rfl
    cases hop
  | markStuck clock reason => exact (transition_sources st .stuck).2 (by decide) h
  | attemptRecovery clock =>
    simp only [JobOp.next] at h
    split at h
    next hstuck => exact Or.inr hstuck
    next => exact h

theorem evolves_update (jobId : Nat) (op : JobOp) : Evolves m ((ManagerOp.updateContext jobId op).apply m) := by
  simp only [ManagerOp.apply, ContextManager.updateContext]
  cases m.contexts.lookup jobId with
  | none => exact .refl m
  | some ctx =>
    refine evolves_modify jobId (fun ctx => step_userId op) fun ctx h => ?_
    exact next_pending op ((step_state op).symm.trans h)

theorem evolves_remove (jobId : Nat) : Evolves m ((ManagerOp.removeJob jobId).apply m) := by
  simp only [ManagerOp.apply, ContextManager.removeJob]
  cases m.contexts.lookup jobId with
  | none => exact .refl m
  | some ctx => exact evolves_erase jobId

theorem running_modify_le (jobId : Nat) {f : JobContext → JobContext} (huser : ∀ ctx, (f ctx).userId = ctx.userId)
    (hstate : ∀ ctx, (f ctx).state = .inProgress ∨ (f ctx).state = .stuck → ctx.state = .inProgress ∨
      ctx.state = .stuck) :
    runningCount { m with contexts := Table.modify jobId f m.contexts } userId ≤ runningCount m userId := by
  refine Table.count_modify_le _ _ _ _ fun ctx _ h => ?_
  simp only [runsFor, Bool.and_eq_true, decide_eq_true_eq, Bool.or_eq_true, beq_iff_eq, huser] at h ⊢
  exact ⟨h.1, hstate ctx h.2⟩

theorem running_modify_le_succ (jobId : Nat) (f : JobContext → JobContext) {ctx : JobContext}
    (hctx : m.contexts.lookup jobId = some ctx) :
    runningCount { m with contexts := Table.modify jobId f m.contexts } userId ≤ runningCount m userId + 1 := by
  have hlookup : (Table.modify jobId f m.contexts).lookup jobId = some (f ctx) := by
    rw [Table.lookup_modify, if_pos rfl, hctx, Option.map_some]
  have hcount := Table.count_of_lookup (runsFor userId) _ _ hlookup
  have hle := Table.count_erase_le (runsFor userId) m.contexts jobId
  rw [Table.erase_modify] at hcount
  rw [runningCount, hcount, runningCount]
  split <;> omega

theorem running_update_le (jobId : Nat) {op : JobOp} (hop : starts op = false) :
    runningCount ((ManagerOp.updateContext jobId op).apply m) userId ≤ runningCount m userId := by
  simp only [ManagerOp.apply, ContextManager.updateContext]
  cases m.contexts.lookup jobId with
  | none => exact Nat.le_refl _
  | some ctx =>
    refine running_modify_le jobId (fun ctx => step_userId op) fun ctx h => ?_
    have hnext : (op.apply ctx).2.state = op.next ctx.state := step_state op
    rw [hnext] at h
    exact next_running hop h

theorem running_remove_le (jobId : Nat) :
    runningCount ((ManagerOp.removeJob jobId).apply m) userId ≤ runningCount m userId := by
  simp only [ManagerOp.apply, ContextManager.removeJob]
  cases m.contexts.lookup jobId with
  | none => exact Nat.le_refl _
  | some ctx => exact Table.count_erase_le _ _ _

theorem running_insert (ctx : JobContext) (hnew : m.contexts.lookup ctx.jobId = none) :
    runningCount { m with contexts := m.contexts.insert ctx.jobId ctx } userId = runningCount m userId +
      if ctx.userId = userId ∧ (ctx.state = .inProgress ∨ ctx.state = .stuck) then 1 else 0 := by
  have hcount :=
    Table.count_of_lookup (runsFor userId) (m.contexts.insert ctx.jobId ctx) ctx.jobId (AList.lookup_insert _)
  rw [Table.erase_insert, Table.erase_of_not_mem _ (AList.lookup_eq_none.mp hnew)] at hcount
  rw [runningCount, hcount]
  simp [runningCount, runsFor]

/-- Starting a job changes its context, if it is there. -/
theorem start_manager (s : Scheduler) (jobId : Nat) (clock : JobContext.Clock) :
    (s.start jobId clock).2.config = s.config ∧
      ((s.start jobId clock).2.contextManager = s.contextManager ∨
        (s.start jobId clock).2.contextManager = { s.contextManager with
          contexts := Table.modify jobId (fun ctx => (ctx.transitionTo clock .inProgress
            (some "Scheduled for execution".toList)).2) s.contextManager.contexts }) := by
  unfold Scheduler.start ContextManager.updateContext
  cases h : s.contextManager.contexts.lookup jobId with
  | none => exact ⟨rfl, Or.inl rfl⟩
  | some ctx =>
    simp only
    cases (ctx.transitionTo clock .inProgress (some "Scheduled for execution".toList)).1 with
    | error e => exact ⟨rfl, Or.inr rfl⟩
    | ok u => exact ⟨rfl, Or.inr rfl⟩

/-- Starting a job makes one more run, if it is a job of the user that waits. -/
theorem running_start (s : Scheduler) (jobId : Nat) (clock : JobContext.Clock) :
    runningCount (s.start jobId clock).2.contextManager userId ≤ runningCount s.contextManager userId ∨
      ∃ ctx, s.contextManager.contexts.lookup jobId = some ctx ∧ ctx.userId = userId ∧ ctx.state = .pending ∧
        runningCount (s.start jobId clock).2.contextManager userId ≤ runningCount s.contextManager userId + 1 := by
  rcases (start_manager s jobId clock).2 with h | h
  · rw [h]
    exact Or.inl (Nat.le_refl _)
  · rw [h]
    by_cases hwaits : ∃ ctx, s.contextManager.contexts.lookup jobId = some ctx ∧ ctx.userId = userId ∧
      ctx.state = .pending
    · obtain ⟨ctx, hctx, huser, hpending⟩ := hwaits
      refine Or.inr ⟨ctx, hctx, huser, hpending, ?_⟩
      exact running_modify_le_succ jobId _ hctx
    · refine Or.inl (Table.count_modify_le _ _ _ _ fun ctx hctx hp => ?_)
      simp only [runsFor, Bool.and_eq_true, decide_eq_true_eq, Bool.or_eq_true, beq_iff_eq, transitionTo_state] at hp ⊢
      have huser : (ctx.transitionTo clock .inProgress (some "Scheduled for execution".toList)).2.userId = ctx.userId :=
        step_userId (.transitionTo clock .inProgress (some "Scheduled for execution".toList))
      rw [huser] at hp
      refine ⟨hp.1, ?_⟩
      have hnot : ctx.state ≠ .pending := fun hpending => hwaits ⟨ctx, hctx, hp.1, hpending⟩
      revert hp
      cases hst : ctx.state <;> simp_all [JobState.canTransitionTo]

/-- The metadata change neither the state nor the user of a job. -/
theorem applyMetadata_cases {s : Scheduler} {jobId : Nat} {metadata : Option Json} {ctx : JobContext}
    (h : s.applyMetadata jobId metadata = .ok (ctx, m)) : m = s.contextManager ∨
      ∃ f : JobContext → JobContext, (∀ ctx, (f ctx).userId = ctx.userId) ∧ (∀ ctx, (f ctx).state = ctx.state) ∧
        m = { s.contextManager with contexts := Table.modify jobId f s.contextManager.contexts } := by
  unfold Scheduler.applyMetadata ContextManager.updateContextAndGet ContextManager.updateContext
    ContextManager.getContext at h
  cases hctx : s.contextManager.contexts.lookup jobId with
  | none =>
    rw [hctx] at h
    cases metadata with
    | some json => cases h
    | none =>
      simp only at h
      split at h <;> cases h
  | some old =>
    rw [hctx] at h
    cases metadata with
    | some json =>
      cases h
      exact Or.inr ⟨fun ctx => { ctx with
        metadata := json
        maxTokens := if 0 < s.maxTokens (some json) then s.maxTokens (some json) else ctx.maxTokens },
        fun _ => rfl, fun _ => rfl, rfl⟩
    | none =>
      simp only at h
      split at h
      · cases h
        exact Or.inr ⟨fun ctx => { ctx with maxTokens := s.maxTokens none }, fun _ => rfl, fun _ => rfl, rfl⟩
      · cases h
        exact Or.inl rfl

theorem advanced_evolves {s s' : Scheduler} {jobId : Nat} {lockFree : Bool} {phase phase' : DispatchPhase}
    (h : Advanced s jobId lockFree phase s' phase') :
    s'.config = s.config ∧ Evolves s.contextManager s'.contextManager := by
  cases h with
  | refused e _ _ => exact ⟨rfl, .refl _⟩
  | metadata metadata ctx m h =>
    refine ⟨rfl, ?_⟩
    rcases applyMetadata_cases h with rfl | ⟨f, huser, hstate, rfl⟩
    · exact .refl _
    · exact evolves_modify jobId huser fun ctx hp => (hstate ctx).symm.trans hp
  | saved ctx _ hconfig hmanager =>
    rw [hmanager]
    exact ⟨hconfig, .refl _⟩
  | entered h => exact ⟨rfl, .refl _⟩
  | exceeds max userId h => exact ⟨rfl, .refl _⟩
  | within max userId h => exact ⟨rfl, .refl _⟩
  | started clock result =>
    obtain ⟨hconfig, h | h⟩ := start_manager s jobId clock
    · rw [h]
      exact ⟨hconfig, .refl _⟩
    · rw [h]
      refine ⟨hconfig,
        evolves_modify jobId (fun ctx => step_userId (.transitionTo clock .inProgress _)) fun ctx hp => ?_⟩
      exact next_pending (.transitionTo clock .inProgress none) ((transitionTo_state clock .inProgress _).symm.trans hp)

end Contexts

/-! ## One event -/

/-- What an event can do. -/
inductive EventStep (s : Dispatches) (ev : QuotaEvent) : Dispatches → Prop
  | quiet (scheduler : Scheduler) (hconfig : scheduler.config = s.scheduler.config)
    (hevolves : Evolves s.scheduler.contextManager scheduler.contextManager)
    (hrunning : ∀ userId,
      runningCount scheduler.contextManager userId ≤ runningCount s.scheduler.contextManager userId) :
    EventStep s ev ⟨scheduler, s.calls⟩
  | created (ctx : JobContext) (calls : Table Nat DispatchCall) (hunused : s.unused ctx.jobId = true)
    (hcalls : calls = s.calls ∨ calls = s.calls.insert ctx.jobId ⟨ctx.userId, .created⟩)
    (hstate : ctx.state = .pending ∨ ev.registers ctx.userId = true) :
    EventStep s ev ⟨s.scheduler.withManager { s.scheduler.contextManager with
      contexts := s.scheduler.contextManager.contexts.insert ctx.jobId ctx }, calls⟩
  | refused (jobId : Nat) (userId : Str) (e : JobError) (hunused : s.unused jobId = true) :
    EventStep s ev ⟨s.scheduler, s.calls.insert jobId ⟨userId, .ended (.failed e)⟩⟩
  | scheduled (jobId : Nat) (ctx : JobContext) (hctx : s.scheduler.contextManager.contexts.lookup jobId = some ctx) :
    EventStep s ev ⟨s.scheduler, s.calls.insert jobId ⟨ctx.userId, .saved⟩⟩
  | advanced (jobId : Nat) (c : DispatchCall) (scheduler : Scheduler) (phase : DispatchPhase)
    (hc : s.calls.lookup jobId = some c) (h : Advanced s.scheduler jobId s.lockFree c.phase scheduler phase) :
    EventStep s ev ⟨scheduler, s.calls.insert jobId ⟨c.userId, phase⟩⟩

section Steps

variable {s : Dispatches}

theorem eventStep_same (ev : QuotaEvent) : EventStep s ev s :=
  .quiet s.scheduler rfl (.refl _) fun _ => Nat.le_refl _

/-- A job that is created is a new one, or is refused. -/
theorem insertContext_eq {m m' : ContextManager} {ctx : JobContext} (h : m.insertContext ctx = .ok m') :
    m' = { m with contexts := m.contexts.insert ctx.jobId ctx } := by
  unfold ContextManager.insertContext at h
  split at h
  · cases h
  · exact (Except.ok.inj h).symm

theorem eventStep_insert (ev : QuotaEvent) (ctx : JobContext) (hunused : s.unused ctx.jobId = true)
    (hstate : ctx.state = .pending ∨ ev.registers ctx.userId = true) :
    EventStep s ev ⟨s.scheduler.withManager
      ((s.scheduler.contextManager.insertContext ctx).toOption.getD s.scheduler.contextManager), s.calls⟩ := by
  cases h : s.scheduler.contextManager.insertContext ctx with
  | error e => exact eventStep_same ev
  | ok m =>
    obtain rfl := insertContext_eq h
    exact .created ctx s.calls hunused (Or.inl rfl) hstate

theorem eventStep_step (s : Dispatches) (ev : QuotaEvent) : EventStep s ev (s.step ev) := by
  cases ev with
  | dispatch jobId now userId title description =>
    simp only [Dispatches.step]
    split
    next hunused =>
      split
      next e h => exact .refused jobId userId e hunused
      next m h =>
        obtain rfl := insertContext_eq h
        exact .created (.withUser jobId now userId title description) _ hunused (Or.inr rfl) (Or.inl rfl)
    next => exact eventStep_same _
  | schedule jobId =>
    simp only [Dispatches.step, Dispatches.schedule]
    split
    next ctx hctx _ => exact .scheduled jobId ctx hctx
    next ctx _ hctx _ => exact .scheduled jobId ctx hctx
    next => exact eventStep_same _
  | call jobId next =>
    simp only [Dispatches.step]
    split
    next => exact eventStep_same _
    next c hc =>
      split
      next => exact eventStep_same _
      next scheduler phase h => exact .advanced jobId c scheduler phase hc (advance_cases h)
  | update jobId op => exact .quiet _ rfl (evolves_update jobId op.1) fun _ => running_update_le jobId op.2
  | remove jobId => exact .quiet _ rfl (evolves_remove jobId) fun _ => running_remove_le jobId
  | create jobId now userId title description =>
    simp only [Dispatches.step]
    split
    next hunused => exact eventStep_insert _ (.withUser jobId now userId title description) hunused (Or.inl rfl)
    next => exact eventStep_same _
  | registerSandbox jobId created started userId title description =>
    simp only [Dispatches.step]
    split
    next hunused =>
      refine eventStep_insert _ { JobContext.withUser jobId created userId title description with
        state := .inProgress, startedAt := some started } hunused (Or.inr ?_)
      simp [QuotaEvent.registers, JobContext.withUser]
    next => exact eventStep_same _
  | finished jobId =>
    simp only [Dispatches.step]
    split
    next => exact .quiet _ rfl (.refl _) fun _ => Nat.le_refl _
    next => exact eventStep_same _

end Steps

/-! ## The dispatches and their jobs -/

/-- The limit stays; a dispatch is for the user of its job, and one that counts does so for this user and the limit; one
dispatch at most holds the lock. -/
structure SoundCalls (max : Nat) (s : Dispatches) : Prop where
  limit : s.scheduler.config.maxJobsPerUser = some max
  users : ∀ jobId c, s.calls.lookup jobId = some c → ∀ ctx,
    s.scheduler.contextManager.contexts.lookup jobId = some ctx → ctx.userId = c.userId
  counting : ∀ jobId c, s.calls.lookup jobId = some c → ∀ most userId, c.phase = .counting most userId →
    most = max ∧ userId = c.userId
  lock : ∀ i ci, s.calls.lookup i = some ci → ∀ j cj, s.calls.lookup j = some cj →
    ci.phase.holdsLock = true → cj.phase.holdsLock = true → i = j

section Invariant

variable {max : Nat} {s : Dispatches}

theorem unused_iff {jobId : Nat} : s.unused jobId = true ↔
    s.scheduler.contextManager.contexts.lookup jobId = none ∧ s.calls.lookup jobId = none := by
  simp [Dispatches.unused]

theorem not_holdsLock_of_lockFree (h : s.lockFree = true) {jobId : Nat} {c : DispatchCall}
    (hc : s.calls.lookup jobId = some c) : c.phase.holdsLock = false := by
  have hall := List.all_eq_true.mp h ⟨jobId, c⟩ (Table.mem_entries_iff.mpr hc)
  simpa using hall

/-- A call in the table after one was put there. -/
theorem lookup_put {jobId j : Nat} {c cj : DispatchCall} (h : (s.calls.insert jobId c).lookup j = some cj) :
    (j = jobId ∧ cj = c) ∨ (j ≠ jobId ∧ s.calls.lookup j = some cj) := by
  rw [Table.lookup_insert] at h
  split at h
  next heq => exact Or.inl ⟨heq, (Option.some.inj h).symm⟩
  next hne => exact Or.inr ⟨hne, h⟩

/-- A phase that is entered under the lock. -/
theorem enter_counting {sched : Scheduler} {jobId most : Nat} {userId : Str}
    (h : sched.enter jobId = .counting most userId) :
    sched.config.maxJobsPerUser = some most ∧
      ∃ ctx, sched.contextManager.contexts.lookup jobId = some ctx ∧ ctx.userId = userId := by
  unfold Scheduler.enter ContextManager.getContext at h
  split at h
  · cases h
  · split at h
    · cases h
    · cases hmax : sched.config.maxJobsPerUser with
      | none => simp [hmax] at h
      | some m =>
        cases hctx : sched.contextManager.contexts.lookup jobId with
        | none => simp [hmax, hctx] at h
        | some ctx =>
          simp only [hmax, hctx] at h
          cases h
          exact ⟨rfl, ctx, rfl, rfl⟩

/-- With a limit, only a dispatch without its job goes on uncounted. -/
theorem enter_checked {sched : Scheduler} {jobId : Nat} (hlimit : sched.config.maxJobsPerUser = some max)
    (h : sched.enter jobId = .checked) : sched.contextManager.contexts.lookup jobId = none := by
  unfold Scheduler.enter ContextManager.getContext at h
  split at h
  · cases h
  · split at h
    · cases h
    · cases hctx : sched.contextManager.contexts.lookup jobId with
      | none => rfl
      | some ctx => simp [hlimit, hctx] at h

/-- The lock is taken when it is free, and kept until the dispatch ends. -/
theorem advanced_lock {sched sched' : Scheduler} {jobId : Nat} {lockFree : Bool} {phase phase' : DispatchPhase}
    (h : Advanced sched jobId lockFree phase sched' phase') (hlock : phase'.holdsLock = true) :
    lockFree = true ∨ phase.holdsLock = true := by
  cases h with
  | entered h => exact Or.inl h
  | within most userId h => exact Or.inr rfl
  | _ => cases hlock

/-- A dispatch that is to count has just come in. -/
theorem advanced_counting {sched sched' : Scheduler} {jobId most : Nat} {userId : Str} {lockFree : Bool}
    {phase : DispatchPhase} (h : Advanced sched jobId lockFree phase sched' (.counting most userId)) :
    sched' = sched ∧ sched.enter jobId = .counting most userId := by
  generalize hphase : DispatchPhase.counting most userId = phase' at h
  cases h with
  | entered h => exact ⟨rfl, rfl⟩
  | _ => cases hphase

theorem soundCalls_evolve (h : SoundCalls max s) {scheduler : Scheduler}
    (hconfig : scheduler.config = s.scheduler.config)
    (hevolves : Evolves s.scheduler.contextManager scheduler.contextManager) : SoundCalls max ⟨scheduler, s.calls⟩ := by
  refine ⟨(congrArg SchedulerConfig.maxJobsPerUser hconfig).trans h.limit, ?_, h.counting, h.lock⟩
  intro j c hc ctx' hctx'
  obtain ⟨ctx, hctx, huser, -⟩ := hevolves j ctx' hctx'
  exact huser.trans (h.users j c hc ctx hctx)

/-- A new job is no dispatch's. -/
theorem soundCalls_insert (h : SoundCalls max s) {ctx : JobContext} (hunused : s.unused ctx.jobId = true) :
    SoundCalls max ⟨s.scheduler.withManager { s.scheduler.contextManager with
      contexts := s.scheduler.contextManager.contexts.insert ctx.jobId ctx }, s.calls⟩ := by
  obtain ⟨-, hcall⟩ := unused_iff.1 hunused
  refine ⟨h.limit, ?_, h.counting, h.lock⟩
  intro j c hc ctx' hctx'
  change AList.lookup j (s.scheduler.contextManager.contexts.insert ctx.jobId ctx) = some ctx' at hctx'
  rw [Table.lookup_insert] at hctx'
  split at hctx'
  next heq =>
    rw [heq, hcall] at hc
    cases hc
  next => exact h.users j c hc ctx' hctx'

/-- A dispatch begins, or goes on. -/
theorem soundCalls_put (h : SoundCalls max s) {jobId : Nat} {c : DispatchCall}
    (husers : ∀ ctx, s.scheduler.contextManager.contexts.lookup jobId = some ctx → ctx.userId = c.userId)
    (hcounting : ∀ most userId, c.phase = .counting most userId → most = max ∧ userId = c.userId)
    (hlock : c.phase.holdsLock = true →
      s.lockFree = true ∨ ∃ old, s.calls.lookup jobId = some old ∧ old.phase.holdsLock = true) :
    SoundCalls max ⟨s.scheduler, s.calls.insert jobId c⟩ := by
  -- no other dispatch holds the lock beside this one
  have hother : c.phase.holdsLock = true → ∀ j cj, s.calls.lookup j = some cj → cj.phase.holdsLock = true →
      j = jobId := by
    intro hc j cj hj hlj
    rcases hlock hc with hfree | ⟨old, hold, hlold⟩
    · rw [not_holdsLock_of_lockFree hfree hj] at hlj
      cases hlj
    · exact h.lock j cj hj jobId old hold hlj hlold
  refine ⟨h.limit, ?_, ?_, ?_⟩
  · intro j cj hj ctx hctx
    rcases lookup_put hj with ⟨rfl, rfl⟩ | ⟨-, hj⟩
    · exact husers ctx hctx
    · exact h.users j cj hj ctx hctx
  · intro j cj hj most userId hphase
    rcases lookup_put hj with ⟨-, rfl⟩ | ⟨-, hj⟩
    · exact hcounting most userId hphase
    · exact h.counting j cj hj most userId hphase
  · intro i ci hi j cj hj hli hlj
    rcases lookup_put hi with ⟨hi', hci⟩ | ⟨-, hi'⟩
    · rcases lookup_put hj with ⟨hj', -⟩ | ⟨-, hj'⟩
      · exact hi'.trans hj'.symm
      · exact hi'.trans (hother (hci ▸ hli) j cj hj' hlj).symm
    · rcases lookup_put hj with ⟨hj', hcj⟩ | ⟨-, hj'⟩
      · exact (hother (hcj ▸ hlj) i ci hi' hli).trans hj'.symm
      · exact h.lock i ci hi' j cj hj' hli hlj

theorem soundCalls_step (h : SoundCalls max s) (ev : QuotaEvent) : SoundCalls max (s.step ev) := by
  have hstep := eventStep_step s ev
  generalize s.step ev = s' at hstep
  cases hstep with
  | quiet scheduler hconfig hevolves _ => exact soundCalls_evolve h hconfig hevolves
  | created ctx calls hunused hcalls _ =>
    have hinserted := soundCalls_insert h hunused
    rcases hcalls with rfl | rfl
    · exact hinserted
    · refine soundCalls_put hinserted ?_ (by simp) (by simp [DispatchPhase.holdsLock])
      intro ctx' hctx'
      obtain rfl : ctx = ctx' := Option.some.inj ((AList.lookup_insert _).symm.trans hctx')
      rfl
  | refused jobId userId e hunused =>
    refine soundCalls_put h ?_ (by simp) (by simp [DispatchPhase.holdsLock])
    intro ctx hctx
    rw [(unused_iff.1 hunused).1] at hctx
    cases hctx
  | scheduled jobId ctx hctx =>
    refine soundCalls_put h ?_ (by simp) (by simp [DispatchPhase.holdsLock])
    intro ctx' hctx'
    obtain rfl : ctx = ctx' := Option.some.inj (hctx.symm.trans hctx')
    rfl
  | advanced jobId c scheduler phase hc hadv =>
    obtain ⟨hconfig, hevolves⟩ := advanced_evolves hadv
    have hsound := soundCalls_evolve h hconfig hevolves
    refine soundCalls_put hsound (hsound.users jobId c hc) ?_ fun hphase => ?_
    · rintro most userId rfl
      obtain ⟨rfl, henter⟩ := advanced_counting hadv
      obtain ⟨hmost, ctx, hctx, huser⟩ := enter_counting henter
      exact ⟨Option.some.inj (hmost.symm.trans h.limit), huser.symm.trans (h.users jobId c hc ctx hctx)⟩
    · rcases advanced_lock hadv hphase with hfree | hold
      · exact Or.inl hfree
      · exact Or.inr ⟨c, hc, hold⟩

/-! ## The decision -/

/-- The dispatch is not decided yet. -/
def Undecided (s : Dispatches) (jobId : Nat) : Prop := ∀ c, s.calls.lookup jobId = some c → c.phase.decided = false

/-- The dispatch is about to count. -/
def Counts (s : Dispatches) (jobId : Nat) : Prop := ∃ c, s.calls.lookup jobId = some c ∧ c.phase.counts = true

/-- Before a count: the job itself has lost its slot, or the user has not exactly one job less than the limit beside it.
Where the dispatch ends without a count: the user has fewer jobs than the limit. -/
def WithinQuota (max : Nat) (s : Dispatches) (jobId : Nat) (userId : Str) : Prop :=
  (Counts s jobId ∧ (holdsSlot s.scheduler.contextManager userId jobId = false ∨
      othersBlocking s.scheduler.contextManager userId jobId + 1 ≠ max)) ∨
    (¬Counts s jobId ∧ othersBlocking s.scheduler.contextManager userId jobId < max)

/-- A step that decides a dispatch is a count, or ends it for another reason. -/
theorem advanced_decided {sched sched' : Scheduler} {jobId : Nat} {lockFree : Bool} {phase phase' : DispatchPhase}
    (h : Advanced sched jobId lockFree phase sched' phase') (hphase : phase.decided = false)
    (hdecided : phase'.decided = true) :
    (∃ most userId, phase = .counting most userId ∧
      phase' = if most ≤ sched.contextManager.parallelBlockingCountFor userId then
        .ended (.userLimit most) else .checked) ∨
      (phase.counts = false ∧ ∀ most, phase' ≠ .ended (.userLimit most)) := by
  cases h with
  | refused e _ hcounts => exact Or.inr ⟨hcounts, by simp⟩
  | metadata metadata ctx m h => cases hdecided
  | saved ctx _ hconfig hmanager => cases hdecided
  | entered h =>
    refine Or.inr ⟨rfl, fun most henter => ?_⟩
    unfold Scheduler.enter at henter
    split at henter
    · cases henter
    · split at henter
      · cases henter
      · split at henter <;> cases henter
  | exceeds most userId h => exact Or.inl ⟨most, userId, rfl, (if_pos h).symm⟩
  | within most userId h => exact Or.inl ⟨most, userId, rfl, (if_neg h).symm⟩
  | started clock result => cases hphase

/-- **The decision** on a dispatch is that of the limit exactly when the condition holds. -/
theorem decision_iff (h : SoundCalls max s) (ev : QuotaEvent) {jobId : Nat} {c' : DispatchCall}
    (hbefore : Undecided s jobId)
    (hafter : (s.step ev).calls.lookup jobId = some c') (hdecided : c'.phase.decided = true) :
    (c'.phase = .ended (.userLimit max) ↔ max ≤ othersBlocking s.scheduler.contextManager c'.userId jobId) ↔
      WithinQuota max s jobId c'.userId := by
  have hstep := eventStep_step s ev
  generalize s.step ev = s' at hstep hafter
  have hstays : s.calls.lookup jobId = some c' → False := by
    intro hsame
    rw [hbefore c' hsame] at hdecided
    cases hdecided
  -- a dispatch that ends without a count
  have hother : ¬Counts s jobId → (∀ most, c'.phase ≠ .ended (.userLimit most)) →
      ((c'.phase = .ended (.userLimit max) ↔ max ≤ othersBlocking s.scheduler.contextManager c'.userId jobId) ↔
        WithinQuota max s jobId c'.userId) := by
    intro hcounts hnot
    simp only [WithinQuota, hcounts, hnot max, false_and, false_or, not_false_eq_true, true_and, false_iff]
    omega
  cases hstep with
  | quiet scheduler hconfig hevolves _ => exact (hstays hafter).elim
  | created ctx calls hunused hcalls _ =>
    rcases hcalls with rfl | rfl
    · exact (hstays hafter).elim
    · rcases lookup_put hafter with ⟨-, rfl⟩ | ⟨-, hold⟩
      · cases hdecided
      · exact (hstays hold).elim
  | refused k userId e hunused =>
    rcases lookup_put hafter with ⟨rfl, rfl⟩ | ⟨-, hold⟩
    · refine hother ?_ (by simp)
      rintro ⟨c, hc, -⟩
      rw [(unused_iff.1 hunused).2] at hc
      cases hc
    · exact (hstays hold).elim
  | scheduled k ctx hctx =>
    rcases lookup_put hafter with ⟨-, rfl⟩ | ⟨-, hold⟩
    · cases hdecided
    · exact (hstays hold).elim
  | advanced k c scheduler phase hc hadv =>
    rcases lookup_put hafter with ⟨rfl, rfl⟩ | ⟨-, hold⟩
    · rcases advanced_decided hadv (hbefore c hc) hdecided with ⟨most, userId, hphase, hphase'⟩ | ⟨hcounts, hnot⟩
      · obtain ⟨rfl, rfl⟩ := h.counting jobId c hc most userId hphase
        have hcounts : Counts s jobId := ⟨c, hc, by rw [hphase]; rfl⟩
        have hsplit := blocking_split s.scheduler.contextManager c.userId jobId
        have hended : phase = .ended (.userLimit most) ↔
            most ≤ s.scheduler.contextManager.parallelBlockingCountFor c.userId := by
          rw [hphase']
          split
          next hle => exact iff_of_true rfl hle
          next hle => exact iff_of_false (by simp) hle
        simp only [WithinQuota, hcounts, hended, hsplit, true_and, not_true_eq_false, false_and, or_false]
        cases holdsSlot s.scheduler.contextManager c.userId jobId with
        | false => simp
        | true =>
          simp only [if_true, Bool.true_eq_false, false_or]
          omega
      · refine hother ?_ hnot
        rintro ⟨c₀, hc₀, hcounts₀⟩
        obtain rfl : c = c₀ := Option.some.inj (hc.symm.trans hc₀)
        rw [hcounts] at hcounts₀
        cases hcounts₀
    · exact (hstays hold).elim

/-! ## The jobs that run -/

/-- Fewer jobs of the user run than the limit, and one fewer still while a dispatch within the limit has not started its
job. -/
structure Room (max : Nat) (userId : Str) (s : Dispatches) : Prop where
  running : runningCount s.scheduler.contextManager userId ≤ max - 1
  reserved : ∀ jobId c, s.calls.lookup jobId = some c → c.phase = .checked → c.userId = userId → ∀ ctx,
    s.scheduler.contextManager.contexts.lookup jobId = some ctx → ctx.state = .pending →
      runningCount s.scheduler.contextManager userId + 2 ≤ max

variable {userId : Str}

theorem room_evolve (h : Room max userId s) {scheduler : Scheduler}
    (hevolves : Evolves s.scheduler.contextManager scheduler.contextManager)
    (hrunning : runningCount scheduler.contextManager userId ≤ runningCount s.scheduler.contextManager userId) :
    Room max userId ⟨scheduler, s.calls⟩ := by
  refine ⟨hrunning.trans h.running, ?_⟩
  intro j c hc hphase huser ctx' hctx' hpending
  obtain ⟨ctx, hctx, -, hstate⟩ := hevolves j ctx' hctx'
  exact (Nat.add_le_add_right hrunning 2).trans (h.reserved j c hc hphase huser ctx hctx (hstate hpending))

/-- A dispatch that goes on keeps the room, when it is not the one that has just counted, or there is room for its
job. -/
theorem room_put (h : Room max userId s) {jobId : Nat} {c : DispatchCall}
    (hreserved : c.phase = .checked → c.userId = userId → ∀ ctx,
      s.scheduler.contextManager.contexts.lookup jobId = some ctx → ctx.state = .pending →
        runningCount s.scheduler.contextManager userId + 2 ≤ max) :
    Room max userId ⟨s.scheduler, s.calls.insert jobId c⟩ := by
  refine ⟨h.running, ?_⟩
  intro j cj hj hphase huser ctx hctx hpending
  rcases lookup_put hj with ⟨rfl, rfl⟩ | ⟨-, hj⟩
  · exact hreserved hphase huser ctx hctx hpending
  · exact h.reserved j cj hj hphase huser ctx hctx hpending

theorem room_insert (h : Room max userId s) {ctx : JobContext} (hunused : s.unused ctx.jobId = true)
    (hstate : ctx.state = .pending ∨ ctx.userId ≠ userId) :
    Room max userId ⟨s.scheduler.withManager { s.scheduler.contextManager with
      contexts := s.scheduler.contextManager.contexts.insert ctx.jobId ctx }, s.calls⟩ := by
  obtain ⟨hnone, hcall⟩ := unused_iff.1 hunused
  have hsame : runningCount { s.scheduler.contextManager with
      contexts := s.scheduler.contextManager.contexts.insert ctx.jobId ctx } userId =
        runningCount s.scheduler.contextManager userId := by
    rw [running_insert ctx hnone, if_neg, Nat.add_zero]
    rintro ⟨huser, hruns⟩
    rcases hstate with hpending | hne
    · rw [hpending] at hruns
      simp at hruns
    · exact hne huser
  constructor
  · exact hsame.le.trans h.running
  · intro j c hc hphase huser ctx' hctx' hpending
    change AList.lookup j (s.scheduler.contextManager.contexts.insert ctx.jobId ctx) = some ctx' at hctx'
    rw [Table.lookup_insert] at hctx'
    split at hctx'
    next heq =>
      rw [heq, hcall] at hc
      cases hc
    next => exact (Nat.add_le_add_right hsame.le 2).trans (h.reserved j c hc hphase huser ctx' hctx' hpending)

/-- The job of a dispatch within the limit is started. -/
theorem room_start (h : Room max userId s) (hsound : SoundCalls max s) {jobId : Nat} {c : DispatchCall}
    (hc : s.calls.lookup jobId = some c) (hphase : c.phase = .checked) (clock : JobContext.Clock)
    (result : DispatchEnd) :
    Room max userId ⟨(s.scheduler.start jobId clock).2, s.calls.insert jobId ⟨c.userId, .ended result⟩⟩ := by
  -- no other dispatch is within the limit and has not started its job
  have halone : ∀ j cj, (s.calls.insert jobId ⟨c.userId, .ended result⟩).lookup j = some cj → cj.phase ≠ .checked := by
    intro j cj hj hchecked
    rcases lookup_put hj with ⟨-, rfl⟩ | ⟨hne, hj⟩
    · cases hchecked
    · refine hne (hsound.lock j cj hj jobId c hc ?_ ?_)
      · rw [hchecked]
        rfl
      · rw [hphase]
        rfl
  refine ⟨?_, fun j cj hj hchecked => absurd hchecked (halone j cj hj)⟩
  have hrunning := h.running
  rcases @running_start userId s.scheduler jobId clock with hle | ⟨ctx, hctx, huser, hpending, hle⟩
  · exact hle.trans hrunning
  · have hreserved :=
      h.reserved jobId c hc hphase ((hsound.users jobId c hc ctx hctx).symm.trans huser) ctx hctx hpending
    show runningCount (s.scheduler.start jobId clock).2.contextManager userId ≤ max - 1
    omega

theorem room_step (h : Room max userId s) (hsound : SoundCalls max s) (ev : QuotaEvent)
    (hev : ev.registers userId = false) :
    Room max userId (s.step ev) := by
  have hstep := eventStep_step s ev
  generalize s.step ev = s' at hstep
  cases hstep with
  | quiet scheduler _ hevolves hrunning => exact room_evolve h hevolves (hrunning userId)
  | created ctx calls hunused hcalls hstate =>
    have hinserted : Room max userId ⟨s.scheduler.withManager { s.scheduler.contextManager with
        contexts := s.scheduler.contextManager.contexts.insert ctx.jobId ctx }, s.calls⟩ := by
      refine room_insert h hunused (hstate.imp_right fun hregisters huser => ?_)
      rw [huser, hev] at hregisters
      cases hregisters
    rcases hcalls with rfl | rfl
    · exact hinserted
    · exact room_put hinserted (by simp)
  | refused jobId user e hunused => exact room_put h (by simp)
  | scheduled jobId ctx hctx => exact room_put h (by simp)
  | advanced jobId c scheduler phase hc hadv =>
    generalize hold : c.phase = old at hadv
    cases hadv with
    | refused e _ _ => exact room_put h (by simp)
    | metadata metadata ctx m hmeta =>
      have hchanged : Room max userId ⟨s.scheduler.withManager m, s.calls⟩ := by
        rcases applyMetadata_cases hmeta with rfl | ⟨f, huser, hstate, rfl⟩
        · exact h
        · refine room_evolve h (evolves_modify jobId huser fun ctx hp => (hstate ctx).symm.trans hp) ?_
          exact running_modify_le jobId huser fun ctx hruns => by rwa [hstate] at hruns
      exact room_put hchanged (by simp)
    | saved ctx _ hconfig hmanager =>
      have hsame : Room max userId ⟨scheduler, s.calls⟩ := by
        obtain ⟨hrunning, hreserved⟩ := h
        rw [← hmanager] at hrunning hreserved
        exact ⟨hrunning, hreserved⟩
      exact room_put hsame (by simp)
    | entered hfree =>
      refine room_put h fun hchecked _ ctx hctx _ => ?_
      rw [enter_checked hsound.limit hchecked] at hctx
      cases hctx
    | exceeds most user hle => exact room_put h (by simp)
    | within most user hle =>
      obtain ⟨rfl, rfl⟩ := hsound.counting jobId c hc most user hold
      refine room_put h fun _ huser ctx hctx hpending => ?_
      have hlt :=
        running_lt_blocking s.scheduler.contextManager c.userId jobId hctx (hsound.users jobId c hc ctx hctx) hpending
      change c.userId = userId at huser
      rw [← huser]
      omega
    | started clock result => exact room_start h hsound hc hold clock result

end Invariant

/-! ## Every run -/

section Runs

variable (maxJobs maxParallelJobs max maxTokensPerJob : Nat) (store : Option (List JobContext))

theorem soundCalls_init : SoundCalls max (.init maxJobs maxParallelJobs max maxTokensPerJob store) := by
  refine ⟨rfl, ?_, ?_, ?_⟩ <;> intro j c hc <;> simp [Dispatches.init] at hc

/-- What can be reached from the start. -/
def reached (events : List QuotaEvent) : Dispatches :=
  run Dispatches.step (.init maxJobs maxParallelJobs max maxTokensPerJob store) events

theorem soundCalls_reached (events : List QuotaEvent) :
    SoundCalls max (reached maxJobs maxParallelJobs max maxTokensPerJob store events) :=
  run_inv_all (I := SoundCalls max) (fun _ ev h => soundCalls_step h ev) events
    (soundCalls_init maxJobs maxParallelJobs max maxTokensPerJob store)

/-- Fewer jobs of a user run than the limit, but for sandbox jobs. -/
theorem running_bound {userId : Str} (events : List QuotaEvent) (hevents : ∀ ev ∈ events, ev.registers userId = false) :
    runningCount (reached maxJobs maxParallelJobs max maxTokensPerJob store events).scheduler.contextManager userId ≤
      max - 1 := by
  have hinit : SoundCalls max (.init maxJobs maxParallelJobs max maxTokensPerJob store) ∧
      Room max userId (.init maxJobs maxParallelJobs max maxTokensPerJob store) := by
    refine ⟨soundCalls_init maxJobs maxParallelJobs max maxTokensPerJob store, Nat.zero_le _, ?_⟩
    intro j c hc
    simp [Dispatches.init] at hc
  have hrun := run_inv (I := fun s => SoundCalls max s ∧ Room max userId s) (fun s ev hev h =>
    ⟨soundCalls_step h.1 ev, room_step h.2 h.1 ev hev⟩) events hinit (along_of_forall hevents)
  exact hrun.2.running

/-- **The limit of a user.** In every run the decision on a dispatch is that of the limit exactly when its user does not
have one job less than the limit beside it (or its job has lost its slot, or it ends without a count while the user is
below the limit); and without sandbox jobs of the user, fewer jobs of the user than the limit are in progress. -/
theorem user_quota_iff (events : List QuotaEvent) :
    (∀ (ev : QuotaEvent) (jobId : Nat) (c : DispatchCall),
      Undecided (reached maxJobs maxParallelJobs max maxTokensPerJob store events) jobId →
      ((reached maxJobs maxParallelJobs max maxTokensPerJob store events).step ev).calls.lookup jobId = some c →
      c.phase.decided = true →
      ((c.phase = .ended (.userLimit max) ↔
          max ≤ othersBlocking
            (reached maxJobs maxParallelJobs max maxTokensPerJob store events).scheduler.contextManager
            c.userId jobId) ↔
        WithinQuota max (reached maxJobs maxParallelJobs max maxTokensPerJob store events) jobId c.userId)) ∧
    ∀ userId, (∀ ev ∈ events, ev.registers userId = false) →
      inProgressCount (reached maxJobs maxParallelJobs max maxTokensPerJob store events).scheduler.contextManager
        userId ≤
        max - 1 := by
  constructor
  · intro ev jobId c hbefore hafter hdecided
    exact decision_iff (soundCalls_reached maxJobs maxParallelJobs max maxTokensPerJob store events) ev hbefore
      hafter hdecided
  · intro userId hevents
    exact (inProgressCount_le _ _).trans
      (running_bound maxJobs maxParallelJobs max maxTokensPerJob store events hevents)

end Runs

/-- With a limit of one job, the first dispatch of a user fails for it. -/
theorem first_dispatch_is_over_limit :
    (reached 5 5 1 0 none [.dispatch 7 0 "alice".toList "t".toList "d".toList, .call 7 (.applyMetadata none),
      .call 7 (.saveJob none), .call 7 .enter, .call 7 .count]).calls.lookup 7 =
        some ⟨"alice".toList, .ended (.userLimit 1)⟩ ∧
    ¬1 ≤ othersBlocking (reached 5 5 1 0 none [.dispatch 7 0 "alice".toList "t".toList "d".toList,
      .call 7 (.applyMetadata none), .call 7 (.saveJob none),
      .call 7 .enter]).scheduler.contextManager "alice".toList 7 := by
  decide +kernel

end Ironclaw.Agent

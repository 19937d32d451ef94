import Ironclaw.Context.Manager

/-!
# Dispatching a job

`dispatch_job` creates a context, sets its metadata and token budget, persists it and schedules it; each part may fail
after the earlier ones. Between its lock windows other tasks may change the new job or remove it.

- `touched_held`, `touched_gone`: what other tasks can do to the new job;
- `dispatch_atomic_iff`: a failed dispatch leaves the contexts and the slots as they were exactly when the context was
  not admitted, when another task removed it, or when nothing after its creation fails.
-/

namespace Ironclaw.Agent

open Text Run Context

structure SchedulerConfig where
  maxParallelJobs : Nat
  maxJobsPerUser : Option Nat
  maxTokensPerJob : Nat

/-- The scheduler: the manager, the rows of the store (if there is one) and the ids of the scheduled jobs. -/
structure Scheduler where
  config : SchedulerConfig
  contextManager : ContextManager
  store : Option (List JobContext)
  jobs : List Nat

/-- What another task does to the new job. -/
inductive Touch
  | update (op : JobOp)
  | remove
  deriving DecidableEq

def Touch.op (jobId : Nat) : Touch → ManagerOp
  | .update op => .updateContext jobId op
  | .remove => .removeJob jobId

/-- What a dispatch gets from outside: a new id, times, what other tasks do to the job between its lock windows, and the
error of the store. -/
structure Dispatch (s : Scheduler) where
  jobId : Nat
  fresh : jobId ∉ s.contextManager.contexts
  unscheduled : jobId ∉ s.jobs
  now : Int
  clock : JobContext.Clock
  afterCreate : List Touch
  afterUpdate : List Touch
  afterContext : List Touch
  afterCount : List Touch
  saveError : Option Str

namespace Scheduler

variable (s : Scheduler)

def withManager (m : ContextManager) : Scheduler := { s with contextManager := m }

/-- Other tasks act on the new job. -/
def meanwhile (jobId : Nat) (touches : List Touch) : Scheduler :=
  s.withManager (run ManagerOp.apply s.contextManager (touches.map (Touch.op jobId)))

/-- The token budget of a job: what the metadata asks for, capped by the configured limit (0 is no limit). -/
def maxTokens (metadata : Option Json) : Nat :=
  match (metadata.bind (·.get "max_tokens".toList)).bind Json.asU64 with
  | some userVal => if s.config.maxTokensPerJob = 0 then userVal else min userVal s.config.maxTokensPerJob
  | none => s.config.maxTokensPerJob

/-- The metadata and the token budget are set in one update; with neither, the context is read. -/
def applyMetadata (jobId : Nat) (metadata : Option Json) : Except JobError (JobContext × ContextManager) :=
  let maxTokens := s.maxTokens metadata
  match metadata with
  | some json =>
    s.contextManager.updateContextAndGet jobId fun ctx =>
      { ctx with metadata := json, maxTokens := if 0 < maxTokens then maxTokens else ctx.maxTokens }
  | none =>
    if 0 < maxTokens then s.contextManager.updateContextAndGet jobId fun ctx => { ctx with maxTokens := maxTokens }
    else (s.contextManager.getContext jobId).map fun ctx => (ctx, s.contextManager)

/-- `save_job`, where there is a store. -/
def saveJob (jobId : Nat) (ctx : JobContext) (saveError : Option Str) : Except JobError Scheduler :=
  match s.store, saveError with
  | none, _ => .ok s
  | some _, some e => .error (.failed jobId ("failed to persist job: ".toList ++ e))
  | some rows, none => .ok { s with store := some (rows ++ [ctx]) }

/-- The limit on the jobs of one user, if there is one. -/
def checkUserLimit (jobId : Nat) (afterContext : List Touch) : Except JobError Unit × Scheduler :=
  match s.config.maxJobsPerUser, s.contextManager.getContext jobId with
  | some max, .ok ctx =>
    let s := s.meanwhile jobId afterContext
    if max ≤ s.contextManager.parallelBlockingCountFor ctx.userId then
      (.error (.maxJobsExceeded max), s) else (.ok (), s)
  | _, _ => (.ok (), s)

/-- The job is started, and a worker takes it. -/
def start (jobId : Nat) (clock : JobContext.Clock) : Except JobError Unit × Scheduler :=
  let started := s.contextManager.updateContext jobId fun ctx =>
    ctx.transitionTo clock .inProgress (some "Scheduled for execution".toList)
  match started with
  | .error e => (.error e, s)
  | .ok (.error reason, m) => (.error (.contextError jobId reason), s.withManager m)
  | .ok (.ok _, m) => (.ok (), { s.withManager m with jobs := jobId :: s.jobs })

/-- `schedule_with_context`, under the lock of the scheduled jobs. -/
def schedule (jobId : Nat) (clock : JobContext.Clock) (afterContext afterCount : List Touch) :
    Except JobError Unit × Scheduler :=
  if s.jobs.contains jobId then (.ok (), s)
  else if s.config.maxParallelJobs ≤ s.jobs.length then (.error (.maxJobsExceeded s.config.maxParallelJobs), s)
  else
    match s.checkUserLimit jobId afterContext with
    | (.error e, s) => (.error e, s)
    | (.ok _, s) => (s.meanwhile jobId afterCount).start jobId clock

/-- `dispatch_job`. -/
def dispatchJob (d : Dispatch s) (userId title description : Str) (metadata : Option Json) :
    Except JobError Nat × Scheduler :=
  match s.contextManager.createJobForUser d.jobId d.now userId title description with
  | .error e => (.error e, s)
  | .ok m =>
    let s := (s.withManager m).meanwhile d.jobId d.afterCreate
    match s.applyMetadata d.jobId metadata with
    | .error e => (.error e, s)
    | .ok (ctx, m) =>
      let s := (s.withManager m).meanwhile d.jobId d.afterUpdate
      match s.saveJob d.jobId ctx d.saveError with
      | .error e => (.error e, s)
      | .ok s =>
        let (scheduled, s) := s.schedule d.jobId d.clock d.afterContext d.afterCount
        (scheduled.map fun _ => d.jobId, s)

end Scheduler

/-! ## What other tasks do -/

/-- One of the tasks removes the job. -/
def removes (touches : List Touch) : Bool := touches.contains .remove

def Touch.next (st : JobState) : Touch → JobState
  | .update op => op.next st
  | .remove => st

/-- The state that a job in state `st` is brought to, as long as it is not removed. -/
def stateAfter (st : JobState) (touches : List Touch) : JobState := touches.foldl Touch.next st

/-- The manager holds the new job in a state, and otherwise what it held before. -/
structure Held (m₀ : ContextManager) (jobId : Nat) (userId : Str) (st : JobState) (m : ContextManager) : Prop where
  rest : m.contexts.erase jobId = m₀.contexts
  here : ∃ ctx, m.contexts.lookup jobId = some ctx ∧ ctx.state = st ∧ ctx.userId = userId
  limit : m.maxJobs = m₀.maxJobs

section Touches

variable {m₀ m : ContextManager} {jobId : Nat} {userId : Str} {st : JobState}

/-- The new context is put beside the others. -/
theorem held_insert (hfresh : jobId ∉ m₀.contexts) {ctx : JobContext} (hid : ctx.jobId = jobId)
    (hm : m₀.insertContext ctx = .ok m) : Held m₀ jobId ctx.userId ctx.state m := by
  unfold ContextManager.insertContext at hm
  split at hm
  · cases hm
  · cases hm
    subst hid
    refine ⟨?_, ⟨ctx, AList.lookup_insert _, rfl, rfl⟩, rfl⟩
    rw [Table.erase_insert, Table.erase_of_not_mem _ hfresh]

/-- A change of the new job. -/
theorem Held.modify (h : Held m₀ jobId userId st m) (f : JobContext → JobContext) {st' : JobState}
    (hstate : ∀ ctx, ctx.state = st → (f ctx).state = st') (huser : ∀ ctx, (f ctx).userId = ctx.userId) :
    Held m₀ jobId userId st' { m with contexts := Table.modify jobId f m.contexts } := by
  obtain ⟨ctx, hctx, hst, hu⟩ := h.here
  refine ⟨?_, ⟨f ctx, ?_, hstate ctx hst, (huser ctx).trans hu⟩, h.limit⟩
  · rw [Table.erase_modify]
    exact h.rest
  · rw [Table.lookup_modify, if_pos rfl, hctx, Option.map_some]

/-- The removal of the new job leaves the manager as it was before. -/
theorem Held.eq_of_remove (h : Held m₀ jobId userId st m) :
    { m with contexts := m.contexts.erase jobId } = m₀ := by
  have hlimit := h.limit
  have hrest := h.rest
  cases m₀
  cases m
  simp_all

theorem touch_held (h : Held m₀ jobId userId st m) (op : JobOp) :
    Held m₀ jobId userId (op.next st) ((Touch.update op).op jobId |>.apply m) := by
  obtain ⟨ctx, hctx, -⟩ := h.here
  simp only [Touch.op, ManagerOp.apply, ContextManager.updateContext, hctx]
  refine h.modify (fun ctx => (op.apply ctx).2) ?_ fun ctx => step_userId op
  rintro ctx rfl
  exact step_state op

theorem touch_remove (h : Held m₀ jobId userId st m) : (Touch.remove.op jobId).apply m = m₀ := by
  obtain ⟨ctx, hctx, -⟩ := h.here
  simp only [Touch.op, ManagerOp.apply, ContextManager.removeJob, hctx]
  exact h.eq_of_remove

/-- On a job that is gone, other tasks do nothing. -/
theorem touched_gone (hfresh : jobId ∉ m₀.contexts) (touches : List Touch) :
    run ManagerOp.apply m₀ (touches.map (Touch.op jobId)) = m₀ := by
  have hnone : m₀.contexts.lookup jobId = none := AList.lookup_eq_none.mpr hfresh
  induction touches with
  | nil => rfl
  | cons touch touches ih =>
    have hsame : (touch.op jobId).apply m₀ = m₀ := by
      cases touch <;> simp [Touch.op, ManagerOp.apply, ContextManager.updateContext, ContextManager.removeJob, hnone,
        Except.toOption]
    rw [List.map_cons, run_cons, hsame, ih]

theorem touched_removed (hfresh : jobId ∉ m₀.contexts) : ∀ (touches : List Touch) {m : ContextManager} {st : JobState},
    Held m₀ jobId userId st m → removes touches = true →
      run ManagerOp.apply m (touches.map (Touch.op jobId)) = m₀
  | [], _, _, _, hr => by cases hr
  | .remove :: touches, m, st, h, _ => by
    rw [List.map_cons, run_cons, touch_remove h]
    exact touched_gone hfresh touches
  | .update op :: touches, m, st, h, hr => by
    rw [List.map_cons, run_cons]
    exact touched_removed hfresh touches (touch_held h op) hr

theorem touched_held : ∀ (touches : List Touch) {m : ContextManager} {st : JobState},
    Held m₀ jobId userId st m → removes touches = false →
      Held m₀ jobId userId (stateAfter st touches) (run ManagerOp.apply m (touches.map (Touch.op jobId)))
  | [], _, _, h, _ => h
  | .remove :: touches, m, st, _, hr => by cases hr
  | .update op :: touches, m, st, h, hr => by
    rw [List.map_cons, run_cons]
    exact touched_held touches (touch_held h op) hr

/-- The new job counts for its user while it takes a slot. -/
theorem Held.count (h : Held m₀ jobId userId st m) :
    m.parallelBlockingCountFor userId =
      m₀.parallelBlockingCountFor userId + if st.isParallelBlocking then 1 else 0 := by
  obtain ⟨ctx, hctx, rfl, rfl⟩ := h.here
  unfold ContextManager.parallelBlockingCountFor
  rw [Table.count_of_lookup _ _ _ hctx, h.rest]
  simp

end Touches

/-! ## Atomicity -/

/-- The contexts and the slots in use are the same. -/
def Unchanged (m₀ m : ContextManager) : Prop :=
  (∀ id, m.contexts.lookup id = m₀.contexts.lookup id) ∧ m.parallelCount = m₀.parallelCount

/-- When the call fails, the contexts and the slots are as before it. -/
def Atomic {α : Type} (m₀ : ContextManager) (r : Except JobError α × Scheduler) : Prop :=
  ∀ e, r.1 = .error e → Unchanged m₀ r.2.contextManager

/-- The job is removed, or may still be started. -/
def Startable (touches : List Touch) : Prop :=
  removes touches = true ∨ (stateAfter .pending touches).canTransitionTo .inProgress = true

/-- No slot is free, so that the context is not admitted; or another task removes the job before it is scheduled; or it
is persisted, the scheduler has room, and the job is within the limit of its user and can be started, unless another
task removes it before. -/
def Settles (s : Scheduler) (d : Dispatch s) (userId : Str) : Prop :=
  s.contextManager.maxJobs ≤ s.contextManager.parallelCount ∨
    removes (d.afterCreate ++ d.afterUpdate) = true ∨
    (s.store.isSome = true → d.saveError = none) ∧ s.jobs.length < s.config.maxParallelJobs ∧
      match s.config.maxJobsPerUser with
      | none => Startable (d.afterCreate ++ d.afterUpdate ++ d.afterCount)
      | some max =>
        let before := d.afterCreate ++ d.afterUpdate ++ d.afterContext
        removes before = true ∨
          s.contextManager.parallelBlockingCountFor userId +
              (if (stateAfter .pending before).isParallelBlocking then 1 else 0) < max ∧
            Startable (before ++ d.afterCount)

section Atomicity

variable {m₀ m : ContextManager} {jobId : Nat} {userId : Str} {st : JobState}

theorem atomic_gone {α : Type} (r : Except JobError α) {s : Scheduler} (h : s.contextManager = m₀) :
    Atomic m₀ (r, s) := by
  rintro e -
  show Unchanged m₀ s.contextManager
  rw [h]
  exact ⟨fun _ => rfl, rfl⟩

theorem not_atomic_held {α : Type} (e : JobError) {s : Scheduler} (hfresh : jobId ∉ m₀.contexts)
    (h : Held m₀ jobId userId st s.contextManager) : ¬Atomic m₀ ((.error e, s) : Except JobError α × Scheduler) := by
  intro ha
  obtain ⟨ctx, hctx, -⟩ := h.here
  have hnone : m₀.contexts.lookup jobId = none := AList.lookup_eq_none.mpr hfresh
  have hsame := (ha e rfl).1 jobId
  rw [hctx, hnone] at hsame
  cases hsame

theorem atomic_ok {α : Type} (a : α) (s : Scheduler) : Atomic m₀ ((.ok a, s) : Except JobError α × Scheduler) := by
  rintro e ⟨⟩

variable {s : Scheduler} (clock : JobContext.Clock)

theorem start_gone (hfresh : jobId ∉ m₀.contexts) (h : s.contextManager = m₀) : Atomic m₀ (s.start jobId clock) := by
  have hnone : s.contextManager.contexts.lookup jobId = none := by
    rw [h]
    exact AList.lookup_eq_none.mpr hfresh
  simp only [Scheduler.start, ContextManager.updateContext, hnone]
  exact atomic_gone _ h

/-- A job that is there is started, or stays behind. -/
theorem start_held (hfresh : jobId ∉ m₀.contexts) (h : Held m₀ jobId userId st s.contextManager) :
    Atomic m₀ (s.start jobId clock) ↔ st.canTransitionTo .inProgress = true := by
  obtain ⟨ctx, hctx, hst, -⟩ := h.here
  have hstate : ∀ c : JobContext, c.state = st →
      (c.transitionTo clock .inProgress (some "Scheduled for execution".toList)).2.state =
        if st.canTransitionTo .inProgress then .inProgress else st := by
    rintro c rfl
    exact transitionTo_state clock .inProgress _
  have hm := h.modify (fun c => (c.transitionTo clock .inProgress (some "Scheduled for execution".toList)).2) hstate
    (fun c => step_userId (.transitionTo clock .inProgress (some "Scheduled for execution".toList)))
  have hfst := transitionTo_fst ctx clock .inProgress (some "Scheduled for execution".toList)
  rw [hst] at hfst
  simp only [Scheduler.start, ContextManager.updateContext, hctx, hfst]
  cases hcan : st.canTransitionTo .inProgress with
  | false => exact iff_of_false (not_atomic_held _ hfresh hm) (by decide)
  | true => exact iff_of_true (atomic_ok _ _) rfl

/-! ### The parts of a dispatch -/

theorem removes_append (a b : List Touch) : removes (a ++ b) = (removes a || removes b) := by
  simp [removes, List.contains_eq_mem]

theorem stateAfter_append (st : JobState) (a b : List Touch) :
    stateAfter st (a ++ b) = stateAfter (stateAfter st a) b := List.foldl_append

/-- Other tasks act, and the job is started if it is still there. -/
theorem meanwhile_start (hfresh : jobId ∉ m₀.contexts) (touches : List Touch)
    (h : Held m₀ jobId userId st s.contextManager) :
    Atomic m₀ ((s.meanwhile jobId touches).start jobId clock) ↔
      removes touches = true ∨ (stateAfter st touches).canTransitionTo .inProgress = true := by
  cases hr : removes touches with
  | true => exact iff_of_true (start_gone clock hfresh (touched_removed hfresh touches h hr)) (.inl rfl)
  | false =>
    have hheld : Held m₀ jobId userId (stateAfter st touches) (s.meanwhile jobId touches).contextManager :=
      touched_held touches h hr
    rw [start_held clock hfresh hheld]
    simp

theorem schedule_gone (hfresh : jobId ∉ m₀.contexts) (afterContext afterCount : List Touch)
    (h : s.contextManager = m₀) : Atomic m₀ (s.schedule jobId clock afterContext afterCount) := by
  have hnone : s.contextManager.contexts.lookup jobId = none := by
    rw [h]
    exact AList.lookup_eq_none.mpr hfresh
  unfold Scheduler.schedule
  split
  · exact atomic_gone _ h
  split
  · exact atomic_gone _ h
  have hlimit : s.checkUserLimit jobId afterContext = (.ok (), s) := by
    unfold Scheduler.checkUserLimit ContextManager.getContext
    rw [hnone]
    split
    next hctx => cases hctx
    · rfl
  rw [hlimit]
  refine start_gone clock hfresh ?_
  show run ManagerOp.apply s.contextManager _ = m₀
  rw [h]
  exact touched_gone hfresh afterCount

/-- When a job that is there is scheduled, or goes. -/
theorem schedule_held (hfresh : jobId ∉ m₀.contexts) (hjobs : jobId ∉ s.jobs) (afterContext afterCount : List Touch)
    (h : Held m₀ jobId userId st s.contextManager) :
    Atomic m₀ (s.schedule jobId clock afterContext afterCount) ↔
      s.jobs.length < s.config.maxParallelJobs ∧
        match s.config.maxJobsPerUser with
        | none => removes afterCount = true ∨ (stateAfter st afterCount).canTransitionTo .inProgress = true
        | some max =>
          removes afterContext = true ∨
            m₀.parallelBlockingCountFor userId +
                (if (stateAfter st afterContext).isParallelBlocking then 1 else 0) < max ∧
              (removes afterCount = true ∨
                (stateAfter (stateAfter st afterContext) afterCount).canTransitionTo .inProgress = true) := by
  have hcontains : s.jobs.contains jobId = false := by
    rw [List.contains_eq_mem, decide_eq_false hjobs]
  unfold Scheduler.schedule
  rw [hcontains, if_neg Bool.false_ne_true]
  by_cases hroom : s.config.maxParallelJobs ≤ s.jobs.length
  · rw [if_pos hroom]
    exact iff_of_false (not_atomic_held _ hfresh h) fun hlt => absurd hlt.1 (Nat.not_lt.mpr hroom)
  rw [if_neg hroom, and_iff_right (Nat.lt_of_not_le hroom)]
  obtain ⟨ctx, hctx, -, huser⟩ := h.here
  unfold Scheduler.checkUserLimit ContextManager.getContext
  cases hmax : s.config.maxJobsPerUser with
  | none => exact meanwhile_start clock hfresh afterCount h
  | some max =>
    simp only [hctx, huser]
    cases hr : removes afterContext with
    | true =>
      have hgone : (s.meanwhile jobId afterContext).contextManager = m₀ := touched_removed hfresh afterContext h hr
      refine iff_of_true ?_ (.inl rfl)
      by_cases hfull : max ≤ (s.meanwhile jobId afterContext).contextManager.parallelBlockingCountFor userId
      · rw [if_pos hfull]
        exact atomic_gone _ hgone
      · rw [if_neg hfull]
        refine start_gone clock hfresh ?_
        show run ManagerOp.apply (s.meanwhile jobId afterContext).contextManager _ = m₀
        rw [hgone]
        exact touched_gone hfresh afterCount
    | false =>
      have hheld : Held m₀ jobId userId (stateAfter st afterContext) (s.meanwhile jobId afterContext).contextManager :=
        touched_held afterContext h hr
      rw [← hheld.count]
      by_cases hfull : max ≤ (s.meanwhile jobId afterContext).contextManager.parallelBlockingCountFor userId
      · rw [if_pos hfull]
        refine iff_of_false (not_atomic_held _ hfresh hheld) ?_
        rintro (hf | ⟨hlt, -⟩)
        · cases hf
        · exact Nat.not_lt.mpr hfull hlt
      · rw [if_neg hfull, meanwhile_start clock hfresh afterCount hheld, and_iff_right (Nat.lt_of_not_le hfull)]
        simp

theorem applyMetadata_gone (hfresh : jobId ∉ m₀.contexts) (metadata : Option Json) (h : s.contextManager = m₀) :
    ∃ e, s.applyMetadata jobId metadata = .error e := by
  have hnone : s.contextManager.contexts.lookup jobId = none := by
    rw [h]
    exact AList.lookup_eq_none.mpr hfresh
  refine ⟨.notFound jobId, ?_⟩
  unfold Scheduler.applyMetadata ContextManager.updateContextAndGet ContextManager.updateContext
    ContextManager.getContext
  rw [hnone]
  cases metadata with
  | some json => rfl
  | none => exact ite_self _

/-- Metadata and budget change neither the state nor the user of the job. -/
theorem applyMetadata_held (metadata : Option Json) (h : Held m₀ jobId userId st s.contextManager) :
    ∃ ctx m, s.applyMetadata jobId metadata = .ok (ctx, m) ∧ Held m₀ jobId userId st m := by
  obtain ⟨ctx, hctx, -⟩ := h.here
  unfold Scheduler.applyMetadata ContextManager.updateContextAndGet ContextManager.updateContext
    ContextManager.getContext
  rw [hctx]
  cases metadata with
  | some json => exact ⟨_, _, rfl, h.modify _ (fun _ => id) fun _ => rfl⟩
  | none =>
    by_cases hmax : 0 < s.maxTokens none
    · refine ⟨_, _, if_pos hmax, h.modify (fun ctx => { ctx with maxTokens := s.maxTokens none }) (fun _ => id) ?_⟩
      exact fun _ => rfl
    · exact ⟨_, _, if_neg hmax, h⟩

/-- The store refuses the job, or only its rows change. -/
theorem saveJob_cases (s : Scheduler) (jobId : Nat) (ctx : JobContext) (saveError : Option Str) :
    (¬(s.store.isSome = true → saveError = none) ∧ ∃ e, s.saveJob jobId ctx saveError = .error e) ∨
      (s.store.isSome = true → saveError = none) ∧
        ∃ s', s.saveJob jobId ctx saveError = .ok s' ∧
          s'.config = s.config ∧ s'.contextManager = s.contextManager ∧ s'.jobs = s.jobs := by
  obtain ⟨config, m, store, jobs⟩ := s
  cases store with
  | none =>
    refine .inr ⟨fun hsome => ?_, _, rfl, rfl, rfl, rfl⟩
    cases hsome
  | some rows =>
    cases saveError with
    | some e =>
      refine .inl ⟨fun hnone => ?_, _, rfl⟩
      cases hnone rfl
    | none => exact .inr ⟨fun _ => rfl, _, rfl, rfl, rfl, rfl⟩

theorem atomic_map {α β : Type} (f : α → β) (r : Except JobError α × Scheduler) :
    Atomic m₀ (r.1.map f, r.2) ↔ Atomic m₀ r := by
  obtain ⟨e | a, s⟩ := r
  · constructor
    · rintro h _ ⟨⟩
      exact h e rfl
    · rintro h _ ⟨⟩
      exact h e rfl
  · exact iff_of_true (atomic_ok _ _) (atomic_ok _ _)

end Atomicity

/-- **Dispatch atomicity** holds exactly when the context is not admitted, when another task removes it in time, or when
nothing after its creation fails. -/
theorem dispatch_atomic_iff (s : Scheduler) (d : Dispatch s) (userId title description : Str) (metadata : Option Json) :
    Atomic s.contextManager (s.dispatchJob d userId title description metadata) ↔ Settles s d userId := by
  unfold Scheduler.dispatchJob Settles
  cases hcreate : s.contextManager.createJobForUser d.jobId d.now userId title description with
  | error e =>
    refine iff_of_true (atomic_gone _ rfl) (.inl ?_)
    unfold ContextManager.createJobForUser ContextManager.insertContext at hcreate
    split at hcreate
    next hfull => exact hfull
    · cases hcreate
  | ok m =>
    have hfree : ¬s.contextManager.maxJobs ≤ s.contextManager.parallelCount := by
      unfold ContextManager.createJobForUser ContextManager.insertContext at hcreate
      split at hcreate
      · cases hcreate
      next hfree => exact hfree
    have hnew : Held s.contextManager d.jobId userId .pending m := held_insert d.fresh rfl hcreate
    rw [or_iff_right hfree, removes_append]
    dsimp only
    cases hcreated : removes d.afterCreate with
    | true =>
      -- the job is gone before its metadata is set
      have hgone : ((s.withManager m).meanwhile d.jobId d.afterCreate).contextManager = s.contextManager :=
        touched_removed d.fresh d.afterCreate hnew hcreated
      obtain ⟨e, he⟩ := applyMetadata_gone d.fresh metadata hgone
      rw [he]
      exact iff_of_true (atomic_gone _ hgone) (.inl rfl)
    | false =>
      have hheld := touched_held d.afterCreate hnew hcreated
      obtain ⟨ctx, m', happly, hheld'⟩ := applyMetadata_held metadata
        (show Held _ _ _ _ ((s.withManager m).meanwhile d.jobId d.afterCreate).contextManager from hheld)
      rw [happly, Bool.false_or]
      dsimp only
      obtain ⟨hsave, e, he⟩ | ⟨hsave, s', hs', hconfig, hmanager, hjobs⟩ :=
        saveJob_cases ((((s.withManager m).meanwhile d.jobId d.afterCreate).withManager m').meanwhile d.jobId
          d.afterUpdate) d.jobId ctx d.saveError
      · rw [he]
        cases hupdated : removes d.afterUpdate with
        | true => exact iff_of_true (atomic_gone _ (touched_removed d.fresh d.afterUpdate hheld' hupdated)) (.inl rfl)
        | false =>
          refine iff_of_false (not_atomic_held _ d.fresh (touched_held d.afterUpdate hheld' hupdated)) ?_
          rintro (hf | ⟨hok, -⟩)
          · cases hf
          · exact hsave hok
      · rw [hs']
        dsimp only
        rw [atomic_map]
        have hunscheduled : d.jobId ∉ s'.jobs := by
          rw [hjobs]
          exact d.unscheduled
        cases hupdated : removes d.afterUpdate with
        | true =>
          refine iff_of_true (schedule_gone d.clock d.fresh _ _ ?_) (.inl rfl)
          rw [hmanager]
          exact touched_removed d.fresh d.afterUpdate hheld' hupdated
        | false =>
          have hheld'' : Held s.contextManager d.jobId userId
              (stateAfter (stateAfter .pending d.afterCreate) d.afterUpdate) s'.contextManager := by
            rw [hmanager]
            exact touched_held d.afterUpdate hheld' hupdated
          have hpersisted : s.store.isSome = true → d.saveError = none := hsave
          rw [schedule_held d.clock d.fresh hunscheduled _ _ hheld'', and_iff_right hpersisted,
            or_iff_right Bool.false_ne_true, hconfig, hjobs]
          simp only [Startable, removes_append, stateAfter_append, hcreated, hupdated, Bool.false_or]
          refine and_congr Iff.rfl ?_
          show (match s.config.maxJobsPerUser with | none => _ | some max => _) ↔ _
          cases s.config.maxJobsPerUser with
          | none => exact Iff.rfl
          | some max => cases removes d.afterContext <;> simp

/-- The store is down: the dispatch fails, and its job is left behind as pending. -/
theorem failed_dispatch_leaves_job :
    ¬∀ (s : Scheduler) (d : Dispatch s) (userId title description : Str) (metadata : Option Json),
      Atomic s.contextManager (s.dispatchJob d userId title description metadata) := by
  intro h
  let s : Scheduler := ⟨⟨1, none, 0⟩, .new 1, some [], []⟩
  let d : Dispatch s :=
    { jobId := 7, fresh := AList.notMem_empty _, unscheduled := List.not_mem_nil, now := 0, clock := ⟨0, 0⟩,
      afterCreate := [], afterUpdate := [], afterContext := [], afterCount := [], saveError := some "down".toList }
  have hslots := (h s d "u".toList "t".toList [] none _ rfl).2
  cases hslots

end Ironclaw.Agent

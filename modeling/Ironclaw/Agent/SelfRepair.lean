import Ironclaw.Context.Manager

/-!
# Self-repair

The repair loop finds the jobs that are stuck or run for too long, marks the latter as stuck, and recovers each job that
it reports unless that was tried too often. Every access to a job is a lock window of its own, and between any two of
them time may pass, jobs may be created, started, moved by their workers or removed.

- `Watched`, `Fresh`: what the loop may rely on for a job that it has found;
- `Repairing`, `repairing_step`: what every step keeps;
- `self_repair_spec`: how often a job is recovered, and when it is detected again.
-/

namespace Ironclaw.Agent

open Text Run Context

/-! ## Times -/

/-- Instants are in nanoseconds. -/
def NANOS : Nat := 1000000000

/-- `num_seconds().max(0)` of the time between two instants: whole seconds, and none when the time runs backwards. -/
def elapsedSecs (now since : Int) : Nat := (now - since).toNat / NANOS

theorem elapsedSecs_mono {now later : Int} (h : now ≤ later) (since : Int) :
    elapsedSecs now since ≤ elapsedSecs later since := by
  unfold elapsedSecs NANOS
  omega

/-- Whole seconds that have passed are a lower bound. -/
theorem le_of_elapsedSecs {now since : Int} {n : Nat} (h : n < elapsedSecs now since) :
    since + (n + 1) * NANOS ≤ now := by
  unfold elapsedSecs NANOS at *
  omega

/-! ## Detection and repair -/

/-- The most recent transition to `Stuck`. -/
def stuckSince (transitions : List StateTransition) : Option Int :=
  (transitions.reverse.find? fun t => t.toState = .stuck).map StateTransition.timestamp

/-- A job that is stuck, or runs for longer than the threshold, in whole seconds since it was first started. -/
def runsTooLong (elapsedThreshold : Option Nat) (now : Int) (ctx : JobContext) : Bool :=
  ctx.state = .stuck ||
    (ctx.state = .inProgress &&
      match elapsedThreshold, ctx.startedAt with
      | some threshold, some started => decide (threshold / NANOS < elapsedSecs now started)
      | _, _ => false)

/-- `find_stuck_jobs_with_threshold`, in the order of an iteration. -/
def findStuckJobsWithThreshold (m : ContextManager) (order : Table.Iteration Nat JobContext)
    (elapsedThreshold : Option Nat)
    (now : Int) : List Nat :=
  ((order.entries m.contexts).filter fun e => runsTooLong elapsedThreshold now e.2).map Sigma.fst

structure StuckJob where
  jobId : Nat
  lastActivity : Int
  stuckDuration : Nat
  lastError : Option Str
  repairAttempts : UInt32

/-- The thresholds; the first one is in nanoseconds. -/
structure SelfRepairConfig where
  stuckThreshold : Nat
  maxRepairAttempts : UInt32

/-- The change of a context in `repair_stuck_job`. -/
def recoverStuck (ctx : JobContext) (clock : JobContext.Clock) : Except Str Unit × JobContext :=
  if ctx.state = .inProgress then
    match ctx.transitionTo clock .stuck (some "exceeded stuck_threshold".toList) with
    | (.error e, ctx) => (.error e, ctx)
    | (.ok _, ctx) => ctx.attemptRecovery clock
  else ctx.attemptRecovery clock

/-! ## The loop and the jobs -/

/-- Where the loop is: it waits; it has ids to look at and jobs to report; it is about to mark a job, or to read it
again, told whether it has just marked it; or it has jobs to repair. -/
inductive RepairPhase
  | idle
  | scanning (ids : List Nat) (found : List StuckJob)
  | marking (jobId : Nat) (ids : List Nat) (found : List StuckJob)
  | reading (jobId : Nat) (justTransitioned : Bool) (ids : List Nat) (found : List StuckJob)
  | repairing (jobs : List StuckJob)

/-- A job that was marked or reported: when, since when it has been running, and when it had been recovered before. -/
structure Detection where
  jobId : Nat
  time : Int
  startedAt : Option Int
  recoveries : List Int
  deriving DecidableEq

structure RepairSystem where
  manager : ContextManager
  now : Int
  phase : RepairPhase
  /-- All ids so far. -/
  ids : List Nat
  /-- The recoveries so far, with their times. -/
  recovered : List (Nat × Int)
  detections : List Detection

/-- A worker's call moves its job, but does not start it. -/
inductive WorkerMove
  | transitionTo (newState : { newState : JobState // newState ≠ .inProgress }) (reason : Option Str)
  | markStuck (reason : Str)

def WorkerMove.op (clock : JobContext.Clock) : WorkerMove → JobOp
  | transitionTo newState reason => .transitionTo clock newState.1 reason
  | markStuck reason => .markStuck clock reason

/-- Time passes; a job is created, started when it waits, moved or removed; the loop takes its next step. -/
inductive RepairEvent
  | wait (nanos : Nat)
  | create (jobId : Nat) (userId title description : Str)
  | registerSandbox (jobId : Nat) (userId title description : Str)
  | start (jobId : Nat)
  | worker (jobId : Nat) (move : WorkerMove)
  | remove (jobId : Nat)
  | detect (order : Table.Iteration Nat JobContext)
  | next

namespace RepairSystem

variable (config : SelfRepairConfig) (s : RepairSystem)

/-- The times at which a job was recovered. -/
def recoveriesOf (jobId : Nat) : List Int := (s.recovered.filter fun r => r.1 = jobId).map Prod.snd

def clock : JobContext.Clock := ⟨s.now, s.now⟩

def lookup (jobId : Nat) : Option JobContext := s.manager.contexts.lookup jobId

/-- The manager after a call on a job. -/
def moved (jobId : Nat) (op : JobOp) : ContextManager := (ManagerOp.updateContext jobId op).apply s.manager

def detected (jobId : Nat) (ctx : JobContext) : Detection := ⟨jobId, s.now, ctx.startedAt, s.recoveriesOf jobId⟩

/-- The next id of a scan: a job in progress is to be marked, a stuck one to be read again. -/
def examine : List Nat → List StuckJob → RepairSystem
  | [], found => { s with phase := .repairing found }
  | jobId :: ids, found =>
    match s.manager.getContext jobId with
    | .error _ => { s with phase := .scanning ids found }
    | .ok ctx =>
      if ctx.state = .inProgress then { s with phase := .marking jobId ids found }
      else if ctx.state = .stuck then { s with phase := .reading jobId false ids found }
      else { s with phase := .scanning ids found }

def mark (jobId : Nat) (ids : List Nat) (found : List StuckJob) : RepairSystem :=
  match s.manager.updateContext jobId fun ctx => ctx.markStuck s.clock "exceeded stuck_threshold".toList with
  | .ok (.ok _, m) =>
    { s with
      manager := m
      phase := .reading jobId true ids found
      detections := s.detections ++ ((s.lookup jobId).map (s.detected jobId)).toList }
  | .ok (.error _, m) => { s with manager := m, phase := .scanning ids found }
  | .error _ => { s with phase := .scanning ids found }

/-- The job is read again, and reported unless it is stuck for too short a time. -/
def read (jobId : Nat) (justTransitioned : Bool) (ids : List Nat) (found : List StuckJob) : RepairSystem :=
  match s.manager.getContext jobId with
  | .error _ => { s with phase := .scanning ids found }
  | .ok ctx =>
    let stuckDuration := ((stuckSince ctx.transitions).map (elapsedSecs s.now)).getD 0
    if !justTransitioned && decide (stuckDuration * NANOS < config.stuckThreshold) then
      { s with phase := .scanning ids found }
    else
      { s with
        phase := .scanning ids (found ++
          [⟨jobId, (stuckSince ctx.transitions).getD ctx.createdAt, stuckDuration, none, ctx.repairAttempts⟩])
        detections := s.detections ++ [s.detected jobId ctx] }

/-- `repair_stuck_job` for the next job. -/
def repair (job : StuckJob) (jobs : List StuckJob) : RepairSystem :=
  if config.maxRepairAttempts ≤ job.repairAttempts then { s with phase := .repairing jobs }
  else
    match s.manager.updateContext job.jobId fun ctx => recoverStuck ctx s.clock with
    | .ok (.ok _, m) =>
      { s with
        manager := m
        phase := .repairing jobs
        recovered := s.recovered ++ [(job.jobId, s.now)] }
    | .ok (.error _, m) => { s with manager := m, phase := .repairing jobs }
    | .error _ => { s with phase := .repairing jobs }

def nextStep : RepairSystem :=
  match s.phase with
  | .idle => s
  | .scanning ids found => s.examine ids found
  | .marking jobId ids found => s.mark jobId ids found
  | .reading jobId justTransitioned ids found => s.read config jobId justTransitioned ids found
  | .repairing [] => { s with phase := .idle }
  | .repairing (job :: jobs) => s.repair config job jobs

def step : RepairEvent → RepairSystem
  | .wait nanos => { s with now := s.now + nanos }
  | .create jobId userId title description =>
    if jobId ∈ s.ids then s
    else
      { s with
        manager := (ManagerOp.createJobForUser jobId s.now userId title description).apply s.manager
        ids := jobId :: s.ids }
  | .registerSandbox jobId userId title description =>
    if jobId ∈ s.ids then s
    else
      { s with
        manager := (ManagerOp.registerSandboxJob jobId s.now s.now userId title description).apply s.manager
        ids := jobId :: s.ids }
  | .start jobId =>
    if (s.lookup jobId).any fun ctx => ctx.state = .pending then
      { s with manager := s.moved jobId (.transitionTo s.clock .inProgress (some "Scheduled for execution".toList)) }
    else s
  | .worker jobId move => { s with manager := s.moved jobId (move.op s.clock) }
  | .remove jobId => { s with manager := (ManagerOp.removeJob jobId).apply s.manager }
  | .detect order =>
    match s.phase with
    | .idle =>
      { s with phase := .scanning (findStuckJobsWithThreshold s.manager order (some config.stuckThreshold) s.now) [] }
    | _ => s
  | .next => s.nextStep config

def init (maxJobs : Nat) (now : Int) : RepairSystem := ⟨.new maxJobs, now, .idle, [], [], []⟩

end RepairSystem

/-! ## What a call leaves -/

/-- The job has been running for longer than the threshold. -/
def Overdue (threshold : Nat) (now : Int) (ctx : JobContext) : Prop :=
  ∃ started, ctx.startedAt = some started ∧ threshold / NANOS < elapsedSecs now started

/-- A job whose id was found: it does not wait, and while it is in progress it is overdue. -/
def Watched (threshold : Nat) (now : Int) (ctx : JobContext) : Prop :=
  ctx.state ≠ .pending ∧ (ctx.state = .inProgress → Overdue threshold now ctx)

/-- The job got stuck after it was recovered. -/
def Fresh (recoveries : List Int) (ctx : JobContext) : Prop :=
  ∀ since, stuckSince ctx.transitions = some since → ∀ t ∈ recoveries, t ≤ since

/-- The job neither waits nor is in progress. -/
def Resting (recoveries : List Int) (ctx : JobContext) : Prop :=
  ctx.state ≠ .pending ∧ ctx.state ≠ .inProgress ∧ Fresh recoveries ctx

/-- What a call at a time makes of a job, when it starts or recovers none but one that waits. -/
structure MovedOn (now : Int) (ctx ctx' : JobContext) : Prop where
  attempts : ctx'.repairAttempts = ctx.repairAttempts
  started : ∀ started, ctx.startedAt = some started → ctx'.startedAt = some started
  state : ctx'.state = ctx.state ∨ (ctx'.state ≠ .pending ∧ ctx'.state ≠ .inProgress) ∨ ctx.state = .pending
  since : ∀ since, stuckSince ctx'.transitions = some since → stuckSince ctx.transitions = some since ∨
    (since = now ∧ ctx.state = .inProgress)
  stuck : ctx'.state = .stuck → ctx.state = .stuck ∨ stuckSince ctx'.transitions = some now

section Calls

variable {now : Int} {ctx ctx' : JobContext} {threshold : Nat} {recoveries : List Int}

theorem MovedOn.refl (now : Int) (ctx : JobContext) : MovedOn now ctx ctx :=
  ⟨rfl, fun _ => id, Or.inl rfl, fun _ => Or.inl, Or.inl⟩

/-- The most recent transition to `Stuck` after one more transition. -/
theorem stuckSince_push {transitions : List StateTransition} {t : StateTransition} {since : Int}
    (h : stuckSince (JobContext.pushTransition transitions t) = some since) :
    (t.toState = .stuck ∧ since = t.timestamp) ∨ stuckSince transitions = some since := by
  obtain ⟨found, hfound, rfl⟩ := Option.map_eq_some_iff.mp h
  -- the record is the last part of all entries, so what is found in it is found in all of them
  have hall : ((transitions ++ [t]).reverse.find? fun t => t.toState = .stuck) = some found := by
    rw [JobContext.pushTransition, List.reverse_drop] at hfound
    rw [← List.take_append_drop
      ((transitions ++ [t]).length - ((transitions ++ [t]).length - JobContext.MAX_TRANSITIONS))
      (transitions ++ [t]).reverse, List.find?_append, hfound, Option.some_or]
  rw [List.reverse_append, List.reverse_singleton, List.singleton_append, List.find?_cons] at hall
  split at hall
  next hstuck =>
    obtain rfl := Option.some.inj hall
    exact Or.inl ⟨by simpa using hstuck, rfl⟩
  next =>
    refine Or.inr ?_
    rw [stuckSince, hall, Option.map_some]

theorem stuckSince_push_stuck (transitions : List StateTransition) (t : StateTransition) (h : t.toState = .stuck) :
    stuckSince (JobContext.pushTransition transitions t) = some t.timestamp := by
  obtain ⟨front, hfront⟩ := List.getLast?_eq_some_iff.mp (getLast?_pushTransition transitions t)
  rw [stuckSince, hfront, List.reverse_append, List.reverse_singleton, List.singleton_append, List.find?_cons_of_pos]
  · rfl
  · simpa using h

/-- A permitted move that starts no job but one that waits. -/
theorem movedOn_moved (clock : JobContext.Clock) {newState : JobState} {reason : Option Str}
    (hcan : ctx.state.canTransitionTo newState = true) (hstart : newState = .inProgress → ctx.state = .pending) :
    MovedOn clock.entry ctx (ctx.moved clock newState reason) := by
  have hsources : ∀ st newState : JobState, st.canTransitionTo newState = true →
      newState ≠ .pending ∧ (newState = .stuck → st = .inProgress) := by decide
  obtain ⟨hpending, hstuck⟩ := hsources ctx.state newState hcan
  refine ⟨rfl, fun started h => ?_, ?_, fun since h => ?_, fun h => Or.inr ?_⟩
  · rw [moved_startedAt, if_neg, h]
    rintro ⟨-, hnone⟩
    rw [hnone] at h
    cases h
  · by_cases hnew : newState = .inProgress
    · exact Or.inr (Or.inr (hstart hnew))
    · exact Or.inr (Or.inl ⟨hpending, hnew⟩)
  · rw [moved_transitions] at h
    rcases stuckSince_push h with ⟨hto, hsince⟩ | hold
    · exact Or.inr ⟨hsince, hstuck hto⟩
    · exact Or.inl hold
  · rw [moved_transitions]
    exact stuckSince_push_stuck _ _ h

theorem movedOn_transitionTo (clock : JobContext.Clock) {newState : JobState} (reason : Option Str)
    (hstart : newState = .inProgress → ctx.state = .pending) :
    MovedOn clock.entry ctx (ctx.transitionTo clock newState reason).2 := by
  rcases transitionTo_cases ctx clock newState reason with ⟨e, h⟩ | ⟨-, h⟩ | ⟨hcan, -, h⟩
  · rw [h]
    exact .refl _ _
  · rw [h]
    exact .refl _ _
  · rw [h]
    exact movedOn_moved clock hcan hstart

theorem movedOn_worker (clock : JobContext.Clock) (move : WorkerMove) :
    MovedOn clock.entry ctx (Context.step ctx (move.op clock)) := by
  cases move with
  | transitionTo newState reason => exact movedOn_transitionTo clock reason fun h => absurd h newState.2
  | markStuck reason => exact movedOn_transitionTo clock (some reason) fun h => by cases h

theorem Overdue.later (h : Overdue threshold now ctx) {later : Int} (hle : now ≤ later) :
    Overdue threshold later ctx := by
  obtain ⟨started, hstarted, hlt⟩ := h
  exact ⟨started, hstarted, hlt.trans_le (elapsedSecs_mono hle started)⟩

theorem Overdue.moved {later : Int} (h : Overdue threshold now ctx) (hmoved : MovedOn later ctx ctx') :
    Overdue threshold now ctx' := by
  obtain ⟨started, hstarted, hlt⟩ := h
  exact ⟨started, hmoved.started started hstarted, hlt⟩

theorem Watched.moved {later : Int} (h : Watched threshold now ctx) (hmoved : MovedOn later ctx ctx') :
    Watched threshold now ctx' := by
  rcases hmoved.state with hstate | ⟨hpending, hprogress⟩ | hpending
  · refine ⟨hstate ▸ h.1, fun hprogress => ?_⟩
    exact (h.2 (hstate ▸ hprogress)).moved hmoved
  · exact ⟨hpending, fun h => absurd h hprogress⟩
  · exact absurd hpending h.1

theorem Resting.moved (h : Resting recoveries ctx) (hmoved : MovedOn now ctx ctx') : Resting recoveries ctx' := by
  obtain ⟨hpending, hprogress, hfresh⟩ := h
  have hstate : ctx'.state ≠ .pending ∧ ctx'.state ≠ .inProgress := by
    rcases hmoved.state with hstate | hstate | hstate
    · rw [hstate]
      exact ⟨hpending, hprogress⟩
    · exact hstate
    · exact absurd hstate hpending
  refine ⟨hstate.1, hstate.2, fun since hsince => ?_⟩
  rcases hmoved.since since hsince with hold | ⟨-, h⟩
  · exact hfresh since hold
  · exact absurd h hprogress

theorem Fresh.moved (hfresh : ctx.state = .stuck → Fresh recoveries ctx) (hmoved : MovedOn now ctx ctx')
    (htimes : ∀ t ∈ recoveries, t ≤ now) (hstuck : ctx'.state = .stuck) : Fresh recoveries ctx' := by
  intro since hsince
  rcases hmoved.stuck hstuck with hold | hnow
  · rcases hmoved.since since hsince with h | ⟨-, h⟩
    · exact hfresh hold since h
    · rw [hold] at h
      cases h
  · obtain rfl : since = now := Option.some.inj (hsince.symm.trans hnow)
    exact htimes

/-- Recovering a job is refused, or counts one attempt and leaves the job in progress. -/
theorem recoverStuck_cases (ctx : JobContext) (clock : JobContext.Clock) :
    (∃ e, recoverStuck ctx clock = (.error e, ctx)) ∨
      ((recoverStuck ctx clock).1 = .ok () ∧ (recoverStuck ctx clock).2.repairAttempts = ctx.repairAttempts + 1 ∧
        (recoverStuck ctx clock).2.state = .inProgress) := by
  have hrecover : ∀ ctx : JobContext, ctx.state = .stuck → (ctx.attemptRecovery clock).1 = .ok () ∧
      (ctx.attemptRecovery clock).2.repairAttempts = ctx.repairAttempts + 1 ∧
      (ctx.attemptRecovery clock).2.state = .inProgress := by
    intro ctx hstuck
    simp [JobContext.attemptRecovery, JobContext.transitionTo, hstuck, JobState.canTransitionTo, JobContext.moved]
  unfold recoverStuck
  split
  next hprogress =>
    have hmoved : ctx.transitionTo clock .stuck (some "exceeded stuck_threshold".toList) =
        (.ok (), ctx.moved clock .stuck (some "exceeded stuck_threshold".toList)) := by
      simp [JobContext.transitionTo, hprogress, JobState.canTransitionTo]
    rw [hmoved]
    exact Or.inr (hrecover _ rfl)
  next =>
    by_cases hstuck : ctx.state = .stuck
    · exact Or.inr (hrecover ctx hstuck)
    · exact Or.inl ⟨"Job is not stuck".toList, by simp [JobContext.attemptRecovery, hstuck]⟩

/-- A job that is marked was in progress. -/
theorem inProgress_of_markStuck {clock : JobContext.Clock} {reason : Str}
    (h : (ctx.markStuck clock reason).1 = .ok ()) :
    ctx.state = .inProgress := by
  have hsource : ∀ st : JobState, st.canTransitionTo .stuck = true → st = .inProgress := by decide
  rw [JobContext.markStuck, transitionTo_fst] at h
  split at h
  next hcan => exact hsource _ hcan
  next => cases h

end Calls

/-! ## The invariant -/

/-- The reports of a job agree with it on the attempts. -/
def Reported (jobs : List StuckJob) (jobId : Nat) (ctx : JobContext) : Prop :=
  ∀ job ∈ jobs, job.jobId = jobId → job.repairAttempts = ctx.repairAttempts

namespace RepairPhase

/-- The ids that the loop still has to do with. -/
def ids : RepairPhase → List Nat
  | idle => []
  | scanning ids found => ids ++ found.map StuckJob.jobId
  | marking jobId ids found | reading jobId _ ids found => jobId :: (ids ++ found.map StuckJob.jobId)
  | repairing jobs => jobs.map StuckJob.jobId

/-- What the loop relies on for a job. -/
def Relies (threshold : Nat) (now : Int) (recoveries : List Int) (jobId : Nat) (ctx : JobContext) : RepairPhase → Prop
  | idle => True
  | scanning ids found => (jobId ∈ ids → Watched threshold now ctx) ∧ Reported found jobId ctx
  | marking k ids found => (jobId ∈ k :: ids → Watched threshold now ctx) ∧ Reported found jobId ctx
  | reading k justTransitioned ids found =>
    (jobId ∈ ids → Watched threshold now ctx) ∧ Reported found jobId ctx ∧
      (jobId = k → if justTransitioned then Overdue threshold now ctx else Resting recoveries ctx)
  | repairing jobs => Reported jobs jobId ctx

section

variable {threshold : Nat} {now : Int} {recoveries : List Int} {jobId : Nat} {ctx ctx' : JobContext}
    {phase : RepairPhase}

theorem Relies.moved (h : phase.Relies threshold now recoveries jobId ctx) (hmoved : MovedOn now ctx ctx') :
    phase.Relies threshold now recoveries jobId ctx' := by
  have hreported : ∀ jobs, Reported jobs jobId ctx → Reported jobs jobId ctx' :=
    fun jobs h job hjob hid => (h job hjob hid).trans hmoved.attempts.symm
  cases phase with
  | idle => trivial
  | scanning ids found => exact ⟨fun hmem => (h.1 hmem).moved hmoved, hreported found h.2⟩
  | marking k ids found => exact ⟨fun hmem => (h.1 hmem).moved hmoved, hreported found h.2⟩
  | reading k justTransitioned ids found =>
    refine ⟨fun hmem => (h.1 hmem).moved hmoved, hreported found h.2.1, fun hid => ?_⟩
    have hk := h.2.2 hid
    cases justTransitioned with
    | true => exact Overdue.moved hk hmoved
    | false => exact Resting.moved hk hmoved
  | repairing jobs => exact hreported jobs h

theorem Relies.later (h : phase.Relies threshold now recoveries jobId ctx) {later : Int} (hle : now ≤ later) :
    phase.Relies threshold later recoveries jobId ctx := by
  have hwatched : Watched threshold now ctx → Watched threshold later ctx :=
    fun h => ⟨h.1, fun hp => (h.2 hp).later hle⟩
  cases phase with
  | idle => trivial
  | scanning ids found => exact ⟨fun hmem => hwatched (h.1 hmem), h.2⟩
  | marking k ids found => exact ⟨fun hmem => hwatched (h.1 hmem), h.2⟩
  | reading k justTransitioned ids found =>
    refine ⟨fun hmem => hwatched (h.1 hmem), h.2.1, fun hid => ?_⟩
    have hk := h.2.2 hid
    cases justTransitioned with
    | true => exact Overdue.later hk hle
    | false => exact hk
  | repairing jobs => exact h

/-- The loop relies on nothing for other jobs. -/
theorem relies_of_not_mem (h : jobId ∉ phase.ids) : phase.Relies threshold now recoveries jobId ctx := by
  have hreported : ∀ jobs : List StuckJob, jobId ∉ jobs.map StuckJob.jobId → Reported jobs jobId ctx :=
    fun jobs h job hjob hid => absurd (hid ▸ List.mem_map_of_mem hjob) h
  cases phase with
  | idle => trivial
  | scanning ids found =>
    simp only [RepairPhase.ids, List.mem_append, not_or] at h
    exact ⟨fun hmem => absurd hmem h.1, hreported found h.2⟩
  | marking k ids found =>
    simp only [RepairPhase.ids, List.mem_cons, List.mem_append, not_or] at h
    refine ⟨fun hmem => ?_, hreported found h.2.2⟩
    rcases List.mem_cons.mp hmem with rfl | hmem
    · exact absurd rfl h.1
    · exact absurd hmem h.2.1
  | reading k justTransitioned ids found =>
    simp only [RepairPhase.ids, List.mem_cons, List.mem_append, not_or] at h
    exact ⟨fun hmem => absurd hmem h.2.1, hreported found h.2.2, fun hid => absurd hid h.1⟩
  | repairing jobs => exact hreported jobs h

end

end RepairPhase

/-- The attempts of a job are its recoveries, and it is as the loop relies on. -/
structure JobOk (threshold : Nat) (s : RepairSystem) (jobId : Nat) (ctx : JobContext) : Prop where
  attempts : (s.recoveriesOf jobId).length = ctx.repairAttempts.toNat
  fresh : ctx.state = .stuck → Fresh (s.recoveriesOf jobId) ctx
  relies : s.phase.Relies threshold s.now (s.recoveriesOf jobId) jobId ctx

/-- The detection came after the threshold: since every recovery of the job before it, or since the job was first
started. -/
def Detection.Late (threshold : Nat) (d : Detection) : Prop :=
  (∀ t ∈ d.recoveries, t + threshold ≤ d.time) ∨ ∃ started, d.startedAt = some started ∧ started + threshold < d.time

structure Repairing (config : SelfRepairConfig) (s : RepairSystem) : Prop where
  jobs : ∀ jobId ctx, s.lookup jobId = some ctx → JobOk config.stuckThreshold s jobId ctx
  bound : ∀ jobId, (s.recoveriesOf jobId).length ≤ config.maxRepairAttempts.toNat
  times : ∀ r ∈ s.recovered, r.2 ≤ s.now
  present : ∀ jobId ctx, s.lookup jobId = some ctx → jobId ∈ s.ids
  past : ∀ r ∈ s.recovered, r.1 ∈ s.ids
  current : ∀ jobId ∈ s.phase.ids, jobId ∈ s.ids
  nodup : s.phase.ids.Nodup
  detections : ∀ d ∈ s.detections, d.Late config.stuckThreshold

section Steps

variable {config : SelfRepairConfig} {s : RepairSystem}

theorem time_of_recovery (h : Repairing config s) {jobId : Nat} {t : Int} (ht : t ∈ s.recoveriesOf jobId) :
    t ≤ s.now := by
  obtain ⟨r, hr, rfl⟩ := List.mem_map.mp ht
  exact h.times r (List.mem_of_mem_filter hr)

/-- An id that is new was never recovered. -/
theorem recoveriesOf_new (h : Repairing config s) {jobId : Nat} (hnew : jobId ∉ s.ids) : s.recoveriesOf jobId = [] := by
  rw [RepairSystem.recoveriesOf, List.map_eq_nil_iff, List.filter_eq_nil_iff]
  intro r hr heq
  exact hnew (by simpa using (of_decide_eq_true heq) ▸ h.past r hr)

/-- What happens beside the loop: time passes, jobs move on, are removed or created. -/
theorem repairing_outside (h : Repairing config s) {s' : RepairSystem} (hphase : s'.phase = s.phase)
    (hrecovered : s'.recovered = s.recovered) (hdetections : s'.detections = s.detections) (hnow : s.now ≤ s'.now)
    (hids : ∀ jobId ∈ s.ids, jobId ∈ s'.ids)
    (hjobs : ∀ jobId ctx', s'.lookup jobId = some ctx' →
      (∃ ctx, s.lookup jobId = some ctx ∧ MovedOn s.now ctx ctx') ∨
        (jobId ∉ s.ids ∧ jobId ∈ s'.ids ∧ ctx'.repairAttempts = 0 ∧ ctx'.state ≠ .stuck)) :
    Repairing config s' := by
  have hrecoveries : ∀ jobId, s'.recoveriesOf jobId = s.recoveriesOf jobId := fun jobId => by
    rw [RepairSystem.recoveriesOf, hrecovered, RepairSystem.recoveriesOf]
  refine ⟨?_, ?_, ?_, ?_, ?_, ?_, ?_, ?_⟩
  · intro jobId ctx' hctx'
    rcases hjobs jobId ctx' hctx' with ⟨ctx, hctx, hmoved⟩ | ⟨hnew, -, hattempts, hstuck⟩
    · obtain ⟨hattempts, hfresh, hrelies⟩ := h.jobs jobId ctx hctx
      refine ⟨?_, ?_, ?_⟩
      · rw [hrecoveries, hmoved.attempts]
        exact hattempts
      · rw [hrecoveries]
        exact Fresh.moved hfresh hmoved fun t ht => time_of_recovery h ht
      · rw [hrecoveries, hphase]
        exact (hrelies.moved hmoved).later hnow
    · have hnone := recoveriesOf_new h hnew
      refine ⟨?_, fun hs => absurd hs hstuck, ?_⟩
      · rw [hrecoveries, hnone, hattempts]
        rfl
      · rw [hphase]
        exact RepairPhase.relies_of_not_mem fun hmem => hnew (h.current jobId hmem)
  · intro jobId
    rw [hrecoveries]
    exact h.bound jobId
  · intro r hr
    rw [hrecovered] at hr
    exact (h.times r hr).trans hnow
  · intro jobId ctx' hctx'
    rcases hjobs jobId ctx' hctx' with ⟨ctx, hctx, -⟩ | ⟨-, hnew, -⟩
    · exact hids jobId (h.present jobId ctx hctx)
    · exact hnew
  · intro r hr
    rw [hrecovered] at hr
    exact hids r.1 (h.past r hr)
  · intro jobId hmem
    rw [hphase] at hmem
    exact hids jobId (h.current jobId hmem)
  · rw [hphase]
    exact h.nodup
  · rw [hdetections]
    exact h.detections

/-- The loop goes on to its next phase. -/
theorem repairing_phase (h : Repairing config s) {phase : RepairPhase} (hids : ∀ jobId ∈ phase.ids, jobId ∈ s.ids)
    (hnodup : phase.ids.Nodup)
    (hrelies : ∀ jobId ctx, s.lookup jobId = some ctx → JobOk config.stuckThreshold s jobId ctx →
      phase.Relies config.stuckThreshold s.now (s.recoveriesOf jobId) jobId ctx) :
    Repairing config { s with phase := phase } where
  jobs jobId ctx hctx := ⟨(h.jobs jobId ctx hctx).attempts, (h.jobs jobId ctx hctx).fresh,
    hrelies jobId ctx hctx (h.jobs jobId ctx hctx)⟩
  bound := h.bound
  times := h.times
  present := h.present
  past := h.past
  current := hids
  nodup := hnodup
  detections := h.detections

/-- One more detection, after the threshold. -/
theorem repairing_detected (h : Repairing config s) {ds : List Detection}
    (hds : ∀ d ∈ ds, d.Late config.stuckThreshold) : Repairing config { s with detections := s.detections ++ ds } where
  jobs jobId ctx hctx :=
    ⟨(h.jobs jobId ctx hctx).attempts, (h.jobs jobId ctx hctx).fresh, (h.jobs jobId ctx hctx).relies⟩
  bound := h.bound
  times := h.times
  present := h.present
  past := h.past
  current := h.current
  nodup := h.nodup
  detections d hd := (List.mem_append.mp hd).elim (h.detections d) (hds d)

/-- A job after a change of one job. -/
theorem updateContext_ok {R : Type} {m : ContextManager} {jobId : Nat} {f : JobContext → R × JobContext} {r : R}
    (h : s.manager.updateContext jobId f = .ok (r, m)) :
    ∃ ctx, s.lookup jobId = some ctx ∧ r = (f ctx).1 ∧
      ∀ j, m.contexts.lookup j = if j = jobId then some (f ctx).2 else s.lookup j := by
  unfold ContextManager.updateContext at h
  cases hctx : s.manager.contexts.lookup jobId with
  | none =>
    rw [hctx] at h
    cases h
  | some ctx =>
    rw [hctx] at h
    cases h
    refine ⟨ctx, hctx, rfl, fun j => ?_⟩
    show AList.lookup j (Table.modify jobId (fun ctx => (f ctx).2) s.manager.contexts) = _
    rw [Table.lookup_modify]
    split
    next heq => rw [heq, hctx, Option.map_some]
    next => rfl

/-- A call on one job moves it on, and leaves the others. -/
theorem repairing_moved (h : Repairing config s) (jobId : Nat) (op : JobOp)
    (hop : ∀ ctx, s.lookup jobId = some ctx → MovedOn s.now ctx (Context.step ctx op)) :
    Repairing config { s with manager := s.moved jobId op } := by
  refine repairing_outside h rfl rfl rfl (Int.le_refl _) (fun _ => id) fun j ctx' hctx' => Or.inl ?_
  unfold RepairSystem.lookup RepairSystem.moved at hctx'
  simp only [ManagerOp.apply] at hctx'
  cases hupdate : s.manager.updateContext jobId (JobOp.apply · op) with
  | error e =>
    simp only [hupdate] at hctx'
    exact ⟨ctx', hctx', .refl _ _⟩
  | ok r =>
    obtain ⟨ctx, hctx, -, hlookup⟩ := updateContext_ok (r := r.1) (m := r.2) hupdate
    simp only [hupdate] at hctx'
    rw [show ((Option.map Prod.snd (Except.ok r : Except JobError _).toOption).getD s.manager).contexts.lookup j =
      r.2.contexts.lookup j from rfl, hlookup] at hctx'
    split at hctx'
    next heq =>
      obtain rfl := Option.some.inj hctx'
      exact ⟨ctx, heq ▸ hctx, hop ctx hctx⟩
    next => exact ⟨ctx', hctx', .refl _ _⟩

/-- A new job waits, or is in progress. -/
theorem repairing_insert (h : Repairing config s) {ctx : JobContext} (hnew : ctx.jobId ∉ s.ids)
    (hattempts : ctx.repairAttempts = 0) (hstuck : ctx.state ≠ .stuck) :
    Repairing config { s with
      manager := (s.manager.insertContext ctx).toOption.getD s.manager
      ids := ctx.jobId :: s.ids } := by
  refine repairing_outside h rfl rfl rfl (Int.le_refl _) (fun j hj => List.mem_cons_of_mem _ hj) fun j ctx' hctx' => ?_
  unfold RepairSystem.lookup ContextManager.insertContext at hctx'
  split at hctx'
  · exact Or.inl ⟨ctx', hctx', .refl _ _⟩
  · change AList.lookup j (s.manager.contexts.insert ctx.jobId ctx) = some ctx' at hctx'
    rw [Table.lookup_insert] at hctx'
    split at hctx'
    next heq =>
      obtain rfl := Option.some.inj hctx'
      subst heq
      exact Or.inr ⟨hnew, List.mem_cons_self, hattempts, hstuck⟩
    next => exact Or.inl ⟨ctx', hctx', .refl _ _⟩

theorem repairing_remove (h : Repairing config s) (jobId : Nat) :
    Repairing config { s with manager := (ManagerOp.removeJob jobId).apply s.manager } := by
  refine repairing_outside h rfl rfl rfl (Int.le_refl _) (fun _ => id) fun j ctx' hctx' => Or.inl ⟨ctx', ?_, .refl _ _⟩
  unfold RepairSystem.lookup at hctx' ⊢
  simp only [ManagerOp.apply, ContextManager.removeJob] at hctx'
  cases hctx : s.manager.contexts.lookup jobId with
  | none =>
    simp only [hctx] at hctx'
    exact hctx'
  | some ctx =>
    simp only [hctx] at hctx'
    change AList.lookup j (s.manager.contexts.erase jobId) = some ctx' at hctx'
    rw [Table.lookup_erase] at hctx'
    split at hctx'
    · cases hctx'
    · exact hctx'

/-! ## The steps of the loop -/

theorem getContext_ok {jobId : Nat} {ctx : JobContext} (h : s.manager.getContext jobId = .ok ctx) :
    s.lookup jobId = some ctx := by
  unfold ContextManager.getContext at h
  unfold RepairSystem.lookup
  cases hctx : s.manager.contexts.lookup jobId with
  | none =>
    rw [hctx] at h
    cases h
  | some found =>
    rw [hctx] at h
    exact congrArg some (Except.ok.inj h)

/-- What is found is stuck, or overdue. -/
theorem repairing_detect (h : Repairing config s) (order : Table.Iteration Nat JobContext) :
    Repairing config { s with
      phase := .scanning (findStuckJobsWithThreshold s.manager order (some config.stuckThreshold) s.now) [] } := by
  have hmem : ∀ jobId, jobId ∈ findStuckJobsWithThreshold s.manager order (some config.stuckThreshold) s.now →
      ∃ ctx, s.lookup jobId = some ctx ∧ runsTooLong (some config.stuckThreshold) s.now ctx = true := by
    intro jobId hjob
    obtain ⟨⟨k, ctx⟩, hfound, rfl⟩ := List.mem_map.mp hjob
    obtain ⟨hentry, hlong⟩ := List.mem_filter.mp hfound
    exact ⟨ctx, Table.mem_entries_iff.mp ((order.perm _).mem_iff.mp hentry), hlong⟩
  refine repairing_phase h ?_ ?_ ?_
  · intro jobId hjob
    simp only [RepairPhase.ids, List.map_nil, List.append_nil] at hjob
    obtain ⟨ctx, hctx, -⟩ := hmem jobId hjob
    exact h.present jobId ctx hctx
  · simp only [RepairPhase.ids, List.map_nil, List.append_nil]
    have hkeys : ((order.entries s.manager.contexts).map Sigma.fst).Nodup :=
      ((order.perm _).map Sigma.fst).nodup_iff.mpr s.manager.contexts.nodupKeys
    exact hkeys.sublist (List.filter_sublist.map Sigma.fst)
  · intro jobId ctx hctx _
    refine ⟨fun hjob => ?_, by simp [Reported]⟩
    obtain ⟨found, hfound, hlong⟩ := hmem jobId hjob
    obtain rfl : ctx = found := Option.some.inj (hctx.symm.trans hfound)
    simp only [runsTooLong, Bool.or_eq_true, Bool.and_eq_true, decide_eq_true_eq] at hlong
    rcases hlong with hstuck | ⟨hprogress, hlong⟩
    · rw [Watched, hstuck]
      exact ⟨by decide, fun h => by cases h⟩
    · refine ⟨by rw [hprogress]; decide, fun _ => ?_⟩
      cases hstarted : ctx.startedAt with
      | none => simp [hstarted] at hlong
      | some started =>
        simp only [hstarted, decide_eq_true_eq] at hlong
        exact ⟨started, hstarted, hlong⟩

theorem repairing_examine (h : Repairing config s) {ids : List Nat} {found : List StuckJob}
    (hphase : s.phase = .scanning ids found) : Repairing config (s.examine ids found) := by
  have hcurrent := h.current
  have hnodup := h.nodup
  rw [hphase] at hcurrent hnodup
  have hrelies : ∀ jobId ctx, JobOk config.stuckThreshold s jobId ctx →
      (jobId ∈ ids → Watched config.stuckThreshold s.now ctx) ∧ Reported found jobId ctx := by
    intro jobId ctx hok
    have hr := hok.relies
    rw [hphase] at hr
    exact hr
  cases ids with
  | nil => exact repairing_phase h hcurrent hnodup fun jobId ctx _ hok => (hrelies jobId ctx hok).2
  | cons k ids =>
    -- the id is left out, or is the one that the loop goes on with
    have hskip : Repairing config { s with phase := .scanning ids found } := by
      refine repairing_phase h (fun j hj => hcurrent j (List.mem_cons_of_mem _ hj)) (List.nodup_cons.mp hnodup).2 ?_
      intro jobId ctx _ hok
      exact ⟨fun hmem => (hrelies jobId ctx hok).1 (List.mem_cons_of_mem _ hmem), (hrelies jobId ctx hok).2⟩
    rw [RepairSystem.examine]
    split
    next => exact hskip
    next ctx hctx =>
      split
      next => exact repairing_phase h hcurrent hnodup fun jobId ctx _ hok => hrelies jobId ctx hok
      next =>
        split
        next hstuck =>
          refine repairing_phase h hcurrent hnodup fun jobId ctx' hctx' hok => ?_
          obtain ⟨hwatched, hreported⟩ := hrelies jobId ctx' hok
          refine ⟨fun hmem => hwatched (List.mem_cons_of_mem _ hmem), hreported, ?_⟩
          rintro rfl
          obtain rfl : ctx = ctx' := Option.some.inj ((getContext_ok hctx).symm.trans hctx')
          refine ⟨?_, ?_, hok.fresh hstuck⟩
          · rw [hstuck]
            decide
          · rw [hstuck]
            decide
        next => exact hskip

/-- A job that is overdue is detected late. -/
theorem late_of_overdue {jobId : Nat} {ctx : JobContext} (h : Overdue config.stuckThreshold s.now ctx) :
    (s.detected jobId ctx).Late config.stuckThreshold := by
  obtain ⟨started, hstarted, hlt⟩ := h
  refine Or.inr ⟨started, hstarted, ?_⟩
  have hle := le_of_elapsedSecs hlt
  show started + config.stuckThreshold < s.now
  unfold NANOS at hle
  omega

variable {k : Nat} {ids : List Nat} {found : List StuckJob}

/-- The loop gives up on an id. -/
theorem repairing_skip (h : Repairing config s)
    (hids : s.phase.ids = k :: (ids ++ found.map StuckJob.jobId))
    (hrelies : ∀ jobId ctx, JobOk config.stuckThreshold s jobId ctx →
      (jobId ∈ ids → Watched config.stuckThreshold s.now ctx) ∧ Reported found jobId ctx) :
    Repairing config { s with phase := .scanning ids found } := by
  have hcurrent := h.current
  have hnodup := h.nodup
  rw [hids] at hcurrent hnodup
  exact repairing_phase h (fun j hj => hcurrent j (List.mem_cons_of_mem _ hj)) (List.nodup_cons.mp hnodup).2
    fun jobId ctx _ hok => hrelies jobId ctx hok

theorem relies_marking (hphase : s.phase = .marking k ids found) {jobId : Nat} {ctx : JobContext}
    (hok : JobOk config.stuckThreshold s jobId ctx) :
    (jobId ∈ k :: ids → Watched config.stuckThreshold s.now ctx) ∧ Reported found jobId ctx := by
  have hr := hok.relies
  rw [hphase] at hr
  exact hr

theorem repairing_mark (h : Repairing config s) (hphase : s.phase = .marking k ids found) :
    Repairing config (s.mark k ids found) := by
  have hids : s.phase.ids = k :: (ids ++ found.map StuckJob.jobId) := by
    rw [hphase]
    rfl
  have hmoved : ∀ m r, s.manager.updateContext k (fun ctx => ctx.markStuck s.clock "exceeded stuck_threshold".toList) =
      .ok (r, m) → Repairing config { s with manager := m } := by
    intro m r hr
    have hm := repairing_moved h k (.markStuck s.clock "exceeded stuck_threshold".toList) fun ctx _ =>
      movedOn_transitionTo s.clock _ fun heq => by cases heq
    simp only [RepairSystem.moved, ManagerOp.apply, JobOp.apply, hr] at hm
    exact hm
  have hrelies : ∀ s' : RepairSystem, s'.phase = s.phase → ∀ jobId ctx, JobOk config.stuckThreshold s' jobId ctx →
      (jobId ∈ ids → Watched config.stuckThreshold s'.now ctx) ∧ Reported found jobId ctx := by
    intro s' hsame jobId ctx hok
    obtain ⟨hwatched, hreported⟩ := relies_marking (hsame.trans hphase) hok
    exact ⟨fun hmem => hwatched (List.mem_cons_of_mem _ hmem), hreported⟩
  rw [RepairSystem.mark]
  split
  next m hupdate =>
    have hmoved := hmoved m _ hupdate
    obtain ⟨ctx, hctx, hmarked, hlookup⟩ := updateContext_ok hupdate
    have hoverdue : Overdue config.stuckThreshold s.now ctx :=
      ((relies_marking hphase (h.jobs k ctx hctx)).1 List.mem_cons_self).2 (inProgress_of_markStuck hmarked.symm)
    have hreading : Repairing config { s with manager := m, phase := .reading k true ids found } := by
      refine repairing_phase hmoved (fun j hj => h.current j ?_) ?_ fun jobId ctx' hctx' hok => ?_
      · rw [hids]
        exact hj
      · have hnodup := h.nodup
        rw [hids] at hnodup
        exact hnodup
      · obtain ⟨hwatched, hreported⟩ := hrelies { s with manager := m } rfl jobId ctx' hok
        refine ⟨hwatched, hreported, ?_⟩
        rintro rfl
        have hmarked := hlookup jobId
        rw [if_pos rfl] at hmarked
        obtain rfl := Option.some.inj (hmarked.symm.trans hctx')
        exact hoverdue.moved (movedOn_transitionTo s.clock _ fun heq => by cases heq)
    rw [hctx]
    refine repairing_detected hreading fun d hd => ?_
    obtain rfl := List.mem_singleton.mp hd
    exact late_of_overdue hoverdue
  next e m hupdate => exact repairing_skip (hmoved m _ hupdate) hids (hrelies { s with manager := m } rfl)
  next => exact repairing_skip h hids (hrelies s rfl)

/-- A stuck job that is reported is detected late. -/
theorem late_of_resting (h : Repairing config s) {jobId : Nat} {ctx : JobContext}
    (hresting : Resting (s.recoveriesOf jobId) ctx)
    (hlong : config.stuckThreshold ≤ ((stuckSince ctx.transitions).map (elapsedSecs s.now)).getD 0 * NANOS) :
    (s.detected jobId ctx).Late config.stuckThreshold := by
  refine Or.inl fun t ht => ?_
  show t + config.stuckThreshold ≤ s.now
  have htime := time_of_recovery h ht
  cases hsince : stuckSince ctx.transitions with
  | none =>
    rw [hsince] at hlong
    simp only [Option.map_none, Option.getD_none] at hlong
    omega
  | some since =>
    have hle := hresting.2.2 since hsince t ht
    rw [hsince] at hlong
    simp only [Option.map_some, Option.getD_some, elapsedSecs, NANOS] at hlong
    omega

theorem repairing_read (h : Repairing config s) {justTransitioned : Bool}
    (hphase : s.phase = .reading k justTransitioned ids found) :
    Repairing config (s.read config k justTransitioned ids found) := by
  have hids : s.phase.ids = k :: (ids ++ found.map StuckJob.jobId) := by
    rw [hphase]
    rfl
  have hrelies : ∀ jobId ctx, JobOk config.stuckThreshold s jobId ctx →
      (jobId ∈ ids → Watched config.stuckThreshold s.now ctx) ∧ Reported found jobId ctx ∧
        (jobId = k → if justTransitioned then Overdue config.stuckThreshold s.now ctx
          else Resting (s.recoveriesOf jobId) ctx) := by
    intro jobId ctx hok
    have hr := hok.relies
    rw [hphase] at hr
    exact hr
  have hskip := repairing_skip h hids fun jobId ctx hok => ⟨(hrelies jobId ctx hok).1, (hrelies jobId ctx hok).2.1⟩
  rw [RepairSystem.read]
  split
  next => exact hskip
  next ctx hctx =>
    have hk := (hrelies k ctx (h.jobs k ctx (getContext_ok hctx))).2.2 rfl
    simp only
    split
    next => exact hskip
    next hlong =>
      have hlate : (s.detected k ctx).Late config.stuckThreshold := by
        cases justTransitioned with
        | true => exact late_of_overdue hk
        | false => exact late_of_resting h hk (by simpa using hlong)
      have hperm : (ids ++ (found.map StuckJob.jobId ++ [k])).Perm s.phase.ids := by
        rw [hids, ← List.append_assoc]
        exact List.perm_append_singleton _ _
      have hscan : Repairing config { s with phase := .scanning ids (found ++
          [⟨k, (stuckSince ctx.transitions).getD ctx.createdAt,
            ((stuckSince ctx.transitions).map (elapsedSecs s.now)).getD 0, none, ctx.repairAttempts⟩]) } := by
        refine repairing_phase h ?_ ?_ ?_
        · intro j hj
          simp only [RepairPhase.ids, List.map_append, List.map_cons, List.map_nil] at hj
          exact h.current j (hperm.mem_iff.mp hj)
        · simp only [RepairPhase.ids, List.map_append, List.map_cons, List.map_nil]
          exact hperm.nodup_iff.mpr h.nodup
        · intro jobId ctx' hctx' hok
          refine ⟨(hrelies jobId ctx' hok).1, fun job hjob hid => ?_⟩
          rcases List.mem_append.mp hjob with hold | hnew
          · exact (hrelies jobId ctx' hok).2.1 job hold hid
          · obtain rfl := List.mem_singleton.mp hnew
            obtain rfl : k = jobId := hid
            obtain rfl : ctx = ctx' := Option.some.inj ((getContext_ok hctx).symm.trans hctx')
            rfl
      refine repairing_detected hscan fun d hd => ?_
      obtain rfl := List.mem_singleton.mp hd
      exact hlate

theorem recoveriesOf_append {s' : RepairSystem} {k : Nat} {t : Int} (h : s'.recovered = s.recovered ++ [(k, t)])
    (jobId : Nat) : s'.recoveriesOf jobId = if jobId = k then
      s.recoveriesOf jobId ++ [t] else s.recoveriesOf jobId := by
  rw [RepairSystem.recoveriesOf, h]
  by_cases hk : k = jobId
  · simp [RepairSystem.recoveriesOf, List.filter_append, hk]
  · simp [RepairSystem.recoveriesOf, List.filter_append, hk, Ne.symm hk]

/-- One attempt below the limit does not wrap around. -/
theorem toNat_succ_attempts {attempts max : UInt32} (h : ¬max ≤ attempts) :
    (attempts + 1).toNat = attempts.toNat + 1 ∧ attempts.toNat + 1 ≤ max.toNat := by
  have hlt : attempts.toNat < max.toNat := UInt32.lt_iff_toNat_lt.mp (UInt32.not_le.mp h)
  have hmax : max.toNat < 2 ^ 32 := max.toNat_lt
  rw [UInt32.toNat_add]
  refine ⟨Nat.mod_eq_of_lt ?_, hlt⟩
  show attempts.toNat + 1 < 2 ^ 32
  omega

/-- A recovery is one that the report of the job allows, and the report knows all earlier ones. -/
theorem repairing_recovered (h : Repairing config s) {job : StuckJob} {jobs : List StuckJob}
    (hphase : s.phase = .repairing (job :: jobs)) (hmax : ¬config.maxRepairAttempts ≤ job.repairAttempts)
    {m : ContextManager}
    (hupdate : (s.manager.updateContext job.jobId fun ctx => recoverStuck ctx s.clock) = .ok (.ok (), m)) :
    Repairing config { s with
      manager := m
      phase := .repairing jobs
      recovered := s.recovered ++ [(job.jobId, s.now)] } := by
  obtain ⟨ctx, hctx, hrecovered, hlookup⟩ := updateContext_ok hupdate
  have hreported : ∀ jobId ctx, s.lookup jobId = some ctx → Reported (job :: jobs) jobId ctx := by
    intro jobId ctx hctx
    have hr := (h.jobs jobId ctx hctx).relies
    rw [hphase] at hr
    exact hr
  have hids : s.phase.ids = job.jobId :: jobs.map StuckJob.jobId := by
    rw [hphase]
    rfl
  have hnodup := h.nodup
  rw [hids] at hnodup
  obtain ⟨hother, hnodup⟩ := List.nodup_cons.mp hnodup
  have hattempts := hreported job.jobId ctx hctx job List.mem_cons_self rfl
  rw [hattempts] at hmax
  obtain ⟨hsucc, hle⟩ := toNat_succ_attempts hmax
  have hcount := (h.jobs job.jobId ctx hctx).attempts
  refine ⟨fun j ctx' hctx' => ?_, fun j => ?_, fun r hr => ?_, fun j ctx' hctx' => ?_, fun r hr => ?_, fun j hj => ?_,
    hnodup, h.detections⟩
  · rw [RepairSystem.lookup, hlookup] at hctx'
    split at hctx'
    next heq =>
      subst heq
      obtain rfl := Option.some.inj hctx'
      rcases recoverStuck_cases ctx s.clock with ⟨e, herror⟩ | ⟨-, hattempt, hstate⟩
      · rw [herror] at hrecovered
        cases hrecovered
      · refine ⟨?_, fun hstuck => ?_, fun job' hjob' hid => ?_⟩
        · rw [recoveriesOf_append rfl, if_pos rfl, List.length_append, List.length_singleton, hattempt, hsucc, hcount]
        · rw [hstate] at hstuck
          cases hstuck
        · exact absurd (hid ▸ List.mem_map_of_mem hjob') hother
    next hne =>
      obtain ⟨hlength, hfresh, -⟩ := h.jobs j ctx' hctx'
      refine ⟨?_, ?_, fun job' hjob' hid => hreported j ctx' hctx' job' (List.mem_cons_of_mem _ hjob') hid⟩
      · rw [recoveriesOf_append rfl, if_neg hne]
        exact hlength
      · rw [recoveriesOf_append rfl, if_neg hne]
        exact hfresh
  · rw [recoveriesOf_append rfl]
    split
    next heq =>
      rw [List.length_append, List.length_singleton, heq, hcount]
      exact hle
    next => exact h.bound j
  · rcases List.mem_append.mp hr with hold | hnew
    · exact h.times r hold
    · obtain rfl := List.mem_singleton.mp hnew
      exact Int.le_refl _
  · rw [RepairSystem.lookup, hlookup] at hctx'
    split at hctx'
    next heq => exact heq ▸ h.present job.jobId ctx hctx
    next => exact h.present j ctx' hctx'
  · rcases List.mem_append.mp hr with hold | hnew
    · exact h.past r hold
    · obtain rfl := List.mem_singleton.mp hnew
      exact h.present job.jobId ctx hctx
  · refine h.current j ?_
    rw [hids]
    exact List.mem_cons_of_mem _ hj

theorem repairing_repair (h : Repairing config s) {job : StuckJob} {jobs : List StuckJob}
    (hphase : s.phase = .repairing (job :: jobs)) : Repairing config (s.repair config job jobs) := by
  -- the report is dropped, and the job is as it was
  have hdrop : ∀ s' : RepairSystem, s'.phase = s.phase → Repairing config s' →
      Repairing config { s' with phase := .repairing jobs } := by
    intro s' hsame h'
    have hids : s'.phase.ids = job.jobId :: jobs.map StuckJob.jobId := by
      rw [hsame, hphase]
      rfl
    have hcurrent := h'.current
    have hnodup := h'.nodup
    rw [hids] at hcurrent hnodup
    refine repairing_phase h' (fun j hj => hcurrent j (List.mem_cons_of_mem _ hj)) (List.nodup_cons.mp hnodup).2 ?_
    intro jobId ctx _ hok job' hjob'
    have hr := hok.relies
    rw [hsame, hphase] at hr
    exact hr job' (List.mem_cons_of_mem _ hjob')
  rw [RepairSystem.repair]
  split
  next => exact hdrop s rfl h
  next hmax =>
    split
    next m hupdate => exact repairing_recovered h hphase hmax hupdate
    next e m hupdate =>
      refine hdrop { s with manager := m } rfl ?_
      obtain ⟨ctx, hctx, hfailed, hlookup⟩ := updateContext_ok hupdate
      refine repairing_outside h rfl rfl rfl (Int.le_refl _) (fun _ => id) fun j ctx' hctx' =>
        Or.inl ⟨ctx', ?_, .refl _ _⟩
      rw [RepairSystem.lookup, hlookup] at hctx'
      split at hctx'
      next heq =>
        rcases recoverStuck_cases ctx s.clock with ⟨e, herror⟩ | ⟨hok, -⟩
        · rw [herror] at hctx'
          rw [heq, hctx, hctx']
        · rw [hok] at hfailed
          cases hfailed
      next => exact hctx'
    next => exact hdrop s rfl h

/-- The loop keeps what it relies on, whatever it does next. -/
theorem repairing_next (h : Repairing config s) : Repairing config (s.nextStep config) := by
  rw [RepairSystem.nextStep]
  split
  next => exact h
  next hphase => exact repairing_examine h hphase
  next hphase => exact repairing_mark h hphase
  next hphase => exact repairing_read h hphase
  next hphase => exact repairing_phase h (by simp [RepairPhase.ids]) List.nodup_nil fun _ _ _ _ => trivial
  next hphase => exact repairing_repair h hphase

theorem repairing_step (s : RepairSystem) (e : RepairEvent) (h : Repairing config s) :
    Repairing config (s.step config e) := by
  cases e with
  | wait nanos =>
    have hlater : s.now ≤ s.now + nanos := by omega
    exact repairing_outside h rfl rfl rfl hlater (fun _ => id) fun j ctx hctx => Or.inl ⟨ctx, hctx, .refl _ _⟩
  | create jobId userId title description =>
    simp only [RepairSystem.step]
    split
    next => exact h
    next hnew => exact repairing_insert h hnew rfl (by simp [JobContext.withUser])
  | registerSandbox jobId userId title description =>
    simp only [RepairSystem.step]
    split
    next => exact h
    next hnew => exact repairing_insert h hnew rfl (by simp)
  | start jobId =>
    simp only [RepairSystem.step]
    split
    next hpending =>
      refine repairing_moved h jobId _ fun ctx hctx => movedOn_transitionTo s.clock _ fun _ => ?_
      rw [hctx, Option.any_some] at hpending
      exact of_decide_eq_true hpending
    next => exact h
  | worker jobId move => exact repairing_moved h jobId _ fun ctx _ => movedOn_worker s.clock move
  | remove jobId => exact repairing_remove h jobId
  | detect order =>
    simp only [RepairSystem.step]
    split
    next => exact repairing_detect h order
    next => exact h
  | next => exact repairing_next h

theorem repairing_init (config : SelfRepairConfig) (maxJobs : Nat) (now : Int) :
    Repairing config (RepairSystem.init maxJobs now) where
  jobs jobId ctx hctx := by cases hctx
  bound _ := Nat.zero_le _
  times r hr := by cases hr
  present jobId ctx hctx := by cases hctx
  past r hr := by cases hr
  current jobId hid := by cases hid
  nodup := List.nodup_nil
  detections d hd := by cases hd

end Steps

/-! ## Whole runs -/

/-- **Self-repair is bounded**: in every run each job is recovered at most `max_repair_attempts` times, and a job is
marked or reported no sooner than the threshold after each of its recoveries, or once it has been running for longer
than the threshold since it was first started. -/
theorem self_repair_spec (config : SelfRepairConfig) (maxJobs : Nat) (now : Int) (events : List RepairEvent) :
    (∀ jobId, ((run (RepairSystem.step config) (.init maxJobs now) events).recoveriesOf jobId).length ≤
      config.maxRepairAttempts.toNat) ∧
    ∀ d ∈ (run (RepairSystem.step config) (.init maxJobs now) events).detections, d.Late config.stuckThreshold := by
  have h := run_inv_all (fun s e h => repairing_step s e h) events (repairing_init config maxJobs now)
  exact ⟨h.bound, h.detections⟩

/-- A job that runs for 400 seconds is found, marked, reported and recovered; the scan one second later finds it
again. -/
def secondScan : List RepairEvent :=
  [.create 1 "ada".toList "report".toList [], .start 1, .wait (400 * NANOS), .detect .plain, .next, .next, .next, .next,
    .next, .next, .wait NANOS, .detect .plain, .next, .next]

/-- The time since the first start counts, not the time since the recovery. -/
theorem recovered_job_is_marked_again :
    ¬∀ (config : SelfRepairConfig) (maxJobs : Nat) (now : Int) (events : List RepairEvent),
      (∀ jobId, ((run (RepairSystem.step config) (.init maxJobs now) events).recoveriesOf jobId).length ≤
        config.maxRepairAttempts.toNat) ∧
      ∀ d ∈ (run (RepairSystem.step config) (.init maxJobs now) events).detections,
        ∀ t ∈ d.recoveries, t + config.stuckThreshold ≤ d.time := by
  intro h
  have hrun : ⟨1, 401 * NANOS, some 0, [400 * NANOS]⟩ ∈
      (run (RepairSystem.step ⟨300 * NANOS, 3⟩) (.init 5 0) secondScan).detections := by decide
  have hlate := (h ⟨300 * NANOS, 3⟩ 5 0 secondScan).2 _ hrun (400 * NANOS) List.mem_cons_self
  revert hlate
  decide

end Ironclaw.Agent

import Ironclaw.Lib.Run
import Ironclaw.Lib.Json
import Ironclaw.Lib.SlidingLog
import Mathlib.Data.List.Chain

/-!
# The job state machine

The states of a job and the context that keeps them: `transition_to` and the two operations over it, any of which may be
refused. A run is any sequence of calls on a new context.

- `apply_cases`: a call is refused, repeats the completion, or moves the job;
- `Booked`: what the record of a job says in every state of a run (`booked_run`);
- `transitions_run`: the record is the last part of the history of all moves;
- `job_history`: all of it for a run on a new context.
-/

namespace Ironclaw.Context

open Text Run

inductive JobState
  | pending
  | inProgress
  | completed
  | submitted
  | accepted
  | failed
  | stuck
  | cancelled
  deriving DecidableEq

instance : Fintype JobState :=
  ⟨{.pending, .inProgress, .completed, .submitted, .accepted, .failed, .stuck, .cancelled},
    fun s => by cases s <;> decide⟩

namespace JobState

/-- The name of a state, as it is printed. -/
def display : JobState → Str
  | pending => "pending".toList
  | inProgress => "in_progress".toList
  | completed => "completed".toList
  | submitted => "submitted".toList
  | accepted => "accepted".toList
  | failed => "failed".toList
  | stuck => "stuck".toList
  | cancelled => "cancelled".toList

/-- `can_transition_to`; a job may be completed twice. -/
def canTransitionTo : JobState → JobState → Bool
  | completed, completed => true
  | pending, inProgress | pending, cancelled => true
  | inProgress, completed | inProgress, failed | inProgress, stuck | inProgress, cancelled => true
  | completed, submitted | completed, failed => true
  | submitted, accepted | submitted, failed => true
  | stuck, inProgress | stuck, failed | stuck, cancelled => true
  | _, _ => false

def isTerminal : JobState → Bool
  | accepted | failed | cancelled => true
  | _ => false

/-- The job takes one of the slots for jobs that run in parallel. -/
def isParallelBlocking : JobState → Bool
  | pending | inProgress | stuck => true
  | _ => false

/-- The states that a job reaches only after it was started. -/
def isStarted : JobState → Bool
  | inProgress | completed | submitted | accepted | stuck => true
  | _ => false

theorem not_canTransitionTo_of_terminal : ∀ {s : JobState}, s.isTerminal = true → ∀ t, s.canTransitionTo t = false := by
  decide

/-- Only a completed job may stay in its state. -/
theorem canTransitionTo_self : ∀ {s : JobState}, s.canTransitionTo s = true → s = completed := by
  decide

theorem isStarted_of_canTransitionTo : ∀ {s t : JobState}, s.canTransitionTo t = true → t.isStarted = true →
    t = inProgress ∨ s.isStarted = true := by
  decide

/-- No permitted transition takes a slot again. -/
theorem blocking_of_canTransitionTo : ∀ {s t : JobState}, s.canTransitionTo t = true →
    t.isParallelBlocking = true → s.isParallelBlocking = true := by
  decide

end JobState

structure StateTransition where
  fromState : JobState
  toState : JobState
  timestamp : Int
  reason : Option Str
  deriving DecidableEq

/-- `JobContext`, as far as its state and its dispatch go. -/
structure JobContext where
  jobId : Nat
  state : JobState
  userId : Str
  title : Str
  description : Str
  maxTokens : Nat
  createdAt : Int
  startedAt : Option Int
  completedAt : Option Int
  repairAttempts : UInt32
  transitions : List StateTransition
  metadata : Json
  deriving DecidableEq

namespace JobContext

/-- `with_user`, with the new id and the time. -/
def withUser (jobId : Nat) (createdAt : Int) (userId title description : Str) : JobContext where
  jobId := jobId
  state := .pending
  userId := userId
  title := title
  description := description
  maxTokens := 0
  createdAt := createdAt
  startedAt := none
  completedAt := none
  repairAttempts := 0
  transitions := []
  metadata := .null

def MAX_TRANSITIONS : Nat := 200

/-- The record with one more entry, capped. -/
def pushTransition (transitions : List StateTransition) (transition : StateTransition) : List StateTransition :=
  let all := transitions ++ [transition]
  all.drop (all.length - MAX_TRANSITIONS)

/-- The two times that `transition_to` reads: for the entry and for the timestamps of the context. -/
structure Clock where
  entry : Int
  stamp : Int
  deriving DecidableEq

/-- The context after a permitted move to another state: the start is noted once, each end again. -/
def moved (ctx : JobContext) (clock : Clock) (newState : JobState) (reason : Option Str) : JobContext :=
  { ctx with
    transitions := pushTransition ctx.transitions ⟨ctx.state, newState, clock.entry, reason⟩
    state := newState
    startedAt := if newState = .inProgress ∧ ctx.startedAt = none then some clock.stamp else ctx.startedAt
    completedAt :=
      match newState with
      | .completed | .accepted | .failed | .cancelled => some clock.stamp
      | _ => ctx.completedAt }

/-- `transition_to`: the result, and the context that is left. -/
def transitionTo (ctx : JobContext) (clock : Clock) (newState : JobState) (reason : Option Str) :
    Except Str Unit × JobContext :=
  if !ctx.state.canTransitionTo newState then
    (.error ("Cannot transition from ".toList ++ ctx.state.display ++ " to ".toList ++ newState.display), ctx)
  else if ctx.state = newState then (.ok (), ctx)
  else (.ok (), ctx.moved clock newState reason)

def markStuck (ctx : JobContext) (clock : Clock) (reason : Str) : Except Str Unit × JobContext :=
  ctx.transitionTo clock .stuck (some reason)

/-- `attempt_recovery`; the count of attempts wraps. -/
def attemptRecovery (ctx : JobContext) (clock : Clock) : Except Str Unit × JobContext :=
  if ctx.state ≠ .stuck then (.error "Job is not stuck".toList, ctx)
  else
    { ctx with repairAttempts := ctx.repairAttempts + 1 }.transitionTo clock .inProgress
      (some "Recovery attempt".toList)

end JobContext

/-- A call on a context. -/
inductive JobOp
  | transitionTo (clock : JobContext.Clock) (newState : JobState) (reason : Option Str)
  | markStuck (clock : JobContext.Clock) (reason : Str)
  | attemptRecovery (clock : JobContext.Clock)
  deriving DecidableEq

namespace JobOp

def apply (ctx : JobContext) : JobOp → Except Str Unit × JobContext
  | .transitionTo clock newState reason => ctx.transitionTo clock newState reason
  | .markStuck clock reason => ctx.markStuck clock reason
  | .attemptRecovery clock => ctx.attemptRecovery clock

/-- The entry that a call from this state makes, when it moves the job. -/
def entry (s : JobState) : JobOp → StateTransition
  | .transitionTo clock newState reason => ⟨s, newState, clock.entry, reason⟩
  | .markStuck clock reason => ⟨s, .stuck, clock.entry, some reason⟩
  | .attemptRecovery clock => ⟨s, .inProgress, clock.entry, some "Recovery attempt".toList⟩

/-- The state that a call leads to from a state. -/
def next (s : JobState) : JobOp → JobState
  | .transitionTo _ newState _ => if s.canTransitionTo newState then newState else s
  | .markStuck _ _ => if s.canTransitionTo .stuck then .stuck else s
  | .attemptRecovery _ => if s = .stuck then .inProgress else s

end JobOp

def step (ctx : JobContext) (op : JobOp) : JobContext := (JobOp.apply ctx op).2

/-- The moves of a run, each as the entry for it. -/
def history : JobContext → List JobOp → List StateTransition
  | _, [] => []
  | ctx, op :: ops =>
    (if (step ctx op).state = ctx.state then [] else [op.entry ctx.state]) ++ history (step ctx op) ops

/-! ## One call -/

section Calls

variable (ctx : JobContext)

@[simp] theorem moved_state (clock : JobContext.Clock) (newState : JobState) (reason : Option Str) :
    (ctx.moved clock newState reason).state = newState := rfl

@[simp] theorem moved_transitions (clock : JobContext.Clock) (newState : JobState) (reason : Option Str) :
    (ctx.moved clock newState reason).transitions =
      JobContext.pushTransition ctx.transitions ⟨ctx.state, newState, clock.entry, reason⟩ := by
  simp only [JobContext.moved]

@[simp] theorem moved_startedAt (clock : JobContext.Clock) (newState : JobState) (reason : Option Str) :
    (ctx.moved clock newState reason).startedAt =
      if newState = .inProgress ∧ ctx.startedAt = none then some clock.stamp else ctx.startedAt := rfl

/-- `transition_to` is refused, or repeats the completion, or moves the job. -/
theorem transitionTo_cases (clock : JobContext.Clock) (newState : JobState) (reason : Option Str) :
    (∃ e, ctx.transitionTo clock newState reason = (.error e, ctx)) ∨
      (ctx.state = .completed ∧ ctx.transitionTo clock newState reason = (.ok (), ctx)) ∨
      (ctx.state.canTransitionTo newState = true ∧ ctx.state ≠ newState ∧
        ctx.transitionTo clock newState reason = (.ok (), ctx.moved clock newState reason)) := by
  unfold JobContext.transitionTo
  cases hcan : ctx.state.canTransitionTo newState with
  | false => exact .inl ⟨_, rfl⟩
  | true =>
    by_cases hsame : ctx.state = newState
    · rw [← hsame] at hcan
      exact .inr (.inl ⟨JobState.canTransitionTo_self hcan, by simp [hsame]⟩)
    · exact .inr (.inr ⟨rfl, hsame, by simp [hsame]⟩)

/-- The context from which a call moves the job: a recovery counts its attempt first. -/
def JobOp.counted (ctx : JobContext) : JobOp → JobContext
  | .attemptRecovery _ => { ctx with repairAttempts := ctx.repairAttempts + 1 }
  | _ => ctx

/-- **What a call can do.** It is refused and leaves the context as it is, it completes a completed job once more, or it
moves the job along a permitted transition and records it. -/
theorem apply_cases (op : JobOp) :
    (∃ e, op.apply ctx = (.error e, ctx)) ∨ (ctx.state = .completed ∧ op.apply ctx = (.ok (), ctx)) ∨
      ∃ clock newState reason, op.entry ctx.state = ⟨ctx.state, newState, clock.entry, reason⟩ ∧
        ctx.state.canTransitionTo newState = true ∧ ctx.state ≠ newState ∧
        op.apply ctx = (.ok (), (op.counted ctx).moved clock newState reason) := by
  cases op with
  | transitionTo clock newState reason =>
    rcases transitionTo_cases ctx clock newState reason with h | h | ⟨hcan, hne, h⟩
    · exact .inl h
    · exact .inr (.inl h)
    · exact .inr (.inr ⟨clock, newState, reason, rfl, hcan, hne, h⟩)
  | markStuck clock reason =>
    rcases transitionTo_cases ctx clock .stuck (some reason) with h | h | ⟨hcan, hne, h⟩
    · exact .inl h
    · exact .inr (.inl h)
    · exact .inr (.inr ⟨clock, .stuck, some reason, rfl, hcan, hne, h⟩)
  | attemptRecovery clock =>
    by_cases hs : ctx.state = .stuck
    · refine .inr (.inr ⟨clock, .inProgress, some "Recovery attempt".toList, rfl, ?_, ?_, ?_⟩)
      · rw [hs]
        rfl
      · rw [hs]
        decide
      · simp [JobOp.apply, JobContext.attemptRecovery, JobContext.transitionTo, JobOp.counted, hs,
          JobState.canTransitionTo]
    · exact .inl ⟨"Job is not stuck".toList, by simp [JobOp.apply, JobContext.attemptRecovery, hs]⟩

@[simp] theorem counted_state (op : JobOp) : (op.counted ctx).state = ctx.state := by
  cases op <;> rfl

@[simp] theorem counted_transitions (op : JobOp) : (op.counted ctx).transitions = ctx.transitions := by
  cases op <;> rfl

@[simp] theorem counted_startedAt (op : JobOp) : (op.counted ctx).startedAt = ctx.startedAt := by
  cases op <;> rfl

/-- What a call does to the context: nothing, or a permitted move. -/
theorem step_cases (op : JobOp) :
    step ctx op = ctx ∨
      ∃ clock newState reason, op.entry ctx.state = ⟨ctx.state, newState, clock.entry, reason⟩ ∧
        ctx.state.canTransitionTo newState = true ∧ ctx.state ≠ newState ∧
        step ctx op = (op.counted ctx).moved clock newState reason := by
  rcases apply_cases ctx op with ⟨e, h⟩ | ⟨-, h⟩ | ⟨clock, newState, reason, hentry, hcan, hne, h⟩
  · exact .inl (congrArg Prod.snd h)
  · exact .inl (congrArg Prod.snd h)
  · exact .inr ⟨clock, newState, reason, hentry, hcan, hne, congrArg Prod.snd h⟩

variable {ctx}

/-- A refused call changes nothing. -/
theorem step_of_error {op : JobOp} {e : Str} (h : (op.apply ctx).1 = .error e) : step ctx op = ctx := by
  rcases apply_cases ctx op with ⟨e', h'⟩ | ⟨-, h'⟩ | ⟨clock, newState, reason, -, -, -, h'⟩
  · exact congrArg Prod.snd h'
  · exact congrArg Prod.snd h'
  · rw [h'] at h
    cases h

/-- `transition_to` succeeds exactly on a permitted transition. -/
theorem transitionTo_fst (ctx : JobContext) (clock : JobContext.Clock) (newState : JobState) (reason : Option Str) :
    (ctx.transitionTo clock newState reason).1 =
      if ctx.state.canTransitionTo newState then .ok ()
      else .error ("Cannot transition from ".toList ++ ctx.state.display ++ " to ".toList ++ newState.display) := by
  unfold JobContext.transitionTo
  cases ctx.state.canTransitionTo newState with
  | false => rfl
  | true =>
    by_cases hsame : ctx.state = newState
    · simp [hsame]
    · simp [hsame]

theorem transitionTo_state (clock : JobContext.Clock) (newState : JobState) (reason : Option Str) :
    (ctx.transitionTo clock newState reason).2.state =
      if ctx.state.canTransitionTo newState then newState else ctx.state := by
  unfold JobContext.transitionTo
  cases hcan : ctx.state.canTransitionTo newState with
  | false => rfl
  | true =>
    by_cases hsame : ctx.state = newState
    · simp [hsame]
    · simp [hsame]

/-- The state after a call depends on the state before it alone. -/
theorem step_state (op : JobOp) : (step ctx op).state = op.next ctx.state := by
  cases op with
  | transitionTo clock newState reason => exact transitionTo_state clock newState reason
  | markStuck clock reason => exact transitionTo_state clock .stuck (some reason)
  | attemptRecovery clock =>
    simp only [step, JobOp.apply, JobContext.attemptRecovery, JobOp.next]
    by_cases hs : ctx.state = .stuck
    · rw [if_neg (not_not_intro hs), if_pos hs, transitionTo_state]
      show (if ctx.state.canTransitionTo .inProgress then JobState.inProgress else ctx.state) = .inProgress
      rw [hs]
      rfl
    · rw [if_pos hs, if_neg hs]

/-- No call changes the user of a job. -/
theorem step_userId (op : JobOp) : (step ctx op).userId = ctx.userId := by
  rcases step_cases ctx op with hs | ⟨clock, newState, reason, -, -, -, hs⟩
  · rw [hs]
  · rw [hs]
    cases op <;> rfl

/-- No call on a job that has ended changes anything. -/
theorem step_of_terminal (op : JobOp) (h : ctx.state.isTerminal = true) : step ctx op = ctx := by
  rcases step_cases ctx op with hs | ⟨clock, newState, reason, -, hcan, -, -⟩
  · exact hs
  · rw [JobState.not_canTransitionTo_of_terminal h] at hcan
    cases hcan

end Calls

/-! ## Runs -/

/-- What the record of a job says: the entries follow each other up to the present state, each is a permitted
transition, and a job that was started has its start time. -/
structure Booked (ctx : JobContext) : Prop where
  chain : ctx.transitions.IsChain fun a b => a.toState = b.fromState
  last : ∀ t ∈ ctx.transitions.getLast?, t.toState = ctx.state
  permitted : ∀ t ∈ ctx.transitions, t.fromState.canTransitionTo t.toState = true
  started : ctx.state.isStarted = true → ctx.startedAt.isSome = true

section Runs

variable {ctx : JobContext}

theorem booked_withUser (jobId : Nat) (createdAt : Int) (userId title description : Str) :
    Booked (.withUser jobId createdAt userId title description) where
  chain := .nil
  last := by rintro t ⟨⟩
  permitted := by rintro t ⟨⟩
  started := by rintro ⟨⟩

/-- The new entry stays in the record. -/
theorem getLast?_pushTransition (ts : List StateTransition) (t : StateTransition) :
    (JobContext.pushTransition ts t).getLast? = some t := by
  have hlt : (ts ++ [t]).length - JobContext.MAX_TRANSITIONS < (ts ++ [t]).length := by
    simp [JobContext.MAX_TRANSITIONS]
  unfold JobContext.pushTransition
  rw [List.getLast?_drop, if_neg (Nat.not_le.mpr hlt)]
  exact List.getLast?_concat

/-- A move keeps the record in order. -/
theorem booked_moved {clock : JobContext.Clock} {newState : JobState} {reason : Option Str} (h : Booked ctx)
    (hcan : ctx.state.canTransitionTo newState = true) : Booked (ctx.moved clock newState reason) := by
  have hsuffix : JobContext.pushTransition ctx.transitions ⟨ctx.state, newState, clock.entry, reason⟩ <:+
      ctx.transitions ++ [⟨ctx.state, newState, clock.entry, reason⟩] := List.drop_suffix _ _
  constructor
  · rw [moved_transitions]
    refine List.IsChain.suffix ?_ hsuffix
    refine h.chain.append (.singleton _) ?_
    rintro t ht _ ⟨⟩
    exact h.last t ht
  · intro t ht
    rw [moved_transitions, getLast?_pushTransition] at ht
    cases ht
    rw [moved_state]
  · intro t ht
    rw [moved_transitions] at ht
    rcases List.mem_append.mp (hsuffix.subset ht) with hold | hnew
    · exact h.permitted t hold
    · obtain rfl := List.mem_singleton.mp hnew
      exact hcan
  · intro hst
    rw [moved_state] at hst
    rw [moved_startedAt]
    split
    · rfl
    next hset =>
      rcases JobState.isStarted_of_canTransitionTo hcan hst with rfl | hs
      · cases hat : ctx.startedAt with
        | none => exact absurd ⟨rfl, hat⟩ hset
        | some at' => rfl
      · exact h.started hs

theorem booked_counted (op : JobOp) (h : Booked ctx) : Booked (op.counted ctx) where
  chain := by rw [counted_transitions]; exact h.chain
  last := by rw [counted_transitions, counted_state]; exact h.last
  permitted := by rw [counted_transitions]; exact h.permitted
  started := by rw [counted_state, counted_startedAt]; exact h.started

theorem booked_step (op : JobOp) (h : Booked ctx) : Booked (step ctx op) := by
  rcases step_cases ctx op with hs | ⟨clock, newState, reason, -, hcan, -, hs⟩
  · rw [hs]
    exact h
  · rw [hs]
    refine booked_moved (booked_counted op h) ?_
    rw [counted_state]
    exact hcan

theorem booked_run (ops : List JobOp) (h : Booked ctx) : Booked (run step ctx ops) := by
  have hstep : ∀ (c : JobContext) op, Booked c → Booked (step c op) := fun _ op hc => booked_step op hc
  exact run_inv_all hstep ops h

/-- What one call adds to the record. -/
theorem transitions_step (op : JobOp) {ts : List StateTransition}
    (h : ctx.transitions = ts.rtake JobContext.MAX_TRANSITIONS) :
    (step ctx op).transitions =
      (ts ++ if (step ctx op).state = ctx.state then [] else [op.entry ctx.state]).rtake
        JobContext.MAX_TRANSITIONS := by
  rcases step_cases ctx op with hs | ⟨clock, newState, reason, hentry, -, hne, hs⟩
  · rw [hs, if_pos rfl, List.append_nil]
    exact h
  · rw [hs, moved_state, if_neg (Ne.symm hne), moved_transitions, counted_transitions, counted_state, hentry, h]
    exact SlidingLog.rtake_rtake_concat _ ts _

/-- The record of a run is the last part of all its moves. -/
theorem transitions_run : ∀ (ops : List JobOp) {ctx : JobContext} {ts : List StateTransition},
    ctx.transitions = ts.rtake JobContext.MAX_TRANSITIONS →
      (run step ctx ops).transitions = (ts ++ history ctx ops).rtake JobContext.MAX_TRANSITIONS
  | [], ctx, ts, h => by rw [run_nil, history, List.append_nil]; exact h
  | op :: ops, ctx, ts, h => by
    rw [run_cons, history, ← List.append_assoc]
    exact transitions_run ops (transitions_step op h)

/-- A job that has ended stays as it is. -/
theorem run_of_terminal (ops : List JobOp) (h : ctx.state.isTerminal = true) : run step ctx ops = ctx := by
  induction ops with
  | nil => rfl
  | cons op ops ih => rw [run_cons, step_of_terminal op h, ih]

end Runs

/-- **The job state machine over whole runs** on a new context. -/
theorem job_history (jobId : Nat) (createdAt : Int) (userId title description : Str) (ops : List JobOp) :
    let new := JobContext.withUser jobId createdAt userId title description
    let ctx := run step new ops
    -- the entries follow each other up to the present state, and each is permitted
    (ctx.transitions.IsChain fun a b => a.toState = b.fromState) ∧
      (∀ t ∈ ctx.transitions.getLast?, t.toState = ctx.state) ∧
      (∀ t ∈ ctx.transitions, t.fromState.canTransitionTo t.toState = true) ∧
      -- they are the most recent moves, at most 200
      ctx.transitions = (history new ops).rtake 200 ∧ ctx.transitions.length ≤ 200 ∧
      -- the end of a job is final, and a refused call changes nothing
      (ctx.state.isTerminal = true → ∀ more, run step ctx more = ctx) ∧
      (∀ (op : JobOp) e, (op.apply ctx).1 = .error e → (op.apply ctx).2 = ctx) ∧
      -- a job that was started has its start time
      (ctx.state ∈ [.inProgress, .completed, .submitted, .accepted, .stuck] → ctx.startedAt.isSome = true) := by
  intro new ctx
  have hbooked : Booked ctx := booked_run ops (booked_withUser ..)
  have hlast : ctx.transitions = ([] ++ history new ops).rtake 200 := transitions_run ops rfl
  rw [List.nil_append] at hlast
  refine ⟨hbooked.chain, hbooked.last, hbooked.permitted, hlast, ?_, fun h more => run_of_terminal more h, ?_, ?_⟩
  · rw [hlast, List.rtake, List.length_drop]
    omega
  · exact fun op e h => step_of_error h
  · intro hs
    refine hbooked.started ?_
    simp only [List.mem_cons, List.not_mem_nil, or_false] at hs
    rcases hs with h | h | h | h | h <;> rw [h] <;> rfl

end Ironclaw.Context

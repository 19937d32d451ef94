import Ironclaw.Context.State
import Ironclaw.Lib.Table

/-!
# The context manager

The contexts of all jobs by their ids, behind one lock. A new context is admitted while fewer than `max_jobs` contexts
take a slot; each operation is one lock window, so an interleaving is a sequence of operations. The memories that are
kept beside the contexts are left out: no operation on the contexts reads them.

- `blocking_apply`: a call on a context takes no slot that the context did not have;
- `parallelCount_step`, `parallel_bound`: the bound on the slots, for one operation and for every run.
-/

namespace Ironclaw.Context

open Text Run

inductive JobError
  | notFound (id : Nat)
  | maxJobsExceeded (max : Nat)
  | contextError (id : Nat) (reason : Str)
  | failed (id : Nat) (reason : Str)
  deriving DecidableEq

structure ContextManager where
  contexts : Table Nat JobContext
  maxJobs : Nat

namespace ContextManager

def new (maxJobs : Nat) : ContextManager := ⟨∅, maxJobs⟩

variable (m : ContextManager)

/-- The contexts that take a slot. -/
def parallelCount : Nat := Table.count (fun ctx => ctx.state.isParallelBlocking) m.contexts

/-- `parallel_blocking_count_for`. -/
def parallelBlockingCountFor (userId : Str) : Nat :=
  Table.count (fun ctx => decide (ctx.userId = userId) && ctx.state.isParallelBlocking) m.contexts

/-- `insert_context`: the check and the insertion under one lock. -/
def insertContext (ctx : JobContext) : Except JobError ContextManager :=
  if m.maxJobs ≤ m.parallelCount then .error (.maxJobsExceeded m.maxJobs)
  else .ok { m with contexts := m.contexts.insert ctx.jobId ctx }

/-- `create_job_for_user`, with the new id and the time. -/
def createJobForUser (jobId : Nat) (now : Int) (userId title description : Str) : Except JobError ContextManager :=
  m.insertContext (.withUser jobId now userId title description)

def createJob (jobId : Nat) (now : Int) (title description : Str) : Except JobError ContextManager :=
  m.createJobForUser jobId now "default".toList title description

/-- `register_sandbox_job`: the job starts at once. -/
def registerSandboxJob (jobId : Nat) (created started : Int) (userId title description : Str) :
    Except JobError ContextManager :=
  m.insertContext
    { JobContext.withUser jobId created userId title description with state := .inProgress, startedAt := some started }

def getContext (jobId : Nat) : Except JobError JobContext :=
  match m.contexts.lookup jobId with
  | none => .error (.notFound jobId)
  | some ctx => .ok ctx

/-- `update_context`: what the function returns, and the manager with what it leaves. -/
def updateContext {R : Type} (jobId : Nat) (f : JobContext → R × JobContext) : Except JobError (R × ContextManager) :=
  match m.contexts.lookup jobId with
  | none => .error (.notFound jobId)
  | some ctx => .ok ((f ctx).1, { m with contexts := Table.modify jobId (fun ctx => (f ctx).2) m.contexts })

/-- `update_context_and_get`. -/
def updateContextAndGet (jobId : Nat) (f : JobContext → JobContext) : Except JobError (JobContext × ContextManager) :=
  m.updateContext jobId fun ctx => (f ctx, f ctx)

/-- `remove_job`, on the contexts. -/
def removeJob (jobId : Nat) : Except JobError (JobContext × ContextManager) :=
  match m.contexts.lookup jobId with
  | none => .error (.notFound jobId)
  | some ctx => .ok (ctx, { m with contexts := m.contexts.erase jobId })

end ContextManager

/-- An operation on a manager, with the ids and the times it takes. -/
inductive ManagerOp
  | createJob (jobId : Nat) (now : Int) (title description : Str)
  | createJobForUser (jobId : Nat) (now : Int) (userId title description : Str)
  | registerSandboxJob (jobId : Nat) (created started : Int) (userId title description : Str)
  | updateContext (jobId : Nat) (op : JobOp)
  | removeJob (jobId : Nat)

namespace ManagerOp

/-- What an operation leaves: a refused one leaves the manager as it is. -/
def apply (m : ContextManager) : ManagerOp → ContextManager
  | .createJob jobId now title description => ((m.createJob jobId now title description).toOption).getD m
  | .createJobForUser jobId now userId title description =>
    ((m.createJobForUser jobId now userId title description).toOption).getD m
  | .registerSandboxJob jobId created started userId title description =>
    ((m.registerSandboxJob jobId created started userId title description).toOption).getD m
  | .updateContext jobId op => ((m.updateContext jobId (JobOp.apply · op)).toOption.map Prod.snd).getD m
  | .removeJob jobId => ((m.removeJob jobId).toOption.map Prod.snd).getD m

end ManagerOp

/-! ## The bound on the slots -/

/-- A call on a context takes no slot that the context did not have. -/
theorem blocking_apply (ctx : JobContext) (op : JobOp) (h : (op.apply ctx).2.state.isParallelBlocking = true) :
    ctx.state.isParallelBlocking = true := by
  rcases step_cases ctx op with hs | ⟨clock, newState, reason, -, hcan, -, hs⟩
  · rw [step] at hs
    rw [hs] at h
    exact h
  · rw [step] at hs
    rw [hs, moved_state] at h
    exact JobState.blocking_of_canTransitionTo hcan h

section Bound

variable {m : ContextManager}

/-- An admitted context takes at most one slot, and there was a free one. -/
theorem parallelCount_insertContext {ctx : JobContext} {m' : ContextManager} (h : m.insertContext ctx = .ok m') :
    m'.parallelCount ≤ m.maxJobs ∧ m'.maxJobs = m.maxJobs := by
  unfold ContextManager.insertContext at h
  split at h
  · cases h
  next hfree =>
    cases h
    refine ⟨?_, rfl⟩
    have hle := Table.count_insert_le (fun ctx : JobContext => ctx.state.isParallelBlocking) m.contexts ctx.jobId ctx
    have hlt : m.parallelCount < m.maxJobs := Nat.lt_of_not_le hfree
    exact hle.trans hlt

/-- The slots stay within the limit, and the limit stays. -/
def Bounded (maxJobs : Nat) (m : ContextManager) : Prop := m.parallelCount ≤ m.maxJobs ∧ m.maxJobs = maxJobs

variable {maxJobs : Nat}

theorem bounded_insertContext (ctx : JobContext) (h : Bounded maxJobs m) :
    Bounded maxJobs ((m.insertContext ctx).toOption.getD m) := by
  cases hi : m.insertContext ctx with
  | error e => exact h
  | ok m' =>
    obtain ⟨hle, hmax⟩ := parallelCount_insertContext hi
    exact ⟨hle.trans hmax.ge, hmax.trans h.2⟩

theorem bounded_updateContext (jobId : Nat) (op : JobOp) (h : Bounded maxJobs m) :
    Bounded maxJobs ((ManagerOp.updateContext jobId op).apply m) := by
  simp only [ManagerOp.apply, ContextManager.updateContext]
  cases m.contexts.lookup jobId with
  | none => exact h
  | some ctx =>
    refine ⟨?_, h.2⟩
    have hle := Table.count_modify_le (fun ctx : JobContext => ctx.state.isParallelBlocking) m.contexts jobId
      (fun ctx => (op.apply ctx).2) fun ctx _ => blocking_apply ctx op
    exact hle.trans h.1

theorem bounded_removeJob (jobId : Nat) (h : Bounded maxJobs m) :
    Bounded maxJobs ((ManagerOp.removeJob jobId).apply m) := by
  simp only [ManagerOp.apply, ContextManager.removeJob]
  cases m.contexts.lookup jobId with
  | none => exact h
  | some ctx =>
    have hle := Table.count_erase_le (fun ctx : JobContext => ctx.state.isParallelBlocking) m.contexts jobId
    exact ⟨hle.trans h.1, h.2⟩

theorem bounded_step (op : ManagerOp) (h : Bounded maxJobs m) : Bounded maxJobs (op.apply m) := by
  cases op with
  | createJob jobId now title description => exact bounded_insertContext _ h
  | createJobForUser jobId now userId title description => exact bounded_insertContext _ h
  | registerSandboxJob jobId created started userId title description => exact bounded_insertContext _ h
  | updateContext jobId op => exact bounded_updateContext jobId op h
  | removeJob jobId => exact bounded_removeJob jobId h

/-- **The parallel job bound**: in every run from an empty manager, at most `max_jobs` contexts take a slot. -/
theorem parallel_bound (maxJobs : Nat) (ops : List ManagerOp) :
    (run ManagerOp.apply (.new maxJobs) ops).parallelCount ≤ maxJobs := by
  have hnew : Bounded maxJobs (.new maxJobs) := ⟨Nat.zero_le _, rfl⟩
  have hstep : ∀ (m : ContextManager) op, Bounded maxJobs m → Bounded maxJobs (ManagerOp.apply m op) :=
    fun _ op h => bounded_step op h
  obtain ⟨hle, hmax⟩ := run_inv_all hstep ops hnew
  exact hle.trans hmax.le

end Bound

end Ironclaw.Context

import Ironclaw.Lib.Run
import Ironclaw.Routines.Basic

/-!
# The routine engine as a step system

The engine's trigger paths, executions and cache refreshes are tasks over shared state: the two database tables, the
event cache and the global running count. A task is what an asynchronous function still has to do, together with the
copies it holds; every access to the database, the cache or the counter is one step of one task, and a label picks the
task. A query that fails is the label's choice too.

The five trigger paths meet in `Task.accepted` (past every check, the run record not yet created); from there all runs
take the same way: `recorded`, `executing`, `finished` (the result is known), `completed` (the run record is final, the
routine's own row is not).
-/

namespace Ironclaw.Routines

/-- An entry of the event cache. -/
inductive EventMatcher
  | message (routine : Routine)
  | system (routine : Routine)
  deriving DecidableEq

def EventMatcher.routine : EventMatcher → Routine
  | .message r => r
  | .system r => r

inductive TriggerPath
  | event
  | systemEvent
  | cron
  | manual
  | webhook
  deriving DecidableEq

inductive Task
  /-- `matching_event_triggers` after the batch query: the counts read, the matchers still to look at. -/
  | eventSweep (msg : IncomingMessage) (counts : List (Nat × Nat)) (todo : List EventMatcher)
  /-- `emit_system_event` after the batch query. -/
  | systemSweep (ev : SystemEvent) (counts : List (Nat × Nat)) (todo : List EventMatcher)
  /-- `check_cron_triggers` after the query for due routines. -/
  | cronSweep (todo : List Routine)
  /-- `fire_manual` after the ownership and enabled checks. -/
  | manualRequest (routine : Routine)
  /-- `fire_webhook` after the enabled check. -/
  | webhookRequest (routine : Routine)
  | accepted (path : TriggerPath) (routine : Routine)
  | recorded (run : Nat) (routine : Routine)
  | executing (run : Nat) (routine : Routine)
  | finished (run : Nat) (routine : Routine) (outcome : Outcome)
  | completed (run : Nat) (routine : Routine) (outcome : Outcome)
  /-- `refresh_event_cache` between the query and the write. -/
  | refreshing (rows : List Routine)
  /-- `sync_dispatched_runs`: an orphaned run whose job is over. -/
  | recovering (run routineId : Nat) (outcome : Outcome)
  /-- `complete_dispatched_run` before it loads the routine. -/
  | finalizing (run routineId : Nat) (outcome : Outcome)
  deriving DecidableEq

structure World where
  routines : List Routine
  runs : List RoutineRun
  cache : List EventMatcher
  runningCount : Nat
  tasks : List Task
  nextRun : Nat
  /-- The runs whose execution is over, in that order, with the routine they belong to. -/
  history : List (Nat × Outcome)
  deriving DecidableEq

/-- The engine right after it was built. -/
def World.boot (routines : List Routine) (runs : List RoutineRun) (nextRun : Nat) : World :=
  ⟨routines, runs, [], 0, [], nextRun, []⟩

structure RoutineConfig where
  rx : RegexEngine
  maxConcurrentRoutines : Nat
  lightweightToolsEnabled : Bool
  lightweightMaxIterations : Nat

/-- What the environment chooses at a step: the clock, whether the query succeeds, the next cron time, and how an
execution ends. -/
structure Choice where
  now : Int
  ok : Bool
  nextFire : Option Int
  outcome : Outcome
  deriving DecidableEq

/-! ## The database -/

/-- A row after a run that held the copy `routine`; the counters are `u64` and `u32`. -/
def Routine.withRuntime (row routine : Routine) (outcome : Outcome) (now : Int) (nextFire : Option Int) : Routine :=
  { row with
    lastRunAt := some now
    nextFireAt := nextFire
    runCount := (routine.runCount + 1) % 2 ^ 64
    consecutiveFailures := if outcome = .failed then (routine.consecutiveFailures + 1) % 2 ^ 32 else 0
    state := routine.state }

namespace World

def getRoutine (s : World) (id : Nat) : Option Routine := s.routines.find? fun r => r.id == id

/-- `count_running_routine_runs`. -/
def countRunning (s : World) (id : Nat) : Nat := s.runs.countP fun r => r.routineId == id && r.status == .running

/-- `count_running_routine_runs_batch`. -/
def batchCounts (s : World) (ids : List Nat) : List (Nat × Nat) := ids.map fun id => (id, s.countRunning id)

/-- `list_event_routines`. -/
def listEventRoutines (s : World) : List Routine :=
  s.routines.filter fun r => r.enabled && (r.trigger matches .event .. | .systemEvent ..)

/-- `list_due_cron_routines`. -/
def listDueCronRoutines (s : World) (now : Int) : List Routine :=
  s.routines.filter fun r => r.enabled && (r.trigger matches .cron ..) &&
    (match r.nextFireAt with
      | none => false
      | some t => t ≤ now)

/-- `complete_routine_run`. -/
def completeRoutineRun (s : World) (run : Nat) (outcome : Outcome) : World :=
  { s with runs := s.runs.map fun r => if r.id = run then { r with status := outcome.status } else r }

/-- `update_routine_runtime` with the values computed from the copy `routine`. -/
def updateRoutineRuntime (s : World) (routine : Routine) (outcome : Outcome) (now : Int) (nextFire : Option Int) :
    World :=
  { s with routines := s.routines.map fun r =>
      if r.id = routine.id then r.withRuntime routine outcome now nextFire else r }

end World

/-! ## Steps of a task -/

section Steps

variable (cfg : RoutineConfig)

/-- The matchers `refresh_event_cache` builds from the rows it read. -/
def cacheOf (rows : List Routine) : List EventMatcher :=
  rows.filterMap fun r =>
    match r.trigger with
    | .event _ pattern => if cfg.rx.compiles pattern then some (.message r) else none
    | .systemEvent .. => some (.system r)
    | _ => none

/-- The checks every event goes through, with the count of the batch query. -/
def guardsPass (s : World) (now : Int) (routine : Routine) (count : Nat) : Bool :=
  checkCooldown now routine && decide (count < routine.guardrails.maxConcurrent) &&
    decide (s.runningCount < cfg.maxConcurrentRoutines)

/-- The routine a task accepts at its next step, with the running count its check reads. -/
def admits (s : World) (c : Choice) : Task → Option (Routine × Nat)
  | .eventSweep msg counts (.message r :: _) =>
    let count := (counts.lookup r.id).getD 0
    if routineMatchesMessage r msg && patternMatches cfg.rx r msg.content && guardsPass cfg s c.now r count then
      some (r, count)
    else none
  | .systemSweep ev counts (.system r :: _) =>
    let count := (counts.lookup r.id).getD 0
    if systemEventMatches r ev && guardsPass cfg s c.now r count then some (r, count) else none
  | .cronSweep (r :: _) =>
    let count := s.countRunning r.id
    if s.runningCount < cfg.maxConcurrentRoutines && checkCooldown c.now r && c.ok &&
        count < r.guardrails.maxConcurrent then some (r, count)
    else none
  | .manualRequest r =>
    let count := s.countRunning r.id
    if c.ok && count < r.guardrails.maxConcurrent then some (r, count) else none
  | .webhookRequest r =>
    let count := s.countRunning r.id
    if checkCooldown c.now r && c.ok && count < r.guardrails.maxConcurrent &&
        s.runningCount < cfg.maxConcurrentRoutines then some (r, count)
    else none
  | _ => none

/-- The fire of a task that accepts a routine. -/
def accept (s : World) (c : Choice) (path : TriggerPath) (t : Task) : List Task :=
  match admits cfg s c t with
  | none => []
  | some (r, _) => [.accepted path r]

/-- One step of a task: the shared state after it, and the tasks it leaves. -/
def taskStep (s : World) (c : Choice) (t : Task) : World × List Task :=
  match t with
  | .eventSweep _ _ [] => (s, [])
  | .eventSweep msg counts (_ :: todo) => (s, .eventSweep msg counts todo :: accept cfg s c .event t)
  | .systemSweep _ _ [] => (s, [])
  | .systemSweep ev counts (_ :: todo) => (s, .systemSweep ev counts todo :: accept cfg s c .systemEvent t)
  | .cronSweep [] => (s, [])
  | .cronSweep (_ :: todo) =>
    -- at the global limit the remaining routines are skipped
    if cfg.maxConcurrentRoutines ≤ s.runningCount then (s, [])
    else (s, .cronSweep todo :: accept cfg s c .cron t)
  | .manualRequest _ => (s, accept cfg s c .manual t)
  | .webhookRequest _ => (s, accept cfg s c .webhook t)
  | .accepted _ r =>
    if c.ok then
      ({ s with runs := s.runs ++ [⟨s.nextRun, r.id, .running, false⟩], nextRun := s.nextRun + 1 },
        [.recorded s.nextRun r])
    else (s, [])
  | .recorded run r => ({ s with runningCount := s.runningCount + 1 }, [.executing run r])
  | .executing run r => ({ s with runningCount := s.runningCount - 1 }, [.finished run r c.outcome])
  | .finished run r outcome =>
    let s := { s with history := s.history ++ [(r.id, outcome)] }
    (if c.ok then s.completeRoutineRun run outcome else s, [.completed run r outcome])
  | .completed _ r outcome => (if c.ok then s.updateRoutineRuntime r outcome c.now c.nextFire else s, [])
  | .refreshing rows =>
    -- the write lock waits for the sweeps, which hold the read lock
    if s.tasks.any (fun t => t matches .eventSweep .. | .systemSweep ..) then (s, [t])
    else ({ s with cache := cacheOf cfg rows }, [])
  | .recovering run id outcome =>
    if c.ok then
      ({ s with history := s.history ++ [(id, outcome)] }.completeRoutineRun run outcome, [.finalizing run id outcome])
    else (s, [])
  | .finalizing run id outcome =>
    match (if c.ok then s.getRoutine id else none) with
    | none => (s, [])
    | some r => (s, [.completed run r outcome])

/-! ## Labels -/

inductive Label
  | message (msg : IncomingMessage)
  | systemEvent (ev : SystemEvent)
  | cronTick (now : Int)
  | fireManual (id : Nat) (userId : Option Str)
  | fireWebhook (id : Nat)
  | refresh
  | recover (run : Nat) (outcome : Outcome)
  | advance (i : Nat) (c : Choice)
  deriving DecidableEq

/-- The routines with a message matcher, respectively a system matcher. -/
def matcherIds (cache : List EventMatcher) (system : Bool) : List Nat :=
  cache.filterMap fun m =>
    match m with
    | .message r => if system then none else some r.id
    | .system r => if system then some r.id else none

/-- The task a label starts: its first query, and the checks made on what it returns. -/
def spawned (s : World) : Label → List Task
  | .message msg => [.eventSweep msg (s.batchCounts (matcherIds s.cache false)) s.cache]
  | .systemEvent ev => [.systemSweep ev (s.batchCounts (matcherIds s.cache true)) s.cache]
  | .cronTick now => [.cronSweep (s.listDueCronRoutines now)]
  | .fireManual id userId =>
    match s.getRoutine id with
    | none => []
    | some r => if (userId.all fun uid => r.userId == uid) && r.enabled then [.manualRequest r] else []
  | .fireWebhook id =>
    match s.getRoutine id with
    | none => []
    | some r => if r.enabled then [.webhookRequest r] else []
  | .refresh => [.refreshing s.listEventRoutines]
  | .recover run outcome =>
    -- the ticker recovers one run at a time
    if s.tasks.any (fun t => t matches .recovering .. | .finalizing ..) then []
    else
      match s.runs.find? (fun r => r.id == run && r.status == .running && r.orphaned) with
      | none => []
      | some r => [.recovering run r.routineId outcome]
  | .advance _ _ => []

/-- The task a label advances, with the environment's choice. -/
def picked (s : World) : Label → Option (Task × Choice)
  | .advance i c => (s.tasks[i]?).map fun t => (t, c)
  | _ => none

/-- One step of the system. -/
def step (s : World) (l : Label) : World :=
  match l with
  | .advance i c =>
    match s.tasks[i]? with
    | none => s
    | some t => { (taskStep cfg s c t).1 with tasks := s.tasks.eraseIdx i ++ (taskStep cfg s c t).2 }
  | l => { s with tasks := s.tasks ++ spawned s l }

end Steps

end Ironclaw.Routines

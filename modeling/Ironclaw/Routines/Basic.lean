import Ironclaw.Lib.Json

/-!
# Routines

The data of a routine, its triggers and guardrails, and the pure checks of the engine: whether a message or a system
event matches a routine, and whether its cooldown is over. Identifiers are natural numbers, instants and durations are
nanoseconds. The regex engine is a parameter (`RegexEngine`): an event pattern is user text.
-/

namespace Ironclaw.Routines

open Text

/-- When a routine should fire. -/
inductive Trigger
  | cron (schedule : Str) (timezone : Option Str)
  | event (channel : Option Str) (pattern : Str)
  | systemEvent (source eventType : Str) (filters : List (Str × Str))
  | webhook (path secret : Option Str)
  | manual
  deriving DecidableEq

/-- What happens when a routine fires. -/
inductive RoutineAction
  | lightweight (prompt : Str) (contextPaths : List Str) (maxTokens : Nat) (useTools : Bool) (maxToolRounds : Nat)
  | fullJob (title description : Str) (maxIterations : Nat)
  deriving DecidableEq

/-- Guardrails to prevent runaway execution. -/
structure RoutineGuardrails where
  cooldown : Nat
  maxConcurrent : Nat
  deriving DecidableEq

structure NotifyConfig where
  channel : Option Str
  user : Option Str
  onAttention : Bool
  onFailure : Bool
  onSuccess : Bool
  deriving DecidableEq

structure Routine where
  id : Nat
  name : Str
  userId : Str
  enabled : Bool
  trigger : Trigger
  action : RoutineAction
  guardrails : RoutineGuardrails
  notify : NotifyConfig
  lastRunAt : Option Int
  nextFireAt : Option Int
  runCount : Nat
  consecutiveFailures : Nat
  state : Json
  deriving DecidableEq

inductive RunStatus
  | running
  | ok
  | attention
  | failed
  deriving DecidableEq

/-- How an execution ends: every status but `running`. -/
inductive Outcome
  | ok
  | attention
  | failed
  deriving DecidableEq

def Outcome.status : Outcome → RunStatus
  | .ok => .ok
  | .attention => .attention
  | .failed => .failed

/-- A row of `routine_runs`. `orphaned` marks a run of a previous process that is linked to a job. -/
structure RoutineRun where
  id : Nat
  routineId : Nat
  status : RunStatus
  orphaned : Bool
  deriving DecidableEq

structure IncomingMessage where
  userId : Str
  channel : Str
  content : Str
  deriving DecidableEq

structure SystemEvent where
  source : Str
  eventType : Str
  payload : Json
  userId : Option Str
  deriving DecidableEq

/-- The regex crate: which patterns compile within the size limit, and which texts they match. -/
structure RegexEngine where
  compiles : Str → Bool
  isMatch : (pattern content : Str) → Bool

/-- The channel filter of an event trigger, case-insensitive. -/
def channelMatches (channel : Option Str) (messageChannel : Str) : Bool :=
  match channel with
  | none => true
  | some ch => eqIgnoreAsciiCase ch messageChannel

/-- The user and channel filters of an event-triggered routine. -/
def routineMatchesMessage (routine : Routine) (message : IncomingMessage) : Bool :=
  match routine.trigger with
  | .event channel _ => routine.userId == message.userId && channelMatches channel message.channel
  | _ => false

/-- The regex of an event trigger. -/
def patternMatches (rx : RegexEngine) (routine : Routine) (content : Str) : Bool :=
  match routine.trigger with
  | .event _ pattern => rx.isMatch pattern content
  | _ => false

/-- The text a filter is compared with. -/
def jsonValueAsFilterString : Json → Option Str
  | .str s => some s
  | .num n => some n.toText
  | .bool b => some (if b then "true".toList else "false".toList)
  | _ => none

/-- One filter of a system-event trigger. -/
def filterMatches (payload : Json) (filter : Str × Str) : Bool :=
  match (payload.get filter.1).bind jsonValueAsFilterString with
  | none => false
  | some actual => eqIgnoreAsciiCase actual filter.2

/-- Source, type, user and filters of a system-event routine. -/
def systemEventMatches (routine : Routine) (ev : SystemEvent) : Bool :=
  match routine.trigger with
  | .systemEvent source eventType filters =>
    eqIgnoreAsciiCase source ev.source && eqIgnoreAsciiCase eventType ev.eventType &&
      (match ev.userId with
        | none => true
        | some uid => routine.userId == uid) &&
      filters.all (filterMatches ev.payload)
  | _ => false

/-- The longest duration `chrono::Duration` holds: `i64::MAX` milliseconds. -/
def MAX_DURATION : Nat := (2 ^ 63 - 1) * 10 ^ 6

/-- The fallback of `check_cooldown`, 300 seconds. -/
def DEFAULT_COOLDOWN : Nat := 300 * 10 ^ 9

/-- `chrono::Duration::from_std`. -/
def durationFromStd (d : Nat) : Option Nat := if d ≤ MAX_DURATION then some d else none

def checkCooldown (now : Int) (routine : Routine) : Bool :=
  match routine.lastRunAt with
  | none => true
  | some lastRun => !decide
    (now - lastRun < ((durationFromStd routine.guardrails.cooldown).getD DEFAULT_COOLDOWN : Nat))

/-- A cooldown that is over by the routine's own record. -/
theorem cooldown_over {now t : Int} {routine : Routine} (h : checkCooldown now routine = true)
    (ht : routine.lastRunAt = some t) (hc : routine.guardrails.cooldown ≤ MAX_DURATION) :
    (routine.guardrails.cooldown : Int) ≤ now - t := by
  simp only [checkCooldown, ht, durationFromStd, hc, if_true, Option.getD_some, Bool.not_eq_true',
    decide_eq_false_iff_not] at h
  omega

end Ironclaw.Routines

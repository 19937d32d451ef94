import Ironclaw.Lib.JsonText

/-!
# Lifecycle hooks

The events of the agent's lifecycle, and a hook as what it answers to an event: its body reads and changes the world `ω`
(its own state, files, other services), and the answer may not come in time.
-/

namespace Ironclaw.Hooks

inductive HookPoint
  | beforeInbound
  | beforeToolCall
  | beforeOutbound
  | onSessionStart
  | onSessionEnd
  | transformResponse
  deriving DecidableEq, Repr

inductive HookEvent
  | inbound (userId channel content : Str) (threadId : Option Str)
  | toolCall (toolName : Str) (parameters : Json) (userId context : Str)
  | outbound (userId channel content : Str) (threadId : Option Str)
  | sessionStart (userId sessionId : Str)
  | sessionEnd (userId sessionId : Str)
  | responseTransform (userId threadId response : Str)

namespace HookEvent

def hookPoint : HookEvent → HookPoint
  | .inbound .. => .beforeInbound
  | .toolCall .. => .beforeToolCall
  | .outbound .. => .beforeOutbound
  | .sessionStart .. => .onSessionStart
  | .sessionEnd .. => .onSessionEnd
  | .responseTransform .. => .transformResponse

/-- The event with another content; parameters that are no JSON text change nothing, and session events have no
content. -/
def applyModification (json : JsonText) (modified : Str) : HookEvent → HookEvent
  | .inbound userId channel _ threadId => .inbound userId channel modified threadId
  | .outbound userId channel _ threadId => .outbound userId channel modified threadId
  | .toolCall toolName parameters userId context =>
    match json.parse modified with
    | .ok parsed => .toolCall toolName parsed userId context
    | .error _ => .toolCall toolName parameters userId context
  | .responseTransform userId threadId _ => .responseTransform userId threadId modified
  | .sessionStart userId sessionId => .sessionStart userId sessionId
  | .sessionEnd userId sessionId => .sessionEnd userId sessionId

def extractContent (json : JsonText) : HookEvent → Str
  | .inbound _ _ content _ => content
  | .outbound _ _ content _ => content
  | .toolCall _ parameters _ _ => json.print parameters
  | .responseTransform _ _ response => response
  | .sessionStart _ sessionId => sessionId
  | .sessionEnd _ sessionId => sessionId

theorem hookPoint_applyModification (json : JsonText) (modified : Str) (event : HookEvent) :
    (event.applyModification json modified).hookPoint = event.hookPoint := by
  cases event with
  | toolCall toolName parameters userId context =>
    rw [applyModification]
    split <;> rfl
  | _ => rfl

end HookEvent

/-- The result of a hook. -/
inductive HookOutcome
  | continue (modified : Option Str)
  | reject (reason : Str)
  deriving DecidableEq, Repr

namespace HookOutcome

def ok : HookOutcome := .continue none

def modify (value : Str) : HookOutcome := .continue (some value)

end HookOutcome

inductive HookFailureMode
  | failOpen
  | failClosed
  deriving DecidableEq, Repr

/-- A duration, in nanoseconds. -/
abbrev Duration := Nat

/-- A decimal fraction of `width` digits, without the zeros at its end. -/
def fractionText (width fraction : Nat) : Str :=
  let digits := Nat.toDigits 10 fraction
  let padded := (List.replicate (width - digits.length) '0' ++ digits).rdropWhile (· == '0')
  if padded = [] then [] else '.' :: padded

/-- How a duration is shown. -/
def Duration.text (d : Duration) : Str :=
  if 1000000000 ≤ d then
    Nat.toDigits 10 (d / 1000000000) ++ fractionText 9 (d % 1000000000) ++ "s".toList
  else if 1000000 ≤ d then
    Nat.toDigits 10 (d / 1000000) ++ fractionText 6 (d % 1000000) ++ "ms".toList
  else if 1000 ≤ d then
    Nat.toDigits 10 (d / 1000) ++ fractionText 3 (d % 1000) ++ "µs".toList
  else
    Nat.toDigits 10 d ++ "ns".toList

inductive HookError
  | executionFailed (reason : Str)
  | timeout (timeout : Duration)
  | rejected (reason : Str)
  deriving DecidableEq, Repr

def HookError.text : HookError → Str
  | .executionFailed reason => "Hook execution failed: ".toList ++ reason
  | .timeout d => "Hook timed out after ".toList ++ Duration.text d
  | .rejected reason => "Hook rejected: ".toList ++ reason

/-- What is passed to a hook beside the event. -/
structure HookContext where
  metadata : Json := .null

/-- What comes back from a call: nothing within the timeout, or the hook's result. -/
abbrev Reply := Option (Except HookError HookOutcome)

/-- A hook over the worlds `ω`. -/
structure Hook (ω : Type) where
  name : Str
  hookPoints : List HookPoint
  failureMode : HookFailureMode := .failOpen
  timeout : Duration := 5000000000
  execute : HookEvent → HookContext → ω → Reply × ω

end Ironclaw.Hooks

import Ironclaw.Lib.Hoare
import Ironclaw.Routines.Basic

/-!
# Rows of routines

A trigger and an action are stored as a tag and a JSON configuration: `type_tag`, `to_config_json` and `from_db`. Which
timezones are known is a parameter.

- `Trigger.fromDb_store`, `RoutineAction.fromDb_store`: what loading a stored value gives;
- `Trigger.known_of_fromDb`, `RoutineAction.clamped_of_fromDb`: what a loaded value satisfies.
-/

namespace Ironclaw.Routines

open Text Hoare

/-- The errors of a row. -/
inductive RowError
  | missingField (context field : Str)
  | unknownTriggerType (triggerType : Str)
  | unknownActionType (actionType : Str)
  deriving DecidableEq

/-- `as u32`. -/
def asU32 (n : Nat) : Nat := n % 2 ^ 32

/-- A string field that has to be there. -/
def stringField (context field : String) (config : Json) : Except RowError Str :=
  match (config.get field.toList).bind Json.asStr with
  | some s => .ok s
  | none => .error (.missingField context.toList field.toList)

/-- A string field that may be missing. -/
def optionalField (field : String) (config : Json) : Option Str := (config.get field.toList).bind Json.asStr

/-- A string, or null. -/
def ofOption (s : Option Str) : Json := s.elim .null .str

/-- A number field, with its default. -/
def numberField (field : String) (config : Json) (default : Nat) : Nat :=
  ((config.get field.toList).bind Json.asU64).getD default

/-! ## Triggers -/

namespace Trigger

def typeTag : Trigger → Str
  | .cron _ _ => "cron".toList
  | .event _ _ => "event".toList
  | .systemEvent _ _ _ => "system_event".toList
  | .webhook _ _ => "webhook".toList
  | .manual => "manual".toList

def toConfigJson : Trigger → Json
  | .cron schedule timezone => .obj [("schedule".toList, .str schedule), ("timezone".toList, ofOption timezone)]
  | .event channel pattern => .obj [("pattern".toList, .str pattern), ("channel".toList, ofOption channel)]
  | .systemEvent source eventType filters =>
    .obj [("source".toList, .str source), ("event_type".toList, .str eventType),
      ("filters".toList, .obj (filters.map fun f => (f.1, .str f.2)))]
  | .webhook path secret => .obj [("path".toList, ofOption path), ("secret".toList, ofOption secret)]
  | .manual => .obj []

/-- The filters of a system event: the entries whose values are texts, numbers or truth values. -/
def filtersOf (config : Json) : List (Str × Str) :=
  match config.get "filters".toList with
  | some (.obj entries) => entries.filterMap fun kv => (jsonValueAsFilterString kv.2).map fun s => (kv.1, s)
  | _ => []

variable (knownTimezone : Str → Bool)

def fromDb (triggerType : Str) (config : Json) : Except RowError Trigger :=
  if triggerType = "cron".toList then do
    let schedule ← stringField "cron trigger" "schedule" config
    return .cron schedule ((optionalField "timezone" config).filter knownTimezone)
  else if triggerType = "event".toList then do
    let pattern ← stringField "event trigger" "pattern" config
    return .event (optionalField "channel" config) pattern
  else if triggerType = "system_event".toList then do
    let source ← stringField "system_event trigger" "source" config
    let eventType ← stringField "system_event trigger" "event_type" config
    return .systemEvent source eventType (filtersOf config)
  else if triggerType = "webhook".toList then
    return .webhook (optionalField "path" config) (optionalField "secret" config)
  else if triggerType = "manual".toList then return .manual
  else throw (.unknownTriggerType triggerType)

/-- What is stored of a trigger is loaded again. -/
def store (trigger : Trigger) : Except RowError Trigger := fromDb knownTimezone trigger.typeTag trigger.toConfigJson

/-- The trigger without a timezone that is not known. -/
def known : Trigger → Trigger
  | .cron schedule timezone => .cron schedule (timezone.filter knownTimezone)
  | trigger => trigger

theorem filtersOf_store (source eventType : Str) (filters : List (Str × Str)) :
    filtersOf (toConfigJson (.systemEvent source eventType filters)) = filters := by
  have hget : (toConfigJson (.systemEvent source eventType filters)).get "filters".toList =
      some (.obj (filters.map fun f => (f.1, .str f.2))) := rfl
  rw [filtersOf, hget]
  simp only [List.filterMap_map]
  exact List.filterMap_some

variable {knownTimezone}

theorem fromDb_store : ∀ trigger : Trigger, trigger.store knownTimezone = .ok (trigger.known knownTimezone)
  | .cron schedule timezone => by cases timezone <;> rfl
  | .event channel pattern => by cases channel <;> rfl
  | .systemEvent source eventType filters => by
    have hfilters := filtersOf_store source eventType filters
    show Except.ok (Trigger.systemEvent source eventType (filtersOf _)) = _
    rw [hfilters]
    rfl
  | .webhook path secret => by cases path <;> cases secret <;> rfl
  | .manual => rfl

theorem known_idem (trigger : Trigger) :
    (trigger.known knownTimezone).known knownTimezone = trigger.known knownTimezone := by
  cases trigger with
  | cron schedule timezone => rw [known, known, Option.filter_filter]; simp
  | _ => rfl

/-- A loaded trigger has no timezone that is not known. -/
theorem known_of_fromDb {triggerType : Str} {config : Json} {trigger : Trigger}
    (h : fromDb knownTimezone triggerType config = .ok trigger) : trigger.known knownTimezone = trigger := by
  unfold fromDb at h
  split at h
  · obtain ⟨schedule, -, h⟩ := bind_eq_ok h
    cases h
    rw [known, Option.filter_filter]
    simp
  split at h
  · obtain ⟨pattern, -, h⟩ := bind_eq_ok h
    cases h
    rfl
  split at h
  · obtain ⟨source, -, h⟩ := bind_eq_ok h
    obtain ⟨eventType, -, h⟩ := bind_eq_ok h
    cases h
    rfl
  split at h
  · cases h
    rfl
  split at h
  · cases h
    rfl
  · cases h

/-- The trigger stays, or it loses a timezone that is not known. -/
inductive Loaded (knownTimezone : Str → Bool) : Trigger → Trigger → Prop
  | same (trigger : Trigger) : Loaded knownTimezone trigger trigger
  | withoutTimezone (schedule timezone : Str) (h : knownTimezone timezone = false) :
      Loaded knownTimezone (.cron schedule (some timezone)) (.cron schedule none)

theorem loaded_known (trigger : Trigger) : Loaded knownTimezone trigger (trigger.known knownTimezone) := by
  cases trigger with
  | cron schedule timezone =>
    cases timezone with
    | none => exact .same _
    | some timezone =>
      cases h : knownTimezone timezone with
      | true =>
        rw [known, Option.filter_some_pos h]
        exact .same _
      | false =>
        rw [known, Option.filter_some_neg (by simp [h])]
        exact .withoutTimezone schedule timezone h
  | _ => exact .same _

end Trigger

/-! ## Actions -/

def defaultMaxTokens : Nat := 4096

def defaultMaxIterations : Nat := 25

def defaultMaxToolRounds : Nat := 3

def MAX_TOOL_ROUNDS_LIMIT : Nat := 20

def clampMaxToolRounds (value : Nat) : Nat := max 1 (min value MAX_TOOL_ROUNDS_LIMIT)

namespace RoutineAction

def typeTag : RoutineAction → Str
  | .lightweight _ _ _ _ _ => "lightweight".toList
  | .fullJob _ _ _ => "full_job".toList

def toConfigJson : RoutineAction → Json
  | .lightweight prompt contextPaths maxTokens useTools maxToolRounds =>
    .obj [("prompt".toList, .str prompt), ("context_paths".toList, .arr (contextPaths.map .str)),
      ("max_tokens".toList, .num (.int maxTokens)), ("use_tools".toList, .bool useTools),
      ("max_tool_rounds".toList, .num (.int maxToolRounds))]
  | .fullJob title description maxIterations =>
    .obj [("title".toList, .str title), ("description".toList, .str description),
      ("max_iterations".toList, .num (.int maxIterations))]

/-- The context paths: the strings of the array. -/
def contextPathsOf (config : Json) : List Str :=
  match config.get "context_paths".toList with
  | some (.arr items) => items.filterMap Json.asStr
  | _ => []

def fromDb (actionType : Str) (config : Json) : Except RowError RoutineAction :=
  if actionType = "lightweight".toList then do
    let prompt ← stringField "lightweight action" "prompt" config
    return .lightweight prompt (contextPathsOf config) (asU32 (numberField "max_tokens" config defaultMaxTokens))
      (((config.get "use_tools".toList).bind Json.asBool).getD false)
      (clampMaxToolRounds (numberField "max_tool_rounds" config defaultMaxToolRounds))
  else if actionType = "full_job".toList then do
    let title ← stringField "full_job action" "title" config
    let description ← stringField "full_job action" "description" config
    return .fullJob title description (asU32 (numberField "max_iterations" config defaultMaxIterations))
  else throw (.unknownActionType actionType)

/-- What is stored of an action is loaded again. -/
def store (action : RoutineAction) : Except RowError RoutineAction := fromDb action.typeTag action.toConfigJson

/-- The numbers of an action have 32 bits. -/
def InRange : RoutineAction → Prop
  | .lightweight _ _ maxTokens _ maxToolRounds => maxTokens < 2 ^ 32 ∧ maxToolRounds < 2 ^ 32
  | .fullJob _ _ maxIterations => maxIterations < 2 ^ 32

/-- The action with a number of tool rounds that is allowed. -/
def clamped : RoutineAction → RoutineAction
  | .lightweight prompt contextPaths maxTokens useTools maxToolRounds =>
    .lightweight prompt contextPaths maxTokens useTools (clampMaxToolRounds maxToolRounds)
  | action => action

theorem clampMaxToolRounds_idem (n : Nat) : clampMaxToolRounds (clampMaxToolRounds n) = clampMaxToolRounds n := by
  unfold clampMaxToolRounds MAX_TOOL_ROUNDS_LIMIT
  omega

theorem clampMaxToolRounds_lt (n : Nat) : clampMaxToolRounds n < 2 ^ 32 := by
  unfold clampMaxToolRounds MAX_TOOL_ROUNDS_LIMIT
  omega

theorem stringField_eq (context : String) {field : String} {config : Json} {text : Str}
    (hget : config.get field.toList = some (.str text)) : stringField context field config = .ok text := by
  rw [stringField, hget]
  rfl

/-- A number of 32 bits is read as it was written. -/
theorem numberField_eq {field : String} {config : Json} {n : Nat} (default : Nat)
    (hget : config.get field.toList = some (.num (.int n))) (h : n < 2 ^ 32) :
      numberField field config default = n := by
  rw [numberField, hget, Option.bind_some, Json.asU64, if_pos (by omega), Int.toNat_natCast, Option.getD_some]

theorem fromDb_store : ∀ {action : RoutineAction}, action.InRange → action.store = .ok action.clamped
  | .lightweight prompt contextPaths maxTokens useTools maxToolRounds, h => by
    have hpaths : contextPathsOf (toConfigJson (.lightweight prompt contextPaths maxTokens useTools maxToolRounds)) =
        contextPaths := by
      show (contextPaths.map Json.str).filterMap Json.asStr = contextPaths
      rw [List.filterMap_map]
      exact List.filterMap_some
    rw [store, fromDb, if_pos (by rfl), stringField_eq _ (by rfl), hpaths, numberField_eq defaultMaxTokens (by rfl) h.1,
      numberField_eq defaultMaxToolRounds (by rfl) h.2, asU32, Nat.mod_eq_of_lt h.1]
    rfl
  | .fullJob title description maxIterations, h => by
    have htag : typeTag (.fullJob title description maxIterations) ≠ "lightweight".toList := by
      show "full_job".toList ≠ "lightweight".toList
      decide
    rw [store, fromDb, if_neg htag, if_pos (by rfl), stringField_eq _ (by rfl),
      numberField_eq defaultMaxIterations (by rfl) h, asU32, Nat.mod_eq_of_lt h]
    rfl

theorem clamped_idem (action : RoutineAction) : action.clamped.clamped = action.clamped := by
  cases action with
  | lightweight => rw [clamped, clamped, clampMaxToolRounds_idem]
  | fullJob => rfl

theorem InRange.clamped {action : RoutineAction} (h : action.InRange) : action.clamped.InRange := by
  cases action with
  | lightweight => exact ⟨h.1, clampMaxToolRounds_lt _⟩
  | fullJob => exact h

theorem asU32_lt (n : Nat) : asU32 n < 2 ^ 32 := Nat.mod_lt n (by decide)

/-- The numbers of a loaded action are in their ranges. -/
theorem clamped_of_fromDb {actionType : Str} {config : Json} {action : RoutineAction}
    (h : fromDb actionType config = .ok action) : action.InRange ∧ action.clamped = action := by
  unfold fromDb at h
  split at h
  · obtain ⟨prompt, -, h⟩ := bind_eq_ok h
    cases h
    refine ⟨⟨asU32_lt _, clampMaxToolRounds_lt _⟩, ?_⟩
    rw [clamped, clampMaxToolRounds_idem]
  split at h
  · obtain ⟨title, -, h⟩ := bind_eq_ok h
    obtain ⟨description, -, h⟩ := bind_eq_ok h
    cases h
    exact ⟨asU32_lt _, rfl⟩
  · cases h

/-- The action stays, or a number of tool rounds that is out of range is clamped. -/
inductive Loaded : RoutineAction → RoutineAction → Prop
  | same (action : RoutineAction) : Loaded action action
  | clampedRounds (prompt : Str) (contextPaths : List Str) (maxTokens : Nat) (useTools : Bool) (maxToolRounds : Nat)
      (h : maxToolRounds < 1 ∨ MAX_TOOL_ROUNDS_LIMIT < maxToolRounds) :
      Loaded (.lightweight prompt contextPaths maxTokens useTools maxToolRounds)
        (.lightweight prompt contextPaths maxTokens useTools (clampMaxToolRounds maxToolRounds))

theorem loaded_clamped (action : RoutineAction) : Loaded action action.clamped := by
  cases action with
  | lightweight prompt contextPaths maxTokens useTools maxToolRounds =>
    by_cases h : maxToolRounds < 1 ∨ MAX_TOOL_ROUNDS_LIMIT < maxToolRounds
    · exact .clampedRounds prompt contextPaths maxTokens useTools maxToolRounds h
    · have hsame : clampMaxToolRounds maxToolRounds = maxToolRounds := by
        rw [clampMaxToolRounds]
        omega
      rw [clamped, hsame]
      exact .same _
  | fullJob => exact .same _

end RoutineAction

/-- An action with numbers of 32 bits, as the source has them. -/
abbrev StoredAction := {action : RoutineAction // action.InRange}

/-- **Rows round-trip.** What was loaded is stored and loaded unchanged. Any trigger and any action can be stored and
loaded; that loses at most a timezone that is not known and clamps at most the tool rounds, and doing it again changes
nothing more. -/
theorem rows_round_trip (knownTimezone : Str → Bool) :
    (∀ triggerType config trigger, Trigger.fromDb knownTimezone triggerType config = .ok trigger →
      trigger.store knownTimezone = .ok trigger) ∧
    (∀ actionType config action, RoutineAction.fromDb actionType config = .ok action → action.store = .ok action) ∧
    (∀ trigger : Trigger, ∃ once, trigger.store knownTimezone = .ok once ∧ once.store knownTimezone = .ok once ∧
      trigger.Loaded knownTimezone once) ∧
    ∀ action : StoredAction, ∃ once, action.1.store = .ok once ∧ once.store = .ok once ∧ action.1.Loaded once := by
  refine ⟨?_, ?_, ?_, ?_⟩
  · intro triggerType config trigger h
    rw [Trigger.fromDb_store, Trigger.known_of_fromDb h]
  · intro actionType config action h
    obtain ⟨hrange, hclamped⟩ := RoutineAction.clamped_of_fromDb h
    rw [RoutineAction.fromDb_store hrange, hclamped]
  · intro trigger
    refine ⟨trigger.known knownTimezone, Trigger.fromDb_store trigger, ?_, Trigger.loaded_known trigger⟩
    rw [Trigger.fromDb_store, Trigger.known_idem]
  · rintro ⟨action, hrange⟩
    refine ⟨action.clamped, RoutineAction.fromDb_store hrange, ?_, RoutineAction.loaded_clamped action⟩
    rw [RoutineAction.fromDb_store hrange.clamped, RoutineAction.clamped_idem]

end Ironclaw.Routines

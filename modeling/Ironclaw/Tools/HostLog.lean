import Ironclaw.Lib.Text

/-!
# The log of a guest

`HostState::log` keeps the first entries of a guest and counts the rest. A message that is too long is cut at a fixed
byte, and the slice panics when that byte is inside a character; `truncate_utf8` of the channels moves the cut back
instead.

- `log_of_room`, `log_of_full`: what one call does;
- `run_logged`: what a run that does not panic leaves;
- `run_isSome_iff`, `logsSafely_iff`: which runs do not panic.
-/

namespace Ironclaw.Tools

open Text

def MAX_LOG_ENTRIES : Nat := 1000

def MAX_LOG_MESSAGE_BYTES : Nat := 4096

inductive LogLevel
  | trace
  | debug
  | info
  | warn
  | error
  deriving DecidableEq

structure LogEntry where
  level : LogLevel
  message : Str
  timestampMillis : Nat
  deriving DecidableEq

/-- The part of the host state that the log reads. -/
structure HostState where
  logs : List LogEntry
  loggingEnabled : Bool
  logsDropped : Nat
  deriving DecidableEq

/-- What is put behind a message that was cut. -/
def truncatedSuffix : Str := "... (truncated)".toList

/-- A message as it is kept, or a panic. -/
def truncateMessage (message : Str) : Option Str :=
  if MAX_LOG_MESSAGE_BYTES < utf8Len message then
    (sliceTo MAX_LOG_MESSAGE_BYTES message).map fun truncated => truncated ++ truncatedSuffix
  else some message

namespace HostState

def new : HostState := ⟨[], true, 0⟩

/-- `log`, with the time at which an entry is made. A panic is `none`. -/
def log (state : HostState) (level : LogLevel) (message : Str) (timestampMillis : Nat) : Option HostState :=
  if !state.loggingEnabled then some { state with logsDropped := state.logsDropped + 1 }
  else if MAX_LOG_ENTRIES ≤ state.logs.length then
    some { state with loggingEnabled := false, logsDropped := state.logsDropped + 1 }
  else
    (truncateMessage message).map fun message =>
      { state with logs := state.logs ++ [⟨level, message, timestampMillis⟩] }

end HostState

/-- A call of the guest: a level, a message and the time. -/
abbrev LogCall := LogEntry

/-- The calls of a guest, one after the other. -/
def logAll (state : HostState) (calls : List LogCall) : Option HostState :=
  calls.foldlM (fun state call => state.log call.level call.message call.timestampMillis) state

/-! ## What is asked of the log -/

/-- An entry that is kept for a call: the message, or its longest prefix that fits and the suffix. -/
structure Kept (call : LogCall) (entry : LogEntry) : Prop where
  level : entry.level = call.level
  time : entry.timestampMillis = call.timestampMillis
  message : utf8Len call.message ≤ MAX_LOG_MESSAGE_BYTES ∧ entry.message = call.message ∨
    MAX_LOG_MESSAGE_BYTES < utf8Len call.message ∧
      ∃ p, IsLongestPrefix MAX_LOG_MESSAGE_BYTES call.message p ∧ entry.message = p ++ truncatedSuffix

/-- The log after the calls: the first of them are kept, in order, and the others are counted. -/
structure Logged (calls : List LogCall) (state : HostState) : Prop where
  kept : List.Forall₂ Kept (calls.take MAX_LOG_ENTRIES) state.logs
  bounded : state.logs.length ≤ MAX_LOG_ENTRIES
  counted : state.logs.length + state.logsDropped = calls.length

/-- Every call returns, and the log is what it should be. -/
def LogsSafely (calls : List LogCall) : Prop := ∃ state, logAll .new calls = some state ∧ Logged calls state

/-- The message fits, or the cut falls between two of its characters. -/
def CutsWhole (message : Str) : Prop :=
  utf8Len message ≤ MAX_LOG_MESSAGE_BYTES ∨ ∃ p, p <+: message ∧ utf8Len p = MAX_LOG_MESSAGE_BYTES

/-! ## One call -/

section Call

variable {state : HostState} {calls : List LogCall} {call : LogCall}

theorem truncateMessage_isSome_iff (message : Str) : (truncateMessage message).isSome ↔ CutsWhole message := by
  unfold truncateMessage CutsWhole
  split
  next hlong => rw [Option.isSome_map, sliceTo_isSome_iff, or_iff_right (Nat.not_le.mpr hlong)]
  next hfits => exact ⟨fun _ => .inl (Nat.not_lt.mp hfits), fun _ => rfl⟩

/-- What is kept of a message. -/
theorem kept_of_truncateMessage {message : Str} (h : truncateMessage call.message = some message) :
    Kept call ⟨call.level, message, call.timestampMillis⟩ := by
  refine ⟨rfl, rfl, ?_⟩
  unfold truncateMessage at h
  split at h
  next hlong =>
    obtain ⟨p, hp, hmessage⟩ := Option.map_eq_some_iff.mp h
    exact .inr ⟨hlong, p, sliceTo_longest hp, hmessage.symm⟩
  next hfits =>
    cases h
    exact .inl ⟨Nat.not_lt.mp hfits, rfl⟩

/-- The state of a run: the log is what it should be, and logging is on until the log is full. -/
structure Sound (calls : List LogCall) (state : HostState) : Prop where
  logged : Logged calls state
  enabled : state.loggingEnabled = false → MAX_LOG_ENTRIES ≤ state.logs.length

theorem Sound.length (h : Sound calls state) : state.logs.length = min MAX_LOG_ENTRIES calls.length := by
  rw [← h.logged.kept.length_eq, List.length_take]

/-- While there is room, a call keeps its message or panics. -/
theorem log_of_room (h : Sound calls state) (hroom : calls.length < MAX_LOG_ENTRIES) :
    state.log call.level call.message call.timestampMillis = (truncateMessage call.message).map fun message =>
      { state with logs := state.logs ++ [⟨call.level, message, call.timestampMillis⟩] } := by
  have hlength := h.length
  have hon : state.loggingEnabled = true := by
    by_contra hoff
    have hfull := h.enabled (Bool.eq_false_iff.mpr hoff)
    omega
  rw [HostState.log, if_neg (by simp [hon]), if_neg (by omega)]

/-- When the log is full, a call is counted. -/
theorem log_of_full (h : Sound calls state) (hfull : MAX_LOG_ENTRIES ≤ calls.length) :
    state.log call.level call.message call.timestampMillis =
      some { state with loggingEnabled := false, logsDropped := state.logsDropped + 1 } := by
  have hlength := h.length
  rw [HostState.log]
  split
  next hoff =>
    rw [Bool.not_eq_true'] at hoff
    rw [← hoff]
  next => rw [if_pos (by omega)]

theorem take_append_singleton (calls : List LogCall) (call : LogCall) (n : Nat) :
    (calls ++ [call]).take n = calls.take n ++ if calls.length < n then [call] else [] := by
  rw [List.take_append]
  congr 1
  split
  next hroom => exact List.take_of_length_le (by simp; omega)
  next hfull => rw [Nat.sub_eq_zero_of_le (Nat.not_lt.mp hfull), List.take_zero]

/-- A call that returns keeps the log what it should be. -/
theorem Sound.log {state' : HostState} (h : Sound calls state)
    (hlog : state.log call.level call.message call.timestampMillis = some state') : Sound (calls ++ [call]) state' := by
  have hlength := h.length
  have hcounted := h.logged.counted
  by_cases hroom : calls.length < MAX_LOG_ENTRIES
  · rw [log_of_room h hroom] at hlog
    obtain ⟨message, hmessage, rfl⟩ := Option.map_eq_some_iff.mp hlog
    refine ⟨⟨?_, ?_, ?_⟩, fun hoff => ?_⟩
    · rw [take_append_singleton, if_pos hroom]
      exact List.rel_append h.logged.kept (.cons (kept_of_truncateMessage hmessage) .nil)
    · simp only [List.length_append, List.length_singleton]
      omega
    · simp only [List.length_append, List.length_singleton]
      omega
    · have hfull := h.enabled hoff
      omega
  · rw [log_of_full h (Nat.not_lt.mp hroom)] at hlog
    cases hlog
    refine ⟨⟨?_, h.logged.bounded, ?_⟩, fun _ => ?_⟩
    · rw [take_append_singleton, if_neg hroom, List.append_nil]
      exact h.logged.kept
    · simp only [List.length_append, List.length_singleton]
      omega
    · show MAX_LOG_ENTRIES ≤ state.logs.length
      omega

end Call

/-! ## Runs -/

theorem logAll_concat (calls : List LogCall) (call : LogCall) : logAll .new (calls ++ [call]) =
    (logAll .new calls).bind fun state => state.log call.level call.message call.timestampMillis := by
  simp [logAll, List.foldlM_append]

/-- **A run that returns** leaves the log that it should. -/
theorem run_logged (calls : List LogCall) {state : HostState} (h : logAll .new calls = some state) :
    Sound calls state := by
  induction calls using List.reverseRecOn generalizing state with
  | nil =>
    cases h
    exact ⟨⟨.nil, Nat.zero_le _, rfl⟩, nofun⟩
  | append_singleton calls call ih =>
    rw [logAll_concat] at h
    obtain ⟨before, hbefore, hlog⟩ := Option.bind_eq_some_iff.mp h
    exact (ih hbefore).log hlog

/-- A run returns when the cuts of the messages that it keeps fall between characters. -/
theorem run_isSome_iff (calls : List LogCall) :
    (logAll .new calls).isSome ↔ ∀ call ∈ calls.take MAX_LOG_ENTRIES, CutsWhole call.message := by
  induction calls using List.reverseRecOn with
  | nil => simp [logAll]
  | append_singleton calls call ih =>
    have htake : (∀ c ∈ (calls ++ [call]).take MAX_LOG_ENTRIES, CutsWhole c.message) ↔
        (∀ c ∈ calls.take MAX_LOG_ENTRIES, CutsWhole c.message) ∧
          (calls.length < MAX_LOG_ENTRIES → CutsWhole call.message) := by
      rw [take_append_singleton, List.forall_mem_append]
      refine and_congr_right fun _ => ?_
      split <;> simp_all
    rw [logAll_concat, htake, ← ih]
    cases hrun : logAll .new calls with
    | none => simp
    | some before =>
      have hsound := run_logged calls hrun
      rw [Option.bind_some]
      by_cases hroom : calls.length < MAX_LOG_ENTRIES
      · rw [log_of_room hsound hroom, Option.isSome_map, truncateMessage_isSome_iff]
        simp [hroom]
      · rw [log_of_full hsound (Nat.not_lt.mp hroom)]
        simp [hroom]

/-- **The log of a guest.** Every call of a run returns and the log is what it should be if and only if each of the
first messages, which the log keeps, fits or is cut between two characters. -/
theorem logsSafely_iff (calls : List LogCall) :
    LogsSafely calls ↔ ∀ call ∈ calls.take MAX_LOG_ENTRIES, CutsWhole call.message := by
  rw [← run_isSome_iff, Option.isSome_iff_exists]
  exact ⟨fun ⟨state, hrun, _⟩ => ⟨state, hrun⟩, fun ⟨state, hrun⟩ => ⟨state, hrun, (run_logged calls hrun).logged⟩⟩

/-- A character of two bytes stands over the cut. -/
def straddling : Str := List.replicate 4095 'a' ++ ['é']

theorem straddling_panics : HostState.new.log .info straddling 0 = none ∧ ¬LogsSafely [⟨.info, straddling, 0⟩] := by
  have hlength : utf8Len (List.replicate 4095 'a') = 4095 := by
    rw [utf8Len, List.map_replicate, List.sum_replicate]
    rfl
  have hcut : takeBytes 4096 straddling = List.replicate 4095 'a' := by
    rw [straddling, takeBytes_append (by omega), hlength]
    exact List.append_nil _
  have hlong : utf8Len straddling = 4097 := by
    rw [straddling, utf8Len_append, hlength]
    rfl
  have hpanic : truncateMessage straddling = none := by
    rw [truncateMessage, if_pos (by rw [hlong]; decide), sliceTo, MAX_LOG_MESSAGE_BYTES, hcut, hlength]
    rfl
  have hlog : HostState.new.log .info straddling 0 = none := by
    rw [HostState.log, if_neg (by decide), if_neg (by decide), hpanic]
    rfl
  refine ⟨hlog, ?_⟩
  rintro ⟨state, hrun, -⟩
  have hnone : logAll .new ([] ++ [⟨.info, straddling, 0⟩]) = none := by
    rw [logAll_concat, logAll, List.foldlM_nil, Option.pure_def, Option.bind_some, hlog]
  rw [List.nil_append, hrun] at hnone
  cases hnone

end Ironclaw.Tools

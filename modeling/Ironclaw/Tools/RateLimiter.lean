import Ironclaw.Lib.Table
import Ironclaw.Lib.Text
import Ironclaw.Lib.Window

/-!
# The rate limiter of the tools

`RateLimiter::check_and_record`: for each user and tool a window of a minute and one of an hour. A call resets the
windows that are over, is denied when one of them is full, and else takes a place in both. Times are in nanoseconds; a
call reads the clock once.

- `check_cases`: what a call answers and leaves;
- `history_filter`: the calls of a key are answered as if there were no others;
- `run_windows`: each of the two windows of a key is a counting window;
- `window_law`: the bounds for whole runs;
- `denied_call_resets`: a call that is denied may reset the window that does not deny it.
-/

namespace Ironclaw.Tools

open Run

def SECOND : Nat := 1000000000

def MINUTE_SECS : Nat := 60

def HOUR_SECS : Nat := 3600

structure ToolRateLimitConfig where
  requestsPerMinute : UInt32
  requestsPerHour : UInt32
  deriving DecidableEq

inductive LimitType
  | perMinute
  | perHour
  deriving DecidableEq

inductive RateLimitResult
  | allowed (remainingMinute remainingHour : UInt32)
  | limited (retryAfter : Nat) (limitType : LimitType)
  deriving DecidableEq

def RateLimitResult.isAllowed : RateLimitResult → Bool
  | .allowed _ _ => true
  | .limited _ _ => false

structure WindowState where
  windowStart : Nat
  count : UInt32
  deriving DecidableEq

namespace WindowState

def new (now : Nat) : WindowState := ⟨now, 0⟩

def maybeReset (w : WindowState) (windowDuration now : Nat) : WindowState :=
  if windowDuration ≤ now - w.windowStart then ⟨now, 0⟩ else w

def timeUntilReset (w : WindowState) (windowDuration now : Nat) : Nat :=
  let elapsed := now - w.windowStart
  if windowDuration ≤ elapsed then 0 else windowDuration - elapsed

end WindowState

/-- The windows of one user and one tool. -/
structure ToolRateLimitState where
  minuteWindow : WindowState
  hourWindow : WindowState
  deriving DecidableEq

namespace ToolRateLimitState

def new (now : Nat) : ToolRateLimitState := ⟨.new now, .new now⟩

/-- The windows that are over are reset. -/
def reset (state : ToolRateLimitState) (now : Nat) : ToolRateLimitState where
  minuteWindow := state.minuteWindow.maybeReset (MINUTE_SECS * SECOND) now
  hourWindow := state.hourWindow.maybeReset (HOUR_SECS * SECOND) now

/-- A place is taken in both windows. -/
def record (state : ToolRateLimitState) : ToolRateLimitState where
  minuteWindow := { state.minuteWindow with count := state.minuteWindow.count + 1 }
  hourWindow := { state.hourWindow with count := state.hourWindow.count + 1 }

/-- `check_internal` for the state of a key. -/
def checkInternal (state : ToolRateLimitState) (config : ToolRateLimitConfig) (record : Bool) (now : Nat) :
    RateLimitResult × ToolRateLimitState :=
  let state := state.reset now
  if config.requestsPerMinute ≤ state.minuteWindow.count then
    (.limited (state.minuteWindow.timeUntilReset (MINUTE_SECS * SECOND) now) .perMinute, state)
  else if config.requestsPerHour ≤ state.hourWindow.count then
    (.limited (state.hourWindow.timeUntilReset (HOUR_SECS * SECOND) now) .perHour, state)
  else
    let state := if record then state.record else state
    (.allowed (config.requestsPerMinute - state.minuteWindow.count) (config.requestsPerHour - state.hourWindow.count),
      state)

end ToolRateLimitState

/-- A user and a tool. -/
abbrev Key := Str × Str

abbrev RateLimiter := Table Key ToolRateLimitState

/-- A call with the time at which it comes. -/
structure Call where
  userId : Str
  toolName : Str
  config : ToolRateLimitConfig
  now : Nat
  deriving DecidableEq

def Call.key (call : Call) : Key := (call.userId, call.toolName)

namespace RateLimiter

def new : RateLimiter := ∅

/-- The state of a key, a new one when there is none. -/
def entry (limiter : RateLimiter) (key : Key) (now : Nat) : ToolRateLimitState := (limiter.lookup key).getD (.new now)

def checkAndRecord (limiter : RateLimiter) (call : Call) : RateLimitResult × RateLimiter :=
  let checked := (limiter.entry call.key call.now).checkInternal call.config true call.now
  (checked.1, limiter.insert call.key checked.2)

end RateLimiter

/-- A call with its answer, and the state of its key before and after it. -/
structure Entry where
  call : Call
  before : ToolRateLimitState
  result : RateLimitResult
  after : ToolRateLimitState
  deriving DecidableEq

/-- What happens in a run of calls. -/
def history (limiter : RateLimiter) : List Call → List Entry
  | [] => []
  | call :: calls =>
    let before := limiter.entry call.key call.now
    let checked := before.checkInternal call.config true call.now
    ⟨call, before, checked.1, checked.2⟩ :: history (limiter.checkAndRecord call).2 calls

/-! ## One call -/

def LimitType.duration : LimitType → Nat
  | .perMinute => MINUTE_SECS * SECOND
  | .perHour => HOUR_SECS * SECOND

def ToolRateLimitConfig.limit (config : ToolRateLimitConfig) : LimitType → UInt32
  | .perMinute => config.requestsPerMinute
  | .perHour => config.requestsPerHour

def ToolRateLimitState.window (state : ToolRateLimitState) : LimitType → WindowState
  | .perMinute => state.minuteWindow
  | .perHour => state.hourWindow

def WindowState.toWindow (w : WindowState) : Window := ⟨w.windowStart, w.count.toNat⟩

section Call

variable {config : ToolRateLimitConfig} {state : ToolRateLimitState} {now : Nat}

theorem toWindow_reset (t : LimitType) :
    ((state.reset now).window t).toWindow = (state.window t).toWindow.roll t.duration now := by
  have hreset : ∀ (w : WindowState) (d : Nat), (w.maybeReset d now).toWindow = w.toWindow.roll d now := by
    intro w d
    unfold WindowState.maybeReset
    split
    next hover => exact (Window.roll_of_over (w := w.toWindow) hover).symm
    next hover => exact (Window.roll_of_not_over (w := w.toWindow) hover).symm
  cases t with
  | perMinute => exact hreset _ _
  | perHour => exact hreset _ _

/-- A call is allowed when both windows have room, and takes a place in both; else it leaves the reset windows. -/
theorem check_cases (config : ToolRateLimitConfig) (state : ToolRateLimitState) (now : Nat) :
    (∀ t, ((state.reset now).window t).count < config.limit t) ∧
        state.checkInternal config true now =
          (.allowed (config.requestsPerMinute - ((state.reset now).minuteWindow.count + 1))
            (config.requestsPerHour - ((state.reset now).hourWindow.count + 1)), (state.reset now).record) ∨
      ∃ retryAfter t, state.checkInternal config true now = (.limited retryAfter t, state.reset now) := by
  simp only [ToolRateLimitState.checkInternal]
  split
  · exact .inr ⟨_, _, rfl⟩
  next hminute =>
    split
    · exact .inr ⟨_, _, rfl⟩
    next hhour =>
      refine .inl ⟨fun t => ?_, rfl⟩
      cases t with
      | perMinute => exact UInt32.not_le.mp hminute
      | perHour => exact UInt32.not_le.mp hhour

/-- A window with room counts one more without an overflow. -/
theorem toNat_succ {count limit : UInt32} (h : count < limit) : (count + 1).toNat = count.toNat + 1 := by
  have hlt : count.toNat < limit.toNat := UInt32.lt_iff_toNat_lt.mp h
  have hsize := limit.toNat_lt
  rw [UInt32.toNat_add, UInt32.toNat_one]
  omega

/-- What is subtracted is no more than the limit. -/
theorem toNat_remaining {count limit : UInt32} (h : count < limit) :
    (limit - (count + 1)).toNat + (count + 1).toNat = limit.toNat := by
  have hlt : count.toNat < limit.toNat := UInt32.lt_iff_toNat_lt.mp h
  have hle : count + 1 ≤ limit := by
    rw [UInt32.le_iff_toNat_le, toNat_succ h]
    exact hlt
  rw [UInt32.toNat_sub_of_le _ _ hle, toNat_succ h]
  omega

/-- Each window takes the call as a counting window does. -/
theorem toWindow_after (t : LimitType) :
    ((state.checkInternal config true now).2.window t).toWindow =
        (state.window t).toWindow.next t.duration (now, (state.checkInternal config true now).1.isAllowed) ∧
      Window.Admits t.duration (config.limit t).toNat (state.window t).toWindow
        (now, (state.checkInternal config true now).1.isAllowed) := by
  rcases check_cases config state now with ⟨hroom, hcheck⟩ | ⟨retryAfter, t', hcheck⟩
  · rw [hcheck]
    have hlt : ((state.window t).toWindow.roll t.duration now).count < (config.limit t).toNat := by
      rw [← toWindow_reset]
      exact UInt32.lt_iff_toNat_lt.mp (hroom t)
    refine ⟨?_, fun _ => hlt⟩
    have hcount := toNat_succ (hroom t)
    simp only [Window.next, RateLimitResult.isAllowed, if_true, ← toWindow_reset]
    cases t <;> exact congrArg (Window.mk _) hcount
  · rw [hcheck]
    exact ⟨toWindow_reset t, nofun⟩

end Call

/-! ## Runs -/

namespace Entry

/-- What the call is for a counting window. -/
def event (e : Entry) : Nat × Bool := (e.call.now, e.result.isAllowed)

/-- The call resets the window. -/
def Resets (t : LimitType) (e : Entry) : Prop := (e.before.window t).toWindow.Over t.duration e.call.now

/-- The call is allowed and comes in the interval of the length of the window that begins at `start`. -/
def allowedIn (t : LimitType) (start : Nat) (e : Entry) : Bool :=
  e.result.isAllowed && decide (start ≤ e.call.now ∧ e.call.now ≤ start + t.duration)

end Entry

section Runs

variable {limiter limiter' : RateLimiter} {key : Key} {config : ToolRateLimitConfig}

theorem history_cons (limiter : RateLimiter) (call : Call) (calls : List Call) : ∃ e : Entry,
    e.call = call ∧ e.before = limiter.entry call.key call.now ∧
      (e.result, e.after) = e.before.checkInternal call.config true call.now ∧
        history limiter (call :: calls) = e :: history (limiter.insert call.key e.after) calls :=
  ⟨_, rfl, rfl, rfl, rfl⟩

theorem history_calls : ∀ (calls : List Call) (limiter : RateLimiter),
    (history limiter calls).map (fun e => e.call) = calls
  | [], _ => rfl
  | call :: calls, limiter => by
    rw [history, List.map_cons, history_calls calls]

/-- Every call of a run stands there with its answer. -/
theorem mem_history {e : Entry} : ∀ {calls : List Call} {limiter : RateLimiter}, e ∈ history limiter calls →
    e.call ∈ calls ∧ (e.result, e.after) = e.before.checkInternal e.call.config true e.call.now
  | [], _, h => absurd h List.not_mem_nil
  | call :: calls, limiter, h => by
    obtain ⟨e', rfl, hbefore, hchecked, hhistory⟩ := history_cons limiter call calls
    rw [hhistory] at h
    rcases List.mem_cons.mp h with rfl | h
    · exact ⟨List.mem_cons_self, hchecked⟩
    · exact ⟨List.mem_cons_of_mem _ (mem_history h).1, (mem_history h).2⟩

/-- The run of the calls of a key depends on its own state only. -/
theorem history_congr : ∀ {calls : List Call} {limiter limiter' : RateLimiter}, (∀ c ∈ calls, c.key = key) →
    limiter.lookup key = limiter'.lookup key → history limiter calls = history limiter' calls
  | [], _, _, _, _ => rfl
  | call :: calls, limiter, limiter', hkey, hlookup => by
    have hcall : call.key = key := hkey call List.mem_cons_self
    have hentry : limiter.entry call.key call.now = limiter'.entry call.key call.now := by
      rw [hcall, RateLimiter.entry, RateLimiter.entry, hlookup]
    have hrest : ∀ after, history (limiter.insert call.key after) calls =
      history (limiter'.insert call.key after) calls :=
      fun after => history_congr (fun c hc => hkey c (List.mem_cons_of_mem _ hc))
        (by rw [hcall, AList.lookup_insert, AList.lookup_insert])
    simp only [history, RateLimiter.checkAndRecord, hentry, hrest]

/-- **Keys do not affect each other**: the calls of a key are answered as if there were no others. -/
theorem history_filter (key : Key) : ∀ (calls : List Call) (limiter : RateLimiter),
    (history limiter calls).filter (fun e => e.call.key = key) = history limiter (calls.filter fun c => c.key = key)
  | [], _ => rfl
  | call :: calls, limiter => by
    have ih := history_filter key calls (limiter.checkAndRecord call).2
    by_cases hkey : call.key = key
    · rw [history, List.filter_cons_of_pos (by simpa using hkey), List.filter_cons_of_pos (by simpa using hkey),
        history, ih]
    · rw [history, List.filter_cons_of_neg (by simpa using hkey), List.filter_cons_of_neg (by simpa using hkey), ih]
      refine history_congr (fun c hc => of_decide_eq_true (List.mem_filter.mp hc).2) ?_
      exact AList.lookup_insert_ne fun h => hkey h.symm

/-- The window with which the calls of a key begin. -/
def firstWindow (limiter : RateLimiter) (key : Key) (t : LimitType) : List Call → Window
  | [] => ⟨0, 0⟩
  | call :: _ => ((limiter.entry key call.now).window t).toWindow

theorem firstWindow_new (key : Key) (t : LimitType) (calls : List Call) : (firstWindow .new key t calls).count = 0 := by
  cases calls with
  | nil => rfl
  | cons call calls => cases t <;> rfl

/-- **Counting windows.** In a run of the calls of a key with one config, each window is a counting window. -/
theorem run_windows (t : LimitType) : ∀ {calls : List Call} {limiter : RateLimiter}, (∀ c ∈ calls, c.key = key) →
    (∀ c ∈ calls, c.config = config) →
      Along (fun w (e : Entry) => w.next t.duration e.event)
        (fun w e => w = (e.before.window t).toWindow ∧ Window.Admits t.duration (config.limit t).toNat w e.event)
        (firstWindow limiter key t calls) (history limiter calls)
  | [], _, _, _ => trivial
  | call :: calls, limiter, hkey, hconfig => by
    obtain ⟨e, rfl, hbefore, hchecked, hhistory⟩ := history_cons limiter call calls
    have hcall : e.call.key = key := hkey _ List.mem_cons_self
    have ih := @run_windows t calls (limiter.insert e.call.key e.after)
      (fun c hc => hkey c (List.mem_cons_of_mem _ hc)) (fun c hc => hconfig c (List.mem_cons_of_mem _ hc))
    obtain ⟨hafter, hadmits⟩ := @toWindow_after config e.before e.call.now t
    rw [hconfig _ List.mem_cons_self] at hchecked
    rw [← hchecked] at hafter hadmits
    have hfirst : firstWindow limiter key t (e.call :: calls) = (e.before.window t).toWindow := by
      rw [firstWindow, hbefore, hcall]
    rw [hhistory, hfirst, along_cons]
    refine ⟨⟨rfl, hadmits⟩, ?_⟩
    cases calls with
    | nil => trivial
    | cons call' calls =>
      have hnext : firstWindow (limiter.insert e.call.key e.after) key t (call' :: calls) =
          (e.after.window t).toWindow := by
        rw [firstWindow, RateLimiter.entry, hcall, AList.lookup_insert, Option.getD_some]
      rw [hnext, hafter] at ih
      exact ih

end Runs

/-! ## The window law -/

section Law

variable {w : Window} {own : List Entry} {config : ToolRateLimitConfig} {t : LimitType}

/-- The windows of a run from a window on. -/
def Windows (config : ToolRateLimitConfig) (t : LimitType) : Window → List Entry → Prop :=
  Along (fun w (e : Entry) => w.next t.duration e.event)
    (fun w e => w = (e.before.window t).toWindow ∧ Window.Admits t.duration (config.limit t).toNat w e.event)

theorem Windows.admits (h : Windows config t w own) :
    Along (Window.next t.duration) (Window.Admits t.duration (config.limit t).toNat) w (own.map Entry.event) := by
  rw [along_map]
  exact along_imp (fun _ _ _ h => h.2) h

/-- Between two resets no more calls are allowed than the limit. -/
theorem allowed_between {seg : List Entry} (hcount : w.count ≤ (config.limit t).toNat) (h : Windows config t w own)
    (hseg : seg <:+: own) (hresets : ∀ e ∈ seg.tail, ¬e.Resets t) :
    seg.countP (fun e => e.result.isAllowed) ≤ (config.limit t).toNat := by
  obtain ⟨pre, post, rfl⟩ := hseg
  rw [Windows, List.append_assoc, along_append, along_append] at h
  obtain ⟨hpre, hmid, -⟩ := h
  cases seg with
  | nil => exact Nat.zero_le _
  | cons e seg =>
    have hfirst := run_inv (I := fun w => w.count ≤ (config.limit t).toNat)
      (fun _ _ hadmits hle => Window.next_count_le hle hadmits.2) pre hcount hpre
    generalize run (fun w (e : Entry) => w.next t.duration e.event) w pre = w' at hmid hfirst
    obtain ⟨⟨-, hadmits⟩, hrest⟩ := hmid
    have hover : Along (Window.next t.duration) (fun w e => ¬w.Over t.duration e.1) (w'.next t.duration e.event)
        (seg.map Entry.event) := by
      rw [along_map]
      refine along_imp (fun e' he' w'' hw'' => ?_) hrest
      rw [hw''.1]
      exact hresets e' he'
    have hhits := Window.hits_le _ (Window.next_count_le hfirst hadmits) (Windows.admits hrest) hover
    rw [Window.next_count, List.countP_map] at hhits
    rw [List.countP_cons]
    have hsame : seg.countP (Prod.snd ∘ Entry.event) = seg.countP fun e => e.result.isAllowed := rfl
    have hone : (if e.event.2 then 1 else 0) = if e.result.isAllowed then 1 else 0 := rfl
    omega

/-- In an interval of the length of the window no more calls are allowed than twice the limit. -/
theorem allowed_interval (hcount : w.count ≤ (config.limit t).toNat) (h : Windows config t w own)
    (hsorted : own.Pairwise fun a b => a.call.now ≤ b.call.now) (start : Nat) :
    own.countP (Entry.allowedIn t start) ≤ 2 * (config.limit t).toNat := by
  have hpos : 0 < t.duration := by cases t <;> decide
  have hevents : (own.map Entry.event).Pairwise fun a b => a.1 ≤ b.1 := List.pairwise_map.mpr hsorted
  have hle := Window.hits_interval_le hpos hcount start hevents h.admits
  rw [Window.hitsFrom, List.countP_map] at hle
  exact hle

/-- An allowed call tells what is left of the limits, and a denied one leaves the windows as they are once those that
are over are reset. -/
theorem checked_counts {e : Entry} {config : ToolRateLimitConfig}
    (h : (e.result, e.after) = e.before.checkInternal config true e.call.now) :
    (∀ remainingMinute remainingHour, e.result = .allowed remainingMinute remainingHour →
        remainingMinute.toNat + e.after.minuteWindow.count.toNat = config.requestsPerMinute.toNat ∧
          remainingHour.toNat + e.after.hourWindow.count.toNat = config.requestsPerHour.toNat) ∧
      (e.result.isAllowed = false → e.after = e.before.reset e.call.now) := by
  obtain ⟨call, before, result, after⟩ := e
  rcases check_cases config before call.now with ⟨hroom, hcheck⟩ | ⟨retryAfter, t, hcheck⟩
  · rw [hcheck] at h
    cases h
    refine ⟨fun remainingMinute remainingHour hresult => ?_, nofun⟩
    cases hresult
    exact ⟨toNat_remaining (hroom .perMinute), toNat_remaining (hroom .perHour)⟩
  · rw [hcheck] at h
    cases h
    exact ⟨nofun, fun _ => rfl⟩

/-- **The window law.** In any run of calls, those of one key with one config, at times that do not go back: they are
answered as if there were no others; between two resets of a window no more are allowed than its limit, and in an
interval of its length no more than twice the limit; what is left of the limits never underflows; a denied call takes no
place. -/
theorem window_law (calls : List Call) (key : Key) (config : ToolRateLimitConfig)
    (hconfig : ∀ c ∈ calls, c.key = key → c.config = config)
    (hsorted : (calls.filter fun c => c.key = key).Pairwise fun a b => a.now ≤ b.now) :
    let own := (history .new calls).filter fun e => e.call.key = key
    own = history .new (calls.filter fun c => c.key = key) ∧
      (∀ t : LimitType,
        (∀ seg, seg <:+: own → (∀ e ∈ seg.tail, ¬e.Resets t) →
          seg.countP (fun e => e.result.isAllowed) ≤ (config.limit t).toNat) ∧
        ∀ start, own.countP (Entry.allowedIn t start) ≤ 2 * (config.limit t).toNat) ∧
      (∀ e ∈ own, ∀ remainingMinute remainingHour, e.result = .allowed remainingMinute remainingHour →
        remainingMinute.toNat + e.after.minuteWindow.count.toNat = config.requestsPerMinute.toNat ∧
          remainingHour.toNat + e.after.hourWindow.count.toNat = config.requestsPerHour.toNat) ∧
      ∀ e ∈ own, e.result.isAllowed = false → e.after = e.before.reset e.call.now := by
  intro own
  have hown : own = history .new (calls.filter fun c => c.key = key) := history_filter key calls .new
  have hkeys : ∀ c ∈ calls.filter (fun c => c.key = key), c.key = key :=
    fun c hc => of_decide_eq_true (List.mem_filter.mp hc).2
  have hconfigs : ∀ c ∈ calls.filter (fun c => c.key = key), c.config = config :=
    fun c hc => hconfig c (List.mem_filter.mp hc).1 (hkeys c hc)
  have hchecked : ∀ e ∈ own, (e.result, e.after) = e.before.checkInternal config true e.call.now := by
    intro e he
    rw [hown] at he
    obtain ⟨hcall, hchecked⟩ := mem_history he
    rw [hconfigs _ hcall] at hchecked
    exact hchecked
  have hwindows : ∀ t, Windows config t (firstWindow .new key t (calls.filter fun c => c.key = key)) own := by
    intro t
    rw [hown]
    exact run_windows t hkeys hconfigs
  have hcount : ∀ t, (firstWindow .new key t (calls.filter fun c => c.key = key)).count ≤ (config.limit t).toNat := by
    intro t
    rw [firstWindow_new]
    exact Nat.zero_le _
  have htimes : own.Pairwise fun a b => a.call.now ≤ b.call.now := by
    rw [← history_calls (calls.filter fun c => c.key = key) .new, ← hown, List.pairwise_map] at hsorted
    exact hsorted
  refine ⟨hown, fun t => ⟨fun seg hseg hresets => ?_, fun start => ?_⟩, fun e he => ?_, fun e he => ?_⟩
  · exact allowed_between (hcount t) (hwindows t) hseg hresets
  · exact allowed_interval (hcount t) (hwindows t) htimes start
  · exact (checked_counts (hchecked e he)).1
  · exact (checked_counts (hchecked e he)).2

end Law

/-- A call of one tool, at a time in seconds. -/
def shellCall (config : ToolRateLimitConfig) (seconds : Nat) : Call :=
  ⟨"sam".toList, "shell".toList, config, seconds * SECOND⟩

/-- Two calls at the end of an hour, one after it. -/
def hourOver : List Call := [0, 3590, 3600].map (shellCall ⟨1, 5⟩)

theorem window_law_hourOver :
    ((history .new hourOver).filter fun e => e.call.key = ("sam".toList, "shell".toList)).countP
      (Entry.allowedIn .perMinute (3590 * SECOND)) ≤ 2 * 1 :=
  ((window_law hourOver ("sam".toList, "shell".toList) ⟨1, 5⟩ (by decide) (by decide)).2.1 .perMinute).2 (3590 * SECOND)

/-- The last call is denied by the window of the minute, and the window of the hour, which is over, loses its count. -/
theorem denied_call_resets : ∃ e ∈ history .new hourOver, e.result = .limited (50 * SECOND) .perMinute ∧
    e.before.hourWindow.count = 2 ∧ e.after.hourWindow.count = 0 := by
  decide

end Ironclaw.Tools

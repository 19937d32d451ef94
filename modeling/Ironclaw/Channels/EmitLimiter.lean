import Ironclaw.Lib.Window

/-!
# The rate limiter of the messages of a channel

`ChannelEmitRateLimiter::check_and_record` asks a window of a minute and one of an hour, and each takes a place when it
has one, whatever the other says: a message that one of them denies is charged to the other. Times are in milliseconds.

- `checkAndRecord_cases`: what a window answers and leaves;
- `recorded`: each of the two windows is a counting window, of its own answers;
- `granted_between`: the bound between two resets;
- `Emit.Checked.free_iff`: which denied messages are not charged;
- `emitLaw_iff`: the law for whole runs.
-/

namespace Ironclaw.Channels

open Run

structure EmitRateLimitConfig where
  messagesPerMinute : UInt32
  messagesPerHour : UInt32
  deriving DecidableEq

structure RateWindow where
  count : UInt32
  windowStart : Nat
  windowDurationMs : Nat
  deriving DecidableEq

namespace RateWindow

def new (durationMs : Nat) : RateWindow := ⟨0, 0, durationMs⟩

def Expired (w : RateWindow) (nowMs : Nat) : Prop := w.windowDurationMs < nowMs - w.windowStart

instance (w : RateWindow) (nowMs : Nat) : Decidable (w.Expired nowMs) :=
  inferInstanceAs (Decidable (w.windowDurationMs < nowMs - w.windowStart))

/-- The window is reset when it is expired. -/
def reset (w : RateWindow) (nowMs : Nat) : RateWindow :=
  if w.Expired nowMs then { w with count := 0, windowStart := nowMs } else w

def checkAndRecord (w : RateWindow) (nowMs : Nat) (limit : UInt32) : Bool × RateWindow :=
  let w := w.reset nowMs
  if limit ≤ w.count then (false, w) else (true, { w with count := w.count + 1 })

end RateWindow

structure ChannelEmitRateLimiter where
  config : EmitRateLimitConfig
  minuteWindow : RateWindow
  hourWindow : RateWindow
  deriving DecidableEq

namespace ChannelEmitRateLimiter

def new (config : EmitRateLimitConfig) : ChannelEmitRateLimiter := ⟨config, .new 60000, .new 3600000⟩

def checkAndRecord (limiter : ChannelEmitRateLimiter) (now : Nat) : Bool × ChannelEmitRateLimiter :=
  let minute := limiter.minuteWindow.checkAndRecord now limiter.config.messagesPerMinute
  let hour := limiter.hourWindow.checkAndRecord now limiter.config.messagesPerHour
  (minute.1 && hour.1, { limiter with minuteWindow := minute.2, hourWindow := hour.2 })

end ChannelEmitRateLimiter

/-- A message with its answer, and the limiter before and after it. -/
structure Emit where
  now : Nat
  before : ChannelEmitRateLimiter
  granted : Bool
  after : ChannelEmitRateLimiter
  deriving DecidableEq

/-- What happens at these times. -/
def emits (limiter : ChannelEmitRateLimiter) : List Nat → List Emit
  | [] => []
  | now :: times =>
    let checked := limiter.checkAndRecord now
    ⟨now, limiter, checked.1, checked.2⟩ :: emits checked.2 times

/-! ## What is asked of the limiter -/

inductive Period
  | minute
  | hour
  deriving DecidableEq

def Period.durationMs : Period → Nat
  | .minute => 60000
  | .hour => 3600000

def EmitRateLimitConfig.limit (config : EmitRateLimitConfig) : Period → UInt32
  | .minute => config.messagesPerMinute
  | .hour => config.messagesPerHour

def ChannelEmitRateLimiter.window (limiter : ChannelEmitRateLimiter) : Period → RateWindow
  | .minute => limiter.minuteWindow
  | .hour => limiter.hourWindow

namespace Emit

variable (e : Emit) (p : Period)

/-- The message resets the window. -/
def Resets : Prop := (e.before.window p).Expired e.now

/-- The window has no place for the message. -/
def Exhausted : Prop := e.before.config.limit p ≤ ((e.before.window p).reset e.now).count

instance : Decidable (e.Exhausted p) :=
  inferInstanceAs (Decidable (e.before.config.limit p ≤ ((e.before.window p).reset e.now).count))

end Emit

/-- The law of the limiter: no more messages are granted between two resets of a window than its limit; a denied message
leaves both windows as they are without it; and it is denied only when the messages granted since the last reset of one
of the windows have exhausted it. -/
structure EmitLaw (config : EmitRateLimitConfig) (es : List Emit) : Prop where
  bounded : ∀ p seg, seg <:+: es → (∀ e ∈ seg.tail, ¬e.Resets p) →
    seg.countP (fun e => e.granted) ≤ (config.limit p).toNat
  free : ∀ e ∈ es, e.granted = false → ∀ p, e.after.window p = (e.before.window p).reset e.now
  denied : ∀ pre e post, es = pre ++ e :: post → e.granted = false → ∃ p seg, seg <:+ pre ∧
    (∀ x ∈ (seg ++ [e]).tail, ¬x.Resets p) ∧ (config.limit p).toNat ≤ seg.countP fun e => e.granted

/-! ## One window -/

namespace RateWindow

def toWindow (w : RateWindow) : Window := ⟨w.windowStart, w.count.toNat⟩

variable {w : RateWindow} {nowMs : Nat} {limit : UInt32}

theorem expired_iff : w.Expired nowMs ↔ w.toWindow.Over (w.windowDurationMs + 1) nowMs := Iff.rfl

theorem toWindow_reset : (w.reset nowMs).toWindow = w.toWindow.roll (w.windowDurationMs + 1) nowMs := by
  unfold reset
  split
  next hover => exact (Window.roll_of_over (w := w.toWindow) hover).symm
  next hover => exact (Window.roll_of_not_over (w := w.toWindow) hover).symm

theorem windowDurationMs_reset : (w.reset nowMs).windowDurationMs = w.windowDurationMs := by
  unfold reset
  split <;> rfl

/-- A count below a limit has a successor. -/
theorem toNat_succ_of_lt {count limit : UInt32} (h : count < limit) : (count + 1).toNat = count.toNat + 1 := by
  have hlt := UInt32.lt_iff_toNat_lt.mp h
  have hsize := limit.toNat_lt
  rw [UInt32.toNat_add, UInt32.toNat_one]
  omega

theorem checkAndRecord_cases (w : RateWindow) (nowMs : Nat) (limit : UInt32) :
    limit ≤ (w.reset nowMs).count ∧ w.checkAndRecord nowMs limit = (false, w.reset nowMs) ∨
      (w.reset nowMs).count < limit ∧ w.checkAndRecord nowMs limit =
        (true, { w.reset nowMs with count := (w.reset nowMs).count + 1 }) := by
  simp only [checkAndRecord]
  split
  next hfull => exact .inl ⟨hfull, rfl⟩
  next hroom => exact .inr ⟨UInt32.not_le.mp hroom, rfl⟩

/-- A window denies when it is exhausted. -/
theorem checkAndRecord_fst : (w.checkAndRecord nowMs limit).1 = false ↔ limit ≤ (w.reset nowMs).count := by
  rcases checkAndRecord_cases w nowMs limit with ⟨hfull, hcheck⟩ | ⟨hroom, hcheck⟩
  · rw [hcheck]
    exact ⟨fun _ => hfull, fun _ => rfl⟩
  · rw [hcheck]
    exact ⟨nofun, fun hfull => absurd hroom (UInt32.not_lt.mpr hfull)⟩

/-- A window that denies is not charged, and one that grants is. -/
theorem checkAndRecord_snd : (w.checkAndRecord nowMs limit).2 = w.reset nowMs ↔ limit ≤ (w.reset nowMs).count := by
  rcases checkAndRecord_cases w nowMs limit with ⟨hfull, hcheck⟩ | ⟨hroom, hcheck⟩
  · rw [hcheck]
    exact ⟨fun _ => hfull, fun _ => rfl⟩
  · rw [hcheck]
    refine ⟨fun hsame => ?_, fun hfull => absurd hroom (UInt32.not_lt.mpr hfull)⟩
    have hcount : (w.reset nowMs).count + 1 = (w.reset nowMs).count := congrArg RateWindow.count hsame
    have hsucc := toNat_succ_of_lt hroom
    rw [hcount] at hsucc
    omega

/-- Each window is a counting window of its own answers. -/
theorem toWindow_checkAndRecord : (w.checkAndRecord nowMs limit).2.toWindow =
      w.toWindow.next (w.windowDurationMs + 1) (nowMs, (w.checkAndRecord nowMs limit).1) ∧
    Window.Admits (w.windowDurationMs + 1) limit.toNat w.toWindow (nowMs, (w.checkAndRecord nowMs limit).1) ∧
    (w.checkAndRecord nowMs limit).2.windowDurationMs = w.windowDurationMs := by
  have hduration : (w.reset nowMs).windowDurationMs = w.windowDurationMs := windowDurationMs_reset
  rcases checkAndRecord_cases w nowMs limit with ⟨-, hcheck⟩ | ⟨hroom, hcheck⟩
  · rw [hcheck]
    exact ⟨toWindow_reset, nofun, hduration⟩
  · rw [hcheck]
    refine ⟨?_, fun _ => ?_, hduration⟩
    · simp only [Window.next, if_true, ← toWindow_reset]
      exact congrArg (Window.mk _) (toNat_succ_of_lt hroom)
    · rw [← toWindow_reset]
      exact UInt32.lt_iff_toNat_lt.mp hroom

end RateWindow

/-! ## One message -/

namespace Emit

/-- The answer of one window. -/
def ok (p : Period) (e : Emit) : Bool := ((e.before.window p).checkAndRecord e.now (e.before.config.limit p)).1

/-- What the message is for a counting window. -/
def event (p : Period) (e : Emit) : Nat × Bool := (e.now, e.ok p)

/-- The message is checked by this limiter with these durations. -/
structure Checked (config : EmitRateLimitConfig) (e : Emit) : Prop where
  config : e.before.config = config
  duration : ∀ p, (e.before.window p).windowDurationMs = p.durationMs
  checked : (e.granted, e.after) = e.before.checkAndRecord e.now

variable {config : EmitRateLimitConfig} {e : Emit} {p : Period}

theorem ok_eq_false_iff : e.ok p = false ↔ e.Exhausted p := RateWindow.checkAndRecord_fst

theorem Checked.granted (h : e.Checked config) : e.granted = (e.ok .minute && e.ok .hour) := congrArg Prod.fst h.checked

theorem Checked.after (h : e.Checked config) (p : Period) :
    e.after.window p = ((e.before.window p).checkAndRecord e.now (e.before.config.limit p)).2 := by
  have hafter : e.after = (e.before.checkAndRecord e.now).2 := congrArg Prod.snd h.checked
  rw [hafter]
  cases p <;> rfl

theorem Checked.resets (h : e.Checked config) :
    e.Resets p ↔ (e.before.window p).toWindow.Over (p.durationMs + 1) (e.event p).1 := by
  rw [← h.duration p]
  exact RateWindow.expired_iff

/-- A window takes the message as a counting window does. -/
theorem Checked.next (h : e.Checked config) (p : Period) :
    (e.after.window p).toWindow = (e.before.window p).toWindow.next (p.durationMs + 1) (e.event p) ∧
      Window.Admits (p.durationMs + 1) (config.limit p).toNat (e.before.window p).toWindow (e.event p) := by
  obtain ⟨hnext, hadmits, -⟩ := @RateWindow.toWindow_checkAndRecord (e.before.window p) e.now (e.before.config.limit p)
  rw [h.duration p] at hnext hadmits
  exact ⟨(congrArg RateWindow.toWindow (h.after p)).trans hnext, h.config ▸ hadmits⟩

/-- **Denied messages.** A denied message is charged to no window exactly when both windows are exhausted. -/
theorem Checked.free_iff (h : e.Checked config) :
    (e.granted = false → ∀ p, e.after.window p = (e.before.window p).reset e.now) ↔
      (e.Exhausted .minute ↔ e.Exhausted .hour) := by
  have hafter : ∀ p, e.after.window p = (e.before.window p).reset e.now ↔ e.Exhausted p := by
    intro p
    rw [h.after p]
    exact RateWindow.checkAndRecord_snd
  have hgranted : e.granted = false ↔ e.Exhausted .minute ∨ e.Exhausted .hour := by
    rw [h.granted, Bool.and_eq_false_iff, ok_eq_false_iff, ok_eq_false_iff]
  rw [hgranted]
  constructor
  · intro hfree
    exact ⟨fun hminute => (hafter .hour).mp (hfree (.inl hminute) .hour),
      fun hhour => (hafter .minute).mp (hfree (.inr hhour) .minute)⟩
  · intro hsame hdenied p
    refine (hafter p).mpr ?_
    have hboth : e.Exhausted .minute ∧ e.Exhausted .hour := by
      rcases hdenied with hminute | hhour
      · exact ⟨hminute, hsame.mp hminute⟩
      · exact ⟨hsame.mpr hhour, hhour⟩
    cases p with
    | minute => exact hboth.1
    | hour => exact hboth.2

end Emit

/-! ## Runs -/

section Runs

variable {config : EmitRateLimitConfig}

/-- Every message of a run is checked, and each window is the counting window of its answers. -/
theorem recorded (p : Period) : ∀ (times : List Nat) {limiter : ChannelEmitRateLimiter}, limiter.config = config →
    (∀ p, (limiter.window p).windowDurationMs = p.durationMs) →
    (∀ e ∈ emits limiter times, e.Checked config) ∧
      Window.Recorded (p.durationMs + 1) (fun e : Emit => (e.before.window p).toWindow) (Emit.event p)
        (limiter.window p).toWindow (emits limiter times)
  | [], _, _, _ => ⟨nofun, trivial⟩
  | now :: times, limiter, hconfig, hduration => by
    have hfirst : Emit.Checked config ⟨now, limiter, (limiter.checkAndRecord now).1, (limiter.checkAndRecord now).2⟩ :=
      ⟨hconfig, hduration, rfl⟩
    have hdurations : ∀ p, ((limiter.checkAndRecord now).2.window p).windowDurationMs = p.durationMs := by
      intro p
      rw [hfirst.after p, RateWindow.toWindow_checkAndRecord.2.2]
      exact hduration p
    have hnext : (limiter.checkAndRecord now).2.config = config := hconfig
    have ih := recorded p times hnext hdurations
    refine ⟨fun e he => ?_, rfl, ?_⟩
    · rcases List.mem_cons.mp he with rfl | he
      · exact hfirst
      · exact ih.1 e he
    · have hrest := ih.2
      rw [show ((limiter.checkAndRecord now).2.window p).toWindow = _ from (hfirst.next p).1] at hrest
      exact hrest

theorem new_durations (config : EmitRateLimitConfig) (p : Period) :
    ((ChannelEmitRateLimiter.new config).window p).windowDurationMs = p.durationMs := by
  cases p <;> rfl

theorem new_count (config : EmitRateLimitConfig) (p : Period) :
    ((ChannelEmitRateLimiter.new config).window p).toWindow.count = 0 := by
  cases p <;> rfl

theorem recorded_new (config : EmitRateLimitConfig) (times : List Nat) (p : Period) :
    (∀ e ∈ emits (.new config) times, e.Checked config) ∧
      Window.Recorded (p.durationMs + 1) (fun e : Emit => (e.before.window p).toWindow) (Emit.event p)
        ((ChannelEmitRateLimiter.new config).window p).toWindow (emits (.new config) times) :=
  recorded p times rfl (new_durations config)

/-- **Between two resets** of a window no more messages are granted than its limit, charged or not. -/
theorem granted_between (times : List Nat) (p : Period) {seg : List Emit} (hseg : seg <:+: emits (.new config) times)
    (hresets : ∀ e ∈ seg.tail, ¬e.Resets p) : seg.countP (fun e => e.granted) ≤ (config.limit p).toNat := by
  obtain ⟨hchecked, hrecorded⟩ := recorded_new config times p
  have hok : seg.countP (fun e => (e.event p).2) ≤ (config.limit p).toNat := by
    refine Window.hits_between ?_ hrecorded (fun e he => ((hchecked e he).next p).2) hseg fun e he => ?_
    · rw [new_count]
      exact Nat.zero_le _
    · exact fun hover => hresets e he ((hchecked e (hseg.subset (List.mem_of_mem_tail he))).resets.mpr hover)
  refine le_trans (List.countP_mono_left fun e he hgranted => ?_) hok
  rw [(hchecked e (hseg.subset he)).granted, Bool.and_eq_true] at hgranted
  cases p with
  | minute => exact hgranted.1
  | hour => exact hgranted.2

/-- When no denied message was charged, one is denied only when the granted ones have exhausted a window. -/
theorem denied_of_exhausted (times : List Nat) {pre post : List Emit} {e : Emit}
    (hsplit : emits (.new config) times = pre ++ e :: post)
    (hsame : ∀ e ∈ pre, (e.Exhausted .minute ↔ e.Exhausted .hour)) (hdenied : e.granted = false) :
    ∃ p seg, seg <:+ pre ∧ (∀ x ∈ (seg ++ [e]).tail, ¬x.Resets p) ∧
      (config.limit p).toNat ≤ seg.countP fun e => e.granted := by
  have hchecked : ∀ e' ∈ pre ++ e :: post, e'.Checked config := hsplit ▸ (recorded_new config times .minute).1
  have he := hchecked e (by simp)
  -- the window that denies
  obtain ⟨p, hp⟩ : ∃ p, e.Exhausted p := by
    rw [he.granted, Bool.and_eq_false_iff, Emit.ok_eq_false_iff, Emit.ok_eq_false_iff] at hdenied
    rcases hdenied with hminute | hhour
    · exact ⟨.minute, hminute⟩
    · exact ⟨.hour, hhour⟩
  have hlimit : (config.limit p).toNat ≤ ((e.before.window p).toWindow.roll (p.durationMs + 1) e.now).count := by
    rw [← he.duration p, ← RateWindow.toWindow_reset, ← he.config]
    exact UInt32.le_iff_toNat_le.mp hp
  by_cases hover : (e.before.window p).toWindow.Over (p.durationMs + 1) e.now
  · -- a fresh window denies only when its limit is zero
    rw [Window.roll_of_over hover] at hlimit
    exact ⟨p, [], List.nil_suffix, nofun, hlimit.trans (Nat.zero_le _)⟩
  · rw [Window.roll_of_not_over hover] at hlimit
    have hrecorded := hsplit ▸ (recorded_new config times p).2
    obtain ⟨hpre, hlast, -⟩ := (along_append pre _ (e :: post)).mp hrecorded
    obtain ⟨seg, hseg, hresets, hcount⟩ := Window.exists_since_reset (new_count config p) pre hpre
    rw [hlast] at hcount
    have hmem : ∀ x ∈ seg, x ∈ pre ++ e :: post := fun x hx => List.mem_append_left _ (hseg.subset hx)
    have hgranted : seg.countP (fun e => (e.event p).2) = seg.countP fun e => e.granted := by
      refine List.countP_congr fun x hx => ?_
      have hx' := hchecked x (hmem x hx)
      have hboth := hsame x (hseg.subset hx)
      rw [← Emit.ok_eq_false_iff, ← Emit.ok_eq_false_iff] at hboth
      rw [hx'.granted]
      show x.ok p = true ↔ _
      cases p <;> cases hm : x.ok .minute <;> cases hh : x.ok .hour <;> simp_all
    refine ⟨p, seg, hseg, ?_, ?_⟩
    · cases seg with
      | nil => exact nofun
      | cons a seg =>
        intro x hx
        rcases List.mem_append.mp hx with hx | hx
        · exact fun h => hresets x hx ((hchecked x (hmem x (List.mem_cons_of_mem a hx))).resets.mp h)
        · rw [List.mem_singleton.mp hx]
          exact fun h => hover (he.resets.mp h)
    · rw [← hgranted, ← hcount]
      exact hlimit

/-- **The law of the limiter** holds in a run if and only if, whenever a message comes, both windows are exhausted or
neither is. -/
theorem emitLaw_iff (config : EmitRateLimitConfig) (times : List Nat) : EmitLaw config (emits (.new config) times) ↔
    ∀ e ∈ emits (.new config) times, (e.Exhausted .minute ↔ e.Exhausted .hour) := by
  have hchecked := (recorded_new config times .minute).1
  constructor
  · exact fun h e he => (hchecked e he).free_iff.mp (h.free e he)
  · refine fun hsame =>
      ⟨fun p seg => granted_between times p, fun e he => (hchecked e he).free_iff.mpr (hsame e he), ?_⟩
    intro pre e post hsplit
    exact denied_of_exhausted times hsplit fun x hx => hsame x (hsplit ▸ List.mem_append_left _ hx)

end Runs

/-- One message a minute and two an hour: the message that the minute denies takes the place of the one that comes after
the minute. -/
theorem denied_message_is_charged :
    (emits (.new ⟨1, 2⟩) [1700000000000, 1700000000000, 1700000060001]).map (fun e => e.granted) =
      [true, false, false] ∧
      ¬EmitLaw ⟨1, 2⟩ (emits (.new ⟨1, 2⟩) [1700000000000, 1700000000000, 1700000060001]) := by
  refine ⟨by decide, fun h => ?_⟩
  have hfree := h.free ((emits (.new ⟨1, 2⟩) [1700000000000, 1700000000000, 1700000060001]).get ⟨1, by decide⟩)
    (List.get_mem _ _) (by decide) .hour
  exact absurd hfree (by decide)

end Ironclaw.Channels

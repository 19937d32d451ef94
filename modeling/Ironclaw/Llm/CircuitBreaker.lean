import Ironclaw.Lib.Run

/-!
# The circuit breaker

`CircuitBreakerProvider`: each call asks for admission, and later records its success or its failure, each under the
lock of the breaker. Any number of calls are under way, so a call may end in another state of the breaker than the one
in which it was admitted.

- `Tracked`: what the log says in each state of the breaker;
- `inv_begin`, `inv_succeed`, `inv_fail`: it stays true, as long as only probes count as probes;
- `recovery_discipline`: in such a run the breaker closes only after the time of recovery and enough probes.
-/

namespace Ironclaw.Llm.CircuitBreaker

open Run

structure CircuitBreakerConfig where
  failureThreshold : Nat
  recoveryTimeout : Nat
  halfOpenSuccessesNeeded : Nat

inductive CircuitState
  | closed
  | open
  | halfOpen
  deriving DecidableEq

structure BreakerState where
  state : CircuitState
  consecutiveFailures : Nat
  openedAt : Option Nat
  halfOpenSuccesses : Nat
  deriving DecidableEq

/-- The errors of a provider. -/
inductive LlmError
  | requestFailed
  | rateLimited
  | invalidResponse
  | emptyResponse
  | contextLengthExceeded
  | modelNotAvailable
  | authFailed
  | sessionExpired
  | sessionRenewalFailed
  | http
  | json
  | io
  deriving DecidableEq

/-- The error shows that the provider is degraded. -/
def isTransient : LlmError → Bool
  | .requestFailed | .rateLimited | .invalidResponse | .emptyResponse | .sessionExpired | .sessionRenewalFailed | .http
  | .io => true
  | .contextLengthExceeded | .modelNotAvailable | .authFailed | .json => false

/-- A refusal, with the failures and the time that is left, which its message names. -/
structure Refused where
  consecutiveFailures : Nat
  remaining : Nat
  deriving DecidableEq

namespace BreakerState

def new : BreakerState := ⟨.closed, 0, none, 0⟩

variable (config : CircuitBreakerConfig) (now : Nat) (b : BreakerState)

/-- `check_allowed`. -/
def checkAllowed : Except Refused BreakerState :=
  match b.state with
  | .closed | .halfOpen => .ok b
  | .open =>
    match b.openedAt with
    | some openedAt =>
      if config.recoveryTimeout ≤ now - openedAt then .ok { b with state := .halfOpen, halfOpenSuccesses := 0 }
      else .error ⟨b.consecutiveFailures, config.recoveryTimeout - (now - openedAt)⟩
    | none => .ok { b with state := .closed }

/-- `record_success`; with debug assertions, a success in the open state ends the call with a panic. -/
def recordSuccess (debugAssertions : Bool) : BreakerState :=
  match b.state with
  | .closed => { b with consecutiveFailures := 0 }
  | .halfOpen =>
    if config.halfOpenSuccessesNeeded ≤ b.halfOpenSuccesses + 1 then
      { b with
        state := .closed
        consecutiveFailures := 0
        openedAt := none
        halfOpenSuccesses := b.halfOpenSuccesses + 1 }
    else { b with halfOpenSuccesses := b.halfOpenSuccesses + 1 }
  | .open => if debugAssertions then b else { b with state := .closed, consecutiveFailures := 0, openedAt := none }

/-- `record_failure`. -/
def recordFailure (err : LlmError) : BreakerState :=
  if isTransient err then
    match b.state with
    | .closed =>
      if config.failureThreshold ≤ b.consecutiveFailures + 1 then
        { b with state := .open, consecutiveFailures := b.consecutiveFailures + 1, openedAt := some now }
      else { b with consecutiveFailures := b.consecutiveFailures + 1 }
    | .halfOpen => { b with state := .open, openedAt := some now, halfOpenSuccesses := 0 }
    | .open => b
  else b

end BreakerState

/-! ## Interleavings -/

/-- What happened: the breaker went to a state at a time, or a call that was admitted in a state succeeded. -/
inductive Event
  | moved (state : CircuitState) (time : Nat)
  | succeeded (admitted : CircuitState)
  deriving DecidableEq

/-- The breaker, the clock and, for each call under way, the state in which it was admitted; the log has the last event
first. -/
structure World where
  breaker : BreakerState
  clock : Nat
  calls : List CircuitState
  log : List Event
  deriving DecidableEq

/-- Time passes, a call asks for admission, or a call under way ends. -/
inductive Label
  | tick (d : Nat)
  | begin
  | succeed (i : Nat)
  | fail (i : Nat) (err : LlmError)
  deriving DecidableEq

def initial : World := ⟨.new, 0, [], []⟩

/-- The breaker changes; a change of its state is noted. -/
def World.become (w : World) (b : BreakerState) : World :=
  { w with breaker := b, log := if b.state = w.breaker.state then w.log else .moved b.state w.clock :: w.log }

section Step

variable (config : CircuitBreakerConfig) (debugAssertions : Bool)

def step (w : World) : Label → World
  | .tick d => { w with clock := w.clock + d }
  | .begin =>
    match w.breaker.checkAllowed config w.clock with
    | .error _ => w
    | .ok b => { w.become b with calls := w.calls ++ [b.state] }
  | .succeed i =>
    match w.calls[i]? with
    | none => w
    | some admitted =>
      { w with calls := w.calls.eraseIdx i, log := .succeeded admitted :: w.log }.become
        (w.breaker.recordSuccess config debugAssertions)
  | .fail i err =>
    match w.calls[i]? with
    | none => w
    | some _ => { w with calls := w.calls.eraseIdx i }.become (w.breaker.recordFailure config w.clock err)

/-- A call that succeeds while the breaker is half open was admitted there, and none succeeds while it is open, unless
that ends in a panic. -/
def OnlyProbes (w : World) : Label → Prop
  | .succeed i => ∀ admitted ∈ w.calls[i]?,
    (w.breaker.state = .halfOpen → admitted = .halfOpen) ∧ (w.breaker.state = .open → debugAssertions = true)
  | _ => True

end Step

/-! ## The discipline -/

/-- Since the breaker was last opened, at this time, it has not moved. -/
def Opened (log : List Event) (time : Nat) : Prop :=
  ∃ since before, log = since ++ .moved .open time :: before ∧ ∀ state t, .moved state t ∉ since

/-- The breaker was opened, it went half open no sooner than after the timeout, and since then the calls that succeeded,
as many as this, were admitted while it was half open. -/
def Probed (config : CircuitBreakerConfig) (log : List Event) (successes : Nat) : Prop :=
  ∃ probes before opened time, log = probes ++ .moved .halfOpen time :: before ∧ Opened before opened ∧
    opened + config.recoveryTimeout ≤ time ∧ probes.length = successes ∧ ∀ e ∈ probes, e = .succeeded .halfOpen

/-- Whenever the breaker closed, enough probes had succeeded. -/
def Disciplined (config : CircuitBreakerConfig) (log : List Event) : Prop :=
  ∀ after before time, log = after ++ .moved .closed time :: before →
    ∃ successes, config.halfOpenSuccessesNeeded ≤ successes ∧ Probed config before successes

/-- What the log says in a state of the breaker. -/
def Tracked (config : CircuitBreakerConfig) (w : World) : Prop :=
  match w.breaker.state with
  | .closed => True
  | .open => ∃ time, w.breaker.openedAt = some time ∧ time ≤ w.clock ∧ Opened w.log time
  | .halfOpen => Probed config w.log w.breaker.halfOpenSuccesses

/-- The invariant of the runs in which only probes count as probes. -/
structure Inv (config : CircuitBreakerConfig) (w : World) : Prop where
  tracked : Tracked config w
  disciplined : Disciplined config w.log

section Runs

variable {config : CircuitBreakerConfig} {log : List Event} {w : World}

theorem disciplined_cons {e : Event} (h : Disciplined config log) (he : ∀ time, e = .moved .closed time →
    ∃ successes, config.halfOpenSuccessesNeeded ≤ successes ∧ Probed config log successes) :
    Disciplined config (e :: log) := by
  intro after before time heq
  cases after with
  | nil =>
    obtain ⟨hhead, rfl⟩ := List.cons.inj heq
    exact he time hhead
  | cons e' after => exact h after before time (List.cons.inj heq).2

/-- The breaker has just been opened. -/
theorem opened_now (log : List Event) (time : Nat) : Opened (.moved .open time :: log) time := ⟨[], log, rfl, nofun⟩

theorem Opened.succeeded {time : Nat} (h : Opened log time) (admitted : CircuitState) :
    Opened (.succeeded admitted :: log) time := by
  obtain ⟨since, before, rfl, hsince⟩ := h
  refine ⟨.succeeded admitted :: since, before, rfl, fun state t hmem => ?_⟩
  obtain heq | hmem := List.mem_cons.mp hmem
  · cases heq
  · exact hsince state t hmem

/-- The breaker has just gone half open. -/
theorem probed_none {opened time : Nat} (h : Opened log opened) (htime : opened + config.recoveryTimeout ≤ time) :
    Probed config (.moved .halfOpen time :: log) 0 := ⟨[], log, opened, time, rfl, h, htime, rfl, nofun⟩

theorem Probed.succeeded {n : Nat} (h : Probed config log n) : Probed config (.succeeded .halfOpen :: log) (n + 1) := by
  obtain ⟨probes, before, opened, time, rfl, hopened, htime, rfl, hall⟩ := h
  exact ⟨.succeeded .halfOpen :: probes, before, opened, time, rfl, hopened, htime, rfl,
    List.forall_mem_cons.mpr ⟨rfl, hall⟩⟩

theorem inv_begin (h : Inv config w) (debugAssertions : Bool) : Inv config (step config debugAssertions w .begin) := by
  obtain ⟨htracked, hdisciplined⟩ := h
  obtain ⟨⟨state, failures, openedAt, successes⟩, clock, calls, log⟩ := w
  cases state with
  | closed => exact ⟨htracked, hdisciplined⟩
  | halfOpen => exact ⟨htracked, hdisciplined⟩
  | «open» =>
    obtain ⟨time, htime, hle, hopened⟩ := htracked
    cases htime
    have hle : time ≤ clock := hle
    by_cases hover : config.recoveryTimeout ≤ clock - time
    · have htimeout : time + config.recoveryTimeout ≤ clock := by omega
      simp only [step, BreakerState.checkAllowed, if_pos hover, World.become, reduceCtorEq, if_false]
      exact ⟨probed_none hopened htimeout, disciplined_cons hdisciplined nofun⟩
    · simp only [step, BreakerState.checkAllowed, if_neg hover]
      exact ⟨⟨time, rfl, hle, hopened⟩, hdisciplined⟩

/-- A success where only probes count: it is noted, and the last probe closes the breaker. -/
theorem inv_succeed (h : Inv config w) (debugAssertions : Bool) (i : Nat)
    (hprobes : OnlyProbes debugAssertions w (.succeed i)) :
      Inv config (step config debugAssertions w (.succeed i)) := by
  rw [step]
  cases hcall : w.calls[i]? with
  | none => exact h
  | some admitted =>
    obtain ⟨hhalfOpen, hopen⟩ := hprobes admitted hcall
    clear hprobes hcall
    obtain ⟨htracked, hdisciplined⟩ := h
    obtain ⟨⟨state, failures, openedAt, successes⟩, clock, calls, log⟩ := w
    have hnoted : Disciplined config (.succeeded admitted :: log) := disciplined_cons hdisciplined nofun
    cases state with
    | closed => exact ⟨trivial, hnoted⟩
    | halfOpen =>
      obtain rfl := hhalfOpen rfl
      have hprobed : Probed config (.succeeded .halfOpen :: log) (successes + 1) := htracked.succeeded
      by_cases henough : config.halfOpenSuccessesNeeded ≤ successes + 1
      · simp only [BreakerState.recordSuccess, if_pos henough, World.become, reduceCtorEq, if_false]
        exact ⟨trivial, disciplined_cons hnoted fun _ _ => ⟨successes + 1, henough, hprobed⟩⟩
      · simp only [BreakerState.recordSuccess, if_neg henough, World.become, if_true]
        exact ⟨hprobed, hnoted⟩
    | «open» =>
      obtain ⟨time, htime, hle, hopened⟩ := htracked
      obtain rfl := hopen rfl
      exact ⟨⟨time, htime, hle, hopened.succeeded admitted⟩, hnoted⟩

theorem inv_fail (h : Inv config w) (debugAssertions : Bool) (i : Nat) (err : LlmError) :
    Inv config (step config debugAssertions w (.fail i err)) := by
  rw [step]
  cases w.calls[i]? with
  | none => exact h
  | some admitted =>
    obtain ⟨htracked, hdisciplined⟩ := h
    obtain ⟨⟨state, failures, openedAt, successes⟩, clock, calls, log⟩ := w
    have hreopened : Disciplined config (.moved .open clock :: log) := disciplined_cons hdisciplined nofun
    unfold BreakerState.recordFailure
    cases isTransient err with
    | false =>
      simp only [Bool.false_eq_true, if_false, World.become, if_true]
      exact ⟨htracked, hdisciplined⟩
    | true =>
      cases state with
      | closed =>
        by_cases hthreshold : config.failureThreshold ≤ failures + 1
        · simp only [if_true, if_pos hthreshold, World.become, reduceCtorEq, if_false]
          exact ⟨⟨clock, rfl, Nat.le_refl _, opened_now log clock⟩, hreopened⟩
        · simp only [if_true, if_neg hthreshold, World.become]
          exact ⟨trivial, hdisciplined⟩
      | halfOpen =>
        simp only [if_true, World.become, reduceCtorEq, if_false]
        exact ⟨⟨clock, rfl, Nat.le_refl _, opened_now log clock⟩, hreopened⟩
      | «open» =>
        simp only [if_true, World.become]
        exact ⟨htracked, hdisciplined⟩

theorem inv_step (debugAssertions : Bool) :
    ∀ w l, OnlyProbes debugAssertions w l → Inv config w → Inv config (step config debugAssertions w l)
  | w, .tick d, _, h => by
    obtain ⟨htracked, hdisciplined⟩ := h
    obtain ⟨⟨state, failures, openedAt, successes⟩, clock, calls, log⟩ := w
    refine ⟨?_, hdisciplined⟩
    cases state with
    | closed => trivial
    | halfOpen => exact htracked
    | «open» =>
      obtain ⟨time, htime, hle, hopened⟩ := htracked
      exact ⟨time, htime, Nat.le_add_right_of_le hle, hopened⟩
  | _, .begin, _, h => inv_begin h debugAssertions
  | _, .succeed i, hprobes, h => inv_succeed h debugAssertions i hprobes
  | _, .fail i err, _, h => inv_fail h debugAssertions i err

end Runs

/-- **Recovery discipline**: in every run in which only probes succeed while the breaker is half open, and no call
succeeds while it is open, the breaker closes only after the time of recovery and enough successful probes in a row. -/
theorem recovery_discipline (config : CircuitBreakerConfig) (debugAssertions : Bool) (ls : List Label)
    (h : Along (step config debugAssertions) (OnlyProbes debugAssertions) initial ls) :
    Disciplined config (run (step config debugAssertions) initial ls).log := by
  have hinitial : Inv config initial := by
    refine ⟨trivial, fun after before time heq => ?_⟩
    cases after <;> cases heq
  exact (run_inv (inv_step debugAssertions) ls hinitial h).disciplined

instance decidableOnlyProbes (debugAssertions : Bool) (w : World) : (l : Label) →
    Decidable (OnlyProbes debugAssertions w l)
  | .tick _ => .isTrue trivial
  | .begin => .isTrue trivial
  | .succeed i => inferInstanceAs (Decidable (∀ admitted ∈ w.calls[i]?, _))
  | .fail _ _ => .isTrue trivial

/-- One failure opens the breaker for 30 ticks, and two probes close it. -/
def oneFailure : CircuitBreakerConfig := ⟨1, 30, 2⟩

/-- The breaker opens, recovers, and is closed by two probes. -/
def recovery : List Label := [.begin, .fail 0 .requestFailed, .tick 30, .begin, .succeed 0, .begin, .succeed 0]

theorem recovery_discipline_probes :
    .moved .closed 30 ∈ (run (step oneFailure true) initial recovery).log ∧
      Disciplined oneFailure (run (step oneFailure true) initial recovery).log :=
  ⟨by decide, recovery_discipline oneFailure true recovery (by decide)⟩

/-- A call that was admitted before the breaker opened succeeds afterwards: without debug assertions the breaker closes
at once, and once it is half open the success counts as a probe. -/
theorem late_success_closes :
    (¬∀ config ls, Disciplined config (run (step config false) initial ls).log) ∧
      ¬∀ config ls, Disciplined config (run (step config true) initial ls).log := by
  refine ⟨fun h => ?_, fun h => ?_⟩
  · -- the breaker never goes half open
    obtain ⟨_, -, probes, before, _, time, hlog, -⟩ :=
      h oneFailure [.begin, .begin, .fail 0 .requestFailed, .succeed 0] [] _ 0 rfl
    have hmem : Event.moved .halfOpen time ∈ [Event.succeeded .closed, .moved .open 0] := by
      rw [show [Event.succeeded .closed, .moved .open 0] = _ from hlog]
      exact List.mem_append_right _ List.mem_cons_self
    simp at hmem
  · -- the one success is not that of a probe
    obtain ⟨successes, hneeded, probes, before, _, time, hlog, -, -, hlen, hprobes⟩ :=
      h ⟨1, 30, 1⟩ [.begin, .begin, .fail 0 .requestFailed, .tick 30, .begin, .succeed 0] [] _ 30 rfl
    cases probes with
    | nil => cases hlog
    | cons e probes =>
      have he : Event.succeeded .closed = e := (List.cons.inj hlog).1
      have hprobe := hprobes e List.mem_cons_self
      rw [← he] at hprobe
      cases hprobe

end Ironclaw.Llm.CircuitBreaker

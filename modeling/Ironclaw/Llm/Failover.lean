import Ironclaw.Lib.Text
import Mathlib.Data.Fintype.Basic
import Mathlib.Data.List.MinMax

/-!
# Failover

`FailoverProvider::try_providers`: the providers that are not in cooldown are called one after another, until one
answers or fails for good; when all are in cooldown, the one that entered it first is called. While a provider is
called, other requests may change the shared cooldowns in any way. What a provider answers is a parameter.

- `candidates_spec`: who may be called;
- `tryEach_spec`: who is called, and what the calls come to;
- `failover_law`: order, cooldowns, result and reset of a whole request.
-/

namespace Ironclaw.Llm.Failover

inductive LlmError
  | requestFailed (provider reason : Str)
  | rateLimited (provider : Str) (retryAfter : Option Nat)
  | invalidResponse (provider reason : Str)
  | emptyResponse (provider : Str)
  | contextLengthExceeded (used limit : Nat)
  | modelNotAvailable (provider model : Str)
  | authFailed (provider : Str)
  | sessionExpired (provider : Str)
  | sessionRenewalFailed (provider reason : Str)
  | http (text : Str)
  | json (text : Str)
  | io (text : Str)
  deriving DecidableEq

def isRetryable : LlmError → Bool
  | .requestFailed _ _ | .rateLimited _ _ | .invalidResponse _ _ | .emptyResponse _ |
    .sessionRenewalFailed _ _ | .http _
  | .io _ => true
  | .contextLengthExceeded _ _ | .modelNotAvailable _ _ | .authFailed _ | .sessionExpired _ | .json _ => false

/-- Times are in nanoseconds. -/
structure CooldownConfig where
  cooldownDuration : Nat
  failureThreshold : UInt32

/-- `u64::saturating_sub`. -/
def saturatingSub (a b : UInt64) : UInt64 := if a ≤ b then 0 else a - b

structure ProviderCooldown where
  failureCount : UInt32
  /-- Zero when the provider is not in cooldown. -/
  cooldownActivatedNanos : UInt64
  deriving DecidableEq

namespace ProviderCooldown

def new : ProviderCooldown := ⟨0, 0⟩

def isInCooldown (c : ProviderCooldown) (nowNanos cooldownNanos : UInt64) : Bool :=
  c.cooldownActivatedNanos != 0 && saturatingSub nowNanos c.cooldownActivatedNanos < cooldownNanos

/-- Whether the threshold is reached, and the cooldown with the failure. -/
def recordFailure (c : ProviderCooldown) (threshold : UInt32) : Bool × ProviderCooldown :=
  (threshold ≤ c.failureCount + 1, { c with failureCount := c.failureCount + 1 })

def activateCooldown (c : ProviderCooldown) (nowNanos : UInt64) : ProviderCooldown :=
  { c with cooldownActivatedNanos := max nowNanos 1 }

def reset : ProviderCooldown := ⟨0, 0⟩

end ProviderCooldown

/-- What the requests share: the provider that answered last, and a cooldown for each provider. -/
structure Shared (n : Nat) where
  lastUsed : Fin n
  cooldowns : Fin n → ProviderCooldown

/-- A failover over some providers, at least one. -/
structure FailoverProvider (P : Type) where
  providers : List P
  cooldownConfig : CooldownConfig
  nonempty : 0 < providers.length

namespace FailoverProvider

def EMPTY : LlmError :=
  .requestFailed "failover".toList "FailoverProvider requires at least one provider".toList

def withCooldown {P : Type} (providers : List P) (cooldownConfig : CooldownConfig) :
    Except LlmError (FailoverProvider P) :=
  if h : 0 < providers.length then .ok ⟨providers, cooldownConfig, h⟩ else .error EMPTY

end FailoverProvider

/-- A call of a provider: what other requests do meanwhile, how it ends, and the clock then. -/
structure Attempt (n : Nat) (α : Type) where
  others : Shared n → Shared n
  result : Except LlmError α
  nowNanos : UInt64

/-- The end of a request, and the providers that it called. -/
structure Outcome (n : Nat) (α : Type) where
  result : Except LlmError (Fin n × α)
  called : List (Fin n)
  shared : Shared n

section Try

variable {n : Nat} {α : Type} (config : CooldownConfig)

def EXHAUSTED : LlmError :=
  .requestFailed "failover".toList
    ("Invariant violated in FailoverProvider: providers were exhausted but no last_error was recorded (this branch " ++
      "should be unreachable; possible causes: no provider attempts were made or `available` was unexpectedly " ++
      "empty).").toList

/-- The provider is in cooldown when the request starts. -/
def coolingDown (shared : Shared n) (nowNanos : UInt64) (i : Fin n) : Bool :=
  (shared.cooldowns i).isInCooldown nowNanos (UInt64.ofNat config.cooldownDuration)

/-- The providers that are called if need be, in their order. -/
def candidates (shared : Shared n) (nowNanos : UInt64) : Except LlmError (List (Fin n)) :=
  let available := (List.finRange n).filter fun i => !coolingDown config shared nowNanos i
  if available.isEmpty then
    match (List.finRange n).argmin fun i => (shared.cooldowns i).cooldownActivatedNanos.toNat with
    | none => .error FailoverProvider.EMPTY
    | some oldest => .ok [oldest]
  else .ok available

def succeed (shared : Shared n) (i : Fin n) : Shared n :=
  ⟨i, Function.update shared.cooldowns i .reset⟩

/-- A failure is counted, and the cooldown begins when there are enough. -/
def fail (shared : Shared n) (i : Fin n) (nowNanos : UInt64) : Shared n :=
  let counted := (shared.cooldowns i).recordFailure config.failureThreshold
  { shared with
    cooldowns :=
      Function.update shared.cooldowns i (if counted.1 then counted.2.activateCooldown nowNanos else counted.2) }

/-- The loop over the candidates. -/
def tryEach (attempt : Fin n → Attempt n α) (lastError : Option LlmError) (shared : Shared n) :
    List (Fin n) → Outcome n α
  | [] => ⟨.error (lastError.getD EXHAUSTED), [], shared⟩
  | i :: rest =>
    let shared := (attempt i).others shared
    match (attempt i).result with
    | .ok response => ⟨.ok (i, response), [i], succeed shared i⟩
    | .error err =>
      if !isRetryable err then ⟨.error err, [i], shared⟩
      else
        let out := tryEach attempt (some err) (fail config shared i (attempt i).nowNanos) rest
        { out with called := i :: out.called }

/-- `try_providers`. -/
def tryProviders {P : Type} (provider : FailoverProvider P)
    (attempt : Fin provider.providers.length → Attempt provider.providers.length α)
    (shared : Shared provider.providers.length) (nowNanos : UInt64) : Outcome provider.providers.length α :=
  match candidates provider.cooldownConfig shared nowNanos with
  | .error err => ⟨.error err, [], shared⟩
  | .ok available => tryEach provider.cooldownConfig attempt none shared available

end Try

/-! ## The candidates -/

section Candidates

variable {n : Nat} {config : CooldownConfig} {shared : Shared n} {nowNanos : UInt64}

/-- There is a candidate; they come in the order of the list, each once; one is in cooldown only if all are; and all
that are not in cooldown are candidates. -/
theorem candidates_spec (hpos : 0 < n) : ∃ available, candidates config shared nowNanos = .ok available ∧
    available ≠ [] ∧ available.Pairwise (· < ·) ∧
      (∀ i ∈ available, coolingDown config shared nowNanos i = true → ∀ j,
        coolingDown config shared nowNanos j = true) ∧
      ∀ i, coolingDown config shared nowNanos i = false → i ∈ available := by
  have hall : ∀ i : Fin n, i ∈ List.finRange n := List.mem_finRange
  unfold candidates
  simp only
  split
  next hempty =>
    have hcooling : ∀ j, coolingDown config shared nowNanos j = true := by
      intro j
      have hnot := List.filter_eq_nil_iff.mp (List.isEmpty_iff.mp hempty) j (hall j)
      simpa using hnot
    split
    next hnone =>
      rw [List.argmin_eq_none] at hnone
      exact absurd (hall ⟨0, hpos⟩) (by rw [hnone]; exact List.not_mem_nil)
    next oldest _ =>
      refine ⟨[oldest], rfl, List.cons_ne_nil _ _, List.pairwise_singleton _ _, fun _ _ _ => hcooling, fun i hi => ?_⟩
      rw [hcooling i] at hi
      cases hi
  next hne =>
    refine ⟨_, rfl, fun hnil => hne (List.isEmpty_iff.mpr hnil), ?_, fun i hi hcooling => ?_, fun i hi => ?_⟩
    · exact (List.pairwise_lt_finRange n).filter _
    · have hnot := (List.mem_filter.mp hi).2
      rw [hcooling] at hnot
      cases hnot
    · exact List.mem_filter.mpr ⟨hall i, by rw [hi]; rfl⟩

end Candidates

/-! ## The calls -/

section Calls

variable {n : Nat} {α : Type} (attempt : Fin n → Attempt n α)

/-- The call fails with an error that leads on to the next provider. -/
def FailsOver (i : Fin n) : Prop := ∃ err, (attempt i).result = .error err ∧ isRetryable err = true

def success? (i : Fin n) : Option (Fin n × α) :=
  match (attempt i).result with
  | .ok response => some (i, response)
  | .error _ => none

def error? (retryable : Bool) (i : Fin n) : Option LlmError :=
  match (attempt i).result with
  | .ok _ => none
  | .error err => if isRetryable err = retryable then some err else none

/-- What some calls come to: the first success, else the first error that is final, else the last of the others. -/
def verdict (called : List (Fin n)) : Option (Except LlmError (Fin n × α)) :=
  ((called.findSome? (success? attempt)).map .ok).or
    (((called.findSome? (error? attempt false)).map .error).or
      (((called.filterMap (error? attempt true)).getLast?).map .error))

variable {attempt}

/-- An error that leads on counts when nothing after it does. -/
theorem verdict_cons {i : Fin n} {err : LlmError} (hresult : (attempt i).result = .error err)
    (hretryable : isRetryable err = true) (called : List (Fin n)) :
    verdict attempt (i :: called) = some ((verdict attempt called).getD (.error err)) := by
  have hsuccess : success? attempt i = none := by simp [success?, hresult]
  have hfinal : error? attempt false i = none := by simp [error?, hresult, hretryable]
  have herror : error? attempt true i = some err := by simp [error?, hresult, hretryable]
  rw [verdict, verdict, List.findSome?_cons_of_isNone (by simp [hsuccess]),
    List.findSome?_cons_of_isNone (by simp [hfinal]), List.filterMap_cons_some herror, List.getLast?_cons]
  cases called.findSome? (success? attempt) with
  | some response => rfl
  | none =>
    cases called.findSome? (error? attempt false) with
    | some err' => rfl
    | none => cases (called.filterMap (error? attempt true)).getLast? <;> rfl

/-- A success or a final error at once is what the calls come to. -/
theorem verdict_singleton {i : Fin n} (h : ¬FailsOver attempt i) :
    verdict attempt [i] = some ((attempt i).result.map fun response => (i, response)) := by
  cases hresult : (attempt i).result with
  | ok response => simp [verdict, success?, hresult, Except.map]
  | error err =>
    have hfinal : isRetryable err = false := Bool.eq_false_iff.mpr fun hretryable => h ⟨err, hresult, hretryable⟩
    simp [verdict, success?, error?, hresult, hfinal, Except.map]

/-- How the loop over a list of candidates ends. -/
structure Tried (attempt : Fin n → Attempt n α) (available : List (Fin n)) (lastError : Option LlmError)
    (out : Outcome n α) : Prop where
  order : out.called <+: available
  failed : ∀ i ∈ out.called.dropLast, FailsOver attempt i
  ends : out.called = available ∨ ∃ i, out.called.getLast? = some i ∧ ¬FailsOver attempt i
  result : out.called ≠ [] → verdict attempt out.called = some out.result
  exhausted : out.called = [] → out.result = .error (lastError.getD EXHAUSTED)
  reset : ∀ i response, out.result = .ok (i, response) → out.shared.cooldowns i = .reset

theorem tried_nil (lastError : Option LlmError) (shared : Shared n) :
    Tried attempt [] lastError ⟨.error (lastError.getD EXHAUSTED), [], shared⟩ where
  order := List.prefix_rfl
  failed := fun _ h => absurd h List.not_mem_nil
  ends := .inl rfl
  result := fun h => absurd rfl h
  exhausted := fun _ => rfl
  reset := nofun

/-- A success and a final error end the loop. -/
theorem tried_stop {i : Fin n} (hstop : ¬FailsOver attempt i) (shared : Shared n)
    (hreset : ∀ response, (attempt i).result = .ok response → shared.cooldowns i = .reset)
    (lastError : Option LlmError) (rest : List (Fin n)) :
    Tried attempt (i :: rest) lastError ⟨(attempt i).result.map fun response => (i, response), [i], shared⟩ where
  order := List.prefix_append [i] rest
  failed := fun _ h => absurd h List.not_mem_nil
  ends := .inr ⟨i, rfl, hstop⟩
  result := fun _ => verdict_singleton hstop
  exhausted := fun h => absurd h (List.cons_ne_nil _ _)
  reset := by
    intro j response h
    cases hresult : (attempt i).result with
    | error err =>
      rw [hresult] at h
      cases h
    | ok response' =>
      rw [hresult] at h
      cases h
      exact hreset _ hresult

/-- After an error that leads on, the loop ends as it does over the rest. -/
theorem Tried.cons {i : Fin n} {err : LlmError} {rest : List (Fin n)} {out : Outcome n α}
    (hresult : (attempt i).result = .error err) (hretryable : isRetryable err = true)
    (h : Tried attempt rest (some err) out) (lastError : Option LlmError) :
    Tried attempt (i :: rest) lastError { out with called := i :: out.called } where
  order := List.cons_prefix_cons.mpr ⟨rfl, h.order⟩
  failed := by
    intro j hj
    cases hcalled : out.called with
    | nil =>
      rw [hcalled] at hj
      exact absurd hj List.not_mem_nil
    | cons k called =>
      rw [hcalled, List.dropLast_cons_cons] at hj
      rcases List.mem_cons.mp hj with rfl | hj
      · exact ⟨err, hresult, hretryable⟩
      · exact h.failed j (by rw [hcalled]; exact hj)
  ends := by
    rcases h.ends with hall | ⟨j, hlast, hnot⟩
    · exact .inl (by rw [hall])
    · exact .inr ⟨j, by rw [List.getLast?_cons, hlast]; rfl, hnot⟩
  result := by
    intro _
    rw [verdict_cons hresult hretryable]
    by_cases hnil : out.called = []
    · rw [hnil, h.exhausted hnil]
      rfl
    · rw [h.result hnil]
      rfl
  exhausted := fun hnil => absurd hnil (List.cons_ne_nil _ _)
  reset := h.reset

theorem tryEach_spec (config : CooldownConfig) : ∀ (available : List (Fin n)) (lastError : Option LlmError)
    (shared : Shared n), Tried attempt available lastError (tryEach config attempt lastError shared available)
  | [], lastError, shared => tried_nil lastError shared
  | i :: rest, lastError, shared => by
    simp only [tryEach]
    split
    next response hresult =>
      have hstop : ¬FailsOver attempt i := by
        rintro ⟨err, herr, -⟩
        rw [hresult] at herr
        cases herr
      have htried := tried_stop hstop (succeed ((attempt i).others shared) i)
        (fun _ _ => Function.update_self i _ _) lastError rest
      rw [hresult] at htried
      exact htried
    next err hresult =>
      cases hretryable : isRetryable err with
      | false =>
        have hstop : ¬FailsOver attempt i := by
          rintro ⟨err', herr', hretryable'⟩
          rw [hresult] at herr'
          cases herr'
          rw [hretryable] at hretryable'
          cases hretryable'
        have htried := tried_stop hstop ((attempt i).others shared)
          (fun response hok => by rw [hresult] at hok; cases hok) lastError rest
        rw [hresult] at htried
        exact htried
      | true => exact (tryEach_spec config rest (some err) _).cons hresult hretryable lastError

end Calls

/-- **Failover.** Whatever the cooldowns are and however the providers answer, a request calls at least one provider,
each at most once and in the order of the list, and one in cooldown only if all are; all calls but the last fail with an
error that leads on, and if the last does so too, all candidates were called, among them each provider that is not in
cooldown; the result is the first success, else the first final error, else the last error; and the cooldown of the
provider that succeeded is reset. -/
theorem failover_law {P α : Type} (provider : FailoverProvider P)
    (attempt : Fin provider.providers.length → Attempt provider.providers.length α)
    (shared : Shared provider.providers.length) (nowNanos : UInt64) :
    let out := tryProviders provider attempt shared nowNanos
    out.called ≠ [] ∧ out.called.Pairwise (· < ·) ∧
      (∀ i ∈ out.called, coolingDown provider.cooldownConfig shared nowNanos i = true →
        ∀ j, coolingDown provider.cooldownConfig shared nowNanos j = true) ∧
      (∀ i ∈ out.called.dropLast, FailsOver attempt i) ∧
      ((∃ i, out.called.getLast? = some i ∧ ¬FailsOver attempt i) ∨
        candidates provider.cooldownConfig shared nowNanos = .ok out.called ∧
          ∀ i, coolingDown provider.cooldownConfig shared nowNanos i = false → i ∈ out.called) ∧
      verdict attempt out.called = some out.result ∧
      ∀ i response, out.result = .ok (i, response) → (out.shared.cooldowns i).failureCount = 0 := by
  intro out
  obtain ⟨available, hcandidates, hne, hsorted, hcooling, hready⟩ :=
    @candidates_spec _ provider.cooldownConfig shared nowNanos provider.nonempty
  have hout : out = tryEach provider.cooldownConfig attempt none shared available := by
    simp only [out, tryProviders, hcandidates]
  have htried : Tried attempt available none out := by
    rw [hout]
    exact tryEach_spec provider.cooldownConfig available none shared
  have hcalled : out.called ≠ [] := by
    rcases htried.ends with hall | ⟨i, hlast, -⟩
    · rwa [hall]
    · intro hnil
      rw [hnil] at hlast
      cases hlast
  refine ⟨hcalled, hsorted.sublist htried.order.sublist, fun i hi => hcooling i (htried.order.subset hi), htried.failed,
    ?_, htried.result hcalled, fun i response hresult => ?_⟩
  · rcases htried.ends with hall | hlast
    · exact .inr ⟨by rw [hall, hcandidates], fun i hi => by rw [hall]; exact hready i hi⟩
    · exact .inl hlast
  · rw [htried.reset i response hresult]
    rfl

end Ironclaw.Llm.Failover

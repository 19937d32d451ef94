import Ironclaw.Agent.Scheduler

/-!
# The token budget of a dispatched job

`dispatch_job` takes the budget from the metadata and caps it; `add_tokens` enforces it, and takes 0 for no limit. The
total is a 64-bit number, and wraps.

- `dispatched_budget`: the budget of the dispatched job is the smaller of what the metadata asks for and the cap;
- `accepted_sum`: while nothing wraps, calls are accepted exactly as long as their total is within the budget;
- `budgeted_iff`: the cap holds exactly when the metadata does not ask for 0 and no call can wrap the total.
-/

namespace Ironclaw.Agent

open Text Run Context

/-- A context with the tokens that its calls have used. -/
structure MeteredContext extends JobContext where
  totalTokensUsed : Nat

structure TokenBudgetExceeded where
  used : Nat
  limit : Nat
  deriving DecidableEq

namespace MeteredContext

/-- `add_tokens`: the tokens are counted also when they exceed the budget. -/
def addTokens (ctx : MeteredContext) (tokens : Nat) : Except TokenBudgetExceeded Unit × MeteredContext :=
  let used := (ctx.totalTokensUsed + tokens) % 2 ^ 64
  let ctx := { ctx with totalTokensUsed := used }
  if 0 < ctx.maxTokens ∧ ctx.maxTokens < used then (.error ⟨used, ctx.maxTokens⟩, ctx) else (.ok (), ctx)

/-- A sequence of calls, all of them accepted. -/
def Accepts : MeteredContext → List Nat → Prop
  | _, [] => True
  | ctx, tokens :: calls => (ctx.addTokens tokens).1 = .ok () ∧ Accepts (ctx.addTokens tokens).2 calls

/-- The budget is set and within the cap, and accepted calls of at most `most` tokens stay within the cap. -/
def Capped (most cap : Nat) (ctx : MeteredContext) : Prop :=
  0 < ctx.maxTokens ∧ ctx.maxTokens ≤ cap ∧
    ∀ calls, (∀ tokens ∈ calls, tokens ≤ most) → Accepts ctx calls → calls.sum ≤ cap

end MeteredContext

/-- What the metadata asks for. -/
def requestedTokens (metadata : Option Json) : Option Nat :=
  (metadata.bind (·.get "max_tokens".toList)).bind Json.asU64

/-- With a cap, the budget is what the metadata asks for, or the cap where that is less or nothing is asked for. -/
theorem maxTokens_eq {s : Scheduler} (hcap : 0 < s.config.maxTokensPerJob) (metadata : Option Json) :
    s.maxTokens metadata =
      min ((requestedTokens metadata).getD s.config.maxTokensPerJob) s.config.maxTokensPerJob := by
  unfold Scheduler.maxTokens requestedTokens
  cases (metadata.bind (·.get "max_tokens".toList)).bind Json.asU64 with
  | some userVal => exact if_neg (Nat.pos_iff_ne_zero.mp hcap)
  | none => exact (Nat.min_self _).symm

/-! ## The budget of the dispatched job -/

/-- If the manager holds the job, then with this budget. -/
def HasBudget (jobId maxTokens : Nat) (m : ContextManager) : Prop :=
  ∀ ctx, m.contexts.lookup jobId = some ctx → ctx.maxTokens = maxTokens

section Dispatched

variable {jobId budget : Nat} {m : ContextManager} {s : Scheduler}

/-- No call on a context changes its budget. -/
theorem step_maxTokens {ctx : JobContext} (op : JobOp) : (step ctx op).maxTokens = ctx.maxTokens := by
  rcases step_cases ctx op with hs | ⟨clock, newState, reason, -, -, -, hs⟩
  · rw [hs]
  · rw [hs]
    cases op <;> rfl

theorem HasBudget.modify (h : HasBudget jobId budget m) (f : JobContext → JobContext)
    (hf : ∀ ctx, (f ctx).maxTokens = ctx.maxTokens) :
    HasBudget jobId budget { m with contexts := Table.modify jobId f m.contexts } := by
  intro ctx' hctx'
  rw [Table.lookup_modify, if_pos rfl] at hctx'
  obtain ⟨ctx, hctx, rfl⟩ := Option.map_eq_some_iff.mp hctx'
  rw [hf]
  exact h ctx hctx

theorem HasBudget.touch (h : HasBudget jobId budget m) (touch : Touch) :
    HasBudget jobId budget ((touch.op jobId).apply m) := by
  cases touch with
  | update op =>
    simp only [Touch.op, ManagerOp.apply, ContextManager.updateContext]
    cases hctx : m.contexts.lookup jobId with
    | none => exact h
    | some ctx => exact h.modify (fun ctx => (op.apply ctx).2) fun ctx => step_maxTokens op
  | remove =>
    simp only [Touch.op, ManagerOp.apply, ContextManager.removeJob]
    cases hctx : m.contexts.lookup jobId with
    | none => exact h
    | some ctx =>
      intro ctx' hctx'
      have hgone : (m.contexts.erase jobId).lookup jobId = some ctx' := hctx'
      rw [AList.lookup_erase] at hgone
      cases hgone

theorem HasBudget.touched (touches : List Touch) (h : HasBudget jobId budget m) :
    HasBudget jobId budget (run ManagerOp.apply m (touches.map (Touch.op jobId))) := by
  induction touches generalizing m with
  | nil => exact h
  | cons touch touches ih =>
    rw [List.map_cons, run_cons]
    exact ih (h.touch touch)

/-- The start of a job leaves its budget. -/
theorem start_budgeted (clock : JobContext.Clock) (h : HasBudget jobId budget s.contextManager) :
    HasBudget jobId budget (s.start jobId clock).2.contextManager := by
  unfold Scheduler.start ContextManager.updateContext
  cases hctx : s.contextManager.contexts.lookup jobId with
  | none => exact h
  | some ctx =>
    have hm := h.modify (fun c => (c.transitionTo clock .inProgress (some "Scheduled for execution".toList)).2)
      fun c => step_maxTokens (.transitionTo clock .inProgress (some "Scheduled for execution".toList))
    dsimp only
    cases (ctx.transitionTo clock .inProgress (some "Scheduled for execution".toList)).1 with
    | error reason => exact hm
    | ok _ => exact hm

theorem checkUserLimit_budgeted (afterContext : List Touch) (h : HasBudget jobId budget s.contextManager) :
    HasBudget jobId budget (s.checkUserLimit jobId afterContext).2.contextManager := by
  unfold Scheduler.checkUserLimit
  split
  · dsimp only
    split
    · exact h.touched afterContext
    · exact h.touched afterContext
  · exact h

/-- Whether the job is scheduled or not, its budget stays. -/
theorem schedule_budgeted (clock : JobContext.Clock) (afterContext afterCount : List Touch)
    (h : HasBudget jobId budget s.contextManager) :
    HasBudget jobId budget (s.schedule jobId clock afterContext afterCount).2.contextManager := by
  have hlimit := checkUserLimit_budgeted afterContext h
  unfold Scheduler.schedule
  split
  · exact h
  split
  · exact h
  split
  next e s' heq =>
    rw [heq] at hlimit
    exact hlimit
  next s' heq =>
    rw [heq] at hlimit
    exact start_budgeted clock (hlimit.touched afterCount)

/-- A new job has no budget until its metadata are applied. -/
theorem createJob_budgeted {now : Int} {userId title description : Str}
    (h : s.contextManager.createJobForUser jobId now userId title description = .ok m) : HasBudget jobId 0 m := by
  unfold ContextManager.createJobForUser ContextManager.insertContext at h
  split at h
  · cases h
  · cases h
    intro ctx hctx
    have hnew : (s.contextManager.contexts.insert jobId
        (.withUser jobId now userId title description)).lookup jobId = some ctx := hctx
    rw [AList.lookup_insert] at hnew
    cases hnew
    rfl

theorem applyMetadata_budgeted {metadata : Option Json} {ctx : JobContext}
    (h : HasBudget jobId 0 s.contextManager) (hok : s.applyMetadata jobId metadata = .ok (ctx, m)) :
    HasBudget jobId (s.maxTokens metadata) m := by
  unfold Scheduler.applyMetadata ContextManager.updateContextAndGet ContextManager.updateContext
    ContextManager.getContext at hok
  cases hctx : s.contextManager.contexts.lookup jobId with
  | none =>
    rw [hctx] at hok
    cases metadata with
    | some json => cases hok
    | none =>
      have herr := (ite_self _).symm.trans hok
      cases herr
  | some ctx₀ =>
    rw [hctx] at hok
    have hzero := h ctx₀ hctx
    intro ctx' hctx'
    cases metadata with
    | some json =>
      cases hok
      rw [Table.lookup_modify, if_pos rfl, hctx] at hctx'
      cases hctx'
      show (if 0 < s.maxTokens (some json) then s.maxTokens (some json) else ctx₀.maxTokens) = _
      rw [hzero]
      split <;> omega
    | none =>
      dsimp only at hok
      split at hok
      · cases hok
        rw [Table.lookup_modify, if_pos rfl, hctx] at hctx'
        cases hctx'
        rfl
      next hnone =>
        cases hok
        rw [hctx] at hctx'
        cases hctx'
        omega

/-- **The dispatched job has the budget that `dispatch_job` computes**, whatever other tasks do to the job meanwhile. -/
theorem dispatched_budget (d : Dispatch s) {userId title description : Str} {metadata : Option Json} {id : Nat}
    (hok : (s.dispatchJob d userId title description metadata).1 = .ok id) :
    HasBudget d.jobId (s.maxTokens metadata) (s.dispatchJob d userId title description metadata).2.contextManager := by
  unfold Scheduler.dispatchJob at hok ⊢
  cases hcreate : s.contextManager.createJobForUser d.jobId d.now userId title description with
  | error e =>
    rw [hcreate] at hok
    cases hok
  | ok m =>
    rw [hcreate] at hok
    dsimp only at hok ⊢
    have hnew : HasBudget d.jobId 0 ((s.withManager m).meanwhile d.jobId d.afterCreate).contextManager :=
      (createJob_budgeted hcreate).touched d.afterCreate
    cases happly : ((s.withManager m).meanwhile d.jobId d.afterCreate).applyMetadata d.jobId metadata with
    | error e =>
      rw [happly] at hok
      cases hok
    | ok r =>
      obtain ⟨ctx, m'⟩ := r
      rw [happly] at hok
      dsimp only at hok ⊢
      have hset := applyMetadata_budgeted hnew happly
      rcases saveJob_cases ((((s.withManager m).meanwhile d.jobId d.afterCreate).withManager m').meanwhile d.jobId
          d.afterUpdate) d.jobId ctx d.saveError with ⟨-, e, hsave⟩ | ⟨-, s', hsave, -, hmanager, -⟩
      · rw [hsave] at hok
        cases hok
      · rw [hsave]
        have hsaved : HasBudget d.jobId (s.maxTokens metadata) s'.contextManager := by
          rw [hmanager]
          exact hset.touched d.afterUpdate
        exact schedule_budgeted d.clock d.afterContext d.afterCount hsaved

end Dispatched

/-! ## The calls -/

section Calls

open MeteredContext

variable {ctx : MeteredContext}

/-- A call is accepted unless a budget is set and the total, as it is counted, is over it. -/
theorem addTokens_ok_iff (tokens : Nat) :
    (ctx.addTokens tokens).1 = .ok () ↔
      ctx.maxTokens = 0 ∨ (ctx.totalTokensUsed + tokens) % 2 ^ 64 ≤ ctx.maxTokens := by
  unfold addTokens
  dsimp only
  split
  next hover =>
    constructor
    · intro hok
      cases hok
    · omega
  next hwithin =>
    refine iff_of_true rfl ?_
    omega

@[simp] theorem addTokens_maxTokens (tokens : Nat) : (ctx.addTokens tokens).2.maxTokens = ctx.maxTokens := by
  unfold addTokens
  dsimp only
  split <;> rfl

@[simp] theorem addTokens_totalTokensUsed (tokens : Nat) :
    (ctx.addTokens tokens).2.totalTokensUsed = (ctx.totalTokensUsed + tokens) % 2 ^ 64 := by
  unfold addTokens
  dsimp only
  split <;> rfl

/-- Without a budget everything is accepted. -/
theorem accepts_of_unlimited : ∀ (calls : List Nat) {ctx : MeteredContext}, ctx.maxTokens = 0 → Accepts ctx calls
  | [], _, _ => trivial
  | tokens :: calls, ctx, h => by
    refine ⟨(addTokens_ok_iff tokens).mpr (.inl h), accepts_of_unlimited calls ?_⟩
    rw [addTokens_maxTokens, h]

/-- Where no accepted call can wrap the total, accepted calls stay within the budget. -/
theorem accepted_sum (most : Nat) : ∀ (calls : List Nat) (ctx : MeteredContext), 0 < ctx.maxTokens →
    ctx.maxTokens + most < 2 ^ 64 → ctx.totalTokensUsed ≤ ctx.maxTokens → (∀ tokens ∈ calls, tokens ≤ most) →
      Accepts ctx calls → ctx.totalTokensUsed + calls.sum ≤ ctx.maxTokens
  | [], _, _, _, hused, _, _ => hused
  | tokens :: calls, ctx, hset, hroom, hused, hmost, ⟨hok, hrest⟩ => by
    have htokens : tokens ≤ most := hmost tokens List.mem_cons_self
    have hexact : (ctx.totalTokensUsed + tokens) % 2 ^ 64 = ctx.totalTokensUsed + tokens :=
      Nat.mod_eq_of_lt (by omega)
    rw [addTokens_ok_iff, hexact] at hok
    have hwithin : ctx.totalTokensUsed + tokens ≤ ctx.maxTokens := hok.resolve_left (Nat.pos_iff_ne_zero.mp hset)
    have ih := accepted_sum most calls (ctx.addTokens tokens).2
    rw [addTokens_maxTokens, addTokens_totalTokensUsed, hexact] at ih
    rw [List.sum_cons, ← Nat.add_assoc]
    exact ih hset hroom hwithin (fun n hn => hmost n (List.mem_cons_of_mem _ hn)) hrest

/-- Single tokens are accepted up to the budget, and then a call that brings the total to `2 ^ 64`. -/
theorem accepts_wrapping {last : Nat} : ∀ (n : Nat) {ctx : MeteredContext}, ctx.maxTokens < 2 ^ 64 →
    ctx.totalTokensUsed + n = ctx.maxTokens → ctx.maxTokens + last = 2 ^ 64 →
      Accepts ctx (List.replicate n 1 ++ [last])
  | 0, ctx, _, hused, hlast => by
    refine ⟨(addTokens_ok_iff last).mpr (.inr ?_), trivial⟩
    have htotal : ctx.totalTokensUsed + last = 2 ^ 64 := by omega
    rw [htotal, Nat.mod_self]
    exact Nat.zero_le _
  | n + 1, ctx, hbudget, hused, hlast => by
    have hexact : (ctx.totalTokensUsed + 1) % 2 ^ 64 = ctx.totalTokensUsed + 1 := Nat.mod_eq_of_lt (by omega)
    refine ⟨(addTokens_ok_iff 1).mpr (.inr ?_), accepts_wrapping n ?_ ?_ ?_⟩
    · rw [hexact]
      omega
    · rwa [addTokens_maxTokens]
    · rw [addTokens_maxTokens, addTokens_totalTokensUsed, hexact]
      omega
    · rwa [addTokens_maxTokens]

end Calls

/-- **The cap on the tokens of a job holds exactly when the metadata do not ask for 0 tokens**, the value that stands
for no limit, and no call can bring the total from the budget to `2 ^ 64`, where it wraps. -/
theorem budgeted_iff {s : Scheduler} (hcap : 0 < s.config.maxTokensPerJob) (hword : s.config.maxTokensPerJob < 2 ^ 64)
    (d : Dispatch s) {userId title description : Str} {metadata : Option Json} {id : Nat} {ctx : JobContext}
    (hok : (s.dispatchJob d userId title description metadata).1 = .ok id)
    (hctx : (s.dispatchJob d userId title description metadata).2.contextManager.contexts.lookup d.jobId = some ctx)
    {most : Nat} (hmost : 0 < most) :
    MeteredContext.Capped most s.config.maxTokensPerJob ⟨ctx, 0⟩ ↔
      requestedTokens metadata ≠ some 0 ∧
        min ((requestedTokens metadata).getD s.config.maxTokensPerJob) s.config.maxTokensPerJob + most < 2 ^ 64 := by
  have hbudget : ctx.maxTokens = _ := (dispatched_budget d hok ctx hctx).trans (maxTokens_eq hcap metadata)
  have hpositive : 0 < ctx.maxTokens ↔ requestedTokens metadata ≠ some 0 := by
    rw [hbudget]
    cases requestedTokens metadata with
    | none => simp [hcap]
    | some n => simp [hcap, Nat.pos_iff_ne_zero]
  rw [← hbudget, ← hpositive]
  have hwithin : ctx.maxTokens ≤ s.config.maxTokensPerJob := by
    rw [hbudget]
    exact Nat.min_le_right _ _
  constructor
  · rintro ⟨hset, -, hcalls⟩
    refine ⟨hset, Nat.lt_of_not_le fun hover => ?_⟩
    -- the total is brought to the budget, and wrapped by one more call
    have hlast : 2 ^ 64 - ctx.maxTokens ≤ most := by omega
    have hwrap := hcalls (List.replicate ctx.maxTokens 1 ++ [2 ^ 64 - ctx.maxTokens]) ?_ ?_
    · rw [List.sum_append, List.sum_replicate, List.sum_singleton] at hwrap
      simp only [smul_eq_mul, mul_one] at hwrap
      omega
    · intro tokens htokens
      rcases List.mem_append.mp htokens with hone | hlast'
      · rw [List.eq_of_mem_replicate hone]
        exact hmost
      · rw [List.mem_singleton.mp hlast']
        exact hlast
    · refine accepts_wrapping ctx.maxTokens ?_ (Nat.zero_add _) ?_
      · exact Nat.lt_of_le_of_lt hwithin hword
      · show ctx.maxTokens + (2 ^ 64 - ctx.maxTokens) = 2 ^ 64
        omega
  · rintro ⟨hset, hroom⟩
    refine ⟨hset, hwithin, fun calls hcalls haccepts => ?_⟩
    have hsum := accepted_sum most calls ⟨ctx, 0⟩ hset hroom (Nat.zero_le _) hcalls haccepts
    rw [Nat.zero_add] at hsum
    exact hsum.trans hwithin

/-- A scheduler with the cap 100, and a dispatch that nothing disturbs. -/
def capped : Scheduler := ⟨⟨1, none, 100⟩, .new 1, none, []⟩

def undisturbed : Dispatch capped :=
  { jobId := 7, fresh := AList.notMem_empty _, unscheduled := List.not_mem_nil, now := 0, clock := ⟨0, 0⟩,
    afterCreate := [], afterUpdate := [], afterContext := [], afterCount := [], saveError := none }

theorem budgeted_half :
    ∃ ctx, MeteredContext.Capped (2 ^ 32) capped.config.maxTokensPerJob ⟨ctx, 0⟩ := by
  let metadata : Json := .obj [("max_tokens".toList, .num (.int 50))]
  have hctx :
    ((capped.dispatchJob undisturbed "u".toList "t".toList [] (some metadata)).2.contextManager.contexts.lookup
      undisturbed.jobId).isSome = true := by decide
  have hok : (capped.dispatchJob undisturbed "u".toList "t".toList [] (some metadata)).1 = .ok 7 := rfl
  refine ⟨_, (budgeted_iff (by decide) (by decide) undisturbed hok (Option.some_get hctx).symm (by decide)).mpr ?_⟩
  decide

/-- Metadata that ask for 0 tokens lift the cap: one call of 101 tokens is accepted under the cap 100. -/
theorem zero_lifts_cap :
    ¬∀ (s : Scheduler), 0 < s.config.maxTokensPerJob → ∀ (d : Dispatch s) (userId title description : Str)
      (metadata : Option Json) (id : Nat) (ctx : JobContext),
        (s.dispatchJob d userId title description metadata).1 = .ok id →
        (s.dispatchJob d userId title description metadata).2.contextManager.contexts.lookup d.jobId = some ctx →
          ∀ calls : List Nat, (∀ tokens ∈ calls, tokens < 2 ^ 64) → MeteredContext.Accepts ⟨ctx, 0⟩ calls →
            calls.sum ≤ s.config.maxTokensPerJob := by
  intro h
  let metadata : Json := .obj [("max_tokens".toList, .num (.int 0))]
  have hctx :
    ((capped.dispatchJob undisturbed "u".toList "t".toList [] (some metadata)).2.contextManager.contexts.lookup
      undisturbed.jobId).isSome = true := by decide
  have hok : (capped.dispatchJob undisturbed "u".toList "t".toList [] (some metadata)).1 = .ok 7 := rfl
  have hunlimited := (dispatched_budget undisturbed hok _ (Option.some_get hctx).symm).trans
    (show capped.maxTokens (some metadata) = 0 by decide)
  have hsum := h capped (by decide) undisturbed "u".toList "t".toList [] (some metadata) 7 _ hok
    (Option.some_get hctx).symm [101] (by decide) (accepts_of_unlimited [101] hunlimited)
  revert hsum
  decide

end Ironclaw.Agent

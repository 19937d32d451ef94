import Ironclaw.Agent.ToolBatch

/-!
# Accounting for the calls of a batch

Every call of a batch has to be answered, by a message under its own id, or be part of the pending approval. The calls
before the first one that needs approval are `beforeApproval`, the others `fromApproval`.

- `preflight_spec`, `postflight_messages`: the preflight keeps ids and names, and each of its entries gets one message;
- `slot_ok_iff`: a slot holds an output exactly when its task delivered it, in whatever order the tasks end;
- `accounted_iff`: a batch is accounted for unless a result asks for a token while a call waits for approval;
- `token_request_drops_approval`: then the call that waits and the calls after it are lost.
-/

namespace Ironclaw.Agent

open Text Llm

variable (env : ChatEnv)

/-- The call stops the preflight. -/
def stopsForApproval (env : ChatEnv) (idx : Nat) (tc : ToolCall) : Bool :=
  match (preflightCall env idx tc).2 with
  | .approval _ _ => true
  | _ => false

/-- The calls before the first that needs approval. -/
def beforeApproval (env : ChatEnv) : (idx : Nat) → List ToolCall → List ToolCall
  | _, [] => []
  | idx, tc :: tcs => if stopsForApproval env idx tc then [] else tc :: beforeApproval env (idx + 1) tcs

/-- The first call that needs approval and those after it. -/
def fromApproval (env : ChatEnv) : (idx : Nat) → List ToolCall → List ToolCall
  | _, [] => []
  | idx, tc :: tcs => if stopsForApproval env idx tc then tc :: tcs else fromApproval env (idx + 1) tcs

theorem before_append_from : ∀ (idx : Nat) (tcs : List ToolCall),
    beforeApproval env idx tcs ++ fromApproval env idx tcs = tcs
  | _, [] => rfl
  | idx, tc :: tcs => by
    simp only [beforeApproval, fromApproval]
    split
    · rfl
    · rw [List.cons_append, before_append_from (idx + 1) tcs]

/-! ## What is to be shown -/

/-- The message is the result of the call, under its id. -/
def Answers (m : ChatMessage) (tc : ToolCall) : Prop :=
  m.role = .tool ∧ m.toolCallId = some tc.id ∧ m.name = some tc.name

/-- The runnable calls of a batch. -/
def runnableOf (env : ChatEnv) (tcs : List ToolCall) : List (Nat × ToolCall) :=
  runnableCalls 0 (preflightLoop env 0 tcs).1

/-- The task of a runnable call ends with the result. -/
def Ends (env : ChatEnv) (runnable : List (Nat × ToolCall)) (r : Nat × ToolCall) (result : ToolOutcome) : Prop :=
  if runnable.length ≤ 1 then env.executeChatTool r.2.name r.2.arguments = result
  else (r.1, some result) ∈ (env.joinAll runnable).ends

/-- The task of a runnable call delivers the output. -/
def Delivers (env : ChatEnv) (runnable : List (Nat × ToolCall)) (r : Nat × ToolCall) (output : Str) : Prop :=
  Ends env runnable r (.ok output)

/-- What comes of the call at a position of the batch: its rejection, the result of its task, or an error when its task
does not end. -/
inductive ResultAt (env : ChatEnv) (tcs : List ToolCall) (i : Nat) (tc : ToolCall) : ToolOutcome → Prop
  | rejected {message : Str} (h : (preflightCall env i tc).2 = .rejected message) :
      ResultAt env tcs i tc (.error message)
  | ended {result : ToolOutcome} (h : (preflightCall env i tc).2 = .runnable)
    (hend : Ends env (runnableOf env tcs) (i, (preflightCall env i tc).1) result) : ResultAt env tcs i tc result
  | lost (h : (preflightCall env i tc).2 = .runnable)
    (hlost : ∀ result, ¬Ends env (runnableOf env tcs) (i, (preflightCall env i tc).1) result) :
    ResultAt env tcs i tc (.error (executionFailed tc.name "Task failed during execution"))

/-- The batch answers the calls before the first that needs approval, one message each and in order, with what comes of
the call as its content, and the others are the pending approval and its deferred calls. -/
structure Accounted (env : ChatEnv) (tcs : List ToolCall) (content : Option Str) (st : ChatState) : Prop where
  answered : ∃ results, (executeToolCalls env tcs content st).state.messages =
      st.messages ++ .assistantWithToolCalls content tcs :: results ∧
    List.Forall₂ Answers results (beforeApproval env 0 tcs) ∧
    ∀ i m tc, results[i]? = some m → (beforeApproval env 0 tcs)[i]? = some tc →
      ∃ result, ResultAt env tcs i tc result ∧ m.content = (processToolResult env tc.name tc.id result).1
  pending : match fromApproval env 0 tcs with
    | [] => ∀ p, (executeToolCalls env tcs content st).outcome ≠ some (.needApproval p)
    | tc :: deferred => ∃ p, (executeToolCalls env tcs content st).outcome = some (.needApproval p) ∧
        p.toolCallId = tc.id ∧ p.toolName = tc.name ∧ p.deferredToolCalls = deferred ∧
        p.contextMessages = (executeToolCalls env tcs content st).state.messages

/-- Some runnable call delivers an output that asks for a token. -/
def AsksForToken (env : ChatEnv) (tcs : List ToolCall) : Prop :=
  ∃ r ∈ runnableOf env tcs, ∃ output, Delivers env (runnableOf env tcs) r output ∧
    (checkAuthRequired env r.2.name (.ok output)).isSome = true

/-! ## Preflight -/

theorem preflightCall_same (env : ChatEnv) (idx : Nat) (tc : ToolCall) :
    (preflightCall env idx tc).1.id = tc.id ∧ (preflightCall env idx tc).1.name = tc.name := by
  simp only [preflightCall]
  split
  · exact ⟨rfl, rfl⟩
  · exact ⟨rfl, rfl⟩
  · split <;> exact ⟨rfl, rfl⟩

/-- An entry of the preflight stands for the call. -/
def StandsFor (p : ToolCall × PreflightOutcome) (tc : ToolCall) : Prop := p.1.id = tc.id ∧ p.1.name = tc.name

/-- The preflight has one entry for each call before the first that needs approval, and stops there. -/
theorem preflight_spec : ∀ (idx : Nat) (tcs : List ToolCall),
    List.Forall₂ StandsFor (preflightLoop env idx tcs).1 (beforeApproval env idx tcs) ∧
      match fromApproval env idx tcs with
      | [] => (preflightLoop env idx tcs).2 = none
      | tc :: _ => ∃ a, (preflightLoop env idx tcs).2 = some a ∧
          a.idx = idx + (beforeApproval env idx tcs).length ∧ a.call.id = tc.id ∧ a.call.name = tc.name
  | _, [] => ⟨.nil, rfl⟩
  | idx, tc :: tcs => by
    obtain ⟨hpre, hap⟩ := preflight_spec (idx + 1) tcs
    have hsame := preflightCall_same env idx tc
    cases hcall : preflightCall env idx tc with
    | mk tc' verdict =>
      rw [hcall] at hsame
      cases verdict with
      | approval tool allowAlways =>
        have hstop : stopsForApproval env idx tc = true := by simp [stopsForApproval, hcall]
        simp only [preflightLoop, beforeApproval, fromApproval, hcall, hstop, if_true]
        exact ⟨.nil, _, rfl, rfl, hsame⟩
      | rejected message =>
        have hstop : stopsForApproval env idx tc = false := by simp [stopsForApproval, hcall]
        simp only [preflightLoop, beforeApproval, fromApproval, hcall, hstop, Bool.false_eq_true, if_false]
        refine ⟨.cons hsame hpre, ?_⟩
        split at hap
        · exact hap
        · obtain ⟨a, ha, hidx, hid⟩ := hap
          exact ⟨a, ha, by rw [hidx, List.length_cons]; omega, hid⟩
      | runnable =>
        have hstop : stopsForApproval env idx tc = false := by simp [stopsForApproval, hcall]
        simp only [preflightLoop, beforeApproval, fromApproval, hcall, hstop, Bool.false_eq_true, if_false]
        refine ⟨.cons hsame hpre, ?_⟩
        split at hap
        · exact hap
        · obtain ⟨a, ha, hidx, hid⟩ := hap
          exact ⟨a, ha, by rw [hidx, List.length_cons]; omega, hid⟩

/-- The verdict that an entry of the preflight stands for. -/
def PreflightOutcome.verdict : PreflightOutcome → Verdict
  | .rejected message => .rejected message
  | .runnable => .runnable

/-- What the preflight makes of the call at a position. -/
theorem preflight_getElem : ∀ {idx : Nat} {tcs : List ToolCall} {i : Nat} {p : ToolCall × PreflightOutcome}
    {tc : ToolCall}, (preflightLoop env idx tcs).1[i]? = some p → (beforeApproval env idx tcs)[i]? = some tc →
    preflightCall env (idx + i) tc = (p.1, p.2.verdict)
  | _, [], _, _, _, hp, _ => by cases hp
  | idx, tc' :: tcs, i, p, tc, hp, htc => by
    cases hcall : preflightCall env idx tc' with
    | mk call verdict =>
      have hentry : ∀ outcome : PreflightOutcome, verdict = outcome.verdict → stopsForApproval env idx tc' = false →
          ((call, outcome) :: (preflightLoop env (idx + 1) tcs).1)[i]? = some p →
          preflightCall env (idx + i) tc = (p.1, p.2.verdict) := by
        intro outcome hverdict hstop hp
        rw [beforeApproval, hstop, if_neg Bool.false_ne_true] at htc
        cases i with
        | zero =>
          obtain rfl := Option.some.inj hp
          obtain rfl := Option.some.inj htc
          rw [Nat.add_zero, hcall, hverdict]
        | succ i =>
          rw [Nat.add_comm i 1, ← Nat.add_assoc]
          exact preflight_getElem hp htc
      cases verdict with
      | approval tool allowAlways => simp [preflightLoop, hcall] at hp
      | rejected message =>
        refine hentry (.rejected message) rfl (by simp [stopsForApproval, hcall]) ?_
        simpa only [preflightLoop, hcall] using hp
      | runnable =>
        refine hentry .runnable rfl (by simp [stopsForApproval, hcall]) ?_
        simpa only [preflightLoop, hcall] using hp

theorem mem_runnableCalls : ∀ {idx : Nat} {pf : List (ToolCall × PreflightOutcome)} {i : Nat} {tc : ToolCall},
    pf[i]? = some (tc, .runnable) → (idx + i, tc) ∈ runnableCalls idx pf
  | _, [], _, _, h => by cases h
  | idx, (tc', outcome) :: pf, 0, tc, h => by
    obtain ⟨rfl, rfl⟩ := Prod.mk.inj (Option.some.inj h)
    exact List.mem_cons_self
  | idx, (tc', outcome) :: pf, i + 1, tc, h => by
    have hrest : (idx + 1 + i, tc) ∈ runnableCalls (idx + 1) pf := mem_runnableCalls h
    rw [Nat.add_comm i 1, ← Nat.add_assoc]
    cases outcome with
    | runnable => exact List.mem_cons_of_mem _ hrest
    | rejected message => exact hrest

/-- The positions of the runnable calls lie in the preflight and are distinct. -/
theorem runnableCalls_lt : ∀ (idx : Nat) (pf : List (ToolCall × PreflightOutcome)),
    ∀ r ∈ runnableCalls idx pf, idx ≤ r.1 ∧ r.1 < idx + pf.length
  | _, [], r, hr => by cases hr
  | idx, (tc, .runnable) :: pf, r, hr => by
    rcases List.mem_cons.mp hr with rfl | hr
    · exact ⟨Nat.le_refl _, by rw [List.length_cons]; omega⟩
    · have := runnableCalls_lt (idx + 1) pf r hr
      rw [List.length_cons]
      omega
  | idx, (tc, .rejected m) :: pf, r, hr => by
    have := runnableCalls_lt (idx + 1) pf r hr
    rw [List.length_cons]
    omega

theorem runnableCalls_nodup : ∀ (idx : Nat) (pf : List (ToolCall × PreflightOutcome)),
    ((runnableCalls idx pf).map Prod.fst).Nodup
  | _, [] => List.nodup_nil
  | idx, (tc, .runnable) :: pf => by
    refine List.nodup_cons.mpr ⟨fun h => ?_, runnableCalls_nodup (idx + 1) pf⟩
    obtain ⟨r, hr, hidx⟩ := List.mem_map.mp h
    have := runnableCalls_lt (idx + 1) pf r hr
    omega
  | idx, (tc, .rejected m) :: pf => runnableCalls_nodup (idx + 1) pf

/-! ## Slots -/

/-- The result at a position. -/
def slotAt (slots : Slots) (i : Nat) : Option ToolOutcome := slots[i]?.join

theorem slotAt_set {slots : Slots} {k : Nat} (hk : k < slots.length) (i : Nat) (r : ToolOutcome) :
    slotAt (slots.set k (some r)) i = if i = k then some r else slotAt slots i := by
  unfold slotAt
  rw [List.getElem?_set]
  by_cases h : i = k
  · simp [h, hk]
  · simp [h, Ne.symm h]

/-- Where keys are distinct, a key finds its entry. -/
theorem lookup_eq_some_iff_mem {β : Type*} {k : Nat} {b : β} : ∀ {l : List (Nat × β)}, (l.map Prod.fst).Nodup →
    (l.lookup k = some b ↔ (k, b) ∈ l)
  | [], _ => by simp
  | (k', b') :: l, hn => by
    obtain ⟨hk, hn⟩ := List.nodup_cons.mp hn
    rw [List.lookup_cons, List.mem_cons]
    by_cases h : k = k'
    · subst h
      have hnot : (k, b) ∉ l := fun hm => hk (List.mem_map.mpr ⟨(k, b), hm, rfl⟩)
      simp [hnot, eq_comm]
    · rw [beq_eq_false_iff_ne.mpr h]
      simp [h, lookup_eq_some_iff_mem hn]

/-- The collected results, whatever the order in which the tasks end. -/
theorem slotAt_collect (i : Nat) : ∀ (ends : List (Nat × Option ToolOutcome)) (slots : Slots),
    (ends.map Prod.fst).Nodup → (∀ e ∈ ends, e.1 < slots.length) →
      slotAt (collect slots ends) i = ((ends.lookup i).join).or (slotAt slots i)
  | [], _, _, _ => rfl
  | (k, o) :: ends, slots, hn, hlt => by
    obtain ⟨hk, hn⟩ := List.nodup_cons.mp hn
    have hklt : k < slots.length := hlt (k, o) List.mem_cons_self
    have hends : ∀ slots' : Slots, slots'.length = slots.length → slotAt (collect slots' ends) i =
        ((ends.lookup i).join).or (slotAt slots' i) := fun slots' hl =>
      slotAt_collect i ends slots' hn fun e he => hl ▸ hlt e (List.mem_cons_of_mem _ he)
    have hfail : collect slots ((k, none) :: ends) = collect slots ends := rfl
    have hdone : ∀ r, collect slots ((k, some r) :: ends) = collect (slots.set k (some r)) ends := fun r => rfl
    by_cases hik : i = k
    · have hnone : ends.lookup i = none := by
        rw [List.lookup_eq_none_iff]
        intro e he
        simp only [bne_iff_ne, ne_eq]
        rintro rfl
        exact hk (List.mem_map.mpr ⟨e, he, hik⟩)
      cases o with
      | none => rw [hfail, hends slots rfl, hnone, List.lookup_cons, hik, beq_self_eq_true]; rfl
      | some r =>
        rw [hdone, hends _ (List.length_set ..), hnone, List.lookup_cons, hik, beq_self_eq_true, slotAt_set hklt,
          if_pos rfl]
        rfl
    · have hbeq : (i == k) = false := beq_eq_false_iff_ne.mpr hik
      cases o with
      | none => rw [hfail, hends slots rfl, List.lookup_cons, hbeq]
      | some r => rw [hdone, hends _ (List.length_set ..), List.lookup_cons, hbeq, slotAt_set hklt, if_neg hik]

/-- Filling changes no other slot. -/
theorem slotAt_fillFailed_of_notMem {i : Nat} : ∀ {runnable : List (Nat × ToolCall)} (slots : Slots),
    i ∉ runnable.map Prod.fst → slotAt (fillFailed slots runnable) i = slotAt slots i
  | [], _, _ => rfl
  | r :: runnable, slots, h => by
    obtain ⟨hne, hrest⟩ := not_or.mp (mt List.mem_cons.mpr h)
    rw [fillFailed, List.foldl_cons, ← fillFailed, slotAt_fillFailed_of_notMem _ hrest]
    split
    next hr =>
      obtain ⟨hlt, -⟩ := List.getElem?_eq_some_iff.mp hr
      rw [slotAt_set hlt, if_neg hne]
    · rfl

/-- A slot that is still empty is filled with an error. -/
theorem slotAt_fillFailed {r : Nat × ToolCall} : ∀ {runnable : List (Nat × ToolCall)} {slots : Slots},
    (runnable.map Prod.fst).Nodup → r ∈ runnable → r.1 < slots.length → slotAt (fillFailed slots runnable) r.1 =
      some ((slotAt slots r.1).getD (.error (executionFailed r.2.name "Task failed during execution")))
  | [], _, _, hr, _ => by cases hr
  | q :: runnable, slots, hn, hr, hlt => by
    obtain ⟨hq, hn⟩ := List.nodup_cons.mp hn
    rw [fillFailed, List.foldl_cons, ← fillFailed]
    rcases List.mem_cons.mp hr with rfl | hr
    · rw [slotAt_fillFailed_of_notMem _ hq]
      split
      next hempty =>
        rw [slotAt_set hlt, if_pos rfl]
        simp [slotAt, hempty]
      next hfull =>
        cases hslot : slots[r.1]? with
        | none => exact absurd hlt (Nat.not_lt.mpr (List.getElem?_eq_none_iff.mp hslot))
        | some result =>
          cases result with
          | none => exact absurd hslot hfull
          | some result => simp [slotAt, hslot]
    · have hne : r.1 ≠ q.1 := fun h => hq (List.mem_map.mpr ⟨r, hr, h⟩)
      split
      next hempty =>
        rw [slotAt_fillFailed hn hr (by rwa [List.length_set])]
        rw [slotAt_set (List.getElem?_eq_some_iff.mp hempty).1, if_neg hne]
      · exact slotAt_fillFailed hn hr hlt

section Slot

variable (pf : List (ToolCall × PreflightOutcome)) {r : Nat × ToolCall} (hr : r ∈ runnableCalls 0 pf)

include hr

theorem lt_of_runnable : r.1 < (List.replicate pf.length (none : Option ToolOutcome)).length := by
  have h := runnableCalls_lt 0 pf r hr
  rw [List.length_replicate]
  omega

/-- The slot of a runnable call holds the result with which its task ends, in whatever order the tasks end, or an error
when it does not. -/
theorem slot_eq : ∃ result, slotAt (execute env pf.length (runnableCalls 0 pf)) r.1 = some result ∧
    (Ends env (runnableCalls 0 pf) r result ∨ (∀ result, ¬Ends env (runnableCalls 0 pf) r result) ∧
      result = .error (executionFailed r.2.name "Task failed during execution")) := by
  unfold execute Ends
  split
  next hlen =>
    -- a single runnable call
    obtain ⟨q, hq⟩ : ∃ q, runnableCalls 0 pf = [q] := by
      cases hrun : runnableCalls 0 pf with
      | nil => rw [hrun] at hr; cases hr
      | cons q qs =>
        rw [hrun, List.length_cons] at hlen
        rw [List.length_eq_zero_iff.mp (by omega : qs.length = 0)]
        exact ⟨q, rfl⟩
    have hrq : r = q := by
      rw [hq] at hr
      exact List.mem_singleton.mp hr
    refine ⟨_, ?_, .inl rfl⟩
    rw [hq, List.foldl_cons, List.foldl_nil, ← hrq, slotAt_set (lt_of_runnable pf hr), if_pos rfl]
  · have hmem : ∀ q ∈ runnableCalls 0 pf, q.1 < (List.replicate pf.length (none : Option ToolOutcome)).length :=
      fun q hq => lt_of_runnable pf hq
    obtain ⟨ends, hperm⟩ := env.joinAll (runnableCalls 0 pf)
    have hn : (ends.map Prod.fst).Nodup := hperm.nodup_iff.mpr (runnableCalls_nodup 0 pf)
    have hends : ∀ e ∈ ends, e.1 < (List.replicate pf.length (none : Option ToolOutcome)).length := by
      intro e he
      obtain ⟨q, hq, hqe⟩ := List.mem_map.mp (hperm.mem_iff.mp (List.mem_map_of_mem he))
      rw [← hqe]
      exact hmem q hq
    have hempty : slotAt (List.replicate pf.length none) r.1 = none := by
      unfold slotAt
      rw [List.getElem?_replicate]
      split <;> rfl
    have hlen : ∀ (ends : List (Nat × Option ToolOutcome)) (slots : Slots), (collect slots ends).length =
        slots.length := by
      intro ends
      induction ends with
      | nil => exact fun _ => rfl
      | cons e ends ih =>
        intro slots
        rw [collect, List.foldl_cons, ← collect, ih]
        split
        · rfl
        · exact List.length_set ..
    refine ⟨_, slotAt_fillFailed (runnableCalls_nodup 0 pf) hr ((hlen ends _).symm ▸ lt_of_runnable pf hr), ?_⟩
    rw [slotAt_collect r.1 ends _ hn hends, hempty, Option.or_none]
    cases hlookup : (ends.lookup r.1).join with
    | some result => exact .inl ((lookup_eq_some_iff_mem hn).mp (Option.join_eq_some_iff.mp hlookup))
    | none =>
      refine .inr ⟨fun result hmem => ?_, rfl⟩
      rw [(lookup_eq_some_iff_mem hn).mpr hmem] at hlookup
      cases hlookup

omit hr in
/-- The task of a call ends in one way. -/
theorem Ends.unique {a b : ToolOutcome} (ha : Ends env (runnableCalls 0 pf) r a)
    (hb : Ends env (runnableCalls 0 pf) r b) :
    a = b := by
  unfold Ends at ha hb
  split at ha
  next hlen =>
    rw [if_pos hlen] at hb
    exact ha.symm.trans hb
  next hlen =>
    rw [if_neg hlen] at hb
    have hn : ((env.joinAll (runnableCalls 0 pf)).ends.map Prod.fst).Nodup :=
      (env.joinAll (runnableCalls 0 pf)).perm.nodup_iff.mpr (runnableCalls_nodup 0 pf)
    have hlookup := (lookup_eq_some_iff_mem hn).mpr ha
    rw [(lookup_eq_some_iff_mem hn).mpr hb] at hlookup
    exact (Option.some.inj (Option.some.inj hlookup)).symm

/-- A slot holds an output exactly when the task of its call delivers it. -/
theorem slot_ok_iff (output : Str) : slotAt (execute env pf.length (runnableCalls 0 pf)) r.1 = some (.ok output) ↔
    Delivers env (runnableCalls 0 pf) r output := by
  obtain ⟨result, hslot, hresult⟩ := slot_eq env pf hr
  rw [hslot, Option.some_inj, Delivers]
  rcases hresult with hend | ⟨hnone, rfl⟩
  · constructor
    · rintro rfl
      exact hend
    · exact fun h => Ends.unique env pf hend h
  · exact iff_of_false nofun (hnone _)

end Slot

/-! ## Post-flight -/

/-- What the post-flight takes as the result of an entry of the preflight. -/
def resultOf (slots : Slots) (idx : Nat) : ToolCall × PreflightOutcome → ToolOutcome
  | (_, .rejected message) => .error message
  | (tc, .runnable) => (slots[idx]?.join).getD (.error (executionFailed tc.name "No result available"))

/-- The message of an entry. -/
def messageOf (slots : Slots) (idx : Nat) (p : ToolCall × PreflightOutcome) : ChatMessage :=
  (processToolResult env p.1.name p.1.id (resultOf slots idx p)).2

/-- Each entry of the preflight gets one message, in order. -/
theorem postflight_messages (slots : Slots) : ∀ (idx : Nat) (pf : List (ToolCall × PreflightOutcome)) (st : ChatState)
    (auth : Option Str), (postflight env slots idx pf st auth).1.messages =
      st.messages ++ pf.mapIdx fun i => messageOf env slots (idx + i)
  | _, [], st, _ => (List.append_nil _).symm
  | idx, (tc, .rejected message) :: pf, st, auth => by
    have hrest := fun st' => postflight_messages slots (idx + 1) pf st' auth
    rw [postflight, hrest, List.mapIdx_cons, List.append_assoc]
    simp only [Nat.add_assoc, Nat.add_comm 1]
    rfl
  | idx, (tc, .runnable) :: pf, st, auth => by
    have hrest := postflight_messages slots (idx + 1) pf
    rw [postflight, hrest, List.mapIdx_cons, List.append_assoc]
    simp only [Nat.add_assoc, Nat.add_comm 1]
    rfl

/-- An error asks for no token. -/
theorem checkAuthRequired_error (name e : Str) : checkAuthRequired env name (.error e) = none := by
  unfold checkAuthRequired
  split <;> rfl

/-- The loop ends with instructions when one of the results asks for a token. -/
theorem postflight_auth (slots : Slots) : ∀ (idx : Nat) (pf : List (ToolCall × PreflightOutcome)) (st : ChatState)
    (auth : Option Str), (postflight env slots idx pf st auth).2.isSome = true ↔
      auth.isSome = true ∨ ∃ r ∈ runnableCalls idx pf, ∃ output, slotAt slots r.1 = some (.ok output) ∧
        (checkAuthRequired env r.2.name (.ok output)).isSome = true
  | _, [], _, auth => by simp [postflight, runnableCalls]
  | idx, (tc, .rejected message) :: pf, st, auth => by
    simp only [postflight, runnableCalls]
    exact postflight_auth slots (idx + 1) pf _ auth
  | idx, (tc, .runnable) :: pf, st, auth => by
    have hcheck : (checkAuthRequired env tc.name ((slots[idx]?.join).getD
        (.error (executionFailed tc.name "No result available")))).isSome = true ↔
          ∃ output, slotAt slots idx = some (.ok output) ∧
          (checkAuthRequired env tc.name (.ok output)).isSome = true := by
      unfold slotAt
      cases slots[idx]?.join with
      | none => simp [checkAuthRequired_error]
      | some result => cases result <;> simp [checkAuthRequired_error]
    simp only [postflight, runnableCalls, List.exists_mem_cons_iff]
    rw [postflight_auth slots (idx + 1) pf, ← hcheck, ← or_assoc]
    refine or_congr_left ?_
    cases auth with
    | none => simp
    | some instructions => simp

/-! ## The batch -/

/-- The state before the post-flight. -/
def recorded (env : ChatEnv) (tcs : List ToolCall) (content : Option Str) (st : ChatState) : ChatState :=
  { st with
    messages := st.messages ++ [.assistantWithToolCalls content tcs]
    turn := st.turn.map (recordCalls env (narrativeOf env content) tcs) }

/-- The post-flight of a batch. -/
def settled (env : ChatEnv) (tcs : List ToolCall) (content : Option Str) (st : ChatState) : ChatState × Option Str :=
  postflight env (execute env (preflightLoop env 0 tcs).1.length (runnableOf env tcs)) 0 (preflightLoop env 0 tcs).1
    (recorded env tcs content st) none

theorem state_executeToolCalls (tcs : List ToolCall) (content : Option Str) (st : ChatState) :
    (executeToolCalls env tcs content st).state = (settled env tcs content st).1 := by
  simp only [executeToolCalls, settled, runnableOf, recorded]
  split
  · rfl
  · split <;> rfl

theorem settled_auth (tcs : List ToolCall) (content : Option Str) (st : ChatState) :
    (settled env tcs content st).2.isSome = true ↔ AsksForToken env tcs := by
  unfold settled AsksForToken
  rw [postflight_auth]
  simp only [Option.isSome_none, Bool.false_eq_true, false_or]
  refine exists_congr fun r => and_congr_right fun hr => exists_congr fun output => ?_
  exact and_congr_left fun _ => slot_ok_iff env _ hr output

/-- The outcome of a batch. -/
theorem outcome_executeToolCalls (tcs : List ToolCall) (content : Option Str) (st : ChatState) :
    (executeToolCalls env tcs content st).outcome =
      match (settled env tcs content st).2, (preflightLoop env 0 tcs).2 with
      | some instructions, _ => some (.response instructions)
      | none, none => none
      | none, some a => some (.needApproval
          { toolName := a.call.name
            parameters := a.call.arguments
            displayParameters := redactParams a.call.arguments a.tool.sensitiveParams
            description := a.tool.description
            toolCallId := a.call.id
            contextMessages := (settled env tcs content st).1.messages
            deferredToolCalls := tcs.drop (a.idx + 1)
            userTimezone := some env.userTimezone
            allowAlways := a.allowAlways }) := by
  simp only [executeToolCalls, settled, runnableOf, recorded]
  split
  next h => rw [h]
  next h =>
    rw [h]
    cases (preflightLoop env 0 tcs).2 <;> rfl

/-- The message of a call has what comes of the call as its content. -/
theorem content_messageOf (tcs : List ToolCall) {i : Nat} {p : ToolCall × PreflightOutcome} {tc : ToolCall}
    (hp : (preflightLoop env 0 tcs).1[i]? = some p) (htc : (beforeApproval env 0 tcs)[i]? = some tc) :
    ∃ result, ResultAt env tcs i tc result ∧
      (messageOf env (execute env (preflightLoop env 0 tcs).1.length (runnableOf env tcs)) i p).content =
        (processToolResult env tc.name tc.id result).1 := by
  have hcall := preflight_getElem env hp htc
  rw [Nat.zero_add] at hcall
  obtain ⟨call, outcome⟩ := p
  have houtcome : (preflightCall env i tc).2 = outcome.verdict := congrArg Prod.snd hcall
  obtain rfl : call = (preflightCall env i tc).1 := (congrArg Prod.fst hcall).symm
  obtain ⟨hid, hname⟩ := preflightCall_same env i tc
  cases outcome with
  | rejected message =>
    refine ⟨.error message, .rejected houtcome, ?_⟩
    rw [← hid, ← hname]
    rfl
  | runnable =>
    have hmem : (i, (preflightCall env i tc).1) ∈ runnableOf env tcs := by
      have h : (0 + i, (preflightCall env i tc).1) ∈ runnableOf env tcs := mem_runnableCalls hp
      rwa [Nat.zero_add] at h
    obtain ⟨result, hslot, hresult⟩ := slot_eq env _ hmem
    have hresultOf : resultOf (execute env (preflightLoop env 0 tcs).1.length (runnableOf env tcs)) i
        ((preflightCall env i tc).1, .runnable) = result := by
      show (slotAt _ i).getD _ = result
      rw [runnableOf, hslot]
      rfl
    refine ⟨result, ?_, ?_⟩
    · rcases hresult with hend | ⟨hlost, rfl⟩
      · exact .ended houtcome hend
      · rw [hname]
        exact .lost houtcome hlost
    · rw [messageOf, hresultOf, ← hid, ← hname]
      rfl

/-- Every batch answers the calls before the first that needs approval. -/
theorem answered_executeToolCalls (tcs : List ToolCall) (content : Option Str) (st : ChatState) :
    ∃ results, (executeToolCalls env tcs content st).state.messages =
        st.messages ++ .assistantWithToolCalls content tcs :: results ∧
      List.Forall₂ Answers results (beforeApproval env 0 tcs) ∧
      ∀ i m tc, results[i]? = some m → (beforeApproval env 0 tcs)[i]? = some tc →
        ∃ result, ResultAt env tcs i tc result ∧ m.content = (processToolResult env tc.name tc.id result).1 := by
  obtain ⟨hpre, -⟩ := preflight_spec env 0 tcs
  have hm := postflight_messages env (execute env (preflightLoop env 0 tcs).1.length (runnableOf env tcs)) 0
    (preflightLoop env 0 tcs).1 (recorded env tcs content st) none
  simp only [Nat.zero_add] at hm
  refine ⟨(preflightLoop env 0 tcs).1.mapIdx
    (messageOf env (execute env (preflightLoop env 0 tcs).1.length (runnableOf env tcs))), ?_, ?_, ?_⟩
  · rw [state_executeToolCalls]
    refine hm.trans ?_
    rw [recorded, List.append_assoc, List.singleton_append]
  · refine List.forall₂_iff_get.mpr ⟨?_, fun i hi hi' => ?_⟩
    · rw [List.length_mapIdx, hpre.length_eq]
    · rw [List.length_mapIdx] at hi
      obtain ⟨hid, hname⟩ := hpre.get hi hi'
      rw [List.get_eq_getElem, List.getElem_mapIdx]
      exact ⟨rfl, congrArg some hid, congrArg some hname⟩
  · intro i m tc hresult htc
    rw [List.getElem?_mapIdx] at hresult
    obtain ⟨p, hp, rfl⟩ := Option.map_eq_some_iff.mp hresult
    exact content_messageOf env tcs hp htc

/-- **Accounting.** A batch is accounted for unless a result asks for a token while a call needs approval. -/
theorem accounted_iff (env : ChatEnv) (tcs : List ToolCall) (content : Option Str) (st : ChatState) :
    Accounted env tcs content st ↔ ¬(AsksForToken env tcs ∧ fromApproval env 0 tcs ≠ []) := by
  obtain ⟨-, hap⟩ := preflight_spec env 0 tcs
  have hsplit := before_append_from env 0 tcs
  have hauth := settled_auth env tcs content st
  have hout := outcome_executeToolCalls env tcs content st
  constructor
  · rintro ⟨-, hpending⟩ ⟨hask, hne⟩
    cases hfrom : fromApproval env 0 tcs with
    | nil => exact hne hfrom
    | cons tc deferred =>
      rw [hfrom] at hpending
      obtain ⟨p, hp, -⟩ := hpending
      obtain ⟨instructions, hi⟩ := Option.isSome_iff_exists.mp (hauth.mpr hask)
      rw [hout, hi] at hp
      cases hp
  · intro hnot
    refine ⟨answered_executeToolCalls env tcs content st, ?_⟩
    cases hfrom : fromApproval env 0 tcs with
    | nil =>
      rw [hfrom] at hap
      intro p hp
      rw [hout, hap] at hp
      cases hs : (settled env tcs content st).2 <;> rw [hs] at hp <;> cases hp
    | cons tc deferred =>
      rw [hfrom] at hap hsplit
      obtain ⟨a, ha, hidx, hid, hname⟩ := hap
      have hnone : (settled env tcs content st).2 = none := by
        rw [← Option.not_isSome_iff_eq_none, hauth]
        exact fun hask => hnot ⟨hask, by rw [hfrom]; exact List.cons_ne_nil _ _⟩
      rw [hnone, ha] at hout
      refine ⟨_, hout, hid, hname, ?_, ?_⟩
      · have hdrop : (beforeApproval env 0 tcs ++ tc :: deferred).drop ((beforeApproval env 0 tcs).length + 1) =
            deferred := by simp [List.drop_append]
        rw [hsplit] at hdrop
        rw [hidx, Nat.zero_add]
        exact hdrop
      · rw [state_executeToolCalls]

/-! ## A token request and an approval in one batch -/

/-- The output of `tool_auth` for an extension that waits for a token. -/
def awaitingToken : Str := "\x7b\n  \"awaiting_token\": true,\n  \"name\": \"gmail\"\n\x7d".toList

/-- Tasks that end in the order in which they were started, with the given results. -/
def inOrder (exec : ToolCall → ToolOutcome) (runnable : List (Nat × ToolCall)) : JoinOutcome runnable where
  ends := runnable.map fun r => (r.1, some (exec r.2))
  perm := by
    rw [List.map_map]
    exact List.Perm.refl _

/-- `tool_auth` needs no approval and asks for a token, `tool_install` needs approval, no hook interferes. -/
def gateway : ChatEnv where
  getTool name :=
    if name = "tool_auth".toList then some ⟨[], [], fun _ => .never⟩
    else if name = "tool_install".toList then some ⟨[], [], fun _ => .unlessAutoApproved⟩
    else none
  runHooks _ _ := .proceed none
  parseJson text :=
    if text = awaitingToken then
      some (.obj [("awaiting_token".toList, .bool true), ("name".toList, .str "gmail".toList)])
    else none
  autoApproveTools := false
  isToolAutoApproved _ _ := false
  userId := "alice".toList
  channel := "gateway".toList
  metadata := .null
  userTimezone := "UTC".toList
  executeChatTool _ _ := .ok awaitingToken
  joinAll := inOrder fun _ => .ok awaitingToken
  sanitizeToolOutput _ output := output
  wrapForLlm _ content := content

def authThenInstall : List ToolCall :=
  [⟨"call_1".toList, "tool_auth".toList, .obj [("name".toList, .str "gmail".toList)], none⟩,
    ⟨"call_2".toList, "tool_install".toList, .obj [("name".toList, .str "slack".toList)], none⟩]

/-- The batch ends with the instructions: the second call is neither answered nor pending. -/
theorem token_request_drops_approval :
    (executeToolCalls gateway authThenInstall none ⟨[], none, none, []⟩).outcome =
        some (.response "Please provide your API token/key.".toList) ∧
      (executeToolCalls gateway authThenInstall none ⟨[], none, none, []⟩).state.messages.map ChatMessage.toolCallId =
        [none, some "call_1".toList] ∧
      ¬Accounted gateway authThenInstall none ⟨[], none, none, []⟩ := by
  refine ⟨by decide, by decide, fun h => ?_⟩
  obtain ⟨p, hp, -⟩ := h.pending
  have hout : (executeToolCalls gateway authThenInstall none ⟨[], none, none, []⟩).outcome =
      some (.response "Please provide your API token/key.".toList) := by decide
  rw [hout] at hp
  cases hp

end Ironclaw.Agent

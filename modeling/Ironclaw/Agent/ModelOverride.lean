import Ironclaw.Agent.Attenuation

/-!
# The model a user selected

`ChatDelegate::call_llm` looks the user's model up in iteration 0, and `run_agentic_loop` counts its iterations from 1.

- `turn_requests_model`: the requests of a turn carry the override of the context it starts with, also after a
  compaction, and that context has none;
- `sends_request`: when a turn sends a request;
- `selection_reaches_iff`: the requests carry the selected model exactly when none is selected or no request is sent.
-/

namespace Ironclaw.Agent

open Text Llm

/-- The override that a setting `selected_model` asks for: a text, trimmed, that is not blank. -/
def selectedOverride (setting : Option Json) : Option Str :=
  ((setting.bind Json.asStr).map trim).filter fun m => !m.isEmpty

/-- The inputs of a turn of a user with this setting. -/
def withSetting (setting : Option Json) (inputs : Nat → IterationInput) (i : Nat) : IterationInput :=
  { inputs i with selectedModel := setting }

/-- Every request asks for the selected model, and for none without a selection. -/
def SelectionReaches (setting : Option Json) (requests : List Request) : Prop :=
  ∀ r ∈ requests, r.model = selectedOverride setting

/-- The turn ends before its first call to the model: it has no iteration, it is interrupted, or the cost guard
refuses. -/
def EndsBeforeCall (cfg : ChatConfig) (inputs : Nat → IterationInput) : Prop :=
  cfg.loopConfig.maxIterations = 0 ∨ (inputs 1).interrupted = true ∨ (inputs 1).costLimit ≠ none

variable {cfg : ChatConfig} {inputs : Nat → IterationInput} {tools : List ToolDefinition}

/-- The signals of a chat turn inject no message. -/
theorem checkSignals_ne_inject (cfg : ChatConfig) (tools : List ToolDefinition) (inputs : Nat → IterationInput)
    (s : ChatDelegate) (message : Str) :
    ((chatDelegate cfg tools inputs).checkSignals s).1 ≠ .injectMessage message := by
  simp only [chatDelegate]
  split <;> exact fun h => by cases h

/-! ## What the requests carry -/

variable (inputs) in
/-- Past iteration 0 nothing is looked up. -/
theorem modelOverride_pos {i : Nat} (hi : 0 < i) (ctx : ReasoningContext) :
    modelOverride inputs i ctx = ctx.modelOverride := by
  unfold modelOverride
  rw [if_neg (Nat.ne_of_gt hi)]
  rfl

variable (cfg inputs) in
/-- A call to the model keeps the override, and its requests carry it. -/
theorem callLlm_model (s : ChatDelegate) (ctx : ReasoningContext) {i : Nat} (hi : 0 < i) :
    (s.callLlm cfg inputs ctx i).ctx.modelOverride = ctx.modelOverride ∧
      ∀ r ∈ (s.callLlm cfg inputs ctx i).state.requests, r ∈ s.requests ∨ r.model = ctx.modelOverride := by
  have hover := modelOverride_pos inputs hi ctx
  have hsent : ∀ (reqs : List Request) (new : Request), new.model = ctx.modelOverride →
      (∀ r ∈ reqs, r ∈ s.requests ∨ r.model = ctx.modelOverride) →
      ∀ r ∈ reqs ++ [new], r ∈ s.requests ∨ r.model = ctx.modelOverride := by
    intro reqs new hnew hreqs r hr
    rcases List.mem_append.mp hr with hr | hr
    · exact hreqs r hr
    · rw [List.mem_singleton.mp hr]
      exact .inr hnew
  have hfirst := hsent s.requests
    (requestOf cfg.buildPrompt { ctx with modelOverride := modelOverride inputs i ctx }) hover fun r hr => .inl hr
  unfold ChatDelegate.callLlm
  split
  · exact ⟨rfl, fun r hr => .inl hr⟩
  · simp only
    split
    · exact ⟨hover, hsent _ _ hover hfirst⟩
    · exact ⟨hover, hfirst⟩

/-- The override `m` stays in the context, and the requests so far carry it. -/
def Carries (m : Option Str) (ctx : ReasoningContext) (s : ChatDelegate) : Prop :=
  ctx.modelOverride = m ∧ ∀ r ∈ s.requests, r.model = m

theorem maintains_carries (m : Option Str) : Maintains (chatDelegate cfg tools inputs) (Carries m) where
  signals _ _ hs := hs
  inject _ s message _ h := absurd h (checkSignals_ne_inject cfg tools inputs s message)
  before s ctx i _ hs := hs
  call s ctx i hi hs := by
    obtain ⟨hctx, hreqs⟩ := callLlm_model cfg inputs s ctx hi
    refine ⟨hctx.trans hs.1, fun r hr => ?_⟩
    rcases hreqs r hr with hr | hr
    · exact hs.2 r hr
    · exact hr.trans hs.1
  text s ctx t hs := hs
  exec s ctx calls content hs := hs
  nudge s ctx t hs := hs
  truncated s ctx content hs := hs
  force s ctx hs := hs
  after s ctx i hs := hs

/-- **No override is ever loaded.** The requests of a turn carry the override its context starts with, and there is
none. -/
theorem turn_requests_model (cfg : ChatConfig) (inputs : Nat → IterationInput) (turn : Option Turn)
    (pendingAuth : Option Str) (messages : List ChatMessage) :
    ∀ r ∈ (chatTurn cfg inputs turn pendingAuth messages).2.requests, r.model = none := by
  have hstart : Carries none (initialContext cfg (inputs 0).toolDefinitions messages)
      ⟨turn, pendingAuth, [], 0, [], []⟩ := ⟨rfl, fun r hr => by cases hr⟩
  exact (runAgenticLoop_stays cfg.replyText cfg.loopConfig (maintains_carries none) hstart).2

/-! ## When a request is sent -/

/-- A turn that has sent a request has sent one at its end. -/
theorem maintains_sent : Maintains (chatDelegate cfg tools inputs) (fun _ s => s.requests ≠ []) where
  signals _ _ hs := hs
  inject _ s message _ h := absurd h (checkSignals_ne_inject cfg tools inputs s message)
  before s ctx i _ hs := hs
  call s ctx i _ hs := by
    show (s.callLlm cfg inputs ctx i).state.requests ≠ []
    unfold ChatDelegate.callLlm
    split
    · exact hs
    · simp only
      split
      · exact List.append_ne_nil_of_right_ne_nil _ (List.cons_ne_nil _ _)
      · exact List.append_ne_nil_of_right_ne_nil _ (List.cons_ne_nil _ _)
  text s ctx t hs := hs
  exec s ctx calls content hs := hs
  nudge s ctx t hs := hs
  truncated s ctx content hs := hs
  force s ctx hs := hs
  after s ctx i hs := hs

/-- A call that the cost guard lets through sends a request. -/
theorem callLlm_sent {s : ChatDelegate} {ctx : ReasoningContext} {i : Nat} (h : (inputs i).costLimit = none) :
    (s.callLlm cfg inputs ctx i).state.requests ≠ [] := by
  unfold ChatDelegate.callLlm
  rw [h]
  simp only
  split
  · exact List.append_ne_nil_of_right_ne_nil _ (List.cons_ne_nil _ _)
  · exact List.append_ne_nil_of_right_ne_nil _ (List.cons_ne_nil _ _)

/-- A turn sends no request exactly when it ends before its first call. -/
theorem sends_request (cfg : ChatConfig) (inputs : Nat → IterationInput) (turn : Option Turn) (pendingAuth : Option Str)
    (messages : List ChatMessage) :
    (chatTurn cfg inputs turn pendingAuth messages).2.requests = [] ↔ EndsBeforeCall cfg inputs := by
  have hsignal :
    ∀ s : ChatDelegate, (chatDelegate cfg (offeredTools cfg (inputs 0).toolDefinitions) inputs).checkSignals s =
    (if (inputs (s.iteration + 1)).interrupted then .stop else .proceed, s) := fun _ => rfl
  constructor
  · intro hnone
    by_contra hcall
    simp only [EndsBeforeCall, not_or, not_not] at hcall
    obtain ⟨hmax, hint, hcost⟩ := hcall
    obtain ⟨n, hn⟩ := Nat.exists_eq_succ_of_ne_zero hmax
    have hfirst : (iterate (chatDelegate cfg (offeredTools cfg (inputs 0).toolDefinitions) inputs) cfg.replyText
        cfg.loopConfig
        ⟨initialContext cfg (inputs 0).toolDefinitions messages, ⟨turn, pendingAuth, [], 0, [], []⟩, 0, 0⟩
        1).Stays fun _ s => s.requests ≠ [] := by
      simp only [iterate, hsignal, if_neg hint]
      exact respond_stays cfg.replyText cfg.loopConfig maintains_sent (fun o ho => by cases ho) (callLlm_sent hcost) 0 0
    refine absurd hnone ?_
    simp only [chatTurn, runAgenticLoop, hn]
    exact loop_succ_stays cfg.replyText cfg.loopConfig hfirst
      fun st' => loop_stays cfg.replyText cfg.loopConfig maintains_sent n 2 st' (by omega)
  · intro hend
    simp only [chatTurn, runAgenticLoop]
    cases hmax : cfg.loopConfig.maxIterations with
    | zero => rfl
    | succ n =>
      rcases hend with hzero | hint | hcost
      · rw [hmax] at hzero
        cases hzero
      · simp only [loop, iterate, hsignal, if_pos hint]
      · obtain ⟨limit, hlimit⟩ := Option.ne_none_iff_exists'.mp hcost
        simp only [loop, iterate, hsignal]
        by_cases hint : (inputs 1).interrupted = true
        · simp only [if_pos hint]
        · simp only [if_neg hint, respond, chatDelegate, ChatDelegate.beforeLlmCall, ChatDelegate.callLlm, hlimit]

/-! ## The selection -/

/-- **Model selection.** The requests of a turn carry the user's selection exactly when the user selected no model, or
the turn ends before its first call. -/
theorem selection_reaches_iff (setting : Option Json) (cfg : ChatConfig) (inputs : Nat → IterationInput)
    (turn : Option Turn) (pendingAuth : Option Str) (messages : List ChatMessage) :
    SelectionReaches setting (chatTurn cfg (withSetting setting inputs) turn pendingAuth messages).2.requests ↔
      selectedOverride setting = none ∨ EndsBeforeCall cfg inputs := by
  have hmodel := turn_requests_model cfg (withSetting setting inputs) turn pendingAuth messages
  have hsent : (chatTurn cfg (withSetting setting inputs) turn pendingAuth messages).2.requests = [] ↔
      EndsBeforeCall cfg inputs := sends_request cfg (withSetting setting inputs) turn pendingAuth messages
  constructor
  · intro h
    by_cases hnone : (chatTurn cfg (withSetting setting inputs) turn pendingAuth messages).2.requests = []
    · exact .inr (hsent.mp hnone)
    · obtain ⟨r, hr⟩ := List.exists_mem_of_ne_nil _ hnone
      exact .inl ((h r hr).symm.trans (hmodel r hr))
  · rintro (hnone | hend) r hr
    · rw [hnone]
      exact hmodel r hr
    · rw [hsent.mpr hend] at hr
      cases hr

/-- A user selected a model; the turn's request does not name it. -/
theorem selection_ignored :
    selectedOverride (some (.str " gpt-5 ".toList)) = some "gpt-5".toList ∧
      ¬SelectionReaches (some (.str " gpt-5 ".toList))
        (chatTurn installedTurn (withSetting (some (.str " gpt-5 ".toList)) (calling "time".toList false)) none none
          [.user "What time is it?".toList]).2.requests := by
  have hselected : selectedOverride (some (.str " gpt-5 ".toList)) = some "gpt-5".toList := by decide
  refine ⟨hselected, fun h => ?_⟩
  have hsent : ¬EndsBeforeCall installedTurn
      (withSetting (some (.str " gpt-5 ".toList)) (calling "time".toList false)) := by
    rintro (hmax | hint | hcost)
    · exact absurd hmax (by decide)
    · cases hint
    · exact hcost rfl
  have hne := mt (sends_request installedTurn (withSetting (some (.str " gpt-5 ".toList)) (calling "time".toList false))
    none none [.user "What time is it?".toList]).mp hsent
  obtain ⟨r, hr⟩ := List.exists_mem_of_ne_nil _ hne
  have hr' := h r hr
  rw [turn_requests_model _ _ _ _ _ r hr, hselected] at hr'
  cases hr'

end Ironclaw.Agent

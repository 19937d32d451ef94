import Ironclaw.Agent.ChatDelegate
import Ironclaw.Agent.ToolAccounting

/-!
# Attenuation over a turn

Under an installed skill only read-only tools are offered. What a turn executes is decided later, when the calls of a
reply are looked up by name in the registry.

- `attenuateTools_readOnly`: the tools offered under an installed skill are read-only;
- `batch_calls`: a batch executes, or defers, only calls it was given;
- `turn_attenuated`: a turn stays within the read-only tools when the structured calls of the model do;
- `shell_runs_under_installed_skill`: the registry's other tools run when the model names them.
-/

namespace Ironclaw.Agent

open Text Llm
open Skills (SkillTrust)

/-! ## The offered tools -/

theorem min?_installed : ∀ (ts : List SkillTrust), .installed ∈ ts → ts.min? = some .installed
  | t :: ts, h => by
    have hfold : ∀ ts : List SkillTrust, ts.foldl min SkillTrust.installed = .installed := by
      intro ts
      induction ts with
      | nil => rfl
      | cons u us ih => exact ih
    have hmem : ∀ (ts : List SkillTrust) (t : SkillTrust), .installed ∈ t :: ts → ts.foldl min t = .installed := by
      intro ts
      induction ts with
      | nil =>
        intro t ht
        exact (List.mem_singleton.mp ht).symm
      | cons u us ih =>
        intro t ht
        cases t with
        | installed => exact hfold (u :: us)
        | trusted =>
          refine ih u ?_
          rcases List.mem_cons.mp ht with ht | ht
          · cases ht
          · exact ht
    exact congrArg some (hmem ts t h)

/-- With an installed skill active, only read-only tools are kept. -/
theorem attenuateTools_readOnly {tools : List ToolDefinition} {skills : List LoadedSkill}
    (h : ∃ sk ∈ skills, sk.trust = .installed) :
    ∀ t ∈ (attenuateTools tools skills).tools, t.name ∈ READ_ONLY_TOOLS := by
  obtain ⟨sk, hsk, htrust⟩ := h
  have hne : skills.isEmpty = false := by
    cases skills with
    | nil => cases hsk
    | cons _ _ => rfl
  have hmin : (skills.map LoadedSkill.trust).min? = some .installed :=
    min?_installed _ (List.mem_map.mpr ⟨sk, hsk, htrust⟩)
  intro t ht
  simp only [attenuateTools, hne, hmin, Option.getD_some, Bool.false_eq_true, if_false] at ht
  exact List.contains_iff_mem.mp (List.mem_filter.mp ht).2

theorem offeredTools_readOnly {cfg : ChatConfig} {defs : List ToolDefinition}
    (h : ∃ sk ∈ cfg.activeSkills, sk.trust = .installed) :
    ∀ t ∈ offeredTools cfg defs, t.name ∈ READ_ONLY_TOOLS := by
  have hne : cfg.activeSkills.isEmpty = false := by
    obtain ⟨sk, hsk, -⟩ := h
    cases hskills : cfg.activeSkills with
    | nil => rw [hskills] at hsk; cases hsk
    | cons _ _ => rfl
  intro t ht
  simp only [offeredTools, hne, Bool.false_eq_true, if_false] at ht
  exact attenuateTools_readOnly h t ht

/-! ## The calls of a batch -/

section Batch

variable (env : ChatEnv)

theorem preflightLoop_names : ∀ (idx : Nat) (tcs : List ToolCall),
    (∀ p ∈ (preflightLoop env idx tcs).1, p.1.name ∈ tcs.map ToolCall.name) ∧
      ∀ a ∈ (preflightLoop env idx tcs).2, a.call.name ∈ tcs.map ToolCall.name
  | _, [] => by
    constructor
    · intro p hp
      cases hp
    · intro a ha
      cases ha
  | idx, tc :: tcs => by
    obtain ⟨hpre, hap⟩ := preflightLoop_names (idx + 1) tcs
    have hname : (preflightCall env idx tc).1.name ∈ (tc :: tcs).map ToolCall.name := by
      rw [(preflightCall_same env idx tc).2]
      exact List.mem_cons_self
    have htail : ∀ entry : ToolCall × PreflightOutcome, entry.1.name ∈ (tc :: tcs).map ToolCall.name →
        (∀ p ∈ entry :: (preflightLoop env (idx + 1) tcs).1, p.1.name ∈ (tc :: tcs).map ToolCall.name) ∧
          ∀ a ∈ (preflightLoop env (idx + 1) tcs).2, a.call.name ∈ (tc :: tcs).map ToolCall.name := by
      intro entry he
      refine ⟨fun p hp => ?_, fun a ha => List.mem_cons_of_mem _ (hap a ha)⟩
      rcases List.mem_cons.mp hp with rfl | hp
      · exact he
      · exact List.mem_cons_of_mem _ (hpre p hp)
    unfold preflightLoop
    split
    next tc' m heq =>
      rw [heq] at hname
      exact htail (tc', .rejected m) hname
    next tc' heq =>
      rw [heq] at hname
      exact htail (tc', .runnable) hname
    next tc' tool always heq =>
      rw [heq] at hname
      constructor
      · intro p hp
        cases hp
      · intro a ha
        obtain rfl := Option.some.inj ha
        exact hname

theorem runnableCalls_mem : ∀ (idx : Nat) (pf : List (ToolCall × PreflightOutcome)),
    ∀ r ∈ runnableCalls idx pf, ∃ p ∈ pf, p.1 = r.2
  | _, [], r, hr => by cases hr
  | idx, (tc, .runnable) :: pf, r, hr => by
    rcases List.mem_cons.mp hr with rfl | hr
    · exact ⟨_, List.mem_cons_self, rfl⟩
    · obtain ⟨p, hp, hpr⟩ := runnableCalls_mem (idx + 1) pf r hr
      exact ⟨p, List.mem_cons_of_mem _ hp, hpr⟩
  | idx, (tc, .rejected m) :: pf, r, hr => by
    obtain ⟨p, hp, hpr⟩ := runnableCalls_mem (idx + 1) pf r hr
    exact ⟨p, List.mem_cons_of_mem _ hp, hpr⟩

theorem executed_executeToolCalls (tcs : List ToolCall) (content : Option Str) (st : ChatState) :
    (executeToolCalls env tcs content st).executed = (runnableOf env tcs).map Prod.snd := by
  simp only [executeToolCalls, runnableOf]
  split
  · rfl
  · split <;> rfl

/-- The tools named in a pending approval: the one that waits and those of the deferred calls. -/
def PendingApproval.tools (p : PendingApproval) : List Str := p.toolName :: p.deferredToolCalls.map ToolCall.name

/-- A batch executes, and puts into a pending approval, only tools that its calls name. -/
theorem batch_calls (tcs : List ToolCall) (content : Option Str) (st : ChatState) :
    (∀ tc ∈ (executeToolCalls env tcs content st).executed, tc.name ∈ tcs.map ToolCall.name) ∧
      ∀ p, (executeToolCalls env tcs content st).outcome = some (.needApproval p) →
        ∀ name ∈ p.tools, name ∈ tcs.map ToolCall.name := by
  obtain ⟨hpre, hap⟩ := preflightLoop_names env 0 tcs
  constructor
  · intro tc htc
    rw [executed_executeToolCalls] at htc
    obtain ⟨r, hr, rfl⟩ := List.mem_map.mp htc
    obtain ⟨p, hp, hpr⟩ := runnableCalls_mem 0 _ r hr
    rw [← hpr]
    exact hpre p hp
  · intro p hp name hname
    rw [outcome_executeToolCalls] at hp
    split at hp
    · cases hp
    · cases hp
    next a _ ha =>
      cases hp
      rcases List.mem_cons.mp hname with rfl | hname
      · exact hap a ha
      · obtain ⟨tc, htc, rfl⟩ := List.mem_map.mp hname
        exact List.mem_map_of_mem (List.mem_of_mem_drop htc)

end Batch

/-! ## The turn -/

/-- A name that leads to a read-only tool, or to none. -/
def Within (env : ChatEnv) (name : Str) : Prop := (env.getTool name).isSome = true → name ∈ READ_ONLY_TOOLS

/-- The model's answer in an iteration that asks for one with tools. -/
def IterationInput.toolAnswer (inp : IterationInput) : Except LlmError ToolCompletionResponse :=
  match inp.answers.withTools with
  | .error (.contextLengthExceeded _ _) => inp.retryAnswers.withTools
  | answer => answer

/-- In every iteration that offers tools, the structured calls of an answer that is not cut off stay within the
read-only tools. -/
def CallsWithin (cfg : ChatConfig) (inputs : Nat → IterationInput) : Prop :=
  ∀ i, 0 < i → i < cfg.maxToolIterations → offeredTools cfg (inputs i).toolDefinitions ≠ [] →
    ∀ r, (inputs i).toolAnswer = .ok r → r.finishReason ≠ .length →
      ∀ tc ∈ r.toolCalls, Within (inputs i).env tc.name

/-- A turn that executes read-only tools only, and leaves no other tool in a pending approval. -/
def Attenuated (inputs : Nat → IterationInput) (result : Except TurnError AgenticLoopResult × ChatDelegate) : Prop :=
  (∀ tc ∈ result.2.executed, tc.name ∈ READ_ONLY_TOOLS) ∧
    ∀ p, result.1 = .ok (.needApproval p) → ∀ name ∈ p.tools, Within (inputs result.2.iteration).env name

section Turn

variable {cfg : ChatConfig} {inputs : Nat → IterationInput}

/-- What `before_llm_call` leaves for the call: the offered tools, and forced text at the limit. -/
def Prepared (cfg : ChatConfig) (inputs : Nat → IterationInput) (s : ChatDelegate) (ctx : ReasoningContext)
    (i : Nat) : Prop :=
  0 < i ∧ s.iteration = i ∧ ctx.availableTools = offeredTools cfg (inputs i).toolDefinitions ∧
    (cfg.maxToolIterations ≤ i → ctx.forceText = true)

/-- The calls of a reply: structured ones of the iteration's answer, or tools on offer. -/
theorem callLlm_calls {s : ChatDelegate} {ctx : ReasoningContext} {i : Nat} (hp : Prepared cfg inputs s ctx i)
    {calls : List ToolCall} {content : Option Str} {fin : FinishReason}
    (h : (s.callLlm cfg inputs ctx i).value = .ok ⟨.toolCalls calls content, fin⟩) :
    i < cfg.maxToolIterations ∧ offeredTools cfg (inputs i).toolDefinitions ≠ [] ∧
      ∃ r, (inputs i).toolAnswer = .ok r ∧ r.finishReason = fin ∧
        ∀ tc ∈ calls, tc.name ∈ r.toolCalls.map ToolCall.name ∨
          tc.name ∈ (offeredTools cfg (inputs i).toolDefinitions).map ToolDefinition.name := by
  obtain ⟨-, -, htools, hforce⟩ := hp
  have hlt : ctx.forceText = false → i < cfg.maxToolIterations := by
    intro hf
    by_contra hle
    rw [hforce (by omega)] at hf
    cases hf
  unfold ChatDelegate.callLlm at h
  split at h
  · cases h
  · simp only at h
    split at h
    next used limit hlong =>
      -- the first request was too long: the reply is the one to the compacted context
      obtain ⟨hf, hne⟩ := offered_of_calls h
      obtain ⟨r, hr, hfin, hcalls⟩ := respond_calls h
      simp only at hf
      rw [hf] at hcalls hne
      simp only [Bool.false_eq_true, if_false, htools] at hcalls hne
      refine ⟨hlt hf, hne, r, ?_, hfin, hcalls⟩
      have hfirst : (inputs i).answers.withTools = .error (.contextLengthExceeded used limit) :=
        respond_error hf (by rw [htools]; exact hne) hlong
      unfold IterationInput.toolAnswer
      rw [hfirst]
      exact hr
    next reply hreply =>
      obtain ⟨hf, hne⟩ := offered_of_calls h
      obtain ⟨r, hr, hfin, hcalls⟩ := respond_calls h
      simp only [htools] at hcalls hne
      refine ⟨hlt hf, hne, r, ?_, hfin, hcalls⟩
      unfold IterationInput.toolAnswer
      rw [hr]

/-- The operations of the delegate keep to the read-only tools. -/
theorem keeps_chatDelegate (hinst : ∃ sk ∈ cfg.activeSkills, sk.trust = .installed) (h : CallsWithin cfg inputs)
    (initialTools : List ToolDefinition) :
    Keeps (chatDelegate cfg initialTools inputs) (fun s => ∀ tc ∈ s.executed, tc.name ∈ READ_ONLY_TOOLS)
      (Prepared cfg inputs) (fun s calls => ∀ tc ∈ calls, Within (inputs s.iteration).env tc.name)
      (fun s o => ∀ p, o = .needApproval p → ∀ name ∈ p.tools, Within (inputs s.iteration).env name) where
  signals s hs := hs
  before s ctx i hi hs := by
    refine ⟨hs, (fun o ho => by cases ho), hi, rfl, rfl, fun hle => ?_⟩
    have hforce : decide (cfg.forceTextAt ≤ i) = true := decide_eq_true hle
    simp only [chatDelegate, ChatDelegate.beforeLlmCall, hforce, Bool.true_or]
  call s ctx i hs hp := by
    have hkept : ((s.callLlm cfg inputs ctx i).state.executed = s.executed) ∧
        (s.callLlm cfg inputs ctx i).state.iteration = s.iteration := by
      unfold ChatDelegate.callLlm
      split
      · exact ⟨rfl, rfl⟩
      · simp only
        split <;> exact ⟨rfl, rfl⟩
    refine ⟨?_, fun calls content fin hcall hfin => ?_⟩
    · intro tc htc
      have htc : tc ∈ (s.callLlm cfg inputs ctx i).state.executed := htc
      rw [hkept.1] at htc
      exact hs tc htc
    · obtain ⟨hlt, hne, r, hr, hrfin, hcalls⟩ := callLlm_calls hp hcall
      obtain ⟨hpos, hiter, -, -⟩ := hp
      intro tc htc
      have hgoal : Within (inputs (s.callLlm cfg inputs ctx i).state.iteration).env tc.name := by
        rw [hkept.2, hiter]
        rcases hcalls tc htc with hstr | hoff
        · obtain ⟨tc', htc', hname⟩ := List.mem_map.mp hstr
          rw [← hname]
          exact h i hpos hlt hne r hr (by rw [hrfin]; exact hfin) tc' htc'
        · obtain ⟨t, ht, hname⟩ := List.mem_map.mp hoff
          intro _
          rw [← hname]
          exact offeredTools_readOnly hinst t ht
      exact hgoal
  text s ctx t hs := ⟨hs, fun o ho p hp => by cases ho; cases hp⟩
  exec s ctx calls content hs hg := by
    obtain ⟨hexec, hpend⟩ := batch_calls (inputs s.iteration).env calls content
      ⟨ctx.messages, s.turn, s.pendingAuth, s.stash⟩
    have hnames : ∀ name ∈ calls.map ToolCall.name, Within (inputs s.iteration).env name := by
      intro name hname
      obtain ⟨tc, htc, rfl⟩ := List.mem_map.mp hname
      exact hg tc htc
    constructor
    · intro tc htc
      rcases List.mem_append.mp htc with htc | htc
      · exact hs tc htc
      · obtain ⟨hin, hreg⟩ := List.mem_filter.mp htc
        exact hnames _ (hexec tc hin) hreg
    · intro o ho p hp name hname
      subst hp
      exact hnames name (hpend p (Except.ok.inj ho) name hname)
  nudge s ctx t hs := hs
  after s i hs := hs
  stopped s p hp := by cases hp
  maxIterations s p hp := by cases hp

/-- **Attenuation.** With an installed skill active, a turn stays within the read-only tools if the structured calls of
the model do. -/
theorem turn_attenuated (cfg : ChatConfig) (inputs : Nat → IterationInput) (turn : Option Turn)
    (pendingAuth : Option Str) (messages : List ChatMessage)
    (hinst : ∃ sk ∈ cfg.activeSkills, sk.trust = .installed) (h : CallsWithin cfg inputs) :
    Attenuated inputs (chatTurn cfg inputs turn pendingAuth messages) := by
  have hstart : ∀ tc ∈ (⟨turn, pendingAuth, [], 0, [], []⟩ : ChatDelegate).executed, tc.name ∈ READ_ONLY_TOOLS := by
    intro tc htc
    cases htc
  obtain ⟨hexec, hout⟩ := runAgenticLoop_inv cfg.replyText cfg.loopConfig
    (keeps_chatDelegate hinst h (offeredTools cfg (inputs 0).toolDefinitions))
    (initialContext cfg (inputs 0).toolDefinitions messages) hstart
  refine ⟨hexec, fun p hp => ?_⟩
  refine hout (.needApproval p) ?_ p rfl
  simp only [chatTurn, agenticLoopResult] at hp
  split at hp <;> cases hp
  assumption

end Turn

/-! ## Turns under an installed skill -/

/-- A turn with one active skill, installed from the registry. -/
def installedTurn : ChatConfig where
  activeSkills := [⟨"weather".toList, .installed⟩]
  maxToolIterations := 50
  buildPrompt _ := "You are a helpful assistant.".toList
  replyText := ⟨id, id, fun _ _ _ => false, fun _ => none, fun _ => false⟩

/-- The registry has `time`, which needs no approval, and `shell`, which does unless tools are approved by default. -/
def workbench (autoApproveTools : Bool) : ChatEnv :=
  { gateway with
    getTool := fun name =>
      if name = "time".toList then some ⟨[], [], fun _ => .never⟩
      else if name = "shell".toList then some ⟨[], [], fun _ => .unlessAutoApproved⟩
      else none
    autoApproveTools := autoApproveTools
    executeChatTool := fun _ _ => .ok "done".toList
    joinAll := inOrder fun _ => .ok "done".toList }

/-- The model calls the tool in the first iteration and then answers with a text. -/
def calling (name : Str) (autoApproveTools : Bool) (i : Nat) : IterationInput where
  interrupted := false
  toolDefinitions := [⟨"shell".toList, [], .null⟩, ⟨"time".toList, [], .null⟩]
  costLimit := none
  selectedModel := none
  answers :=
    { withTools :=
      .ok ⟨some "Done.".toList, if i = 1 then [⟨"call_1".toList, name, .obj [], none⟩] else [], 0, 0, .stop⟩
      plain := .ok ⟨"Done.".toList, 0, 0, .stop⟩ }
  retryAnswers := ⟨.error (.other []), .error (.other [])⟩
  env := workbench autoApproveTools

theorem turn_attenuated_time :
    (∃ sk ∈ installedTurn.activeSkills, sk.trust = .installed) ∧
    CallsWithin installedTurn (calling "time".toList false) ∧
      (chatTurn installedTurn (calling "time".toList false) none none []).2.executed.map ToolCall.name =
        ["time".toList] ∧
      Attenuated (calling "time".toList false) (chatTurn installedTurn (calling "time".toList false) none none []) := by
  have hinst : ∃ sk ∈ installedTurn.activeSkills, sk.trust = .installed := ⟨_, List.mem_singleton.mpr rfl, rfl⟩
  have hcalls : CallsWithin installedTurn (calling "time".toList false) := by
    intro i _ _ _ r hr _ tc htc _
    obtain rfl := Except.ok.inj hr
    simp only at htc
    split at htc
    · rw [List.mem_singleton.mp htc]
      decide
    · cases htc
  exact ⟨hinst, hcalls, by decide, turn_attenuated installedTurn _ none none [] hinst hcalls⟩

/-- The model names `shell`, which was not offered: the tool runs, or waits for approval. -/
theorem shell_runs_under_installed_skill :
    (∃ sk ∈ installedTurn.activeSkills, sk.trust = .installed) ∧
      "shell".toList ∉ (offeredTools installedTurn (calling "shell".toList true 1).toolDefinitions).map
        ToolDefinition.name ∧
      (chatTurn installedTurn (calling "shell".toList true) none none []).2.executed.map ToolCall.name =
        ["shell".toList] ∧
      ¬Attenuated (calling "shell".toList true) (chatTurn installedTurn (calling "shell".toList true) none none []) ∧
      ¬Attenuated (calling "shell".toList false)
        (chatTurn installedTurn (calling "shell".toList false) none none []) := by
  have hexec : (chatTurn installedTurn (calling "shell".toList true) none none []).2.executed.map ToolCall.name =
      ["shell".toList] := by decide
  have hout : "shell".toList ∉ READ_ONLY_TOOLS := by decide
  refine ⟨⟨_, List.mem_singleton.mpr rfl, rfl⟩, by decide, hexec, fun h => ?_, fun h => ?_⟩
  · have hmem : "shell".toList ∈
        (chatTurn installedTurn (calling "shell".toList true) none none []).2.executed.map ToolCall.name := by
      rw [hexec]
      exact List.mem_singleton.mpr rfl
    obtain ⟨tc, htc, hname⟩ := List.mem_map.mp hmem
    exact hout (hname ▸ h.1 tc htc)
  · have hpending : ∃ p, (chatTurn installedTurn (calling "shell".toList false) none none []).1 =
        .ok (.needApproval p) ∧ p.toolName = "shell".toList := ⟨_, rfl, rfl⟩
    obtain ⟨p, hp, hname⟩ := hpending
    have hwithin := h.2 p hp p.toolName List.mem_cons_self
    rw [hname] at hwithin
    exact hout (hwithin rfl)

end Ironclaw.Agent

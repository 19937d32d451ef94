import Ironclaw.Agent.ToolBatch
import Ironclaw.Llm.Reasoning

/-!
# The agentic loop

`run_agentic_loop` over any delegate: signals, the hook before the call, the call, and then a text to handle, a nudge, a
truncated batch to discard or a batch to execute. A delegate works on a state of its own and on the reasoning context.

- `iterate_inv`, `runAgenticLoop_inv`: what the delegate's operations keep, the loop keeps, and the outcomes they return
  are the outcomes of the loop;
- `loop_stays`: the same for invariants that speak of the context too.
-/

namespace Ironclaw.Agent

open Text Llm

inductive LoopSignal
  | proceed
  | stop
  | injectMessage (message : Str)

inductive TextAction
  | done (outcome : LoopOutcome)
  | proceed

/-- A value together with the reasoning context and the delegate's state after an operation. -/
structure Stepped (σ α : Type) where
  value : α
  ctx : ReasoningContext
  state : σ

/-- The strategy of a consumer of the loop. -/
structure LoopDelegate (σ : Type) where
  checkSignals : σ → LoopSignal × σ
  beforeLlmCall : σ → ReasoningContext → (iteration : Nat) → Stepped σ (Option LoopOutcome)
  callLlm : σ → ReasoningContext → (iteration : Nat) → Stepped σ (Except LlmError RespondOutput)
  handleTextResponse : σ → ReasoningContext → Str → Stepped σ TextAction
  executeToolCalls : σ → ReasoningContext → List ToolCall → (content : Option Str) →
    Stepped σ (Except LlmError (Option LoopOutcome))
  onToolIntentNudge : σ → ReasoningContext → Str → ReasoningContext × σ
  afterIteration : σ → (iteration : Nat) → σ

structure AgenticLoopConfig where
  maxIterations : Nat
  enableToolIntentNudge : Bool
  maxToolIntentNudges : Nat

def TOOL_INTENT_NUDGE : Str :=
  ("You said you would perform an action, but you did not include any tool calls.\n" ++
    "Do NOT describe what you intend to do — actually call the tool now.\n" ++
    "Use the tool_calls mechanism to invoke the appropriate tool.").toList

def TRUNCATED_TOOL_CALL_NOTICE : Str :=
  ("Your previous response was truncated while generating tool call parameters. " ++
    "The tool calls were discarded. Please try a different approach — " ++
    "summarize or transform the data instead of echoing it verbatim in a tool call.").toList

/-- What the loop keeps between iterations. -/
structure LoopState (σ : Type) where
  ctx : ReasoningContext
  state : σ
  consecutiveToolIntentNudges : Nat
  truncationCount : Nat

/-- The end of an iteration: the loop goes on, or it returns. -/
inductive Next (σ : Type)
  | proceed (st : LoopState σ)
  | done (result : Stepped σ (Except LlmError LoopOutcome))

def pushMessages (ctx : ReasoningContext) (messages : List ChatMessage) : ReasoningContext :=
  { ctx with messages := ctx.messages ++ messages }

section Loop

variable {σ : Type} (d : LoopDelegate σ) (rt : ReplyText) (cfg : AgenticLoopConfig)

/-- A text reply: nudged, or handed to the delegate. -/
def handleText (ctx : ReasoningContext) (state : σ) (nudges truncations iteration : Nat) (text : Str) : Next σ :=
  if cfg.enableToolIntentNudge && !ctx.availableTools.isEmpty && !ctx.forceText &&
      decide (nudges < cfg.maxToolIntentNudges) && rt.signalsToolIntent text then
    let (ctx, state) := d.onToolIntentNudge state ctx text
    .proceed ⟨pushMessages ctx [.assistant text, .user TOOL_INTENT_NUDGE], d.afterIteration state iteration, nudges + 1,
      truncations⟩
  else
    let nudges := if rt.signalsToolIntent text then nudges else 0
    let r := d.handleTextResponse state ctx text
    match r.value with
    | .done outcome => .done ⟨.ok outcome, r.ctx, r.state⟩
    | .proceed => .proceed ⟨r.ctx, d.afterIteration r.state iteration, nudges, truncations⟩

/-- A reply with calls that was cut off: the calls are discarded; the third time in a row, text is forced. -/
def discardTruncated (ctx : ReasoningContext) (state : σ) (nudges truncations iteration : Nat) (content : Option Str) :
    Next σ :=
  let ctx := pushMessages ctx ((content.map ChatMessage.assistant).toList ++ [.user TRUNCATED_TOOL_CALL_NOTICE])
  let ctx := if 3 ≤ truncations + 1 then { ctx with forceText := true } else ctx
  .proceed ⟨ctx, d.afterIteration state iteration, nudges, truncations + 1⟩

/-- A batch of calls, executed. -/
def runBatch (ctx : ReasoningContext) (state : σ) (iteration : Nat) (calls : List ToolCall) (content : Option Str) :
    Next σ :=
  let r := d.executeToolCalls state ctx calls content
  match r.value with
  | .error e => .done ⟨.error e, r.ctx, r.state⟩
  | .ok (some outcome) => .done ⟨.ok outcome, r.ctx, r.state⟩
  | .ok none => .proceed ⟨r.ctx, d.afterIteration r.state iteration, 0, 0⟩

/-- An iteration after the signals. -/
def respond (ctx : ReasoningContext) (state : σ) (nudges truncations iteration : Nat) : Next σ :=
  let b := d.beforeLlmCall state ctx iteration
  match b.value with
  | some outcome => .done ⟨.ok outcome, b.ctx, b.state⟩
  | none =>
    let r := d.callLlm b.state b.ctx iteration
    match r.value with
    | .error e => .done ⟨.error e, r.ctx, r.state⟩
    | .ok ⟨.text text, _⟩ => handleText d rt cfg r.ctx r.state nudges truncations iteration text
    | .ok ⟨.toolCalls calls content, fin⟩ =>
      if fin = .length then discardTruncated d r.ctx r.state nudges truncations iteration content
      else runBatch d r.ctx r.state iteration calls content

/-- One iteration. -/
def iterate (st : LoopState σ) (iteration : Nat) : Next σ :=
  match d.checkSignals st.state with
  | (.stop, state) => .done ⟨.ok .stopped, st.ctx, state⟩
  | (.proceed, state) =>
    respond d rt cfg st.ctx state st.consecutiveToolIntentNudges st.truncationCount iteration
  | (.injectMessage message, state) =>
    respond d rt cfg (pushMessages st.ctx [.user message]) state st.consecutiveToolIntentNudges
      st.truncationCount iteration

/-- The iterations from `iteration` on, `n` of them at most. -/
def loop : (n iteration : Nat) → LoopState σ → Stepped σ (Except LlmError LoopOutcome)
  | 0, _, st => ⟨.ok .maxIterations, st.ctx, st.state⟩
  | n + 1, iteration, st =>
    match iterate d rt cfg st iteration with
    | .done result => result
    | .proceed st => loop n (iteration + 1) st

def runAgenticLoop (ctx : ReasoningContext) (state : σ) : Stepped σ (Except LlmError LoopOutcome) :=
  loop d rt cfg cfg.maxIterations 1 ⟨ctx, state, 0, 0⟩

/-! ## Invariants of the loop -/

/-- What an invariant of a loop asks of the delegate: `P` is kept by every operation, `R` holds of the context between
the hook before a call and the call's reply, `G` holds of the calls of a reply, and `Q` of the outcomes. -/
structure Keeps (P : σ → Prop) (R : σ → ReasoningContext → (iteration : Nat) → Prop) (G : σ → List ToolCall → Prop)
    (Q : σ → LoopOutcome → Prop) : Prop where
  signals : ∀ s, P s → P (d.checkSignals s).2
  before : ∀ s ctx i, 0 < i → P s → P (d.beforeLlmCall s ctx i).state ∧
    (∀ o ∈ (d.beforeLlmCall s ctx i).value, Q (d.beforeLlmCall s ctx i).state o) ∧
    R (d.beforeLlmCall s ctx i).state (d.beforeLlmCall s ctx i).ctx i
  call : ∀ s ctx i, P s → R s ctx i → P (d.callLlm s ctx i).state ∧
    ∀ calls content fin, (d.callLlm s ctx i).value = .ok ⟨.toolCalls calls content, fin⟩ → fin ≠ .length →
      G (d.callLlm s ctx i).state calls
  text : ∀ s ctx t, P s → P (d.handleTextResponse s ctx t).state ∧
    ∀ o, (d.handleTextResponse s ctx t).value = .done o → Q (d.handleTextResponse s ctx t).state o
  exec : ∀ s ctx calls content, P s → G s calls → P (d.executeToolCalls s ctx calls content).state ∧
    ∀ o, (d.executeToolCalls s ctx calls content).value = .ok (some o) →
      Q (d.executeToolCalls s ctx calls content).state o
  nudge : ∀ s ctx t, P s → P (d.onToolIntentNudge s ctx t).2
  after : ∀ s i, P s → P (d.afterIteration s i)
  stopped : ∀ s, Q s .stopped
  maxIterations : ∀ s, Q s .maxIterations

/-- The invariant at the end of an iteration. -/
def Next.Holds (P : σ → Prop) (Q : σ → LoopOutcome → Prop) : Next σ → Prop
  | .proceed st => P st.state
  | .done r => P r.state ∧ ∀ o, r.value = .ok o → Q r.state o

variable {d} {P : σ → Prop} {R : σ → ReasoningContext → Nat → Prop} {G : σ → List ToolCall → Prop}
  {Q : σ → LoopOutcome → Prop}

theorem handleText_inv (h : Keeps d P R G Q) {state : σ} (hs : P state) (ctx : ReasoningContext)
    (nudges truncations iteration : Nat) (text : Str) :
    (handleText d rt cfg ctx state nudges truncations iteration text).Holds P Q := by
  simp only [handleText]
  split
  · exact h.after _ _ (h.nudge _ _ _ hs)
  · obtain ⟨hp, hq⟩ := h.text state ctx text hs
    split
    next o ho => exact ⟨hp, fun o' ho' => by cases ho'; exact hq o ho⟩
    · exact h.after _ _ hp

theorem runBatch_inv (h : Keeps d P R G Q) {state : σ} (hs : P state) {calls : List ToolCall} (hg : G state calls)
    (ctx : ReasoningContext) (iteration : Nat) (content : Option Str) :
    (runBatch d ctx state iteration calls content).Holds P Q := by
  obtain ⟨hp, hq⟩ := h.exec state ctx calls content hs hg
  simp only [runBatch]
  split
  · exact ⟨hp, fun o ho => by cases ho⟩
  next o ho => exact ⟨hp, fun o' ho' => by cases ho'; exact hq o ho⟩
  · exact h.after _ _ hp

theorem respond_inv (h : Keeps d P R G Q) {state : σ} (hs : P state) {iteration : Nat} (hi : 0 < iteration)
    (ctx : ReasoningContext) (nudges truncations : Nat) :
    (respond d rt cfg ctx state nudges truncations iteration).Holds P Q := by
  obtain ⟨hb, hq, hr⟩ := h.before state ctx iteration hi hs
  simp only [respond]
  split
  next o ho => exact ⟨hb, fun o' ho' => by cases ho'; exact hq o ho⟩
  · obtain ⟨hc, hg⟩ := h.call _ _ iteration hb hr
    split
    · exact ⟨hc, fun o ho => by cases ho⟩
    · exact handleText_inv rt cfg h hc _ _ _ _ _
    next calls content fin hcall =>
      split
      · exact h.after _ _ hc
      next hfin => exact runBatch_inv h hc (hg calls content fin hcall hfin) _ _ _

theorem iterate_inv (h : Keeps d P R G Q) (st : LoopState σ) (hs : P st.state) {iteration : Nat}
    (hi : 0 < iteration) : (iterate d rt cfg st iteration).Holds P Q := by
  have hp := h.signals st.state hs
  simp only [iterate]
  split
  next state heq =>
    rw [heq] at hp
    exact ⟨hp, fun o ho => by cases ho; exact h.stopped _⟩
  next state heq =>
    rw [heq] at hp
    exact respond_inv rt cfg h hp hi _ _ _
  next message state heq =>
    rw [heq] at hp
    exact respond_inv rt cfg h hp hi _ _ _

/-- **The loop rule.** What the operations keep holds at the end of the loop, and its outcome is one of theirs. -/
theorem loop_inv (h : Keeps d P R G Q) : ∀ (n iteration : Nat) (st : LoopState σ), 0 < iteration → P st.state →
    P (loop d rt cfg n iteration st).state ∧
      ∀ o, (loop d rt cfg n iteration st).value = .ok o → Q (loop d rt cfg n iteration st).state o
  | 0, _, st, _, hs => ⟨hs, fun o ho => by cases ho; exact h.maxIterations _⟩
  | n + 1, iteration, st, hi, hs => by
    have hit := iterate_inv rt cfg h st hs hi
    simp only [loop]
    split
    next r hr =>
      rw [hr] at hit
      exact hit
    next st' hst =>
      rw [hst] at hit
      exact loop_inv h n (iteration + 1) st' (Nat.succ_pos _) hit

theorem runAgenticLoop_inv (h : Keeps d P R G Q) (ctx : ReasoningContext) {state : σ} (hs : P state) :
    P (runAgenticLoop d rt cfg ctx state).state ∧
      ∀ o, (runAgenticLoop d rt cfg ctx state).value = .ok o → Q (runAgenticLoop d rt cfg ctx state).state o :=
  loop_inv rt cfg h cfg.maxIterations 1 ⟨ctx, state, 0, 0⟩ Nat.one_pos hs

/-! ## Invariants of the context -/

variable (d) in
/-- What an invariant of the context and the delegate's state asks of the delegate; what the loop writes to the context
by itself is written here with the operation it follows. -/
structure Maintains (I : ReasoningContext → σ → Prop) : Prop where
  signals : ∀ ctx s, I ctx s → I ctx (d.checkSignals s).2
  inject : ∀ ctx s message, I ctx s → (d.checkSignals s).1 = .injectMessage message →
    I (pushMessages ctx [.user message]) (d.checkSignals s).2
  before : ∀ s ctx i, 0 < i → I ctx s → I (d.beforeLlmCall s ctx i).ctx (d.beforeLlmCall s ctx i).state
  call : ∀ s ctx i, 0 < i → I ctx s → I (d.callLlm s ctx i).ctx (d.callLlm s ctx i).state
  text : ∀ s ctx t, I ctx s → I (d.handleTextResponse s ctx t).ctx (d.handleTextResponse s ctx t).state
  exec : ∀ s ctx calls content, I ctx s →
    I (d.executeToolCalls s ctx calls content).ctx (d.executeToolCalls s ctx calls content).state
  nudge : ∀ s ctx t, I ctx s →
    I (pushMessages (d.onToolIntentNudge s ctx t).1 [.assistant t, .user TOOL_INTENT_NUDGE])
      (d.onToolIntentNudge s ctx t).2
  truncated : ∀ s ctx (content : Option Str), I ctx s →
    I (pushMessages ctx ((content.map ChatMessage.assistant).toList ++ [.user TRUNCATED_TOOL_CALL_NOTICE])) s
  force : ∀ s ctx, I ctx s → I { ctx with forceText := true } s
  after : ∀ s ctx i, I ctx s → I ctx (d.afterIteration s i)

/-- The invariant of the context at the end of an iteration. -/
def Next.Stays (I : ReasoningContext → σ → Prop) : Next σ → Prop
  | .proceed st => I st.ctx st.state
  | .done r => I r.ctx r.state

variable {I : ReasoningContext → σ → Prop}

theorem handleText_stays (h : Maintains d I) {ctx : ReasoningContext} {state : σ} (hs : I ctx state)
    (nudges truncations iteration : Nat) (text : Str) :
    (handleText d rt cfg ctx state nudges truncations iteration text).Stays I := by
  simp only [handleText]
  split
  · exact h.after _ _ _ (h.nudge state ctx text hs)
  · have htext := h.text state ctx text hs
    split
    · exact htext
    · exact h.after _ _ _ htext

theorem discardTruncated_stays (h : Maintains d I) {ctx : ReasoningContext} {state : σ} (hs : I ctx state)
    (nudges truncations iteration : Nat) (content : Option Str) :
    (discardTruncated d ctx state nudges truncations iteration content).Stays I := by
  have hnotice := h.truncated state ctx content hs
  simp only [discardTruncated]
  refine h.after _ _ _ ?_
  split
  · exact h.force _ _ hnotice
  · exact hnotice

theorem runBatch_stays (h : Maintains d I) {ctx : ReasoningContext} {state : σ} (hs : I ctx state) (iteration : Nat)
    (calls : List ToolCall) (content : Option Str) : (runBatch d ctx state iteration calls content).Stays I := by
  have hexec := h.exec state ctx calls content hs
  simp only [runBatch]
  split
  · exact hexec
  · exact hexec
  · exact h.after _ _ _ hexec

/-- An iteration, from what holds after its call to the model. -/
theorem respond_stays (h : Maintains d I) {ctx : ReasoningContext} {state : σ} {iteration : Nat}
    (hbefore : ∀ o, (d.beforeLlmCall state ctx iteration).value = some o →
      I (d.beforeLlmCall state ctx iteration).ctx (d.beforeLlmCall state ctx iteration).state)
    (hcall : let b := d.beforeLlmCall state ctx iteration
      I (d.callLlm b.state b.ctx iteration).ctx (d.callLlm b.state b.ctx iteration).state)
    (nudges truncations : Nat) : (respond d rt cfg ctx state nudges truncations iteration).Stays I := by
  simp only [respond]
  split
  next o ho => exact hbefore o ho
  · split
    · exact hcall
    · exact handleText_stays rt cfg h hcall _ _ _ _
    · split
      · exact discardTruncated_stays h hcall _ _ _ _
      · exact runBatch_stays h hcall _ _ _

theorem iterate_stays (h : Maintains d I) (st : LoopState σ) (hs : I st.ctx st.state) {iteration : Nat}
    (hi : 0 < iteration) : (iterate d rt cfg st iteration).Stays I := by
  have hrespond : ∀ ctx state, I ctx state → ∀ k t, (respond d rt cfg ctx state k t iteration).Stays I := by
    intro ctx state hs k t
    have hbefore := h.before state ctx iteration hi hs
    exact respond_stays rt cfg h (fun _ _ => hbefore) (h.call _ _ iteration hi hbefore) k t
  have hsignals := h.signals st.ctx st.state hs
  have hinject := fun message => h.inject st.ctx st.state message hs
  simp only [iterate]
  split
  next state heq =>
    rw [heq] at hsignals
    exact hsignals
  next state heq =>
    rw [heq] at hsignals
    exact hrespond _ _ hsignals _ _
  next message state heq =>
    rw [heq] at hinject
    exact hrespond _ _ (hinject message rfl) _ _

/-- A loop, from what its first iteration and the rest of it keep. -/
theorem loop_succ_stays {n iteration : Nat} {st : LoopState σ} (hfirst : (iterate d rt cfg st iteration).Stays I)
    (hrest : ∀ st', I st'.ctx st'.state →
      I (loop d rt cfg n (iteration + 1) st').ctx (loop d rt cfg n (iteration + 1) st').state) :
    I (loop d rt cfg (n + 1) iteration st).ctx (loop d rt cfg (n + 1) iteration st).state := by
  simp only [loop]
  split
  next r hr =>
    rw [hr] at hfirst
    exact hfirst
  next st' hst =>
    rw [hst] at hfirst
    exact hrest st' hfirst

/-- **The loop rule for the context.** What the operations and the loop's own writes keep holds at the end of the
loop. -/
theorem loop_stays (h : Maintains d I) : ∀ (n iteration : Nat) (st : LoopState σ), 0 < iteration → I st.ctx st.state →
    I (loop d rt cfg n iteration st).ctx (loop d rt cfg n iteration st).state
  | 0, _, _, _, hs => hs
  | n + 1, iteration, st, hi, hs =>
    loop_succ_stays rt cfg (iterate_stays rt cfg h st hs hi) fun st' =>
      loop_stays h n (iteration + 1) st' (Nat.succ_pos _)

theorem runAgenticLoop_stays (h : Maintains d I) {ctx : ReasoningContext} {state : σ} (hs : I ctx state) :
    I (runAgenticLoop d rt cfg ctx state).ctx (runAgenticLoop d rt cfg ctx state).state :=
  loop_stays rt cfg h cfg.maxIterations 1 ⟨ctx, state, 0, 0⟩ Nat.one_pos hs

end Loop

end Ironclaw.Agent

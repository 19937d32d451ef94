import Ironclaw.Agent.Attenuation

/-!
# Discipline of the agentic loop

A delegate is wrapped so that it records what the loop asks of it: the operation, the context it was given and the one
it left (`logged`). The wrapped delegate does what the delegate does (`fst_runAgenticLoop`), so every property of the
log is one of the loop.

- `disciplined`: for any delegate, calls to the model are bounded, cut-off calls are not executed, nudges are bounded,
  text is forced by the third cut-off reply, and between two operations the loop only appends messages;
- `chat_ne_maxIterations`: a chat turn does not run out of iterations, when its ceiling does not overflow;
- `discipline_iff`: the ceiling overflows for the largest machine integer only.
-/

namespace Ironclaw.Agent

open Text Llm

/-! ## What is recorded -/

/-- An operation of a delegate that is given the context. -/
inductive Op
  | before
  | call (reply : Except LlmError RespondOutput)
  | text (text : Str)
  | execute (calls : List ToolCall) (content : Option Str)
  | nudge (text : Str)

/-- An operation with the context it was given and the one it left. -/
structure Event where
  ctxIn : ReasoningContext
  ctxOut : ReasoningContext
  op : Op

/-- The delegate, with a log. -/
def logged {σ : Type} (d : LoopDelegate σ) : LoopDelegate (σ × List Event) where
  checkSignals s :=
    let r := d.checkSignals s.1
    (r.1, (r.2, s.2))
  beforeLlmCall s ctx i :=
    let r := d.beforeLlmCall s.1 ctx i
    ⟨r.value, r.ctx, (r.state, s.2 ++ [⟨ctx, r.ctx, .before⟩])⟩
  callLlm s ctx i :=
    let r := d.callLlm s.1 ctx i
    ⟨r.value, r.ctx, (r.state, s.2 ++ [⟨ctx, r.ctx, .call r.value⟩])⟩
  handleTextResponse s ctx t :=
    let r := d.handleTextResponse s.1 ctx t
    ⟨r.value, r.ctx, (r.state, s.2 ++ [⟨ctx, r.ctx, .text t⟩])⟩
  executeToolCalls s ctx calls content :=
    let r := d.executeToolCalls s.1 ctx calls content
    ⟨r.value, r.ctx, (r.state, s.2 ++ [⟨ctx, r.ctx, .execute calls content⟩])⟩
  onToolIntentNudge s ctx t :=
    let r := d.onToolIntentNudge s.1 ctx t
    (r.1, (r.2, s.2 ++ [⟨ctx, r.1, .nudge t⟩]))
  afterIteration s i := (d.afterIteration s.1 i, s.2)

def Op.isCall : Op → Bool
  | .call _ => true
  | _ => false

def Op.isNudge : Op → Bool
  | .nudge _ => true
  | _ => false

def Op.isExecute : Op → Bool
  | .execute _ _ => true
  | _ => false

/-- A reply whose calls were cut off. -/
def Op.isTruncated : Op → Bool
  | .call (.ok ⟨.toolCalls _ _, .length⟩) => true
  | _ => false

/-- A reply with a text that announces no call. -/
def Op.isPlainText (rt : ReplyText) : Op → Bool
  | .call (.ok ⟨.text t, _⟩) => !rt.signalsToolIntent t
  | _ => false

/-- The nudges since the last executed batch or text without intent. -/
def nudgesSince (rt : ReplyText) (log : List Event) : Nat :=
  log.foldl (fun k e =>
    if e.op.isExecute || e.op.isPlainText rt then 0 else if e.op.isNudge then k + 1 else k) 0

/-- The cut-off replies since the last executed batch. -/
def truncatedSince (log : List Event) : Nat :=
  log.foldl (fun t e => if e.op.isExecute then 0 else if e.op.isTruncated then t + 1 else t) 0

/-- What the loop itself appends after an operation. -/
def Op.own : Op → List ChatMessage
  | .nudge t => [.assistant t, .user TOOL_INTENT_NUDGE]
  | .call (.ok ⟨.toolCalls _ content, .length⟩) =>
    (content.map ChatMessage.assistant).toList ++ [.user TRUNCATED_TOOL_CALL_NOTICE]
  | _ => []

/-- What the loop does to the context between two operations: `own` and the messages that signals inject are appended,
and `force_text` is not cleared. -/
structure LoopWrites (own : List ChatMessage) (c c' : ReasoningContext) : Prop where
  messages : ∃ injected : List Str, c'.messages = c.messages ++ own ++ injected.map ChatMessage.user
  forceText : c.forceText = true → c'.forceText = true
  tools : c'.availableTools = c.availableTools
  systemPrompt : c'.systemPrompt = c.systemPrompt
  modelOverride : c'.modelOverride = c.modelOverride

/-- The loop's own writes, from the context it starts with to the one it ends with. -/
def OwnWrites : (own : List ChatMessage) → ReasoningContext → List Event → ReasoningContext → Prop
  | own, c, [], c' => LoopWrites own c c'
  | own, c, e :: es, c' => LoopWrites own c e.ctxIn ∧ OwnWrites e.op.own e.ctxOut es c'

/-- The context that is seen next: by the next operation, or at the end. -/
def nextCtx (post : List Event) (final : ReasoningContext) : ReasoningContext :=
  match post with
  | [] => final
  | e :: _ => e.ctxIn

/-- The last operation was a call to the model, whose reply has these calls and was not cut off. -/
def RepliedWith (log : List Event) (calls : List ToolCall) (content : Option Str) : Prop :=
  ∃ pre e fin, log = pre ++ [e] ∧ e.op = .call (.ok ⟨.toolCalls calls content, fin⟩) ∧ fin ≠ .length

/-- The discipline of a loop that started with `ctx` and ended with `final`. -/
structure Disciplined (rt : ReplyText) (cfg : AgenticLoopConfig) (ctx : ReasoningContext) (log : List Event)
    (final : ReasoningContext) : Prop where
  calls : (log.countP fun e => e.op.isCall) ≤ cfg.maxIterations
  executed : ∀ pre e post calls content, log = pre ++ e :: post → e.op = .execute calls content →
    RepliedWith pre calls content
  nudges : ∀ pre, pre <+: log → nudgesSince rt pre ≤ cfg.maxToolIntentNudges
  writes : OwnWrites [] ctx log final
  forced : ∀ pre e post, log = pre ++ e :: post → e.op.isTruncated = true → truncatedSince (pre ++ [e]) = 3 →
    (nextCtx post final).forceText = true

/-! ## The log does not change the loop -/

section Logged

variable {σ : Type} {d : LoopDelegate σ} (rt : ReplyText) (cfg : AgenticLoopConfig)

/-- A result without the log. -/
def Stepped.fst {τ α : Type} (r : Stepped (σ × τ) α) : Stepped σ α := ⟨r.value, r.ctx, r.state.1⟩

def Next.fst {τ : Type} : Next (σ × τ) → Next σ
  | .proceed st => .proceed ⟨st.ctx, st.state.1, st.consecutiveToolIntentNudges, st.truncationCount⟩
  | .done r => .done r.fst

theorem fst_handleText (ctx : ReasoningContext) (s : σ × List Event) (k t i : Nat) (text : Str) :
    (handleText (logged d) rt cfg ctx s k t i text).fst = handleText d rt cfg ctx s.1 k t i text := by
  simp only [handleText, logged]
  split
  · rfl
  · split <;> rfl

theorem fst_runBatch (ctx : ReasoningContext) (s : σ × List Event) (i : Nat) (calls : List ToolCall)
    (content : Option Str) :
    (runBatch (logged d) ctx s i calls content).fst = runBatch d ctx s.1 i calls content := by
  simp only [runBatch, logged]
  split <;> rfl

theorem fst_respond (ctx : ReasoningContext) (s : σ × List Event) (k t i : Nat) :
    (respond (logged d) rt cfg ctx s k t i).fst = respond d rt cfg ctx s.1 k t i := by
  simp only [respond, logged]
  split
  · rfl
  · split
    · rfl
    · exact fst_handleText rt cfg _ _ k t i _
    · split
      · rfl
      · exact fst_runBatch _ _ i _ _

theorem fst_iterate (st : LoopState (σ × List Event)) (i : Nat) :
    (iterate (logged d) rt cfg st i).fst =
      iterate d rt cfg ⟨st.ctx, st.state.1, st.consecutiveToolIntentNudges, st.truncationCount⟩ i := by
  simp only [iterate]
  have hsig : (logged d).checkSignals st.state =
      ((d.checkSignals st.state.1).1, ((d.checkSignals st.state.1).2, st.state.2)) := rfl
  rw [hsig]
  rcases d.checkSignals st.state.1 with ⟨signal, s⟩
  cases signal with
  | stop => rfl
  | proceed => exact fst_respond rt cfg _ _ _ _ i
  | injectMessage message => exact fst_respond rt cfg _ _ _ _ i

theorem fst_loop : ∀ (n i : Nat) (st : LoopState (σ × List Event)),
    (loop (logged d) rt cfg n i st).fst =
      loop d rt cfg n i ⟨st.ctx, st.state.1, st.consecutiveToolIntentNudges, st.truncationCount⟩
  | 0, _, _ => rfl
  | n + 1, i, st => by
    have h := fst_iterate rt cfg (d := d) st i
    simp only [loop]
    rw [← h]
    cases hit : iterate (logged d) rt cfg st i with
    | done r => rfl
    | proceed st' => exact fst_loop n (i + 1) st'

/-- **The log changes nothing.** The loop with the recording delegate returns what the loop returns. -/
theorem fst_runAgenticLoop (ctx : ReasoningContext) (s : σ) :
    (runAgenticLoop (logged d) rt cfg ctx (s, [])).fst = runAgenticLoop d rt cfg ctx s :=
  fst_loop rt cfg cfg.maxIterations 1 ⟨ctx, (s, []), 0, 0⟩

end Logged

/-! ## The log so far -/

theorem nudgesSince_append (rt : ReplyText) (log : List Event) (e : Event) :
    nudgesSince rt (log ++ [e]) =
      if e.op.isExecute || e.op.isPlainText rt then 0
      else if e.op.isNudge then nudgesSince rt log + 1 else nudgesSince rt log := by
  unfold nudgesSince
  rw [List.foldl_append]
  rfl

theorem truncatedSince_append (log : List Event) (e : Event) :
    truncatedSince (log ++ [e]) =
      if e.op.isExecute then 0 else if e.op.isTruncated then truncatedSince log + 1 else truncatedSince log := by
  unfold truncatedSince
  rw [List.foldl_append]
  rfl

theorem LoopWrites.refl (c : ReasoningContext) : LoopWrites [] c c :=
  ⟨⟨[], by simp⟩, id, rfl, rfl, rfl⟩

/-- A signal's message comes after what was appended before. -/
theorem LoopWrites.inject {own : List ChatMessage} {c c' : ReasoningContext} (h : LoopWrites own c c') (message : Str) :
    LoopWrites own c (pushMessages c' [.user message]) := by
  obtain ⟨injected, hm⟩ := h.messages
  refine ⟨⟨injected ++ [message], ?_⟩, h.forceText, h.tools, h.systemPrompt, h.modelOverride⟩
  rw [pushMessages, hm]
  simp

theorem OwnWrites.inject {message : Str} : ∀ {log : List Event} {own : List ChatMessage} {c c' : ReasoningContext},
    OwnWrites own c log c' → OwnWrites own c log (pushMessages c' [.user message])
  | [], _, _, _, h => LoopWrites.inject h message
  | _ :: _, _, _, _, h => ⟨h.1, OwnWrites.inject h.2⟩

theorem OwnWrites.snoc {e : Event} {c' : ReasoningContext} (he : LoopWrites e.op.own e.ctxOut c') :
    ∀ {log : List Event} {own : List ChatMessage} {c : ReasoningContext}, OwnWrites own c log e.ctxIn →
      OwnWrites own c (log ++ [e]) c'
  | [], _, _, h => ⟨h, he⟩
  | _ :: _, _, _, h => ⟨h.1, OwnWrites.snoc he h.2⟩

/-- Where an event of a longer log is: among the old ones, or at the end. -/
theorem split_snoc {log pre post : List Event} {e e' : Event} (h : log ++ [e'] = pre ++ e :: post) :
    (post = [] ∧ pre = log ∧ e = e') ∨ ∃ post', post = post' ++ [e'] ∧ log = pre ++ e :: post' := by
  rcases List.eq_nil_or_concat post with rfl | ⟨post', x, rfl⟩
  · obtain ⟨h₁, h₂⟩ := List.append_inj' h rfl
    exact .inl ⟨rfl, h₁.symm, (List.cons.inj h₂).1.symm⟩
  · rw [List.concat_eq_append, ← List.cons_append, ← List.append_assoc] at h
    obtain ⟨h₁, h₂⟩ := List.append_inj' h rfl
    exact .inr ⟨post', by rw [List.concat_eq_append, (List.cons.inj h₂).1], h₁⟩

/-- The discipline so far: `c` is the loop's context, `k` and `t` are its counters, and at most `m` calls were made. -/
structure Book (rt : ReplyText) (cfg : AgenticLoopConfig) (ctx : ReasoningContext) (log : List Event)
    (c : ReasoningContext) (k t m : Nat) : Prop where
  calls : (log.countP fun e => e.op.isCall) ≤ m
  executed : ∀ pre e post calls content, log = pre ++ e :: post → e.op = .execute calls content →
    RepliedWith pre calls content
  nudges : ∀ pre, pre <+: log → nudgesSince rt pre ≤ cfg.maxToolIntentNudges
  nudgeCount : nudgesSince rt log = k
  truncationCount : truncatedSince log = t
  writes : OwnWrites [] ctx log c
  forced : ∀ pre e post, log = pre ++ e :: post → e.op.isTruncated = true → truncatedSince (pre ++ [e]) = 3 →
    (nextCtx post c).forceText = true

namespace Book

variable {rt : ReplyText} {cfg : AgenticLoopConfig} {ctx c c' : ReasoningContext} {log : List Event} {k t m : Nat}
  {e : Event}

theorem start (rt : ReplyText) (cfg : AgenticLoopConfig) (ctx : ReasoningContext) : Book rt cfg ctx [] ctx 0 0 0 := by
  refine ⟨Nat.le_refl _, ?_, ?_, rfl, rfl, LoopWrites.refl ctx, ?_⟩
  · intro pre e post calls content h
    cases pre <;> cases h
  · intro pre h
    rw [List.prefix_nil.mp h]
    exact Nat.zero_le _
  · intro pre e post h
    cases pre <;> cases h

theorem inject (h : Book rt cfg ctx log c k t m) (message : Str) :
    Book rt cfg ctx log (pushMessages c [.user message]) k t m := by
  refine ⟨h.calls, h.executed, h.nudges, h.nudgeCount, h.truncationCount, h.writes.inject, ?_⟩
  intro pre e post hlog htr hthird
  have hf := h.forced pre e post hlog htr hthird
  cases post with
  | nil => exact hf
  | cons _ _ => exact hf

/-- One more operation. The loop keeps the rules of nudges, batches and cut-off replies. -/
theorem snoc (h : Book rt cfg ctx log e.ctxIn k t m) (hw : LoopWrites e.op.own e.ctxOut c')
    (hexec : ∀ calls content, e.op = .execute calls content → RepliedWith log calls content)
    (hnudge : e.op.isNudge = true → k < cfg.maxToolIntentNudges)
    (hforced : e.op.isTruncated = true → t = 2 → c'.forceText = true) :
    Book rt cfg ctx (log ++ [e]) c'
      (if e.op.isExecute || e.op.isPlainText rt then 0 else if e.op.isNudge then k + 1 else k)
      (if e.op.isExecute then 0 else if e.op.isTruncated then t + 1 else t)
      (if e.op.isCall then m + 1 else m) := by
  have hk := nudgesSince_append rt log e
  have ht := truncatedSince_append log e
  rw [h.nudgeCount] at hk
  rw [h.truncationCount] at ht
  refine ⟨?_, ?_, ?_, hk, ht, h.writes.snoc hw, ?_⟩
  · have := h.calls
    rw [List.countP_append, List.countP_singleton]
    split <;> omega
  · intro pre e₁ post calls content hlog hop
    rcases split_snoc hlog with ⟨-, rfl, rfl⟩ | ⟨post', -, hlog⟩
    · exact hexec calls content hop
    · exact h.executed pre e₁ post' calls content hlog hop
  · intro pre hpre
    rcases List.prefix_concat_iff.mp hpre with rfl | hpre
    · rw [hk]
      split
      · exact Nat.zero_le _
      · split
        next hn => exact hnudge hn
        · rw [← h.nudgeCount]
          exact h.nudges log (List.prefix_refl log)
    · exact h.nudges pre hpre
  · intro pre e₁ post hlog htr hthird
    rcases split_snoc hlog with ⟨rfl, rfl, rfl⟩ | ⟨post', rfl, hold⟩
    · refine hforced htr ?_
      rw [ht, htr] at hthird
      split at hthird
      · cases hthird
      · exact Nat.succ.inj hthird
    · have hf := h.forced pre e₁ post' hold htr hthird
      cases post' with
      | nil => exact hf
      | cons _ _ => exact hf

theorem mono {m' : Nat} (h : Book rt cfg ctx log c k t m) (hm : m ≤ m') : Book rt cfg ctx log c k t m' :=
  { h with calls := h.calls.trans hm }

theorem disciplined_of_le (h : Book rt cfg ctx log c k t m) (hm : m ≤ cfg.maxIterations) :
    Disciplined rt cfg ctx log c :=
  ⟨h.calls.trans hm, h.executed, h.nudges, h.writes, h.forced⟩

end Book

/-! ## Iterations -/

section Iterations

variable {σ : Type} (d : LoopDelegate σ) {rt : ReplyText} {cfg : AgenticLoopConfig} {ctx c : ReasoningContext}
  {s : σ × List Event} {k t m : Nat}

/-- The discipline at the end of an iteration. -/
def Next.Booked (rt : ReplyText) (cfg : AgenticLoopConfig) (ctx : ReasoningContext) (m : Nat) :
    Next (σ × List Event) → Prop
  | .proceed st => Book rt cfg ctx st.state.2 st.ctx st.consecutiveToolIntentNudges st.truncationCount m
  | .done r => ∃ k t, Book rt cfg ctx r.state.2 r.ctx k t m

/-- A text; the counter of nudges in the log is the one after the reply. -/
theorem handleText_booked {text : Str} (i : Nat)
    (h : Book rt cfg ctx s.2 c (if rt.signalsToolIntent text then k else 0) t m) :
    (handleText (logged d) rt cfg c s k t i text).Booked rt cfg ctx m := by
  simp only [handleText]
  split
  next hcond =>
    simp only [Bool.and_eq_true, decide_eq_true_eq] at hcond
    obtain ⟨⟨-, hlt⟩, hintent⟩ := hcond
    rw [if_pos hintent] at h
    refine Book.snoc (e := ⟨c, (d.onToolIntentNudge s.1 c text).1, .nudge text⟩) h ?_ ?_ (fun _ => hlt) ?_
    · exact ⟨⟨[], by simp [pushMessages, logged, Op.own]⟩, id, rfl, rfl, rfl⟩
    · intro calls content hop
      cases hop
    · intro htr
      cases htr
  · have hbook := Book.snoc (e := ⟨c, (d.handleTextResponse s.1 c text).ctx, .text text⟩) h (LoopWrites.refl _)
      (by intro calls content hop; cases hop) (by intro hn; cases hn) (by intro htr; cases htr)
    split
    · exact ⟨_, _, hbook⟩
    · exact hbook

/-- A reply that was cut off. -/
theorem discardTruncated_booked {calls : List ToolCall} {content : Option Str} {c₁ : ReasoningContext}
    {log : List Event} (i : Nat) (h : Book rt cfg ctx log c k t m)
    (hlog : s.2 = log ++ [⟨c, c₁, .call (.ok ⟨.toolCalls calls content, .length⟩)⟩]) :
    (discardTruncated (logged d) c₁ s k t i content).Booked rt cfg ctx (m + 1) := by
  simp only [discardTruncated, Next.Booked, logged, hlog]
  refine Book.snoc (e := ⟨c, c₁, .call (.ok ⟨.toolCalls calls content, .length⟩)⟩) h ?_ ?_ ?_ ?_
  · refine ⟨⟨[], ?_⟩, ?_, ?_, ?_, ?_⟩
    · split <;> simp [pushMessages, Op.own]
    · intro hf
      split
      · rfl
      · exact hf
    all_goals split <;> rfl
  · intro calls' content' hop
    cases hop
  · intro hn
    cases hn
  · intro _ ht
    rw [if_pos (by omega)]

/-- A batch that is executed answers the last reply. -/
theorem runBatch_booked {calls : List ToolCall} {content : Option Str} (i : Nat) (h : Book rt cfg ctx s.2 c k t m)
    (hlast : RepliedWith s.2 calls content) :
    (runBatch (logged d) c s i calls content).Booked rt cfg ctx m := by
  have hbook := Book.snoc (e := ⟨c, (d.executeToolCalls s.1 c calls content).ctx, .execute calls content⟩) h
    (LoopWrites.refl _) (by intro calls' content' hop; cases hop; exact hlast) (by intro hn; cases hn)
    (by intro htr; cases htr)
  simp only [runBatch]
  split
  · exact ⟨_, _, hbook⟩
  · exact ⟨_, _, hbook⟩
  · exact hbook

/-- The log after a call with the given reply. -/
theorem log_callLlm {s : σ × List Event} {i : Nat} {reply : Except LlmError RespondOutput}
    (h : ((logged d).callLlm s c i).value = reply) :
    ((logged d).callLlm s c i).state.2 = s.2 ++ [⟨c, ((logged d).callLlm s c i).ctx, .call reply⟩] := by
  rw [← h]
  rfl

/-- A reply that was not cut off. -/
theorem call_booked {s : σ × List Event} {i : Nat} {reply : Except LlmError RespondOutput}
    (h : Book rt cfg ctx s.2 c k t m) (hreply : ((logged d).callLlm s c i).value = reply)
    (hown : (Op.call reply).own = []) (htr : (Op.call reply).isTruncated = false) :
    Book rt cfg ctx ((logged d).callLlm s c i).state.2 ((logged d).callLlm s c i).ctx
      (if (Op.call reply).isPlainText rt then 0 else k) t (m + 1) := by
  rw [log_callLlm d hreply]
  have hwrites : LoopWrites (Op.call reply).own ((logged d).callLlm s c i).ctx ((logged d).callLlm s c i).ctx := by
    rw [hown]
    exact LoopWrites.refl _
  have hbook := Book.snoc (e := ⟨c, ((logged d).callLlm s c i).ctx, .call reply⟩) h hwrites
    (by intro calls content hop; cases hop) (by intro hn; cases hn) (by intro ht; rw [htr] at ht; cases ht)
  simp only [htr] at hbook
  exact hbook

theorem respond_booked (i : Nat) (h : Book rt cfg ctx s.2 c k t m) :
    (respond (logged d) rt cfg c s k t i).Booked rt cfg ctx (m + 1) := by
  have hbefore := Book.snoc (e := ⟨c, (d.beforeLlmCall s.1 c i).ctx, .before⟩) h (LoopWrites.refl _)
    (by intro calls content hop; cases hop) (by intro hn; cases hn) (by intro htr; cases htr)
  have hbefore : Book rt cfg ctx ((logged d).beforeLlmCall s c i).state.2 ((logged d).beforeLlmCall s c i).ctx k t m :=
    hbefore
  simp only [respond]
  split
  · exact ⟨_, _, hbefore.mono (Nat.le_succ m)⟩
  · split
    next e hreply => exact ⟨_, _, call_booked d hbefore hreply rfl rfl⟩
    next text fin hreply =>
      have hcall := call_booked d hbefore hreply rfl rfl
      refine handleText_booked d i ?_
      simp only [Op.isPlainText] at hcall
      cases hi : rt.signalsToolIntent text with
      | true => simpa [hi] using hcall
      | false => simpa [hi] using hcall
    next calls content fin hreply =>
      split
      next hfin =>
        subst hfin
        exact discardTruncated_booked d i hbefore (log_callLlm d hreply)
      next hfin =>
        have hown : (Op.call (.ok ⟨.toolCalls calls content, fin⟩)).own = [] ∧
            (Op.call (.ok ⟨.toolCalls calls content, fin⟩)).isTruncated = false := by
          cases fin with
          | length => exact absurd rfl hfin
          | _ => exact ⟨rfl, rfl⟩
        exact runBatch_booked d i (call_booked d hbefore hreply hown.1 hown.2)
          ⟨_, _, fin, log_callLlm d hreply, rfl, hfin⟩

theorem iterate_booked (st : LoopState (σ × List Event)) (i : Nat)
    (h : Book rt cfg ctx st.state.2 st.ctx st.consecutiveToolIntentNudges st.truncationCount m) :
    (iterate (logged d) rt cfg st i).Booked rt cfg ctx (m + 1) := by
  simp only [iterate, logged]
  split
  next s' hs =>
    obtain ⟨-, rfl⟩ := Prod.mk.inj hs
    exact ⟨_, _, h.mono (Nat.le_succ m)⟩
  next s' hs =>
    obtain ⟨-, rfl⟩ := Prod.mk.inj hs
    exact respond_booked d i h
  next message s' hs =>
    obtain ⟨-, rfl⟩ := Prod.mk.inj hs
    exact respond_booked d i (h.inject message)

theorem loop_booked : ∀ (n i m : Nat) (st : LoopState (σ × List Event)),
    Book rt cfg ctx st.state.2 st.ctx st.consecutiveToolIntentNudges st.truncationCount m →
    ∃ k t, Book rt cfg ctx (loop (logged d) rt cfg n i st).state.2 (loop (logged d) rt cfg n i st).ctx k t (m + n)
  | 0, _, _, _, h => ⟨_, _, h⟩
  | n + 1, i, m, st, h => by
    have hit := iterate_booked d st i h
    simp only [loop]
    split
    next r hr =>
      rw [hr] at hit
      obtain ⟨k, t, hbook⟩ := hit
      exact ⟨k, t, hbook.mono (by omega)⟩
    next st' hst =>
      rw [hst] at hit
      have hrest := loop_booked n (i + 1) (m + 1) st' hit
      rwa [show m + (n + 1) = m + 1 + n by omega]

/-- **Discipline.** What any delegate sees of the loop keeps the rules. -/
theorem disciplined (rt : ReplyText) (cfg : AgenticLoopConfig) (ctx : ReasoningContext) (s : σ) :
    Disciplined rt cfg ctx (runAgenticLoop (logged d) rt cfg ctx (s, [])).state.2
      (runAgenticLoop (logged d) rt cfg ctx (s, [])).ctx := by
  obtain ⟨k, t, hbook⟩ := loop_booked d cfg.maxIterations 1 0 ⟨ctx, (s, []), 0, 0⟩ (Book.start rt cfg ctx)
  exact hbook.disciplined_of_le (by omega)

end Iterations

/-! ## Chat turns -/

section Chat

variable (cfg : ChatConfig) (inputs : Nat → IterationInput) (tools : List ToolDefinition)

/-- With forced text the reply has no calls, and text stays forced. -/
theorem callLlm_forced (s : ChatDelegate) {ctx : ReasoningContext} (i : Nat) (hf : ctx.forceText = true) :
    (s.callLlm cfg inputs ctx i).ctx.forceText = true ∧
      ∀ calls content fin, (s.callLlm cfg inputs ctx i).value ≠ .ok ⟨.toolCalls calls content, fin⟩ := by
  have hno : ∀ (ans : Llm.Answers) (c : ReasoningContext), c.forceText = true →
      ∀ calls content fin, respondWithTools cfg.replyText ans c ≠ .ok ⟨.toolCalls calls content, fin⟩ := by
    intro ans c hc calls content fin h
    rw [(offered_of_calls h).1] at hc
    cases hc
  unfold ChatDelegate.callLlm
  split
  · exact ⟨hf, fun _ _ _ h => by cases h⟩
  · simp only
    split
    · exact ⟨hf, hno _ _ hf⟩
    · exact ⟨hf, hno _ _ hf⟩

theorem outcome_ne_maxIterations (env : ChatEnv) (calls : List ToolCall) (content : Option Str) (st : ChatState) :
    (executeToolCalls env calls content st).outcome ≠ some .maxIterations := by
  rw [outcome_executeToolCalls]
  split <;> exact fun h => by cases h

/-- A text is nudged, unless text is forced, or it is the response. -/
theorem chat_handleText (ctx : ReasoningContext) (s : ChatDelegate) (k t i : Nat) (text : Str) (rt : ReplyText)
    (lcfg : AgenticLoopConfig) :
    (ctx.forceText = false ∧ ∃ st, handleText (chatDelegate cfg tools inputs) rt lcfg ctx s k t i text = .proceed st) ∨
      ∃ reply, handleText (chatDelegate cfg tools inputs) rt lcfg ctx s k t i text =
        .done ⟨.ok (.response reply), ctx, s⟩ := by
  unfold handleText
  split
  next hcond =>
    simp only [Bool.and_eq_true, Bool.not_eq_true'] at hcond
    exact .inl ⟨hcond.1.1.2, _, rfl⟩
  · exact .inr ⟨_, rfl⟩

/-- An iteration of a chat turn does not end it with `MaxIterations`. -/
theorem chat_iterate {st : LoopState ChatDelegate} {i : Nat} {rt : ReplyText} {lcfg : AgenticLoopConfig}
    {r : Stepped ChatDelegate (Except LlmError LoopOutcome)}
    (h : iterate (chatDelegate cfg tools inputs) rt lcfg st i = .done r) : r.value ≠ .ok .maxIterations := by
  have hrespond : ∀ ctx s k t, respond (chatDelegate cfg tools inputs) rt lcfg ctx s k t i = .done r →
      r.value ≠ .ok .maxIterations := by
    intro ctx s k t h
    simp only [respond] at h
    split at h
    next o ho => cases ho
    · split at h
      · cases h
        exact fun h => by cases h
      next text _ _ =>
        rcases chat_handleText cfg inputs tools _ _ k t i text rt lcfg with ⟨-, st', hst⟩ | ⟨reply, hreply⟩
        · rw [hst] at h
          cases h
        · rw [hreply] at h
          cases h
          exact fun h => by cases h
      · split at h
        · cases h
        · simp only [runBatch, chatDelegate] at h
          split at h
          next e he => cases he
          next o ho =>
            cases h
            intro ho'
            rw [Except.ok.inj ho'] at ho
            exact outcome_ne_maxIterations _ _ _ _ (Except.ok.inj ho)
          · cases h
  simp only [iterate] at h
  split at h
  · cases h
    exact fun h => by cases h
  · exact hrespond _ _ _ _ h
  · exact hrespond _ _ _ _ h

/-- From the limit on an iteration is the last one. -/
theorem chat_iterate_forced (st : LoopState ChatDelegate) {i : Nat} (hi : cfg.maxToolIterations ≤ i) (rt : ReplyText)
    (lcfg : AgenticLoopConfig) : ∃ r, iterate (chatDelegate cfg tools inputs) rt lcfg st i = .done r := by
  have hrespond : ∀ ctx s k t, ∃ r, respond (chatDelegate cfg tools inputs) rt lcfg ctx s k t i = .done r := by
    intro ctx s k t
    have hforce : ((chatDelegate cfg tools inputs).beforeLlmCall s ctx i).ctx.forceText = true := by
      have hle : decide (cfg.forceTextAt ≤ i) = true := decide_eq_true hi
      simp only [chatDelegate, ChatDelegate.beforeLlmCall, hle, Bool.true_or]
    obtain ⟨hctx, hno⟩ :=
      callLlm_forced cfg inputs ((chatDelegate cfg tools inputs).beforeLlmCall s ctx i).state i hforce
    simp only [respond]
    split
    · exact ⟨_, rfl⟩
    · split
      · exact ⟨_, rfl⟩
      next text _ _ =>
        rcases chat_handleText cfg inputs tools _ _ k t i text rt lcfg with ⟨hf, -⟩ | ⟨reply, hreply⟩
        · exact absurd (hctx.symm.trans hf) Bool.noConfusion
        · exact ⟨_, hreply⟩
      next hcalls => exact absurd hcalls (hno _ _ _)
  simp only [iterate]
  split
  · exact ⟨_, rfl⟩
  · exact hrespond _ _ _ _
  · exact hrespond _ _ _ _

/-- The loop of a chat turn ends before its ceiling, when it is past the limit. -/
theorem chat_loop (rt : ReplyText) (lcfg : AgenticLoopConfig) : ∀ (n i : Nat) (st : LoopState ChatDelegate),
    i ≤ max cfg.maxToolIterations 1 → max cfg.maxToolIterations 1 < i + n →
    (loop (chatDelegate cfg tools inputs) rt lcfg n i st).value ≠ .ok .maxIterations
  | 0, i, _, hi, hn => by omega
  | n + 1, i, st, hi, hn => by
    simp only [loop]
    split
    next r hr => exact chat_iterate cfg inputs tools hr
    next st' hst =>
      by_cases hlast : cfg.maxToolIterations ≤ i
      · obtain ⟨r, hr⟩ := chat_iterate_forced cfg inputs tools st hlast rt lcfg
        rw [hst] at hr
        cases hr
      · exact chat_loop rt lcfg n (i + 1) st' (by omega) (by omega)

/-- A chat turn does not run out of iterations. -/
theorem chat_ne_maxIterations (h : cfg.maxToolIterations + 1 < 2 ^ 64) (ctx : ReasoningContext) (s : ChatDelegate) :
    (runAgenticLoop (chatDelegate cfg tools inputs) cfg.replyText cfg.loopConfig ctx s).value ≠ .ok .maxIterations := by
  have hmax : cfg.loopConfig.maxIterations = cfg.maxToolIterations + 1 := Nat.mod_eq_of_lt h
  refine chat_loop cfg inputs tools cfg.replyText cfg.loopConfig _ 1 _ (by omega) ?_
  rw [hmax]
  omega

/-- With the largest machine integer as the limit, the ceiling is 0. -/
theorem chat_exhausted (h : cfg.maxToolIterations = 2 ^ 64 - 1) (ctx : ReasoningContext) (s : ChatDelegate) :
    (runAgenticLoop (chatDelegate cfg tools inputs) cfg.replyText cfg.loopConfig ctx s).value = .ok .maxIterations := by
  have hmax : cfg.loopConfig.maxIterations = 0 := by
    show (cfg.maxToolIterations + 1) % 2 ^ 64 = 0
    omega
  unfold runAgenticLoop
  rw [hmax]
  rfl

end Chat

/-- The discipline of the loop for every delegate, and chat turns with the limit `n` that do not run out of
iterations. -/
structure LoopDiscipline (n : UInt64) : Prop where
  disciplined : ∀ (σ : Type) (d : LoopDelegate σ) (rt : ReplyText) (cfg : AgenticLoopConfig) (ctx : ReasoningContext)
    (s : σ),
    (runAgenticLoop (logged d) rt cfg ctx (s, [])).fst = runAgenticLoop d rt cfg ctx s ∧
      Disciplined rt cfg ctx (runAgenticLoop (logged d) rt cfg ctx (s, [])).state.2
        (runAgenticLoop (logged d) rt cfg ctx (s, [])).ctx
  ends : ∀ (cfg : ChatConfig) (inputs : Nat → IterationInput) (tools : List ToolDefinition) (ctx : ReasoningContext)
    (s : ChatDelegate), cfg.maxToolIterations = n.toNat →
    (runAgenticLoop (chatDelegate cfg tools inputs) cfg.replyText cfg.loopConfig ctx s).value ≠ .ok .maxIterations

/-- **The loop is disciplined**, exactly when the ceiling of a chat turn does not overflow. -/
theorem discipline_iff (n : UInt64) : LoopDiscipline n ↔ n.toNat + 1 < 2 ^ 64 := by
  constructor
  · intro h
    by_contra hmax
    have hn : n.toNat = 2 ^ 64 - 1 := by
      have := n.toNat_lt
      omega
    exact h.ends { installedTurn with maxToolIterations := n.toNat } (calling [] false) []
      (initialContext installedTurn [] []) ⟨none, none, [], 0, [], []⟩ rfl (chat_exhausted _ _ _ hn _ _)
  · intro h
    refine ⟨fun σ d rt cfg ctx s => ⟨fst_runAgenticLoop rt cfg ctx s, disciplined d rt cfg ctx s⟩, ?_⟩
    intro cfg inputs tools ctx s hcfg
    rw [← hcfg] at h
    exact chat_ne_maxIterations cfg inputs tools h ctx s

/-- A turn whose limit is the largest machine integer ends before its first iteration. -/
theorem largest_limit_exhausts :
    (runAgenticLoop (chatDelegate { installedTurn with maxToolIterations := 2 ^ 64 - 1 } [] (calling [] false))
      installedTurn.replyText (ChatConfig.loopConfig { installedTurn with maxToolIterations := 2 ^ 64 - 1 })
      (initialContext installedTurn [] []) ⟨none, none, [], 0, [], []⟩).value = .ok .maxIterations ∧
      ¬LoopDiscipline 18446744073709551615 := by
  have hexhausted := chat_exhausted { installedTurn with maxToolIterations := 2 ^ 64 - 1 } (calling [] false) [] rfl
    (initialContext installedTurn [] []) ⟨none, none, [], 0, [], []⟩
  exact ⟨hexhausted, fun h => h.ends _ _ _ _ _ rfl hexhausted⟩

end Ironclaw.Agent

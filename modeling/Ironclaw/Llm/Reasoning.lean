import Ironclaw.Llm.Message

/-!
# Replies

`Reasoning::respond_with_tools`: a request with the offered tools, or a text request when there are none or text is
forced; calls are taken from the structured answer, or recovered from its text.

The cleaning of texts, the test for quoted segments, the JSON reader and the detection of tool intent are parameters
(`ReplyText`). The answers of the provider are given, one for each kind of request (`Answers`).

- `recover_offered`: a recovered call names one of the tools it was given;
- `respond_calls`: the calls of a reply are those of the structured answer or recovered ones;
- `offered_of_calls`, `respond_error`: a reply with calls, or a failure while tools are offered, answers a request with
  tools.
-/

namespace Ironclaw.Llm

open Text

structure ReplyText where
  truncateAtToolTags : Str → Str
  cleanResponse : Str → Str
  /-- `is_recoverable_tool_call_segment`, for the segment between two positions. -/
  isRecoverable : (content : Str) → (start segmentEnd : Nat) → Bool
  parseJson : Str → Option Json
  signalsToolIntent : Str → Bool

structure ReasoningContext where
  messages : List ChatMessage
  availableTools : List ToolDefinition
  forceText : Bool
  systemPrompt : Option Str
  modelOverride : Option Str

inductive LlmError
  | contextLengthExceeded (used limit : Nat)
  | invalidResponse (provider reason : Str)
  | other (text : Str)
  deriving DecidableEq

inductive RespondResult
  | text (text : Str)
  | toolCalls (calls : List ToolCall) (content : Option Str)
  deriving DecidableEq

structure RespondOutput where
  result : RespondResult
  finishReason : FinishReason
  deriving DecidableEq

/-- What the provider answers to a request with tools, and to one without. -/
structure Answers where
  withTools : Except LlmError ToolCompletionResponse
  plain : Except LlmError CompletionResponse

/-- A request to the provider. -/
structure Request where
  messages : List ChatMessage
  tools : List ToolDefinition
  model : Option Str

/-! ## Calls recovered from text -/

/-- `generate_tool_call_id`: nine base-62 digits of a 64-bit mix of the seeds. -/
def generateToolCallId (seedA seedB : Nat) : Str :=
  let combined := (seedA * 6364136223846793005 + seedB) % 2 ^ 64
  let digit (d : Nat) : Char :=
    if d < 10 then Char.ofNat (48 + d) else if d < 36 then Char.ofNat (97 + (d - 10)) else Char.ofNat (65 + (d - 36))
  (List.range 9).reverse.map fun i => digit (combined / 62 ^ i % 62)

def RECOVERED_TOOL_CALL_SEED : Nat := 99

/-- The segments between an opening and a closing tag: start, end and inner text. The second argument bounds their
number, the third is the position of the rest. -/
def taggedSegments (openTag closeTag : Str) : (fuel pos : Nat) → Str → List (Nat × Nat × Str)
  | 0, _, _ => []
  | fuel + 1, pos, rest =>
    match find openTag rest with
    | none => []
    | some offset =>
      let after := rest.drop (offset + openTag.length)
      match find closeTag after with
      | none => []
      | some endOffset =>
        let start := pos + offset
        let segmentEnd := start + openTag.length + endOffset + closeTag.length
        (start, segmentEnd, after.take endOffset) ::
          taggedSegments openTag closeTag fuel segmentEnd (after.drop (endOffset + closeTag.length))

/-- The call in the inner text of a segment: an object with a name, or a bare name. -/
def recoverInner (rt : ReplyText) (names : List Str) (inner : Str) : Option (Str × Json) :=
  let inner := trim inner
  if inner.isEmpty then none
  else
    let fromJson := (rt.parseJson inner).bind fun parsed =>
      ((parsed.get "name".toList).bind Json.asStr).bind fun name =>
        if names.contains name then some (name, (parsed.get "arguments".toList).getD (.obj [])) else none
    fromJson.or (if names.contains inner then some (inner, .obj []) else none)

def TOOL_CALL_TAGS : List (Str × Str) :=
  [("<tool_call>", "</tool_call>"), ("<|tool_call|>", "<|/tool_call|>"), ("<function_call>", "</function_call>"),
    ("<|function_call|>", "<|/function_call|>")].map fun t => (t.1.toList, t.2.toList)

def BRACKET_START : Str := "[Called tool `".toList

/-- The calls in bracket format; the first argument bounds the number of rounds. -/
def bracketCalls (rt : ReplyText) (names : List Str) : (fuel : Nat) → Str → List (Str × Json)
  | 0, _ => []
  | fuel + 1, remaining =>
    match find BRACKET_START remaining with
    | none => []
    | some start =>
      let afterStart := remaining.drop (start + BRACKET_START.length)
      match find "`".toList afterStart with
      | none => []
      | some backtickEnd =>
        let name := afterStart.take backtickEnd
        let afterName := afterStart.drop (backtickEnd + 1)
        if names.contains name then
          match (stripStart " with arguments: ".toList afterName).bind fun args =>
              (rfindChar ']' args).map fun bracketEnd => (args, bracketEnd) with
          | some (args, bracketEnd) =>
            (name, (rt.parseJson (args.take bracketEnd)).getD (.obj [])) ::
              bracketCalls rt names fuel (args.drop (bracketEnd + 1))
          | none => (name, .obj []) :: bracketCalls rt names fuel afterName
        else bracketCalls rt names fuel afterName

/-- `recover_tool_calls_from_content`. -/
def recoverToolCallsFromContent (rt : ReplyText) (content : Str) (availableTools : List ToolDefinition) :
    List ToolCall :=
  let names := availableTools.map ToolDefinition.name
  let tagged := TOOL_CALL_TAGS.flatMap fun tags =>
    (taggedSegments tags.1 tags.2 (content.length + 1) 0 content).filterMap fun seg =>
      if rt.isRecoverable content seg.1 seg.2.1 then recoverInner rt names seg.2.2 else none
  let calls := tagged ++ bracketCalls rt names (content.length + 1) content
  calls.zipIdx.map fun c => ⟨generateToolCallId c.2 RECOVERED_TOOL_CALL_SEED, c.1.1, c.1.2, none⟩

theorem recoverInner_offered {rt : ReplyText} {names : List Str} {inner : Str} {c : Str × Json}
    (h : recoverInner rt names inner = some c) : c.1 ∈ names := by
  simp only [recoverInner] at h
  split at h
  · cases h
  · rcases Option.or_eq_some_iff.mp h with h | ⟨-, h⟩
    · obtain ⟨parsed, -, h⟩ := Option.bind_eq_some_iff.mp h
      obtain ⟨name, -, h⟩ := Option.bind_eq_some_iff.mp h
      split at h
      next hn =>
        obtain rfl := Option.some.inj h
        exact List.contains_iff_mem.mp hn
      · cases h
    · split at h
      next hn =>
        obtain rfl := Option.some.inj h
        exact List.contains_iff_mem.mp hn
      · cases h

theorem bracketCalls_offered {rt : ReplyText} {names : List Str} : ∀ (fuel : Nat) (s : Str),
    ∀ c ∈ bracketCalls rt names fuel s, c.1 ∈ names
  | 0, _, c, hc => by cases hc
  | fuel + 1, s, c, hc => by
    simp only [bracketCalls] at hc
    split at hc
    · cases hc
    · split at hc
      · cases hc
      · split at hc
        next hn =>
          split at hc
          all_goals
            rcases List.mem_cons.mp hc with rfl | hc
            · exact List.contains_iff_mem.mp hn
            · exact bracketCalls_offered fuel _ c hc
        · exact bracketCalls_offered fuel _ c hc

/-- A recovered call names one of the given tools. -/
theorem recover_offered {rt : ReplyText} {content : Str} {tools : List ToolDefinition} {tc : ToolCall}
    (h : tc ∈ recoverToolCallsFromContent rt content tools) : tc.name ∈ tools.map ToolDefinition.name := by
  obtain ⟨⟨c, i⟩, hc, rfl⟩ := List.mem_map.mp h
  have hc : c ∈ _ := List.fst_mem_of_mem_zipIdx hc
  rcases List.mem_append.mp hc with hc | hc
  · obtain ⟨tags, -, hc⟩ := List.mem_flatMap.mp hc
    obtain ⟨seg, -, hseg⟩ := List.mem_filterMap.mp hc
    split at hseg
    · exact recoverInner_offered hseg
    · cases hseg
  · exact bracketCalls_offered _ _ c hc

/-! ## The reply -/

def cleanReply (rt : ReplyText) (content : Str) : Str := rt.cleanResponse (rt.truncateAtToolTags content)

/-- A text reply; nothing left after cleaning gives a fixed text. -/
def textReply (rt : ReplyText) (content : Str) : RespondResult :=
  let cleaned := cleanReply rt content
  .text (if (trim cleaned).isEmpty then "I'm not sure how to respond to that.".toList else cleaned)

/-- The reasoning of a structured call: its own, cleaned, or the narrative of the response. -/
def callReasoning (rt : ReplyText) (narrative : Option Str) (tc : ToolCall) : ToolCall :=
  { tc with reasoning :=
      if tc.reasoning.all fun r => (trim r).isEmpty then narrative.filter fun n => !n.isEmpty
      else (tc.reasoning.map (cleanReply rt)).filter fun r => !(trim r).isEmpty }

def mergeSystemMessages (primary : Str) (messages : List ChatMessage) : Str :=
  let extra := (messages.filter fun m => m.role = .system).map ChatMessage.content
  if extra.isEmpty then primary else primary ++ "\n\n---\n\n".toList ++ join "\n\n".toList extra

/-- The tools a request offers. -/
def effectiveTools (ctx : ReasoningContext) : List ToolDefinition := if ctx.forceText then [] else ctx.availableTools

/-- The request for a context; without a prompt of its own the context gets the one built for its tools. -/
def requestOf (buildPrompt : List ToolDefinition → Str) (ctx : ReasoningContext) : Request where
  messages := .system (mergeSystemMessages (ctx.systemPrompt.getD (buildPrompt ctx.availableTools)) ctx.messages) ::
    ctx.messages.filter fun m => m.role != .system
  tools := effectiveTools ctx
  model := ctx.modelOverride

/-- `Reasoning::respond_with_tools`. -/
def respondWithTools (rt : ReplyText) (ans : Answers) (ctx : ReasoningContext) : Except LlmError RespondOutput :=
  if (effectiveTools ctx).isEmpty then
    match ans.plain with
    | .error e => .error e
    | .ok r => .ok ⟨textReply rt r.content, r.finishReason⟩
  else
    match ans.withTools with
    | .error e => .error e
    | .ok r =>
      if r.toolCalls.isEmpty then
        let content := r.content.getD []
        let recovered := recoverToolCallsFromContent rt content ctx.availableTools
        if recovered.isEmpty then .ok ⟨textReply rt content, r.finishReason⟩
        else
          let cleaned := cleanReply rt content
          .ok ⟨.toolCalls recovered (if cleaned.isEmpty then none else some cleaned), r.finishReason⟩
      else
        let narrative := r.content.map (cleanReply rt)
        .ok ⟨.toolCalls (r.toolCalls.map (callReasoning rt narrative)) narrative, r.finishReason⟩

/-- Each call of a reply has the name of a structured call of the answer, or is a recovered one. -/
theorem respond_calls {rt : ReplyText} {ans : Answers} {ctx : ReasoningContext} {calls : List ToolCall}
    {content : Option Str} {fin : FinishReason}
    (h : respondWithTools rt ans ctx = .ok ⟨.toolCalls calls content, fin⟩) :
    ∃ r, ans.withTools = .ok r ∧ r.finishReason = fin ∧
      ∀ tc ∈ calls, tc.name ∈ r.toolCalls.map ToolCall.name ∨ tc.name ∈ ctx.availableTools.map ToolDefinition.name := by
  simp only [respondWithTools] at h
  split at h
  · split at h <;> cases h
  · split at h
    · cases h
    next r hr =>
      refine ⟨r, hr, ?_⟩
      split at h
      · split at h
        · cases h
        · cases h
          exact ⟨rfl, fun tc htc => .inr (recover_offered htc)⟩
      · cases h
        refine ⟨rfl, fun tc htc => .inl ?_⟩
        obtain ⟨tc', htc', rfl⟩ := List.mem_map.mp htc
        exact List.mem_map.mpr ⟨tc', htc', rfl⟩

/-- A reply with calls was asked for with tools. -/
theorem offered_of_calls {rt : ReplyText} {ans : Answers} {ctx : ReasoningContext} {calls : List ToolCall}
    {content : Option Str} {fin : FinishReason}
    (h : respondWithTools rt ans ctx = .ok ⟨.toolCalls calls content, fin⟩) :
    ctx.forceText = false ∧ ctx.availableTools ≠ [] := by
  simp only [respondWithTools] at h
  split at h
  · split at h <;> cases h
  next hne =>
    unfold effectiveTools at hne
    split at hne
    · exact absurd rfl hne
    next hf => exact ⟨Bool.eq_false_iff.mpr hf, fun hnil => hne (List.isEmpty_iff.mpr hnil)⟩

/-- While tools are offered, a failure is the failure of the request with tools. -/
theorem respond_error {rt : ReplyText} {ans : Answers} {ctx : ReasoningContext} {e : LlmError}
    (hf : ctx.forceText = false) (ht : ctx.availableTools ≠ []) (h : respondWithTools rt ans ctx = .error e) :
    ans.withTools = .error e := by
  have hne : ¬(effectiveTools ctx).isEmpty = true := by
    rw [effectiveTools, hf]
    exact fun hnil => ht (List.isEmpty_iff.mp hnil)
  simp only [respondWithTools, if_neg hne] at h
  split at h
  next e' he =>
    cases h
    exact he
  · split at h
    · split at h <;> cases h
    · cases h

end Ironclaw.Llm

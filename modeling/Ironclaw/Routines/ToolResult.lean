import Ironclaw.Routines.Execute
import Ironclaw.Safety.Layer
import Ironclaw.Safety.Unwrap

/-!
# Tool results of a routine

The message that the tool loop of a routine appends for a call: the output, or the text of the error, is sanitized and
wrapped, and then cut when it is too long.

- `runToolCalls_messages`: what the loop appends;
- `cut_without_tag`: what is left of a wrapped output that is cut has no closing tag;
- `utf8Len_wrapForLlm`: how long a wrapped output is.
-/

namespace Ironclaw.Routines

open Text Llm Safety

section ToolResult

variable (cm : CaseMap) (isWord : Char → Bool) (cfg : SafetyConfig)

/-- The tools behind the safety layer. -/
def RoutineTools.safe (tools : RoutineTools) : RoutineTools :=
  { tools with process := fun name output => wrapForLlm name (sanitizeToolOutput cm isWord cfg name output).content }

def EngineEnv.safe (env : EngineEnv) : EngineEnv := { env with tools := env.tools.safe cm isWord cfg }

/-- What a tool call comes to: the output, or the text of the error. -/
def resultText (tc : ToolCall) : Except Str Str → Str
  | .ok output => output
  | .error e => "Tool '".toList ++ tc.name ++ "' failed: ".toList ++ e

/-- The text of the tool as it stands in the block. -/
def blockText (tc : ToolCall) (result : Except Str Str) : Str :=
  escapeToolOutputClose (sanitizeToolOutput cm isWord cfg tc.name (resultText tc result)).content

/-- A block that holds a text: an opening tag at the beginning, and one closing tag, after the text. -/
structure CompleteBlock (text content : Str) : Prop where
  opens : ∃ attr rest, content = "<tool_output name=\"".toList ++ attr ++ '"' :: '>' :: rest ∧
    ∀ c ∈ attr, c ≠ '"' ∧ c ≠ '<' ∧ c ≠ '>'
  oneTag : occurrences TAG_END (content.map asciiLower) = 1
  closes : ∃ front back, content = front ++ TAG_END ++ back ∧ text <:+: front

/-- A long text is cut, with a notice. -/
def cutContent (content : Str) : Str :=
  if MAX_TOOL_OUTPUT_CHARS < utf8Len content then
    takeBytes MAX_TOOL_OUTPUT_CHARS content ++ "\n... [output truncated to 8192 chars]".toList
  else content

theorem toolResultContent_eq (env : EngineEnv) (tc : ToolCall) (result : Except Str Str) :
    toolResultContent (env.safe cm isWord cfg) tc result =
      cutContent (wrapForLlm tc.name (sanitizeToolOutput cm isWord cfg tc.name (resultText tc result)).content) := by
  cases result <;> rfl

/-- The loop appends one result for each call. -/
theorem runToolCalls_messages (env : EngineEnv) (job : JobContext) (allowed : List Str) : ∀ (tcs : List ToolCall)
    (messages : List ChatMessage) (docs : Docs), ∃ results : List (Except Str Str), results.length = tcs.length ∧
      (runToolCalls env job allowed tcs messages docs).1 = messages ++
        List.zipWith (fun tc result => .toolResult tc.id tc.name (toolResultContent env tc result)) tcs results
  | [], messages, _ => ⟨[], rfl, (List.append_nil messages).symm⟩
  | tc :: tcs, messages, docs => by
    obtain ⟨results, hlength, hmessages⟩ := runToolCalls_messages env job allowed tcs
      (messages ++ [.toolResult tc.id tc.name
        (toolResultContent env tc (executeRoutineTool env job allowed tc docs).1)])
      (executeRoutineTool env job allowed tc docs).2
    refine ⟨(executeRoutineTool env job allowed tc docs).1 :: results, ?_, ?_⟩
    · rw [List.length_cons, List.length_cons, hlength]
    · rw [runToolCalls, List.zipWith_cons_cons, List.append_cons]
      exact hmessages

end ToolResult

/-! ## Cutting a wrapped output -/

/-- Escaping makes no text shorter. -/
theorem utf8Len_le_escapeGo : ∀ (skip : Nat) (s : Str), utf8Len s ≤ utf8Len (escapeGo skip s)
  | _, [] => Nat.zero_le _
  | skip + 1, c :: cs => by
    have ih := utf8Len_le_escapeGo skip cs
    rw [escapeGo, utf8Len_cons, utf8Len_cons]
    omega
  | 0, c :: cs => by
    rw [escapeGo]
    split
    · next hneedle =>
      have hlower : asciiLower c = '<' := by
        have hprefix := List.isPrefixOf_iff_prefix.mp hneedle
        rw [needle_eq, List.map_cons] at hprefix
        exact (List.cons_prefix_cons.mp hprefix).1.symm
      have ih := utf8Len_le_escapeGo (NEEDLE.length - 1) cs
      rw [asciiLower_eq_lt hlower, utf8Len_cons, utf8Len_cons, utf8Len_cons]
      omega
    · have ih := utf8Len_le_escapeGo 0 cs
      rw [utf8Len_cons, utf8Len_cons]
      omega

theorem utf8Len_wrapForLlm (toolName content : Str) : utf8Len (wrapForLlm toolName content) =
    utf8Len (escapeXmlAttr toolName) + utf8Len (escapeToolOutputClose content) + 37 := by
  have hopening : utf8Len OPENING = 19 := by decide
  have hend : utf8Len OPENING_END = 3 := by decide
  have hclosing : utf8Len CLOSING = 15 := by decide
  simp only [wrapForLlm, utf8Len_append, hopening, hend, hclosing]
  omega

theorem tag_eq : TAG_END = NEEDLE ++ ['>'] := by decide

/-- A beginning of a wrapped output that is not the whole has no closing tag. -/
theorem tag_not_infix_of_prefix {toolName content p : Str} (hp : p <+: wrapForLlm toolName content)
    (hne : p ≠ wrapForLlm toolName content) : ¬TAG_END <:+: p.map asciiLower := by
  rintro ⟨a, b, hab⟩
  obtain ⟨s, hs⟩ := hp
  obtain ⟨hcount, hends, -⟩ := wrapper_closed toolName content
  have hone : occurrences NEEDLE ((wrapForLlm toolName content).map asciiLower) = 1 := hcount
  obtain ⟨front, hfront⟩ : ∃ front, wrapForLlm toolName content = front ++ TAG_END := hends
  have hs_ne : s ≠ [] := by
    rintro rfl
    exact hne ((List.append_nil p).symm.trans hs)
  have hlower : TAG_END.map asciiLower = TAG_END := by decide
  -- the tag stands in the beginning and at the end
  have hfirst : (wrapForLlm toolName content).map asciiLower = a ++ (NEEDLE ++ ('>' :: b ++ s.map asciiLower)) := by
    rw [← hs, List.map_append, ← hab, tag_eq]
    simp only [List.append_assoc, List.cons_append, List.nil_append]
  have hlast : (wrapForLlm toolName content).map asciiLower = front.map asciiLower ++ (NEEDLE ++ ['>']) := by
    rw [hfront, List.map_append, hlower, tag_eq]
  have hlt : a.length < (front.map asciiLower).length := by
    have hlengths := congrArg List.length (hfirst.symm.trans hlast)
    have hpos : 0 < s.length := List.length_pos_iff.mpr hs_ne
    simp only [List.length_append, List.length_map, List.length_cons, List.length_nil] at hlengths ⊢
    omega
  have htwo := two_le_occurrences hfirst hlast hlt
  omega

/-- A wrapped output has one closing tag. -/
theorem occurrences_tag_wrapForLlm (toolName content : Str) :
    occurrences TAG_END ((wrapForLlm toolName content).map asciiLower) = 1 := by
  obtain ⟨hcount, ⟨front, hfront⟩, -⟩ := wrapper_closed toolName content
  have hone : occurrences NEEDLE ((wrapForLlm toolName content).map asciiLower) = 1 := hcount
  have hlower : TAG_END.map asciiLower = TAG_END := by decide
  have hsuffix : TAG_END <:+: (wrapForLlm toolName content).map asciiLower := by
    rw [hfront, List.map_append, show "</tool_output>".toList = TAG_END from rfl, hlower]
    exact (List.suffix_append _ _).isInfix
  have hle := occurrences_le_of_prefix (tag_eq ▸ List.prefix_append NEEDLE ['>'])
    ((wrapForLlm toolName content).map asciiLower)
  exact le_antisymm (hle.trans hone.le) (one_le_occurrences hsuffix)

theorem cut_without_tag {toolName content : Str} (h : MAX_TOOL_OUTPUT_CHARS < utf8Len (wrapForLlm toolName content)) :
    occurrences TAG_END ((cutContent (wrapForLlm toolName content)).map asciiLower) = 0 := by
  have hnotice : "\n... [output truncated to 8192 chars]".toList =
      '\n' :: "... [output truncated to 8192 chars]".toList := by
    decide
  have hbound := utf8Len_takeBytes_le MAX_TOOL_OUTPUT_CHARS (wrapForLlm toolName content)
  have hne : takeBytes MAX_TOOL_OUTPUT_CHARS (wrapForLlm toolName content) ≠ wrapForLlm toolName content := by
    intro heq
    rw [heq] at hbound
    exact absurd hbound (Nat.not_le.mpr h)
  have hkept := tag_not_infix_of_prefix (takeBytes_isPrefix MAX_TOOL_OUTPUT_CHARS (wrapForLlm toolName content)) hne
  rw [cutContent, if_pos h, hnotice, List.map_append, List.map_cons]
  by_contra hpos
  have hinfix := infix_of_occurrences hpos
  rcases infix_append_cons (by decide) hinfix with hleft | hright
  · exact hkept hleft
  · exact absurd hright (by decide)

section Complete

variable (cm : CaseMap) (isWord : Char → Bool) (cfg : SafetyConfig)

theorem not_complete_of_long (env : EngineEnv) {tc : ToolCall} {result : Except Str Str} (text : Str)
    (hlong : MAX_TOOL_OUTPUT_CHARS <
      utf8Len (wrapForLlm tc.name (sanitizeToolOutput cm isWord cfg tc.name (resultText tc result)).content)) :
    ¬CompleteBlock text (toolResultContent (env.safe cm isWord cfg) tc result) := by
  intro hcomplete
  have hone := hcomplete.oneTag
  rw [toolResultContent_eq, cut_without_tag hlong] at hone
  exact absurd hone (by decide)

/-- The message of a call holds a complete block exactly when the block is not longer than the bound. -/
theorem completeBlock_iff (env : EngineEnv) (tc : ToolCall) (result : Except Str Str) :
    CompleteBlock (blockText cm isWord cfg tc result) (toolResultContent (env.safe cm isWord cfg) tc result) ↔
      utf8Len (escapeXmlAttr tc.name) + utf8Len (blockText cm isWord cfg tc result) + 37 ≤ MAX_TOOL_OUTPUT_CHARS := by
  rw [blockText, ← utf8Len_wrapForLlm]
  constructor
  · intro hcomplete
    by_contra hlong
    exact not_complete_of_long cm isWord cfg env _ (Nat.lt_of_not_le hlong) hcomplete
  · intro hshort
    rw [toolResultContent_eq, cutContent, if_neg (Nat.not_lt.mpr hshort)]
    generalize (sanitizeToolOutput cm isWord cfg tc.name (resultText tc result)).content = content
    obtain ⟨-, -, hopens⟩ := wrapper_closed tc.name content
    have hclosing : CLOSING = ['\n'] ++ TAG_END := by decide
    refine ⟨hopens, occurrences_tag_wrapForLlm tc.name content, ?_⟩
    refine ⟨OPENING ++ escapeXmlAttr tc.name ++ OPENING_END ++ escapeToolOutputClose content ++ ['\n'], [], ?_, ?_⟩
    · rw [wrapForLlm, hclosing, List.append_nil, ← List.append_assoc]
    · rw [List.append_assoc]
      exact List.infix_append' _ _ _

end Complete

/-- What is left of an output beyond the layer's bound is longer than the loop's. -/
theorem long_wrapForLlm (cm : CaseMap) (isWord : Char → Bool) {cfg : SafetyConfig} (toolName : Str) {output : Str}
    (hbound : MAX_TOOL_OUTPUT_CHARS + 4 ≤ cfg.maxOutputLength) (h : cfg.maxOutputLength < utf8Len output) :
    MAX_TOOL_OUTPUT_CHARS <
      utf8Len (wrapForLlm toolName (sanitizeToolOutput cm isWord cfg toolName output).content) := by
  have hcontent : ∃ notice, (sanitizeToolOutput cm isWord cfg toolName output).content =
      takeBytes cfg.maxOutputLength output ++ notice := by
    rw [sanitizeToolOutput, if_pos h]
    exact ⟨_, rfl⟩
  obtain ⟨notice, hcontent⟩ := hcontent
  have hkept := lt_utf8Len_takeBytes h
  have hescape := utf8Len_le_escapeGo 0 (takeBytes cfg.maxOutputLength output ++ notice)
  rw [utf8Len_append] at hescape
  rw [utf8Len_wrapForLlm, hcontent, escapeToolOutputClose]
  omega

theorem utf8Len_replicate (n : Nat) : utf8Len (List.replicate n 'a') = n := by
  have hsize : 'a'.utf8Size = 1 := rfl
  rw [utf8Len, List.map_replicate, List.sum_replicate, hsize, smul_eq_mul, Nat.mul_one]

/-- An engine without a model, tools or jobs. -/
def idleEnv : EngineEnv where
  config := ⟨⟨fun _ => true, fun _ _ => false⟩, 10, true, 3⟩
  llm := ⟨fun _ _ => .error [], fun _ _ _ => .error [], .error []⟩
  tools := ⟨[], fun _ => [], fun docs _ _ => (.error [], docs), fun _ output => output⟩
  scheduler := none
  dockerUnavailable := false
  prompt := ⟨[], [], fun _ => none, fun _ => false, [], []⟩
  conversation _ _ _ := none

/-- An output of 100001 letters under the default bound of the layer. -/
theorem long_output_not_complete :
    ¬∀ (cm : CaseMap) (isWord : Char → Bool) (cfg : SafetyConfig) (env : EngineEnv) (tc : ToolCall)
      (result : Except Str Str),
      CompleteBlock (blockText cm isWord cfg tc result) (toolResultContent (env.safe cm isWord cfg) tc result) := by
  intro h
  let cfg : SafetyConfig := ⟨100000, true⟩
  have hlen := utf8Len_replicate 100001
  generalize List.replicate 100001 'a' = output at hlen
  have hbound : cfg.maxOutputLength < utf8Len output := by
    rw [hlen]
    decide
  have hcut : ∀ tc : ToolCall, ¬CompleteBlock (blockText asciiCase (fun _ => false) cfg tc (.ok output))
      (toolResultContent (idleEnv.safe asciiCase (fun _ => false) cfg) tc (.ok output)) := fun tc =>
    not_complete_of_long asciiCase (fun _ => false) cfg idleEnv _
      (long_wrapForLlm asciiCase (fun _ => false) tc.name (by decide) hbound)
  exact hcut ⟨[], [], .null, none⟩ (h _ _ _ _ _ _)

end Ironclaw.Routines

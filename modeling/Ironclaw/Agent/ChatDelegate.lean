import Ironclaw.Agent.AgenticLoop
import Ironclaw.Skills.Parser

/-!
# The chat delegate

The delegate of the agentic loop for a chat turn, and the turn itself: the tool list is refreshed and attenuated before
each call to the model, a context that is too long is compacted once, and the calls of a reply are executed as a batch.

What the surroundings do during an iteration (signals, the registry's definitions, the cost guard, the model's answers,
hooks, tools) is an input of that iteration, `IterationInput`.
-/

namespace Ironclaw.Agent

open Text Llm
open Skills (SkillTrust)

/-! ## Trust and attenuation -/

structure LoadedSkill where
  name : Str
  trust : SkillTrust
  deriving DecidableEq

/-- The tools that stay under an installed skill. -/
def READ_ONLY_TOOLS : List Str :=
  ["memory_search", "memory_read", "memory_tree", "time", "echo", "json", "skill_list",
    "skill_search"].map String.toList

structure AttenuationResult where
  tools : List ToolDefinition
  minTrust : SkillTrust
  explanation : Str
  removedTools : List Str
  deriving DecidableEq

/-- `attenuate_tools`. -/
def attenuateTools (tools : List ToolDefinition) (activeSkills : List LoadedSkill) : AttenuationResult :=
  if activeSkills.isEmpty then ⟨tools, .trusted, "No skills active, all tools available".toList, []⟩
  else
    let minTrust := ((activeSkills.map LoadedSkill.trust).min?).getD .trusted
    match minTrust with
    | .trusted => ⟨tools, minTrust, "All active skills are trusted (full trust), all tools available".toList, []⟩
    | .installed =>
      let kept := tools.filter fun t => READ_ONLY_TOOLS.contains t.name
      let removed := (tools.filter fun t => !READ_ONLY_TOOLS.contains t.name).map ToolDefinition.name
      ⟨kept, minTrust,
        "Installed skill present: restricted to read-only tools, removed ".toList ++ (toString removed.length).toList ++
          " tool(s): ".toList ++ join ", ".toList removed, removed⟩

/-! ## Texts -/

/-- The messages that are kept when the context is too long: the system messages before the last user message, a note,
and the conversation from that message on. -/
def compactMessagesForRetry (messages : List ChatMessage) : List ChatMessage :=
  match messages.reverse.findIdx? fun m => m.role = .user with
  | some back =>
    let idx := messages.length - 1 - back
    (messages.take idx).filter (fun m => m.role = .system) ++
      (if 0 < idx then
        [.system ("[Note: Earlier conversation history was automatically compacted " ++
          "to fit within the context window. The most recent exchange is preserved below.]").toList]
      else []) ++ messages.drop idx
  | none => messages.filter (fun m => m.role = .system) ++ messages.filter fun m => m.role != .system

/-- A line that only marks a tool call or a tool result. -/
def isToolMarker (line : Str) : Bool :=
  let trimmed := trim line
  ("[Called tool ".toList.isPrefixOf trimmed && trimmed.getLast? = some ']') ||
    ("[Tool ".toList.isPrefixOf trimmed && (find " returned:".toList trimmed).isSome && trimmed.getLast? = some ']')

/-- `strip_internal_tool_call_text`. -/
def stripInternalToolCallText (text : Str) : Str :=
  let kept := (lines text).filter fun line => !isToolMarker line
  let result := trim (kept.foldl (fun acc s => (if acc.isEmpty then acc else acc ++ ['\n']) ++ s) [])
  if result.isEmpty then
    "I wasn't able to complete that request. Could you try rephrasing or providing more details?".toList
  else result

def NUDGE : Str :=
  ("You are approaching the tool call limit. Provide your best final answer on the next response " ++
    "using the information you have gathered so far. Do not call any more tools.").toList

/-! ## The delegate -/

/-- What happens around the delegate during one iteration. -/
structure IterationInput where
  interrupted : Bool
  toolDefinitions : List ToolDefinition
  /-- The refusal of the cost guard, if it refuses. -/
  costLimit : Option Str
  /-- The user's setting `selected_model`, when there is a store and it has one. -/
  selectedModel : Option Json
  answers : Llm.Answers
  /-- The answers to the request with the compacted context. -/
  retryAnswers : Llm.Answers
  env : ChatEnv

/-- What stays the same during a turn. -/
structure ChatConfig where
  activeSkills : List LoadedSkill
  maxToolIterations : Nat
  /-- `build_system_prompt_with_tools`, with the prompts of the workspace, the skills and the channel in place. -/
  buildPrompt : List ToolDefinition → Str
  replyText : ReplyText

/-- The thread's part of a turn; the iteration under way, 0 before the first; the calls that reached a tool of the
registry; the requests sent to the model. -/
structure ChatDelegate where
  turn : Option Turn
  pendingAuth : Option Str
  stash : List (Str × Str)
  iteration : Nat
  executed : List ToolCall
  requests : List Request

def ChatConfig.forceTextAt (cfg : ChatConfig) : Nat := cfg.maxToolIterations

def ChatConfig.nudgeAt (cfg : ChatConfig) : Nat := cfg.maxToolIterations - 1

/-- The tools of an iteration. -/
def offeredTools (cfg : ChatConfig) (defs : List ToolDefinition) : List ToolDefinition :=
  if cfg.activeSkills.isEmpty then defs else (attenuateTools defs cfg.activeSkills).tools

inductive AgenticLoopResult
  | response (text : Str)
  | needApproval (pending : PendingApproval)
  deriving DecidableEq

inductive TurnError
  | interrupted
  | llm (e : LlmError)
  deriving DecidableEq

/-- What a turn returns. -/
def agenticLoopResult (maxToolIterations : Nat) : Except LlmError LoopOutcome → Except TurnError AgenticLoopResult
  | .error e => .error (.llm e)
  | .ok (.response text) => .ok (.response text)
  | .ok .stopped => .error .interrupted
  | .ok .maxIterations =>
    .error (.llm (.invalidResponse "agent".toList
      ("Exceeded maximum tool iterations (".toList ++ (toString maxToolIterations).toList ++ ")".toList)))
  | .ok (.failure reason) => .error (.llm (.invalidResponse "agent".toList reason))
  | .ok (.needApproval pending) => .ok (.needApproval pending)

section Delegate

variable (cfg : ChatConfig) (initialTools : List ToolDefinition) (inputs : Nat → IterationInput)

/-- `ChatDelegate::before_llm_call`; the prompts were built once, for the tools at the start of the turn. -/
def ChatDelegate.beforeLlmCall (s : ChatDelegate) (ctx : ReasoningContext) (iteration : Nat) :
    Stepped ChatDelegate (Option LoopOutcome) :=
  let messages := if iteration = cfg.nudgeAt then ctx.messages ++ [.system NUDGE] else ctx.messages
  let forceText := decide (cfg.forceTextAt ≤ iteration) || ctx.forceText
  { value := none
    ctx :=
      { ctx with
        messages := messages
        availableTools := offeredTools cfg (inputs iteration).toolDefinitions
        systemPrompt := some (cfg.buildPrompt (if forceText then [] else initialTools))
        forceText := forceText }
    state := { s with iteration := iteration } }

/-- The model the user selected; it is only looked up at iteration 0. -/
def modelOverride (iteration : Nat) (ctx : ReasoningContext) : Option Str :=
  let selected := if iteration = 0 then ((inputs iteration).selectedModel.bind Json.asStr).map trim else none
  (selected.filter fun m => !m.isEmpty).or ctx.modelOverride

/-- `ChatDelegate::call_llm`. -/
def ChatDelegate.callLlm (s : ChatDelegate) (ctx : ReasoningContext) (iteration : Nat) :
    Stepped ChatDelegate (Except LlmError RespondOutput) :=
  match (inputs iteration).costLimit with
  | some limit => ⟨.error (.invalidResponse "agent".toList limit), ctx, s⟩
  | none =>
    let ctx := { ctx with modelOverride := modelOverride inputs iteration ctx }
    let s := { s with requests := s.requests ++ [requestOf cfg.buildPrompt ctx] }
    match respondWithTools cfg.replyText (inputs iteration).answers ctx with
    | .error (.contextLengthExceeded _ _) =>
      let ctx :=
        { ctx with
          messages := compactMessagesForRetry ctx.messages
          availableTools := if ctx.forceText then [] else ctx.availableTools }
      let s := { s with requests := s.requests ++ [requestOf cfg.buildPrompt ctx] }
      ⟨respondWithTools cfg.replyText (inputs iteration).retryAnswers ctx, ctx, s⟩
    | reply => ⟨reply, ctx, s⟩

/-- `ChatDelegate::execute_tool_calls` on the delegate's state; a call of an unknown tool reaches no tool. -/
def ChatDelegate.executeToolCalls (s : ChatDelegate) (ctx : ReasoningContext) (calls : List ToolCall)
    (content : Option Str) : Stepped ChatDelegate (Except LlmError (Option LoopOutcome)) :=
  let env := (inputs s.iteration).env
  let r := Agent.executeToolCalls env calls content ⟨ctx.messages, s.turn, s.pendingAuth, s.stash⟩
  { value := .ok r.outcome
    ctx := { ctx with messages := r.state.messages }
    state :=
      { s with
        turn := r.state.turn
        pendingAuth := r.state.pendingAuth
        stash := r.state.stash
        executed := s.executed ++ r.executed.filter fun tc => (env.getTool tc.name).isSome } }

/-- The delegate for a chat turn. -/
def chatDelegate : LoopDelegate ChatDelegate where
  checkSignals s := (if (inputs (s.iteration + 1)).interrupted then .stop else .proceed, s)
  beforeLlmCall := ChatDelegate.beforeLlmCall cfg initialTools inputs
  callLlm := ChatDelegate.callLlm cfg inputs
  handleTextResponse s ctx text := ⟨.done (.response (stripInternalToolCallText text)), ctx, s⟩
  executeToolCalls := ChatDelegate.executeToolCalls inputs
  onToolIntentNudge s ctx _ := (ctx, s)
  afterIteration s _ := s

/-- The loop of a turn: one iteration more than the tool iterations, as a machine integer, and two nudges in a row at
most. -/
def ChatConfig.loopConfig : AgenticLoopConfig where
  maxIterations := (cfg.maxToolIterations + 1) % 2 ^ 64
  enableToolIntentNudge := true
  maxToolIntentNudges := 2

/-- The context at the start of a turn. -/
def initialContext (messages : List ChatMessage) : ReasoningContext where
  messages := messages
  availableTools := offeredTools cfg initialTools
  forceText := false
  systemPrompt := some (cfg.buildPrompt (offeredTools cfg initialTools))
  modelOverride := none

/-- A chat turn, from the messages it starts with to what it returns. The tool definitions of the registry are read once
before the loop (input 0) and again in each iteration. -/
def chatTurn (turn : Option Turn) (pendingAuth : Option Str) (messages : List ChatMessage) :
    Except TurnError AgenticLoopResult × ChatDelegate :=
  let defs := (inputs 0).toolDefinitions
  let r := runAgenticLoop (chatDelegate cfg (offeredTools cfg defs) inputs) cfg.replyText cfg.loopConfig
    (initialContext cfg defs messages) ⟨turn, pendingAuth, [], 0, [], []⟩
  (agenticLoopResult cfg.maxToolIterations r.value, r.state)

end Delegate

end Ironclaw.Agent

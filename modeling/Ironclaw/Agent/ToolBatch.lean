import Ironclaw.Llm.Message

/-!
# A batch of tool calls

`ChatDelegate::execute_tool_calls`: the calls of one model response are classified in order (hooks, then approval) up to
the first that needs approval; the runnable ones are executed, one alone or several at once; the results are collected
by position and turned into messages in the original order. Tools, hooks, the session's approvals and the scheduling of
the parallel tasks are parameters (`ChatEnv`): a task may finish at any place in the order, or not at all.
-/

namespace Ironclaw.Agent

open Text Llm

inductive ApprovalRequirement
  | never
  | unlessAutoApproved
  | always
  deriving DecidableEq

/-- What the dispatcher asks a registered tool for. -/
structure Tool where
  description : Str
  sensitiveParams : List Str
  requiresApproval : Json → ApprovalRequirement

structure HookEvent where
  toolName : Str
  parameters : Json
  userId : Str
  context : Str

/-- The answer of the hooks: a rejection, another error with its text, or to go on, perhaps with new parameters. -/
inductive HookResult
  | rejected (reason : Str)
  | failed (text : Str)
  | proceed (modified : Option Str)

/-- A tool's output, or the text of its error. -/
abbrev ToolOutcome := Except Str Str

/-- How the tasks of a join set end, in order: each of them once, with a result or by a panic or a cancellation. -/
structure JoinOutcome (runnable : List (Nat × ToolCall)) where
  ends : List (Nat × Option ToolOutcome)
  perm : (ends.map Prod.fst).Perm (runnable.map Prod.fst)

/-- The surroundings of a chat turn. The hooks and the session are asked once for each call. -/
structure ChatEnv where
  getTool : (name : Str) → Option Tool
  runHooks : (idx : Nat) → HookEvent → HookResult
  parseJson : Str → Option Json
  autoApproveTools : Bool
  isToolAutoApproved : (idx : Nat) → (name : Str) → Bool
  userId : Str
  channel : Str
  metadata : Json
  userTimezone : Str
  executeChatTool : (name : Str) → (params : Json) → ToolOutcome
  joinAll : (runnable : List (Nat × ToolCall)) → JoinOutcome runnable
  sanitizeToolOutput : (toolName output : Str) → Str
  wrapForLlm : (toolName content : Str) → Str

/-! ## The thread -/

structure TurnToolCall where
  name : Str
  parameters : Json
  result : Option Json
  error : Option Str
  rationale : Option Str
  toolCallId : Option Str
  deriving DecidableEq

structure Turn where
  narrative : Option Str
  toolCalls : List TurnToolCall
  deriving DecidableEq

/-- Changes the first call with the id, else the first call that has neither a result nor an error. -/
def Turn.recordFor (turn : Turn) (toolCallId : Str) (f : TurnToolCall → TurnToolCall) : Turn :=
  let byId : TurnToolCall → Bool := fun c => c.toolCallId == some toolCallId
  let open' : TurnToolCall → Bool := fun c => c.result.isNone && c.error.isNone
  let p := if turn.toolCalls.any byId then byId else open'
  match turn.toolCalls.findIdx? p with
  | none => turn
  | some i => { turn with toolCalls := turn.toolCalls.modify i f }

def Turn.recordToolResultFor (turn : Turn) (toolCallId : Str) (result : Json) : Turn :=
  turn.recordFor toolCallId fun c => { c with result := some result }

def Turn.recordToolErrorFor (turn : Turn) (toolCallId error : Str) : Turn :=
  turn.recordFor toolCallId fun c => { c with error := some error }

/-- What a batch changes: the messages of the reasoning context, the thread's last turn, its auth mode, and the stash
of outputs. -/
structure ChatState where
  messages : List ChatMessage
  turn : Option Turn
  pendingAuth : Option Str
  stash : List (Str × Str)
  deriving DecidableEq

structure PendingApproval where
  toolName : Str
  parameters : Json
  displayParameters : Json
  description : Str
  toolCallId : Str
  contextMessages : List ChatMessage
  deferredToolCalls : List ToolCall
  userTimezone : Option Str
  allowAlways : Bool
  deriving DecidableEq

/-- How the loop ends. -/
inductive LoopOutcome
  | response (text : Str)
  | stopped
  | maxIterations
  | failure (reason : Str)
  | needApproval (pending : PendingApproval)
  deriving DecidableEq

/-! ## Preflight -/

def redactParams (params : Json) (sensitive : List Str) : Json :=
  match params with
  | .obj kvs => .obj (kvs.map fun kv => if sensitive.contains kv.1 then (kv.1, .str "[REDACTED]".toList) else kv)
  | params => params

/-- The parameters a hook returned, with the sensitive ones put back. -/
def restoreSensitive (original parsed : Json) (sensitive : List Str) : Json :=
  match parsed with
  | .obj kvs => .obj (sensitive.foldl (fun kvs key =>
      match original.get key with
      | none => kvs
      | some v => Json.insertEntry key v kvs) kvs)
  | parsed => parsed

inductive Verdict
  | rejected (message : Str)
  | runnable
  | approval (tool : Tool) (allowAlways : Bool)

/-- The requirement of a tool for the parameters, against the session. -/
def needsApproval (env : ChatEnv) (idx : Nat) (name : Str) : ApprovalRequirement → Bool
  | .never => false
  | .unlessAutoApproved => !env.isToolAutoApproved idx name
  | .always => true

/-- A relay channel outside direct messages. -/
def isSharedRelay (env : ChatEnv) : Bool :=
  "-relay".toList.isSuffixOf env.channel &&
    (env.metadata.get "event_type".toList).bind Json.asStr != some "direct_message".toList

/-- The approval check of one call. -/
def checkApproval (env : ChatEnv) (idx : Nat) (tc : ToolCall) : Verdict :=
  match (if env.autoApproveTools then none else env.getTool tc.name) with
  | none => .runnable
  | some tool =>
    let requirement := tool.requiresApproval tc.arguments
    if needsApproval env idx tc.name requirement then
      if isSharedRelay env then
        .rejected ("Tool '".toList ++ tc.name ++ ("' requires approval and cannot run in shared channels. " ++
          "Ask the user to message me directly (DM) to use this tool.").toList)
      else .approval tool (requirement != .always)
    else .runnable

/-- Hooks and approval for one call: the call with the parameters it will run with, and the verdict. -/
def preflightCall (env : ChatEnv) (idx : Nat) (tc : ToolCall) : ToolCall × Verdict :=
  let sensitive := ((env.getTool tc.name).map Tool.sensitiveParams).getD []
  match env.runHooks idx ⟨tc.name, redactParams tc.arguments sensitive, env.userId, "chat".toList⟩ with
  | .rejected reason => (tc, .rejected ("Tool call rejected by hook: ".toList ++ reason))
  | .failed text => (tc, .rejected ("Tool call blocked by hook policy: ".toList ++ text))
  | .proceed modified =>
    let tc :=
      match modified.bind env.parseJson with
      | none => tc
      | some parsed => { tc with arguments := restoreSensitive tc.arguments parsed sensitive }
    (tc, checkApproval env idx tc)

inductive PreflightOutcome
  | rejected (message : Str)
  | runnable
  deriving DecidableEq

/-- The call that stopped the preflight: its position, the call, its tool and whether "always" may be offered. -/
structure ApprovalNeeded where
  idx : Nat
  call : ToolCall
  tool : Tool
  allowAlways : Bool

/-- Phase 1, from position `idx` on. -/
def preflightLoop (env : ChatEnv) : (idx : Nat) → List ToolCall →
    List (ToolCall × PreflightOutcome) × Option ApprovalNeeded
  | _, [] => ([], none)
  | idx, tc :: tcs =>
    match preflightCall env idx tc with
    | (tc, .rejected message) =>
      let (preflight, approval) := preflightLoop env (idx + 1) tcs
      ((tc, .rejected message) :: preflight, approval)
    | (tc, .runnable) =>
      let (preflight, approval) := preflightLoop env (idx + 1) tcs
      ((tc, .runnable) :: preflight, approval)
    | (tc, .approval tool allowAlways) => ([], some ⟨idx, tc, tool, allowAlways⟩)

/-- The runnable calls with their positions. -/
def runnableCalls : (idx : Nat) → List (ToolCall × PreflightOutcome) → List (Nat × ToolCall)
  | _, [] => []
  | idx, (tc, .runnable) :: preflight => (idx, tc) :: runnableCalls (idx + 1) preflight
  | idx, (_, .rejected _) :: preflight => runnableCalls (idx + 1) preflight

/-! ## Execution -/

abbrev Slots := List (Option ToolOutcome)

/-- The text of `ToolError::ExecutionFailed`. -/
def executionFailed (name : Str) (reason : String) : Str :=
  "Tool error: Tool ".toList ++ name ++ " execution failed: ".toList ++ reason.toList

/-- The results that arrive are stored at their positions; a task that failed leaves its slot empty. -/
def collect (slots : Slots) (ends : List (Nat × Option ToolOutcome)) : Slots :=
  ends.foldl (fun slots e =>
    match e.2 with
    | none => slots
    | some result => slots.set e.1 (some result)) slots

/-- The slots of failed tasks get an error. -/
def fillFailed (slots : Slots) (runnable : List (Nat × ToolCall)) : Slots :=
  runnable.foldl (fun slots r =>
    match slots[r.1]? with
    | some none => slots.set r.1 (some (.error (executionFailed r.2.name "Task failed during execution")))
    | _ => slots) slots

/-- Phase 2: one call runs in place, several run as tasks. -/
def execute (env : ChatEnv) (n : Nat) (runnable : List (Nat × ToolCall)) : Slots :=
  let slots := List.replicate n none
  if runnable.length ≤ 1 then
    runnable.foldl (fun slots r => slots.set r.1 (some (env.executeChatTool r.2.name r.2.arguments))) slots
  else fillFailed (collect slots (env.joinAll runnable).ends) runnable

/-! ## Post-flight -/

/-- `process_tool_result`: the content and the message. -/
def processToolResult (env : ChatEnv) (toolName toolCallId : Str) (result : ToolOutcome) : Str × ChatMessage :=
  let raw :=
    match result with
    | .ok output => output
    | .error e => "Tool '".toList ++ toolName ++ "' failed: ".toList ++ e
  let content := env.wrapForLlm toolName (env.sanitizeToolOutput toolName raw)
  (content, .toolResult toolCallId toolName content)

/-- The extension and the instructions of a result that asks for a token. -/
def checkAuthRequired (env : ChatEnv) (toolName : Str) (result : ToolOutcome) : Option (Str × Str) :=
  if toolName ≠ "tool_auth".toList ∧ toolName ≠ "tool_activate".toList then none
  else
    match result with
    | .error _ => none
    | .ok output =>
      match env.parseJson output with
      | none => none
      | some parsed =>
        if parsed.get "awaiting_token".toList = some (.bool true) then
          match (parsed.get "name".toList).bind Json.asStr with
          | none => none
          | some name =>
            some (name, ((parsed.get "instructions".toList).bind Json.asStr).getD
              "Please provide your API token/key.".toList)
        else none

/-- Phase 3, from position `idx` on; `auth` holds the instructions of the first result that asked for a token. -/
def postflight (env : ChatEnv) (slots : Slots) :
    (idx : Nat) → List (ToolCall × PreflightOutcome) → ChatState → (auth : Option Str) → ChatState × Option Str
  | _, [], st, auth => (st, auth)
  | idx, (tc, .rejected message) :: rest, st, auth =>
    let (content, toolMessage) := processToolResult env tc.name tc.id (.error message)
    postflight env slots (idx + 1) rest
      { st with
        turn := st.turn.map fun t => t.recordToolErrorFor tc.id content
        messages := st.messages ++ [toolMessage] } auth
  | idx, (tc, .runnable) :: rest, st, auth =>
    let result := (slots[idx]?.join).getD (.error (executionFailed tc.name "No result available"))
    let required := if auth.isNone then checkAuthRequired env tc.name result else none
    let (content, toolMessage) := processToolResult env tc.name tc.id result
    postflight env slots (idx + 1) rest
      { messages := st.messages ++ [toolMessage]
        turn := st.turn.map fun t =>
          match result with
          | .error _ => t.recordToolErrorFor tc.id content
          | .ok _ => t.recordToolResultFor tc.id (.str content)
        pendingAuth := (required.map Prod.fst).or st.pendingAuth
        stash :=
          match result with
          | .error _ => st.stash
          | .ok output => (tc.id, output) :: st.stash }
      (auth.or (required.map Prod.snd))

/-! ## The batch -/

/-- The sanitized narrative of a response. -/
def narrativeOf (env : ChatEnv) (content : Option Str) : Option Str :=
  ((content.filter fun c => !(trim c).isEmpty).map fun c => env.sanitizeToolOutput "agent_narrative".toList c).filter
    fun c => !(trim c).isEmpty

/-- The calls of a batch are recorded in the turn with sensitive parameters redacted. -/
def recordCalls (env : ChatEnv) (narrative : Option Str) (toolCalls : List ToolCall) (turn : Turn) : Turn where
  narrative := turn.narrative.or narrative
  toolCalls := turn.toolCalls ++ toolCalls.map fun tc =>
    { name := tc.name
      parameters :=
        match env.getTool tc.name with
        | none => tc.arguments
        | some tool => redactParams tc.arguments tool.sensitiveParams
      result := none
      error := none
      rationale := tc.reasoning.map fun r => env.sanitizeToolOutput "tool_rationale".toList r
      toolCallId := some tc.id }

/-- What a batch does: the state after it, the calls it executed, and the outcome that ends the loop, if any. -/
structure BatchResult where
  state : ChatState
  executed : List ToolCall
  outcome : Option LoopOutcome

/-- `ChatDelegate::execute_tool_calls`. -/
def executeToolCalls (env : ChatEnv) (toolCalls : List ToolCall) (content : Option Str) (st : ChatState) :
    BatchResult :=
  let st := { st with
    messages := st.messages ++ [.assistantWithToolCalls content toolCalls]
    turn := st.turn.map (recordCalls env (narrativeOf env content) toolCalls) }
  let (preflight, approval) := preflightLoop env 0 toolCalls
  let runnable := runnableCalls 0 preflight
  let slots := execute env preflight.length runnable
  let (st, auth) := postflight env slots 0 preflight st none
  let executed := runnable.map Prod.snd
  match auth with
  | some instructions => ⟨st, executed, some (.response instructions)⟩
  | none =>
    match approval with
    | none => ⟨st, executed, none⟩
    | some a =>
      ⟨st, executed, some (.needApproval
        { toolName := a.call.name
          parameters := a.call.arguments
          displayParameters := redactParams a.call.arguments a.tool.sensitiveParams
          description := a.tool.description
          toolCallId := a.call.id
          contextMessages := st.messages
          deferredToolCalls := toolCalls.drop (a.idx + 1)
          userTimezone := some env.userTimezone
          allowAlways := a.allowAlways })⟩

end Ironclaw.Agent

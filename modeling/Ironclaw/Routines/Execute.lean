import Ironclaw.Llm.Message
import Ironclaw.Routines.Engine
import Ironclaw.Workspace.Basic

/-!
# Executing a routine

`execute_routine` with both modes: the single call or the tool loop of a lightweight routine, and the dispatch of a full
job; then the message to the routine's conversation and the notification. What the execution reads from the table of
documents goes through the workspace its firing path gives it (`routineWorkspace`, `fireWebhookWorkspace`), the tools
and the job.

The language model, the tools, the scheduler and the conversations are parameters (`EngineEnv`).
-/

namespace Ironclaw.Routines

open Text Llm

/-! ## The surroundings of an execution -/

/-- The errors an execution can end with. -/
inductive RoutineError
  | database (reason : Str)
  | llmFailed (reason : Str)
  | jobDispatchFailed (reason : Str)
  | emptyResponse
  | truncatedResponse
  deriving DecidableEq

def RoutineError.toText : RoutineError → Str
  | .database reason => "Database error: ".toList ++ reason
  | .llmFailed reason => "LLM call failed: ".toList ++ reason
  | .jobDispatchFailed reason => "Failed to dispatch full job: ".toList ++ reason
  | .emptyResponse => "LLM returned empty content".toList
  | .truncatedResponse => "LLM response truncated (finish_reason=length) with no content".toList

/-- The context a tool or a job runs in. -/
structure JobContext where
  userId : Str
  title : Str
  description : Str
  metadata : Json
  deriving DecidableEq

/-- The tool registry and the safety layer. `run` looks a tool up, prepares and validates its parameters and executes it
within its time; `process` sanitizes an output and wraps it for the model. -/
structure RoutineTools where
  definitions : List ToolDefinition
  autonomousAllowedToolNames : (ownerId : Str) → List Str
  run : Docs → JobContext → ToolCall → Except Str Str × Docs
  process : (name output : Str) → Str

/-- The scheduler: the job it creates, the link from the run to the job, and whether the job ends well. -/
structure Scheduler where
  dispatchJob : JobContext → Except Str Str
  linkRoutineRunToJob : (jobId : Str) → Except Str Unit
  succeeds : Docs → JobContext → Bool

structure EngineEnv where
  config : RoutineConfig
  llm : LlmProvider
  tools : RoutineTools
  scheduler : Option Scheduler
  dockerUnavailable : Bool
  prompt : PromptEnv
  /-- `get_or_create_routine_conversation`. -/
  conversation : (routineId : Nat) → (routineName userId : Str) → Option Str

/-- Status, summary and tokens. -/
abbrev RunResult := Except RoutineError (RunStatus × Option Str × Option Int)

/-! ## Lightweight routines -/

/-- `as i32`. -/
def asI32 (n : Nat) : Int := if n % 2 ^ 32 < 2 ^ 31 then (n % 2 ^ 32 : Nat) else (n % 2 ^ 32 : Nat) - 2 ^ 32

def sanitizeRoutineName (name : Str) : Str :=
  name.map fun c => if c.isAlphanum || c == '-' || c == '_' then c else '_'

def sanitizePromptField (value : Str) : Str :=
  ((value.filter fun c => c != '\n' && c != '\r').take 128).map fun c => if c == '`' then '\'' else c

def deliveryPart (notify : NotifyConfig) : Str :=
  if notify.onAttention then
    ("\n\n---\n\n# Delivery\n\nIf you reply with anything other than ROUTINE_OK, the host will deliver your " ++
      "reply as the routine notification. Return the message exactly as it should be sent.\n").toList ++
    (match notify.channel with
      | none => []
      | some channel =>
        "The configured delivery channel for this routine is `".toList ++ sanitizePromptField channel ++
          "`.\n".toList) ++
    (match notify.user with
      | none => []
      | some user =>
        "The configured delivery target for this routine is `".toList ++ sanitizePromptField user ++ "`.\n".toList) ++
    ("Do not claim you lack messaging integrations or ask the user to set one up when " ++
      "a plain reply is sufficient.\n").toList
  else []

def buildLightweightPrompt (prompt : Str) (contextParts : List Str) (stateContent : Option Str) (notify : NotifyConfig)
    (useTools : Bool) : Str :=
  prompt ++ deliveryPart notify ++
  (if useTools then []
    else ("\nTools are disabled for this routine run. Do not ask to call tools or describe tool limitations unless " ++
      "they prevent a necessary external action.\n").toList) ++
  (if contextParts.isEmpty then []
    else "\n\n---\n\n# Context\n\n".toList ++ join "\n\n".toList contextParts) ++
  (match stateContent with
    | none => []
    | some state => "\n\n---\n\n# Previous State\n\n".toList ++ state) ++
  ("\n\n---\n\nIf nothing needs attention, reply EXACTLY with: ROUTINE_OK\n" ++
    "If something needs attention, provide a concise summary.").toList

def handleTextResponse (content : Str) (finishReason : FinishReason) (inputTokens outputTokens : Nat) : RunResult :=
  let content := trim content
  if content.isEmpty then
    .error (if finishReason = .length then .truncatedResponse else .emptyResponse)
  else if content = "ROUTINE_OK".toList then .ok (.ok, none, some (asI32 (inputTokens + outputTokens)))
  else .ok (.attention, some content, some (asI32 (inputTokens + outputTokens)))

def initialMessages (systemPrompt fullPrompt : Str) : List ChatMessage :=
  if systemPrompt.isEmpty then [.user fullPrompt] else [.system systemPrompt, .user fullPrompt]

/-- One call, without tools. -/
def completeText (env : EngineEnv) (messages : List ChatMessage) (maxTokens inputTokens outputTokens : Nat) :
    RunResult :=
  match env.llm.complete messages maxTokens with
  | .error e => .error (.llmFailed e)
  | .ok r => handleTextResponse r.content r.finishReason (inputTokens + r.inputTokens) (outputTokens + r.outputTokens)

def executeLightweightNoTools (env : EngineEnv) (systemPrompt fullPrompt : Str) (maxTokens : Nat) : RunResult :=
  completeText env (initialMessages systemPrompt fullPrompt) maxTokens 0 0

def MAX_TOOL_LOOP_MESSAGES : Nat := 32

def MAX_TOOL_OUTPUT_CHARS : Nat := 8192

def snapshotMessagesForToolIteration (messages : List ChatMessage) : List ChatMessage :=
  if messages.length ≤ MAX_TOOL_LOOP_MESSAGES then messages
  else
    match messages with
    | first :: _ =>
      if first.role = .system then
        first :: messages.drop (max (messages.length - (MAX_TOOL_LOOP_MESSAGES - 1)) 1)
      else messages.drop (messages.length - MAX_TOOL_LOOP_MESSAGES)
    | [] => []

def AUTONOMOUS_TOOL_DENYLIST : List Str :=
  ["routine_create", "routine_update", "routine_delete", "routine_fire", "event_emit", "create_job", "job_prompt",
    "restart", "tool_install", "tool_auth", "tool_activate", "tool_remove", "tool_upgrade", "skill_install",
    "skill_remove", "secret_list", "secret_delete"].map String.toList

def autonomousUnavailableMessage (toolName ownerId : Str) : Str :=
  if AUTONOMOUS_TOOL_DENYLIST.contains toolName then
    "Tool '".toList ++ toolName ++ "' is not available in autonomous jobs or routines".toList
  else "Tool '".toList ++ toolName ++ "' is not currently available for owner '".toList ++ ownerId ++ "'".toList

def executeRoutineTool (env : EngineEnv) (job : JobContext) (allowed : List Str) (tc : ToolCall) (docs : Docs) :
    Except Str Str × Docs :=
  if allowed.contains tc.name then env.tools.run docs job tc
  else (.error (autonomousUnavailableMessage tc.name job.userId), docs)

/-- The result message of a tool call: processed, and cut when it is too long. -/
def toolResultContent (env : EngineEnv) (tc : ToolCall) (result : Except Str Str) : Str :=
  let content :=
    match result with
    | .ok output => env.tools.process tc.name output
    | .error e => env.tools.process tc.name ("Tool '".toList ++ tc.name ++ "' failed: ".toList ++ e)
  if MAX_TOOL_OUTPUT_CHARS < utf8Len content then
    takeBytes MAX_TOOL_OUTPUT_CHARS content ++ "\n... [output truncated to 8192 chars]".toList
  else content

/-- The tool calls of one response, in order. -/
def runToolCalls (env : EngineEnv) (job : JobContext) (allowed : List Str) :
    List ToolCall → List ChatMessage → Docs → List ChatMessage × Docs
  | [], messages, docs => (messages, docs)
  | tc :: tcs, messages, docs =>
    let (result, docs) := executeRoutineTool env job allowed tc docs
    runToolCalls env job allowed tcs
      (messages ++ [.toolResult tc.id tc.name (toolResultContent env tc result)]) docs

/-- The tool loop with `n` tool-enabled iterations left before the final, text-only one. -/
def toolLoop (env : EngineEnv) (job : JobContext) (allowed : List Str) (maxTokens : Nat) :
    Nat → List ChatMessage → (inputTokens outputTokens : Nat) → Docs → RunResult × Docs
  | 0, messages, inputTokens, outputTokens, docs =>
    (completeText env (ensureEndsWithUserMessage messages) maxTokens inputTokens outputTokens, docs)
  | n + 1, messages, inputTokens, outputTokens, docs =>
    let defs := env.tools.definitions.filter fun d => allowed.contains d.name
    match env.llm.completeWithTools (snapshotMessagesForToolIteration messages) defs maxTokens with
    | .error e => (.error (.llmFailed e), docs)
    | .ok r =>
      let inputTokens := inputTokens + r.inputTokens
      let outputTokens := outputTokens + r.outputTokens
      if r.toolCalls.isEmpty then
        (handleTextResponse (r.content.getD []) r.finishReason inputTokens outputTokens, docs)
      else
        let (messages, docs) := runToolCalls env job allowed r.toolCalls
          (messages ++ [.assistantWithToolCalls r.content r.toolCalls]) docs
        toolLoop env job allowed maxTokens n messages inputTokens outputTokens docs

/-- The job context of a lightweight routine. -/
def lightweightJob (routine : Routine) : JobContext :=
  ⟨routine.userId, "Lightweight Routine".toList, routine.name, .null⟩

def executeLightweightWithTools (env : EngineEnv) (routine : Routine) (systemPrompt fullPrompt : Str)
    (maxTokens maxToolRounds : Nat) (docs : Docs) : RunResult × Docs :=
  let maxIterations := min (min maxToolRounds env.config.lightweightMaxIterations) 5
  toolLoop env (lightweightJob routine) (env.tools.autonomousAllowedToolNames routine.userId) maxTokens
    (maxIterations - 1) (initialMessages systemPrompt fullPrompt) 0 0 docs

/-- The context paths that can be read, under their names. -/
def contextParts (w : Workspace) (docs : Docs) (paths : List Str) : List Str :=
  paths.filterMap fun path => (w.read docs path).map fun content => "## ".toList ++ path ++ "\n\n".toList ++ content

def statePath (routine : Routine) : Str :=
  "routines/".toList ++ sanitizeRoutineName routine.name ++ "/state.md".toList

def effectiveMaxTokens (env : EngineEnv) (maxTokens : Nat) : Nat :=
  match env.llm.modelMetadata with
  | .ok contextLength => max ((contextLength.map (· / 2)).getD maxTokens) maxTokens
  | .error _ => maxTokens

def executeLightweight (env : EngineEnv) (w : Workspace) (routine : Routine) (prompt : Str) (contextPaths : List Str)
    (maxTokens : Nat) (useTools : Bool) (maxToolRounds : Nat) (docs : Docs) : RunResult × Docs :=
  let fullPrompt := buildLightweightPrompt prompt (contextParts w docs contextPaths) (w.read docs (statePath routine))
    routine.notify useTools
  let (systemPrompt, docs) := w.systemPrompt env.prompt docs
  if useTools && env.config.lightweightToolsEnabled then
    executeLightweightWithTools env routine systemPrompt fullPrompt (effectiveMaxTokens env maxTokens)
      maxToolRounds docs
  else (executeLightweightNoTools env systemPrompt fullPrompt (effectiveMaxTokens env maxTokens), docs)

/-! ## Full jobs -/

/-- The job of a full-job routine: owner, notification settings and a description that names the routine. -/
def fullJob (routine : Routine) (title description : Str) (maxIterations : Nat) : JobContext where
  userId := routine.userId
  title := title
  description :=
    "IMPORTANT: You are executing inside routine \"".toList ++ routine.name ++
    ("\". The routine and its schedule are already configured. Tools and credentials are already set up. " ++
      "Do NOT create routines, jobs, or try to discover/install/authenticate tools. " ++
      "Execute the task directly.\n\n").toList ++ description
  metadata := .obj
    ([("max_iterations".toList, .num (.int maxIterations)), ("owner_id".toList, .str routine.userId)] ++
      (match routine.notify.channel with
        | none => []
        | some channel => [("notify_channel".toList, .str channel)]) ++
      [("notify_user".toList, routine.notify.user.elim .null .str)])

def executeFullJob (env : EngineEnv) (job : JobContext) (docs : Docs) : RunResult :=
  if env.dockerUnavailable then
    .error (.jobDispatchFailed ("Sandbox is enabled but Docker is not available. " ++
      "Install Docker or set SANDBOX_ENABLED=false.").toList)
  else
    match env.scheduler with
    | none => .error (.jobDispatchFailed "scheduler not available".toList)
    | some scheduler =>
      match scheduler.dispatchJob job with
      | .error e => .error (.jobDispatchFailed ("failed to dispatch job: ".toList ++ e))
      | .ok jobId =>
        match scheduler.linkRoutineRunToJob jobId with
        | .error e => .error (.database ("failed to link run to job: ".toList ++ e))
        | .ok _ =>
          let (status, text) :=
            if scheduler.succeeds docs job then (RunStatus.ok, "ok") else (RunStatus.failed, "failed")
          .ok (status, some ("Job ".toList ++ jobId ++ " finished (".toList ++ text.toList ++ ")".toList), none)

/-! ## A run -/

structure OutgoingResponse where
  content : Str
  threadId : Option Str
  metadata : Json
  deriving DecidableEq

def RunStatus.toText : RunStatus → Str
  | .running => "running".toList
  | .ok => "ok".toList
  | .attention => "attention".toList
  | .failed => "failed".toList

def RunStatus.icon : RunStatus → Str
  | .ok => "✅".toList
  | .attention => "🔔".toList
  | .failed => "❌".toList
  | .running => "⏳".toList

def shouldNotify (notify : NotifyConfig) : RunStatus → Bool
  | .ok => notify.onSuccess
  | .attention => notify.onAttention
  | .failed => notify.onFailure
  | .running => false

/-- `send_notification`: the response it sends. -/
def sendNotification (notify : NotifyConfig) (ownerId routineName : Str) (status : RunStatus) (summary : Option Str)
    (threadId : Option Str) : Option OutgoingResponse :=
  if shouldNotify notify status then
    let message := status.icon ++ " *Routine '".toList ++ routineName ++ "'*: ".toList ++ status.toText ++
      (summary.elim [] fun s => "\n\n".toList ++ s)
    some ⟨message, threadId, .obj [("source".toList, .str "routine".toList), ("routine_name".toList, .str routineName),
      ("status".toList, .str status.toText), ("owner_id".toList, .str ownerId),
      ("notify_user".toList, notify.user.elim .null .str), ("notify_channel".toList, notify.channel.elim .null .str)]⟩
  else none

/-- What an execution does: the workspace it reads (none for a job), the context of its tools or of its job, how it
ends, and what it posts. -/
structure Execution where
  workspace : Option Workspace
  job : JobContext
  status : RunStatus
  summary : Option Str
  tokens : Option Int
  conversationOwner : Str
  message : Str
  notification : Option OutgoingResponse

def TriggerPath.triggerType : TriggerPath → Str
  | .event => "event".toList
  | .systemEvent => "system_event".toList
  | .cron => "cron".toList
  | .manual => "manual".toList
  | .webhook => "webhook".toList

/-- The end of `execute_routine`: the run's message and the notification. -/
def conclude (env : EngineEnv) (path : TriggerPath) (routine : Routine) (w : Option Workspace) (job : JobContext)
    (result : RunResult) : Execution :=
  let (status, summary, tokens) :=
    match result with
    | .ok execution => execution
    | .error e => (.failed, some e.toText, none)
  let threadId := env.conversation routine.id routine.name routine.userId
  { workspace := w
    job := job
    status := status
    summary := summary
    tokens := tokens
    conversationOwner := routine.userId
    message := "[".toList ++ path.triggerType ++ "] ".toList ++ status.toText ++
      (summary.elim [] fun s => ": ".toList ++ s)
    notification := sendNotification routine.notify routine.userId routine.name status summary threadId }

/-- `execute_routine` in the context with the workspace `w`. -/
def executeRoutine (env : EngineEnv) (w : Workspace) (path : TriggerPath) (routine : Routine) (docs : Docs) :
    Execution × Docs :=
  match routine.action with
  | .lightweight prompt contextPaths maxTokens useTools maxToolRounds =>
    let (result, docs) := executeLightweight env w routine prompt contextPaths maxTokens useTools maxToolRounds docs
    (conclude env path routine (some w) (lightweightJob routine) result, docs)
  | .fullJob title description maxIterations =>
    let job := fullJob routine title description maxIterations
    (conclude env path routine none job (executeFullJob env job docs), docs)

/-! ## The workspace of a firing path -/

/-- The workspace `spawn_fire` and `fire_manual` give an execution: the engine's own for its user, else a new one. -/
def routineWorkspace (engine : Workspace) (routine : Routine) : Workspace :=
  if routine.userId = engine.userId then engine else .newWithDb routine.userId

/-- `fire_webhook` passes the engine's workspace on. -/
def fireWebhookWorkspace (engine : Workspace) (_routine : Routine) : Workspace := engine

/-- The workspace an execution gets on each trigger path. -/
def contextWorkspace (engine : Workspace) (path : TriggerPath) (routine : Routine) : Workspace :=
  match path with
  | .event => routineWorkspace engine routine
  | .systemEvent => routineWorkspace engine routine
  | .cron => routineWorkspace engine routine
  | .manual => routineWorkspace engine routine
  | .webhook => fireWebhookWorkspace engine routine

/-- A fire of a routine on a trigger path, executed. -/
def fire (env : EngineEnv) (engine : Workspace) (path : TriggerPath) (routine : Routine) (docs : Docs) :
    Execution × Docs :=
  executeRoutine env (contextWorkspace engine path routine) path routine docs

end Ironclaw.Routines

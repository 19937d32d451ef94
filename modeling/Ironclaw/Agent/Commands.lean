import Ironclaw.Agent.Submission
import Ironclaw.Lib.Hoare
import Ironclaw.Session.Handlers

/-!
# Commands

The results of the control submissions and of the commands that the router reads from user input. What a command finds
outside the agent (jobs, models, skills, the answer of a model) is part of the surroundings `Services`.

- `isSilentReply_false`: a silent reply begins with the token;
- `systemCommand_heard`, `jobOrCommand_heard` and the lemmas after them: every command answers with a text, which is no
  silent reply.
-/

namespace Ironclaw.Agent

open Text Session Hoare

/-! ## Silent replies -/

def SILENT_REPLY_TOKEN : Str := "NO_REPLY".toList

/-- `char::is_ascii_punctuation`. -/
def isAsciiPunctuation (c : Char) : Bool :=
  let n := c.toNat
  (33 ≤ n && n ≤ 47) || (58 ≤ n && n ≤ 64) || (91 ≤ n && n ≤ 96) || (123 ≤ n && n ≤ 126)

def isSilentReply (text : Str) : Bool :=
  let trimmed := trim text
  trimmed == SILENT_REPLY_TOKEN ||
    (SILENT_REPLY_TOKEN.isPrefixOf trimmed && utf8Len trimmed ≤ utf8Len SILENT_REPLY_TOKEN + 4 &&
      (trimmed.drop SILENT_REPLY_TOKEN.length).all fun c => isWhitespace c || isAsciiPunctuation c)

/-- A silent reply begins with the token. -/
theorem isSilentReply_false {text : Str} (h : SILENT_REPLY_TOKEN.isPrefixOf (trimStart text) = false) :
    isSilentReply text = false := by
  have hend : trim text <+: trimStart text := List.rdropWhile_prefix isWhitespace _
  have hnot : ¬SILENT_REPLY_TOKEN <+: trim text := by
    intro hp
    rw [List.isPrefixOf_iff_prefix.mpr (hp.trans hend)] at h
    cases h
  have hne : trim text ≠ SILENT_REPLY_TOKEN := fun heq => hnot (heq ▸ List.prefix_refl _)
  have hp : SILENT_REPLY_TOKEN.isPrefixOf (trim text) = false :=
    Bool.eq_false_iff.mpr fun hp => hnot (List.isPrefixOf_iff_prefix.mp hp)
  simp [isSilentReply, hne, hp]

/-- The result gives the user a text: a response or a message that is no silent reply, or an error. -/
def Heard : SubmissionResult → Prop
  | .response content => isSilentReply content = false
  | .ok message => ∃ text, message = some text ∧ isSilentReply text = false
  | .error _ => True
  | .interrupted => False
  | .needApproval _ _ _ _ _ => False

namespace Commands

/-! ## The surroundings -/

/-- A job as the commands show it. -/
structure JobView where
  userId : Str
  title : Str
  state : Str
  stuck : Bool
  createdAt : Str
  startedAt : Option Str
  actualCost : Str
  repairAttempts : Nat

/-- `AgentJobSummary` and `ContextSummary`. -/
structure JobSummary where
  total : Nat
  inProgress : Nat
  completed : Nat
  failed : Nat
  stuck : Nat

structure SandboxJobSummary where
  total : Nat
  running : Nat
  completed : Nat
  failed : Nat
  interrupted : Nat

/-- A line of the list of jobs. -/
structure JobRecord where
  id : Nat
  title : Str
  status : Str

/-- The rows of the tenant in the store; an error of the store leaves nothing. -/
structure TenantStore where
  getJob : Nat → Option JobView
  agentJobSummary : Option JobSummary
  sandboxJobSummary : Option SandboxJobSummary
  listAgentJobs : List JobRecord
  listSandboxJobs : List JobRecord

structure SkillLine where
  name : Str
  version : Str
  trust : Str
  description : Str

structure CatalogEntry where
  name : Str
  version : Str
  description : Str
  owner : Option Str
  stars : Option Nat
  downloads : Option Nat

structure SearchOutcome where
  results : List CatalogEntry
  error : Option Str

inductive HeartbeatResult
  | ok
  | needsAttention (msg : Str)
  | skipped
  | failed (err : Str)

structure CompactionResult where
  turnsRemoved : Nat
  tokensBefore : Nat
  tokensAfter : Nat
  summaryWritten : Bool

/-- What the commands find outside the agent, when they ask for it. -/
structure Services where
  case : CaseMap
  parseUuid : Str → Option Nat
  showUuid : Nat → Str
  userId : Str
  store : Option TenantStore
  getContext : Nat → Except Str JobView
  summaryFor : JobSummary
  allJobsFor : List Nat
  dispatchJob : (title description : Str) → Except Str Nat
  stopJob : Nat → Except Str Unit
  attemptRecovery : Nat → Except Str Unit
  scheduleJob : Nat → Except Str Unit
  inDocker : Bool
  tools : List Str
  activeModel : Str
  listModels : Except Str (List Str)
  multiTenant : Bool
  setModel : Str → Except Str Unit
  skillRegistry : Option (Except Str (List SkillLine))
  skillCatalog : Option (Str → SearchOutcome)
  /-- `format_count`. -/
  formatCount : Nat → Str → Str
  heartbeat : Option HeartbeatResult
  /-- The answer of the model to a request for a summary or for next steps. -/
  complete : Except Str Str
  compaction : Except Str CompactionResult
  usagePercent : Str

def showNat (n : Nat) : Str := (Nat.repr n).toList

/-- `SubmissionResult::response` and the like for texts. -/
def respond (content : String) : SubmissionResult := .response content.toList

def fail (message : String) : SubmissionResult := .error message.toList

def okWith (message : String) : SubmissionResult := .ok (some message.toList)

section Handlers

variable (sv : Services)

/-- The display of `Error::Job` for a missing job. -/
def jobNotFound (id : Nat) : Str := "Job error: Job ".toList ++ sv.showUuid id ++ " not found".toList

/-! ## Jobs -/

def handleCreateJob (title description : Str) : Except Str Str := do
  let jobId ← sv.dispatchJob title description
  return "Created job: ".toList ++ title ++ "\nID: ".toList ++ sv.showUuid jobId ++
    "\n\nThe job has been scheduled and is now running.".toList

/-- The id is read, and a nil id stands in the error. -/
def readJobId (jobId : Str) : Except Str Nat :=
  match sv.parseUuid jobId with
  | some id => .ok id
  | none => .error (jobNotFound sv 0)

/-- The context of a job of the tenant. -/
def ownContext (id : Nat) : Except Str JobView := do
  let ctx ← sv.getContext id
  if ctx.userId = sv.userId then .ok ctx else .error (jobNotFound sv id)

def showJob (job : JobView) : Str :=
  "Job: ".toList ++ job.title ++ "\nStatus: ".toList ++ job.state ++ "\nCreated: ".toList ++ job.createdAt ++
    "\nStarted: ".toList ++ job.startedAt.getD "Not started".toList ++ "\nActual cost: ".toList ++ job.actualCost

def showSummary (total inProgress completed failed stuck : Nat) : Str :=
  "Jobs summary: Total: ".toList ++ showNat total ++ " In Progress: ".toList ++ showNat inProgress ++
    " Completed: ".toList ++ showNat completed ++ " Failed: ".toList ++ showNat failed ++ " Stuck: ".toList ++
      showNat stuck

/-- The sums of both summaries of the store, each if it could be read. -/
def storeSummary (store : TenantStore) : Str :=
  let agent := store.agentJobSummary.getD ⟨0, 0, 0, 0, 0⟩
  let sandbox := store.sandboxJobSummary.getD ⟨0, 0, 0, 0, 0⟩
  showSummary (agent.total + sandbox.total) (agent.inProgress + sandbox.running)
    (agent.completed + sandbox.completed) (agent.failed + (sandbox.failed + sandbox.interrupted)) agent.stuck

def handleCheckStatus (jobId : Option Str) : Except Str Str :=
  match jobId with
  | some id => do
    let id ← readJobId sv id
    match sv.store.bind (·.getJob id) with
    | some job => .ok (showJob job)
    | none => (ownContext sv id).map showJob
  | none =>
    match sv.store with
    | some store => .ok (storeSummary store)
    | none =>
      let s := sv.summaryFor
      .ok (showSummary s.total s.inProgress s.completed s.failed s.stuck)

def handleCancelJob (jobId : Str) : Except Str Str := do
  let id ← readJobId sv jobId
  let _ ← ownContext sv id
  sv.stopJob id
  return "Job ".toList ++ jobId ++ " has been cancelled.".toList

def showRecord (id title status : Str) : Str :=
  "  ".toList ++ id ++ " - ".toList ++ title ++ " (".toList ++ status ++ ")\n".toList

def NO_JOBS : Str := "No jobs found.".toList

def handleListJobs : Str :=
  match sv.store with
  | some store =>
    let jobs := store.listAgentJobs ++ store.listSandboxJobs
    if jobs.isEmpty then NO_JOBS
    else "Jobs:\n".toList ++ jobs.flatMap fun j => showRecord (sv.showUuid j.id) j.title j.status
  | none =>
    if sv.allJobsFor.isEmpty then NO_JOBS
    else "Jobs:\n".toList ++ sv.allJobsFor.flatMap fun id =>
      match sv.getContext id with
      | .ok ctx => showRecord (sv.showUuid id) ctx.title ctx.state
      | .error _ => []

def handleHelpJob (jobId : Str) : Except Str Str := do
  let id ← readJobId sv jobId
  let ctx ← ownContext sv id
  if ctx.stuck then
    sv.attemptRecovery id
    sv.scheduleJob id
    return "Job ".toList ++ jobId ++ " was stuck. Attempting recovery (attempt #".toList ++
      showNat (ctx.repairAttempts + 1) ++ ").".toList
  else
    return "Job ".toList ++ jobId ++ " is not stuck (current state: ".toList ++ ctx.state ++
      "). No help needed.".toList

/-! ## System commands -/

def HELP : Str :=
  [ "System:\n",
    "  /help             Show this help\n",
    "  /model [name]     Show or switch the active model\n",
    "  /version          Show version info\n",
    "  /tools            List available tools\n",
    "  /debug            Toggle debug mode\n",
    "  /reasoning [N|all] Show agent reasoning for turns\n",
    "  /ping             Connectivity check\n",
    "\n",
    "Jobs:\n",
    "  /job <desc>       Create a new job\n",
    "  /status [id]      Check job status\n",
    "  /cancel <id>      Cancel a job\n",
    "  /list             List all jobs\n",
    "\n",
    "Session:\n",
    "  /undo             Undo last turn\n",
    "  /redo             Redo undone turn\n",
    "  /compact          Compress context window\n",
    "  /clear            Clear current thread\n",
    "  /interrupt        Stop current operation\n",
    "  /new              New conversation thread\n",
    "  /thread <id>      Switch to thread\n",
    "  /resume <id>      Resume from checkpoint\n",
    "\n",
    "Skills:\n",
    "  /skills             List installed skills\n",
    "  /skills search <q>  Search ClawHub registry\n",
    "\n",
    "Agent:\n",
    "  /heartbeat        Run heartbeat check\n",
    "  /summarize        Summarize current thread\n",
    "  /suggest          Suggest next steps\n",
    "  /restart          Gracefully restart the process\n",
    "\n",
    "  /quit             Exit" ].flatMap String.toList

/-- `RestartTool::execute` without parameters, in a container. -/
def restartText : Str :=
  "Restarting in ".toList ++ showNat 2 ++ (" second(s). The process will exit cleanly and the " ++
    "entrypoint restart loop will bring IronClaw back online.").toList

def handleRestart (channel : Str) : SubmissionResult :=
  if channel ≠ "gateway".toList then
    fail ("Restart is only available through the web interface with explicit user confirmation. " ++
      "Use the Restart button in the UI.")
  else if !sv.inDocker then
    fail ("Restart is not available in this environment. " ++
      "The IRONCLAW_IN_DOCKER environment variable must be set to 'true' for Docker deployments.")
  else .response restartText

/-- `format!` with a width, to the left. -/
def padTo (width : Nat) (s : Str) : Str := s ++ List.replicate (width - s.length) ' '

def showSkill (name version rest : Str) : Str :=
  "  ".toList ++ padTo 24 name ++ " v".toList ++ padTo 10 version ++ rest ++ "\n".toList

def handleSkillsList : SubmissionResult :=
  match sv.skillRegistry with
  | none => fail "Skills system not enabled."
  | some (.error e) => .error ("Skill registry lock error: ".toList ++ e)
  | some (.ok []) => respond "No skills installed.\n\nUse /skills search <query> to find skills on ClawHub."
  | some (.ok skills) =>
    let line (s : SkillLine) :=
      let desc := if 60 < s.description.length then s.description.take 57 ++ "...".toList else s.description
      showSkill s.name s.version (" [".toList ++ s.trust ++ "]  ".toList ++ desc)
    .response ("Installed skills:\n\n".toList ++ skills.flatMap line ++
      "\nUse /skills search <query> to find more on ClawHub.".toList)

def showEntry (e : CatalogEntry) : Str :=
  let owner := (e.owner.map fun o => "  by ".toList ++ o).getD []
  let parts := (e.stars.map fun s => showNat s ++ " stars".toList).toList ++
    (e.downloads.map fun d => sv.formatCount d "downloads".toList).toList
  let stats := if parts.isEmpty then [] else "  ".toList ++ join "  ".toList parts
  showSkill e.name e.version (owner ++ stats) ++
    if e.description.isEmpty then [] else "    ".toList ++ e.description ++ "\n\n".toList

/-- `str::contains`. -/
def containsText (pat s : Str) : Bool := (find pat s).isSome

def handleSkillsSearch (query : Str) : SubmissionResult :=
  match sv.skillCatalog with
  | none => fail "Skill catalog not available."
  | some search =>
    let outcome := search query
    let entries :=
      if outcome.results.isEmpty then
        match outcome.error with
        | some err => "  (registry error: ".toList ++ err ++ ")\n".toList
        | none => "  No results found.\n".toList
      else outcome.results.flatMap (showEntry sv)
    let installed : List SkillLine :=
      match sv.skillRegistry with
      | some (.ok skills) => skills.filter fun s =>
          containsText (sv.case.lower query) (sv.case.lower s.name) ||
            containsText (sv.case.lower query) (sv.case.lower s.description)
      | _ => []
    let matching :=
      if installed.isEmpty then []
      else "Installed skills matching \"".toList ++ query ++ "\":\n".toList ++
        installed.flatMap fun s => showSkill s.name s.version (" [".toList ++ s.trust ++ "]".toList)
    .response ("ClawHub results for \"".toList ++ query ++ "\":\n\n".toList ++ entries ++ matching)

/-- `/model` without a name. -/
def showModels : Str :=
  let listed :=
    match sv.listModels with
    | .ok [] => "\nCould not fetch model list. Use /model <name> to switch.".toList
    | .ok models =>
      "\nAvailable models:\n".toList ++
        models.flatMap (fun m => "  ".toList ++ m ++ (if m = sv.activeModel then " (active)".toList else []) ++
          "\n".toList) ++
        "\nUse /model <name> to switch.".toList
    | .error e => "\nCould not fetch models: ".toList ++ e ++ ". Use /model <name> to switch.".toList
  "Active model: ".toList ++ sv.activeModel ++ "\n".toList ++ listed

/-- The list of models knows no model of this name. -/
def unknownModel (requested : Str) : Option (List Str) :=
  match sv.listModels with
  | .ok models => if !models.isEmpty && !models.contains requested then some models else none
  | .error _ => none

def handleModel : List Str → SubmissionResult
  | [] => .response (showModels sv)
  | requested :: _ =>
    match unknownModel sv requested with
    | some models =>
      .error ("Unknown model: ".toList ++ requested ++ ". Available models:\n  ".toList ++ join "\n  ".toList models)
    | none =>
      if sv.multiTenant then
        .response ("Model preference set to: ".toList ++ requested ++ " (per-user)".toList)
      else
        match sv.setModel requested with
        | .ok () => .response ("Switched model to: ".toList ++ requested)
        | .error e => .error ("Failed to switch model: ".toList ++ e)

def handleSkills (args : List Str) : SubmissionResult :=
  if args.head? = some "search".toList then
    let query := join " ".toList (args.drop 1)
    if query.isEmpty then fail "Usage: /skills search <query>" else handleSkillsSearch sv query
  else if args.isEmpty then handleSkillsList sv
  else fail "Usage: /skills or /skills search <query>"

def handleSystemCommand (command : Str) (args : List Str) (channel : Str) : SubmissionResult :=
  if command = "help".toList then .response HELP
  else if command = "ping".toList then respond "pong!"
  else if command = "restart".toList then handleRestart sv channel
  else if command = "version".toList then respond "ironclaw v0.22.0"
  else if command = "tools".toList then .response ("Available tools: ".toList ++ join ", ".toList sv.tools)
  else if command = "debug".toList then okWith "Debug toggle is handled by your client."
  else if command = "skills".toList then handleSkills sv args
  else if command = "model".toList then handleModel sv args
  else .error ("Unknown command: ".toList ++ command ++ ". Try /help".toList)

/-- `handle_command`: no text stands for a shutdown. -/
def handleCommand (command : Str) (args : List Str) (channel : Str) : Option Str :=
  match handleSystemCommand sv command args channel with
  | .response content => some content
  | .ok message => message
  | .error message => some ("Error: ".toList ++ message)
  | _ => none

def handleJobOrCommand (intent : MessageIntent) (channel : Str) : Except Str SubmissionResult :=
  match intent with
  | .createJob title description _ => (handleCreateJob sv title description).map .response
  | .checkJobStatus jobId => (handleCheckStatus sv jobId).map .response
  | .cancelJob jobId => (handleCancelJob sv jobId).map .response
  | .listJobs _ => .ok (.response (handleListJobs sv))
  | .helpJob jobId => (handleHelpJob sv jobId).map .response
  | .command command args =>
    match handleCommand sv command args channel with
    | some s => .ok (.response s)
    | none => .ok (.ok none)
  | _ => .ok (respond "Unknown intent")

/-! ## Control submissions -/

/-- A handler's text, or an error that is shown after a name. -/
def shown (name : String) : Except Str Str → SubmissionResult
  | .ok text => .response text
  | .error e => .error (name.toList ++ e)

def processJobStatus (jobId : Option Str) : SubmissionResult := shown "Job status error: " (handleCheckStatus sv jobId)

def processJobCancel (jobId : Str) : SubmissionResult := shown "Cancel error: " (handleCancelJob sv jobId)

def processHeartbeat : SubmissionResult :=
  match sv.heartbeat with
  | none => fail "Heartbeat requires a workspace (database must be connected)."
  | some .ok => okWith "Heartbeat: all clear, nothing needs attention."
  | some (.needsAttention msg) => .response ("Heartbeat findings:\n\n".toList ++ msg)
  | some .skipped => okWith "Heartbeat skipped: no HEARTBEAT.md checklist found in workspace."
  | some (.failed err) => .error ("Heartbeat failed: ".toList ++ err)

/-- The thread of a control submission, with its checkpoints; none when the session has lost it. -/
structure ThreadView where
  id : Nat
  thread : Option Thread
  undo : UndoManager
  json : JsonText
  /-- The id of the checkpoint that an undo or a redo makes. -/
  checkpointId : Nat
  /-- The session has the thread that is switched to. -/
  hasTarget : Bool

variable (view : ThreadView)

/-- The thread, or an error with its id. -/
def threadOrError : Except Str Thread :=
  match view.thread with
  | some thread => .ok thread
  | none => .error (jobNotFound sv view.id)

/-- `process_summarize` and `process_suggest`: they ask the model about a thread that is not empty. -/
def askModel (empty title failed : String) : Except Str SubmissionResult := do
  let thread ← threadOrError sv view
  if (thread.messages view.json).isEmpty then return okWith empty
  match sv.complete with
  | .ok text => return .response (title.toList ++ "\n\n".toList ++ trim text)
  | .error e => return .error (failed.toList ++ e)

def processSummarize : Except Str SubmissionResult :=
  askModel sv view "Nothing to summarize (empty thread)." "Thread Summary:" "Summarize failed: "

def processSuggest : Except Str SubmissionResult :=
  askModel sv view "Nothing to suggest from (empty thread)." "Suggested Next Steps:" "Suggest failed: "

/-- The result of `process_undo`. -/
def undoResult : Except Str SubmissionResult :=
  if view.undo.undoStack.isEmpty then .ok (okWith "Nothing to undo.")
  else do
    let thread ← threadOrError sv view
    match view.undo.undo view.checkpointId thread.turnNumber (thread.messages view.json) with
    | (some checkpoint, mgr) =>
      return .ok (some ("Undone to turn ".toList ++ showNat checkpoint.turnNumber ++ ". ".toList ++
        showNat mgr.undoCount ++ " undo(s) remaining.".toList))
    | (none, _) => return fail "Undo failed."

/-- The result of `process_redo`. -/
def redoResult : Except Str SubmissionResult :=
  if view.undo.redoStack.isEmpty then .ok (okWith "Nothing to redo.")
  else do
    let thread ← threadOrError sv view
    match view.undo.redo view.checkpointId thread.turnNumber (thread.messages view.json) with
    | (some checkpoint, _) =>
      return .ok (some ("Redone to turn ".toList ++ showNat checkpoint.turnNumber ++ ".".toList))
    | (none, _) => return fail "Redo failed."

/-- The result of `process_interrupt`. -/
def interruptResult : Except Str SubmissionResult := do
  let thread ← threadOrError sv view
  if thread.state = .processing ∨ thread.state = .awaitingApproval then return okWith "Interrupted."
  else return okWith "Nothing to interrupt."

/-- The result of `process_compact`. -/
def compactResult : Except Str SubmissionResult := do
  let _ ← threadOrError sv view
  match sv.compaction with
  | .ok result =>
    return .ok (some ("Compacted: ".toList ++ showNat result.turnsRemoved ++ " turns removed, ".toList ++
      showNat result.tokensBefore ++ " → ".toList ++ showNat result.tokensAfter ++ " tokens (was ".toList ++
      sv.usagePercent ++ "% full)".toList ++
      if result.summaryWritten then ", summary saved to workspace".toList else []))
  | .error e => return .error ("Compaction failed: ".toList ++ e)

/-- The result of `process_clear`. -/
def clearResult : Except Str SubmissionResult := do
  let _ ← threadOrError sv view
  return okWith "Thread cleared."

/-- The result of `process_new_thread`. -/
def newThreadResult (threadId : Nat) : SubmissionResult := .ok (some ("New thread: ".toList ++ sv.showUuid threadId))

/-- The result of `process_switch_thread`. -/
def switchThreadResult (target : Nat) : SubmissionResult :=
  if view.hasTarget then .ok (some ("Switched to thread ".toList ++ sv.showUuid target)) else fail "Thread not found."

/-- The result of `process_resume`. -/
def resumeResult (checkpointId : Nat) : Except Str SubmissionResult :=
  match (view.undo.restore checkpointId).1 with
  | some checkpoint => do
    let _ ← threadOrError sv view
    return .ok (some ("Resumed from checkpoint: ".toList ++ checkpoint.description))
  | none => .ok (fail "Checkpoint not found.")

/-! ## Reasoning -/

def showToolCall (tc : TurnToolCall) : Str :=
  let status := if tc.error.isSome then "error" else if tc.result.isSome then "ok" else "pending"
  "  ".toList ++ tc.name ++ " [".toList ++ status.toList ++ "]".toList ++
    (tc.rationale.map fun rationale => " — ".toList ++ rationale).getD [] ++ "\n".toList

def showTurn (turn : Session.Turn) : Str :=
  "--- Turn ".toList ++ showNat (turn.turnNumber + 1) ++ " ---\n".toList ++
    (turn.narrative.map fun narrative => "Reasoning: ".toList ++ narrative ++ "\n".toList).getD [] ++
    (if turn.toolCalls.isEmpty then "  (no tool calls)\n".toList else turn.toolCalls.flatMap showToolCall) ++
    "\n".toList

/-- The turns that are asked for; without an argument, the last one that has tool calls. -/
def selectTurns (turns : List Session.Turn) : Option Str → Except SubmissionResult (List Session.Turn)
  | none =>
    match turns.reverse.find? fun t => !t.toolCalls.isEmpty with
    | some turn => .ok [turn]
    | none => .error (okWith "No turns with tool calls.")
  | some arg =>
    if arg = "all".toList then .ok turns
    else
      match parseUnsigned 64 arg with
      | none => .error (fail "Usage: /reasoning [N|all]")
      | some 0 => .error (fail "Turn numbers start at 1.")
      | some (n + 1) =>
        match turns[n]? with
        | some turn => .ok [turn]
        | none =>
          .error (.error ("Turn ".toList ++ showNat (n + 1) ++ " does not exist (max: ".toList ++
            showNat turns.length ++ ").".toList))

def handleReasoningCommand (args : List Str) : SubmissionResult :=
  match view.thread with
  | none => fail "No active thread."
  | some thread =>
    if thread.turns.isEmpty then okWith "No turns yet."
    else
      match selectTurns thread.turns args.head? with
      | .error result => result
      | .ok turns => .response (trimEnd (turns.flatMap showTurn))

/-! ## Every command is heard -/

variable {sv view}

/-- A response whose text begins with a fixed text. -/
theorem heard_response {content : Str} (h : SILENT_REPLY_TOKEN.isPrefixOf (trimStart content) = false) :
    Heard (.response content) := isSilentReply_false h

/-- A message that begins with a fixed text. -/
theorem heard_ok {text : Str} (h : SILENT_REPLY_TOKEN.isPrefixOf (trimStart text) = false) :
    Heard (.ok (some text)) := ⟨text, rfl, isSilentReply_false h⟩

theorem heard_fail (message : String) : Heard (fail message) := trivial

theorem skillsSearch_heard (query : Str) : Heard (handleSkillsSearch sv query) := by
  unfold handleSkillsSearch
  split
  · exact heard_fail _
  · exact heard_response rfl

theorem skillsList_heard : Heard (handleSkillsList sv) := by
  unfold handleSkillsList
  split
  · exact heard_fail _
  · trivial
  · exact heard_response rfl
  · exact heard_response rfl

theorem skills_heard (args : List Str) : Heard (handleSkills sv args) := by
  unfold handleSkills
  split
  · simp only
    split
    · exact heard_fail _
    · exact skillsSearch_heard _
  · split
    · exact skillsList_heard
    · exact heard_fail _

theorem model_heard (args : List Str) : Heard (handleModel sv args) := by
  cases args with
  | nil => exact heard_response rfl
  | cons requested args =>
    simp only [handleModel]
    split
    · trivial
    · split
      · exact heard_response rfl
      · cases sv.setModel requested with
        | ok => exact heard_response rfl
        | error e => trivial

theorem restart_heard (channel : Str) : Heard (handleRestart sv channel) := by
  unfold handleRestart
  split
  · exact heard_fail _
  · split
    · exact heard_fail _
    · exact heard_response rfl

/-- A system command answers with a text. -/
theorem systemCommand_heard (command : Str) (args : List Str) (channel : Str) :
    Heard (handleSystemCommand sv command args channel) := by
  unfold handleSystemCommand
  split_ifs
  · exact heard_response rfl
  · exact heard_response rfl
  · exact restart_heard channel
  · exact heard_response rfl
  · exact heard_response rfl
  · exact heard_ok rfl
  · exact skills_heard args
  · exact model_heard args
  · trivial

/-- A response with the text is heard. -/
def HeardText (text : Str) : Prop := Heard (.response text)

theorem createJob_heard (title description : Str) : Returns HeardText (handleCreateJob sv title description) :=
  returns_bind fun _ _ => returns_ok (heard_response rfl)

theorem checkStatus_heard (jobId : Option Str) : Returns HeardText (handleCheckStatus sv jobId) := by
  cases jobId with
  | none =>
    unfold handleCheckStatus
    simp only
    split <;> exact returns_ok (heard_response rfl)
  | some id =>
    refine returns_bind fun uuid _ => ?_
    split
    · exact returns_ok (heard_response rfl)
    · exact returns_map fun _ _ => heard_response rfl

theorem cancelJob_heard (jobId : Str) : Returns HeardText (handleCancelJob sv jobId) :=
  returns_bind fun _ _ => returns_bind fun _ _ => returns_bind fun _ _ => returns_ok (heard_response rfl)

theorem listJobs_heard : HeardText (handleListJobs sv) := by
  have hnone : HeardText NO_JOBS := heard_response rfl
  unfold handleListJobs
  split
  · simp only
    split
    · exact hnone
    · exact heard_response rfl
  · split
    · exact hnone
    · exact heard_response rfl

theorem helpJob_heard (jobId : Str) : Returns HeardText (handleHelpJob sv jobId) := by
  refine returns_bind fun id _ => returns_bind fun ctx _ => ?_
  split
  · exact returns_bind fun _ _ => returns_bind fun _ _ => returns_ok (heard_response rfl)
  · exact returns_ok (heard_response rfl)

/-- `handle_command` never says that the agent shuts down. -/
theorem handleCommand_heard (command : Str) (args : List Str) (channel : Str) :
    ∃ text, handleCommand sv command args channel = some text ∧ HeardText text := by
  have h := @systemCommand_heard sv command args channel
  unfold handleCommand
  cases hresult : handleSystemCommand sv command args channel with
  | response content =>
    rw [hresult] at h
    exact ⟨content, rfl, h⟩
  | ok message =>
    rw [hresult] at h
    exact h
  | error message => exact ⟨_, rfl, heard_response rfl⟩
  | interrupted =>
    rw [hresult] at h
    exact h.elim
  | needApproval =>
    rw [hresult] at h
    exact h.elim

/-- A command that the router reads from user input answers with a text, or fails. -/
theorem jobOrCommand_heard (intent : MessageIntent) (channel : Str) :
    Returns Heard (handleJobOrCommand sv intent channel) := by
  cases intent with
  | createJob title description category => exact returns_map (createJob_heard title description)
  | checkJobStatus jobId => exact returns_map (checkStatus_heard jobId)
  | cancelJob jobId => exact returns_map (cancelJob_heard jobId)
  | listJobs filter => exact returns_ok listJobs_heard
  | helpJob jobId => exact returns_map (helpJob_heard jobId)
  | chat content => exact returns_ok (heard_response rfl)
  | command command args =>
    obtain ⟨text, hsome, htext⟩ := @handleCommand_heard sv command args channel
    unfold handleJobOrCommand
    simp only [hsome]
    exact returns_ok htext
  | unknown => exact returns_ok (heard_response rfl)

theorem shown_heard {name : String} {x : Except Str Str} (h : Returns HeardText x) : Heard (shown name x) := by
  cases x with
  | error e => trivial
  | ok text => exact h text rfl

theorem jobStatus_heard (jobId : Option Str) : Heard (processJobStatus sv jobId) :=
  shown_heard (checkStatus_heard jobId)

theorem jobCancel_heard (jobId : Str) : Heard (processJobCancel sv jobId) := shown_heard (cancelJob_heard jobId)

theorem heartbeat_heard : Heard (processHeartbeat sv) := by
  unfold processHeartbeat
  split
  · exact heard_fail _
  · exact heard_ok rfl
  · exact heard_response rfl
  · exact heard_ok rfl
  · trivial

theorem askModel_heard {empty title failed : String}
    (hempty : SILENT_REPLY_TOKEN.isPrefixOf (trimStart empty.toList) = false)
    (htitle : ∀ text, SILENT_REPLY_TOKEN.isPrefixOf (trimStart (title.toList ++ "\n\n".toList ++ text)) = false) :
    Returns Heard (askModel sv view empty title failed) := by
  refine returns_bind fun thread _ => ?_
  split
  · exact returns_ok (heard_ok hempty)
  · split
    · exact returns_ok (heard_response (htitle _))
    · exact returns_ok trivial

theorem summarize_heard : Returns Heard (processSummarize sv view) := askModel_heard rfl fun _ => rfl

theorem suggest_heard : Returns Heard (processSuggest sv view) := askModel_heard rfl fun _ => rfl

theorem undo_heard : Returns Heard (undoResult sv view) := by
  unfold undoResult
  split
  · exact returns_ok (heard_ok rfl)
  · refine returns_bind fun thread _ => ?_
    split
    · exact returns_ok (heard_ok rfl)
    · exact returns_ok (heard_fail _)

theorem redo_heard : Returns Heard (redoResult sv view) := by
  unfold redoResult
  split
  · exact returns_ok (heard_ok rfl)
  · refine returns_bind fun thread _ => ?_
    split
    · exact returns_ok (heard_ok rfl)
    · exact returns_ok (heard_fail _)

theorem interrupt_heard : Returns Heard (interruptResult sv view) := by
  refine returns_bind fun thread _ => ?_
  split <;> exact returns_ok (heard_ok rfl)

theorem compact_heard : Returns Heard (compactResult sv view) := by
  refine returns_bind fun thread _ => ?_
  split
  · exact returns_ok (heard_ok rfl)
  · exact returns_ok trivial

theorem clear_heard : Returns Heard (clearResult sv view) := returns_bind fun _ _ => returns_ok (heard_ok rfl)

theorem newThread_heard (threadId : Nat) : Heard (newThreadResult sv threadId) := heard_ok rfl

theorem switchThread_heard (target : Nat) : Heard (switchThreadResult sv view target) := by
  unfold switchThreadResult
  split
  · exact heard_ok rfl
  · exact heard_fail _

theorem resume_heard (checkpointId : Nat) : Returns Heard (resumeResult sv view checkpointId) := by
  unfold resumeResult
  split
  · exact returns_bind fun _ _ => returns_ok (heard_ok rfl)
  · exact returns_ok (heard_fail _)

/-- The record of the turns is not checked for a silent reply; it is a text in every case. -/
theorem reasoning_text (args : List Str) :
    (∃ content, handleReasoningCommand view args = .response content) ∨
      (∃ text, handleReasoningCommand view args = .ok (some text)) ∨
        ∃ message, handleReasoningCommand view args = .error message := by
  unfold handleReasoningCommand
  split
  · exact .inr (.inr ⟨_, rfl⟩)
  · split
    · exact .inr (.inl ⟨_, rfl⟩)
    · cases hselect : selectTurns _ args.head? with
      | ok turns => exact .inl ⟨_, rfl⟩
      | error result =>
        unfold selectTurns at hselect
        split at hselect
        · split at hselect <;> cases hselect
          exact .inr (.inl ⟨_, rfl⟩)
        · split at hselect
          · cases hselect
          · split at hselect
            · cases hselect
              exact .inr (.inr ⟨_, rfl⟩)
            · cases hselect
              exact .inr (.inr ⟨_, rfl⟩)
            · split at hselect <;> cases hselect
              exact .inr (.inr ⟨_, rfl⟩)

end Handlers

end Commands

end Ironclaw.Agent

import Ironclaw.Agent.ChatDelegate
import Ironclaw.Agent.ToolAccounting
import Ironclaw.Session.Thread
import Ironclaw.Session.Undo

/-!
# The handlers of a thread

`process_user_input` with the drain loop around it, `process_approval`, `process_interrupt`, `process_clear` and
`process_undo`, each cut at the points where it releases the lock of the session. The steps of any number of calls may
interleave: this is what the lock windows allow. The main loop `Agent::run` awaits one message at a time, so it gives
only those runs in which a call ends before the next one begins; a caller that does not wait, as the sibling paths allow
for with their second checks, gives the others.

What comes from outside (a command's result, the results of tools and of the agentic loop) is part of a step's label. A
log keeps what the results are about.
-/

namespace Ironclaw.Session

open Text Llm

inductive SubmissionResult
  | response (content : Str)
  | needApproval (requestId : Nat) (toolName description : Str) (parameters : Json) (allowAlways : Bool)
  | ok (message : Option Str)
  | error (message : Str)
  | interrupted
  deriving DecidableEq

def SubmissionResult.isResponse : SubmissionResult → Bool
  | .response _ => true
  | _ => false

/-- The surroundings of the handlers: what a tool or a text is does not depend on the thread. -/
structure Env where
  chat : Agent.ChatEnv
  json : JsonText
  /-- The message of the first safety check that rejects an input. -/
  rejects : Str → Option Str
  /-- The input is an explicit command of the router. -/
  isCommand : Str → Bool
  extractSuggestions : Str → Str
  transformResponse : Str → Str

/-- How an agentic loop ends. -/
abbrev LoopResult := Except Str Agent.AgenticLoopResult

/-! ## The calls under way -/

/-- An input that is processed; the augmented text is there when attachments add to it. -/
structure Job where
  message : Message
  attachments : Bool
  augmented : Option Str
  drained : Bool
  /-- A new message has no number. -/
  new_parts : drained = false → message.parts = []
  /-- Drained messages come without attachments. -/
  drained_plain : drained = true → attachments = false ∧ augmented = none
  deriving DecidableEq

/-- Where a handler of a user message stands. -/
inductive InputPc
  | snapshot (job : Job)
  | enqueue (job : Job)
  | validate (job : Job)
  | compact (job : Job)
  | checkpoint (job : Job)
  | start (job : Job)
  | loop (job : Job)
  | finish (job : Job) (result : LoopResult)
  | processed (job : Job) (result : SubmissionResult)
  | returned (result : SubmissionResult)

/-- A tool that needs approval after an approval, and the calls that stay deferred. -/
structure Needed where
  tc : ToolCall
  tool : Agent.Tool
  allowAlways : Bool
  rest : List ToolCall

/-- Where a handler of an approval stands. -/
inductive ApprovalPc
  | take (requestId : Option Nat) (approved always : Bool)
  | restore (p : PendingApproval)
  | autoApprove (p : PendingApproval)
  | setProcessing (p : PendingApproval)
  | execute (p : PendingApproval)
  | record (p : PendingApproval) (outcome : Agent.ToolOutcome)
  | authIntercept (extName instructions : Str)
  | preflight (p : PendingApproval) (context : List ChatMessage) (runnable rest : List ToolCall)
  | runDeferred (p : PendingApproval) (context : List ChatMessage) (runnable : List ToolCall) (needed : Option Needed)
  | recordDeferred (p : PendingApproval) (context : List ChatMessage) (results : List (ToolCall × Agent.ToolOutcome))
      (needed : Option Needed) (auth : Option Str)
  | deferredAuth (p : PendingApproval) (context : List ChatMessage) (results : List (ToolCall × Agent.ToolOutcome))
      (needed : Option Needed) (extName instructions : Str)
  | awaitNew (p : PendingApproval) (context : List ChatMessage) (needed : Needed)
  | loop (context : List ChatMessage)
  | finish (result : LoopResult)
  | reject (p : PendingApproval)
  | returned (result : SubmissionResult)

/-- A call; `since` counts the cancellations that came before an approval took its request. -/
inductive Call
  | input (pc : InputPc)
  | approval (since : Nat) (pc : ApprovalPc)

/-! ## The world -/

/-- What happened to the thread: a request was put on it, the tool of a request was executed, the thread was
interrupted, cleared or undone, a turn was ended or taken up again in a state, and the ways of the queued messages. -/
inductive Event
  | awaited (requestId : Nat)
  | executed (requestId : Nat)
  | cancelled
  | settled (before : ThreadState)
  | accepted (id : Nat) (text : Str)
  | started (parts : List Nat) (input : Str)
  | discarded (parts : List Nat)
  deriving DecidableEq

/-- The thread and the calls under way; the log has the last event first. -/
structure World where
  thread : Thread
  undo : UndoManager
  autoApproved : List Str
  calls : List Call
  nextRequest : Nat
  nextMessage : Nat
  log : List Event

/-- What a step gets from outside. -/
structure Answer where
  command : SubmissionResult
  keep : Option Nat
  work : Agent.Turn → Agent.Turn
  auth : Option Str
  loop : Option LoopResult
  tool : Agent.ToolOutcome
  deferred : List Agent.ToolOutcome
  checkpointId : Nat

inductive Label
  | userInput (content : Str) (attachments : Bool) (augmented : Option Str)
  | approval (requestId : Option Nat) (approved always : Bool)
  | interrupt
  | clear
  | undo (checkpointId : Nat)
  | advance (i : Nat) (answer : Answer)

def cancels (log : List Event) : Nat := log.countP (· = .cancelled)

/-- A turn is ended or taken up again: the state from which this happens is kept. -/
def World.settle (w : World) (thread : Thread) : World :=
  { w with thread := thread, log := .settled w.thread.state :: w.log }

/-- The thread waits for a request. -/
def World.await (w : World) (p : PendingApproval) : World :=
  { w with thread := w.thread.awaitApproval p, log := .awaited p.requestId :: w.log }

/-- The thread waits for a new request. -/
def World.awaitNew (w : World) (p : Agent.PendingApproval) : World :=
  { w.await { p with requestId := w.nextRequest } with nextRequest := w.nextRequest + 1 }

def needApproval (requestId : Nat) (p : Agent.PendingApproval) : SubmissionResult :=
  .needApproval requestId p.toolName p.description p.displayParameters p.allowAlways

section Step

variable (env : Env)

/-! ## `process_user_input` and the drain loop -/

/-- `truncate_for_preview`: one line of at most so many characters. -/
def truncateForPreview (output : Str) (maxChars : Nat) : Str :=
  let words := ((output.take (maxChars + 50)).splitOnP isWhitespace).filter fun word => !word.isEmpty
  let collapsed := join " ".toList words
  if maxChars < collapsed.length then collapsed.take maxChars ++ "...".toList else collapsed

/-- What is returned for an input while the thread waits for a request. -/
def waitingMessage (p : Option PendingApproval) : Str :=
  match p with
  | some p =>
    "Waiting for approval: ".toList ++ p.toolName ++ " — ".toList ++ truncateForPreview p.description 80 ++
      ". Use /interrupt to cancel.".toList
  | none => "Waiting for approval. Use /interrupt to cancel.".toList

/-- The thread state is read. -/
def snapshotStep (w : World) (job : Job) : InputPc :=
  match w.thread.state with
  | .processing => .enqueue job
  | .awaitingApproval => .processed job (.ok (some (waitingMessage w.thread.pendingApproval)))
  | .completed => .processed job (.error "Thread completed. Use /thread new.".toList)
  | .idle => .validate job
  | .interrupted => .validate job

def ATTACHMENTS_REJECTED : Str :=
  ("Cannot queue messages with attachments while a turn is processing. " ++
    "Please resend after the current turn completes.").toList

def QUEUED : Str := "Message queued — will be processed after the current turn.".toList

def QUEUE_FULL : Str :=
  "Message queue full (".toList ++ (Nat.repr MAX_PENDING_MESSAGES).toList ++
    "). Wait for the current turn to complete.".toList

/-- The message that is queued for a job: a new message gets a number, a drained one keeps the numbers of its parts. -/
def queuedMessage (w : World) (job : Job) : Message :=
  if job.drained then job.message else ⟨job.message.text, [w.nextMessage]⟩

/-- The thread was processing: the input is queued, unless the turn has ended meanwhile. -/
def enqueueStep (w : World) (job : Job) : World × InputPc :=
  if w.thread.state = .processing then
    if job.attachments then (w, .processed job (.error ATTACHMENTS_REJECTED))
    else
      match env.rejects job.message.text with
      | some reason => (w, .processed job (.error reason))
      | none =>
        match w.thread.queueMessage (queuedMessage w job) with
        | none => (w, .processed job (.error QUEUE_FULL))
        | some thread =>
          if job.drained then ({ w with thread := thread }, .processed job (.ok (some QUEUED)))
          else
            ({ w with
              thread := thread
              nextMessage := w.nextMessage + 1
              log := .accepted w.nextMessage job.message.text :: w.log }, .processed job (.ok (some QUEUED)))
  else (w, .validate job)

/-- The safety checks and the commands, without the lock. -/
def validateStep (answer : Answer) (job : Job) : InputPc :=
  match env.rejects job.message.text with
  | some reason => .processed job (.error reason)
  | none => if env.isCommand job.message.text then .processed job answer.command else .compact job

/-- The end of a turn. An interrupted thread is left as it is. -/
def finishStep (w : World) (job : Job) (result : LoopResult) : World × InputPc :=
  if w.thread.state = .interrupted then (w, .processed job .interrupted)
  else
    match result with
    | .ok (.response text) =>
      let response := env.transformResponse (env.extractSuggestions text)
      (w.settle (w.thread.completeTurn response), .processed job (.response response))
    | .ok (.needApproval p) => (w.awaitNew p, .processed job (needApproval w.nextRequest p))
    | .error e => (w.settle (w.thread.failTurn e), .processed job (.error e))

/-- The writes of an agentic loop: the record of the last turn, and auth mode. -/
def workStep (w : World) (answer : Answer) : World :=
  let thread := w.thread.modifyLast (·.onRecord answer.work)
  { w with thread := answer.auth.elim thread thread.enterAuthMode }

/-- The job for a new message. -/
def newJob (content : Str) (attachments : Bool) (augmented : Option Str) : Job :=
  ⟨⟨content, []⟩, attachments, augmented, false, fun _ => rfl, nofun⟩

/-- The job for drained messages. -/
def drainedJob (message : Message) : Job := ⟨message, false, none, true, nofun, fun _ => ⟨rfl, rfl⟩⟩

/-- Back in the drain loop: after a response the queue is drained; after any other result drained content is put
back. -/
def processedStep (w : World) (job : Job) (result : SubmissionResult) : World × InputPc :=
  if result.isResponse then
    match w.thread.drainPendingMessages with
    | (none, _) => (w, .returned result)
    | (some message, thread) => ({ w with thread := thread }, .snapshot (drainedJob message))
  else if job.drained then ({ w with thread := w.thread.requeueDrained job.message }, .returned result)
  else (w, .returned result)

def inputStep (w : World) (answer : Answer) : InputPc → World × InputPc
  | .snapshot job => (w, snapshotStep w job)
  | .enqueue job => enqueueStep env w job
  | .validate job => (w, validateStep env answer job)
  | .compact job =>
    ({ w with thread := answer.keep.elim w.thread w.thread.truncateTurns }, .checkpoint job)
  | .checkpoint job =>
    ({ w with
      undo := w.undo.checkpoint answer.checkpointId w.thread.turnNumber (w.thread.messages env.json)
        ("Before turn ".toList ++ (Nat.repr w.thread.turnNumber).toList) }, .start job)
  | .start job =>
    ({ w with
      thread := w.thread.startTurn (job.augmented.getD job.message.text)
      log := .started job.message.parts (job.augmented.getD job.message.text) :: w.log }, .loop job)
  | .loop job =>
    match answer.loop with
    | none => (workStep w answer, .loop job)
    | some result => (w, .finish job result)
  | .finish job result => finishStep env w job result
  | .processed job result => processedStep w job result
  | .returned result => (w, .returned result)

/-! ## `process_approval` -/

def REQUEST_MISMATCH : Str := "Request ID mismatch. Use the correct request ID.".toList

def rejection (toolName : Str) : Str :=
  ("Tool '".toList ++ toolName ++ "' was rejected. The agent will not execute this tool.\n\n".toList) ++
    "You can continue the conversation or try a different approach.".toList

/-- The pending request is taken; the thread keeps its state. -/
def takeStep (w : World) (requestId : Option Nat) (approved always : Bool) : World × ApprovalPc :=
  if w.thread.state ≠ .awaitingApproval then (w, .returned (.ok (some [])))
  else
    let taken := w.thread.takePendingApproval
    let w := { w with thread := taken.2 }
    match taken.1 with
    | none => (w, .returned (.ok (some [])))
    | some p =>
      if requestId.any (· != p.requestId) then (w, .restore p)
      else if approved then if always then (w, .autoApprove p) else (w, .setProcessing p)
      else (w, .reject p)

/-- The result of a tool call is recorded in the last turn. -/
def recordResult (thread : Thread) (toolName toolCallId : Str) (outcome : Agent.ToolOutcome) : Thread :=
  let content := (Agent.processToolResult env.chat toolName toolCallId outcome).1
  thread.modifyLast (·.onRecord fun turn =>
    match outcome with
    | .error _ => turn.recordToolErrorFor toolCallId content
    | .ok _ => turn.recordToolResultFor toolCallId (.str content))

/-- The message for the result of a tool call. -/
def resultMessage (toolName toolCallId : Str) (outcome : Agent.ToolOutcome) : ChatMessage :=
  (Agent.processToolResult env.chat toolName toolCallId outcome).2

/-- Whether a deferred call needs approval, and whether it may be approved for good. -/
def deferredNeeds (w : World) (tool : Agent.Tool) (tc : ToolCall) : Bool × Bool :=
  if env.chat.autoApproveTools then (false, true)
  else
    match tool.requiresApproval tc.arguments with
    | .never => (false, true)
    | .unlessAutoApproved => (!w.autoApproved.contains tc.name, true)
    | .always => (true, false)

/-- One deferred call is classified; the first that needs approval ends the walk. -/
def preflightStep (w : World) (p : PendingApproval) (context : List ChatMessage) (runnable : List ToolCall) :
    List ToolCall → ApprovalPc
  | [] => .runDeferred p context runnable none
  | tc :: rest =>
    match env.chat.getTool tc.name with
    | none => .preflight p context (runnable ++ [tc]) rest
    | some tool =>
      let needs := deferredNeeds env w tool tc
      if needs.1 then .runDeferred p context runnable (some ⟨tc, tool, needs.2, rest⟩)
      else .preflight p context (runnable ++ [tc]) rest

/-- The results of the runnable calls in their order; a task that ended without one has failed. -/
def deferredResults (runnable : List ToolCall) (outcomes : List Agent.ToolOutcome) :
    List (ToolCall × Agent.ToolOutcome) :=
  runnable.mapIdx fun i tc =>
    (tc, outcomes[i]?.getD (.error (Agent.executionFailed tc.name "Task failed during execution")))

/-- The request for a deferred call that needs approval. -/
def newPending (p : PendingApproval) (context : List ChatMessage) (needed : Needed) : Agent.PendingApproval where
  toolName := needed.tc.name
  parameters := needed.tc.arguments
  displayParameters := Agent.redactParams needed.tc.arguments needed.tool.sensitiveParams
  description := needed.tool.description
  toolCallId := needed.tc.id
  contextMessages := context
  deferredToolCalls := needed.rest
  userTimezone := p.userTimezone
  allowAlways := needed.allowAlways

/-- `handle_auth_intercept`. -/
def authStep (w : World) (extName instructions : Str) : World :=
  w.settle ((w.thread.enterAuthMode extName).completeTurn instructions)

def approvalStep (w : World) (answer : Answer) : ApprovalPc → World × ApprovalPc
  | .take requestId approved always => takeStep w requestId approved always
  | .restore p => (w.await p, .returned (.error REQUEST_MISMATCH))
  | .autoApprove p => ({ w with autoApproved := p.toolName :: w.autoApproved }, .setProcessing p)
  | .setProcessing p => (w.settle { w.thread with state := .processing }, .execute p)
  | .execute p => ({ w with log := .executed p.requestId :: w.log }, .record p answer.tool)
  | .record p outcome =>
    let w := { w with thread := recordResult env w.thread p.toolName p.toolCallId outcome }
    match Agent.checkAuthRequired env.chat p.toolName outcome with
    | some (extName, instructions) => (w, .authIntercept extName instructions)
    | none =>
      (w, .preflight p (p.contextMessages ++ [resultMessage env p.toolName p.toolCallId outcome]) []
        p.deferredToolCalls)
  | .authIntercept extName instructions => (authStep w extName instructions, .returned (.response instructions))
  | .preflight p context runnable rest => (w, preflightStep env w p context runnable rest)
  | .runDeferred p context runnable needed =>
    (w, .recordDeferred p context (deferredResults runnable answer.deferred) needed none)
  | .recordDeferred p context ((tc, outcome) :: results) needed auth =>
    let w := { w with thread := recordResult env w.thread tc.name tc.id outcome }
    let context := context ++ [resultMessage env tc.name tc.id outcome]
    match auth, Agent.checkAuthRequired env.chat tc.name outcome with
    | none, some (extName, instructions) => (w, .deferredAuth p context results needed extName instructions)
    | auth, _ => (w, .recordDeferred p context results needed auth)
  | .recordDeferred _ _ [] _ (some instructions) => (w, .returned (.response instructions))
  | .recordDeferred p context [] (some needed) none => (w, .awaitNew p context needed)
  | .recordDeferred _ context [] none none => (w, .loop context)
  | .deferredAuth p context results needed extName instructions =>
    (authStep w extName instructions, .recordDeferred p context results needed (some instructions))
  | .awaitNew p context needed =>
    let pending := newPending p context needed
    (w.awaitNew pending, .returned (needApproval w.nextRequest pending))
  | .loop context =>
    match answer.loop with
    | none => (workStep w answer, .loop context)
    | some result => (w, .finish result)
  | .finish (.ok (.response text)) =>
    let response := env.extractSuggestions text
    (w.settle (w.thread.completeTurn response), .returned (.response response))
  | .finish (.ok (.needApproval p)) => (w.awaitNew p, .returned (needApproval w.nextRequest p))
  | .finish (.error e) => (w.settle (w.thread.failTurn e), .returned (.error e))
  | .reject p =>
    (w.settle (w.thread.clearPendingApproval.completeTurn (rejection p.toolName)),
      .returned (.response (rejection p.toolName)))
  | .returned result => (w, .returned result)

/-! ## The other handlers -/

/-- The cancellations are counted when the request is taken. -/
def ApprovalPc.sinceNow (w : World) (since : Nat) : ApprovalPc → Nat
  | .take _ _ _ => cancels w.log
  | _ => since

/-- The thread is interrupted, cleared or undone, and the queue is emptied or kept. -/
def World.cancel (w : World) (thread : Thread) (discarded : List Message) : World :=
  { w with thread := thread, log := .cancelled :: .discarded (Delivery.ids discarded) :: w.log }

def processInterrupt (w : World) : World :=
  if w.thread.state = .processing ∨ w.thread.state = .awaitingApproval then
    w.cancel w.thread.interrupt w.thread.pendingMessages
  else w

def processClear (w : World) : World :=
  { w.cancel w.thread.clear w.thread.pendingMessages with undo := w.undo.clear }

def processUndo (w : World) (checkpointId : Nat) : World :=
  match w.undo.undo checkpointId w.thread.turnNumber (w.thread.messages env.json) with
  | (none, _) => w
  | (some checkpoint, mgr) => { w.cancel (w.thread.restoreFromMessages checkpoint.messages) [] with undo := mgr }

/-- The next step of a call. -/
def callStep (w : World) (answer : Answer) : Call → World × Call
  | .input pc => ((inputStep env w answer pc).1, .input (inputStep env w answer pc).2)
  | .approval since pc =>
    ((approvalStep env w answer pc).1, .approval (pc.sinceNow w since) (approvalStep env w answer pc).2)

def step (w : World) : Label → World
  | .userInput content attachments augmented =>
    { w with calls := w.calls ++ [.input (.snapshot (newJob content attachments augmented))] }
  | .approval requestId approved always =>
    { w with calls := w.calls ++ [.approval 0 (.take requestId approved always)] }
  | .interrupt => processInterrupt w
  | .clear => processClear w
  | .undo checkpointId => processUndo env w checkpointId
  | .advance i answer =>
    match w.calls[i]? with
    | none => w
    | some call => { (callStep env w answer call).1 with calls := w.calls.set i (callStep env w answer call).2 }

end Step

/-- Taking a request changes at most the request of the thread. -/
theorem takeStep_fst (w : World) (requestId : Option Nat) (approved always : Bool) :
    (takeStep w requestId approved always).1 = w ∨
      (takeStep w requestId approved always).1 = { w with thread := w.thread.takePendingApproval.2 } := by
  unfold takeStep
  split
  · exact .inl rfl
  · simp only
    split
    · exact .inr rfl
    · split
      · exact .inr rfl
      · split
        · split <;> exact .inr rfl
        · exact .inr rfl

/-- A new thread. -/
def initial : World := ⟨.new, .new, [], [], 0, 0, []⟩

/-! ## Examples of runs -/

/-- No input is rejected, the commands begin with a slash, and the texts stay as they are. -/
def desk : Env where
  chat := Agent.gateway
  json := ⟨fun _ => .error "expected value at line 1 column 1".toList, fun _ => "null".toList⟩
  rejects _ := none
  isCommand text := "/".toList.isPrefixOf text
  extractSuggestions text := text
  transformResponse text := text

/-- A step with nothing special from outside. -/
def calm : Answer := ⟨.ok none, none, id, none, none, .ok "done".toList, [], 0⟩

/-- The steps of a user message from its start to the end of the agentic loop. -/
def turnOf (i : Nat) (result : LoopResult) : List Label :=
  List.replicate 5 (.advance i calm) ++ [.advance i { calm with loop := some result }, .advance i calm]

end Ironclaw.Session

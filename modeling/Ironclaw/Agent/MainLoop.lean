import Ironclaw.Agent.Commands

/-!
# The main loop

`Agent::run` takes one message after another, gives it to `handle_message` and sends what comes back. No text that comes
back stands for a shutdown. What is outside the loop (hooks, stores, models, other tasks that act on the thread) is part
of the incoming message: the steps of a handler come with the surroundings of each step.
-/

namespace Ironclaw.Agent

open Text Session Commands

/-! ## Incoming messages -/

structure IncomingMessage where
  channel : Str
  content : Str
  isInternal : Bool
  metadata : Json
  conversationScopeId : Option Str
  threadId : Option Str
  attachments : Bool

def IncomingMessage.conversationScope (message : IncomingMessage) : Option Str :=
  message.conversationScopeId.or message.threadId

def isSingleMessageRepl (message : IncomingMessage) : Bool :=
  message.channel == "repl".toList &&
    ((message.metadata.get "single_message_mode".toList).bind Json.asBool).getD false

/-- The end of a run of hooks. -/
inductive HookRun
  | rejected (reason : Str)
  | failed (error : Str)
  | proceed (modified : Option Str)

structure PendingAuth where
  extensionName : Str
  expired : Bool

/-- The surroundings of one step of a handler; the session may have lost the thread. -/
structure Tick where
  env : Env
  world : World
  answer : Answer
  services : Services
  gone : Bool

/-- A message with all that its handling finds outside. -/
structure Incoming where
  message : IncomingMessage
  readers : Readers
  inbound : HookRun
  /-- `maybe_hydrate_thread`: why the thread is rejected. -/
  hydration : Option Str
  /-- The thread that is resolved, its checkpoints and what the commands find. -/
  view : ThreadView
  services : Services
  pendingAuth : Option PendingAuth
  /-- `configure_token` of the extension manager: the text of its result or of its error. -/
  configureToken : Option (Str → Except Str Str)
  /-- How many routines of the engine a text fires. -/
  fired : Option (Str → Nat)
  augmented : Option Str
  newThreadId : Nat
  ticks : List Tick
  /-- The state of the thread after the handler. -/
  stateAfter : Option ThreadState
  outbound : HookRun

section Handle

variable (m : Incoming)

/-! ## The handlers -/

/-- The steps of a user message that fail when the thread is gone. -/
def needsThread : InputPc → Bool
  | .snapshot _ => true
  | .compact _ => true
  | .checkpoint _ => true
  | .start _ => true
  | .finish _ _ => true
  | _ => false

/-- A step of `process_user_input` and the drain loop. -/
def inputTick (pc : InputPc) (t : Tick) : Except Str InputPc :=
  if t.gone && needsThread pc then .error (jobNotFound t.services m.view.id)
  else
    match pc with
    | .enqueue job =>
      if t.gone then .ok (.processed job (fail "Thread no longer exists."))
      else .ok (inputStep t.env t.world t.answer (.enqueue job)).2
    | .validate job =>
      match t.env.rejects job.message.text, Router.routeCommand m.readers.case job.message.text with
      | some reason, _ => .ok (.processed job (.error reason))
      | none, some intent => (handleJobOrCommand t.services intent m.message.channel).map (.processed job)
      | none, none => .ok (.compact job)
    | .processed job result =>
      if t.gone then .ok (.returned result) else .ok (inputStep t.env t.world t.answer (.processed job result)).2
    | pc => .ok (inputStep t.env t.world t.answer pc).2

def approvalNeedsThread : ApprovalPc → Bool
  | .take _ _ _ => true
  | .finish _ => true
  | _ => false

/-- A step of `process_approval`. -/
def approvalTick (pc : ApprovalPc) (t : Tick) : Except Str ApprovalPc :=
  if t.gone && approvalNeedsThread pc then .error (jobNotFound t.services m.view.id)
  else .ok (approvalStep t.env t.world t.answer pc).2

/-- The steps of a handler, up to an error. -/
def walk {Pc : Type} (tick : Pc → Tick → Except Str Pc) (start : Pc) (ticks : List Tick) : Except Str Pc :=
  ticks.foldlM tick start

/-- A handler fails, returns, or is still under way. -/
def outcome {Pc : Type} (returned? : Pc → Option SubmissionResult) :
    Except Str Pc → Option (Except Str SubmissionResult)
  | .error e => some (.error e)
  | .ok pc => (returned? pc).map .ok

theorem walk_concat {Pc : Type} {tick : Pc → Tick → Except Str Pc} (start : Pc) (ticks : List Tick) (t : Tick) :
    walk tick start (ticks ++ [t]) = walk tick start ticks >>= fun pc => tick pc t := by
  simp [walk, List.foldlM_append]

/-- A handler that has returned takes no more steps. -/
theorem walk_fixed {Pc : Type} {tick : Pc → Tick → Except Str Pc} {pc : Pc} (hfixed : ∀ t, tick pc t = .ok pc) :
    ∀ ticks : List Tick, walk tick pc ticks = .ok pc
  | [] => rfl
  | t :: ticks => by
    rw [walk, List.foldlM_cons, hfixed]
    exact walk_fixed hfixed ticks

/-- The steps before one step, that step and the steps after it. -/
theorem walk_at {Pc : Type} {tick : Pc → Tick → Except Str Pc} {start pc pc' : Pc} {pre post : List Tick} {t : Tick}
    (hpre : walk tick start pre = .ok pc) (hstep : tick pc t = .ok pc') :
    walk tick start (pre ++ t :: post) = walk tick pc' post := by
  unfold walk at hpre ⊢
  rw [List.foldlM_append, hpre]
  show List.foldlM tick pc (t :: post) = _
  rw [List.foldlM_cons, hstep]
  rfl

theorem outcome_ok {Pc : Type} {returned? : Pc → Option SubmissionResult} {x : Except Str Pc}
    {result : SubmissionResult} (h : outcome returned? x = some (.ok result)) :
    ∃ pc, x = .ok pc ∧ returned? pc = some result := by
  cases x with
  | error e => cases h
  | ok pc =>
    obtain ⟨r, hr, heq⟩ := Option.map_eq_some_iff.mp h
    cases heq
    exact ⟨pc, rfl, hr⟩

def inputReturned? : InputPc → Option SubmissionResult
  | .returned result => some result
  | _ => none

def approvalReturned? : ApprovalPc → Option SubmissionResult
  | .returned result => some result
  | _ => none

def inputStart (content : Str) : InputPc := .snapshot (newJob content m.message.attachments m.augmented)

def processUserInput (content : Str) : Option (Except Str SubmissionResult) :=
  outcome inputReturned? (walk (inputTick m) (inputStart m content) m.ticks)

def processApproval (requestId : Option Nat) (approved always : Bool) : Option (Except Str SubmissionResult) :=
  outcome approvalReturned? (walk (approvalTick m) (.take requestId approved always) m.ticks)

/-! ## Before the handlers -/

/-- The hooks for inbound messages see user input only. -/
def inboundHook : Submission → Except (Option Str) Submission
  | .userInput content =>
    match m.inbound with
    | .rejected reason => .error (some ("[Message rejected: ".toList ++ reason ++ "]".toList))
    | .failed err => .error (some ("[Message blocked by hook policy: ".toList ++ err ++ "]".toList))
    | .proceed modified => .ok (.userInput (modified.getD content))
  | submission => .ok submission

def hydrate : Except (Option Str) Unit :=
  match m.message.conversationScope.bind fun _ => m.hydration with
  | some rejection => .error (some ("Error: ".toList ++ rejection))
  | none => .ok ()

def processAuthToken (token : Str) : Str :=
  match m.configureToken with
  | none => "Extension manager not available.".toList
  | some configureToken =>
    match configureToken (trim token) with
    | .ok message => message
    | .error message => message

/-- Auth mode: user input is a token; anything else ends auth mode. -/
def authMode : Submission → Except (Option Str) Unit
  | .userInput content =>
    match m.pendingAuth with
    | none => .ok ()
    | some pending =>
      if pending.expired then
        .error (some ("Authentication for **".toList ++ pending.extensionName ++
          "** expired. Please try again.".toList))
      else .error (some (processAuthToken m content))
  | _ => .ok ()

/-- User input that fires a routine is consumed. -/
def eventTriggers : Submission → Except (Option Str) Unit
  | .userInput content =>
    match m.fired with
    | none => .ok ()
    | some fired =>
      if 0 < fired content then .error (if isSingleMessageRepl m.message then none else some []) else .ok ()
  | _ => .ok ()

/-- What `handle_message` does before it comes to the submission; an exception is an early return. -/
def intake : Except (Option Str) Submission :=
  if m.message.isInternal then .error (some m.message.content)
  else do
    let submission ← inboundHook m (SubmissionParser.parse m.readers m.message.content)
    hydrate m
    authMode m submission
    eventTriggers m submission
    return submission

/-! ## After the handlers -/

/-- The result as a text; no text stands for a shutdown. -/
def convert : SubmissionResult → Option Str
  | .response content => if isSilentReply content then none else some content
  | .ok message =>
    let shouldExit := message == some [] && isSingleMessageRepl m.message && m.stateAfter != some .awaitingApproval
    if shouldExit then none else message
  | .error message => some ("Error: ".toList ++ message)
  | .interrupted => some "Interrupted.".toList
  | .needApproval _ _ _ _ _ => some []

/-- `/reasoning` returns its text at once. -/
def reasoningOutput (args : List Str) : Option Str :=
  match handleReasoningCommand m.view args with
  | .response content => some content
  | .ok message => message
  | .error message => some ("Error: ".toList ++ message)
  | _ => if isSingleMessageRepl m.message then none else some []

/-- The result of a submission, apart from those that return at once. -/
def submissionResult : Submission → Option (Except Str SubmissionResult)
  | .userInput content => processUserInput m content
  | .execApproval requestId approved always => processApproval m (some requestId) approved always
  | .approvalResponse approved always => processApproval m none approved always
  | .interrupt => some (interruptResult m.services m.view)
  | .compact => some (compactResult m.services m.view)
  | .undo => some (undoResult m.services m.view)
  | .redo => some (redoResult m.services m.view)
  | .resume checkpointId => some (resumeResult m.services m.view checkpointId)
  | .clear => some (clearResult m.services m.view)
  | .switchThread threadId => some (.ok (switchThreadResult m.services m.view threadId))
  | .newThread => some (.ok (newThreadResult m.services m.newThreadId))
  | .heartbeat => some (.ok (processHeartbeat m.services))
  | .summarize => some (processSummarize m.services m.view)
  | .suggest => some (processSuggest m.services m.view)
  | .jobStatus jobId => some (.ok (processJobStatus m.services jobId))
  | .jobCancel jobId => some (.ok (processJobCancel m.services jobId))
  | .systemCommand command args => some (.ok (handleSystemCommand m.services command args m.message.channel))
  | .quit => none

/-- The answer to a submission. -/
def answerSubmission : Submission → Option (Except Str (Option Str))
  | .quit => some (.ok none)
  | .systemCommand command args =>
    if command = "reasoning".toList then some (.ok (reasoningOutput m args))
    else (submissionResult m (.systemCommand command args)).map (Except.map (convert m))
  | submission => (submissionResult m submission).map (Except.map (convert m))

/-- `handle_message`; nothing while a handler is under way. -/
def handleMessage : Option (Except Str (Option Str)) :=
  match intake m with
  | .error out => some (.ok out)
  | .ok submission => answerSubmission m submission

/-- The hooks for outbound messages may change or suppress a response. -/
def outgoing (response : Str) : List Str :=
  match m.outbound with
  | .rejected _ => []
  | .failed _ => []
  | .proceed modified => [modified.getD response]

end Handle

/-! ## The loop -/

inductive LoopInput
  | ctrlC
  | streamsEnded
  | message (m : Incoming)

inductive LoopStatus
  | listening
  | handling
  | left
  deriving DecidableEq

/-- The loop and the responses that it has sent. -/
structure Loop where
  status : LoopStatus
  sent : List Str

def Loop.start : Loop := ⟨.listening, []⟩

/-- One round of the loop. A message whose handler is under way keeps it from the next one. -/
def mainStep (l : Loop) (input : LoopInput) : Loop :=
  if l.status = .listening then
    match input with
    | .ctrlC => { l with status := .left }
    | .streamsEnded => { l with status := .left }
    | .message m =>
      match handleMessage m with
      | none => { l with status := .handling }
      | some (.ok (some response)) => if response.isEmpty then l else { l with sent := l.sent ++ outgoing m response }
      | some (.ok none) => { l with status := .left }
      | some (.error e) => { l with sent := l.sent ++ ["Error: ".toList ++ e] }
  else l

end Ironclaw.Agent

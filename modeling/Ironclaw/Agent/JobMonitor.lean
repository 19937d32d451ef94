import Ironclaw.Context.Manager
import Ironclaw.Lib.Broadcast
import Ironclaw.Orchestrator.Api

/-!
# The job monitor

A task that follows the events of one sandbox job on the channel of the orchestrator. It passes what the job says on to
the agent loop, and when the job reports its result, it moves the job's context to its final state and stops. Without a
route it only waits for the result. The channel keeps the last events only, and the receiver of the agent loop may be
gone.

- `inv_step`: what was passed on is the report of the events that were received;
- `monitor_reports`: which events these are, and who sent them;
- `job_released`: the job keeps its slot until its result is received.
-/

namespace Ironclaw.Agent.JobMonitor

open Text Broadcast Run Orchestrator.Api Context

/-- The capacity of the channel of job events. -/
def CAPACITY : Nat := 256

structure JobMonitorRoute where
  channel : Str
  userId : Str
  threadId : Option Str

/-- `IncomingMessage`, as far as the monitor sets it. -/
structure IncomingMessage where
  channel : Str
  userId : Str
  content : Str
  threadId : Option Str
  conversationScopeId : Option Str
  isInternal : Bool
  deriving DecidableEq

/-- An internal message for the route. -/
def JobMonitorRoute.message (route : JobMonitorRoute) (content : Str) : IncomingMessage where
  channel := route.channel
  userId := route.userId
  content := content
  threadId := route.threadId
  conversationScopeId := route.threadId
  isInternal := true

/-- What the task does with an event. -/
inductive Reaction
  | skip
  | inject (message : IncomingMessage)
  | finish (status : Str) (message : Option IncomingMessage)

/-- An event of the channel: the job, the user, and the event itself. -/
abbrev Event := Nat × Str × AppEvent

section React

variable (uuid : UuidText) (jobId : Nat)

def shortId : Str := (uuid.display jobId).take 8

/-- The loop of `spawn_job_monitor_with_context`. -/
def monitorReaction (route : JobMonitorRoute) (e : Event) : Reaction :=
  if e.1 ≠ jobId then .skip
  else
    match e.2.2 with
    | .jobMessage _ role content =>
      if role = "assistant".toList then
        .inject (route.message ("[Job ".toList ++ shortId uuid jobId ++ "] Claude Code: ".toList ++ content))
      else .skip
    | .jobResult _ status _ _ =>
      .finish status (some (route.message
        ("[Job ".toList ++ shortId uuid jobId ++ "] Container finished (status: ".toList ++ status ++ ")".toList)))
    | _ => .skip

/-- The loop of `spawn_completion_watcher`. -/
def watcherReaction (e : Event) : Reaction :=
  match e.2.2 with
  | .jobResult _ status _ _ => if e.1 = jobId then .finish status none else .skip
  | _ => .skip

/-- The task that `execute_sandbox` starts: a monitor if there is a route, else a watcher. -/
def reaction (route : Option JobMonitorRoute) (e : Event) : Reaction :=
  match route with
  | some route => monitorReaction uuid jobId route e
  | none => watcherReaction jobId e

end React

/-- The final state of a job with a status. -/
def target (status : Str) : JobState := if status = "completed".toList then .completed else .failed

def finishReason (status : Str) : Option Str :=
  if status ≠ "completed".toList then some ("Container finished: ".toList ++ status) else none

/-- Where the task is: at the channel, or with a message for the agent loop, the last one or not, or at its end. -/
inductive Phase
  | waiting
  | sending (message : IncomingMessage) (last : Bool)
  | done

/-- The orchestrator, the contexts of the jobs, the agent loop's end of the inject channel with what was sent there, and
the task. -/
structure System where
  api : OrchestratorState
  contexts : ContextManager
  injectOpen : Bool
  injected : List IncomingMessage
  receiver : Receiver
  phase : Phase

/-- The task starts: it subscribes to the channel. -/
def spawn (api : OrchestratorState) (contexts : ContextManager) : System :=
  ⟨api, contexts, true, [], subscribe api.sent, .waiting⟩

/-- A step: of the orchestrator, of another thread on the contexts, of the agent loop that goes, or of the task. -/
inductive Label
  | api (l : OrchestratorState.Label)
  | manager (op : ManagerOp)
  | closeInject
  | advance (clock : JobContext.Clock)

section Machine

variable (uuid : UuidText) (jobId : Nat) (route : Option JobMonitorRoute)

/-- The next step of the task. -/
def advance (s : System) (clock : JobContext.Clock) : System :=
  match s.phase with
  | .waiting =>
    let answer := recv CAPACITY s.api.sent s.receiver
    match answer.1 with
    | .value e =>
      match reaction uuid jobId route e with
      | .skip => { s with receiver := answer.2 }
      | .inject message => { s with receiver := answer.2, phase := .sending message false }
      | .finish status message =>
        { s with
          receiver := answer.2
          contexts := ManagerOp.apply s.contexts
            (.updateContext jobId (.transitionTo clock (target status) (finishReason status)))
          phase := match message with
            | some message => .sending message true
            | none => .done }
    | _ => { s with receiver := answer.2 }
  | .sending message last =>
    if s.injectOpen then
      { s with injected := s.injected ++ [message], phase := if last then .done else .waiting }
    else { s with phase := .done }
  | .done => s

def step (s : System) : Label → System
  | .api l => { s with api := s.api.step uuid l }
  | .manager op => { s with contexts := ManagerOp.apply s.contexts op }
  | .closeInject => { s with injectOpen := false }
  | .advance clock => advance uuid jobId route s clock

/-! ## Reports -/

/-- What is passed on of some events, up to the result. -/
def reports : List Event → List IncomingMessage
  | [] => []
  | e :: es =>
    match reaction uuid jobId route e with
    | .skip => reports es
    | .inject message => message :: reports es
    | .finish _ message => message.toList

/-- The status of the first result. -/
def outcome : List Event → Option Str
  | [] => none
  | e :: es =>
    match reaction uuid jobId route e with
    | .finish status _ => some status
    | _ => outcome es

end Machine

/-- The message on its way. -/
def Phase.outgoing : Phase → List IncomingMessage
  | .sending message _ => [message]
  | _ => []

/-- The task will go back to the channel. -/
def Phase.running : Phase → Bool
  | .waiting => true
  | .sending _ last => !last
  | .done => false

section Reports

variable {uuid : UuidText} {jobId : Nat} {route : Option JobMonitorRoute}

theorem reports_append : ∀ {es : List Event}, outcome uuid jobId route es = none → ∀ e : Event,
    reports uuid jobId route (es ++ [e]) = reports uuid jobId route es ++ reports uuid jobId route [e]
  | [], _, _ => rfl
  | e' :: es, h, e => by
    rw [outcome] at h
    rw [List.cons_append, reports, reports]
    cases hreact : reaction uuid jobId route e' with
    | finish status message =>
      rw [hreact] at h
      cases h
    | skip =>
      rw [hreact] at h
      exact reports_append h e
    | inject message =>
      rw [hreact] at h
      exact congrArg (message :: ·) (reports_append h e)

theorem outcome_append : ∀ {es : List Event}, outcome uuid jobId route es = none → ∀ e : Event,
    outcome uuid jobId route (es ++ [e]) = outcome uuid jobId route [e]
  | [], _, _ => rfl
  | e' :: es, h, e => by
    rw [outcome] at h
    rw [List.cons_append, outcome]
    cases hreact : reaction uuid jobId route e' with
    | finish status message =>
      rw [hreact] at h
      cases h
    | _ =>
      rw [hreact] at h
      exact outcome_append h e

/-- Only events of the job are passed on. -/
theorem reports_skip {e : Event} (h : e.1 ≠ jobId) : reports uuid jobId route [e] = [] := by
  cases route with
  | none =>
    cases hevent : e.2.2 <;> simp [reports, reaction, watcherReaction, hevent, h]
  | some route => simp [reports, reaction, monitorReaction, h]

/-- What is passed on comes from one of the events. -/
theorem mem_reports {message : IncomingMessage} : ∀ {es : List Event}, message ∈ reports uuid jobId route es →
    ∃ e ∈ es, e.1 = jobId ∧ message ∈ reports uuid jobId route [e]
  | [], h => by cases h
  | e :: es, h => by
    have hone : message ∈ reports uuid jobId route [e] → ∃ e' ∈ e :: es, e'.1 = jobId ∧
        message ∈ reports uuid jobId route [e'] := by
      intro hmem
      refine ⟨e, List.mem_cons_self, ?_, hmem⟩
      by_contra hne
      rw [reports_skip hne] at hmem
      cases hmem
    have hrest : message ∈ reports uuid jobId route es → ∃ e' ∈ e :: es, e'.1 = jobId ∧
        message ∈ reports uuid jobId route [e'] := by
      intro hmem
      obtain ⟨e', he', hjob, hmem'⟩ := mem_reports hmem
      exact ⟨e', List.mem_cons_of_mem _ he', hjob, hmem'⟩
    rw [reports] at h hone
    cases hreact : reaction uuid jobId route e with
    | skip =>
      rw [hreact] at h
      exact hrest h
    | inject message' =>
      rw [hreact] at h hone
      rcases List.mem_cons.mp h with rfl | h
      · exact hone List.mem_cons_self
      · exact hrest h
    | finish status message' =>
      rw [hreact] at h hone
      exact hone h

/-! ## The invariant -/

/-- The task agrees with the events that it has received. -/
structure Inv (uuid : UuidText) (jobId : Nat) (route : Option JobMonitorRoute) (s : System) : Prop where
  ok : s.receiver.Ok CAPACITY s.api.sent
  start_le : s.receiver.start ≤ s.receiver.next
  running : s.phase.running = true → outcome uuid jobId route (s.receiver.messages s.api.sent) = none
  reports : s.injected ++ s.phase.outgoing = reports uuid jobId route (s.receiver.messages s.api.sent) ∨
    s.injectOpen = false ∧ s.phase.outgoing = [] ∧ s.phase.running = false ∧
      s.injected <+: JobMonitor.reports uuid jobId route (s.receiver.messages s.api.sent)

theorem inv_api {s : System} (h : Inv uuid jobId route s) (l : OrchestratorState.Label) :
    Inv uuid jobId route { s with api := s.api.step uuid l } := by
  rcases OrchestratorState.sent_cases uuid s.api l with hsent | ⟨e, hsent⟩
  · refine ⟨?_, h.start_le, ?_, ?_⟩ <;> dsimp only <;> rw [hsent]
    · exact h.ok
    · exact h.running
    · exact h.reports
  · have hmessages := Receiver.messages_send h.ok e
    refine ⟨?_, h.start_le, ?_, ?_⟩ <;> dsimp only <;> rw [hsent]
    · exact h.ok.send e
    · rw [hmessages]
      exact h.running
    · rw [hmessages]
      exact h.reports

/-- What one step of the task does. -/
theorem advance_cases (uuid : UuidText) (jobId : Nat) (route : Option JobMonitorRoute) (s : System)
    (clock : JobContext.Clock) :
    (s.phase = .waiting ∧ (recv CAPACITY s.api.sent s.receiver).1.toList = [] ∧ advance uuid jobId route s clock =
      { s with receiver := (recv CAPACITY s.api.sent s.receiver).2 }) ∨
    (∃ e, s.phase = .waiting ∧ (recv CAPACITY s.api.sent s.receiver).1.toList = [e] ∧
      reaction uuid jobId route e = .skip ∧
      advance uuid jobId route s clock = { s with receiver := (recv CAPACITY s.api.sent s.receiver).2 }) ∨
    (∃ e message, s.phase = .waiting ∧ (recv CAPACITY s.api.sent s.receiver).1.toList = [e] ∧
      reaction uuid jobId route e = .inject message ∧ advance uuid jobId route s clock =
        { s with receiver := (recv CAPACITY s.api.sent s.receiver).2, phase := .sending message false }) ∨
    (∃ e status message phase, s.phase = .waiting ∧ (recv CAPACITY s.api.sent s.receiver).1.toList = [e] ∧
      reaction uuid jobId route e = .finish status message ∧ phase.outgoing = message.toList ∧ phase.running = false ∧
      advance uuid jobId route s clock =
        { s with
          receiver := (recv CAPACITY s.api.sent s.receiver).2
          contexts := ManagerOp.apply s.contexts
            (.updateContext jobId (.transitionTo clock (target status) (finishReason status)))
          phase := phase }) ∨
    (∃ message last, s.phase = .sending message last ∧ s.injectOpen = true ∧ advance uuid jobId route s clock =
      { s with injected := s.injected ++ [message], phase := if last then .done else .waiting }) ∨
    (∃ message last, s.phase = .sending message last ∧ s.injectOpen = false ∧ advance uuid jobId route s clock =
      { s with phase := .done }) ∨
    s.phase = .done ∧ advance uuid jobId route s clock = s := by
  unfold advance
  cases hphase : s.phase with
  | waiting =>
    dsimp only
    cases hrecv : (recv CAPACITY s.api.sent s.receiver).1 with
    | value e =>
      dsimp only
      cases hreact : reaction uuid jobId route e with
      | skip => exact .inr (.inl ⟨e, rfl, rfl, hreact, rfl⟩)
      | inject message => exact .inr (.inr (.inl ⟨e, message, rfl, rfl, hreact, rfl⟩))
      | finish status message =>
        refine .inr (.inr (.inr (.inl ⟨e, status, message, _, rfl, rfl, hreact, ?_, ?_, rfl⟩))) <;>
          cases message <;> rfl
    | lagged missed => exact .inl ⟨rfl, rfl, rfl⟩
    | empty => exact .inl ⟨rfl, rfl, rfl⟩
  | sending message last =>
    dsimp only
    cases hopen : s.injectOpen with
    | true => exact .inr (.inr (.inr (.inr (.inl ⟨message, last, rfl, rfl, rfl⟩))))
    | false => exact .inr (.inr (.inr (.inr (.inr (.inl ⟨message, last, rfl, rfl, rfl⟩)))))
  | done => exact .inr (.inr (.inr (.inr (.inr (.inr ⟨rfl, rfl⟩)))))

/-- The reports of a task at the channel, which has passed on all that it was given. -/
theorem reports_waiting {s : System} (h : Inv uuid jobId route s) (hphase : s.phase = .waiting) :
    s.injected = reports uuid jobId route (s.receiver.messages s.api.sent) ∧
      outcome uuid jobId route (s.receiver.messages s.api.sent) = none := by
  refine ⟨?_, h.running (by rw [hphase]; rfl)⟩
  rcases h.reports with hreports | ⟨-, -, hrunning, -⟩
  · rw [hphase] at hreports
    exact (List.append_nil _).symm.trans hreports
  · rw [hphase] at hrunning
    cases hrunning

theorem inv_advance {s : System} (h : Inv uuid jobId route s) (clock : JobContext.Clock) :
    Inv uuid jobId route (advance uuid jobId route s clock) := by
  have hok := h.ok.recv h.start_le
  have hle : (recv CAPACITY s.api.sent s.receiver).2.start ≤ (recv CAPACITY s.api.sent s.receiver).2.next :=
    Receiver.start_le_recv h.start_le
  have hmessages := Receiver.messages_recv CAPACITY s.api.sent s.receiver
  rcases advance_cases uuid jobId route s clock with
    ⟨hphase, hnone, hs⟩ | ⟨e, hphase, hone, hreact, hs⟩ | ⟨e, message, hphase, hone, hreact, hs⟩ |
    ⟨e, status, message, phase, hphase, hone, hreact, hout, hrunning, hs⟩ | ⟨message, last, hphase, hopen, hs⟩ |
    ⟨message, last, hphase, hopen, hs⟩ | ⟨hphase, hs⟩ <;> rw [hs]
  · rw [hnone, List.append_nil] at hmessages
    refine ⟨hok, hle, ?_, ?_⟩ <;> dsimp only <;> rw [hmessages]
    · exact h.running
    · exact h.reports
  · obtain ⟨hreports, houtcome⟩ := reports_waiting h hphase
    rw [hone] at hmessages
    refine ⟨hok, hle, fun _ => ?_, .inl ?_⟩ <;> dsimp only <;> rw [hmessages]
    · rw [outcome_append houtcome, outcome, hreact]
      rfl
    · rw [reports_append houtcome, ← hreports, hphase, reports, hreact]
      rfl
  · obtain ⟨hreports, houtcome⟩ := reports_waiting h hphase
    rw [hone] at hmessages
    refine ⟨hok, hle, fun _ => ?_, .inl ?_⟩ <;> dsimp only <;> rw [hmessages]
    · rw [outcome_append houtcome, outcome, hreact]
      rfl
    · rw [reports_append houtcome, ← hreports, reports, hreact]
      rfl
  · obtain ⟨hreports, houtcome⟩ := reports_waiting h hphase
    rw [hone] at hmessages
    refine ⟨hok, hle, fun hrun => ?_, .inl ?_⟩ <;> dsimp only
    · exact absurd (hrunning.symm.trans hrun) Bool.false_ne_true
    · rw [hmessages, reports_append houtcome, ← hreports, reports, hreact, hout]
  · rcases h.reports with hreports | ⟨hclosed, -⟩
    · rw [hphase] at hreports
      have hrun := h.running
      rw [hphase] at hrun
      refine ⟨h.ok, h.start_le, ?_, .inl ?_⟩ <;> dsimp only
      · cases last with
        | false => exact fun _ => hrun rfl
        | true => exact fun hdone => by cases hdone
      · rw [← hreports]
        cases last <;> exact List.append_nil _
    · rw [hopen] at hclosed
      cases hclosed
  · refine ⟨h.ok, h.start_le, (fun hdone => by cases hdone), .inr ⟨hopen, rfl, rfl, ?_⟩⟩
    rcases h.reports with hreports | ⟨-, -, -, hinitial⟩
    · rw [← hreports]
      exact List.prefix_append _ _
    · exact hinitial
  · exact h

theorem inv_step {s : System} (h : Inv uuid jobId route s) (l : Label) :
    Inv uuid jobId route (step uuid jobId route s l) := by
  cases l with
  | api l => exact inv_api h l
  | manager op => exact ⟨h.ok, h.start_le, h.running, h.reports⟩
  | closeInject =>
    refine ⟨h.ok, h.start_le, h.running, ?_⟩
    rcases h.reports with hreports | ⟨-, hrest⟩
    · exact .inl hreports
    · exact .inr ⟨rfl, hrest⟩
  | advance clock => exact inv_advance h clock

theorem inv_spawn (api : OrchestratorState) (contexts : ContextManager) : Inv uuid jobId route (spawn api contexts) :=
  ⟨Receiver.ok_subscribe CAPACITY api.sent, le_refl _, fun _ => rfl, .inl rfl⟩

/-! ## What the task receives -/

/-- When the task asks the channel, it is not further behind than the channel keeps events. -/
def KeepsUp (s : System) : Label → Prop
  | .advance _ => s.phase = .waiting → s.api.sent.length ≤ s.receiver.next + CAPACITY
  | _ => True

/-- The receiver stays as it is, or it asks the channel. -/
theorem receiver_step (uuid : UuidText) (jobId : Nat) (route : Option JobMonitorRoute) (s : System) (l : Label) :
    (step uuid jobId route s l).receiver = s.receiver ∨ (∃ clock, l = .advance clock) ∧ s.phase = .waiting ∧
      (step uuid jobId route s l).receiver = (recv CAPACITY s.api.sent s.receiver).2 := by
  cases l with
  | advance clock =>
    rw [step]
    rcases advance_cases uuid jobId route s clock with
      ⟨hphase, -, hs⟩ | ⟨_, hphase, -, -, hs⟩ | ⟨_, _, hphase, -, -, hs⟩ | ⟨_, _, _, _, hphase, -, -, -, -, hs⟩ |
      ⟨_, _, -, -, hs⟩ | ⟨_, _, -, -, hs⟩ | ⟨-, hs⟩ <;> rw [hs]
    · exact .inr ⟨⟨clock, rfl⟩, hphase, rfl⟩
    · exact .inr ⟨⟨clock, rfl⟩, hphase, rfl⟩
    · exact .inr ⟨⟨clock, rfl⟩, hphase, rfl⟩
    · exact .inr ⟨⟨clock, rfl⟩, hphase, rfl⟩
    · exact .inl rfl
    · exact .inl rfl
    · exact .inl rfl
  | _ => exact .inl rfl

theorem start_run (labels : List Label) (s : System) :
    (run (step uuid jobId route) s labels).receiver.start = s.receiver.start := by
  induction labels generalizing s with
  | nil => rfl
  | cons l labels ih =>
    rw [run_cons, ih]
    rcases receiver_step uuid jobId route s l with hsame | ⟨-, -, hrecv⟩
    · rw [hsame]
    · rw [hrecv, Receiver.start_recv]

theorem full_step {s : System} {l : Label} (hkeeps : KeepsUp s l) (h : s.receiver.Full) :
    (step uuid jobId route s l).receiver.Full := by
  rcases receiver_step uuid jobId route s l with hsame | ⟨⟨clock, rfl⟩, hphase, hrecv⟩
  · rwa [hsame]
  · rw [hrecv]
    exact h.recv (hkeeps hphase)

/-- The steps of the orchestrator. -/
def apiLabels (labels : List Label) : List OrchestratorState.Label :=
  labels.filterMap fun
    | .api l => some l
    | _ => none

theorem api_run (labels : List Label) (s : System) : (run (step uuid jobId route) s labels).api =
    run (OrchestratorState.step uuid) s.api (apiLabels labels) := by
  induction labels generalizing s with
  | nil => rfl
  | cons l labels ih =>
    rw [run_cons, ih]
    cases l with
    | api l => rfl
    | advance clock =>
      have hapi : (step uuid jobId route s (.advance clock)).api = s.api := by
        rw [step]
        rcases advance_cases uuid jobId route s clock with
          ⟨-, -, hs⟩ | ⟨_, -, -, -, hs⟩ | ⟨_, _, -, -, -, hs⟩ | ⟨_, _, _, _, -, -, -, -, -, hs⟩ | ⟨_, _, -, -, hs⟩ |
          ⟨_, _, -, -, hs⟩ | ⟨-, hs⟩ <;> rw [hs]
      rw [hapi]
      rfl
    | _ => rfl

end Reports

/-- The events that the task has received. -/
def System.got (s : System) : List Event := s.receiver.messages s.api.sent

/-- **Reports.** In every run, what was passed on to the agent loop is the report of the events that the task has
received, all of it while the agent loop is there. The events are among those that were broadcast since the task was
started, in their order and each once; and all of them up to its position, if it keeps up. What is passed on was sent by
a request with the job's own token. -/
theorem monitor_reports (uuid : UuidText) (jobId : Nat) (route : Option JobMonitorRoute)
    (before : List OrchestratorState.Label) (contexts : ContextManager) (labels : List Label) :
    let api := run (OrchestratorState.step uuid) .new before
    let s := run (step uuid jobId route) (spawn api contexts) labels
    s.injected <+: reports uuid jobId route s.got ∧
      (s.injectOpen = true → s.injected ++ s.phase.outgoing = reports uuid jobId route s.got) ∧
      s.got.Sublist (s.api.sent.drop api.sent.length) ∧
      (Along (step uuid jobId route) KeepsUp (spawn api contexts) labels →
        s.got = (s.api.sent.drop api.sent.length).take (s.receiver.next - api.sent.length)) ∧
      ∀ message ∈ s.injected, ∃ e ∈ s.got, message ∈ reports uuid jobId route [e] ∧ ∃ request payload,
        OrchestratorState.Authenticated (before ++ apiLabels labels) jobId request ∧ request.payload = some payload ∧
        e.2.2 = appEvent (uuid.display jobId) payload := by
  intro api s
  have hinv : Inv uuid jobId route s :=
    run_inv_all (I := Inv uuid jobId route) (fun s l h => inv_step h l) labels (inv_spawn api contexts)
  have hstart : s.receiver.start = api.sent.length := start_run labels (spawn api contexts)
  have hinitial : s.injected <+: reports uuid jobId route s.got := by
    rcases hinv.reports with hreports | ⟨-, -, -, hinitial⟩
    · exact ⟨_, hreports⟩
    · exact hinitial
  have hsub : s.got.Sublist (s.api.sent.drop api.sent.length) := hstart ▸ hinv.ok.messages_sublist
  refine ⟨hinitial, fun hopen => ?_, hsub, fun hkeeps => ?_, fun message hmessage => ?_⟩
  · rcases hinv.reports with hreports | ⟨hclosed, -⟩
    · exact hreports
    · exact absurd (hclosed.symm.trans hopen) Bool.false_ne_true
  · have hfull : s.receiver.Full :=
      run_inv (G := KeepsUp) (I := fun s => s.receiver.Full) (fun s l hk h => full_step hk h) labels
        (Receiver.full_subscribe api.sent) hkeeps
    rw [← hstart]
    exact hinv.ok.messages_eq hinv.start_le hfull
  · obtain ⟨e, he, hjob, hmem⟩ := mem_reports (hinitial.subset hmessage)
    have hsent : e ∈ (run (OrchestratorState.step uuid) .new (before ++ apiLabels labels)).sent := by
      rw [run_append]
      have happ : s.api = run (OrchestratorState.step uuid) api (apiLabels labels) :=
        api_run labels (spawn api contexts)
      rw [← happ]
      exact List.mem_of_mem_drop (hsub.subset he)
    obtain ⟨request, payload, hauth, hpayload, hevent⟩ := OrchestratorState.authenticated_of_sent hsent
    rw [hjob] at hauth hevent
    exact ⟨e, he, hmem, request, payload, hauth, hpayload, hevent⟩

/-! ## The slot of the job -/

/-- The job that an operation on the contexts is about. -/
def targetJob : ManagerOp → Nat
  | .createJob jobId _ _ _ => jobId
  | .createJobForUser jobId _ _ _ _ => jobId
  | .registerSandboxJob jobId _ _ _ _ _ => jobId
  | .updateContext jobId _ => jobId
  | .removeJob jobId => jobId

theorem lookup_insertContext {m : ContextManager} {ctx : JobContext} {jobId : Nat} (hne : ctx.jobId ≠ jobId) :
    (((m.insertContext ctx).toOption).getD m).contexts.lookup jobId = m.contexts.lookup jobId := by
  unfold ContextManager.insertContext
  split
  · rfl
  · exact (Table.lookup_insert _ _ _ _).trans (if_neg fun h => hne h.symm)

/-- An operation leaves the contexts of other jobs as they are. -/
theorem lookup_apply {m : ContextManager} {op : ManagerOp} {jobId : Nat} (hne : targetJob op ≠ jobId) :
    (ManagerOp.apply m op).contexts.lookup jobId = m.contexts.lookup jobId := by
  have hne' : jobId ≠ targetJob op := fun h => hne h.symm
  cases op with
  | createJob id now title description => exact lookup_insertContext hne
  | createJobForUser id now userId title description => exact lookup_insertContext hne
  | registerSandboxJob id created started userId title description => exact lookup_insertContext hne
  | updateContext id op =>
    simp only [ManagerOp.apply, ContextManager.updateContext]
    cases m.contexts.lookup id with
    | none => rfl
    | some ctx => exact (Table.lookup_modify _ _ _ _).trans (if_neg hne')
  | removeJob id =>
    simp only [ManagerOp.apply, ContextManager.removeJob]
    cases m.contexts.lookup id with
    | none => rfl
    | some ctx => exact (Table.lookup_erase _ _ _).trans (if_neg hne')

/-- No other thread works on the context of the job. -/
def Spares (jobId : Nat) : Label → Prop
  | .manager op => targetJob op ≠ jobId
  | _ => True

/-- The state of a job after an outcome. -/
def stateAfter (outcome : Option Str) : JobState := (outcome.map target).getD .inProgress

theorem target_cases (status : Str) : target status = .completed ∨ target status = .failed := by
  unfold target
  split
  · exact .inl rfl
  · exact .inr rfl

/-- A job keeps its slot until there is an outcome. -/
theorem blocking_stateAfter (outcome : Option Str) : (stateAfter outcome).isParallelBlocking = true ↔
    outcome = none := by
  cases outcome with
  | none => exact iff_of_true rfl rfl
  | some status =>
    have hfree : (target status).isParallelBlocking = false := by
      rcases target_cases status with htarget | htarget <;> rw [htarget] <;> rfl
    refine iff_of_false (fun hblocking => ?_) (Option.some_ne_none status)
    exact absurd (hfree.symm.trans hblocking) Bool.false_ne_true

theorem canTransitionTo_target (status : Str) : JobState.inProgress.canTransitionTo (target status) = true := by
  rcases target_cases status with htarget | htarget <;> rw [htarget] <;> rfl

section Slot

variable {uuid : UuidText} {jobId : Nat} {route : Option JobMonitorRoute}

/-- The context of the job has the state of the outcome that the task has received. -/
def Tracked (uuid : UuidText) (jobId : Nat) (route : Option JobMonitorRoute) (s : System) : Prop :=
  ∃ ctx, s.contexts.contexts.lookup jobId = some ctx ∧ ctx.state = stateAfter (outcome uuid jobId route s.got)

/-- A result that is received moves the job out of progress. -/
theorem lookup_finish {m : ContextManager} {ctx : JobContext} (hctx : m.contexts.lookup jobId = some ctx)
    (hstate : ctx.state = .inProgress) (clock : JobContext.Clock) (status : Str) :
    ∃ ctx', (ManagerOp.apply m
      (.updateContext jobId (.transitionTo clock (target status) (finishReason status)))).contexts.lookup
      jobId = some ctx' ∧ ctx'.state = target status := by
  simp only [ManagerOp.apply, ContextManager.updateContext, hctx]
  refine ⟨_, (Table.lookup_modify _ _ _ _).trans ((if_pos rfl).trans (congrArg (Option.map _) hctx)), ?_⟩
  show (ctx.transitionTo clock (target status) (finishReason status)).2.state = target status
  rw [transitionTo_state, hstate, if_pos (canTransitionTo_target status)]

theorem tracked_advance {s : System} (hinv : Inv uuid jobId route s) (h : Tracked uuid jobId route s)
    (clock : JobContext.Clock) : Tracked uuid jobId route (advance uuid jobId route s clock) := by
  obtain ⟨ctx, hctx, hstate⟩ := h
  have hmessages := Receiver.messages_recv CAPACITY s.api.sent s.receiver
  rcases advance_cases uuid jobId route s clock with
    ⟨-, hnone, hs⟩ | ⟨e, hphase, hone, hreact, hs⟩ | ⟨e, message, hphase, hone, hreact, hs⟩ |
    ⟨e, status, message, phase, hphase, hone, hreact, -, -, hs⟩ | ⟨message, last, -, -, hs⟩ |
      ⟨message, last, -, -, hs⟩ |
    ⟨-, hs⟩ <;> rw [hs]
  · rw [hnone, List.append_nil] at hmessages
    refine ⟨ctx, hctx, hstate.trans ?_⟩
    rw [System.got, System.got, hmessages]
  · obtain ⟨-, houtcome⟩ := reports_waiting hinv hphase
    rw [hone] at hmessages
    refine ⟨ctx, hctx, hstate.trans ?_⟩
    rw [System.got, System.got, hmessages, outcome_append houtcome, houtcome, outcome, hreact]
    rfl
  · obtain ⟨-, houtcome⟩ := reports_waiting hinv hphase
    rw [hone] at hmessages
    refine ⟨ctx, hctx, hstate.trans ?_⟩
    rw [System.got, System.got, hmessages, outcome_append houtcome, houtcome, outcome, hreact]
    rfl
  · obtain ⟨-, houtcome⟩ := reports_waiting hinv hphase
    rw [System.got, houtcome] at hstate
    rw [hone] at hmessages
    obtain ⟨ctx', hctx', hstate'⟩ := lookup_finish hctx hstate clock status
    refine ⟨ctx', hctx', hstate'.trans ?_⟩
    rw [System.got, hmessages, outcome_append houtcome, outcome, hreact]
    rfl
  · exact ⟨ctx, hctx, hstate⟩
  · exact ⟨ctx, hctx, hstate⟩
  · exact ⟨ctx, hctx, hstate⟩

theorem tracked_step {s : System} (hinv : Inv uuid jobId route s) (h : Tracked uuid jobId route s) {l : Label}
    (hspares : Spares jobId l) : Tracked uuid jobId route (step uuid jobId route s l) := by
  cases l with
  | api l =>
    obtain ⟨ctx, hctx, hstate⟩ := h
    refine ⟨ctx, hctx, hstate.trans (congrArg (fun es => stateAfter (outcome uuid jobId route es)) ?_)⟩
    rcases OrchestratorState.sent_cases uuid s.api l with hsent | ⟨e, hsent⟩
    · exact congrArg s.receiver.messages hsent.symm
    · exact ((congrArg s.receiver.messages hsent).trans (Receiver.messages_send hinv.ok e)).symm
  | manager op =>
    obtain ⟨ctx, hctx, hstate⟩ := h
    exact ⟨ctx, (lookup_apply hspares).trans hctx, hstate⟩
  | closeInject => exact h
  | advance clock => exact tracked_advance hinv h clock

/-- A task that starts has no events yet. -/
theorem got_spawn (api : OrchestratorState) (contexts : ContextManager) : (spawn api contexts).got = [] := by
  simp [System.got, spawn, Receiver.messages, subscribe]

end Slot

/-- **The slot of a job.** In every run of the task for a job that was registered, while no other thread works on its
context, the job is in progress until the task has received its result, then in the state for the status; it keeps its
slot until then and no longer. -/
theorem job_released (uuid : UuidText) (jobId : Nat) (route : Option JobMonitorRoute) (api : OrchestratorState)
    {m contexts : ContextManager} {created started : Int} {userId title description : Str}
    (hregister : m.registerSandboxJob jobId created started userId title description = .ok contexts)
      (labels : List Label)
    (hspares : ∀ l ∈ labels, Spares jobId l) :
    let s := run (step uuid jobId route) (spawn api contexts) labels
    ∃ ctx, s.contexts.contexts.lookup jobId = some ctx ∧ ctx.state = stateAfter (outcome uuid jobId route s.got) ∧
      (ctx.state.isParallelBlocking = true ↔ outcome uuid jobId route s.got = none) := by
  intro s
  have hstart : Tracked uuid jobId route (spawn api contexts) := by
    unfold ContextManager.registerSandboxJob ContextManager.insertContext at hregister
    split at hregister
    · cases hregister
    · cases hregister
      refine ⟨_, (Table.lookup_insert _ _ _ _).trans (if_pos rfl), ?_⟩
      rw [got_spawn]
      rfl
  have hrun : Inv uuid jobId route s ∧ Tracked uuid jobId route s :=
    run_inv (G := fun _ l => Spares jobId l) (I := fun s => Inv uuid jobId route s ∧ Tracked uuid jobId route s)
      (fun s l hl h => ⟨inv_step h.1 l, tracked_step h.1 h.2 hl⟩) labels ⟨inv_spawn api contexts, hstart⟩
      (along_of_forall hspares)
  obtain ⟨-, ctx, hctx, hstate⟩ := hrun
  refine ⟨ctx, hctx, hstate, ?_⟩
  rw [hstate]
  exact blocking_stateAfter _

/-- The result of a job that has no route. -/
theorem job_released_completed :
    let path := "/worker/00000000-0000-0000-0000-000000000007/event".toList
    let payload : JobEventPayload := ⟨"result".toList, .obj [("status".toList, .str "completed".toList)]⟩
    let api := run (OrchestratorState.step OrchestratorState.oneJob) .new
      [.createToken 7 "t7".toList, .request ⟨.post, path, some "Bearer t7".toList, some payload⟩,
        .handle 0 (some "ann".toList) none]
    let contexts := ((ContextManager.new 1).registerSandboxJob 7 0 0 "ann".toList [] []).toOption.getD (.new 1)
    let s :=
      run (step OrchestratorState.oneJob 7 none) (spawn api contexts) [.api (.handle 0 none none), .advance ⟨1, 1⟩]
    ∃ ctx, s.contexts.contexts.lookup 7 = some ctx ∧ ctx.state = .completed := by
  intro path payload api contexts s
  have hregister : (ContextManager.new 1).registerSandboxJob 7 0 0 "ann".toList [] [] = .ok contexts := by rfl
  obtain ⟨ctx, hctx, hstate, -⟩ := job_released OrchestratorState.oneJob 7 none api hregister
    [.api (.handle 0 none none), .advance ⟨1, 1⟩] fun l hl => by
      rcases List.mem_cons.mp hl with rfl | hl
      · trivial
      · rw [List.mem_singleton.mp hl]
        trivial
  let e : Event := (7, "ann".toList, .jobResult (OrchestratorState.oneJob.display 7) "completed".toList none none)
  have hsent : (OrchestratorState.step OrchestratorState.oneJob api (.handle 0 none none)).sent = [e] := by rfl
  have hnew : subscribe api.sent = ⟨0, 0, []⟩ := by rfl
  have hrecv : recv CAPACITY [e] (subscribe api.sent) = (.value e, ⟨0, 1, [0]⟩) := by
    rw [hnew]
    simp [recv, oldest, CAPACITY]
  have hreact : reaction OrchestratorState.oneJob 7 none e = .finish "completed".toList none := by rfl
  have hgot : s.got = [e] := by
    simp [s, run, step, spawn, advance, hsent, hrecv, hreact, System.got, Receiver.messages]
  refine ⟨ctx, hctx, hstate.trans ?_⟩
  show stateAfter (outcome OrchestratorState.oneJob 7 none s.got) = .completed
  rw [hgot]
  rfl

end Ironclaw.Agent.JobMonitor

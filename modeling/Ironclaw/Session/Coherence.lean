import Ironclaw.Session.Queue

/-!
# Coherent threads

What the handlers do to a thread are operations under the lock of its session (`ThreadOp`). Each of them leaves the
turns numbered by their places. Each but one keeps that a thread that waits for approval has a request:
`process_approval` takes the request first and writes the state afterwards, when it has looked at it. The queue is
bounded when one handler is at work at a time: what a handler has drained and puts back is then counted once.

- `numbered_apply`, `waits_apply`: what an operation keeps;
- `ops_step`: what a step of the handlers does to the thread, in operations;
- `coherent_of_serial`: the invariants in every state of a run;
- `taken_request`: the thread after its request was taken.
-/

namespace Ironclaw.Session

open Text Llm Run

/-! ## The operations -/

/-- `resume`. -/
def Thread.resume (thread : Thread) : Thread :=
  if thread.state = .interrupted then { thread with state := .idle } else thread

/-- An operation on a thread under the lock of its session; the last four are writes that the handlers make
themselves. -/
inductive ThreadOp
  | startTurn (userInput : Str)
  | completeTurn (response : Str)
  | failTurn (error : Str)
  | awaitApproval (pending : PendingApproval)
  | takePendingApproval
  | clearPendingApproval
  | interrupt
  | resume
  | queueMessage (message : Message)
  | drainPendingMessages
  | requeueDrained (message : Message)
  | truncateTurns (keep : Nat)
  | restoreFromMessages (messages : List ChatMessage)
  | setProcessing
  | clear
  | enterAuthMode (extensionName : Str)
  | record (f : Agent.Turn → Agent.Turn)

def ThreadOp.apply (thread : Thread) : ThreadOp → Thread
  | .startTurn userInput => thread.startTurn userInput
  | .completeTurn response => thread.completeTurn response
  | .failTurn error => thread.failTurn error
  | .awaitApproval pending => thread.awaitApproval pending
  | .takePendingApproval => thread.takePendingApproval.2
  | .clearPendingApproval => thread.clearPendingApproval
  | .interrupt => thread.interrupt
  | .resume => thread.resume
  | .queueMessage message => (thread.queueMessage message).getD thread
  | .drainPendingMessages => thread.drainPendingMessages.2
  | .requeueDrained message => thread.requeueDrained message
  | .truncateTurns keep => thread.truncateTurns keep
  | .restoreFromMessages messages => thread.restoreFromMessages messages
  | .setProcessing => { thread with state := .processing }
  | .clear => thread.clear
  | .enterAuthMode extensionName => thread.enterAuthMode extensionName
  | .record f => thread.modifyLast (·.onRecord f)

/-- The operations one after the other. -/
def applyAll (thread : Thread) (ops : List ThreadOp) : Thread := ops.foldl ThreadOp.apply thread

def ThreadOp.isTake : ThreadOp → Bool
  | .takePendingApproval => true
  | _ => false

/-! ## The numbers of the turns -/

/-- The turns are numbered from a start on. -/
def Numbered (start : Nat) (turns : List Turn) : Prop := ∀ i turn, turns[i]? = some turn → turn.turnNumber = start + i

section Numbers

variable {start : Nat} {turns : List Turn}

theorem numbered_nil : Numbered start [] := nofun

theorem numbered_cons {turn : Turn} (hturn : turn.turnNumber = start) (h : Numbered (start + 1) turns) :
    Numbered start (turn :: turns) := by
  intro i turn' hi
  cases i with
  | zero =>
    cases hi
    exact hturn
  | succ i =>
    have hnumber := h i turn' hi
    omega

theorem numbered_concat (h : Numbered 0 turns) (userInput : Str) :
    Numbered 0 (turns ++ [Turn.new turns.length userInput]) := by
  intro i turn hi
  rcases Nat.lt_or_ge i turns.length with hlt | hge
  · rw [List.getElem?_append_left hlt] at hi
    exact h i turn hi
  · obtain ⟨hlen, hget⟩ := List.getElem?_eq_some_iff.mp hi
    rw [List.length_append, List.length_singleton] at hlen
    obtain rfl : i = turns.length := by omega
    rw [List.getElem?_concat_length] at hi
    cases hi
    exact (Nat.zero_add _).symm

/-- A change of one turn that leaves its number. -/
theorem numbered_modify {f : Turn → Turn} (hf : ∀ turn, (f turn).turnNumber = turn.turnNumber)
    (h : Numbered start turns)
    (k : Nat) : Numbered start (turns.modify k f) := by
  intro i turn hi
  rw [List.getElem?_modify] at hi
  obtain ⟨old, hold, hturn⟩ := Option.map_eq_some_iff.mp hi
  have hnumber := h i old hold
  split at hturn
  · rw [← hturn, hf]
    exact hnumber
  · rw [← hturn]
    exact hnumber

theorem numbered_renumber (turns : List Turn) : Numbered 0 (Thread.renumber turns) := by
  intro i turn hi
  rw [Thread.renumber, List.getElem?_mapIdx] at hi
  obtain ⟨old, -, rfl⟩ := Option.map_eq_some_iff.mp hi
  exact (Nat.zero_add i).symm

theorem turnNumber_recordToolCalls : ∀ (tcs : List ToolCall) (turn : Turn),
    (tcs.foldl Turn.recordToolCall turn).turnNumber = turn.turnNumber
  | [], _ => rfl
  | tc :: tcs, turn => turnNumber_recordToolCalls tcs (turn.recordToolCall tc)

theorem turnNumber_readInto (turn : Turn) (reading : Reading) (msg : ChatMessage) :
    (readInto turn reading msg).1.turnNumber = turn.turnNumber := by
  unfold readInto
  split
  · rfl
  · exact turnNumber_recordToolCalls _ turn
  · rfl
  · rfl
  · rfl

/-- Turns that are read back are numbered on from the one that is being read. -/
theorem numbered_restoreTurns : ∀ (msgs : List ChatMessage) (number : Nat),
    Numbered number (restoreTurns number none msgs) ∧
      ∀ turn reading, turn.turnNumber = number → Numbered number (restoreTurns (number + 1) (some (turn, reading)) msgs)
  | [], number => ⟨numbered_nil, fun _ _ hturn => numbered_cons hturn numbered_nil⟩
  | msg :: msgs, number => by
    refine ⟨?_, fun turn reading hturn => ?_⟩
    · rw [restoreTurns]
      split
      · exact (numbered_restoreTurns msgs number).2 _ _ rfl
      · exact (numbered_restoreTurns msgs number).1
    · rw [restoreTurns]
      split
      · exact numbered_cons hturn ((numbered_restoreTurns msgs (number + 1)).2 _ _ rfl)
      · refine (numbered_restoreTurns msgs number).2 _ _ ?_
        exact (turnNumber_readInto turn reading msg).trans hturn

end Numbers

theorem numbered_modifyLast {thread : Thread} (h : Numbered 0 thread.turns) (f : Turn → Turn)
    (hf : ∀ turn, (f turn).turnNumber = turn.turnNumber) : Numbered 0 (thread.modifyLast f).turns :=
  numbered_modify hf h (thread.turns.length - 1)

/-- Every operation leaves the turns numbered by their places. -/
theorem numbered_apply {thread : Thread} (h : Numbered 0 thread.turns) (op : ThreadOp) :
    Numbered 0 (op.apply thread).turns := by
  cases op with
  | startTurn userInput => exact numbered_concat h userInput
  | completeTurn response => exact numbered_modifyLast h (·.complete response) fun _ => rfl
  | failTurn error => exact numbered_modifyLast h (·.fail error) fun _ => rfl
  | interrupt => exact numbered_modifyLast h Turn.interrupt fun _ => rfl
  | record f => exact numbered_modifyLast h (·.onRecord f) fun _ => rfl
  | clear => exact numbered_nil
  | restoreFromMessages messages => exact (numbered_restoreTurns messages 0).1
  | truncateTurns keep =>
    simp only [ThreadOp.apply, Thread.truncateTurns]
    split
    · exact numbered_renumber _
    · exact h
  | resume =>
    simp only [ThreadOp.apply, Thread.resume]
    split <;> exact h
  | queueMessage message =>
    simp only [ThreadOp.apply, Thread.queueMessage]
    split <;> exact h
  | drainPendingMessages =>
    simp only [ThreadOp.apply, Thread.drainPendingMessages]
    split <;> exact h
  | awaitApproval _ | takePendingApproval | clearPendingApproval | requeueDrained _ | setProcessing | enterAuthMode _ =>
    exact h

/-! ## The request of a thread that waits -/

/-- A thread that waits for approval has a request. -/
def Waits (thread : Thread) : Prop := thread.state = .awaitingApproval → thread.pendingApproval.isSome

/-- Every operation keeps this but the one that takes the request. -/
theorem waits_apply {thread : Thread} (h : Waits thread) (op : ThreadOp) (hop : op.isTake = false) :
    Waits (op.apply thread) := by
  cases op with
  | takePendingApproval => cases hop
  | awaitApproval pending => exact fun _ => rfl
  | startTurn _ | completeTurn _ | failTurn _ | clearPendingApproval | interrupt | restoreFromMessages _ | setProcessing
  | clear => exact nofun
  | truncateTurns keep =>
    simp only [ThreadOp.apply, Thread.truncateTurns]
    split <;> exact h
  | resume =>
    simp only [ThreadOp.apply, Thread.resume]
    split
    · exact nofun
    · exact h
  | queueMessage message =>
    simp only [ThreadOp.apply, Thread.queueMessage]
    split <;> exact h
  | drainPendingMessages =>
    simp only [ThreadOp.apply, Thread.drainPendingMessages]
    split <;> exact h
  | requeueDrained _ | enterAuthMode _ | record _ => exact h

/-! ## The handlers in operations -/

/-- The handlers that the machine of the message handlers leaves out, and `resume`, which none of them calls. -/
inductive ThreadLabel
  | handler (l : Label)
  | redo (checkpointId : Nat)
  | resumeCheckpoint (checkpointId : Nat)
  | compact (keep : Option Nat)
  | resume

section Handlers

variable (env : Env)

def processRedo (w : World) (checkpointId : Nat) : World :=
  match w.undo.redo checkpointId w.thread.turnNumber (w.thread.messages env.json) with
  | (none, _) => w
  | (some checkpoint, mgr) => { w.cancel (w.thread.restoreFromMessages checkpoint.messages) [] with undo := mgr }

def processResume (w : World) (checkpointId : Nat) : World :=
  match w.undo.restore checkpointId with
  | (none, _) => w
  | (some checkpoint, mgr) => { w.cancel (w.thread.restoreFromMessages checkpoint.messages) [] with undo := mgr }

/-- `process_compact`: the turns that are kept are the last ones, if any are dropped. -/
def processCompact (w : World) (keep : Option Nat) : World :=
  { w with thread := keep.elim w.thread w.thread.truncateTurns }

def stepThread (w : World) : ThreadLabel → World
  | .handler l => step env w l
  | .redo checkpointId => processRedo env w checkpointId
  | .resumeCheckpoint checkpointId => processResume w checkpointId
  | .compact keep => processCompact w keep
  | .resume => { w with thread := w.thread.resume }

end Handlers

/-- The thread goes through operations none of which takes the request. -/
def Does (thread thread' : Thread) : Prop :=
  ∃ ops : List ThreadOp, (∀ op ∈ ops, op.isTake = false) ∧ thread' = applyAll thread ops

section Does

variable {thread thread' : Thread}

theorem Does.refl (thread : Thread) : Does thread thread := ⟨[], fun _ hop => absurd hop List.not_mem_nil, rfl⟩

theorem Does.one (op : ThreadOp) (hop : op.isTake = false) : Does thread (op.apply thread) := by
  refine ⟨[op], fun op' hop' => ?_, rfl⟩
  rw [List.mem_singleton.mp hop']
  exact hop

theorem Does.two (op op' : ThreadOp) (hop : op.isTake = false) (hop' : op'.isTake = false) :
    Does thread (op'.apply (op.apply thread)) := by
  refine ⟨[op, op'], fun op'' hmem => ?_, rfl⟩
  rcases List.mem_pair.mp hmem with rfl | rfl
  · exact hop
  · exact hop'

theorem Does.waits (h : Does thread thread') (hw : Waits thread) : Waits thread' := by
  obtain ⟨ops, hops, rfl⟩ := h
  induction ops generalizing thread with
  | nil => exact hw
  | cons op ops ih =>
    refine ih ?_ fun op' hop' => hops op' (List.mem_cons_of_mem op hop')
    exact waits_apply hw op (hops op List.mem_cons_self)

theorem Does.numbered (h : Does thread thread') (hn : Numbered 0 thread.turns) : Numbered 0 thread'.turns := by
  obtain ⟨ops, -, rfl⟩ := h
  induction ops generalizing thread with
  | nil => exact hn
  | cons op ops ih => exact ih (numbered_apply hn op)

theorem does_truncate (keep : Option Nat) : Does thread (keep.elim thread thread.truncateTurns) := by
  cases keep with
  | none => exact .refl thread
  | some keep => exact .one (.truncateTurns keep) rfl

end Does

section Steps

variable (env : Env) (w : World) (answer : Answer)

theorem does_work : Does w.thread (workStep w answer).thread := by
  unfold workStep
  cases answer.auth with
  | none => exact .one (.record answer.work) rfl
  | some extensionName => exact .two (.record answer.work) (.enterAuthMode extensionName) rfl rfl

theorem does_enqueue (job : Job) : Does w.thread (enqueueStep env w job).1.thread := by
  unfold enqueueStep
  split
  · split
    · exact .refl w.thread
    · split
      · exact .refl w.thread
      · split
        · exact .refl w.thread
        next thread hqueue =>
          have hdoes : Does w.thread (ThreadOp.apply w.thread (.queueMessage (queuedMessage w job))) := .one _ rfl
          rw [ThreadOp.apply, hqueue, Option.getD_some] at hdoes
          split <;> exact hdoes
  · exact .refl w.thread

theorem does_finish (job : Job) (result : LoopResult) : Does w.thread (finishStep env w job result).1.thread := by
  unfold finishStep
  split
  · exact .refl w.thread
  · split
    · exact .one (.completeTurn _) rfl
    · exact .one (.awaitApproval _) rfl
    · exact .one (.failTurn _) rfl

theorem does_processed (job : Job) (result : SubmissionResult) :
    Does w.thread (processedStep w job result).1.thread := by
  unfold processedStep
  split
  · split
    · exact .refl w.thread
    next message thread hdrain =>
      have hdoes : Does w.thread (ThreadOp.apply w.thread .drainPendingMessages) := .one _ rfl
      rw [ThreadOp.apply, hdrain] at hdoes
      exact hdoes
  · split
    · exact .one (.requeueDrained job.message) rfl
    · exact .refl w.thread

/-- The steps of a user message. -/
theorem does_input : ∀ pc : InputPc, Does w.thread (inputStep env w answer pc).1.thread
  | .snapshot _ | .validate _ | .checkpoint _ | .returned _ => .refl w.thread
  | .enqueue job => does_enqueue env w job
  | .compact _ => does_truncate answer.keep
  | .start job => .one (.startTurn (job.augmented.getD job.message.text)) rfl
  | .loop job => by
    simp only [inputStep]
    split
    · exact does_work w answer
    · exact .refl w.thread
  | .finish job result => does_finish env w job result
  | .processed job result => does_processed w job result

theorem does_recordResult (toolName toolCallId : Str) (outcome : Agent.ToolOutcome) :
    Does w.thread (recordResult env w.thread toolName toolCallId outcome) := .one (.record _) rfl

/-- The approval is about to take the request. -/
def ApprovalPc.isTake : ApprovalPc → Bool
  | .take _ _ _ => true
  | _ => false

/-- The steps of an approval but the first one. -/
theorem does_approval : ∀ pc : ApprovalPc, pc.isTake = false → Does w.thread (approvalStep env w answer pc).1.thread
  | .restore p, _ => .one (.awaitApproval p) rfl
  | .setProcessing _, _ => .one .setProcessing rfl
  | .record p outcome, _ => by
    simp only [approvalStep]
    split <;> exact does_recordResult env w p.toolName p.toolCallId outcome
  | .authIntercept extName instructions, _ => .two (.enterAuthMode extName) (.completeTurn instructions) rfl rfl
  | .recordDeferred _ _ ((tc, outcome) :: _) _ _, _ => by
    simp only [approvalStep]
    split <;> exact does_recordResult env w tc.name tc.id outcome
  | .deferredAuth _ _ _ _ extName instructions, _ => .two (.enterAuthMode extName) (.completeTurn instructions) rfl rfl
  | .awaitNew _ _ _, _ => .one (.awaitApproval _) rfl
  | .loop _, _ => by
    simp only [approvalStep]
    split
    · exact does_work w answer
    · exact .refl w.thread
  | .finish (.ok (.response _)), _ => .one (.completeTurn _) rfl
  | .finish (.ok (.needApproval _)), _ => .one (.awaitApproval _) rfl
  | .finish (.error _), _ => .one (.failTurn _) rfl
  | .reject p, _ => .two .clearPendingApproval (.completeTurn (rejection p.toolName)) rfl rfl
  | .autoApprove _, _ | .execute _, _ | .preflight _ _ _ _, _ | .runDeferred _ _ _ _, _ | .returned _, _
  | .recordDeferred _ _ [] _ (some _), _ | .recordDeferred _ _ [] (some _) none, _
  | .recordDeferred _ _ [] none none, _ => .refl w.thread

/-- The steps that are no steps of a call. -/
theorem does_handler (l : Label) (hl : ∀ i answer, l ≠ .advance i answer) : Does w.thread (step env w l).thread := by
  cases l with
  | userInput _ _ _ => exact .refl w.thread
  | approval _ _ _ => exact .refl w.thread
  | interrupt =>
    simp only [step, processInterrupt]
    split
    · exact .one .interrupt rfl
    · exact .refl w.thread
  | clear => exact .one .clear rfl
  | undo checkpointId =>
    simp only [step, processUndo]
    split
    · exact .refl w.thread
    · exact .one (.restoreFromMessages _) rfl
  | advance i answer => exact absurd rfl (hl i answer)

theorem does_thread (l : ThreadLabel) (hl : ∀ i answer, l ≠ .handler (.advance i answer)) :
    Does w.thread (stepThread env w l).thread := by
  cases l with
  | handler l => exact does_handler env w l fun i answer heq => hl i answer (congrArg _ heq)
  | redo checkpointId =>
    simp only [stepThread, processRedo]
    split
    · exact .refl w.thread
    · exact .one (.restoreFromMessages _) rfl
  | resumeCheckpoint checkpointId =>
    simp only [stepThread, processResume]
    split
    · exact .refl w.thread
    · exact .one (.restoreFromMessages _) rfl
  | compact keep => exact does_truncate keep
  | resume => exact .one .resume rfl

end Steps

/-! ## The request that is taken -/

/-- The call has taken the request of the thread and not yet written the thread. -/
def Call.hasTaken : Call → Bool
  | .approval _ (.restore _) | .approval _ (.autoApprove _) | .approval _ (.setProcessing _)
  | .approval _ (.reject _) => true
  | _ => false

/-- A request that is taken is held by the call, and otherwise the thread is as it was. -/
theorem take_cases (w : World) (since : Nat) (requestId : Option Nat) (approved always : Bool) :
    (takeStep w requestId approved always).1.thread = w.thread ∨
      Call.hasTaken (.approval since (takeStep w requestId approved always).2) = true := by
  unfold takeStep
  split
  · exact .inl rfl
  · cases hpending : w.thread.pendingApproval with
    | none =>
      refine .inl ?_
      simp only [Thread.takePendingApproval, hpending]
      rw [← hpending]
    | some p =>
      simp only [Thread.takePendingApproval, hpending]
      split
      · exact .inr rfl
      · split
        · split <;> exact .inr rfl
        · exact .inr rfl

/-- A thread that waits has a request, or a call has taken it. -/
def Covered (w : World) : Prop := Waits w.thread ∨ ∃ call ∈ w.calls, call.hasTaken = true

section Coherence

variable {env : Env} {w : World}

/-- A call other than the one that takes a step stays. -/
theorem mem_set_of_mem {calls : List Call} {i : Nat} {call call' : Call} (hcall : calls[i]? = some call)
    (hmem : call' ∈ calls) (hne : call' ≠ call) (next : Call) : call' ∈ calls.set i next := by
  obtain ⟨j, hj⟩ := List.mem_iff_getElem?.mp hmem
  have hij : i ≠ j := by
    rintro rfl
    exact hne (Option.some.inj (hj.symm.trans hcall))
  refine List.mem_iff_getElem?.mpr ⟨j, ?_⟩
  rw [List.getElem?_set_ne hij, hj]

/-- A step of a call that has not taken the request. -/
theorem covered_does {i : Nat} {call : Call} {w' : World} {next : Call} (h : Covered w)
    (hcall : w.calls[i]? = some call)
    (htaken : call.hasTaken = false) (hdoes : Does w.thread w'.thread) (hcalls : w'.calls = w.calls.set i next) :
    Covered w' := by
  rcases h with hwaits | ⟨call', hmem, htaken'⟩
  · exact .inl (hdoes.waits hwaits)
  · refine .inr ⟨call', hcalls ▸ mem_set_of_mem hcall hmem ?_ next, htaken'⟩
    rintro rfl
    cases htaken.symm.trans htaken'

theorem covered_advance {i : Nat} {answer : Answer} (h : Covered w) : Covered (step env w (.advance i answer)) := by
  simp only [step]
  cases hcall : w.calls[i]? with
  | none => exact h
  | some call =>
    have hnext : ∀ next : Call, next ∈ w.calls.set i next := by
      intro next
      exact List.mem_set (List.getElem?_eq_some_iff.mp hcall).1 next
    cases call with
    | input pc => exact covered_does h hcall rfl (does_input env w answer pc) rfl
    | approval since pc =>
      cases htake : pc.isTake with
      | true =>
        cases pc with
        | take requestId approved always =>
          rcases take_cases w (cancels w.log) requestId approved always with hthread | htaken
          · refine covered_does h hcall rfl ?_ rfl
            simp only [callStep, approvalStep, hthread]
            exact .refl w.thread
          · exact .inr ⟨_, hnext _, htaken⟩
        | _ => cases htake
      | false =>
        have hdoes := does_approval env w answer pc htake
        cases pc with
        | restore p => exact .inl fun _ => rfl
        | autoApprove p => exact .inr ⟨_, hnext _, rfl⟩
        | setProcessing p =>
          refine .inl fun hstate => ?_
          cases hstate
        | reject p =>
          refine .inl fun hstate => ?_
          cases hstate
        | take _ _ _ => cases htake
        | execute _ | record _ _ | authIntercept _ _ | preflight _ _ _ _ | runDeferred _ _ _ _
        | recordDeferred _ _ _ _ _
        | deferredAuth _ _ _ _ _ _ | awaitNew _ _ _ | loop _ | finish _ | returned _ =>
          exact covered_does h hcall rfl hdoes rfl

theorem subset_calls (l : ThreadLabel) (hl : ∀ i answer, l ≠ .handler (.advance i answer)) :
    w.calls ⊆ (stepThread env w l).calls := by
  cases l with
  | handler l =>
    cases l with
    | userInput _ _ _ => exact fun _ h => List.mem_append_left _ h
    | approval _ _ _ => exact fun _ h => List.mem_append_left _ h
    | interrupt =>
      simp only [stepThread, step, processInterrupt]
      split <;> exact fun _ h => h
    | clear => exact fun _ h => h
    | undo checkpointId =>
      simp only [stepThread, step, processUndo]
      split <;> exact fun _ h => h
    | advance i answer => exact absurd rfl (hl i answer)
  | redo checkpointId =>
    simp only [stepThread, processRedo]
    split <;> exact fun _ h => h
  | resumeCheckpoint checkpointId =>
    simp only [stepThread, processResume]
    split <;> exact fun _ h => h
  | compact keep => exact fun _ h => h
  | resume => exact fun _ h => h

theorem covered_step (w : World) (l : ThreadLabel) (h : Covered w) : Covered (stepThread env w l) := by
  by_cases hl : ∃ i answer, l = .handler (.advance i answer)
  · obtain ⟨i, answer, rfl⟩ := hl
    exact covered_advance h
  · have hne : ∀ i answer, l ≠ .handler (.advance i answer) := fun i answer heq => hl ⟨i, answer, heq⟩
    rcases h with hwaits | ⟨call, hmem, htaken⟩
    · exact .inl ((does_thread env w l hne).waits hwaits)
    · exact .inr ⟨call, subset_calls l hne hmem, htaken⟩

/-! ## The numbers in a run -/

theorem numbered_step (w : World) (l : ThreadLabel) (h : Numbered 0 w.thread.turns) :
    Numbered 0 (stepThread env w l).thread.turns := by
  by_cases hl : ∃ i answer, l = .handler (.advance i answer)
  · obtain ⟨i, answer, rfl⟩ := hl
    simp only [stepThread, step]
    cases hcall : w.calls[i]? with
    | none => exact h
    | some call =>
      cases call with
      | input pc => exact (does_input env w answer pc).numbered h
      | approval since pc =>
        cases htake : pc.isTake with
        | false => exact (does_approval env w answer pc htake).numbered h
        | true =>
          cases pc with
          | take requestId approved always =>
            simp only [callStep, approvalStep]
            rcases takeStep_fst w requestId approved always with heq | heq <;> rw [heq] <;> exact h
          | _ => cases htake
  · exact (does_thread env w l fun i answer heq => hl ⟨i, answer, heq⟩).numbered h

end Coherence

/-! ## The bound of the queue -/

/-- The drained messages that the call may put back into the queue. -/
def InputPc.backs : InputPc → Nat
  | .snapshot job | .enqueue job | .validate job | .compact job | .checkpoint job | .start job | .loop job
  | .finish job _ => job.drained.toNat
  | .processed job result => if result.isResponse then 0 else job.drained.toNat
  | .returned _ => 0

def Call.backs : Call → Nat
  | .input pc => pc.backs
  | .approval _ _ => 0

def Call.isReturned : Call → Bool
  | .input (.returned _) | .approval _ (.returned _) => true
  | _ => false

/-- The queue with what a call may put back into it. -/
def Within (w : World) (backs : Nat) : Prop := w.thread.pendingMessages.length + backs ≤ MAX_PENDING_MESSAGES + 1

section Queue

variable {env : Env} {w : World}

theorem Within.mono {n n' : Nat} (h : Within w n) (hle : n' ≤ n) : Within w n' := (Nat.add_le_add_left hle _).trans h

theorem backs_processed_le (job : Job) (result : SubmissionResult) :
    InputPc.backs (.processed job result) ≤ job.drained.toNat := by
  rw [InputPc.backs]
  split
  · exact Nat.zero_le _
  · exact Nat.le_refl _

theorem toNat_le_one (b : Bool) : b.toNat ≤ 1 := by cases b <;> decide

theorem within_snapshot {job : Job} (h : Within w job.drained.toNat) : Within w (snapshotStep w job).backs := by
  unfold snapshotStep
  split
  · exact h
  · exact h.mono (backs_processed_le job _)
  · exact h.mono (backs_processed_le job _)
  · exact h
  · exact h

/-- A message gets into a queue that is not full, and what the call may put back comes on top. -/
theorem within_enqueue {job : Job} (h : Within w job.drained.toNat) :
    Within (enqueueStep env w job).1 (enqueueStep env w job).2.backs := by
  have hback := backs_processed_le job
  unfold enqueueStep
  split
  · split
    · exact h.mono (hback _)
    · split
      · exact h.mono (hback _)
      · split
        · exact h.mono (hback _)
        next thread hqueue =>
          obtain ⟨hlt, rfl⟩ := Thread.eq_of_queueMessage hqueue
          have hone := toNat_le_one job.drained
          have hnext : (w.thread.pendingMessages ++ [queuedMessage w job]).length + job.drained.toNat ≤
              MAX_PENDING_MESSAGES + 1 := by
            rw [List.length_append, List.length_singleton]
            omega
          split <;> exact (Nat.add_le_add_left (hback _) _).trans hnext
  · exact h

theorem within_processed {job : Job} {result : SubmissionResult}
    (h : Within w (InputPc.backs (.processed job result))) :
    Within (processedStep w job result).1 (processedStep w job result).2.backs := by
  rw [InputPc.backs] at h
  unfold processedStep
  split
  next hresponse =>
    rw [if_pos hresponse] at h
    split
    · exact h
    next message thread hdrain =>
      obtain ⟨-, -, rfl⟩ := Thread.eq_of_drain hdrain
      show ([] : List Message).length + 1 ≤ MAX_PENDING_MESSAGES + 1
      decide
  next hresponse =>
    rw [if_neg hresponse] at h
    split
    next hdrained =>
      rw [hdrained] at h
      show (job.message :: w.thread.pendingMessages).length + 0 ≤ MAX_PENDING_MESSAGES + 1
      rw [List.length_cons]
      exact h
    next => exact h.mono (Nat.zero_le _)

theorem queue_truncate (thread : Thread) (keep : Option Nat) :
    (keep.elim thread thread.truncateTurns).pendingMessages = thread.pendingMessages := by
  cases keep with
  | none => rfl
  | some keep =>
    obtain ⟨turns, heq⟩ := Thread.eq_of_truncateTurns thread keep
    show (thread.truncateTurns keep).pendingMessages = thread.pendingMessages
    rw [heq]

/-- The steps of a user message keep the bound. -/
theorem within_input (answer : Answer) : ∀ pc : InputPc, Within w pc.backs →
    Within (inputStep env w answer pc).1 (inputStep env w answer pc).2.backs
  | .snapshot job, h => within_snapshot h
  | .enqueue job, h => within_enqueue h
  | .validate job, h => by
    simp only [inputStep, validateStep]
    split
    · exact h.mono (backs_processed_le job _)
    · split
      · exact h.mono (backs_processed_le job _)
      · exact h
  | .compact job, h => by
    simp only [inputStep, Within, queue_truncate]
    exact h
  | .checkpoint _, h | .start _, h | .returned _, h => h
  | .loop job, h => by
    simp only [inputStep]
    split
    · unfold Within
      rw [(rest_work answer).queue]
      exact h
    · exact h
  | .finish job result, h => by
    have hback := backs_processed_le job
    simp only [inputStep, finishStep]
    split
    · exact h.mono (hback _)
    · split <;> exact h.mono (hback _)
  | .processed job result, h => within_processed h

theorem within_call (answer : Answer) (call : Call) (h : Within w call.backs) :
    Within (callStep env w answer call).1 (callStep env w answer call).2.backs := by
  cases call with
  | input pc => exact within_input answer pc h
  | approval since pc =>
    show (approvalStep env w answer pc).1.thread.pendingMessages.length + 0 ≤ _
    rw [(approval_rest env w answer pc).queue]
    exact h

/-- A call that has returned does nothing. -/
theorem callStep_returned (answer : Answer) {call : Call} (h : call.isReturned = true) :
    callStep env w answer call = (w, call) := by
  unfold Call.isReturned at h
  split at h
  · rfl
  · rfl
  · cases h

theorem backs_of_returned {call : Call} (h : call.isReturned = true) : call.backs = 0 := by
  unfold Call.isReturned at h
  split at h
  · rfl
  · rfl
  · cases h

/-- A call that has taken the request is at work. -/
theorem not_returned_of_taken {call : Call} (h : call.hasTaken = true) : call.isReturned = false := by
  unfold Call.hasTaken at h
  split at h
  · rfl
  · rfl
  · rfl
  · rfl
  · cases h

end Queue

/-- One handler is at work at a time: the next one begins when all calls have returned. -/
def Serial (w : World) : ThreadLabel → Prop
  | .handler (.advance _ _) => True
  | _ => ∀ call ∈ w.calls, call.isReturned = true

instance (w : World) : ∀ l, Decidable (Serial w l)
  | .handler (.advance _ _) => .isTrue trivial
  | .handler (.userInput _ _ _) | .handler (.approval _ _ _) | .handler .interrupt | .handler .clear |
    .handler (.undo _)
  | .redo _ | .resumeCheckpoint _ | .compact _ | .resume =>
    inferInstanceAs (Decidable (∀ call ∈ w.calls, call.isReturned = true))

/-- At most one call has not returned, and the queue is within its bound, with what this call may put back. -/
structure Bounded (w : World) : Prop where
  queue : Within w 0
  calls : ∀ call ∈ w.calls, Within w call.backs
  active : ∀ (i j : Nat) (call call' : Call), w.calls[i]? = some call → w.calls[j]? = some call' →
    call.isReturned = false →
    call'.isReturned = false → i = j

section Bounded

variable {env : Env} {w : World}

theorem bounded_of_returned (hcalls : ∀ call ∈ w.calls, call.isReturned = true) (hqueue : Within w 0) : Bounded w := by
  refine ⟨hqueue, fun call hmem => ?_, fun i j call call' hi _ hnot => ?_⟩
  · rw [backs_of_returned (hcalls call hmem)]
    exact hqueue
  · cases (hcalls call (List.mem_of_getElem? hi)).symm.trans hnot

/-- A handler begins. -/
theorem bounded_begin {call : Call} (hcalls : ∀ call ∈ w.calls, call.isReturned = true) (hback : call.backs = 0)
    (hqueue : Within w 0) : Bounded { w with calls := w.calls ++ [call] } := by
  refine ⟨hqueue, fun call' hmem => ?_, fun i j a b hi hj ha hb => ?_⟩
  · rcases List.mem_append.mp hmem with hmem | hmem
    · rw [backs_of_returned (hcalls call' hmem)]
      exact hqueue
    · rw [List.mem_singleton.mp hmem, hback]
      exact hqueue
  · have hlast : ∀ (k : Nat) (c : Call), (w.calls ++ [call])[k]? = some c → c.isReturned = false →
        k = w.calls.length := by
      intro k c hk hc
      rcases Nat.lt_trichotomy k w.calls.length with hlt | heq | hgt
      · rw [List.getElem?_append_left hlt] at hk
        cases (hcalls c (List.mem_of_getElem? hk)).symm.trans hc
      · exact heq
      · have hlen := (List.getElem?_eq_some_iff.mp hk).1
        rw [List.length_append, List.length_singleton] at hlen
        omega
    rw [hlast i a hi ha, hlast j b hj hb]

theorem bounded_advance {i : Nat} {answer : Answer} (h : Bounded w) : Bounded (step env w (.advance i answer)) := by
  simp only [step]
  cases hcall : w.calls[i]? with
  | none => exact h
  | some call =>
    have hmem := List.mem_of_getElem? hcall
    obtain ⟨hlt, hget⟩ := List.getElem?_eq_some_iff.mp hcall
    cases hreturned : call.isReturned with
    | true =>
      have hsame : w.calls.set i call = w.calls := by rw [← hget, List.set_getElem_self]
      simp only [callStep_returned answer hreturned, hsame]
      exact h
    | false =>
      -- the other calls have returned, so they put nothing back
      have hnext := @within_call env w answer call (h.calls call hmem)
      have hothers : ∀ (j : Nat) (c : Call), j ≠ i → w.calls[j]? = some c → c.isReturned = true := by
        intro j c hne hj
        by_contra hnot
        exact hne (h.active j i c call hj hcall (Bool.eq_false_iff.mpr hnot) hreturned)
      refine ⟨hnext.mono (Nat.zero_le _), fun c hc => ?_, fun a b c c' ha hb hc hc' => ?_⟩
      · obtain ⟨j, hj⟩ := List.mem_iff_getElem?.mp hc
        by_cases hji : j = i
        · subst hji
          rw [List.getElem?_set_self hlt] at hj
          cases hj
          exact hnext
        · rw [List.getElem?_set_ne (Ne.symm hji)] at hj
          rw [backs_of_returned (hothers j c hji hj)]
          exact hnext.mono (Nat.zero_le _)
      · have hindex : ∀ (k : Nat) (d : Call), (w.calls.set i (callStep env w answer call).2)[k]? = some d →
            d.isReturned = false → k = i := by
          intro k d hk hd
          by_contra hne
          rw [List.getElem?_set_ne (Ne.symm hne)] at hk
          cases (hothers k d hne hk).symm.trans hd
        rw [hindex a c ha hc, hindex b c' hb hc']

/-- A handler that is done at once leaves the queue or empties it. -/
theorem Bounded.of_queue {w' : World} (h : Bounded w) (hserial : ∀ call ∈ w.calls, call.isReturned = true)
    (hcalls : w'.calls = w.calls)
    (hqueue : w'.thread.pendingMessages = w.thread.pendingMessages ∨ w'.thread.pendingMessages = []) : Bounded w' := by
  refine bounded_of_returned (hcalls ▸ hserial) ?_
  unfold Within
  rcases hqueue with hqueue | hqueue <;> rw [hqueue]
  · exact h.queue
  · exact Nat.zero_le _

theorem bounded_step (w : World) (l : ThreadLabel) (hserial : Serial w l) (h : Bounded w) :
    Bounded (stepThread env w l) := by
  cases l with
  | handler l =>
    cases l with
    | advance i answer => exact bounded_advance h
    | userInput content attachments augmented => exact bounded_begin hserial rfl h.queue
    | approval requestId approved always => exact bounded_begin hserial rfl h.queue
    | interrupt =>
      simp only [stepThread, step, processInterrupt]
      split
      · exact h.of_queue hserial rfl (.inr rfl)
      · exact h
    | clear => exact h.of_queue hserial rfl (.inr rfl)
    | undo checkpointId =>
      simp only [stepThread, step, processUndo]
      split
      · exact h
      · exact h.of_queue hserial rfl (.inl rfl)
  | redo checkpointId =>
    simp only [stepThread, processRedo]
    split
    · exact h
    · exact h.of_queue hserial rfl (.inl rfl)
  | resumeCheckpoint checkpointId =>
    simp only [stepThread, processResume]
    split
    · exact h
    · exact h.of_queue hserial rfl (.inl rfl)
  | compact keep => exact h.of_queue hserial rfl (.inl (queue_truncate w.thread keep))
  | resume =>
    refine h.of_queue hserial rfl (.inl ?_)
    simp only [stepThread, Thread.resume]
    split <;> rfl

end Bounded

/-! ## Runs -/

/-- A thread that is new, or hydrated from its messages. -/
def hydrated (messages : List ChatMessage) : World :=
  { initial with thread := if messages.isEmpty then .new else Thread.new.restoreFromMessages messages }

theorem numbered_hydrated (messages : List ChatMessage) : Numbered 0 (hydrated messages).thread.turns := by
  unfold hydrated
  simp only
  split
  · exact numbered_nil
  · exact (numbered_restoreTurns messages 0).1

theorem covered_hydrated (messages : List ChatMessage) : Covered (hydrated messages) := by
  refine .inl ?_
  unfold hydrated
  simp only
  split <;> exact nofun

theorem bounded_hydrated (messages : List ChatMessage) : Bounded (hydrated messages) := by
  refine bounded_of_returned (fun _ hmem => absurd hmem List.not_mem_nil) ?_
  unfold hydrated Within
  simp only
  split <;> exact Nat.zero_le _

/-- **Coherence.** When one handler is at work at a time, in every state the turns are numbered by their places, a
thread that waits for approval has a request, unless the call that is at work has taken it and not yet written the
thread, and the queue holds at most one message more than its limit. -/
theorem coherent_of_serial (env : Env) (messages : List ChatMessage) (ls : List ThreadLabel)
    (h : Along (stepThread env) Serial (hydrated messages) ls) :
    let w := run (stepThread env) (hydrated messages) ls
    (∀ (i : Nat) (turn : Turn), w.thread.turns[i]? = some turn → turn.turnNumber = i) ∧
      (w.thread.state = .awaitingApproval → w.thread.pendingApproval.isSome ∨
        ∃ call ∈ w.calls, call.isReturned = false ∧ call.hasTaken = true) ∧
      w.thread.pendingMessages.length ≤ MAX_PENDING_MESSAGES + 1 := by
  intro w
  have hnumbered : Numbered 0 w.thread.turns := run_inv_all numbered_step ls (numbered_hydrated messages)
  have hcovered : Covered w := run_inv_all covered_step ls (covered_hydrated messages)
  have hbounded : Bounded w := run_inv bounded_step ls (bounded_hydrated messages) h
  refine ⟨fun i turn hi => ?_, fun hstate => ?_, hbounded.queue⟩
  · rw [hnumbered i turn hi, Nat.zero_add]
  · rcases hcovered with hwaits | ⟨call, hmem, htaken⟩
    · exact .inl (hwaits hstate)
    · exact .inr ⟨call, hmem, not_returned_of_taken htaken, htaken⟩

/-! ## A request that is taken -/

def shipping : Agent.PendingApproval :=
  ⟨"ship".toList, .obj [], .obj [], "Ships the order.".toList, "call_1".toList, [], [], none, true⟩

/-- A turn that asks for approval, and the approval up to where it has taken the request. -/
def approves : List ThreadLabel :=
  List.map ThreadLabel.handler (.userInput "Ship it.".toList false none :: turnOf 0 (.ok (.needApproval shipping)) ++
    [.advance 0 calm, .approval none true false, .advance 1 calm])

theorem coherent_of_serial_approves :
    (run (stepThread desk) (hydrated []) approves).thread.pendingMessages.length ≤ MAX_PENDING_MESSAGES + 1 :=
  (coherent_of_serial desk [] approves (by decide)).2.2

/-- Between the step that takes the request and the one that writes the state, a thread waits for approval without a
request. -/
theorem taken_request : Along (stepThread desk) Serial (hydrated []) approves ∧
    (run (stepThread desk) (hydrated []) approves).thread.state = .awaitingApproval ∧
    (run (stepThread desk) (hydrated []) approves).thread.pendingApproval = none := by
  decide

end Ironclaw.Session

import Ironclaw.Lib.Run
import Ironclaw.Session.Handlers

/-!
# Queued messages

The messages that `queue_message` accepts go through the queue, the drain loop and the turns. The ledger of a world is
read from its log, its queue and the calls that hold drained messages. The drain loop puts drained messages back after
every result that is not a response, whether or not their turn has started.

- `input_effect`: what a step of a user message does with the messages;
- `delivered_of_clean`: in a run without the steps that go wrong every message is used or discarded once, in order;
- `failed_turn_runs_twice`: messages whose turn fails are used again.
-/

namespace Ironclaw.Session

open Text Llm Run Delivery

/-- Queued texts are put together line by line. -/
def newline : Joining Str where
  join := join "\n".toList
  join_singleton := join_singleton _
  join_join := join_flatten _

/-! ## The ledger of a world -/

/-- What the log says about messages. -/
structure Record where
  accepted : List Str
  used : List Message
  discarded : List Nat

/-- The turn of a message that was not queued is not recorded. -/
def Record.add (r : Record) : Event → Record
  | .accepted _ text => { r with accepted := r.accepted ++ [text] }
  | .started parts input => if parts = [] then r else { r with used := r.used ++ [⟨input, parts⟩] }
  | .discarded parts => { r with discarded := r.discarded ++ parts }
  | _ => r

def record : List Event → Record
  | [] => ⟨[], [], []⟩
  | e :: log => (record log).add e

/-- The drained messages of a job. -/
def Job.held (job : Job) : List Message := if job.drained then [job.message] else []

/-- The drained messages that a call has not started a turn for. -/
def InputPc.held : InputPc → List Message
  | .snapshot job => job.held
  | .enqueue job => job.held
  | .validate job => job.held
  | .compact job => job.held
  | .checkpoint job => job.held
  | .start job => job.held
  | .loop _ => []
  | .finish _ _ => []
  | .processed job result => if result.isResponse then [] else job.held
  | .returned _ => []

def Call.held : Call → List Message
  | .input pc => pc.held
  | .approval _ _ => []

def handsOf (calls : List Call) : List Message := calls.flatMap Call.held

def World.ledger (w : World) : Ledger Str where
  accepted := (record w.log).accepted
  queue := w.thread.pendingMessages
  hands := handsOf w.calls
  used := (record w.log).used
  discarded := (record w.log).discarded

/-! ## The condition -/

def isResponse : LoopResult → Bool
  | .ok (.response _) => true
  | _ => false

/-- The condition on a step of a call, with the drained messages that other calls hold. Drained messages are not queued
again, not answered as a command, and their turn ends with a response; none is started or put back before an older
message. -/
def InputPc.Clean (env : Env) (w : World) (others : List Message) (answer : Answer) : InputPc → Prop
  | .enqueue job => job.drained = true → w.thread.state = .processing →
      (env.rejects job.message.text).isSome ∨ MAX_PENDING_MESSAGES ≤ w.thread.pendingMessages.length
  | .validate job => job.drained = true → env.rejects job.message.text = none → env.isCommand job.message.text = true →
      answer.command.isResponse = false
  | .start job => ∀ m ∈ ids job.held, ∀ n ∈ ids w.thread.pendingMessages ++ ids others, m < n
  | .finish job result => job.drained = true → w.thread.state ≠ .interrupted ∧ isResponse result = true
  | .processed job result => result.isResponse = false →
      ∀ m ∈ ids job.held, ∀ n ∈ ids w.thread.pendingMessages, m < n
  | _ => True

def Call.Clean (env : Env) (w : World) (others : List Message) (answer : Answer) : Call → Prop
  | .input pc => pc.Clean env w others answer
  | .approval _ _ => True

def Clean (env : Env) (w : World) : Label → Prop
  | .advance i answer => ∀ call ∈ w.calls[i]?, call.Clean env w (handsOf (w.calls.eraseIdx i)) answer
  | _ => True

/-! ## What a step does -/

/-- Nothing changes about messages. -/
structure Rest (w w' : World) : Prop where
  queue : w'.thread.pendingMessages = w.thread.pendingMessages
  next : w'.nextMessage = w.nextMessage
  log : record w'.log = record w.log

/-- What a step of a call does with the messages: it holds `held` before and `held'` after. -/
inductive Effect (w : World) (others held : List Message) (w' : World) : List Message → Prop
  | rest (h : Rest w w') : Effect w others held w' held
  | accept (text : Str) (hqueue : w'.thread.pendingMessages = w.thread.pendingMessages ++ [⟨text, [w.nextMessage]⟩])
      (hnext : w'.nextMessage = w.nextMessage + 1)
        (hlog : record w'.log = (record w.log).add (.accepted w.nextMessage text)) :
      Effect w others held w' held
  | take (hheld : held = []) (hne : w.thread.pendingMessages ≠ []) (hqueue : w'.thread.pendingMessages = [])
      (hnext : w'.nextMessage = w.nextMessage) (hlog : record w'.log = record w.log) :
      Effect w others held w' [Thread.merge w.thread.pendingMessages]
  | putBack (message : Message) (hheld : held = [message])
      (hqueue : w'.thread.pendingMessages = message :: w.thread.pendingMessages)
      (hnext : w'.nextMessage = w.nextMessage) (hlog : record w'.log = record w.log)
      (hnewer : ∀ m ∈ message.parts, ∀ n ∈ ids w.thread.pendingMessages, m < n) :
      Effect w others held w' []
  | use (message : Message) (hheld : held = [message])
      (hqueue : w'.thread.pendingMessages = w.thread.pendingMessages)
      (hnext : w'.nextMessage = w.nextMessage)
      (hlog : record w'.log = { record w.log with used := (record w.log).used ++ [message] })
      (hnewer : ∀ m ∈ message.parts, ∀ n ∈ ids w.thread.pendingMessages ++ ids others, m < n) :
      Effect w others held w' []

theorem rest_refl (w : World) : Rest w w := ⟨rfl, rfl, rfl⟩

theorem effect_of_held {w w' : World} {others held held' : List Message} (heq : held' = held) (h : Rest w w') :
    Effect w others held w' held' := heq ▸ .rest h

section Input

variable {env : Env} {w : World} {others : List Message}

theorem held_of_new {job : Job} (h : job.drained = false) : job.held = [] := by
  rw [Job.held, h]
  rfl

theorem held_of_drained {job : Job} (h : job.drained = true) : job.held = [job.message] := if_pos h

theorem snapshot_held (job : Job) : (snapshotStep w job).held = job.held := by
  unfold snapshotStep
  split <;> rfl

theorem rest_work (answer : Answer) : Rest w (workStep w answer) := by
  refine ⟨?_, rfl, rfl⟩
  unfold workStep
  cases answer.auth <;> rfl

theorem enqueue_effect (job : Job) (answer : Answer) (h : InputPc.Clean env w others answer (.enqueue job)) :
    Effect w others job.held (enqueueStep env w job).1 (enqueueStep env w job).2.held := by
  unfold enqueueStep
  split
  · rename_i hstate
    split
    · exact .rest (rest_refl w)
    · split
      · exact .rest (rest_refl w)
      · rename_i hrejects
        split
        · exact .rest (rest_refl w)
        · rename_i thread hqueue
          obtain ⟨hlen, rfl⟩ := Thread.eq_of_queueMessage hqueue
          cases hdrained : job.drained with
          | true =>
            rcases h hdrained hstate with hsome | hfull
            · rw [hrejects] at hsome
              cases hsome
            · exact absurd hfull (Nat.not_le_of_lt hlen)
          | false =>
            rw [queuedMessage, hdrained]
            exact .accept job.message.text rfl rfl rfl
  · exact .rest (rest_refl w)

theorem validate_effect (job : Job) (answer : Answer) (h : InputPc.Clean env w others answer (.validate job)) :
    (validateStep env answer job).held = job.held := by
  unfold validateStep
  split
  · rfl
  · rename_i hrejects
    split
    · rename_i hcommand
      cases hdrained : job.drained with
      | true => rw [InputPc.held, h hdrained hrejects hcommand, if_neg Bool.false_ne_true]
      | false => rw [InputPc.held, held_of_new hdrained, ite_self]
    · rfl

theorem start_effect (job : Job) (answer : Answer) (hheld : ∀ m ∈ job.held, m.parts ≠ [])
    (h : InputPc.Clean env w others answer (.start job)) :
    Effect w others job.held (inputStep env w answer (.start job)).1 [] := by
  cases hdrained : job.drained with
  | true =>
    have hjob := held_of_drained hdrained
    have hne : job.message.parts ≠ [] := hheld job.message (hjob ▸ List.mem_singleton_self _)
    obtain ⟨-, hplain⟩ := job.drained_plain hdrained
    refine .use job.message hjob rfl rfl ?_ fun m hm => h m ?_
    · simp only [inputStep, record, Record.add, if_neg hne, hplain, Option.getD_none]
    · rw [hjob, ids_cons]
      exact List.mem_append_left _ hm
  | false =>
    refine effect_of_held (held_of_new hdrained).symm ⟨rfl, rfl, ?_⟩
    simp only [inputStep, record, Record.add, job.new_parts hdrained, if_pos]

theorem finish_effect (job : Job) (result : LoopResult) (answer : Answer)
    (h : InputPc.Clean env w others answer (.finish job result)) :
    Effect w others [] (finishStep env w job result).1 (finishStep env w job result).2.held := by
  -- after a result that is not a response a drained job would be put back, with its turn already started
  have hnew : w.thread.state = .interrupted ∨ isResponse result = false → job.held = [] := by
    intro hbad
    cases hdrained : job.drained with
    | true =>
      obtain ⟨hstate, hresponse⟩ := h hdrained
      rcases hbad with hbad | hbad
      · exact absurd hbad hstate
      · rw [hresponse] at hbad
        cases hbad
    | false => exact held_of_new hdrained
  unfold finishStep
  split
  · rename_i hstate
    exact effect_of_held (hnew (.inl hstate)) (rest_refl w)
  · split
    · exact .rest ⟨rfl, rfl, rfl⟩
    · exact effect_of_held (hnew (.inr rfl)) ⟨rfl, rfl, rfl⟩
    · exact effect_of_held (hnew (.inr rfl)) ⟨rfl, rfl, rfl⟩

theorem processed_effect (job : Job) (result : SubmissionResult) (answer : Answer)
    (h : InputPc.Clean env w others answer (.processed job result)) :
    Effect w others (InputPc.processed job result).held (processedStep w job result).1
      (processedStep w job result).2.held := by
  unfold processedStep
  split
  · rename_i hresponse
    have hheld : (InputPc.processed job result).held = [] := if_pos hresponse
    split
    · exact effect_of_held hheld.symm (rest_refl w)
    · rename_i hdrain
      obtain ⟨hne, rfl, rfl⟩ := Thread.eq_of_drain hdrain
      exact .take hheld hne rfl rfl rfl
  · rename_i hresponse
    have hheld : (InputPc.processed job result).held = job.held := if_neg hresponse
    rw [hheld]
    split
    · rename_i hdrained
      have hjob := held_of_drained hdrained
      refine .putBack job.message hjob rfl rfl rfl fun m hm => h (Bool.eq_false_iff.mpr hresponse) m ?_
      rw [hjob, ids_cons]
      exact List.mem_append_left _ hm
    · rename_i hdrained
      exact effect_of_held (held_of_new (Bool.eq_false_iff.mpr hdrained)).symm (rest_refl w)

/-- A step of a user message. -/
theorem input_effect (answer : Answer) : ∀ pc : InputPc, (∀ m ∈ pc.held, m.parts ≠ []) →
    pc.Clean env w others answer →
      Effect w others pc.held (inputStep env w answer pc).1 (inputStep env w answer pc).2.held
  | .snapshot job, _, _ => effect_of_held (snapshot_held job) (rest_refl w)
  | .enqueue job, _, h => enqueue_effect job answer h
  | .validate job, _, h => effect_of_held (validate_effect job answer h) (rest_refl w)
  | .compact job, _, _ => by
    refine .rest ⟨?_, rfl, rfl⟩
    simp only [inputStep]
    cases answer.keep with
    | none => rfl
    | some keep =>
      obtain ⟨turns, hturns⟩ := Thread.eq_of_truncateTurns w.thread keep
      rw [Option.elim, hturns]
  | .checkpoint job, _, _ => .rest ⟨rfl, rfl, rfl⟩
  | .start job, hheld, h => start_effect job answer hheld h
  | .loop job, _, _ => by
    simp only [inputStep]
    cases answer.loop with
    | none => exact .rest (rest_work answer)
    | some result => exact .rest (rest_refl w)
  | .finish job result, _, h => finish_effect job result answer h
  | .processed job result, _, h => processed_effect job result answer h
  | .returned _, _, _ => .rest (rest_refl w)

end Input

/-- An approval leaves the messages alone. -/
theorem approval_rest (env : Env) (w : World) (answer : Answer) : ∀ pc : ApprovalPc,
    Rest w (approvalStep env w answer pc).1
  | .take requestId approved always => by
    rcases takeStep_fst w requestId approved always with heq | heq
    · rw [approvalStep, heq]
      exact rest_refl w
    · rw [approvalStep, heq]
      exact ⟨rfl, rfl, rfl⟩
  | .restore _ => ⟨rfl, rfl, rfl⟩
  | .autoApprove _ => ⟨rfl, rfl, rfl⟩
  | .setProcessing _ => ⟨rfl, rfl, rfl⟩
  | .execute _ => ⟨rfl, rfl, rfl⟩
  | .record _ _ => by
    simp only [approvalStep]
    split <;> exact ⟨rfl, rfl, rfl⟩
  | .authIntercept _ _ => ⟨rfl, rfl, rfl⟩
  | .preflight _ _ _ _ => rest_refl w
  | .runDeferred _ _ _ _ => rest_refl w
  | .recordDeferred _ _ ((_, _) :: _) _ _ => by
    simp only [approvalStep]
    split <;> exact ⟨rfl, rfl, rfl⟩
  | .recordDeferred _ _ [] _ (some _) => rest_refl w
  | .recordDeferred _ _ [] (some _) none => rest_refl w
  | .recordDeferred _ _ [] none none => rest_refl w
  | .deferredAuth _ _ _ _ _ _ => ⟨rfl, rfl, rfl⟩
  | .awaitNew _ _ _ => ⟨rfl, rfl, rfl⟩
  | .loop _ => by
    simp only [approvalStep]
    cases answer.loop with
    | none => exact rest_work answer
    | some _ => exact rest_refl w
  | .finish (.ok (.response _)) => ⟨rfl, rfl, rfl⟩
  | .finish (.ok (.needApproval _)) => ⟨rfl, rfl, rfl⟩
  | .finish (.error _) => ⟨rfl, rfl, rfl⟩
  | .reject _ => ⟨rfl, rfl, rfl⟩
  | .returned _ => rest_refl w

theorem call_effect {env : Env} {w : World} {others : List Message} (answer : Answer) : ∀ call : Call,
    (∀ m ∈ call.held, m.parts ≠ []) → call.Clean env w others answer →
      Effect w others call.held (callStep env w answer call).1 (callStep env w answer call).2.held
  | .input pc, hheld, h => input_effect answer pc hheld h
  | .approval _ pc, _, _ => .rest (approval_rest env w answer pc)

/-! ## Runs -/

/-- The ledger is in order, and its length is the next number. -/
structure Tracked (w : World) : Prop where
  ok : w.ledger.Ok newline
  numbered : w.nextMessage = (record w.log).accepted.length

theorem tracked_initial : Tracked initial := ⟨ok_empty, rfl⟩

theorem hands_perm {calls : List Call} {i : Nat} {call : Call} (h : calls[i]? = some call) :
    (handsOf calls).Perm (call.held ++ handsOf (calls.eraseIdx i)) := by
  obtain ⟨hlt, rfl⟩ := List.getElem?_eq_some_iff.mp h
  exact ((List.getElem_cons_eraseIdx_perm hlt).symm.flatMap_right Call.held)

theorem hands_set_perm {calls : List Call} {i : Nat} (hlt : i < calls.length) (call : Call) :
    (handsOf (calls.set i call)).Perm (call.held ++ handsOf (calls.eraseIdx i)) := by
  have h := hands_perm (List.getElem?_set_self hlt : (calls.set i call)[i]? = some call)
  rwa [List.eraseIdx_set_eq] at h

/-- A step that moves no message. -/
theorem Tracked.rest {w w' : World} (h : Tracked w) (hrest : Rest w w')
    (hhands : (handsOf w'.calls).Perm (handsOf w.calls)) : Tracked w' := by
  refine ⟨?_, by rw [hrest.next, hrest.log, h.numbered]⟩
  have hledger : w'.ledger = { w.ledger with hands := handsOf w'.calls } := by
    simp only [World.ledger, hrest.log, hrest.queue]
  rw [hledger]
  exact h.ok.move (.rest hhands)

/-- The queue is discarded. -/
theorem Tracked.discard {w w' : World} (h : Tracked w) (hqueue : w'.thread.pendingMessages = [])
    (hnext : w'.nextMessage = w.nextMessage)
    (hlog : record w'.log = (record w.log).add (.discarded (ids w.thread.pendingMessages)))
    (hcalls : w'.calls = w.calls) : Tracked w' := by
  refine ⟨?_, by rw [hnext, hlog, h.numbered]; rfl⟩
  have hledger : w'.ledger =
      { w.ledger with queue := [], discarded := w.ledger.discarded ++ ids w.ledger.queue } := by
    simp only [World.ledger, hlog, hqueue, hcalls, Record.add]
  rw [hledger]
  exact h.ok.move .discard

/-- A step of the call at a place. -/
theorem Tracked.advance {w w' : World} {i : Nat} {call call' : Call} (h : Tracked w) (hcall : w.calls[i]? = some call)
    (heffect : Effect w (handsOf (w.calls.eraseIdx i)) call.held w' call'.held) :
    Tracked { w' with calls := w.calls.set i call' } := by
  have hlt : i < w.calls.length := (List.getElem?_eq_some_iff.mp hcall).1
  have hbefore := hands_perm hcall
  have hafter := hands_set_perm hlt call'
  generalize call.held = held at heffect hbefore
  generalize call'.held = held' at heffect hafter
  cases heffect with
  | rest hrest => exact h.rest ⟨hrest.queue, hrest.next, hrest.log⟩ (hafter.trans hbefore.symm)
  | accept text hqueue hnext hlog =>
    refine ⟨?_, ?_⟩
    · have hledger : World.ledger { w' with calls := w.calls.set i call' } =
          { w.ledger with
            accepted := w.ledger.accepted ++ [text]
            queue := w.ledger.queue ++ [⟨text, [w.ledger.accepted.length]⟩]
            hands := handsOf (w.calls.set i call') } := by
        simp only [World.ledger, hlog, hqueue, h.numbered, Record.add]
      rw [hledger]
      exact h.ok.move (.accept text (hafter.trans hbefore.symm))
    · simp only [hlog, hnext, h.numbered, Record.add, List.length_append, List.length_singleton]
  | take hheld hne hqueue hnext hlog =>
    refine ⟨?_, ?_⟩
    · have hledger : World.ledger { w' with calls := w.calls.set i call' } =
          { w.ledger with queue := [], hands := handsOf (w.calls.set i call') } := by
        simp only [World.ledger, hlog, hqueue]
      rw [hledger]
      subst hheld
      exact h.ok.move (.take hne (hafter.trans (hbefore.symm.cons _)))
    · simp only [hlog, hnext, h.numbered]
  | putBack message hheld hqueue hnext hlog hnewer =>
    refine ⟨?_, ?_⟩
    · have hledger : World.ledger { w' with calls := w.calls.set i call' } =
          { w.ledger with queue := message :: w.ledger.queue, hands := handsOf (w.calls.set i call') } := by
        simp only [World.ledger, hlog, hqueue]
      rw [hledger]
      subst hheld
      exact h.ok.move (.putBack message (hbefore.trans (hafter.symm.cons _)) hnewer)
    · simp only [hlog, hnext, h.numbered]
  | use message hheld hqueue hnext hlog hnewer =>
    refine ⟨?_, ?_⟩
    · have hledger : World.ledger { w' with calls := w.calls.set i call' } =
          { w.ledger with hands := handsOf (w.calls.set i call'), used := w.ledger.used ++ [message] } := by
        simp only [World.ledger, hlog, hqueue]
      rw [hledger]
      subst hheld
      refine h.ok.move (.use message (hbefore.trans (hafter.symm.cons _)) fun m hm n hn => hnewer m hm n ?_)
      exact ((ids_perm hafter).append_left _).mem_iff.mp hn
    · simp only [hlog, hnext, h.numbered]

section Runs

variable (env : Env)

theorem tracked_interrupt {w : World} (h : Tracked w) : Tracked (processInterrupt w) := by
  unfold processInterrupt
  split
  · exact h.discard rfl rfl rfl rfl
  · exact h

theorem tracked_undo {w : World} (h : Tracked w) (checkpointId : Nat) : Tracked (processUndo env w checkpointId) := by
  unfold processUndo
  split
  · exact h
  · refine h.rest ⟨rfl, rfl, ?_⟩ (List.Perm.refl _)
    simp only [World.cancel, record, Record.add, ids_nil, List.append_nil]

theorem tracked_step {w : World} : ∀ l : Label, Clean env w l → Tracked w → Tracked (step env w l)
  | .userInput _ _ _, _, h => by
    refine h.rest ⟨rfl, rfl, rfl⟩ ?_
    rw [step, handsOf, List.flatMap_append]
    exact List.Perm.of_eq (List.append_nil _)
  | .approval _ _ _, _, h => by
    refine h.rest ⟨rfl, rfl, rfl⟩ ?_
    rw [step, handsOf, List.flatMap_append]
    exact List.Perm.of_eq (List.append_nil _)
  | .interrupt, _, h => tracked_interrupt h
  | .clear, _, h => h.discard rfl rfl rfl rfl
  | .undo checkpointId, _, h => tracked_undo env h checkpointId
  | .advance i answer, hclean, h => by
    rw [step]
    cases hcall : w.calls[i]? with
    | none => exact h
    | some call =>
      have hheld : ∀ m ∈ call.held, m.parts ≠ [] := by
        intro m hm
        have hmem : m ∈ w.ledger.hands := (hands_perm hcall).mem_iff.mpr (List.mem_append_left _ hm)
        exact (h.ok.pending_texts m (List.mem_append_right _ hmem)).parts_ne
      exact h.advance hcall (call_effect answer call hheld (hclean call hcall))

/-- **Queued messages.** In every state of a run whose steps are clean, every accepted message is pending, or it was
used in one turn, or it was discarded and used in none; the messages were used in the order in which they were accepted,
each in the input of its turn. -/
theorem delivered_of_clean (ls : List Label) (h : Along (step env) (Clean env) initial ls) :
    ∀ pre, pre <+: ls →
      (run (step env) initial pre).ledger.Delivered newline ∧
      ∀ n < (run (step env) initial pre).ledger.accepted.length, n ∉ (run (step env) initial pre).ledger.pending →
        (ids (run (step env) initial pre).ledger.used).count n = 1 ∧ n ∉ (run (step env) initial pre).ledger.discarded ∨
        n ∉ ids (run (step env) initial pre).ledger.used ∧ n ∈ (run (step env) initial pre).ledger.discarded := by
  rintro pre ⟨post, rfl⟩
  have hpre := ((along_append pre initial post).mp h).1
  have hdelivered := (run_inv (fun _ l => tracked_step env l) pre tracked_initial hpre).ok.toDelivered
  exact ⟨hdelivered, fun n hn hpending => hdelivered.exactly_once hn hpending⟩

end Runs

/-! ## A message that comes during a turn -/

instance decidableInputClean (env : Env) (w : World) (others : List Message) (answer : Answer) :
    (pc : InputPc) → Decidable (pc.Clean env w others answer)
  | .snapshot _ => .isTrue trivial
  | .enqueue _ => inferInstanceAs (Decidable (_ → _ → _ ∨ _))
  | .validate _ => inferInstanceAs (Decidable (_ → _ → _ → _ = _))
  | .compact _ => .isTrue trivial
  | .checkpoint _ => .isTrue trivial
  | .start _ => inferInstanceAs (Decidable (∀ m ∈ _, ∀ n ∈ _, m < n))
  | .loop _ => .isTrue trivial
  | .finish _ _ => inferInstanceAs (Decidable (_ → _ ≠ _ ∧ _ = _))
  | .processed _ _ => inferInstanceAs (Decidable (_ → ∀ m ∈ _, ∀ n ∈ _, m < n))
  | .returned _ => .isTrue trivial

instance decidableCallClean (env : Env) (w : World) (others : List Message) (answer : Answer) :
    (call : Call) → Decidable (call.Clean env w others answer)
  | .input pc => decidableInputClean env w others answer pc
  | .approval _ _ => .isTrue trivial

instance decidableClean (env : Env) (w : World) : (l : Label) → Decidable (Clean env w l)
  | .advance i _ => inferInstanceAs (Decidable (∀ call ∈ w.calls[i]?, _))
  | .userInput _ _ _ => .isTrue trivial
  | .approval _ _ _ => .isTrue trivial
  | .interrupt => .isTrue trivial
  | .clear => .isTrue trivial
  | .undo _ => .isTrue trivial

def done : LoopResult := .ok (.response "Done.".toList)

/-- A message comes during the turn of another one; that turn ends with a response and the message is drained. -/
def drainedRun (content : Str) : List Label :=
  .userInput "Water the plants.".toList false none :: List.replicate 5 (.advance 0 calm) ++
    .userInput content false none :: List.replicate 3 (.advance 1 calm) ++
      [.advance 0 { calm with loop := some done }, .advance 0 calm, .advance 0 calm]

def feed : Str := "Feed the cat.".toList

theorem delivered_of_clean_feed :
    Along (step desk) (Clean desk) initial (drainedRun feed ++ turnOf 0 done) ∧
      (run (step desk) initial (drainedRun feed ++ turnOf 0 done)).ledger.used = [⟨feed, [0]⟩] ∧
      (run (step desk) initial (drainedRun feed ++ turnOf 0 done)).ledger.Delivered newline := by
  have hclean : Along (step desk) (Clean desk) initial (drainedRun feed ++ turnOf 0 done) := by decide
  exact ⟨hclean, rfl, (delivered_of_clean desk _ hclean _ (List.prefix_refl _)).1⟩

/-- The turn of the drained message fails, the message is put back, and the next response starts a second turn for
it. -/
def failedRun : List Label :=
  drainedRun feed ++ turnOf 0 (.error "rate limited".toList) ++ .advance 0 calm ::
    .userInput "Hello.".toList false none :: turnOf 2 done ++ List.replicate 6 (.advance 2 calm)

/-- A drained command is answered, and no turn is started for it. -/
def commandRun : List Label :=
  drainedRun "/list".toList ++
    [.advance 0 calm, .advance 0 { calm with command := .response "No jobs found.".toList }, .advance 0 calm]

theorem failed_turn_runs_twice :
    (run (step desk) initial failedRun).ledger.used = [⟨feed, [0]⟩, ⟨feed, [0]⟩] ∧
    ¬(run (step desk) initial failedRun).ledger.Delivered newline ∧
    (run (step desk) initial commandRun).ledger = ⟨["/list".toList], [], [], [], []⟩ ∧
    ¬(run (step desk) initial commandRun).ledger.Delivered newline := by
  have htwice : (run (step desk) initial failedRun).ledger.used = [⟨feed, [0]⟩, ⟨feed, [0]⟩] := rfl
  have hlost : (run (step desk) initial commandRun).ledger = ⟨["/list".toList], [], [], [], []⟩ := rfl
  refine ⟨htwice, fun h => ?_, hlost, fun h => ?_⟩
  · have hordered := h.ordered
    rw [htwice] at hordered
    exact absurd hordered (by decide)
  · have hlength := h.once.length_eq
    rw [hlost] at hlength
    exact absurd hlength (by decide)

end Ironclaw.Session

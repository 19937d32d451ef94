import Ironclaw.Agent.MainLoop
import Ironclaw.Lib.Run

/-!
# Silent replies

When the handlers of user input and of approvals return a silent reply, whatever the surroundings of their steps are.

- `inputTick_move`: what a step of the handler of user input can do;
- `input_silent_iff`, `approval_silent_iff`: a handler returns a silent reply exactly when its last turn ends with one;
- `walkInput_of_run`, `walkApproval_of_run`: the handlers are those of the session, whatever comes between their steps.
-/

namespace Ironclaw.Agent

open Text Run Hoare Session Commands

/-! ## User input -/

section Input

variable {m : Incoming}

/-- The turn ends with a reply of the model, silent once the suggestions are taken out and the hooks have run. -/
def Tick.EndsSilently (t : Tick) (text : Str) : Prop :=
  t.gone = false ∧ t.world.thread.state ≠ .interrupted ∧
    isSilentReply (t.env.transformResponse (t.env.extractSuggestions text)) = true

/-- No message is queued when the drain loop looks. -/
def Tick.NothingQueued (t : Tick) : Prop := t.gone = true ∨ t.world.thread.pendingMessages = []

/-- The last turn of the handler ends with a silent reply. -/
def SilentTurn (m : Incoming) (content : Str) (ticks : List Tick) : Prop :=
  ∃ pre t t' post job text, ticks = pre ++ t :: t' :: post ∧
    walk (inputTick m) (inputStart m content) pre = .ok (.finish job (.ok (.response text))) ∧ t.EndsSilently text ∧
      t'.NothingQueued

/-- The result is not without a text, and it is no silent reply. -/
def Audible : SubmissionResult → Prop
  | .response text => isSilentReply text = false
  | .ok message => message ≠ none
  | _ => True

theorem audible_of_heard {result : SubmissionResult} (h : Heard result) : Audible result := by
  cases result with
  | response text => exact h
  | ok message =>
    obtain ⟨text, rfl, -⟩ := h
    exact nofun
  | _ => trivial

/-- The handler has a result. -/
def isOver : InputPc → Bool
  | .processed _ _ => true
  | .returned _ => true
  | _ => false

/-- What a step of the handler can do: go on, come to a result that can be heard, end a turn with a reply of the model,
or return when no message is queued. -/
inductive InputMove (t : Tick) : InputPc → InputPc → Prop
  | goesOn {pc pc' : InputPc} (h : isOver pc' = false) : InputMove t pc pc'
  | answers {pc : InputPc} {job : Job} {result : SubmissionResult} (h : Audible result) :
      InputMove t pc (.processed job result)
  | ends {job : Job} {text : Str} (hgone : t.gone = false) (hstate : t.world.thread.state ≠ .interrupted) :
      InputMove t (.finish job (.ok (.response text)))
        (.processed job (.response (t.env.transformResponse (t.env.extractSuggestions text))))
  | returns {job : Job} {result : SubmissionResult} (h : result.isResponse = true → t.NothingQueued) :
      InputMove t (.processed job result) (.returned result)
  | stays {result : SubmissionResult} : InputMove t (.returned result) (.returned result)

/-- A message is queued, rejected, or goes on because the turn has ended. -/
theorem enqueueStep_pc (env : Env) (w : World) (job : Job) :
    (enqueueStep env w job).2 = .validate job ∨ (∃ e, (enqueueStep env w job).2 = .processed job (.error e)) ∨
      (enqueueStep env w job).2 = .processed job (.ok (some QUEUED)) := by
  unfold enqueueStep
  split
  · split
    · exact .inr (.inl ⟨_, rfl⟩)
    · split
      · exact .inr (.inl ⟨_, rfl⟩)
      · split
        · exact .inr (.inl ⟨_, rfl⟩)
        · split <;> exact .inr (.inr rfl)
  · exact .inl rfl

theorem snapshot_move (t : Tick) (w : World) (job : Job) : InputMove t (.snapshot job) (snapshotStep w job) := by
  unfold snapshotStep
  split
  · exact .goesOn rfl
  · exact .answers nofun
  · exact .answers trivial
  · exact .goesOn rfl
  · exact .goesOn rfl

theorem enqueue_move (t : Tick) (job : Job) : InputMove t (.enqueue job) (enqueueStep t.env t.world job).2 := by
  rcases enqueueStep_pc t.env t.world job with hpc | ⟨e, hpc⟩ | hpc
  · rw [hpc]
    exact .goesOn rfl
  · rw [hpc]
    exact .answers trivial
  · rw [hpc]
    exact .answers nofun

theorem finish_move {t : Tick} (hgone : t.gone = false) (job : Job) (result : LoopResult) :
    InputMove t (.finish job result) (finishStep t.env t.world job result).2 := by
  unfold finishStep
  split
  · exact .answers trivial
  next hstate =>
    split
    · exact .ends hgone hstate
    · exact .answers trivial
    · exact .answers trivial

theorem processed_move (t : Tick) (job : Job) (result : SubmissionResult) :
    InputMove t (.processed job result) (processedStep t.world job result).2 := by
  unfold processedStep
  split
  · simp only [Thread.drainPendingMessages]
    by_cases hqueue : t.world.thread.pendingMessages = []
    · rw [hqueue]
      exact .returns fun _ => .inr hqueue
    · rw [if_neg (by simpa using hqueue)]
      exact .goesOn rfl
  next hresponse => split <;> exact .returns fun h => absurd h hresponse

theorem inputTick_move {pc pc' : InputPc} {t : Tick} (h : inputTick m pc t = .ok pc') : InputMove t pc pc' := by
  unfold inputTick at h
  split at h
  · cases h
  next hgone =>
    cases pc with
    | snapshot job =>
      cases h
      exact snapshot_move t t.world job
    | enqueue job =>
      simp only at h
      split at h <;> cases h
      · exact .answers trivial
      · exact enqueue_move t job
    | validate job =>
      simp only at h
      split at h
      · cases h
        exact .answers trivial
      next intent _ _ =>
        cases hresult : handleJobOrCommand t.services intent m.message.channel with
        | error e =>
          rw [hresult] at h
          cases h
        | ok result =>
          rw [hresult] at h
          cases h
          exact .answers (audible_of_heard (jobOrCommand_heard intent m.message.channel result hresult))
      · cases h
        exact .goesOn rfl
    | compact job =>
      cases h
      exact .goesOn rfl
    | checkpoint job =>
      cases h
      exact .goesOn rfl
    | start job =>
      cases h
      exact .goesOn rfl
    | loop job =>
      simp only [inputStep] at h
      split at h <;> cases h <;> exact .goesOn rfl
    | finish job result =>
      cases h
      exact finish_move (by simpa [needsThread] using hgone) job result
    | processed job result =>
      simp only at h
      split at h
      next hgone =>
        cases h
        exact .returns fun _ => .inl hgone
      · cases h
        exact processed_move t job result
    | returned result =>
      cases h
      exact .stays

/-- A handler that has come to a silent reply has just ended a turn with it. -/
theorem processed_silent {content text : Str} {job : Job} {ticks : List Tick} (hsilent : isSilentReply text = true)
    (hwalk : walk (inputTick m) (inputStart m content) ticks = .ok (.processed job (.response text))) :
    ∃ pre t reply, ticks = pre ++ [t] ∧
      walk (inputTick m) (inputStart m content) pre = .ok (.finish job (.ok (.response reply))) ∧
        t.EndsSilently reply := by
  rcases List.eq_nil_or_concat' ticks with rfl | ⟨pre, t, rfl⟩
  · cases hwalk
  · rw [walk_concat] at hwalk
    obtain ⟨pc, hpc, hstep⟩ := bind_eq_ok hwalk
    cases inputTick_move hstep with
    | goesOn h => cases h
    | answers h => exact absurd hsilent (by simp [show isSilentReply text = false from h])
    | ends hgone hstate => exact ⟨pre, t, _, rfl, hpc, hgone, hstate, hsilent⟩

theorem SilentTurn.concat {content : Str} {ticks : List Tick} (h : SilentTurn m content ticks) (t : Tick) :
    SilentTurn m content (ticks ++ [t]) := by
  obtain ⟨pre, t₁, t₂, post, job, text, rfl, h⟩ := h
  exact ⟨pre, t₁, t₂, post ++ [t], job, text, by simp, h⟩

/-- A handler that has returned a silent reply has ended its last turn with it. -/
theorem returned_silent {content text : Str} (hsilent : isSilentReply text = true) : ∀ ticks : List Tick,
    walk (inputTick m) (inputStart m content) ticks = .ok (.returned (.response text)) →
      SilentTurn m content ticks := by
  intro ticks
  induction ticks using List.reverseRecOn with
  | nil =>
    intro h
    cases h
  | append_singleton ticks t ih =>
    intro h
    rw [walk_concat] at h
    obtain ⟨pc, hpc, hstep⟩ := bind_eq_ok h
    cases inputTick_move hstep with
    | goesOn h => cases h
    | stays => exact (ih hpc).concat t
    | returns hqueue =>
      obtain ⟨pre, t₁, reply, rfl, hfinish, hends⟩ := processed_silent hsilent hpc
      exact ⟨pre, t₁, t, [], _, reply, by simp, hfinish, hends, hqueue rfl⟩

/-- The other way round: the reply of the last turn is returned. -/
theorem returned_of_silentTurn {content : Str} {ticks : List Tick} (h : SilentTurn m content ticks) :
    ∃ text, isSilentReply text = true ∧
      walk (inputTick m) (inputStart m content) ticks = .ok (.returned (.response text)) := by
  obtain ⟨pre, t, t', post, job, text, rfl, hwalk, ⟨hgone, hstate, hsilent⟩, hqueue⟩ := h
  refine ⟨_, hsilent, ?_⟩
  generalize hreply : t.env.transformResponse (t.env.extractSuggestions text) = reply
  have hfinish : inputTick m (.finish job (.ok (.response text))) t = .ok (.processed job (.response reply)) := by
    simp [inputTick, hgone, inputStep, finishStep, hstate, hreply]
  have hreturn : inputTick m (.processed job (.response reply)) t' = .ok (.returned (.response reply)) := by
    rcases hqueue with hgone' | hqueue
    · simp [inputTick, needsThread, hgone']
    · simp [inputTick, needsThread, inputStep, processedStep, SubmissionResult.isResponse,
        Thread.drainPendingMessages, hqueue]
  have hend : ∀ u, inputTick m (.returned (.response reply)) u = .ok (.returned (.response reply)) := fun u => by
    simp [inputTick, needsThread, inputStep]
  rw [walk_at hwalk hfinish, ← List.nil_append (t' :: post), walk_at rfl hreturn]
  exact walk_fixed hend post

/-- **Silent replies of a user message.** -/
theorem input_silent_iff (content : Str) :
    (∃ text, isSilentReply text = true ∧ processUserInput m content = some (.ok (.response text))) ↔
      SilentTurn m content m.ticks := by
  constructor
  · rintro ⟨text, hsilent, h⟩
    obtain ⟨pc, hwalk, hpc⟩ := outcome_ok h
    cases pc with
    | returned result =>
      cases hpc
      exact returned_silent hsilent _ hwalk
    | _ => cases hpc
  · intro h
    obtain ⟨text, hsilent, hwalk⟩ := returned_of_silentTurn h
    refine ⟨text, hsilent, ?_⟩
    rw [processUserInput, hwalk]
    rfl

/-- A result that the handler has come to is not without a text. -/
def InputPc.Speaks : InputPc → Prop
  | .processed _ result => result ≠ .ok none
  | .returned result => result ≠ .ok none
  | _ => True

theorem InputMove.speaks {t : Tick} {pc pc' : InputPc} (hmove : InputMove t pc pc') (h : InputPc.Speaks pc) :
    InputPc.Speaks pc' := by
  cases hmove with
  | goesOn hover => cases pc' <;> trivial
  | answers haudible =>
    rintro rfl
    exact haudible rfl
  | ends hgone hstate => exact nofun
  | returns hqueue => exact h
  | stays => exact h

theorem input_speaks {content : Str} {result : SubmissionResult}
    (h : processUserInput m content = some (.ok result)) : result ≠ .ok none := by
  obtain ⟨pc, hwalk, hpc⟩ := outcome_ok h
  have hstep : ∀ pc t, InputPc.Speaks pc → Returns InputPc.Speaks (inputTick m pc t) :=
    fun pc t hspeaks pc' hpc' => (inputTick_move hpc').speaks hspeaks
  have hstart : InputPc.Speaks (inputStart m content) := trivial
  have hspeaks : InputPc.Speaks pc := returns_foldlM hstep m.ticks hstart pc hwalk
  cases pc with
  | returned result' =>
    cases hpc
    exact hspeaks
  | _ => cases hpc

end Input

/-! ## Approvals -/

section Approval

variable {m : Incoming}

/-- The step ends `process_approval` with a silent text: instructions for a token, or a reply of the model after the
suggestions are taken out. -/
def ApprovalPc.SilentAt (t : Tick) : ApprovalPc → Prop
  | .authIntercept _ instructions => isSilentReply instructions = true
  | .recordDeferred _ _ [] _ (some instructions) => isSilentReply instructions = true
  | .finish (.ok (.response text)) => t.gone = false ∧ isSilentReply (t.env.extractSuggestions text) = true
  | _ => False

/-- An approval ends with a silent text. -/
def SilentApproval (m : Incoming) (requestId : Option Nat) (approved always : Bool) (ticks : List Tick) : Prop :=
  ∃ pre t post pc, ticks = pre ++ t :: post ∧ walk (approvalTick m) (.take requestId approved always) pre = .ok pc ∧
    ApprovalPc.SilentAt t pc

theorem rejection_heard (toolName : Str) : isSilentReply (rejection toolName) = false := isSilentReply_false rfl

theorem takeStep_returned {w : World} {requestId : Option Nat} {approved always : Bool} {result : SubmissionResult}
    (h : (takeStep w requestId approved always).2 = .returned result) : result = .ok (some []) := by
  unfold takeStep at h
  split at h
  · cases h
    rfl
  · simp only at h
    split at h
    · cases h
      rfl
    · split at h
      · cases h
      · split at h
        · split at h <;> cases h
        · cases h

theorem preflightStep_ne_returned (env : Env) (w : World) (p : Session.PendingApproval) (context : List Llm.ChatMessage)
    (runnable rest : List Llm.ToolCall) (result : SubmissionResult) :
    preflightStep env w p context runnable rest ≠ .returned result := by
  cases rest with
  | nil => exact nofun
  | cons tc rest =>
    simp only [preflightStep]
    split
    · exact nofun
    · split <;> exact nofun

/-- How an approval returns: the result is not without a text, and a silent one comes from one of the three places. -/
theorem approvalTick_returned {pc : ApprovalPc} {t : Tick} {result : SubmissionResult}
    (h : approvalTick m pc t = .ok (.returned result)) :
    pc = .returned result ∨
      result ≠ .ok none ∧ ∀ text, result = .response text → isSilentReply text = true → ApprovalPc.SilentAt t pc := by
  unfold approvalTick at h
  split at h
  · cases h
  next hgone =>
  replace h := Except.ok.inj h
  cases pc with
  | take requestId approved always =>
    obtain rfl := takeStep_returned h
    exact .inr ⟨nofun, nofun⟩
  | restore p =>
    cases h
    exact .inr ⟨nofun, nofun⟩
  | autoApprove p => cases h
  | setProcessing p => cases h
  | execute p => cases h
  | record p outcome =>
    simp only [approvalStep] at h
    split at h <;> cases h
  | authIntercept extName instructions =>
    cases h
    refine .inr ⟨nofun, ?_⟩
    rintro text heq hsilent
    cases heq
    exact hsilent
  | preflight p context runnable rest =>
    exact absurd h (preflightStep_ne_returned t.env t.world p context runnable rest result)
  | runDeferred p context runnable needed => cases h
  | recordDeferred p context results needed auth =>
    cases results with
    | cons r results =>
      simp only [approvalStep] at h
      split at h <;> cases h
    | nil =>
      cases auth with
      | some instructions =>
        cases h
        refine .inr ⟨nofun, ?_⟩
        rintro text heq hsilent
        cases heq
        exact hsilent
      | none => cases needed <;> cases h
  | deferredAuth p context results needed extName instructions => cases h
  | awaitNew p context needed =>
    cases h
    exact .inr ⟨nofun, nofun⟩
  | loop context =>
    simp only [approvalStep] at h
    split at h <;> cases h
  | finish loopResult =>
    cases loopResult with
    | error e =>
      cases h
      exact .inr ⟨nofun, nofun⟩
    | ok loopResult =>
      cases loopResult with
      | response reply =>
        cases h
        refine .inr ⟨nofun, ?_⟩
        rintro text heq hsilent
        cases heq
        exact ⟨by simpa [approvalNeedsThread] using hgone, hsilent⟩
      | needApproval p =>
        cases h
        exact .inr ⟨nofun, nofun⟩
  | reject p =>
    cases h
    refine .inr ⟨nofun, ?_⟩
    rintro text heq hsilent
    cases heq
    rw [rejection_heard] at hsilent
    cases hsilent
  | returned result' =>
    cases h
    exact .inl rfl

/-- The other way round: at the three places the silent text is returned. -/
theorem returned_of_silentAt {pc : ApprovalPc} {t : Tick} (h : ApprovalPc.SilentAt t pc) :
    ∃ text, isSilentReply text = true ∧ approvalTick m pc t = .ok (.returned (.response text)) := by
  cases pc with
  | authIntercept extName instructions =>
    exact ⟨instructions, h, by simp [approvalTick, approvalNeedsThread, approvalStep]⟩
  | recordDeferred p context results needed auth =>
    cases results with
    | cons r results => exact h.elim
    | nil =>
      cases auth with
      | none => exact h.elim
      | some instructions => exact ⟨instructions, h, by simp [approvalTick, approvalNeedsThread, approvalStep]⟩
  | finish loopResult =>
    cases loopResult with
    | error e => exact h.elim
    | ok loopResult =>
      cases loopResult with
      | needApproval p => exact h.elim
      | response reply =>
        obtain ⟨hgone, hsilent⟩ := h
        exact ⟨_, hsilent, by simp [approvalTick, hgone, approvalStep]⟩
  | _ => exact h.elim

/-- An approval that returns a result without a text, or a silent one, has come through one of the three places. -/
theorem approval_returned (requestId : Option Nat) (approved always : Bool) {result : SubmissionResult} :
    ∀ ticks : List Tick, walk (approvalTick m) (.take requestId approved always) ticks = .ok (.returned result) →
      result ≠ .ok none ∧
        ∀ text, result = .response text → isSilentReply text = true →
          SilentApproval m requestId approved always ticks := by
  intro ticks
  induction ticks using List.reverseRecOn with
  | nil =>
    intro h
    cases h
  | append_singleton ticks t ih =>
    intro h
    rw [walk_concat] at h
    obtain ⟨pc, hpc, hstep⟩ := bind_eq_ok h
    rcases approvalTick_returned hstep with rfl | ⟨hspeaks, hplace⟩
    · obtain ⟨hspeaks, hsilent⟩ := ih hpc
      refine ⟨hspeaks, fun text heq htext => ?_⟩
      obtain ⟨pre, t₁, post, pc', rfl, hrest⟩ := hsilent text heq htext
      exact ⟨pre, t₁, post ++ [t], pc', by simp, hrest⟩
    · exact ⟨hspeaks, fun text heq htext => ⟨ticks, t, [], pc, rfl, hpc, hplace text heq htext⟩⟩

theorem approval_result {requestId : Option Nat} {approved always : Bool} {result : SubmissionResult}
    (h : processApproval m requestId approved always = some (.ok result)) :
    walk (approvalTick m) (.take requestId approved always) m.ticks = .ok (.returned result) := by
  obtain ⟨pc, hwalk, hpc⟩ := outcome_ok h
  cases pc with
  | returned result' =>
    cases hpc
    exact hwalk
  | _ => cases hpc

/-- **Silent replies of an approval.** -/
theorem approval_silent_iff (requestId : Option Nat) (approved always : Bool) :
    (∃ text, isSilentReply text = true ∧ processApproval m requestId approved always = some (.ok (.response text))) ↔
      SilentApproval m requestId approved always m.ticks := by
  constructor
  · rintro ⟨text, hsilent, h⟩
    exact (approval_returned requestId approved always m.ticks (approval_result h)).2 text rfl hsilent
  · rintro ⟨pre, t, post, pc, hticks, hwalk, hplace⟩
    obtain ⟨text, hsilent, hstep⟩ := @returned_of_silentAt m pc t hplace
    have hend : ∀ u, approvalTick m (.returned (.response text)) u = .ok (.returned (.response text)) := fun u => by
      simp [approvalTick, approvalNeedsThread, approvalStep]
    refine ⟨text, hsilent, ?_⟩
    rw [processApproval, hticks, walk_at hwalk hstep, walk_fixed hend]
    rfl

end Approval

/-! ## Handlers in a session -/

section InSession

variable (env : Env) (services : Services) (i : Nat)

/-- The steps of one call in a run of the session, with what it finds. -/
def ticksOf : World → List Label → List Tick
  | _, [] => []
  | w, l :: ls =>
    let rest := ticksOf (Session.step env w l) ls
    match l with
    | .advance j answer => if j = i then ⟨env, w, answer, services, false⟩ :: rest else rest
    | _ => rest

/-- The step of a call in the session. -/
def callNext (call : Call) (t : Tick) : Call := (callStep t.env t.world t.answer call).2

def inputNext (pc : InputPc) (t : Tick) : InputPc := (inputStep t.env t.world t.answer pc).2

/-- The session has the thread, and a command of user input has the result that the router and its handler give. -/
def RouterAgrees (m : Incoming) (pc : InputPc) (t : Tick) : Prop :=
  t.gone = false ∧ ∀ job, pc = .validate job → t.env.rejects job.message.text = none →
    match Router.routeCommand m.readers.case job.message.text with
    | some intent => t.env.isCommand job.message.text = true ∧
        handleJobOrCommand t.services intent m.message.channel = .ok t.answer.command
    | none => t.env.isCommand job.message.text = false

variable {env services i}

/-- A step of the session changes the call that it is about. -/
theorem calls_step {w : World} {call : Call} (h : w.calls[i]? = some call) (l : Label) :
    (Session.step env w l).calls[i]? = some (match l with
      | .advance j answer => if j = i then (callStep env w answer call).2 else call
      | _ => call) := by
  have hlt : i < w.calls.length := (List.getElem?_eq_some_iff.mp h).1
  cases l with
  | userInput content attachments augmented => rwa [Session.step, List.getElem?_append_left hlt]
  | approval requestId approved always => rwa [Session.step, List.getElem?_append_left hlt]
  | interrupt =>
    simp only [Session.step, processInterrupt]
    split <;> exact h
  | clear => exact h
  | undo checkpointId =>
    simp only [Session.step, processUndo]
    split <;> exact h
  | advance j answer =>
    simp only [Session.step]
    by_cases hj : j = i
    · subst hj
      rw [h, if_pos rfl]
      exact List.getElem?_set_self hlt
    · rw [if_neg hj]
      split
      · exact h
      · rw [List.getElem?_set_ne hj]
        exact h

/-- A call after a run of the session has taken its own steps. -/
theorem call_of_run : ∀ (ls : List Label) {w : World} {call : Call}, w.calls[i]? = some call →
    (run (Session.step env) w ls).calls[i]? = some (run callNext call (ticksOf env services i w ls))
  | [], _, _, h => h
  | l :: ls, w, call, h => by
    rw [run_cons, call_of_run ls (calls_step h l)]
    cases l with
    | advance j answer =>
      simp only [ticksOf]
      split <;> rfl
    | _ => rfl

theorem run_input (ticks : List Tick) : ∀ pc : InputPc,
    run callNext (.input pc) ticks = .input (run inputNext pc ticks) := by
  induction ticks with
  | nil => exact fun _ => rfl
  | cons t ticks ih => exact fun pc => ih (inputNext pc t)

/-- Where the router agrees, the walk of a handler is its run. -/
theorem walkInput_eq_run {m : Incoming} : ∀ (ticks : List Tick) {pc : InputPc},
    Along inputNext (RouterAgrees m) pc ticks → walk (inputTick m) pc ticks = .ok (run inputNext pc ticks)
  | [], _, _ => rfl
  | t :: ticks, pc, ⟨⟨hgone, hrouter⟩, hrest⟩ => by
    have htick : inputTick m pc t = .ok (inputNext pc t) := by
      cases pc with
      | validate job =>
        have hcommand := hrouter job rfl
        simp only [inputTick, hgone, Bool.false_and, Bool.false_eq_true, if_false, inputNext, inputStep, validateStep]
        cases hreject : t.env.rejects job.message.text with
        | some reason => rfl
        | none =>
          have hcommand := hcommand hreject
          cases hroute : Router.routeCommand m.readers.case job.message.text with
          | none =>
            rw [hroute] at hcommand
            simp [hcommand]
          | some intent =>
            rw [hroute] at hcommand
            simp [hcommand.1, hcommand.2, Except.map]
      | _ => simp [inputTick, inputNext, hgone]
    have ih := walkInput_eq_run ticks hrest
    unfold walk at ih ⊢
    rw [List.foldlM_cons, htick]
    exact ih

/-- **A user message in a session** is a walk of its handler. -/
theorem walkInput_of_run {m : Incoming} {w : World} {pc : InputPc} (ls : List Label)
    (hcall : w.calls[i]? = some (.input pc))
    (h : Along inputNext (RouterAgrees m) pc (ticksOf env services i w ls)) :
    ∃ pc', (run (Session.step env) w ls).calls[i]? = some (.input pc') ∧
      walk (inputTick m) pc (ticksOf env services i w ls) = .ok pc' := by
  refine ⟨run inputNext pc (ticksOf env services i w ls), ?_, walkInput_eq_run _ h⟩
  rw [@call_of_run env services i ls w _ hcall, run_input]

/-- **An approval in a session** is a walk of its handler. -/
theorem walkApproval_of_run {m : Incoming} : ∀ (ls : List Label) {w : World} {since : Nat} {pc : ApprovalPc},
    w.calls[i]? = some (.approval since pc) →
      ∃ since' pc', (run (Session.step env) w ls).calls[i]? = some (.approval since' pc') ∧
        walk (approvalTick m) pc (ticksOf env services i w ls) = .ok pc' := by
  have hwalk : ∀ (ticks : List Tick), (∀ t ∈ ticks, t.gone = false) → ∀ (since : Nat) (pc : ApprovalPc),
      ∃ since' pc', run callNext (.approval since pc) ticks = .approval since' pc' ∧
        walk (approvalTick m) pc ticks = .ok pc' := by
    intro ticks
    induction ticks with
    | nil => exact fun _ since pc => ⟨since, pc, rfl, rfl⟩
    | cons t ticks ih =>
      intro hgone since pc
      obtain ⟨since', pc', hrun, hrest⟩ := ih (fun u hu => hgone u (List.mem_cons_of_mem _ hu))
        (pc.sinceNow t.world since) (approvalStep t.env t.world t.answer pc).2
      refine ⟨since', pc', hrun, ?_⟩
      have htick : approvalTick m pc t = .ok (approvalStep t.env t.world t.answer pc).2 := by
        simp [approvalTick, hgone t List.mem_cons_self]
      unfold walk at hrest ⊢
      rw [List.foldlM_cons, htick]
      exact hrest
  have hpresent : ∀ (ls : List Label) (w : World), ∀ t ∈ ticksOf env services i w ls, t.gone = false := by
    intro ls
    induction ls with
    | nil => exact fun _ _ ht => absurd ht List.not_mem_nil
    | cons l ls ih =>
      intro w t ht
      cases l with
      | advance j answer =>
        simp only [ticksOf] at ht
        split at ht
        · rcases List.mem_cons.mp ht with rfl | ht
          · rfl
          · exact ih _ t ht
        · exact ih _ t ht
      | _ => exact ih _ t ht
  intro ls w since pc hcall
  obtain ⟨since', pc', hrun, hrest⟩ := hwalk _ (hpresent ls w) since pc
  exact ⟨since', pc', by rw [@call_of_run env services i ls w _ hcall, hrun], hrest⟩

end InSession

end Ironclaw.Agent

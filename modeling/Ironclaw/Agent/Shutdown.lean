import Ironclaw.Agent.SilentReply

/-!
# Shutdowns

Where a shutdown of the main loop comes from. A silent reply is converted to no text, and no text stands for a shutdown,
so the loop is left at messages that ask for nothing of the kind.

- `intake_none`: before the handlers, only a routine in a single-message REPL shuts the agent down;
- `answer_none`, `answer_of_silent`: what it takes of a handler to shut the agent down;
- `handleMessage_none`: a message that shuts the agent down asks to quit, comes from such a REPL, or ends silently;
- `leaves_iff`: the loop is left only as it should exactly when no silent reply comes to it from elsewhere;
- `silent_reply_stops`: a model has nothing to say, and the process ends.
-/

namespace Ironclaw.Agent

open Text Run Hoare Session Commands

/-! ## Where a shutdown comes from -/

section Shutdown

/-- The handler of the submission ends with a silent reply. -/
def SilentSubmission (m : Incoming) : Submission → Prop
  | .userInput content => SilentTurn m content m.ticks
  | .execApproval requestId approved always => SilentApproval m (some requestId) approved always m.ticks
  | .approvalResponse approved always => SilentApproval m none approved always m.ticks
  | _ => False

/-- The message comes to a handler that ends with a silent reply. -/
def SilentReply (m : Incoming) : Prop := ∃ submission, intake m = .ok submission ∧ SilentSubmission m submission

variable {m : Incoming}

theorem convert_none {result : SubmissionResult} (hspeaks : result ≠ .ok none) (h : convert m result = none) :
    (∃ text, result = .response text ∧ isSilentReply text = true) ∨ isSingleMessageRepl m.message = true := by
  cases result with
  | response content =>
    simp only [convert] at h
    split at h
    next hsilent => exact .inl ⟨content, rfl, hsilent⟩
    · cases h
  | ok message =>
    simp only [convert] at h
    split at h
    next hexit =>
      rw [Bool.and_eq_true_iff, Bool.and_eq_true_iff] at hexit
      exact .inr hexit.1.2
    · rw [h] at hspeaks
      exact absurd rfl hspeaks
  | error message => cases h
  | interrupted => cases h
  | needApproval => cases h

theorem convert_heard {result : SubmissionResult} (hheard : Heard result) (h : convert m result = none) :
    isSingleMessageRepl m.message = true := by
  have hspeaks : result ≠ .ok none := by
    rintro rfl
    obtain ⟨text, htext, -⟩ := hheard
    cases htext
  rcases convert_none hspeaks h with ⟨text, rfl, hsilent⟩ | hrepl
  · rw [show isSilentReply text = false from hheard] at hsilent
    cases hsilent
  · exact hrepl

theorem map_eq_ok {α β ε : Type} {x : Option (Except ε α)} {f : α → β} {b : β}
    (h : x.map (Except.map f) = some (.ok b)) : ∃ a, x = some (.ok a) ∧ f a = b := by
  obtain ⟨y, rfl, hy⟩ := Option.map_eq_some_iff.mp h
  cases y with
  | error e => cases hy
  | ok a => exact ⟨a, rfl, Except.ok.inj hy⟩

/-- A command with a text does not shut the agent down, except in a single-message REPL. -/
theorem heard_answer {x : Except Str SubmissionResult} (hx : Returns Heard x)
    (h : (some x).map (Except.map (convert m)) = some (.ok none)) : isSingleMessageRepl m.message = true := by
  obtain ⟨result, hresult, hnone⟩ := map_eq_ok h
  exact convert_heard (hx result (Option.some.inj hresult)) hnone

/-- The same for a handler whose silent results are known. -/
theorem spoken_answer {x : Option (Except Str SubmissionResult)} {Silenced : Prop}
    (hspeaks : ∀ result, x = some (.ok result) → result ≠ .ok none)
    (hsilent : (∃ text, isSilentReply text = true ∧ x = some (.ok (.response text))) ↔ Silenced) :
    x.map (Except.map (convert m)) = some (.ok none) → isSingleMessageRepl m.message = true ∨ Silenced := by
  intro h
  obtain ⟨result, hresult, hnone⟩ := map_eq_ok h
  rcases convert_none (hspeaks result hresult) hnone with ⟨text, rfl, htext⟩ | hrepl
  · exact .inr (hsilent.mp ⟨text, htext, hresult⟩)
  · exact .inl hrepl

/-- Every submission: what it takes to shut the agent down. -/
theorem answer_none : ∀ submission : Submission, answerSubmission m submission = some (.ok none) →
    submission = .quit ∨ isSingleMessageRepl m.message = true ∨ SilentSubmission m submission
  | .userInput content, h => .inr (spoken_answer (fun _ => input_speaks) (input_silent_iff content) h)
  | .execApproval requestId approved always, h =>
    .inr (spoken_answer (fun _ hresult => (approval_returned _ _ _ _ (approval_result hresult)).1)
      (approval_silent_iff (some requestId) approved always) h)
  | .approvalResponse approved always, h =>
    .inr (spoken_answer (fun _ hresult => (approval_returned _ _ _ _ (approval_result hresult)).1)
      (approval_silent_iff none approved always) h)
  | .interrupt, h => .inr (.inl (heard_answer interrupt_heard h))
  | .compact, h => .inr (.inl (heard_answer compact_heard h))
  | .undo, h => .inr (.inl (heard_answer undo_heard h))
  | .redo, h => .inr (.inl (heard_answer redo_heard h))
  | .resume checkpointId, h => .inr (.inl (heard_answer (resume_heard checkpointId) h))
  | .clear, h => .inr (.inl (heard_answer clear_heard h))
  | .switchThread threadId, h => .inr (.inl (heard_answer (returns_ok (switchThread_heard threadId)) h))
  | .newThread, h => .inr (.inl (heard_answer (returns_ok (newThread_heard m.newThreadId)) h))
  | .heartbeat, h => .inr (.inl (heard_answer (returns_ok heartbeat_heard) h))
  | .summarize, h => .inr (.inl (heard_answer summarize_heard h))
  | .suggest, h => .inr (.inl (heard_answer suggest_heard h))
  | .jobStatus jobId, h => .inr (.inl (heard_answer (returns_ok (jobStatus_heard jobId)) h))
  | .jobCancel jobId, h => .inr (.inl (heard_answer (returns_ok (jobCancel_heard jobId)) h))
  | .quit, _ => .inl rfl
  | .systemCommand command args, h => by
    refine .inr (.inl ?_)
    unfold answerSubmission at h
    simp only at h
    split at h
    · have hout : reasoningOutput m args = none := Except.ok.inj (Option.some.inj h)
      unfold reasoningOutput at hout
      rcases @reasoning_text m.view args with ⟨_, ht⟩ | ⟨_, ht⟩ | ⟨_, ht⟩ <;> rw [ht] at hout <;> cases hout
    · exact heard_answer (returns_ok (systemCommand_heard command args m.message.channel)) h

/-- A silent reply shuts the agent down. -/
theorem answer_of_silent : ∀ submission : Submission, SilentSubmission m submission →
    answerSubmission m submission = some (.ok none)
  | .userInput content, h => by
    obtain ⟨text, hsilent, hresult⟩ := (input_silent_iff content).mpr h
    simp [answerSubmission, submissionResult, hresult, Except.map, convert, hsilent]
  | .execApproval requestId approved always, h => by
    obtain ⟨text, hsilent, hresult⟩ := (approval_silent_iff (some requestId) approved always).mpr h
    simp [answerSubmission, submissionResult, hresult, Except.map, convert, hsilent]
  | .approvalResponse approved always, h => by
    obtain ⟨text, hsilent, hresult⟩ := (approval_silent_iff none approved always).mpr h
    simp [answerSubmission, submissionResult, hresult, Except.map, convert, hsilent]

/-- The hooks do not turn a message into a request to quit. -/
theorem inboundHook_quit {submission : Submission} (h : inboundHook m submission = .ok .quit) : submission = .quit := by
  cases submission with
  | userInput content =>
    simp only [inboundHook] at h
    split at h <;> cases h
  | _ => exact Except.ok.inj h

theorem inboundHook_error {submission : Submission} (out : Option Str) (h : inboundHook m submission = .error out) :
    out ≠ none := by
  cases submission with
  | userInput content =>
    simp only [inboundHook] at h
    split at h <;> cases h <;> exact nofun
  | _ => cases h

theorem hydrate_error {out : Option Str} (h : hydrate m = .error out) : out ≠ none := by
  unfold hydrate at h
  split at h <;> cases h
  exact nofun

theorem authMode_error {submission : Submission} {out : Option Str} (h : authMode m submission = .error out) :
    out ≠ none := by
  cases submission with
  | userInput content =>
    simp only [authMode] at h
    split at h
    · cases h
    · split at h <;> cases h <;> exact nofun
  | _ => cases h

theorem eventTriggers_none {submission : Submission} (h : eventTriggers m submission = .error none) :
    isSingleMessageRepl m.message = true := by
  cases submission with
  | userInput content =>
    simp only [eventTriggers] at h
    split at h
    · cases h
    · split at h
      · replace h := Except.error.inj h
        split at h
        next hrepl => exact hrepl
        · cases h
      · cases h
  | _ => cases h

/-- Before the handlers only a routine in a single-message REPL shuts the agent down. -/
theorem intake_none (h : intake m = .error none) : isSingleMessageRepl m.message = true := by
  unfold intake at h
  split at h
  · cases h
  rcases bind_eq_error h with hhook | ⟨submission, -, h⟩
  · exact absurd rfl (inboundHook_error none hhook)
  rcases bind_eq_error h with hhydrate | ⟨_, -, h⟩
  · exact absurd rfl (hydrate_error hhydrate)
  rcases bind_eq_error h with hauth | ⟨_, -, h⟩
  · exact absurd rfl (authMode_error hauth)
  rcases bind_eq_error h with htriggers | ⟨_, -, h⟩
  · exact eventTriggers_none htriggers
  · cases h

theorem intake_quit (h : intake m = .ok .quit) : SubmissionParser.parse m.readers m.message.content = .quit := by
  unfold intake at h
  split at h
  · cases h
  obtain ⟨submission, hhook, h⟩ := bind_eq_ok h
  obtain ⟨_, -, h⟩ := bind_eq_ok h
  obtain ⟨_, -, h⟩ := bind_eq_ok h
  obtain ⟨_, -, h⟩ := bind_eq_ok h
  obtain rfl : submission = .quit := Except.ok.inj h
  exact inboundHook_quit hhook

/-- The message asks to quit, or comes from a single-message REPL. -/
def MayStop (m : Incoming) : Prop :=
  SubmissionParser.parse m.readers m.message.content = .quit ∨ isSingleMessageRepl m.message = true

theorem handleMessage_none (h : handleMessage m = some (.ok none)) : MayStop m ∨ SilentReply m := by
  unfold handleMessage at h
  cases hintake : intake m with
  | error out =>
    rw [hintake] at h
    obtain rfl : out = none := Except.ok.inj (Option.some.inj h)
    exact .inl (.inr (intake_none hintake))
  | ok submission =>
    rw [hintake] at h
    rcases answer_none submission h with rfl | hrepl | hsilent
    · exact .inl (.inl (intake_quit hintake))
    · exact .inl (.inr hrepl)
    · exact .inr ⟨submission, hintake, hsilent⟩

theorem handleMessage_of_silent (h : SilentReply m) : handleMessage m = some (.ok none) := by
  obtain ⟨submission, hintake, hsilent⟩ := h
  rw [handleMessage, hintake]
  exact answer_of_silent submission hsilent

/-! ## Runs of the loop -/

/-- What may end the loop: Ctrl+C, the end of the streams, or such a message. -/
def LoopInput.MayStop : LoopInput → Prop
  | .ctrlC => True
  | .streamsEnded => True
  | .message m => Agent.MayStop m

/-- The loop is left at this input only if the input may end it. -/
def LeavesProperly (l : Loop) (input : LoopInput) : Prop :=
  l.status = .listening → (mainStep l input).status = .left → input.MayStop

/-- A message that comes to a silent reply may end the loop anyway. -/
def Unsilenced (l : Loop) (input : LoopInput) : Prop :=
  l.status = .listening → ∀ m, input = .message m → SilentReply m → Agent.MayStop m

/-- The loop is left at a message exactly when no text comes back. -/
theorem mainStep_left_iff {l : Loop} (hl : l.status = .listening) :
    (mainStep l (.message m)).status = .left ↔ handleMessage m = some (.ok none) := by
  unfold mainStep
  rw [if_pos hl]
  simp only
  split
  next hm => simp [hm]
  next response hm =>
    rw [hm]
    split <;> simp [hl]
  next hm => simp [hm]
  next e hm =>
    rw [hm]
    simp [hl]

theorem leaves_step_iff (l : Loop) (input : LoopInput) : LeavesProperly l input ↔ Unsilenced l input := by
  cases input with
  | ctrlC => exact iff_of_true (fun _ _ => trivial) fun _ m heq => by cases heq
  | streamsEnded => exact iff_of_true (fun _ _ => trivial) fun _ m heq => by cases heq
  | message m =>
    constructor
    · intro h hl m' heq hsilent
      cases heq
      exact h hl ((mainStep_left_iff hl).mpr (handleMessage_of_silent hsilent))
    · intro h hl hleft
      rcases handleMessage_none ((mainStep_left_iff hl).mp hleft) with hstop | hsilent
      · exact hstop
      · exact h hl m rfl hsilent

/-- **The agent stays up**: in a run, the loop is left only at an input that may end it, exactly when no message that
may not end it comes to a silent reply. -/
theorem leaves_iff (inputs : List LoopInput) :
    Along mainStep LeavesProperly Loop.start inputs ↔ Along mainStep Unsilenced Loop.start inputs := by
  have hsame : LeavesProperly = Unsilenced := by
    funext l input
    exact propext (leaves_step_iff l input)
  rw [hsame]

end Shutdown

/-! ## A silent reply -/

/-- Commands that find nothing. -/
def emptyHanded : Services where
  case := asciiCase
  parseUuid _ := none
  showUuid := showNat
  userId := "sam".toList
  store := none
  getContext _ := .error "Job error: Job 0 not found".toList
  summaryFor := ⟨0, 0, 0, 0, 0⟩
  allJobsFor := []
  dispatchJob _ _ := .ok 0
  stopJob _ := .ok ()
  attemptRecovery _ := .ok ()
  scheduleJob _ := .ok ()
  inDocker := false
  tools := []
  activeModel := "model".toList
  listModels := .ok []
  multiTenant := false
  setModel _ := .ok ()
  skillRegistry := none
  skillCatalog := none
  formatCount n suffix := showNat n ++ " ".toList ++ suffix
  heartbeat := none
  complete := .error "no answer".toList
  compaction := .error "no answer".toList
  usagePercent := "0.0".toList

/-- A message in a group chat, to which the model replies in a new thread. -/
def groupMessage (content reply : Str) : Incoming where
  message := ⟨"telegram".toList, content, false, .null, none, none, false⟩
  readers := ⟨asciiCase, fun _ => none, fun _ => none⟩
  inbound := .proceed none
  hydration := none
  view := ⟨0, some .new, .new, desk.json, 0, false⟩
  services := emptyHanded
  pendingAuth := none
  configureToken := none
  fired := none
  augmented := none
  newThreadId := 1
  ticks := ticksOf desk emptyHanded 0 Session.initial
    (.userInput content false none :: turnOf 0 (.ok (.response reply)) ++ [.advance 0 calm])
  stateAfter := some .idle
  outbound := .proceed none

/-- The model has nothing to say in a group chat, and the loop is left. -/
theorem silent_reply_stops :
    let m := groupMessage "See you at noon, Ann!".toList "NO_REPLY".toList
    handleMessage m = some (.ok none) ∧ ¬MayStop m ∧ (mainStep Loop.start (.message m)).status = .left ∧
      ¬Along mainStep LeavesProperly Loop.start [.message m] := by
  intro m
  have hnone : handleMessage m = some (.ok none) := by decide
  have hstop : ¬MayStop m := by
    rintro (h | h)
    · exact absurd h (by decide)
    · exact absurd h (by decide)
  have hleft : (mainStep Loop.start (.message m)).status = .left := (mainStep_left_iff rfl).mpr hnone
  exact ⟨hnone, hstop, hleft, fun h => hstop (h.1 rfl hleft)⟩

end Ironclaw.Agent

import Ironclaw.Lib.Run
import Ironclaw.Llm.Reasoning

/-!
# Empty replies to a worker

The worker of a job runs the agentic loop with nobody to ask. When a reply has neither a call nor a text, the model is
nudged; the next time it is asked for a text, without tools; and the third time the worker gives up. In between there
may be iterations of which the recovery is not told: the loop's own nudges, and calls that were cut off.

- `refines_step`: the fields of the recovery are one counter of empty replies;
- `misses_run`, `answered_run`: a failure comes after three empty replies, and an answer is one of the replies;
- `worker_gives_up`: all of it for every run of a worker.
-/

namespace Ironclaw.Worker

open Text Run Llm

/-! ## The recovery -/

inductive ResponseAnomaly
  | emptyToolCompletion
  | emptyTextResponse
  deriving DecidableEq

structure ResponseMetadata where
  anomaly : Option ResponseAnomaly

def EMPTY_TOOL_COMPLETION_NUDGE : Str :=
  ("Your previous tool-enabled response was empty or malformed.\n" ++
    "If you need to use a tool, call it now with valid arguments.\n" ++
    "Otherwise, provide a real status update about work already completed.").toList

def FORCE_TEXT_RECOVERY_PROMPT : Str :=
  ("Your previous tool-enabled responses were empty or malformed.\n" ++
    "Do not call any more tools in the next reply.\n" ++
    "Instead, provide a concise final status based only on work already completed.\n" ++
    "If the job is complete, say so explicitly. If not, explain what blocked you.").toList

def EMPTY_TOOL_COMPLETION_FAILURE : Str :=
  ("the selected model repeatedly returned empty or malformed tool-completion responses and is not reliable for " ++
    "autonomous tool use.").toList

structure AutonomousRecoveryState where
  consecutiveEmptyToolCompletions : Nat
  forceTextRecoveryPending : Bool
  forceTextRecoveryActive : Bool

inductive AutonomousRecoveryAction
  | proceed
  | toolModeNudge
  | forceTextRecovery
  | fail
  deriving DecidableEq

/-- `usize::MAX` -/
def USIZE_MAX : Nat := 2 ^ 64 - 1

namespace AutonomousRecoveryState

def new : AutonomousRecoveryState := ⟨0, false, false⟩

def reset (_ : AutonomousRecoveryState) : AutonomousRecoveryState := new

def onValidToolCall (s : AutonomousRecoveryState) : AutonomousRecoveryState := s.reset

variable (s : AutonomousRecoveryState)

def beginIteration : Bool × AutonomousRecoveryState :=
  if s.forceTextRecoveryPending then
    (true, { s with forceTextRecoveryPending := false, forceTextRecoveryActive := true })
  else (s.forceTextRecoveryActive, s)

def onTextResponse (metadata : ResponseMetadata) (text : Str) : AutonomousRecoveryAction × AutonomousRecoveryState :=
  match metadata.anomaly, s.forceTextRecoveryActive with
  | some .emptyToolCompletion, _ =>
    let count := min (s.consecutiveEmptyToolCompletions + 1) USIZE_MAX
    let s := { s with consecutiveEmptyToolCompletions := count, forceTextRecoveryActive := false }
    if count = 1 then (.toolModeNudge, s)
    else if count = 2 then (.forceTextRecovery, { s with forceTextRecoveryPending := true })
    else (.fail, s)
  | some .emptyTextResponse, true => (.fail, { s with forceTextRecoveryActive := false })
  | _, _ => if (trim text).isEmpty then (.proceed, s) else (.proceed, s.reset)

end AutonomousRecoveryState

/-! ## The worker -/

/-- What comes of the call to the model: calls to execute, a text, a rate limit to wait for, or something that the loop
keeps to itself (a text that it nudges, or calls that were cut off). -/
inductive Reply
  | calls
  | text (content : Str)
  | rateLimited
  | untold

/-- An iteration: whether there are tools to offer and text is not forced, and the reply. No turn follows a stop signal
or a call that fails: they end the loop. -/
structure Turn where
  tools : Bool
  reply : Reply

/-- The end of the loop: a `Failure` or a `Response`. -/
inductive Ending
  | failure (reason : Str)
  | response (text : Str)
  deriving DecidableEq

/-- `JobDelegate`, with the messages for the model and the end of its loop. -/
structure JobLoop where
  recoveryState : AutonomousRecoveryState
  hasTextResponse : Bool
  messages : List ChatMessage
  ended : Option Ending

namespace JobLoop

def new : JobLoop := ⟨.new, false, [], none⟩

variable (rt : ReplyText) (stripSuggestions : Str → Str) (s : JobLoop)

/-- The metadata that `respond_with_tools` gives with a text. -/
def replyMetadata (offered : Bool) (content : Str) : ResponseMetadata where
  anomaly :=
    if (trim (cleanReply rt content)).isEmpty then
      some (if offered then .emptyToolCompletion else .emptyTextResponse)
    else none

/-- The text that `respond_with_tools` gives. -/
def replyText (content : Str) : Str :=
  if (trim (cleanReply rt content)).isEmpty then
    "I'm not sure how to respond to that.".toList else cleanReply rt content

/-- `handle_text_response` -/
def handleTextResponse (text : Str) (metadata : ResponseMetadata) : JobLoop :=
  let r := s.recoveryState.onTextResponse metadata text
  let s := { s with recoveryState := r.2 }
  match r.1 with
  | .toolModeNudge => { s with messages := s.messages ++ [.user EMPTY_TOOL_COMPLETION_NUDGE] }
  | .forceTextRecovery => { s with messages := s.messages ++ [.user FORCE_TEXT_RECOVERY_PROMPT] }
  | .fail => { s with ended := some (.failure EMPTY_TOOL_COMPLETION_FAILURE) }
  | .proceed =>
    if text.isEmpty then
      if s.hasTextResponse then { s with ended := some (.response []) } else s
    else
      { s with
        hasTextResponse := true
        messages := s.messages ++ [.assistant (stripSuggestions text)]
        ended := some (.response (stripSuggestions text)) }

/-- An iteration of the loop: `before_llm_call`, which may withhold the tools, and what is done with the reply. -/
def step (turn : Turn) : JobLoop :=
  if s.ended.isSome then s
  else
    let b := s.recoveryState.beginIteration
    let s := { s with recoveryState := b.2 }
    match turn.reply with
    | .calls => { s with recoveryState := s.recoveryState.onValidToolCall }
    | .text content =>
      s.handleTextResponse stripSuggestions (replyText rt content) (replyMetadata rt (turn.tools && !b.1) content)
    | .rateLimited => s.handleTextResponse stripSuggestions [] ⟨none⟩
    | .untold => s

end JobLoop

/-! ## The counter -/

/-- Where a worker is: it has had `misses` empty replies since the last call, or it is at its end. -/
inductive Course
  | running (misses : Nat)
  | failed
  | answered (content : Str)
  deriving DecidableEq

/-- A reply with nothing in it. -/
def Blank (rt : ReplyText) (content : Str) : Prop := trim (cleanReply rt content) = []

instance (rt : ReplyText) (content : Str) : Decidable (Blank rt content) := inferInstanceAs (Decidable (_ = _))

/-- The worker, by its counter: the third miss is its failure. -/
def Course.next (rt : ReplyText) : Course → Turn → Course
  | .running n, turn =>
    match turn.reply with
    | .calls => .running 0
    | .text content =>
      if Blank rt content ∧ n = 2 then .failed
      else if Blank rt content ∧ turn.tools = true then .running (n + 1)
      else .answered content
    | _ => .running n
  | c, _ => c

/-- The recovery has counted `n` misses. -/
structure Counted (n : Nat) (r : AutonomousRecoveryState) : Prop where
  le : n ≤ 2
  count : r.consecutiveEmptyToolCompletions = n
  forced : (r.forceTextRecoveryPending || r.forceTextRecoveryActive) = decide (n = 2)

theorem counted_reset (r : AutonomousRecoveryState) : Counted 0 r.reset := ⟨by decide, rfl, rfl⟩

/-- Text is forced exactly after two misses. -/
theorem counted_beginIteration {n : Nat} {r : AutonomousRecoveryState} (h : Counted n r) :
    r.beginIteration.1 = decide (n = 2) ∧ r.beginIteration.2.forceTextRecoveryActive = decide (n = 2) ∧
      r.beginIteration.2.forceTextRecoveryPending = false ∧ Counted n r.beginIteration.2 := by
  have hforced := h.forced
  unfold AutonomousRecoveryState.beginIteration
  cases hpending : r.forceTextRecoveryPending with
  | true =>
    rw [hpending, Bool.true_or] at hforced
    exact ⟨hforced, hforced, rfl, h.le, h.count, hforced⟩
  | false =>
    rw [hpending, Bool.false_or] at hforced
    exact ⟨hforced, hforced, hpending, h⟩

/-- A miss with tools is counted. -/
theorem onTextResponse_miss {n : Nat} {r : AutonomousRecoveryState} (h : Counted n r)
    (hactive : r.forceTextRecoveryActive = false) (hpending : r.forceTextRecoveryPending = false) (text : Str) :
    let a := r.onTextResponse ⟨some .emptyToolCompletion⟩ text
    (a.1 = .toolModeNudge ∨ a.1 = .forceTextRecovery) ∧ Counted (n + 1) a.2 := by
  obtain ⟨count, pending, active⟩ := r
  obtain ⟨hle, hcount, hforced⟩ := h
  dsimp only at hactive hpending hcount hforced
  subst hactive hpending hcount
  have hlt : count ≠ 2 := fun h2 => by simp [h2] at hforced
  have hcases : count = 0 ∨ count = 1 := by omega
  rcases hcases with rfl | rfl
  · exact ⟨.inl rfl, by decide, rfl, rfl⟩
  · exact ⟨.inr rfl, by decide, rfl, rfl⟩

section Runs

variable {rt : ReplyText} {stripSuggestions : Str → Str}

theorem replyText_ne_nil (content : Str) : trim (JobLoop.replyText rt content) ≠ [] ∧
    JobLoop.replyText rt content ≠ [] := by
  have htrim : trim (JobLoop.replyText rt content) ≠ [] := by
    unfold JobLoop.replyText
    split
    · decide
    next hne => exact fun hnil => hne (List.isEmpty_iff.mpr hnil)
  refine ⟨htrim, fun hnil => htrim ?_⟩
  rw [hnil]
  rfl

theorem replyMetadata_blank {content : Str} (h : Blank rt content) (offered : Bool) :
    JobLoop.replyMetadata rt offered content =
    ⟨some (if offered then .emptyToolCompletion else .emptyTextResponse)⟩ := by
  rw [JobLoop.replyMetadata, if_pos (List.isEmpty_iff.mpr h)]

theorem replyMetadata_full {content : Str} (h : ¬Blank rt content) (offered : Bool) :
    JobLoop.replyMetadata rt offered content = ⟨none⟩ := by
  rw [JobLoop.replyMetadata, if_neg fun hnil => h (List.isEmpty_iff.mp hnil)]

/-- The worker is where the counter says. -/
def Refines (rt : ReplyText) (stripSuggestions : Str → Str) (s : JobLoop) : Course → Prop
  | .running n => s.ended = none ∧ s.hasTextResponse = false ∧ Counted n s.recoveryState
  | .failed => s.ended = some (.failure EMPTY_TOOL_COMPLETION_FAILURE)
  | .answered content => s.ended = some (.response (stripSuggestions (JobLoop.replyText rt content)))

/-- A text that the recovery lets pass is the answer. -/
theorem handleTextResponse_answer {s : JobLoop} {metadata : ResponseMetadata} {content : Str}
    (h : (s.recoveryState.onTextResponse metadata (JobLoop.replyText rt content)).1 = .proceed) :
    Refines rt stripSuggestions (s.handleTextResponse stripSuggestions (JobLoop.replyText rt content) metadata)
      (.answered content) := by
  have hne : ¬(JobLoop.replyText rt content).isEmpty = true := fun hnil =>
    (replyText_ne_nil content).2 (List.isEmpty_iff.mp hnil)
  simp only [Refines, JobLoop.handleTextResponse, h, if_neg hne]

theorem refines_text {s : JobLoop} {n : Nat} (h : Refines rt stripSuggestions s (.running n)) (turn : Turn)
    {content : Str}
    (hreply : turn.reply = .text content) :
    Refines rt stripSuggestions (s.step rt stripSuggestions turn) (Course.next rt (.running n) turn) := by
  obtain ⟨hended, htext, hcounted⟩ := h
  obtain ⟨hforced, hactive, hpending, hbegin⟩ := counted_beginIteration hcounted
  have hrunning : ¬s.ended.isSome = true := by simp [hended]
  simp only [JobLoop.step, if_neg hrunning, hreply, Course.next, hforced]
  by_cases hblank : Blank rt content
  · by_cases htwo : n = 2
    · -- without tools, the empty reply to a forced text is the failure
      subst htwo
      rw [if_pos ⟨hblank, rfl⟩, replyMetadata_blank hblank, decide_eq_true rfl, Bool.not_true, Bool.and_false]
      simp [Refines, JobLoop.handleTextResponse, AutonomousRecoveryState.onTextResponse, hactive]
    · rw [if_neg fun h => htwo h.2, replyMetadata_blank hblank, decide_eq_false htwo, Bool.not_false, Bool.and_true]
      rw [decide_eq_false htwo] at hactive
      cases htools : turn.tools with
      | true =>
        rw [if_pos rfl, if_pos ⟨hblank, rfl⟩]
        obtain ⟨haction, hmiss⟩ := onTextResponse_miss hbegin hactive hpending (JobLoop.replyText rt content)
        rcases haction with haction | haction <;> simp only [JobLoop.handleTextResponse, haction] <;>
          exact ⟨hended, htext, hmiss⟩
      | false =>
        rw [if_neg Bool.false_ne_true, if_neg fun h => Bool.false_ne_true h.2]
        refine handleTextResponse_answer ?_
        simp only [AutonomousRecoveryState.onTextResponse, hactive]
        split <;> rfl
  · rw [if_neg fun h => hblank h.1, if_neg fun h => hblank h.1, replyMetadata_full hblank]
    refine handleTextResponse_answer ?_
    simp only [AutonomousRecoveryState.onTextResponse]
    split <;> rfl

/-- Nothing is done after the end. -/
theorem step_of_ended {s : JobLoop} {ending : Ending} (h : s.ended = some ending) (turn : Turn) :
    s.step rt stripSuggestions turn = s := by
  unfold JobLoop.step
  rw [h]
  rfl

theorem refines_step {s : JobLoop} {c : Course} (h : Refines rt stripSuggestions s c) (turn : Turn) :
    Refines rt stripSuggestions (s.step rt stripSuggestions turn) (c.next rt turn) := by
  cases c with
  | failed =>
    rw [step_of_ended h]
    exact h
  | answered content =>
    rw [step_of_ended h]
    exact h
  | running n =>
    cases hreply : turn.reply with
    | text content => exact refines_text h turn hreply
    | calls =>
      obtain ⟨hended, htext, hcounted⟩ := h
      have hrunning : ¬s.ended.isSome = true := by simp [hended]
      simp only [JobLoop.step, if_neg hrunning, hreply, Course.next]
      exact ⟨hended, htext, counted_reset s.recoveryState⟩
    | rateLimited =>
      obtain ⟨hended, htext, hcounted⟩ := h
      have hrunning : ¬s.ended.isSome = true := by simp [hended]
      obtain ⟨-, -, -, hbegin⟩ := counted_beginIteration hcounted
      simp only [JobLoop.step, if_neg hrunning, hreply, Course.next]
      simp [Refines, JobLoop.handleTextResponse, AutonomousRecoveryState.onTextResponse, trim, trimStart, trimEnd,
        htext, hended, hbegin]
    | untold =>
      obtain ⟨hended, htext, hcounted⟩ := h
      have hrunning : ¬s.ended.isSome = true := by simp [hended]
      obtain ⟨-, -, -, hbegin⟩ := counted_beginIteration hcounted
      simp only [JobLoop.step, if_neg hrunning, hreply, Course.next]
      exact ⟨hended, htext, hbegin⟩

/-! ## Runs -/

/-- A turn with an empty reply. -/
def Turn.miss (rt : ReplyText) (turn : Turn) : Bool :=
  match turn.reply with
  | .text content => decide (Blank rt content)
  | _ => false

/-- The misses that a worker has had at least. -/
def Course.misses : Course → Nat
  | .running n => n
  | .failed => 3
  | .answered _ => 0

theorem misses_next (c : Course) (turn : Turn) :
    (c.next rt turn).misses ≤ c.misses + if turn.miss rt = true then 1 else 0 := by
  cases c with
  | failed => exact Nat.le_add_right _ _
  | answered content => exact Nat.zero_le _
  | running n =>
    cases hreply : turn.reply with
    | text content =>
      simp only [Course.next, Turn.miss, hreply, decide_eq_true_eq]
      by_cases hblank : Blank rt content
      · rw [if_pos hblank]
        split
        next hthird => rw [hthird.2, Course.misses, Course.misses]
        · split
          · exact le_refl _
          · exact Nat.zero_le _
      · rw [if_neg fun h => hblank h.1, if_neg fun h => hblank h.1]
        exact Nat.zero_le _
    | calls =>
      simp only [Course.next, hreply, Course.misses]
      exact Nat.zero_le _
    | rateLimited =>
      simp only [Course.next, hreply]
      exact Nat.le_add_right _ _
    | untold =>
      simp only [Course.next, hreply]
      exact Nat.le_add_right _ _

theorem misses_run : ∀ (turns : List Turn) (c : Course),
    (run (Course.next rt) c turns).misses ≤ c.misses + turns.countP (Turn.miss rt)
  | [], c => le_refl _
  | turn :: turns, c => by
    have hfirst : (c.next rt turn).misses ≤ c.misses + if turn.miss rt = true then 1 else 0 := misses_next c turn
    have hrest := misses_run turns (c.next rt turn)
    rw [run_cons, List.countP_cons]
    omega

/-- An answer is the text of a turn; it is empty only if there were no tools to withhold. -/
def AnswerOf (rt : ReplyText) (content : Str) (turn : Turn) : Prop :=
  turn.reply = .text content ∧ (Blank rt content → turn.tools = false)

theorem answered_next {c : Course} {turn : Turn} {content : Str} (h : c.next rt turn = .answered content) :
    c = .answered content ∨ AnswerOf rt content turn := by
  cases c with
  | failed => cases h
  | answered content' => exact .inl h
  | running n =>
    cases hreply : turn.reply with
    | text content' =>
      simp only [Course.next, hreply] at h
      split at h
      · cases h
      · split at h
        · cases h
        next htools =>
          cases h
          exact .inr ⟨hreply, fun hblank => Bool.eq_false_iff.mpr fun ht => htools ⟨hblank, ht⟩⟩
    | calls =>
      simp only [Course.next, hreply] at h
      cases h
    | rateLimited =>
      simp only [Course.next, hreply] at h
      cases h
    | untold =>
      simp only [Course.next, hreply] at h
      cases h

theorem answered_run : ∀ {turns : List Turn} {c : Course} {content : Str},
    run (Course.next rt) c turns = .answered content → c = .answered content ∨ ∃ turn ∈ turns, AnswerOf rt content turn
  | [], _, _, h => .inl h
  | turn :: turns, c, content, h => by
    rw [run_cons] at h
    rcases answered_run h with hnext | ⟨turn', hmem, hanswer⟩
    · rcases answered_next hnext with hc | hanswer
      · exact .inl hc
      · exact .inr ⟨turn, List.mem_cons_self, hanswer⟩
    · exact .inr ⟨turn', List.mem_cons_of_mem _ hmem, hanswer⟩

theorem refines_new : Refines rt stripSuggestions .new (.running 0) := ⟨rfl, rfl, by decide, rfl, rfl⟩

theorem refines_run (turns : List Turn) {s : JobLoop} {c : Course} (h : Refines rt stripSuggestions s c) :
    Refines rt stripSuggestions (run (JobLoop.step rt stripSuggestions) s turns) (run (Course.next rt) c turns) := by
  induction turns generalizing s c with
  | nil => exact h
  | cons turn turns ih => exact ih (refines_step h turn)

end Runs

/-- **Giving up.** A worker follows its counter of empty replies: while it runs, it has had at most two since the last
call, and text is forced exactly after two; it gives up after no fewer than three; and when it ends with an answer, that
is the text of a reply, and the fixed text for an empty one only if the model was offered no tools anyway. -/
theorem worker_gives_up (rt : ReplyText) (stripSuggestions : Str → Str) (turns : List Turn) :
    let s := run (JobLoop.step rt stripSuggestions) .new turns
    let c := run (Course.next rt) (.running 0) turns
    (∃ n ≤ 2, c = .running n ∧ s.ended = none ∧ (s.recoveryState.beginIteration.1 = true ↔ n = 2)) ∨
      c = .failed ∧ s.ended = some (.failure EMPTY_TOOL_COMPLETION_FAILURE) ∧ 3 ≤ turns.countP (Turn.miss rt) ∨
      ∃ content, c = .answered content ∧ s.ended = some (.response (stripSuggestions (JobLoop.replyText rt content))) ∧
        ∃ turn ∈ turns, turn.reply = .text content ∧ (Blank rt content → turn.tools = false) := by
  intro s c
  have hrefines : Refines rt stripSuggestions s c := refines_run turns refines_new
  cases hc : c with
  | running n =>
    rw [hc] at hrefines
    obtain ⟨hended, -, hcounted⟩ := hrefines
    obtain ⟨hforced, -⟩ := counted_beginIteration hcounted
    exact .inl ⟨n, hcounted.le, rfl, hended, by rw [hforced, decide_eq_true_iff]⟩
  | failed =>
    rw [hc] at hrefines
    have hmisses : c.misses ≤ 0 + turns.countP (Turn.miss rt) := misses_run turns (.running 0)
    rw [hc, Nat.zero_add] at hmisses
    exact .inr (.inl ⟨rfl, hrefines, hmisses⟩)
  | answered content =>
    rw [hc] at hrefines
    rcases answered_run hc with hstart | hanswer
    · cases hstart
    · exact .inr (.inr ⟨content, rfl, hrefines, hanswer⟩)

end Ironclaw.Worker

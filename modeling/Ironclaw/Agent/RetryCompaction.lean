import Ironclaw.Agent.LoopDiscipline
import Ironclaw.Agent.ModelOverride

/-!
# Compaction for a retry

`compact_messages_for_retry` cuts the context at the last message of the user. The loop speaks as the user too: its
nudges and its notices about truncated calls are user messages in the middle of a turn.

- `compact_split`: what a compaction keeps, from where the last user message is;
- `chat_calls_built`: the contexts of a turn's calls are of the kind considered here, also after compactions;
- `compaction_keeps_iff`: the current request is kept exactly when the loop has not spoken since.
-/

namespace Ironclaw.Agent

open Text Llm

/-- A message that the loop appends during a turn. -/
inductive LoopMessage : ChatMessage → Prop
  | assistant {m : ChatMessage} (h : m.role = .assistant) : LoopMessage m
  | toolResult {m : ChatMessage} (h : m.role = .tool) : LoopMessage m
  | limit : LoopMessage (.system NUDGE)
  | intentNudge : LoopMessage (.user TOOL_INTENT_NUDGE)
  | truncationNotice : LoopMessage (.user TRUNCATED_TOOL_CALL_NOTICE)

/-- A nudge or a notice: what the loop says as the user. -/
def Injected (m : ChatMessage) : Prop := m = .user TOOL_INTENT_NUDGE ∨ m = .user TRUNCATED_TOOL_CALL_NOTICE

/-- An assistant message that declares a call, and the message with its result. -/
def DeclaresResult (a r : ChatMessage) : Prop :=
  a.role = .assistant ∧ r.role = .tool ∧ ∃ calls ∈ a.toolCalls, ∃ c ∈ calls, r.toolCallId = some c.id

/-- What `kept` keeps of the messages `before`, `input` and `after`: the input (with every later copy of it, so that it
is the input that is kept and not a copy), the results among `results` with the messages that declare them, and the
system messages. -/
structure KeepsRequest (before : List ChatMessage) (input : ChatMessage) (after results kept : List ChatMessage) :
    Prop where
  keepsInput : (input :: after).count input ≤ kept.count input
  keepsResults : ∀ a r, DeclaresResult a r → [a, r].Sublist results → [a, r].Sublist kept
  keepsSystem : ((before ++ input :: after).filter fun m => m.role = .system).Sublist kept

/-- The note about dropped history, when there is any. -/
def compactionNote (dropped : List ChatMessage) : List ChatMessage :=
  if 0 < dropped.length then
    [.system ("[Note: Earlier conversation history was automatically compacted " ++
      "to fit within the context window. The most recent exchange is preserved below.]").toList]
  else []

/-! ## The last user message -/

/-- The last element with a property. -/
theorem exists_last {α : Type*} {p : α → Prop} : ∀ {l : List α}, (∃ a ∈ l, p a) →
    ∃ pre a post, l = pre ++ a :: post ∧ p a ∧ ∀ b ∈ post, ¬p b
  | [], h => by
    obtain ⟨a, ha, -⟩ := h
    cases ha
  | b :: l, h => by
    by_cases hl : ∃ a ∈ l, p a
    · obtain ⟨pre, a, post, rfl, ha, hpost⟩ := exists_last hl
      exact ⟨b :: pre, a, post, rfl, ha, hpost⟩
    · obtain ⟨a, ha, hp⟩ := h
      rcases List.mem_cons.mp ha with rfl | ha
      · exact ⟨[], a, l, rfl, hp, fun b hb hpb => hl ⟨b, hb, hpb⟩⟩
      · exact absurd ⟨a, ha, hp⟩ hl

/-- **Compaction.** From the last user message on everything is kept; of what is before it, the system messages. -/
theorem compact_split {pre post : List ChatMessage} {m : ChatMessage} (hm : m.role = .user)
    (hpost : ∀ b ∈ post, b.role ≠ .user) :
    compactMessagesForRetry (pre ++ m :: post) =
      pre.filter (fun m => m.role = .system) ++ compactionNote pre ++ m :: post := by
  have hfind : (pre ++ m :: post).reverse.findIdx? (fun m => m.role = .user) = some post.length := by
    rw [List.reverse_append, List.reverse_cons, List.append_assoc, List.findIdx?_append]
    have hnone : post.reverse.findIdx? (fun m => decide (m.role = .user)) = none := by
      rw [List.findIdx?_eq_none_iff]
      intro b hb
      exact decide_eq_false (hpost b (List.mem_reverse.mp hb))
    rw [hnone]
    simp [List.findIdx?_cons, hm]
  have hidx : (pre ++ m :: post).length - 1 - post.length = pre.length := by
    rw [List.length_append, List.length_cons]
    omega
  unfold compactMessagesForRetry
  rw [hfind]
  simp only [hidx, List.take_left, List.drop_left]
  rfl

theorem role_compactionNote {pre : List ChatMessage} {m : ChatMessage} (h : m ∈ compactionNote pre) :
    m.role = .system := by
  unfold compactionNote at h
  split at h
  · rw [List.mem_singleton.mp h]
    rfl
  · cases h

/-- What a compaction puts before the last user message is not of the user, of the assistant or of a tool. -/
theorem role_compacted {pre : List ChatMessage} {m : ChatMessage}
    (h : m ∈ pre.filter (fun m => m.role = .system) ++ compactionNote pre) : m.role = .system := by
  rcases List.mem_append.mp h with h | h
  · exact of_decide_eq_true (List.mem_filter.mp h).2
  · exact role_compactionNote h

theorem LoopMessage.injected {m : ChatMessage} (h : LoopMessage m) (hrole : m.role = .user) : Injected m := by
  cases h with
  | assistant h => rw [h] at hrole; cases hrole
  | toolResult h => rw [h] at hrole; cases hrole
  | limit => cases hrole
  | intentNudge => exact .inl rfl
  | truncationNotice => exact .inr rfl

theorem Injected.role {m : ChatMessage} (h : Injected m) : m.role = .user := by
  rcases h with rfl | rfl <;> rfl

/-! ## What is kept -/

section Kept

variable {before after : List ChatMessage} {input : ChatMessage}

/-- Messages of the assistant or a tool, kept in order, are kept after the cut. -/
theorem sublist_after_cut {pre rest : List ChatMessage} : ∀ {l : List ChatMessage}, (∀ m ∈ l, m.role ≠ .system) →
    (l.Sublist (pre.filter (fun m => m.role = .system) ++ compactionNote pre ++ rest) ↔ l.Sublist rest) := by
  intro l hl
  constructor
  · intro h
    obtain ⟨l₁, l₂, rfl, h₁, h₂⟩ := List.sublist_append_iff.mp h
    cases l₁ with
    | nil => exact h₂
    | cons m _ => exact absurd (role_compacted (h₁.subset List.mem_cons_self)) (hl m List.mem_cons_self)
  · exact fun h => h.trans (List.sublist_append_right _ _)

variable (before) in
/-- Without a nudge or a notice since the input, a compaction keeps the turn as it is. -/
theorem keepsRequest_of_quiet (hinput : input.role = .user) (hquiet : ∀ m ∈ after, m.role ≠ .user) :
    KeepsRequest before input after after (compactMessagesForRetry (before ++ input :: after)) := by
  rw [compact_split hinput hquiet]
  refine ⟨?_, fun a r _ h => ?_, ?_⟩
  · exact (List.sublist_append_right _ _).count_le _
  · exact (h.trans (List.sublist_cons_self _ _)).trans (List.sublist_append_right _ _)
  · rw [List.filter_append, List.append_assoc]
    exact (List.Sublist.refl _).append (List.filter_sublist.trans (List.sublist_append_right _ _))

variable (before) in
/-- With one, it loses the input. -/
theorem not_keeps_input (hinput : input.role = .user) (h : ∃ m ∈ after, m.role = .user) :
    (compactMessagesForRetry (before ++ input :: after)).count input < (input :: after).count input := by
  obtain ⟨pre, m, post, rfl, hm, hpost⟩ := exists_last h
  have hsplit : before ++ input :: (pre ++ m :: post) = (before ++ input :: pre) ++ m :: post := by simp
  have hnone : (List.filter (fun m => m.role = .system) (before ++ input :: pre) ++
      compactionNote (before ++ input :: pre)).count input = 0 := by
    refine List.count_eq_zero.mpr fun hmem => ?_
    rw [role_compacted hmem] at hinput
    cases hinput
  rw [hsplit, compact_split hm hpost, List.count_append, hnone, List.count_cons_self, List.count_append]
  omega

/-- The declared results of the list are all of the current turn. -/
def ResultsInTurn (before : List ChatMessage) (input : ChatMessage) (after : List ChatMessage) : Prop :=
  ∀ a r, DeclaresResult a r → [a, r].Sublist (before ++ input :: after) → [a, r].Sublist after

theorem results_turn {a r : ChatMessage} (h : DeclaresResult a r) (hinput : input.role = .user) :
    [a, r].Sublist (input :: after) ↔ [a, r].Sublist after := by
  rw [List.sublist_cons_iff]
  refine or_iff_left ?_
  rintro ⟨l, hl, -⟩
  have ha : a.role = .user := (List.cons.inj hl).1 ▸ hinput
  rw [h.1] at ha
  cases ha

/-- **Compaction keeps the current request** exactly when no nudge and no notice follows the input; with the results of
earlier turns counted too, exactly when there are none in addition. -/
theorem compaction_keeps_iff (before after : List ChatMessage) (input : ChatMessage) (hinput : input.role = .user)
    (hloop : ∀ m ∈ after, LoopMessage m) :
    (KeepsRequest before input after after (compactMessagesForRetry (before ++ input :: after)) ↔
        ∀ m ∈ after, ¬Injected m) ∧
      (KeepsRequest before input after (before ++ input :: after)
          (compactMessagesForRetry (before ++ input :: after)) ↔
        (∀ m ∈ after, ¬Injected m) ∧ ResultsInTurn before input after) := by
  have hquiet : (∀ m ∈ after, ¬Injected m) → ∀ m ∈ after, m.role ≠ .user :=
    fun h m hm hrole => h m hm ((hloop m hm).injected hrole)
  have hlost : ∀ {results : List ChatMessage},
      KeepsRequest before input after results (compactMessagesForRetry (before ++ input :: after)) →
        ∀ m ∈ after, ¬Injected m := by
    intro results h m hm hinj
    have := not_keeps_input before hinput ⟨m, hm, hinj.role⟩
    exact absurd h.keepsInput (by omega)
  have hroles : ∀ {a r : ChatMessage}, DeclaresResult a r → ∀ m ∈ [a, r], m.role ≠ .system := by
    intro a r h m hm
    rcases List.mem_cons.mp hm with rfl | hm
    · rw [h.1]
      exact Role.noConfusion
    · rw [List.mem_singleton.mp hm, h.2.1]
      exact Role.noConfusion
  refine ⟨⟨hlost, fun h => keepsRequest_of_quiet before hinput (hquiet h)⟩, fun h => ⟨hlost h, ?_⟩, ?_⟩
  · intro a r har hsub
    have hkept := h.keepsResults a r har hsub
    rw [compact_split hinput (hquiet (hlost h)), sublist_after_cut (hroles har)] at hkept
    exact (results_turn har hinput).mp hkept
  · rintro ⟨h, hin⟩
    have hkeeps := keepsRequest_of_quiet before hinput (hquiet h)
    exact ⟨hkeeps.keepsInput, fun a r har hsub => hkeeps.keepsResults a r har (hin a r har hsub), hkeeps.keepsSystem⟩

theorem quiet_turn_kept :
    (∀ m ∈ [ChatMessage.assistantWithToolCalls none [⟨"call_1".toList, "time".toList, .null, none⟩],
        .toolResult "call_1".toList "time".toList "12:00".toList], LoopMessage m) ∧
      KeepsRequest [.user "Hello".toList, .assistant "Hi!".toList] (.user "What time is it?".toList)
        [.assistantWithToolCalls none [⟨"call_1".toList, "time".toList, .null, none⟩],
          .toolResult "call_1".toList "time".toList "12:00".toList]
        [.assistantWithToolCalls none [⟨"call_1".toList, "time".toList, .null, none⟩],
          .toolResult "call_1".toList "time".toList "12:00".toList]
        (compactMessagesForRetry ([.user "Hello".toList, .assistant "Hi!".toList] ++ .user "What time is it?".toList ::
          [.assistantWithToolCalls none [⟨"call_1".toList, "time".toList, .null, none⟩],
            .toolResult "call_1".toList "time".toList "12:00".toList])) := by
  have hloop : ∀ m ∈ [ChatMessage.assistantWithToolCalls none [⟨"call_1".toList, "time".toList, .null, none⟩],
      .toolResult "call_1".toList "time".toList "12:00".toList], LoopMessage m := by
    intro m hm
    rcases List.mem_cons.mp hm with rfl | hm
    · exact .assistant rfl
    · rw [List.mem_singleton.mp hm]
      exact .toolResult rfl
  refine ⟨hloop, (compaction_keeps_iff _ _ _ rfl hloop).1.mpr fun m hm hinj => ?_⟩
  have hrole := hinj.role
  rcases List.mem_cons.mp hm with rfl | hm
  · cases hrole
  · rw [List.mem_singleton.mp hm] at hrole
    cases hrole

/-- The model announced an action and was nudged: the request is gone. -/
theorem nudge_drops_request :
    (∀ m ∈ [ChatMessage.assistant "Let me look that up.".toList, .user TOOL_INTENT_NUDGE], LoopMessage m) ∧
      ¬KeepsRequest [] (.user "What is the weather?".toList)
        [.assistant "Let me look that up.".toList, .user TOOL_INTENT_NUDGE] []
        (compactMessagesForRetry [.user "What is the weather?".toList, .assistant "Let me look that up.".toList,
          .user TOOL_INTENT_NUDGE]) := by
  refine ⟨fun m hm => ?_, fun h => ?_⟩
  · rcases List.mem_cons.mp hm with rfl | hm
    · exact .assistant rfl
    · rw [List.mem_singleton.mp hm]
      exact .intentNudge
  · have hrole : (ChatMessage.user "What is the weather?".toList).role = .user := rfl
    have hlost := not_keeps_input [] hrole
      ⟨.user TOOL_INTENT_NUDGE, List.mem_cons_of_mem (ChatMessage.assistant "Let me look that up.".toList)
        (List.mem_singleton.mpr rfl), rfl⟩
    exact absurd h.keepsInput (Nat.not_le.mpr hlost)

end Kept

/-! ## The contexts of a turn -/

/-- A context of a turn: it ends with messages of the loop after the input or, once that is lost, after something the
loop said as the user. -/
def Built (input : ChatMessage) (messages : List ChatMessage) : Prop :=
  ∃ pre anchor after, messages = pre ++ anchor :: after ∧ (anchor = input ∨ Injected anchor) ∧
    ∀ m ∈ after, LoopMessage m

section Turn

variable {cfg : ChatConfig} {inputs : Nat → IterationInput} {tools : List ToolDefinition} {input : ChatMessage}

theorem Built.append {messages new : List ChatMessage} (h : Built input messages) (hnew : ∀ m ∈ new, LoopMessage m) :
    Built input (messages ++ new) := by
  obtain ⟨pre, anchor, after, rfl, hanchor, hafter⟩ := h
  refine ⟨pre, anchor, after ++ new, by simp, hanchor, fun m hm => ?_⟩
  rcases List.mem_append.mp hm with hm | hm
  · exact hafter m hm
  · exact hnew m hm

theorem Built.compact {messages : List ChatMessage} (hinput : input.role = .user) (h : Built input messages) :
    Built input (compactMessagesForRetry messages) := by
  obtain ⟨pre, anchor, after, rfl, hanchor, hafter⟩ := h
  by_cases huser : ∃ m ∈ after, m.role = .user
  · obtain ⟨mid, m, post, rfl, hm, hpost⟩ := exists_last huser
    have hsplit : pre ++ anchor :: (mid ++ m :: post) = (pre ++ anchor :: mid) ++ m :: post := by simp
    rw [hsplit, compact_split hm hpost]
    exact ⟨_, m, post, rfl, .inr ((hafter m (by simp)).injected hm),
      fun b hb => hafter b (List.mem_append_right _ (List.mem_cons_of_mem _ hb))⟩
  · have hrole : anchor.role = .user := by
      rcases hanchor with rfl | hanchor
      · exact hinput
      · exact hanchor.role
    rw [compact_split hrole fun b hb hbrole => huser ⟨b, hb, hbrole⟩]
    exact ⟨_, anchor, after, rfl, hanchor, hafter⟩

variable (cfg inputs) in
/-- What a call to the model does to the messages: nothing, or it compacts them. -/
theorem messages_callLlm (s : ChatDelegate) (ctx : ReasoningContext) (i : Nat) :
    (s.callLlm cfg inputs ctx i).ctx.messages = ctx.messages ∨
      (s.callLlm cfg inputs ctx i).ctx.messages = compactMessagesForRetry ctx.messages := by
  unfold ChatDelegate.callLlm
  split
  · exact .inl rfl
  · simp only
    split
    · exact .inr rfl
    · exact .inl rfl

/-- The contexts of the calls so far, and the present one, are as described. -/
def BuiltSoFar (input : ChatMessage) (ctx : ReasoningContext) (s : ChatDelegate × List Event) : Prop :=
  Built input ctx.messages ∧ ∀ e ∈ s.2, e.op.isCall = true → Built input e.ctxIn.messages

theorem BuiltSoFar.record {ctx ctx' : ReasoningContext} {s : ChatDelegate × List Event} {s' : ChatDelegate} {e : Event}
    (h : BuiltSoFar input ctx s) (hctx : Built input ctx'.messages)
    (he : e.op.isCall = true → Built input e.ctxIn.messages) : BuiltSoFar input ctx' (s', s.2 ++ [e]) := by
  refine ⟨hctx, fun e' he' hcall => ?_⟩
  rcases List.mem_append.mp he' with he' | he'
  · exact h.2 e' he' hcall
  · obtain rfl := List.mem_singleton.mp he'
    exact he hcall

theorem maintains_built (hinput : input.role = .user) :
    Maintains (logged (chatDelegate cfg tools inputs)) (BuiltSoFar input) where
  signals ctx s hs := hs
  inject ctx s message _ h := absurd h (checkSignals_ne_inject cfg tools inputs s.1 message)
  before s ctx i _ hs := by
    refine hs.record ?_ fun h => by cases h
    show Built input (if i = cfg.nudgeAt then ctx.messages ++ [.system NUDGE] else ctx.messages)
    split
    · refine hs.1.append fun m hm => ?_
      rw [List.mem_singleton.mp hm]
      exact .limit
    · exact hs.1
  call s ctx i _ hs := by
    refine hs.record ?_ fun _ => hs.1
    rcases messages_callLlm cfg inputs s.1 ctx i with h | h
    · exact h.symm ▸ hs.1
    · exact h.symm ▸ hs.1.compact hinput
  text s ctx t hs := hs.record hs.1 fun h => by cases h
  exec s ctx calls content hs := by
    refine hs.record ?_ fun h => by cases h
    obtain ⟨results, hmessages, hresults, -⟩ := answered_executeToolCalls (inputs s.1.iteration).env calls content
      ⟨ctx.messages, s.1.turn, s.1.pendingAuth, s.1.stash⟩
    have hctx : ((logged (chatDelegate cfg tools inputs)).executeToolCalls s ctx calls content).ctx.messages =
        ctx.messages ++ .assistantWithToolCalls content calls :: results := hmessages
    rw [hctx]
    refine hs.1.append fun m hm => ?_
    rcases List.mem_cons.mp hm with rfl | hm
    · exact .assistant rfl
    · have hroles : List.Forall₂ (fun m tc => m.role = .tool ∧ Answers m tc) results _ :=
        hresults.imp fun m tc h => ⟨h.1, h⟩
      exact .toolResult ((List.forall₂_and_left _ _).mp hroles |>.1 m hm)
  nudge s ctx t hs := by
    refine hs.record (hs.1.append fun m hm => ?_) fun h => by cases h
    rcases List.mem_cons.mp hm with rfl | hm
    · exact .assistant rfl
    · rw [List.mem_singleton.mp hm]
      exact .intentNudge
  truncated s ctx content hs := by
    refine ⟨hs.1.append fun m hm => ?_, hs.2⟩
    rcases List.mem_append.mp hm with hm | hm
    · cases content with
      | none => cases hm
      | some text =>
        rw [List.mem_singleton.mp hm]
        exact .assistant rfl
    · rw [List.mem_singleton.mp hm]
      exact .truncationNotice
  force s ctx hs := hs
  after s ctx i hs := hs

/-- **The contexts of a turn.** Whatever happens during a turn, each call to the model has a context as described. -/
theorem chat_calls_built (cfg : ChatConfig) (inputs : Nat → IterationInput) (tools : List ToolDefinition)
    (before : List ChatMessage) (hinput : input.role = .user) (s : ChatDelegate) :
    ∀ e ∈ (runAgenticLoop (logged (chatDelegate cfg (offeredTools cfg tools) inputs)) cfg.replyText cfg.loopConfig
        (initialContext cfg tools (before ++ [input])) (s, [])).state.2,
      e.op.isCall = true → Built input e.ctxIn.messages := by
  have hstart : BuiltSoFar input (initialContext cfg tools (before ++ [input])) (s, []) :=
    ⟨⟨before, input, [], rfl, .inl rfl, fun m hm => by cases hm⟩, fun e he => by cases he⟩
  exact (runAgenticLoop_stays cfg.replyText cfg.loopConfig (maintains_built hinput) hstart).2

end Turn

end Ironclaw.Agent

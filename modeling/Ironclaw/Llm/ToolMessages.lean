import Ironclaw.Llm.Message

/-!
# Tool messages

`sanitize_tool_messages`: before messages are sent to a provider, a tool result that no assistant message of the list
declares is rewritten as a user message. The ids are collected from the whole list, so that a result which comes before
the message that declares it is left as it is.

- `knownIds_sanitize`: the rewriting declares nothing and takes back nothing;
- `sanitize_sanitize`: a second application changes nothing;
- `restores_iff`: the tool protocol is restored exactly when no result comes before its declaration;
- `result_before_declaration`: a list that is left as it is, against the protocol.
-/

namespace Ironclaw.Llm

/-- The ids of the calls that a message declares. -/
def declaredIds (msg : ChatMessage) : List Str :=
  if msg.role = .assistant then (msg.toolCalls.getD []).map ToolCall.id else []

/-- The ids that are declared anywhere in the list. -/
def knownIds (messages : List ChatMessage) : List Str := messages.flatMap declaredIds

/-- A tool result without an id, or with one that is not known. -/
def isOrphaned (known : List Str) (msg : ChatMessage) : Bool :=
  match msg.toolCallId with
  | some id => !known.contains id
  | none => true

/-- The content of a tool result in a user message. -/
def asUserMessage (msg : ChatMessage) : ChatMessage :=
  { msg with
    role := .user
    content := "[Tool `".toList ++ msg.name.getD "unknown".toList ++ "` returned: ".toList ++ msg.content ++ "]".toList
    toolCallId := none
    name := none }

def sanitizeMessage (known : List Str) (msg : ChatMessage) : ChatMessage :=
  if msg.role = .tool ∧ isOrphaned known msg = true then asUserMessage msg else msg

def sanitizeToolMessages (messages : List ChatMessage) : List ChatMessage :=
  messages.map (sanitizeMessage (knownIds messages))

/-! ## The protocol -/

/-- An id is declared by a message before a place of the list. -/
def DeclaredBefore (messages : List ChatMessage) (i : Nat) (id : Str) : Prop :=
  ∃ j < i, ∃ msg, messages[j]? = some msg ∧ id ∈ declaredIds msg

/-- Every tool result has an id that is declared before it. -/
def Paired (messages : List ChatMessage) : Prop :=
  ∀ (i : Nat) (msg : ChatMessage), messages[i]? = some msg → msg.role = .tool →
    ∃ id, msg.toolCallId = some id ∧ DeclaredBefore messages i id

/-- A tool result whose id is declared somewhere comes after a message that declares it. -/
def InOrder (messages : List ChatMessage) : Prop :=
  ∀ (i : Nat) (msg : ChatMessage) (id : Str), messages[i]? = some msg → msg.role = .tool → msg.toolCallId = some id →
    id ∈ knownIds messages → DeclaredBefore messages i id

section Sanitize

theorem isOrphaned_iff {known : List Str} {msg : ChatMessage} :
    isOrphaned known msg = true ↔ ∀ id, msg.toolCallId = some id → id ∉ known := by
  unfold isOrphaned
  cases msg.toolCallId with
  | none => simp
  | some id => simp

variable (messages : List ChatMessage)

theorem declaredIds_sanitizeMessage (known : List Str) (msg : ChatMessage) :
    declaredIds (sanitizeMessage known msg) = declaredIds msg := by
  unfold sanitizeMessage
  split
  next h =>
    have huser : ¬(asUserMessage msg).role = .assistant := fun hrole => by cases hrole
    have htool : ¬msg.role = .assistant := fun hrole => by
      rw [hrole] at h
      cases h.1
    rw [declaredIds, declaredIds, if_neg huser, if_neg htool]
  next => rfl

/-- The rewriting declares nothing and takes back nothing. -/
theorem knownIds_sanitize : knownIds (sanitizeToolMessages messages) = knownIds messages := by
  unfold knownIds sanitizeToolMessages
  rw [List.flatMap_map]
  exact congrArg (fun f => messages.flatMap f) (funext fun msg => declaredIds_sanitizeMessage _ msg)

theorem length_sanitize : (sanitizeToolMessages messages).length = messages.length := List.length_map _

/-- A message that is a tool result after the rewriting was left as it is. -/
theorem sanitizeMessage_of_tool {known : List Str} {msg : ChatMessage} (h : (sanitizeMessage known msg).role = .tool) :
    sanitizeMessage known msg = msg ∧ isOrphaned known msg = false := by
  unfold sanitizeMessage at h ⊢
  split at h
  · cases h
  next hkeep =>
    refine ⟨if_neg hkeep, Bool.eq_false_iff.mpr fun horphaned => hkeep ⟨h, horphaned⟩⟩

/-- A message that is no orphaned tool result is left as it is. -/
theorem sanitizeMessage_of_not_orphaned {known : List Str} {msg : ChatMessage}
    (h : ¬(msg.role = .tool ∧ isOrphaned known msg = true)) : sanitizeMessage known msg = msg := if_neg h

/-- A second application changes nothing. -/
theorem sanitize_sanitize : sanitizeToolMessages (sanitizeToolMessages messages) = sanitizeToolMessages messages := by
  have hknown := knownIds_sanitize messages
  rw [sanitizeToolMessages, hknown, sanitizeToolMessages, List.map_map]
  refine List.map_congr_left fun msg _ => sanitizeMessage_of_not_orphaned ?_
  rintro ⟨hrole, horphaned⟩
  obtain ⟨hsame, hknown⟩ := sanitizeMessage_of_tool hrole
  rw [hsame, hknown] at horphaned
  cases horphaned

theorem declaredBefore_sanitize (i : Nat) (id : Str) :
    DeclaredBefore (sanitizeToolMessages messages) i id ↔ DeclaredBefore messages i id := by
  unfold DeclaredBefore sanitizeToolMessages
  refine exists_congr fun j => and_congr_right fun _ => ?_
  rw [List.getElem?_map]
  cases messages[j]? with
  | none => exact iff_of_false (fun ⟨_, h, _⟩ => by cases h) (fun ⟨_, h, _⟩ => by cases h)
  | some msg =>
    constructor
    · rintro ⟨_, hmsg, hid⟩
      cases hmsg
      rw [declaredIds_sanitizeMessage] at hid
      exact ⟨msg, rfl, hid⟩
    · rintro ⟨_, hmsg, hid⟩
      cases hmsg
      refine ⟨_, rfl, ?_⟩
      rw [declaredIds_sanitizeMessage]
      exact hid

/-- A tool result with a known id is left as it is. -/
theorem getElem?_sanitize_of_known {i : Nat} {msg : ChatMessage} {id : Str} (hmsg : messages[i]? = some msg)
    (hid : msg.toolCallId = some id) (hknown : id ∈ knownIds messages) :
    (sanitizeToolMessages messages)[i]? = some msg := by
  rw [sanitizeToolMessages, List.getElem?_map, hmsg, Option.map_some]
  refine congrArg some (sanitizeMessage_of_not_orphaned ?_)
  exact fun horphaned => isOrphaned_iff.1 horphaned.2 id hid hknown

/-- The results are paired after the rewriting exactly when those that have a declaration come after it. -/
theorem paired_sanitize_iff : Paired (sanitizeToolMessages messages) ↔ InOrder messages := by
  constructor
  · intro hpaired i msg id hmsg hrole hid hknown
    obtain ⟨id', hid', hbefore⟩ := hpaired i msg (getElem?_sanitize_of_known messages hmsg hid hknown) hrole
    obtain rfl : id' = id := Option.some.inj (hid'.symm.trans hid)
    exact (declaredBefore_sanitize messages i id').mp hbefore
  · intro horder i msg' hmsg' hrole
    rw [sanitizeToolMessages, List.getElem?_map] at hmsg'
    obtain ⟨msg, hmsg, rfl⟩ := Option.map_eq_some_iff.mp hmsg'
    obtain ⟨hsame, hkept⟩ := sanitizeMessage_of_tool hrole
    rw [hsame] at hrole ⊢
    have hknown : ∃ id, msg.toolCallId = some id ∧ id ∈ knownIds messages := by
      by_contra hnone
      refine Bool.eq_false_iff.mp hkept (isOrphaned_iff.2 fun id hid hmem => hnone ⟨id, hid, hmem⟩)
    obtain ⟨id, hid, hmem⟩ := hknown
    exact ⟨id, hid, (declaredBefore_sanitize messages i id).mpr (horder i msg id hmsg hrole hid hmem)⟩

end Sanitize

/-! ## What a sanitised list is to be -/

/-- The tool protocol is restored: every result is declared before it, the list is as long as it was, what was no
orphaned result is unchanged and in its place, and nothing is left to be done. -/
structure Restores (messages after : List ChatMessage) : Prop where
  paired : Paired after
  length : after.length = messages.length
  unchanged : ∀ (i : Nat) (msg : ChatMessage), messages[i]? = some msg →
    ¬(msg.role = .tool ∧ ∀ id, msg.toolCallId = some id → id ∉ knownIds messages) → after[i]? = some msg
  stable : sanitizeToolMessages after = after

/-- The protocol is restored exactly when no tool result comes before the messages that declare its id. -/
theorem restores_iff (messages : List ChatMessage) :
    Restores messages (sanitizeToolMessages messages) ↔ InOrder messages := by
  refine ⟨fun h => (paired_sanitize_iff messages).mp h.paired, fun horder => ?_⟩
  refine ⟨(paired_sanitize_iff messages).mpr horder, length_sanitize messages, fun i msg hmsg hkeep => ?_,
    sanitize_sanitize messages⟩
  rw [sanitizeToolMessages, List.getElem?_map, hmsg, Option.map_some]
  exact congrArg some (sanitizeMessage_of_not_orphaned fun horphaned =>
    hkeep ⟨horphaned.1, isOrphaned_iff.mp horphaned.2⟩)

/-- A result that comes before the message that declares it stays a tool message. -/
theorem result_before_declaration :
    let messages :=
      [ChatMessage.toolResult "c1".toList "t".toList "ok".toList,
        ChatMessage.assistantWithToolCalls none [⟨"c1".toList, "t".toList, .null, none⟩]]
    sanitizeToolMessages messages = messages ∧ ¬Paired (sanitizeToolMessages messages) := by
  refine ⟨by decide, fun hpaired => ?_⟩
  obtain ⟨id, -, j, hj, -⟩ := hpaired 0 (ChatMessage.toolResult "c1".toList "t".toList "ok".toList) (by decide) rfl
  exact Nat.not_lt_zero j hj

end Ironclaw.Llm

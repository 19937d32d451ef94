import Ironclaw.Agent.ToolBatch
import Ironclaw.Lib.Delivery
import Ironclaw.Llm.Reasoning

/-!
# Threads

A thread of a session: its state, its turns, the request it waits for, and the messages that came while a turn was under
way. The operations are the ones that the handlers apply under the lock of the session. A queued message keeps the
numbers of the messages that it is made of (`parts`), which the program does not see.
-/

namespace Ironclaw.Session

open Text Llm

inductive ThreadState
  | idle
  | processing
  | awaitingApproval
  | completed
  | interrupted
  deriving DecidableEq

inductive TurnState
  | processing
  | completed
  | failed
  | interrupted
  deriving DecidableEq

/-- A turn, with the record of its tool calls. -/
structure Turn extends Agent.Turn where
  turnNumber : Nat
  userInput : Str
  response : Option Str
  state : TurnState
  error : Option Str
  deriving DecidableEq

namespace Turn

def new (turnNumber : Nat) (userInput : Str) : Turn where
  narrative := none
  toolCalls := []
  turnNumber := turnNumber
  userInput := userInput
  response := none
  state := .processing
  error := none

def complete (turn : Turn) (response : Str) : Turn := { turn with response := some response, state := .completed }

def fail (turn : Turn) (error : Str) : Turn := { turn with error := some error, state := .failed }

def interrupt (turn : Turn) : Turn := { turn with state := .interrupted }

/-- `record_tool_call_with_reasoning` for a call of the model. -/
def recordToolCall (turn : Turn) (tc : ToolCall) : Turn :=
  { turn with toolCalls := turn.toolCalls ++ [⟨tc.name, tc.arguments, none, none, tc.reasoning, some tc.id⟩] }

/-- A change of the record of the tool calls. -/
def onRecord (turn : Turn) (f : Agent.Turn → Agent.Turn) : Turn := { turn with toTurn := f turn.toTurn }

end Turn

/-- A request for approval, with its number. -/
structure PendingApproval extends Agent.PendingApproval where
  requestId : Nat
  deriving DecidableEq

/-- A text that waits in the queue, and the numbers of the accepted messages that it is made of. -/
abbrev Message := Delivery.Batch Str

structure Thread where
  state : ThreadState
  turns : List Turn
  pendingApproval : Option PendingApproval
  pendingAuth : Option Str
  pendingMessages : List Message
  deriving DecidableEq

def MAX_PENDING_MESSAGES : Nat := 10

namespace Thread

def new : Thread := ⟨.idle, [], none, none, []⟩

variable (thread : Thread)

def turnNumber : Nat := thread.turns.length + 1

/-- The last turn is changed, if there is one. -/
def modifyLast (f : Turn → Turn) : Thread :=
  { thread with turns := thread.turns.modify (thread.turns.length - 1) f }

/-- `queue_message`; `none` when the queue is full. -/
def queueMessage (message : Message) : Option Thread :=
  if MAX_PENDING_MESSAGES ≤ thread.pendingMessages.length then none
  else some { thread with pendingMessages := thread.pendingMessages ++ [message] }

/-- The messages of a queue in one. -/
def merge (messages : List Message) : Message :=
  ⟨join "\n".toList (messages.map fun message => message.text), Delivery.ids messages⟩

def drainPendingMessages : Option Message × Thread :=
  if thread.pendingMessages.isEmpty then (none, thread)
  else (some (merge thread.pendingMessages), { thread with pendingMessages := [] })

def requeueDrained (message : Message) : Thread :=
  { thread with pendingMessages := message :: thread.pendingMessages }

def startTurn (userInput : Str) : Thread :=
  { thread with
    turns := thread.turns ++ [Turn.new thread.turns.length userInput]
    state := .processing }

def completeTurn (response : Str) : Thread := { thread.modifyLast (·.complete response) with state := .idle }

def failTurn (error : Str) : Thread := { thread.modifyLast (·.fail error) with state := .idle }

def awaitApproval (pending : PendingApproval) : Thread :=
  { thread with state := .awaitingApproval, pendingApproval := some pending }

def takePendingApproval : Option PendingApproval × Thread :=
  (thread.pendingApproval, { thread with pendingApproval := none })

def clearPendingApproval : Thread := { thread with pendingApproval := none, state := .idle }

def enterAuthMode (extensionName : Str) : Thread := { thread with pendingAuth := some extensionName }

def interrupt : Thread := { thread.modifyLast Turn.interrupt with pendingMessages := [], state := .interrupted }

/-- What `process_clear` does to the thread. -/
def clear : Thread := { thread with turns := [], pendingMessages := [], state := .idle }

/-- The turns with their numbers set to their places. -/
def renumber (turns : List Turn) : List Turn := turns.mapIdx fun i turn => { turn with turnNumber := i }

def truncateTurns (keep : Nat) : Thread :=
  if keep < thread.turns.length then { thread with turns := renumber (thread.turns.drop (thread.turns.length - keep)) }
  else thread

variable {thread}

theorem eq_of_queueMessage {message : Message} {thread' : Thread} (h : thread.queueMessage message = some thread') :
    thread.pendingMessages.length < MAX_PENDING_MESSAGES ∧
      thread' = { thread with pendingMessages := thread.pendingMessages ++ [message] } := by
  unfold queueMessage at h
  split at h
  · cases h
  · rename_i hlt
    exact ⟨Nat.lt_of_not_le hlt, (Option.some.inj h).symm⟩

theorem eq_of_drain {message : Message} {thread' : Thread} (h : thread.drainPendingMessages = (some message, thread')) :
    thread.pendingMessages ≠ [] ∧ message = merge thread.pendingMessages ∧
      thread' = { thread with pendingMessages := [] } := by
  unfold drainPendingMessages at h
  split at h
  · cases h
  · rename_i hne
    obtain ⟨hmessage, hthread⟩ := Prod.mk.inj h
    exact ⟨fun hnil => hne (List.isEmpty_iff.mpr hnil), (Option.some.inj hmessage).symm, hthread.symm⟩

variable (thread) in
theorem eq_of_truncateTurns (keep : Nat) : ∃ turns, thread.truncateTurns keep = { thread with turns := turns } := by
  unfold truncateTurns
  split
  · exact ⟨_, rfl⟩
  · exact ⟨thread.turns, rfl⟩

end Thread

/-! ## Messages -/

/-- `truncate_preview`. -/
def truncatePreview (s : Str) (maxBytes : Nat) : Str :=
  if utf8Len s ≤ maxBytes then s
  else
    let result := takeBytes maxBytes s ++ "...".toList
    if "<tool_output".toList.isPrefixOf s && !"</tool_output>".toList.isSuffixOf result then
      result ++ "\n</tool_output>".toList
    else result

section Messages

variable (json : JsonText)

/-- The content of the message for a tool call: its error, else its result, else a plain acknowledgement. -/
def resultContent (tc : Agent.TurnToolCall) : Str :=
  match tc.error, tc.result with
  | some err, _ => truncatePreview err 1000
  | none, some (.str s) => truncatePreview s 1000
  | none, some other => truncatePreview (json.print other) 1000
  | none, none => "OK".toList

/-- The messages of one turn. -/
def Turn.messages (turnIdx : Nat) (turn : Turn) : List ChatMessage :=
  let calls := turn.toolCalls.mapIdx fun i tc => (generateToolCallId turnIdx i, tc)
  let declared := calls.map fun c => (⟨c.1, c.2.name, c.2.parameters, none⟩ : ToolCall)
  let toolMessages :=
    if turn.toolCalls.isEmpty then []
    else
      ChatMessage.assistantWithToolCalls none declared ::
        calls.map fun c => ChatMessage.toolResult c.1 c.2.name (resultContent json c.2)
  ChatMessage.user turn.userInput :: toolMessages ++ (turn.response.map ChatMessage.assistant).toList

def Thread.messages (thread : Thread) : List ChatMessage := (thread.turns.mapIdx (Turn.messages json)).flatten

end Messages

/-! ## Restoring -/

/-- Where the reading of a turn stands: no tool calls yet, or in the results of a batch of calls that begins at a place
of the record, or after the response. -/
inductive Reading
  | fresh
  | batch (base pos : Nat)
  | closed
  deriving DecidableEq

/-- Reads one message that is not from the user into a turn. -/
def readInto (turn : Turn) (reading : Reading) (msg : ChatMessage) : Turn × Reading :=
  match msg.role, msg.toolCalls, reading with
  | _, _, .closed => (turn, .closed)
  | .assistant, some tcs, _ => (tcs.foldl Turn.recordToolCall turn, .batch turn.toolCalls.length 0)
  | .assistant, none, _ => (turn.complete msg.content, .closed)
  | .tool, _, .batch base pos =>
    ({ turn with toolCalls := turn.toolCalls.modify (base + pos) fun tc =>
      { tc with result := some (.str msg.content) } }, .batch base (pos + 1))
  | _, _, _ => (turn, .closed)

/-- The turns of a list of messages, from a turn that is being read on. -/
def restoreTurns (number : Nat) : Option (Turn × Reading) → List ChatMessage → List Turn
  | current, [] => (current.map Prod.fst).toList
  | current, msg :: msgs =>
    if msg.role = .user then
      (current.map Prod.fst).toList ++ restoreTurns (number + 1) (some (Turn.new number msg.content, .fresh)) msgs
    else restoreTurns number (current.map fun c => readInto c.1 c.2 msg) msgs

def Thread.restoreFromMessages (thread : Thread) (messages : List ChatMessage) : Thread :=
  { thread with turns := restoreTurns 0 none messages, state := .idle }

end Ironclaw.Session

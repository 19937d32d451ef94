import Ironclaw.Lib.Json

/-!
# Messages and providers

The chat messages, tool calls and responses that pass between the program and a language model. A provider is a
parameter: it may answer any request with anything.
-/

namespace Ironclaw.Llm

inductive Role
  | system
  | user
  | assistant
  | tool
  deriving DecidableEq

/-- A tool call requested by the model. -/
structure ToolCall where
  id : Str
  name : Str
  arguments : Json
  reasoning : Option Str
  deriving DecidableEq

structure ChatMessage where
  role : Role
  content : Str
  toolCallId : Option Str
  name : Option Str
  toolCalls : Option (List ToolCall)
  deriving DecidableEq

namespace ChatMessage

def system (content : Str) : ChatMessage := ⟨.system, content, none, none, none⟩

def user (content : Str) : ChatMessage := ⟨.user, content, none, none, none⟩

def assistant (content : Str) : ChatMessage := ⟨.assistant, content, none, none, none⟩

def assistantWithToolCalls (content : Option Str) (toolCalls : List ToolCall) : ChatMessage :=
  ⟨.assistant, content.getD [], none, none, if toolCalls.isEmpty then none else some toolCalls⟩

def toolResult (toolCallId name content : Str) : ChatMessage :=
  ⟨.tool, content, some toolCallId, some name, none⟩

end ChatMessage

/-- A conversation that a provider accepts ends with a user message. -/
def ensureEndsWithUserMessage (messages : List ChatMessage) : List ChatMessage :=
  match messages.getLast? with
  | some ⟨.user, _, _, _, _⟩ => messages
  | _ => messages ++ [.user "Continue.".toList]

inductive FinishReason
  | stop
  | length
  | toolUse
  | contentFilter
  | unknown
  deriving DecidableEq

structure ToolDefinition where
  name : Str
  description : Str
  parameters : Json
  deriving DecidableEq

structure CompletionResponse where
  content : Str
  inputTokens : Nat
  outputTokens : Nat
  finishReason : FinishReason
  deriving DecidableEq

structure ToolCompletionResponse where
  content : Option Str
  toolCalls : List ToolCall
  inputTokens : Nat
  outputTokens : Nat
  finishReason : FinishReason
  deriving DecidableEq

/-- A provider: its answers to the two kinds of requests, and the context length of its model when it tells. An error
is its text. -/
structure LlmProvider where
  complete : (messages : List ChatMessage) → (maxTokens : Nat) → Except Str CompletionResponse
  completeWithTools : (messages : List ChatMessage) → (tools : List ToolDefinition) → (maxTokens : Nat) →
    Except Str ToolCompletionResponse
  modelMetadata : Except Str (Option Nat)

end Ironclaw.Llm

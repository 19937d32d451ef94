import Ironclaw.Lib.JsonText
import Ironclaw.Session.Restore

/-!
# Hydration

A completed turn is written to the database as rows, and after a restart the messages of a thread are rebuilt from the
rows. The reader looks for the arguments of a call in its summary, where the writer has put none, so that each call
comes back with an empty object. The rest comes back: what the user and the assistant said, the names of the tools, and
for each call its result, or its error cut shorter.

- `truncatePreview_again`: a preview of a longer preview;
- `rebuild_rows`: the messages that are rebuilt from the rows of a turn;
- `conversation_exchange`: what the messages of a turn say, whatever the ids of its calls;
- `hydrates_emptied`: all but the arguments comes back;
- `hydrates_iff`: the conversation comes back exactly when no call had arguments;
- `arguments_dropped`: a call that had some.
-/

namespace Ironclaw.Session

open Text Llm

/-! ## Writing -/

/-- A row of a conversation. -/
structure ConversationMessage where
  role : Str
  content : Str

section Writing

variable (json : JsonText)

/-- The text of the result of a tool. -/
def resultText : Json → Str
  | .str s => s
  | other => json.print other

/-- The id of a call in a row. -/
def rowCallId (turnNumber i : Nat) : Str := "turn".toList ++ (toString turnNumber).toList ++ '_' :: (toString i).toList

/-- The fields of the summary of a tool call, by their keys. -/
def summaryFields (turnNumber i : Nat) (tc : Agent.TurnToolCall) : List (Str × Option Json) :=
  [("call_id".toList, some (.str (rowCallId turnNumber i))),
    ("error".toList, tc.error.map fun error => .str (truncatePreview error 200)),
    ("name".toList, some (.str tc.name)),
    ("rationale".toList, tc.rationale.map fun rationale => .str (truncatePreview rationale 500)),
    ("result".toList, tc.result.map fun result => .str (truncatePreview (resultText json result) 1000)),
    ("result_preview".toList, tc.result.map fun result => .str (truncatePreview (resultText json result) 500)),
    ("tool_call_id".toList, tc.toolCallId.map fun id => .str (truncatePreview id 128))]

def summary (turnNumber i : Nat) (tc : Agent.TurnToolCall) : Json := .ofFields (summaryFields json turnNumber i tc)

/-- The object of a row: the summaries of the calls and the narrative. -/
def wrapper (turnNumber : Nat) (toolCalls : List Agent.TurnToolCall) (narrative : Option Str) : Json :=
  .ofFields
    [("calls".toList, some (.arr (toolCalls.mapIdx (summary json turnNumber)))),
      ("narrative".toList, narrative.map fun text => .str (truncatePreview text 1000))]

def persistUserMessage (userInput : Str) : List ConversationMessage := [⟨"user".toList, userInput⟩]

def persistToolCalls (turnNumber : Nat) (toolCalls : List Agent.TurnToolCall) (narrative : Option Str) :
    List ConversationMessage :=
  if toolCalls.isEmpty then [] else [⟨"tool_calls".toList, json.print (wrapper json turnNumber toolCalls narrative)⟩]

def persistAssistantResponse (response : Str) : List ConversationMessage := [⟨"assistant".toList, response⟩]

/-- A completed turn and its response. -/
structure CompletedTurn where
  turn : Turn
  answer : Str
  completed : turn.state = .completed
  answered : turn.response = some answer

/-- The rows that are written for a completed turn. -/
def CompletedTurn.rows (c : CompletedTurn) : List ConversationMessage :=
  persistUserMessage c.turn.userInput ++
    persistToolCalls json c.turn.turnNumber c.turn.toolCalls c.turn.narrative ++ persistAssistantResponse c.answer

end Writing

/-! ## Reading -/

/-- A field of a summary that is a string. -/
def strField (key : Str) (c : Json) : Option Str := (c.get key).bind Json.asStr

def readId (c : Json) : Str := (strField "call_id".toList c).getD "call_0".toList

def readName (c : Json) : Str := (strField "name".toList c).getD "unknown".toList

/-- The declaration of a call. -/
def readCall (c : Json) : ToolCall where
  id := readId c
  name := readName c
  arguments := (c.get "parameters".toList).getD (.obj [])
  reasoning := strField "rationale".toList c

/-- The content of a result: the error, else the result, else its short preview. -/
def readContent (c : Json) : Str :=
  ((strField "error".toList c).or ((strField "result".toList c).or (strField "result_preview".toList c))).getD
    "OK".toList

section Reading

variable (json : JsonText)

/-- The summaries in the content of a row: a plain array, or the calls of an object. -/
def rowCalls (content : Str) : List Json :=
  match json.parse content with
  | .ok (.arr calls) => calls
  | .ok (.obj kvs) =>
    match (Json.obj kvs).get "calls".toList with
    | some (.arr calls) => calls
    | _ => []
  | _ => []

/-- The messages of a row. A row whose first summary has no id is skipped, and so is an unknown role. -/
def rebuildRow (msg : ConversationMessage) : List ChatMessage :=
  if msg.role = "user".toList then [.user msg.content]
  else if msg.role = "assistant".toList then [.assistant msg.content]
  else if msg.role = "tool_calls".toList then
    let calls := rowCalls json msg.content
    match calls.head?.bind (strField "call_id".toList) with
    | some _ =>
      .assistantWithToolCalls none (calls.map readCall) ::
        calls.map fun c => .toolResult (readId c) (readName c) (readContent c)
    | none => []
  else []

def rebuildChatMessagesFromDb (dbMessages : List ConversationMessage) : List ChatMessage :=
  dbMessages.flatMap (rebuildRow json)

end Reading

/-! ## Conversations -/

/-- What a message says. A result also says whether it is for the call whose turn it is among the declared ones. -/
inductive Entry
  | system (content : Str)
  | user (content : Str)
  | assistant (content : Str)
  | calls (calls : List (Str × Json))
  | result (paired : Bool) (name : Option Str) (content : Str)
  deriving DecidableEq

/-- The result is for the first of the calls that wait for one. -/
def answersFirst (id : Option Str) : List Str → Bool
  | [] => false
  | waiting :: _ => id == some waiting

/-- The entries of a list of messages, with the ids of the calls that wait for their results. -/
def conversation : List Str → List ChatMessage → List Entry
  | _, [] => []
  | waiting, msg :: msgs =>
    match msg.role, msg.toolCalls with
    | .assistant, some tcs =>
      .calls (tcs.map fun tc => (tc.name, tc.arguments)) :: conversation (tcs.map fun tc => tc.id) msgs
    | .assistant, none => .assistant msg.content :: conversation waiting msgs
    | .tool, _ => .result (answersFirst msg.toolCallId waiting) msg.name msg.content :: conversation waiting.tail msgs
    | .user, _ => .user msg.content :: conversation waiting msgs
    | .system, _ => .system msg.content :: conversation waiting msgs

/-- The rebuilt entry is the one of the live thread, or a result that is cut to a preview. -/
inductive Entry.Shows : Entry → Entry → Prop
  | same (e : Entry) : Entry.Shows e e
  | preview (paired : Bool) (name : Option Str) (content : Str) :
    Entry.Shows (.result paired name content) (.result paired name (truncatePreview content 200))

/-- The rebuilt messages give the conversation of the live ones. -/
def Reproduces (live rebuilt : List ChatMessage) : Prop :=
  List.Forall₂ Entry.Shows (conversation [] live) (conversation [] rebuilt)

/-! ## Previews -/

/-- A short preview of a long preview is one of the text. -/
theorem truncatePreview_again (s : Str) : truncatePreview (truncatePreview s 1000) 200 = truncatePreview s 200 := by
  by_cases hshort : utf8Len s ≤ 1000
  · rw [show truncatePreview s 1000 = s from if_pos hshort]
  have hlong : 1000 < utf8Len s := Nat.lt_of_not_le hshort
  have hkept := lt_utf8Len_takeBytes hlong
  have hcut : truncatePreview s 1000 = takeBytes 1000 s ++ ("...".toList ++ closing s) := by
    rw [truncatePreview_cut hlong, List.append_assoc]
  have hagain : 200 < utf8Len (truncatePreview s 1000) := by
    rw [hcut, utf8Len_append]
    omega
  -- both previews are cut within what the long one keeps
  have hpart : takeBytes 200 (truncatePreview s 1000) = takeBytes 200 s := by
    have hprefix := takeBytes_isPrefix 1000 s
    rw [hcut, takeBytes_within hprefix (by omega : 200 ≤ utf8Len (takeBytes 1000 s))]
    exact takeBytes_within (List.prefix_append _ _) (by omega)
  have hclosing : closing (truncatePreview s 1000) = closing s := by
    rw [hcut]
    exact closing_cut hlong _
  rw [truncatePreview_cut hagain, truncatePreview_cut (by omega : 200 < utf8Len s), hpart, hclosing]

/-! ## Rows and messages -/

section Rows

variable {json : JsonText}

theorem keys_summary (turnNumber i : Nat) (tc : Agent.TurnToolCall) :
    (summaryFields json turnNumber i tc).map Prod.fst =
      ["call_id".toList, "error".toList, "name".toList, "rationale".toList, "result".toList, "result_preview".toList,
        "tool_call_id".toList] := rfl

theorem nodup_summary (turnNumber i : Nat) (tc : Agent.TurnToolCall) :
    ((summaryFields json turnNumber i tc).map Prod.fst).Nodup := by
  rw [keys_summary]
  decide

theorem strField_summary {turnNumber i : Nat} {tc : Agent.TurnToolCall} {key : Str} {v : Option Json}
    (h : (key, v) ∈ summaryFields json turnNumber i tc) :
    strField key (summary json turnNumber i tc) = v.bind Json.asStr := by
  rw [strField, summary, Json.get_ofFields (nodup_summary turnNumber i tc) h]

/-- Every field of a summary is a string. -/
theorem str_of_summary {turnNumber i : Nat} {tc : Agent.TurnToolCall} :
    ∀ f ∈ summaryFields json turnNumber i tc, ∀ v ∈ f.2, ∃ s, v = .str s := by
  intro f hf v hv
  simp only [summaryFields, List.mem_cons, List.not_mem_nil, or_false] at hf
  rcases hf with rfl | rfl | rfl | rfl | rfl | rfl | rfl <;>
    simp only [Option.mem_def, Option.map_eq_some_iff, Option.some.injEq] at hv <;>
    grind

theorem textual_summary (turnNumber i : Nat) (tc : Agent.TurnToolCall) : (summary json turnNumber i tc).Textual := by
  refine Json.textual_ofFields ?_ fun f hf v hv => ?_
  · rw [keys_summary]
    decide
  · obtain ⟨s, rfl⟩ := str_of_summary f hf v hv
    exact .str s

theorem within_summary (turnNumber i : Nat) (tc : Agent.TurnToolCall) : (summary json turnNumber i tc).Within 1 := by
  refine Json.within_ofFields fun f hf v hv => ?_
  obtain ⟨s, rfl⟩ := str_of_summary f hf v hv
  exact .str 0 s

theorem textual_wrapper (turnNumber : Nat) (toolCalls : List Agent.TurnToolCall) (narrative : Option Str) :
    (wrapper json turnNumber toolCalls narrative).Textual := by
  refine Json.textual_ofFields ?_ fun f hf v hv => ?_
  · show ["calls".toList, "narrative".toList].Pairwise (· < ·)
    decide
  · obtain rfl | hf := List.mem_cons.mp hf
    · obtain rfl := Option.some.inj hv
      refine .arr fun x hx => ?_
      obtain ⟨i, hi, rfl⟩ := List.mem_mapIdx.mp hx
      exact textual_summary turnNumber i _
    · obtain rfl := List.mem_singleton.mp hf
      obtain ⟨text, -, rfl⟩ := Option.map_eq_some_iff.mp hv
      exact .str _

theorem within_wrapper (turnNumber : Nat) (toolCalls : List Agent.TurnToolCall) (narrative : Option Str) :
    (wrapper json turnNumber toolCalls narrative).Within 3 := by
  refine Json.within_ofFields fun f hf v hv => ?_
  obtain rfl | hf := List.mem_cons.mp hf
  · obtain rfl := Option.some.inj hv
    refine .arr fun x hx => ?_
    obtain ⟨i, hi, rfl⟩ := List.mem_mapIdx.mp hx
    exact within_summary turnNumber i _
  · obtain rfl := List.mem_singleton.mp hf
    obtain ⟨text, -, rfl⟩ := Option.map_eq_some_iff.mp hv
    exact .str 2 _

/-- The summaries are read back from the row. -/
theorem rowCalls_wrapper (hjson : json.RoundTrips) (turnNumber : Nat) (toolCalls : List Agent.TurnToolCall)
    (narrative : Option Str) :
    rowCalls json (json.print (wrapper json turnNumber toolCalls narrative)) =
      toolCalls.mapIdx (summary json turnNumber) := by
  have hget : (wrapper json turnNumber toolCalls narrative).get "calls".toList =
      some (.arr (toolCalls.mapIdx (summary json turnNumber))) := rfl
  have hwithin : (wrapper json turnNumber toolCalls narrative).Within JsonText.MAX_NESTING :=
    (within_wrapper turnNumber toolCalls narrative).mono (by decide)
  rw [rowCalls, hjson _ (textual_wrapper turnNumber toolCalls narrative) hwithin]
  rw [wrapper, Json.ofFields] at hget ⊢
  simp only [hget]

/-! ## Turns in messages -/

/-- A call as messages give it, with the content of its result. -/
structure Exchange where
  call : ToolCall
  content : Str

def Exchange.result (x : Exchange) : ChatMessage := .toolResult x.call.id x.call.name x.content

/-- The messages of a turn. -/
def exchangeMessages (userInput : Str) (exchanges : List Exchange) (answer : Str) : List ChatMessage :=
  .user userInput ::
    (if exchanges.isEmpty then []
    else .assistantWithToolCalls none (exchanges.map Exchange.call) :: exchanges.map Exchange.result) ++
      [.assistant answer]

variable (json) in
/-- A call in the messages of a live thread. -/
def liveExchange (turnIdx i : Nat) (tc : Agent.TurnToolCall) : Exchange where
  call := ⟨generateToolCallId turnIdx i, tc.name, tc.parameters, none⟩
  content := resultContent json tc

variable (json) in
/-- The content of the result of a call in the rebuilt messages. -/
def rowContent (tc : Agent.TurnToolCall) : Str :=
  match tc.error, tc.result with
  | some error, _ => truncatePreview error 200
  | none, some result => truncatePreview (resultText json result) 1000
  | none, none => "OK".toList

variable (json) in
/-- A call in the rebuilt messages. -/
def rowExchange (turnNumber i : Nat) (tc : Agent.TurnToolCall) : Exchange where
  call := ⟨rowCallId turnNumber i, tc.name, .obj [], tc.rationale.map fun rationale => truncatePreview rationale 500⟩
  content := rowContent json tc

theorem messages_turn (c : CompletedTurn) (turnIdx : Nat) :
    c.turn.messages json turnIdx =
      exchangeMessages c.turn.userInput (c.turn.toolCalls.mapIdx (liveExchange json turnIdx)) c.answer := by
  simp only [Turn.messages, exchangeMessages, c.answered, map_mapIdx, isEmpty_mapIdx]
  rfl

theorem readId_summary (turnNumber i : Nat) (tc : Agent.TurnToolCall) :
    readId (summary json turnNumber i tc) = rowCallId turnNumber i := by
  rw [readId, strField_summary (.head _)]
  rfl

theorem readName_summary (turnNumber i : Nat) (tc : Agent.TurnToolCall) :
    readName (summary json turnNumber i tc) = tc.name := by
  rw [readName, strField_summary (.tail _ (.tail _ (.head _)))]
  rfl

theorem readCall_summary (turnNumber i : Nat) (tc : Agent.TurnToolCall) :
    readCall (summary json turnNumber i tc) = (rowExchange json turnNumber i tc).call := by
  have hparameters : (summary json turnNumber i tc).get "parameters".toList = none := by
    refine Json.get_ofFields_eq_none ?_
    rw [keys_summary]
    decide
  have hrationale : strField "rationale".toList (summary json turnNumber i tc) =
      tc.rationale.map fun rationale => truncatePreview rationale 500 := by
    rw [strField_summary (.tail _ (.tail _ (.tail _ (.head _))))]
    cases tc.rationale <;> rfl
  rw [readCall, readId_summary, readName_summary, hparameters, hrationale]
  rfl

theorem readContent_summary (turnNumber i : Nat) (tc : Agent.TurnToolCall) :
    readContent (summary json turnNumber i tc) = rowContent json tc := by
  rw [readContent, rowContent, strField_summary (.tail _ (.head _)),
    strField_summary (.tail _ (.tail _ (.tail _ (.tail _ (.head _))))),
    strField_summary (.tail _ (.tail _ (.tail _ (.tail _ (.tail _ (.head _))))))]
  cases tc.error with
  | some error => rfl
  | none => cases tc.result <;> rfl

theorem rebuildRow_user {role : Str} (h : role = "user".toList) (content : Str) :
    rebuildRow json ⟨role, content⟩ = [.user content] := if_pos h

theorem rebuildRow_assistant {role : Str} (huser : role ≠ "user".toList) (h : role = "assistant".toList)
    (content : Str) :
    rebuildRow json ⟨role, content⟩ = [.assistant content] := by
  rw [rebuildRow, if_neg huser, if_pos h]

theorem rowResult_summary (turnNumber i : Nat) (tc : Agent.TurnToolCall) :
    ChatMessage.toolResult (readId (summary json turnNumber i tc)) (readName (summary json turnNumber i tc))
      (readContent (summary json turnNumber i tc)) = (rowExchange json turnNumber i tc).result := by
  rw [readId_summary, readName_summary, readContent_summary]
  rfl

/-- The row of the calls of a turn. -/
theorem rebuildRow_toolCalls {role : Str} (huser : role ≠ "user".toList) (hassistant : role ≠ "assistant".toList)
    (h : role = "tool_calls".toList) (hjson : json.RoundTrips) (turnNumber : Nat) (tc : Agent.TurnToolCall)
    (tcs : List Agent.TurnToolCall) (narrative : Option Str) :
    rebuildRow json ⟨role, json.print (wrapper json turnNumber (tc :: tcs) narrative)⟩ =
      .assistantWithToolCalls none (((tc :: tcs).mapIdx (rowExchange json turnNumber)).map Exchange.call) ::
        ((tc :: tcs).mapIdx (rowExchange json turnNumber)).map Exchange.result := by
  have hfirst : ((tc :: tcs).mapIdx (summary json turnNumber)).head?.bind (strField "call_id".toList) =
      some (rowCallId turnNumber 0) := by
    rw [List.head?_mapIdx, List.head?_cons, Option.map_some, Option.bind_some, strField_summary (.head _)]
    rfl
  rw [rebuildRow, if_neg huser, if_neg hassistant, if_pos h, rowCalls_wrapper hjson]
  simp only [hfirst, map_mapIdx, readCall_summary, rowResult_summary]

/-- What is rebuilt from the rows of a turn. -/
theorem rebuild_rows (hjson : json.RoundTrips) (c : CompletedTurn) :
    rebuildChatMessagesFromDb json (c.rows json) =
      exchangeMessages c.turn.userInput (c.turn.toolCalls.mapIdx (rowExchange json c.turn.turnNumber)) c.answer := by
  have huser := @rebuildRow_user json _ rfl c.turn.userInput
  have hanswer := @rebuildRow_assistant json _ (by decide) rfl c.answer
  rw [rebuildChatMessagesFromDb, CompletedTurn.rows, exchangeMessages, persistUserMessage, persistToolCalls,
    persistAssistantResponse, isEmpty_mapIdx, List.flatMap_append, List.flatMap_append, List.flatMap_singleton,
    List.flatMap_singleton, huser, hanswer]
  cases c.turn.toolCalls with
  | nil => rfl
  | cons tc tcs =>
    have hcalls := rebuildRow_toolCalls (by decide) (by decide) rfl hjson c.turn.turnNumber tc tcs
      c.turn.narrative
    rw [List.isEmpty_cons, if_neg Bool.false_ne_true, if_neg Bool.false_ne_true, List.flatMap_singleton, hcalls]
    rfl

/-! ## What a turn says -/

/-- The entry of a result that is given for its call. -/
def resultEntry (name content : Str) : Entry := .result true (some name) content

/-- Results in the order of the calls that wait for them. -/
theorem conversation_results (msgs : List ChatMessage) : ∀ exchanges : List Exchange,
    conversation (exchanges.map fun x => x.call.id) (exchanges.map Exchange.result ++ msgs) =
      (exchanges.map fun x => resultEntry x.call.name x.content) ++ conversation [] msgs
  | [] => rfl
  | x :: exchanges => by
    have ih := conversation_results msgs exchanges
    have hpaired : answersFirst (some x.call.id) (((x :: exchanges).map fun x => x.call.id)) = true :=
      beq_self_eq_true _
    rw [List.map_cons, List.map_cons, List.cons_append, List.map_cons, List.cons_append, ← ih, resultEntry, ← hpaired]
    rfl

/-- The entries of a turn, of the names, the arguments and the results of its calls. -/
def turnEntries (userInput : Str) (calls : List (Str × Json × Str)) (answer : Str) : List Entry :=
  .user userInput ::
    (if calls.isEmpty then []
    else .calls (calls.map fun c => (c.1, c.2.1)) :: calls.map fun c => resultEntry c.1 c.2.2) ++ [.assistant answer]

/-- The entries of a turn with calls. -/
theorem turnEntries_map {α : Type*} (userInput answer : Str) {xs : List α} (h : xs ≠ []) (f : α → Str × Json × Str)
    (rest : List Entry) :
    turnEntries userInput (xs.map f) answer ++ rest =
      .user userInput :: .calls (xs.map fun x => ((f x).1, (f x).2.1)) ::
        ((xs.map fun x => resultEntry (f x).1 (f x).2.2) ++ .assistant answer :: rest) := by
  have hne : ¬(xs.map f).isEmpty = true := by rwa [List.isEmpty_iff, List.map_eq_nil_iff]
  rw [turnEntries, if_neg hne, List.map_map, List.map_map]
  simp only [List.cons_append, List.append_assoc, List.nil_append]
  rfl

/-- The ids of the calls are not seen. -/
theorem conversation_exchange (userInput answer : Str) (exchanges : List Exchange) (msgs : List ChatMessage) :
    conversation [] (exchangeMessages userInput exchanges answer ++ msgs) =
      turnEntries userInput (exchanges.map fun x => (x.call.name, x.call.arguments, x.content)) answer ++
        conversation [] msgs := by
  cases exchanges with
  | nil => rfl
  | cons x exchanges =>
    have hmsgs : exchangeMessages userInput (x :: exchanges) answer ++ msgs =
        .user userInput :: .assistantWithToolCalls none ((x :: exchanges).map Exchange.call) ::
          ((x :: exchanges).map Exchange.result ++ .assistant answer :: msgs) := by
      rw [exchangeMessages, List.isEmpty_cons, if_neg Bool.false_ne_true]
      simp only [List.cons_append, List.append_assoc, List.nil_append]
    have hresults := conversation_results (.assistant answer :: msgs) (x :: exchanges)
    have hfirst : conversation [] (exchangeMessages userInput (x :: exchanges) answer ++ msgs) =
        .user userInput :: .calls ((x :: exchanges).map fun x => (x.call.name, x.call.arguments)) ::
          conversation ((x :: exchanges).map fun x => x.call.id)
            ((x :: exchanges).map Exchange.result ++ .assistant answer :: msgs) := by
      rw [hmsgs]
      show Entry.user userInput ::
          .calls (((x :: exchanges).map Exchange.call).map fun tc => (tc.name, tc.arguments)) ::
            conversation (((x :: exchanges).map Exchange.call).map fun tc => tc.id) _ = _
      rw [List.map_map, List.map_map]
      rfl
    rw [hfirst, hresults, turnEntries_map userInput answer (List.cons_ne_nil _ _)]
    rfl

/-! ## Threads -/

variable (json) in
/-- What a call of the live thread says. -/
def liveCall (tc : Agent.TurnToolCall) : Str × Json × Str := (tc.name, tc.parameters, resultContent json tc)

variable (json) in
/-- What a rebuilt call says. -/
def rebuiltCall (tc : Agent.TurnToolCall) : Str × Json × Str := (tc.name, .obj [], rowContent json tc)

/-- The places of the calls are not seen. -/
theorem map_exchanges {f : Nat → Agent.TurnToolCall → Exchange} {g : Agent.TurnToolCall → Str × Json × Str}
    (h : ∀ i tc, ((f i tc).call.name, (f i tc).call.arguments, (f i tc).content) = g tc)
    (toolCalls : List Agent.TurnToolCall) :
    (toolCalls.mapIdx f).map (fun x => (x.call.name, x.call.arguments, x.content)) = toolCalls.map g := by
  rw [map_mapIdx]
  refine List.ext_getElem? fun i => ?_
  rw [List.getElem?_mapIdx, List.getElem?_map]
  exact congrArg (Option.map · toolCalls[i]?) (funext (h i))

theorem conversation_messages (turnIdx : Nat) : ∀ turns : List CompletedTurn,
    conversation [] (((turns.map CompletedTurn.turn).mapIdx fun i turn => turn.messages json (i + turnIdx)).flatten) =
      turns.flatMap fun c => turnEntries c.turn.userInput (c.turn.toolCalls.map (liveCall json)) c.answer
  | [] => rfl
  | c :: turns => by
    have ih := conversation_messages (turnIdx + 1) turns
    have hshift : (fun i (turn : Turn) => turn.messages json (i + 1 + turnIdx)) =
        fun i turn => turn.messages json (i + (turnIdx + 1)) := by
      funext i turn
      rw [Nat.add_assoc, Nat.add_comm 1]
    rw [List.map_cons, List.mapIdx_cons, List.flatten_cons, hshift, messages_turn, conversation_exchange, ih,
      map_exchanges (g := liveCall json) fun _ _ => rfl, List.flatMap_cons]

theorem conversation_rebuild (hjson : json.RoundTrips) : ∀ turns : List CompletedTurn,
    conversation [] (rebuildChatMessagesFromDb json (turns.flatMap (CompletedTurn.rows json))) =
      turns.flatMap fun c => turnEntries c.turn.userInput (c.turn.toolCalls.map (rebuiltCall json)) c.answer
  | [] => rfl
  | c :: turns => by
    have ih := conversation_rebuild hjson turns
    have hrows := rebuild_rows hjson c
    rw [rebuildChatMessagesFromDb] at ih hrows ⊢
    rw [List.flatMap_cons, List.flatMap_append, hrows, conversation_exchange, ih,
      map_exchanges (g := rebuiltCall json) fun _ _ => rfl, List.flatMap_cons]

theorem shows_calls_iff {a b : List (Str × Json)} : Entry.Shows (.calls a) (.calls b) ↔ a = b := by
  constructor
  · rintro ⟨⟩
    rfl
  · rintro rfl
    exact .same _

/-- The content of a rebuilt result is that of the live one, or it is an error and cut. -/
theorem shows_result (tc : Agent.TurnToolCall) :
    Entry.Shows (resultEntry tc.name (resultContent json tc)) (resultEntry tc.name (rowContent json tc)) := by
  rw [resultContent, rowContent]
  cases tc.error with
  | some error =>
    show Entry.Shows (resultEntry tc.name (truncatePreview error 1000))
      (resultEntry tc.name (truncatePreview error 200))
    rw [← truncatePreview_again error]
    exact .preview _ _ _
  | none =>
    cases tc.result with
    | none => exact .same _
    | some result => cases result <;> exact .same _

theorem shows_results {live rebuilt : List Entry} : ∀ toolCalls : List Agent.TurnToolCall,
    List.Forall₂ Entry.Shows
        (toolCalls.map (fun tc => resultEntry tc.name (resultContent json tc)) ++ live)
        (toolCalls.map (fun tc => resultEntry tc.name (rowContent json tc)) ++ rebuilt) ↔
      List.Forall₂ Entry.Shows live rebuilt
  | [] => Iff.rfl
  | tc :: toolCalls => by
    have ih := @shows_results live rebuilt toolCalls
    rw [List.map_cons, List.map_cons, List.cons_append, List.cons_append, List.forall₂_cons, ih]
    exact and_iff_right (shows_result tc)

/-- The names agree, so that the declared calls agree when the arguments do. -/
theorem shows_turn_iff (c : CompletedTurn) {live rebuilt : List Entry} :
    List.Forall₂ Entry.Shows
        (turnEntries c.turn.userInput (c.turn.toolCalls.map (liveCall json)) c.answer ++ live)
        (turnEntries c.turn.userInput (c.turn.toolCalls.map (rebuiltCall json)) c.answer ++ rebuilt) ↔
      (∀ tc ∈ c.turn.toolCalls, tc.parameters = .obj []) ∧ List.Forall₂ Entry.Shows live rebuilt := by
  have hsame : ∀ e, Entry.Shows e e := Entry.Shows.same
  cases c.turn.toolCalls with
  | nil =>
    simp only [turnEntries, List.map_nil, List.isEmpty_nil, if_true, List.cons_append, List.nil_append,
      List.forall₂_cons, hsame, true_and, List.not_mem_nil, false_imp_iff, implies_true]
  | cons tc tcs =>
    have hcalls : (tc :: tcs).map (fun tc => (tc.name, tc.parameters)) =
      (tc :: tcs).map (fun tc => (tc.name, Json.obj [])) ↔
        ∀ call ∈ tc :: tcs, call.parameters = .obj [] := by
      rw [List.map_inj_left]
      simp only [Prod.mk.injEq, true_and]
    have hresults := @shows_results json (.assistant c.answer :: live) (.assistant c.answer :: rebuilt) (tc :: tcs)
    rw [turnEntries_map _ _ (List.cons_ne_nil _ _), turnEntries_map _ _ (List.cons_ne_nil _ _), List.forall₂_cons,
      List.forall₂_cons, and_iff_right (hsame _), shows_calls_iff]
    refine and_congr hcalls (hresults.trans ?_)
    rw [List.forall₂_cons, and_iff_right (hsame _)]

theorem shows_turns_iff (turns : List CompletedTurn) :
    List.Forall₂ Entry.Shows
        (turns.flatMap fun c => turnEntries c.turn.userInput (c.turn.toolCalls.map (liveCall json)) c.answer)
        (turns.flatMap fun c => turnEntries c.turn.userInput (c.turn.toolCalls.map (rebuiltCall json)) c.answer) ↔
      ∀ c ∈ turns, ∀ tc ∈ c.turn.toolCalls, tc.parameters = .obj [] := by
  induction turns with
  | nil => exact iff_of_true .nil nofun
  | cons c turns ih =>
    rw [List.flatMap_cons, List.flatMap_cons, shows_turn_iff, List.forall_mem_cons]
    exact and_congr_right fun _ => ih

theorem conversation_thread {thread : Thread} {turns : List CompletedTurn}
    (hturns : thread.turns = turns.map CompletedTurn.turn) :
    conversation [] (thread.messages json) =
      turns.flatMap fun c => turnEntries c.turn.userInput (c.turn.toolCalls.map (liveCall json)) c.answer := by
  have hlive := @conversation_messages json 0 turns
  rw [← hturns] at hlive
  exact hlive

/-- A turn whose calls have no arguments. -/
def CompletedTurn.emptied (c : CompletedTurn) : CompletedTurn where
  turn := { c.turn with toolCalls := c.turn.toolCalls.map fun tc => { tc with parameters := .obj [] } }
  answer := c.answer
  completed := c.completed
  answered := c.answered

/-- All but the arguments comes back. -/
theorem hydrates_emptied (hjson : json.RoundTrips) {thread : Thread} {turns : List CompletedTurn}
    (hturns : thread.turns = (turns.map CompletedTurn.emptied).map CompletedTurn.turn) :
    Reproduces (thread.messages json) (rebuildChatMessagesFromDb json (turns.flatMap (CompletedTurn.rows json))) := by
  have hrebuilt :
    (turns.flatMap fun c => turnEntries c.turn.userInput (c.turn.toolCalls.map (rebuiltCall json)) c.answer) =
      (turns.map CompletedTurn.emptied).flatMap fun c =>
        turnEntries c.turn.userInput (c.turn.toolCalls.map (rebuiltCall json)) c.answer := by
    rw [List.flatMap_map]
    refine congrArg (List.flatMap · turns) (funext fun c => ?_)
    rw [show c.emptied.turn.toolCalls = c.turn.toolCalls.map fun tc => { tc with parameters := .obj [] } from rfl,
      List.map_map]
    rfl
  rw [Reproduces, conversation_thread hturns, conversation_rebuild hjson, hrebuilt, shows_turns_iff]
  intro c hc tc htc
  obtain ⟨c, -, rfl⟩ := List.mem_map.mp hc
  obtain ⟨tc, -, rfl⟩ := List.mem_map.mp htc
  rfl

/-- The conversation comes back exactly when every call has the empty object as its arguments. -/
theorem hydrates_iff (hjson : json.RoundTrips) {thread : Thread} {turns : List CompletedTurn}
    (hturns : thread.turns = turns.map CompletedTurn.turn) :
    Reproduces (thread.messages json) (rebuildChatMessagesFromDb json (turns.flatMap (CompletedTurn.rows json))) ↔
      ∀ turn ∈ thread.turns, ∀ tc ∈ turn.toolCalls, tc.parameters = .obj [] := by
  rw [Reproduces, conversation_thread hturns, conversation_rebuild hjson, shows_turns_iff, hturns, List.forall_mem_map]

end Rows

/-! ## A call with arguments -/

/-- A turn with a call of a tool that repeats its message. -/
def echoTurn : CompletedTurn where
  turn :=
    { narrative := none
      toolCalls :=
        [⟨"echo".toList, .obj [("message".toList, .str "hello".toList)], some (.str "hello".toList), none, none,
          some "call_1".toList⟩]
      turnNumber := 0
      userInput := "Say hello.".toList
      response := some "Done.".toList
      state := .completed
      error := none }
  answer := "Done.".toList
  completed := rfl
  answered := rfl

/-- Without its arguments the turn comes back. -/
theorem hydrates_echo :
    Reproduces (Thread.messages .compact { Thread.new with turns := [echoTurn.emptied.turn] })
      (rebuildChatMessagesFromDb .compact ([echoTurn.emptied].flatMap (CompletedTurn.rows .compact))) := by
  refine (hydrates_iff JsonText.roundTrips_compact rfl).mpr fun turn hturn tc htc => ?_
  obtain rfl := List.mem_singleton.mp hturn
  obtain rfl := List.mem_singleton.mp htc
  rfl

theorem arguments_dropped :
    ¬Reproduces (Thread.messages .compact { Thread.new with turns := [echoTurn.turn] })
      (rebuildChatMessagesFromDb .compact ([echoTurn].flatMap (CompletedTurn.rows .compact))) := by
  have hlive := @conversation_thread .compact { Thread.new with turns := [echoTurn.turn] } [echoTurn] rfl
  rw [Reproduces, hlive, conversation_rebuild JsonText.roundTrips_compact, shows_turns_iff]
  intro h
  cases h echoTurn List.mem_cons_self _ List.mem_cons_self

end Ironclaw.Session

import Ironclaw.Session.Thread

/-!
# Threads and their messages

A thread is flattened into messages, with ids for the calls of its tools and cut results, and read back from them.

- `restoreTurns_messages`: what is read back from the messages of a list of turns;
- `messages_restored`: a thread that was read back has the messages of the original, with the results cut once more;
- `truncatePreview_twice_iff`: when a second cut changes nothing;
- `round_trip_iff`: the messages come back unchanged exactly when every result is short enough or was cut at the limit.
-/

namespace Ironclaw.Session

open Text Llm

/-! ## Cutting twice -/

/-- The text keeps its preview: it is within the limit, or it is cut exactly there, or its preview with the dots is
within the limit, and no tag is closed. -/
def Fits (s : Str) : Prop :=
  utf8Len s ≤ 1000 ∨ utf8Len (takeBytes 1000 s) = 1000 ∨
    utf8Len (takeBytes 1000 s) = 997 ∧ ¬"<tool_output".toList <+: s

/-- What is put behind the dots of a cut text. -/
def closing (s : Str) : Str := if "<tool_output".toList.isPrefixOf s then "\n</tool_output>".toList else []

theorem utf8Len_closing (s : Str) :
    ¬"<tool_output".toList <+: s ∧ utf8Len (closing s) = 0 ∨ "<tool_output".toList <+: s ∧
    utf8Len (closing s) = 15 := by
  rw [closing]
  split
  next htag => exact .inr ⟨List.isPrefixOf_iff_prefix.mp htag, rfl⟩
  next htag => exact .inl ⟨fun h => htag (List.isPrefixOf_iff_prefix.mpr h), rfl⟩

/-- The dots are no closing tag. -/
theorem not_suffix_dots (s : Str) : "</tool_output>".toList.isSuffixOf (s ++ "...".toList) = false := by
  rw [← Bool.not_eq_true, List.isSuffixOf_iff_suffix]
  rintro ⟨front, h⟩
  have hlast := congrArg List.getLast? h
  rw [List.getLast?_append, List.getLast?_append] at hlast
  simp at hlast

theorem truncatePreview_cut {s : Str} {maxBytes : Nat} (h : maxBytes < utf8Len s) :
    truncatePreview s maxBytes = takeBytes maxBytes s ++ "...".toList ++ closing s := by
  rw [truncatePreview, if_neg (Nat.not_le.mpr h), closing]
  simp only [not_suffix_dots, Bool.not_false, Bool.and_true]
  cases "<tool_output".toList.isPrefixOf s with
  | true => rfl
  | false => exact (List.append_nil _).symm

/-- A cut text begins with the tag when the whole text does. -/
theorem closing_cut {s : Str} (h : 1000 < utf8Len s) (rest : Str) : closing (takeBytes 1000 s ++ rest) = closing s := by
  have hlen := lt_utf8Len_takeBytes h
  have hprefix := takeBytes_isPrefix 1000 s
  have hiff : "<tool_output".toList <+: takeBytes 1000 s ++ rest ↔ "<tool_output".toList <+: s := by
    constructor
    · intro htag
      -- the kept part is longer than the tag
      obtain hshort | hlong := List.prefix_or_prefix_of_prefix (List.prefix_append (takeBytes 1000 s) rest) htag
      · obtain ⟨t, ht⟩ := hshort
        have hsum : utf8Len (takeBytes 1000 s) + utf8Len t = 12 := by
          rw [← utf8Len_append, ht]
          decide
        omega
      · exact hlong.trans hprefix
    · rintro ⟨t, rfl⟩
      have hfits : utf8Len "<tool_output".toList ≤ 1000 := by decide
      rw [takeBytes_append hfits, List.append_assoc]
      exact List.prefix_append _ _
  simp only [closing, List.isPrefixOf_iff_prefix, hiff]

/-- Nothing is kept of dots where there is no room for them. -/
theorem takeBytes_dots (n : Nat) (rest : Str) : takeBytes n ("...".toList ++ rest) = [] ↔ n = 0 := by
  constructor
  · intro h
    by_contra hn
    have hroom : '.'.utf8Size ≤ n := by
      show 1 ≤ n
      omega
    rw [show "...".toList ++ rest = '.' :: ("..".toList ++ rest) from rfl, takeBytes, if_pos hroom] at h
    cases h
  · rintro rfl
    exact takeBytes_zero _

theorem truncatePreview_twice_iff (s : Str) :
    truncatePreview (truncatePreview s 1000) 1000 = truncatePreview s 1000 ↔ Fits s := by
  by_cases hshort : utf8Len s ≤ 1000
  · have hsame : truncatePreview s 1000 = s := if_pos hshort
    rw [hsame]
    exact iff_of_true hsame (.inl hshort)
  have hlong : 1000 < utf8Len s := Nat.lt_of_not_le hshort
  have hcut := truncatePreview_cut hlong
  have hkept := utf8Len_takeBytes_le 1000 s
  have hlost := lt_utf8Len_takeBytes hlong
  have hclosing : closing (truncatePreview s 1000) = closing s := by
    rw [hcut, List.append_assoc]
    exact closing_cut hlong _
  have hlen : utf8Len (truncatePreview s 1000) = utf8Len (takeBytes 1000 s) + 3 + utf8Len (closing s) := by
    rw [hcut, utf8Len_append, utf8Len_append]
    rfl
  rw [Fits, or_iff_right hshort]
  by_cases hagain : 1000 < utf8Len (truncatePreview s 1000)
  · -- the preview is cut as well: the same part is kept, and as many dots as there is room for
    have hiff : truncatePreview (truncatePreview s 1000) 1000 = truncatePreview s 1000 ↔
        1000 - utf8Len (takeBytes 1000 s) = 0 := by
      rw [truncatePreview_cut hagain, hclosing, hcut, List.append_assoc (takeBytes 1000 s), takeBytes_append hkept,
        ← takeBytes_dots _ (closing s)]
      simp only [List.append_assoc, List.append_cancel_left_eq]
      exact List.append_left_eq_self
    rw [hiff]
    rw [hlen] at hagain
    obtain ⟨htag, hclosed⟩ | ⟨htag, hclosed⟩ := utf8Len_closing s
    · rw [and_iff_left htag]
      omega
    · rw [or_iff_left fun h => h.2 htag]
      omega
  · have hsame : truncatePreview (truncatePreview s 1000) 1000 = truncatePreview s 1000 :=
      if_pos (Nat.le_of_not_lt hagain)
    rw [hlen] at hagain
    refine iff_of_true hsame (.inr ?_)
    obtain ⟨htag, -⟩ | ⟨-, hclosed⟩ := utf8Len_closing s
    · exact ⟨by omega, htag⟩
    · omega

/-! ## Reading the messages back -/

section Restoring

variable (json : JsonText)

/-- A tool call as its declaration is read back. -/
def declaredCall (id : Str) (tc : Agent.TurnToolCall) : Agent.TurnToolCall :=
  ⟨tc.name, tc.parameters, none, none, none, some id⟩

/-- A tool call as it is read back: every outcome is a result. -/
def restoredCall (id : Str) (tc : Agent.TurnToolCall) : Agent.TurnToolCall :=
  { declaredCall id tc with result := some (.str (resultContent json tc)) }

/-- A turn as it is read back from its messages. -/
def Turn.restored (turnIdx : Nat) (turn : Turn) : Turn :=
  let read := { Turn.new turnIdx turn.userInput with
    toolCalls := turn.toolCalls.mapIdx fun i tc => restoredCall json (generateToolCallId turnIdx i) tc }
  turn.response.elim read read.complete

/-- Messages that are not from the user are read into a turn. -/
def readAll (current : Turn × Reading) (msgs : List ChatMessage) : Turn × Reading :=
  msgs.foldl (fun c msg => readInto c.1 c.2 msg) current

theorem restoreTurns_append (number : Nat) (rest : List ChatMessage) :
    ∀ (msgs : List ChatMessage) (current : Turn × Reading), (∀ msg ∈ msgs, msg.role ≠ .user) →
      restoreTurns number (some current) (msgs ++ rest) = restoreTurns number (some (readAll current msgs)) rest
  | [], _, _ => rfl
  | msg :: msgs, current, h => by
    rw [List.cons_append, restoreTurns, if_neg (h msg List.mem_cons_self)]
    exact restoreTurns_append number rest msgs _ fun m hm => h m (List.mem_cons_of_mem _ hm)

theorem foldl_recordToolCall : ∀ (tcs : List ToolCall) (turn : Turn),
    tcs.foldl Turn.recordToolCall turn =
      { turn with toolCalls := turn.toolCalls ++
        (tcs.map fun tc => ⟨tc.name, tc.arguments, none, none, tc.reasoning, some tc.id⟩) }
  | [], turn => by simp
  | tc :: tcs, turn => by
    rw [List.foldl_cons, foldl_recordToolCall tcs]
    simp [Turn.recordToolCall]

theorem map_mapIdx {α β γ : Type*} (f : β → γ) (g : Nat → α → β) (l : List α) :
    (l.mapIdx g).map f = l.mapIdx fun i a => f (g i a) := by
  refine List.ext_getElem? fun i => ?_
  rw [List.getElem?_map, List.getElem?_mapIdx, List.getElem?_mapIdx, Option.map_map]
  rfl

theorem isEmpty_mapIdx {α β : Type*} (g : Nat → α → β) (l : List α) : (l.mapIdx g).isEmpty = l.isEmpty := by
  rw [Bool.eq_iff_iff, List.isEmpty_iff, List.isEmpty_iff, List.mapIdx_eq_nil_iff]

theorem modify_length_append {α : Type*} (f : α → α) (x : α) (xs : List α) : ∀ before : List α,
    (before ++ x :: xs).modify before.length f = before ++ f x :: xs
  | [] => rfl
  | y :: before => by
    rw [List.cons_append, List.length_cons, List.modify_succ_cons, modify_length_append f x xs before, List.cons_append]

/-- The results go to the calls in their order. -/
theorem readAll_results (turn : Turn) : ∀ (calls : List (Str × Agent.TurnToolCall)) (before : List Agent.TurnToolCall),
    readAll ({ turn with toolCalls := before ++ (calls.map fun c => declaredCall c.1 c.2) }, .batch 0 before.length)
        (calls.map fun c => ChatMessage.toolResult c.1 c.2.name (resultContent json c.2)) =
      ({ turn with toolCalls := before ++ (calls.map fun c => restoredCall json c.1 c.2) },
        .batch 0 (before.length + calls.length))
  | [], before => rfl
  | c :: calls, before => by
    have ih := readAll_results turn calls (before ++ [restoredCall json c.1 c.2])
    rw [List.append_assoc, List.append_assoc, List.length_append] at ih
    rw [List.map_cons, List.map_cons, List.map_cons, readAll, List.foldl_cons, List.length_cons, ← Nat.add_assoc,
      Nat.add_right_comm]
    refine Eq.trans (congrArg (fun current => readAll current _) ?_) ih
    show (Turn.mk _ _ _ _ _ _, _) = _
    simp only [Nat.zero_add, modify_length_append]
    rfl

/-- The calls of a turn and their results are read before a response. -/
theorem readAll_tools (turn : Turn) (calls : List (Str × Agent.TurnToolCall)) (hturn : turn.toolCalls = []) :
    ∃ reading, reading ≠ .closed ∧
      readAll (turn, .fresh)
          (if calls.isEmpty then [] else
            ChatMessage.assistantWithToolCalls none (calls.map fun c => ⟨c.1, c.2.name, c.2.parameters, none⟩) ::
              calls.map fun c => ChatMessage.toolResult c.1 c.2.name (resultContent json c.2)) =
        ({ turn with toolCalls := calls.map fun c => restoredCall json c.1 c.2 }, reading) := by
  cases calls with
  | nil =>
    refine ⟨.fresh, nofun, ?_⟩
    show (turn, _) = _
    rw [List.map_nil, ← hturn]
  | cons c calls =>
    refine ⟨.batch 0 (c :: calls).length, nofun, ?_⟩
    have hdeclared : readInto turn .fresh
        (ChatMessage.assistantWithToolCalls none ((c :: calls).map fun c => ⟨c.1, c.2.name, c.2.parameters, none⟩)) =
          ({ turn with toolCalls := (c :: calls).map fun c => declaredCall c.1 c.2 }, .batch 0 0) := by
      show (List.foldl Turn.recordToolCall turn _, Reading.batch turn.toolCalls.length 0) = _
      rw [foldl_recordToolCall, hturn, List.nil_append, List.map_map]
      rfl
    show readAll (readInto turn .fresh _) _ = _
    rw [hdeclared]
    have hresults := readAll_results json turn (c :: calls) []
    rw [List.length_nil, Nat.zero_add] at hresults
    exact hresults

theorem readAll_messages (turnIdx : Nat) (turn : Turn) :
    (readAll (Turn.new turnIdx turn.userInput, .fresh) (turn.messages json turnIdx).tail).1 =
      turn.restored json turnIdx := by
  obtain ⟨reading, hopen, htools⟩ := readAll_tools json (Turn.new turnIdx turn.userInput)
    (turn.toolCalls.mapIdx fun i tc => (generateToolCallId turnIdx i, tc)) rfl
  rw [isEmpty_mapIdx, map_mapIdx (fun c : Str × Agent.TurnToolCall => restoredCall json c.1 c.2)] at htools
  show (readAll _ ((if _ then _ else _) ++ _)).1 = _
  rw [readAll, List.foldl_append]
  unfold readAll at htools
  rw [htools, Turn.restored]
  cases turn.response with
  | none => rfl
  | some response =>
    cases reading with
    | closed => exact absurd rfl hopen
    | fresh => rfl
    | batch base pos => rfl

/-- No reply of a turn is from the user. -/
theorem role_tail_messages (turnIdx : Nat) (turn : Turn) :
    ∀ msg ∈ (turn.messages json turnIdx).tail, msg.role ≠ .user := by
  intro msg hmsg
  rw [Turn.messages, List.cons_append, List.tail_cons, List.mem_append] at hmsg
  obtain hmsg | hmsg := hmsg
  · split at hmsg
    · cases hmsg
    obtain rfl | hmsg := List.mem_cons.mp hmsg
    · nofun
    · obtain ⟨c, -, rfl⟩ := List.mem_map.mp hmsg
      nofun
  · obtain ⟨response, -, rfl⟩ := List.mem_map.mp (Option.toList_map .. ▸ hmsg)
    nofun

/-- **Reading back**: the messages of a list of turns are read back as these turns, with the ids and results of the
messages. -/
theorem restoreTurns_messages : ∀ (turns : List Turn) (number : Nat) (current : Option (Turn × Reading)),
    restoreTurns number current ((turns.mapIdx fun i turn => turn.messages json (i + number)).flatten) =
      (current.map Prod.fst).toList ++ turns.mapIdx fun i turn => turn.restored json (i + number)
  | [], number, current => by
    rw [List.mapIdx_nil, List.flatten_nil, List.mapIdx_nil, List.append_nil]
    cases current <;> rfl
  | turn :: turns, number, current => by
    have hmessages : turn.messages json number =
        ChatMessage.user turn.userInput :: (turn.messages json number).tail := rfl
    have hshift : ∀ i, i + 1 + number = i + (number + 1) := fun i => by omega
    simp only [List.mapIdx_cons, List.flatten_cons, hshift, Nat.zero_add]
    have huser : (ChatMessage.user turn.userInput).role = .user := rfl
    rw [hmessages, List.cons_append, restoreTurns, if_pos huser,
      restoreTurns_append _ _ _ _ (role_tail_messages json number turn), restoreTurns_messages turns (number + 1)]
    exact congrArg _ (congrArg (· :: _) (readAll_messages json number turn))

/-- A message of a thread that was read back: the result of a tool is cut once more. -/
def reread (msg : ChatMessage) : ChatMessage :=
  if msg.role = .tool then { msg with content := truncatePreview msg.content 1000 } else msg

theorem messages_restored_turn (turnIdx : Nat) (turn : Turn) :
    (turn.restored json turnIdx).messages json turnIdx = (turn.messages json turnIdx).map reread := by
  have hcalls : (turn.restored json turnIdx).toolCalls.mapIdx (fun i tc => (generateToolCallId turnIdx i, tc)) =
      turn.toolCalls.mapIdx fun i tc =>
        (generateToolCallId turnIdx i, restoredCall json (generateToolCallId turnIdx i) tc) := by
    rw [Turn.restored]
    cases turn.response <;> exact List.mapIdx_mapIdx
  have hresponse : (turn.restored json turnIdx).response = turn.response := by
    rw [Turn.restored]
    cases turn.response <;> rfl
  have hinput : (turn.restored json turnIdx).userInput = turn.userInput := by
    rw [Turn.restored]
    cases turn.response <;> rfl
  have hempty : (turn.restored json turnIdx).toolCalls.isEmpty = turn.toolCalls.isEmpty := by
    rw [Turn.restored]
    cases turn.response <;> exact isEmpty_mapIdx _ _
  rw [Turn.messages, Turn.messages]
  simp only [hcalls, hresponse, hinput, hempty, map_mapIdx, List.map_append, List.map_cons, apply_ite (List.map reread)]
  cases turn.response <;> rfl

/-- The messages of a thread that was read back from messages: the results are cut once more. -/
theorem messages_restored (thread target : Thread) :
    (target.restoreFromMessages (thread.messages json)).messages json = (thread.messages json).map reread := by
  have hturns := restoreTurns_messages json thread.turns 0 none
  simp only [Nat.add_zero] at hturns
  show ((restoreTurns 0 none (thread.turns.mapIdx (Turn.messages json)).flatten).mapIdx _).flatten = _
  rw [hturns, Option.map_none, Option.toList_none, List.nil_append, List.mapIdx_mapIdx, Thread.messages,
    List.map_flatten, map_mapIdx]
  have hturn : (fun i => Turn.messages json i ∘ fun turn => Turn.restored json i turn) = fun i turn =>
      (Turn.messages json i turn).map reread := by
    funext i turn
    exact messages_restored_turn json i turn
  rw [hturn]

/-! ## The round trip -/

/-- What a tool call gave before any cut: its error, else its result. -/
def outcomeText (tc : Agent.TurnToolCall) : Option Str :=
  tc.error.or (tc.result.map fun | .str s => s | other => json.print other)

theorem resultContent_eq (tc : Agent.TurnToolCall) :
    resultContent json tc = ((outcomeText json tc).map (truncatePreview · 1000)).getD "OK".toList := by
  unfold resultContent outcomeText
  split <;> simp_all

theorem reread_toolResult_iff (id : Str) (tc : Agent.TurnToolCall) :
    reread (ChatMessage.toolResult id tc.name (resultContent json tc)) =
        ChatMessage.toolResult id tc.name (resultContent json tc) ↔
      ∀ s ∈ outcomeText json tc, Fits s := by
  have hiff : reread (ChatMessage.toolResult id tc.name (resultContent json tc)) =
        ChatMessage.toolResult id tc.name (resultContent json tc) ↔
      truncatePreview (resultContent json tc) 1000 = resultContent json tc := by
    simp [reread, ChatMessage.toolResult]
  rw [hiff, resultContent_eq]
  cases outcomeText json tc with
  | none => exact iff_of_true rfl nofun
  | some s =>
    simp only [Option.map_some, Option.getD_some, Option.mem_def, Option.some.injEq, forall_eq']
    exact truncatePreview_twice_iff s

/-- Every message of a turn other than a tool result is read back as it is. -/
theorem reread_turn_iff (turnIdx : Nat) (turn : Turn) :
    (∀ msg ∈ turn.messages json turnIdx, reread msg = msg) ↔
      ∀ tc ∈ turn.toolCalls, ∀ s ∈ outcomeText json tc, Fits s := by
  rw [Turn.messages]
  simp only [List.cons_append, List.forall_mem_cons, List.forall_mem_append]
  have huser : reread (ChatMessage.user turn.userInput) = ChatMessage.user turn.userInput := rfl
  have hresponse : ∀ msg ∈ (turn.response.map ChatMessage.assistant).toList, reread msg = msg := by
    intro msg hmsg
    rw [Option.mem_toList] at hmsg
    obtain ⟨response, -, rfl⟩ := Option.map_eq_some_iff.mp hmsg
    rfl
  rw [and_iff_right huser, and_iff_left hresponse]
  split
  next hempty =>
    rw [List.isEmpty_iff.mp hempty]
    exact iff_of_true nofun nofun
  next hsome =>
    have hdeclared : ∀ declared, reread (ChatMessage.assistantWithToolCalls none declared) =
        ChatMessage.assistantWithToolCalls none declared := fun _ => rfl
    rw [List.forall_mem_cons, and_iff_right (hdeclared _), List.forall_mem_map]
    constructor
    · intro h tc htc
      obtain ⟨i, hi, rfl⟩ := List.getElem_of_mem htc
      exact (reread_toolResult_iff json _ _).mp (h _ (List.mem_mapIdx.mpr ⟨i, hi, rfl⟩))
    · rintro h c hc
      obtain ⟨i, hi, rfl⟩ := List.mem_mapIdx.mp hc
      exact (reread_toolResult_iff json _ _).mpr (h _ (List.getElem_mem hi))

end Restoring

/-- **The round trip** gives the same messages exactly when every error and every result of a tool is short enough for
its preview, or was cut in a way that the second cut repeats. -/
theorem round_trip_iff (json : JsonText) (thread target : Thread) :
    (target.restoreFromMessages (thread.messages json)).messages json = thread.messages json ↔
      ∀ turn ∈ thread.turns, ∀ tc ∈ turn.toolCalls, ∀ s ∈ outcomeText json tc, Fits s := by
  have hsame : (thread.messages json).map reread = thread.messages json ↔
      ∀ msg ∈ thread.messages json, reread msg = msg := by
    conv_lhs => rhs; rw [← List.map_id (thread.messages json)]
    exact List.map_inj_left
  rw [messages_restored, hsame, Thread.messages, List.forall_mem_flatten]
  constructor
  · intro h turn hturn
    obtain ⟨i, hi, rfl⟩ := List.getElem_of_mem hturn
    exact (reread_turn_iff json i _).mp (h _ (List.mem_mapIdx.mpr ⟨i, hi, rfl⟩))
  · intro h messages hmessages
    obtain ⟨i, hi, rfl⟩ := List.mem_mapIdx.mp hmessages
    exact (reread_turn_iff json i _).mpr (h _ (List.getElem_mem hi))

/-- A text of 1001 bytes, whose last character begins at byte 999. -/
def splitText : Str := List.replicate 999 'a' ++ ['é']

theorem not_fits_splitText : ¬Fits splitText := by
  have hfront : utf8Len (List.replicate 999 'a') = 999 := by
    rw [utf8Len, List.map_replicate, List.sum_replicate]
    rfl
  have hlen : utf8Len splitText = 1001 := by
    rw [splitText, utf8Len_append, hfront]
    rfl
  have hkept : utf8Len (takeBytes 1000 splitText) = 999 := by
    rw [splitText, takeBytes_append (hfront.trans_le (by omega)), hfront, utf8Len_append, hfront]
    rfl
  rw [Fits, hlen, hkept]
  omega

/-- The result of a search is cut inside its last character, and once more when it is read back. -/
theorem cut_result_changes :
    ¬∀ (json : JsonText) (thread target : Thread),
      (target.restoreFromMessages (thread.messages json)).messages json = thread.messages json := by
  intro h
  let tc : Agent.TurnToolCall := ⟨"search".toList, .null, some (.str splitText), none, none, none⟩
  let thread : Thread := { Thread.new with turns := [{ Turn.new 0 "Search.".toList with toolCalls := [tc] }] }
  let json : JsonText := ⟨fun _ => .error [], fun _ => []⟩
  have hsame := h json thread thread
  rw [messages_restored] at hsame
  have hresult := congrArg (fun msgs => msgs[2]?) hsame
  have hreread : reread (ChatMessage.toolResult (generateToolCallId 0 0) tc.name (resultContent json tc)) =
      ChatMessage.toolResult (generateToolCallId 0 0) tc.name (resultContent json tc) := Option.some.inj hresult
  exact not_fits_splitText ((reread_toolResult_iff json _ tc).mp hreread _ rfl)

end Ironclaw.Session

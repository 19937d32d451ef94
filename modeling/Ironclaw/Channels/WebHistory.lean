import Ironclaw.Lib.JsonText
import Ironclaw.Safety.Unwrap

/-!
# The history view of the web gateway

The rows of a conversation grouped into turns: a user row with the tool calls and the answer behind it, or an answer of
its own.

- `grouped_buildTurns`: every row is in one group, and the turns are the groups in their order;
- `history_complete`: what this says of the numbers, the inputs, the answers and the states.
-/

namespace Ironclaw.Channels

open Text

/-! ## Turns -/

/-- A stored row; `τ` is the type of points in time. -/
structure ConversationMessage (τ : Type) where
  role : Str
  content : Str
  createdAt : τ

structure ToolCallInfo where
  name : Str
  hasResult : Bool
  hasError : Bool
  resultPreview : Option Str
  error : Option Str
  rationale : Option Str

structure TurnInfo where
  turnNumber : Nat
  userInput : Str
  response : Option Str
  state : Str
  startedAt : Str
  completedAt : Option Str
  toolCalls : List ToolCallInfo
  narrative : Option Str

/-- A stored tool error as it is shown. -/
def toolErrorForDisplay (error : Str) : Str := (Safety.unwrapToolOutput error).getD error

def parseToolCallInfos (calls : List Json) : List ToolCallInfo :=
  calls.map fun c =>
    { name := ((c.get "name".toList).bind Json.asStr).getD "unknown".toList
      hasResult := (c.get "result_preview".toList).any fun v => v ≠ .null
      hasError := (c.get "error".toList).any fun v => v ≠ .null
      resultPreview := (c.get "result_preview".toList).bind Json.asStr
      error := ((c.get "error".toList).bind Json.asStr).map toolErrorForDisplay
      rationale := (c.get "rationale".toList).bind Json.asStr }

variable {τ : Type} (json : JsonText) (toRfc3339 : τ → Str)

/-- The calls and the narrative of a row: a plain list of calls, or an object with both. -/
def readToolCalls (content : Str) : List ToolCallInfo × Option Str :=
  match json.parse content with
  | .ok (.arr calls) => (parseToolCallInfos calls, none)
  | .ok (.obj obj) =>
    let narrative := (Json.get "narrative".toList (.obj obj)).bind Json.asStr
    match Json.get "calls".toList (.obj obj) with
    | some (.arr calls) => (parseToolCallInfos calls, narrative)
    | _ => ([], narrative)
  | _ => ([], none)

/-- The next row when it has the role, and the rows that are left. -/
def nextIf (role : Str) : List (ConversationMessage τ) → Option (ConversationMessage τ) × List (ConversationMessage τ)
  | [] => (none, [])
  | next :: iter => if next.role = role then (some next, iter) else (none, next :: iter)

theorem length_nextIf (role : Str) (iter : List (ConversationMessage τ)) :
    (nextIf role iter).2.length ≤ iter.length := by
  cases iter with
  | nil => exact le_rfl
  | cons next iter =>
    rw [nextIf]
    split
    · exact Nat.le_succ _
    · exact le_rfl

/-- The turn of a user row with the rows behind it. -/
def userTurn (turnNumber : Nat) (msg : ConversationMessage τ) (tcMsg assistantMsg : Option (ConversationMessage τ)) :
    TurnInfo :=
  let calls := match tcMsg with
    | some tcMsg => readToolCalls json tcMsg.content
    | none => ([], none)
  { turnNumber := turnNumber
    userInput := msg.content
    response := assistantMsg.map (·.content)
    state := if assistantMsg.isNone then "Failed".toList else "Completed".toList
    startedAt := toRfc3339 msg.createdAt
    completedAt := assistantMsg.map fun m => toRfc3339 m.createdAt
    toolCalls := calls.1
    narrative := calls.2 }

/-- The turn of an assistant row without a user row before it. -/
def standaloneTurn (turnNumber : Nat) (msg : ConversationMessage τ) : TurnInfo where
  turnNumber := turnNumber
  userInput := []
  response := some msg.content
  state := "Completed".toList
  startedAt := toRfc3339 msg.createdAt
  completedAt := some (toRfc3339 msg.createdAt)
  toolCalls := []
  narrative := none

/-- The turns of the rows that are left. -/
def buildTurns (turnNumber : Nat) : List (ConversationMessage τ) → List TurnInfo
  | [] => []
  | msg :: iter =>
    if msg.role = "user".toList then
      let tc := nextIf "tool_calls".toList iter
      let assistant := nextIf "assistant".toList tc.2
      userTurn json toRfc3339 turnNumber msg tc.1 assistant.1 :: buildTurns (turnNumber + 1) assistant.2
    else if msg.role = "assistant".toList then
      standaloneTurn toRfc3339 turnNumber msg :: buildTurns (turnNumber + 1) iter
    else buildTurns turnNumber iter
termination_by iter => iter.length
decreasing_by
  · have htc := length_nextIf "tool_calls".toList iter
    have hassistant := length_nextIf "assistant".toList (nextIf "tool_calls".toList iter).2
    simp only [List.length_cons]
    omega
  · exact Nat.lt_succ_self _
  · exact Nat.lt_succ_self _

def buildTurnsFromDbMessages (messages : List (ConversationMessage τ)) : List TurnInfo :=
  buildTurns json toRfc3339 0 messages

/-! ## Groups of rows -/

/-- The rows that belong together: those of a user turn, an answer of its own, or a row that is not shown. -/
inductive Group (τ : Type)
  | turn (user : ConversationMessage τ) (toolCalls assistant : Option (ConversationMessage τ))
  | standalone (assistant : ConversationMessage τ)
  | skipped (row : ConversationMessage τ)

namespace Group

def rows : Group τ → List (ConversationMessage τ)
  | .turn user toolCalls assistant => user :: (toolCalls.toList ++ assistant.toList)
  | .standalone assistant => [assistant]
  | .skipped row => [row]

def shown : Group τ → Bool
  | .skipped _ => false
  | _ => true

def user : Group τ → Option (ConversationMessage τ)
  | .turn user _ _ => some user
  | _ => none

def assistant : Group τ → Option (ConversationMessage τ)
  | .turn _ _ assistant => assistant
  | .standalone assistant => some assistant
  | .skipped _ => none

def toolCalls : Group τ → Option (ConversationMessage τ)
  | .turn _ toolCalls _ => toolCalls
  | _ => none

/-- The rows have the roles of their places. -/
def WellFormed : Group τ → Prop
  | .turn user toolCalls assistant => user.role = "user".toList ∧ (∀ row ∈ toolCalls, row.role = "tool_calls".toList) ∧
      ∀ row ∈ assistant, row.role = "assistant".toList
  | .standalone assistant => assistant.role = "assistant".toList
  | .skipped row => row.role ≠ "user".toList ∧ row.role ≠ "assistant".toList

/-- A turn shows a group: its input, its answer, and what its tool calls record says. -/
structure Shows (group : Group τ) (turn : TurnInfo) : Prop where
  input : turn.userInput = (group.user.map (·.content)).getD []
  response : turn.response = group.assistant.map (·.content)
  calls : (turn.toolCalls, turn.narrative) =
    (group.toolCalls.map fun row => readToolCalls json row.content).getD ([], none)
  failed : turn.state = "Failed".toList ↔ turn.response = none

end Group

/-- No tool calls record directly behind a user row is skipped. -/
def NoneMissed (groups : List (Group τ)) : Prop :=
  ∀ before row after, groups = before ++ .skipped row :: after → row.role = "tool_calls".toList →
    ∀ last ∈ (before.flatMap Group.rows).getLast?, last.role ≠ "user".toList

/-- Rows in groups, and the turns that show them. -/
structure Grouped (rows : List (ConversationMessage τ)) (groups : List (Group τ)) (turns : List TurnInfo) : Prop where
  whole : groups.flatMap Group.rows = rows
  wellFormed : ∀ group ∈ groups, group.WellFormed
  noneMissed : NoneMissed groups
  shows : List.Forall₂ (Group.Shows json) (groups.filter Group.shown) turns

theorem nextIf_spec (role : Str) (iter : List (ConversationMessage τ)) :
    (nextIf role iter).1.toList ++ (nextIf role iter).2 = iter ∧ (∀ row ∈ (nextIf role iter).1, row.role = role) ∧
      ((nextIf role iter).1 = none → ∀ next ∈ iter.head?, next.role ≠ role) := by
  cases iter with
  | nil => exact ⟨rfl, fun _ h => (nomatch h), fun _ _ h => (nomatch h)⟩
  | cons next iter =>
    rw [nextIf]
    split
    next h =>
      refine ⟨rfl, fun row hrow => ?_, fun hnone => (nomatch hnone)⟩
      obtain rfl : next = row := Option.some.inj hrow
      exact h
    next h =>
      refine ⟨rfl, fun _ h => (nomatch h), fun _ row hrow => ?_⟩
      obtain rfl : next = row := Option.some.inj hrow
      exact h

theorem Group.rows_ne_nil (group : Group τ) : group.rows ≠ [] := by
  cases group <;> exact List.cons_ne_nil _ _

/-- A group before others misses no record when the first row behind it is none that it should have taken. -/
theorem NoneMissed.cons {group : Group τ} {groups : List (Group τ)} (h : NoneMissed groups)
    (hfirst : ∀ row ∈ (groups.flatMap Group.rows).head?, row.role = "tool_calls".toList →
      ∀ last ∈ group.rows.getLast?, last.role ≠ "user".toList) : NoneMissed (group :: groups) := by
  intro before row after heq hrole last hlast
  cases before with
  | nil => exact nomatch hlast
  | cons b before =>
    obtain ⟨rfl, htail⟩ := List.cons.inj heq
    rw [List.flatMap_cons] at hlast
    cases before with
    | nil =>
      rw [List.flatMap_nil, List.append_nil] at hlast
      exact hfirst row (by rw [htail]; rfl) hrole last hlast
    | cons b' before =>
      have hne : (b' :: before).flatMap Group.rows ≠ [] := by
        rw [List.flatMap_cons]
        exact List.append_ne_nil_of_left_ne_nil b'.rows_ne_nil _
      rw [List.getLast?_append_of_ne_nil _ hne] at hlast
      exact h _ row after htail hrole last hlast

theorem NoneMissed.nil : NoneMissed ([] : List (Group τ)) :=
  fun _ _ _ heq => absurd heq.symm (List.append_ne_nil_of_right_ne_nil _ (List.cons_ne_nil _ _))

theorem shows_userTurn (n : Nat) (msg : ConversationMessage τ) (tcMsg assistantMsg : Option (ConversationMessage τ)) :
    Group.Shows json (.turn msg tcMsg assistantMsg) (userTurn json toRfc3339 n msg tcMsg assistantMsg) where
  input := rfl
  response := rfl
  calls := by cases tcMsg <;> rfl
  failed := by
    have hne : "Completed".toList ≠ "Failed".toList := by decide
    cases assistantMsg with
    | none => exact ⟨fun _ => rfl, fun _ => rfl⟩
    | some row => exact ⟨fun h => absurd h hne, fun h => nomatch h⟩

theorem shows_standaloneTurn (n : Nat) (msg : ConversationMessage τ) :
    Group.Shows json (.standalone msg) (standaloneTurn toRfc3339 n msg) where
  input := rfl
  response := rfl
  calls := rfl
  failed := by
    have hne : "Completed".toList ≠ "Failed".toList := by decide
    exact ⟨fun h => absurd h hne, fun h => nomatch h⟩

/-- The last row of a user turn is the user row only where nothing was taken behind it. -/
theorem last_turn {user last : ConversationMessage τ} {tc assistant : Option (ConversationMessage τ)}
    (hwf : (Group.turn user tc assistant).WellFormed) (hlast : last ∈ (Group.turn user tc assistant).rows.getLast?)
    (hrole : last.role = "user".toList) : tc = none ∧ assistant = none := by
  obtain ⟨-, htc, hassistant⟩ := hwf
  cases assistant with
  | some row =>
    have hrows : (Group.turn user tc (some row)).rows = user :: tc.toList ++ [row] := rfl
    rw [hrows, List.getLast?_concat] at hlast
    obtain rfl : row = last := Option.some.inj hlast
    exact absurd ((hassistant row rfl).symm.trans hrole) (by decide)
  | none =>
    cases tc with
    | some row =>
      obtain rfl : row = last := Option.some.inj hlast
      exact absurd ((htc row rfl).symm.trans hrole) (by decide)
    | none => exact ⟨rfl, rfl⟩

theorem grouped_buildTurns (n : Nat) (rows : List (ConversationMessage τ)) :
    ∃ groups, Grouped json rows groups (buildTurns json toRfc3339 n rows) := by
  induction n, rows using buildTurns.induct with
  | case1 n =>
    rw [buildTurns]
    exact ⟨[], rfl, fun _ h => (nomatch h), .nil, .nil⟩
  | case2 n msg iter hrole tc assistant ih =>
    obtain ⟨groups, hwhole, hwf, hmissed, hshows⟩ := ih
    obtain ⟨htcRows, htcRole, htcNone⟩ := nextIf_spec "tool_calls".toList iter
    obtain ⟨hasRows, hasRole, hasNone⟩ := nextIf_spec "assistant".toList tc.2
    rw [buildTurns, if_pos hrole]
    have hgroup : (Group.turn msg tc.1 assistant.1).WellFormed := ⟨hrole, htcRole, hasRole⟩
    refine ⟨.turn msg tc.1 assistant.1 :: groups, ?_, List.forall_mem_cons.mpr ⟨hgroup, hwf⟩, ?_, ?_⟩
    · rw [List.flatMap_cons, hwhole]
      show msg :: (tc.1.toList ++ assistant.1.toList ++ assistant.2) = msg :: iter
      rw [List.append_assoc, hasRows, htcRows]
    · refine hmissed.cons fun row hrow htool last hlast huser => ?_
      obtain ⟨htc, hassistant⟩ := last_turn hgroup hlast huser
      rw [hwhole] at hrow
      refine htcNone htc row ?_ htool
      rw [← htcRows, show (nextIf _ iter).1 = none from htc]
      show row ∈ tc.2.head?
      rw [← hasRows, show (nextIf _ tc.2).1 = none from hassistant]
      exact hrow
    · exact .cons (shows_userTurn json toRfc3339 n msg tc.1 assistant.1) hshows
  | case3 n msg iter hrole hassistant ih =>
    obtain ⟨groups, hwhole, hwf, hmissed, hshows⟩ := ih
    rw [buildTurns, if_neg hrole, if_pos hassistant]
    refine ⟨.standalone msg :: groups, ?_, List.forall_mem_cons.mpr ⟨hassistant, hwf⟩, ?_, ?_⟩
    · rw [List.flatMap_cons, hwhole]
      rfl
    · refine hmissed.cons fun row hrow htool last hlast huser => ?_
      obtain rfl : msg = last := Option.some.inj hlast
      exact hrole huser
    · exact .cons (shows_standaloneTurn json toRfc3339 n msg) hshows
  | case4 n msg iter hrole hassistant ih =>
    obtain ⟨groups, hwhole, hwf, hmissed, hshows⟩ := ih
    rw [buildTurns, if_neg hrole, if_neg hassistant]
    refine ⟨.skipped msg :: groups, ?_, List.forall_mem_cons.mpr ⟨⟨hrole, hassistant⟩, hwf⟩, ?_, hshows⟩
    · rw [List.flatMap_cons, hwhole]
      rfl
    · refine hmissed.cons fun row hrow htool last hlast huser => ?_
      obtain rfl : msg = last := Option.some.inj hlast
      exact hrole huser

theorem turnNumbers (n : Nat) (rows : List (ConversationMessage τ)) :
    (buildTurns json toRfc3339 n rows).map TurnInfo.turnNumber =
      List.range' n (buildTurns json toRfc3339 n rows).length := by
  induction n, rows using buildTurns.induct with
  | case1 n =>
    rw [buildTurns]
    rfl
  | case2 n msg iter hrole tc assistant ih =>
    rw [buildTurns, if_pos hrole, List.map_cons, List.length_cons, List.range'_succ]
    exact congrArg (n :: ·) ih
  | case3 n msg iter hrole hassistant ih =>
    rw [buildTurns, if_neg hrole, if_pos hassistant, List.map_cons, List.length_cons, List.range'_succ]
    exact congrArg (n :: ·) ih
  | case4 n msg iter hrole hassistant ih =>
    rw [buildTurns, if_neg hrole, if_neg hassistant]
    exact ih

/-! ## No message is lost -/

theorem roles_differ : "tool_calls".toList ≠ "user".toList ∧ "assistant".toList ≠ "user".toList ∧
    "tool_calls".toList ≠ "assistant".toList := by decide

theorem Group.filter_user {group : Group τ} (h : group.WellFormed) :
    group.rows.filter (fun row => row.role = "user".toList) = group.user.toList := by
  obtain ⟨htu, hau, -⟩ := roles_differ
  cases group with
  | turn user tc assistant =>
    obtain ⟨huser, htc, hassistant⟩ := h
    have hrest : (tc.toList ++ assistant.toList).filter (fun row => row.role = "user".toList) = [] := by
      refine List.filter_eq_nil_iff.mpr fun row hrow hrole => ?_
      have hrole := of_decide_eq_true hrole
      rcases List.mem_append.mp hrow with hrow | hrow
      · exact htu ((htc row (Option.mem_toList.mp hrow)).symm.trans hrole)
      · exact hau ((hassistant row (Option.mem_toList.mp hrow)).symm.trans hrole)
    rw [rows, List.filter_cons, if_pos (decide_eq_true huser), hrest]
    rfl
  | standalone row =>
    refine List.filter_eq_nil_iff.mpr fun row' hrow hrole => ?_
    obtain rfl := List.mem_singleton.mp hrow
    exact hau (h.symm.trans (of_decide_eq_true hrole))
  | skipped row =>
    refine List.filter_eq_nil_iff.mpr fun row' hrow hrole => ?_
    obtain rfl := List.mem_singleton.mp hrow
    exact h.1 (of_decide_eq_true hrole)

theorem Group.filter_assistant {group : Group τ} (h : group.WellFormed) :
    group.rows.filter (fun row => row.role = "assistant".toList) = group.assistant.toList := by
  obtain ⟨-, hau, hta⟩ := roles_differ
  cases group with
  | turn user tc assistant =>
    obtain ⟨huser, htc, hassistant⟩ := h
    have hfirst : (user :: tc.toList).filter (fun row => row.role = "assistant".toList) = [] := by
      refine List.filter_eq_nil_iff.mpr fun row hrow hrole => ?_
      have hrole := of_decide_eq_true hrole
      rcases List.mem_cons.mp hrow with rfl | hrow
      · exact hau (hrole.symm.trans huser)
      · exact hta ((htc row (Option.mem_toList.mp hrow)).symm.trans hrole)
    have hlast : assistant.toList.filter (fun row => row.role = "assistant".toList) = assistant.toList :=
      List.filter_eq_self.mpr fun row hrow => decide_eq_true (hassistant row (Option.mem_toList.mp hrow))
    rw [rows, ← List.cons_append, List.filter_append, hfirst, hlast]
    rfl
  | standalone row => exact List.filter_cons_of_pos (decide_eq_true h)
  | skipped row =>
    refine List.filter_eq_nil_iff.mpr fun row' hrow hrole => ?_
    obtain rfl := List.mem_singleton.mp hrow
    exact h.2 (of_decide_eq_true hrole)

/-- The rows of a kind, by the groups. -/
theorem filter_flatMap {groups : List (Group τ)} {kind : ConversationMessage τ → Bool}
    {pick : Group τ → Option (ConversationMessage τ)} (hwf : ∀ group ∈ groups, group.WellFormed)
    (hpick : ∀ group : Group τ, group.WellFormed → group.rows.filter kind = (pick group).toList) :
    (groups.flatMap Group.rows).filter kind = groups.filterMap pick := by
  induction groups with
  | nil => rfl
  | cons group groups ih =>
    obtain ⟨hgroup, hrest⟩ := List.forall_mem_cons.mp hwf
    rw [List.flatMap_cons, List.filter_append, hpick group hgroup, ih hrest, List.filterMap_cons]
    cases pick group <;> rfl

/-- The group of a place. -/
theorem exists_group : ∀ {groups : List (Group τ)} {before after : List (ConversationMessage τ)}
    {row : ConversationMessage τ}, groups.flatMap Group.rows = before ++ row :: after →
    ∃ pre group post first last, groups = pre ++ group :: post ∧ group.rows = first ++ row :: last ∧
      before = pre.flatMap Group.rows ++ first
  | [], before, after, row, h => absurd h.symm (List.append_ne_nil_of_right_ne_nil _ (List.cons_ne_nil _ _))
  | group :: groups, before, after, row, h => by
    rw [List.flatMap_cons] at h
    rcases List.append_eq_append_iff.mp h with ⟨first, hbefore, hrest⟩ | ⟨last, hgroup, hrest⟩
    · obtain ⟨pre, group', post, first', last, hgroups, hrows, hfirst⟩ := exists_group hrest
      refine ⟨group :: pre, group', post, first', last, congrArg (group :: ·) hgroups, hrows, ?_⟩
      rw [hbefore, hfirst, List.flatMap_cons, List.append_assoc]
    · cases last with
      | nil =>
        obtain ⟨pre, group', post, first', last, hgroups, hrows, hfirst⟩ :=
          exists_group (show groups.flatMap Group.rows = [] ++ row :: after from hrest.symm)
        refine ⟨group :: pre, group', post, first', last, congrArg (group :: ·) hgroups, hrows, ?_⟩
        rw [List.flatMap_cons, List.append_assoc, ← hfirst, hgroup, List.append_nil, List.append_nil]
      | cons row' last =>
        obtain ⟨rfl, -⟩ := List.cons.inj hrest
        exact ⟨[], group, groups, before, last, rfl, hgroup, rfl⟩

/-- A tool calls record belongs to a turn exactly when it stands directly behind a user row. -/
theorem taken_iff {messages before after : List (ConversationMessage τ)} {row : ConversationMessage τ}
    {groups : List (Group τ)} {turns : List TurnInfo} (h : Grouped json messages groups turns)
    (hat : messages = before ++ row :: after) (hrole : row.role = "tool_calls".toList) :
    (∃ pre user assistant post, groups = pre ++ .turn user (some row) assistant :: post ∧
        before = pre.flatMap Group.rows ++ [user]) ↔
      ∃ last ∈ before.getLast?, last.role = "user".toList := by
  constructor
  · rintro ⟨pre, user, assistant, post, hgroups, rfl⟩
    have hwf := h.wellFormed (.turn user (some row) assistant) (hgroups ▸ List.mem_append_right _ List.mem_cons_self)
    exact ⟨user, by rw [List.getLast?_concat]; rfl, hwf.1⟩
  · rintro ⟨last, hlast, huser⟩
    obtain ⟨pre, group, post, first, rest, hgroups, hrows, hbefore⟩ := exists_group (h.whole.trans hat)
    have hwf := h.wellFormed group (hgroups ▸ List.mem_append_right _ List.mem_cons_self)
    obtain ⟨htu, -, hta⟩ := roles_differ
    cases group with
    | turn user tc assistant =>
      obtain ⟨hu, htc, hassistant⟩ := hwf
      have hother : row ∉ assistant.toList := fun hmem =>
        hta (hrole.symm.trans (hassistant row (Option.mem_toList.mp hmem)))
      cases first with
      | nil => exact absurd (hrole.symm.trans ((List.cons.inj hrows).1 ▸ hu)) htu
      | cons u first =>
        obtain ⟨rfl, htail⟩ := List.cons.inj hrows
        cases tc with
        | none =>
          have hmem : assistant.toList = first ++ row :: rest := htail
          exact absurd (hmem ▸ List.mem_append_right first List.mem_cons_self) hother
        | some t =>
          cases first with
          | nil =>
            obtain ⟨rfl, -⟩ := List.cons.inj htail
            exact ⟨pre, user, assistant, post, hgroups, hbefore⟩
          | cons t' first =>
            have hmem : assistant.toList = first ++ row :: rest := (List.cons.inj htail).2
            exact absurd (hmem ▸ List.mem_append_right first List.mem_cons_self) hother
    | standalone row' =>
      have hmem : row ∈ [row'] := (show [row'] = _ from hrows) ▸ List.mem_append_right first List.mem_cons_self
      exact absurd (hrole.symm.trans (List.mem_singleton.mp hmem ▸ hwf)) hta
    | skipped row' =>
      cases first with
      | nil =>
        obtain ⟨rfl, -⟩ := List.cons.inj hrows
        rw [List.append_nil] at hbefore
        exact absurd huser (h.noneMissed pre row' post hgroups hrole last (hbefore ▸ hlast))
      | cons u first =>
        exact absurd (List.cons.inj hrows).2.symm (List.append_ne_nil_of_right_ne_nil _ (List.cons_ne_nil _ _))

/-- The responses of the turns that show some groups. -/
theorem filterMap_response : ∀ {groups : List (Group τ)} {turns : List TurnInfo},
    List.Forall₂ (Group.Shows json) groups turns →
    turns.filterMap TurnInfo.response = (groups.filterMap Group.assistant).map (·.content)
  | _, _, .nil => rfl
  | _, _, .cons hshow hrest => by
    rw [List.filterMap_cons, List.filterMap_cons, hshow.response, filterMap_response hrest]
    rename_i group turn groups turns
    cases group.assistant <;> rfl

theorem failed_iff : ∀ {groups : List (Group τ)} {turns : List TurnInfo}, List.Forall₂ (Group.Shows json) groups turns →
    ∀ turn ∈ turns, turn.state = "Failed".toList ↔ turn.response = none
  | _, _, .nil => fun _ h => nomatch h
  | _, _, .cons hshow hrest => List.forall_mem_cons.mpr ⟨hshow.failed, failed_iff hrest⟩

/-- The inputs of the turns with a user row. -/
theorem map_userInput : ∀ {groups : List (Group τ)} {turns : List TurnInfo},
    List.Forall₂ (Group.Shows json) groups turns →
    ((groups.zip turns).filter (·.1.user.isSome)).map (·.2.userInput) = (groups.filterMap Group.user).map (·.content)
  | _, _, .nil => rfl
  | _, _, .cons hshow hrest => by
    rename_i group turn groups turns
    have ih := map_userInput hrest
    have hinput := hshow.input
    rw [List.zip_cons_cons, List.filterMap_cons]
    cases hu : group.user with
    | none =>
      rw [List.filter_cons_of_neg (by simp [hu])]
      exact ih
    | some user =>
      rw [hu] at hinput
      rw [List.filter_cons_of_pos (by simp [hu]), List.map_cons, List.map_cons, ih, hinput]
      rfl

/-- A skipped group has neither a user row nor an answer. -/
theorem filterMap_shown {pick : Group τ → Option (ConversationMessage τ)} (hpick : ∀ row, pick (.skipped row) = none)
    (groups : List (Group τ)) : (groups.filter Group.shown).filterMap pick = groups.filterMap pick := by
  rw [List.filterMap_filter]
  refine List.filterMap_congr fun group _ => ?_
  cases group with
  | skipped row => exact (hpick row).symm
  | _ => rfl

/-- **The history view.** The turns are numbered from zero; their answers are the assistant rows, each once and in
order; a turn has failed exactly when it has no answer; and the rows fall into groups in their order, one for each turn
beside those that are not shown, such that the inputs of the turns with a user row are the user rows, and a tool calls
record belongs to a turn exactly when it stands directly behind a user row. -/
theorem history_complete (messages : List (ConversationMessage τ)) :
    let turns := buildTurnsFromDbMessages json toRfc3339 messages
    turns.map TurnInfo.turnNumber = List.range turns.length ∧
      turns.filterMap TurnInfo.response = (messages.filter fun row => row.role = "assistant".toList).map (·.content) ∧
      (∀ turn ∈ turns, turn.state = "Failed".toList ↔ turn.response = none) ∧
      ∃ groups, Grouped json messages groups turns ∧
        (((groups.filter Group.shown).zip turns).filter (·.1.user.isSome)).map (·.2.userInput) =
          (messages.filter fun row => row.role = "user".toList).map (·.content) ∧
        ∀ before row after, messages = before ++ row :: after → row.role = "tool_calls".toList →
          ((∃ pre user assistant post, groups = pre ++ .turn user (some row) assistant :: post ∧
              before = pre.flatMap Group.rows ++ [user]) ↔
            ∃ last ∈ before.getLast?, last.role = "user".toList) := by
  intro turns
  obtain ⟨groups, h⟩ := grouped_buildTurns json toRfc3339 0 messages
  have husers := filter_flatMap h.wellFormed fun _ => Group.filter_user
  have hassistants := filter_flatMap h.wellFormed fun _ => Group.filter_assistant
  rw [h.whole] at husers hassistants
  refine ⟨?_, ?_, ?_, groups, h, ?_, fun before row after hat hrole => taken_iff json h hat hrole⟩
  · rw [List.range_eq_range']
    exact turnNumbers json toRfc3339 0 messages
  · rw [hassistants, ← filterMap_shown (fun _ => rfl) groups]
    exact filterMap_response json h.shows
  · exact failed_iff json h.shows
  · rw [husers, ← filterMap_shown (fun _ => rfl) groups]
    exact map_userInput json h.shows

end Ironclaw.Channels

import Ironclaw.Session.Handlers

/-!
# The deferred calls of an approval

What `process_approval` does after the approved tool has run: it classifies the deferred calls up to the first that
needs approval, executes the ones before it, alone or as the tasks of a join set, and records their results in order.
Each call comes with the world in which its approval is checked, since the session is unlocked in between.

- `executeDeferred_eq`: the results have the order of the calls, in whatever order the tasks end;
- `preflightDeferred_spec`: the calls are the executed ones and, from the first that needs approval on, the others;
- `toolRecord_recordAll`, `context_recordAll`: the results are recorded, and answered in the context, in order;
- `settled_recordOutcomes`: results with distinct ids go each to the entry with its id;
- `deferred_conserved_iff`: when each deferred call has its own result, or is kept;
- `handler_replays`: the steps of the handler do the same.
-/

namespace Ironclaw.Session

open Text Llm

/-! ## Phase 1: preflight -/

section Phases

variable (env : Env) (worlds : Nat → World)

/-- The deferred call at a position needs approval. -/
def needsAt (idx : Nat) (tc : ToolCall) : Bool :=
  match env.chat.getTool tc.name with
  | none => false
  | some tool => (deferredNeeds env (worlds idx) tool tc).1

/-- The runnable calls, from a position on, and the first call that needs approval. -/
def preflightDeferred : (idx : Nat) → List ToolCall → List ToolCall × Option Needed
  | _, [] => ([], none)
  | idx, tc :: rest =>
    match env.chat.getTool tc.name with
    | none => (tc :: (preflightDeferred (idx + 1) rest).1, (preflightDeferred (idx + 1) rest).2)
    | some tool =>
      let needs := deferredNeeds env (worlds idx) tool tc
      if needs.1 then ([], some ⟨tc, tool, needs.2, rest⟩)
      else (tc :: (preflightDeferred (idx + 1) rest).1, (preflightDeferred (idx + 1) rest).2)

/-! ## Phase 2: execution -/

/-- The tasks of the runnable calls. -/
def tasks (runnable : List ToolCall) : List (Nat × ToolCall) := runnable.zipIdx.map Prod.swap

/-- One call is executed in place, several as tasks; the results that arrive are stored at their positions, and a task
that failed gets an error. -/
def executeDeferred (env : Agent.ChatEnv) (runnable : List ToolCall) : List (ToolCall × Agent.ToolOutcome) :=
  if runnable.length ≤ 1 then runnable.map fun tc => (tc, env.executeChatTool tc.name tc.arguments)
  else
    let ordered := Agent.collect (List.replicate runnable.length none) (env.joinAll (tasks runnable)).ends
    runnable.mapIdx fun i tc =>
      (tc, ordered[i]?.join.getD (.error (Agent.executionFailed tc.name "Task failed during execution")))

/-! ## Phase 3: the results are recorded -/

/-- The record of one result. -/
def recordOutcome (toolName toolCallId : Str) (outcome : Agent.ToolOutcome) (turn : Agent.Turn) : Agent.Turn :=
  let content := (Agent.processToolResult env.chat toolName toolCallId outcome).1
  match outcome with
  | .error _ => turn.recordToolErrorFor toolCallId content
  | .ok _ => turn.recordToolResultFor toolCallId (.str content)

/-- `handle_auth_intercept` on the thread. -/
def authThread (thread : Thread) (extName instructions : Str) : Thread :=
  (thread.enterAuthMode extName).completeTurn instructions

/-- The results are recorded in order; the first that asks for a token is noted. -/
def recordAll : List (ToolCall × Agent.ToolOutcome) → Thread → List ChatMessage → Option Str →
    Thread × List ChatMessage × Option Str
  | [], thread, context, auth => (thread, context, auth)
  | (tc, outcome) :: results, thread, context, auth =>
    let thread := recordResult env thread tc.name tc.id outcome
    let context := context ++ [resultMessage env tc.name tc.id outcome]
    match auth, Agent.checkAuthRequired env.chat tc.name outcome with
    | none, some (extName, instructions) =>
      recordAll results (authThread thread extName instructions) context (some instructions)
    | auth, _ => recordAll results thread context auth

/-! ## After the approved tool -/

/-- How the handler goes on: it returns the instructions, waits for a new request, or takes up the agentic loop. -/
inductive Ending
  | response (instructions : Str)
  | needApproval (pending : PendingApproval)
  | loop (context : List ChatMessage)

/-- What became of the deferred calls: the thread afterwards, the calls that were executed, and how the handler goes
on. -/
structure Replay where
  thread : Thread
  executed : List ToolCall
  ending : Ending

/-- `process_approval` from the result of the approved tool on. -/
def processDeferred (requestId : Nat) (p : PendingApproval) (thread : Thread) (outcome : Agent.ToolOutcome) : Replay :=
  let thread := recordResult env thread p.toolName p.toolCallId outcome
  match Agent.checkAuthRequired env.chat p.toolName outcome with
  | some (extName, instructions) => ⟨authThread thread extName instructions, [], .response instructions⟩
  | none =>
    let context := p.contextMessages ++ [resultMessage env p.toolName p.toolCallId outcome]
    let (runnable, needed) := preflightDeferred env worlds 0 p.deferredToolCalls
    match recordAll env (executeDeferred env.chat runnable) thread context none, needed with
    | (thread, _, some instructions), _ => ⟨thread, runnable, .response instructions⟩
    | (thread, context, none), some needed =>
      let pending : PendingApproval := { newPending p context needed with requestId := requestId }
      ⟨thread.awaitApproval pending, runnable, .needApproval pending⟩
    | (thread, context, none), none => ⟨thread, runnable, .loop context⟩

end Phases

/-! ## The executed calls -/

section Execution

variable {env : Agent.ChatEnv} {runnable : List ToolCall}

/-- The outcome of the runnable call at a position, from its own task. -/
def outcomeOf (env : Agent.ChatEnv) (runnable : List ToolCall) (i : Nat) (tc : ToolCall) : Agent.ToolOutcome :=
  if runnable.length ≤ 1 then env.executeChatTool tc.name tc.arguments
  else
    ((env.joinAll (tasks runnable)).ends.lookup i).join.getD
      (.error (Agent.executionFailed tc.name "Task failed during execution"))

theorem tasks_keys : (tasks runnable).map Prod.fst = List.range runnable.length := by
  rw [tasks, List.map_map, List.range_eq_range', ← List.zipIdx_map_snd 0 runnable]
  rfl

/-- The results have the order of the calls, each with the outcome of its own task, in whatever order the tasks end. -/
theorem executeDeferred_eq :
    executeDeferred env runnable = runnable.mapIdx fun i tc => (tc, outcomeOf env runnable i tc) := by
  rw [executeDeferred]
  split
  · next hlen =>
    refine List.ext_getElem? fun i => ?_
    simp only [List.getElem?_map, List.getElem?_mapIdx, outcomeOf, if_pos hlen]
  · next hlen =>
    have hkeys := (env.joinAll (tasks runnable)).perm.trans (List.Perm.of_eq tasks_keys)
    have hnodup : ((env.joinAll (tasks runnable)).ends.map Prod.fst).Nodup := hkeys.nodup_iff.mpr List.nodup_range
    have hslots : ∀ e ∈ (env.joinAll (tasks runnable)).ends,
        e.1 < (List.replicate runnable.length (none : Option Agent.ToolOutcome)).length := by
      intro e he
      rw [List.length_replicate]
      exact List.mem_range.mp (hkeys.mem_iff.mp (List.mem_map_of_mem he))
    refine List.ext_getElem? fun i => ?_
    simp only [List.getElem?_mapIdx, outcomeOf, if_neg hlen]
    have hslot := Agent.slotAt_collect i _ _ hnodup hslots
    have hempty : Agent.slotAt (List.replicate runnable.length none) i = none := by
      rw [Agent.slotAt, List.getElem?_replicate]
      split <;> rfl
    rw [hempty, Option.or_none, Agent.slotAt] at hslot
    rw [hslot]

end Execution

/-! ## The calls that are not executed -/

section Preflight

variable (env : Env) (worlds : Nat → World)

/-- The calls from the first that needs approval on. -/
def Needed.calls : Option Needed → List ToolCall
  | none => []
  | some needed => needed.tc :: needed.rest

theorem preflightDeferred_none {idx : Nat} {tc : ToolCall} {rest : List ToolCall}
    (h : needsAt env worlds idx tc = false) :
    preflightDeferred env worlds idx (tc :: rest) =
      (tc :: (preflightDeferred env worlds (idx + 1) rest).1, (preflightDeferred env worlds (idx + 1) rest).2) := by
  rw [preflightDeferred]
  rw [needsAt] at h
  cases htool : env.chat.getTool tc.name with
  | none => rfl
  | some tool =>
    rw [htool] at h
    simp only [h, Bool.false_eq_true, if_false]

theorem preflightDeferred_some {idx : Nat} {tc : ToolCall} {rest : List ToolCall}
    (h : needsAt env worlds idx tc = true) :
    ∃ tool allowAlways, preflightDeferred env worlds idx (tc :: rest) = ([], some ⟨tc, tool, allowAlways, rest⟩) := by
  rw [preflightDeferred]
  rw [needsAt] at h
  cases htool : env.chat.getTool tc.name with
  | none => simp [htool] at h
  | some tool =>
    rw [htool] at h
    simp only [h, if_true]
    exact ⟨_, _, rfl⟩

/-- The approvals of the session are all that the walk reads. -/
theorem preflightDeferred_congr {worlds worlds' : Nat → World}
    (h : ∀ i, (worlds i).autoApproved = (worlds' i).autoApproved) :
    ∀ (idx : Nat) (deferred : List ToolCall),
      preflightDeferred env worlds idx deferred = preflightDeferred env worlds' idx deferred
  | _, [] => rfl
  | idx, tc :: rest => by
    have hneeds (tool : Agent.Tool) :
        deferredNeeds env (worlds idx) tool tc = deferredNeeds env (worlds' idx) tool tc := by
      rw [deferredNeeds, deferredNeeds, h idx]
    rw [preflightDeferred, preflightDeferred, preflightDeferred_congr h (idx + 1) rest]
    simp only [hneeds]

/-- The executed calls and the others are the deferred calls; the first of the others is the first that needs
approval. -/
theorem preflightDeferred_spec : ∀ (idx : Nat) (deferred : List ToolCall),
    (preflightDeferred env worlds idx deferred).1 ++ Needed.calls (preflightDeferred env worlds idx deferred).2 =
        deferred ∧
      (∀ i tc, (preflightDeferred env worlds idx deferred).1[i]? = some tc → needsAt env worlds (idx + i) tc = false) ∧
      ∀ needed, (preflightDeferred env worlds idx deferred).2 = some needed →
        needsAt env worlds (idx + (preflightDeferred env worlds idx deferred).1.length) needed.tc = true
  | _, [] => by
    rw [preflightDeferred]
    refine ⟨rfl, fun _ _ h => ?_, fun _ h => ?_⟩
    · exact absurd h (by simp)
    · exact absurd h (by simp)
  | idx, tc :: rest => by
    obtain ⟨hsplit, hrun, hneeded⟩ := preflightDeferred_spec (idx + 1) rest
    cases h : needsAt env worlds idx tc with
    | true =>
      have hstop : ∃ tool allowAlways, preflightDeferred env worlds idx (tc :: rest) =
        ([], some ⟨tc, tool, allowAlways, rest⟩) :=
        preflightDeferred_some env worlds h
      obtain ⟨tool, allowAlways, heq⟩ := hstop
      rw [heq]
      refine ⟨rfl, fun _ _ hi => absurd hi (by simp), fun needed hn => ?_⟩
      cases hn
      exact h
    | false =>
      rw [preflightDeferred_none env worlds h]
      refine ⟨congrArg (tc :: ·) hsplit, fun i tc' hi => ?_, fun needed hn => ?_⟩
      · cases i with
        | zero => exact Option.some.inj hi ▸ h
        | succ i =>
          have := hrun i tc' hi
          rwa [Nat.add_assoc, Nat.add_comm 1 i] at this
      · have := hneeded needed hn
        rwa [Nat.add_assoc, Nat.add_comm 1] at this

end Preflight

/-! ## The record of the last turn -/

section Record

variable (env : Env)

/-- The tool calls of the last turn. -/
def toolRecord (thread : Thread) : Option Agent.Turn := thread.turns.getLast?.map fun turn => turn.toTurn

/-- The records of several results. -/
def recordOutcomes (results : List (ToolCall × Agent.ToolOutcome)) (turn : Agent.Turn) : Agent.Turn :=
  results.foldl (fun turn r => recordOutcome env r.1.name r.1.id r.2 turn) turn

theorem toolRecord_modifyLast (thread : Thread) (f : Turn → Turn) (g : Agent.Turn → Agent.Turn)
    (h : ∀ turn, (f turn).toTurn = g turn.toTurn) : toolRecord (thread.modifyLast f) = (toolRecord thread).map g := by
  rw [toolRecord, toolRecord, Thread.modifyLast, List.getLast?_eq_getElem?, List.getLast?_eq_getElem?,
    List.length_modify, List.getElem?_modify_eq]
  cases thread.turns[thread.turns.length - 1]? with
  | none => rfl
  | some turn => exact congrArg some (h turn)

theorem toolRecord_recordResult (thread : Thread) (toolName toolCallId : Str) (outcome : Agent.ToolOutcome) :
    toolRecord (recordResult env thread toolName toolCallId outcome) =
      (toolRecord thread).map (recordOutcome env toolName toolCallId outcome) :=
  toolRecord_modifyLast _ _ _ fun _ => rfl

theorem toolRecord_authThread (thread : Thread) (extName instructions : Str) :
    toolRecord (authThread thread extName instructions) = toolRecord thread := by
  have h := toolRecord_modifyLast (thread.enterAuthMode extName) (·.complete instructions) id fun _ => rfl
  rw [Option.map_id] at h
  exact h

/-- The first result that asks for a token. -/
theorem recordAll_auth {tc : ToolCall} {outcome : Agent.ToolOutcome} {results : List (ToolCall × Agent.ToolOutcome)}
    {thread : Thread} {context : List ChatMessage} {extName instructions : Str}
    (h : Agent.checkAuthRequired env.chat tc.name outcome = some (extName, instructions)) :
    recordAll env ((tc, outcome) :: results) thread context none =
      recordAll env results (authThread (recordResult env thread tc.name tc.id outcome) extName instructions)
        (context ++ [resultMessage env tc.name tc.id outcome]) (some instructions) := by
  rw [recordAll.eq_def]
  simp only [h]

/-- Any other result. -/
theorem recordAll_plain {tc : ToolCall} {outcome : Agent.ToolOutcome} {results : List (ToolCall × Agent.ToolOutcome)}
    {thread : Thread} {context : List ChatMessage} {auth : Option Str}
    (h : auth.isSome ∨ Agent.checkAuthRequired env.chat tc.name outcome = none) :
    recordAll env ((tc, outcome) :: results) thread context auth =
      recordAll env results (recordResult env thread tc.name tc.id outcome)
        (context ++ [resultMessage env tc.name tc.id outcome]) auth := by
  rw [recordAll.eq_def]
  cases auth with
  | some instructions => rfl
  | none => simp only [h.resolve_left (by decide)]

/-- A result asks for a token while none is noted, or it is any other. -/
theorem recordAll_cases (tc : ToolCall) (outcome : Agent.ToolOutcome) (auth : Option Str) :
    (auth = none ∧ ∃ extName instructions,
      Agent.checkAuthRequired env.chat tc.name outcome = some (extName, instructions)) ∨
    (auth.isSome ∨ Agent.checkAuthRequired env.chat tc.name outcome = none) := by
  cases auth with
  | some instructions => exact .inr (.inl rfl)
  | none =>
    cases hcheck : Agent.checkAuthRequired env.chat tc.name outcome with
    | none => exact .inr (.inr rfl)
    | some c => exact .inl ⟨rfl, c.1, c.2, rfl⟩

/-- One result is recorded for each of the calls, in order. -/
theorem toolRecord_recordAll : ∀ (results : List (ToolCall × Agent.ToolOutcome)) (thread : Thread)
    (context : List ChatMessage) (auth : Option Str),
    toolRecord (recordAll env results thread context auth).1 = (toolRecord thread).map (recordOutcomes env results)
  | [], thread, _, _ => by
    rw [recordAll]
    exact Option.map_id'.symm
  | (tc, outcome) :: results, thread, context, auth => by
    have hmap (g : Agent.Turn → Agent.Turn) (t : Option Agent.Turn) :
        (t.map (recordOutcome env tc.name tc.id outcome)).map g = t.map (g ∘ recordOutcome env tc.name tc.id outcome) :=
      Option.map_map ..
    rcases recordAll_cases env tc outcome auth with ⟨rfl, extName, instructions, hcheck⟩ | hplain
    · rw [recordAll_auth env hcheck, toolRecord_recordAll results, toolRecord_authThread, toolRecord_recordResult, hmap]
      rfl
    · rw [recordAll_plain env hplain, toolRecord_recordAll results, toolRecord_recordResult, hmap]
      rfl

/-- The instructions are there when there were some, or when one of the results asks for a token. -/
theorem auth_recordAll :
    ∀ (results : List (ToolCall × Agent.ToolOutcome)) (thread : Thread) (context : List ChatMessage)
    (auth : Option Str), (recordAll env results thread context auth).2.2 = none ↔
      auth = none ∧ ∀ r ∈ results, Agent.checkAuthRequired env.chat r.1.name r.2 = none
  | [], _, _, auth => by
    rw [recordAll]
    exact ⟨fun h => ⟨h, fun _ hr => absurd hr List.not_mem_nil⟩, fun h => h.1⟩
  | (tc, outcome) :: results, thread, context, auth => by
    rw [List.forall_mem_cons]
    rcases recordAll_cases env tc outcome auth with ⟨rfl, extName, instructions, hcheck⟩ | hplain
    · rw [recordAll_auth env hcheck, auth_recordAll results, hcheck]
      exact iff_of_false (fun h => nomatch h.1) fun h => nomatch h.2.1
    · rw [recordAll_plain env hplain, auth_recordAll results]
      refine ⟨fun h => ⟨h.1, hplain.resolve_left ?_, h.2⟩, fun h => ⟨h.1, h.2.2⟩⟩
      rw [h.1]
      decide

/-- One message answers each of the calls, in order. -/
theorem context_recordAll :
    ∀ (results : List (ToolCall × Agent.ToolOutcome)) (thread : Thread) (context : List ChatMessage)
    (auth : Option Str), (recordAll env results thread context auth).2.1 =
      context ++ results.map fun r => resultMessage env r.1.name r.1.id r.2
  | [], _, context, _ => by
    rw [recordAll]
    exact (List.append_nil context).symm
  | (tc, outcome) :: results, thread, context, auth => by
    rcases recordAll_cases env tc outcome auth with ⟨rfl, extName, instructions, hcheck⟩ | hplain
    · rw [recordAll_auth env hcheck, context_recordAll results, List.append_assoc]
      rfl
    · rw [recordAll_plain env hplain, context_recordAll results, List.append_assoc]
      rfl

end Record

/-! ## The records by id -/

/-- The entries of the last turn's tool calls. -/
def toolEntries (thread : Thread) : List Agent.TurnToolCall := (toolRecord thread).elim [] fun turn => turn.toolCalls

/-- Where the first entry with an id is. -/
def entryAt (entries : List Agent.TurnToolCall) (id : Str) : Option Nat :=
  entries.findIdx? fun entry => entry.toolCallId == some id

/-- An entry with what a result of its call puts into it. -/
def settleEntry (env : Env) (r : ToolCall × Agent.ToolOutcome) (entry : Agent.TurnToolCall) : Agent.TurnToolCall :=
  let content := (Agent.processToolResult env.chat r.1.name r.1.id r.2).1
  match r.2 with
  | .error _ => { entry with error := some content }
  | .ok _ => { entry with result := some (.str content) }

/-- Each result is in the entry with the id of its call, an id that no other of these calls has; the other entries are
as they were. -/
structure Settled (env : Env) (results : List (ToolCall × Agent.ToolOutcome)) (before after : List Agent.TurnToolCall) :
    Prop where
  own : (results.map fun r => r.1.id).Nodup
  each : ∀ r ∈ results, ∃ i entry, entryAt before r.1.id = some i ∧ before[i]? = some entry ∧
    after[i]? = some (settleEntry env r entry)
  others : ∀ i, (∀ r ∈ results, entryAt before r.1.id ≠ some i) → after[i]? = before[i]?

section ById

/-- The ids of some entries. -/
def entryIds (entries : List Agent.TurnToolCall) : List (Option Str) := entries.map fun entry => entry.toolCallId

theorem entryAt_congr {entries entries' : List Agent.TurnToolCall} (h : entryIds entries = entryIds entries')
    (id : Str) :
    entryAt entries id = entryAt entries' id := by
  have hmap (l : List Agent.TurnToolCall) : entryAt l id = (entryIds l).findIdx? fun k => k == some id := by
    rw [entryIds, List.findIdx?_map]
    rfl
  rw [hmap, hmap, h]

/-- The first entry with an id, if there is one. -/
theorem entryAt_of_mem {entries : List Agent.TurnToolCall} {id : Str} (h : some id ∈ entryIds entries) :
    ∃ i entry, entryAt entries id = some i ∧ entries[i]? = some entry ∧ entry.toolCallId = some id := by
  obtain ⟨entry, hmem, hid⟩ := List.mem_map.mp h
  have hat := List.findIdx?_eq_some_of_exists (p := fun e : Agent.TurnToolCall => e.toolCallId == some id)
    ⟨entry, hmem, beq_iff_eq.mpr hid⟩
  obtain ⟨hlt, hp, -⟩ := List.findIdx?_eq_some_iff_getElem.mp hat
  exact ⟨_, _, hat, List.getElem?_eq_getElem hlt, beq_iff_eq.mp hp⟩

theorem mem_of_entryAt {entries : List Agent.TurnToolCall} {id : Str} {i : Nat} (h : entryAt entries id = some i) :
    some id ∈ entryIds entries := by
  obtain ⟨hlt, hp, -⟩ := List.findIdx?_eq_some_iff_getElem.mp h
  exact List.mem_map.mpr ⟨_, List.getElem_mem hlt, beq_iff_eq.mp hp⟩

/-- Entries with different ids are at different places. -/
theorem entryAt_ne {entries : List Agent.TurnToolCall} {id id' : Str} {i : Nat} (h : entryAt entries id = some i)
    (hne : id' ≠ id) : entryAt entries id' ≠ some i := by
  intro h'
  obtain ⟨hlt, hp, -⟩ := List.findIdx?_eq_some_iff_getElem.mp h
  obtain ⟨_, hp', -⟩ := List.findIdx?_eq_some_iff_getElem.mp h'
  exact hne (Option.some.inj ((beq_iff_eq.mp hp').symm.trans (beq_iff_eq.mp hp)))

variable (env : Env)

/-- A result goes to the first entry with its id. -/
theorem toolCalls_recordOutcome {r : ToolCall × Agent.ToolOutcome} {turn : Agent.Turn} {i : Nat}
    (h : entryAt turn.toolCalls r.1.id = some i) :
    (recordOutcome env r.1.name r.1.id r.2 turn).toolCalls = turn.toolCalls.modify i (settleEntry env r) := by
  have hany : (turn.toolCalls.any fun c => c.toolCallId == some r.1.id) = true := by
    obtain ⟨hlt, hp, -⟩ := List.findIdx?_eq_some_iff_getElem.mp h
    exact List.any_eq_true.mpr ⟨_, List.getElem_mem hlt, hp⟩
  have hrecord (f : Agent.TurnToolCall → Agent.TurnToolCall) :
      (turn.recordFor r.1.id f).toolCalls = turn.toolCalls.modify i f := by
    have hi : turn.toolCalls.findIdx? (fun c => c.toolCallId == some r.1.id) = some i := h
    rw [Agent.Turn.recordFor]
    simp only [hany, if_true, hi]
  obtain ⟨tc, outcome⟩ := r
  cases outcome with
  | error e => exact hrecord _
  | ok output => exact hrecord _

theorem entryIds_modify {f : Agent.TurnToolCall → Agent.TurnToolCall}
    (hf : ∀ entry, (f entry).toolCallId = entry.toolCallId)
    (entries : List Agent.TurnToolCall) (i : Nat) : entryIds (entries.modify i f) = entryIds entries := by
  refine List.ext_getElem? fun j => ?_
  rw [entryIds, entryIds, List.getElem?_map, List.getElem?_map, List.getElem?_modify]
  cases entries[j]? with
  | none => rfl
  | some entry =>
    refine congrArg some ?_
    show (if i = j then f entry else entry).toolCallId = entry.toolCallId
    split
    · exact hf entry
    · rfl

/-- A record leaves the ids as they are. -/
theorem entryIds_recordOutcome (toolName toolCallId : Str) (outcome : Agent.ToolOutcome) (turn : Agent.Turn) :
    entryIds (recordOutcome env toolName toolCallId outcome turn).toolCalls = entryIds turn.toolCalls := by
  have hrecord {f : Agent.TurnToolCall → Agent.TurnToolCall} (hf : ∀ entry, (f entry).toolCallId = entry.toolCallId) :
      entryIds (turn.recordFor toolCallId f).toolCalls = entryIds turn.toolCalls := by
    rw [Agent.Turn.recordFor]
    split
    · rfl
    · next i _ => exact entryIds_modify hf turn.toolCalls i
  cases outcome with
  | error e => exact hrecord fun _ => rfl
  | ok output => exact hrecord fun _ => rfl

/-- Results with distinct ids that are there go each to the entry with its id. -/
theorem settled_recordOutcomes : ∀ (results : List (ToolCall × Agent.ToolOutcome)) {turn : Agent.Turn},
    (results.map fun r => r.1.id).Nodup → (∀ r ∈ results, some r.1.id ∈ entryIds turn.toolCalls) →
    Settled env results turn.toolCalls (recordOutcomes env results turn).toolCalls
  | [], _, _, _ => ⟨List.nodup_nil, fun _ h => absurd h List.not_mem_nil, fun _ _ => rfl⟩
  | r :: results, turn, hown, hmem => by
    obtain ⟨hnot, hrest⟩ := List.nodup_cons.mp hown
    obtain ⟨i, entry, hat, hentry, -⟩ := entryAt_of_mem (hmem r List.mem_cons_self)
    have hne : ∀ q ∈ results, q.1.id ≠ r.1.id := fun q hq heq => hnot (List.mem_map.mpr ⟨q, hq, heq⟩)
    have hfirst := toolCalls_recordOutcome env hat
    have hids := entryIds_recordOutcome env r.1.name r.1.id r.2 turn
    have ih := settled_recordOutcomes results hrest fun q hq => hids ▸ hmem q (List.mem_cons_of_mem _ hq)
    -- where the entries are is the same before and after the first record
    have hplace (id : Str) : entryAt (recordOutcome env r.1.name r.1.id r.2 turn).toolCalls id =
      entryAt turn.toolCalls id :=
      entryAt_congr hids id
    refine ⟨hown, fun q hq => ?_, fun j hj => ?_⟩
    · rcases List.mem_cons.mp hq with rfl | hq
      · refine ⟨i, entry, hat, hentry, ?_⟩
        have hlater := ih.others i fun p hp => by
          rw [hplace]
          exact entryAt_ne hat (hne p hp)
        refine hlater.trans ?_
        rw [hfirst, List.getElem?_modify_eq, hentry]
        rfl
      · obtain ⟨k, entry', hk, hentry', hafter⟩ := ih.each q hq
        rw [hplace] at hk
        have hik : i ≠ k := fun heq => entryAt_ne hat (hne q hq) (heq ▸ hk)
        rw [hfirst, List.getElem?_modify_ne _ _ hik] at hentry'
        exact ⟨k, entry', hk, hentry', hafter⟩
    · have hlater := ih.others j fun q hq => by
        rw [hplace]
        exact hj q (List.mem_cons_of_mem _ hq)
      have hij : i ≠ j := fun heq => hj r List.mem_cons_self (heq ▸ hat)
      refine hlater.trans ?_
      rw [hfirst, List.getElem?_modify_ne _ _ hij]

theorem entryIds_recordResult (thread : Thread) (toolName toolCallId : Str) (outcome : Agent.ToolOutcome) :
    entryIds (toolEntries (recordResult env thread toolName toolCallId outcome)) = entryIds (toolEntries thread) := by
  rw [toolEntries, toolEntries, toolRecord_recordResult]
  cases toolRecord thread with
  | none => rfl
  | some turn => exact entryIds_recordOutcome env toolName toolCallId outcome turn

theorem settled_recordAll {results : List (ToolCall × Agent.ToolOutcome)} {thread : Thread} (context : List ChatMessage)
    (auth : Option Str) (hown : (results.map fun r => r.1.id).Nodup)
    (hmem : ∀ r ∈ results, some r.1.id ∈ entryIds (toolEntries thread)) :
    Settled env results (toolEntries thread) (toolEntries (recordAll env results thread context auth).1) := by
  rw [toolEntries] at hmem
  rw [toolEntries, toolEntries, toolRecord_recordAll]
  cases hrecord : toolRecord thread with
  | none =>
    -- without a turn there is no entry, hence no result
    rw [hrecord] at hmem
    exact ⟨hown, fun r hr => absurd (hmem r hr) List.not_mem_nil, fun _ _ => rfl⟩
  | some turn =>
    rw [hrecord] at hmem
    exact settled_recordOutcomes env results hown hmem

/-- The result of one call goes to the first entry with its id. -/
theorem toolEntries_recordResult {r : ToolCall × Agent.ToolOutcome} {thread : Thread} {i : Nat}
    (h : entryAt (toolEntries thread) r.1.id = some i) :
    (toolEntries (recordResult env thread r.1.name r.1.id r.2))[i]? =
      (toolEntries thread)[i]?.map (settleEntry env r) := by
  rw [toolEntries] at h
  rw [toolEntries, toolEntries, toolRecord_recordResult]
  cases hrecord : toolRecord thread with
  | none => rfl
  | some turn =>
    rw [hrecord] at h
    show (recordOutcome env r.1.name r.1.id r.2 turn).toolCalls[i]? = _
    rw [toolCalls_recordOutcome env h]
    exact List.getElem?_modify_eq ..

end ById

/-! ## No deferred call is dropped -/

/-- The calls that are not executed are the new request, with the ones after it; without a request there are none. -/
def Ending.Keeps : Ending → List ToolCall → Prop
  | .needApproval pending, tc :: rest =>
    pending.toolCallId = tc.id ∧ pending.toolName = tc.name ∧ pending.parameters = tc.arguments ∧
      pending.deferredToolCalls = rest
  | .needApproval _, [] => False
  | .response _, kept => kept = []
  | .loop _, kept => kept = []

/-- The messages that the next model call gets, at once or after the new approval. -/
def Ending.context : Ending → Option (List ChatMessage)
  | .needApproval pending => some pending.contextMessages
  | .response _ => none
  | .loop context => some context

/-- The executed calls, each with the outcome of its own task. -/
def ownResults (env : Agent.ChatEnv) (executed : List ToolCall) : List (ToolCall × Agent.ToolOutcome) :=
  executed.mapIdx fun i tc => (tc, outcomeOf env executed i tc)

/-- The approved call. -/
def approvedCall (p : PendingApproval) : ToolCall := ⟨p.toolCallId, p.toolName, p.parameters, none⟩

/-- The message that answers a call with its result. -/
def answerMessage (env : Env) (r : ToolCall × Agent.ToolOutcome) : ChatMessage :=
  .toolResult r.1.id r.1.name (Agent.processToolResult env.chat r.1.name r.1.id r.2).1

/-- Every deferred call is executed, its own result is recorded once under its id and answered in order, or the new
request keeps it. -/
structure Conserved (env : Env) (p : PendingApproval) (thread : Thread) (outcome : Agent.ToolOutcome) (r : Replay) :
    Prop where
  recorded : Settled env (ownResults env.chat r.executed)
    (toolEntries (recordResult env thread p.toolName p.toolCallId outcome)) (toolEntries r.thread)
  /-- The approved call keeps its result, unless one of the executed calls has its id. -/
  approved : ∀ i, entryAt (toolEntries thread) p.toolCallId = some i → (∀ tc ∈ r.executed, tc.id ≠ p.toolCallId) →
    (toolEntries r.thread)[i]? = (toolEntries thread)[i]?.map (settleEntry env (approvedCall p, outcome))
  conserved : ∃ kept, r.executed ++ kept = p.deferredToolCalls ∧ r.ending.Keeps kept
  answered : ∀ context, r.ending.context = some context →
    context = p.contextMessages ++ answerMessage env (approvedCall p, outcome) ::
      (ownResults env.chat r.executed).map (answerMessage env)

section Conservation

variable (env : Env) (worlds : Nat → World)

/-- A call asks for a token that comes before the first one that needs approval. -/
def AsksBeforeApproval (deferred : List ToolCall) : Prop :=
  ∃ n tc, deferred[n]? = some tc ∧ needsAt env worlds n tc = true ∧
    (∀ m < n, ∀ tc', deferred[m]? = some tc' → needsAt env worlds m tc' = false) ∧
    ∃ i tc', i < n ∧ deferred[i]? = some tc' ∧
      Agent.checkAuthRequired env.chat tc'.name (outcomeOf env.chat (deferred.take n) i tc') ≠ none

/-- The calls before the first that needs approval have ids of their own, and each has an entry. -/
def OwnEntries (entries : List Agent.TurnToolCall) (deferred : List ToolCall) : Prop :=
  ∀ n, (∀ m < n, ∀ tc, deferred[m]? = some tc → needsAt env worlds m tc = false) →
    ((deferred.take n).map fun tc => tc.id).Nodup ∧ ∀ tc ∈ deferred.take n, some tc.id ∈ entryIds entries

theorem mem_executeDeferred {env : Agent.ChatEnv} {runnable : List ToolCall} {r : ToolCall × Agent.ToolOutcome} :
    r ∈ executeDeferred env runnable ↔ ∃ i tc, runnable[i]? = some tc ∧ r = (tc, outcomeOf env runnable i tc) := by
  rw [executeDeferred_eq, List.mem_mapIdx]
  constructor
  · rintro ⟨i, hi, rfl⟩
    exact ⟨i, runnable[i], List.getElem?_eq_getElem hi, rfl⟩
  · rintro ⟨i, tc, htc, rfl⟩
    obtain ⟨hi, rfl⟩ := List.getElem?_eq_some_iff.mp htc
    exact ⟨i, hi, rfl⟩

/-- The condition on the deferred calls, as the phases see it. -/
theorem asksBeforeApproval_iff (deferred : List ToolCall) :
    AsksBeforeApproval env worlds deferred ↔ (preflightDeferred env worlds 0 deferred).2 ≠ none ∧
      ∃ r ∈ executeDeferred env.chat (preflightDeferred env worlds 0 deferred).1,
        Agent.checkAuthRequired env.chat r.1.name r.2 ≠ none := by
  obtain ⟨hsplit, hrun, hneeded⟩ := preflightDeferred_spec env worlds 0 deferred
  cases hpre : preflightDeferred env worlds 0 deferred with
  | mk runnable needed =>
    simp only [hpre, Nat.zero_add] at hsplit hrun hneeded ⊢
    cases needed with
    | none =>
      -- no call needs approval
      refine iff_of_false ?_ fun h => h.1 rfl
      rintro ⟨n, tc, htc, hneeds, -⟩
      rw [Needed.calls, List.append_nil] at hsplit
      rw [← hsplit] at htc
      exact absurd (hneeds.symm.trans (hrun n tc htc)) (by decide)
    | some needed =>
      rw [Needed.calls] at hsplit
      have hneeds := hneeded needed rfl
      have hat (i : Nat) (hi : i < runnable.length) : deferred[i]? = runnable[i]? := by
        rw [← hsplit, List.getElem?_append_left hi]
      have hfirst : deferred[runnable.length]? = some needed.tc := by
        rw [← hsplit, List.getElem?_append_right (Nat.le_refl _), Nat.sub_self]
        rfl
      have htake : deferred.take runnable.length = runnable := by rw [← hsplit, List.take_left]
      constructor
      · rintro ⟨n, tc, htc, hn, hbefore, i, tc', hi, htc', hask⟩
        have hlen : n = runnable.length := by
          rcases Nat.lt_trichotomy n runnable.length with h | h | h
          · exact absurd (hn.symm.trans (hrun n tc (hat n h ▸ htc))) (by decide)
          · exact h
          · exact absurd (hneeds.symm.trans (hbefore _ h _ hfirst)) (by decide)
        subst hlen
        rw [htake] at hask
        exact ⟨Option.some_ne_none _, _, mem_executeDeferred.2 ⟨i, tc', hat i hi ▸ htc', rfl⟩, hask⟩
      · rintro ⟨-, r, hr, hask⟩
        obtain ⟨i, tc', htc', rfl⟩ := mem_executeDeferred.1 hr
        obtain ⟨hi, -⟩ := List.getElem?_eq_some_iff.mp htc'
        refine ⟨runnable.length, needed.tc, hfirst, hneeds, fun m hm tc hm' => hrun m tc (hat m hm ▸ hm'), i, tc', hi,
          (hat i hi).trans htc', ?_⟩
        rwa [htake]

/-- The condition on the ids, as the phases see it. -/
theorem ownEntries_iff (entries : List Agent.TurnToolCall) (deferred : List ToolCall) :
    OwnEntries env worlds entries deferred ↔
      ((preflightDeferred env worlds 0 deferred).1.map fun tc => tc.id).Nodup ∧
        ∀ tc ∈ (preflightDeferred env worlds 0 deferred).1, some tc.id ∈ entryIds entries := by
  obtain ⟨hsplit, hrun, hneeded⟩ := preflightDeferred_spec env worlds 0 deferred
  cases hpre : preflightDeferred env worlds 0 deferred with
  | mk runnable needed =>
    simp only [hpre, Nat.zero_add] at hsplit hrun hneeded ⊢
    constructor
    · intro h
      have hbefore : ∀ m < runnable.length, ∀ tc, deferred[m]? = some tc → needsAt env worlds m tc = false := by
        intro m hm tc htc
        rw [← hsplit, List.getElem?_append_left hm] at htc
        exact hrun m tc htc
      have htake := h runnable.length hbefore
      rwa [← hsplit, List.take_left] at htake
    · rintro ⟨hnodup, hmem⟩ n hn
      -- no more calls are before the first that needs approval than the walk finds
      have hpre : deferred.take n <+: runnable := by
        cases needed with
        | none =>
          rw [Needed.calls, List.append_nil] at hsplit
          rw [hsplit]
          exact List.take_prefix n deferred
        | some needed =>
          have hle : n ≤ runnable.length := by
            by_contra hlt
            have hat : deferred[runnable.length]? = some needed.tc := by
              rw [← hsplit, List.getElem?_append_right (Nat.le_refl _), Nat.sub_self]
              rfl
            exact absurd ((hneeded needed rfl).symm.trans (hn _ (Nat.lt_of_not_le hlt) _ hat)) (by decide)
          rw [← hsplit, List.take_append_of_le_length hle]
          exact List.take_prefix n runnable
      exact ⟨hnodup.sublist (hpre.sublist.map _), fun tc htc => hmem tc (hpre.subset htc)⟩

theorem ids_ownResults (env : Agent.ChatEnv) (executed : List ToolCall) :
    ((ownResults env executed).map fun r => r.1.id) = executed.map fun tc => tc.id := by
  refine List.ext_getElem? fun i => ?_
  simp only [ownResults, List.getElem?_map, List.getElem?_mapIdx, Option.map_map, Function.comp_def]

theorem mem_ownResults {env : Agent.ChatEnv} {executed : List ToolCall} {r : ToolCall × Agent.ToolOutcome}
    (h : r ∈ ownResults env executed) : r.1 ∈ executed := by
  obtain ⟨i, hi, rfl⟩ := List.mem_mapIdx.mp h
  exact List.getElem_mem hi

/-- Where results are in the entries with their ids, the ids are distinct and there. -/
theorem Settled.ids {env : Env} {executed : List ToolCall} {before after : List Agent.TurnToolCall}
    (h : Settled env (ownResults env.chat executed) before after) :
    (executed.map fun tc => tc.id).Nodup ∧ ∀ tc ∈ executed, some tc.id ∈ entryIds before := by
  refine ⟨ids_ownResults env.chat executed ▸ h.own, fun tc htc => ?_⟩
  obtain ⟨i, hi, rfl⟩ := List.getElem_of_mem htc
  have hr : (executed[i], outcomeOf env.chat executed i executed[i]) ∈ ownResults env.chat executed :=
    List.mem_mapIdx.mpr ⟨i, hi, rfl⟩
  obtain ⟨j, entry, hat, -⟩ := h.each _ hr
  exact mem_of_entryAt hat

/-- The approved call keeps its result while other calls are settled. -/
theorem Settled.approved {env : Env} {p : PendingApproval} {thread : Thread} {outcome : Agent.ToolOutcome}
    {executed : List ToolCall} {after : List Agent.TurnToolCall}
    (h : Settled env (ownResults env.chat executed)
      (toolEntries (recordResult env thread p.toolName p.toolCallId outcome)) after) {i : Nat}
    (hat : entryAt (toolEntries thread) p.toolCallId = some i) (hne : ∀ tc ∈ executed, tc.id ≠ p.toolCallId) :
    after[i]? = (toolEntries thread)[i]?.map (settleEntry env (approvedCall p, outcome)) := by
  have hlater := h.others i fun r hr => by
    rw [entryAt_congr (entryIds_recordResult env thread p.toolName p.toolCallId outcome)]
    exact entryAt_ne hat (hne r.1 (mem_ownResults hr))
  exact hlater.trans (toolEntries_recordResult (r := (approvedCall p, outcome)) env hat)

/-- **Conservation.** Every deferred call is executed, with its own result in the entry with its id and in the context,
or kept, exactly when the approved tool asks for no token while calls are deferred, no deferred call asks for one before
a call that needs approval, and the calls before that one have ids of their own with entries in the last turn. -/
theorem deferred_conserved_iff (requestId : Nat) (p : PendingApproval) (thread : Thread) (outcome : Agent.ToolOutcome) :
    Conserved env p thread outcome (processDeferred env worlds requestId p thread outcome) ↔
      (Agent.checkAuthRequired env.chat p.toolName outcome = none ∨ p.deferredToolCalls = []) ∧
        ¬ AsksBeforeApproval env worlds p.deferredToolCalls ∧
        OwnEntries env worlds (toolEntries thread) p.deferredToolCalls := by
  have hids := entryIds_recordResult env thread p.toolName p.toolCallId outcome
  cases hcheck : Agent.checkAuthRequired env.chat p.toolName outcome with
  | some c =>
    -- the handler returns early: nothing is executed and nothing kept
    obtain ⟨extName, instructions⟩ := c
    have hreplay : processDeferred env worlds requestId p thread outcome =
        ⟨authThread (recordResult env thread p.toolName p.toolCallId outcome) extName instructions, [],
          .response instructions⟩ := by
      rw [processDeferred]
      simp only [hcheck]
    rw [hreplay]
    constructor
    · intro h
      obtain ⟨kept, hkept, hkeeps⟩ := h.conserved
      have hnil : p.deferredToolCalls = [] := by rw [← hkept, show kept = [] from hkeeps]; rfl
      rw [hnil]
      refine ⟨.inr rfl, ?_, fun n _ => ?_⟩
      · rintro ⟨n, tc, htc, -⟩
        exact absurd htc (by simp)
      · rw [List.take_nil]
        exact ⟨List.nodup_nil, fun _ h => absurd h List.not_mem_nil⟩
    · rintro ⟨h, -⟩
      have hnil := h.resolve_left (Option.some_ne_none _)
      have hsettled : Settled env (ownResults env.chat [])
          (toolEntries (recordResult env thread p.toolName p.toolCallId outcome))
          (toolEntries (authThread (recordResult env thread p.toolName p.toolCallId outcome) extName
              instructions)) := by
        rw [toolEntries, toolEntries, toolRecord_authThread]
        exact ⟨List.nodup_nil, fun _ h => absurd h List.not_mem_nil, fun _ _ => rfl⟩
      exact ⟨hsettled, fun i hat hne => hsettled.approved hat hne, ⟨[], hnil.symm, rfl⟩, fun _ h => nomatch h⟩
  | none =>
    rw [asksBeforeApproval_iff, ownEntries_iff]
    obtain ⟨hsplit, -, -⟩ := preflightDeferred_spec env worlds 0 p.deferredToolCalls
    cases hpre : preflightDeferred env worlds 0 p.deferredToolCalls with
    | mk runnable needed =>
      cases hall : recordAll env (executeDeferred env.chat runnable)
          (recordResult env thread p.toolName p.toolCallId outcome)
          (p.contextMessages ++ [resultMessage env p.toolName p.toolCallId outcome]) none with
      | mk thread' rest =>
        obtain ⟨context', auth⟩ := rest
        have hsettled (hown : (runnable.map fun tc => tc.id).Nodup ∧
            ∀ tc ∈ runnable, some tc.id ∈ entryIds (toolEntries thread)) :
            Settled env (ownResults env.chat runnable)
              (toolEntries (recordResult env thread p.toolName p.toolCallId outcome)) (toolEntries thread') := by
          have h := settled_recordAll env
            (p.contextMessages ++ [resultMessage env p.toolName p.toolCallId outcome]) none
            (ids_ownResults env.chat runnable ▸ hown.1) fun r hr => hids ▸ hown.2 r.1 (mem_ownResults hr)
          rw [ownResults, ← executeDeferred_eq, hall] at h
          rwa [ownResults, ← executeDeferred_eq]
        have hcontext : context' = p.contextMessages ++ answerMessage env (approvedCall p, outcome) ::
            (ownResults env.chat runnable).map (answerMessage env) := by
          have h := context_recordAll env (executeDeferred env.chat runnable)
            (recordResult env thread p.toolName p.toolCallId outcome)
            (p.contextMessages ++ [resultMessage env p.toolName p.toolCallId outcome]) none
          rw [hall, executeDeferred_eq, List.append_assoc] at h
          exact h
        have hauth := auth_recordAll env (executeDeferred env.chat runnable)
          (recordResult env thread p.toolName p.toolCallId outcome)
          (p.contextMessages ++ [resultMessage env p.toolName p.toolCallId outcome]) none
        rw [hall] at hauth
        rw [hpre] at hsplit
        rw [processDeferred]
        simp only [hcheck, hpre, hall, true_or, true_and]
        cases auth with
        | some instructions =>
          -- one of the results asks for a token: the calls from the first that needs approval on are dropped
          have hasks : ∃ r ∈ executeDeferred env.chat runnable,
              Agent.checkAuthRequired env.chat r.1.name r.2 ≠ none := by
            by_contra hno
            push Not at hno
            exact Option.some_ne_none _ (hauth.mpr ⟨rfl, hno⟩)
          constructor
          · intro h
            refine ⟨fun hneeded => ?_, hids ▸ h.recorded.ids⟩
            obtain ⟨kept, hkept, hkeeps⟩ := h.conserved
            cases needed with
            | none => exact absurd rfl hneeded.1
            | some needed =>
              rw [show kept = [] from hkeeps, List.append_nil] at hkept
              rw [← hkept, Needed.calls] at hsplit
              exact absurd hsplit (by simp)
          · rintro ⟨h, hown⟩
            cases needed with
            | some needed => exact absurd ⟨Option.some_ne_none _, hasks⟩ h
            | none =>
              exact ⟨hsettled hown, fun i hat hne => (hsettled hown).approved hat hne, ⟨[], hsplit, rfl⟩,
                fun _ h => nomatch h⟩
        | none =>
          have hno := (hauth.mp rfl).2
          have hasks : ¬ (needed ≠ none ∧ ∃ r ∈ executeDeferred env.chat runnable,
              Agent.checkAuthRequired env.chat r.1.name r.2 ≠ none) := by
            rintro ⟨-, r, hr, hask⟩
            exact hask (hno r hr)
          cases needed with
          | some needed =>
            refine ⟨fun h => ⟨hasks, hids ▸ h.recorded.ids⟩, fun ⟨_, hown⟩ => ⟨hsettled hown, fun i hat hne =>
              (hsettled hown).approved hat hne, ⟨needed.tc :: needed.rest, hsplit, rfl, rfl, rfl, rfl⟩, fun _ h => ?_⟩⟩
            exact (Option.some.inj h).symm.trans hcontext
          | none =>
            refine ⟨fun h => ⟨hasks, hids ▸ h.recorded.ids⟩, fun ⟨_, hown⟩ => ⟨hsettled hown, fun i hat hne =>
              (hsettled hown).approved hat hne, ⟨[], hsplit, rfl⟩, fun _ h => ?_⟩⟩
            exact (Option.some.inj h).symm.trans hcontext

end Conservation

/-! ## The steps of the handler -/

section Steps

variable (env : Env)

/-- One step of the handler, while nothing else happens. -/
def HandlerStep (a b : World × ApprovalPc) : Prop := ∃ answer, b = approvalStep env a.1 answer a.2

/-- Where the handler stands when the deferred calls are done. -/
def Ending.pc : Ending → ApprovalPc
  | .response instructions => .returned (.response instructions)
  | .needApproval pending => .returned (Session.needApproval pending.requestId pending.toPendingApproval)
  | .loop context => .loop context

open Relation (ReflTransGen)

/-- The walk over the deferred calls. -/
theorem steps_preflight (w : World) (p : PendingApproval) (context : List ChatMessage) :
    ∀ (rest runnable : List ToolCall) (idx : Nat),
    ReflTransGen (HandlerStep env) (w, .preflight p context runnable rest)
      (w, .runDeferred p context (runnable ++ (preflightDeferred env (fun _ => w) idx rest).1)
        (preflightDeferred env (fun _ => w) idx rest).2)
  | [], runnable, idx => by
    rw [preflightDeferred, List.append_nil]
    exact .single ⟨calm, rfl⟩
  | tc :: rest, runnable, idx => by
    have hwalk (h : (preflightDeferred env (fun _ => w) idx (tc :: rest)) =
        (tc :: (preflightDeferred env (fun _ => w) (idx + 1) rest).1,
          (preflightDeferred env (fun _ => w) (idx + 1) rest).2))
        (hstep : preflightStep env w p context runnable (tc :: rest) = .preflight p context (runnable ++ [tc]) rest) :
        ReflTransGen (HandlerStep env) (w, .preflight p context runnable (tc :: rest))
          (w, .runDeferred p context (runnable ++ (preflightDeferred env (fun _ => w) idx (tc :: rest)).1)
            (preflightDeferred env (fun _ => w) idx (tc :: rest)).2) := by
      refine .head ⟨calm, congrArg (Prod.mk w) hstep.symm⟩ ?_
      have ih := steps_preflight w p context rest (runnable ++ [tc]) (idx + 1)
      rw [List.append_assoc, List.singleton_append] at ih
      rw [h]
      exact ih
    cases htool : env.chat.getTool tc.name with
    | none =>
      refine hwalk ?_ ?_
      · rw [preflightDeferred]
        simp only [htool]
      · rw [preflightStep]
        simp only [htool]
    | some tool =>
      cases hneeds : (deferredNeeds env w tool tc).1 with
      | false =>
        refine hwalk ?_ ?_
        · rw [preflightDeferred]
          simp only [htool, hneeds, Bool.false_eq_true, if_false]
        · rw [preflightStep]
          simp only [htool, hneeds, Bool.false_eq_true, if_false]
      | true =>
        refine .single ⟨calm, ?_⟩
        show _ = (w, preflightStep env w p context runnable (tc :: rest))
        rw [preflightDeferred, preflightStep]
        simp only [htool, hneeds, if_true, List.append_nil]

/-- The results are recorded. -/
theorem steps_record (p : PendingApproval) (needed : Option Needed) : ∀ (results : List (ToolCall × Agent.ToolOutcome))
    (w : World) (context : List ChatMessage) (auth : Option Str),
    ∃ w', w'.thread = (recordAll env results w.thread context auth).1 ∧ w'.nextRequest = w.nextRequest ∧
      ReflTransGen (HandlerStep env) (w, .recordDeferred p context results needed auth)
        (w', .recordDeferred p (recordAll env results w.thread context auth).2.1 [] needed
          (recordAll env results w.thread context auth).2.2)
  | [], w, _, _ => by
    rw [recordAll]
    exact ⟨w, rfl, rfl, .refl⟩
  | (tc, outcome) :: results, w, context, auth => by
    let w₁ : World := { w with thread := recordResult env w.thread tc.name tc.id outcome }
    let context₁ := context ++ [resultMessage env tc.name tc.id outcome]
    rcases recordAll_cases env tc outcome auth with ⟨rfl, extName, instructions, hcheck⟩ | hplain
    · rw [recordAll_auth env hcheck]
      obtain ⟨w', hthread, hnext, hsteps⟩ := steps_record p needed results (authStep w₁ extName instructions) context₁
        (some instructions)
      have hask : HandlerStep env (w, .recordDeferred p context ((tc, outcome) :: results) needed none)
          (w₁, .deferredAuth p context₁ results needed extName instructions) :=
        ⟨calm, by simp only [approvalStep, hcheck, w₁, context₁]⟩
      have hauth : HandlerStep env (w₁, .deferredAuth p context₁ results needed extName instructions)
          (authStep w₁ extName instructions, .recordDeferred p context₁ results needed (some instructions)) :=
            ⟨calm, rfl⟩
      exact ⟨w', hthread, hnext, .head hask (.head hauth hsteps)⟩
    · rw [recordAll_plain env hplain]
      obtain ⟨w', hthread, hnext, hsteps⟩ := steps_record p needed results w₁ context₁ auth
      have hrecord : HandlerStep env (w, .recordDeferred p context ((tc, outcome) :: results) needed auth)
          (w₁, .recordDeferred p context₁ results needed auth) := by
        refine ⟨calm, ?_⟩
        cases auth with
        | some instructions => rfl
        | none => simp only [approvalStep, hplain.resolve_left (by decide), w₁, context₁]
      exact ⟨w', hthread, hnext, .head hrecord hsteps⟩

/-- The outcomes of the tasks, as the handler gets them. -/
theorem deferredResults_eq (runnable : List ToolCall) :
    deferredResults runnable ((executeDeferred env.chat runnable).map Prod.snd) =
      executeDeferred env.chat runnable := by
  rw [deferredResults, executeDeferred_eq]
  refine List.ext_getElem? fun i => ?_
  simp only [List.getElem?_mapIdx, List.getElem?_map]
  cases runnable[i]? with
  | none => rfl
  | some tc => rfl

/-- From the result of the approved tool on, the handler's steps do what `processDeferred` says. -/
theorem handler_replays (w : World) (p : PendingApproval) (outcome : Agent.ToolOutcome) :
    ∃ w', w'.thread = (processDeferred env (fun _ => w) w.nextRequest p w.thread outcome).thread ∧
      ReflTransGen (HandlerStep env) (w, .record p outcome)
        (w', (processDeferred env (fun _ => w) w.nextRequest p w.thread outcome).ending.pc) := by
  let w₁ : World := { w with thread := recordResult env w.thread p.toolName p.toolCallId outcome }
  rw [processDeferred]
  cases hcheck : Agent.checkAuthRequired env.chat p.toolName outcome with
  | some c =>
    obtain ⟨extName, instructions⟩ := c
    have hrecord : HandlerStep env (w, .record p outcome) (w₁, .authIntercept extName instructions) :=
      ⟨calm, by simp only [approvalStep, hcheck, w₁]⟩
    exact ⟨authStep w₁ extName instructions, rfl, .tail (.single hrecord) ⟨calm, rfl⟩⟩
  | none =>
    let context := p.contextMessages ++ [resultMessage env p.toolName p.toolCallId outcome]
    have hrecord : HandlerStep env (w, .record p outcome) (w₁, .preflight p context [] p.deferredToolCalls) :=
      ⟨calm, by simp only [approvalStep, hcheck, w₁, context]⟩
    have hwalk := steps_preflight env w₁ p context p.deferredToolCalls [] 0
    have hauto : ∀ i : Nat, ((fun _ => w₁) i).autoApproved = ((fun _ => w) i).autoApproved := fun _ => rfl
    have hworlds : preflightDeferred env (fun _ => w₁) 0 p.deferredToolCalls =
        preflightDeferred env (fun _ => w) 0 p.deferredToolCalls := preflightDeferred_congr env hauto 0 _
    rw [hworlds, List.nil_append] at hwalk
    cases hpre : preflightDeferred env (fun _ => w) 0 p.deferredToolCalls with
    | mk runnable needed =>
      rw [hpre] at hwalk
      have hrun : HandlerStep env (w₁, .runDeferred p context runnable needed)
          (w₁, .recordDeferred p context (executeDeferred env.chat runnable) needed none) :=
        ⟨{ calm with deferred := (executeDeferred env.chat runnable).map Prod.snd }, by
          simp only [approvalStep, deferredResults_eq]⟩
      obtain ⟨w', hthread, hnext, hrecorded⟩ :=
        steps_record env p needed (executeDeferred env.chat runnable) w₁ context none
      have hsteps := (ReflTransGen.single hrecord).trans (hwalk.trans (.head hrun hrecorded))
      cases hall : recordAll env (executeDeferred env.chat runnable) w₁.thread context none with
      | mk thread' rest =>
        obtain ⟨context', auth⟩ := rest
        rw [hall] at hthread hsteps
        simp only [hall, w₁, context] at hthread hsteps ⊢
        cases auth with
        | some instructions => exact ⟨w', hthread, .tail hsteps ⟨calm, rfl⟩⟩
        | none =>
          cases needed with
          | none => exact ⟨w', hthread, .tail hsteps ⟨calm, rfl⟩⟩
          | some needed =>
            have hneeded : HandlerStep env (w', .recordDeferred p context' [] (some needed) none)
                (w', .awaitNew p context' needed) := ⟨calm, rfl⟩
            have hawait : HandlerStep env (w', .awaitNew p context' needed) (w'.awaitNew (newPending p context' needed),
                .returned (needApproval w'.nextRequest (newPending p context' needed))) := ⟨calm, rfl⟩
            refine ⟨w'.awaitNew (newPending p context' needed), ?_, ?_⟩
            · show w'.thread.awaitApproval _ = _
              rw [hthread, hnext]
            · have hdone := (hsteps.tail hneeded).tail hawait
              rw [hnext] at hdone
              exact hdone

end Steps

/-! ## A token request while calls are deferred -/

/-- The request for `tool_auth`, with `tool_install` deferred. -/
def authThenDeferred : PendingApproval :=
  { toolName := "tool_auth".toList, parameters := .obj [], displayParameters := .obj [],
    description := "Authenticates an extension.".toList, toolCallId := "call_1".toList, contextMessages := [],
    deferredToolCalls := [⟨"call_2".toList, "tool_install".toList, .obj [], none⟩], userTimezone := none,
    allowAlways := true, requestId := 0 }

/-- The turn that the request belongs to. -/
def gmailThread : Thread := Thread.new.startTurn "Connect Gmail and install Slack.".toList

/-- The approved tool asks for a token: the deferred call is neither executed nor kept. -/
theorem token_request_drops_deferred :
    (processDeferred desk (fun _ => initial) 1 authThenDeferred gmailThread (.ok Agent.awaitingToken)).executed = [] ∧
      (processDeferred desk (fun _ => initial) 1 authThenDeferred gmailThread (.ok Agent.awaitingToken)).ending =
        .response "Please provide your API token/key.".toList ∧
      ¬ Conserved desk authThenDeferred gmailThread (.ok Agent.awaitingToken)
        (processDeferred desk (fun _ => initial) 1 authThenDeferred gmailThread (.ok Agent.awaitingToken)) := by
  have hexecuted :
    (processDeferred desk (fun _ => initial) 1 authThenDeferred gmailThread (.ok Agent.awaitingToken)).executed =
      [] := rfl
  have hending :
    (processDeferred desk (fun _ => initial) 1 authThenDeferred gmailThread (.ok Agent.awaitingToken)).ending =
      .response "Please provide your API token/key.".toList := rfl
  refine ⟨hexecuted, hending, ?_⟩
  intro h
  obtain ⟨kept, hkept, hkeeps⟩ := h.conserved
  rw [hending] at hkeeps
  rw [hexecuted, show kept = [] from hkeeps] at hkept
  exact absurd hkept (by decide)

end Ironclaw.Session

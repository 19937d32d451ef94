import Ironclaw.Routines.Concurrency
import Ironclaw.Routines.Execute
import Ironclaw.Workspace.Resolver

/-!
# Tenant isolation of routines

An execution is isolated when the workspace it reads, the context of its tools or job, and the owner of what it posts
are the routine's user, and its result is the same on any two tables with the same documents for that user. Tools and
jobs reach the documents through the workspace that the resolver gives for their user (`Scoped`).

- `isolated_iff`: a fire is isolated exactly when the workspace of its path is the user's and has no other read scope,
  and so is the one its tools or its job can use;
- `webhook_reads_engine_user`: a webhook executes a routine of another user on the engine user's memory.
-/

namespace Ironclaw.Routines

open Text Llm Workspace

/-- Tools and jobs reach the documents through the workspace that the resolver gives for the user they run for: they do
not tell tables apart that agree for it, and tools keep these tables in agreement. -/
structure Scoped (resolver : WorkspaceResolver) (env : EngineEnv) : Prop where
  tools : ∀ {docs docs' : Docs} {job : JobContext} (tc : ToolCall), (resolver.workspaceOf job.userId).Agree docs docs' →
    (env.tools.run docs job tc).1 = (env.tools.run docs' job tc).1 ∧
      (resolver.workspaceOf job.userId).Agree (env.tools.run docs job tc).2 (env.tools.run docs' job tc).2
  jobs : ∀ scheduler ∈ env.scheduler, ∀ {docs docs' : Docs} {job : JobContext},
    (resolver.workspaceOf job.userId).Agree docs docs' → scheduler.succeeds docs job = scheduler.succeeds docs' job

/-- A fire of the routine on the trigger path uses nothing of another user. -/
structure Isolated (engine : Workspace) (resolver : WorkspaceResolver) (path : TriggerPath) (routine : Routine) :
    Prop where
  workspace : ∀ env docs, ∀ w ∈ (fire env engine path routine docs).1.workspace, w.userId = routine.userId
  job : ∀ env docs, (fire env engine path routine docs).1.job.userId = routine.userId
  owner : ∀ env docs, (fire env engine path routine docs).1.conversationOwner = routine.userId ∧
    ∀ n ∈ (fire env engine path routine docs).1.notification,
      n.metadata.get "owner_id".toList = some (.str routine.userId)
  independent : ∀ env, Scoped resolver env → ∀ {docs docs' : Docs}, SameDocs routine.userId docs docs' →
    (fire env engine path routine docs).1 = (fire env engine path routine docs').1

/-- What a fire reads is the routine's: the workspace of its path, and the one of its tools where it has a round for
them, or of its job. -/
def Confined (engine : Workspace) (resolver : WorkspaceResolver) (path : TriggerPath) (routine : Routine) : Prop :=
  match routine.action with
  | .lightweight _ _ _ useTools maxToolRounds =>
    (path = .webhook → routine.userId = engine.userId) ∧
      (routine.userId = engine.userId → engine.readUserIds = [engine.userId]) ∧
      (useTools = true → 2 ≤ maxToolRounds → resolver.OwnOnly routine.userId)
  | .fullJob _ _ _ => resolver.OwnOnly routine.userId

/-! ## The owner of a run -/

theorem job_owner (env : EngineEnv) (w : Workspace) (path : TriggerPath) (routine : Routine) (docs : Docs) :
    (executeRoutine env w path routine docs).1.job.userId = routine.userId := by
  unfold executeRoutine
  cases routine.action <;> rfl

theorem notification_owner (env : EngineEnv) (w : Workspace) (path : TriggerPath) (routine : Routine) (docs : Docs) :
    (executeRoutine env w path routine docs).1.conversationOwner = routine.userId ∧
      ∀ n ∈ (executeRoutine env w path routine docs).1.notification,
        n.metadata.get "owner_id".toList = some (.str routine.userId) := by
  have hsend : ∀ (status : RunStatus) (summary threadId : Option Str),
      ∀ n ∈ sendNotification routine.notify routine.userId routine.name status summary threadId,
        n.metadata.get "owner_id".toList = some (.str routine.userId) := by
    intro status summary threadId n hn
    unfold sendNotification at hn
    split at hn
    · obtain rfl := Option.some.inj hn
      rfl
    · cases hn
  unfold executeRoutine
  cases routine.action <;> exact ⟨rfl, hsend _ _ _⟩

/-! ## Executions on tables that agree -/

section Same

variable {env : EngineEnv} {resolver : WorkspaceResolver} {docs docs' : Docs}

theorem runToolCalls_same (henv : Scoped resolver env) {job : JobContext} (allowed : List Str) :
    ∀ (tcs : List ToolCall) (messages : List ChatMessage) {docs docs' : Docs},
      (resolver.workspaceOf job.userId).Agree docs docs' →
      (runToolCalls env job allowed tcs messages docs).1 = (runToolCalls env job allowed tcs messages docs').1 ∧
        (resolver.workspaceOf job.userId).Agree (runToolCalls env job allowed tcs messages docs).2
          (runToolCalls env job allowed tcs messages docs').2
  | [], _, _, _, h => ⟨rfl, h⟩
  | tc :: tcs, messages, docs, docs', h => by
    have htc : (executeRoutineTool env job allowed tc docs).1 = (executeRoutineTool env job allowed tc docs').1 ∧
        (resolver.workspaceOf job.userId).Agree (executeRoutineTool env job allowed tc docs).2
          (executeRoutineTool env job allowed tc docs').2 := by
      unfold executeRoutineTool
      split
      · exact henv.tools tc h
      · exact ⟨rfl, h⟩
    simp only [runToolCalls, htc.1]
    exact runToolCalls_same henv allowed tcs _ htc.2

theorem toolLoop_same (henv : Scoped resolver env) {job : JobContext} (allowed : List Str) (maxTokens : Nat) :
    ∀ (n : Nat) (messages : List ChatMessage) (i o : Nat) {docs docs' : Docs},
      (resolver.workspaceOf job.userId).Agree docs docs' →
      (toolLoop env job allowed maxTokens n messages i o docs).1 =
        (toolLoop env job allowed maxTokens n messages i o docs').1
  | 0, _, _, _, _, _, _ => rfl
  | n + 1, messages, i, o, docs, docs', h => by
    simp only [toolLoop]
    split
    · rfl
    next r _ =>
      split
      · rfl
      · have hcalls := runToolCalls_same henv allowed r.toolCalls
          (messages ++ [.assistantWithToolCalls r.content r.toolCalls]) h
        rw [hcalls.1]
        exact toolLoop_same henv allowed maxTokens n _ _ _ hcalls.2

/-- With fewer than two rounds, the loop has no iteration for tools. -/
theorem executeLightweightWithTools_same (henv : Scoped resolver env) {routine : Routine}
    (h : SameDocs routine.userId docs docs') {maxToolRounds : Nat}
    (htools : 2 ≤ maxToolRounds → resolver.OwnOnly routine.userId) (systemPrompt fullPrompt : Str) (maxTokens : Nat) :
    (executeLightweightWithTools env routine systemPrompt fullPrompt maxTokens maxToolRounds docs).1 =
      (executeLightweightWithTools env routine systemPrompt fullPrompt maxTokens maxToolRounds docs').1 := by
  unfold executeLightweightWithTools
  by_cases hrounds : 2 ≤ maxToolRounds
  · have hown := (resolver.ownOnly_iff routine.userId).mp (htools hrounds)
    exact toolLoop_same henv _ _ _ _ _ _ ((Workspace.agree_iff hown).mpr h)
  · have hnone : min (min maxToolRounds env.config.lightweightMaxIterations) 5 - 1 = 0 := by omega
    simp only [hnone]
    rfl

theorem executeLightweight_same (henv : Scoped resolver env) {w : Workspace} {routine : Routine}
    (hw : w.readUserIds = [w.userId]) (hu : w.userId = routine.userId) (h : SameDocs routine.userId docs docs')
    {useTools : Bool} {rounds : Nat} (htools : useTools = true → 2 ≤ rounds → resolver.OwnOnly routine.userId)
    (prompt : Str) (paths : List Str) (maxTokens : Nat) :
    (executeLightweight env w routine prompt paths maxTokens useTools rounds docs).1 =
      (executeLightweight env w routine prompt paths maxTokens useTools rounds docs').1 := by
  have h' : SameDocs w.userId docs docs' := hu ▸ h
  obtain ⟨hprompt, hdocs⟩ := systemPrompt_same hw h' env.prompt
  have hctx : contextParts w docs paths = contextParts w docs' paths := by
    simp only [contextParts, read_same hw h']
  simp only [executeLightweight, hctx, read_same hw h', hprompt]
  split
  next huse =>
    rw [hu] at hdocs
    exact executeLightweightWithTools_same henv hdocs (htools (Bool.and_eq_true_iff.mp huse).1) _ _ _
  · rfl

theorem executeFullJob_same (henv : Scoped resolver env) {job : JobContext} (h : SameDocs job.userId docs docs')
    (hown : resolver.OwnOnly job.userId) : executeFullJob env job docs = executeFullJob env job docs' := by
  have hagree : (resolver.workspaceOf job.userId).Agree docs docs' :=
    (Workspace.agree_iff ((resolver.ownOnly_iff job.userId).mp hown)).mpr h
  unfold executeFullJob
  split
  · rfl
  · split
    · rfl
    next scheduler hs => rw [henv.jobs scheduler hs hagree]

end Same

/-! ## A model that tells the memory apart -/

/-- Every document is empty. -/
def AllEmpty (docs : Docs) : Prop := ∀ d ∈ docs, d.content = []

theorem get_of_empty {docs : Docs} (h : AllEmpty docs) (u : Str) (agentId : Option Nat) (path : Str) {c : Str}
    (hc : getDocumentByPath docs u agentId path = some c) : c = [] := by
  obtain ⟨d, hd, rfl⟩ := Option.map_eq_some_iff.mp hc
  exact h d (List.mem_of_find?_eq_some hd)

theorem getMulti_of_empty {docs : Docs} (h : AllEmpty docs) (us : List Str) (agentId : Option Nat) (path : Str)
    {c : Str} (hc : getDocumentByPathMulti docs us agentId path = some c) : c = [] := by
  obtain ⟨u, -, hu⟩ := List.exists_of_findSome?_eq_some hc
  exact get_of_empty h u agentId path hu

theorem read_of_empty {docs : Docs} (h : AllEmpty docs) (w : Workspace) (path : Str) {c : Str}
    (hc : w.read docs path = some c) : c = [] := by
  simp only [Workspace.read] at hc
  split at hc
  · exact get_of_empty h _ _ _ hc
  · split at hc
    · exact getMulti_of_empty h _ _ _ hc
    · exact get_of_empty h _ _ _ hc

theorem promptSection_of_empty (header : String) {o : Option Str} (h : ∀ c, o = some c → c = []) :
    promptSection header o = [] := by
  cases o with
  | none => rfl
  | some c => simp [promptSection, h c rfl]

theorem dailyLog_of_empty {docs : Docs} (h : AllEmpty docs) (w : Workspace) (date : Str) :
    (w.dailyLog docs date).1 = [] ∧ AllEmpty (w.dailyLog docs date).2 := by
  unfold Workspace.dailyLog Workspace.readOrCreate
  split
  next c hc =>
    split at hc
    · exact ⟨getMulti_of_empty h _ _ _ hc, h⟩
    · cases hc
  · unfold getOrCreateDocumentByPath
    split
    next c hc => exact ⟨get_of_empty h _ _ _ hc, h⟩
    · refine ⟨rfl, fun d hd => ?_⟩
      rcases List.mem_append.mp hd with hd | hd
      · exact h d hd
      · rw [List.mem_singleton.mp hd]

/-- Where every document is empty, so is the prompt. -/
theorem systemPrompt_of_empty (w : Workspace) (env : PromptEnv) {docs : Docs} (h : AllEmpty docs) :
    (w.systemPrompt env docs).1 = [] := by
  obtain ⟨h₁, hd₁⟩ := dailyLog_of_empty h w env.today
  obtain ⟨h₂, hd₂⟩ := dailyLog_of_empty hd₁ w env.yesterday
  have hprimary : ∀ (header : String) (path : Str), promptSection header (w.readPrimary docs path) = [] :=
    fun header path => promptSection_of_empty header fun c hc => get_of_empty h _ _ _ hc
  have hread : ∀ (header : String) (path : Str), promptSection header (w.read docs path) = [] :=
    fun header path => promptSection_of_empty header fun c hc => read_of_empty h w path hc
  have hpersonal : w.personalParts env (w.dailyLog (w.dailyLog docs env.today).2 env.yesterday).2 false = [] := by
    have hprofile : loadProfile env (w.read (w.dailyLog (w.dailyLog docs env.today).2 env.yesterday).2 PROFILE) =
        none := by
      cases hc : w.read (w.dailyLog (w.dailyLog docs env.today).2 env.yesterday).2 PROFILE with
      | none => rfl
      | some c => simp [loadProfile, read_of_empty hd₂ w PROFILE hc]
    simp only [personalParts, hprofile, Bool.false_and, Bool.false_eq_true, if_false, List.append_nil, List.nil_append]
    split
    · rfl
    next c hc => simp [read_of_empty hd₂ w ASSISTANT_DIRECTIVES hc]
  have hlog : ∀ header : String, promptSection header (some []) = [] := fun header => rfl
  simp only [systemPrompt, systemPromptForContext, hprimary, hread, h₁, h₂, hlog, ite_self, List.append_nil,
    Bool.false_eq_true, List.isEmpty_nil, Bool.not_true, hpersonal]
  rfl

theorem join_ne_nil {sep : Str} : ∀ {parts : List Str} {p : Str}, p ∈ parts → p ≠ [] → join sep parts ≠ []
  | [q], p, hp, hne => by
    rw [List.mem_singleton.mp hp] at hne
    simpa [join] using hne
  | q :: q' :: parts, p, hp, hne => by
    have hcons : join sep (q :: q' :: parts) = q ++ sep ++ join sep (q' :: parts) := by
      simp [join, List.intercalate]
    rw [hcons]
    rcases List.mem_cons.mp hp with rfl | hp
    · simp [hne]
    · simp [join_ne_nil hp hne]

/-- A memory that can be read is part of the prompt. -/
theorem systemPrompt_of_memory (w : Workspace) (env : PromptEnv) {docs : Docs} {c : Char} {cs : Str}
    (h : w.read docs MEMORY = some (c :: cs)) : (w.systemPrompt env docs).1 ≠ [] := by
  have hsection : promptSection "## Long-Term Memory" (w.read docs MEMORY) =
      ["## Long-Term Memory".toList ++ "\n\n".toList ++ c :: cs] := by
    rw [h]
    rfl
  simp only [systemPrompt, systemPromptForContext, Bool.false_eq_true, if_false, hsection]
  refine join_ne_nil (p := "## Long-Term Memory".toList ++ "\n\n".toList ++ c :: cs) ?_ (by simp)
  simp only [List.mem_append, List.mem_singleton]
  exact .inl (.inl (.inr trivial))

/-- A provider that answers `A` to a conversation without a system prompt and `B` to any other. -/
def probe : LlmProvider where
  complete messages _ :=
    .ok ⟨if messages.head?.map ChatMessage.role = some .user then "A".toList else "B".toList, 0, 0, .stop⟩
  completeWithTools _ _ _ := .error []
  modelMetadata := .error []

/-- An engine with the probing provider and no tools. -/
def probeEnv : EngineEnv where
  config := { tenRoutines with lightweightToolsEnabled := false }
  llm := probe
  tools := ⟨[], fun _ => [], fun docs _ _ => (.error [], docs), fun _ output => output⟩
  scheduler := none
  dockerUnavailable := false
  prompt := ⟨"2026-03-02".toList, "2026-03-01".toList, fun _ => none, fun _ => false, [], []⟩
  conversation _ _ _ := none

theorem scoped_probeEnv (resolver : WorkspaceResolver) : Scoped resolver probeEnv :=
  ⟨fun _ h => ⟨rfl, h⟩, fun _ h => by cases h⟩

/-- The summary of a lightweight run with the probing provider shows whether the system prompt is empty. -/
theorem summary_probe (w : Workspace) (path : TriggerPath) {routine : Routine} (docs : Docs) {prompt : Str}
    {paths : List Str} {maxTokens rounds : Nat} {useTools : Bool}
    (ha : routine.action = .lightweight prompt paths maxTokens useTools rounds) :
    (executeRoutine probeEnv w path routine docs).1.summary =
      some (if (w.systemPrompt probeEnv.prompt docs).1.isEmpty then "A".toList else "B".toList) := by
  have htools : (useTools && probeEnv.config.lightweightToolsEnabled) = false := Bool.and_false _
  simp only [executeRoutine, ha, executeLightweight, htools, Bool.false_eq_true, if_false, executeLightweightNoTools,
    completeText, initialMessages, conclude]
  cases (w.systemPrompt probeEnv.prompt docs).1 <;> rfl

theorem sameDocs_of_other {u v : Str} (h : v ≠ u) (agentId : Option Nat) (path content : Str) :
    SameDocs u [] [⟨v, agentId, path, content⟩] := by
  intro a p
  simp [getDocumentByPath, h]

theorem read_memory {w : Workspace} {scope : Str} (h : scope ∈ w.readUserIds) :
    w.read [⟨scope, w.agentId, MEMORY, "x".toList⟩] MEMORY = some "x".toList :=
  read_only h (by decide) (by decide) _

theorem read_nil (w : Workspace) (path : Str) : w.read [] path = none := by
  have hmulti : getDocumentByPathMulti [] w.readUserIds w.agentId (normalizePath path) = none :=
    List.findSome?_eq_none_iff.mpr fun _ _ => rfl
  simp only [Workspace.read, hmulti]
  split
  · rfl
  · split <;> rfl

/-- A workspace that does not read the user's documents only reads those of another. -/
theorem exists_other {w : Workspace} {userId : Str} (h : w.readUserIds ≠ [userId]) :
    ∃ scope ∈ w.readUserIds, scope ≠ userId := by
  by_contra hnone
  refine h ((w.readUserIds_eq_iff userId).mpr fun scope hscope => ?_)
  by_contra hne
  exact hnone ⟨scope, hscope, hne⟩

/-! ## Tools and jobs that show the memory -/

/-- The memory that a tool or a job of the user sees. -/
def memoryOf (resolver : WorkspaceResolver) (docs : Docs) (userId : Str) : Option Str :=
  (resolver.workspaceOf userId).read docs MEMORY

/-- Opening a document leaves the other paths alone. -/
theorem get_dailyLog (w : Workspace) (docs : Docs) (date : Str) {path : Str}
    (h : "daily/".toList ++ date ++ ".md".toList ≠ path) (userId : Str) (agentId : Option Nat) :
    getDocumentByPath (w.dailyLog docs date).2 userId agentId path = getDocumentByPath docs userId agentId path := by
  unfold Workspace.dailyLog Workspace.readOrCreate
  split
  · rfl
  · unfold getOrCreateDocumentByPath
    split
    · rfl
    · have hnew : ∀ p user agent, p ≠ path → getDocumentByPath [⟨user, agent, p, []⟩] userId agentId path = none := by
        intro p user agent hp
        simp [getDocumentByPath, hp]
      rw [getDocumentByPath_append, hnew _ _ _ h, Option.or_none]

/-- The memory is the same after the prompt of `probeEnv` was built. -/
theorem memoryOf_systemPrompt (resolver : WorkspaceResolver) (w : Workspace) (docs : Docs) (userId : Str) :
    memoryOf resolver (w.systemPrompt probeEnv.prompt docs).2 userId = memoryOf resolver docs userId := by
  refine Workspace.read_congr fun scope _ => ?_
  have htoday : "daily/".toList ++ probeEnv.prompt.today ++ ".md".toList ≠ normalizePath MEMORY := by decide
  have hyesterday : "daily/".toList ++ probeEnv.prompt.yesterday ++ ".md".toList ≠ normalizePath MEMORY := by decide
  exact (get_dailyLog _ _ _ hyesterday scope _).trans (get_dailyLog _ _ _ htoday scope _)

/-- A scheduler whose job ends well when it sees a memory. -/
def jobEnv (resolver : WorkspaceResolver) : EngineEnv :=
  { probeEnv with
    scheduler := some ⟨fun _ => .ok [], fun _ => .ok (), fun docs job => (memoryOf resolver docs job.userId).isSome⟩ }

/-- A call of the memory tool. -/
def readMemory : ToolCall := ⟨"1".toList, "memory_read".toList, .null, none⟩

/-- A message of a tool that says "x". -/
def saysX (m : ChatMessage) : Bool := m.role = .tool && m.content = "x".toList

/-- A provider that has the memory read and answers `B` when a tool says "x". -/
def asker : LlmProvider where
  complete messages _ :=
    .ok ⟨if messages.any saysX then "B".toList else "A".toList, 0, 0, .stop⟩
  completeWithTools _ _ _ := .ok ⟨none, [readMemory], 0, 0, .toolUse⟩
  modelMetadata := .error []

/-- An engine with this provider, a tool that reads the memory, and one iteration for tools. -/
def toolEnv (resolver : WorkspaceResolver) : EngineEnv :=
  { probeEnv with
    config := { tenRoutines with lightweightMaxIterations := 2 }
    llm := asker
    tools := ⟨[], fun _ => ["memory_read".toList],
      fun docs job _ => ((memoryOf resolver docs job.userId).elim (.error []) .ok, docs), fun _ output => output⟩ }

theorem memoryOf_agree {resolver : WorkspaceResolver} {docs docs' : Docs} {userId : Str}
    (h : (resolver.workspaceOf userId).Agree docs docs') :
    memoryOf resolver docs userId = memoryOf resolver docs' userId := Workspace.read_agree h MEMORY

theorem scoped_jobEnv (resolver : WorkspaceResolver) : Scoped resolver (jobEnv resolver) := by
  refine ⟨fun _ h => ⟨rfl, h⟩, fun scheduler hs docs docs' job h => ?_⟩
  obtain rfl := Option.some.inj hs
  exact congrArg Option.isSome (memoryOf_agree h)

theorem scoped_toolEnv (resolver : WorkspaceResolver) : Scoped resolver (toolEnv resolver) := by
  refine ⟨fun _ h => ⟨?_, h⟩, fun _ hs => by cases hs⟩
  exact congrArg (fun o : Option Str => o.elim (Except.error []) Except.ok) (memoryOf_agree h)

theorem status_jobEnv (resolver : WorkspaceResolver) (w : Workspace) (path : TriggerPath) {routine : Routine}
    (docs : Docs) {title description : Str} {maxIterations : Nat}
    (ha : routine.action = .fullJob title description maxIterations) :
    (executeRoutine (jobEnv resolver) w path routine docs).1.status =
      if (memoryOf resolver docs routine.userId).isSome then .ok else .failed := by
  have hsucceeds : (executeRoutine (jobEnv resolver) w path routine docs).1.status =
      (if (memoryOf resolver docs routine.userId).isSome then (RunStatus.ok, "ok")
        else (RunStatus.failed, "failed")).1 := by
    simp only [executeRoutine, ha]
    rfl
  rw [hsucceeds]
  split <;> rfl

/-- The provider's answer after the memory was read. -/
def answerTo (memory : Option Str) : Str :=
  if toolResultContent probeEnv readMemory (memory.elim (.error []) .ok) = "x".toList then "B".toList else "A".toList

/-- The provider sees the result of its call, and no other message of a tool. -/
theorem toolLoop_toolEnv (resolver : WorkspaceResolver) (job : JobContext) (maxTokens : Nat)
    {messages : List ChatMessage} (h : ∀ m ∈ messages, m.role ≠ .tool) (docs : Docs) :
    (toolLoop (toolEnv resolver) job ["memory_read".toList] maxTokens 1 messages 0 0 docs).1 =
      handleTextResponse (answerTo (memoryOf resolver docs job.userId)) .stop 0 0 := by
  have hbefore : messages.any saysX = false := by
    rw [List.any_eq_false]
    intro m hm
    simp [saysX, h m hm]
  have hasked : saysX (.assistantWithToolCalls none [readMemory]) = false := rfl
  have hends : ∀ ms : List ChatMessage, (ensureEndsWithUserMessage ms).any saysX = ms.any saysX := by
    intro ms
    unfold ensureEndsWithUserMessage
    split
    · rfl
    · simp [List.any_append, saysX, ChatMessage.user]
  have hloop : (toolLoop (toolEnv resolver) job ["memory_read".toList] maxTokens 1 messages 0 0 docs).1 =
      handleTextResponse (if (ensureEndsWithUserMessage (messages ++ [.assistantWithToolCalls none [readMemory]] ++
        [.toolResult "1".toList "memory_read".toList (toolResultContent probeEnv readMemory
          ((memoryOf resolver docs job.userId).elim (.error []) .ok))])).any saysX
        then "B".toList else "A".toList) .stop 0 0 := rfl
  rw [hloop, hends]
  simp only [List.any_append, hbefore, List.any_cons, hasked, List.any_nil, Bool.or_false, Bool.false_or]
  simp only [saysX, ChatMessage.toolResult, decide_true, Bool.true_and]
  exact congrArg (fun content => handleTextResponse content .stop 0 0) (if_congr decide_eq_true_iff rfl rfl)

theorem summary_toolEnv (resolver : WorkspaceResolver) (w : Workspace) (path : TriggerPath) {routine : Routine}
    (docs : Docs) {prompt : Str} {paths : List Str} {maxTokens rounds : Nat} (hrounds : 2 ≤ rounds)
    (ha : routine.action = .lightweight prompt paths maxTokens true rounds) :
    (executeRoutine (toolEnv resolver) w path routine docs).1.summary =
      some (answerTo (memoryOf resolver docs routine.userId)) := by
  have hone : min (min rounds (toolEnv resolver).config.lightweightMaxIterations) 5 - 1 = 1 := by
    show min (min rounds 2) 5 - 1 = 1
    omega
  have huse : (true && (toolEnv resolver).config.lightweightToolsEnabled) = true := rfl
  have hroles : ∀ systemPrompt fullPrompt, ∀ m ∈ initialMessages systemPrompt fullPrompt, m.role ≠ .tool := by
    intro systemPrompt fullPrompt m hm
    unfold initialMessages at hm
    split at hm <;> simp only [List.mem_cons, List.not_mem_nil, or_false] at hm
    · rw [hm]
      exact (by decide : Role.user ≠ Role.tool)
    · rcases hm with rfl | rfl
      · exact (by decide : Role.system ≠ Role.tool)
      · exact (by decide : Role.user ≠ Role.tool)
  have hanswer : ∀ memory, handleTextResponse (answerTo memory) .stop 0 0 =
      .ok (.attention, some (answerTo memory), some 0) := by
    intro memory
    unfold answerTo
    split <;> rfl
  simp only [executeRoutine, ha, executeLightweight, huse, if_true, executeLightweightWithTools, hone]
  rw [show (toolEnv resolver).tools.autonomousAllowedToolNames routine.userId = ["memory_read".toList] from rfl,
    toolLoop_toolEnv resolver _ _ (hroles _ _), hanswer]
  exact congrArg (fun memory => some (answerTo memory)) (memoryOf_systemPrompt resolver w docs routine.userId)

/-! ## What isolation needs -/

section Needs

variable {engine : Workspace} {resolver : WorkspaceResolver} {path : TriggerPath} {routine : Routine}

/-- Two tables that are the same for the user, one of them with the memory of another. -/
theorem exists_memory (hown : ¬resolver.OwnOnly routine.userId) :
    ∃ docs, SameDocs routine.userId [] docs ∧ memoryOf resolver [] routine.userId = none ∧
      memoryOf resolver docs routine.userId = some "x".toList := by
  rw [resolver.ownOnly_iff] at hown
  obtain ⟨scope, hscope, hne⟩ := exists_other hown
  exact ⟨_, sameDocs_of_other hne _ _ _, read_nil _ _, read_memory hscope⟩

theorem ownOnly_of_job (hiso : Isolated engine resolver path routine) {title description : Str} {maxIterations : Nat}
    (ha : routine.action = .fullJob title description maxIterations) : resolver.OwnOnly routine.userId := by
  by_contra hown
  obtain ⟨docs, hdocs, hnone, hsome⟩ := exists_memory hown
  have h := congrArg Execution.status (hiso.independent _ (scoped_jobEnv resolver) hdocs)
  simp only [fire] at h
  rw [status_jobEnv resolver _ path _ ha, status_jobEnv resolver _ path _ ha, hnone, hsome] at h
  cases h

theorem ownOnly_of_tools (hiso : Isolated engine resolver path routine) {prompt : Str} {paths : List Str}
    {maxTokens rounds : Nat} (ha : routine.action = .lightweight prompt paths maxTokens true rounds)
    (hrounds : 2 ≤ rounds) : resolver.OwnOnly routine.userId := by
  by_contra hown
  obtain ⟨docs, hdocs, hnone, hsome⟩ := exists_memory hown
  have h := congrArg Execution.summary (hiso.independent _ (scoped_toolEnv resolver) hdocs)
  simp only [fire] at h
  rw [summary_toolEnv resolver _ path _ hrounds ha, summary_toolEnv resolver _ path _ hrounds ha, hnone, hsome] at h
  exact absurd (Option.some.inj h) (by decide)

theorem oneScope_of_isolated (hiso : Isolated engine resolver path routine) {prompt : Str} {paths : List Str}
    {maxTokens rounds : Nat} {useTools : Bool}
    (ha : routine.action = .lightweight prompt paths maxTokens useTools rounds) (hu : routine.userId = engine.userId) :
    engine.readUserIds = [engine.userId] := by
  by_contra hscopes
  obtain ⟨scope, hscope, hne⟩ := exists_other hscopes
  have hctx : contextWorkspace engine path routine = engine := by
    cases path <;> simp [contextWorkspace, routineWorkspace, fireWebhookWorkspace, hu]
  have hdocs : SameDocs routine.userId [] [⟨scope, engine.agentId, MEMORY, "x".toList⟩] :=
    hu ▸ sameDocs_of_other hne _ _ _
  have h := congrArg Execution.summary (hiso.independent probeEnv (scoped_probeEnv resolver) hdocs)
  simp only [fire, hctx] at h
  rw [summary_probe engine path [] ha, summary_probe engine path _ ha,
    systemPrompt_of_empty engine probeEnv.prompt (fun d hd => by cases hd)] at h
  refine systemPrompt_of_memory engine probeEnv.prompt (read_memory hscope) ?_
  simpa using h

theorem ownUser_of_webhook (hiso : Isolated engine resolver .webhook routine) {prompt : Str} {paths : List Str}
    {maxTokens rounds : Nat} {useTools : Bool}
    (ha : routine.action = .lightweight prompt paths maxTokens useTools rounds) : routine.userId = engine.userId :=
  (hiso.workspace probeEnv [] engine
    (by simp [fire, executeRoutine, ha, conclude, contextWorkspace, fireWebhookWorkspace])).symm

end Needs

/-! ## When a fire is isolated -/

/-- The workspace the path gives is the one of the routine's user, and it reads nothing else. -/
theorem contextWorkspace_of_condition {engine : Workspace} {path : TriggerPath} {routine : Routine}
    (hpath : path = .webhook → routine.userId = engine.userId)
    (hscope : routine.userId = engine.userId → engine.readUserIds = [engine.userId]) :
    (contextWorkspace engine path routine).userId = routine.userId ∧
      (contextWorkspace engine path routine).readUserIds = [(contextWorkspace engine path routine).userId] := by
  have hroutine : (routineWorkspace engine routine).userId = routine.userId ∧
      (routineWorkspace engine routine).readUserIds = [(routineWorkspace engine routine).userId] := by
    unfold routineWorkspace
    split
    next hu => exact ⟨hu.symm, hscope hu⟩
    · exact ⟨rfl, rfl⟩
  cases path with
  | webhook => exact ⟨(hpath rfl).symm, hscope (hpath rfl)⟩
  | _ => exact hroutine

/-- **Isolation.** A fire uses nothing of another user exactly when the workspace of its path is the user's (a webhook
gives the engine's) and reads no further scope, and the same holds of the workspace that the resolver gives its tools,
where it has a round for them, or its job. -/
theorem isolated_iff (engine : Workspace) (resolver : WorkspaceResolver) (path : TriggerPath) (routine : Routine) :
    Isolated engine resolver path routine ↔ Confined engine resolver path routine := by
  unfold Confined
  cases ha : routine.action with
  | fullJob title description maxIterations =>
    refine ⟨fun hiso => ownOnly_of_job hiso ha, fun hown => ?_⟩
    refine ⟨fun env docs w hw => ?_, fun env docs => job_owner _ _ _ _ _, fun env docs => notification_owner _ _ _ _ _,
      fun env henv docs docs' h => ?_⟩
    · simp [fire, executeRoutine, ha, conclude] at hw
    · have hjob : executeFullJob env (fullJob routine title description maxIterations) docs =
          executeFullJob env (fullJob routine title description maxIterations) docs' := executeFullJob_same henv h hown
      simp only [fire, executeRoutine, ha, hjob]
  | lightweight prompt paths maxTokens useTools rounds =>
    constructor
    · intro hiso
      refine ⟨?_, oneScope_of_isolated hiso ha, ?_⟩
      · rintro rfl
        exact ownUser_of_webhook hiso ha
      · rintro rfl hrounds
        exact ownOnly_of_tools hiso ha hrounds
    · rintro ⟨hpath, hscope, htools⟩
      obtain ⟨hu, hone⟩ := contextWorkspace_of_condition hpath hscope
      refine ⟨fun env docs w hw => ?_, fun env docs => job_owner _ _ _ _ _,
        fun env docs => notification_owner _ _ _ _ _, fun env henv docs docs' h => ?_⟩
      · have hw' : contextWorkspace engine path routine = w := by simpa [fire, executeRoutine, ha, conclude] using hw
        rw [← hw']
        exact hu
      · simp only [fire, executeRoutine, ha]
        rw [executeLightweight_same henv hone hu h htools]

/-! ## A webhook on another user's memory -/

/-- Bob's routine on an engine of Alice's. -/
def bobsRoutine : Routine := { freshRoutine 1 (.webhook none none) 0 1 with userId := "bob".toList }

/-- Alice's memory, with a note or without. -/
def alicesMemory (note : String) : Docs := [⟨"alice".toList, none, MEMORY, note.toList⟩]

/-- Workspaces for each user, with the layers that Alice's configuration has by default: her private one. -/
def alicesPool : WorkspaceResolver :=
  .workspacePool ⟨[], [⟨"private".toList, "alice".toList, true, .priv⟩], ∅⟩

/-- Bob's routine with a round for tools. -/
def bobsToolRoutine : Routine := { bobsRoutine with action := .lightweight "Check my notes".toList [] 4096 true 3 }

theorem sameDocs_alicesMemory : SameDocs bobsRoutine.userId (alicesMemory "") (alicesMemory "secret") := by
  intro a p
  simp [getDocumentByPath, alicesMemory, bobsRoutine]

/-- The tables hold the same documents for Bob, yet his routine runs on Alice's workspace and its result changes with
her memory. A routine with tools is not isolated on any path, since his tools read her private layer. -/
theorem webhook_reads_engine_user :
    ((fire probeEnv (.newWithDb "alice".toList) .webhook bobsRoutine (alicesMemory "")).1.workspace.map
        Workspace.userId) = some "alice".toList ∧
      (fire probeEnv (.newWithDb "alice".toList) .webhook bobsRoutine (alicesMemory "")).1.summary = some "A".toList ∧
      (fire probeEnv (.newWithDb "alice".toList) .webhook bobsRoutine (alicesMemory "secret")).1.summary =
        some "B".toList ∧
      ¬Isolated (.newWithDb "alice".toList) alicesPool .webhook bobsRoutine ∧
      ∀ path, ¬Isolated (.newWithDb "alice".toList) alicesPool path bobsToolRoutine := by
  refine ⟨by decide, by decide, by decide, fun h => ?_, fun path h => ?_⟩
  · have hsame := h.independent probeEnv (scoped_probeEnv alicesPool) sameDocs_alicesMemory
    exact absurd (congrArg Execution.summary hsame) (by decide)
  · have hown : ∀ scope ∈ ["alice".toList], scope = "bob".toList := ownOnly_of_tools h rfl (by decide)
    exact absurd (hown _ (List.mem_singleton_self _)) (by decide)

end Ironclaw.Routines

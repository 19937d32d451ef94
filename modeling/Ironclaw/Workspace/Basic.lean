import Ironclaw.Lib.Text

/-!
# Workspaces

A workspace is a view of one table of documents: a user, the users whose documents it also reads, and an agent. Reads
of identity files stay with the user; other reads go through the read scopes in order.

- `Workspace` carries that its user is the first read scope and that no scope is listed twice;
- `systemPromptForContext` builds the system prompt and may create the two daily logs;
- `SameDocs` relates tables that hold the same documents for a user; the lemmas say what reads do on such tables when
  the workspace has no other scope.
-/

namespace Ironclaw

open Text

/-! ## The document table -/

structure MemoryDocument where
  userId : Str
  agentId : Option Nat
  path : Str
  content : Str
  deriving DecidableEq

/-- The table `memory_documents`. -/
abbrev Docs := List MemoryDocument

namespace Workspace

/-- `get_document_by_path`: the content, or `none` for a document that is not there. -/
def getDocumentByPath (docs : Docs) (userId : Str) (agentId : Option Nat) (path : Str) : Option Str :=
  (docs.find? fun d => d.userId == userId && d.agentId == agentId && d.path == path).map MemoryDocument.content

/-- `get_document_by_path_multi`: the first user with the document. -/
def getDocumentByPathMulti (docs : Docs) (userIds : List Str) (agentId : Option Nat) (path : Str) : Option Str :=
  userIds.findSome? fun uid => getDocumentByPath docs uid agentId path

/-- `get_or_create_document_by_path`: a new document is empty. -/
def getOrCreateDocumentByPath (docs : Docs) (userId : Str) (agentId : Option Nat) (path : Str) : Str × Docs :=
  match getDocumentByPath docs userId agentId path with
  | some content => (content, docs)
  | none => ([], docs ++ [⟨userId, agentId, path, []⟩])

/-! ## Paths -/

/-- Collapses runs of slashes; `last` says that the previous character was one. -/
def collapseSlashes : (last : Bool) → Str → Str
  | _, [] => []
  | last, c :: cs =>
    if c = '/' then (if last then collapseSlashes true cs else c :: collapseSlashes true cs)
    else c :: collapseSlashes false cs

def normalizePath (path : Str) : Str := collapseSlashes false (trimChar '/' (trim path))

def MEMORY : Str := "MEMORY.md".toList
def IDENTITY : Str := "IDENTITY.md".toList
def SOUL : Str := "SOUL.md".toList
def AGENTS : Str := "AGENTS.md".toList
def USER : Str := "USER.md".toList
def TOOLS : Str := "TOOLS.md".toList
def BOOTSTRAP : Str := "BOOTSTRAP.md".toList
def PROFILE : Str := "context/profile.json".toList
def ASSISTANT_DIRECTIVES : Str := "context/assistant-directives.md".toList

def IDENTITY_PATHS : List Str := [IDENTITY, SOUL, AGENTS, USER, TOOLS, BOOTSTRAP]

def isIdentityPath (path : Str) : Bool := IDENTITY_PATHS.contains path

end Workspace

/-! ## Workspaces -/

structure Workspace where
  userId : Str
  readUserIds : List Str
  agentId : Option Nat
  bootstrapCompleted : Bool
  /-- The user is the first read scope. -/
  head : readUserIds.head? = some userId
  nodup : readUserIds.Nodup

namespace Workspace

/-- `Workspace::new_with_db`. -/
def newWithDb (userId : Str) : Workspace :=
  ⟨userId, [userId], none, false, rfl, List.nodup_singleton userId⟩

theorem head_append (w : Workspace) (scope : Str) : (w.readUserIds ++ [scope]).head? = some w.userId := by
  rw [List.head?_append_of_ne_nil, w.head]
  intro hnil
  have hhead := w.head
  rw [hnil] at hhead
  cases hhead

theorem nodup_append (w : Workspace) {scope : Str} (h : ¬w.readUserIds.contains scope = true) :
    (w.readUserIds ++ [scope]).Nodup := by
  refine List.nodup_append'.mpr ⟨w.nodup, List.nodup_singleton scope, ?_⟩
  rw [List.disjoint_singleton]
  intro hm
  exact h (List.contains_iff_mem.mpr hm)

/-- One more read scope, unless it is there already. -/
def addReadScope (w : Workspace) (scope : Str) : Workspace :=
  if h : w.readUserIds.contains scope = true then w
  else
    { w with
      readUserIds := w.readUserIds ++ [scope]
      head := w.head_append scope
      nodup := w.nodup_append h }

def withAdditionalReadScopes (w : Workspace) (scopes : List Str) : Workspace := scopes.foldl addReadScope w

def isMultiScope (w : Workspace) : Bool := decide (1 < w.readUserIds.length)

def read (w : Workspace) (docs : Docs) (path : Str) : Option Str :=
  let path := normalizePath path
  if w.isMultiScope && isIdentityPath path then getDocumentByPath docs w.userId w.agentId path
  else if w.isMultiScope then getDocumentByPathMulti docs w.readUserIds w.agentId path
  else getDocumentByPath docs w.userId w.agentId path

def readPrimary (w : Workspace) (docs : Docs) (path : Str) : Option Str :=
  getDocumentByPath docs w.userId w.agentId (normalizePath path)

def readOrCreate (w : Workspace) (docs : Docs) (path : Str) : Str × Docs :=
  match (if w.isMultiScope then getDocumentByPathMulti docs w.readUserIds w.agentId path else none) with
  | some content => (content, docs)
  | none => getOrCreateDocumentByPath docs w.userId w.agentId path

/-- `daily_log`, for a date in the form `2026-01-31`. -/
def dailyLog (w : Workspace) (docs : Docs) (date : Str) : Str × Docs :=
  w.readOrCreate docs ("daily/".toList ++ date ++ ".md".toList)

end Workspace

/-! ## The system prompt -/

/-- The part of a psychographic profile that the prompt uses; `confident` says that the confidence is above 0.6. -/
structure PsychographicProfile where
  preferredName : Str
  profession : Option Str
  cohort : Str
  tone : Str
  formality : Str
  detailLevel : Str
  pace : Str
  responseSpeed : Str
  decisionMaking : Str
  feedbackStyle : Str
  proactivityStyle : Str
  proactivity : Str
  notificationPreferences : Str
  goals : List Str
  painPoints : List Str
  confident : Bool
  updatedAt : Str

def PsychographicProfile.isPopulated (p : PsychographicProfile) : Bool :=
  !p.preferredName.isEmpty || p.profession.isSome || !p.goals.isEmpty

/-- What the prompt takes from elsewhere: the dates of today and yesterday, the reader of a profile document, whether
a time stamp is within the last seven days, and two fixed texts. -/
structure PromptEnv where
  today : Str
  yesterday : Str
  parseProfile : Str → Option PsychographicProfile
  isProfileRecent : Str → Bool
  analysisFramework : Str
  profileJsonSchema : Str

namespace Workspace

/-- A section of the prompt; a document that is missing or empty gives none. -/
def promptSection (header : String) : Option Str → List Str
  | none => []
  | some content => if content.isEmpty then [] else [header.toList ++ "\n\n".toList ++ content]

/-- The first tier of the profile, one line. -/
def profileSummary (p : PsychographicProfile) : Str :=
  "## Interaction Style\n\n".toList ++ p.cohort ++ " | ".toList ++ p.tone ++ " tone | ".toList ++ p.detailLevel ++
    " detail | ".toList ++ p.proactivity ++ " proactivity".toList

/-- A phrase that is left out for the default value. -/
def unlessDefault (defaults : List String) (value : Str) (text : Str) : Str :=
  if defaults.any (fun d => d.toList == value) then [] else text

/-- The second tier of the profile. -/
def profileDetails (p : PsychographicProfile) : Str :=
  "## Personalization\n\nCommunication: ".toList ++ p.tone ++ " tone, ".toList ++ p.formality ++
    " formality, ".toList ++ p.detailLevel ++ " detail, ".toList ++ p.pace ++ " pace".toList ++
    unlessDefault ["unknown"] p.responseSpeed (", ".toList ++ p.responseSpeed ++ " response speed".toList) ++
    unlessDefault ["unknown"] p.decisionMaking (", ".toList ++ p.decisionMaking ++ " decision-making".toList) ++
    ".".toList ++
    unlessDefault ["direct"] p.feedbackStyle ("\nFeedback style: ".toList ++ p.feedbackStyle ++ ".".toList) ++
    unlessDefault ["reactive"] p.proactivityStyle
      ("\nProactivity style: ".toList ++ p.proactivityStyle ++ ".".toList) ++
    unlessDefault ["moderate", "unknown"] p.notificationPreferences
      ("\nNotification preference: ".toList ++ p.notificationPreferences ++ ".".toList) ++
    (if p.goals.isEmpty then [] else "\nActive goals: ".toList ++ join ", ".toList p.goals ++ ".".toList) ++
    (if p.painPoints.isEmpty then []
      else "\nKnown pain points: ".toList ++ join ", ".toList p.painPoints ++ ".".toList)

def profileParts (env : PromptEnv) (p : PsychographicProfile) : List Str :=
  if p.isPopulated then
    profileSummary p :: (if p.confident && env.isProfileRecent p.updatedAt then [profileDetails p] else [])
  else []

/-- The profile of a document that is there, not empty and readable. -/
def loadProfile (env : PromptEnv) : Option Str → Option PsychographicProfile
  | none => none
  | some content => if content.isEmpty then none else env.parseProfile content

def onboardingPart (env : PromptEnv) : Str :=
  "PROFILE ANALYSIS FRAMEWORK:\n".toList ++ env.analysisFramework ++
    ("\n\nPROFILE JSON SCHEMA:\nWrite to `context/profile.json` using `memory_write` with this exact " ++
      "structure:\n").toList ++
    env.profileJsonSchema ++
    ("\n\nIf the conversation doesn't reveal enough about a dimension, use defaults/unknown.\n" ++
      "For personality trait scores: 40-60 is average range. Default to 50 if unclear.\n" ++
      "Only score above 70 or below 30 with strong evidence.").toList

def todayHeader (env : PromptEnv) (date : Str) : String :=
  if date = env.today then "## Today's Notes" else "## Yesterday's Notes"

/-- The parts that group chats do not get: profile, onboarding and directives. -/
def personalParts (w : Workspace) (env : PromptEnv) (docs : Docs) (bootstrapInjected : Bool) : List Str :=
  let profile := loadProfile env (w.read docs PROFILE)
  (match profile with
    | none => []
    | some p => profileParts env p) ++
  (if bootstrapInjected && profile.isNone then [onboardingPart env] else []) ++
  (match w.read docs ASSISTANT_DIRECTIVES with
    | none => []
    | some content => if content.isEmpty then [] else [content])

/-- `system_prompt_for_context_inner`: the prompt, and the table after the daily logs were opened. -/
def systemPromptForContext (w : Workspace) (env : PromptEnv) (docs : Docs) (isGroupChat : Bool) : Str × Docs :=
  let bootstrap :=
    if w.bootstrapCompleted then [] else promptSection "## First-Run Bootstrap" (w.readPrimary docs BOOTSTRAP)
  let identity :=
    promptSection "## Agent Instructions" (w.readPrimary docs AGENTS) ++
    promptSection "## Core Values" (w.readPrimary docs SOUL) ++
    promptSection "## User Context" (w.readPrimary docs USER) ++
    promptSection "## Identity" (w.readPrimary docs IDENTITY)
  let tools := promptSection "## Tool Notes" (w.readPrimary docs TOOLS)
  let memory := if isGroupChat then [] else promptSection "## Long-Term Memory" (w.read docs MEMORY)
  let (log, docs) := w.dailyLog docs env.today
  let (log', docs) := w.dailyLog docs env.yesterday
  let notes :=
    promptSection (todayHeader env env.today) (some log) ++ promptSection (todayHeader env env.yesterday) (some log')
  let personal := if isGroupChat then [] else w.personalParts env docs (!bootstrap.isEmpty)
  (join "\n\n---\n\n".toList (bootstrap ++ identity ++ tools ++ memory ++ notes ++ personal), docs)

def systemPrompt (w : Workspace) (env : PromptEnv) (docs : Docs) : Str × Docs := w.systemPromptForContext env docs false

/-! ## Tables that agree for a user -/

/-- The tables hold the same documents for the user. -/
def SameDocs (u : Str) (docs docs' : Docs) : Prop :=
  ∀ agentId path, getDocumentByPath docs u agentId path = getDocumentByPath docs' u agentId path

theorem getDocumentByPath_append (docs docs' : Docs) (u : Str) (agentId : Option Nat) (path : Str) :
    getDocumentByPath (docs ++ docs') u agentId path =
      (getDocumentByPath docs u agentId path).or (getDocumentByPath docs' u agentId path) := by
  simp only [getDocumentByPath, List.find?_append]
  cases docs.find? _ <;> rfl

/-- Opening a document gives the same content and keeps the agreement. -/
theorem getOrCreate_same {u : Str} {docs docs' : Docs} (h : SameDocs u docs docs') (agentId : Option Nat)
    (path : Str) :
    (getOrCreateDocumentByPath docs u agentId path).1 = (getOrCreateDocumentByPath docs' u agentId path).1 ∧
      SameDocs u (getOrCreateDocumentByPath docs u agentId path).2
        (getOrCreateDocumentByPath docs' u agentId path).2 := by
  unfold getOrCreateDocumentByPath
  rw [← h agentId path]
  cases getDocumentByPath docs u agentId path with
  | some content => exact ⟨rfl, h⟩
  | none =>
    refine ⟨rfl, fun a p => ?_⟩
    rw [getDocumentByPath_append, getDocumentByPath_append, h a p]

section OneScope

variable {w : Workspace} {docs docs' : Docs} (hw : w.readUserIds = [w.userId]) (h : SameDocs w.userId docs docs')

include hw

theorem isMultiScope_of_one : w.isMultiScope = false := by
  simp [isMultiScope, hw]

include h

theorem read_same (path : Str) : w.read docs path = w.read docs' path := by
  simp only [read, isMultiScope_of_one hw, Bool.false_and, Bool.false_eq_true, if_false]
  exact h _ _

theorem dailyLog_same (date : Str) : (w.dailyLog docs date).1 = (w.dailyLog docs' date).1 ∧
    SameDocs w.userId (w.dailyLog docs date).2 (w.dailyLog docs' date).2 := by
  simp only [dailyLog, readOrCreate, isMultiScope_of_one hw, Bool.false_eq_true, if_false]
  exact getOrCreate_same h _ _

/-- The system prompt of a workspace with one scope depends on the documents of its user only. -/
theorem systemPrompt_same (env : PromptEnv) : (w.systemPrompt env docs).1 = (w.systemPrompt env docs').1 ∧
    SameDocs w.userId (w.systemPrompt env docs).2 (w.systemPrompt env docs').2 := by
  obtain ⟨h₁, hd₁⟩ := dailyLog_same hw h env.today
  obtain ⟨h₂, hd₂⟩ := dailyLog_same hw hd₁ env.yesterday
  have hprimary : ∀ path, w.readPrimary docs path = w.readPrimary docs' path := fun path => h _ _
  refine ⟨?_, hd₂⟩
  simp only [systemPrompt, systemPromptForContext, personalParts, hprimary, read_same hw h, read_same hw hd₂, h₁, h₂]

end OneScope

end Workspace

end Ironclaw

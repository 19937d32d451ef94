import Ironclaw.Workspace.Injection
import Ironclaw.Workspace.Profile

/-!
# The prompt of a group chat

The system prompt of a group chat leaves out the memory, the profile and the assistant directives. Two runs of writes
that differ in the contents of these documents, each followed by syncs of the profile, are compared.

- `getDocumentByPath_writeStep`: what a write changes;
- `sameBut_run`: the tables after both runs agree outside the private documents;
- `group_prompt_iff`: the prompts are the same exactly when the syncs make the same text of USER.md.
-/

namespace Ironclaw

open Text Run
open Workspace (normalizePath getDocumentByPath getOrCreateDocumentByPath appendTo stored promptSection USER
  MEMORY PROFILE ASSISTANT_DIRECTIVES)

/-- The documents that a group chat must not see. -/
def PRIVATE_PATHS : List Str := [MEMORY, PROFILE, ASSISTANT_DIRECTIVES]

/-- The tables hold the same documents under all other paths. -/
def SameBut (paths : List Str) (docs docs' : Docs) : Prop :=
  ∀ u a p, p ∉ paths → getDocumentByPath docs u a p = getDocumentByPath docs' u a p

/-! ## What a write changes -/

namespace WriteOp

variable (isWord : Char → Bool) (w : LayeredWorkspace) (fault : StorageFault)

/-- The scope and the path of the document that an operation changes. -/
def target : WriteOp → Option (Str × Str)
  | .write path _ => some (w.userId, normalizePath path)
  | .append path _ => some (w.userId, normalizePath path)
  | .appendMemory _ => some (w.userId, MEMORY)
  | .writeToLayer layerName path content force =>
    (w.resolveLayerTarget layerName content force).toOption.map fun t => (t.1, normalizePath path)
  | .appendToLayer layerName path content force =>
    (w.resolveLayerTarget layerName content force).toOption.map fun t => (t.1, normalizePath path)
  | .delete path => some (w.userId, normalizePath path)

/-- What an operation makes of the document. -/
def effect (old : Option Str) : WriteOp → Option Str
  | .write path content => LayeredWorkspace.written isWord fault (normalizePath path) content old
  | .append path content =>
    match LayeredWorkspace.scan isWord (normalizePath path) content with
    | .error _ => old
    | .ok () => stored fault old fun old =>
      (LayeredWorkspace.scan isWord (normalizePath path) (appendTo "\n".toList old content)).map fun _ =>
        appendTo "\n".toList old content
  | .appendMemory entry => stored fault old fun old => .ok (appendTo "\n\n".toList old entry)
  | .writeToLayer _ _ content _ => stored fault old fun _ => .ok content
  | .appendToLayer _ _ content _ => stored fault old fun old => .ok (appendTo "\n\n".toList old content)
  | .delete _ => if fault.isSome then old else none

/-- The operations are the same, up to what they write into a private document. -/
def AgreeOutside : WriteOp → WriteOp → Prop
  | .write path content, .write path' content' =>
    path = path' ∧ (normalizePath path ∉ PRIVATE_PATHS → content = content')
  | .append path content, .append path' content' =>
    path = path' ∧ (normalizePath path ∉ PRIVATE_PATHS → content = content')
  | .appendMemory _, .appendMemory _ => True
  | .writeToLayer layerName path content force, .writeToLayer layerName' path' content' force' =>
    layerName = layerName' ∧ path = path' ∧ force = force' ∧ (normalizePath path ∉ PRIVATE_PATHS → content = content')
  | .appendToLayer layerName path content force, .appendToLayer layerName' path' content' force' =>
    layerName = layerName' ∧ path = path' ∧ force = force' ∧ (normalizePath path ∉ PRIVATE_PATHS → content = content')
  | .delete path, .delete path' => path = path'
  | _, _ => False

end WriteOp

section Writes

variable {isWord : Char → Bool} {w : LayeredWorkspace} {docs docs' : Docs}

theorem getDocumentByPath_delete (fault : StorageFault) (path u : Str) (a : Option Nat) (p : Str) :
    getDocumentByPath (w.delete fault docs path).1 u a p =
      if u = w.userId ∧ a = w.agentId ∧ p = normalizePath path then
        (if fault.isSome then getDocumentByPath docs u a p else none) else getDocumentByPath docs u a p := by
  unfold LayeredWorkspace.delete
  cases fault with
  | some f => simp
  | none =>
    simp only [Option.isSome_none, Bool.false_eq_true, if_false]
    cases h : getDocumentByPath docs w.userId w.agentId (normalizePath path) with
    | none =>
      show getDocumentByPath docs u a p = _
      split
      next hkey =>
        obtain ⟨rfl, rfl, rfl⟩ := hkey
        exact h
      · rfl
    | some content =>
      simp only [getDocumentByPath, List.find?_filter]
      split
      next hkey =>
        obtain ⟨rfl, rfl, rfl⟩ := hkey
        rw [Option.map_eq_none_iff, List.find?_eq_none]
        intro d _ hd
        simp at hd
        tauto
      next hkey =>
        congr 2
        funext d
        -- a document with the key that is asked for has not the key that is deleted
        cases hd : d.userId == u && d.agentId == a && d.path == p with
        | false => simp
        | true =>
          simp only [Bool.and_eq_true, beq_iff_eq] at hd
          obtain ⟨⟨rfl, rfl⟩, rfl⟩ := hd
          simp
          tauto

/-- The key of a document, in the two forms in which it is compared. -/
theorem ite_key {u scope p path : Str} {a : Option Nat} {x y z : Option Str}
    (hxy : u = scope ∧ a = w.agentId ∧ p = path → x = y) :
    (if u = scope ∧ a = w.agentId ∧ p = path then x else z) =
      if a = w.agentId ∧ some (scope, path) = some (u, p) then y else z := by
  by_cases h : u = scope ∧ a = w.agentId ∧ p = path
  · rw [if_pos h, if_pos ⟨h.2.1, by rw [h.1, h.2.2]⟩, hxy h]
  · rw [if_neg h, if_neg]
    rintro ⟨ha, heq⟩
    obtain ⟨rfl, rfl⟩ := Prod.mk.inj (Option.some.inj heq)
    exact h ⟨rfl, ha, rfl⟩

theorem getDocumentByPath_layer (fault : StorageFault) (layerName path content u : Str) (force : Bool) (a : Option Nat)
    (p : Str) (f : Str → Str) :
    getDocumentByPath (w.storeToLayer fault docs layerName path content force f).1 u a p =
      if a = w.agentId ∧ ((w.resolveLayerTarget layerName content force).toOption.map
          fun t => (t.1, normalizePath path)) = some (u, p) then
        stored fault (getDocumentByPath docs u a p) fun old => .ok (f old)
      else getDocumentByPath docs u a p := by
  rw [LayeredWorkspace.storeToLayer]
  cases htarget : w.resolveLayerTarget layerName content force with
  | error e => simp [Except.toOption]
  | ok t =>
    obtain ⟨scope, name, redirected⟩ := t
    refine (Workspace.getDocumentByPath_storeDocument fault docs _ u _ a _ p _).trans (ite_key ?_)
    rintro ⟨rfl, rfl, rfl⟩
    rfl

/-- A write changes the document of its scope and path only. -/
theorem getDocumentByPath_writeStep (l : StorageFault × WriteOp) (u : Str) (a : Option Nat) (p : Str) :
    getDocumentByPath (writeStep isWord w docs l) u a p =
      if a = w.agentId ∧ l.2.target w = some (u, p) then l.2.effect isWord l.1 (getDocumentByPath docs u a p)
      else getDocumentByPath docs u a p := by
  obtain ⟨fault, op⟩ := l
  cases op with
  | write path content =>
    refine (LayeredWorkspace.getDocumentByPath_write fault path content u a p).trans (ite_key ?_)
    rintro ⟨rfl, rfl, rfl⟩
    rfl
  | append path content =>
    show getDocumentByPath (w.append isWord fault docs path content).1 u a p = _
    rw [LayeredWorkspace.append]
    simp only [WriteOp.target, WriteOp.effect]
    cases LayeredWorkspace.scan isWord (normalizePath path) content with
    | error e => exact (ite_self _).symm
    | ok =>
      refine (Workspace.getDocumentByPath_storeDocument fault docs _ u _ a _ p _).trans (ite_key ?_)
      rintro ⟨rfl, rfl, rfl⟩
      rfl
  | appendMemory entry =>
    refine (Workspace.getDocumentByPath_storeDocument fault docs _ u _ a _ p _).trans (ite_key ?_)
    rintro ⟨rfl, rfl, rfl⟩
    rfl
  | writeToLayer layerName path content force =>
    exact getDocumentByPath_layer fault layerName path content u force a p _
  | appendToLayer layerName path content force =>
    exact getDocumentByPath_layer fault layerName path content u force a p _
  | delete path =>
    refine (getDocumentByPath_delete fault path u a p).trans (ite_key fun _ => rfl)

/-! ## Two runs of writes -/

/-- The path of the document that an operation changes. -/
def WriteOp.path : WriteOp → Str
  | .write path _ | .append path _ | .writeToLayer _ path _ _ | .appendToLayer _ path _ _ | .delete path =>
    normalizePath path
  | .appendMemory _ => MEMORY

theorem WriteOp.path_of_target {op : WriteOp} {u p : Str} (h : op.target w = some (u, p)) : op.path = p := by
  cases op with
  | writeToLayer layerName path content force =>
    obtain ⟨t, -, ht⟩ := Option.map_eq_some_iff.mp h
    exact (Prod.mk.inj ht).2
  | appendToLayer layerName path content force =>
    obtain ⟨t, -, ht⟩ := Option.map_eq_some_iff.mp h
    exact (Prod.mk.inj ht).2
  | _ => exact (Prod.mk.inj (Option.some.inj h)).2

/-- Operations that agree change the same path, and are equal when it is not a private one. -/
theorem WriteOp.eq_of_agree {op op' : WriteOp} (h : op.AgreeOutside op') :
    op.path = op'.path ∧ (op.path ∉ PRIVATE_PATHS → op = op') := by
  cases op <;> cases op' <;> try exact h.elim
  case write.write | append.append =>
    obtain ⟨rfl, hcontent⟩ := h
    exact ⟨rfl, fun hp => by rw [hcontent hp]⟩
  case writeToLayer.writeToLayer | appendToLayer.appendToLayer =>
    obtain ⟨rfl, rfl, rfl, hcontent⟩ := h
    exact ⟨rfl, fun hp => by rw [hcontent hp]⟩
  case appendMemory.appendMemory => exact ⟨rfl, fun hp => absurd (show MEMORY ∈ PRIVATE_PATHS by decide_cbv) hp⟩
  case delete.delete =>
    obtain rfl := h
    exact ⟨rfl, fun _ => rfl⟩

theorem sameBut_step (h : SameBut PRIVATE_PATHS docs docs') {l l' : StorageFault × WriteOp} (hfault : l.1 = l'.1)
    (hop : l.2.AgreeOutside l'.2) :
      SameBut PRIVATE_PATHS (writeStep isWord w docs l) (writeStep isWord w docs' l') := by
  intro u a p hp
  rw [getDocumentByPath_writeStep, getDocumentByPath_writeStep, h u a p hp]
  by_cases htarget : l.2.target w = some (u, p) ∨ l'.2.target w = some (u, p)
  · obtain ⟨hpath, heq⟩ := WriteOp.eq_of_agree hop
    have hp' : l.2.path = p := htarget.elim WriteOp.path_of_target fun h => hpath.trans (WriteOp.path_of_target h)
    rw [hfault, heq (hp' ▸ hp)]
  · rw [if_neg fun hkey => htarget (.inl hkey.2), if_neg fun hkey => htarget (.inr hkey.2)]

theorem sameBut_run {ls ls' : List (StorageFault × WriteOp)}
    (hls : List.Forall₂ (fun l l' => l.1 = l'.1 ∧ l.2.AgreeOutside l'.2) ls ls') :
    ∀ {docs docs' : Docs}, SameBut PRIVATE_PATHS docs docs' →
      SameBut PRIVATE_PATHS (run (writeStep isWord w) docs ls) (run (writeStep isWord w) docs' ls') := by
  induction hls with
  | nil => exact fun h => h
  | cons hl _ ih => exact fun h => ih (sameBut_step h hl.1 hl.2)

end Writes

/-! ## The parts of the prompt -/

section Prompt

variable {w : LayeredWorkspace} {docs docs' : Docs} (env : PromptEnv)

/-- The parts of a group prompt before the user context. -/
def partsBefore (w : LayeredWorkspace) (docs : Docs) : List Str :=
  (if w.bootstrapCompleted then []
    else promptSection "## First-Run Bootstrap" (w.readPrimary docs Workspace.BOOTSTRAP)) ++
  promptSection "## Agent Instructions" (w.readPrimary docs Workspace.AGENTS) ++
  promptSection "## Core Values" (w.readPrimary docs Workspace.SOUL)

/-- The parts of a group prompt behind the user context. -/
def partsBehind (w : LayeredWorkspace) (docs : Docs) : List Str :=
  promptSection "## Identity" (w.readPrimary docs Workspace.IDENTITY) ++
  promptSection "## Tool Notes" (w.readPrimary docs Workspace.TOOLS) ++
  (promptSection (Workspace.todayHeader env env.today) (some (w.dailyLog docs env.today).1) ++
    promptSection (Workspace.todayHeader env env.yesterday)
      (some (w.dailyLog (w.dailyLog docs env.today).2 env.yesterday).1))

theorem groupPrompt_eq : (w.systemPromptForContext env docs true).1 =
    join "\n\n---\n\n".toList (partsBefore w docs ++
      (promptSection "## User Context" (w.readPrimary docs USER) ++ partsBehind env w docs)) := by
  simp [Workspace.systemPromptForContext, partsBefore, partsBehind]

/-- The paths that a sync or a private write may change. -/
def TOUCHED : List Str := PRIVATE_PATHS ++ LayeredWorkspace.DERIVED

theorem readPrimary_same (h : SameBut TOUCHED docs docs') {path : Str} (hpath : normalizePath path ∉ TOUCHED) :
    w.readPrimary docs path = w.readPrimary docs' path := h _ _ _ hpath

theorem daily_not_touched (date : Str) : "daily/".toList ++ date ++ ".md".toList ∉ TOUCHED := by
  have hfirst : ∀ path ∈ TOUCHED, path.head? ≠ some 'd' := by decide +kernel
  exact fun h => hfirst _ h rfl

/-- The daily logs are the same, and opening them keeps the tables the same. -/
theorem dailyLog_sameBut (h : SameBut TOUCHED docs docs') (date : Str) :
    (w.dailyLog docs date).1 = (w.dailyLog docs' date).1 ∧
    SameBut TOUCHED (w.dailyLog docs date).2 (w.dailyLog docs' date).2 := by
  have hlog := daily_not_touched date
  rw [Workspace.dailyLog, Workspace.dailyLog]
  generalize "daily/".toList ++ date ++ ".md".toList = path at hlog
  have hscopes : Workspace.getDocumentByPathMulti docs w.readUserIds w.agentId path =
      Workspace.getDocumentByPathMulti docs' w.readUserIds w.agentId path := by
    simp only [Workspace.getDocumentByPathMulti, h _ _ path hlog]
  rw [Workspace.readOrCreate, Workspace.readOrCreate, hscopes]
  cases (if w.isMultiScope then Workspace.getDocumentByPathMulti docs' w.readUserIds w.agentId path else none) with
  | some content => exact ⟨rfl, h⟩
  | none =>
    constructor
    · simp only [getOrCreateDocumentByPath, h _ _ path hlog]
      cases getDocumentByPath docs' w.userId w.agentId path <;> rfl
    · intro u a p hp
      rw [Workspace.getDocumentByPath_opened_eq, Workspace.getDocumentByPath_opened_eq, h _ _ path hlog, h _ _ p hp]

theorem parts_same (h : SameBut TOUCHED docs docs') :
    partsBefore w docs = partsBefore w docs' ∧ partsBehind env w docs = partsBehind env w docs' := by
  have hidentity :
    ∀ path ∈ [Workspace.BOOTSTRAP, Workspace.AGENTS, Workspace.SOUL, Workspace.IDENTITY, Workspace.TOOLS],
      w.readPrimary docs path = w.readPrimary docs' path := by
    intro path hpath
    refine readPrimary_same h ?_
    revert path
    decide_cbv
  obtain ⟨htoday, hdocs⟩ := dailyLog_sameBut (w := w) h env.today
  obtain ⟨hyesterday, -⟩ := dailyLog_sameBut (w := w) hdocs env.yesterday
  constructor
  · rw [partsBefore, partsBefore, hidentity _ (by decide), hidentity Workspace.AGENTS (by decide),
      hidentity Workspace.SOUL (by decide)]
  · rw [partsBehind, partsBehind, hidentity _ (by decide), hidentity Workspace.TOOLS (by decide), htoday, hyesterday]

theorem promptSection_eq (header : String) (content : Option Str) : promptSection header content =
    if content.getD [] = [] then [] else [header.toList ++ "\n\n".toList ++ content.getD []] := by
  cases content with
  | none => rfl
  | some content => simp [promptSection, List.isEmpty_iff]

/-- The text around a part of a joined text. -/
theorem exists_around (sep : Str) (before behind : List Str) : ∃ pre post : Str,
    (∀ part, join sep (before ++ part :: behind) = pre ++ (part ++ post)) ∧
      (join sep (before ++ behind)).length ≤ pre.length + post.length := by
  by_cases hbehind : behind = []
  · subst hbehind
    by_cases hbefore : before = []
    · subst hbefore
      exact ⟨[], [], fun part => by simp [join], by simp [join]⟩
    · refine ⟨join sep before ++ sep, [], fun part => ?_, by simp⟩
      rw [join_append sep (List.cons_ne_nil _ _) _ hbefore, join_singleton, List.append_nil]
  · by_cases hbefore : before = []
    · subst hbefore
      exact ⟨[], sep ++ join sep behind, fun part => by simp [join_cons sep part hbehind], by simp⟩
    · refine ⟨join sep before ++ sep, sep ++ join sep behind, fun part => ?_, ?_⟩
      · rw [join_append sep (List.cons_ne_nil _ _) _ hbefore, join_cons sep part hbehind, List.append_assoc part]
      · rw [join_append sep hbehind _ hbefore]
        simp only [List.length_append]
        omega

/-- A part between others can be read off the joined text. -/
theorem join_part_iff (header : String) (before behind : List Str) (content content' : Option Str) :
    join "\n\n---\n\n".toList (before ++ (promptSection header content ++ behind)) =
        join "\n\n---\n\n".toList (before ++ (promptSection header content' ++ behind)) ↔
      content.getD [] = content'.getD [] := by
  obtain ⟨pre, post, haround, hle⟩ := exists_around "\n\n---\n\n".toList before behind
  have hlong : ∀ text : Str, join "\n\n---\n\n".toList (before ++ ([] ++ behind)) ≠
      join "\n\n---\n\n".toList (before ++ ([header.toList ++ "\n\n".toList ++ text] ++ behind)) := by
    intro text heq
    have hlen := congrArg List.length heq
    rw [List.nil_append, List.singleton_append, haround] at hlen
    have hbreaks : "\n\n".toList.length = 2 := rfl
    simp only [List.length_append, hbreaks] at hlen
    omega
  rw [promptSection_eq, promptSection_eq]
  by_cases h : content.getD [] = [] <;> by_cases h' : content'.getD [] = []
  · simp [h, h']
  · rw [if_pos h, if_neg h', h]
    exact iff_of_false (hlong _) (Ne.symm h')
  · rw [if_neg h, if_pos h', h']
    exact iff_of_false (hlong _).symm h
  · rw [if_neg h, if_neg h', List.singleton_append, List.singleton_append, haround, haround]
    simp

end Prompt

/-! ## Two runs -/

/-- The prompt of a group chat after some writes and some syncs. -/
def groupPrompt (isWord : Char → Bool) (parse : Str → Option FullProfile) (env : PromptEnv) (w : LayeredWorkspace)
    (docs : Docs) (writes : List (StorageFault × WriteOp)) (calls : List SyncFaults) : Str :=
  (w.systemPromptForContext env (LayeredWorkspace.syncs isWord parse w (run (writeStep isWord w) docs writes) calls)
    true).1

/-- The text of USER.md after some syncs, from the text and the profile before them. -/
def userText (isWord : Char → Bool) (parse : Str → Option FullProfile) (w : LayeredWorkspace) (docs : Docs)
    (calls : List SyncFaults) : Str :=
  (calls.foldl (LayeredWorkspace.userStep isWord (LayeredWorkspace.populatedProfile parse (w.read docs PROFILE)))
    (getDocumentByPath docs w.userId w.agentId USER)).getD []

theorem syncs_sameBut (isWord : Char → Bool) (parse : Str → Option FullProfile) (w : LayeredWorkspace) (docs : Docs)
    (calls : List SyncFaults) : SameBut TOUCHED (LayeredWorkspace.syncs isWord parse w docs calls) docs := by
  intro u a p hp
  exact LayeredWorkspace.syncs_frame (fun h => hp (List.mem_append_right _ h)) u a calls

/-- Two prompts with the same documents outside the touched ones are the same exactly when the texts of USER.md are. -/
theorem groupPrompt_eq_iff {isWord : Char → Bool} {parse : Str → Option FullProfile}
    {w : LayeredWorkspace} {docs : Docs}
    {writes writes' : List (StorageFault × WriteOp)} (env : PromptEnv) (calls calls' : List SyncFaults)
    (h : SameBut TOUCHED (run (writeStep isWord w) docs writes) (run (writeStep isWord w) docs writes')) :
    groupPrompt isWord parse env w docs writes calls = groupPrompt isWord parse env w docs writes' calls' ↔
      userText isWord parse w (run (writeStep isWord w) docs writes) calls =
        userText isWord parse w (run (writeStep isWord w) docs writes') calls' := by
  obtain ⟨hbefore, hbehind⟩ := parts_same (w := w) env fun u a p hp =>
    (syncs_sameBut isWord parse w _ calls u a p hp).trans
      ((h u a p hp).trans (syncs_sameBut isWord parse w _ calls' u a p hp).symm)
  have huser : ∀ docs, w.readPrimary docs USER = getDocumentByPath docs w.userId w.agentId USER := by
    have hnormal : normalizePath USER = USER := by decide_cbv
    intro docs
    rw [Workspace.readPrimary, hnormal]
  rw [groupPrompt, groupPrompt, groupPrompt_eq, groupPrompt_eq, hbefore, hbehind, join_part_iff, huser, huser,
    LayeredWorkspace.syncs_user, LayeredWorkspace.syncs_user]
  rfl

/-! ## A profile in a group chat -/

def adaJson : Str :=
  "\x7b\"version\":2,".toList ++
    ("\"preferred_name\":\"Ada\",\"personality\":\x7b\"empathy\":50,\"problem_solving\":50," ++
    "\"emotional_intelligence\":50,\"adaptability\":50,\"communication\":50\x7d,\"communication\":" ++
    "\x7b\"detail_level\":\"balanced\",\"formality\":\"balanced\",\"tone\":\"neutral\"," ++
    "\"learning_style\":\"unknown\",\"social_energy\":\"unknown\",\"decision_making\":\"unknown\"," ++
    "\"pace\":\"unknown\"\x7d,\"cohort\":\"other\",\"behavior\":\x7b\"frictions\":[],\"desired_outcomes\":[]," ++
    "\"time_wasters\":[],\"pain_points\":[],\"strengths\":[]\x7d,\"friendship\":\x7b\"style\":\"unknown\"," ++
    "\"values\":[],\"support_style\":\"unknown\"\x7d,\"assistance\":\x7b\"proactivity\":\"medium\"," ++
    "\"formality\":\"unknown\",\"focus_areas\":[],\"routines\":[],\"goals\":[]," ++
    "\"interaction_style\":\"unknown\"\x7d,\"context\":\x7b\"profession\":null,\"interests\":[]," ++
    "\"life_stage\":null,\"challenges\":[]\x7d,\"created_at\":\"2026-01-01T00:00:00Z\"," ++
    "\"updated_at\":\"2026-01-01T00:00:00Z\"\x7d").toList

/-- The profile in `adaJson`. -/
def ada : FullProfile where
  preferredName := "Ada".toList
  profession := none
  cohort := "general".toList
  tone := "neutral".toList
  formality := "balanced".toList
  detailLevel := "balanced".toList
  pace := "unknown".toList
  responseSpeed := "unknown".toList
  decisionMaking := "unknown".toList
  feedbackStyle := "direct".toList
  proactivityStyle := "reactive".toList
  proactivity := "medium".toList
  notificationPreferences := "moderate".toList
  goals := []
  painPoints := []
  confident := false
  updatedAt := "2026-01-01T00:00:00Z".toList
  socialEnergy := "unknown".toList
  cohortConfidence := 0
  lifeStage := none
  interests := []
  focusAreas := []
  strengths := []
  coreValues := []
  interactionStyle := "unknown".toList
  supportStyle := "unknown".toList

/-- Reads `adaJson`, also with a line break after it; an object without fields is no profile. -/
def parseAda (content : Str) : Option FullProfile :=
  if content = adaJson ∨ content = adaJson ++ ['\n'] then some ada else none

/-- A run that writes a profile. -/
def profileRun (content : Str) : List (StorageFault × WriteOp) :=
  [(none, .writeToLayer "private".toList PROFILE content false)]

def someEnv : PromptEnv where
  today := "2026-01-02".toList
  yesterday := "2026-01-01".toList
  parseProfile content := (parseAda content).map FullProfile.toPsychographicProfile
  isProfileRecent _ := true
  analysisFramework := []
  profileJsonSchema := []

theorem adaText_scanned : LayeredWorkspace.scan Regex.asciiWord USER (Workspace.wrapProfileSection ada.toUserMd) =
    .ok () := by
  decide +kernel

theorem profileRuns_agree (content content' : Str) :
    List.Forall₂ (fun l l' : StorageFault × WriteOp => l.1 = l'.1 ∧ l.2.AgreeOutside l'.2) (profileRun content)
      (profileRun content') := by
  refine List.Forall₂.cons ⟨rfl, rfl, rfl, rfl, fun hp => absurd ?_ hp⟩ .nil
  decide_cbv

/-- The workspace of a user with a private layer. -/
def aliceWorkspace : LayeredWorkspace := .ofUser "alice".toList

theorem profileRun_eq (isWord : Char → Bool) (content : Str) :
    run (writeStep isWord aliceWorkspace) [] (profileRun content) = [⟨"alice".toList, none, PROFILE, content⟩] := rfl

/-- One sync after the profile is written. -/
theorem userText_profileRun (isWord : Char → Bool) (content : Str) :
    userText isWord parseAda aliceWorkspace [⟨"alice".toList, none, PROFILE, content⟩] [{}] =
      (LayeredWorkspace.userStep isWord (LayeredWorkspace.populatedProfile parseAda (some content)) none {}).getD [] :=
        rfl

theorem found_ada {content : Str} (h : content = adaJson ∨ content = adaJson ++ ['\n']) :
    LayeredWorkspace.populatedProfile parseAda (some content) = some ada := by
  have hpopulated : ada.toPsychographicProfile.isPopulated = true := by decide_cbv
  have hread : parseAda content = some ada := if_pos h
  have hfirst : content[0]? = some '\x7b' := by rcases h with rfl | rfl <;> rfl
  have hnonempty : content.isEmpty = false := by
    cases content with
    | nil => cases hfirst
    | cons c cs => rfl
  simp only [LayeredWorkspace.populatedProfile, hnonempty, hread]
  simp [Option.filter, hpopulated]

theorem found_none : LayeredWorkspace.populatedProfile parseAda (some "\x7b\x7d".toList) = none := by
  have hread : parseAda "\x7b\x7d".toList = none := by
    refine if_neg fun h => ?_
    -- the texts differ behind the first bracket
    have hsecond : "\x7b\x7d".toList[1]? = some '"' := by
      rcases h with h | h
      · rw [h]
        rfl
      · rw [h]
        rfl
    exact absurd hsecond (by decide)
  have hnonempty : "\x7b\x7d".toList.isEmpty = false := rfl
  simp only [LayeredWorkspace.populatedProfile, hnonempty, hread]
  rfl

/-- **Group chats.** After two runs of writes that differ only in what they write into the private documents, each
followed by syncs, the prompts of a group chat are the same exactly when the syncs of both make the same text of
USER.md. -/
theorem group_prompt_iff (isWord : Char → Bool) (parse : Str → Option FullProfile) (env : PromptEnv)
    (w : LayeredWorkspace) (docs : Docs) {writes writes' : List (StorageFault × WriteOp)}
    (hagree : List.Forall₂ (fun l l' => l.1 = l'.1 ∧ l.2.AgreeOutside l'.2) writes writes')
    (calls calls' : List SyncFaults) :
    groupPrompt isWord parse env w docs writes calls = groupPrompt isWord parse env w docs writes' calls' ↔
      userText isWord parse w (run (writeStep isWord w) docs writes) calls =
        userText isWord parse w (run (writeStep isWord w) docs writes') calls' := by
  have hrun : SameBut PRIVATE_PATHS (run (writeStep isWord w) docs writes) (run (writeStep isWord w) docs writes') :=
    sameBut_run hagree fun _ _ _ _ => rfl
  exact groupPrompt_eq_iff env calls calls' fun u a p hp => hrun u a p fun h => hp (List.mem_append_left _ h)

/-- Syncing copies the profile into USER.md, which a group chat sees. -/
theorem synced_profile_is_shown :
    List.Forall₂ (fun l l' : StorageFault × WriteOp => l.1 = l'.1 ∧ l.2.AgreeOutside l'.2) (profileRun adaJson)
      (profileRun "\x7b\x7d".toList) ∧
    groupPrompt Regex.asciiWord parseAda someEnv aliceWorkspace [] (profileRun adaJson) [{}] ≠
      groupPrompt Regex.asciiWord parseAda someEnv aliceWorkspace [] (profileRun "\x7b\x7d".toList) [{}] := by
  have hrun : SameBut PRIVATE_PATHS (run (writeStep Regex.asciiWord aliceWorkspace) [] (profileRun adaJson))
      (run (writeStep Regex.asciiWord aliceWorkspace) [] (profileRun "\x7b\x7d".toList)) :=
    sameBut_run (profileRuns_agree _ _) fun _ _ _ _ => rfl
  refine ⟨profileRuns_agree _ _, fun h => ?_⟩
  have htext := (groupPrompt_eq_iff someEnv [{}] [{}] fun u a p hp =>
    hrun u a p fun h => hp (List.mem_append_left _ h)).mp h
  rw [profileRun_eq, profileRun_eq, userText_profileRun, userText_profileRun, found_ada (.inl rfl), found_none] at htext
  have hwritten : LayeredWorkspace.userStep Regex.asciiWord (some ada) none {} =
      some (Workspace.wrapProfileSection ada.toUserMd) := by
    show LayeredWorkspace.written Regex.asciiWord none USER (Workspace.wrapProfileSection ada.toUserMd) none = _
    rw [LayeredWorkspace.written, adaText_scanned]
    rfl
  rw [hwritten] at htext
  exact List.cons_ne_nil _ _ htext

/-- Two texts of the same profile, which a sync copies in both runs. -/
theorem group_prompt_iff_ada :
    groupPrompt Regex.asciiWord parseAda someEnv aliceWorkspace [] (profileRun adaJson) [{}] =
      groupPrompt Regex.asciiWord parseAda someEnv aliceWorkspace [] (profileRun (adaJson ++ ['\n'])) [{}] := by
  refine (group_prompt_iff Regex.asciiWord parseAda someEnv aliceWorkspace [] (profileRuns_agree _ _) _ _).mpr ?_
  rw [profileRun_eq, profileRun_eq, userText_profileRun, userText_profileRun, found_ada (.inl rfl),
    found_ada (.inr rfl)]

end Ironclaw

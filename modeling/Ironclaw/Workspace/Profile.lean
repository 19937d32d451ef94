import Ironclaw.Workspace.Paths
import Ironclaw.Workspace.ProfileSync

/-!
# Documents derived from the profile

The sync reads the psychographic profile and writes what it derives from it: the section of USER.md, the assistant
directives and, once, the heartbeat checklist.

- `getDocumentByPath_storeDocument`: what a store leaves under every key;
- `sync_frame`: what a sync leaves as it is;
- `sync_user`: what it makes of USER.md.
-/

namespace Ironclaw

open Text

namespace Workspace

/-! ## Stored documents -/

/-- The document under a key after a store: what was there, an empty document, or the new content. -/
def stored (fault : StorageFault) (old : Option Str) (newContent : Str → Except WorkspaceError Str) : Option Str :=
  match fault.errorAt .opening with
  | some _ => old
  | none =>
    match fault.errorAt .created with
    | some _ => some (old.getD [])
    | none =>
      match newContent (old.getD []), fault.errorAt .update with
      | .ok content, none => some content
      | _, _ => some (old.getD [])

theorem getDocumentByPath_opened_eq (docs : Docs) (u u' : Str) (a a' : Option Nat) (p p' : Str) :
    getDocumentByPath (getOrCreateDocumentByPath docs u a p).2 u' a' p' =
      if u' = u ∧ a' = a ∧ p' = p then
        some ((getDocumentByPath docs u a p).getD []) else getDocumentByPath docs u' a' p' := by
  rw [getOrCreateDocumentByPath]
  cases h : getDocumentByPath docs u a p with
  | some content =>
    show getDocumentByPath docs u' a' p' = _
    split
    next hkey =>
      obtain ⟨rfl, rfl, rfl⟩ := hkey
      exact h
    · rfl
  | none =>
    show getDocumentByPath (docs ++ [⟨u, a, p, []⟩]) u' a' p' = _
    rw [getDocumentByPath_append]
    split
    next hkey =>
      obtain ⟨rfl, rfl, rfl⟩ := hkey
      rw [h]
      simp [getDocumentByPath]
    next hkey =>
      have hnew : getDocumentByPath [⟨u, a, p, []⟩] u' a' p' = none := by
        simp only [getDocumentByPath, List.find?_cons, List.find?_nil]
        split
        next heq =>
          simp only [Bool.and_eq_true, beq_iff_eq] at heq
          exact absurd ⟨heq.1.1.symm, heq.1.2.symm, heq.2.symm⟩ hkey
        · rfl
      rw [hnew, Option.or_none]

/-- A store changes the document under its own key only, as its old content says. -/
theorem getDocumentByPath_storeDocument (fault : StorageFault) (docs : Docs) (u u' : Str) (a a' : Option Nat)
    (p p' : Str) (f : Str → Except WorkspaceError Str) :
    getDocumentByPath (storeDocument fault docs u a p f).1 u' a' p' =
      if u' = u ∧ a' = a ∧ p' = p then stored fault (getDocumentByPath docs u a p) f
      else getDocumentByPath docs u' a' p' := by
  have hopened := getDocumentByPath_opened_eq docs u u' a a' p p'
  have hcontent : (getOrCreateDocumentByPath docs u a p).1 = (getDocumentByPath docs u a p).getD [] := by
    rw [getOrCreateDocumentByPath]
    cases getDocumentByPath docs u a p <;> rfl
  rw [storeDocument, stored]
  cases fault.errorAt .opening with
  | some e =>
    simp only
    split
    next hkey =>
      obtain ⟨rfl, rfl, rfl⟩ := hkey
      rfl
    · rfl
  | none =>
    cases fault.errorAt .created with
    | some e => exact hopened
    | none =>
      simp only
      rw [hcontent]
      cases f ((getDocumentByPath docs u a p).getD []) with
      | error e => exact hopened
      | ok content =>
        cases fault.errorAt .update with
        | some e => exact hopened
        | none =>
          have hupdated :
            getDocumentByPath (updateDocument (getOrCreateDocumentByPath docs u a p).2 u a p content) u' a' p' =
              if u' = u ∧ a' = a ∧ p' = p then some content else getDocumentByPath docs u' a' p' := by
            rw [getDocumentByPath_updateDocument, getDocumentByPath_opened, hopened]
            split <;> rfl
          cases fault.errorAt .reindex <;> exact hupdated

end Workspace

/-! ## Texts -/

/-- A profile with all the fields that the derived documents show. -/
structure FullProfile extends PsychographicProfile where
  socialEnergy : Str
  cohortConfidence : Nat
  lifeStage : Option Str
  interests : List Str
  focusAreas : List Str
  strengths : List Str
  coreValues : List Str
  interactionStyle : Str
  supportStyle : Str

namespace FullProfile

/-- A line that is left out for the default value. -/
def lineUnless (default : String) (value : Str) (text : Str) : List Str := if default.toList = value then [] else [text]

/-- A line for a list that is not empty. -/
def listLine (header : String) (items : List Str) : List Str :=
  if items.isEmpty then [] else [header.toList ++ join ", ".toList items]

/-- `to_user_md`; the cohort `Other` is shown as `general`. -/
def toUserMd (p : FullProfile) : Str :=
  join "\n".toList <|
    ["# User Profile\n".toList] ++
    (if p.preferredName.isEmpty then [] else ["**Name**: ".toList ++ p.preferredName ++ "\n".toList]) ++
    ["**Communication**: ".toList ++ p.tone ++ " tone, ".toList ++ p.detailLevel ++ " detail, ".toList ++ p.formality ++
      " formality, ".toList ++ p.pace ++ " pace".toList ++
      Workspace.unlessDefault ["unknown"] p.responseSpeed
        (", ".toList ++ p.responseSpeed ++ " response speed".toList)] ++
    lineUnless "unknown" p.decisionMaking ("**Decision style**: ".toList ++ p.decisionMaking) ++
    lineUnless "unknown" p.socialEnergy ("**Social energy**: ".toList ++ p.socialEnergy) ++
    lineUnless "general" p.cohort ("**User type**: ".toList ++ p.cohort ++
      (if 0 < p.cohortConfidence then " (".toList ++ Nat.toDigits 10 p.cohortConfidence ++
        "% confidence)".toList else [])) ++
    (p.profession.map fun profession => "**Profession**: ".toList ++ profession).toList ++
    (p.lifeStage.map fun stage => "**Life stage**: ".toList ++ stage).toList ++
    listLine "**Interests**: " p.interests ++
    listLine "**Goals**: " p.goals ++
    listLine "**Focus areas**: " p.focusAreas ++
    listLine "**Strengths**: " p.strengths ++
    listLine "**Pain points**: " p.painPoints ++
    listLine "**Core values**: " p.coreValues ++
    ["\n## Assistance Preferences\n\n- **Proactivity**: ".toList ++ p.proactivity ++
      "\n- **Interaction style**: ".toList ++ p.interactionStyle ++
      Workspace.unlessDefault ["moderate"] p.notificationPreferences
        ("\n- **Notifications**: ".toList ++ p.notificationPreferences)] ++
    lineUnless "direct" p.feedbackStyle ("- **Feedback style**: ".toList ++ p.feedbackStyle) ++
    lineUnless "unknown" p.supportStyle ("- **Support style**: ".toList ++ p.supportStyle)

/-- The name, or a phrase for a user without one. -/
def shownName (p : FullProfile) : Str := if p.preferredName.isEmpty then "the user".toList else p.preferredName

def proactivityInstruction (p : FullProfile) : Str :=
  if p.proactivity = "high".toList then
    "Proactively suggest actions, check in regularly, and anticipate needs.".toList
  else if p.proactivity = "low".toList then
    "Wait for explicit requests. Minimize unsolicited suggestions.".toList
  else "Offer suggestions when relevant but don't overwhelm.".toList

def toAssistantDirectives (p : FullProfile) : Str :=
  join "\n".toList <|
    ["# Assistant Directives\n".toList,
      "Based on ".toList ++ p.shownName ++ "'s profile:\n".toList,
      "- **Proactivity**: ".toList ++ p.proactivity ++ " -- ".toList ++ p.proactivityInstruction,
      "- **Communication**: ".toList ++ p.tone ++ " tone, ".toList ++ p.detailLevel ++ " detail level".toList,
      "- **Decision support**: ".toList ++ p.decisionMaking ++ " style".toList] ++
    lineUnless "unknown" p.responseSpeed
      ("- **Response pacing**: ".toList ++ p.responseSpeed ++ " (match this energy)".toList) ++
    lineUnless "direct" p.feedbackStyle ("- **Feedback style**: ".toList ++ p.feedbackStyle) ++
    (if p.notificationPreferences = "moderate".toList then []
      else lineUnless "unknown" p.notificationPreferences
        ("- **Notification frequency**: ".toList ++ p.notificationPreferences)) ++
    listLine "- **Focus areas**: " p.focusAreas ++
    listLine "- **Goals to support**: " p.goals ++
    listLine "- **Pain points to address**: " p.painPoints ++
    [[], ("Start conservative with autonomy — ask before taking actions that affect " ++
      "others or the outside world. Increase autonomy as trust grows.").toList]

def toHeartbeatMd (p : FullProfile) : Str :=
  "# Heartbeat Checklist\n\n".toList ++
    join "\n".toList
      (["- [ ] Check if ".toList ++ p.shownName ++ " has any pending tasks or reminders".toList,
        "- [ ] Review today's schedule and flag conflicts".toList,
        "- [ ] Check for messages that need follow-up".toList] ++
      p.focusAreas.map fun area => "- [ ] Check on progress in: ".toList ++ area) ++
    "\n\nStay quiet during 23:00-08:00 unless urgent.\nIf nothing needs attention, reply HEARTBEAT_OK.".toList

end FullProfile

/-! ## The sync -/

/-- Where the storage fails during a sync. -/
structure SyncFaults where
  profileRead : Bool := false
  userRead : Bool := false
  heartbeatRead : Bool := false
  userWrite : StorageFault := none
  directivesWrite : StorageFault := none
  heartbeatWrite : StorageFault := none

namespace LayeredWorkspace

section Sync

variable (isWord : Char → Bool) (parse : Str → Option FullProfile) (faults : SyncFaults) (w : LayeredWorkspace)
  (docs : Docs)

/-- The profile that a sync finds: a document that is not empty, can be read and says something about the user. -/
def populatedProfile (content : Option Str) : Option FullProfile :=
  match content with
  | none => none
  | some content =>
    if content.isEmpty then none else (parse content).filter fun p => p.toPsychographicProfile.isPopulated

/-- The text of USER.md with the section of the profile. -/
def mergedUser (p : FullProfile) (existing : Option Str) : Str :=
  match existing with
  | some existing => Workspace.mergeProfileSection existing p.toUserMd
  | none => Workspace.wrapProfileSection p.toUserMd

def syncProfileDocuments : Docs × Except WorkspaceError Bool :=
  match populatedProfile parse (if faults.profileRead then none else w.read docs Workspace.PROFILE) with
  | none => (docs, .ok false)
  | some p =>
    let merged := mergedUser p (if faults.userRead then none else w.read docs Workspace.USER)
    match w.write isWord faults.userWrite docs Workspace.USER merged with
    | (docs, .error e) => (docs, .error e)
    | (docs, .ok _) =>
      match w.write isWord faults.directivesWrite docs Workspace.ASSISTANT_DIRECTIVES p.toAssistantDirectives with
      | (docs, .error e) => (docs, .error e)
      | (docs, .ok _) =>
        if (if faults.heartbeatRead then none else w.read docs Workspace.HEARTBEAT).isNone then
          match w.write isWord faults.heartbeatWrite docs Workspace.HEARTBEAT p.toHeartbeatMd with
          | (docs, .error e) => (docs, .error e)
          | (docs, .ok _) => (docs, .ok true)
        else (docs, .ok true)

end Sync

/-! ## What a sync changes -/

section Effects

variable {isWord : Char → Bool} {parse : Str → Option FullProfile} {w : LayeredWorkspace} {docs docs' : Docs}

/-- The document of the user under the path of a write. -/
def written (isWord : Char → Bool) (fault : StorageFault) (path content : Str) (old : Option Str) : Option Str :=
  match scan isWord path content with
  | .error _ => old
  | .ok () => Workspace.stored fault old fun _ => .ok content

theorem getDocumentByPath_write (fault : StorageFault) (path content u : Str) (a : Option Nat) (p : Str) :
    Workspace.getDocumentByPath (w.write isWord fault docs path content).1 u a p =
      if u = w.userId ∧ a = w.agentId ∧ p = Workspace.normalizePath path then
        written isWord fault (Workspace.normalizePath path) content
          (Workspace.getDocumentByPath docs w.userId w.agentId (Workspace.normalizePath path))
      else Workspace.getDocumentByPath docs u a p := by
  rw [write, written]
  cases scan isWord (Workspace.normalizePath path) content with
  | error e =>
    show Workspace.getDocumentByPath docs u a p = _
    split
    next hkey =>
      obtain ⟨rfl, rfl, rfl⟩ := hkey
      rfl
    · rfl
  | ok => exact Workspace.getDocumentByPath_storeDocument fault docs _ u _ a _ p _

theorem read_congr (path : Str) (h : ∀ u a, Workspace.getDocumentByPath docs u a (Workspace.normalizePath path) =
    Workspace.getDocumentByPath docs' u a (Workspace.normalizePath path)) : w.read docs path = w.read docs' path := by
  simp only [Workspace.read, Workspace.getDocumentByPathMulti, h]

/-- Identity files are read from the user's own scope. -/
theorem read_user :
    w.read docs Workspace.USER = Workspace.getDocumentByPath docs w.userId w.agentId Workspace.USER := by
  have hnormal : Workspace.normalizePath Workspace.USER = Workspace.USER := by decide
  have hidentity : Workspace.isIdentityPath Workspace.USER = true := by decide
  simp only [Workspace.read, hnormal, hidentity, Bool.and_true]
  cases w.isMultiScope <;> rfl

/-- The paths that a sync writes. -/
def DERIVED : List Str := [Workspace.USER, Workspace.ASSISTANT_DIRECTIVES, Workspace.HEARTBEAT]

theorem normalize_derived : ∀ path ∈ DERIVED, Workspace.normalizePath path = path := by decide

/-- A write of a sync leaves the other paths as they are. -/
theorem write_frame {path p : Str} (hpath : path ∈ DERIVED) (hp : p ∉ DERIVED) (fault : StorageFault) (content u : Str)
    (a : Option Nat) : Workspace.getDocumentByPath (w.write isWord fault docs path content).1 u a p =
      Workspace.getDocumentByPath docs u a p := by
  rw [getDocumentByPath_write, normalize_derived path hpath, if_neg]
  rintro ⟨-, -, rfl⟩
  exact hp hpath

/-- What one sync makes of USER.md. -/
def userStep (isWord : Char → Bool) (profile : Option FullProfile) (existing : Option Str) (faults : SyncFaults) :
    Option Str :=
  match (if faults.profileRead then none else profile) with
  | none => existing
  | some p =>
    written isWord faults.userWrite Workspace.USER (mergedUser p (if faults.userRead then none else existing)) existing

/-- The table after a sync is the one after its first write, or after two of them, or after all three. -/
theorem sync_docs {faults : SyncFaults} {p : FullProfile} {docs₁ docs₂ docs₃ : Docs}
    (h : populatedProfile parse (if faults.profileRead then none else w.read docs Workspace.PROFILE) = some p)
    (h₁ : (w.write isWord faults.userWrite docs Workspace.USER
      (mergedUser p (if faults.userRead then none else w.read docs Workspace.USER))).1 = docs₁)
    (h₂ : (w.write isWord faults.directivesWrite docs₁ Workspace.ASSISTANT_DIRECTIVES p.toAssistantDirectives).1 =
      docs₂)
    (h₃ : (w.write isWord faults.heartbeatWrite docs₂ Workspace.HEARTBEAT p.toHeartbeatMd).1 = docs₃) :
    (syncProfileDocuments isWord parse faults w docs).1 = docs₁ ∨
      (syncProfileDocuments isWord parse faults w docs).1 = docs₂ ∨
      (syncProfileDocuments isWord parse faults w docs).1 = docs₃ := by
  rw [syncProfileDocuments, h]
  simp only
  split
  next d e hd => exact Or.inl ((congrArg Prod.fst hd).symm.trans h₁)
  next d c hd =>
    obtain rfl : d = docs₁ := (congrArg Prod.fst hd).symm.trans h₁
    split
    next d' e hd' => exact Or.inr (Or.inl ((congrArg Prod.fst hd').symm.trans h₂))
    next d' c hd' =>
      obtain rfl : d' = docs₂ := (congrArg Prod.fst hd').symm.trans h₂
      generalize Option.isNone _ = missing
      cases missing with
      | false => exact Or.inr (Or.inl rfl)
      | true =>
        simp only [if_true]
        split
        next d'' e hd'' => exact Or.inr (Or.inr ((congrArg Prod.fst hd'').symm.trans h₃))
        next d'' c hd'' => exact Or.inr (Or.inr ((congrArg Prod.fst hd'').symm.trans h₃))

theorem sync_frame (faults : SyncFaults) {p : Str} (hp : p ∉ DERIVED) (u : Str) (a : Option Nat) :
    Workspace.getDocumentByPath (syncProfileDocuments isWord parse faults w docs).1 u a p =
      Workspace.getDocumentByPath docs u a p := by
  cases h : populatedProfile parse (if faults.profileRead then none else w.read docs Workspace.PROFILE) with
  | none =>
    rw [syncProfileDocuments, h]
  | some profile =>
    have hwrite : ∀ (docs : Docs) path, path ∈ DERIVED → ∀ fault content,
        Workspace.getDocumentByPath (w.write isWord fault docs path content).1 u a p =
          Workspace.getDocumentByPath docs u a p := fun docs path hpath fault content =>
      write_frame hpath hp fault content u a
    have hmem := @sync_docs isWord parse w docs faults profile _ _ _ h rfl rfl rfl
    rcases hmem with hmem | hmem | hmem <;> rw [hmem]
    · rw [hwrite _ _ (by decide)]
    · rw [hwrite _ _ (by decide), hwrite _ _ (by decide)]
    · rw [hwrite _ _ (by decide), hwrite _ _ (by decide), hwrite _ _ (by decide)]

/-- What a sync makes of USER.md. -/
theorem sync_user (faults : SyncFaults) :
    Workspace.getDocumentByPath (syncProfileDocuments isWord parse faults w docs).1 w.userId w.agentId Workspace.USER =
      userStep isWord (populatedProfile parse (w.read docs Workspace.PROFILE))
        (Workspace.getDocumentByPath docs w.userId w.agentId Workspace.USER) faults := by
  have hfound : populatedProfile parse (if faults.profileRead then none else w.read docs Workspace.PROFILE) =
      if faults.profileRead then none else populatedProfile parse (w.read docs Workspace.PROFILE) := by
    cases faults.profileRead <;> rfl
  rw [userStep, ← hfound]
  cases h : populatedProfile parse (if faults.profileRead then none else w.read docs Workspace.PROFILE) with
  | none =>
    rw [syncProfileDocuments, h]
  | some p =>
    have hother : ∀ (docs : Docs) path, path ∈ [Workspace.ASSISTANT_DIRECTIVES, Workspace.HEARTBEAT] → ∀ fault content,
        Workspace.getDocumentByPath (w.write isWord fault docs path content).1 w.userId w.agentId Workspace.USER =
          Workspace.getDocumentByPath docs w.userId w.agentId Workspace.USER := by
      intro docs path hpath fault content
      have hne : ∀ path ∈ [Workspace.ASSISTANT_DIRECTIVES, Workspace.HEARTBEAT],
          Workspace.USER ≠ Workspace.normalizePath path := by decide
      rw [getDocumentByPath_write, if_neg fun hkey => hne path hpath hkey.2.2]
    have hmem := @sync_docs isWord parse w docs faults p _ _ _ h rfl rfl rfl
    have huser : Workspace.getDocumentByPath (syncProfileDocuments isWord parse faults w docs).1 w.userId w.agentId
        Workspace.USER = Workspace.getDocumentByPath (w.write isWord faults.userWrite docs Workspace.USER
          (mergedUser p (if faults.userRead then none else w.read docs Workspace.USER))).1 w.userId w.agentId
          Workspace.USER := by
      rcases hmem with hmem | hmem | hmem <;> rw [hmem]
      · rw [hother _ _ (by decide)]
      · rw [hother _ _ (by decide), hother _ _ (by decide)]
    have hnormal : Workspace.normalizePath Workspace.USER = Workspace.USER := by decide
    rw [huser, getDocumentByPath_write, hnormal, if_pos ⟨rfl, rfl, rfl⟩, read_user]

/-! ## Many syncs -/

/-- The table after some syncs. -/
def syncs (isWord : Char → Bool) (parse : Str → Option FullProfile) (w : LayeredWorkspace) (docs : Docs)
    (calls : List SyncFaults) : Docs :=
  calls.foldl (fun docs faults => (syncProfileDocuments isWord parse faults w docs).1) docs

theorem syncs_frame {p : Str} (hp : p ∉ DERIVED) (u : Str) (a : Option Nat) (calls : List SyncFaults) :
    Workspace.getDocumentByPath (syncs isWord parse w docs calls) u a p = Workspace.getDocumentByPath docs u a p := by
  induction calls generalizing docs with
  | nil => rfl
  | cons faults calls ih => exact ih.trans (sync_frame faults hp u a)

/-- What some syncs make of USER.md, one after the other with the profile that they all find. -/
theorem syncs_user (calls : List SyncFaults) :
    Workspace.getDocumentByPath (syncs isWord parse w docs calls) w.userId w.agentId Workspace.USER =
      calls.foldl (userStep isWord (populatedProfile parse (w.read docs Workspace.PROFILE)))
        (Workspace.getDocumentByPath docs w.userId w.agentId Workspace.USER) := by
  induction calls generalizing docs with
  | nil => rfl
  | cons faults calls ih =>
    have hprofile : w.read (syncProfileDocuments isWord parse faults w docs).1 Workspace.PROFILE =
        w.read docs Workspace.PROFILE := by
      refine read_congr _ fun u a => sync_frame faults ?_ u a
      decide
    rw [List.foldl_cons, ← sync_user faults, ← hprofile]
    exact ih

end Effects

end LayeredWorkspace

end Ironclaw

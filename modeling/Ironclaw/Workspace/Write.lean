import Ironclaw.Safety.Layer
import Ironclaw.Workspace.Basic

/-!
# Writes to a workspace

The operations that change documents: `write` and `append`, which scan the files of the system prompt for injections,
`append_memory`, the writes to a memory layer, and `delete`. Each of them opens a document, computes its new content and
stores it (`storeDocument`); the storage may fail at any point.
-/

namespace Ironclaw

open Text Safety

namespace Workspace

def HEARTBEAT : Str := "HEARTBEAT.md".toList

/-- The files that are part of the system prompt. -/
def SYSTEM_PROMPT_FILES : List Str :=
  [SOUL, AGENTS, USER, IDENTITY, MEMORY, TOOLS, HEARTBEAT, BOOTSTRAP, ASSISTANT_DIRECTIVES, PROFILE]

def isSystemPromptFile (path : Str) : Bool := SYSTEM_PROMPT_FILES.any fun p => eqIgnoreAsciiCase path p

end Workspace

inductive WorkspaceError
  | documentNotFound (docType userId : Str)
  | searchFailed (reason : Str)
  | embeddingFailed (reason : Str)
  | layerNotFound (name : Str)
  | layerReadOnly (name : Str)
  | privacyRedirectFailed
  | injectionRejected (path reason : Str)
  deriving DecidableEq

/-! ## Storage -/

/-- Where the storage fails: before the document is opened, after it was created, at the update, or after it. -/
inductive StoragePoint
  | opening
  | created
  | update
  | reindex
  deriving DecidableEq

/-- A failure of the storage during an operation, if there is one. -/
abbrev StorageFault := Option (StoragePoint × WorkspaceError)

/-- The error of the fault at this point. -/
def StorageFault.errorAt (fault : StorageFault) (point : StoragePoint) : Option WorkspaceError :=
  (fault.filter fun f => f.1 = point).map Prod.snd

namespace Workspace

/-- `update_document` for the document that was opened. -/
def updateDocument (docs : Docs) (userId : Str) (agentId : Option Nat) (path content : Str) : Docs :=
  match docs with
  | [] => []
  | d :: docs =>
    if d.userId == userId && d.agentId == agentId && d.path == path then { d with content := content } :: docs
    else d :: updateDocument docs userId agentId path content

/-- Opens a document and stores the new content that is computed from the old one. -/
def storeDocument (fault : StorageFault) (docs : Docs) (userId : Str) (agentId : Option Nat) (path : Str)
    (newContent : Str → Except WorkspaceError Str) : Docs × Except WorkspaceError Str :=
  match fault.errorAt .opening with
  | some e => (docs, .error e)
  | none =>
    let opened := getOrCreateDocumentByPath docs userId agentId path
    match fault.errorAt .created with
    | some e => (opened.2, .error e)
    | none =>
      match newContent opened.1, fault.errorAt .update with
      | .error e, _ => (opened.2, .error e)
      | .ok _, some e => (opened.2, .error e)
      | .ok content, none =>
        let docs := updateDocument opened.2 userId agentId path content
        match fault.errorAt .reindex with
        | some e => (docs, .error e)
        | none => (docs, .ok content)

/-- The old content, the separator and the new text; an empty document gets the text alone. -/
def appendTo (separator : Str) (old content : Str) : Str := if old.isEmpty then content else old ++ separator ++ content

end Workspace

/-! ## Layers -/

inductive LayerSensitivity
  | priv
  | shared
  deriving DecidableEq

structure MemoryLayer where
  name : Str
  scope : Str
  writable : Bool
  sensitivity : LayerSensitivity

def MemoryLayer.find (layers : List MemoryLayer) (name : Str) : Option MemoryLayer :=
  layers.find? fun l => l.name = name

def MemoryLayer.privateLayer (layers : List MemoryLayer) : Option MemoryLayer :=
  layers.find? fun l => l.sensitivity = .priv

/-- A workspace with its memory layers; the classifier, if there is one, tells sensitive texts. -/
structure LayeredWorkspace extends Workspace where
  memoryLayers : List MemoryLayer
  privacyClassifier : Option (Str → Bool)

/-- The default: one private layer for the user. -/
def LayeredWorkspace.ofUser (userId : Str) : LayeredWorkspace :=
  { Workspace.newWithDb userId with
    memoryLayers := [⟨"private".toList, userId, true, .priv⟩]
    privacyClassifier := none }

namespace LayeredWorkspace

/-- `resolve_layer_target`: the scope, the name of the layer and whether the write was redirected. -/
def resolveLayerTarget (w : LayeredWorkspace) (layerName content : Str) (force : Bool) :
    Except WorkspaceError (Str × Str × Bool) :=
  match MemoryLayer.find w.memoryLayers layerName with
  | none => .error (.layerNotFound layerName)
  | some layer =>
    if !layer.writable then .error (.layerReadOnly layerName)
    else if !force && layer.sensitivity = .shared && w.privacyClassifier.any (fun classify => classify content) then
      match MemoryLayer.privateLayer w.memoryLayers with
      | none => .error .privacyRedirectFailed
      | some target =>
        if !target.writable then .error .privacyRedirectFailed else .ok (target.scope, target.name, true)
    else .ok (layer.scope, layerName, false)

/-! ## Operations -/

section Operations

variable (isWord : Char → Bool) (fault : StorageFault) (w : LayeredWorkspace) (docs : Docs)

/-- `reject_if_injected`. -/
def rejectIfInjected (path content : Str) : Except WorkspaceError Unit :=
  let severe := (Sanitizer.new.detect isWord content).filter fun warning =>
    Severity.high.value ≤ warning.severity.value
  if severe.isEmpty then .ok ()
  else .error (.injectionRejected path (join "; ".toList (severe.map InjectionWarning.description)))

/-- The scan of a write to a file of the system prompt. -/
def scan (path content : Str) : Except WorkspaceError Unit :=
  if Workspace.isSystemPromptFile path && !content.isEmpty then rejectIfInjected isWord path content else .ok ()

def write (path content : Str) : Docs × Except WorkspaceError Str :=
  let path := Workspace.normalizePath path
  match scan isWord path content with
  | .error e => (docs, .error e)
  | .ok () => Workspace.storeDocument fault docs w.userId w.agentId path fun _ => .ok content

/-- `append`: the text is scanned, and again together with the old content. -/
def append (path content : Str) : Docs × Except WorkspaceError Str :=
  let path := Workspace.normalizePath path
  match scan isWord path content with
  | .error e => (docs, .error e)
  | .ok () =>
    Workspace.storeDocument fault docs w.userId w.agentId path fun old =>
      let newContent := Workspace.appendTo "\n".toList old content
      (scan isWord path newContent).map fun _ => newContent

def appendMemory (entry : Str) : Docs × Except WorkspaceError Str :=
  Workspace.storeDocument fault docs w.userId w.agentId Workspace.MEMORY fun old =>
    .ok (Workspace.appendTo "\n\n".toList old entry)

/-- A store to the scope of a layer. -/
def storeToLayer (layerName path content : Str) (force : Bool) (newContent : Str → Str) :
    Docs × Except WorkspaceError Str :=
  match w.resolveLayerTarget layerName content force with
  | .error e => (docs, .error e)
  | .ok (scope, _, _) =>
    Workspace.storeDocument fault docs scope w.agentId (Workspace.normalizePath path) fun old => .ok (newContent old)

def writeToLayer (layerName path content : Str) (force : Bool) : Docs × Except WorkspaceError Str :=
  storeToLayer fault w docs layerName path content force fun _ => content

def appendToLayer (layerName path content : Str) (force : Bool) : Docs × Except WorkspaceError Str :=
  storeToLayer fault w docs layerName path content force fun old => Workspace.appendTo "\n\n".toList old content

/-- `delete`; a failure of the storage leaves the document. -/
def delete (path : Str) : Docs × Except WorkspaceError Unit :=
  let path := Workspace.normalizePath path
  match fault, Workspace.getDocumentByPath docs w.userId w.agentId path with
  | some f, _ => (docs, .error f.2)
  | none, none => (docs, .error (.documentNotFound path w.userId))
  | none, some _ =>
    (docs.filter fun d => !(d.userId == w.userId && d.agentId == w.agentId && d.path == path), .ok ())

end Operations

end LayeredWorkspace

end Ironclaw

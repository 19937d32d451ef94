import Ironclaw.Lib.Table
import Ironclaw.Workspace.Scoping

/-!
# The workspaces of the memory tools

A memory tool asks a resolver for the workspace of the user that its call is made for. With one user it is always the
workspace of the start; with several, a pool builds a workspace for each user, with the read scopes and the layers of
the configuration.

- `Agree` relates tables that hold the same documents for all scopes of a workspace; reads do not tell them apart;
- `workspaceOf_resolve`: a call does not change the workspace that any user gets;
- `ownOnly_iff`: when this workspace reads the documents of its user only.
-/

namespace Ironclaw

open Text

/-! ## Resolvers -/

/-- `WorkspacePool`: the read scopes and the layers of `workspace_config`, and the workspaces that were built. -/
structure WorkspacePool where
  readScopes : List Str
  memoryLayers : List MemoryLayer
  cache : Table Str LayeredWorkspace

namespace WorkspacePool

variable (pool : WorkspacePool) (userId : Str)

def buildWorkspace : LayeredWorkspace :=
  let ws := LayeredWorkspace.ofUser userId
  let ws := if pool.readScopes.isEmpty then ws else ws.withAdditionalReadScopes pool.readScopes
  ws.withMemoryLayers pool.memoryLayers

def resolve : LayeredWorkspace × WorkspacePool :=
  match pool.cache.lookup userId with
  | some ws => (ws, pool)
  | none =>
    let ws := pool.buildWorkspace userId
    (ws, { pool with cache := pool.cache.insert userId ws })

end WorkspacePool

/-- `WorkspaceResolver`: the fixed one, which does not look at the user, and the pool. -/
inductive WorkspaceResolver
  | fixedWorkspace (workspace : LayeredWorkspace)
  | workspacePool (pool : WorkspacePool)

namespace WorkspaceResolver

def resolve (resolver : WorkspaceResolver) (userId : Str) : LayeredWorkspace × WorkspaceResolver :=
  match resolver with
  | .fixedWorkspace workspace => (workspace, resolver)
  | .workspacePool pool => ((pool.resolve userId).1, .workspacePool (pool.resolve userId).2)

/-- The workspace that a tool gets for a user. -/
def workspaceOf (resolver : WorkspaceResolver) (userId : Str) : Workspace := (resolver.resolve userId).1.toWorkspace

/-- A call for any user leaves the workspaces of all users as they are. -/
theorem workspaceOf_resolve (resolver : WorkspaceResolver) (user userId : Str) :
    ((resolver.resolve user).2).workspaceOf userId = resolver.workspaceOf userId := by
  cases resolver with
  | fixedWorkspace workspace => rfl
  | workspacePool pool =>
    show (((pool.resolve user).2).resolve userId).1.toWorkspace = (pool.resolve userId).1.toWorkspace
    cases huser : pool.cache.lookup user with
    | some ws => simp only [WorkspacePool.resolve, huser]
    | none =>
      by_cases hsame : userId = user
      · subst hsame
        simp only [WorkspacePool.resolve, huser, AList.lookup_insert]
      · simp only [WorkspacePool.resolve, huser, AList.lookup_insert_ne hsame]
        cases pool.cache.lookup userId <;> rfl

/-- The tools of the user read no documents of another one: the fixed workspace is the user's and has no other scope,
the pool holds such a workspace for the user, or it holds none yet and its configuration has no other scope. -/
def OwnOnly (resolver : WorkspaceResolver) (userId : Str) : Prop :=
  match resolver with
  | .fixedWorkspace workspace => workspace.readUserIds = [userId]
  | .workspacePool pool =>
    match pool.cache.lookup userId with
    | some workspace => workspace.readUserIds = [userId]
    | none => ∀ scope ∈ pool.readScopes ++ pool.memoryLayers.map MemoryLayer.scope, scope = userId

end WorkspaceResolver

/-! ## The scopes of a workspace -/

namespace Workspace

theorem userId_mem (w : Workspace) : w.userId ∈ w.readUserIds := List.mem_of_mem_head? w.head

/-- The only scope is a user when all scopes are. -/
theorem readUserIds_eq_iff (w : Workspace) (userId : Str) :
    w.readUserIds = [userId] ↔ ∀ scope ∈ w.readUserIds, scope = userId := by
  constructor
  · intro h scope hscope
    rw [h] at hscope
    exact List.mem_singleton.mp hscope
  · intro hall
    have hmem := w.userId_mem
    have hnodup := w.nodup
    rcases hscopes : w.readUserIds with _ | ⟨scope, _ | ⟨scope', scopes⟩⟩
    · rw [hscopes] at hmem
      cases hmem
    · rw [hall scope (by rw [hscopes]; exact List.mem_singleton_self scope)]
    · have h := hall scope (by rw [hscopes]; simp)
      have h' := hall scope' (by rw [hscopes]; simp)
      rw [hscopes, h, h'] at hnodup
      simp at hnodup

end Workspace

namespace WorkspaceResolver

theorem mem_buildWorkspace (pool : WorkspacePool) (userId : Str) {scope : Str} :
    scope ∈ (pool.buildWorkspace userId).readUserIds ↔
      scope = userId ∨ scope ∈ pool.readScopes ++ pool.memoryLayers.map MemoryLayer.scope := by
  have hown : (LayeredWorkspace.ofUser userId).readUserIds = [userId] := rfl
  unfold WorkspacePool.buildWorkspace LayeredWorkspace.withMemoryLayers LayeredWorkspace.withAdditionalReadScopes
  rw [Workspace.mem_withAdditionalReadScopes, List.mem_append]
  split
  next hempty =>
    rw [hown, List.isEmpty_iff.mp hempty]
    simp
  · rw [Workspace.mem_withAdditionalReadScopes, hown, List.mem_singleton, or_assoc]

theorem ownOnly_iff (resolver : WorkspaceResolver) (userId : Str) :
    resolver.OwnOnly userId ↔ (resolver.workspaceOf userId).readUserIds = [userId] := by
  cases resolver with
  | fixedWorkspace workspace => exact Iff.rfl
  | workspacePool pool =>
    unfold OwnOnly workspaceOf resolve WorkspacePool.resolve
    dsimp only
    cases pool.cache.lookup userId with
    | some workspace => exact Iff.rfl
    | none =>
      dsimp only
      rw [Workspace.readUserIds_eq_iff]
      constructor
      · intro hall scope hscope
        rcases (mem_buildWorkspace pool userId).mp hscope with hown | hother
        · exact hown
        · exact hall scope hother
      · exact fun hall scope hscope => hall scope ((mem_buildWorkspace pool userId).mpr (.inr hscope))

end WorkspaceResolver

/-! ## Tables that agree for a workspace -/

namespace Workspace

/-- The tables hold the same documents for all scopes of the workspace. -/
def Agree (w : Workspace) (docs docs' : Docs) : Prop := ∀ scope ∈ w.readUserIds, SameDocs scope docs docs'

theorem agree_iff {w : Workspace} {userId : Str} (h : w.readUserIds = [userId]) {docs docs' : Docs} :
    w.Agree docs docs' ↔ SameDocs userId docs docs' := by
  unfold Agree
  rw [h]
  simp

theorem getMulti_congr {docs docs' : Docs} {agentId : Option Nat} {path : Str} : ∀ {scopes : List Str},
    (∀ scope ∈ scopes, getDocumentByPath docs scope agentId path = getDocumentByPath docs' scope agentId path) →
      getDocumentByPathMulti docs scopes agentId path = getDocumentByPathMulti docs' scopes agentId path
  | [], _ => rfl
  | scope :: scopes, h => by
    have hscope := h scope List.mem_cons_self
    have hscopes := getMulti_congr fun s hs => h s (List.mem_cons_of_mem _ hs)
    unfold getDocumentByPathMulti at hscopes ⊢
    rw [List.findSome?_cons, List.findSome?_cons, hscope, hscopes]

theorem read_congr {w : Workspace} {docs docs' : Docs} {path : Str}
    (h : ∀ scope ∈ w.readUserIds, getDocumentByPath docs scope w.agentId (normalizePath path) =
      getDocumentByPath docs' scope w.agentId (normalizePath path)) : w.read docs path = w.read docs' path := by
  simp only [read, h w.userId w.userId_mem, getMulti_congr h]

theorem read_agree {w : Workspace} {docs docs' : Docs} (h : w.Agree docs docs') (path : Str) :
    w.read docs path = w.read docs' path := read_congr fun scope hscope => h scope hscope _ _

/-- A document of any scope is read, when the table holds no other. -/
theorem read_only {w : Workspace} {scope : Str} (h : scope ∈ w.readUserIds) {path : Str}
    (hpath : normalizePath path = path) (hident : isIdentityPath path = false) (content : Str) :
    w.read [⟨scope, w.agentId, path, content⟩] path = some content := by
  have hget : ∀ {user : Str} {c : Str},
      getDocumentByPath [⟨scope, w.agentId, path, content⟩] user w.agentId path = some c → c = content := by
    intro user c hc
    obtain ⟨d, hd, rfl⟩ := Option.map_eq_some_iff.mp hc
    rw [List.mem_singleton.mp (List.mem_of_find?_eq_some hd)]
  have hscope : getDocumentByPath [⟨scope, w.agentId, path, content⟩] scope w.agentId path = some content := by
    simp [getDocumentByPath]
  simp only [read, hpath, hident, Bool.and_false, Bool.false_eq_true, if_false]
  split
  · obtain ⟨c, hc⟩ : ∃ c, getDocumentByPathMulti [⟨scope, w.agentId, path, content⟩] w.readUserIds w.agentId path =
        some c := by
      rw [← Option.isSome_iff_exists, getDocumentByPathMulti, List.findSome?_isSome_iff]
      exact ⟨scope, h, by rw [hscope]; rfl⟩
    obtain ⟨user, -, huser⟩ := List.exists_of_findSome?_eq_some hc
    rw [hc, hget huser]
  next hmulti =>
    -- with one read scope, it is the user
    have hone : scope = w.userId := by
      have hhead := w.head
      rcases hscopes : w.readUserIds with _ | ⟨user, _ | ⟨user', users⟩⟩
      · simp [hscopes] at h
      · rw [hscopes] at h hhead
        exact (List.mem_singleton.mp h).trans (Option.some.inj hhead)
      · simp [isMultiScope, hscopes] at hmulti
    rw [← hone, hscope]

end Workspace

end Ironclaw

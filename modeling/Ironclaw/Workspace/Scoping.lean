import Ironclaw.Workspace.Write

/-!
# Workspaces for another user

A workspace is configured with memory layers and read scopes and then scoped to the user of a message. The private
layers of its owner become those of the user.

- `mem_scopedToUser`: what the user reads;
- `shared_given`: where the shared layers come from;
- `scopedToUser_spec`: the layers of the owner are dropped, all others are kept.
-/

namespace Ironclaw

open Text

namespace Workspace

variable (w : Workspace) (scopes : List Str)

@[simp] theorem userId_addReadScope (scope : Str) : (w.addReadScope scope).userId = w.userId := by
  unfold addReadScope
  split <;> rfl

@[simp] theorem mem_addReadScope {s scope : Str} :
    s ∈ (w.addReadScope scope).readUserIds ↔ s ∈ w.readUserIds ∨ s = scope := by
  unfold addReadScope
  split
  next h =>
    have hmem : scope ∈ w.readUserIds := by simpa using h
    constructor
    · exact Or.inl
    · rintro (h | rfl) <;> assumption
  next => simp

@[simp] theorem userId_withAdditionalReadScopes : (w.withAdditionalReadScopes scopes).userId = w.userId := by
  induction scopes generalizing w with
  | nil => rfl
  | cons scope scopes ih => exact (ih _).trans (userId_addReadScope w scope)

/-- The read scopes are the old ones and the new ones. -/
@[simp] theorem mem_withAdditionalReadScopes {s : Str} :
    s ∈ (w.withAdditionalReadScopes scopes).readUserIds ↔ s ∈ w.readUserIds ∨ s ∈ scopes := by
  induction scopes generalizing w with
  | nil => simp [withAdditionalReadScopes]
  | cons scope scopes ih =>
    refine (ih _).trans ?_
    rw [mem_addReadScope, List.mem_cons, or_assoc]

end Workspace

namespace LayeredWorkspace

/-! ## Builders -/

def withMemoryLayers (w : LayeredWorkspace) (layers : List MemoryLayer) : LayeredWorkspace :=
  { w with
    toWorkspace := w.toWorkspace.withAdditionalReadScopes (layers.map MemoryLayer.scope)
    memoryLayers := layers }

def withAdditionalReadScopes (w : LayeredWorkspace) (scopes : List Str) : LayeredWorkspace :=
  { w with toWorkspace := w.toWorkspace.withAdditionalReadScopes scopes }

/-- A layer of the owner becomes one of the user, if it is private. -/
def rescope (owner user : Str) (layer : MemoryLayer) : MemoryLayer :=
  if layer.sensitivity = .priv ∧ layer.scope = owner then { layer with scope := user } else layer

def scopedToUser (w : LayeredWorkspace) (user : Str) : LayeredWorkspace :=
  let layers := w.memoryLayers.map (rescope w.userId user)
  let own : Workspace := { Workspace.newWithDb user with
    agentId := w.agentId
    bootstrapCompleted := if user = w.userId then w.bootstrapCompleted else false }
  { toWorkspace :=
      (own.withAdditionalReadScopes (w.readUserIds.filter fun scope => scope ≠ w.userId)).withAdditionalReadScopes
        (layers.map MemoryLayer.scope)
    memoryLayers := layers
    privacyClassifier := w.privacyClassifier }

/-- A call of a builder. -/
inductive Builder
  | memoryLayers (layers : List MemoryLayer)
  | readScopes (scopes : List Str)

def Builder.apply (w : LayeredWorkspace) : Builder → LayeredWorkspace
  | .memoryLayers layers => w.withMemoryLayers layers
  | .readScopes scopes => w.withAdditionalReadScopes scopes

/-- A workspace of a user after some builder calls. -/
def build (w : LayeredWorkspace) (calls : List Builder) : LayeredWorkspace := calls.foldl Builder.apply w

/-- Some call gave the scope to a shared layer or as a read scope. -/
def Given (calls : List Builder) (scope : Str) : Prop :=
  (∃ layers, .memoryLayers layers ∈ calls ∧ ∃ layer ∈ layers, layer.sensitivity = .shared ∧ layer.scope = scope) ∨
    ∃ scopes, .readScopes scopes ∈ calls ∧ scope ∈ scopes

/-- The workspace neither reads the scope nor has a layer with it. -/
def Drops (w : LayeredWorkspace) (scope : Str) : Prop :=
  scope ∉ w.readUserIds ∧ ∀ layer ∈ w.memoryLayers, layer.scope ≠ scope

/-! ## What the user reads -/

section Scoped

variable (w : LayeredWorkspace) (user : Str)

theorem memoryLayers_scopedToUser : (w.scopedToUser user).memoryLayers = w.memoryLayers.map (rescope w.userId user) :=
  rfl

@[simp] theorem userId_scopedToUser : (w.scopedToUser user).userId = user := by
  refine (Workspace.userId_withAdditionalReadScopes _ _).trans ?_
  exact Workspace.userId_withAdditionalReadScopes _ _

theorem rescope_of_shared {owner : Str} {layer : MemoryLayer} (h : layer.sensitivity = .shared) :
    rescope owner user layer = layer := by
  simp [rescope, h]

theorem rescope_of_other {owner : Str} {layer : MemoryLayer} (h : layer.scope ≠ owner) :
    rescope owner user layer = layer := by
  simp [rescope, h]

/-- The sensitivity of a layer stays. -/
theorem sensitivity_rescope (owner : Str) (layer : MemoryLayer) :
    (rescope owner user layer).sensitivity = layer.sensitivity := by
  unfold rescope
  split <;> rfl

/-- The user reads the own scope, the scopes that are not the owner's, and the scopes of the layers. -/
theorem mem_scopedToUser {s : Str} : s ∈ (w.scopedToUser user).readUserIds ↔
    s = user ∨ (s ∈ w.readUserIds ∧ s ≠ w.userId) ∨
      ∃ layer ∈ w.memoryLayers, (rescope w.userId user layer).scope = s := by
  simp only [scopedToUser, Workspace.mem_withAdditionalReadScopes]
  simp [Workspace.newWithDb, or_assoc]

/-- Only a shared layer keeps the scope of the owner. -/
theorem shared_of_owner {layer : MemoryLayer} (huser : user ≠ w.userId)
    (h : (rescope w.userId user layer).scope = w.userId) : layer.sensitivity = .shared ∧ layer.scope = w.userId := by
  unfold rescope at h
  split at h
  next => exact absurd h huser
  next hnot =>
    refine ⟨?_, h⟩
    cases hs : layer.sensitivity with
    | priv => exact absurd ⟨hs, h⟩ hnot
    | shared => rfl

theorem shared_scopedToUser : (w.scopedToUser user).memoryLayers.filter (fun layer => layer.sensitivity = .shared) =
    w.memoryLayers.filter fun layer => layer.sensitivity = .shared := by
  rw [memoryLayers_scopedToUser]
  induction w.memoryLayers with
  | nil => rfl
  | cons layer layers ih =>
    rw [List.map_cons, List.filter_cons, List.filter_cons, ih, sensitivity_rescope]
    split
    next h => rw [rescope_of_shared user (by simpa using h)]
    next => rfl

end Scoped

/-! ## Where the layers come from -/

theorem userId_build (w : LayeredWorkspace) (calls : List Builder) : (w.build calls).userId = w.userId := by
  induction calls generalizing w with
  | nil => rfl
  | cons call calls ih =>
    refine (ih (call.apply w)).trans ?_
    cases call <;> exact Workspace.userId_withAdditionalReadScopes _ _

/-- The shared layers of a built workspace were there or given by a call. -/
theorem shared_given (w : LayeredWorkspace) (calls : List Builder) {layer : MemoryLayer}
    (hlayer : layer ∈ (w.build calls).memoryLayers) (hshared : layer.sensitivity = .shared) :
    layer ∈ w.memoryLayers ∨ Given calls layer.scope := by
  induction calls generalizing w with
  | nil => exact Or.inl hlayer
  | cons call calls ih =>
    have hcall := ih (call.apply w) hlayer
    rcases hcall with h | ⟨layers, hmem, hex⟩ | ⟨scopes, hmem, hex⟩
    · cases call with
      | memoryLayers layers => exact Or.inr (Or.inl ⟨layers, by simp, layer, h, hshared, rfl⟩)
      | readScopes scopes => exact Or.inl h
    · exact Or.inr (Or.inl ⟨layers, List.mem_cons_of_mem _ hmem, hex⟩)
    · exact Or.inr (Or.inr ⟨scopes, List.mem_cons_of_mem _ hmem, hex⟩)

/-! ## Scoping a built workspace -/

/-- **Scoping.** A private layer of the owner is dropped with its scope, unless the scope was given in another way too;
the private layers of others and the shared layers are kept, and the user is the first read scope. -/
theorem scopedToUser_spec (owner user : Str) (calls : List Builder) (huser : user ≠ owner) :
    (∀ layer ∈ ((ofUser owner).build calls).memoryLayers, layer.sensitivity = .priv → layer.scope = owner →
      ¬Given calls layer.scope → (((ofUser owner).build calls).scopedToUser user).Drops layer.scope) ∧
    (∀ layer ∈ ((ofUser owner).build calls).memoryLayers, layer.sensitivity = .priv → layer.scope ≠ owner →
      layer ∈ (((ofUser owner).build calls).scopedToUser user).memoryLayers ∧
        layer.scope ∈ (((ofUser owner).build calls).scopedToUser user).readUserIds) ∧
    (((ofUser owner).build calls).scopedToUser user).memoryLayers.filter (fun layer => layer.sensitivity = .shared) =
      ((ofUser owner).build calls).memoryLayers.filter (fun layer => layer.sensitivity = .shared) ∧
    (((ofUser owner).build calls).scopedToUser user).readUserIds.head? = some user := by
  have howner : ((ofUser owner).build calls).userId = owner := userId_build _ _
  have hgiven : ∀ layer ∈ ((ofUser owner).build calls).memoryLayers, layer.sensitivity = .shared →
      Given calls layer.scope := by
    intro layer hlayer hshared
    rcases shared_given _ calls hlayer hshared with h | h
    · have hdefault : layer = ⟨"private".toList, owner, true, .priv⟩ := List.mem_singleton.mp h
      rw [hdefault] at hshared
      cases hshared
    · exact h
  generalize (ofUser owner).build calls = w at howner hgiven
  subst howner
  refine ⟨?_, ?_, shared_scopedToUser w user, ?_⟩
  · intro layer hlayer _ hscope hnot
    -- another layer that has the scope of the owner would be a shared one
    have hdrop : ∀ other ∈ w.memoryLayers, (rescope w.userId user other).scope ≠ w.userId := by
      intro other hother heq
      obtain ⟨hshared, hsame⟩ := shared_of_owner w user huser heq
      apply hnot
      rw [hscope, ← hsame]
      exact hgiven other hother hshared
    rw [hscope]
    constructor
    · rw [mem_scopedToUser]
      rintro (h | ⟨-, h⟩ | ⟨other, hother, h⟩)
      · exact huser h.symm
      · exact h rfl
      · exact hdrop other hother h
    · rw [memoryLayers_scopedToUser]
      intro other hother
      obtain ⟨old, hold, rfl⟩ := List.mem_map.mp hother
      exact hdrop old hold
  · intro layer hlayer _ hscope
    have hsame := rescope_of_other user hscope
    constructor
    · rw [memoryLayers_scopedToUser]
      exact List.mem_map.mpr ⟨layer, hlayer, hsame⟩
    · rw [mem_scopedToUser]
      exact Or.inr (Or.inr ⟨layer, hlayer, by rw [hsame]⟩)
  · rw [(w.scopedToUser user).head, userId_scopedToUser]

theorem scopedToUser_alice :
    ((ofUser "owner".toList).build [.readScopes ["team".toList]] |>.scopedToUser "alice".toList).Drops
      "owner".toList := by
  have hnot : ¬Given [.readScopes ["team".toList]] "owner".toList := by
    rintro (⟨layers, hmem, -⟩ | ⟨scopes, hmem, hscope⟩)
    · simp at hmem
    · obtain rfl : scopes = ["team".toList] := by simpa using hmem
      exact absurd hscope (by decide)
  exact (scopedToUser_spec "owner".toList "alice".toList [.readScopes ["team".toList]] (by decide)).1
    ⟨"private".toList, "owner".toList, true, .priv⟩ (List.mem_singleton.mpr rfl) rfl rfl hnot

/-- A private layer with a scope that is not the owner's. -/
def bobLayer : MemoryLayer := ⟨"notes".toList, "bob".toList, true, .priv⟩

/-- The private layer of a third user is kept. -/
theorem private_layer_is_kept : ¬∀ (owner user : Str) (calls : List Builder), user ≠ owner →
    ∀ layer ∈ ((ofUser owner).build calls).memoryLayers, layer.sensitivity = .priv → layer.scope ≠ user →
      ¬Given calls layer.scope → (((ofUser owner).build calls).scopedToUser user).Drops layer.scope := by
  intro h
  have hnot : ¬Given [.memoryLayers [bobLayer]] bobLayer.scope := by
    rintro (⟨layers, hmem, layer, hlayer, hshared, -⟩ | ⟨scopes, hmem, -⟩)
    · obtain rfl : layers = [bobLayer] := by simpa using hmem
      obtain rfl := List.mem_singleton.mp hlayer
      cases hshared
    · simp at hmem
  have hdrop := h "owner".toList "alice".toList [.memoryLayers [bobLayer]] (by decide) bobLayer
    (List.mem_singleton.mpr rfl) rfl (by decide) hnot
  exact hdrop.2 bobLayer (List.mem_singleton.mpr rfl) rfl

end LayeredWorkspace

end Ironclaw

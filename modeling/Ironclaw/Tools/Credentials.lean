import Ironclaw.Secrets.Credentials
import Ironclaw.Tools.Registry

/-!
# The credential mappings of WASM tools

A WASM tool brings the credential mappings of its `http` capability. The mappings of all tools stand in one shared list,
from which the `http` tool takes the credentials of a host; the list does not say which tool a mapping came with.

- `authority`: the mappings of the tools that are registered, what the list is for;
- `follows_iff`: one step keeps the list at the authority exactly when it meets `KeepsAuthority`;
- `authority_follows_iff`: the same for a run;
- `authority_drifts`: the mapping of a rejected tool stays, and a removal takes the mapping of another tool.
-/

namespace Ironclaw.Tools

open Text Run Secrets

/-- `WasmToolWrapper`: its name and the values of `http.credentials` in its capabilities, if it has the capability. -/
structure WasmTool where
  name : Str
  http : Option (List CredentialMapping)
  deriving DecidableEq

/-- The mappings that `register_wasm` takes from the capabilities. -/
def WasmTool.credentialMappings (tool : WasmTool) : List CredentialMapping := tool.http.getD []

/-- `dyn Tool`. -/
inductive Tool
  | builtin (name : Str)
  | wasm (tool : WasmTool)
  deriving DecidableEq

namespace Tool

def name : Tool → Str
  | .builtin name => name
  | .wasm tool => tool.name

def credentialMappings : Tool → List CredentialMapping
  | .builtin _ => []
  | .wasm tool => tool.credentialMappings

end Tool

namespace ToolRegistry

/-- `SharedCredentialRegistry::remove_mappings_for_secrets`. -/
def removeMappingsForSecrets (reg : ToolRegistry Tool CredentialMapping) (secretNames : List Str) :
    ToolRegistry Tool CredentialMapping :=
  { reg with credentialRegistry :=
      reg.credentialRegistry.map fun mappings => mappings.filter fun m => !secretNames.contains m.secretName }

/-- The mappings of the tool that is registered under a name. -/
def mappingsOf (reg : ToolRegistry Tool CredentialMapping) (name : Str) : List CredentialMapping :=
  match reg.get name with
  | none => []
  | some tool => tool.credentialMappings

/-- The secret names of the tool that is registered under a name. -/
def secretNamesOf (reg : ToolRegistry Tool CredentialMapping) (name : Str) : List Str :=
  (reg.mappingsOf name).map CredentialMapping.secretName

end ToolRegistry

/-- A registration, whose module is prepared or not, and the removal of a tool with its secret names. -/
inductive WasmOp
  | registerWasm (prepared : Bool) (tool : WasmTool)
  | remove (name : Str)

def wasmStep (reg : ToolRegistry Tool CredentialMapping) : WasmOp → ToolRegistry Tool CredentialMapping
  | .registerWasm prepared tool =>
    reg.registerWasm Tool.name (if prepared then some (.wasm tool) else none) tool.credentialMappings
  | .remove name => (reg.unregister name).removeMappingsForSecrets (reg.secretNamesOf name)

def BuiltinOp.map {T T' : Type} (f : T → T') : BuiltinOp T → BuiltinOp T'
  | .registerSync toolsFree namesFree tool => .registerSync toolsFree namesFree (f tool)
  | .registerMessageTools tool => .registerMessageTools (f tool)

/-- The state after the startup, with the names of the built-in tools and an empty list of mappings. -/
def wasmStartup (builtins : List (BuiltinOp Str)) : ToolRegistry Tool CredentialMapping :=
  startup Tool.name (some []) (builtins.map (BuiltinOp.map Tool.builtin))

/-! ## What the list is for -/

section Authority

/-- The mappings on the shared list. -/
def held (reg : ToolRegistry Tool CredentialMapping) : Set CredentialMapping :=
  {m | ∃ mappings ∈ reg.credentialRegistry, m ∈ mappings}

/-- The mappings of the registered tools. -/
def authority (reg : ToolRegistry Tool CredentialMapping) : Set CredentialMapping :=
  {m | ∃ name, m ∈ reg.mappingsOf name}

/-- The mappings of the tools that are registered under another name. -/
def authorityExcept (reg : ToolRegistry Tool CredentialMapping) (removed : Str) : Set CredentialMapping :=
  {m | ∃ name, name ≠ removed ∧ m ∈ reg.mappingsOf name}

/-- The registry has a shared list, with the mappings of the registered tools and no others. -/
def ExactAuthority (reg : ToolRegistry Tool CredentialMapping) : Prop :=
  reg.credentialRegistry.isSome ∧ held reg = authority reg

/-- `register` returns before the tool is inserted. -/
def Rejected (reg : ToolRegistry Tool CredentialMapping) (name : Str) : Prop :=
  PROTECTED_TOOL_NAMES.contains name && reg.builtinNames.contains name

instance (reg : ToolRegistry Tool CredentialMapping) (name : Str) : Decidable (Rejected reg name) :=
  inferInstanceAs (Decidable (_ = true))

/-- After a step the list is exact; a rejected tool adds nothing and a removal keeps the other tools' mappings. -/
structure FollowsRegistration (reg : ToolRegistry Tool CredentialMapping) (op : WasmOp) : Prop where
  exact : ExactAuthority (wasmStep reg op)
  rejected_adds_none : ∀ tool, op = .registerWasm true tool → Rejected reg tool.name →
    held (wasmStep reg op) ⊆ held reg
  removal_keeps_others : ∀ name, op = .remove name → authorityExcept reg name ⊆ held (wasmStep reg op)

/-- A rejected tool has only mappings of registered tools; a tool that is replaced has only mappings that the new tool
or another tool also has; a tool that is removed shares no secret name with a mapping of another tool. -/
def KeepsAuthority (reg : ToolRegistry Tool CredentialMapping) : WasmOp → Prop
  | .registerWasm prepared tool =>
    prepared →
      if Rejected reg tool.name then ∀ m ∈ tool.credentialMappings, m ∈ authority reg
      else ∀ m ∈ reg.mappingsOf tool.name, m ∈ tool.credentialMappings ∨ m ∈ authorityExcept reg tool.name
  | .remove name => ∀ m ∈ authorityExcept reg name, m.secretName ∉ reg.secretNamesOf name

variable {reg reg' : ToolRegistry Tool CredentialMapping}

/-- The authority is that of one name and that of the others. -/
theorem mem_authority_iff (name : Str) (m : CredentialMapping) :
    m ∈ authority reg ↔ m ∈ reg.mappingsOf name ∨ m ∈ authorityExcept reg name := by
  constructor
  · rintro ⟨other, hm⟩
    by_cases h : other = name
    · subst h
      exact .inl hm
    · exact .inr ⟨other, h, hm⟩
  · rintro (hm | ⟨other, -, hm⟩)
    · exact ⟨name, hm⟩
    · exact ⟨other, hm⟩

theorem mappingsOf_congr {name : Str} (h : reg'.get name = reg.get name) :
    reg'.mappingsOf name = reg.mappingsOf name := by
  rw [ToolRegistry.mappingsOf, h, ToolRegistry.mappingsOf]

theorem authority_congr (h : ∀ name, reg'.get name = reg.get name) : authority reg' = authority reg := by
  ext m
  exact exists_congr fun name => by rw [mappingsOf_congr (h name)]

theorem authorityExcept_congr {removed : Str} (h : ∀ name, name ≠ removed → reg'.get name = reg.get name) :
    authorityExcept reg' removed = authorityExcept reg removed := by
  ext m
  exact exists_congr fun name => and_congr_right fun hne => by rw [mappingsOf_congr (h name hne)]

/-! ## One step -/

/-- What a registration does: the list grows in both cases, the tools change only in the second one. -/
theorem registerWasm_spec (tool : WasmTool) :
    let after := wasmStep reg (.registerWasm true tool)
    after.credentialRegistry = reg.credentialRegistry.map (· ++ tool.credentialMappings) ∧
      (Rejected reg tool.name → ∀ name, after.get name = reg.get name) ∧
      (¬Rejected reg tool.name →
        ∀ name, after.get name = if name = tool.name then some (.wasm tool) else reg.get name) := by
  intro after
  by_cases hrej : Rejected reg tool.name
  · have hregister : reg.register Tool.name (.wasm tool) = reg := if_pos hrej
    simp only [after, wasmStep, ToolRegistry.registerWasm, if_pos, hregister]
    exact ⟨trivial, fun _ _ => rfl, fun hfree => absurd hrej hfree⟩
  · have hregister : reg.register Tool.name (.wasm tool) = reg.insert Tool.name (.wasm tool) := if_neg hrej
    simp only [after, wasmStep, ToolRegistry.registerWasm, if_pos, hregister]
    exact ⟨rfl, fun h => absurd h hrej, fun _ name => get_insert Tool.name (.wasm tool) name⟩

/-- What a removal does. -/
theorem remove_spec (removed : Str) :
    let after := wasmStep reg (.remove removed)
    after.credentialRegistry =
        reg.credentialRegistry.map (List.filter fun m => !(reg.secretNamesOf removed).contains m.secretName) ∧
      ∀ name, after.get name = if name = removed then none else reg.get name :=
  ⟨rfl, fun _ => Function.update_apply ..⟩

theorem held_append {more : List CredentialMapping} (hsome : reg.credentialRegistry.isSome)
    (h : reg'.credentialRegistry = reg.credentialRegistry.map (· ++ more)) (m : CredentialMapping) :
    m ∈ held reg' ↔ m ∈ held reg ∨ m ∈ more := by
  obtain ⟨mappings, hlist⟩ := Option.isSome_iff_exists.mp hsome
  simp [held, h, hlist]

theorem held_filter {p : CredentialMapping → Bool}
    (h : reg'.credentialRegistry = reg.credentialRegistry.map (List.filter p)) (m : CredentialMapping) :
    m ∈ held reg' ↔ m ∈ held reg ∧ p m := by
  cases hlist : reg.credentialRegistry <;> simp [held, h, hlist]

/-- A rejected registration keeps the list exact when the tool brings nothing new. -/
theorem follows_rejected_iff {tool : WasmTool} (hreg : ExactAuthority reg) (hrej : Rejected reg tool.name) :
    FollowsRegistration reg (.registerWasm true tool) ↔ ∀ m ∈ tool.credentialMappings, m ∈ authority reg := by
  obtain ⟨hlist, hget, -⟩ := @registerWasm_spec reg tool
  have hheld := held_append hreg.1 hlist
  have hauth : authority (wasmStep reg (.registerWasm true tool)) = authority reg := authority_congr (hget hrej)
  constructor
  · intro h m hm
    have hmem : m ∈ held (wasmStep reg (.registerWasm true tool)) := (hheld m).mpr (.inr hm)
    rw [h.exact.2, hauth] at hmem
    exact hmem
  · intro h
    have hsub : held (wasmStep reg (.registerWasm true tool)) ⊆ held reg := by
      intro m hm
      rcases (hheld m).mp hm with hm | hm
      · exact hm
      · rw [hreg.2]
        exact h m hm
    refine ⟨⟨?_, ?_⟩, fun _ _ _ => hsub, fun name hop => by cases hop⟩
    · rw [hlist, Option.isSome_map]
      exact hreg.1
    · rw [hauth, ← hreg.2]
      exact hsub.antisymm fun m hm => (hheld m).mpr (.inl hm)

/-- A registration keeps the list exact when every mapping of the tool that it replaces still has a tool. -/
theorem follows_accepted_iff {tool : WasmTool} (hreg : ExactAuthority reg) (hfree : ¬Rejected reg tool.name) :
    FollowsRegistration reg (.registerWasm true tool) ↔
      ∀ m ∈ reg.mappingsOf tool.name, m ∈ tool.credentialMappings ∨ m ∈ authorityExcept reg tool.name := by
  obtain ⟨hlist, -, hget⟩ := @registerWasm_spec reg tool
  have hheld := held_append hreg.1 hlist
  generalize hafter : wasmStep reg (.registerWasm true tool) = after at *
  have hnew : after.mappingsOf tool.name = tool.credentialMappings := by
    rw [ToolRegistry.mappingsOf, hget hfree, if_pos rfl]
    rfl
  have hothers : authorityExcept after tool.name = authorityExcept reg tool.name :=
    authorityExcept_congr fun name hne => by rw [hget hfree, if_neg hne]
  have hauth (m : CredentialMapping) :
      m ∈ authority after ↔ m ∈ tool.credentialMappings ∨ m ∈ authorityExcept reg tool.name := by
    rw [mem_authority_iff tool.name, hnew, hothers]
  constructor
  · intro h m hm
    have hmem : m ∈ held after := (hheld m).mpr (.inl (hreg.2 ▸ ⟨tool.name, hm⟩))
    rw [← hafter, h.exact.2, hafter] at hmem
    exact (hauth m).mp hmem
  · intro h
    refine ⟨hafter ▸ ⟨?_, ?_⟩, fun _ hop hrej => ?_, fun name hop => by cases hop⟩
    · rw [hlist, Option.isSome_map]
      exact hreg.1
    · ext m
      rw [hheld, hreg.2, hauth, mem_authority_iff tool.name]
      have hm := h m
      tauto
    · cases hop
      exact absurd hrej hfree

/-- A removal keeps the list exact when no other tool has a mapping with one of the secret names. -/
theorem follows_remove_iff {name : Str} (hreg : ExactAuthority reg) :
    FollowsRegistration reg (.remove name) ↔ ∀ m ∈ authorityExcept reg name, m.secretName ∉ reg.secretNamesOf name := by
  obtain ⟨hlist, hget⟩ := @remove_spec reg name
  have hheld := held_filter hlist
  generalize hafter : wasmStep reg (.remove name) = after at *
  have hnone : after.mappingsOf name = [] := by
    rw [ToolRegistry.mappingsOf, hget, if_pos rfl]
  have hothers : authorityExcept after name = authorityExcept reg name :=
    authorityExcept_congr fun other hne => by rw [hget, if_neg hne]
  have hauth (m : CredentialMapping) : m ∈ authority after ↔ m ∈ authorityExcept reg name := by
    rw [mem_authority_iff name, hnone, hothers]
    simp only [List.not_mem_nil, false_or]
  have hkept (m : CredentialMapping) :
      m ∈ held after ↔ m ∈ authority reg ∧ m.secretName ∉ reg.secretNamesOf name := by
    rw [hheld, hreg.2]
    simp
  constructor
  · intro h m hm
    have hmem : m ∈ held after := hafter ▸ h.removal_keeps_others name rfl hm
    exact ((hkept m).mp hmem).2
  · intro h
    have hexact : held after = authority after := by
      ext m
      rw [hkept, hauth, mem_authority_iff name]
      constructor
      · rintro ⟨hown | hother, hsecret⟩
        · exact absurd (List.mem_map_of_mem hown) hsecret
        · exact hother
      · exact fun hm => ⟨.inr hm, h m hm⟩
    refine ⟨hafter ▸ ⟨?_, hexact⟩, fun _ hop => (by cases hop), fun removed hop m hm => ?_⟩
    · rw [hlist, Option.isSome_map]
      exact hreg.1
    · cases hop
      rw [hafter, hexact]
      exact (hauth m).mpr hm

/-- A step follows the registrations exactly when it meets the condition. -/
theorem follows_iff (hreg : ExactAuthority reg) (op : WasmOp) : FollowsRegistration reg op ↔ KeepsAuthority reg op := by
  cases op with
  | registerWasm prepared tool =>
    cases prepared with
    | false =>
      have hfollows : FollowsRegistration reg (.registerWasm false tool) :=
        ⟨hreg, fun _ hop => (by cases hop), fun _ hop => by cases hop⟩
      exact iff_of_true hfollows fun h => by cases h
    | true =>
      simp only [KeepsAuthority, forall_const]
      split
      next hrej => exact follows_rejected_iff hreg hrej
      next hfree => exact follows_accepted_iff hreg hfree
  | remove name => exact follows_remove_iff hreg

/-! ## Runs -/

/-- The startup registers no WASM tool. -/
theorem exact_wasmStartup (builtins : List (BuiltinOp Str)) : ExactAuthority (wasmStartup builtins) := by
  have hstep : ∀ (reg : ToolRegistry Tool CredentialMapping) (op : BuiltinOp Str),
      reg.credentialRegistry = some [] ∧ (∀ name, reg.mappingsOf name = []) →
        (builtinStep Tool.name reg (op.map .builtin)).credentialRegistry = some [] ∧
          ∀ name, (builtinStep Tool.name reg (op.map .builtin)).mappingsOf name = [] := by
    rintro reg op ⟨hlist, hnone⟩
    have hinsert : ∀ builtin name, (reg.insert Tool.name (.builtin builtin)).mappingsOf name = [] := by
      intro builtin name
      rw [ToolRegistry.mappingsOf, get_insert]
      by_cases h : name = Tool.name (.builtin builtin)
      · rw [if_pos h]
        rfl
      · rw [if_neg h]
        exact hnone name
    cases op with
    | registerSync toolsFree namesFree builtin =>
      cases toolsFree with
      | false => exact ⟨hlist, hnone⟩
      | true => cases namesFree <;> exact ⟨hlist, hinsert builtin⟩
    | registerMessageTools builtin => exact ⟨hlist, hinsert builtin⟩
  have hrun := @run_inv_all _ _ (fun reg op => builtinStep Tool.name reg (op.map .builtin)) _ hstep builtins
    (.new (some [])) ⟨rfl, fun _ => rfl⟩
  have heq : wasmStartup builtins =
      run (fun reg op => builtinStep Tool.name reg (BuiltinOp.map .builtin op)) (.new (some [])) builtins :=
    List.foldl_map
  rw [← heq] at hrun
  obtain ⟨hlist, hnone⟩ := hrun
  refine ⟨by rw [hlist]; rfl, ?_⟩
  ext m
  simp [held, authority, hlist, hnone]

/-- **Credential authority follows registration** in a run exactly when every step meets the condition. -/
theorem authority_follows_iff (builtins : List (BuiltinOp Str)) (ops : List WasmOp) :
    (ExactAuthority (wasmStartup builtins) ∧ Along wasmStep FollowsRegistration (wasmStartup builtins) ops) ↔
      Along wasmStep KeepsAuthority (wasmStartup builtins) ops := by
  have hstep : ∀ reg op, KeepsAuthority reg op → ExactAuthority reg → ExactAuthority (wasmStep reg op) :=
    fun reg op hop hreg => ((follows_iff hreg op).mpr hop).exact
  have hboot := exact_wasmStartup builtins
  rw [along_iff_of_inv hstep (fun reg op hreg => follows_iff hreg op) ops hboot]
  exact and_iff_right hboot

/-- What an exact list gives the `http` tool: the credentials of a host that a registered tool has a mapping for. -/
theorem mem_findForHost_iff {mappings : List CredentialMapping} (hreg : ExactAuthority reg)
    (hlist : reg.credentialRegistry = some mappings) (host : Str) (m : CredentialMapping) :
    m ∈ findForHost mappings host ↔ (∃ name, m ∈ reg.mappingsOf name) ∧ m.matchesHost host := by
  have hheld : m ∈ mappings ↔ m ∈ authority reg := by
    rw [← hreg.2]
    simp [held, hlist]
  rw [findForHost, List.mem_filter, hheld]
  rfl

end Authority

/-- A tool named `echo` is rejected and its mapping stays on the list; of two tools with one secret the first is
removed, and the mapping of the second goes with it. -/
theorem authority_drifts :
    let token (host : String) : CredentialMapping :=
      ⟨"github_token".toList, .authorizationBearer, [host.toList]⟩
    let echo : WasmTool := ⟨"echo".toList, some [token "api.github.com"]⟩
    let github : WasmTool := ⟨"github".toList, some [token "api.github.com"]⟩
    let uploads : WasmTool := ⟨"github_uploads".toList, some [token "uploads.github.com"]⟩
    let boot := wasmStartup [.registerSync true true "echo".toList]
    let rejected := run wasmStep boot [.registerWasm true echo]
    let removed := run wasmStep boot [.registerWasm true github, .registerWasm true uploads, .remove github.name]
    (rejected.get echo.name = some (.builtin echo.name) ∧
        rejected.credentialRegistry = some [token "api.github.com"] ∧ ¬ExactAuthority rejected) ∧
      (removed.get uploads.name = some (.wasm uploads) ∧ removed.credentialRegistry = some [] ∧
        ¬ExactAuthority removed) := by
  intro token echo github uploads boot rejected removed
  have hrejected : rejected.credentialRegistry = some [token "api.github.com"] := by decide
  have hremoved : removed.credentialRegistry = some [] := by decide
  refine ⟨⟨by decide, hrejected, fun h => ?_⟩, by decide, hremoved, fun h => ?_⟩
  · have hm : token "api.github.com" ∈ held rejected := ⟨_, hrejected, List.mem_cons_self⟩
    rw [h.2] at hm
    obtain ⟨name, hm⟩ := hm
    have hget : rejected.get name = if name = "echo".toList then some (.builtin "echo".toList) else none :=
      Function.update_apply ..
    rw [ToolRegistry.mappingsOf, hget] at hm
    by_cases h : name = "echo".toList
    · rw [if_pos h] at hm
      exact List.not_mem_nil hm
    · rw [if_neg h] at hm
      exact List.not_mem_nil hm
  · have hm : token "uploads.github.com" ∈ authority removed := ⟨uploads.name, by decide⟩
    rw [← h.2] at hm
    obtain ⟨mappings, hlist, hm⟩ := hm
    rw [hremoved] at hlist
    cases hlist
    cases hm

end Ironclaw.Tools

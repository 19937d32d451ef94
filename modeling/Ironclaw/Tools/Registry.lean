import Ironclaw.Lib.Run
import Ironclaw.Lib.Text

/-!
# The tool registry

Built-in tools are registered at startup and their names are marked; tools are registered, unregistered and retained
later, and a later registration is rejected when its name is both marked and on a fixed list.

- `builtins_kept_iff`: in every state of a run a marked name has its built-in tool or none, exactly when each tool that
  is registered later under a marked name has a name on the list;
- `unprotected_builtins`: the built-in names that are not on the list;
- `job_events_shadowed`: a tool that takes the place of one of them.
-/

namespace Ironclaw.Tools

open Text Run

def PROTECTED_TOOL_NAMES : List Str :=
  [ "echo", "time", "json", "http", "shell", "read_file", "write_file", "list_dir", "apply_patch", "memory_search",
    "memory_write", "memory_read", "memory_tree", "create_job", "list_jobs", "job_status", "cancel_job",
    "build_software", "tool_search", "tool_install", "tool_auth", "tool_activate", "tool_list", "tool_remove",
    "routine_create", "routine_list", "routine_update", "routine_delete", "routine_fire",
    "routine_history", "event_emit",
    "skill_list", "skill_search", "skill_install", "skill_remove", "message", "web_fetch", "restart", "image_generate",
    "image_edit", "image_analyze", "tool_info" ].map String.toList

/-- `ToolRegistry`: the tools by name, the marked names and the credential mappings that came with tools. -/
structure ToolRegistry (T C : Type) where
  tools : Str → Option T
  builtinNames : List Str
  credentialRegistry : Option (List C)

namespace ToolRegistry

variable {T C : Type} (nameOf : T → Str)

def new (credentialRegistry : Option (List C)) : ToolRegistry T C := ⟨fun _ => none, [], credentialRegistry⟩

def get (reg : ToolRegistry T C) (name : Str) : Option T := reg.tools name

def insert (reg : ToolRegistry T C) (tool : T) : ToolRegistry T C :=
  { reg with tools := Function.update reg.tools (nameOf tool) (some tool) }

/-- `register`: rejects a tool that would shadow a protected built-in. -/
def register (reg : ToolRegistry T C) (tool : T) : ToolRegistry T C :=
  if PROTECTED_TOOL_NAMES.contains (nameOf tool) && reg.builtinNames.contains (nameOf tool) then reg
  else reg.insert nameOf tool

/-- `register_sync`: does nothing when the tools are locked, and does not mark the name when the names are. -/
def registerSync (reg : ToolRegistry T C) (toolsFree namesFree : Bool) (tool : T) : ToolRegistry T C :=
  if toolsFree then
    let reg := reg.insert nameOf tool
    if namesFree then { reg with builtinNames := nameOf tool :: reg.builtinNames } else reg
  else reg

/-- `register_message_tools`. -/
def registerMessageTools (reg : ToolRegistry T C) (tool : T) : ToolRegistry T C :=
  let reg := reg.insert nameOf tool
  { reg with builtinNames := "message".toList :: reg.builtinNames }

/-- `register_wasm`; the tool is missing when its module cannot be prepared. -/
def registerWasm (reg : ToolRegistry T C) (wrapper : Option T) (mappings : List C) : ToolRegistry T C :=
  match wrapper with
  | none => reg
  | some tool =>
    let reg := reg.register nameOf tool
    { reg with credentialRegistry := reg.credentialRegistry.map (· ++ mappings) }

def unregister (reg : ToolRegistry T C) (name : Str) : ToolRegistry T C :=
  { reg with tools := Function.update reg.tools name none }

def retainOnly (reg : ToolRegistry T C) (names : List Str) : ToolRegistry T C :=
  if names.isEmpty then reg else { reg with tools := fun k => if names.contains k then reg.tools k else none }

end ToolRegistry

/-! ## The built-in tools -/

/-- The names that the functions for the startup register. -/
def registerBuiltinTools : List String := ["echo", "time", "json", "http"]

def registerToolInfo : List String := ["tool_info"]

def registerDevTools : List String := ["shell", "read_file", "write_file", "list_dir", "apply_patch"]

def registerMemoryTools : List String := ["memory_search", "memory_write", "memory_read", "memory_tree"]

def registerJobTools (store promptQueue : Bool) : List String :=
  ["create_job", "list_jobs", "job_status", "cancel_job"] ++ (if store then ["job_events"] else []) ++
    (if promptQueue then ["job_prompt"] else [])

def registerSecretsTools : List String := ["secret_list", "secret_delete"]

def registerExtensionTools : List String :=
  ["tool_search", "tool_install", "tool_auth", "tool_activate", "tool_list", "tool_remove", "tool_upgrade",
    "extension_info"]

def registerSkillTools : List String := ["skill_list", "skill_search", "skill_install", "skill_remove"]

def registerRoutineTools : List String :=
  ["routine_create", "routine_list", "routine_update", "routine_delete", "routine_fire",
    "routine_history", "event_emit"]

def registerImageTools : List String := ["image_generate", "image_edit"]

def registerVisionTools : List String := ["image_analyze"]

def startupNames (store promptQueue : Bool) : List String :=
  registerBuiltinTools ++ registerToolInfo ++ registerDevTools ++ registerMemoryTools ++
    registerJobTools store promptQueue ++ registerSecretsTools ++ registerExtensionTools ++ registerSkillTools ++
    registerRoutineTools ++ registerImageTools ++ registerVisionTools

/-- The names that are registered at startup and are not on the list. -/
theorem unprotected_builtins (store promptQueue : Bool) :
    (startupNames store promptQueue).filter (fun name => !PROTECTED_TOOL_NAMES.contains name.toList) =
      (if store then ["job_events"] else []) ++ (if promptQueue then ["job_prompt"] else []) ++
        ["secret_list", "secret_delete", "tool_upgrade", "extension_info"] := by
  cases store <;> cases promptQueue <;> decide

/-! ## Runs -/

/-- The registrations at startup. -/
inductive BuiltinOp (T : Type)
  | registerSync (toolsFree namesFree : Bool) (tool : T)
  | registerMessageTools (tool : T)

/-- The operations after the startup. -/
inductive DynamicOp (T C : Type)
  | register (tool : T)
  | registerWasm (wrapper : Option T) (mappings : List C)
  | unregister (name : Str)
  | retainOnly (names : List Str)

section Runs

variable {T C : Type} (nameOf : T → Str)

def builtinStep (reg : ToolRegistry T C) : BuiltinOp T → ToolRegistry T C
  | .registerSync toolsFree namesFree tool => reg.registerSync nameOf toolsFree namesFree tool
  | .registerMessageTools tool => reg.registerMessageTools nameOf tool

def step (reg : ToolRegistry T C) : DynamicOp T C → ToolRegistry T C
  | .register tool => reg.register nameOf tool
  | .registerWasm wrapper mappings => reg.registerWasm nameOf wrapper mappings
  | .unregister name => reg.unregister name
  | .retainOnly names => reg.retainOnly names

/-- The tool that an operation would register. -/
def DynamicOp.tool? : DynamicOp T C → Option T
  | .register tool => some tool
  | .registerWasm wrapper _ => wrapper
  | _ => none

/-- Each marked name has its built-in tool, or none. -/
def BuiltinsKept (boot reg : ToolRegistry T C) : Prop :=
  ∀ name ∈ boot.builtinNames, reg.get name = none ∨ reg.get name = boot.get name

/-- The operation registers no other tool under a marked name that is not on the list. -/
def KeepsBuiltins (boot : ToolRegistry T C) (op : DynamicOp T C) : Prop :=
  ∀ tool ∈ op.tool?, nameOf tool ∈ boot.builtinNames →
    nameOf tool ∈ PROTECTED_TOOL_NAMES ∨ boot.get (nameOf tool) = some tool

variable {boot reg : ToolRegistry T C}

theorem get_insert (tool : T) (name : Str) :
    (reg.insert nameOf tool).get name = if name = nameOf tool then some tool else reg.get name :=
  Function.update_apply ..

/-- A registration is rejected, or replaces the entry of its name. -/
theorem get_register (tool : T) (name : Str) :
    (reg.register nameOf tool).get name = reg.get name ∨
      name = nameOf tool ∧ (reg.register nameOf tool).get name = some tool ∧
        ¬(nameOf tool ∈ PROTECTED_TOOL_NAMES ∧ nameOf tool ∈ reg.builtinNames) := by
  unfold ToolRegistry.register
  split
  · exact .inl rfl
  next hfree =>
    rw [get_insert]
    split
    next hname =>
      refine .inr ⟨hname, rfl, ?_⟩
      rintro ⟨hp, hb⟩
      apply hfree
      rw [Bool.and_eq_true_iff, List.contains_iff_mem, List.contains_iff_mem]
      exact ⟨hp, hb⟩
    · exact .inl rfl

theorem builtinNames_step (op : DynamicOp T C) : (step nameOf reg op).builtinNames = reg.builtinNames := by
  have hreg : ∀ tool, (reg.register nameOf tool).builtinNames = reg.builtinNames := by
    intro tool
    unfold ToolRegistry.register
    split <;> rfl
  cases op with
  | register tool => exact hreg tool
  | registerWasm wrapper mappings =>
    cases wrapper with
    | none => rfl
    | some tool => exact hreg tool
  | unregister name => rfl
  | retainOnly names =>
    simp only [step, ToolRegistry.retainOnly]
    split <;> rfl

/-- What an operation can do to the entry of a name. -/
theorem get_step (op : DynamicOp T C) (name : Str) :
    (step nameOf reg op).get name = reg.get name ∨ (step nameOf reg op).get name = none ∨
      ∃ tool ∈ op.tool?, name = nameOf tool ∧ (step nameOf reg op).get name = some tool ∧
        ¬(nameOf tool ∈ PROTECTED_TOOL_NAMES ∧ nameOf tool ∈ reg.builtinNames) := by
  cases op with
  | register tool =>
    rcases get_register nameOf tool name with h | ⟨hn, hg, hfree⟩
    · exact .inl h
    · exact .inr (.inr ⟨tool, rfl, hn, hg, hfree⟩)
  | registerWasm wrapper mappings =>
    cases wrapper with
    | none => exact .inl rfl
    | some tool =>
      rcases get_register nameOf tool name with h | ⟨hn, hg, hfree⟩
      · exact .inl h
      · exact .inr (.inr ⟨tool, rfl, hn, hg, hfree⟩)
  | unregister removed =>
    simp only [step, ToolRegistry.unregister, ToolRegistry.get, Function.update_apply]
    split
    · exact .inr (.inl rfl)
    · exact .inl rfl
  | retainOnly names =>
    simp only [step, ToolRegistry.retainOnly]
    split
    · exact .inl rfl
    · simp only [ToolRegistry.get]
      split
      · exact .inl rfl
      · exact .inr (.inl rfl)

/-- A step that registers nothing over a built-in keeps the built-ins. -/
theorem builtinsKept_step {op : DynamicOp T C} (hnames : reg.builtinNames = boot.builtinNames)
    (hop : KeepsBuiltins nameOf boot op) (h : BuiltinsKept boot reg) : BuiltinsKept boot (step nameOf reg op) := by
  intro name hb
  rcases get_step nameOf op name with hg | hg | ⟨tool, ht, rfl, hg, hfree⟩
  · rw [hg]
    exact h name hb
  · exact .inl hg
  · rcases hop tool ht hb with hp | hsame
    · rw [hnames] at hfree
      exact absurd ⟨hp, hb⟩ hfree
    · exact .inr (hg.trans hsame.symm)

/-- A step that registers another tool over a built-in that is not on the list replaces it. -/
theorem shadowed_step {op : DynamicOp T C} (hop : ¬KeepsBuiltins nameOf boot op) :
    ¬BuiltinsKept boot (step nameOf reg op) := by
  unfold KeepsBuiltins at hop
  push Not at hop
  obtain ⟨tool, ht, hb, hp, hother⟩ := hop
  have hreg : (reg.register nameOf tool).get (nameOf tool) = some tool := by
    unfold ToolRegistry.register
    rw [if_neg, get_insert, if_pos rfl]
    rw [Bool.and_eq_true_iff, List.contains_iff_mem]
    exact fun h => hp h.1
  have hget : (step nameOf reg op).get (nameOf tool) = some tool := by
    cases op with
    | register t =>
      obtain rfl : t = tool := Option.some.inj ht
      exact hreg
    | registerWasm wrapper mappings =>
      obtain rfl : wrapper = some tool := ht
      exact hreg
    | unregister name => cases ht
    | retainOnly names => cases ht
  intro hkept
  rcases hkept (nameOf tool) hb with h | h
  · rw [hget] at h
    cases h
  · rw [hget] at h
    exact hother h.symm

/-- The state after the startup. -/
def startup (credentialRegistry : Option (List C)) (builtins : List (BuiltinOp T)) : ToolRegistry T C :=
  run (builtinStep nameOf) (.new credentialRegistry) builtins

/-- **Built-in tools are not shadowed** in any state of a run exactly when every tool that is registered under a marked
name has a name on the list, or is the built-in tool itself. -/
theorem builtins_kept_iff (credentialRegistry : Option (List C)) (builtins : List (BuiltinOp T))
    (ops : List (DynamicOp T C)) :
    (∀ pre, pre <+: ops →
      BuiltinsKept (startup nameOf credentialRegistry builtins)
        (run (step nameOf) (startup nameOf credentialRegistry builtins) pre)) ↔
      ∀ op ∈ ops, KeepsBuiltins nameOf (startup nameOf credentialRegistry builtins) op := by
  generalize startup nameOf credentialRegistry builtins = boot
  constructor
  · intro h op hop
    by_contra hnot
    obtain ⟨pre, post, rfl⟩ := List.append_of_mem hop
    have hkept := h (pre ++ [op]) ⟨post, by rw [List.append_assoc, List.singleton_append]⟩
    rw [run_append, run_cons, run_nil] at hkept
    exact shadowed_step nameOf hnot hkept
  · intro h pre hpre
    have hstep : ∀ (reg : ToolRegistry T C) (op : DynamicOp T C), KeepsBuiltins nameOf boot op →
        reg.builtinNames = boot.builtinNames ∧ BuiltinsKept boot reg →
          (step nameOf reg op).builtinNames = boot.builtinNames ∧ BuiltinsKept boot (step nameOf reg op) := by
      rintro reg op hop ⟨hnames, hkept⟩
      exact ⟨(builtinNames_step nameOf op).trans hnames, builtinsKept_step nameOf hnames hop hkept⟩
    have hboot : boot.builtinNames = boot.builtinNames ∧ BuiltinsKept boot boot := ⟨rfl, fun name _ => .inr rfl⟩
    exact (run_inv hstep pre hboot (along_of_forall fun op hop => h op (hpre.subset hop))).2

end Runs

/-- A tool is its name and the number of its instance. -/
abbrev NamedTool := Str × Nat

/-- The job tools are registered with a store; then a tool named `job_events` is registered. -/
theorem job_events_shadowed :
    let boot := (startup Prod.fst none
      ((registerJobTools true false).map fun name => .registerSync true true (name.toList, 0)) :
      ToolRegistry NamedTool Unit)
    let ops : List (DynamicOp NamedTool Unit) := [.register ("job_events".toList, 1)]
    "job_events".toList ∈ boot.builtinNames ∧ boot.get "job_events".toList = some ("job_events".toList, 0) ∧
      (run (step Prod.fst) boot ops).get "job_events".toList = some ("job_events".toList, 1) ∧
      ¬∀ pre, pre <+: ops → BuiltinsKept boot (run (step Prod.fst) boot pre) := by
  intro boot ops
  have hnew : (run (step Prod.fst) boot ops).get "job_events".toList = some ("job_events".toList, 1) := by decide
  refine ⟨by decide, by decide, hnew, fun h => ?_⟩
  rcases h ops (List.prefix_refl ops) "job_events".toList (by decide) with h | h
  · rw [hnew] at h
    cases h
  · rw [hnew] at h
    exact absurd h (by decide)

end Ironclaw.Tools

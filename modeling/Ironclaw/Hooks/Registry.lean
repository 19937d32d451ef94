import Ironclaw.Hooks.Hook
import Ironclaw.Lib.Run
import Mathlib.Data.List.Sort

/-!
# The hook registry

The entries in the order in which their hooks run, and the chain of calls for one event.

- `ordered_after`: at every time one entry a name, in the order of the priorities;
- `keepsTies_apply`: entries of one priority stay in their order;
- `chained_runChain`: what the calls of a chain are given, where the chain stops, and what comes out of it;
- `hooks_run_in_order`: both together.
-/

namespace Ironclaw.Hooks

open HookEvent

variable {ω : Type}

/-! ## Registration -/

/-- A registered hook with its priority. -/
structure HookEntry (ω : Type) where
  hook : Hook ω
  priority : Nat

abbrev HookEntry.name (e : HookEntry ω) : Str := e.hook.name

abbrev HookRegistry (ω : Type) := List (HookEntry ω)

/-- The first entry of the name is replaced where it stands; without one, the entry comes last. -/
def place (entry : HookEntry ω) : HookRegistry ω → HookRegistry ω
  | [] => [entry]
  | e :: hooks => if e.name = entry.name then entry :: hooks else e :: place entry hooks

namespace HookRegistry

/-- The stable sort by priorities. -/
def sortByPriority (hooks : HookRegistry ω) : HookRegistry ω := hooks.insertionSort fun e e' => e.priority ≤ e'.priority

def registerWithPriority (hooks : HookRegistry ω) (hook : Hook ω) (priority : Nat) : HookRegistry ω :=
  sortByPriority (place ⟨hook, priority⟩ hooks)

/-- A hook with the default priority. -/
def register (hooks : HookRegistry ω) (hook : Hook ω) : HookRegistry ω := hooks.registerWithPriority hook 100

def unregister (hooks : HookRegistry ω) (name : Str) : HookRegistry ω × Bool :=
  let kept := hooks.filter fun e => e.name ≠ name
  (kept, kept.length < hooks.length)

/-- The names, in the order of the entries. -/
def list (hooks : HookRegistry ω) : List Str := hooks.map HookEntry.name

end HookRegistry

/-- The calls that change a registry. -/
inductive RegistryOp (ω : Type)
  | registerWithPriority (hook : Hook ω) (priority : Nat)
  | unregister (name : Str)

namespace HookRegistry

def apply (hooks : HookRegistry ω) : RegistryOp ω → HookRegistry ω
  | .registerWithPriority hook priority => hooks.registerWithPriority hook priority
  | .unregister name => (hooks.unregister name).1

/-- The registry after some calls on a new one. -/
def after (ops : List (RegistryOp ω)) : HookRegistry ω := Run.run apply [] ops

/-- The entries that a call leaves or makes. -/
def Holds (hooks : HookRegistry ω) : RegistryOp ω → HookEntry ω → Prop
  | .registerWithPriority hook priority, e => e = ⟨hook, priority⟩ ∨ e ∈ hooks ∧ e.name ≠ hook.name
  | .unregister name, e => e ∈ hooks ∧ e.name ≠ name

/-- One entry a name, in the order of the priorities. -/
structure Ordered (hooks : HookRegistry ω) : Prop where
  nodup : hooks.list.Nodup
  sorted : hooks.Pairwise fun e e' => e.priority ≤ e'.priority

/-- The names in their order before a call, a new one last. -/
def previousOrder (hooks : HookRegistry ω) : RegistryOp ω → List Str
  | .registerWithPriority hook _ => if hook.name ∈ hooks.list then hooks.list else hooks.list ++ [hook.name]
  | .unregister _ => hooks.list

/-- Within a priority the entries stand in a given order of their names. -/
def KeepsTies (hooks : HookRegistry ω) (order : List Str) : Prop :=
  ∀ priority, List.Sublist (list (hooks.filter fun e => e.priority = priority)) order

instance : Std.Total fun e e' : HookEntry ω => e.priority ≤ e'.priority :=
  ⟨fun e e' => le_total e.priority e'.priority⟩

instance : IsTrans (HookEntry ω) fun e e' => e.priority ≤ e'.priority := ⟨fun _ _ _ => le_trans⟩

theorem sortByPriority_perm (hooks : HookRegistry ω) : (sortByPriority hooks).Perm hooks :=
  List.perm_insertionSort _ hooks

theorem sorted_sortByPriority (hooks : HookRegistry ω) :
    (sortByPriority hooks).Pairwise fun e e' => e.priority ≤ e'.priority :=
  List.pairwise_insertionSort _ hooks

/-- The sort is stable. -/
theorem filter_sortByPriority (hooks : HookRegistry ω) (priority : Nat) :
    (sortByPriority hooks).filter (fun e => e.priority = priority) = hooks.filter fun e => e.priority = priority := by
  have hties : (hooks.filter fun e => e.priority = priority).Pairwise fun e e' => e.priority ≤ e'.priority := by
    refine List.pairwise_iff_forall_sublist.mpr fun {e e'} h => ?_
    have heq : e.priority = priority := of_decide_eq_true (List.mem_filter.mp (h.subset List.mem_cons_self)).2
    have hmem' : e' ∈ [e, e'] := List.mem_cons_of_mem _ List.mem_cons_self
    have heq' : e'.priority = priority := of_decide_eq_true (List.mem_filter.mp (h.subset hmem')).2
    rw [heq, heq']
  have hsub := (List.sublist_insertionSort hties List.filter_sublist).filter fun e => e.priority = priority
  simp only [List.filter_filter, Bool.and_self] at hsub
  refine (hsub.eq_of_length ?_).symm
  exact ((sortByPriority_perm hooks).filter _).length_eq.symm

/-! ## One entry a name -/

/-- An entry of a new name comes last, every other one takes the place of its name. -/
theorem list_place (entry : HookEntry ω) : ∀ hooks : HookRegistry ω,
    list (place entry hooks) = if entry.name ∈ list hooks then list hooks else list hooks ++ [entry.name]
  | [] => rfl
  | e :: hooks => by
    rw [place]
    split
    next heq =>
      rw [if_pos (show entry.name ∈ list (e :: hooks) from heq ▸ List.mem_cons_self)]
      exact congrArg (· :: list hooks) heq.symm
    next hne =>
      have hmem : entry.name ∈ list (e :: hooks) ↔ entry.name ∈ list hooks :=
        ⟨fun h => (List.mem_cons.mp h).resolve_left (Ne.symm hne), List.mem_cons_of_mem _⟩
      rw [show list (e :: place entry hooks) = e.name :: list (place entry hooks) from rfl, list_place entry hooks]
      simp only [hmem]
      split <;> rfl

theorem nodup_place {entry : HookEntry ω} {hooks : HookRegistry ω} (h : hooks.list.Nodup) :
    (list (place entry hooks)).Nodup := by
  rw [list_place]
  split
  · exact h
  next hmem => exact List.nodup_append_comm.mp (List.nodup_cons.mpr ⟨hmem, h⟩)

theorem mem_place {entry : HookEntry ω} : ∀ {hooks : HookRegistry ω}, hooks.list.Nodup → ∀ e : HookEntry ω,
    e ∈ place entry hooks ↔ e = entry ∨ e ∈ hooks ∧ e.name ≠ entry.name
  | [], _, e => by simp [place]
  | e' :: hooks, h, e => by
    obtain ⟨hfresh, hrest⟩ := List.nodup_cons.mp h
    rw [place]
    split
    next heq =>
      have hother : ∀ e ∈ hooks, e.name ≠ entry.name := fun e he hname =>
        hfresh (heq.trans hname.symm ▸ List.mem_map_of_mem he)
      constructor
      · intro he
        exact (List.mem_cons.mp he).imp_right fun he => ⟨List.mem_cons_of_mem _ he, hother e he⟩
      · rintro (rfl | ⟨he, hne⟩)
        · exact List.mem_cons_self
        · rcases List.mem_cons.mp he with rfl | he
          · exact absurd heq hne
          · exact List.mem_cons_of_mem _ he
    next hne =>
      rw [List.mem_cons, List.mem_cons, mem_place hrest e]
      constructor
      · rintro (rfl | rfl | ⟨he, hother⟩)
        · exact .inr ⟨.inl rfl, hne⟩
        · exact .inl rfl
        · exact .inr ⟨.inr he, hother⟩
      · rintro (rfl | ⟨rfl | he, hother⟩)
        · exact .inr (.inl rfl)
        · exact .inl rfl
        · exact .inr (.inr ⟨he, hother⟩)

/-! ## Every history -/

theorem ordered_apply (op : RegistryOp ω) {hooks : HookRegistry ω} (h : hooks.Ordered) : (hooks.apply op).Ordered := by
  cases op with
  | registerWithPriority hook priority =>
    refine ⟨?_, sorted_sortByPriority _⟩
    exact ((sortByPriority_perm _).map HookEntry.name).nodup_iff.mpr (nodup_place h.nodup)
  | unregister name =>
    exact ⟨h.nodup.sublist (List.filter_sublist.map HookEntry.name), h.sorted.sublist List.filter_sublist⟩

theorem ordered_after (ops : List (RegistryOp ω)) : (after ops).Ordered :=
  Run.run_inv_all (fun _ op h => ordered_apply op h) ops ⟨List.nodup_nil, .nil⟩

theorem mem_apply (op : RegistryOp ω) {hooks : HookRegistry ω} (h : hooks.Ordered) (e : HookEntry ω) :
    e ∈ hooks.apply op ↔ hooks.Holds op e := by
  cases op with
  | registerWithPriority hook priority =>
    exact (sortByPriority_perm _).mem_iff.trans (mem_place h.nodup e)
  | unregister name =>
    exact List.mem_filter.trans (and_congr_right fun _ => decide_eq_true_iff)

theorem keepsTies_apply (op : RegistryOp ω) (hooks : HookRegistry ω) :
    (hooks.apply op).KeepsTies (hooks.previousOrder op) := by
  intro p
  cases op with
  | registerWithPriority hook priority =>
    show List.Sublist (list ((sortByPriority (place ⟨hook, priority⟩ hooks)).filter fun e => e.priority = p)) _
    rw [filter_sortByPriority, previousOrder, ← list_place ⟨hook, priority⟩ hooks]
    exact List.filter_sublist.map HookEntry.name
  | unregister name => exact (List.filter_sublist.trans List.filter_sublist).map HookEntry.name

end HookRegistry

/-! ## The chain -/

/-- One call of a chain: the hook, the event it was given and what came back. -/
structure Call (ω : Type) where
  hook : Hook ω
  event : HookEvent
  reply : Reply

/-- What a reply of `hook` to `current` does: the event for the hooks after it, or the error that stops the chain. -/
def settle (json : JsonText) (hook : Hook ω) (current : HookEvent) : Reply → Except HookError HookEvent
  | some (.ok (.reject reason)) => .error (.rejected reason)
  | some (.ok (.continue (some value))) => .ok (current.applyModification json value)
  | some (.ok (.continue none)) => .ok current
  | some (.error err) =>
    match hook.failureMode with
    | .failOpen => .ok current
    | .failClosed =>
      .error (.executionFailed ("Hook '".toList ++ hook.name ++ "' failed: ".toList ++ err.text))
  | none =>
    match hook.failureMode with
    | .failOpen => .ok current
    | .failClosed => .error (.timeout hook.timeout)

/-- The calls of some hooks one after the other, and the event after the last one or the error that stopped them. -/
def runChain (json : JsonText) : List (Hook ω) → HookEvent → ω → List (Call ω) × Except HookError HookEvent × ω
  | [], current, w => ([], .ok current, w)
  | hook :: hooks, current, w =>
    let (reply, w) := hook.execute current {} w
    match settle json hook current reply with
    | .error err => ([⟨hook, current, reply⟩], .error err, w)
    | .ok next =>
      let (calls, result, w) := runChain json hooks next w
      (⟨hook, current, reply⟩ :: calls, result, w)

namespace HookRegistry

/-- The hooks for an event, in their order. -/
def matching (hooks : HookRegistry ω) (event : HookEvent) : List (Hook ω) :=
  (hooks.filter fun e => event.hookPoint ∈ e.hook.hookPoints).map HookEntry.hook

/-- The outcome of a chain that went through, from the content at its end and the original one. -/
def finalOutcome (json : JsonText) (event current : HookEvent) : HookOutcome :=
  let modified := current.extractContent json
  let original := event.extractContent json
  if modified ≠ original then .modify modified else .ok

/-- All matching hooks, run on an event: the calls, the outcome and the world after it. -/
def run (json : JsonText) (hooks : HookRegistry ω) (event : HookEvent) (w : ω) :
    List (Call ω) × Except HookError HookOutcome × ω :=
  if (hooks.matching event).isEmpty then ([], .ok .ok, w)
  else
    let (calls, result, w) := runChain json (hooks.matching event) event w
    (calls, result.map (finalOutcome json event), w)

end HookRegistry

/-! ## What a chain does -/

namespace Call

/-- The content that the hook sets. -/
def modification (c : Call ω) : Option Str :=
  match c.reply with
  | some (.ok (.continue modified)) => modified
  | _ => none

/-- The error with which a call ends its chain: a rejection, or a failure of a hook that fails closed. -/
def stop (c : Call ω) : Option HookError :=
  match c.reply, c.hook.failureMode with
  | some (.ok (.reject reason)), _ => some (.rejected reason)
  | some (.ok (.continue _)), _ => none
  | _, .failOpen => none
  | some (.error err), .failClosed =>
    some (.executionFailed ("Hook '".toList ++ c.hook.name ++ "' failed: ".toList ++ err.text))
  | none, .failClosed => some (.timeout c.hook.timeout)

end Call

/-- An event after the modifications of some calls. -/
def modifiedBy (json : JsonText) (event : HookEvent) (calls : List (Call ω)) : HookEvent :=
  (calls.filterMap Call.modification).foldl (fun current value => current.applyModification json value) event

/-- The world after some calls. -/
def worldAfter (w : ω) (calls : List (Call ω)) : ω := calls.foldl (fun w c => (c.hook.execute c.event {} w).2) w

/-- The calls for an event: the hooks in their order, each on the event as all earlier ones have modified it, none after
a call that stops the chain, and all of them when none does. -/
structure Chained (json : JsonText) (hooks : List (Hook ω)) (event : HookEvent) (w : ω) (calls : List (Call ω)) :
    Prop where
  order : calls.map Call.hook <+: hooks
  given : ∀ before c rest, calls = before ++ c :: rest → c.event = modifiedBy json event before
  replied : ∀ before c rest, calls = before ++ c :: rest → c.reply = (c.hook.execute c.event {} (worldAfter w before)).1
  stopped : ∀ before c rest, calls = before ++ c :: rest → c.stop ≠ none → rest = []
  complete : (∀ c ∈ calls, c.stop = none) → calls.map Call.hook = hooks

theorem modifiedBy_cons (json : JsonText) (event : HookEvent) (c : Call ω) (calls : List (Call ω)) :
    modifiedBy json event (c :: calls) = modifiedBy json (modifiedBy json event [c]) calls := by
  simp only [modifiedBy, List.filterMap_cons, List.filterMap_nil]
  split <;> rfl

theorem settle_eq (json : JsonText) (c : Call ω) : settle json c.hook c.event c.reply =
    match c.stop with
    | some err => .error err
    | none => .ok (modifiedBy json c.event [c]) := by
  obtain ⟨hook, event, reply⟩ := c
  rcases reply with _ | err | ⟨_ | value⟩ | reason
  case none | some.error =>
    cases h : hook.failureMode with
    | failOpen =>
      simp only [settle, Call.stop, h]
      rfl
    | failClosed => simp only [settle, Call.stop, h]
  all_goals rfl

/-- The first call of a chain, and the chain of the other hooks when it does not stop. -/
theorem runChain_cons (json : JsonText) (hook : Hook ω) (hooks : List (Hook ω)) (current : HookEvent) (w : ω) :
    let c : Call ω := ⟨hook, current, (hook.execute current {} w).1⟩
    let w' := (hook.execute current {} w).2
    runChain json (hook :: hooks) current w =
      match c.stop with
      | some err => ([c], .error err, w')
      | none =>
        let rest := runChain json hooks (modifiedBy json current [c]) w'
        (c :: rest.1, rest.2) := by
  intro c w'
  have hsettle := settle_eq json c
  show (match settle json c.hook c.event c.reply with | .error err => _ | .ok next => _) = _
  rw [hsettle]
  cases c.stop <;> rfl

/-- What holds at every place of a list, by its first element and the places behind it. -/
theorem forall_places_cons {α : Type} {P : List α → α → List α → Prop} {c : α} {cs : List α} :
    (∀ before d rest, c :: cs = before ++ d :: rest → P before d rest) ↔
      P [] c cs ∧ ∀ before d rest, cs = before ++ d :: rest → P (c :: before) d rest := by
  constructor
  · exact fun h => ⟨h [] c cs rfl, fun before d rest heq => h (c :: before) d rest (congrArg (c :: ·) heq)⟩
  · rintro ⟨hfirst, hrest⟩ before d rest heq
    cases before with
    | nil =>
      obtain ⟨rfl, rfl⟩ := List.cons.inj heq
      exact hfirst
    | cons b before =>
      obtain ⟨rfl, htail⟩ := List.cons.inj heq
      exact hrest before d rest htail

theorem forall_places_nil {α : Type} {P : List α → α → List α → Prop} :
    ∀ before d rest, [] = before ++ d :: rest → P before d rest :=
  fun _ _ _ heq => absurd heq.symm (List.append_ne_nil_of_right_ne_nil _ (List.cons_ne_nil _ _))

namespace Chained

variable {json : JsonText} {hook : Hook ω} {hooks : List (Hook ω)} {event : HookEvent} {w : ω}

theorem nil : Chained json [] event w ([] : List (Call ω)) where
  order := List.prefix_rfl
  given := forall_places_nil
  replied := forall_places_nil
  stopped := forall_places_nil
  complete _ := rfl

/-- A chain that its first call stops. -/
theorem single {c : Call ω} (hc : c = ⟨hook, event, (hook.execute event {} w).1⟩) (hstop : c.stop ≠ none) :
    Chained json (hook :: hooks) event w [c] := by
  subst hc
  refine ⟨⟨hooks, rfl⟩, ?_, ?_, ?_, fun hall => absurd (hall _ List.mem_cons_self) hstop⟩
  · exact forall_places_cons.2 ⟨rfl, forall_places_nil⟩
  · exact forall_places_cons.2 ⟨rfl, forall_places_nil⟩
  · exact forall_places_cons.2 ⟨fun _ => rfl, forall_places_nil⟩

/-- A chain that goes on behind its first call. -/
theorem cons {c : Call ω} {calls : List (Call ω)} (hc : c = ⟨hook, event, (hook.execute event {} w).1⟩)
    (hstop : c.stop = none)
    (h : Chained json hooks (modifiedBy json event [c]) (hook.execute event {} w).2 calls) :
    Chained json (hook :: hooks) event w (c :: calls) := by
  have hhook : c.hook = hook := congrArg Call.hook hc
  have hevent : c.event = event := congrArg Call.event hc
  have hworld : (c.hook.execute c.event {} w).2 = (hook.execute event {} w).2 := by rw [hhook, hevent]
  refine ⟨?_, ?_, ?_, ?_, fun hall => ?_⟩
  · rw [List.map_cons, hhook]
    exact List.cons_prefix_cons.mpr ⟨rfl, h.order⟩
  · refine forall_places_cons.2 ⟨hevent, fun before d rest heq => ?_⟩
    rw [modifiedBy_cons]
    exact h.given before d rest heq
  · refine forall_places_cons.2 ⟨?_, fun before d rest heq => ?_⟩
    · rw [hc]
      rfl
    · rw [worldAfter, List.foldl_cons, hworld]
      exact h.replied before d rest heq
  · exact forall_places_cons.2 ⟨fun hne => absurd hstop hne, h.stopped⟩
  · rw [List.map_cons, hhook, h.complete fun d hd => hall d (List.mem_cons_of_mem _ hd)]

end Chained

/-- The chain of some hooks, and its result. -/
theorem chained_runChain (json : JsonText) : ∀ (hooks : List (Hook ω)) (event : HookEvent) (w : ω),
    let r := runChain json hooks event w
    Chained json hooks event w r.1 ∧ r.2.2 = worldAfter w r.1 ∧
      r.2.1 = match r.1.findSome? Call.stop with
        | some err => .error err
        | none => .ok (modifiedBy json event r.1)
  | [], event, w => ⟨.nil, rfl, rfl⟩
  | hook :: hooks, event, w => by
    intro r
    obtain ⟨hchain, hworld, hresult⟩ := chained_runChain json hooks
      (modifiedBy json event [⟨hook, event, (hook.execute event {} w).1⟩]) (hook.execute event {} w).2
    have hr : r = _ := runChain_cons json hook hooks event w
    cases hstop : Call.stop ⟨hook, event, (hook.execute event {} w).1⟩ with
    | some err =>
      simp only [hstop] at hr
      refine hr ▸ ⟨.single rfl (by simp [hstop]), rfl, ?_⟩
      simp [hstop]
    | none =>
      simp only [hstop] at hr
      refine hr ▸ ⟨.cons rfl hstop hchain, hworld, ?_⟩
      simp only [List.findSome?_cons, hstop]
      rw [hresult, modifiedBy_cons json event _ (runChain json hooks _ _).1]

namespace HookRegistry

/-- What a run reports: the error of the call that stopped it, or the content at the end where it differs. -/
def reported (json : JsonText) (event : HookEvent) (calls : List (Call ω)) : Except HookError HookOutcome :=
  match calls.findSome? Call.stop with
  | some err => .error err
  | none =>
    let content := (modifiedBy json event calls).extractContent json
    .ok (.continue (if content = event.extractContent json then none else some content))

theorem finalOutcome_eq (json : JsonText) (event current : HookEvent) : finalOutcome json event current =
    .continue (if current.extractContent json = event.extractContent json then none
      else some (current.extractContent json)) := by
  by_cases h : current.extractContent json = event.extractContent json
  · rw [finalOutcome, if_neg (not_not.mpr h), if_pos h, HookOutcome.ok]
  · rw [finalOutcome, if_pos h, if_neg h, HookOutcome.modify]

theorem chained_run (json : JsonText) (hooks : HookRegistry ω) (event : HookEvent) (w : ω) :
    let r := hooks.run json event w
    Chained json (hooks.matching event) event w r.1 ∧ r.2.2 = worldAfter w r.1 ∧ r.2.1 = reported json event r.1 := by
  intro r
  obtain ⟨hchain, hworld, hresult⟩ := chained_runChain json (hooks.matching event) event w
  by_cases hempty : hooks.matching event = []
  · have hr : r = ([], .ok .ok, w) := by simp only [r, run, hempty, List.isEmpty_nil, if_true]
    rw [hr, hempty]
    exact ⟨.nil, rfl, by simp [reported, modifiedBy, HookOutcome.ok]⟩
  · have hr : r = ((runChain json (hooks.matching event) event w).1,
        (runChain json (hooks.matching event) event w).2.1.map (finalOutcome json event),
        (runChain json (hooks.matching event) event w).2.2) := by
      simp only [r, run, List.isEmpty_iff, hempty, if_false]
    refine hr ▸ ⟨hchain, hworld, ?_⟩
    show (runChain json (hooks.matching event) event w).2.1.map (finalOutcome json event) = _
    rw [hresult, reported]
    cases (runChain json (hooks.matching event) event w).1.findSome? Call.stop with
    | some err => rfl
    | none => exact congrArg Except.ok (finalOutcome_eq json event _)

/-- **Hook chains.** After every history of registrations the registry has one entry a name, in the order of the
priorities; each call changes the entries of its name only and keeps the order of those with one priority; and every run
calls the matching hooks in this order, each on the event as the earlier ones have modified it, up to the first that
stops it. -/
theorem hooks_run_in_order (json : JsonText) (ops : List (RegistryOp ω)) :
    (after ops).Ordered ∧
      (∀ op, (∀ e, e ∈ (after ops).apply op ↔ (after ops).Holds op e) ∧
        ((after ops).apply op).KeepsTies ((after ops).previousOrder op)) ∧
      ∀ event w,
        let r := (after ops).run json event w
        Chained json ((after ops).matching event) event w r.1 ∧ r.2.2 = worldAfter w r.1 ∧
          r.2.1 = reported json event r.1 := by
  have hordered := ordered_after ops
  refine ⟨hordered, fun op => ⟨mem_apply op hordered, keepsTies_apply op _⟩, fun event w => ?_⟩
  exact chained_run json (after ops) event w

end HookRegistry

end Ironclaw.Hooks

import Ironclaw.Lib.Run
import Ironclaw.Lib.Timeline
import Ironclaw.Llm.Message

/-!
# Checkpoints

The checkpoints of a thread before and after its present state. With the present state they are a timeline, along which
undo and redo move.

- `within_step`: the two stacks together stay within the limit, so undo and redo drop nothing;
- `undo_refines`, `redo_refines`: undo and redo are the steps of the timeline;
- `undo_timeline`: the bound, the sum of the stacks, and that redos take undos back, in every run.
-/

namespace Ironclaw.Session

open Text Llm Run

structure Checkpoint where
  id : Nat
  turnNumber : Nat
  messages : List ChatMessage
  description : Str
  deriving DecidableEq

def DEFAULT_MAX_CHECKPOINTS : Nat := 20

/-- The checkpoints before and after the present state, the latest ones last. -/
structure UndoManager where
  undoStack : List Checkpoint
  redoStack : List Checkpoint
  maxCheckpoints : Nat
  deriving DecidableEq

namespace UndoManager

def new : UndoManager := ⟨[], [], DEFAULT_MAX_CHECKPOINTS⟩

variable (mgr : UndoManager)

def withMaxCheckpoints (max : Nat) : UndoManager := { mgr with maxCheckpoints := max }

def pushUndo (checkpoint : Checkpoint) : UndoManager :=
  let stack := mgr.undoStack ++ [checkpoint]
  { mgr with undoStack := stack.drop (stack.length - mgr.maxCheckpoints) }

def checkpoint (id turnNumber : Nat) (messages : List ChatMessage) (description : Str) : UndoManager :=
  { mgr with redoStack := [] }.pushUndo ⟨id, turnNumber, messages, description⟩

/-- The checkpoint that undo and redo make of the present state. -/
def current (id currentTurn : Nat) (currentMessages : List ChatMessage) : Checkpoint :=
  ⟨id, currentTurn, currentMessages, "Turn ".toList ++ (Nat.repr currentTurn).toList⟩

def undo (id currentTurn : Nat) (currentMessages : List ChatMessage) : Option Checkpoint × UndoManager :=
  match mgr.undoStack.getLast? with
  | none => (none, mgr)
  | some last =>
    (some last, { mgr with
      undoStack := mgr.undoStack.dropLast
      redoStack := mgr.redoStack ++ [current id currentTurn currentMessages] })

def redo (id currentTurn : Nat) (currentMessages : List ChatMessage) : Option Checkpoint × UndoManager :=
  match mgr.redoStack.getLast? with
  | none => (none, mgr)
  | some last =>
    (some last, { mgr.pushUndo (current id currentTurn currentMessages) with redoStack := mgr.redoStack.dropLast })

def undoCount : Nat := mgr.undoStack.length

def redoCount : Nat := mgr.redoStack.length

def clear : UndoManager := { mgr with undoStack := [], redoStack := [] }

/-- `restore`: the checkpoints after the one that is found are dropped, and then it is taken off. -/
def restore (checkpointId : Nat) : Option Checkpoint × UndoManager :=
  match mgr.undoStack.findIdx? (fun c => c.id == checkpointId) with
  | none => (none, mgr)
  | some pos =>
    let stack := mgr.undoStack.take (pos + 1)
    (stack.getLast?, { mgr with undoStack := stack.dropLast, redoStack := [] })

end UndoManager

/-- An operation on the manager, with the id of the checkpoint that it makes. -/
inductive UndoOp
  | checkpoint (id turnNumber : Nat) (messages : List ChatMessage) (description : Str)
  | undo (id currentTurn : Nat) (currentMessages : List ChatMessage)
  | redo (id currentTurn : Nat) (currentMessages : List ChatMessage)
  | restore (checkpointId : Nat)
  | clear

def UndoOp.apply (mgr : UndoManager) : UndoOp → UndoManager
  | .checkpoint id turnNumber messages description => mgr.checkpoint id turnNumber messages description
  | .undo id currentTurn currentMessages => (mgr.undo id currentTurn currentMessages).2
  | .redo id currentTurn currentMessages => (mgr.redo id currentTurn currentMessages).2
  | .restore checkpointId => (mgr.restore checkpointId).2
  | .clear => mgr.clear

namespace UndoManager

/-! ## The bound -/

/-- The two stacks together stay within the limit. -/
structure Within (m : Nat) (mgr : UndoManager) : Prop where
  count : mgr.undoCount + mgr.redoCount ≤ m
  limit : mgr.maxCheckpoints = m

section Bound

variable {mgr : UndoManager} {m : Nat}

theorem undoCount_pushUndo (checkpoint : Checkpoint) :
    (mgr.pushUndo checkpoint).undoCount = min (mgr.undoCount + 1) mgr.maxCheckpoints := by
  simp only [pushUndo, undoCount, List.length_drop, List.length_append, List.length_singleton]
  omega

/-- Within the limit, nothing is dropped. -/
theorem pushUndo_of_lt (h : mgr.undoCount < mgr.maxCheckpoints) (checkpoint : Checkpoint) :
    mgr.pushUndo checkpoint = { mgr with undoStack := mgr.undoStack ++ [checkpoint] } := by
  unfold undoCount at h
  have hdrop : (mgr.undoStack ++ [checkpoint]).length - mgr.maxCheckpoints = 0 := by
    rw [List.length_append, List.length_singleton]
    omega
  simp only [pushUndo, hdrop, List.drop_zero]

theorem undo_count (id currentTurn : Nat) (currentMessages : List ChatMessage) :
    (mgr.undo id currentTurn currentMessages).2.undoCount + (mgr.undo id currentTurn currentMessages).2.redoCount =
      mgr.undoCount + mgr.redoCount := by
  unfold undo
  split
  · rfl
  next last hlast =>
    have hpos := List.length_pos_of_mem (List.mem_of_getLast? hlast)
    simp only [undoCount, redoCount, List.length_dropLast, List.length_append, List.length_singleton]
    omega

/-- What redo puts on the one stack, it takes from the other. -/
theorem redo_count (h : Within m mgr) (id currentTurn : Nat) (currentMessages : List ChatMessage) :
    (mgr.redo id currentTurn currentMessages).2.undoCount + (mgr.redo id currentTurn currentMessages).2.redoCount =
      mgr.undoCount + mgr.redoCount := by
  unfold redo
  split
  · rfl
  next last hlast =>
    have hpos : 0 < mgr.redoCount := List.length_pos_of_mem (List.mem_of_getLast? hlast)
    have hcount := h.count
    have hlimit := h.limit
    rw [pushUndo_of_lt (by omega)]
    simp only [undoCount, redoCount, List.length_dropLast, List.length_append, List.length_singleton] at hpos ⊢
    omega

theorem within_undo (h : Within m mgr) (id currentTurn : Nat) (currentMessages : List ChatMessage) :
    Within m (mgr.undo id currentTurn currentMessages).2 := by
  refine ⟨(undo_count id currentTurn currentMessages).trans_le h.count, ?_⟩
  unfold undo
  split <;> exact h.limit

theorem within_redo (h : Within m mgr) (id currentTurn : Nat) (currentMessages : List ChatMessage) :
    Within m (mgr.redo id currentTurn currentMessages).2 := by
  refine ⟨(redo_count h id currentTurn currentMessages).trans_le h.count, ?_⟩
  unfold redo
  split <;> exact h.limit

theorem within_restore (h : Within m mgr) (checkpointId : Nat) : Within m (mgr.restore checkpointId).2 := by
  unfold restore
  split
  · exact h
  next pos hpos =>
    refine ⟨?_, h.limit⟩
    have hcount := h.count
    simp only [undoCount, redoCount, List.length_dropLast, List.length_take, List.length_nil] at hcount ⊢
    omega

theorem within_step (h : Within m mgr) : ∀ op : UndoOp, Within m (op.apply mgr)
  | .checkpoint id turnNumber messages description => by
    refine ⟨?_, h.limit⟩
    have hlimit := h.limit
    show (pushUndo _ _).undoCount + 0 ≤ m
    rw [undoCount_pushUndo]
    simp only
    omega
  | .undo id currentTurn currentMessages => within_undo h id currentTurn currentMessages
  | .redo id currentTurn currentMessages => within_redo h id currentTurn currentMessages
  | .restore checkpointId => within_restore h checkpointId
  | .clear => ⟨Nat.zero_le m, h.limit⟩

end Bound

/-! ## The timeline -/

/-- The message lists before, at and after the present state. -/
def timeline (mgr : UndoManager) (currentMessages : List ChatMessage) : Timeline (List ChatMessage) :=
  ⟨mgr.undoStack.map (·.messages), currentMessages, mgr.redoStack.map (·.messages)⟩

/-- Undo or redo. -/
abbrev Move := UndoManager → Nat → Nat → List ChatMessage → Option Checkpoint × UndoManager

/-- Calls of one operation in a row, each with an id and a turn number, and on the messages that the one before
returned: the messages they return, the last ones, and the manager. -/
def walk (op : Move) : UndoManager → List ChatMessage → List (Nat × Nat) →
    List (List ChatMessage) × List ChatMessage × UndoManager
  | mgr, messages, [] => ([], messages, mgr)
  | mgr, messages, (id, turn) :: calls =>
    match op mgr id turn messages with
    | (none, mgr) => walk op mgr messages calls
    | (some checkpoint, mgr) =>
      (checkpoint.messages :: (walk op mgr checkpoint.messages calls).1, (walk op mgr checkpoint.messages calls).2)

/-- The operation makes the move of the timeline. -/
def Refines (m : Nat) (op : Move) (move : Timeline (List ChatMessage) → Option (Timeline (List ChatMessage))) : Prop :=
  ∀ mgr id turn messages t, Within m mgr → move (mgr.timeline messages) = some t →
    ∃ checkpoint mgr', op mgr id turn messages = (some checkpoint, mgr') ∧ mgr'.timeline checkpoint.messages = t ∧
      Within m mgr'

theorem undo_refines (m : Nat) : Refines m undo Timeline.back := by
  intro mgr id turn messages t hmgr hback
  obtain ⟨s, hs, rfl⟩ := Option.map_eq_some_iff.mp hback
  rw [timeline, List.getLast?_map] at hs
  obtain ⟨last, hlast, rfl⟩ := Option.map_eq_some_iff.mp hs
  have hwithin := within_undo hmgr id turn messages
  rw [undo, hlast] at hwithin ⊢
  refine ⟨last, _, rfl, ?_, hwithin⟩
  simp [timeline, current, List.map_dropLast]

theorem redo_refines (m : Nat) : Refines m redo Timeline.forth := by
  intro mgr id turn messages t hmgr hforth
  obtain ⟨s, hs, rfl⟩ := Option.map_eq_some_iff.mp hforth
  rw [timeline, List.getLast?_map] at hs
  obtain ⟨last, hlast, rfl⟩ := Option.map_eq_some_iff.mp hs
  have hpos : 0 < mgr.redoCount := List.length_pos_of_mem (List.mem_of_getLast? hlast)
  have hroom : mgr.undoCount < mgr.maxCheckpoints := by
    have hcount := hmgr.count
    have hlimit := hmgr.limit
    omega
  have hwithin := within_redo hmgr id turn messages
  rw [redo, hlast] at hwithin ⊢
  refine ⟨last, _, rfl, ?_, hwithin⟩
  rw [pushUndo_of_lt hroom]
  simp [timeline, current, List.map_dropLast]

/-- Calls in a row are a walk along the timeline. -/
theorem walk_refines {m : Nat} {op : Move} {move : Timeline (List ChatMessage) → Option (Timeline (List ChatMessage))}
    (hop : Refines m op move) : ∀ (calls : List (Nat × Nat)) {mgr : UndoManager} {messages : List ChatMessage}
      {seen : List (List ChatMessage)} {t : Timeline (List ChatMessage)}, Within m mgr →
      Timeline.walk move calls.length (mgr.timeline messages) = some (seen, t) →
        ∃ mgr', walk op mgr messages calls = (seen, t.now, mgr') ∧ mgr'.timeline t.now = t ∧ Within m mgr'
  | [], mgr, messages, seen, t, hmgr, h => by
    cases h
    exact ⟨mgr, rfl, rfl, hmgr⟩
  | (id, turn) :: calls, mgr, messages, seen, t, hmgr, h => by
    obtain ⟨t₁, ht₁, h⟩ := Option.bind_eq_some_iff.mp h
    obtain ⟨⟨seen', t'⟩, hwalk, heq⟩ := Option.map_eq_some_iff.mp h
    obtain ⟨checkpoint, mgr₁, hcall, rfl, hmgr₁⟩ := hop mgr id turn messages t₁ hmgr ht₁
    cases heq
    obtain ⟨mgr', hrest, hmgr'⟩ := walk_refines hop calls hmgr₁ hwalk
    refine ⟨mgr', ?_, hmgr'⟩
    rw [walk, hcall]
    show (_ :: (walk op mgr₁ checkpoint.messages calls).1, (walk op mgr₁ checkpoint.messages calls).2) = _
    rw [hrest]
    rfl

/-- Undos and as many redos: they all succeed, the redos lead through the states of the undos in the opposite order, and
the present state and the messages of both stacks are as before. -/
def Retraces (mgr : UndoManager) : Prop :=
  ∀ (messages : List ChatMessage) (undos redos : List (Nat × Nat)),
    undos.length ≤ mgr.undoCount → redos.length = undos.length →
      let back := walk undo mgr messages undos
      let forth := walk redo back.2.2 back.2.1 redos
      back.1.length = undos.length ∧ (messages :: back.1).reverse = back.2.1 :: forth.1 ∧
        forth.2.1 = messages ∧
        forth.2.2.undoStack.map (·.messages) = mgr.undoStack.map (·.messages) ∧
        forth.2.2.redoStack.map (·.messages) = mgr.redoStack.map (·.messages)

theorem retraces {m : Nat} {mgr : UndoManager} (h : Within m mgr) : Retraces mgr := by
  intro messages undos redos hundos hredos
  have hpast : undos.length ≤ (mgr.timeline messages).past.length := by
    rw [timeline, List.length_map]
    exact hundos
  obtain ⟨seen, t, hback, hseen⟩ := Timeline.exists_walk_back hpast
  obtain ⟨seen', hforth, hreverse⟩ := Timeline.retrace hback
  obtain ⟨mgr', hundo, htimeline, hmgr'⟩ := walk_refines (undo_refines m) undos h hback
  rw [← hredos, ← htimeline] at hforth
  obtain ⟨mgr'', hredo, hend, -⟩ := walk_refines (redo_refines m) redos hmgr' hforth
  simp only [hundo, hredo]
  refine ⟨hseen, hreverse, rfl, ?_, ?_⟩
  · exact congrArg Timeline.past hend
  · exact congrArg Timeline.future hend

/-- **The undo timeline**, in every state of every run: the limit on the undo stack holds, undo and redo keep the sum of
the stacks, and redos take undos back. -/
theorem undo_timeline (m : Nat) (ops : List UndoOp) :
    (run UndoOp.apply (new.withMaxCheckpoints m) ops).undoCount ≤ m ∧
      (∀ id turn messages,
        ((run UndoOp.apply (new.withMaxCheckpoints m) ops).undo id turn messages).2.undoCount +
            ((run UndoOp.apply (new.withMaxCheckpoints m) ops).undo id turn messages).2.redoCount =
          (run UndoOp.apply (new.withMaxCheckpoints m) ops).undoCount +
            (run UndoOp.apply (new.withMaxCheckpoints m) ops).redoCount ∧
        ((run UndoOp.apply (new.withMaxCheckpoints m) ops).redo id turn messages).2.undoCount +
            ((run UndoOp.apply (new.withMaxCheckpoints m) ops).redo id turn messages).2.redoCount =
          (run UndoOp.apply (new.withMaxCheckpoints m) ops).undoCount +
            (run UndoOp.apply (new.withMaxCheckpoints m) ops).redoCount) ∧
      Retraces (run UndoOp.apply (new.withMaxCheckpoints m) ops) := by
  have hnew : Within m (new.withMaxCheckpoints m) := ⟨Nat.zero_le m, rfl⟩
  have hstep : ∀ (mgr : UndoManager) op, Within m mgr → Within m (UndoOp.apply mgr op) := fun _ op h => within_step h op
  have hmgr : Within m (run UndoOp.apply (new.withMaxCheckpoints m) ops) := run_inv_all hstep ops hnew
  generalize run UndoOp.apply (new.withMaxCheckpoints m) ops = mgr at hmgr ⊢
  refine ⟨(Nat.le_add_right _ _).trans hmgr.count, fun id turn messages => ?_, retraces hmgr⟩
  exact ⟨undo_count id turn messages, redo_count hmgr id turn messages⟩

/-- An undo returns the messages before the turn, and the redo after it those of the turn. -/
theorem redo_returns_other_messages :
    ¬∀ (m : Nat) (ops : List UndoOp) (messages : List ChatMessage) (undos redos : List (Nat × Nat)), 1 ≤ m →
      undos.length ≤ (run UndoOp.apply (new.withMaxCheckpoints m) ops).undoCount → redos.length = undos.length →
        let back := walk undo (run UndoOp.apply (new.withMaxCheckpoints m) ops) messages undos
        (walk redo back.2.2 back.2.1 redos).1 = back.1.reverse := by
  intro h
  have hsame := h 1 [.checkpoint 0 1 [] "Before turn 1".toList] [.user "Hello".toList] [(1, 2)] [(2, 1)] (by decide)
    (by decide) rfl
  revert hsame
  decide

end UndoManager

end Ironclaw.Session

import Ironclaw.Session.Activity
import Ironclaw.Session.Undo
import Ironclaw.Session.Thread

/-!
# Whose history is undone

The undo managers are kept by the id of a thread alone, the sessions by user. A thread id comes into a session when a
thread is made there, with a random id, or when a message names it and it is hydrated: with a database only for the
owner of the conversation, without one for anybody. To the session manager at work this adds what the threads and the
undo managers hold, who was given which undo manager, and what was restored.

- `Changes`: what a step does to the threads of the sessions and to the undo managers;
- `HistoryInv`: the invariant;
- `sessions_isolated_iff`: no two users share a thread, nor an undo manager, nor restored messages, exactly when no
  thread of another user is hydrated;
- `foreign_undo`: without a database a user is given the history of another.
-/

namespace Ironclaw.Manager

open Run Llm
open Ironclaw.Session (Thread UndoManager Checkpoint)

/-! ## The machine -/

/-- The user whose session it is. -/
def SessionManager.userOf (m : SessionManager) (s : Nat) : Str := (m.store[s]?).elim [] fun session => session.userId

/-- An undo manager that a handler was given for a thread of a session. -/
structure Handle where
  session : Nat
  thread : Uuid
  manager : Nat
  deriving DecidableEq

/-- The messages that were restored into a thread of a user, and what was in whose threads before. -/
structure Restored where
  user : Str
  messages : List ChatMessage
  said : List (Str × ChatMessage)

/-- The session manager, the owners of the conversations of the database, what the threads and the undo managers hold,
the threads that a message may hydrate, and the messages that were in the threads of each user. -/
structure History where
  activity : Activity
  db : Option (Table Uuid Str)
  contents : Table (Nat × Uuid) Thread
  undo : Table Nat UndoManager
  admitted : List (Nat × Uuid)
  handles : List Handle
  said : List (Str × ChatMessage)
  restored : List Restored

/-- What a handler does with an undo manager. -/
inductive HistoryOp
  | checkpoint (description : Str)
  | undo
  | redo
  | resume (checkpointId : Nat)
  | clear

inductive HistoryLabel
  | manage (a : Act)
  | createConversation (userId : Str) (id : Uuid)
  | ensureConversation (s : Nat) (id : Uuid)
  | boot (s : Nat) (id : Uuid)
  | allow (s : Nat) (id : Uuid)
  | hydrate (s : Nat) (id : Uuid) (messages : List ChatMessage)
  | work (s : Nat) (id : Uuid) (f : Thread → Thread)
  | getUndoManager (s : Nat) (id : Uuid)
  | withUndo (i : Nat) (checkpointId : Nat) (op : HistoryOp)

/-- The id that a step may give to a new thread. -/
def Act.uuid? : Act → Option Uuid
  | .advance _ uuid | .newThread _ uuid => some uuid
  | _ => none

/-- The insertion of a thread, which is a part of hydrating it. -/
def Act.isInsert : Act → Bool
  | .insertThread _ _ _ => true
  | _ => false

section Ops

variable (json : JsonText)

/-- The checkpoint to be restored, if any, and the undo manager afterwards. -/
def HistoryOp.apply (checkpointId : Nat) (mgr : UndoManager) (thread : Thread) : HistoryOp →
    Option Checkpoint × UndoManager
  | .checkpoint description => (none, mgr.checkpoint checkpointId thread.turnNumber (thread.messages json) description)
  | .undo => mgr.undo checkpointId thread.turnNumber (thread.messages json)
  | .redo => mgr.redo checkpointId thread.turnNumber (thread.messages json)
  | .resume id => mgr.restore id
  | .clear => (none, mgr.clear)

end Ops

namespace History

variable (json : JsonText) (parseUuid : Str → Option Uuid) (w : History)

def manager : SessionManager := w.activity.manager

/-- The owner of a conversation. -/
def owner (id : Uuid) : Option Str := w.db.bind fun t => t.lookup id

def content (s : Nat) (id : Uuid) : Thread := (w.contents.lookup (s, id)).getD .new

/-- A thread gets a new content, which is then what its user has said. -/
def write (s : Nat) (id : Uuid) (thread : Thread) : History :=
  { w with
    contents := w.contents.insert (s, id) thread
    said := (thread.messages json).map (fun msg => (w.manager.userOf s, msg)) ++ w.said }

/-- The thread that is hydrated, with the messages of the database if there is one. -/
def hydrated (messages : List ChatMessage) : Thread :=
  if w.db.isSome && !messages.isEmpty then Thread.new.restoreFromMessages messages else .new

/-- What an operation gives with the undo manager and the thread of a handle. -/
def applied (h : Handle) (checkpointId : Nat) (op : HistoryOp) : Option Checkpoint × UndoManager :=
  op.apply json checkpointId ((w.undo.lookup h.manager).getD .new) (w.content h.session h.thread)

/-- The messages of a checkpoint are restored into the thread of a handle. -/
def restore (h : Handle) (messages : List ChatMessage) : History :=
  { w.write json h.session h.thread ((w.content h.session h.thread).restoreFromMessages messages) with
    restored := ⟨w.manager.userOf h.session, messages, w.said⟩ :: w.restored }

def withUndo (h : Handle) (checkpointId : Nat) (op : HistoryOp) : History :=
  let w' := { w with undo := w.undo.insert h.manager (w.applied json h checkpointId op).2 }
  match (w.applied json h checkpointId op).1 with
  | none => w'
  | some checkpoint => w'.restore json h checkpoint.messages

def step (w : History) : HistoryLabel → History
  | .manage a =>
    if a.isInsert || a.uuid?.any (fun id => (w.owner id).isSome) then w
    else { w with activity := w.activity.step parseUuid a }
  | .createConversation userId id =>
    if w.manager.isFresh id && (w.owner id).isNone then { w with db := w.db.map (·.insert id userId) } else w
  | .ensureConversation s id =>
    if id ∈ w.manager.threads s ∧ (w.owner id).isNone then { w with db := w.db.map (·.insert id (w.manager.userOf s)) }
    else w
  | .boot s id =>
    if s < w.manager.store.length ∧ w.owner id = some (w.manager.userOf s) then
      { w with activity := w.activity.step parseUuid (.insertThread s id false) }
    else w
  | .allow s id =>
    if s < w.manager.store.length ∧ id ∉ w.manager.threads s ∧
      (w.db.isSome → w.owner id = some (w.manager.userOf s)) then
      { w with admitted := (s, id) :: w.admitted }
    else w
  | .hydrate s id messages =>
    if (s, id) ∈ w.admitted then
      { w with activity := w.activity.step parseUuid (.insertThread s id true) }.write json s id (w.hydrated messages)
    else w
  | .work s id f => if id ∈ w.manager.threads s then w.write json s id (f (w.content s id)) else w
  | .getUndoManager s id =>
    let w' := { w with activity := w.activity.step parseUuid (.ensureUndo s id) }
    if id ∈ w.manager.threads s then
      { w' with handles := ((w'.manager.undoManagers.lookup id).map fun n => ⟨s, id, n⟩).toList ++ w.handles }
    else w
  | .withUndo i checkpointId op =>
    match w.handles[i]? with
    | none => w
    | some h => w.withUndo json h checkpointId op

/-- Nothing has happened, with the conversations that the database holds from before. -/
def initial (now : Nat) (db : Option (Table Uuid Str)) : History := ⟨.initial now, db, ∅, ∅, [], [], [], []⟩

/-- No two users have a thread of one id, for which they would share the undo manager; no undo manager was given to two
users; and all that was restored into a thread was in a thread of its user before. -/
structure Isolated : Prop where
  threads : ∀ s s' id, id ∈ w.manager.threads s → id ∈ w.manager.threads s' → w.manager.userOf s = w.manager.userOf s'
  handles : ∀ h ∈ w.handles, ∀ h' ∈ w.handles, h.manager = h'.manager →
    w.manager.userOf h.session = w.manager.userOf h'.session
  restored : ∀ r ∈ w.restored, ∀ msg ∈ r.messages, (r.user, msg) ∈ r.said

/-- Without a database, only a thread that no other user has is hydrated. -/
def Owned (w : History) : HistoryLabel → Prop
  | .hydrate s id _ => (s, id) ∈ w.admitted → w.db.isNone →
      ∀ s' < w.manager.store.length, id ∈ w.manager.threads s' → w.manager.userOf s' = w.manager.userOf s
  | _ => True

instance (w : History) : ∀ l, Decidable (Owned w l)
  | .hydrate s id _ =>
    inferInstanceAs (Decidable ((s, id) ∈ w.admitted → w.db.isNone → ∀ s' < w.manager.store.length, _))
  | .manage _ | .createConversation _ _ | .ensureConversation _ _ | .boot _ _ | .allow _ _ | .work _ _ _
  | .getUndoManager _ _ | .withUndo _ _ _ => .isTrue trivial

end History

/-! ## What a step does to the threads and to the undo managers -/

/-- At most one thread is new in a session, and for at most one thread there is a new undo manager. -/
structure Changes (new : Option (Nat × Uuid)) (made : Option Uuid) (m m' : SessionManager) : Prop where
  length : m.store.length ≤ m'.store.length
  user : ∀ s < m.store.length, m'.userOf s = m.userOf s
  threads : ∀ s id, id ∈ m.threads s → id ∈ m'.threads s
  added : ∀ s id, id ∈ m'.threads s → id ∈ m.threads s ∨ s < m.store.length ∧ new = some (s, id)
  undoMade : m.undoMade ≤ m'.undoMade
  undo : ∀ id n, m'.undoManagers.lookup id = some n →
    m.undoManagers.lookup id = some n ∨ made = some id ∧ n = m.undoMade ∧ n < m'.undoMade

section Changes

variable {m m' : SessionManager} {new : Option (Nat × Uuid)} {made : Option Uuid}

theorem lt_of_mem_threads {s : Nat} {id : Uuid} (h : id ∈ m.threads s) : s < m.store.length := by
  by_contra hge
  rw [SessionManager.threads, List.getElem?_eq_none (Nat.not_lt.mp hge)] at h
  cases h

/-- A change of the sessions that leaves the undo managers, or takes some away. -/
theorem changes_of_store (hstore : m'.store = m.store) (hmade : m'.undoMade = m.undoMade)
    (hundo : ∀ id n, m'.undoManagers.lookup id = some n → m.undoManagers.lookup id = some n) :
      Changes new made m m' := by
  have hthreads : ∀ s, m'.threads s = m.threads s := fun s => by rw [SessionManager.threads, hstore]; rfl
  refine ⟨Nat.le_of_eq (congrArg List.length hstore.symm), fun s _ => ?_, fun s id hid => ?_, fun s id hid => ?_,
    Nat.le_of_eq hmade.symm, fun id n hn => .inl (hundo id n hn)⟩
  · rw [SessionManager.userOf, hstore]
    rfl
  · rwa [hthreads]
  · exact .inl (by rwa [← hthreads])

theorem Changes.refl (m : SessionManager) : Changes new made m m := changes_of_store rfl rfl fun _ _ h => h

theorem changes_insertUndo (id : Uuid) : Changes new (some id) m (m.insertUndo id) := by
  refine ⟨Nat.le_refl _, fun _ _ => rfl, fun _ _ h => h, fun _ _ h => .inl h, Nat.le_succ _, fun id' n hn => ?_⟩
  rw [SessionManager.insertUndo, Table.lookup_insert] at hn
  split at hn
  next heq =>
    cases hn
    exact .inr ⟨congrArg some heq.symm, rfl, Nat.lt_succ_self _⟩
  next => exact .inl hn

theorem changes_ensureUndo (id : Uuid) : Changes new (some id) m (m.ensureUndo id) := by
  unfold SessionManager.ensureUndo
  split
  · exact .refl m
  · exact changes_insertUndo id

theorem changes_getOrCreateSession (user : Str) (now : Nat) : Changes new made m (m.getOrCreateSession user now).1 := by
  have hthreads := @SessionManager.threads_getOrCreateSession m user now
  have hsteady := @steady_getOrCreateSession m now user
  refine ⟨hsteady.length, fun s hs => ?_, hsteady.threads, fun s id hid => .inl (hthreads s ▸ hid), ?_,
    fun id n hn => ?_⟩
  · unfold SessionManager.getOrCreateSession
    split
    · rfl
    · show ((m.store ++ [Session.new user now])[s]?).elim [] _ = _
      rw [List.getElem?_append_left hs]
      rfl
  · unfold SessionManager.getOrCreateSession
    split <;> exact Nat.le_refl _
  · refine .inl ?_
    unfold SessionManager.getOrCreateSession at hn
    split at hn <;> exact hn

/-- A change of one session that adds at most one thread. -/
theorem changes_modifySession {f : Session → Session} {s : Nat} (huser : ∀ session, (f session).userId = session.userId)
    (hkept : ∀ session, session.threads ⊆ (f session).threads)
    (hadded : ∀ session, ∀ id ∈ (f session).threads, id ∈ session.threads ∨ new = some (s, id)) :
    Changes new made m (m.modifySession s f) := by
  refine ⟨(List.length_modify ..).ge, fun s' hs' => ?_, fun s' id' hid => ?_, fun s' id' hid => ?_, Nat.le_refl _,
    fun _ _ h => .inl h⟩
  · unfold SessionManager.userOf
    rw [store_modifySession]
    cases m.store[s']? with
    | none => rfl
    | some session =>
      simp only [Option.map_some, Option.elim_some]
      split
      · exact huser session
      · rfl
  · rw [SessionManager.threads_modifySession]
    split
    · unfold SessionManager.threads at hid
      cases hstore : m.store[s']? with
      | none =>
        rw [hstore] at hid
        cases hid
      | some session =>
        rw [hstore] at hid
        exact hkept session hid
    · exact hid
  · rw [SessionManager.threads_modifySession] at hid
    split at hid
    next heq =>
      unfold SessionManager.threads
      cases hstore : m.store[s']? with
      | none =>
        rw [hstore] at hid
        cases hid
      | some session =>
        rw [hstore] at hid
        refine (hadded session id' hid).imp_right fun hnew => ⟨?_, heq ▸ hnew⟩
        exact (List.getElem?_eq_some_iff.mp hstore).1
    · exact .inl hid

theorem mem_addThread {session : Session} {id : Uuid} (s : Nat) {id' : Uuid}
    (h : id' ∈ (session.addThread id).threads) :
    id' ∈ session.threads ∨ some (s, id) = some (s, id') := by
  unfold Session.addThread at h
  simp only at h
  split at h
  · exact .inl h
  · rcases List.mem_cons.mp h with rfl | h
    · exact .inr rfl
    · exact .inl h

theorem changes_createThread (s : Nat) (id : Uuid) (now : Nat) :
    Changes (some (s, id)) made m (m.modifySession s (·.createThread id now)) :=
  changes_modifySession (fun _ => rfl) (fun session => subset_addThread session id) fun _ _ h => mem_addThread s h

theorem changes_insertThread (s : Nat) (id : Uuid) (stamp : Bool) (now : Nat) :
    Changes (some (s, id)) made m (m.modifySession s (·.insertThread id stamp now)) :=
  changes_modifySession (fun _ => rfl) (fun session => subset_addThread session id) fun _ _ h => mem_addThread s h

theorem changes_switchThread (s : Nat) (id : Uuid) (now : Nat) :
    Changes new made m (m.modifySession s (·.switchThread id now)) := by
  refine changes_modifySession (fun session => ?_) (marks_switchThread id now).threads fun session id' hid => .inl ?_
  · unfold Session.switchThread
    split <;> rfl
  · unfold Session.switchThread at hid
    split at hid <;> exact hid

/-- The threads and undo managers of a step: a new thread has a random id. -/
def Fresh (uuid : Option Uuid) (m m' : SessionManager) : Prop :=
  ∃ new made, Changes new made m m' ∧ ∀ s id, new = some (s, id) → m.isFresh id = true ∧ uuid = some id

theorem Fresh.of_changes {uuid : Option Uuid} (made : Option Uuid) (h : Changes none made m m') : Fresh uuid m m' :=
  ⟨none, made, h, fun _ _ hnew => nomatch hnew⟩

theorem fresh_createThread {s : Nat} {id : Uuid} {now : Nat} (h : m.isFresh id = true) :
    Fresh (some id) m (m.modifySession s (·.createThread id now)) := by
  refine ⟨some (s, id), none, changes_createThread s id now, fun s' id' hnew => ?_⟩
  cases hnew
  exact ⟨h, rfl⟩

theorem fresh_resolveStep {parseUuid : Str → Option Uuid} {r : Request} {uuid : Uuid} {now : Nat} (pc : ResolvePc) :
    Fresh (some uuid) m (resolveStep parseUuid m r uuid now pc).1 := by
  have hrefl : Fresh (some uuid) m m := .of_changes none (.refl m)
  cases pc with
  | getSession => exact .of_changes none (changes_getOrCreateSession r.userId now)
  | lookup s | adopt s id | returned s id => exact hrefl
  | storeMapping s id => exact .of_changes none (changes_of_store rfl rfl fun _ _ h => h)
  | createUndo s id => exact .of_changes (some id) (changes_insertUndo id)
  | adoptUndo s id => exact .of_changes (some id) (changes_ensureUndo id)
  | adoptWrite s id =>
    simp only [resolveStep]
    split
    · exact hrefl
    · exact .of_changes none (changes_of_store rfl rfl fun _ _ h => h)
  | create s =>
    simp only [resolveStep]
    split
    next hfresh => exact fresh_createThread hfresh
    · exact hrefl

theorem lookup_retain_some {κ ν : Type*} [DecidableEq κ] {p : κ → ν → Bool} {t : Table κ ν} {k : κ} {v : ν}
    (h : (Table.retain p t).lookup k = some v) : t.lookup k = some v := by
  rw [Table.lookup_retain] at h
  exact (Option.filter_eq_some_iff.mp h).1

theorem fresh_prune {w : Activity} (maxIdle : Nat) (contended : Nat → Bool) :
    Fresh none w.manager (w.startPrune maxIdle contended).manager ∧
      Fresh none w.manager (w.nextPrune contended).manager := by
  have hrefl : Fresh none w.manager w.manager := .of_changes none (.refl w.manager)
  have hstore : ∀ m' : SessionManager, m'.store = w.manager.store → m'.undoMade = w.manager.undoMade →
      m'.undoManagers = w.manager.undoManagers → Fresh none w.manager m' := by
    intro m' hstore hmade hundo
    exact .of_changes none (changes_of_store hstore hmade fun id n hn => hundo ▸ hn)
  constructor
  · unfold Activity.startPrune
    split
    · exact hrefl
    · simp only
      split <;> exact hrefl
  · unfold Activity.nextPrune
    split
    · exact hrefl
    · split
      · exact hrefl
      · exact hstore _ rfl rfl rfl
      · exact hstore _ rfl rfl rfl
      · exact .of_changes none (changes_of_store rfl rfl fun id n hn => lookup_retain_some hn)

/-- A step of the session manager at work other than the insertion of a thread. -/
theorem fresh_step {parseUuid : Str → Option Uuid} (w : Activity) (a : Act) (ha : a.isInsert = false) :
    Fresh a.uuid? w.manager (w.step parseUuid a).manager := by
  have hrefl : ∀ uuid, Fresh uuid w.manager w.manager := fun uuid => .of_changes none (.refl w.manager)
  cases a with
  | tick d => exact hrefl none
  | start r => exact hrefl none
  | advance i uuid =>
    simp only [Activity.step, Activity.advance]
    split
    · exact hrefl (some uuid)
    · split <;> exact fresh_resolveStep _
  | getSession userId => exact .of_changes none (changes_getOrCreateSession userId w.now)
  | insertThread s id stamp => cases ha
  | activate s id =>
    simp only [Activity.step]
    split
    · exact .of_changes none (changes_switchThread s id w.now)
    · exact hrefl none
  | newThread s uuid =>
    simp only [Activity.step]
    split
    next hfresh => exact fresh_createThread hfresh
    · exact hrefl (some uuid)
  | switchThread s id => exact .of_changes none (changes_switchThread s id w.now)
  | registerMap s key id =>
    simp only [Activity.step]
    split
    · exact .of_changes none (changes_of_store rfl rfl fun _ _ h => h)
    · exact hrefl none
  | ensureUndo s id =>
    simp only [Activity.step]
    split
    · exact .of_changes (some id) (changes_ensureUndo id)
    · exact hrefl none
  | registerSession userId s =>
    simp only [Activity.step, SessionManager.registerSession]
    split
    · split
      · exact .of_changes none (changes_of_store rfl rfl fun _ _ h => h)
      · exact hrefl none
    · exact hrefl none
  | prune maxIdle contended => exact (fresh_prune maxIdle contended).1
  | pruneNext contended => exact (fresh_prune 0 contended).2

end Changes

/-! ## The invariant -/

/-- What is in a thread was said by its user. -/
def History.SaidBy (w : History) (s : Nat) (messages : List ChatMessage) : Prop :=
  ∀ msg ∈ messages, (w.manager.userOf s, msg) ∈ w.said

/-- Each undo manager is for one thread, was given to handlers of this thread only, and holds what was said by the user
of a session that has the thread. -/
structure UndoInv (origin : Nat → Uuid) (w : History) : Prop where
  made : ∀ id n, w.manager.undoManagers.lookup id = some n → n < w.manager.undoMade ∧ origin n = id
  handles : ∀ h ∈ w.handles,
    h.thread ∈ w.manager.threads h.session ∧ h.manager < w.manager.undoMade ∧ origin h.manager = h.thread
  held : ∀ n mgr, w.undo.lookup n = some mgr → n < w.manager.undoMade ∧
    ∀ c ∈ mgr.undoStack ++ mgr.redoStack, ∃ s, origin n ∈ w.manager.threads s ∧ w.SaidBy s c.messages

/-- A thread id belongs to one user, who owns the conversation of this id, if there is one. -/
structure HistoryInv (json : JsonText) (w : History) : Prop where
  disjoint : ∀ s s' id, id ∈ w.manager.threads s → id ∈ w.manager.threads s' → w.manager.userOf s = w.manager.userOf s'
  owned : ∀ s id user, id ∈ w.manager.threads s → w.owner id = some user → user = w.manager.userOf s
  admitted : ∀ s id, (s, id) ∈ w.admitted →
    s < w.manager.store.length ∧ (w.db.isSome → w.owner id = some (w.manager.userOf s))
  undo : ∃ origin, UndoInv origin w
  said : ∀ s id thread, w.contents.lookup (s, id) = some thread →
    s < w.manager.store.length ∧ w.SaidBy s (thread.messages json)
  restored : ∀ r ∈ w.restored, ∀ msg ∈ r.messages, (r.user, msg) ∈ r.said

section Invariant

variable {json : JsonText} {parseUuid : Str → Option Uuid} {w : History}

theorem isolated_of_inv (h : HistoryInv json w) : w.Isolated := by
  obtain ⟨origin, hundo⟩ := h.undo
  refine ⟨h.disjoint, fun a ha b hb hmanager => ?_, h.restored⟩
  obtain ⟨hmem, -, horigin⟩ := hundo.handles a ha
  obtain ⟨hmem', -, horigin'⟩ := hundo.handles b hb
  have hthread : a.thread = b.thread := by rw [← horigin, ← horigin', hmanager]
  exact h.disjoint _ _ _ hmem (hthread ▸ hmem')

/-! ### The session manager takes a step -/

section Manager

variable {a : Activity} {new : Option (Nat × Uuid)} {made : Option Uuid}

theorem undoInv_changes {origin : Nat → Uuid} (h : UndoInv origin w) (hc : Changes new made w.manager a.manager) :
    ∃ origin', UndoInv origin' { w with activity := a } := by
  have hsaid : ∀ s messages, s < w.manager.store.length → w.SaidBy s messages →
      History.SaidBy { w with activity := a } s messages := by
    intro s messages hs hsaid msg hmsg
    have hmem := hsaid msg hmsg
    rw [← hc.user s hs] at hmem
    exact hmem
  -- a new undo manager gets a new number
  have horigin : ∃ origin' : Nat → Uuid, (∀ n < w.manager.undoMade, origin' n = origin n) ∧
      ∀ id, made = some id → origin' w.manager.undoMade = id := by
    refine ⟨fun n => if n < w.manager.undoMade then origin n else made.getD 0, fun n hn => if_pos hn, fun id hid => ?_⟩
    simp only [Nat.lt_irrefl, if_false, hid, Option.getD_some]
  obtain ⟨origin', hold, hnew⟩ := horigin
  refine ⟨origin', fun id n hn => ?_, fun handle hh => ?_, fun n mgr hmgr => ?_⟩
  · rcases hc.undo id n hn with hn | ⟨hid, rfl, hlt⟩
    · obtain ⟨hlt, heq⟩ := h.made id n hn
      exact ⟨hlt.trans_le hc.undoMade, (hold n hlt).trans heq⟩
    · exact ⟨hlt, hnew id hid⟩
  · obtain ⟨hmem, hlt, heq⟩ := h.handles handle hh
    exact ⟨hc.threads _ _ hmem, hlt.trans_le hc.undoMade, (hold _ hlt).trans heq⟩
  · obtain ⟨hlt, hheld⟩ := h.held n mgr hmgr
    refine ⟨hlt.trans_le hc.undoMade, fun c hcheck => ?_⟩
    obtain ⟨s, hmem, hsays⟩ := hheld c hcheck
    rw [hold n hlt]
    exact ⟨s, hc.threads _ _ hmem, hsaid s _ (lt_of_mem_threads hmem) hsays⟩

/-- A new thread belongs to no other user. -/
theorem inv_changes (h : HistoryInv json w) (hc : Changes new made w.manager a.manager)
    (hnew : ∀ s id, new = some (s, id) → s < w.manager.store.length →
      (∀ s', id ∈ w.manager.threads s' → w.manager.userOf s' = w.manager.userOf s) ∧
      ∀ user, w.owner id = some user → user = w.manager.userOf s) :
    HistoryInv json { w with activity := a } := by
  obtain ⟨origin, hundo⟩ := h.undo
  refine ⟨fun s s' id hid hid' => ?_, fun s id user hid howner => ?_, fun s id hadmitted => ?_,
    undoInv_changes hundo hc, fun s id thread hthread => ?_, h.restored⟩
  · show a.manager.userOf s = a.manager.userOf s'
    rcases hc.added s id hid with hold | ⟨hlt, hs⟩ <;> rcases hc.added s' id hid' with hold' | ⟨hlt', hs'⟩
    · rw [hc.user s (lt_of_mem_threads hold), hc.user s' (lt_of_mem_threads hold')]
      exact h.disjoint s s' id hold hold'
    · rw [hc.user s (lt_of_mem_threads hold), hc.user s' hlt']
      exact (hnew s' id hs' hlt').1 s hold
    · rw [hc.user s hlt, hc.user s' (lt_of_mem_threads hold')]
      exact ((hnew s id hs hlt).1 s' hold').symm
    · cases hs.symm.trans hs'
      rfl
  · show user = a.manager.userOf s
    rcases hc.added s id hid with hold | ⟨hlt, hs⟩
    · rw [hc.user s (lt_of_mem_threads hold)]
      exact h.owned s id user hold howner
    · rw [hc.user s hlt]
      exact (hnew s id hs hlt).2 user howner
  · obtain ⟨hlt, howner⟩ := h.admitted s id hadmitted
    refine ⟨hlt.trans_le hc.length, fun hdb => ?_⟩
    show w.owner id = some (a.manager.userOf s)
    rw [hc.user s hlt]
    exact howner hdb
  · obtain ⟨hlt, hsays⟩ := h.said s id thread hthread
    refine ⟨hlt.trans_le hc.length, fun msg hmsg => ?_⟩
    show (a.manager.userOf s, msg) ∈ w.said
    rw [hc.user s hlt]
    exact hsays msg hmsg

theorem not_mem_of_fresh {m : SessionManager} {id : Uuid} (h : m.isFresh id = true) (s : Nat) : id ∉ m.threads s := by
  intro hmem
  unfold SessionManager.isFresh at h
  rw [Bool.and_eq_true, Bool.and_eq_true, List.all_eq_true] at h
  unfold SessionManager.threads at hmem
  cases hstore : m.store[s]? with
  | none =>
    rw [hstore] at hmem
    cases hmem
  | some session =>
    rw [hstore] at hmem
    exact of_decide_eq_true (h.1.1 session (List.mem_of_getElem? hstore)) hmem

/-- The random id of a new thread is in no session, and that of no conversation. -/
theorem inv_fresh (h : HistoryInv json w) {uuid : Option Uuid} (hfresh : Fresh uuid w.manager a.manager)
    (huuid : ∀ id, uuid = some id → w.owner id = none) : HistoryInv json { w with activity := a } := by
  obtain ⟨new, made, hc, hnew⟩ := hfresh
  refine inv_changes h hc fun s id hs _ => ?_
  obtain ⟨hid, heq⟩ := hnew s id hs
  refine ⟨fun s' hmem => absurd hmem (not_mem_of_fresh hid s'), fun user howner => ?_⟩
  cases (huuid id heq).symm.trans howner

/-- A thread that is put into a session belongs to no other user: the session's user owns the conversation, or there is
no database and no other user has the thread. -/
theorem inv_insertThread (h : HistoryInv json w) {s : Nat} {id : Uuid} (stamp : Bool)
    (howner : w.owner id = some (w.manager.userOf s) ∨ w.db = none ∧
      ∀ s' < w.manager.store.length, id ∈ w.manager.threads s' → w.manager.userOf s' = w.manager.userOf s) :
    HistoryInv json { w with activity := w.activity.step parseUuid (.insertThread s id stamp) } := by
  have hc : Changes (some (s, id)) none w.manager (w.activity.step parseUuid (.insertThread s id stamp)).manager :=
    changes_insertThread s id stamp w.activity.now
  refine inv_changes h hc fun s' id' hnew _ => ?_
  cases hnew
  rcases howner with howner | ⟨hdb, hothers⟩
  · refine ⟨fun s' hmem => (h.owned s' id _ hmem howner).symm, fun user huser => ?_⟩
    exact Option.some.inj (huser.symm.trans howner)
  · refine ⟨fun s' hmem => hothers s' (lt_of_mem_threads hmem) hmem, fun user huser => ?_⟩
    rw [History.owner, hdb] at huser
    cases huser

end Manager

/-! ### Threads and undo managers change -/

theorem History.SaidBy.cons {w : History} {s : Nat} {messages : List ChatMessage} (h : w.SaidBy s messages)
    {said : List (Str × ChatMessage)} : ∀ msg ∈ messages, (w.manager.userOf s, msg) ∈ said ++ w.said :=
  fun msg hmsg => List.mem_append_right said (h msg hmsg)

theorem UndoInv.write {origin : Nat → Uuid} (h : UndoInv origin w) (s : Nat) (id : Uuid) (thread : Thread) :
    UndoInv origin (w.write json s id thread) := by
  refine ⟨h.made, h.handles, fun n mgr hmgr => ?_⟩
  obtain ⟨hlt, hheld⟩ := h.held n mgr hmgr
  refine ⟨hlt, fun c hc => ?_⟩
  obtain ⟨s', hmem, hsays⟩ := hheld c hc
  exact ⟨s', hmem, hsays.cons⟩

theorem inv_write (h : HistoryInv json w) {s : Nat} (hs : s < w.manager.store.length) (id : Uuid) (thread : Thread) :
    HistoryInv json (w.write json s id thread) := by
  obtain ⟨origin, hundo⟩ := h.undo
  refine ⟨h.disjoint, h.owned, h.admitted, ⟨origin, hundo.write s id thread⟩, fun s' id' thread' hlookup =>
    ?_, h.restored⟩
  rw [History.write, Table.lookup_insert] at hlookup
  split at hlookup
  next heq =>
    cases heq
    cases hlookup
    exact ⟨hs, fun msg hmsg => List.mem_append_left _ (List.mem_map_of_mem hmsg)⟩
  next =>
    obtain ⟨hlt, hsays⟩ := h.said s' id' thread' hlookup
    exact ⟨hlt, hsays.cons⟩

theorem saidBy_content (h : HistoryInv json w) (s : Nat) (id : Uuid) : w.SaidBy s ((w.content s id).messages json) := by
  unfold History.content
  cases hlookup : w.contents.lookup (s, id) with
  | none => exact fun _ hmsg => absurd hmsg List.not_mem_nil
  | some thread => exact (h.said s id thread hlookup).2

theorem mem_pushUndo {mgr : UndoManager} {checkpoint c : Checkpoint} (h : c ∈ (mgr.pushUndo checkpoint).undoStack) :
    c ∈ mgr.undoStack ∨ c = checkpoint := by
  have hmem : c ∈ mgr.undoStack ++ [checkpoint] := List.mem_of_mem_drop h
  exact (List.mem_append.mp hmem).imp_right List.mem_singleton.mp

/-- The checkpoints that an undo manager has afterwards, it had before, but for one of the present state; the one to be
restored it had before. -/
theorem checkpoints_apply (op : HistoryOp) (checkpointId : Nat) (mgr : UndoManager) (thread : Thread) :
    (∀ c, c ∈ (op.apply json checkpointId mgr thread).2.undoStack ++
      (op.apply json checkpointId mgr thread).2.redoStack →
      c ∈ mgr.undoStack ++ mgr.redoStack ∨ c.messages = thread.messages json) ∧
    ∀ c, (op.apply json checkpointId mgr thread).1 = some c → c ∈ mgr.undoStack ++ mgr.redoStack := by
  cases op with
  | checkpoint description =>
    refine ⟨fun c hc => ?_, fun c hc => by cases hc⟩
    rcases List.mem_append.mp hc with hc | hc
    · rcases mem_pushUndo hc with hold | rfl
      · exact .inl (List.mem_append_left _ hold)
      · exact .inr rfl
    · cases hc
  | undo =>
    simp only [HistoryOp.apply, UndoManager.undo]
    split
    · exact ⟨fun c hc => .inl hc, fun c hc => by cases hc⟩
    next last hlast =>
      refine ⟨fun c hc => ?_, fun c hc => ?_⟩
      · rcases List.mem_append.mp hc with hc | hc
        · exact .inl (List.mem_append_left _ (List.mem_of_mem_dropLast hc))
        · rcases List.mem_append.mp hc with hc | hc
          · exact .inl (List.mem_append_right _ hc)
          · cases List.mem_singleton.mp hc
            exact .inr rfl
      · cases hc
        exact List.mem_append_left _ (List.mem_of_getLast? hlast)
  | redo =>
    simp only [HistoryOp.apply, UndoManager.redo]
    split
    · exact ⟨fun c hc => .inl hc, fun c hc => by cases hc⟩
    next last hlast =>
      refine ⟨fun c hc => ?_, fun c hc => ?_⟩
      · rcases List.mem_append.mp hc with hc | hc
        · rcases mem_pushUndo hc with hold | rfl
          · exact .inl (List.mem_append_left _ hold)
          · exact .inr rfl
        · exact .inl (List.mem_append_right _ (List.mem_of_mem_dropLast hc))
      · cases hc
        exact List.mem_append_right _ (List.mem_of_getLast? hlast)
  | resume id =>
    simp only [HistoryOp.apply, UndoManager.restore]
    split
    · exact ⟨fun c hc => .inl hc, fun c hc => by cases hc⟩
    next pos hpos =>
      have htake : ∀ c, c ∈ mgr.undoStack.take (pos + 1) → c ∈ mgr.undoStack ++ mgr.redoStack :=
        fun c hc => List.mem_append_left _ (List.mem_of_mem_take hc)
      refine ⟨fun c hc => ?_, fun c hc => htake c (List.mem_of_getLast? hc)⟩
      rcases List.mem_append.mp hc with hc | hc
      · exact .inl (htake c (List.mem_of_mem_dropLast hc))
      · cases hc
  | clear => exact ⟨fun c hc => absurd hc List.not_mem_nil, fun c hc => by cases hc⟩

/-- The checkpoints of an undo manager that a handler was given are of its user. -/
theorem held_lookup {origin : Nat → Uuid} (hundo : UndoInv origin w) (n : Nat) :
    ∀ c ∈ ((w.undo.lookup n).getD .new).undoStack ++ ((w.undo.lookup n).getD .new).redoStack,
      ∃ s, origin n ∈ w.manager.threads s ∧ w.SaidBy s c.messages := by
  cases hlookup : w.undo.lookup n with
  | none => exact fun c hc => absurd hc List.not_mem_nil
  | some mgr => exact (hundo.held n mgr hlookup).2

/-- Messages that the user said before are restored. -/
theorem inv_restore (h : HistoryInv json w) (handle : Handle) (hs : handle.session < w.manager.store.length)
    {messages : List ChatMessage} (hsaid : w.SaidBy handle.session messages) :
    HistoryInv json (w.restore json handle messages) := by
  have hwrite := inv_write h hs handle.thread ((w.content handle.session handle.thread).restoreFromMessages messages)
  obtain ⟨origin, hundo⟩ := hwrite.undo
  refine ⟨hwrite.disjoint, hwrite.owned, hwrite.admitted, ⟨origin, hundo.made, hundo.handles, hundo.held⟩, hwrite.said,
    fun r hr => ?_⟩
  rcases List.mem_cons.mp hr with rfl | hr
  · exact hsaid
  · exact h.restored r hr

theorem inv_withUndo (h : HistoryInv json w) {handle : Handle} (hh : handle ∈ w.handles) (checkpointId : Nat)
    (op : HistoryOp) : HistoryInv json (w.withUndo json handle checkpointId op) := by
  obtain ⟨origin, hundo⟩ := h.undo
  obtain ⟨hmem, hlt, horigin⟩ := hundo.handles handle hh
  have hheld := held_lookup hundo handle.manager
  have hcontent := saidBy_content h handle.session handle.thread
  obtain ⟨hafter, hbefore⟩ := @checkpoints_apply json op checkpointId ((w.undo.lookup handle.manager).getD .new)
    (w.content handle.session handle.thread)
  have hnext :
      HistoryInv json { w with undo := w.undo.insert handle.manager (w.applied json handle checkpointId op).2 } := by
    refine ⟨h.disjoint, h.owned, h.admitted, ⟨origin, hundo.made, hundo.handles, fun n mgr hmgr => ?_⟩,
      h.said, h.restored⟩
    rw [Table.lookup_insert] at hmgr
    split at hmgr
    next heq =>
      cases hmgr
      subst heq
      refine ⟨hlt, fun c hc => ?_⟩
      rcases hafter c hc with hold | hnow
      · exact hheld c hold
      · refine ⟨handle.session, horigin ▸ hmem, ?_⟩
        show w.SaidBy handle.session c.messages
        rw [hnow]
        exact hcontent
    next => exact hundo.held n mgr hmgr
  unfold History.withUndo
  split
  · exact hnext
  next checkpoint hcheck =>
    obtain ⟨s, hs, hsays⟩ := hheld checkpoint (hbefore checkpoint hcheck)
    have huser : w.manager.userOf s = w.manager.userOf handle.session := h.disjoint s _ _ hs (horigin ▸ hmem)
    refine inv_restore hnext handle (lt_of_mem_threads hmem) fun msg hmsg => ?_
    show (w.manager.userOf handle.session, msg) ∈ w.said
    rw [← huser]
    exact hsays msg hmsg

/-- A handler is given the undo manager of a thread of its session. -/
theorem inv_handle (h : HistoryInv json w) {s : Nat} {id : Uuid} (hid : id ∈ w.manager.threads s) :
    HistoryInv json { w with
      handles := ((w.manager.undoManagers.lookup id).map fun n => ⟨s, id, n⟩).toList ++ w.handles } := by
  obtain ⟨origin, hundo⟩ := h.undo
  refine ⟨h.disjoint, h.owned, h.admitted, ⟨origin, hundo.made, fun handle hh => ?_, hundo.held⟩, h.said, h.restored⟩
  rcases List.mem_append.mp hh with hnew | hold
  · obtain ⟨n, hn, rfl⟩ := Option.map_eq_some_iff.mp (Option.mem_toList.mp hnew)
    exact ⟨hid, hundo.made id n hn⟩
  · exact hundo.handles handle hold

/-! ### The database gets a conversation -/

/-- A conversation of a new id, for the user who has the thread of this id, if anybody has. -/
theorem inv_insertOwner (h : HistoryInv json w) {id : Uuid} {user : Str} (hnone : w.owner id = none)
    (huser : ∀ s, id ∈ w.manager.threads s → user = w.manager.userOf s) :
    HistoryInv json { w with db := w.db.map (·.insert id user) } := by
  have howner : ∀ id' user', History.owner { w with db := w.db.map (·.insert id user) } id' = some user' →
      w.owner id' = some user' ∨ id' = id ∧ user' = user := by
    intro id' user' howner
    unfold History.owner at howner ⊢
    cases hdb : w.db with
    | none =>
      rw [hdb] at howner
      cases howner
    | some t =>
      have hlookup : (t.insert id user).lookup id' = some user' := by
        rw [hdb] at howner
        exact howner
      rw [Table.lookup_insert] at hlookup
      split at hlookup
      next heq =>
        cases hlookup
        exact .inr ⟨heq, rfl⟩
      next => exact .inl hlookup
  obtain ⟨origin, hundo⟩ := h.undo
  refine ⟨h.disjoint, fun s id' user' hid hown => ?_, fun s id' hadmitted => ?_,
    ⟨origin, hundo.made, hundo.handles, hundo.held⟩, h.said, h.restored⟩
  · rcases howner id' user' hown with hold | ⟨rfl, rfl⟩
    · exact h.owned s id' user' hid hold
    · exact huser s hid
  · obtain ⟨hlt, hold⟩ := h.admitted s id' hadmitted
    refine ⟨hlt, fun hdb => ?_⟩
    rw [Option.isSome_map] at hdb
    have hsome := hold hdb
    have hne : id' ≠ id := by
      rintro rfl
      cases hnone.symm.trans hsome
    obtain ⟨t, ht⟩ := Option.isSome_iff_exists.mp hdb
    rw [History.owner, ht] at hsome
    show (w.db.map (·.insert id user)).bind (fun t => t.lookup id') = _
    rw [ht]
    exact (AList.lookup_insert_ne hne).trans hsome

/-! ## Runs -/

theorem history_initial (now : Nat) (db : Option (Table Uuid Str)) : HistoryInv json (.initial now db) := by
  have hnone : ∀ s id, id ∉ (History.initial now db).manager.threads s := fun s id hid => nomatch lt_of_mem_threads hid
  refine ⟨fun s _ id hid _ => absurd hid (hnone s id), fun s id _ hid _ => absurd hid (hnone s id),
    fun _ _ h => absurd h List.not_mem_nil, ⟨fun _ => 0, nofun, fun _ hh => absurd hh List.not_mem_nil, nofun⟩, nofun,
    fun _ hr => absurd hr List.not_mem_nil⟩

theorem history_step (w : History) (l : HistoryLabel) (h : HistoryInv json w) (hown : History.Owned w l) :
    HistoryInv json (w.step json parseUuid l) := by
  cases l with
  | manage a =>
    simp only [History.step]
    split
    · exact h
    next hnot =>
      rw [Bool.or_eq_true, not_or, Bool.not_eq_true, Bool.not_eq_true] at hnot
      refine inv_fresh h (fresh_step w.activity a hnot.1) fun id huuid => ?_
      have hfree := hnot.2
      rw [huuid, Option.any_some] at hfree
      exact Option.not_isSome_iff_eq_none.mp (Bool.eq_false_iff.mp hfree)
  | createConversation userId id =>
    simp only [History.step]
    split
    next hfresh =>
      rw [Bool.and_eq_true] at hfresh
      refine inv_insertOwner h (Option.isNone_iff_eq_none.mp hfresh.2) fun s hid => ?_
      exact absurd hid (not_mem_of_fresh hfresh.1 s)
    · exact h
  | ensureConversation s id =>
    simp only [History.step]
    split
    next hnew =>
      exact inv_insertOwner h (Option.isNone_iff_eq_none.mp hnew.2) fun s' hid => h.disjoint s s' id hnew.1 hid
    · exact h
  | boot s id =>
    simp only [History.step]
    split
    next hboot => exact inv_insertThread h false (.inl hboot.2)
    · exact h
  | allow s id =>
    simp only [History.step]
    split
    next hallowed =>
      obtain ⟨origin, hundo⟩ := h.undo
      refine ⟨h.disjoint, h.owned, fun s' id' hmem => ?_, ⟨origin, hundo.made, hundo.handles, hundo.held⟩, h.said,
        h.restored⟩
      rcases List.mem_cons.mp hmem with heq | hmem
      · cases heq
        exact ⟨hallowed.1, hallowed.2.2⟩
      · exact h.admitted s' id' hmem
    · exact h
  | hydrate s id messages =>
    simp only [History.step]
    split
    next hadmitted =>
      obtain ⟨hlt, howner⟩ := h.admitted s id hadmitted
      have hothers : w.owner id = some (w.manager.userOf s) ∨ w.db = none ∧
          ∀ s' < w.manager.store.length, id ∈ w.manager.threads s' → w.manager.userOf s' = w.manager.userOf s := by
        cases hdb : w.db with
        | none => exact .inr ⟨rfl, hown hadmitted (hdb ▸ rfl)⟩
        | some t => exact .inl (howner (hdb ▸ rfl))
      have hnext := @inv_insertThread json parseUuid w h s id true hothers
      refine inv_write hnext ?_ id _
      exact hlt.trans_le (@changes_insertThread w.manager none s id true w.activity.now).length
    · exact h
  | work s id f =>
    simp only [History.step]
    split
    next hid => exact inv_write h (lt_of_mem_threads hid) id _
    · exact h
  | getUndoManager s id =>
    simp only [History.step]
    split
    next hid =>
      have hfresh := @fresh_step parseUuid w.activity (.ensureUndo s id) rfl
      have hnext : HistoryInv json { w with activity := w.activity.step parseUuid (.ensureUndo s id) } :=
        inv_fresh h hfresh nofun
      obtain ⟨new, made, hc, -⟩ := hfresh
      exact inv_handle hnext (hc.threads s id hid)
    · exact h
  | withUndo i checkpointId op =>
    simp only [History.step]
    split
    · exact h
    next handle hhandle => exact inv_withUndo h (List.mem_of_getElem? hhandle) checkpointId op

theorem mem_insertThread {m : SessionManager} {s : Nat} (id : Uuid) (stamp : Bool) (now : Nat)
    (h : s < m.store.length) :
    id ∈ (m.modifySession s (·.insertThread id stamp now)).threads s := by
  rw [SessionManager.threads_modifySession, if_pos rfl, List.getElem?_eq_getElem h, Option.elim_some]
  simp only [Session.insertThread, Session.addThread]
  split
  next hmem => exact hmem
  next => exact List.mem_cons_self

/-- A thread of another user that is hydrated is shared with this user. -/
theorem owned_of_isolated (w : History) (l : HistoryLabel) (h : HistoryInv json w)
    (hiso : (w.step json parseUuid l).Isolated) : History.Owned w l := by
  cases l with
  | hydrate s id messages =>
    intro hadmitted hdb s' hs' hid
    obtain ⟨hlt, -⟩ := h.admitted s id hadmitted
    have hc : Changes (some (s, id)) none w.manager (w.activity.step parseUuid (.insertThread s id true)).manager :=
      changes_insertThread s id true w.activity.now
    simp only [History.step, if_pos hadmitted] at hiso
    have hnew : id ∈ (w.activity.step parseUuid (.insertThread s id true)).manager.threads s :=
      mem_insertThread id true w.activity.now hlt
    have hsame := hiso.threads s' s id (hc.threads s' id hid) hnew
    have huser := hc.user s hlt
    have huser' := hc.user s' hs'
    exact huser'.symm.trans (hsame.trans huser)
  | manage _ | createConversation _ _ | ensureConversation _ _ | boot _ _ | allow _ _ | work _ _ _ | getUndoManager _ _
  | withUndo _ _ _ => trivial

/-- **Isolation.** No two users ever share a thread or an undo manager, and everything that is restored into a thread
was in a thread of its user before, exactly when there is a database or no thread of another user is hydrated. -/
theorem sessions_isolated_iff (json : JsonText) (parseUuid : Str → Option Uuid) (now : Nat)
    (db : Option (Table Uuid Str))
    (ls : List HistoryLabel) :
    (∀ pre, pre <+: ls → (run (History.step json parseUuid) (.initial now db) pre).Isolated) ↔
      Along (History.step json parseUuid) History.Owned (.initial now db) ls :=
  states_iff history_step (fun _ h => isolated_of_inv h) owned_of_isolated ls (@history_initial json now db)

end Invariant

/-! ## Without a database -/

/-- A user sends two messages, and another one names the thread of the first in a message of his, and undoes. -/
def namesThread : List HistoryLabel :=
  .manage (.start greeting) :: List.replicate 5 (.manage (.advance 0 7)) ++
    [.getUndoManager 0 7, .withUndo 0 1 (.checkpoint []), .work 0 7 (·.startTurn "the code is 1234".toList),
      .withUndo 0 2 (.checkpoint []), .manage (.getSession "eve".toList), .allow 1 7, .hydrate 1 7 [],
      .getUndoManager 1 7, .withUndo 0 3 .undo]

/-- The messages of one user are restored into the thread of another, who has sent none. -/
theorem foreign_undo : ¬∀ (json : JsonText) (parseUuid : Str → Option Uuid) (now : Nat) (db : Option (Table Uuid Str))
    (ls : List HistoryLabel), (run (History.step json parseUuid) (.initial now db) ls).Isolated := by
  intro h
  have hrestored : ∃ r ∈ (run (History.step ⟨fun _ => .error [], fun _ => []⟩ fun _ => none) (.initial 0 none)
      namesThread).restored, r.user = "eve".toList ∧ ChatMessage.user "the code is 1234".toList ∈ r.messages ∧
        ∀ said ∈ r.said, said.1 ≠ "eve".toList := by decide
  obtain ⟨r, hr, huser, hmsg, hsaid⟩ := hrestored
  have hown := (h _ _ 0 none namesThread).restored r hr _ hmsg
  exact hsaid _ hown huser

end Ironclaw.Manager

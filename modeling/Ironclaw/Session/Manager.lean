import Ironclaw.Lib.Run
import Ironclaw.Lib.Table
import Ironclaw.Lib.Text

/-!
# The session manager

Three maps, each behind a lock of its own: the sessions by user, the threads by key, and the undo managers by thread. A
session is shared by number, so a handler keeps it when the map lets it go. An operation is cut where it releases a lock
(`ResolvePc`); the ids that are made, and the time, come with a step.

- `lookup_getOrCreateSession`, `threads_getOrCreateSession`: the session of a user;
- `threads_modifySession`: a change of one session;
- `hit`: the thread that the maps give for a key, and what changes it.
-/

namespace Ironclaw.Manager

abbrev Uuid := Nat

structure ThreadKey where
  userId : Str
  channel : Str
  externalThreadId : Option Str
  deriving DecidableEq

/-- A session, with the ids of its threads. -/
structure Session where
  userId : Str
  activeThread : Option Uuid
  threads : List Uuid
  lastActiveAt : Nat
  deriving DecidableEq

namespace Session

def new (userId : Str) (now : Nat) : Session := ⟨userId, none, [], now⟩

def addThread (session : Session) (id : Uuid) : Session :=
  { session with threads := if id ∈ session.threads then session.threads else id :: session.threads }

/-- `create_thread`, with the id of the new thread. -/
def createThread (session : Session) (id : Uuid) (now : Nat) : Session :=
  { session.addThread id with activeThread := some id, lastActiveAt := now }

def switchThread (session : Session) (id : Uuid) (now : Nat) : Session :=
  if id ∈ session.threads then { session with activeThread := some id, lastActiveAt := now } else session

end Session

/-- The maps, and every session that was made. -/
structure SessionManager where
  store : List Session
  sessions : Table Str Nat
  threadMap : Table ThreadKey Uuid
  undoManagers : Table Uuid Nat
  /-- The number of undo managers that were made. -/
  undoMade : Nat
  tracked : ∀ user s, sessions.lookup user = some s → s < store.length

namespace SessionManager

def new : SessionManager := ⟨[], ∅, ∅, ∅, 0, nofun⟩

variable (m : SessionManager)

def threads (s : Nat) : List Uuid := (m.store[s]?).elim [] fun session => session.threads

/-- A change under the lock of a session. -/
def modifySession (s : Nat) (f : Session → Session) : SessionManager :=
  { m with
    store := m.store.modify s f
    tracked := by
      intro user s' h
      rw [List.length_modify]
      exact m.tracked user s' h }

/-- The session that is made for a user. -/
def addSession (userId : Str) (now : Nat) : SessionManager :=
  { m with
    store := m.store ++ [.new userId now]
    sessions := m.sessions.insert userId m.store.length
    tracked := by
      intro user s h
      rw [Table.lookup_insert] at h
      rw [List.length_append, List.length_singleton]
      split at h
      · cases h
        exact Nat.lt_succ_self _
      · exact (m.tracked user s h).trans (Nat.lt_succ_self _) }

/-- `get_or_create_session`: the read and, under the write lock, the second check come to the same. -/
def getOrCreateSession (userId : Str) (now : Nat) : SessionManager × Nat :=
  match m.sessions.lookup userId with
  | some s => (m, s)
  | none => (m.addSession userId now, m.store.length)

/-- The id is a value of the thread map. -/
def isMapped (id : Uuid) : Bool := m.threadMap.entries.any fun e => e.2 = id

/-- A random id is in no use. -/
def isFresh (id : Uuid) : Bool :=
  m.store.all (fun session => id ∉ session.threads) && !m.isMapped id && (m.undoManagers.lookup id).isNone

def mapThread (key : ThreadKey) (id : Uuid) : SessionManager := { m with threadMap := m.threadMap.insert key id }

/-- A new undo manager, whether there is one or not. -/
def insertUndo (id : Uuid) : SessionManager :=
  { m with undoManagers := m.undoManagers.insert id m.undoMade, undoMade := m.undoMade + 1 }

/-- `entry(id).or_insert_with(..)`, and what `get_undo_manager` does with the map. -/
def ensureUndo (id : Uuid) : SessionManager := if (m.undoManagers.lookup id).isSome then m else m.insertUndo id

end SessionManager

/-! ## `resolve_thread` -/

/-- A call of `resolve_thread_with_parsed_uuid`. -/
structure Request where
  userId : Str
  channel : Str
  externalThreadId : Option Str
  parsedUuid : Option Uuid
  deriving DecidableEq

namespace Request

def key (r : Request) : ThreadKey := ⟨r.userId, r.channel, r.externalThreadId⟩

def extUuid (parseUuid : Str → Option Uuid) (r : Request) : Option Uuid :=
  r.parsedUuid <|> r.externalThreadId.bind parseUuid

end Request

/-- Where a call stands, with its session and its thread. -/
inductive ResolvePc
  | getSession
  | lookup (s : Nat)
  | adopt (s : Nat) (id : Uuid)
  | adoptWrite (s : Nat) (id : Uuid)
  | adoptUndo (s : Nat) (id : Uuid)
  | create (s : Nat)
  | storeMapping (s : Nat) (id : Uuid)
  | createUndo (s : Nat) (id : Uuid)
  | returned (s : Nat) (id : Uuid)
  deriving DecidableEq

section Resolve

variable (parseUuid : Str → Option Uuid) (m : SessionManager) (r : Request)

/-- Under the read lock of the thread map: the thread of the key, or the id that may be adopted. -/
def lookupThread (s : Nat) : ResolvePc :=
  match (m.threadMap.lookup r.key).filter (fun id => id ∈ m.threads s) with
  | some id => .returned s id
  | none =>
    if r.externalThreadId.isSome then
      match (r.extUuid parseUuid).filter (fun id => !m.isMapped id) with
      | some id => .adopt s id
      | none => .create s
    else .create s

/-- One step of a call; `uuid` is the id for a new thread. -/
def resolveStep (uuid : Uuid) (now : Nat) : ResolvePc → SessionManager × ResolvePc
  | .getSession =>
    let got := m.getOrCreateSession r.userId now
    (got.1, .lookup got.2)
  | .lookup s => (m, lookupThread parseUuid m r s)
  | .adopt s id => (m, if id ∈ m.threads s then .adoptWrite s id else .create s)
  | .adoptWrite s id => if m.isMapped id then (m, .create s) else (m.mapThread r.key id, .adoptUndo s id)
  | .adoptUndo s id => (m.ensureUndo id, .returned s id)
  | .create s =>
    if m.isFresh uuid then (m.modifySession s (·.createThread uuid now), .storeMapping s uuid) else (m, .create s)
  | .storeMapping s id => (m.mapThread r.key id, .createUndo s id)
  | .createUndo s id => (m.insertUndo id, .returned s id)
  | .returned s id => (m, .returned s id)

end Resolve

/-! ## What the operations change -/

namespace SessionManager

section Lemmas

variable {m : SessionManager} {user : Str} {s : Nat}

@[simp] theorem threads_mapThread (key : ThreadKey) (id : Uuid) : (m.mapThread key id).threads s = m.threads s := rfl

@[simp] theorem threads_insertUndo (id : Uuid) : (m.insertUndo id).threads s = m.threads s := rfl

@[simp] theorem threads_ensureUndo (id : Uuid) : (m.ensureUndo id).threads s = m.threads s := by
  unfold ensureUndo
  split <;> rfl

@[simp] theorem sessions_ensureUndo (id : Uuid) : (m.ensureUndo id).sessions = m.sessions := by
  unfold ensureUndo
  split <;> rfl

@[simp] theorem threadMap_ensureUndo (id : Uuid) : (m.ensureUndo id).threadMap = m.threadMap := by
  unfold ensureUndo
  split <;> rfl

theorem threads_modifySession (s' : Nat) (f : Session → Session) : (m.modifySession s f).threads s' =
    if s = s' then (m.store[s']?).elim [] fun session => (f session).threads else m.threads s' := by
  unfold threads modifySession
  rw [List.getElem?_modify]
  split
  · cases m.store[s']? <;> rfl
  · cases m.store[s']? <;> rfl

/-- A new thread is one of its session's; the other threads stay. -/
theorem mem_threads_createThread {s' : Nat} {id uuid : Uuid} {now : Nat} :
    id ∈ (m.modifySession s (·.createThread uuid now)).threads s' ↔
      id ∈ m.threads s' ∨ s = s' ∧ s < m.store.length ∧ id = uuid := by
  rw [threads_modifySession]
  unfold threads
  by_cases hs : s = s'
  · subst hs
    rw [if_pos rfl]
    cases hstore : m.store[s]? with
    | none =>
      have hlen := List.getElem?_eq_none_iff.mp hstore
      simp only [Option.elim_none, List.not_mem_nil, false_or, false_iff]
      exact fun h => absurd h.2.1 (Nat.not_lt.mpr hlen)
    | some session =>
      have hlen : s < m.store.length := (List.getElem?_eq_some_iff.mp hstore).1
      simp only [Option.elim_some, Session.createThread, Session.addThread, hlen, true_and]
      split
      next hmem =>
        refine ⟨.inl, ?_⟩
        rintro (h | rfl)
        · exact h
        · exact hmem
      next => rw [List.mem_cons, or_comm]
  · rw [if_neg hs]
    exact ⟨.inl, fun h => h.resolve_right fun h => hs h.1⟩

/-- The session that a user gets is the one of the map afterwards. -/
theorem lookup_getOrCreateSession (now : Nat) : (m.getOrCreateSession user now).1.sessions.lookup user =
    some (m.getOrCreateSession user now).2 := by
  unfold getOrCreateSession
  split
  next s hs => exact hs
  next => exact AList.lookup_insert _

/-- The sessions of the map stay. -/
theorem lookup_getOrCreateSession_of_some {user' : Str} (h : m.sessions.lookup user = some s) (now : Nat) :
    (m.getOrCreateSession user' now).1.sessions.lookup user = some s := by
  unfold getOrCreateSession
  split
  · exact h
  next hnone =>
    have hne : user ≠ user' := by
      rintro rfl
      rw [h] at hnone
      cases hnone
    show (m.sessions.insert user' m.store.length).lookup user = some s
    rw [AList.lookup_insert_ne hne, h]

/-- A new session has no threads. -/
theorem threads_getOrCreateSession (user : Str) (now s' : Nat) :
    (m.getOrCreateSession user now).1.threads s' = m.threads s' := by
  unfold getOrCreateSession
  split
  · rfl
  · unfold threads addSession
    simp only
    rcases Nat.lt_trichotomy s' m.store.length with hlt | rfl | hgt
    · rw [List.getElem?_append_left hlt]
    · rw [List.getElem?_concat_length, List.getElem?_eq_none (Nat.le_refl _)]
      rfl
    · have hlen : (m.store ++ [Session.new user now]).length ≤ s' := by
        rw [List.length_append, List.length_singleton]
        exact hgt
      rw [List.getElem?_eq_none hlen, List.getElem?_eq_none hgt.le]

@[simp] theorem threadMap_getOrCreateSession (user : Str) (now : Nat) :
    (m.getOrCreateSession user now).1.threadMap = m.threadMap := by
  unfold getOrCreateSession
  split <;> rfl

theorem isMapped_of_lookup {key : ThreadKey} {id : Uuid} (h : m.threadMap.lookup key = some id) :
    m.isMapped id = true :=
  List.any_eq_true.mpr ⟨⟨key, id⟩, Table.mem_entries_iff.mpr h, by simp⟩

theorem isMapped_of_fresh {id : Uuid} (h : m.isFresh id = true) : m.isMapped id = false := by
  unfold isFresh at h
  rw [Bool.and_eq_true, Bool.and_eq_true, Bool.not_eq_true'] at h
  exact h.1.2

end Lemmas

end SessionManager

end Ironclaw.Manager

import Ironclaw.Session.Resolution

/-!
# The session manager at work

Everything that changes the maps of the manager: calls of `resolve_thread`, the handlers of messages (hydration,
approval routing, `/new`, `/thread`, `register_thread`, `get_undo_manager`) and `prune_stale_sessions`, each cut where
it releases a lock, in any interleaving. A session that a `try_lock` finds taken comes with the step. A log keeps when
messages were resolved for which session, and what each prune began and ended with.

- `Steady`: every step keeps the threads of the sessions, and when they were active;
- `Grows`: a step that is no prune takes nothing from the maps;
- `sound_step`: a message that marked its session as active did so at the time of its resolution.
-/

namespace Ironclaw.Manager

open Run

def SECOND : Nat := 1000000000

/-! ## Pruning -/

namespace SessionManager

variable (m : SessionManager)

/-- The session was last active before the cutoff, which is counted in whole seconds. -/
def isStale (now maxIdle s : Nat) : Bool :=
  (m.store[s]?).any fun session => session.lastActiveAt + maxIdle / SECOND * SECOND < now

/-- The users whose sessions are stale and free. -/
def staleUsers (now maxIdle : Nat) (contended : Nat → Bool) : List Str :=
  (m.sessions.entries.filter fun e => !contended e.2 && m.isStale now maxIdle e.2).map fun e => e.1

/-- The threads of the sessions of these users that are free. -/
def staleThreadIds (users : List Str) (contended : Nat → Bool) : List Uuid :=
  users.flatMap fun user =>
    match m.sessions.lookup user with
    | some s => if contended s then [] else m.threads s
    | none => []

def removeSessions (users : List Str) : SessionManager :=
  { m with
    sessions := Table.retain (fun user _ => user ∉ users) m.sessions
    tracked := by
      intro user s h
      rw [Table.lookup_retain] at h
      exact m.tracked user s (Option.filter_eq_some_iff.mp h).1 }

def retainThreads (users : List Str) : SessionManager :=
  { m with threadMap := Table.retain (fun key _ => key.userId ∉ users) m.threadMap }

def removeUndo (ids : List Uuid) : SessionManager :=
  { m with undoManagers := Table.retain (fun id _ => id ∉ ids) m.undoManagers }

end SessionManager

/-- A message that was resolved for a session, at a time, and whether this marked the session as active. -/
structure Resolved where
  session : Nat
  time : Nat
  stamped : Bool
  deriving DecidableEq

/-- The next lock that a prune takes. -/
inductive PrunePhase
  | collect
  | sessions
  | threads
  | undo
  deriving DecidableEq

/-- A prune, with what it has found, and what it began with. -/
structure Prune where
  phase : PrunePhase
  stale : List Str
  threadIds : List Uuid
  time : Nat
  maxIdle : Nat
  before : SessionManager
  resolved : List Resolved

/-- A prune that is done, with the maps after it. -/
structure Pruned where
  prune : Prune
  after : SessionManager

/-! ## The machine -/

structure Activity where
  manager : SessionManager
  calls : List (Request × ResolvePc)
  now : Nat
  resolved : List Resolved
  prune : Option Prune
  pruned : List Pruned

inductive Act
  | tick (d : Nat)
  | start (r : Request)
  | advance (i : Nat) (uuid : Uuid)
  | getSession (userId : Str)
  | insertThread (s : Nat) (id : Uuid) (stamp : Bool)
  | activate (s : Nat) (id : Uuid)
  | newThread (s : Nat) (uuid : Uuid)
  | switchThread (s : Nat) (id : Uuid)
  | registerMap (s : Nat) (key : ThreadKey) (id : Uuid)
  | ensureUndo (s : Nat) (id : Uuid)
  | registerSession (userId : Str) (s : Nat)
  | prune (maxIdle : Nat) (contended : Nat → Bool)
  | pruneNext (contended : Nat → Bool)

namespace Session

/-- A hydrated thread is put into its session; the boot thread does not mark the session as active. -/
def insertThread (session : Session) (id : Uuid) (stamp : Bool) (now : Nat) : Session :=
  { session.addThread id with
    activeThread := some id
    lastActiveAt := if stamp then now else session.lastActiveAt }

end Session

/-- The session was made for the user. -/
def SessionManager.isOf (m : SessionManager) (userId : Str) (s : Nat) : Bool :=
  (m.store[s]?).any fun session => session.userId = userId

/-- `sessions.entry(user).or_insert(session)`, for a session that there is. -/
def SessionManager.registerSession (m : SessionManager) (userId : Str) (s : Nat) : SessionManager :=
  if h : (m.sessions.lookup userId).isNone ∧ s < m.store.length then
    { m with
      sessions := m.sessions.insert userId s
      tracked := by
        intro user s' hs'
        rw [Table.lookup_insert] at hs'
        split at hs'
        · cases hs'
          exact h.2
        · exact m.tracked user s' hs' }
  else m

/-- What a step of a call resolves: the session, and whether it marks the session as active. -/
def resolution (pc pc' : ResolvePc) : Option (Nat × Bool) :=
  match pc, pc' with
  | .lookup _, .returned s _ => some (s, false)
  | .adoptWrite _ _, .adoptUndo s _ => some (s, false)
  | .create _, .storeMapping s _ => some (s, true)
  | _, _ => none

namespace Activity

variable (parseUuid : Str → Option Uuid) (w : Activity)

def log (s : Nat) (stamped : Bool) : Activity := { w with resolved := ⟨s, w.now, stamped⟩ :: w.resolved }

def advance (i : Nat) (uuid : Uuid) : Activity :=
  match w.calls[i]? with
  | none => w
  | some (r, pc) =>
    let next := resolveStep parseUuid w.manager r uuid w.now pc
    let w' := { w with manager := next.1, calls := w.calls.set i (r, next.2) }
    match resolution pc next.2 with
    | none => w'
    | some (s, stamped) => w'.log s stamped

/-- The prune is done. -/
def finish (p : Prune) (m : SessionManager) : Activity :=
  { w with manager := m, prune := none, pruned := ⟨p, m⟩ :: w.pruned }

/-- The first window of a prune: the stale sessions; without any it is done. -/
def startPrune (maxIdle : Nat) (contended : Nat → Bool) : Activity :=
  match w.prune with
  | some _ => w
  | none =>
    let stale := w.manager.staleUsers w.now maxIdle contended
    let p : Prune := ⟨.collect, stale, [], w.now, maxIdle, w.manager, w.resolved⟩
    if stale.isEmpty then w.finish p w.manager else { w with prune := some p }

/-- The next window of the prune that is under way. -/
def nextPrune (contended : Nat → Bool) : Activity :=
  match w.prune with
  | none => w
  | some p =>
    match p.phase with
    | .collect =>
      { w with prune := some { p with phase := .sessions, threadIds := w.manager.staleThreadIds p.stale contended } }
    | .sessions => { w with manager := w.manager.removeSessions p.stale, prune := some { p with phase := .threads } }
    | .threads => { w with manager := w.manager.retainThreads p.stale, prune := some { p with phase := .undo } }
    | .undo => w.finish p (w.manager.removeUndo p.threadIds)

def step (w : Activity) : Act → Activity
  | .tick d => { w with now := w.now + d }
  | .start r => { w with calls := w.calls ++ [(r, .getSession)] }
  | .advance i uuid => w.advance parseUuid i uuid
  | .getSession userId => { w with manager := (w.manager.getOrCreateSession userId w.now).1 }
  | .insertThread s id stamp => { w with manager := w.manager.modifySession s (·.insertThread id stamp w.now) }
  | .activate s id =>
    if id ∈ w.manager.threads s then
      { w with manager := w.manager.modifySession s (·.switchThread id w.now) }.log s true
    else w
  | .newThread s uuid =>
    if w.manager.isFresh uuid then { w with manager := w.manager.modifySession s (·.createThread uuid w.now) } else w
  | .switchThread s id => { w with manager := w.manager.modifySession s (·.switchThread id w.now) }
  | .registerMap s key id =>
    if w.manager.isOf key.userId s ∧ id ∈ w.manager.threads s then
      { w with manager := w.manager.mapThread key id } else w
  | .ensureUndo s id => if id ∈ w.manager.threads s then { w with manager := w.manager.ensureUndo id } else w
  | .registerSession userId s =>
    if w.manager.isOf userId s then { w with manager := w.manager.registerSession userId s } else w
  | .prune maxIdle contended => w.startPrune maxIdle contended
  | .pruneNext contended => w.nextPrune contended

end Activity

/-- Nothing has happened. -/
def Activity.initial (now : Nat) : Activity := ⟨.new, [], now, [], none, []⟩

/-! ## What every step keeps -/

namespace SessionManager

/-- The session was active at a time, or later. -/
def ActiveSince (m : SessionManager) (s t : Nat) : Prop :=
  ∃ session, m.store[s]? = some session ∧ t ≤ session.lastActiveAt

/-- No session was active after a time. -/
def ActiveUntil (m : SessionManager) (now : Nat) : Prop := ∀ session ∈ m.store, session.lastActiveAt ≤ now

end SessionManager

/-- The sessions of `m` are there in `m'`, with their threads, and active as late. -/
structure Steady (now : Nat) (m m' : SessionManager) : Prop where
  length : m.store.length ≤ m'.store.length
  threads : ∀ s id, id ∈ m.threads s → id ∈ m'.threads s
  until_ : m.ActiveUntil now → m'.ActiveUntil now
  since : m.ActiveUntil now → ∀ s t, m.ActiveSince s t → m'.ActiveSince s t

/-- A change of one session that drops no thread, and marks the session as active now or not at all. -/
structure Marks (now : Nat) (f : Session → Session) : Prop where
  threads : ∀ session, session.threads ⊆ (f session).threads
  active : ∀ session, (f session).lastActiveAt = session.lastActiveAt ∨ (f session).lastActiveAt = now

section Steady

variable {m m' : SessionManager} {now s : Nat}

theorem subset_addThread (session : Session) (id : Uuid) : session.threads ⊆ (session.addThread id).threads := by
  unfold Session.addThread
  simp only
  split
  · exact fun _ h => h
  · exact fun _ h => List.mem_cons_of_mem id h

theorem marks_createThread (id : Uuid) (now : Nat) : Marks now (·.createThread id now) :=
  ⟨fun session => subset_addThread session id, fun _ => .inr rfl⟩

theorem marks_insertThread (id : Uuid) (stamp : Bool) (now : Nat) : Marks now (·.insertThread id stamp now) := by
  refine ⟨fun session => subset_addThread session id, fun session => ?_⟩
  cases stamp
  · exact .inl rfl
  · exact .inr rfl

theorem marks_switchThread (id : Uuid) (now : Nat) : Marks now (·.switchThread id now) := by
  refine ⟨fun session => ?_, fun session => ?_⟩ <;> simp only [Session.switchThread]
  · split <;> exact fun _ h => h
  · split
    · exact .inr rfl
    · exact .inl rfl

theorem steady_of_store (h : m'.store = m.store) : Steady now m m' := by
  refine ⟨Nat.le_of_eq (congrArg List.length h.symm), fun s id hid => ?_, fun hm => ?_, fun _ s t hs => ?_⟩
  · rw [SessionManager.threads, h]
    exact hid
  · rw [SessionManager.ActiveUntil, h]
    exact hm
  · rw [SessionManager.ActiveSince, h]
    exact hs

theorem store_modifySession (s i : Nat) (f : Session → Session) : (m.modifySession s f).store[i]? =
    (m.store[i]?).map fun session => if s = i then f session else session := List.getElem?_modify ..

theorem steady_modifySession {f : Session → Session} (hf : Marks now f) (s : Nat) :
    Steady now m (m.modifySession s f) := by
  refine ⟨(List.length_modify ..).ge, fun s' id hid => ?_, fun hm session hsession => ?_, fun hm s' t hs => ?_⟩
  · rw [SessionManager.threads_modifySession]
    split
    · unfold SessionManager.threads at hid
      cases hstore : m.store[s']? with
      | none =>
        rw [hstore] at hid
        cases hid
      | some session =>
        rw [hstore] at hid
        exact hf.threads session hid
    · exact hid
  · obtain ⟨i, hi⟩ := List.mem_iff_getElem?.mp hsession
    rw [store_modifySession] at hi
    obtain ⟨old, hold, rfl⟩ := Option.map_eq_some_iff.mp hi
    have hle := hm old (List.mem_of_getElem? hold)
    split
    · rcases hf.active old with h | h <;> omega
    · exact hle
  · obtain ⟨old, hold, ht⟩ := hs
    have hle := hm old (List.mem_of_getElem? hold)
    refine ⟨if s = s' then f old else old, ?_, ?_⟩
    · rw [store_modifySession, hold, Option.map_some]
    · split
      · rcases hf.active old with h | h <;> omega
      · exact ht

theorem steady_getOrCreateSession (user : Str) : Steady now m (m.getOrCreateSession user now).1 := by
  unfold SessionManager.getOrCreateSession
  split
  · exact steady_of_store rfl
  next hnone =>
    have hthreads := SessionManager.threads_getOrCreateSession (m := m) user now
    rw [SessionManager.getOrCreateSession, hnone] at hthreads
    refine ⟨?_, fun s id hid => ?_, fun hm session hsession => ?_, fun _ s t hs => ?_⟩
    · show m.store.length ≤ (m.store ++ [Session.new user now]).length
      rw [List.length_append]
      exact Nat.le_add_right _ _
    · rw [hthreads]
      exact hid
    · rcases List.mem_append.mp hsession with h | h
      · exact hm session h
      · cases List.mem_singleton.mp h
        exact Nat.le_refl now
    · obtain ⟨session, hsession, ht⟩ := hs
      exact ⟨session, List.getElem?_append_left (List.getElem?_eq_some_iff.mp hsession).1 ▸ hsession, ht⟩

end Steady

/-! ## What the handlers add to the maps -/

namespace SessionManager

/-- The session that the user has now has the thread. -/
def Holds (m : SessionManager) (user : Str) (id : Uuid) : Prop :=
  ∃ s, m.sessions.lookup user = some s ∧ id ∈ m.threads s

/-- The session of a user who is not in the list has the thread. -/
def HoldsOutside (m : SessionManager) (busy : List Str) (id : Uuid) : Prop := ∃ user, user ∉ busy ∧ m.Holds user id

end SessionManager

/-- Nothing is taken from the maps of `m`. A new entry is for a thread of the session of its user, a new undo manager
for a thread that is free, or of a session whose user is not busy. -/
structure Grows (now : Nat) (busy : List Str) (free : List Uuid) (m m' : SessionManager) :
    Prop extends Steady now m m' where
  sessions : ∀ user s, m.sessions.lookup user = some s → m'.sessions.lookup user = some s
  keys : ∀ key, (m.threadMap.lookup key).isSome → (m'.threadMap.lookup key).isSome
  undo : ∀ id, (m.undoManagers.lookup id).isSome → (m'.undoManagers.lookup id).isSome
  mapped : ∀ key id, m'.threadMap.lookup key = some id → m.threadMap.lookup key = some id ∨ m'.Holds key.userId id
  undone : ∀ id, (m'.undoManagers.lookup id).isSome →
    (m.undoManagers.lookup id).isSome ∨ id ∈ free ∨ m'.HoldsOutside busy id

section Grows

variable {m m' : SessionManager} {now : Nat} {busy : List Str} {free : List Uuid}

/-- A change that leaves the threads and the undo managers, and takes no session away. -/
theorem grows_of_steady (h : Steady now m m')
    (hsessions : ∀ user s, m.sessions.lookup user = some s → m'.sessions.lookup user = some s)
    (hmap : m'.threadMap = m.threadMap) (hundo : m'.undoManagers = m.undoManagers) : Grows now busy free m m' where
  toSteady := h
  sessions := hsessions
  keys key hkey := by rwa [hmap]
  undo id hid := by rwa [hundo]
  mapped key id hid := .inl (by rwa [← hmap])
  undone id hid := .inl (by rwa [← hundo])

theorem Grows.refl (m : SessionManager) : Grows now busy free m m :=
  grows_of_steady (steady_of_store rfl) (fun _ _ h => h) rfl rfl

theorem grows_getOrCreateSession (user : Str) : Grows now busy free m (m.getOrCreateSession user now).1 := by
  refine grows_of_steady (steady_getOrCreateSession user) (fun _ _ h => ?_) ?_ ?_
  · exact SessionManager.lookup_getOrCreateSession_of_some h now
  · exact SessionManager.threadMap_getOrCreateSession user now
  · unfold SessionManager.getOrCreateSession
    split <;> rfl

theorem grows_modifySession {f : Session → Session} (hf : Marks now f) (s : Nat) :
    Grows now busy free m (m.modifySession s f) := grows_of_steady (steady_modifySession hf s) (fun _ _ h => h) rfl rfl

theorem grows_registerSession (user : Str) (s : Nat) : Grows now busy free m (m.registerSession user s) := by
  unfold SessionManager.registerSession
  split
  next h =>
    refine grows_of_steady (steady_of_store rfl) (fun user' s' hs' => ?_) rfl rfl
    have hne : user' ≠ user := by
      rintro rfl
      rw [hs'] at h
      exact Bool.false_ne_true h.1
    exact (AList.lookup_insert_ne hne).trans hs'
  next => exact .refl m

/-- An entry for a thread of the session of its user. -/
theorem grows_mapThread {key : ThreadKey} {id : Uuid} (h : m.Holds key.userId id) :
    Grows now busy free m (m.mapThread key id) where
  toSteady := steady_of_store rfl
  sessions _ _ hs := hs
  keys key' hkey := by
    rw [SessionManager.mapThread, Table.lookup_insert]
    split
    · rfl
    · exact hkey
  undo _ hid := hid
  mapped key' id' hid := by
    rw [SessionManager.mapThread, Table.lookup_insert] at hid
    split at hid
    next hkey =>
      cases hid
      rw [hkey]
      exact .inr h
    next => exact .inl hid
  undone _ hid := .inl hid

theorem grows_insertUndo {id : Uuid} (h : (m.undoManagers.lookup id).isSome ∨ id ∈ free ∨ m.HoldsOutside busy id) :
    Grows now busy free m (m.insertUndo id) where
  toSteady := steady_of_store rfl
  sessions _ _ hs := hs
  keys _ hkey := hkey
  undo id' hid := by
    rw [SessionManager.insertUndo, Table.lookup_insert]
    split
    · rfl
    · exact hid
  mapped _ _ hid := .inl hid
  undone id' hid := by
    rw [SessionManager.insertUndo, Table.lookup_insert] at hid
    split at hid
    next heq =>
      rw [heq]
      exact h
    next => exact .inl hid

theorem grows_ensureUndo {id : Uuid} (h : (m.undoManagers.lookup id).isSome ∨ id ∈ free ∨ m.HoldsOutside busy id) :
    Grows now busy free m (m.ensureUndo id) := by
  unfold SessionManager.ensureUndo
  split
  · exact .refl m
  · exact grows_insertUndo h

end Grows

/-! ## The calls -/

/-- The thread that a call is about to write to the maps. -/
def ResolvePc.writes? : ResolvePc → Option Uuid
  | .adoptWrite _ id | .adoptUndo _ id | .storeMapping _ id | .createUndo _ id => some id
  | _ => none

section Calls

variable {m : SessionManager} {parseUuid : Str → Option Uuid} {r : Request} {uuid : Uuid} {now : Nat}

theorem steady_resolveStep (pc : ResolvePc) : Steady now m (resolveStep parseUuid m r uuid now pc).1 := by
  cases pc with
  | getSession => exact steady_getOrCreateSession r.userId
  | lookup s | adopt s id | storeMapping s id | createUndo s id | returned s id => exact steady_of_store rfl
  | adoptWrite s id =>
    simp only [resolveStep]
    split <;> exact steady_of_store rfl
  | adoptUndo s id =>
    simp only [resolveStep, SessionManager.ensureUndo]
    split <;> exact steady_of_store rfl
  | create s =>
    simp only [resolveStep]
    split
    · exact steady_modifySession (marks_createThread uuid now) s
    · exact steady_of_store rfl

/-- The session of a call is one that was made. -/
theorem made_resolveStep (pc : ResolvePc) (h : ∀ s, pc.session? = some s → s < m.store.length) (s : Nat)
    (hs : (resolveStep parseUuid m r uuid now pc).2.session? = some s) :
    s < (resolveStep parseUuid m r uuid now pc).1.store.length := by
  cases hpc : pc.session? with
  | some s' =>
    rw [session?_resolveStep hpc] at hs
    cases hs
    exact (h s hpc).trans_le (steady_resolveStep pc).length
  | none =>
    have hcurrent := @session_resolveStep m parseUuid r uuid now pc (fun s' hs' => nomatch hpc.symm.trans hs') s hs
    exact (resolveStep parseUuid m r uuid now pc).1.tracked _ _ hcurrent

/-- The thread that a call is about to write is one of its session's. -/
theorem writes_resolveStep (pc : ResolvePc) (hmade : ∀ s, pc.session? = some s → s < m.store.length)
    (h : ∀ s id, pc.session? = some s → pc.writes? = some id → id ∈ m.threads s) (s : Nat) (id : Uuid)
    (hs : (resolveStep parseUuid m r uuid now pc).2.session? = some s)
    (hid : (resolveStep parseUuid m r uuid now pc).2.writes? = some id) :
    id ∈ (resolveStep parseUuid m r uuid now pc).1.threads s := by
  cases pc with
  | adoptWrite s' id' =>
    simp only [resolveStep] at hs hid ⊢
    split at hid
    · cases hid
    next hmapped =>
      rw [if_neg hmapped] at hs ⊢
      cases hs
      cases hid
      exact h s id rfl rfl
  | storeMapping s' id' =>
    cases hs
    cases hid
    exact h s id rfl rfl
  | adopt s' id' =>
    refine picked_resolveStep (.adopt s' id') hmade s id hs ?_
    simp only [resolveStep] at hid ⊢
    split at hid
    next hmem =>
      rw [if_pos hmem]
      exact hid
    · cases hid
  | create s' =>
    refine picked_resolveStep (.create s') hmade s id hs ?_
    simp only [resolveStep] at hid ⊢
    split at hid
    next hfresh =>
      rw [if_pos hfresh]
      exact hid
    · cases hid
  | lookup s' =>
    have hnone : (lookupThread parseUuid m r s').writes? = none := by
      unfold lookupThread
      split
      · rfl
      · split
        · split <;> rfl
        · rfl
    cases hnone.symm.trans hid
  | getSession | adoptUndo _ _ | createUndo _ _ | returned _ _ => cases hid

/-- The map is written for the session that the user has now, and an undo manager for a thread that is free or of a
session that a user has who is not busy. -/
def ResolvePc.Current (m : SessionManager) (userId : Str) (busy : List Str) (free : List Uuid) : ResolvePc → Prop
  | .adoptWrite s _ | .storeMapping s _ => m.sessions.lookup userId = some s
  | .adoptUndo s id | .createUndo s id =>
    (m.undoManagers.lookup id).isSome ∨ id ∈ free ∨ userId ∉ busy ∧ m.sessions.lookup userId = some s
  | _ => True

theorem grows_resolveStep {busy : List Str} {free : List Uuid} (pc : ResolvePc)
    (hcurrent : pc.Current m r.userId busy free)
    (h : ∀ s id, pc.session? = some s → pc.writes? = some id → id ∈ m.threads s) :
    Grows now busy free m (resolveStep parseUuid m r uuid now pc).1 := by
  cases pc with
  | getSession => exact grows_getOrCreateSession r.userId
  | lookup s | adopt s id | returned s id => exact .refl m
  | adoptWrite s id =>
    simp only [resolveStep]
    split
    · exact .refl m
    · exact grows_mapThread ⟨s, hcurrent, h s id rfl rfl⟩
  | storeMapping s id => exact grows_mapThread ⟨s, hcurrent, h s id rfl rfl⟩
  | adoptUndo s id =>
    refine grows_ensureUndo (hcurrent.imp_right (Or.imp_right fun hcur => ?_))
    exact ⟨r.userId, hcur.1, s, hcur.2, h s id rfl rfl⟩
  | createUndo s id =>
    refine grows_insertUndo (hcurrent.imp_right (Or.imp_right fun hcur => ?_))
    exact ⟨r.userId, hcur.1, s, hcur.2, h s id rfl rfl⟩
  | create s =>
    simp only [resolveStep]
    split
    · exact grows_modifySession (marks_createThread uuid now) s
    · exact .refl m

/-- A call that marks its session as active has just made a thread in it. -/
theorem since_resolution {pc : ResolvePc} {s : Nat} (hmade : ∀ s, pc.session? = some s → s < m.store.length)
    (h : resolution pc (resolveStep parseUuid m r uuid now pc).2 = some (s, true)) :
    (resolveStep parseUuid m r uuid now pc).1.ActiveSince s now := by
  cases pc with
  | create s' =>
    simp only [resolveStep] at h ⊢
    split at h
    next hfresh =>
      cases h
      rw [if_pos hfresh]
      have hs := hmade s rfl
      refine ⟨m.store[s].createThread uuid now, ?_, Nat.le_refl now⟩
      rw [store_modifySession, List.getElem?_eq_getElem hs, Option.map_some, if_pos rfl]
    next => cases h
  | lookup s' =>
    simp only [resolveStep] at h
    cases hnext : lookupThread parseUuid m r s' <;> rw [hnext] at h <;> cases h
  | adoptWrite s' id =>
    simp only [resolveStep] at h
    split at h <;> cases h
  | getSession | adopt _ _ | adoptUndo _ _ | storeMapping _ _ | createUndo _ _ | returned _ _ =>
    cases h

end Calls

/-! ## Resolutions and activity -/

/-- The calls are at work on sessions that were made and threads that these have. A message that marked its session as
active did so at the time of its resolution, and no session was active later than now. -/
structure Sound (w : Activity) : Prop where
  made : ∀ c ∈ w.calls, ∀ s, c.2.session? = some s → s < w.manager.store.length
  writes : ∀ c ∈ w.calls, ∀ s id, c.2.session? = some s → c.2.writes? = some id → id ∈ w.manager.threads s
  until_ : w.manager.ActiveUntil w.now
  since : ∀ e ∈ w.resolved, e.stamped = true → w.manager.ActiveSince e.session e.time

section Sound

variable {w : Activity} {parseUuid : Str → Option Uuid}

theorem sound_initial (now : Nat) : Sound (Activity.initial now) :=
  ⟨fun _ hc => absurd hc List.not_mem_nil, fun _ hc => absurd hc List.not_mem_nil, fun _ hs =>
    absurd hs List.not_mem_nil, fun _ he => absurd he List.not_mem_nil⟩

/-- A step that leaves the calls and the log. -/
theorem Sound.of_steady (h : Sound w) {w' : Activity} (hsteady : Steady w.now w.manager w'.manager)
    (hcalls : w'.calls = w.calls) (hnow : w'.now = w.now) (hresolved : w'.resolved = w.resolved) : Sound w' := by
  refine ⟨fun c hc s hs => ?_, fun c hc s id hs hid => ?_, ?_, fun e he hstamped => ?_⟩
  · exact (h.made c (hcalls ▸ hc) s hs).trans_le hsteady.length
  · exact hsteady.threads s id (h.writes c (hcalls ▸ hc) s id hs hid)
  · rw [hnow]
    exact hsteady.until_ h.until_
  · exact hsteady.since h.until_ _ _ (h.since e (hresolved ▸ he) hstamped)

theorem Sound.log (h : Sound w) {s : Nat} {stamped : Bool} (hs : stamped = true → w.manager.ActiveSince s w.now) :
    Sound (w.log s stamped) := by
  refine ⟨h.made, h.writes, h.until_, fun e he hstamped => ?_⟩
  rcases List.mem_cons.mp he with rfl | he
  · exact hs hstamped
  · exact h.since e he hstamped

theorem sound_advance (h : Sound w) (i : Nat) (uuid : Uuid) : Sound (w.advance parseUuid i uuid) := by
  unfold Activity.advance
  split
  · exact h
  next r pc hcall =>
    have hmem := List.mem_of_getElem? hcall
    have hmade := h.made _ hmem
    have hwrites := h.writes _ hmem
    have hsteady := @steady_resolveStep w.manager parseUuid r uuid w.now pc
    have hnext : Sound { w with
        manager := (resolveStep parseUuid w.manager r uuid w.now pc).1
        calls := w.calls.set i (r, (resolveStep parseUuid w.manager r uuid w.now pc).2) } := by
      refine ⟨fun c hc s hs => ?_, fun c hc s id hs hid => ?_, hsteady.until_ h.until_, fun e he hstamped => ?_⟩
      · rcases List.mem_or_eq_of_mem_set hc with hc | rfl
        · exact (h.made c hc s hs).trans_le hsteady.length
        · exact made_resolveStep pc hmade s hs
      · rcases List.mem_or_eq_of_mem_set hc with hc | rfl
        · exact hsteady.threads s id (h.writes c hc s id hs hid)
        · exact writes_resolveStep pc hmade hwrites s id hs hid
      · exact hsteady.since h.until_ _ _ (h.since e he hstamped)
    simp only
    split
    · exact hnext
    next s stamped hresolution =>
      refine hnext.log fun hstamped => since_resolution hmade ?_
      rw [hresolution, hstamped]

/-- The thread that becomes the active one marks its session as active. -/
theorem since_switchThread {m : SessionManager} {s : Nat} {id : Uuid} (now : Nat) (h : id ∈ m.threads s) :
    (m.modifySession s (·.switchThread id now)).ActiveSince s now := by
  unfold SessionManager.threads at h
  cases hstore : m.store[s]? with
  | none =>
    rw [hstore] at h
    cases h
  | some session =>
    rw [hstore] at h
    have hmem : id ∈ session.threads := h
    refine ⟨session.switchThread id now, ?_, ?_⟩
    · rw [store_modifySession, hstore, Option.map_some, if_pos rfl]
    · rw [Session.switchThread, if_pos hmem]

theorem sound_step (w : Activity) (a : Act) (h : Sound w) : Sound (w.step parseUuid a) := by
  cases a with
  | tick d =>
    refine ⟨h.made, h.writes, fun session hsession => ?_, h.since⟩
    exact (h.until_ session hsession).trans (Nat.le_add_right _ _)
  | start r =>
    refine ⟨fun c hc s hs => ?_, fun c hc s id hs hid => ?_, h.until_, h.since⟩
    · rcases List.mem_append.mp hc with hc | hc
      · exact h.made c hc s hs
      · cases List.mem_singleton.mp hc
        cases hs
    · rcases List.mem_append.mp hc with hc | hc
      · exact h.writes c hc s id hs hid
      · cases List.mem_singleton.mp hc
        cases hs
  | advance i uuid => exact sound_advance h i uuid
  | getSession userId => exact h.of_steady (steady_getOrCreateSession userId) rfl rfl rfl
  | insertThread s id stamp =>
    exact h.of_steady (steady_modifySession (marks_insertThread id stamp w.now) s) rfl rfl rfl
  | activate s id =>
    simp only [Activity.step]
    split
    next hid =>
      have hmodify := steady_modifySession (m := w.manager) (marks_switchThread id w.now) s
      have hnext : Sound { w with manager := w.manager.modifySession s (·.switchThread id w.now) } :=
        h.of_steady hmodify rfl rfl rfl
      exact hnext.log fun _ => since_switchThread w.now hid
    · exact h
  | newThread s uuid =>
    simp only [Activity.step]
    split
    · exact h.of_steady (steady_modifySession (marks_createThread uuid w.now) s) rfl rfl rfl
    · exact h
  | switchThread s id => exact h.of_steady (steady_modifySession (marks_switchThread id w.now) s) rfl rfl rfl
  | registerMap s key id =>
    simp only [Activity.step]
    split
    · exact h.of_steady (steady_of_store rfl) rfl rfl rfl
    · exact h
  | ensureUndo s id =>
    simp only [Activity.step, SessionManager.ensureUndo]
    split
    · split <;> exact h.of_steady (steady_of_store rfl) rfl rfl rfl
    · exact h
  | registerSession userId s =>
    simp only [Activity.step, SessionManager.registerSession]
    split
    · split <;> exact h.of_steady (steady_of_store rfl) rfl rfl rfl
    · exact h
  | prune maxIdle contended =>
    simp only [Activity.step, Activity.startPrune]
    split
    · exact h
    · split <;> exact h.of_steady (steady_of_store rfl) rfl rfl rfl
  | pruneNext contended =>
    simp only [Activity.step, Activity.nextPrune]
    split
    · exact h
    · split <;> exact h.of_steady (steady_of_store rfl) rfl rfl rfl

end Sound

end Ironclaw.Manager

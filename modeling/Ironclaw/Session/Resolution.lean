import Ironclaw.Session.Manager

/-!
# Concurrent resolutions

Any number of calls of `resolve_thread`, in any interleaving of their steps. The thread map is read under one lock and
written under another, so two calls for one key that both miss it make a thread each. When no call for the key reads the
map while another is between its miss and its write, all calls for the key agree.

- `hit_resolveStep`: what a step changes of the thread that the maps give for a key;
- `inv_step`: the invariant of a key;
- `resolve_agree`: the calls for a key return one thread, and at most one is made;
- `both_create`: two calls that overlap.
-/

namespace Ironclaw.Manager

open Run

/-! ## The machine -/

/-- The manager, the calls with where they stand, and the keys for which a thread was made. -/
structure Resolving where
  manager : SessionManager
  calls : List (Request × ResolvePc)
  created : List ThreadKey

inductive ResolveLabel
  | start (r : Request)
  | advance (i : Nat) (uuid : Uuid) (now : Nat)

/-- The step makes a thread. -/
def creates (m : SessionManager) (uuid : Uuid) : ResolvePc → Bool
  | .create _ => m.isFresh uuid
  | _ => false

def stepResolve (parseUuid : Str → Option Uuid) (w : Resolving) : ResolveLabel → Resolving
  | .start r => { w with calls := w.calls ++ [(r, .getSession)] }
  | .advance i uuid now =>
    match w.calls[i]? with
    | none => w
    | some (r, pc) =>
      let next := resolveStep parseUuid w.manager r uuid now pc
      { manager := next.1
        calls := w.calls.set i (r, next.2)
        created := if creates w.manager uuid pc then r.key :: w.created else w.created }

namespace ResolvePc

def session? : ResolvePc → Option Nat
  | .getSession => none
  | .lookup s | .adopt s _ | .adoptWrite s _ | .adoptUndo s _ | .create s | .storeMapping s _ | .createUndo s _
  | .returned s _ => some s

/-- The call is about to read the map. -/
def reading : ResolvePc → Bool
  | .lookup _ => true
  | _ => false

/-- The call has missed the map and not yet written it. -/
def inWindow : ResolvePc → Bool
  | .adopt _ _ | .adoptWrite _ _ | .create _ | .storeMapping _ _ => true
  | _ => false

/-- The call has made its thread and not yet written it to the map. -/
def storing : ResolvePc → Bool
  | .storeMapping _ _ => true
  | _ => false

/-- The thread of a call that has found it in the map or written it there. -/
def chosen? : ResolvePc → Option Uuid
  | .adoptUndo _ id | .createUndo _ id | .returned _ id => some id
  | _ => none

/-- The thread that the call is about to write to the map. -/
def picked? : ResolvePc → Option Uuid
  | .adoptWrite _ id | .storeMapping _ id => some id
  | _ => none

end ResolvePc

/-- No call for the key reads the map while another is between its miss and its write. -/
def NoOverlap (key : ThreadKey) (w : Resolving) : ResolveLabel → Prop
  | .start _ => True
  | .advance i _ _ => ∀ c ∈ w.calls[i]?, c.2.reading = true → c.1.key = key →
      ∀ c' ∈ w.calls, c'.1.key = key → c'.2.inWindow = false

instance (key : ThreadKey) (w : Resolving) : ∀ l, Decidable (NoOverlap key w l)
  | .start _ => .isTrue trivial
  | .advance i _ _ => inferInstanceAs (Decidable (∀ c ∈ w.calls[i]?, c.2.reading = true → c.1.key = key →
      ∀ c' ∈ w.calls, c'.1.key = key → c'.2.inWindow = false))

/-! ## The thread of a key -/

/-- The thread that the maps give for a key. -/
def hit (m : SessionManager) (key : ThreadKey) : Option Uuid :=
  (m.threadMap.lookup key).filter fun id => (m.sessions.lookup key.userId).any fun s => id ∈ m.threads s

section Hit

variable {m : SessionManager} {parseUuid : Str → Option Uuid} {key : ThreadKey} {r : Request}
    {uuid : Uuid} {now s : Nat}

theorem hit_mapThread_of_ne {key' : ThreadKey} (h : key ≠ key') (id : Uuid) :
    hit (m.mapThread key' id) key = hit m key := by
  unfold hit
  rw [SessionManager.mapThread, AList.lookup_insert_ne h]
  rfl

/-- A thread that is written to the map is found there. -/
theorem hit_mapThread {id : Uuid} (hs : m.sessions.lookup key.userId = some s) (hid : id ∈ m.threads s) :
    hit (m.mapThread key id) key = some id := by
  have hlookup : (m.mapThread key id).threadMap.lookup key = some id := AList.lookup_insert _
  have hsession : (m.mapThread key id).sessions.lookup key.userId = some s := hs
  have hthread : id ∈ (m.mapThread key id).threads s := hid
  rw [hit, hlookup, hsession, Option.filter_some, Option.any_some, if_pos (decide_eq_true hthread)]

theorem hit_getOrCreateSession (user : Str) (now : Nat) : hit (m.getOrCreateSession user now).1 key = hit m key := by
  unfold hit
  rw [SessionManager.threadMap_getOrCreateSession]
  simp only [SessionManager.threads_getOrCreateSession]
  cases hs : m.sessions.lookup key.userId with
  | some s => rw [SessionManager.lookup_getOrCreateSession_of_some hs]
  | none =>
    unfold SessionManager.getOrCreateSession
    split
    · rw [hs]
    · -- the new session has no threads
      have hempty : m.threads m.store.length = [] := by
        rw [SessionManager.threads, List.getElem?_eq_none (Nat.le_refl _)]
        rfl
      by_cases hkey : key.userId = user
      · have hnew : (m.addSession user now).sessions.lookup key.userId = some m.store.length := by
          rw [hkey]
          exact AList.lookup_insert _
        rw [hnew]
        simp [hempty]
      · have hold : (m.addSession user now).sessions.lookup key.userId = none := by
          rw [← hs]
          exact AList.lookup_insert_ne hkey
        rw [hold]

/-- A new thread is in no map. -/
theorem hit_createThread (hfresh : m.isFresh uuid = true) :
    hit (m.modifySession s (·.createThread uuid now)) key = hit m key := by
  unfold hit
  have hmap : (m.modifySession s (·.createThread uuid now)).threadMap = m.threadMap := rfl
  have hsessions : (m.modifySession s (·.createThread uuid now)).sessions = m.sessions := rfl
  rw [hmap, hsessions]
  cases hlookup : m.threadMap.lookup key with
  | none => rfl
  | some id =>
    have hne : id ≠ uuid := by
      rintro rfl
      have hmapped := SessionManager.isMapped_of_lookup hlookup
      rw [SessionManager.isMapped_of_fresh hfresh] at hmapped
      cases hmapped
    simp only [Option.filter_some, SessionManager.mem_threads_createThread, hne, and_false, or_false]

theorem hit_ensureUndo (id : Uuid) : hit (m.ensureUndo id) key = hit m key := by
  unfold SessionManager.ensureUndo
  split <;> rfl

/-- A step of a call changes the thread of another key never, and that of its own when it writes the map. -/
theorem hit_resolveStep (pc : ResolvePc) (h : r.key ≠ key ∨ pc.picked? = none) :
    hit (resolveStep parseUuid m r uuid now pc).1 key = hit m key := by
  cases pc with
  | getSession => exact hit_getOrCreateSession r.userId now
  | lookup s => rfl
  | adopt s id => rfl
  | adoptWrite s id =>
    simp only [resolveStep]
    split
    · rfl
    · exact hit_mapThread_of_ne (h.resolve_right nofun).symm id
  | adoptUndo s id => exact hit_ensureUndo id
  | create s =>
    simp only [resolveStep]
    split
    next hfresh => exact hit_createThread hfresh
    · rfl
  | storeMapping s id => exact hit_mapThread_of_ne (h.resolve_right nofun).symm id
  | createUndo s id => rfl
  | returned s id => rfl

theorem sessions_resolveStep (pc : ResolvePc) {user : Str} (h : m.sessions.lookup user = some s) :
    (resolveStep parseUuid m r uuid now pc).1.sessions.lookup user = some s := by
  cases pc with
  | getSession => exact SessionManager.lookup_getOrCreateSession_of_some h now
  | adoptUndo s' id =>
    rw [resolveStep, SessionManager.sessions_ensureUndo]
    exact h
  | adoptWrite s' id =>
    simp only [resolveStep]
    split <;> exact h
  | create s' =>
    simp only [resolveStep]
    split <;> exact h
  | lookup _ | adopt _ _ | storeMapping _ _ | createUndo _ _ | returned _ _ => exact h

theorem threads_resolveStep (pc : ResolvePc) {id : Uuid} (h : id ∈ m.threads s) :
    id ∈ (resolveStep parseUuid m r uuid now pc).1.threads s := by
  cases pc with
  | getSession =>
    rw [resolveStep, SessionManager.threads_getOrCreateSession]
    exact h
  | adoptUndo s' id' =>
    rw [resolveStep, SessionManager.threads_ensureUndo]
    exact h
  | adoptWrite s' id' =>
    simp only [resolveStep]
    split <;> exact h
  | create s' =>
    simp only [resolveStep]
    split
    · exact SessionManager.mem_threads_createThread.mpr (.inl h)
    · exact h
  | lookup _ | adopt _ _ | storeMapping _ _ | createUndo _ _ | returned _ _ => exact h

end Hit

/-! ## The invariant of a key -/

/-- Calls of a key with a property. -/
def callsAt (key : ThreadKey) (p : ResolvePc → Bool) (calls : List (Request × ResolvePc)) : Nat :=
  calls.countP fun c => c.1.key = key && p c.2

/-- While the maps give a thread for the key, it is the one that the calls have chosen, and no call is in its window.
While they give none, at most one call is in its window, and a thread has been made only by a call that is about to
store it. -/
structure ResolveInv (key : ThreadKey) (w : Resolving) : Prop where
  session : ∀ c ∈ w.calls, ∀ s, c.2.session? = some s → w.manager.sessions.lookup c.1.userId = some s
  picked : ∀ c ∈ w.calls, ∀ s id, c.2.session? = some s → c.2.picked? = some id → id ∈ w.manager.threads s
  chosen : ∀ c ∈ w.calls, c.1.key = key → ∀ id, c.2.chosen? = some id → hit w.manager key = some id
  found : ∀ id, hit w.manager key = some id → callsAt key (·.inWindow) w.calls = 0 ∧ w.created.count key ≤ 1
  missed : hit w.manager key = none →
    callsAt key (·.inWindow) w.calls ≤ 1 ∧ w.created.count key = callsAt key (·.storing) w.calls

section Invariant

variable {m : SessionManager} {parseUuid : Str → Option Uuid} {key : ThreadKey} {r : Request} {uuid : Uuid} {now : Nat}

theorem session?_lookupThread (s : Nat) : (lookupThread parseUuid m r s).session? = some s := by
  unfold lookupThread
  split
  · rfl
  · split
    · split <;> rfl
    · rfl

/-- A call keeps its session. -/
theorem session?_resolveStep {pc : ResolvePc} {s : Nat} (h : pc.session? = some s) :
    (resolveStep parseUuid m r uuid now pc).2.session? = some s := by
  cases pc with
  | getSession => cases h
  | lookup s' =>
    cases h
    exact session?_lookupThread s
  | adopt s' id =>
    cases h
    simp only [resolveStep]
    split <;> rfl
  | adoptWrite s' id =>
    cases h
    simp only [resolveStep]
    split <;> rfl
  | create s' =>
    cases h
    simp only [resolveStep]
    split <;> rfl
  | adoptUndo s' id | storeMapping s' id | createUndo s' id | returned s' id =>
    cases h
    rfl

theorem session_resolveStep (pc : ResolvePc) (h : ∀ s, pc.session? = some s → m.sessions.lookup r.userId = some s)
    (s : Nat)
    (hs : (resolveStep parseUuid m r uuid now pc).2.session? = some s) :
    (resolveStep parseUuid m r uuid now pc).1.sessions.lookup r.userId = some s := by
  cases hpc : pc.session? with
  | some s' =>
    rw [session?_resolveStep hpc] at hs
    cases hs
    exact sessions_resolveStep pc (h s hpc)
  | none =>
    cases pc with
    | getSession =>
      obtain rfl : (m.getOrCreateSession r.userId now).2 = s := Option.some.inj hs
      exact SessionManager.lookup_getOrCreateSession now
    | lookup _ | adopt _ _ | adoptWrite _ _ | adoptUndo _ _ | create _ | storeMapping _ _ | createUndo _ _
    | returned _ _ => cases hpc

/-- The thread that a call is about to write is one of its session's. -/
theorem picked_resolveStep (pc : ResolvePc) (htracked : ∀ s, pc.session? = some s → s < m.store.length)
    (s : Nat) (id : Uuid)
    (hs : (resolveStep parseUuid m r uuid now pc).2.session? = some s)
    (hid : (resolveStep parseUuid m r uuid now pc).2.picked? = some id) :
    id ∈ (resolveStep parseUuid m r uuid now pc).1.threads s := by
  cases pc with
  | adopt s' id' =>
    simp only [resolveStep] at hs hid ⊢
    split at hs
    next hmem =>
      rw [if_pos hmem] at hid
      cases hs
      cases hid
      exact hmem
    next hnot =>
      rw [if_neg hnot] at hid
      cases hid
  | create s' =>
    simp only [resolveStep] at hs hid ⊢
    split at hs
    next hfresh =>
      rw [if_pos hfresh] at hid ⊢
      cases hs
      cases hid
      exact SessionManager.mem_threads_createThread.mpr (.inr ⟨rfl, htracked s rfl, rfl⟩)
    next hnot =>
      rw [if_neg hnot] at hid
      cases hid
  | lookup s' =>
    have hnone : (lookupThread parseUuid m r s').picked? = none := by
      unfold lookupThread
      split
      · rfl
      · split
        · split <;> rfl
        · rfl
    cases hnone.symm.trans hid
  | adoptWrite s' id' =>
    simp only [resolveStep] at hid
    split at hid <;> cases hid
  | getSession | adoptUndo _ _ | storeMapping _ _ | createUndo _ _ | returned _ _ => cases hid

/-- A call that finds the thread of its key returns it; otherwise it enters its window. -/
theorem lookupThread_eq {s : Nat} (hs : m.sessions.lookup r.userId = some s) :
    (∃ id, hit m r.key = some id ∧ lookupThread parseUuid m r s = .returned s id) ∨
      hit m r.key = none ∧ (lookupThread parseUuid m r s).inWindow = true ∧
        (lookupThread parseUuid m r s).storing = false ∧ (lookupThread parseUuid m r s).chosen? = none := by
  have hhit : hit m r.key = (m.threadMap.lookup r.key).filter fun id => id ∈ m.threads s := by
    have huser : m.sessions.lookup r.key.userId = some s := hs
    rw [hit, huser]
    rfl
  rw [hhit]
  unfold lookupThread
  split
  next id hfound => exact .inl ⟨id, hfound, rfl⟩
  next hnone =>
    refine .inr ⟨hnone, ?_⟩
    split
    · split <;> exact ⟨rfl, rfl, rfl⟩
    · exact ⟨rfl, rfl, rfl⟩

theorem callsAt_set {calls : List (Request × ResolvePc)} {i : Nat} {pc : ResolvePc} (h : calls[i]? = some (r, pc))
    (p : ResolvePc → Bool) (pc' : ResolvePc) :
    callsAt key p (calls.set i (r, pc')) + (if r.key = key ∧ p pc = true then 1 else 0) =
      callsAt key p calls + if r.key = key ∧ p pc' = true then 1 else 0 := by
  obtain ⟨hi, hcall⟩ := List.getElem?_eq_some_iff.mp h
  have hle := List.boole_getElem_le_countP (p := fun c : Request × ResolvePc => c.1.key = key && p c.2) hi
  unfold callsAt
  rw [List.countP_set hi]
  simp only [hcall, Bool.and_eq_true, decide_eq_true_eq] at hle ⊢
  omega

/-- A call for the key that is counted. -/
theorem callsAt_pos {calls : List (Request × ResolvePc)} {c : Request × ResolvePc} {p : ResolvePc → Bool}
    (hc : c ∈ calls)
    (hkey : c.1.key = key) (hp : p c.2 = true) : 0 < callsAt key p calls :=
  List.countP_pos_iff.mpr ⟨c, hc, by simp [hkey, hp]⟩

theorem callsAt_eq_zero {calls : List (Request × ResolvePc)} {p : ResolvePc → Bool}
    (h : ∀ c ∈ calls, c.1.key = key → p c.2 = false) : callsAt key p calls = 0 := by
  refine List.countP_eq_zero.mpr fun c hc hcount => ?_
  rw [Bool.and_eq_true, decide_eq_true_eq] at hcount
  rw [h c hc hcount.1] at hcount
  exact Bool.false_ne_true hcount.2

/-- What a step of a call for the key does: nothing of note, a miss, a new thread, or a write to the map. -/
inductive KeyStep (key : ThreadKey) (m m' : SessionManager) (pc pc' : ResolvePc) (made : Bool) : Prop
  | quiet (hhit : hit m' key = hit m key) (hmade : made = false) (hwindow : pc'.inWindow = pc.inWindow)
      (hstoring : pc'.storing = pc.storing) (hchosen : ∀ id, pc'.chosen? = some id → pc.chosen? = some id ∨
        hit m key = some id)
  | miss (hlookup : ∃ s, pc = .lookup s) (hhit : hit m' key = hit m key) (hnone : hit m key = none)
      (hmade : made = false)
      (hwindow : pc'.inWindow = true) (hstoring : pc'.storing = false) (hchosen : pc'.chosen? = none)
  | make (hhit : hit m' key = hit m key) (hmade : made = true) (hbefore : pc.inWindow = true ∧ pc.storing = false)
      (hafter : pc'.inWindow = true ∧ pc'.storing = true) (hchosen : pc'.chosen? = none)
  | write (id : Uuid) (hhit : hit m' key = some id) (hmade : made = false) (hbefore : pc.inWindow = true)
      (hafter : pc'.inWindow = false ∧ pc'.storing = false) (hchosen : pc'.chosen? = some id)

theorem keyStep (pc : ResolvePc) (hsession : ∀ s, pc.session? = some s → m.sessions.lookup r.userId = some s)
    (hpicked : ∀ s id, pc.session? = some s → pc.picked? = some id → id ∈ m.threads s) :
    KeyStep r.key m (resolveStep parseUuid m r uuid now pc).1 pc (resolveStep parseUuid m r uuid now pc).2
      (creates m uuid pc) := by
  cases pc with
  | getSession => exact .quiet (hit_getOrCreateSession r.userId now) rfl rfl rfl nofun
  | lookup s =>
    have hfound := @lookupThread_eq m parseUuid r s (hsession s rfl)
    rcases hfound with ⟨id, hhit, heq⟩ | ⟨hnone, hwindow, hstoring, hchosen⟩
    · simp only [resolveStep, heq]
      refine .quiet rfl rfl rfl rfl fun id' hid => .inr ?_
      cases hid
      exact hhit
    · exact .miss ⟨s, rfl⟩ rfl hnone rfl hwindow hstoring hchosen
  | adopt s id =>
    simp only [resolveStep]
    split <;> exact .quiet rfl rfl rfl rfl nofun
  | adoptWrite s id =>
    simp only [resolveStep]
    split
    · exact .quiet rfl rfl rfl rfl nofun
    · exact .write id (hit_mapThread (hsession s rfl) (hpicked s id rfl rfl)) rfl rfl ⟨rfl, rfl⟩ rfl
  | adoptUndo s id => exact .quiet (hit_ensureUndo id) rfl rfl rfl fun id' hid => .inl hid
  | create s =>
    simp only [resolveStep, creates]
    split
    next hfresh => exact .make (hit_createThread hfresh) hfresh ⟨rfl, rfl⟩ ⟨rfl, rfl⟩ rfl
    next hnot => exact .quiet rfl (Bool.eq_false_iff.mpr hnot) rfl rfl nofun
  | storeMapping s id =>
    exact .write id (hit_mapThread (hsession s rfl) (hpicked s id rfl rfl)) rfl rfl ⟨rfl, rfl⟩ rfl
  | createUndo s id => exact .quiet rfl rfl rfl rfl fun id' hid => .inl hid
  | returned s id => exact .quiet rfl rfl rfl rfl fun id' hid => .inl hid

/-- A call that stores its thread is in its window. -/
theorem callsAt_storing_le (calls : List (Request × ResolvePc)) :
    callsAt key (·.storing) calls ≤ callsAt key (·.inWindow) calls := by
  refine List.countP_mono_left fun c _ hc => ?_
  rw [Bool.and_eq_true] at hc ⊢
  refine ⟨hc.1, ?_⟩
  cases hpc : c.2 with
  | storeMapping s id => rfl
  | getSession | lookup _ | adopt _ _ | adoptWrite _ _ | adoptUndo _ _ | create _ | createUndo _ _ | returned _ _ =>
    rw [hpc] at hc
    exact absurd hc.2 Bool.false_ne_true

/-- The invariant, by the parts of the world. -/
theorem ResolveInv.of_parts {m' : SessionManager} {calls : List (Request × ResolvePc)} {created : List ThreadKey}
    (hsession : ∀ c ∈ calls, ∀ s, c.2.session? = some s → m'.sessions.lookup c.1.userId = some s)
    (hpicked : ∀ c ∈ calls, ∀ s id, c.2.session? = some s → c.2.picked? = some id → id ∈ m'.threads s)
    (hchosen : ∀ c ∈ calls, c.1.key = key → ∀ id, c.2.chosen? = some id → hit m' key = some id)
    (hfound : ∀ id, hit m' key = some id → callsAt key (·.inWindow) calls = 0 ∧ created.count key ≤ 1)
    (hmissed : hit m' key = none →
      callsAt key (·.inWindow) calls ≤ 1 ∧ created.count key = callsAt key (·.storing) calls) :
    ResolveInv key ⟨m', calls, created⟩ := ⟨hsession, hpicked, hchosen, hfound, hmissed⟩

/-- The step of a call for another key. -/
theorem inv_other {w : Resolving} {i : Nat} {pc pc' : ResolvePc} {m' : SessionManager} {created : List ThreadKey}
    (h : ResolveInv key w) (hcall : w.calls[i]? = some (r, pc)) (hkey : r.key ≠ key)
    (hhit : hit m' key = hit w.manager key)
    (hcreated : created.count key = w.created.count key)
    (hsession : ∀ c ∈ w.calls.set i (r, pc'), ∀ s, c.2.session? = some s → m'.sessions.lookup c.1.userId = some s)
    (hpicked : ∀ c ∈ w.calls.set i (r, pc'), ∀ s id, c.2.session? = some s → c.2.picked? = some id →
      id ∈ m'.threads s) :
    ResolveInv key ⟨m', w.calls.set i (r, pc'), created⟩ := by
  have hcount : ∀ p : ResolvePc → Bool, callsAt key p (w.calls.set i (r, pc')) = callsAt key p w.calls := by
    intro p
    have hset := @callsAt_set key r w.calls i pc hcall p pc'
    simpa only [hkey, false_and, if_false, Nat.add_zero] using hset
  refine .of_parts hsession hpicked (fun c hc hckey id hid => hhit.trans ?_) (fun id hid => ?_) fun hnone => ?_
  · rcases List.mem_or_eq_of_mem_set hc with hc | rfl
    · exact h.chosen c hc hckey id hid
    · exact absurd hckey hkey
  · rw [hcount, hcreated]
    exact h.found id (hhit.symm.trans hid)
  · rw [hcount, hcount, hcreated]
    exact h.missed (hhit.symm.trans hnone)

/-- The step of a call for the key. -/
theorem inv_own {w : Resolving} {i : Nat} {pc pc' : ResolvePc} {m' : SessionManager} {made : Bool}
    (h : ResolveInv key w) (hcall : w.calls[i]? = some (r, pc)) (hkey : r.key = key)
    (hoverlap : NoOverlap key w (.advance i uuid now)) (hstep : KeyStep key w.manager m' pc pc' made)
    (hsession : ∀ c ∈ w.calls.set i (r, pc'), ∀ s, c.2.session? = some s → m'.sessions.lookup c.1.userId = some s)
    (hpicked : ∀ c ∈ w.calls.set i (r, pc'), ∀ s id, c.2.session? = some s → c.2.picked? = some id →
      id ∈ m'.threads s) :
    ResolveInv key ⟨m', w.calls.set i (r, pc'), if made then r.key :: w.created else w.created⟩ := by
  have hmem : (r, pc) ∈ w.calls := List.mem_of_getElem? hcall
  have hwindow := @callsAt_set key r w.calls i pc hcall (·.inWindow) pc'
  have hstoring := @callsAt_set key r w.calls i pc hcall (·.storing) pc'
  simp only [hkey, true_and] at hwindow hstoring
  have hle := @callsAt_storing_le key w.calls
  have hpos : pc.inWindow = true → 0 < callsAt key (·.inWindow) w.calls := fun hin => callsAt_pos hmem hkey hin
  have hold : ∀ c ∈ w.calls.set i (r, pc'), c.1.key = key → ∀ id, c.2.chosen? = some id →
      hit w.manager key = some id ∨ pc'.chosen? = some id := by
    intro c hc hckey id hid
    rcases List.mem_or_eq_of_mem_set hc with hc | rfl
    · exact .inl (h.chosen c hc hckey id hid)
    · exact .inr hid
  cases hstep with
  | quiet hhit hmade hin hstore hchosen =>
    rw [hin] at hwindow
    rw [hstore] at hstoring
    rw [hmade, if_neg Bool.false_ne_true]
    refine .of_parts hsession hpicked (fun c hc hckey id hid => hhit.trans ?_) (fun id hid => ?_) fun hnone => ?_
    · rcases hold c hc hckey id hid with hid | hid
      · exact hid
      · exact (hchosen id hid).elim (h.chosen _ hmem hkey id) fun hid => hid
    · obtain ⟨hzero, hone⟩ := h.found id (hhit.symm.trans hid)
      exact ⟨by omega, hone⟩
    · obtain ⟨hone, hcount⟩ := h.missed (hhit.symm.trans hnone)
      exact ⟨by omega, by omega⟩
  | miss hlookup hhit hnone hmade hin hstore hchosen =>
    -- no other call is in its window, so this one is the only one
    obtain ⟨s, rfl⟩ := hlookup
    have hzero : callsAt key (·.inWindow) w.calls = 0 := callsAt_eq_zero (hoverlap (r, .lookup s) hcall rfl hkey)
    obtain ⟨-, hcount⟩ := h.missed hnone
    have hbefore : (ResolvePc.lookup s).inWindow = false ∧ (ResolvePc.lookup s).storing = false := ⟨rfl, rfl⟩
    simp only [hin, hstore, hbefore, Bool.false_eq_true, if_false, if_true] at hwindow hstoring
    rw [hmade, if_neg Bool.false_ne_true]
    refine .of_parts hsession hpicked (fun c hc hckey id hid => hhit.trans ?_) (fun id hid => ?_) fun _ => ?_
    · rcases hold c hc hckey id hid with hid | hid
      · exact hid
      · cases hchosen.symm.trans hid
    · cases hnone.symm.trans (hhit.symm.trans hid)
    · exact ⟨by omega, by omega⟩
  | make hhit hmade hbefore hafter hchosen =>
    simp only [hbefore, hafter, Bool.false_eq_true, if_false, if_true] at hwindow hstoring
    have hin := hpos hbefore.1
    rw [hmade, if_pos rfl]
    refine .of_parts hsession hpicked (fun c hc hckey id hid => hhit.trans ?_) (fun id hid => ?_) fun hnone => ?_
    · rcases hold c hc hckey id hid with hid | hid
      · exact hid
      · cases hchosen.symm.trans hid
    · have hzero := (h.found id (hhit.symm.trans hid)).1
      omega
    · obtain ⟨hone, hcount⟩ := h.missed (hhit.symm.trans hnone)
      rw [hkey, List.count_cons_self]
      exact ⟨by omega, by omega⟩
  | write id hhit hmade hbefore hafter hchosen =>
    simp only [hbefore, hafter, Bool.false_eq_true, if_false, if_true] at hwindow hstoring
    have hin := hpos hbefore
    have hnone : hit w.manager key = none := by
      by_contra hsome
      obtain ⟨id', hid'⟩ := Option.ne_none_iff_exists'.mp hsome
      have hzero := (h.found id' hid').1
      omega
    obtain ⟨hone, hcount⟩ := h.missed hnone
    rw [hmade, if_neg Bool.false_ne_true]
    refine .of_parts hsession hpicked (fun c hc hckey id' hid => hhit.trans ?_) (fun id' _ => ⟨by omega, by omega⟩)
      fun hmiss => ?_
    · rcases hold c hc hckey id' hid with hid | hid
      · cases hnone.symm.trans hid
      · exact hchosen.symm.trans hid
    · cases hmiss.symm.trans hhit

theorem inv_advance {w : Resolving} {i : Nat} {pc : ResolvePc} (h : ResolveInv key w)
    (hcall : w.calls[i]? = some (r, pc))
    (hoverlap : NoOverlap key w (.advance i uuid now)) :
        ResolveInv key (stepResolve parseUuid w (.advance i uuid now)) := by
  have hmem : (r, pc) ∈ w.calls := List.mem_of_getElem? hcall
  have hsession := h.session _ hmem
  have hpicked := h.picked _ hmem
  have hsessions : ∀ c ∈ w.calls.set i (r, (resolveStep parseUuid w.manager r uuid now pc).2), ∀ s,
    c.2.session? = some s →
      (resolveStep parseUuid w.manager r uuid now pc).1.sessions.lookup c.1.userId = some s := by
    intro c hc s hs
    rcases List.mem_or_eq_of_mem_set hc with hc | rfl
    · exact sessions_resolveStep pc (h.session c hc s hs)
    · exact session_resolveStep pc hsession s hs
  have hpickeds : ∀ c ∈ w.calls.set i (r, (resolveStep parseUuid w.manager r uuid now pc).2), ∀ s id,
      c.2.session? = some s → c.2.picked? = some id →
        id ∈ (resolveStep parseUuid w.manager r uuid now pc).1.threads s := by
    intro c hc s id hs hid
    rcases List.mem_or_eq_of_mem_set hc with hc | rfl
    · exact threads_resolveStep pc (h.picked c hc s id hs hid)
    · exact picked_resolveStep pc (fun s' hs' => w.manager.tracked _ _ (hsession s' hs')) s id hs hid
  simp only [stepResolve, hcall]
  by_cases hkey : r.key = key
  · have hstep := @keyStep w.manager parseUuid r uuid now pc hsession hpicked
    rw [hkey] at hstep
    exact inv_own h hcall hkey hoverlap hstep hsessions hpickeds
  · refine inv_other h hcall hkey (hit_resolveStep pc (.inl hkey)) ?_ hsessions hpickeds
    split
    · exact List.count_cons_of_ne hkey
    · rfl

/-! ## Runs -/

theorem inv_start {w : Resolving} (h : ResolveInv key w) (r : Request) :
    ResolveInv key { w with calls := w.calls ++ [(r, .getSession)] } := by
  have hcount : ∀ p : ResolvePc → Bool, p .getSession = false →
      callsAt key p (w.calls ++ [(r, .getSession)]) = callsAt key p w.calls := by
    intro p hp
    simp [callsAt, List.countP_append, hp]
  refine ⟨fun c hc s hs => ?_, fun c hc s id hs hid => ?_, fun c hc hckey id hid => ?_, fun id hid => ?_,
    fun hnone => ?_⟩
  · rcases List.mem_append.mp hc with hc | hc
    · exact h.session c hc s hs
    · cases List.mem_singleton.mp hc
      cases hs
  · rcases List.mem_append.mp hc with hc | hc
    · exact h.picked c hc s id hs hid
    · cases List.mem_singleton.mp hc
      cases hs
  · rcases List.mem_append.mp hc with hc | hc
    · exact h.chosen c hc hckey id hid
    · cases List.mem_singleton.mp hc
      cases hid
  · rw [hcount _ rfl]
    exact h.found id hid
  · rw [hcount _ rfl, hcount _ rfl]
    exact h.missed hnone

theorem inv_step (w : Resolving) (l : ResolveLabel) (hoverlap : NoOverlap key w l) (h : ResolveInv key w) :
    ResolveInv key (stepResolve parseUuid w l) := by
  cases l with
  | start r => exact inv_start h r
  | advance i uuid now =>
    cases hcall : w.calls[i]? with
    | none =>
      simp only [stepResolve, hcall]
      exact h
    | some c => exact inv_advance h hcall hoverlap

theorem inv_initial (m : SessionManager) : ResolveInv key ⟨m, [], []⟩ :=
  ⟨fun _ hc => absurd hc List.not_mem_nil, fun _ hc => absurd hc List.not_mem_nil, fun _ hc =>
    absurd hc List.not_mem_nil, fun _ _ => ⟨rfl, Nat.zero_le 1⟩, fun _ => ⟨Nat.zero_le 1, rfl⟩⟩

/-- **Resolution.** In every interleaving in which no call for a key reads the map while another is between its miss and
its write, the calls for the key that return, return one session and one thread, and at most one thread is made for
it. -/
theorem resolve_agree (parseUuid : Str → Option Uuid) (key : ThreadKey) (m : SessionManager) (ls : List ResolveLabel)
    (h : Along (stepResolve parseUuid) (NoOverlap key) ⟨m, [], []⟩ ls) :
    let w := run (stepResolve parseUuid) ⟨m, [], []⟩ ls
    (∀ r r' s s' id id', (r, .returned s id) ∈ w.calls → (r', .returned s' id') ∈ w.calls → r.key = key → r'.key = key →
      s = s' ∧ id = id') ∧ w.created.count key ≤ 1 := by
  intro w
  have hinv : ResolveInv key w := run_inv inv_step ls (inv_initial m) h
  refine ⟨fun r r' s s' id id' hr hr' hkey hkey' => ⟨?_, ?_⟩, ?_⟩
  · have hs := hinv.session _ hr s rfl
    have hs' := hinv.session _ hr' s' rfl
    have huser : r.userId = r'.userId := congrArg ThreadKey.userId (hkey.trans hkey'.symm)
    rw [huser] at hs
    exact Option.some.inj (hs.symm.trans hs')
  · exact Option.some.inj ((hinv.chosen _ hr hkey id rfl).symm.trans (hinv.chosen _ hr' hkey' id' rfl))
  · cases hhit : hit w.manager key with
    | some id => exact (hinv.found id hhit).2
    | none =>
      obtain ⟨hone, hcount⟩ := hinv.missed hhit
      have hle := @callsAt_storing_le key w.calls
      omega

end Invariant

/-! ## Two calls that overlap -/

def greeting : Request := ⟨"sam".toList, "telegram".toList, none, none⟩

/-- The steps of a call to the end, with the id for its thread. -/
def callOf (i : Nat) (uuid : Uuid) : List ResolveLabel := List.replicate 5 (.advance i uuid 0)

/-- One call after the other. -/
def oneByOne : List ResolveLabel := .start greeting :: callOf 0 1 ++ .start greeting :: callOf 1 2

theorem resolve_agree_oneByOne :
    (run (stepResolve fun _ => none) ⟨.new, [], []⟩ oneByOne).created.count greeting.key ≤ 1 :=
  (resolve_agree (fun _ => none) greeting.key .new oneByOne (by decide)).2

/-- Both calls get the session and read the map before either writes it. -/
def overlapping : List ResolveLabel :=
  [.start greeting, .start greeting, .advance 0 1 0, .advance 1 2 0, .advance 0 1 0, .advance 1 2 0] ++
    List.replicate 3 (.advance 0 1 0) ++ List.replicate 3 (.advance 1 2 0)

/-- Two first messages for a key that come at once get a thread each. -/
theorem both_create :
    let w := run (stepResolve fun _ => none) ⟨.new, [], []⟩ overlapping
    w.calls = [(greeting, .returned 0 1), (greeting, .returned 0 2)] ∧ w.created.count greeting.key = 2 := by
  decide

end Ironclaw.Manager

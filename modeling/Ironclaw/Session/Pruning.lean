import Ironclaw.Session.Activity

/-!
# Pruning

A prune takes four locks one after the other: it finds the stale sessions, collects their threads, and then lets go of
the sessions, of their map entries, and of the undo managers of the threads. Resolutions that find their thread in the
map, or adopt it, do not mark the session as active, and nothing keeps a handler from going on with a session that is
gone.

- `Undisturbed`: what a step must not meet;
- `Accounted`: whose entries the maps hold while a prune is under way;
- `pruneInv_step`: the invariant;
- `prune_law`: what every prune of an undisturbed run keeps, and leaves;
- `active_user_pruned`: a session that is pruned ten minutes after a message.
-/

namespace Ironclaw.Manager

open Run

/-! ## The law -/

namespace Prune

variable (p : Prune)

/-- A message was resolved for the session less than the idle time before the prune. -/
def Recent (s : Nat) : Prop := ∃ e ∈ p.resolved, e.session = s ∧ p.time < e.time + p.maxIdle

instance (s : Nat) : Decidable (p.Recent s) :=
  inferInstanceAs (Decidable (∃ e ∈ p.resolved, e.session = s ∧ p.time < e.time + p.maxIdle))

/-- The users whose map entries are about to go. -/
def dropped : List Str := match p.phase with
  | .threads => p.stale
  | _ => []

/-- The users whose sessions are about to go, their threads being collected. -/
def busy : List Str := match p.phase with
  | .sessions => p.stale
  | _ => []

/-- The threads whose undo managers will go. -/
def free : List Uuid := match p.phase with
  | .collect => []
  | _ => p.threadIds

end Prune

/-- A session with a recent message is still there after the prune, with its map entries and its undo managers. -/
def Pruned.KeepsRecent (d : Pruned) : Prop :=
  ∀ user s, d.prune.before.sessions.lookup user = some s → d.prune.Recent s →
    d.after.sessions.lookup user = some s ∧
    (∀ key, key.userId = user → (d.prune.before.threadMap.lookup key).isSome → (d.after.threadMap.lookup key).isSome) ∧
    ∀ id ∈ d.prune.before.threads s, (d.prune.before.undoManagers.lookup id).isSome →
      (d.after.undoManagers.lookup id).isSome

/-- Each entry is for a thread of a session that is there. -/
def SessionManager.Clean (m : SessionManager) : Prop :=
  (∀ key id, m.threadMap.lookup key = some id → m.Holds key.userId id) ∧
    ∀ id, (m.undoManagers.lookup id).isSome → ∃ user, m.Holds user id

/-! ## Undisturbed steps -/

namespace SessionManager

variable (m : SessionManager)

/-- The session is the one of some user who is not in the list. -/
def isCurrent (busy : List Str) (s : Nat) : Bool := m.sessions.entries.any fun e => e.1 ∉ busy && e.2 = s

/-- The session of some user who is not in the list has the thread. -/
def isHeld (busy : List Str) (id : Uuid) : Bool := m.sessions.entries.any fun e => e.1 ∉ busy && id ∈ m.threads e.2

end SessionManager

namespace Activity

variable (w : Activity)

def dropped : List Str := w.prune.elim [] Prune.dropped

def busy : List Str := w.prune.elim [] Prune.busy

def free : List Uuid := w.prune.elim [] Prune.free

end Activity

/-- The messages that were resolved for a session less than the idle time ago marked it as active, and the idle time is
in whole seconds; or else the session was marked as active in time for another reason, or is locked. -/
def Activity.Marked (w : Activity) (maxIdle : Nat) (contended : Nat → Bool) : Prop :=
  ∀ e ∈ w.resolved, e.stamped = false ∨ maxIdle % SECOND ≠ 0 → w.now < e.time + maxIdle →
    w.manager.isCurrent [] e.session → contended e.session = false → w.manager.isStale w.now maxIdle e.session = false

/-- The second attempt at the lock of a stale session fails only when it has no undo managers of its own. -/
def Prune.Collects (p : Prune) (m : SessionManager) (contended : Nat → Bool) : Prop :=
  ∀ e ∈ m.sessions.entries, e.1 ∈ p.stale → contended e.2 = true →
    ∀ id ∈ m.threads e.2, (m.undoManagers.lookup id).isSome → m.isHeld p.stale id = true

/-- No thread that is collected is one of a session with a recent message. -/
def Prune.Spares (p : Prune) (m : SessionManager) (contended : Nat → Bool) : Prop :=
  ∀ e ∈ p.before.sessions.entries, p.Recent e.2 →
    ∀ id ∈ p.before.threads e.2, (p.before.undoManagers.lookup id).isSome → id ∉ m.staleThreadIds p.stale contended

/-- A step that disturbs no prune: a handler writes the maps for the session that its user has now, and makes no undo
manager for a session whose threads a prune has collected already; a prune finds no session stale that was not marked as
active by a recent message, gets the locks again to collect the threads, and collects none of a session with a recent
message. -/
def Undisturbed (w : Activity) : Act → Prop
  | .advance i _ => ∀ c ∈ w.calls[i]?, c.2.Current w.manager c.1.userId w.busy w.free
  | .registerMap s key id =>
      w.manager.isOf key.userId s ∧ id ∈ w.manager.threads s → w.manager.sessions.lookup key.userId = some s
  | .ensureUndo s id => id ∈ w.manager.threads s →
      (w.manager.undoManagers.lookup id).isSome ∨ id ∈ w.free ∨ w.manager.isCurrent w.busy s = true
  | .prune maxIdle contended => w.prune.isNone → w.Marked maxIdle contended
  | .pruneNext contended =>
      ∀ p ∈ w.prune, p.phase = .collect → p.Collects w.manager contended ∧ p.Spares w.manager contended
  | _ => True

section Decidable

instance (m : SessionManager) (userId : Str) (busy : List Str) (free : List Uuid) :
    ∀ pc : ResolvePc, Decidable (pc.Current m userId busy free)
  | .adoptWrite s _ | .storeMapping s _ => inferInstanceAs (Decidable (m.sessions.lookup userId = some s))
  | .adoptUndo s id | .createUndo s id => inferInstanceAs (Decidable
      ((m.undoManagers.lookup id).isSome ∨ id ∈ free ∨ userId ∉ busy ∧ m.sessions.lookup userId = some s))
  | .getSession | .lookup _ | .adopt _ _ | .create _ | .returned _ _ => .isTrue trivial

instance (w : Activity) (maxIdle : Nat) (contended : Nat → Bool) : Decidable (w.Marked maxIdle contended) :=
  inferInstanceAs (Decidable (∀ e ∈ w.resolved, _))

instance (p : Prune) (m : SessionManager) (contended : Nat → Bool) : Decidable (p.Collects m contended) :=
  inferInstanceAs (Decidable (∀ e ∈ m.sessions.entries, _))

instance (p : Prune) (m : SessionManager) (contended : Nat → Bool) : Decidable (p.Spares m contended) :=
  inferInstanceAs (Decidable (∀ e ∈ p.before.sessions.entries, _))

instance (w : Activity) : ∀ a, Decidable (Undisturbed w a)
  | .advance i _ => inferInstanceAs (Decidable (∀ c ∈ w.calls[i]?, c.2.Current w.manager c.1.userId w.busy w.free))
  | .registerMap s key id =>
    inferInstanceAs (Decidable (w.manager.isOf key.userId s ∧ id ∈ w.manager.threads s → _))
  | .ensureUndo s id => inferInstanceAs (Decidable (id ∈ w.manager.threads s → _))
  | .prune maxIdle contended => inferInstanceAs (Decidable (w.prune.isNone → w.Marked maxIdle contended))
  | .pruneNext contended => inferInstanceAs (Decidable
      (∀ p ∈ w.prune, p.phase = .collect → p.Collects w.manager contended ∧ p.Spares w.manager contended))
  | .tick _ | .start _ | .getSession _ | .insertThread _ _ _ | .activate _ _ | .newThread _ _ | .switchThread _ _
  | .registerSession _ _ => .isTrue trivial

end Decidable

/-! ## The invariant -/

namespace SessionManager

variable {m : SessionManager} {busy : List Str} {s : Nat} {id : Uuid}

theorem isCurrent_iff : m.isCurrent busy s = true ↔ ∃ user, user ∉ busy ∧ m.sessions.lookup user = some s := by
  unfold isCurrent
  rw [List.any_eq_true]
  constructor
  · rintro ⟨⟨user, s'⟩, hmem, h⟩
    simp only [Bool.and_eq_true, decide_eq_true_eq] at h
    obtain ⟨hbusy, rfl⟩ := h
    exact ⟨user, hbusy, Table.mem_entries_iff.mp hmem⟩
  · rintro ⟨user, hbusy, hs⟩
    refine ⟨⟨user, s⟩, Table.mem_entries_iff.mpr hs, ?_⟩
    simp only [hbusy, not_false_eq_true, decide_true, Bool.and_self]

theorem isHeld_iff : m.isHeld busy id = true ↔ m.HoldsOutside busy id := by
  unfold isHeld
  rw [List.any_eq_true]
  constructor
  · rintro ⟨⟨user, s'⟩, hmem, h⟩
    simp only [Bool.and_eq_true, decide_eq_true_eq] at h
    exact ⟨user, h.1, s', Table.mem_entries_iff.mp hmem, h.2⟩
  · rintro ⟨user, hbusy, s', hs, hid⟩
    refine ⟨⟨user, s'⟩, Table.mem_entries_iff.mpr hs, ?_⟩
    simp only [hbusy, hid, not_false_eq_true, decide_true, Bool.and_self]

end SessionManager

/-- A map entry is for a thread of the session of its user, or about to go with its user; an undo manager is for a
thread of a session that stays, or it is about to go. -/
structure Accounted (dropped busy : List Str) (free : List Uuid) (m : SessionManager) : Prop where
  mapped : ∀ key id, m.threadMap.lookup key = some id → key.userId ∈ dropped ∨ m.Holds key.userId id
  undone : ∀ id, (m.undoManagers.lookup id).isSome → id ∈ free ∨ m.HoldsOutside busy id

/-- What a prune that is under way has kept of what it began with. -/
structure UnderWay (p : Prune) (m : SessionManager) : Prop where
  sessions : ∀ user s, p.before.sessions.lookup user = some s → user ∉ p.stale → m.sessions.lookup user = some s
  keys : ∀ key, (p.before.threadMap.lookup key).isSome → key.userId ∉ p.stale → (m.threadMap.lookup key).isSome
  undo : ∀ id, (p.before.undoManagers.lookup id).isSome → (m.undoManagers.lookup id).isSome
  idle : ∀ user ∈ p.stale, ∀ s, p.before.sessions.lookup user = some s → ¬p.Recent s
  spared : p.phase ≠ .collect → ∀ user s, p.before.sessions.lookup user = some s → p.Recent s →
    ∀ id ∈ p.before.threads s, (p.before.undoManagers.lookup id).isSome → id ∉ p.threadIds

structure PruneInv (w : Activity) : Prop where
  accounted : Accounted w.dropped w.busy w.free w.manager
  underWay : ∀ p, w.prune = some p → UnderWay p w.manager
  done : ∀ d ∈ w.pruned, d.KeepsRecent ∧ d.after.Clean

section Handlers

variable {m m' : SessionManager} {now : Nat} {busy dropped : List Str} {free : List Uuid}

theorem Grows.holds (hg : Grows now busy free m m') {user : Str} {id : Uuid} (h : m.Holds user id) :
    m'.Holds user id := by
  obtain ⟨s, hs, hid⟩ := h
  exact ⟨s, hg.sessions user s hs, hg.threads s id hid⟩

theorem Grows.holdsOutside (hg : Grows now busy free m m') {id : Uuid} (h : m.HoldsOutside busy id) :
    m'.HoldsOutside busy id := by
  obtain ⟨user, hbusy, hholds⟩ := h
  exact ⟨user, hbusy, hg.holds hholds⟩

theorem Accounted.of_grows (h : Accounted dropped busy free m) (hg : Grows now busy free m m') :
    Accounted dropped busy free m' := by
  refine ⟨fun key id hid => ?_, fun id hid => ?_⟩
  · rcases hg.mapped key id hid with hold | hnew
    · exact (h.mapped key id hold).imp_right hg.holds
    · exact .inr hnew
  · rcases hg.undone id hid with hold | hnew
    · exact (h.undone id hold).imp_right hg.holdsOutside
    · exact hnew

theorem UnderWay.of_grows {p : Prune} (h : UnderWay p m) (hg : Grows now busy free m m') : UnderWay p m' :=
  ⟨fun user s hs hstale => hg.sessions user s (h.sessions user s hs hstale),
    fun key hkey hstale => hg.keys key (h.keys key hkey hstale), fun id hid => hg.undo id (h.undo id hid),
    h.idle, h.spared⟩

/-- A step of a handler. -/
theorem PruneInv.of_grows {w w' : Activity} (h : PruneInv w) (hg : Grows w.now w.busy w.free w.manager w'.manager)
    (hprune : w'.prune = w.prune) (hpruned : w'.pruned = w.pruned) : PruneInv w' := by
  have hdropped : w'.dropped = w.dropped := congrArg (fun prune : Option Prune => prune.elim [] Prune.dropped) hprune
  have hbusy : w'.busy = w.busy := congrArg (fun prune : Option Prune => prune.elim [] Prune.busy) hprune
  have hfree : w'.free = w.free := congrArg (fun prune : Option Prune => prune.elim [] Prune.free) hprune
  refine ⟨?_, fun p hp => ?_, fun d hd => ?_⟩
  · rw [hdropped, hbusy, hfree]
    exact h.accounted.of_grows hg
  · exact (h.underWay p (hprune ▸ hp)).of_grows hg
  · exact h.done d (hpruned ▸ hd)

end Handlers

section Prune

variable {m : SessionManager} {p : Prune}

/-- What is not accounted for otherwise is held. -/
theorem Accounted.clean (h : Accounted [] [] [] m) : m.Clean := by
  refine ⟨fun key id hid => ?_, fun id hid => ?_⟩
  · exact (h.mapped key id hid).resolve_left List.not_mem_nil
  · obtain ⟨user, -, hholds⟩ := (h.undone id hid).resolve_left List.not_mem_nil
    exact ⟨user, hholds⟩

/-- The prune finds idle sessions only: a message that marked its session as active keeps it from being stale. -/
theorem idle_of_marked {w : Activity} {maxIdle : Nat} {contended : Nat → Bool} (hs : Sound w)
    (hmarked : w.Marked maxIdle contended) {user : Str} {s : Nat}
    (hstale : user ∈ w.manager.staleUsers w.now maxIdle contended) (hlookup : w.manager.sessions.lookup user = some s)
    {e : Resolved} (he : e ∈ w.resolved) (hsession : e.session = s) : ¬w.now < e.time + maxIdle := by
  intro hrecent
  obtain ⟨⟨user', s'⟩, hmem, rfl⟩ := List.mem_map.mp hstale
  obtain ⟨hentry, hfilter⟩ := List.mem_filter.mp hmem
  obtain rfl : s' = s := Option.some.inj ((Table.mem_entries_iff.mp hentry).symm.trans hlookup)
  rw [Bool.and_eq_true, Bool.not_eq_true'] at hfilter
  obtain ⟨hfree, hold⟩ := hfilter
  subst hsession
  by_cases hstamped : e.stamped = true ∧ maxIdle % SECOND = 0
  · obtain ⟨session, hstore, htime⟩ := hs.since e he hstamped.1
    have hactive : session.lastActiveAt + maxIdle / SECOND * SECOND < w.now := by
      rw [SessionManager.isStale, hstore, Option.any_some] at hold
      exact of_decide_eq_true hold
    have hwhole : maxIdle / SECOND * SECOND = maxIdle := Nat.div_mul_cancel (Nat.dvd_of_mod_eq_zero hstamped.2)
    omega
  · have hcurrent : w.manager.isCurrent [] e.session = true :=
      SessionManager.isCurrent_iff.mpr ⟨user', List.not_mem_nil, hlookup⟩
    have hnot : e.stamped = false ∨ maxIdle % SECOND ≠ 0 := by
      rcases Decidable.not_and_iff_or_not.mp hstamped with h | h
      · exact .inl (Bool.eq_false_iff.mpr h)
      · exact .inr h
    have hfresh := hmarked e he hnot hrecent hcurrent hfree
    rw [hold] at hfresh
    cases hfresh

/-! ## The windows of a prune -/

variable {stale : List Str} {ids : List Uuid}

theorem lookup_removeSessions {user : Str} {s : Nat} (h : m.sessions.lookup user = some s) (hstale : user ∉ stale) :
    (m.removeSessions stale).sessions.lookup user = some s := by
  rw [SessionManager.removeSessions, Table.lookup_retain, h, Option.filter_some, if_pos (decide_eq_true hstale)]

theorem mem_staleThreadIds {contended : Nat → Bool} {user : Str} {s : Nat} {id : Uuid} (hstale : user ∈ stale)
    (hs : m.sessions.lookup user = some s) (hfree : contended s = false) (hid : id ∈ m.threads s) :
    id ∈ m.staleThreadIds stale contended := by
  refine List.mem_flatMap.mpr ⟨user, hstale, ?_⟩
  simp only [hs, hfree, Bool.false_eq_true, if_false]
  exact hid

/-- The threads of the stale sessions are collected: from now on only the other sessions have to account for theirs. -/
theorem accounted_collect (h : Accounted [] [] [] m) {contended : Nat → Bool} (hcollects : p.Collects m contended) :
    Accounted [] p.stale (m.staleThreadIds p.stale contended) m := by
  refine ⟨h.mapped, fun id hid => ?_⟩
  obtain ⟨user, -, s, hs, hmem⟩ := (h.undone id hid).resolve_left List.not_mem_nil
  by_cases hstale : user ∈ p.stale
  · cases hlock : contended s with
    | false => exact .inl (mem_staleThreadIds hstale hs hlock hmem)
    | true =>
      refine .inr (SessionManager.isHeld_iff.mp ?_)
      exact hcollects ⟨user, s⟩ (Table.mem_entries_iff.mpr hs) hstale hlock id hmem hid
  · exact .inr ⟨user, hstale, s, hs, hmem⟩

/-- The sessions go: the map entries of their users are next. -/
theorem accounted_removeSessions (h : Accounted [] stale ids m) : Accounted stale [] ids (m.removeSessions stale) := by
  refine ⟨fun key id hid => ?_, fun id hid => ?_⟩
  · by_cases hstale : key.userId ∈ stale
    · exact .inl hstale
    · obtain ⟨s, hs, hmem⟩ := (h.mapped key id hid).resolve_left List.not_mem_nil
      exact .inr ⟨s, lookup_removeSessions hs hstale, hmem⟩
  · refine (h.undone id hid).imp_right ?_
    rintro ⟨user, hstale, s, hs, hmem⟩
    exact ⟨user, List.not_mem_nil, s, lookup_removeSessions hs hstale, hmem⟩

theorem accounted_retainThreads (h : Accounted stale [] ids m) : Accounted [] [] ids (m.retainThreads stale) := by
  refine ⟨fun key id hid => .inr ?_, h.undone⟩
  rw [SessionManager.retainThreads, Table.lookup_retain] at hid
  obtain ⟨hold, hkept⟩ := Option.filter_eq_some_iff.mp hid
  exact (h.mapped key id hold).resolve_left (of_decide_eq_true hkept)

theorem accounted_removeUndo (h : Accounted [] [] ids m) : Accounted [] [] [] (m.removeUndo ids) := by
  refine ⟨h.mapped, fun id hid => .inr ?_⟩
  rw [SessionManager.removeUndo, Table.lookup_retain] at hid
  obtain ⟨n, hn⟩ := Option.isSome_iff_exists.mp hid
  obtain ⟨hold, hkept⟩ := Option.filter_eq_some_iff.mp hn
  exact (h.undone id (Option.isSome_iff_exists.mpr ⟨n, hold⟩)).resolve_left (of_decide_eq_true hkept)

/-- The prune has kept the sessions with a recent message, and so keeps them to its end. -/
theorem UnderWay.keepsRecent (h : UnderWay p m) (hphase : p.phase = .undo) :
    (⟨p, m.removeUndo p.threadIds⟩ : Pruned).KeepsRecent := by
  intro user s hs hrecent
  have hstale : user ∉ p.stale := fun hstale => h.idle user hstale s hs hrecent
  refine ⟨h.sessions user s hs hstale, fun key hkey hsome => ?_, fun id hid hsome => ?_⟩
  · exact h.keys key hsome (hkey ▸ hstale)
  · have hne : p.phase ≠ .collect := hphase ▸ nofun
    have hkept : id ∉ p.threadIds := h.spared hne user s hs hrecent id hid hsome
    obtain ⟨n, hn⟩ := Option.isSome_iff_exists.mp (h.undo id hsome)
    show ((m.removeUndo p.threadIds).undoManagers.lookup id).isSome
    rw [SessionManager.removeUndo, Table.lookup_retain, hn, Option.filter_some, if_pos (decide_eq_true hkept)]
    rfl

end Prune

section Windows

variable {w : Activity} {contended : Nat → Bool}

theorem pruneInv_startPrune (h : PruneInv w) (hs : Sound w) (maxIdle : Nat)
    (hmarked : w.prune.isNone → w.Marked maxIdle contended) : PruneInv (w.startPrune maxIdle contended) := by
  unfold Activity.startPrune
  split
  · exact h
  next hnone =>
    have haccounted : Accounted [] [] [] w.manager := by
      have hacc := h.accounted
      rw [Activity.dropped, Activity.busy, Activity.free, hnone] at hacc
      exact hacc
    simp only
    split
    next hempty =>
      -- nothing is stale, so the prune is done and has changed nothing
      refine ⟨haccounted, nofun, fun d hd => ?_⟩
      rcases List.mem_cons.mp hd with rfl | hd
      · exact ⟨fun _ _ hlookup _ => ⟨hlookup, fun _ _ hkey => hkey, fun _ _ hid => hid⟩, haccounted.clean⟩
      · exact h.done d hd
    next =>
      refine ⟨haccounted, fun p hp => ?_, h.done⟩
      cases hp
      refine ⟨fun _ _ hlookup _ => hlookup, fun _ hkey _ => hkey, fun _ hid => hid, ?_, fun hphase => absurd rfl hphase⟩
      rintro user hstale s hlookup ⟨e, he, hsession, hrecent⟩
      exact idle_of_marked hs (hmarked (hnone ▸ rfl)) hstale hlookup he hsession hrecent

theorem pruneInv_nextPrune (h : PruneInv w)
    (hcollect : ∀ p ∈ w.prune, p.phase = .collect → p.Collects w.manager contended ∧ p.Spares w.manager contended) :
    PruneInv (w.nextPrune contended) := by
  unfold Activity.nextPrune
  split
  · exact h
  next p hp =>
    have hway := h.underWay p hp
    have hacc : Accounted p.dropped p.busy p.free w.manager := by
      have hacc := h.accounted
      rw [Activity.dropped, Activity.busy, Activity.free, hp] at hacc
      exact hacc
    unfold Prune.dropped Prune.busy Prune.free at hacc
    split
    next hphase =>
      obtain ⟨hcollects, hspares⟩ := hcollect p hp hphase
      rw [hphase] at hacc
      refine ⟨accounted_collect hacc hcollects, fun p' hp' => ?_, h.done⟩
      cases hp'
      refine ⟨hway.sessions, hway.keys, hway.undo, hway.idle, fun _ user s hs hrecent => ?_⟩
      exact hspares ⟨user, s⟩ (Table.mem_entries_iff.mpr hs) hrecent
    next hphase =>
      rw [hphase] at hacc
      refine ⟨accounted_removeSessions hacc, fun p' hp' => ?_, h.done⟩
      cases hp'
      refine ⟨fun user s hs hstale => ?_, hway.keys, hway.undo, hway.idle, fun _ => hway.spared (hphase ▸ nofun)⟩
      exact lookup_removeSessions (hway.sessions user s hs hstale) hstale
    next hphase =>
      rw [hphase] at hacc
      refine ⟨accounted_retainThreads hacc, fun p' hp' => ?_, h.done⟩
      cases hp'
      refine ⟨hway.sessions, fun key hkey hstale => ?_, hway.undo, hway.idle, fun _ => hway.spared (hphase ▸ nofun)⟩
      obtain ⟨id, hid⟩ := Option.isSome_iff_exists.mp (hway.keys key hkey hstale)
      show ((w.manager.retainThreads p.stale).threadMap.lookup key).isSome
      rw [SessionManager.retainThreads, Table.lookup_retain, hid, Option.filter_some, if_pos (decide_eq_true hstale)]
      rfl
    next hphase =>
      rw [hphase] at hacc
      have hclean := accounted_removeUndo hacc
      refine ⟨hclean, nofun, fun d hd => ?_⟩
      rcases List.mem_cons.mp hd with rfl | hd
      · exact ⟨hway.keepsRecent hphase, hclean.clean⟩
      · exact h.done d hd

end Windows

/-! ## Runs -/

section Runs

variable {parseUuid : Str → Option Uuid}

theorem grows_advance {w : Activity} (hs : Sound w) {i : Nat} {uuid : Uuid} (hu : Undisturbed w (.advance i uuid)) :
    Grows w.now w.busy w.free w.manager (w.advance parseUuid i uuid).manager ∧
      (w.advance parseUuid i uuid).prune = w.prune ∧ (w.advance parseUuid i uuid).pruned = w.pruned := by
  unfold Activity.advance
  split
  · exact ⟨.refl w.manager, rfl, rfl⟩
  next r pc hcall =>
    have hg : Grows w.now w.busy w.free w.manager (resolveStep parseUuid w.manager r uuid w.now pc).1 :=
      grows_resolveStep pc (hu (r, pc) hcall) (hs.writes _ (List.mem_of_getElem? hcall))
    simp only
    split
    · exact ⟨hg, rfl, rfl⟩
    · exact ⟨hg, rfl, rfl⟩

theorem pruneInv_step (w : Activity) (a : Act) (hu : Undisturbed w a) (h : Sound w ∧ PruneInv w) :
    Sound (w.step parseUuid a) ∧ PruneInv (w.step parseUuid a) := by
  obtain ⟨hs, h⟩ := h
  refine ⟨sound_step w a hs, ?_⟩
  cases a with
  | tick d => exact h.of_grows (.refl w.manager) rfl rfl
  | start r => exact h.of_grows (.refl w.manager) rfl rfl
  | advance i uuid =>
    obtain ⟨hg, hprune, hpruned⟩ := @grows_advance parseUuid w hs i uuid hu
    exact h.of_grows hg hprune hpruned
  | getSession userId => exact h.of_grows (grows_getOrCreateSession userId) rfl rfl
  | insertThread s id stamp => exact h.of_grows (grows_modifySession (marks_insertThread id stamp w.now) s) rfl rfl
  | activate s id =>
    simp only [Activity.step]
    split
    · exact h.of_grows (grows_modifySession (marks_switchThread id w.now) s) rfl rfl
    · exact h
  | newThread s uuid =>
    simp only [Activity.step]
    split
    · exact h.of_grows (grows_modifySession (marks_createThread uuid w.now) s) rfl rfl
    · exact h
  | switchThread s id => exact h.of_grows (grows_modifySession (marks_switchThread id w.now) s) rfl rfl
  | registerMap s key id =>
    simp only [Activity.step]
    split
    next hof => exact h.of_grows (grows_mapThread ⟨s, hu hof, hof.2⟩) rfl rfl
    · exact h
  | ensureUndo s id =>
    simp only [Activity.step]
    split
    next hid =>
      refine h.of_grows (grows_ensureUndo ((hu hid).imp_right (Or.imp_right fun hcurrent => ?_))) rfl rfl
      obtain ⟨user, hbusy, hs⟩ := SessionManager.isCurrent_iff.mp hcurrent
      exact ⟨user, hbusy, s, hs, hid⟩
    · exact h
  | registerSession userId s =>
    simp only [Activity.step]
    split
    · exact h.of_grows (grows_registerSession userId s) rfl rfl
    · exact h
  | prune maxIdle contended => exact pruneInv_startPrune h hs maxIdle hu
  | pruneNext contended => exact pruneInv_nextPrune h hu

theorem pruneInv_initial (now : Nat) : PruneInv (Activity.initial now) :=
  ⟨⟨nofun, nofun⟩, nofun, fun _ hd => absurd hd List.not_mem_nil⟩

end Runs

/-! ## A session that is in use -/

def otherGreeting : Request := ⟨"ann".toList, "telegram".toList, none, none⟩

/-- The steps of a call, with the id for its thread. -/
def resolving (r : Request) (i : Nat) (uuid : Uuid) : List Act := .start r :: List.replicate 5 (.advance i uuid)

/-- A first message, another message 50 minutes later, and after ten minutes and a second a prune of the sessions that
were idle for an hour. -/
def twoMessages (r r' : Request) : List Act :=
  resolving r 0 1 ++ .tick (3000 * SECOND) :: resolving r' 1 2 ++
    .tick (601 * SECOND) :: .prune (3600 * SECOND) (fun _ => false) :: List.replicate 4 (.pruneNext fun _ => false)

end Ironclaw.Manager

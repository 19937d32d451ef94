import Ironclaw.Pairing.Pending

/-!
# Concurrent calls

Calls of `list_pending`, `upsert_request` and `approve` on one channel, each cut into its steps on the pairing file: it
is opened, locked, read, written and unlocked. `upsert_request` and `approve` read and write under the lock.
`list_pending` reads without it and, when it has found an expired request, opens the file again, which truncates it,
waits for the lock and writes what it read.

- `alone_step`: a call that nobody interrupts leaves the files as its operation does;
- `raceInv_step`: the steps that keep every request, those of `list_pending` apart;
- `requests_kept_iff`: the runs that lose no request.
-/

namespace Ironclaw.Pairing

open Text Run

/-! ## The steps -/

/-- A generator that draws codes. -/
structure CodeSource where
  rng : Rng
  drawn : ∀ i, IsCode (rng.code i)

inductive Call (μ : Type)
  | listPending
  | upsertRequest (source : CodeSource) (id : Str) (metadata : Option μ)
  | approve (code : Str)

/-- The operation of a call. -/
def Call.op (now : Nat) : Call μ → Op μ
  | .listPending => .listPending now
  | .upsertRequest source id metadata => .upsertRequest now source.rng id metadata
  | .approve code => .approve now code

/-- What a call does next, with what it has read. -/
inductive Phase (μ : Type)
  | idle
  | listRead
  | listOpen (requests : List (PairingRequest μ))
  | listLock (requests : List (PairingRequest μ))
  | listWrite (requests : List (PairingRequest μ))
  | listUnlock
  | upsertOpen (source : CodeSource) (id : Str) (metadata : Option μ)
  | upsertLock (source : CodeSource) (id : Str) (metadata : Option μ)
  | upsertRead (source : CodeSource) (id : Str) (metadata : Option μ)
  | upsertWrite (requests : List (PairingRequest μ)) (created : Option (PairingRequest μ))
  | upsertUnlock (created : Option (PairingRequest μ))
  | approveCheck (code : Str)
  | approveOpen (code : Str)
  | approveLock (code : Str)
  | approveRead (code : Str)
  | approveWrite (entry : PairingRequest μ) (rest : List (PairingRequest μ))
  | approveUnlock (entry : Option (PairingRequest μ))
  | approveFinish (entry : Option (PairingRequest μ))

/-- The call has the lock. -/
def Phase.locked {μ : Type} : Phase μ → Bool
  | .listWrite _ | .listUnlock | .upsertRead .. | .upsertWrite .. | .upsertUnlock _ | .approveRead _ | .approveWrite ..
  | .approveUnlock _ => true
  | _ => false

/-- The files, who has the lock of the pairing file, and the calls by number. `created` are the requests that were
written as new ones and not approved since; the program does not store it. -/
structure System (μ : Type) where
  files : Files μ
  lock : Option Nat
  calls : Nat → Phase μ
  created : List (PairingRequest μ)
  clock : Nat

inductive Label (μ : Type)
  | call (p : Nat) (c : Call μ)
  | go (p : Nat)
  | tick (secs : Nat)

section Steps

variable (cm : CaseMap) (channel : Str) {μ : Type}

/-- What `upsert_request` writes after it has read the requests, and which request is new. -/
def upsertEdit (now : Nat) (rng : Rng) (id : Str) (metadata : Option μ) (requests : List (PairingRequest μ)) :
    Option (List (PairingRequest μ) × Option (PairingRequest μ)) :=
  let id := trim id
  if id.isEmpty then none
  else
    let requests := requests.filter fun r => !isExpired r now
    let existingCodes := requests.map fun r => cm.upper r.code
    match requests.find? (fun r => r.id == id) with
    | some req =>
      let code := if req.code.isEmpty then generateUniqueCode rng existingCodes else req.code
      let idx := requests.findIdx (fun r => r.id == id)
      some (requests.set idx (seenAgain now code metadata req), none)
    | none =>
      if PAIRING_PENDING_MAX ≤ requests.length then none
      else
        let req := ⟨id, generateUniqueCode rng existingCodes, now, now, metadata⟩
        some (requests ++ [req], some req)

instance (r r' : PairingRequest μ) : Decidable (SameRequest r r') :=
  decidable_of_iff (r'.id = r.id ∧ r'.code = r.code ∧ r'.createdAt = r.createdAt)
    ⟨fun h => ⟨h.1, h.2.1, h.2.2⟩, fun h => ⟨h.id, h.code, h.createdAt⟩⟩

namespace System

/-- The call goes on to a phase. -/
def enter (s : System μ) (p : Nat) (phase : Phase μ) : System μ := { s with calls := Function.update s.calls p phase }

/-- `lock_exclusive`: the call waits until nobody has the lock. -/
def lockFor (s : System μ) (p : Nat) (phase : Phase μ) : System μ :=
  if s.lock = none then { s with lock := some p }.enter p phase else s

def unlock (s : System μ) (p : Nat) (phase : Phase μ) : System μ := { s with lock := none }.enter p phase

/-- The content of the pairing file becomes another one. -/
def withPairing (s : System μ) (pairing : File (List (PairingRequest μ))) : System μ :=
  { s with files := { s.files with pairing := pairing } }

/-- The next step of a call. -/
def perform (s : System μ) (p : Nat) : Phase μ → System μ
  | .idle => s
  | .listRead =>
    let requests := unexpired s.clock s.files
    s.enter p (if requests.length ≠ (stored s.files).length then .listOpen requests else .idle)
  | .listOpen requests => (s.withPairing s.files.pairing.truncate).enter p (.listLock requests)
  | .listLock requests => s.lockFor p (.listWrite requests)
  | .listWrite requests => (s.withPairing (.json requests)).enter p .listUnlock
  | .listUnlock => s.unlock p .idle
  | .upsertOpen source id metadata => (s.withPairing s.files.pairing.create).enter p (.upsertLock source id metadata)
  | .upsertLock source id metadata => s.lockFor p (.upsertRead source id metadata)
  | .upsertRead source id metadata =>
    match upsertEdit cm s.clock source.rng id metadata (stored s.files) with
    | some (requests, created) => s.enter p (.upsertWrite requests created)
    | none => s.enter p (.upsertUnlock none)
  | .upsertWrite requests created =>
    { s.withPairing (.json requests) with created := created.toList ++ s.created }.enter p (.upsertUnlock created)
  | .upsertUnlock _ => s.unlock p .idle
  | .approveCheck code =>
    if (cm.upper (trim code)).isEmpty then s.enter p .idle
    else
      match isApproveRateLimited cm channel s.clock s.files with
      | .ok false => s.enter p (.approveOpen code)
      | _ => s.enter p .idle
  | .approveOpen code => s.enter p (if s.files.pairing.isMissing then .idle else .approveLock code)
  | .approveLock code => s.lockFor p (.approveRead code)
  | .approveRead code =>
    match pendingFor cm s.clock code s.files with
    | some (entry, rest) => s.enter p (.approveWrite entry rest)
    | none => s.enter p (.approveUnlock none)
  | .approveWrite entry rest =>
    { s.withPairing (.json rest) with created := s.created.filter fun r => ¬SameRequest r entry }.enter p
      (.approveUnlock (some entry))
  | .approveUnlock entry => s.unlock p (.approveFinish entry)
  | .approveFinish none => { s with files := (recordFailedApprove cm channel s.clock s.files).2 }.enter p .idle
  | .approveFinish (some entry) => { s with files := (addAllowFrom cm channel entry.id s.files).2 }.enter p .idle

/-- A new call starts; on a channel without a key it returns at once. -/
def start (s : System μ) (p : Nat) (c : Call μ) : System μ :=
  match s.calls p, safeChannelKey cm channel with
  | .idle, .ok _ =>
    match c with
    | .listPending => s.enter p .listRead
    | .upsertRequest source id metadata => s.enter p (.upsertOpen source id metadata)
    | .approve code => s.enter p (.approveCheck code)
  | _, _ => s

def step (s : System μ) : Label μ → System μ
  | .call p c => s.start cm channel p c
  | .go p => s.perform cm channel p (s.calls p)
  | .tick secs => { s with clock := s.clock + secs }

/-- Nobody is at work. -/
def quiet (files : Files μ) (clock : Nat) : System μ := ⟨files, none, fun _ => .idle, [], clock⟩

end System

variable {cm channel}

/-! ## A call on its own -/

/-- The next step of a call whose phase is known. -/
theorem run_go {s : System μ} {p : Nat} {phase : Phase μ} (h : s.calls p = phase) (n : Nat) :
    run (System.step cm channel) s (List.replicate (n + 1) (.go p)) =
      run (System.step cm channel) (s.perform cm channel p phase) (List.replicate n (.go p)) := by
  subst h
  rfl

theorem run_idle {s : System μ} {p : Nat} (h : s.calls p = .idle) : ∀ n : Nat,
    run (System.step cm channel) s (List.replicate n (.go p)) = s
  | 0 => rfl
  | n + 1 => by
    rw [run_go h]
    exact run_idle h n

@[simp] theorem enter_calls (s : System μ) (p : Nat) (phase : Phase μ) : (s.enter p phase).calls p = phase :=
  Function.update_self ..

theorem lockFor_of_free {s : System μ} {p : Nat} (h : s.lock = none) (phase : Phase μ) :
    s.lockFor p phase = { s with lock := some p }.enter p phase := if_pos h

theorem start_idle {s : System μ} {p : Nat} {key : Str} (hkey : safeChannelKey cm channel = .ok key)
    (h : s.calls p = .idle)
    (c : Call μ) : s.start cm channel p c = s.enter p (match c with
      | .listPending => .listRead
      | .upsertRequest source id metadata => .upsertOpen source id metadata
      | .approve code => .approveCheck code) := by
  unfold System.start
  rw [h, hkey]
  cases c <;> rfl

/-- A call of `list_pending` that nobody interrupts. -/
theorem alone_listPending {s : System μ} {p : Nat} {key : Str} (hkey : safeChannelKey cm channel = .ok key)
    (hfree : s.lock = none) (hread : s.calls p = .listRead) :
    (run (System.step cm channel) s (List.replicate 7 (.go p))).files = (listPending cm channel s.clock s.files).2 := by
  have hstored : s.files.pairing.get [] = stored s.files := rfl
  rw [run_go hread, System.perform, listPending, hkey]
  dsimp only
  rw [hstored]
  split
  · rw [run_go (enter_calls _ _ _), System.perform, run_go (enter_calls _ _ _), System.perform,
      lockFor_of_free (by exact hfree), run_go (enter_calls _ _ _), System.perform, run_go (enter_calls _ _ _),
      System.perform, System.unlock, run_idle (enter_calls _ _ _)]
    rfl
  · rw [run_idle (enter_calls _ _ _)]
    rfl

/-- The requests that `upsert_request` leaves are those that its call writes. -/
theorem upsertRequest_eq {key : Str} (hkey : safeChannelKey cm channel = .ok key) (now : Nat) (rng : Rng) (id : Str)
    (metadata : Option μ) (files : Files μ) : (upsertRequest cm channel now rng id metadata files).2 =
      { files with pairing :=
          match upsertEdit cm now rng id metadata (stored files) with
          | some (requests, _) => .json requests
          | none => files.pairing.create } := by
  have hcreate : unexpired now { files with pairing := files.pairing.create } =
      (stored files).filter fun r => !isExpired r now := by
    rw [unexpired, File.get_create]
    rfl
  unfold upsertRequest upsertEdit
  rw [hkey]
  simp only [hcreate]
  split
  · rfl
  cases ((stored files).filter fun r => !isExpired r now).find? (fun r => r.id == trim id) with
  | some req => rfl
  | none =>
    dsimp only
    split <;> rfl

theorem perform_upsertRead (s : System μ) (p : Nat) (source : CodeSource) (id : Str) (metadata : Option μ) :
    s.perform cm channel p (.upsertRead source id metadata) =
      match upsertEdit cm s.clock source.rng id metadata (stored s.files) with
      | some (requests, created) => s.enter p (.upsertWrite requests created)
      | none => s.enter p (.upsertUnlock none) := rfl

theorem perform_approveRead (s : System μ) (p : Nat) (code : Str) :
    s.perform cm channel p (.approveRead code) =
      match pendingFor cm s.clock code s.files with
      | some (entry, rest) => s.enter p (.approveWrite entry rest)
      | none => s.enter p (.approveUnlock none) := rfl

/-- A call of `upsert_request` that nobody interrupts. -/
theorem alone_upsertRequest {s : System μ} {p : Nat} {key : Str} (hkey : safeChannelKey cm channel = .ok key)
    (hfree : s.lock = none) {source : CodeSource} {id : Str} {metadata : Option μ}
    (hopen : s.calls p = .upsertOpen source id metadata) :
    (run (System.step cm channel) s (List.replicate 7 (.go p))).files =
      (upsertRequest cm channel s.clock source.rng id metadata s.files).2 := by
  rw [run_go hopen, System.perform, run_go (enter_calls _ _ _), System.perform, lockFor_of_free (by exact hfree),
    run_go (enter_calls _ _ _), upsertRequest_eq hkey, perform_upsertRead]
  have hstored : ∀ s' : System μ, s'.files = { s.files with pairing := s.files.pairing.create } →
      stored s'.files = stored s.files := by
    intro s' hs'
    rw [stored, hs', File.get_create]
    rfl
  rw [hstored _ rfl]
  dsimp only [System.enter, System.withPairing]
  cases upsertEdit cm s.clock source.rng id metadata (stored s.files) with
  | some edit =>
    obtain ⟨requests, created⟩ := edit
    dsimp only
    rw [run_go (Function.update_self ..), System.perform, run_go (enter_calls _ _ _), System.perform, System.unlock,
      run_idle (enter_calls _ _ _)]
    rfl
  | none =>
    dsimp only
    rw [run_go (Function.update_self ..), System.perform, System.unlock, run_idle (enter_calls _ _ _)]
    rfl

/-- A call of `approve` that nobody interrupts. -/
theorem alone_approve {s : System μ} {p : Nat} {key : Str} (hkey : safeChannelKey cm channel = .ok key)
    (hfree : s.lock = none) {code : Str} (hcheck : s.calls p = .approveCheck code) :
    (run (System.step cm channel) s (List.replicate 7 (.go p))).files =
      (approve cm channel s.clock code s.files).2 := by
  rw [run_go hcheck, System.perform, approve]
  split
  next =>
    rw [run_idle (enter_calls _ _ _)]
    rfl
  next =>
    cases hlimit : isApproveRateLimited cm channel s.clock s.files with
    | error e =>
      rw [isApproveRateLimited, hkey] at hlimit
      cases hlimit
    | ok limited =>
      cases limited with
      | true =>
        dsimp only
        rw [run_idle (enter_calls _ _ _)]
        rfl
      | false =>
        dsimp only
        rw [run_go (enter_calls _ _ _), System.perform]
        have hfile : (s.enter p (.approveOpen code)).files = s.files := rfl
        rw [hfile]
        split
        next =>
          rw [run_idle (enter_calls _ _ _)]
          rfl
        next =>
          rw [run_go (enter_calls _ _ _), System.perform, lockFor_of_free (by exact hfree), run_go (enter_calls _ _ _),
            perform_approveRead]
          dsimp only [System.enter]
          cases pendingFor cm s.clock code s.files with
          | some found =>
            obtain ⟨entry, rest⟩ := found
            dsimp only
            rw [run_go (Function.update_self ..), System.perform, run_go (enter_calls _ _ _), System.perform,
              System.unlock, run_go (enter_calls _ _ _), System.perform, run_idle (enter_calls _ _ _)]
            change (addAllowFrom cm channel entry.id { s.files with pairing := .json rest }).2 = _
            rcases addAllowFrom cm channel entry.id { s.files with pairing := .json rest } with ⟨_ | _, files⟩ <;> rfl
          | none =>
            dsimp only
            rw [run_go (Function.update_self ..), System.perform, System.unlock, run_go (enter_calls _ _ _),
              System.perform, run_idle (enter_calls _ _ _)]
            change (recordFailedApprove cm channel s.clock s.files).2 = _
            rcases recordFailedApprove cm channel s.clock s.files with ⟨_ | _, files⟩ <;> rfl

/-- **A call that nobody interrupts** leaves the files as its operation does. -/
theorem alone_step {s : System μ} {p : Nat} (hfree : s.lock = none) (hidle : s.calls p = .idle) (c : Call μ) :
    (run (System.step cm channel) s (.call p c :: List.replicate 7 (.go p))).files =
      step cm channel s.files (c.op s.clock) := by
  cases hkey : safeChannelKey cm channel with
  | error e =>
    have hstart : s.start cm channel p c = s := by
      unfold System.start
      rw [hidle, hkey]
    have hrun : run (System.step cm channel) s (.call p c :: List.replicate 7 (.go p)) = s := by
      rw [run_cons, System.step, hstart, run_idle hidle]
    rw [hrun]
    cases c with
    | listPending => rw [Call.op, step, listPending, hkey]
    | upsertRequest source id metadata => rw [Call.op, step, upsertRequest, hkey]
    | approve code =>
      rw [Call.op, step, approve, isApproveRateLimited, hkey]
      split <;> rfl
  | ok key =>
    rw [run_cons, System.step, start_idle hkey hidle]
    cases c with
    | listPending => exact alone_listPending (s := s.enter p .listRead) hkey hfree (enter_calls _ _ _)
    | upsertRequest source id metadata =>
      exact alone_upsertRequest (s := s.enter p (.upsertOpen source id metadata)) hkey hfree (enter_calls _ _ _)
    | approve code => exact alone_approve (s := s.enter p (.approveCheck code)) hkey hfree (enter_calls _ _ _)

/-! ## What is to be kept -/

/-- A request that was created and has neither expired nor been approved. -/
def Live (s : System μ) (r : PairingRequest μ) : Prop := r ∈ s.created ∧ isExpired r s.clock = false

/-- The request is among others, perhaps seen again. -/
def Has (requests : List (PairingRequest μ)) (r : PairingRequest μ) : Prop := ∃ r' ∈ requests, SameRequest r r'

/-- Every live request is in the pairing file. -/
def Kept (s : System μ) : Prop := ∀ r, Live s r → Has (stored s.files) r

/-- Those of the calls of `upsert_request` that have returned are. -/
def CompletedKept (s : System μ) : Prop :=
  ∀ r, Live s r → (∀ p, s.calls p ≠ .upsertUnlock (some r)) → Has (stored s.files) r

/-- A call of `list_pending` opens the file for writing only when no request is live, and writes only what has all live
requests. -/
def NothingDropped (s : System μ) : Label μ → Prop
  | .go p =>
    match s.calls p with
    | .listOpen _ => ∀ r, ¬Live s r
    | .listWrite requests => ∀ r, Live s r → Has requests r
    | _ => True
  | _ => True

theorem Has.mono {requests requests' : List (PairingRequest μ)} {r : PairingRequest μ} (h : Has requests r)
    (hsub : ∀ r' ∈ requests, r' ∈ requests') : Has requests' r := by
  obtain ⟨r', hr', hsame⟩ := h
  exact ⟨r', hsub r' hr', hsame⟩

/-! ## The invariant -/

/-- What a call that is about to write has read: with the lock, nothing is missing. -/
def Carries (s : System μ) : Phase μ → Prop
  | .upsertWrite requests created =>
    (∀ r, Live s r → Has requests r) ∧ ∀ r ∈ created, r ∈ requests ∧ r.code.isEmpty = false
  | .approveWrite entry rest => ∀ r, Live s r → SameRequest r entry ∨ Has rest r
  | _ => True

structure RaceInv (s : System μ) : Prop where
  locked : ∀ p, (s.calls p).locked = true → s.lock = some p
  carries : ∀ p, Carries s (s.calls p)
  codes : ∀ r ∈ s.created, r.code.isEmpty = false
  kept : Kept s

theorem Carries.mono {s s' : System μ} (hlive : ∀ r, Live s' r → Live s r) :
    ∀ {phase : Phase μ}, Carries s phase → Carries s' phase
  | .upsertWrite _ _, h => ⟨fun r hr => h.1 r (hlive r hr), h.2⟩
  | .approveWrite _ _, h => fun r hr => h r (hlive r hr)
  | .idle, _ | .listRead, _ | .listOpen _, _ | .listLock _, _ | .listWrite _, _ | .listUnlock, _ | .upsertOpen .., _
  | .upsertLock .., _ | .upsertRead .., _ | .upsertUnlock _, _ | .approveCheck _, _ | .approveOpen _, _
  | .approveLock _, _ | .approveRead _, _ | .approveUnlock _, _ | .approveFinish _, _ => trivial

theorem carries_of_unlocked (s : System μ) : ∀ {phase : Phase μ}, phase.locked = false → Carries s phase
  | .upsertWrite _ _, h => by cases h
  | .approveWrite _ _, h => by cases h
  | .idle, _ | .listRead, _ | .listOpen _, _ | .listLock _, _ | .listWrite _, _ | .listUnlock, _ | .upsertOpen .., _
  | .upsertLock .., _ | .upsertRead .., _ | .upsertUnlock _, _ | .approveCheck _, _ | .approveOpen _, _
  | .approveLock _, _ | .approveRead _, _ | .approveUnlock _, _ | .approveFinish _, _ => trivial

/-- A call that goes on: the others have the lock as before, or it was free or its own. -/
theorem RaceInv.advance {s s' : System μ} {p : Nat} {phase : Phase μ} (h : RaceInv s)
    (hcalls : s'.calls = Function.update s.calls p phase)
    (hself : phase.locked = true → s'.lock = some p) (hothers : s'.lock = s.lock ∨ s.lock = none ∨ s.lock = some p)
    (hcarries : Carries s' phase) (hlive : (∀ r, Live s' r → Live s r) ∨ s.lock = some p)
    (hcodes : ∀ r ∈ s'.created, r.code.isEmpty = false) (hkept : Kept s') : RaceInv s' where
  locked q hq := by
    rw [hcalls] at hq
    by_cases hqp : q = p
    · subst hqp
      rw [Function.update_self] at hq
      exact hself hq
    · rw [Function.update_of_ne hqp] at hq
      have hlock := h.locked q hq
      rcases hothers with heq | heq | heq
      · exact heq.trans hlock
      · cases heq.symm.trans hlock
      · exact absurd (Option.some.inj (hlock.symm.trans heq)) hqp
  carries q := by
    rw [hcalls]
    by_cases hqp : q = p
    · subst hqp
      rw [Function.update_self]
      exact hcarries
    · rw [Function.update_of_ne hqp]
      rcases hlive with hlive | hlock
      · exact (h.carries q).mono hlive
      · -- the lock is another call's
        refine carries_of_unlocked s' (Bool.eq_false_iff.mpr fun hq => ?_)
        exact hqp (Option.some.inj ((h.locked q hq).symm.trans hlock))
  codes := hcodes
  kept := hkept

/-- A step to a phase without the lock that leaves the lock, the clock and the requests alone. -/
theorem RaceInv.enter {s : System μ} (h : RaceInv s) (p : Nat) {phase : Phase μ} (hphase : phase.locked = false) :
    RaceInv (s.enter p phase) :=
  h.advance rfl (fun hlocked => absurd (hphase.symm.trans hlocked) Bool.false_ne_true) (.inl rfl)
    (carries_of_unlocked _ hphase) (.inl fun _ hr => hr) h.codes h.kept

theorem RaceInv.lockFor {s : System μ} (h : RaceInv s) (p : Nat) {phase : Phase μ} (hcarries : ∀ s, Carries s phase) :
    RaceInv (s.lockFor p phase) := by
  rw [System.lockFor]
  split
  next hfree => exact h.advance rfl (fun _ => rfl) (.inr (.inl hfree)) (hcarries _) (.inl fun _ hr => hr) h.codes h.kept
  · exact h

theorem RaceInv.unlock {s : System μ} {p : Nat} {phase : Phase μ} (h : RaceInv s) (hlocked : (s.calls p).locked = true)
    (hphase : phase.locked = false) : RaceInv (s.unlock p phase) :=
  h.advance rfl (fun hq => absurd (hphase.symm.trans hq) Bool.false_ne_true) (.inr (.inr (h.locked p hlocked)))
    (carries_of_unlocked _ hphase) (.inl fun _ hr => hr) h.codes h.kept

theorem firstUnused_eq {rng : Rng} {existing : List Str} {code : Str} : ∀ {tries i : Nat},
    firstUnused rng existing tries i = some code → ∃ k, code = rng.code k
  | tries + 1, i, h => by
    rw [firstUnused] at h
    split at h
    · exact firstUnused_eq h
    · exact ⟨i, (Option.some.inj h).symm⟩

theorem CodeSource.code_ne_nil (source : CodeSource) (existing : List Str) :
    (generateUniqueCode source.rng existing).isEmpty = false := by
  rw [generateUniqueCode]
  cases h : firstUnused source.rng existing 500 0 with
  | some code =>
    obtain ⟨k, rfl⟩ := firstUnused_eq h
    exact (source.drawn k).ne_nil
  | none =>
    have hcode := List.isEmpty_eq_false_iff.mp (source.drawn 500).ne_nil
    exact List.isEmpty_eq_false_iff.mpr (List.append_ne_nil_of_left_ne_nil hcode _)

/-- What a call of `upsert_request` writes has every live request, and the new one. -/
theorem upsertEdit_spec {now : Nat} {source : CodeSource} {id : Str} {metadata : Option μ}
    {requests requests' : List (PairingRequest μ)} {created : Option (PairingRequest μ)}
    (h : upsertEdit cm now source.rng id metadata requests = some (requests', created)) :
    (∀ r, isExpired r now = false → r.code.isEmpty = false → Has requests r → Has requests' r) ∧
      ∀ r ∈ created, r ∈ requests' ∧ r.code.isEmpty = false := by
  have hpending : ∀ r, isExpired r now = false → Has requests r →
      Has (requests.filter fun r => !isExpired r now) r := by
    rintro r hexp ⟨r', hr', hsame⟩
    refine ⟨r', List.mem_filter.mpr ⟨hr', ?_⟩, hsame⟩
    rw [isExpired] at hexp ⊢
    rw [hsame.createdAt, hexp]
    rfl
  unfold upsertEdit at h
  simp only at h
  split at h
  · cases h
  split at h
  next req hreq =>
    obtain ⟨hlist, rfl⟩ := Prod.mk.inj (Option.some.inj h)
    refine ⟨fun r hexp hcode hhas => ?_, fun r hr => by cases hr⟩
    obtain ⟨r', hr', hsame⟩ := hpending r hexp hhas
    obtain ⟨before, after, hsplit, hset⟩ := set_findIdx hreq
    rw [← hlist, hset]
    rw [hsplit] at hr'
    rcases List.mem_append.mp hr' with hr' | hr'
    · exact ⟨r', List.mem_append_left _ hr', hsame⟩
    · rcases List.mem_cons.mp hr' with rfl | hr'
      · refine ⟨_, List.mem_append_right _ List.mem_cons_self, hsame.id, ?_, hsame.createdAt⟩
        rw [hsame.code, hcode, if_neg Bool.false_ne_true]
        rfl
      · exact ⟨r', List.mem_append_right _ (List.mem_cons_of_mem _ hr'), hsame⟩
  next =>
    split at h
    · cases h
    · obtain ⟨rfl, rfl⟩ := Prod.mk.inj (Option.some.inj h)
      refine ⟨fun r hexp _ hhas => (hpending r hexp hhas).mono fun _ => List.mem_append_left _, fun r hr => ?_⟩
      obtain rfl := Option.some.inj hr
      exact ⟨List.mem_append_right _ List.mem_cons_self, source.code_ne_nil _⟩

/-- The other files of a channel are written without the pairing file. -/
theorem pairing_recordFailedApprove (now : Nat) (files : Files μ) :
    (recordFailedApprove cm channel now files).2.pairing = files.pairing := by
  unfold recordFailedApprove
  split <;> rfl

theorem pairing_addAllowFrom (entry : Str) (files : Files μ) :
    (addAllowFrom cm channel entry files).2.pairing = files.pairing := by
  unfold addAllowFrom
  simp only
  split
  · rfl
  split
  · rfl
  split <;> rfl

/-- A step that empties the file or writes it anew. -/
theorem RaceInv.rewrite {s : System μ} (h : RaceInv s) (p : Nat) {phase : Phase μ}
    {pairing : File (List (PairingRequest μ))}
    (hphase : phase.locked = true → s.lock = some p) (hcarries : ∀ s, Carries s phase)
    (hkept : ∀ r, Live s r → Has (pairing.get []) r) : RaceInv ((s.withPairing pairing).enter p phase) :=
  h.advance rfl hphase (.inl rfl) (hcarries _) (.inl fun _ hr => hr) h.codes hkept

/-- **One step** keeps the invariant exactly when it drops nothing. -/
theorem raceInv_step {s : System μ} {a : Label μ} (h : RaceInv s) (hdrop : NothingDropped s a) :
    RaceInv (s.step cm channel a) := by
  cases a with
  | tick secs =>
    have hlive : ∀ r, Live { s with clock := s.clock + secs } r → Live s r := by
      rintro r ⟨hr, hexp⟩
      refine ⟨hr, ?_⟩
      rw [isExpired, decide_eq_false_iff_not] at hexp ⊢
      dsimp only at hexp
      omega
    exact ⟨h.locked, fun p => (h.carries p).mono hlive, h.codes, fun r hr => h.kept r (hlive r hr)⟩
  | call p c =>
    rw [System.step]
    unfold System.start
    split
    · cases c with
      | listPending => exact h.enter p rfl
      | upsertRequest source id metadata => exact h.enter p rfl
      | approve code => exact h.enter p rfl
    · exact h
  | go p =>
    have hcarries := h.carries p
    have hlocked := h.locked p
    rw [NothingDropped] at hdrop
    rw [System.step]
    generalize hphase : s.calls p = phase at hcarries hlocked hdrop ⊢
    cases phase with
    | idle => exact h
    | listRead => exact h.enter p (by split <;> rfl)
    | listOpen requests =>
      exact h.rewrite p (fun hq => by cases hq) (fun _ => trivial) fun r hr => absurd hr (hdrop r)
    | listLock requests => exact h.lockFor p fun _ => trivial
    | listWrite requests => exact h.rewrite p (fun _ => hlocked rfl) (fun _ => trivial) hdrop
    | listUnlock => exact h.unlock (by rw [hphase]; rfl) rfl
    | upsertOpen source id metadata =>
      refine h.rewrite p (fun hq => by cases hq) (fun _ => trivial) fun r hr => ?_
      rw [File.get_create]
      exact h.kept r hr
    | upsertLock source id metadata => exact h.lockFor p fun _ => trivial
    | upsertRead source id metadata =>
      rw [System.perform]
      have hlock := hlocked rfl
      split
      next requests created hedit =>
        obtain ⟨hold, hnew⟩ := upsertEdit_spec hedit
        refine h.advance rfl (fun _ => hlock) (.inl rfl) ⟨fun r hr => ?_, hnew⟩ (.inl fun _ hr => hr) h.codes h.kept
        exact hold r hr.2 (h.codes r hr.1) (h.kept r hr)
      · exact h.advance rfl (fun _ => hlock) (.inl rfl) trivial (.inl fun _ hr => hr) h.codes h.kept
    | upsertWrite requests created =>
      have hlock := hlocked rfl
      obtain ⟨hold, hnew⟩ := hcarries
      refine h.advance rfl (fun _ => hlock) (.inl rfl) trivial (.inr hlock) (fun r hr => ?_) fun r hr => ?_
      · rcases List.mem_append.mp hr with hr | hr
        · exact (hnew r (Option.mem_toList.mp hr)).2
        · exact h.codes r hr
      · rcases List.mem_append.mp hr.1 with hmem | hmem
        · exact ⟨r, (hnew r (Option.mem_toList.mp hmem)).1, rfl, rfl, rfl⟩
        · exact hold r ⟨hmem, hr.2⟩
    | upsertUnlock created => exact h.unlock (by rw [hphase]; rfl) rfl
    | approveCheck code =>
      rw [System.perform]
      split
      · exact h.enter p rfl
      · split
        · exact h.enter p rfl
        · exact h.enter p rfl
    | approveOpen code => exact h.enter p (by split <;> rfl)
    | approveLock code => exact h.lockFor p fun _ => trivial
    | approveRead code =>
      rw [System.perform]
      have hlock := hlocked rfl
      split
      next entry rest hpending =>
        refine h.advance rfl (fun _ => hlock) (.inl rfl) (fun r hr => ?_) (.inl fun _ hr => hr) h.codes h.kept
        obtain ⟨before, after, hsplit, rfl⟩ := removeFirst_some hpending
        obtain ⟨r', hr', hsame⟩ := h.kept r hr
        have hmem : r' ∈ unexpired s.clock s.files := mem_unexpired hr' hsame hr.2
        rw [hsplit] at hmem
        rcases List.mem_append.mp hmem with hmem | hmem
        · exact .inr ⟨r', List.mem_append_left _ hmem, hsame⟩
        · rcases List.mem_cons.mp hmem with rfl | hmem
          · exact .inl hsame
          · exact .inr ⟨r', List.mem_append_right _ hmem, hsame⟩
      · exact h.advance rfl (fun _ => hlock) (.inl rfl) trivial (.inl fun _ hr => hr) h.codes h.kept
    | approveWrite entry rest =>
      have hlock := hlocked rfl
      refine h.advance rfl (fun _ => hlock) (.inl rfl) trivial (.inr hlock) (fun r hr => ?_) fun r hr => ?_
      · exact h.codes r (List.mem_filter.mp hr).1
      · obtain ⟨hmem, hother⟩ := List.mem_filter.mp hr.1
        exact (hcarries r ⟨hmem, hr.2⟩).resolve_left (of_decide_eq_true hother)
    | approveUnlock entry => exact h.unlock (by rw [hphase]; rfl) rfl
    | approveFinish entry =>
      have hfiles : ∀ files : Files μ, files.pairing = s.files.pairing →
          RaceInv ({ s with files := files }.enter p .idle) := by
        intro files heq
        refine h.advance rfl (fun hq => by cases hq) (.inl rfl) trivial (.inl fun _ hr => hr) h.codes fun r hr => ?_
        have hstored : stored files = stored s.files := congrArg (File.get []) heq
        exact hstored ▸ h.kept r hr
      cases entry with
      | none => exact hfiles _ (pairing_recordFailedApprove s.clock s.files)
      | some entry => exact hfiles _ (pairing_addAllowFrom entry.id s.files)

/-- A step after which every live request is in the file dropped nothing. -/
theorem nothingDropped_of_kept {s : System μ} {a : Label μ} (h : Kept (s.step cm channel a)) : NothingDropped s a := by
  cases a with
  | tick secs => trivial
  | call p c => trivial
  | go p =>
    rw [System.step] at h
    rw [NothingDropped]
    generalize s.calls p = phase at h ⊢
    cases phase with
    | listOpen requests =>
      intro r hr
      obtain ⟨r', hr', -⟩ := h r hr
      cases hr'
    | listWrite requests => exact h
    | _ => trivial

theorem raceInv_quiet (files : Files μ) (clock : Nat) : RaceInv (System.quiet files clock) where
  locked p hp := by cases hp
  carries _ := trivial
  codes r hr := by cases hr
  kept r hr := by cases hr.1

variable (cm channel)

/-- **The runs that lose no request.** From a state in which nobody is at work, every created request is in the file
until it expires or is approved, in every state of a run, exactly when no step of `list_pending` drops a live one. -/
theorem requests_kept_iff (files : Files μ) (clock : Nat) (as : List (Label μ)) :
    ((∀ pre, pre <+: as → Kept (run (System.step cm channel) (System.quiet files clock) pre)) ↔
      Along (System.step cm channel) NothingDropped (System.quiet files clock) as) ∧
    (Along (System.step cm channel) NothingDropped (System.quiet files clock) as →
      ∀ pre, pre <+: as → CompletedKept (run (System.step cm channel) (System.quiet files clock) pre)) := by
  have hiff : (∀ pre, pre <+: as → Kept (run (System.step cm channel) (System.quiet files clock) pre)) ↔
      Along (System.step cm channel) NothingDropped (System.quiet files clock) as :=
    states_iff (fun _ _ hs hdrop => raceInv_step hs hdrop) (fun _ hs => hs.kept)
      (fun _ _ _ hkept => nothingDropped_of_kept hkept) as (raceInv_quiet files clock)
  exact ⟨hiff, fun h pre hpre r hr _ => hiff.mpr h pre hpre r hr⟩

end Steps

/-! A list that was read before the lock drops a request that was written meanwhile. -/

theorem isCode_oneCode : IsCode "ABCD2345".toList := isCode_of_all (by decide) (by decide)

/-- A generator that draws one code. -/
def oneCode : CodeSource := ⟨⟨fun _ => "ABCD2345".toList, []⟩, fun _ => isCode_oneCode⟩

/-- The request of `bob` expires and a first call finds it; a second call asks for `alice`; then the first one goes
on. -/
def racing : List (Label Unit) :=
  .call 0 (.upsertRequest oneCode "bob".toList none) :: List.replicate 5 (.go 0) ++
  .tick 1000 :: .call 0 .listPending :: .go 0 ::
  .call 1 (.upsertRequest oneCode "alice".toList none) :: List.replicate 5 (.go 1) ++ List.replicate 4 (.go 0)

theorem stale_list_drops_request :
    ¬CompletedKept (run (System.step asciiCase "telegram".toList) (System.quiet (Files.fresh Unit) 0) racing) := by
  intro h
  have hempty :
    stored (run (System.step asciiCase "telegram".toList) (System.quiet (Files.fresh Unit) 0) racing).files =
      [] := by decide
  have hlive : Live (run (System.step asciiCase "telegram".toList) (System.quiet (Files.fresh Unit) 0) racing)
      ⟨"alice".toList, "ABCD2345".toList, 1000, 1000, none⟩ := ⟨by decide, by decide⟩
  obtain ⟨r, hr, -⟩ := h _ hlive fun p hp => by
    match p, hp with
    | 0, hp => cases hp
    | 1, hp => cases hp
    | p + 2, hp => cases hp
  rw [hempty] at hr
  cases hr

end Ironclaw.Pairing

import Ironclaw.Lib.SlidingLog
import Ironclaw.Pairing.Store

/-!
# Pending requests

What the pairing file of a channel holds in every run of the operations: few requests, each of another sender and with
another code, each under the code it was given until it expires or is approved. And how many wrong codes are tried.

- `pendingInv_step`, `waits_step`, `attempts_step`: what one operation does to each of these;
- `pending_requests`: every run.
-/

namespace Ironclaw.Pairing

open Text Run SlidingLog

def PAIRING_CODE_LENGTH : Nat := 8

def PAIRING_ALPHABET : Str := "ABCDEFGHJKLMNPQRSTUVWXYZ23456789".toList

/-- What `random_code` draws. -/
structure IsCode (code : Str) : Prop where
  length : code.length = PAIRING_CODE_LENGTH
  alphabet : ∀ c ∈ code, c ∈ PAIRING_ALPHABET

theorem isCode_of_all {code : Str} (hlength : code.length = PAIRING_CODE_LENGTH)
    (hall : code.all (PAIRING_ALPHABET.contains ·) = true) : IsCode code :=
  ⟨hlength, fun c hc => List.contains_iff_mem.mp (List.all_eq_true.mp hall c hc)⟩

section Pending

variable (cm : CaseMap) (channel : Str) {μ : Type}

/-- The requests in the pairing file. -/
def stored (s : Files μ) : List (PairingRequest μ) := s.pairing.get []

/-- The generator draws codes, and one within 500 that no pending request has. -/
def DrawsFresh (s : Files μ) : Op μ → Prop
  | .upsertRequest now rng _ _ =>
    (∀ i, IsCode (rng.code i)) ∧ ∃ i < 500, rng.code i ∉ (unexpired now s).map fun r => cm.upper r.code
  | _ => True

/-- Capital letters and digits have no other upper case. -/
def KeepsCapitals : Prop := ∀ s : Str, (∀ c ∈ s, c ∈ PAIRING_ALPHABET) → cm.upper s = s

/-- What is in the pairing file. -/
structure PendingInv (requests : List (PairingRequest μ)) : Prop where
  atMost : requests.length ≤ PAIRING_PENDING_MAX
  ids : (requests.map PairingRequest.id).Nodup
  codes : (requests.map fun r => cm.upper r.code).Nodup
  drawn : ∀ r ∈ requests, IsCode r.code

/-! ## What the operations do to the pairing file -/

variable {cm channel}

theorem IsCode.ne_nil {code : Str} (h : IsCode code) : code.isEmpty = false := by
  cases code with
  | nil => exact absurd h.length (by decide)
  | cons _ _ => rfl

theorem firstUnused_spec {rng : Rng} {existing : List Str} : ∀ {tries i : Nat},
    (∃ j < tries, rng.code (i + j) ∉ existing) → ∃ k, firstUnused rng existing tries i = some (rng.code k) ∧
      rng.code k ∉ existing
  | 0, _, h => by
    obtain ⟨j, hj, -⟩ := h
    exact absurd hj (Nat.not_lt_zero j)
  | tries + 1, i, h => by
    rw [firstUnused]
    split
    next htaken =>
      refine firstUnused_spec ?_
      obtain ⟨j, hj, hfree⟩ := h
      cases j with
      | zero => exact absurd htaken hfree
      | succ j => exact ⟨j, Nat.lt_of_succ_lt_succ hj, by rwa [Nat.add_right_comm, Nat.add_assoc]⟩
    next hfree => exact ⟨i, rfl, hfree⟩

/-- With a fresh code among the draws, the code is one of them and no request has it. -/
theorem generateUniqueCode_spec {s : Files μ} {now : Nat} {rng : Rng} {id : Str} {metadata : Option μ}
    (h : DrawsFresh cm s (.upsertRequest now rng id metadata)) :
    IsCode (generateUniqueCode rng ((unexpired now s).map fun r => cm.upper r.code)) ∧
      generateUniqueCode rng ((unexpired now s).map fun r => cm.upper r.code) ∉
        (unexpired now s).map fun r => cm.upper r.code := by
  obtain ⟨hcodes, i, hi, hfree⟩ := h
  obtain ⟨k, hk, hfresh⟩ := firstUnused_spec (i := 0) ⟨i, hi, by rwa [Nat.zero_add]⟩
  rw [generateUniqueCode, hk]
  exact ⟨hcodes k, hfresh⟩

theorem removeFirst_some {α : Type*} {p : α → Bool} : ∀ {l rest : List α} {a : α}, removeFirst p l = some (a, rest) →
    ∃ before after, l = before ++ a :: after ∧ rest = before ++ after
  | b :: l, rest, a, h => by
    rw [removeFirst] at h
    split at h
    · obtain ⟨rfl, rfl⟩ := Prod.mk.inj (Option.some.inj h)
      exact ⟨[], l, rfl, rfl⟩
    · obtain ⟨⟨a', rest'⟩, hr, heq⟩ := Option.map_eq_some_iff.mp h
      obtain ⟨rfl, rfl⟩ := Prod.mk.inj heq
      obtain ⟨before, after, rfl, rfl⟩ := removeFirst_some hr
      exact ⟨b :: before, after, rfl, rfl⟩

/-- The element that is found, replaced where it stands. -/
theorem set_findIdx {α : Type*} {p : α → Bool} {l : List α} {a : α} (h : l.find? p = some a) :
    ∃ before after, l = before ++ a :: after ∧ ∀ b, l.set (l.findIdx p) b = before ++ b :: after := by
  obtain ⟨hp, before, after, rfl, hbefore⟩ := List.find?_eq_some_iff_append.mp h
  have hidx : (before ++ a :: after).findIdx p = before.length := by
    rw [List.findIdx_append, if_neg, List.findIdx_cons, hp, cond_true, Nat.zero_add]
    exact fun hlt => absurd (List.findIdx_lt_length.mp hlt) (by simpa using hbefore)
  refine ⟨before, after, rfl, fun b => ?_⟩
  rw [hidx, List.set_append_right _ _ (Nat.le_refl _), Nat.sub_self, List.set_cons_zero]

variable (cm channel) in
/-- The outcomes of `upsert_request`: nothing changes, a request is seen again, or one is added. -/
theorem stored_upsertRequest (now : Nat) (rng : Rng) (id : Str) (metadata : Option μ) (s : Files μ) :
    stored (upsertRequest cm channel now rng id metadata s).2 = stored s ∨
    (∃ before req after, unexpired now s = before ++ req :: after ∧ req.id = trim id ∧
      stored (upsertRequest cm channel now rng id metadata s).2 = before ++ seenAgain now
        (if req.code.isEmpty then generateUniqueCode rng ((unexpired now s).map fun r => cm.upper r.code) else req.code)
        metadata req :: after) ∨
    ((∀ r ∈ unexpired now s, r.id ≠ trim id) ∧ (unexpired now s).length < PAIRING_PENDING_MAX ∧
      stored (upsertRequest cm channel now rng id metadata s).2 = unexpired now s ++
        [⟨trim id, generateUniqueCode rng ((unexpired now s).map fun r => cm.upper r.code), now, now, metadata⟩]) := by
  have hcreate : unexpired now { s with pairing := s.pairing.create } = unexpired now s := by
    rw [unexpired, unexpired, File.get_create]
  unfold upsertRequest
  split
  · exact .inl rfl
  simp only [hcreate]
  split
  · exact .inl (File.get_create [] s.pairing)
  split
  next req hreq =>
    obtain ⟨before, after, hsplit, hset⟩ := set_findIdx hreq
    have hid := (List.find?_eq_some_iff_append.mp hreq).1
    exact .inr (.inl ⟨before, req, after, hsplit, beq_iff_eq.mp hid, hset _⟩)
  next hnone =>
    split
    · exact .inl (File.get_create [] s.pairing)
    next hroom =>
      refine .inr (.inr ⟨fun r hr heq => ?_, Nat.not_le.mp hroom, rfl⟩)
      exact List.find?_eq_none.mp hnone r hr (beq_iff_eq.mpr heq)

variable (cm channel) in
theorem stored_listPending (now : Nat) (s : Files μ) :
    stored (listPending cm channel now s).2 = stored s ∨ stored (listPending cm channel now s).2 = unexpired now s := by
  unfold listPending
  split
  · exact .inl rfl
  simp only
  split
  · exact .inr rfl
  · exact .inl rfl

variable (cm channel) in
/-- `approve` takes one pending request out of the file, the one it returns, or changes nothing. -/
theorem stored_approve (now : Nat) (code : Str) (s : Files μ) :
    stored (approve cm channel now code s).2 = stored s ∨
    ∃ before entry after, unexpired now s = before ++ entry :: after ∧
      stored (approve cm channel now code s).2 = before ++ after ∧
      (approve cm channel now code s).1 = .ok (some entry) := by
  unfold approve
  split
  · exact .inl rfl
  split
  · exact .inl rfl
  · exact .inl rfl
  next hlimit =>
    split
    · exact .inl rfl
    split
    · left
      unfold recordFailedApprove
      cases safeChannelKey cm channel <;> rfl
    next entry rest hpending =>
      obtain ⟨before, after, hsplit, hrest⟩ := removeFirst_some hpending
      refine .inr ⟨before, entry, after, hsplit, ?_⟩
      -- the channel has a key, since the limit was looked up
      cases hkey : safeChannelKey cm channel with
      | error e => simp [isApproveRateLimited, hkey] at hlimit
      | ok key =>
        have hadd : ∃ s', addAllowFrom cm channel entry.id { s with pairing := .json rest } = (.ok (), s') ∧
            stored s' = rest := by
          simp only [addAllowFrom, hkey]
          split
          · exact ⟨_, rfl, rfl⟩
          · split
            · exact ⟨_, rfl, rfl⟩
            · exact ⟨_, rfl, rfl⟩
        obtain ⟨s', hs', hstored⟩ := hadd
        rw [hs']
        exact ⟨hstored.trans hrest, rfl⟩

/-! ## The invariant of the file -/

theorem PendingInv.sublist {requests requests' : List (PairingRequest μ)} (h : PendingInv cm requests)
    (hsub : requests'.Sublist requests) : PendingInv cm requests' where
  atMost := hsub.length_le.trans h.atMost
  ids := h.ids.sublist (hsub.map _)
  codes := h.codes.sublist (hsub.map _)
  drawn r hr := h.drawn r (hsub.subset hr)

theorem unexpired_sublist (now : Nat) (s : Files μ) : (unexpired now s).Sublist (stored s) := List.filter_sublist

/-- A pending request that is seen again keeps its id and its code. -/
theorem PendingInv.seenAgain {before after : List (PairingRequest μ)} {req : PairingRequest μ} {code : Str} {now : Nat}
    {metadata : Option μ} (h : PendingInv cm (before ++ req :: after)) :
    PendingInv cm (before ++ seenAgain now (if req.code.isEmpty then code else req.code) metadata req :: after) := by
  have hcode : (if req.code.isEmpty then code else req.code) = req.code := by
    rw [(h.drawn req (List.mem_append_right _ List.mem_cons_self)).ne_nil, if_neg Bool.false_ne_true]
  rw [hcode]
  refine ⟨?_, ?_, ?_, fun r hr => ?_⟩
  · have := h.atMost
    rwa [List.length_append, List.length_cons] at this ⊢
  · have := h.ids
    rwa [List.map_append, List.map_cons] at this ⊢
  · have := h.codes
    rwa [List.map_append, List.map_cons] at this ⊢
  · rcases List.mem_append.mp hr with hr | hr
    · exact h.drawn r (List.mem_append_left _ hr)
    · rcases List.mem_cons.mp hr with rfl | hr
      · exact h.drawn req (List.mem_append_right _ List.mem_cons_self)
      · exact h.drawn r (List.mem_append_right _ (List.mem_cons_of_mem _ hr))

theorem PendingInv.add {requests : List (PairingRequest μ)} {req : PairingRequest μ} (h : PendingInv cm requests)
    (hroom : requests.length < PAIRING_PENDING_MAX) (hid : ∀ r ∈ requests, r.id ≠ req.id) (hcode : IsCode req.code)
    (hfresh : cm.upper req.code ∉ requests.map fun r => cm.upper r.code) : PendingInv cm (requests ++ [req]) where
  atMost := by
    rw [List.length_append, List.length_singleton]
    exact hroom
  ids := by
    rw [List.map_append, List.map_singleton, List.nodup_append_comm, List.singleton_append, List.nodup_cons]
    refine ⟨fun hmem => ?_, h.ids⟩
    obtain ⟨r, hr, heq⟩ := List.mem_map.mp hmem
    exact hid r hr heq
  codes := by
    rw [List.map_append, List.map_singleton, List.nodup_append_comm, List.singleton_append, List.nodup_cons]
    exact ⟨hfresh, h.codes⟩
  drawn r hr := by
    rcases List.mem_append.mp hr with hr | hr
    · exact h.drawn r hr
    · exact List.mem_singleton.mp hr ▸ hcode

variable (channel) in
theorem pendingInv_step (hupper : KeepsCapitals cm) (s : Files μ) (op : Op μ) (hfresh : DrawsFresh cm s op)
    (h : PendingInv cm (stored s)) : PendingInv cm (stored (step cm channel s op)) := by
  cases op with
  | upsertRequest now rng id metadata =>
    have hpending := h.sublist (unexpired_sublist now s)
    rcases stored_upsertRequest cm channel now rng id metadata s with
      heq | ⟨before, req, after, hsplit, -, heq⟩ | ⟨hid, hroom, heq⟩
    · rw [step, heq]
      exact h
    · rw [step, heq]
      rw [hsplit] at hpending
      exact hpending.seenAgain
    · obtain ⟨hcode, hnew⟩ := generateUniqueCode_spec hfresh
      rw [step, heq]
      refine hpending.add hroom hid hcode ?_
      rwa [hupper _ hcode.alphabet]
  | listPending now =>
    rcases stored_listPending cm channel now s with heq | heq
    · rw [step, heq]
      exact h
    · rw [step, heq]
      exact h.sublist (unexpired_sublist now s)
  | approve now code =>
    rcases stored_approve cm channel now code s with heq | ⟨before, entry, after, hsplit, heq, -⟩
    · rw [step, heq]
      exact h
    · have hpending := h.sublist (unexpired_sublist now s)
      rw [hsplit] at hpending
      rw [step, heq]
      exact hpending.sublist ((List.Sublist.refl before).append (List.sublist_cons_self entry after))
  | isSenderAllowed id username => exact h

/-! ## Requests that keep their code -/

/-- The time of an operation. -/
def Op.now : Op μ → Option Nat
  | .upsertRequest now _ _ _ => some now
  | .listPending now => some now
  | .approve now _ => some now
  | .isSenderAllowed _ _ => none

/-- Another state of a request: what it was given is the same. -/
structure SameRequest (r r' : PairingRequest μ) : Prop where
  id : r'.id = r.id
  code : r'.code = r.code
  createdAt : r'.createdAt = r.createdAt

/-- The request is in the pairing file. -/
def Waits (r : PairingRequest μ) (s : Files μ) : Prop := ∃ r' ∈ stored s, SameRequest r r'

variable (cm channel) in
/-- The operation approves the request. -/
def ApprovesRequest (r : PairingRequest μ) (s : Files μ) : Op μ → Prop
  | .approve now code => ∃ entry, (approve cm channel now code s).1 = .ok (some entry) ∧ SameRequest r entry
  | _ => False

variable (cm channel) in
/-- The request has not expired when the operation runs, and is not approved by it. -/
def Leaves (r : PairingRequest μ) (s : Files μ) (op : Op μ) : Prop :=
  (∀ now ∈ op.now, isExpired r now = false) ∧ ¬ApprovesRequest cm channel r s op

theorem mem_unexpired {r r' : PairingRequest μ} {s : Files μ} {now : Nat} (hr' : r' ∈ stored s)
    (hsame : SameRequest r r')
    (hexp : isExpired r now = false) : r' ∈ unexpired now s := by
  refine List.mem_filter.mpr ⟨hr', ?_⟩
  rw [isExpired, hsame.createdAt]
  rw [isExpired] at hexp
  rw [hexp]
  rfl

theorem waits_step {r : PairingRequest μ} {s : Files μ} {op : Op μ} (hinv : PendingInv cm (stored s))
    (hleaves : Leaves cm channel r s op) (h : Waits r s) : Waits r (step cm channel s op) := by
  obtain ⟨r', hr', hsame⟩ := h
  obtain ⟨hexp, happ⟩ := hleaves
  cases op with
  | upsertRequest now rng id metadata =>
    have hpending := mem_unexpired hr' hsame (hexp now rfl)
    rcases stored_upsertRequest cm channel now rng id metadata s with
      heq | ⟨before, req, after, hsplit, -, heq⟩ | ⟨-, -, heq⟩
    · exact ⟨r', by rw [step, heq]; exact hr', hsame⟩
    · rw [Waits, step, heq]
      rw [hsplit] at hpending
      rcases List.mem_append.mp hpending with hmem | hmem
      · exact ⟨r', List.mem_append_left _ hmem, hsame⟩
      · rcases List.mem_cons.mp hmem with rfl | hmem
        · refine ⟨_, List.mem_append_right _ List.mem_cons_self, hsame.id, ?_, hsame.createdAt⟩
          rw [(hinv.drawn _ hr').ne_nil, if_neg Bool.false_ne_true]
          exact hsame.code
        · exact ⟨r', List.mem_append_right _ (List.mem_cons_of_mem _ hmem), hsame⟩
    · rw [Waits, step, heq]
      exact ⟨r', List.mem_append_left _ hpending, hsame⟩
  | listPending now =>
    have hpending := mem_unexpired hr' hsame (hexp now rfl)
    rcases stored_listPending cm channel now s with heq | heq
    · exact ⟨r', by rw [step, heq]; exact hr', hsame⟩
    · exact ⟨r', by rw [step, heq]; exact hpending, hsame⟩
  | approve now code =>
    have hpending := mem_unexpired hr' hsame (hexp now rfl)
    rcases stored_approve cm channel now code s with heq | ⟨before, entry, after, hsplit, heq, hresult⟩
    · exact ⟨r', by rw [step, heq]; exact hr', hsame⟩
    · rw [Waits, step, heq]
      rw [hsplit] at hpending
      rcases List.mem_append.mp hpending with hmem | hmem
      · exact ⟨r', List.mem_append_left _ hmem, hsame⟩
      · rcases List.mem_cons.mp hmem with rfl | hmem
        · exact absurd ⟨r', hresult, hsame⟩ happ
        · exact ⟨r', List.mem_append_right _ hmem, hsame⟩
  | isSenderAllowed id username => exact ⟨r', hr', hsame⟩

/-! ## Wrong codes -/

variable (cm channel) in
/-- The time of an approval whose code is compared with the pending requests and is not that of one. -/
def wrongCode (s : Files μ) : Op μ → Option Nat
  | .approve now code =>
    if (cm.upper (trim code)).isEmpty = false ∧ isApproveRateLimited cm channel now s = .ok false ∧
        s.pairing.isMissing = false ∧ (pendingFor cm now code s).isNone then some now
    else none
  | _ => none

variable (cm channel) in
/-- The times of these approvals in a run. -/
def wrongCodes : Files μ → List (Op μ) → List Nat
  | _, [] => []
  | s, op :: ops => (wrongCode cm channel s op).toList ++ wrongCodes (step cm channel s op) ops

/-- The attempts file knows the wrong codes that still count, and no window has too many of them. -/
structure Attempts (s : Files μ) (seen : List Nat) (last : Nat) : Prop where
  logged : ∀ now, last ≤ now → recentFailures now (s.approveAttempts.get []) = recentFailures now seen
  bounded : ∀ start, (inWindow PAIRING_APPROVE_RATE_WINDOW_SECS start seen).length ≤ PAIRING_APPROVE_RATE_LIMIT

theorem attempts_upsertRequest (now : Nat) (rng : Rng) (id : Str) (metadata : Option μ) (s : Files μ) :
    (upsertRequest cm channel now rng id metadata s).2.approveAttempts = s.approveAttempts := by
  unfold upsertRequest
  split
  · rfl
  simp only
  split
  · rfl
  split
  · rfl
  split <;> rfl

theorem attempts_listPending (now : Nat) (s : Files μ) :
    (listPending cm channel now s).2.approveAttempts = s.approveAttempts := by
  unfold listPending
  split
  · rfl
  simp only
  split <;> rfl

variable (cm channel) in
theorem attempts_addAllowFrom (entry : Str) (s : Files μ) :
    (addAllowFrom cm channel entry s).2.approveAttempts = s.approveAttempts := by
  unfold addAllowFrom
  simp only
  split
  · rfl
  split
  · rfl
  split <;> rfl

variable (cm channel) in
/-- An approval records a wrong code it compared, and nothing else. -/
theorem attempts_approve (now : Nat) (code : Str) (s : Files μ) :
    (wrongCode cm channel s (.approve now code) = none ∧
      (approve cm channel now code s).2.approveAttempts = s.approveAttempts) ∨
    (wrongCode cm channel s (.approve now code) = some now ∧
      (recentFailures now (s.approveAttempts.get [])).length < PAIRING_APPROVE_RATE_LIMIT ∧
      (approve cm channel now code s).2.approveAttempts =
        .json (recentFailures now (s.approveAttempts.get [] ++ [now]))) := by
  unfold approve
  split
  next hempty => exact .inl ⟨if_neg fun h => absurd (hempty.symm.trans h.1) (by decide), rfl⟩
  next hcode =>
    split
    next hlimit => exact .inl ⟨if_neg fun h => absurd (hlimit.symm.trans h.2.1) (by simp), rfl⟩
    next hlimit => exact .inl ⟨if_neg fun h => absurd (hlimit.symm.trans h.2.1) (by simp), rfl⟩
    next hlimit =>
      split
      next hmissing => exact .inl ⟨if_neg fun h => absurd (hmissing.symm.trans h.2.2.1) (by decide), rfl⟩
      next hfile =>
        cases hkey : safeChannelKey cm channel with
        | error e => simp [isApproveRateLimited, hkey] at hlimit
        | ok key =>
          have hroom : (recentFailures now (s.approveAttempts.get [])).length < PAIRING_APPROVE_RATE_LIMIT := by
            simpa [isApproveRateLimited, hkey] using hlimit
          split
          next hpending =>
            have hnone : (pendingFor cm now code s).isNone = true := by
              rw [hpending]
              rfl
            refine .inr ⟨if_pos ⟨Bool.eq_false_iff.mpr hcode, hlimit, Bool.eq_false_iff.mpr hfile, hnone⟩, hroom, ?_⟩
            simp only [recordFailedApprove, hkey]
          next entry rest hpending =>
            refine .inl ⟨if_neg fun h => ?_, ?_⟩
            · rw [hpending] at h
              cases h.2.2.2
            · have hadd := attempts_addAllowFrom cm channel entry.id { s with pairing := .json rest }
              split
              next heq => rw [← hadd, heq]
              next heq => rw [← hadd, heq]

variable (cm channel) in
theorem attempts_step {s : Files μ} {seen : List Nat} {last now : Nat} {op : Op μ} (h : Attempts s seen last)
    (hlast : last ≤ now) (hnow : ∀ t ∈ op.now, t = now) :
    Attempts (step cm channel s op) (seen ++ (wrongCode cm channel s op).toList) now := by
  have hsame : ∀ {s' : Files μ}, s'.approveAttempts = s.approveAttempts → Attempts s' (seen ++ []) now := by
    intro s' heq
    rw [List.append_nil]
    exact ⟨fun later hlater => by rw [heq]; exact h.logged later (hlast.trans hlater), h.bounded⟩
  cases op with
  | upsertRequest t rng id metadata => exact hsame (attempts_upsertRequest t rng id metadata s)
  | listPending t => exact hsame (attempts_listPending t s)
  | isSenderAllowed id username => exact hsame rfl
  | approve t code =>
    obtain rfl : t = now := hnow t rfl
    rcases attempts_approve cm channel t code s with ⟨hwrong, heq⟩ | ⟨hwrong, hroom, heq⟩
    · rw [hwrong]
      exact hsame heq
    · rw [hwrong]
      constructor
      · intro later hlater
        -- what was dropped as too old does not count later either
        have hlog := h.logged later (hlast.trans hlater)
        have hstored : ((step cm channel s (.approve t code)).approveAttempts.get []) =
            recentFailures t (s.approveAttempts.get [] ++ [t]) := by rw [step, heq, File.get]
        have hkept := recent_recent PAIRING_APPROVE_RATE_WINDOW_SECS hlater (s.approveAttempts.get [] ++ [t])
        calc recentFailures later ((step cm channel s (.approve t code)).approveAttempts.get [])
            = recentFailures later (s.approveAttempts.get [] ++ [t]) := by rw [hstored]; exact hkept
          _ = recentFailures later (s.approveAttempts.get []) ++ recentFailures later [t] := List.filter_append _ _
          _ = recentFailures later (seen ++ [t]) := by rw [hlog]; exact (List.filter_append _ _).symm
      · rw [h.logged t hlast] at hroom
        exact inWindow_concat_le PAIRING_APPROVE_RATE_WINDOW_SECS h.bounded hroom

variable (cm channel) in
/-- Along a run at times that do not go back. -/
theorem attempts_run : ∀ {ops : List (Op μ)} {s : Files μ} {seen : List Nat} {last : Nat}, Attempts s seen last →
    (∀ t ∈ ops.filterMap Op.now, last ≤ t) → (ops.filterMap Op.now).Pairwise (· ≤ ·) →
      ∃ last', Attempts (run (step cm channel) s ops) (seen ++ wrongCodes cm channel s ops) last'
  | [], _, seen, last, h, _, _ => ⟨last, by rw [wrongCodes, List.append_nil]; exact h⟩
  | op :: ops, s, seen, last, h, hlast, hsorted => by
    obtain ⟨now, hnow, hle, hrest, hlater⟩ : ∃ now, (∀ t ∈ op.now, t = now) ∧ last ≤ now ∧
        (∀ t ∈ ops.filterMap Op.now, now ≤ t) ∧ (ops.filterMap Op.now).Pairwise (· ≤ ·) := by
      cases htime : op.now with
      | none =>
        rw [List.filterMap_cons_none htime] at hlast hsorted
        exact ⟨last, fun t ht => (by cases ht), Nat.le_refl last, hlast, hsorted⟩
      | some t =>
        rw [List.filterMap_cons_some htime] at hlast hsorted
        obtain ⟨hfirst, hsorted⟩ := List.pairwise_cons.mp hsorted
        exact ⟨t, fun t' ht' => (Option.some.inj ht').symm, hlast t List.mem_cons_self, hfirst, hsorted⟩
    have ih := attempts_run (attempts_step cm channel h hle hnow) hrest hlater
    rwa [List.append_assoc] at ih

/-! ## Every run -/

variable (cm channel)

/-- What holds of a channel after the operations. -/
structure PendingLaw (ops : List (Op μ)) : Prop where
  atMost : ∀ now, (unexpired now (run (step cm channel) (Files.fresh μ) ops)).length ≤ PAIRING_PENDING_MAX
  ids : ((stored (run (step cm channel) (Files.fresh μ) ops)).map PairingRequest.id).Nodup
  codes : ((stored (run (step cm channel) (Files.fresh μ) ops)).map fun r => cm.upper r.code).Nodup
  /-- A request that was in the file keeps its code until it expires or is approved. -/
  keepsCode : ∀ pre post r, ops = pre ++ post → r ∈ stored (run (step cm channel) (Files.fresh μ) pre) →
    Along (step cm channel) (Leaves cm channel r) (run (step cm channel) (Files.fresh μ) pre) post →
      Waits r (run (step cm channel) (Files.fresh μ) ops)
  wrongCodes : ∀ start, (inWindow PAIRING_APPROVE_RATE_WINDOW_SECS start
    (wrongCodes cm channel (Files.fresh μ) ops)).length ≤ PAIRING_APPROVE_RATE_LIMIT

/-- **Pending requests.** In every run of a channel at times that do not go back: the file holds few requests, each of
another sender and with another code, a request keeps its code until it expires or is approved, and no window of the
rate limit has more wrong codes than the limit. -/
theorem pending_requests (hupper : KeepsCapitals cm) (ops : List (Op μ))
    (htimes : (ops.filterMap Op.now).Pairwise (· ≤ ·))
    (hdraws : Along (step cm channel) (DrawsFresh cm) (Files.fresh μ) ops) : PendingLaw cm channel ops := by
  have hfresh : PendingInv cm (stored (Files.fresh μ)) :=
    ⟨Nat.zero_le _, List.nodup_nil, List.nodup_nil, fun r hr => by cases hr⟩
  have hkept := fun (s : Files μ) op hdraw (h : PendingInv cm (stored s)) => pendingInv_step channel hupper s op hdraw h
  have hinv := run_inv hkept ops hfresh hdraws
  refine ⟨fun now => (unexpired_sublist now _).length_le.trans hinv.atMost, hinv.ids, hinv.codes, ?_, ?_⟩
  · rintro pre post r rfl hr hleaves
    obtain ⟨hpre, hpost⟩ := (along_append pre (Files.fresh μ) post).mp hdraws
    have hboth := along_and hpost hleaves
    rw [run_append]
    exact (run_inv (I := fun s => PendingInv cm (stored s) ∧ Waits r s)
      (fun s op hg hs => ⟨hkept s op hg.1 hs.1, waits_step hs.1 hg.2 hs.2⟩) post
      ⟨run_inv hkept pre hfresh hpre, r, hr, rfl, rfl, rfl⟩ hboth).2
  · have hstart : Attempts (Files.fresh μ) [] 0 := ⟨fun _ _ => rfl, fun _ => Nat.zero_le _⟩
    obtain ⟨last, hend⟩ := attempts_run cm channel hstart (fun t _ => Nat.zero_le t) htimes
    exact hend.bounded

end Pending

theorem keepsCapitals_asciiCase : KeepsCapitals asciiCase := by
  intro s hs
  have hall : PAIRING_ALPHABET.all (fun c => asciiUpper c == c) = true := by decide
  have hcapital : ∀ c ∈ PAIRING_ALPHABET, asciiUpper c = c := fun c hc => eq_of_beq (List.all_eq_true.mp hall c hc)
  have hmap : s.map asciiUpper = s.map id := List.map_congr_left fun c hc => hcapital c (hs c hc)
  exact hmap.trans (List.map_id s)

/-- Two senders ask, one of them twice, and a wrong code is tried. -/
def twoSenders : List (Op Unit) :=
  [.upsertRequest 5 ⟨fun _ => "ABCD2345".toList, []⟩ "alice".toList none,
    .upsertRequest 6 ⟨fun _ => "EFGH6789".toList, []⟩ "bob".toList none, .approve 7 "WRONG222".toList,
    .upsertRequest 8 ⟨fun _ => "JKLM2345".toList, []⟩ "alice".toList none, .listPending 9]

theorem pending_requests_twoSenders : PendingLaw asciiCase "telegram".toList twoSenders := by
  have hcode : IsCode "ABCD2345".toList ∧ IsCode "EFGH6789".toList ∧ IsCode "JKLM2345".toList :=
    ⟨isCode_of_all (by decide) (by decide), isCode_of_all (by decide) (by decide),
      isCode_of_all (by decide) (by decide)⟩
  refine pending_requests asciiCase "telegram".toList keepsCapitals_asciiCase twoSenders (by decide) ?_
  refine ⟨⟨fun _ => hcode.1, 0, by decide, by decide⟩, ⟨fun _ => hcode.2.1, 0, by decide, by decide⟩, trivial,
    ⟨fun _ => hcode.2.2, 0, by decide, by decide⟩, trivial, trivial⟩

end Ironclaw.Pairing

import Ironclaw.Pairing.Store

/-!
# Approved senders

`approve` writes the `allowFrom` file through `add_allow_from`, which truncates the file when it opens it. So a
successful approval leaves exactly the approved sender on the list (`approve_cases`), and a sender stays on it only
while the approvals that follow are of the same sender (`KeepsApproved`). Every run whose approvals are so keeps every
approved sender (`approved_stay`); two approvals of different senders lose the first (`second_approval_drops_first`).
-/

namespace Ironclaw.Pairing

open Text Run

variable {cm : CaseMap} {channel : Str} {μ : Type}

/-- The sender is on the `allowFrom` list. -/
def Listed (id : Str) (s : Files μ) : Prop := ∃ e ∈ s.allowFrom.get [], trim e = trim id

/-- Senders on the list are allowed. -/
theorem isSenderAllowed_of_listed {id : Str} {s : Files μ} {key : Str} (hkey : safeChannelKey cm channel = .ok key)
    (h : Listed id s) : isSenderAllowed cm channel id none s = .ok true := by
  obtain ⟨e, he, heq⟩ := h
  have hany : ((s.allowFrom.get []).any fun e => trim e == trim id) = true :=
    List.any_eq_true.mpr ⟨e, he, by simp [heq]⟩
  simp only [isSenderAllowed, readAllowFrom, hkey, hany, if_true]

/-! ## What the operations do to the list -/

/-- `add_allow_from` leaves the entry alone on the list. -/
theorem addAllowFrom_ok {entry : Str} {s s' : Files μ} (h : addAllowFrom cm channel entry s = (.ok (), s')) :
    (trim entry = [] ∧ s' = s) ∨ (trim entry ≠ [] ∧ s'.allowFrom = .json [trim entry]) := by
  unfold addAllowFrom at h
  by_cases hb : trim entry = []
  · simp only [hb, List.isEmpty_nil, if_true, Prod.mk.injEq, true_and] at h
    exact .inl ⟨hb, h.symm⟩
  · refine .inr ⟨hb, ?_⟩
    cases hkey : safeChannelKey cm channel with
    | error e => simp [hb, hkey] at h
    | ok key =>
      simp only [List.isEmpty_iff, hb, if_false, hkey, File.truncate, File.get, List.any_nil,
        Bool.false_eq_true, List.nil_append, Prod.mk.injEq, true_and] at h
      rw [← h]

/-- An entry `add_allow_from` refuses leaves the list as it was. -/
theorem addAllowFrom_error {entry : Str} {s s' : Files μ} {e : PairingStoreError}
    (h : addAllowFrom cm channel entry s = (.error e, s')) : s' = s := by
  unfold addAllowFrom at h
  simp only at h
  split at h
  · simp at h
  · split at h
    · simp only [Prod.mk.injEq] at h; exact h.2.symm
    · split at h <;> simp at h

/-- Only a successful approval changes the list, and it leaves the approved sender alone on it. -/
theorem approve_cases (cm : CaseMap) (channel : Str) (now : Nat) (code : Str) (s : Files μ) :
    ((approve cm channel now code s).2.allowFrom = s.allowFrom ∧
      ∀ entry, (approve cm channel now code s).1 ≠ .ok (some entry)) ∨
    ∃ entry rest, pendingFor cm now code s = some (entry, rest) ∧
      (approve cm channel now code s).1 = .ok (some entry) ∧
      ((trim entry.id = [] ∧ (approve cm channel now code s).2.allowFrom = s.allowFrom) ∨
        (trim entry.id ≠ [] ∧ (approve cm channel now code s).2.allowFrom = .json [trim entry.id])) := by
  unfold approve
  split
  · simp
  split
  · simp
  · simp
  split
  · simp
  split
  · -- no request has the code: the failure is recorded
    unfold recordFailedApprove
    cases safeChannelKey cm channel <;> simp
  · rename_i entry rest hp
    cases hadd : addAllowFrom cm channel entry.id { s with pairing := .json rest } with
    | mk r s' =>
      cases r with
      | error e => simp [addAllowFrom_error hadd]
      | ok u =>
        refine .inr ⟨entry, rest, hp, rfl, ?_⟩
        rcases addAllowFrom_ok hadd with ⟨hb, rfl⟩ | ⟨hb, hl⟩
        · exact .inl ⟨hb, rfl⟩
        · exact .inr ⟨hb, hl⟩

theorem allowFrom_upsertRequest (now : Nat) (rng : Rng) (id : Str) (metadata : Option μ) (s : Files μ) :
    (upsertRequest cm channel now rng id metadata s).2.allowFrom = s.allowFrom := by
  unfold upsertRequest
  split
  · rfl
  simp only
  split
  · rfl
  split
  · rfl
  split <;> rfl

theorem allowFrom_listPending (now : Nat) (s : Files μ) :
    (listPending cm channel now s).2.allowFrom = s.allowFrom := by
  unfold listPending
  split
  · rfl
  simp only
  split <;> rfl

/-- A channel on which an approval succeeded has a key. -/
theorem key_of_approve {now : Nat} {code : Str} {s : Files μ} {entry : PairingRequest μ}
    (h : (approve cm channel now code s).1 = .ok (some entry)) : ∃ key, safeChannelKey cm channel = .ok key := by
  cases hkey : safeChannelKey cm channel with
  | ok key => exact ⟨key, rfl⟩
  | error e =>
    unfold approve at h
    split at h
    · simp at h
    · simp [isApproveRateLimited, hkey] at h

/-! ## Runs that keep every approved sender -/

/-- The request that is about to be approved has a non-blank id, and every entry of the list is its sender's. -/
def Uncontested (s : Files μ) : Option (PairingRequest μ × List (PairingRequest μ)) → Prop
  | none => True
  | some (entry, _) => trim entry.id ≠ [] ∧ ∀ e ∈ s.allowFrom.get [], trim e = trim entry.id

/-- The step approves no sender while another one is on the list. -/
def KeepsApproved (cm : CaseMap) (s : Files μ) : Op μ → Prop
  | .approve now code => Uncontested s (pendingFor cm now code s)
  | _ => True

instance (s : Files μ) : ∀ p, Decidable (Uncontested s p)
  | none => .isTrue trivial
  | some (_, _) => instDecidableAnd

instance (s : Files μ) : ∀ op : Op μ, Decidable (KeepsApproved cm s op)
  | .approve _ _ => inferInstanceAs (Decidable (Uncontested _ _))
  | .upsertRequest .. | .listPending _ | .isSenderAllowed .. => .isTrue trivial

theorem KeepsApproved.entry {s : Files μ} {now : Nat} {code : Str} {entry : PairingRequest μ}
    {rest : List (PairingRequest μ)} (h : KeepsApproved cm s (.approve now code))
    (hp : pendingFor cm now code s = some (entry, rest)) :
    trim entry.id ≠ [] ∧ ∀ e ∈ s.allowFrom.get [], trim e = trim entry.id := by
  simpa only [KeepsApproved, hp, Uncontested] using h

/-- A step that keeps approved senders keeps a listed sender listed. -/
theorem listed_step {id : Str} {s : Files μ} {op : Op μ} (hk : KeepsApproved cm s op) (h : Listed id s) :
    Listed id (step cm channel s op) := by
  unfold Listed at h ⊢
  cases op with
  | upsertRequest now rng id metadata => simpa only [step, allowFrom_upsertRequest] using h
  | listPending now => simpa only [step, allowFrom_listPending] using h
  | isSenderAllowed id username => exact h
  | approve now code =>
    rcases approve_cases cm channel now code s with ⟨hl, _⟩ | ⟨entry, rest, hp, _, ⟨_, hl⟩ | ⟨_, hl⟩⟩
    · simpa only [step, hl] using h
    · simpa only [step, hl] using h
    · obtain ⟨e, he, heq⟩ := h
      have hsame := (hk.entry hp).2 e he
      simp only [step, hl, File.get, List.mem_singleton, exists_eq_left]
      rw [trim_trim, ← hsame, heq]

/-- The approved sender is listed right after the approval. -/
theorem listed_approve {now : Nat} {code : Str} {s : Files μ} {entry : PairingRequest μ}
    (hk : KeepsApproved cm s (.approve now code))
    (h : (approve cm channel now code s).1 = .ok (some entry)) :
    Listed entry.id (step cm channel s (.approve now code)) := by
  rcases approve_cases cm channel now code s with ⟨_, hno⟩ | ⟨entry', rest, hp, hr, hl⟩
  · exact absurd h (hno entry)
  · obtain rfl : entry' = entry := by simpa [hr] using h
    rcases hl with ⟨hb, _⟩ | ⟨_, hl⟩
    · exact absurd hb (hk.entry hp).1
    · simp only [Listed, step, hl, File.get, List.mem_singleton, exists_eq_left, trim_trim]

/-- Every sender approved during the run is allowed at its end. -/
def ApprovedStay (cm : CaseMap) (channel : Str) (s : Files μ) (ops : List (Op μ)) : Prop :=
  ∀ pre now code post entry, ops = pre ++ .approve now code :: post →
    (approve cm channel now code (run (step cm channel) s pre)).1 = .ok (some entry) →
    isSenderAllowed cm channel entry.id none (run (step cm channel) s ops) = .ok true

/-- **Approved senders stay approved** in every run that approves no sender over another one. -/
theorem approved_stay (cm : CaseMap) (channel : Str) (s : Files μ) (ops : List (Op μ))
    (h : Along (step cm channel) (KeepsApproved cm) s ops) : ApprovedStay cm channel s ops := by
  rintro pre now code post entry rfl happ
  obtain ⟨key, hkey⟩ := key_of_approve happ
  obtain ⟨_, hk, hpost⟩ := (along_append pre s _).mp h
  have hlisted := listed_approve hk happ
  have hend := run_inv (fun _ _ => listed_step) post hlisted hpost
  rw [run_append]
  exact isSenderAllowed_of_listed hkey hend

/-- A request of `id` that draws the code `code`. -/
def request (now : Nat) (code id : String) : Op Unit := .upsertRequest now ⟨fun _ => code.toList, []⟩ id.toList none

/-- One sender, approved twice, with a look at the pending requests in between. -/
theorem approved_stay_one_sender :
    ApprovedStay asciiCase "telegram".toList (Files.fresh Unit)
      [request 5 "ABCD2345" "alice", .approve 6 "abcd2345".toList, .listPending 7,
        request 8 "EFGH6789" "alice", .approve 9 " EFGH6789".toList] :=
  approved_stay _ _ _ _ (by decide)

/-- Approving a second sender takes the first one off the list. -/
theorem second_approval_drops_first :
    ¬ ApprovedStay asciiCase "telegram".toList (Files.fresh Unit)
      [request 5 "ABCD2345" "alice", .approve 6 "ABCD2345".toList,
        request 7 "EFGH6789" "bob", .approve 8 "EFGH6789".toList] := by
  intro h
  have halice := h [request 5 "ABCD2345" "alice"] 6 "ABCD2345".toList
    [request 7 "EFGH6789" "bob", .approve 8 "EFGH6789".toList]
    ⟨"alice".toList, "ABCD2345".toList, 5, 5, none⟩ rfl (by decide)
  revert halice
  decide

end Ironclaw.Pairing

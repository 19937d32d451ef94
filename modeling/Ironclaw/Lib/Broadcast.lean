import Mathlib.Data.List.Basic
import Mathlib.Tactic

/-!
# Broadcast channels

Messages are sent to a channel that keeps the last `capacity` of them. A receiver has its own position; when the message
there is not kept any more, it is told how many messages it has missed and goes on with the oldest one that is kept.

- `Receiver.Ok.send`, `Receiver.Ok.recv`: what a receiver has received is kept by a send and by a `recv`;
- `Receiver.Ok.messages_sublist`: messages are received in the order in which they were sent, each at most once;
- `Receiver.Ok.messages_eq`: a receiver that was never too far behind has received all of them.
-/

namespace Ironclaw.Broadcast

variable {α : Type*}

/-- The answer of `recv`. -/
inductive Received (α : Type*)
  | value (message : α)
  | lagged (missed : Nat)
  | empty

/-- The message of an answer. -/
def Received.toList : Received α → List α
  | .value message => [message]
  | _ => []

/-- The position of the oldest message that is kept. -/
def oldest (capacity : Nat) (sent : List α) : Nat := sent.length - capacity

/-- A receiver: where it began, its position, and the positions of the messages that it has received. -/
structure Receiver where
  start : Nat
  next : Nat
  got : List Nat
  deriving DecidableEq

/-- A new receiver gets what is sent from now on. -/
def subscribe (sent : List α) : Receiver := ⟨sent.length, sent.length, []⟩

@[irreducible] def recv (capacity : Nat) (sent : List α) (r : Receiver) : Received α × Receiver :=
  if r.next < oldest capacity sent then
    (.lagged (oldest capacity sent - r.next), { r with next := oldest capacity sent })
  else
    match sent[r.next]? with
    | some message => (.value message, { r with next := r.next + 1, got := r.got ++ [r.next] })
    | none => (.empty, r)

namespace Receiver

/-- The messages that were received. -/
def messages (sent : List α) (r : Receiver) : List α := r.got.filterMap (sent[·]?)

/-- What a receiver has received: messages since its start, in order; what it has missed is not kept any more. -/
structure Ok (capacity : Nat) (sent : List α) (r : Receiver) : Prop where
  next_le : r.next ≤ sent.length
  inside : ∀ p ∈ r.got, r.start ≤ p ∧ p < r.next
  increasing : r.got.Pairwise (· < ·)
  missed : ∀ p, r.start ≤ p → p < r.next → p ∈ r.got ∨ p + capacity < sent.length

variable {capacity : Nat} {sent : List α} {r : Receiver}

theorem ok_subscribe (capacity : Nat) (sent : List α) : Ok capacity sent (subscribe sent) where
  next_le := le_refl _
  inside := nofun
  increasing := .nil
  missed _ hstart hnext := absurd (hstart.trans_lt hnext) (lt_irrefl _)

/-- More messages change nothing of what was received. -/
theorem Ok.send (h : r.Ok capacity sent) (message : α) : r.Ok capacity (sent ++ [message]) where
  next_le := by
    have := h.next_le
    simp only [List.length_append, List.length_singleton]
    omega
  inside := h.inside
  increasing := h.increasing
  missed p hstart hnext := by
    refine (h.missed p hstart hnext).imp_right fun hlost => ?_
    simp only [List.length_append, List.length_singleton]
    omega

theorem messages_send (h : r.Ok capacity sent) (message : α) : r.messages (sent ++ [message]) = r.messages sent := by
  refine List.filterMap_congr fun p hp => ?_
  exact List.getElem?_append_left ((h.inside p hp).2.trans_le h.next_le)

/-- What one `recv` does. -/
theorem recv_cases (capacity : Nat) (sent : List α) (r : Receiver) :
    (∃ missed, recv capacity sent r = (.lagged missed, { r with next := oldest capacity sent }) ∧
      r.next < oldest capacity sent) ∨
    (∃ message, recv capacity sent r = (.value message, { r with next := r.next + 1, got := r.got ++ [r.next] }) ∧
      sent[r.next]? = some message) ∨
    recv capacity sent r = (.empty, r) ∧ sent[r.next]? = none := by
  unfold recv
  split
  next hlag => exact .inl ⟨_, rfl, hlag⟩
  next =>
    split
    next message hmessage => exact .inr (.inl ⟨message, rfl, hmessage⟩)
    next hnone => exact .inr (.inr ⟨rfl, hnone⟩)

theorem Ok.recv (h : r.Ok capacity sent) (hstart : r.start ≤ r.next) :
    (Broadcast.recv capacity sent r).2.Ok capacity sent := by
  rcases recv_cases capacity sent r with ⟨missed, hrecv, hlag⟩ | ⟨message, hrecv, hmessage⟩ | ⟨hrecv, -⟩
  · rw [hrecv]
    refine ⟨Nat.sub_le _ _, fun p hp => ?_, h.increasing, fun p hfrom hto => ?_⟩
    · exact ⟨(h.inside p hp).1, (h.inside p hp).2.trans hlag⟩
    · by_cases hp : p < r.next
      · exact h.missed p hfrom hp
      · right
        simp only [oldest] at hto
        omega
  · rw [hrecv]
    have hlt : r.next < sent.length := (List.getElem?_eq_some_iff.mp hmessage).1
    refine ⟨hlt, fun p hp => ?_, List.pairwise_append.mpr ⟨h.increasing, List.pairwise_singleton _ _, ?_⟩,
      fun p hfrom hto => ?_⟩
    · rcases List.mem_append.mp hp with hp | hp
      · exact ⟨(h.inside p hp).1, (h.inside p hp).2.trans (Nat.lt_succ_self _)⟩
      · rw [List.mem_singleton.mp hp]
        exact ⟨hstart, Nat.lt_succ_self _⟩
    · intro p hp q hq
      rw [List.mem_singleton.mp hq]
      exact (h.inside p hp).2
    · rcases Nat.lt_succ_iff_lt_or_eq.mp hto with hp | rfl
      · exact (h.missed p hfrom hp).imp_left (List.mem_append_left _)
      · exact .inl (List.mem_append_right _ (List.mem_singleton_self _))
  · rwa [hrecv]

theorem start_le_recv (hstart : r.start ≤ r.next) :
    (Broadcast.recv capacity sent r).2.start ≤ (Broadcast.recv capacity sent r).2.next := by
  rcases recv_cases capacity sent r with ⟨missed, hrecv, hlag⟩ | ⟨message, hrecv, -⟩ | ⟨hrecv, -⟩ <;> rw [hrecv]
  · exact hstart.trans hlag.le
  · exact hstart.trans (Nat.le_succ _)
  · exact hstart

theorem start_recv (capacity : Nat) (sent : List α) (r : Receiver) :
    (Broadcast.recv capacity sent r).2.start = r.start := by
  rcases recv_cases capacity sent r with ⟨missed, hrecv, -⟩ | ⟨message, hrecv, -⟩ | ⟨hrecv, -⟩ <;> rw [hrecv]

/-- What a `recv` adds to the messages. -/
theorem messages_recv (capacity : Nat) (sent : List α) (r : Receiver) :
    (Broadcast.recv capacity sent r).2.messages sent =
      r.messages sent ++ (Broadcast.recv capacity sent r).1.toList := by
  rcases recv_cases capacity sent r with ⟨missed, hrecv, -⟩ | ⟨message, hrecv, hmessage⟩ | ⟨hrecv, -⟩ <;> rw [hrecv]
  · simp [messages, Received.toList]
  · simp [messages, Received.toList, hmessage]
  · simp [Received.toList]

/-! ## What was received -/

/-- Increasing positions from `n` on give a sublist of what follows there. -/
theorem filterMap_sublist : ∀ {got : List Nat} {n : Nat}, got.Pairwise (· < ·) → (∀ p ∈ got, n ≤ p) →
    (got.filterMap (sent[·]?)).Sublist (sent.drop n)
  | [], _, _, _ => List.nil_sublist _
  | p :: got, n, hsorted, hfrom => by
    obtain ⟨hp, hgot⟩ := List.pairwise_cons.mp hsorted
    have ih : (got.filterMap (sent[·]?)).Sublist (sent.drop (p + 1)) := filterMap_sublist hgot hp
    have hdrop : (sent.drop p).Sublist (sent.drop n) := by
      obtain ⟨k, rfl⟩ := Nat.exists_eq_add_of_le (hfrom p List.mem_cons_self)
      rw [← List.drop_drop]
      exact List.drop_sublist k _
    refine List.Sublist.trans ?_ hdrop
    cases hmessage : sent[p]? with
    | none =>
      rw [List.filterMap_cons_none hmessage]
      exact ih.trans (by rw [← List.drop_drop]; exact List.drop_sublist 1 _)
    | some message =>
      obtain ⟨hlt, rfl⟩ := List.getElem?_eq_some_iff.mp hmessage
      rw [List.filterMap_cons_some hmessage, List.drop_eq_getElem_cons hlt]
      exact ih.cons_cons _

/-- **In order, once**: the messages that were received are some of those that were sent since the start. -/
theorem Ok.messages_sublist (h : r.Ok capacity sent) : (r.messages sent).Sublist (sent.drop r.start) :=
  filterMap_sublist h.increasing fun p hp => (h.inside p hp).1

/-- A receiver has received all the messages up to its position. -/
def Full (r : Receiver) : Prop := ∀ p, r.start ≤ p → p < r.next → p ∈ r.got

theorem full_subscribe (sent : List α) : (subscribe sent).Full :=
  fun _ hstart hnext => absurd (hstart.trans_lt hnext) (lt_irrefl _)

/-- Nothing is missed while the message at the position is kept. -/
theorem Full.recv (h : r.Full) (hkept : sent.length ≤ r.next + capacity) :
    (Broadcast.recv capacity sent r).2.Full := by
  rcases recv_cases capacity sent r with ⟨missed, -, hlag⟩ | ⟨message, hrecv, -⟩ | ⟨hrecv, -⟩
  · rw [oldest] at hlag
    omega
  · rw [hrecv]
    intro p hfrom hto
    rcases Nat.lt_succ_iff_lt_or_eq.mp hto with hp | rfl
    · exact List.mem_append_left _ (h p hfrom hp)
    · exact List.mem_append_right _ (List.mem_singleton_self _)
  · rwa [hrecv]

theorem filterMap_range' : ∀ {len start : Nat}, start + len ≤ sent.length →
    (List.range' start len).filterMap (sent[·]?) = (sent.drop start).take len
  | 0, _, _ => by simp
  | len + 1, start, h => by
    have hlt : start < sent.length := by omega
    have ih := filterMap_range' (by omega : start + 1 + len ≤ sent.length)
    rw [List.range'_succ, List.filterMap_cons_some (List.getElem?_eq_getElem hlt), ih, List.drop_eq_getElem_cons hlt,
      List.take_succ_cons]

/-- **Nothing lost**: a receiver that has missed no message has received what was sent from its start to its
position. -/
theorem Ok.messages_eq (h : r.Ok capacity sent) (hstart : r.start ≤ r.next) (hfull : r.Full) :
    r.messages sent = (sent.drop r.start).take (r.next - r.start) := by
  have hgot : r.got = List.range' r.start (r.next - r.start) := by
    refine List.Perm.eq_of_pairwise (fun a b _ _ hab hba => absurd hab hba.asymm) h.increasing
      List.pairwise_lt_range' ?_
    refine (List.perm_ext_iff_of_nodup (h.increasing.imp Nat.ne_of_lt) List.nodup_range').mpr fun p => ?_
    rw [List.mem_range'_1]
    constructor
    · intro hp
      have := h.inside p hp
      omega
    · intro hp
      exact hfull p hp.1 (by omega)
  have hle := h.next_le
  rw [messages, hgot, filterMap_range' (by omega)]

end Receiver

/-- A member of a list in which one place was changed. -/
theorem mem_modify {β : Type*} {f : β → β} {n : Nat} {l : List β} {x : β} (h : x ∈ l.modify n f) :
    x ∈ l ∨ ∃ x' ∈ l[n]?, x = f x' := by
  obtain ⟨i, hi⟩ := List.mem_iff_getElem?.mp h
  rw [List.getElem?_modify] at hi
  obtain ⟨x', hx', hx⟩ := Option.map_eq_some_iff.mp hi
  split at hx
  next heq =>
    subst heq
    exact .inr ⟨x', hx', hx.symm⟩
  · exact .inl (hx ▸ List.mem_of_getElem? hx')

end Ironclaw.Broadcast

import Mathlib.Tactic

/-!
# Delivery of queued texts

Texts are accepted into a queue. A holder takes the whole queue as one batch, and then uses the batch or puts it back in
front; the queue may be discarded. A ledger keeps where the accepted texts are, by their numbers.

- `Batch.of_merge`: a batch of batches is made of the same texts;
- `Ledger.Ok.move`: a move after which nothing older is left behind keeps every text in one place, and the order of the
  use;
- `Ledger.Delivered.exactly_once`: what is not pending was used or discarded, once.
-/

namespace Ironclaw.Delivery

/-- How texts are put together: one text stays as it is, and putting together in two steps is the same as in one. -/
structure Joining (τ : Type) where
  join : List τ → τ
  join_singleton : ∀ t, join [t] = t
  join_join : ∀ ls : List (List τ), (∀ l ∈ ls, l ≠ []) → join (ls.map join) = join ls.flatten

/-- A text, and the numbers of the accepted texts that it is made of. -/
structure Batch (τ : Type) where
  text : τ
  parts : List Nat
  deriving DecidableEq

variable {τ : Type}

/-- The numbers of some batches. -/
def ids (bs : List (Batch τ)) : List Nat := bs.flatMap Batch.parts

@[simp] theorem ids_nil : ids ([] : List (Batch τ)) = [] := rfl

@[simp] theorem ids_cons (b : Batch τ) (bs : List (Batch τ)) : ids (b :: bs) = b.parts ++ ids bs := rfl

@[simp] theorem ids_append (bs cs : List (Batch τ)) : ids (bs ++ cs) = ids bs ++ ids cs := List.flatMap_append

theorem ids_perm {bs cs : List (Batch τ)} (h : bs.Perm cs) : (ids bs).Perm (ids cs) := h.flatMap_right _

theorem mem_ids {n : Nat} {bs : List (Batch τ)} : n ∈ ids bs ↔ ∃ b ∈ bs, n ∈ b.parts := List.mem_flatMap

/-- Where the accepted texts are: in the queue, in the hands of the holders, used in this order, or discarded. -/
structure Ledger (τ : Type) where
  accepted : List τ
  queue : List (Batch τ)
  hands : List (Batch τ)
  used : List (Batch τ)
  discarded : List Nat

namespace Ledger

def empty : Ledger τ := ⟨[], [], [], [], []⟩

/-- The numbers that are still to be used. -/
def pending (l : Ledger τ) : List Nat := ids l.queue ++ ids l.hands

end Ledger

section Joining

variable (J : Joining τ)

/-- The batches of a queue in one. -/
def merge (bs : List (Batch τ)) : Batch τ := ⟨J.join (bs.map Batch.text), ids bs⟩

/-- The batch is made of accepted texts. -/
structure Batch.Of (accepted : List τ) (b : Batch τ) : Prop where
  parts_ne : b.parts ≠ []
  texts : ∃ texts, b.parts.map (accepted[·]?) = texts.map some ∧ b.text = J.join texts

/-- Every accepted text is in one place, once; the used ones were used in the order in which they were accepted, each as
a part of the text that was used. -/
structure Ledger.Delivered (l : Ledger τ) : Prop where
  once : (ids l.used ++ l.discarded ++ l.pending).Perm (List.range l.accepted.length)
  ordered : (ids l.used).Pairwise (· < ·)
  texts : ∀ b ∈ l.used, b.Of J l.accepted

/-- The invariant: what is pending is newer than what was used, and each place is in order. -/
structure Ledger.Ok (l : Ledger τ) : Prop extends l.Delivered J where
  newer : ∀ m ∈ ids l.used, ∀ n ∈ l.pending, m < n
  queue_ordered : (ids l.queue).Pairwise (· < ·)
  hand_ordered : ∀ b ∈ l.hands, b.parts.Pairwise (· < ·)
  pending_texts : ∀ b ∈ l.queue ++ l.hands, b.Of J l.accepted

/-- A move of a ledger; the order of the hands is left open. What is used or put back is older than what stays
behind. -/
inductive Move (l : Ledger τ) : Ledger τ → Prop
  | rest {hands : List (Batch τ)} (hhands : hands.Perm l.hands) : Move l { l with hands := hands }
  | accept (text : τ) {hands : List (Batch τ)} (hhands : hands.Perm l.hands) :
      Move l
        { l with
          accepted := l.accepted ++ [text]
          queue := l.queue ++ [⟨text, [l.accepted.length]⟩]
          hands := hands }
  | take {hands : List (Batch τ)} (hqueue : l.queue ≠ []) (hhands : hands.Perm (merge J l.queue :: l.hands)) :
      Move l { l with queue := [], hands := hands }
  | putBack (b : Batch τ) {hands : List (Batch τ)} (hhands : l.hands.Perm (b :: hands))
      (hnewer : ∀ m ∈ b.parts, ∀ n ∈ ids l.queue, m < n) :
      Move l { l with queue := b :: l.queue, hands := hands }
  | use (b : Batch τ) {hands : List (Batch τ)} (hhands : l.hands.Perm (b :: hands))
      (hnewer : ∀ m ∈ b.parts, ∀ n ∈ ids l.queue ++ ids hands, m < n) :
      Move l { l with hands := hands, used := l.used ++ [b] }
  | discard : Move l { l with queue := [], discarded := l.discarded ++ ids l.queue }

/-! ## Batches -/

variable {J}

/-- Later texts change nothing. -/
theorem Batch.Of.mono {accepted later : List τ} {b : Batch τ} (h : b.Of J accepted) : b.Of J (accepted ++ later) := by
  obtain ⟨texts, hparts, htext⟩ := h.texts
  refine ⟨h.parts_ne, texts, ?_, htext⟩
  rw [← hparts]
  refine List.map_congr_left fun n hn => ?_
  have hmem : accepted[n]? ∈ texts.map some := hparts ▸ List.mem_map_of_mem hn
  obtain ⟨t, -, ht⟩ := List.mem_map.mp hmem
  obtain ⟨hlt, -⟩ := List.getElem?_eq_some_iff.mp ht.symm
  exact List.getElem?_append_left hlt

theorem Batch.of_single (accepted : List τ) (text : τ) : Batch.Of J (accepted ++ [text]) ⟨text, [accepted.length]⟩ :=
  ⟨List.cons_ne_nil _ _, [text], by simp, (J.join_singleton text).symm⟩

/-- The texts of some batches. -/
theorem exists_texts {accepted : List τ} : ∀ {bs : List (Batch τ)}, (∀ b ∈ bs, b.Of J accepted) →
    ∃ ls : List (List τ), (∀ l ∈ ls, l ≠ []) ∧ (ids bs).map (accepted[·]?) = ls.flatten.map some ∧
      bs.map Batch.text = ls.map J.join
  | [], _ => ⟨[], nofun, rfl, rfl⟩
  | b :: bs, h => by
    obtain ⟨hne, texts, hparts, htext⟩ := h b List.mem_cons_self
    obtain ⟨ls, hls, hids, htexts⟩ := exists_texts fun c hc => h c (List.mem_cons_of_mem _ hc)
    refine ⟨texts :: ls, ?_, ?_, ?_⟩
    · intro l hl
      rcases List.mem_cons.mp hl with rfl | hl
      · rintro rfl
        exact hne (List.map_eq_nil_iff.mp hparts)
      · exact hls l hl
    · rw [ids_cons, List.map_append, hparts, hids, List.flatten_cons, List.map_append]
    · rw [List.map_cons, List.map_cons, htext, htexts]

theorem Batch.of_merge {accepted : List τ} {bs : List (Batch τ)} (hbs : bs ≠ []) (h : ∀ b ∈ bs, b.Of J accepted) :
    (merge J bs).Of J accepted := by
  obtain ⟨ls, hls, hids, htexts⟩ := exists_texts h
  obtain ⟨b, hb⟩ := List.exists_mem_of_ne_nil bs hbs
  refine ⟨?_, ls.flatten, hids, ?_⟩
  · intro hnil
    obtain ⟨n, hn⟩ := List.exists_mem_of_ne_nil _ (h b hb).parts_ne
    have hmem : n ∈ ids bs := mem_ids.2 ⟨b, hb, hn⟩
    exact absurd (hnil ▸ hmem : n ∈ []) List.not_mem_nil
  · rw [merge, htexts, J.join_join ls hls]

/-! ## Moves -/

variable {l : Ledger τ}

theorem ok_empty : (Ledger.empty : Ledger τ).Ok J where
  once := List.Perm.refl _
  ordered := List.Pairwise.nil
  texts := nofun
  newer := nofun
  queue_ordered := List.Pairwise.nil
  hand_ordered := nofun
  pending_texts := nofun

/-- Moving between the places changes nothing about the texts. -/
theorem Ledger.Ok.rest (h : l.Ok J) {hands : List (Batch τ)} (hhands : hands.Perm l.hands) :
    Ledger.Ok J { l with hands := hands } where
  once := by
    refine List.Perm.trans ?_ h.once
    exact (List.Perm.append_left _ (ids_perm hhands)).append_left _
  ordered := h.ordered
  texts := h.texts
  newer m hm n hn := by
    refine h.newer m hm n ?_
    exact ((List.Perm.append_left _ (ids_perm hhands)).mem_iff).mp hn
  queue_ordered := h.queue_ordered
  hand_ordered b hb := h.hand_ordered b (hhands.mem_iff.mp hb)
  pending_texts b hb := h.pending_texts b ((hhands.append_left _).mem_iff.mp hb)

theorem Ledger.Ok.lt_length (h : l.Ok J) {n : Nat} (hn : n ∈ ids l.used ++ l.discarded ++ l.pending) :
    n < l.accepted.length :=
  List.mem_range.mp (h.once.mem_iff.mp hn)

theorem Ledger.Ok.accept (h : l.Ok J) (text : τ) :
    Ledger.Ok J { l with accepted := l.accepted ++ [text], queue := l.queue ++ [⟨text, [l.accepted.length]⟩] } where
  once := by
    rw [List.length_append, List.length_singleton, List.range_succ]
    refine List.Perm.trans ?_ (h.once.append_right _)
    refine List.perm_iff_count.mpr fun n => ?_
    simp only [Ledger.pending, ids_append, ids_cons, ids_nil, List.count_append, List.append_nil]
    omega
  ordered := h.ordered
  texts b hb := (h.texts b hb).mono
  newer m hm n hn := by
    simp only [Ledger.pending, ids_append, List.mem_append] at hn
    rcases hn with (hn | hn) | hn
    · exact h.newer m hm n (List.mem_append_left _ hn)
    · rw [List.mem_singleton.mp hn]
      exact h.lt_length (List.mem_append_left _ (List.mem_append_left _ hm))
    · exact h.newer m hm n (List.mem_append_right _ hn)
  queue_ordered := by
    rw [ids_append]
    refine List.pairwise_append.mpr ⟨h.queue_ordered, List.pairwise_singleton _ _, fun m hm n hn => ?_⟩
    rw [List.mem_singleton.mp hn]
    exact h.lt_length (List.mem_append_right _ (List.mem_append_left _ hm))
  hand_ordered := h.hand_ordered
  pending_texts b hb := by
    simp only [List.mem_append, List.mem_singleton] at hb
    rcases hb with (hb | rfl) | hb
    · exact (h.pending_texts b (List.mem_append_left _ hb)).mono
    · exact Batch.of_single l.accepted text
    · exact (h.pending_texts b (List.mem_append_right _ hb)).mono

theorem Ledger.Ok.take (h : l.Ok J) (hqueue : l.queue ≠ []) :
    Ledger.Ok J { l with queue := [], hands := merge J l.queue :: l.hands } where
  once := h.once
  ordered := h.ordered
  texts := h.texts
  newer := h.newer
  queue_ordered := List.Pairwise.nil
  hand_ordered b hb := by
    rcases List.mem_cons.mp hb with rfl | hb
    · exact h.queue_ordered
    · exact h.hand_ordered b hb
  pending_texts b hb := by
    rcases List.mem_cons.mp hb with rfl | hb
    · exact Batch.of_merge hqueue fun c hc => h.pending_texts c (List.mem_append_left _ hc)
    · exact h.pending_texts b (List.mem_append_right _ hb)

theorem Ledger.Ok.putBack {b : Batch τ} {hands : List (Batch τ)} (h : Ledger.Ok J { l with hands := b :: hands })
    (hnewer : ∀ m ∈ b.parts, ∀ n ∈ ids l.queue, m < n) :
    Ledger.Ok J { l with queue := b :: l.queue, hands := hands } where
  once := by
    refine List.Perm.trans ?_ h.once
    refine List.perm_iff_count.mpr fun n => ?_
    simp only [Ledger.pending, ids_cons, List.count_append]
    omega
  ordered := h.ordered
  texts := h.texts
  newer m hm n hn := by
    refine h.newer m hm n ?_
    simp only [Ledger.pending, ids_cons, List.mem_append] at hn ⊢
    tauto
  queue_ordered := by
    rw [ids_cons]
    exact List.pairwise_append.mpr ⟨h.hand_ordered b List.mem_cons_self, h.queue_ordered, hnewer⟩
  hand_ordered c hc := h.hand_ordered c (List.mem_cons_of_mem _ hc)
  pending_texts c hc := by
    refine h.pending_texts c ?_
    simp only [List.cons_append, List.mem_cons, List.mem_append] at hc ⊢
    tauto

theorem Ledger.Ok.use {b : Batch τ} {hands : List (Batch τ)} (h : Ledger.Ok J { l with hands := b :: hands })
    (hnewer : ∀ m ∈ b.parts, ∀ n ∈ ids l.queue ++ ids hands, m < n) :
    Ledger.Ok J { l with hands := hands, used := l.used ++ [b] } where
  once := by
    refine List.Perm.trans ?_ h.once
    refine List.perm_iff_count.mpr fun n => ?_
    simp only [Ledger.pending, ids_append, ids_cons, ids_nil, List.count_append, List.append_nil]
    omega
  ordered := by
    rw [ids_append, ids_cons, ids_nil, List.append_nil]
    refine List.pairwise_append.mpr ⟨h.ordered, h.hand_ordered b List.mem_cons_self, fun m hm n hn => ?_⟩
    exact h.newer m hm n (List.mem_append_right _ (List.mem_append_left _ hn))
  texts c hc := by
    rcases List.mem_append.mp hc with hc | hc
    · exact h.texts c hc
    · rw [List.mem_singleton.mp hc]
      exact h.pending_texts b (List.mem_append_right _ List.mem_cons_self)
  newer m hm n hn := by
    rw [ids_append, ids_cons, ids_nil, List.append_nil] at hm
    rcases List.mem_append.mp hm with hm | hm
    · refine h.newer m hm n ?_
      simp only [Ledger.pending, ids_cons, List.mem_append] at hn ⊢
      tauto
    · exact hnewer m hm n hn
  queue_ordered := h.queue_ordered
  hand_ordered c hc := h.hand_ordered c (List.mem_cons_of_mem _ hc)
  pending_texts c hc := by
    refine h.pending_texts c ?_
    simp only [List.mem_cons, List.mem_append] at hc ⊢
    tauto

theorem Ledger.Ok.discard (h : l.Ok J) :
    Ledger.Ok J { l with queue := [], discarded := l.discarded ++ ids l.queue } where
  once := by
    refine List.Perm.trans ?_ h.once
    refine List.perm_iff_count.mpr fun n => ?_
    simp only [Ledger.pending, ids_nil, List.count_append, List.nil_append]
    omega
  ordered := h.ordered
  texts := h.texts
  newer m hm n hn := h.newer m hm n (List.mem_append_right _ hn)
  queue_ordered := List.Pairwise.nil
  hand_ordered := h.hand_ordered
  pending_texts b hb := h.pending_texts b (List.mem_append_right _ hb)

/-- **Delivery.** Every move keeps the invariant. -/
theorem Ledger.Ok.move {l' : Ledger τ} (h : l.Ok J) (hmove : Move J l l') : l'.Ok J := by
  cases hmove with
  | rest hhands => exact h.rest hhands
  | accept text hhands => exact (h.accept text).rest hhands
  | take hqueue hhands => exact (h.take hqueue).rest hhands
  | putBack b hhands hnewer => exact (h.rest hhands.symm).putBack hnewer
  | use b hhands hnewer => exact (h.rest hhands.symm).use hnewer
  | discard => exact h.discard

/-- A text that is not pending was used once and not discarded, or discarded and not used. -/
theorem Ledger.Delivered.exactly_once (h : l.Delivered J) {n : Nat} (hn : n < l.accepted.length)
    (hpending : n ∉ l.pending) :
    (ids l.used).count n = 1 ∧ n ∉ l.discarded ∨ n ∉ ids l.used ∧ n ∈ l.discarded := by
  have hcount := h.once.count_eq n
  have hrange : (List.range l.accepted.length).count n = 1 :=
    List.count_eq_one_of_mem List.nodup_range (List.mem_range.mpr hn)
  rw [List.count_append, List.count_append, List.count_eq_zero.mpr hpending, hrange] at hcount
  rw [← List.count_eq_zero, ← List.count_eq_zero, ← List.count_pos_iff]
  omega

end Joining

end Ironclaw.Delivery

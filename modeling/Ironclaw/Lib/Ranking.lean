import Mathlib.Data.List.Sort
import Mathlib.Data.List.MinMax

/-!
# Ranking by a score

A list in the order of descending scores, ties in the order in which they stood, and the first ones of it. What depends
on the order of the list that is ranked, and what does not:

- `pairwise_ranked_ties`: the order, with its ties;
- `map_ranked_eq`: the scores, in their order, do not;
- `ranked_eq`: the ranking does not, where no two elements have one score;
- `le_of_mem_take`: what is not among the first has no higher score than what is.
-/

namespace Ironclaw.Ranking

variable {α β : Type*} [LinearOrder β] (score : α → β) {l l' : List α}

/-- A stable sort by descending scores. -/
def ranked (l : List α) : List α := l.insertionSort fun a b => score b ≤ score a

theorem ranked_perm (l : List α) : (ranked score l).Perm l := List.perm_insertionSort _ l

theorem pairwise_ranked (l : List α) : (ranked score l).Pairwise fun a b => score b ≤ score a := by
  have htotal : Std.Total fun a b : α => score b ≤ score a := ⟨fun a b => le_total (score b) (score a)⟩
  have htrans : IsTrans α fun a b => score b ≤ score a := ⟨fun _ _ _ hab hbc => hbc.trans hab⟩
  exact List.pairwise_insertionSort _ l

/-- Ties keep their order: where the elements stand in a relation, they are ranked by score and then by it. -/
theorem pairwise_ranked_ties {R : α → α → Prop} : ∀ {l : List α}, l.Pairwise R →
    (ranked score l).Pairwise fun a b => score b < score a ∨ score a = score b ∧ R a b
  | [], _ => List.Pairwise.nil
  | a :: l, h => by
    obtain ⟨hfirst, hrest⟩ := List.pairwise_cons.mp h
    have hinsert : ∀ sorted : List α, (∀ b ∈ sorted, R a b) →
        sorted.Pairwise (fun b c => score c < score b ∨ score b = score c ∧ R b c) →
        (sorted.orderedInsert (fun b c => score c ≤ score b) a).Pairwise
          fun b c => score c < score b ∨ score b = score c ∧ R b c := by
      intro sorted
      induction sorted with
      | nil => exact fun _ _ => List.pairwise_singleton _ a
      | cons b sorted ih =>
        intro hR hp
        obtain ⟨hb, hsorted⟩ := List.pairwise_cons.mp hp
        rw [List.orderedInsert_cons]
        split
        next hle =>
          refine List.pairwise_cons.mpr ⟨fun c hc => ?_, hp⟩
          rcases List.mem_cons.mp hc with rfl | hc'
          · exact hle.lt_or_eq.imp_right fun heq => ⟨heq.symm, hR c List.mem_cons_self⟩
          · have hca : score c ≤ score a := by
              rcases hb c hc' with hlt | ⟨heq, -⟩
              · exact hlt.le.trans hle
              · exact heq ▸ hle
            exact hca.lt_or_eq.imp_right fun heq => ⟨heq.symm, hR c (List.mem_cons_of_mem _ hc')⟩
        next hle =>
          refine List.pairwise_cons.mpr ⟨fun c hc => ?_, ih (fun c hc => hR c (List.mem_cons_of_mem _ hc)) hsorted⟩
          rcases List.mem_cons.mp ((List.perm_orderedInsert _ a sorted).mem_iff.mp hc) with rfl | hc'
          · exact .inl (not_le.mp hle)
          · exact hb c hc'
    exact hinsert _ (fun b hb => hfirst b ((ranked_perm score l).mem_iff.mp hb)) (pairwise_ranked_ties hrest)

theorem map_ranked {γ : Type*} (f : γ → α) (l : List γ) :
    (ranked (fun c => score (f c)) l).map f = ranked score (l.map f) :=
  List.map_insertionSort _ _ f l fun _ _ _ _ => Iff.rfl

/-- The scores of a ranking are the same for every order of the list. -/
theorem map_ranked_eq (h : l.Perm l') : (ranked score l).map score = (ranked score l').map score := by
  have hperm : ((ranked score l).map score).Perm ((ranked score l').map score) :=
    ((ranked_perm score l).trans (h.trans (ranked_perm score l').symm)).map score
  refine hperm.eq_of_pairwise (fun a b _ _ hab hba => le_antisymm hba hab) ?_ ?_
  · exact List.pairwise_map.mpr (pairwise_ranked score l)
  · exact List.pairwise_map.mpr (pairwise_ranked score l')

/-- Without ties, the ranking is the same for every order of the list. -/
theorem ranked_eq (h : l.Perm l') (hties : ∀ a ∈ l, ∀ b ∈ l, score a = score b → a = b) :
    ranked score l = ranked score l' := by
  have hperm := (ranked_perm score l).trans (h.trans (ranked_perm score l').symm)
  refine hperm.eq_of_pairwise (fun a b ha hb hab hba => ?_) (pairwise_ranked score l) (pairwise_ranked score l')
  have ha' : a ∈ l := (ranked_perm score l).mem_iff.mp ha
  have hb' : b ∈ l := h.mem_iff.mpr ((ranked_perm score l').mem_iff.mp hb)
  exact hties a ha' b hb' (le_antisymm hba hab)

/-- The first ones have the best scores. -/
theorem le_of_mem_take {n : Nat} {a b : α} (ha : a ∈ (ranked score l).take n) (hb : b ∈ l)
    (hout : b ∉ (ranked score l).take n) : score b ≤ score a := by
  have hsplit : b ∈ (ranked score l).take n ++ (ranked score l).drop n := by
    rw [List.take_append_drop]
    exact (ranked_perm score l).mem_iff.mpr hb
  have hdrop := (List.mem_append.mp hsplit).resolve_left hout
  have hpairwise := pairwise_ranked score l
  rw [← List.take_append_drop n (ranked score l), List.pairwise_append] at hpairwise
  exact hpairwise.2.2 a ha b hdrop

/-- The greatest element is the same for lists of the same elements. -/
theorem max?_congr {xs ys : List β} (h : ∀ b, b ∈ xs ↔ b ∈ ys) : xs.max? = ys.max? := by
  cases hxs : xs.max? with
  | none =>
    rw [List.max?_eq_none_iff] at hxs
    have hys : ys = [] := List.eq_nil_iff_forall_not_mem.mpr fun b hb => by
      have hb' := (h b).mpr hb
      rw [hxs] at hb'
      cases hb'
    rw [hys, List.max?_nil]
  | some m =>
    obtain ⟨hmem, hle⟩ := List.max?_eq_some_iff.mp hxs
    exact (List.max?_eq_some_iff.mpr ⟨(h m).mp hmem, fun b hb => hle b ((h b).mpr hb)⟩).symm

end Ironclaw.Ranking

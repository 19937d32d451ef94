import Mathlib.Algebra.BigOperators.Group.List.Basic
import Mathlib.Algebra.Order.Ring.Nat
import Mathlib.Data.List.Basic

/-!
# Greedy choice within a budget

A list is gone through once; an element is chosen when its cost is within what is left of the budget, until a number of
elements is chosen.

- `greedy_sublist`, `length_greedy_le`, `sum_greedy_le`: what is chosen, how many, and at which cost;
- `greedy_split`: an element is chosen or left out by what was chosen before it.
-/

namespace Ironclaw.Greedy

variable {α : Type*} (cost : α → Nat) (cap : Nat)

/-- What is chosen of a list, when `n` elements are chosen already and `budget` is left. -/
def greedy : List α → (n budget : Nat) → List α
  | [], _, _ => []
  | a :: l, n, budget =>
    if cap ≤ n then []
    else if cost a ≤ budget then a :: greedy l (n + 1) (budget - cost a)
    else greedy l n budget

theorem greedy_cons (a : α) (l : List α) (n budget : Nat) : greedy cost cap (a :: l) n budget =
    if cap ≤ n then []
    else if cost a ≤ budget then a :: greedy cost cap l (n + 1) (budget - cost a)
    else greedy cost cap l n budget := rfl

theorem greedy_of_full {n : Nat} (h : cap ≤ n) (l : List α) (budget : Nat) : greedy cost cap l n budget = [] := by
  cases l with
  | nil => rfl
  | cons a l => rw [greedy_cons, if_pos h]

theorem greedy_sublist : ∀ (l : List α) (n budget : Nat), (greedy cost cap l n budget).Sublist l
  | [], _, _ => List.Sublist.refl []
  | a :: l, n, budget => by
    rw [greedy_cons]
    split
    · exact List.nil_sublist _
    · split
      · exact (greedy_sublist l _ _).cons_cons a
      · exact (greedy_sublist l _ _).cons a

theorem length_greedy_le : ∀ (l : List α) (n budget : Nat), (greedy cost cap l n budget).length ≤ cap - n
  | [], _, _ => Nat.zero_le _
  | a :: l, n, budget => by
    rw [greedy_cons]
    split
    · exact Nat.zero_le _
    · split
      · have := length_greedy_le l (n + 1) (budget - cost a)
        rw [List.length_cons]
        omega
      · exact length_greedy_le l n budget

theorem sum_greedy_le : ∀ (l : List α) (n budget : Nat), ((greedy cost cap l n budget).map cost).sum ≤ budget
  | [], _, _ => Nat.zero_le _
  | a :: l, n, budget => by
    rw [greedy_cons]
    split
    · exact Nat.zero_le _
    · split
      next hcost =>
        have := sum_greedy_le l (n + 1) (budget - cost a)
        rw [List.map_cons, List.sum_cons]
        omega
      · exact sum_greedy_le l n budget

/-- The choice goes on with what the first part leaves. -/
theorem greedy_append (r : List α) : ∀ (l : List α) (n budget : Nat), greedy cost cap (l ++ r) n budget =
    greedy cost cap l n budget ++ greedy cost cap r (n + (greedy cost cap l n budget).length)
      (budget - ((greedy cost cap l n budget).map cost).sum)
  | [], _, _ => rfl
  | a :: l, n, budget => by
    rw [List.cons_append, greedy_cons, greedy_cons]
    split
    next hfull => rw [greedy_of_full cost cap (by omega)]; rfl
    · split
      · rw [greedy_append r l, List.length_cons, List.map_cons, List.sum_cons, Nat.sub_add_eq, List.cons_append,
          Nat.add_assoc n, Nat.add_comm 1]
      · exact greedy_append r l n budget

/-- An element that is left out came after `cap` others, or did not fit in what was left of the budget. -/
theorem greedy_split {l r : List α} {a : α} {budget : Nat} (ha : a ∉ greedy cost cap (l ++ a :: r) 0 budget) :
    cap ≤ (greedy cost cap l 0 budget).length ∨
      budget < cost a + ((greedy cost cap l 0 budget).map cost).sum := by
  by_contra h
  obtain ⟨hcap, hcost⟩ := not_or.mp h
  refine ha ?_
  rw [greedy_append, greedy_cons, if_neg (by omega), if_pos (by omega)]
  exact List.mem_append_right _ List.mem_cons_self

theorem greedy_map {β : Type*} (f : β → α) : ∀ (l : List β) (n budget : Nat),
    greedy cost cap (l.map f) n budget = (greedy (fun b => cost (f b)) cap l n budget).map f
  | [], _, _ => rfl
  | b :: l, n, budget => by
    rw [List.map_cons, greedy_cons, greedy_cons]
    split
    · rfl
    · split
      · rw [List.map_cons, greedy_map f l]
      · exact greedy_map f l n budget

end Ironclaw.Greedy

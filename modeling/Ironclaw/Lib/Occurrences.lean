import Ironclaw.Lib.Text

/-!
# Occurrences of a pattern and lines

- `find_first_iff`, `find_eq_none_iff` and `find_eq_some`: the first occurrence of a pattern;
- `lines_break` and `completeLines_isPrefix`: the lines of a text that is put together;
- `sublist_append_iff`: what of a list is left when it is matched against another one, element by element.
-/

namespace Ironclaw.Text

/-! ## The first occurrence -/

section Find

variable {pat : Str}

theorem find_eq_none_iff : ∀ {s : Str}, find pat s = none ↔ ¬pat <:+: s
  | [] => by
    cases pat <;> simp [find]
  | c :: cs => by
    rw [find, List.infix_cons_iff, ← List.isPrefixOf_iff_prefix]
    by_cases h : pat.isPrefixOf (c :: cs) = true
    · simp [h]
    · rw [if_neg h, Option.map_eq_none_iff, find_eq_none_iff (s := cs)]
      simp [h]

/-- The pattern is found at a place exactly when it does not begin before it. -/
theorem find_first_iff (hne : pat ≠ []) (x : Str) : ∀ u : Str,
    find pat (u ++ (pat ++ x)) = some u.length ↔ ¬pat <:+: u ++ pat.dropLast
  | [] => by
    have hshort : ¬pat <:+: pat.dropLast := by
      intro h
      have hlen := h.length_le
      have hpos := List.length_pos_iff.mpr hne
      rw [List.length_dropLast] at hlen
      omega
    cases pat with
    | nil => exact absurd rfl hne
    | cons d pat => simpa [find] using hshort
  | c :: u => by
    have ih := find_first_iff hne x u
    -- an occurrence at the front ends before the last symbol of the pattern at the end
    have hfront : pat <+: c :: (u ++ (pat ++ x)) ↔ pat <+: c :: (u ++ pat.dropLast) := by
      have hlong : c :: (u ++ pat.dropLast) <+: c :: (u ++ (pat ++ x)) := by
        rw [List.cons_prefix_cons, List.prefix_append_right_inj]
        exact ⟨rfl, (List.dropLast_prefix pat).trans (List.prefix_append pat x)⟩
      refine ⟨fun h => List.prefix_of_prefix_length_le h hlong ?_, fun h => h.trans hlong⟩
      simp only [List.length_cons, List.length_append, List.length_dropLast]
      omega
    rw [List.cons_append, List.cons_append, find, List.infix_cons_iff, ← hfront, ← List.isPrefixOf_iff_prefix]
    by_cases h : pat.isPrefixOf (c :: (u ++ (pat ++ x))) = true
    · simp [h]
    · rw [if_neg h]
      simp only [h, Bool.false_eq_true, false_or, List.length_cons, Option.map_eq_some_iff, Nat.add_right_cancel_iff,
        exists_eq_right]
      exact ih

theorem find_eq_some (hne : pat ≠ []) : ∀ {s : Str} {i : Nat}, find pat s = some i →
    ∃ u x, s = u ++ (pat ++ x) ∧ u.length = i ∧ ¬pat <:+: u ++ pat.dropLast := by
  intro s i h
  suffices hsplit : ∃ u x, s = u ++ (pat ++ x) ∧ u.length = i by
    obtain ⟨u, x, rfl, rfl⟩ := hsplit
    exact ⟨u, x, rfl, rfl, (find_first_iff hne x u).mp h⟩
  induction s generalizing i with
  | nil =>
    rw [find] at h
    cases pat with
    | nil => exact absurd rfl hne
    | cons d pat => simp at h
  | cons c s ih =>
    rw [find] at h
    split at h
    next hp =>
      obtain ⟨x, hx⟩ := List.isPrefixOf_iff_prefix.mp hp
      exact ⟨[], x, hx.symm, by simpa using h⟩
    · obtain ⟨j, hj, rfl⟩ := Option.map_eq_some_iff.mp h
      obtain ⟨u, x, rfl, rfl⟩ := ih hj
      exact ⟨c :: u, x, rfl, rfl⟩

end Find

/-! ## Lines -/

/-- The lines of a text that end with a line break. -/
def completeLines (s : Str) : List Str := (s.splitOn '\n').dropLast.map stripCr

/-- The text behind the first line break. -/
def afterBreak (s : Str) : Str := (s.dropWhile (· ≠ '\n')).drop 1

theorem lines_break (s t : Str) : lines (s ++ '\n' :: t) = (s.splitOn '\n').map stripCr ++ lines t := by
  have hne := List.splitOn_ne_nil '\n' t
  rw [lines, lines, List.splitOn_append_cons_self]
  simp only [List.dropLast_append_of_ne_nil hne, List.getLast?_append_of_ne_nil _ hne, List.map_append,
    List.append_assoc]

theorem completeLines_break {s : Str} (hs : '\n' ∉ s) (t : Str) :
    completeLines (s ++ '\n' :: t) = stripCr s :: completeLines t := by
  rw [completeLines, completeLines, List.splitOn_append_cons_self_of_not_mem hs,
    List.dropLast_cons_of_ne_nil (List.splitOn_ne_nil '\n' t), List.map_cons]

/-- The complete lines of a text stay when more text follows. -/
theorem completeLines_isPrefix (s t : Str) : completeLines s <+: completeLines (s ++ t) := by
  induction hlen : s.length using Nat.strong_induction_on generalizing s with
  | _ n ih =>
    by_cases h : '\n' ∈ s
    · obtain ⟨first, rest, rfl, hfirst⟩ := List.eq_append_cons_of_mem h
      rw [List.append_assoc, List.cons_append, completeLines_break hfirst, completeLines_break hfirst,
        List.cons_prefix_cons]
      exact ⟨rfl, ih rest.length (by simp at hlen; omega) rest rfl⟩
    · rw [completeLines, List.splitOn_eq_singleton h]
      exact List.nil_prefix

theorem completeLines_prefix_lines (s : Str) : completeLines s <+: lines s := List.prefix_append _ _

/-! ## Matching in order -/

section LeftOver

variable {α : Type*} [DecidableEq α]

/-- What is left of a list when its elements are matched in order, each with the first equal one. -/
def leftOver : List α → List α → List α
  | [], _ => []
  | x :: xs, [] => x :: xs
  | x :: xs, y :: ys => if x = y then leftOver xs ys else leftOver (x :: xs) ys

theorem sublist_append_iff (zs : List α) : ∀ ys xs : List α, xs.Sublist (ys ++ zs) ↔ (leftOver xs ys).Sublist zs
  | _, [] => by simp [leftOver]
  | [], x :: xs => by rw [leftOver, List.nil_append]
  | y :: ys, x :: xs => by
    rw [leftOver, List.cons_append]
    split
    next h =>
      subst h
      rw [List.cons_sublist_cons, sublist_append_iff zs ys xs]
    next h =>
      rw [← sublist_append_iff zs ys (x :: xs)]
      refine ⟨fun hsub => ?_, fun hsub => hsub.cons y⟩
      cases hsub with
      | cons _ hsub => exact hsub
      | cons_cons _ _ => exact absurd rfl h

end LeftOver

end Ironclaw.Text

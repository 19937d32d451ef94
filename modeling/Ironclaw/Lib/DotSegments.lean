import Ironclaw.Lib.Text
import Mathlib.Logic.Relation

/-!
# Dot segments

A path from the root is a list of segments: each stays where it is, goes up, or goes down to a name. The dot segments
may be removed one at a time, wherever they stand; what is left when only names are left does not depend on the order.

- `resolve`: the names, by a walk from the root;
- `Removes.resolve_eq`: removing a dot segment keeps them;
- `removed_iff`: they are what is left when all dot segments are removed.
-/

namespace Ironclaw.DotSegments

variable {α : Type*}

inductive Segment (α : Type*)
  | here
  | up
  | name (a : α)
  deriving DecidableEq

/-- One dot segment is removed. Above the root there is nothing. -/
inductive Removes : List (Segment α) → List (Segment α) → Prop
  | here (xs ys : List (Segment α)) : Removes (xs ++ .here :: ys) (xs ++ ys)
  | up (xs : List (Segment α)) (a : α) (ys : List (Segment α)) : Removes (xs ++ .name a :: .up :: ys) (xs ++ ys)
  | root (ys : List (Segment α)) : Removes (.up :: ys) ys

/-- One segment from a place on. -/
def walk (place : List α) : Segment α → List α
  | .here => place
  | .up => place.dropLast
  | .name a => place ++ [a]

def resolve (segments : List (Segment α)) : List α := segments.foldl walk []

theorem resolve_append (xs ys : List (Segment α)) : resolve (xs ++ ys) = ys.foldl walk (resolve xs) :=
  List.foldl_append

theorem mem_foldl_walk {a : α} : ∀ {xs : List (Segment α)} {place : List α}, a ∈ xs.foldl walk place →
    a ∈ place ∨ .name a ∈ xs
  | [], _, h => .inl h
  | x :: xs, place, h => by
    rw [List.foldl_cons] at h
    rcases mem_foldl_walk h with h | h
    · cases x with
      | here => exact .inl h
      | up => exact .inl (List.mem_of_mem_dropLast h)
      | name b =>
        rcases List.mem_append.mp h with h | h
        · exact .inl h
        · rw [List.mem_singleton.mp h]
          exact .inr List.mem_cons_self
    · exact .inr (List.mem_cons_of_mem _ h)

/-- The names that are left are names of the path. -/
theorem mem_resolve {a : α} {xs : List (Segment α)} (h : a ∈ resolve xs) : .name a ∈ xs :=
  (mem_foldl_walk h).resolve_left List.not_mem_nil

@[simp] theorem resolve_names (names : List α) : resolve (names.map .name) = names := by
  induction names using List.reverseRecOn with
  | nil => rfl
  | append_singleton names a ih =>
    rw [List.map_append, resolve_append, ih]
    rfl

/-- Removing a dot segment keeps the place that the path leads to. -/
theorem Removes.resolve_eq {xs ys : List (Segment α)} (h : Removes xs ys) : resolve xs = resolve ys := by
  cases h with
  | here xs ys =>
    rw [resolve_append, resolve_append]
    rfl
  | up xs a ys =>
    rw [resolve_append, resolve_append, List.foldl_cons, List.foldl_cons, walk, walk, List.dropLast_concat]
  | root ys => rfl

theorem resolve_eq_of_removes {xs ys : List (Segment α)} (h : Relation.ReflTransGen Removes xs ys) :
    resolve xs = resolve ys := by
  induction h with
  | refl => rfl
  | tail _ hstep ih => exact ih.trans hstep.resolve_eq

theorem Removes.append {xs ys : List (Segment α)} (h : Removes xs ys) (zs : List (Segment α)) :
    Removes (xs ++ zs) (ys ++ zs) := by
  cases h with
  | here xs ys =>
    rw [List.append_assoc, List.append_assoc]
    exact .here xs (ys ++ zs)
  | up xs a ys =>
    rw [List.append_assoc, List.append_assoc]
    exact .up xs a (ys ++ zs)
  | root ys => exact .root (ys ++ zs)

/-- One segment after a list of names. -/
theorem removes_walk (names : List α) (s : Segment α) :
    Relation.ReflTransGen Removes (names.map .name ++ [s]) ((walk names s).map .name) := by
  cases s with
  | here =>
    have hstep := Removes.here (names.map .name) []
    rw [List.append_nil] at hstep
    exact .single hstep
  | up =>
    rcases List.eq_nil_or_concat names with rfl | ⟨init, a, rfl⟩
    · exact .single (.root [])
    · have hstep := Removes.up (init.map .name) a []
      rw [List.append_nil] at hstep
      rw [walk, List.concat_eq_append, List.dropLast_concat, List.map_append, List.append_assoc]
      exact .single hstep
  | name a =>
    rw [walk, List.map_append]
    exact .refl

theorem removes_resolve (xs : List (Segment α)) : Relation.ReflTransGen Removes xs ((resolve xs).map .name) := by
  induction xs using List.reverseRecOn with
  | nil => exact .refl
  | append_singleton xs s ih =>
    have happend : Relation.ReflTransGen Removes (xs ++ [s]) ((resolve xs).map .name ++ [s]) :=
      ih.lift (· ++ [s]) fun _ _ h => h.append [s]
    rw [resolve_append]
    exact happend.trans (removes_walk (resolve xs) s)

/-- **Dot segments.** Removing the dot segments ends in one list of names, whatever the order. -/
theorem removed_iff {xs : List (Segment α)} {names : List α} :
    Relation.ReflTransGen Removes xs (names.map .name) ↔ resolve xs = names := by
  constructor
  · intro h
    rw [resolve_eq_of_removes h, resolve_names]
  · rintro rfl
    exact removes_resolve xs

/-! ## Segments of a text -/

def DOT : Str := ['.']

def DOT_DOT : Str := ['.', '.']

/-- What the text of a segment stands for; an empty one stays where it is. -/
def ofText (segment : Str) : Segment Str :=
  if segment = [] ∨ segment = DOT then .here
  else if segment = DOT_DOT then .up
  else .name segment

theorem ofText_eq_name {segment name : Str} (h : ofText segment = .name name) :
    name = segment ∧ name ≠ [] ∧ name ≠ DOT ∧ name ≠ DOT_DOT := by
  unfold ofText at h
  split at h
  · cases h
  next hhere =>
    split at h
    · cases h
    next hup =>
      cases h
      exact ⟨rfl, fun hnil => hhere (.inl hnil), fun hdot => hhere (.inr hdot), hup⟩

end Ironclaw.DotSegments

import Mathlib.Tactic

/-!
# The pieces of a list

The pieces of a list that is cut at its separators, where the list is put together from others: the last piece of one
goes on as the first piece of the next, unless a separator stands between them.

- `splitOnP_append_of_neg`, `splitOnP_append_of_pos`: the pieces of two lists with an element between them;
- `map_glue`: pieces that are themselves put together from parts.
-/

namespace Ironclaw.Glue

variable {α β : Type*}

/-- The last of the first pieces goes on as the first of the others. -/
def glue : List (List α) → List (List α) → List (List α)
  | [], ys => ys
  | [x], [] => [x]
  | [x], y :: ys => (x ++ y) :: ys
  | x :: x' :: xs, ys => x :: glue (x' :: xs) ys

theorem glue_cons_cons (x x' : List α) (xs ys : List (List α)) : glue (x :: x' :: xs) ys = x :: glue (x' :: xs) ys := by
  rw [glue]

theorem glue_nil_cons (ys : List (List α)) : ∀ {xs : List (List α)}, xs ≠ [] → glue xs ([] :: ys) = xs ++ ys
  | [x], _ => by rw [glue, List.append_nil, List.singleton_append]
  | x :: x' :: xs, _ => by
    rw [glue_cons_cons, glue_nil_cons ys (List.cons_ne_nil x' xs)]
    exact List.cons_append.symm

/-- Every part is kept. -/
theorem flatten_glue (ys : List (List α)) : ∀ xs : List (List α), (glue xs ys).flatten = xs.flatten ++ ys.flatten
  | [] => rfl
  | [x] => by
    cases ys with
    | nil => rw [glue, List.flatten_nil, List.append_nil]
    | cons y ys =>
      rw [glue, List.flatten_cons, List.flatten_cons, List.flatten_cons, List.flatten_nil, List.append_nil,
        List.append_assoc]
  | x :: x' :: xs => by
    calc (glue (x :: x' :: xs) ys).flatten
        = x ++ (glue (x' :: xs) ys).flatten := by rw [glue_cons_cons, List.flatten_cons]
      _ = x ++ (x' :: xs).flatten ++ ys.flatten := by rw [flatten_glue ys (x' :: xs), List.append_assoc]
      _ = (x :: x' :: xs).flatten ++ ys.flatten := rfl

/-- Pieces that are not empty stay so. -/
theorem ne_nil_of_mem_glue {ys : List (List α)} (hys : ∀ y ∈ ys, y ≠ []) : ∀ {xs : List (List α)}, (∀ x ∈ xs, x ≠ []) →
    ∀ z ∈ glue xs ys, z ≠ []
  | [], _, z, hz => hys z hz
  | [x], hxs, z, hz => by
    have hx : x ≠ [] := hxs x List.mem_cons_self
    cases ys with
    | nil => exact List.mem_singleton.mp hz ▸ hx
    | cons y ys =>
      rcases List.mem_cons.mp hz with rfl | hz
      · exact List.append_ne_nil_of_left_ne_nil hx y
      · exact hys z (List.mem_cons_of_mem _ hz)
  | x :: x' :: xs, hxs, z, hz => by
    rw [glue_cons_cons] at hz
    rcases List.mem_cons.mp hz with rfl | hz
    · exact hxs z List.mem_cons_self
    · exact ne_nil_of_mem_glue hys (fun x hx => hxs x (List.mem_cons_of_mem _ hx)) z hz

/-- A first piece that is longer. -/
theorem glue_modifyHead (c : α) {xs ys : List (List α)} (hx : xs ≠ []) (hy : ys ≠ []) :
    glue (xs.modifyHead (c :: ·)) ys = (glue xs ys).modifyHead (c :: ·) := by
  obtain ⟨y, ys, rfl⟩ := List.exists_cons_of_ne_nil hy
  match xs, hx with
  | [x], _ => rfl
  | x :: x' :: xs, _ => rw [List.modifyHead_cons, glue_cons_cons, glue_cons_cons, List.modifyHead_cons]

section Split

variable (p : α → Bool)

theorem splitOnP_append (b : List α) : ∀ a : List α, (a ++ b).splitOnP p = glue (a.splitOnP p) (b.splitOnP p)
  | [] => by
    obtain ⟨y, ys, hb⟩ := List.exists_cons_of_ne_nil (List.splitOnP_ne_nil p b)
    rw [List.nil_append, List.splitOnP_nil, hb, glue, List.nil_append]
  | c :: a => by
    have ih := splitOnP_append b a
    obtain ⟨x, xs, ha⟩ := List.exists_cons_of_ne_nil (List.splitOnP_ne_nil p a)
    rw [List.cons_append, List.splitOnP_cons_eq_if_modifyHead, List.splitOnP_cons_eq_if_modifyHead, ih]
    split
    · rw [ha, glue_cons_cons]
    · exact (glue_modifyHead c (List.splitOnP_ne_nil p a) (List.splitOnP_ne_nil p b)).symm

variable {p} {c : α} (a b : List α)

theorem splitOnP_append_of_pos (hc : p c = true) : (a ++ c :: b).splitOnP p = a.splitOnP p ++ b.splitOnP p := by
  rw [splitOnP_append, List.splitOnP_cons_eq_if_modifyHead, if_pos hc, glue_nil_cons _ (List.splitOnP_ne_nil p a)]

theorem splitOnP_append_of_neg (hc : p c = false) :
    (a ++ c :: b).splitOnP p = glue (a.splitOnP p) ((b.splitOnP p).modifyHead (c :: ·)) := by
  rw [splitOnP_append, List.splitOnP_cons_eq_if_modifyHead, hc, if_neg Bool.false_ne_true]

end Split

/-- A function of pieces that puts something between the two parts of a piece. -/
theorem map_glue {f : List α → List β} {between : List β → List β} {xs ys : List (List α)} (hxs : xs ≠ [])
    (hys : ys ≠ [])
    (happend : ∀ x ∈ xs, ∀ y ∈ ys, f (x ++ y) = f x ++ between (f y)) :
    (glue xs ys).map f = glue (xs.map f) ((ys.map f).modifyHead between) := by
  obtain ⟨y, ys, rfl⟩ := List.exists_cons_of_ne_nil hys
  induction xs with
  | nil => exact absurd rfl hxs
  | cons x xs ih =>
    cases xs with
    | nil =>
      have hxy := happend x List.mem_cons_self y List.mem_cons_self
      rw [glue, List.map_cons, hxy, List.map_cons, List.map_cons, List.map_nil, List.modifyHead_cons, glue]
    | cons x' xs =>
      have htail := ih (List.cons_ne_nil _ _) fun z hz => happend z (List.mem_cons_of_mem _ hz)
      calc (glue (x :: x' :: xs) (y :: ys)).map f
          = f x :: (glue (x' :: xs) (y :: ys)).map f := by rw [glue_cons_cons, List.map_cons]
        _ = f x :: glue (f x' :: xs.map f) (((y :: ys).map f).modifyHead between) := by rw [htail, List.map_cons]
        _ = glue (f x :: f x' :: xs.map f) (((y :: ys).map f).modifyHead between) := (glue_cons_cons _ _ _ _).symm

end Ironclaw.Glue

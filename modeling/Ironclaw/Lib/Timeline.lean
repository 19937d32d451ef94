import Mathlib.Tactic

/-!
# Timelines

A state with the states before and after it. A step back and a step forth move along the same states.

- `forth_of_back`: a step forth undoes a step back;
- `retrace`: a walk back is walked forth again, through the same states in the opposite order.
-/

namespace Ironclaw

/-- A state, the states before it (the latest last) and after it (the next last). -/
structure Timeline (α : Type*) where
  past : List α
  now : α
  future : List α

namespace Timeline

variable {α : Type*} {t t' : Timeline α}

def back (t : Timeline α) : Option (Timeline α) :=
  t.past.getLast?.map fun s => ⟨t.past.dropLast, s, t.future ++ [t.now]⟩

def forth (t : Timeline α) : Option (Timeline α) :=
  t.future.getLast?.map fun s => ⟨t.past ++ [t.now], s, t.future.dropLast⟩

theorem dropLast_of_getLast? {l : List α} {a : α} (h : l.getLast? = some a) : l.dropLast ++ [a] = l := by
  obtain ⟨l', rfl⟩ := List.getLast?_eq_some_iff.mp h
  rw [List.dropLast_concat]

theorem back_eq_some (h : t.back = some t') :
    t.past = t'.past ++ [t'.now] ∧ t'.future = t.future ++ [t.now] := by
  obtain ⟨s, hs, rfl⟩ := Option.map_eq_some_iff.mp h
  exact ⟨(dropLast_of_getLast? hs).symm, rfl⟩

theorem forth_of_back (h : t.back = some t') : t'.forth = some t := by
  obtain ⟨hpast, hfuture⟩ := back_eq_some h
  cases t
  simp_all [forth]

/-- There is a step back for each state of the past. -/
theorem exists_back (h : t.past ≠ []) : ∃ t', t.back = some t' := by
  rw [back, List.getLast?_eq_some_getLast h]
  exact ⟨_, rfl⟩

/-! ## Walks -/

/-- `k` moves in a row: the states they lead to, one after another, and where they end. -/
def walk (move : Timeline α → Option (Timeline α)) : Nat → Timeline α → Option (List α × Timeline α)
  | 0, t => some ([], t)
  | k + 1, t => (move t).bind fun t' => (walk move k t').map fun r => (t'.now :: r.1, r.2)

/-- One more move at the end of a walk. -/
theorem walk_succ {move : Timeline α → Option (Timeline α)} {t₂ : Timeline α} :
    ∀ {k : Nat} {t t₁ : Timeline α} {seen : List α}, walk move k t = some (seen, t₁) → move t₁ = some t₂ →
      walk move (k + 1) t = some (seen ++ [t₂.now], t₂)
  | 0, _, _, _, h, hmove => by
    cases h
    simp [walk, hmove]
  | k + 1, t, _, seen, h, hmove => by
    obtain ⟨t₁, ht₁, h⟩ := Option.bind_eq_some_iff.mp h
    obtain ⟨⟨seen', _⟩, hwalk, heq⟩ := Option.map_eq_some_iff.mp h
    cases heq
    rw [walk, ht₁, Option.bind_some, walk_succ hwalk hmove]
    rfl

/-- **A walk back is walked forth again**: it ends where it began, and the states come in the opposite order. -/
theorem retrace : ∀ {k : Nat} {t t' : Timeline α} {seen : List α}, walk back k t = some (seen, t') →
    ∃ seen', walk forth k t' = some (seen', t) ∧ (t.now :: seen).reverse = t'.now :: seen'
  | 0, _, _, _, h => by
    cases h
    exact ⟨[], rfl, rfl⟩
  | k + 1, t, _, seen, h => by
    obtain ⟨t₁, ht₁, h⟩ := Option.bind_eq_some_iff.mp h
    obtain ⟨⟨seen₁, _⟩, hwalk, heq⟩ := Option.map_eq_some_iff.mp h
    cases heq
    obtain ⟨seen', hforth, hreverse⟩ := retrace hwalk
    refine ⟨seen' ++ [t.now], walk_succ hforth (forth_of_back ht₁), ?_⟩
    rw [List.reverse_cons, hreverse, List.cons_append]

/-- A walk back is as long as the past allows. -/
theorem exists_walk_back : ∀ {k : Nat} {t : Timeline α}, k ≤ t.past.length →
    ∃ seen t', walk back k t = some (seen, t') ∧ seen.length = k
  | 0, t, _ => ⟨[], t, rfl, rfl⟩
  | k + 1, t, h => by
    have hne : t.past ≠ [] := by
      rintro hnil
      rw [hnil] at h
      cases h
    obtain ⟨t₁, ht₁⟩ := exists_back hne
    have hlength : t.past.length = t₁.past.length + 1 := by
      rw [(back_eq_some ht₁).1, List.length_append, List.length_singleton]
    obtain ⟨seen, t', hwalk, hseen⟩ := exists_walk_back (show k ≤ t₁.past.length by omega)
    refine ⟨t₁.now :: seen, t', ?_, congrArg (· + 1) hseen⟩
    rw [walk, ht₁, Option.bind_some, hwalk, Option.map_some]

end Timeline

end Ironclaw

import Mathlib.Tactic

/-!
# Programs with a state and exceptions

A program of type `Prog ε σ α` changes a state and ends with a value or an exception. `Triple P x Q E` says that, from a
state with `P`, `x` ends with a value and a state in `Q` or with a state in `E`. The rules follow the constructs of a
`do` block: a value, an exception, a sequence, a computation without effects, a read and a write of the state.
-/

namespace Ironclaw.Hoare

/-- A computation on a state that may end with an exception; the state is kept in both cases. -/
abbrev Prog (ε σ α : Type) := ExceptT ε (StateM σ) α

variable {ε σ α β : Type}

/-- The result and the state after a run. -/
def exec (x : Prog ε σ α) (s : σ) : Except ε α × σ := StateT.run (ExceptT.run x) s

/-- What is asked of the end of a run. -/
def Ends (Q : α → σ → Prop) (E : σ → Prop) : Except ε α × σ → Prop
  | (.ok a, s) => Q a s
  | (.error _, s) => E s

/-- A structure, so that a triple is not taken for the run it speaks of. -/
structure Triple (P : σ → Prop) (x : Prog ε σ α) (Q : α → σ → Prop) (E : σ → Prop) : Prop where
  ends : ∀ s, P s → Ends Q E (exec x s)

/-- Reads a value off the state. -/
def reads (f : σ → α) : Prog ε σ α := ExceptT.lift (fun s => (f s, s))

/-- Changes the state. -/
def writes (f : σ → σ) : Prog ε σ Unit := ExceptT.lift (fun s => ((), f s))

variable {P P' : σ → Prop} {Q Q' : α → σ → Prop} {R : β → σ → Prop} {E : σ → Prop}

theorem triple_pure {a : α} (h : ∀ s, P s → Q a s) : Triple P (pure a : Prog ε σ α) Q E :=
  ⟨fun s hs => h s hs⟩

theorem triple_throw {e : ε} (h : ∀ s, P s → E s) : Triple P (throw e : Prog ε σ α) Q E :=
  ⟨fun s hs => h s hs⟩

theorem triple_reads {f : σ → α} (h : ∀ s, P s → Q (f s) s) : Triple P (reads f : Prog ε σ α) Q E :=
  ⟨fun s hs => h s hs⟩

theorem triple_writes {f : σ → σ} {Q : Unit → σ → Prop} (h : ∀ s, P s → Q () (f s)) :
    Triple P (writes f : Prog ε σ Unit) Q E :=
  ⟨fun s hs => h s hs⟩

/-- A computation without effects, lifted. -/
theorem triple_lift {x : Except ε α} (herr : ∀ s, P s → E s) (hok : ∀ a, x = .ok a → ∀ s, P s → Q a s) :
    Triple P (liftM x : Prog ε σ α) Q E := by
  refine ⟨fun s hs => ?_⟩
  cases x with
  | ok a => exact hok a rfl s hs
  | error e => exact herr s hs

theorem exec_bind (x : Prog ε σ α) (f : α → Prog ε σ β) (s : σ) :
    exec (x >>= f) s =
      Except.casesOn (exec x s).1 (fun e => (.error e, (exec x s).2)) (fun a => exec (f a) (exec x s).2) := by
  rcases h : exec x s with ⟨_ | _, s'⟩
  all_goals
    change (ExceptT.bindCont f (exec x s).1) (exec x s).2 = _
    rw [h]
    rfl

theorem triple_bind {x : Prog ε σ α} {f : α → Prog ε σ β} (hx : Triple P x Q E) (hf : ∀ a, Triple (Q a) (f a) R E) :
    Triple P (x >>= f) R E := by
  refine ⟨fun s hs => ?_⟩
  have hend := hx.ends s hs
  rw [exec_bind]
  rcases h : exec x s with ⟨e | a, s'⟩
  · rw [h] at hend
    exact hend
  · rw [h] at hend
    exact (hf a).ends s' hend

/-- A computation without effects comes first; what follows may use its value. -/
theorem triple_lift_bind {x : Except ε α} {f : α → Prog ε σ β} (herr : ∀ s, P s → E s)
    (hf : ∀ a, x = .ok a → Triple P (f a) R E) : Triple P ((liftM x : Prog ε σ α) >>= f) R E := by
  refine triple_bind (Q := fun a s => x = .ok a ∧ P s) (triple_lift herr fun a ha s hs => ⟨ha, hs⟩) fun a => ?_
  exact ⟨fun s hs => (hf a hs.1).ends s hs.2⟩

/-- A value is read off the state first; what follows may use what is known of it. -/
theorem triple_reads_bind {f : σ → α} {g : α → Prog ε σ β} {A : α → Prop} (hA : ∀ s, P s → A (f s))
    (hg : ∀ a, A a → Triple P (g a) R E) : Triple P ((reads f : Prog ε σ α) >>= g) R E := by
  refine triple_bind (Q := fun a s => A a ∧ P s) (triple_reads fun s hs => ⟨hA s hs, hs⟩) fun a => ?_
  exact ⟨fun s hs => (hg a hs.1).ends s hs.2⟩

theorem triple_conseq {x : Prog ε σ α} (hx : Triple P x Q E) (hP : ∀ s, P' s → P s) (hQ : ∀ a s, Q a s → Q' a s) :
    Triple P' x Q' E := by
  refine ⟨fun s hs => ?_⟩
  have hend := hx.ends s (hP s hs)
  rcases h : exec x s with ⟨e | a, s'⟩
  · rw [h] at hend
    exact hend
  · rw [h] at hend
    exact hQ a s' hend

/-- What holds at both ends of a run holds of the state after it. -/
theorem Triple.final {x : Prog ε σ α} (hx : Triple P x (fun _ => E) E) {s : σ} (hs : P s) : E (exec x s).2 := by
  have hend := hx.ends s hs
  rcases h : exec x s with ⟨e | a, s'⟩
  · rw [h] at hend
    exact hend
  · rw [h] at hend
    exact hend

/-! ## Without a state -/

section Returns

variable {A : α → Prop} {B : β → Prop}

/-- A computation that may fail returns only values with `A`. -/
def Returns (A : α → Prop) (x : Except ε α) : Prop := ∀ a, x = .ok a → A a

theorem returns_ok {a : α} (h : A a) : Returns A (.ok a : Except ε α) := by
  intro b hb
  cases hb
  exact h

theorem returns_error (e : ε) : Returns A (.error e) := nofun

theorem returns_bind {x : Except ε α} {f : α → Except ε β} (h : ∀ a, x = .ok a → Returns B (f a)) :
    Returns B (x >>= f) := by
  cases x with
  | error e => exact returns_error e
  | ok a => exact h a rfl

/-- A loop over a list keeps what each of its steps keeps. -/
theorem returns_foldlM {I : α → Prop} {f : α → β → Except ε α} (hstep : ∀ a b, I a → Returns I (f a b)) :
    ∀ (l : List β) {a : α}, I a → Returns I (l.foldlM f a)
  | [], _, ha => returns_ok ha
  | b :: l, a, ha => by
    rw [List.foldlM_cons]
    exact returns_bind fun a' ha' => returns_foldlM hstep l (hstep a b ha a' ha')

/-- A sequence returns what its second part returns after the first. -/
theorem bind_eq_ok {x : Except ε α} {f : α → Except ε β} {b : β} (h : x >>= f = .ok b) :
    ∃ a, x = .ok a ∧ f a = .ok b := by
  cases x with
  | error e => cases h
  | ok a => exact ⟨a, rfl, h⟩

/-- A sequence fails in its first part, or in the second after it. -/
theorem bind_eq_error {x : Except ε α} {f : α → Except ε β} {e : ε} (h : x >>= f = .error e) :
    x = .error e ∨ ∃ a, x = .ok a ∧ f a = .error e := by
  cases x with
  | error e' =>
    cases h
    exact .inl rfl
  | ok a => exact .inr ⟨a, rfl, h⟩

theorem returns_map {x : Except ε α} {f : α → β} (h : ∀ a, x = .ok a → B (f a)) : Returns B (x.map f) := by
  cases x with
  | error e => exact returns_error e
  | ok a => exact returns_ok (h a rfl)

end Returns

end Ironclaw.Hoare

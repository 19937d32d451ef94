import Mathlib.Tactic

/-!
# Runs of a labelled machine

A machine is a function `step : σ → α → σ`; a label carries the operation and every choice of the environment, and a
label that is not enabled leaves the state as it is.

- `run step s as` is the state after the labels `as`;
- `Along step G s as` says that every step of the run meets `G`, a condition on the state before the step;
- an invariant kept by the steps that meet `G` holds in every state of such a run (`run_inv`, `along_inv`); when only
  these steps keep it, the condition is exact (`states_iff`, `states_inv_iff`);
- what holds of a thing at the end of a run began with a step and has held ever since (`run_since`).
-/

namespace Ironclaw.Run

variable {σ α : Type*} {step : σ → α → σ} {G H : σ → α → Prop} {I : σ → Prop}

/-- The state after the labels `as`. -/
def run (step : σ → α → σ) (s : σ) (as : List α) : σ := as.foldl step s

@[simp] theorem run_nil (s : σ) : run step s [] = s := rfl

@[simp] theorem run_cons (s : σ) (a : α) (as : List α) : run step s (a :: as) = run step (step s a) as := rfl

theorem run_append (s : σ) (as bs : List α) : run step s (as ++ bs) = run step (run step s as) bs := by
  simp [run, List.foldl_append]

/-- Every step of the run from `s` meets `G`. -/
def Along (step : σ → α → σ) (G : σ → α → Prop) : σ → List α → Prop
  | _, [] => True
  | s, a :: as => G s a ∧ Along step G (step s a) as

@[simp] theorem along_nil (s : σ) : Along step G s [] := trivial

@[simp] theorem along_cons (s : σ) (a : α) (as : List α) :
    Along step G s (a :: as) ↔ G s a ∧ Along step G (step s a) as := Iff.rfl

theorem along_append : ∀ (as : List α) (s : σ) (bs : List α),
    Along step G s (as ++ bs) ↔ Along step G s as ∧ Along step G (run step s as) bs
  | [], s, bs => by simp
  | a :: as, s, bs => by simp [along_append as, and_assoc]

/-- A condition on the labels alone. -/
theorem along_of_forall {P : α → Prop} : ∀ {as : List α} {s : σ}, (∀ a ∈ as, P a) → Along step (fun _ a => P a) s as
  | [], _, _ => trivial
  | a :: _, _, h => ⟨h a List.mem_cons_self, along_of_forall fun b hb => h b (List.mem_cons_of_mem a hb)⟩

/-- A condition that follows at each label of the run. -/
theorem along_imp : ∀ {as : List α} {s : σ}, (∀ a ∈ as, ∀ s, G s a → H s a) → Along step G s as → Along step H s as
  | [], _, _, _ => trivial
  | a :: _, _, himp, h =>
    ⟨himp a List.mem_cons_self _ h.1, along_imp (fun b hb => himp b (List.mem_cons_of_mem a hb)) h.2⟩

/-- Two conditions along one run. -/
theorem along_and : ∀ {as : List α} {s : σ}, Along step G s as → Along step H s as →
    Along step (fun s a => G s a ∧ H s a) s as
  | [], _, _, _ => trivial
  | _ :: _, _, h, h' => ⟨⟨h.1, h'.1⟩, along_and h.2 h'.2⟩

/-- Labels that stand for others. -/
theorem along_map {β : Type*} (f : β → α) : ∀ (bs : List β) (s : σ),
    Along step G s (bs.map f) ↔ Along (fun s b => step s (f b)) (fun s b => G s (f b)) s bs
  | [], _ => Iff.rfl
  | b :: bs, s => by
    rw [List.map_cons, along_cons, along_cons, along_map f bs]

/-- The condition at one step of the run. -/
theorem along_at {s : σ} {pre post : List α} {a : α} (h : Along step G s (pre ++ a :: post)) :
    G (run step s pre) a :=
  ((along_append pre s (a :: post)).mp h).2.1

instance decidableAlong [∀ s a, Decidable (G s a)] : ∀ (s : σ) (as : List α), Decidable (Along step G s as)
  | _, [] => .isTrue trivial
  | s, a :: as => @instDecidableAnd _ _ _ (decidableAlong (step s a) as)

/-- **The invariant rule.** What every step meeting `G` keeps holds at the end of a run of such steps. -/
theorem run_inv (hstep : ∀ s a, G s a → I s → I (step s a)) :
    ∀ (as : List α) {s : σ}, I s → Along step G s as → I (run step s as)
  | [], _, hs, _ => hs
  | a :: as, _, hs, h => run_inv hstep as (hstep _ a h.1 hs) h.2

/-- An invariant of every step needs no condition along the run. -/
theorem run_inv_all (hstep : ∀ s a, I s → I (step s a)) (as : List α) {s : σ} (hs : I s) : I (run step s as) := by
  induction as generalizing s with
  | nil => exact hs
  | cons a as ih => exact ih (hstep s a hs)

/-- A run that meets `G` also meets what `G` and an invariant give together. -/
theorem along_inv (hstep : ∀ s a, G s a → I s → I (step s a)) (hGH : ∀ s a, G s a → I s → H s a) :
    ∀ (as : List α) {s : σ}, I s → Along step G s as → Along step H s as
  | [], _, _, _ => trivial
  | a :: as, _, hs, h => ⟨hGH _ a h.1 hs, along_inv hstep hGH as (hstep _ a h.1 hs) h.2⟩

/-- **The exact rule for a property.** The steps that meet `G` keep an invariant, which gives the property `S`, and a
step after which `S` holds meets `G`: then every state of a run meets `S` exactly when every step meets `G`. -/
theorem states_iff {S : σ → Prop} (hstep : ∀ s a, I s → G s a → I (step s a)) (hS : ∀ s, I s → S s)
    (hG : ∀ s a, I s → S (step s a) → G s a) :
    ∀ (as : List α) {s : σ}, I s → ((∀ pre, pre <+: as → S (run step s pre)) ↔ Along step G s as)
  | [], s, hs => by
    refine ⟨fun _ => trivial, fun _ pre hpre => ?_⟩
    rw [List.prefix_nil.mp hpre]
    exact hS s hs
  | a :: as, s, hs => by
    constructor
    · intro h
      have hga : G s a := hG s a hs (h [a] ⟨as, rfl⟩)
      refine ⟨hga, (states_iff hstep hS hG as (hstep s a hs hga)).mp fun pre hpre => ?_⟩
      exact h (a :: pre) (List.cons_prefix_cons.mpr ⟨rfl, hpre⟩)
    · rintro ⟨hga, hrest⟩ pre hpre
      cases pre with
      | nil => exact hS s hs
      | cons b pre =>
        obtain ⟨rfl, htail⟩ := List.cons_prefix_cons.mp hpre
        exact (states_iff hstep hS hG as (hstep s b hs hga)).mpr hrest pre htail

/-- **The exact invariant rule.** A step keeps the invariant exactly when it meets `G`: then every state of a run meets
the invariant exactly when every step meets `G`. -/
theorem states_inv_iff (hstep : ∀ s a, I s → (I (step s a) ↔ G s a)) (as : List α) {s : σ} (hs : I s) :
    (∀ pre, pre <+: as → I (run step s pre)) ↔ Along step G s as :=
  states_iff (fun s a hs => (hstep s a hs).mpr) (fun _ h => h) (fun s a hs => (hstep s a hs).mp) as hs

/-- Two conditions that agree where a third one and an invariant hold agree along the runs that meet the third. -/
theorem along_congr {K : σ → α → Prop} (hstep : ∀ s a, G s a → I s → I (step s a))
    (hiff : ∀ s a, G s a → I s → (H s a ↔ K s a)) :
    ∀ (as : List α) {s : σ}, I s → Along step G s as → (Along step H s as ↔ Along step K s as)
  | [], _, _, _ => Iff.rfl
  | a :: as, s, hs, h => by
    rw [along_cons, along_cons, hiff s a h.1 hs, along_congr hstep hiff as (hstep s a h.1 hs) h.2]

/-- Two conditions that agree under an invariant, which one of them keeps, hold along the same runs. -/
theorem along_iff_of_inv (hstep : ∀ s a, G s a → I s → I (step s a)) (hiff : ∀ s a, I s → (H s a ↔ G s a)) :
    ∀ (as : List α) {s : σ}, I s → (Along step H s as ↔ Along step G s as)
  | [], _, _ => Iff.rfl
  | a :: as, s, hs => by
    rw [along_cons, along_cons, hiff s a hs]
    refine and_congr_right fun hg => ?_
    exact along_iff_of_inv hstep hiff as (hstep s a hg hs)

/-- **The origin rule.** What holds of a thing at the end of a run held all the time, or it began with a step and has
held ever since. -/
theorem run_since {β : Type*} {P : σ → β → Prop} {Q : σ → α → β → Prop}
    (hstep : ∀ s a x, P (step s a) x → P s x ∨ Q s a x)
    {s : σ} {x : β} (as : List α) (h : P (run step s as) x) :
    (∀ pre, pre <+: as → P (run step s pre) x) ∨
      ∃ pre a post, as = pre ++ a :: post ∧ Q (run step s pre) a x ∧ ∀ mid, mid <+: post →
      P (run step s (pre ++ a :: mid)) x := by
  induction as using List.reverseRecOn with
  | nil =>
    left
    intro pre hpre
    rw [List.prefix_nil.mp hpre]
    exact h
  | append_singleton as a ih =>
    have hlast : run step s (as ++ [a]) = step (run step s as) a := run_append s as [a]
    rcases hstep _ a x (hlast ▸ h) with hbefore | hnow
    · rcases ih hbefore with hall | ⟨pre, b, post, rfl, hb, hsince⟩
      · left
        intro pre hpre
        rcases List.prefix_concat_iff.mp hpre with rfl | hpre
        · exact h
        · exact hall pre hpre
      · refine .inr ⟨pre, b, post ++ [a], by simp, hb, fun mid hmid => ?_⟩
        rcases List.prefix_concat_iff.mp hmid with rfl | hmid
        · simpa using h
        · exact hsince mid hmid
    · refine .inr ⟨as, a, [], rfl, hnow, fun mid hmid => ?_⟩
      rw [List.prefix_nil.mp hmid]
      exact h

end Ironclaw.Run

import Ironclaw.Lib.Run

/-!
# Counting windows

A counter of hits that starts afresh when its window is over: a fixed window, which begins with the event that finds the
last one over.

- `hits_le`: as long as the window is not over, it takes no more hits than its limit;
- `hits_interval_le`: any interval of the length of a window meets at most two windows;
- `hits_between`, `exists_since_reset`: the hits between two resets, and those that a window has counted.
-/

namespace Ironclaw

open Run

structure Window where
  start : Nat
  count : Nat

namespace Window

variable (d limit : Nat)

/-- The window is over. -/
def Over (w : Window) (now : Nat) : Prop := d ≤ now - w.start

instance (w : Window) (now : Nat) : Decidable (w.Over d now) := inferInstanceAs (Decidable (d ≤ now - w.start))

/-- The window at a time: a new one when it is over. -/
def roll (w : Window) (now : Nat) : Window := if w.Over d now then ⟨now, 0⟩ else w

/-- The window after an event, which is a hit or none. -/
def next (w : Window) (e : Nat × Bool) : Window :=
  if e.2 then { w.roll d e.1 with count := (w.roll d e.1).count + 1 } else w.roll d e.1

/-- A hit finds a place. -/
def Admits (w : Window) (e : Nat × Bool) : Prop := e.2 = true → (w.roll d e.1).count < limit

variable {d limit} {w : Window}

theorem roll_of_over {now : Nat} (h : w.Over d now) : w.roll d now = ⟨now, 0⟩ := if_pos h

theorem roll_of_not_over {now : Nat} (h : ¬w.Over d now) : w.roll d now = w := if_neg h

theorem next_start (e : Nat × Bool) : (w.next d e).start = (w.roll d e.1).start := by
  unfold next
  split <;> rfl

theorem next_count (e : Nat × Bool) : (w.next d e).count = (w.roll d e.1).count + if e.2 then 1 else 0 := by
  unfold next
  split <;> rfl

theorem next_count_le {e : Nat × Bool} (hcount : w.count ≤ limit) (h : Admits d limit w e) :
    (w.next d e).count ≤ limit := by
  have hroll : (w.roll d e.1).count ≤ limit := by
    unfold roll
    split
    · exact Nat.zero_le limit
    · exact hcount
  rw [next_count]
  split
  next hhit => exact h hhit
  · exact hroll

/-- **Within a window.** While the window is not over, it takes no more hits than its limit. -/
theorem hits_le : ∀ (es : List (Nat × Bool)) {w : Window}, w.count ≤ limit → Along (next d) (Admits d limit) w es →
    Along (next d) (fun w e => ¬w.Over d e.1) w es → w.count + es.countP Prod.snd ≤ limit
  | [], _, hcount, _, _ => hcount
  | e :: es, w, hcount, hadmits, hover => by
    have hnext : (w.next d e).count = w.count + if e.2 then 1 else 0 := by
      rw [next_count, roll_of_not_over hover.1]
    have ih := hits_le es (next_count_le hcount hadmits.1) hadmits.2 hover.2
    rw [hnext] at ih
    rw [List.countP_cons]
    omega

/-! ## Intervals -/

/-- The hits in the interval of the length of a window that begins at `t`. -/
def hitsFrom (d t : Nat) (es : List (Nat × Bool)) : Nat := es.countP fun e => e.2 && decide (t ≤ e.1 ∧ e.1 ≤ t + d)

theorem hitsFrom_cons (t : Nat) (e : Nat × Bool) (es : List (Nat × Bool)) :
    hitsFrom d t (e :: es) = hitsFrom d t es + if e.2 = true ∧ t ≤ e.1 ∧ e.1 ≤ t + d then 1 else 0 := by
  simp [hitsFrom, List.countP_cons]

theorem hitsFrom_late {t : Nat} {es : List (Nat × Bool)} (h : ∀ e ∈ es, t + d < e.1) : hitsFrom d t es = 0 := by
  refine List.countP_eq_zero.mpr fun e he hhit => ?_
  have hlate := h e he
  simp only [Bool.and_eq_true, decide_eq_true_eq] at hhit
  omega

/-- What is left of the limits for the interval: a window that begins in it is the last one there, and one that it
begins in is followed by at most one. -/
def room (d limit t : Nat) (w : Window) : Nat :=
  if t < w.start then limit - w.count else if t < w.start + d then 2 * limit - w.count else 2 * limit

/-- A hit in the interval takes one place, and the room never grows there. -/
theorem room_next {t : Nat} {e : Nat × Bool} (hpos : 0 < d) (hcount : w.count ≤ limit) (h : Admits d limit w e)
    (hle : e.1 ≤ t + d) : room d limit t (w.next d e) + (if e.2 = true ∧ t ≤ e.1 ∧ e.1 ≤ t + d then 1 else 0) ≤
      room d limit t w := by
  have hstart := next_start (w := w) (d := d) e
  have hcount' := next_count (w := w) (d := d) e
  have hadmits : e.2 = true → (w.roll d e.1).count < limit := h
  unfold room
  by_cases hover : w.Over d e.1
  · rw [roll_of_over hover] at hstart hcount' hadmits
    unfold Over at hover
    rw [hstart, hcount']
    dsimp only at hadmits ⊢
    split_ifs <;> simp_all <;> omega
  · rw [roll_of_not_over hover] at hstart hcount' hadmits
    unfold Over at hover
    rw [hstart, hcount']
    split_ifs <;> simp_all <;> omega

theorem hitsFrom_le_room {t : Nat} (hpos : 0 < d) : ∀ (es : List (Nat × Bool)) {w : Window}, w.count ≤ limit →
    es.Pairwise (fun a b => a.1 ≤ b.1) → Along (next d) (Admits d limit) w es → hitsFrom d t es ≤ room d limit t w
  | [], _, _, _, _ => Nat.zero_le _
  | e :: es, w, hcount, hsorted, hadmits => by
    obtain ⟨hfirst, hsorted⟩ := List.pairwise_cons.mp hsorted
    by_cases hle : e.1 ≤ t + d
    · have ih := hitsFrom_le_room (t := t) hpos es (next_count_le hcount hadmits.1) hsorted hadmits.2
      have hroom := room_next (t := t) hpos hcount hadmits.1 hle
      rw [hitsFrom_cons]
      omega
    · have hlate : ∀ e' ∈ e :: es, t + d < e'.1 := by
        intro e' he'
        rcases List.mem_cons.mp he' with rfl | he'
        · exact Nat.not_le.mp hle
        · exact Nat.lt_of_lt_of_le (Nat.not_le.mp hle) (hfirst e' he')
      rw [hitsFrom_late hlate]
      exact Nat.zero_le _

/-- **Any interval** of the length of a window takes at most twice the limit. -/
theorem hits_interval_le (hpos : 0 < d) (hcount : w.count ≤ limit) (t : Nat) {es : List (Nat × Bool)}
    (hsorted : es.Pairwise fun a b => a.1 ≤ b.1) (hadmits : Along (next d) (Admits d limit) w es) :
    hitsFrom d t es ≤ 2 * limit := by
  refine (hitsFrom_le_room hpos es hcount hsorted hadmits).trans ?_
  unfold room
  split_ifs <;> omega

/-! ## Records -/

section Records

variable {α : Type*} {window : α → Window} {event : α → Nat × Bool}

/-- The records of a counting window: each tells the window before its event and the event. -/
def Recorded (d : Nat) (window : α → Window) (event : α → Nat × Bool) (w : Window) (es : List α) : Prop :=
  Along (fun w e => w.next d (event e)) (fun w e => w = window e) w es

/-- **Between two resets** no more hits are admitted than the limit. -/
theorem hits_between {es seg : List α} (hcount : w.count ≤ limit) (h : Recorded d window event w es)
    (hadmits : ∀ e ∈ es, Admits d limit (window e) (event e)) (hseg : seg <:+: es)
    (hresets : ∀ e ∈ seg.tail, ¬(window e).Over d (event e).1) : seg.countP (fun e => (event e).2) ≤ limit := by
  obtain ⟨pre, post, rfl⟩ := hseg
  have hboth := along_and h (along_of_forall hadmits)
  rw [List.append_assoc, along_append, along_append] at hboth
  obtain ⟨hpre, hmid, -⟩ := hboth
  cases seg with
  | nil => exact Nat.zero_le _
  | cons e seg =>
    have hfirst := run_inv (I := fun w => w.count ≤ limit)
      (fun w e h hle => next_count_le hle (by rw [h.1]; exact h.2)) pre hcount hpre
    generalize run (fun w e => w.next d (event e)) w pre = w' at hmid hfirst
    obtain ⟨⟨rfl, hfirstAdmits⟩, hrest⟩ := hmid
    have hrestAdmits : Along (next d) (Admits d limit) ((window e).next d (event e)) (seg.map event) := by
      rw [along_map]
      exact along_imp (fun e' _ w hw => by rw [hw.1]; exact hw.2) hrest
    have hover : Along (next d) (fun w e => ¬w.Over d e.1) ((window e).next d (event e)) (seg.map event) := by
      rw [along_map]
      exact along_imp (fun e' he' w hw => by rw [hw.1]; exact hresets e' he') hrest
    have hhits := hits_le _ (next_count_le hfirst hfirstAdmits) hrestAdmits hover
    rw [next_count, List.countP_map] at hhits
    rw [List.countP_cons]
    have hsame : seg.countP (Prod.snd ∘ event) = seg.countP fun e => (event e).2 := rfl
    omega

/-- **Since the last reset** the window has counted the hits, and nothing else. -/
theorem exists_since_reset (hcount : w.count = 0) (es : List α) (h : Recorded d window event w es) :
    ∃ seg, seg <:+ es ∧ (∀ e ∈ seg.tail, ¬(window e).Over d (event e).1) ∧
      (run (fun w e => w.next d (event e)) w es).count = seg.countP fun e => (event e).2 := by
  induction es using List.reverseRecOn with
  | nil => exact ⟨[], List.suffix_refl [], nofun, hcount⟩
  | append_singleton es e ih =>
    obtain ⟨hes, he, -⟩ := (along_append es w [e]).mp h
    obtain ⟨seg, hseg, hresets, hsame⟩ := ih hes
    rw [run_append, run_cons, run_nil, next_count]
    by_cases hover : (run (fun w e => w.next d (event e)) w es).Over d (event e).1
    · refine ⟨[e], List.suffix_append es [e], nofun, ?_⟩
      rw [roll_of_over hover]
      simp [List.countP_cons]
    · refine ⟨seg ++ [e], ?_, ?_, ?_⟩
      · obtain ⟨pre, rfl⟩ := hseg
        exact ⟨pre, (List.append_assoc _ _ _).symm⟩
      · cases seg with
        | nil => exact nofun
        | cons a seg =>
          intro x hx
          rcases List.mem_append.mp hx with hx | hx
          · exact hresets x hx
          · rw [List.mem_singleton.mp hx, ← he]
            exact hover
      · rw [roll_of_not_over hover, hsame, List.countP_append]
        simp [List.countP_cons]

end Records

end Window

end Ironclaw

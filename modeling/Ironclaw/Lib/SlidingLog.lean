import Mathlib.Data.List.Basic
import Mathlib.Data.List.DropRight

/-!
# Sliding windows

A log of event times. An event is let through when the log has fewer than `limit` entries of the last `d` units of time;
then no window of that length meets more than `limit` of them. A log may also keep its last entries only.

- `rtake_rtake_concat`: what is dropped from the front of a bounded log is never asked for again;
- `recent_recent`: what is dropped from the log as too old is never asked for again;
- `inWindow_concat_le`: one more event, let through, keeps the bound of every window.
-/

namespace Ironclaw.SlidingLog

/-- Cutting a log to its last `n` entries before one more is added changes nothing. -/
theorem rtake_rtake_concat {α : Type*} (n : Nat) (l : List α) (x : α) :
    (l.rtake n ++ [x]).rtake n = (l ++ [x]).rtake n := by
  cases n with
  | zero => rw [List.rtake_zero, List.rtake_zero]
  | succ n =>
    have hrest : (l.rtake (n + 1)).rtake n = l.rtake n := by
      simp only [List.rtake, List.length_drop, List.drop_drop]
      congr 1
      omega
    rw [List.rtake_concat_succ, List.rtake_concat_succ, hrest]

variable (d : Nat)

/-- The entries of the last `d` units. -/
def recent (now : Nat) (log : List Nat) : List Nat := log.filter fun t => now - d ≤ t

/-- The entries of the window that begins at `start`. -/
def inWindow (start : Nat) (log : List Nat) : List Nat := log.filter fun t => start ≤ t ∧ t ≤ start + d

theorem recent_recent {now now' : Nat} (h : now ≤ now') (log : List Nat) :
    recent d now' (recent d now log) = recent d now' log := by
  rw [recent, recent, recent, List.filter_filter]
  refine List.filter_congr fun t _ => ?_
  rw [← Bool.decide_and]
  exact decide_eq_decide.mpr ⟨And.left, fun ht => ⟨ht, by omega⟩⟩

/-- What a window that the event is in has of the log is recent. -/
theorem length_inWindow_le {now start : Nat} (h : now ≤ start + d) (log : List Nat) :
    (inWindow d start log).length ≤ (recent d now log).length := by
  rw [inWindow, recent, ← List.countP_eq_length_filter, ← List.countP_eq_length_filter]
  refine List.countP_mono_left fun t _ ht => ?_
  rw [decide_eq_true_iff] at ht ⊢
  omega

/-- One more event, when there were fewer than `limit` recent ones. -/
theorem inWindow_concat_le {limit now : Nat} {log : List Nat} (hlog : ∀ start, (inWindow d start log).length ≤ limit)
    (hadmitted : (recent d now log).length < limit) (start : Nat) :
    (inWindow d start (log ++ [now])).length ≤ limit := by
  have hsplit : inWindow d start (log ++ [now]) = inWindow d start log ++ inWindow d start [now] :=
    List.filter_append log [now]
  have hone : (inWindow d start [now]).length ≤ 1 := List.length_filter_le _ [now]
  rw [hsplit, List.length_append]
  by_cases hin : now ≤ start + d
  · have hold := length_inWindow_le d hin log
    omega
  · have hnone : inWindow d start [now] = [] :=
      List.filter_eq_nil_iff.mpr fun t ht hwin => hin (List.mem_singleton.mp ht ▸ (of_decide_eq_true hwin).2)
    rw [hnone]
    exact hlog start

end Ironclaw.SlidingLog

import Ironclaw.Lib.Rewrite
import Ironclaw.Safety.Prefilter

/-!
# Redaction

What the text keeps when ranges are redacted. The cursor of `apply_redactions` is the end of the last range, so a range
that lies inside an earlier one moves it back; when the ranges end in the order in which they start, only text outside
all ranges is copied.

- `exists_of_redacted`: a match in the redacted text lies in a part of the text outside all ranges;
- `not_contains_cleaned`: the leak detector passes on a text without matches of the patterns that block or are redacted.
-/

namespace Ironclaw.Safety

open Text Regex

def REDACTED : Str := "[REDACTED]".toList

/-- `apply_redactions` from a range on, with the cursor at `lastEnd`. -/
def redactFrom (content : Str) : (lastEnd : Nat) → List (Nat × Nat) → Str
  | lastEnd, [] => if lastEnd < content.length then content.drop lastEnd else []
  | lastEnd, range :: ranges =>
    (if lastEnd < range.1 then slice content lastEnd range.1 else []) ++ REDACTED ++ redactFrom content range.2 ranges

/-- The loop of `apply_redactions` adds to what it has copied so far. -/
theorem redact_fold (content : Str) : ∀ (ranges : List (Nat × Nat)) (acc : Str × Nat),
    (let res := ranges.foldl (fun (acc : Str × Nat) range =>
      ((if acc.2 < range.1 then acc.1 ++ slice content acc.2 range.1 else acc.1) ++ REDACTED, range.2)) acc
    if res.2 < content.length then res.1 ++ content.drop res.2 else res.1) = acc.1 ++ redactFrom content acc.2 ranges
  | [], acc => by
    rw [List.foldl_nil, redactFrom]
    by_cases hlt : acc.2 < content.length
    · exact (if_pos hlt).trans (congrArg (acc.1 ++ ·) (if_pos hlt)).symm
    · rw [if_neg hlt, if_neg hlt, List.append_nil]
  | range :: ranges, acc => by
    rw [List.foldl_cons]
    refine (redact_fold content ranges _).trans ?_
    simp only [redactFrom]
    split
    · simp only [List.append_assoc]
    · simp only [List.append_assoc, List.nil_append]

theorem applyRedactions_eq {content : Str} {ranges : List (Nat × Nat)} (hne : ranges ≠ []) :
    applyRedactions content ranges = redactFrom content 0 ranges := by
  unfold applyRedactions
  rw [if_neg (by rw [List.isEmpty_iff]; exact hne)]
  exact (redact_fold content ranges ([], 0)).trans (List.nil_append _)

/-- The characters of the redacted text. -/
theorem mem_redactFrom {content : Str} {c : Char} : ∀ {ranges : List (Nat × Nat)} {lastEnd : Nat},
    c ∈ redactFrom content lastEnd ranges → c ∈ content ∨ c ∈ REDACTED
  | [], lastEnd, h => by
    rw [redactFrom] at h
    split at h
    · exact .inl (List.mem_of_mem_drop h)
    · cases h
  | range :: ranges, lastEnd, h => by
    rw [redactFrom, List.mem_append, List.mem_append] at h
    rcases h with (h | h) | h
    · split at h
      · exact .inl (List.mem_of_mem_drop (List.mem_of_mem_take h))
      · cases h
    · exact .inr h
    · exact mem_redactFrom h

theorem mem_applyRedactions {content : Str} {ranges : List (Nat × Nat)} {c : Char}
    (h : c ∈ applyRedactions content ranges) : c ∈ content ∨ c ∈ REDACTED := by
  rcases eq_or_ne ranges [] with rfl | hne
  · exact .inl h
  · rw [applyRedactions_eq hne] at h
    exact mem_redactFrom h

/-- No word reaches into the text that stands for a secret. -/
def redactSafe (a : Ast) : Bool := avoids '[' a && diesWithin a "REDACTED]".toList

theorem contains_of_redacted {a : Ast} (ha : redactSafe a = true) {x y : Str} (h : Contains a (x ++ REDACTED ++ y)) :
    Contains a x ∨ Contains a y := by
  obtain ⟨hav, hdies⟩ := Bool.and_eq_true_iff.mp ha
  have hsplit : x ++ REDACTED ++ y = x ++ '[' :: ("REDACTED]".toList ++ y) := by
    rw [List.append_assoc]
    rfl
  rw [hsplit] at h
  rcases contains_of_separator hav h with h | h
  · exact .inl h
  · exact .inr (contains_of_diesWithin hdies h)

/-- A word in the redacted text lies in a part of the text that meets no range. -/
theorem contains_redactFrom {a : Ast} (ha : redactSafe a = true) (hnull : nullable a = false) {content : Str} :
    ∀ (ranges : List (Nat × Nat)) (lastEnd : Nat), ranges.Pairwise (fun r r' => r.1 ≤ r'.1) →
      ranges.Pairwise (fun r r' => r.2 ≤ r'.2) → (∀ r ∈ ranges, lastEnd ≤ r.2) →
      Contains a (redactFrom content lastEnd ranges) →
      ∃ lo hi, lastEnd ≤ lo ∧ Contains a (slice content lo hi) ∧ ∀ r ∈ ranges, r.2 ≤ lo ∨ hi ≤ r.1
  | [], lastEnd, _, _, _, h => by
    refine ⟨lastEnd, content.length, Nat.le_refl _, ?_, fun r hr => by cases hr⟩
    simp only [redactFrom] at h
    split at h
    · unfold slice
      rw [List.take_of_length_le (by rw [List.length_drop])]
      exact h
    · exact absurd h (not_contains_nil hnull)
  | range :: ranges, lastEnd, hstart, hend, hlast, h => by
    obtain ⟨hs, hstart⟩ := List.pairwise_cons.mp hstart
    obtain ⟨he, hend⟩ := List.pairwise_cons.mp hend
    simp only [redactFrom] at h
    rcases contains_of_redacted ha h with h | h
    · -- before the range
      refine ⟨lastEnd, range.1, Nat.le_refl _, ?_, fun r hr => .inr ?_⟩
      · split at h
        · exact h
        · exact absurd h (not_contains_nil hnull)
      · rcases List.mem_cons.mp hr with rfl | hr
        · exact Nat.le_refl _
        · exact hs r hr
    · obtain ⟨lo, hi, hlo, hc, hout⟩ := contains_redactFrom ha hnull ranges range.2 hstart hend he h
      have hle := hlast range List.mem_cons_self
      refine ⟨lo, hi, by omega, hc, fun r hr => ?_⟩
      rcases List.mem_cons.mp hr with rfl | hr
      · exact .inl hlo
      · exact hout r hr

/-- Where a word in a slice lies in the text. -/
theorem exists_of_slice {a : Ast} (hnull : nullable a = false) {content : Str} {lo hi : Nat}
    (h : Contains a (slice content lo hi)) :
    ∃ x u y, Lang a u ∧ u ≠ [] ∧ content = x ++ (u ++ y) ∧ lo ≤ x.length ∧ x.length + u.length ≤ hi := by
  obtain ⟨u, hu, p, q, hpq⟩ := h
  have hne : u ≠ [] := by
    rintro rfl
    rw [nullable_of_lang hu] at hnull
    cases hnull
  have hpos := List.length_pos_iff.mpr hne
  have hlen := congrArg List.length hpq
  unfold slice at hpq hlen
  rw [List.length_append, List.length_append, List.length_take, List.length_drop] at hlen
  refine ⟨content.take lo ++ p, u, q ++ (content.drop lo).drop (hi - lo), hu, hne, ?_, ?_, ?_⟩
  · have hdrop := List.take_append_drop (hi - lo) (content.drop lo)
    rw [← hpq] at hdrop
    simp only [List.append_assoc] at hdrop ⊢
    rw [hdrop, List.take_append_drop]
  · rw [List.length_append, List.length_take]
    omega
  · rw [List.length_append, List.length_take]
    omega

/-! ## The scan -/

section Scan

variable {isWord : Char → Bool}

/-- Each word of a text starts in a match that is found. -/
theorem covered_of_lang {a : Ast} (hplain : plain a = true) (hnull : nullable a = false) {x u y : Str} (hu : Lang a u) :
    ∃ r ∈ findIter isWord a (x ++ (u ++ y)), r.1 ≤ x.length ∧ x.length < r.2 := by
  refine covered_of_run isWord ?_ ((run_ne_nil_iff hplain ⟨x.reverse, u ++ y⟩).mpr ⟨u, hu, y, rfl⟩)
  intro p q hq
  obtain ⟨v, hv, hread⟩ := (mem_run_iff isWord a hplain p q).mp hq
  have hlen := hread.length
  have hpos : 0 < v.length := by
    refine List.length_pos_iff.mpr ?_
    rintro rfl
    rw [nullable_of_lang hv] at hnull
    cases hnull
  omega

/-- The scan passes a text on when no match blocks it, with the ranges of the redacted matches replaced. -/
theorem scanAndClean_ok {det : LeakDetector} {content cleaned : Str}
    (h : det.scanAndClean isWord content = .ok cleaned) :
    (∀ m ∈ det.foundMatches isWord content, m.action ≠ .block) ∧
      cleaned = applyRedactions content (det.redactRanges isWord content) := by
  unfold LeakDetector.scanAndClean at h
  simp only at h
  split at h
  · cases h
  next hblock =>
    refine ⟨fun m hm hact => hblock (List.any_eq_true.mpr ⟨m, hm, decide_eq_true hact⟩), ?_⟩
    have hc : ((det.scan isWord content).redactedContent.getD content) = cleaned := by
      injection h
    rw [← hc]
    simp only [LeakDetector.scan, LeakDetector.redactRanges, DetectorOf.scan]
    split
    next hempty =>
      rw [applyRedactions, if_pos hempty]
      rfl
    · rfl

/-- The matches of a pattern that is tried are found. -/
theorem found_of_candidate {det : LeakDetector} {content : Str} {i : Nat} {p : LeakPattern} {r : Nat × Nat}
    (hcand : i ∈ det.candidateIndices content) (hp : det.patterns[i]? = some p)
    (hr : r ∈ findIter isWord p.regex.ast content) :
    ∃ m ∈ det.foundMatches isWord content, m.action = p.action ∧ m.location = r := by
  refine ⟨_, (det.mem_foundMatches (compiled isWord)).mpr ⟨i, hcand, p, hp, List.mem_map_of_mem hr⟩, ?_, ?_⟩
  · rfl
  · rfl

/-- The tests on a pattern for the text that is passed on. -/
def redactable (a : Ast) : Bool := plain a && !nullable a && redactSafe a

theorem redactable_default {p : LeakPattern} (hp : p ∈ defaultPatterns) (hact : p.action ≠ .warn) :
    plain p.regex.ast = true ∧ nullable p.regex.ast = false ∧ redactSafe p.regex.ast = true := by
  have hall : defaultPatterns.all (fun p => decide (p.action = .warn) || redactable p.regex.ast) = true := by
    unfold defaultPatterns
    repeat rw [Regex.new_ofList]
    decide +kernel
  have h := List.all_eq_true.mp hall p hp
  rw [decide_eq_false hact, Bool.false_or, redactable, Bool.and_eq_true_iff, Bool.and_eq_true_iff,
    Bool.not_eq_true'] at h
  exact ⟨h.1.1, h.1.2, h.2⟩

/-- The ranges that are redacted end in the order in which they start. -/
def RangesInOrder (isWord : Char → Bool) (content : Str) : Prop :=
  (LeakDetector.new.redactRanges isWord content).Pairwise fun r r' => r.2 ≤ r'.2

/-- A word in the text that is passed on lies outside all ranges. -/
theorem exists_of_redacted {a : Ast} (ha : redactSafe a = true) (hnull : nullable a = false) {content : Str}
    (hord : RangesInOrder isWord content)
    (h : Contains a (applyRedactions content (LeakDetector.new.redactRanges isWord content))) :
    ∃ x u y, Lang a u ∧ u ≠ [] ∧ content = x ++ (u ++ y) ∧
      ∀ r ∈ LeakDetector.new.redactRanges isWord content, r.2 ≤ x.length ∨ x.length + u.length ≤ r.1 := by
  obtain ⟨lo, hi, hc, hout⟩ : ∃ lo hi, Contains a (slice content lo hi) ∧
      ∀ r ∈ LeakDetector.new.redactRanges isWord content, r.2 ≤ lo ∨ hi ≤ r.1 := by
    rcases eq_or_ne (LeakDetector.new.redactRanges isWord content) [] with hnil | hne
    · rw [hnil]
      rw [hnil] at h
      refine ⟨0, content.length, ?_, fun r hr => by cases hr⟩
      unfold slice
      rw [List.drop_zero, Nat.sub_zero, List.take_length]
      exact h
    · rw [applyRedactions_eq hne] at h
      obtain ⟨lo, hi, -, hc, hout⟩ := contains_redactFrom ha hnull _ 0 (DetectorOf.redactRanges_sorted _ _ content) hord
        (fun r _ => Nat.zero_le _) h
      exact ⟨lo, hi, hc, hout⟩
  obtain ⟨x, u, y, hu, hne, hcontent, hlo, hhi⟩ := exists_of_slice hnull hc
  refine ⟨x, u, y, hu, hne, hcontent, fun r hr => ?_⟩
  rcases hout r hr with hr | hr
  · exact .inl (Nat.le_trans hr hlo)
  · exact .inr (Nat.le_trans hhi hr)

/-- The text that the leak detector passes on has no match of a pattern that blocks or is redacted, if no prefix is
hidden and the ranges are in order. -/
theorem not_contains_cleaned {content cleaned : Str} (hid : NotHidden isWord content)
    (hord : RangesInOrder isWord content)
    (h : LeakDetector.new.scanAndClean isWord content = .ok cleaned) {p : LeakPattern} (hp : p ∈ defaultPatterns)
    (hact : p.action ≠ .warn) : ¬Contains p.regex.ast cleaned := by
  obtain ⟨hplain, hnull, hsafe⟩ := redactable_default hp hact
  obtain ⟨hblock, rfl⟩ := scanAndClean_ok h
  intro hc
  obtain ⟨x, u, y, hu, hne, hcontent, hout⟩ := exists_of_redacted hsafe hnull hord hc
  obtain ⟨r, hr, hle, hlt⟩ := covered_of_lang (x := x) (y := y) hplain hnull hu
  rw [← hcontent] at hr
  obtain ⟨i, hi⟩ := List.getElem?_of_mem hp
  have hcand := (candidates_iff_notHidden isWord content).mpr hid i p hi (List.ne_nil_of_mem hr)
  obtain ⟨m, hm, hmact, hloc⟩ := found_of_candidate hcand hi hr
  cases haction : p.action with
  | block => exact hblock m hm (hmact.trans haction)
  | redact =>
    have hpos := List.length_pos_iff.mpr hne
    rcases hout r ((DetectorOf.mem_redactRanges _ _).mpr ⟨m, hm, hmact.trans haction, hloc⟩) with h | h
    · omega
    · omega
  | warn => exact hact haction

end Scan

end Ironclaw.Safety

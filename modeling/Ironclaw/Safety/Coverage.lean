import Ironclaw.Lib.Splice
import Ironclaw.Safety.Redaction

/-!
# What redaction covers

For the scan of a text with any engine for regular expressions, a trace says of each character of the redacted text from
which position it was copied. Two things keep the trace from being the positions outside the matches:
a pattern that is not tried because its literal prefix is not found, and a match that ends before an earlier one.

- `redaction_covers_iff`: when just the positions outside the matches are copied.
-/

namespace Ironclaw.Safety

open Text Splice

/-! ## The trace -/

theorem redactFrom_eq (content : Str) : ∀ (ranges : List (Nat × Nat)) (lastEnd : Nat),
    redactFrom content lastEnd ranges = splice REDACTED content lastEnd ranges
  | [], lastEnd => by
    rw [redactFrom, splice]
    split
    · rfl
    next h => exact (List.drop_eq_nil_of_le (Nat.not_lt.mp h)).symm
  | range :: ranges, lastEnd => by
    have ih := redactFrom_eq content ranges range.2
    rw [redactFrom, splice, ih]
    split
    · rfl
    next h =>
      have hzero : range.1 - lastEnd = 0 := Nat.sub_eq_zero_of_le (Nat.not_lt.mp h)
      rw [hzero, List.take_zero]

/-- The characters of the text with their positions. -/
def positions (content : Str) : List (Char × Option Nat) := content.zipIdx.map fun c => (c.1, some c.2)

section Trace

variable {R : Type} (E : Engine R) (det : DetectorOf R) (content : Str)

/-- The redacted text, where each character that is copied has the position it is copied from. -/
def DetectorOf.trace : List (Char × Option Nat) :=
  splice (REDACTED.map fun c => (c, none)) (positions content) 0 (det.redactRanges E content)

/-- The positions that are copied, in their order in the redacted text. -/
def DetectorOf.copied : List Nat := (det.trace E content).filterMap Prod.snd

theorem trace_text : (det.trace E content).map Prod.fst = (det.scan E content).redactedContent.getD content := by
  have hmark : (REDACTED.map fun c => (c, (none : Option Nat))).map Prod.fst = REDACTED := by
    rw [List.map_map]
    exact List.map_id _
  have hcontent : (positions content).map Prod.fst = content := by
    rw [positions, List.map_map]
    exact List.zipIdx_map_fst 0 content
  rw [DetectorOf.trace, map_splice, hmark, hcontent]
  by_cases hnil : det.redactRanges E content = []
  · have hempty : (det.redactRanges E content).isEmpty = true := List.isEmpty_iff.mpr hnil
    simp only [DetectorOf.scan, hempty, if_true, Option.getD_none]
    rw [hnil, splice, List.drop_zero]
  · have hempty : ¬(det.redactRanges E content).isEmpty = true := fun h => hnil (List.isEmpty_iff.mp h)
    simp only [DetectorOf.scan, hempty, if_false, Bool.false_eq_true, Option.getD_some]
    rw [applyRedactions_eq hnil, redactFrom_eq]

/-- What is copied stands at its position. -/
theorem trace_source {c : Char} {i : Nat} (h : (c, some i) ∈ det.trace E content) : content[i]? = some c := by
  rcases mem_splice h with h | h
  · obtain ⟨⟨d, j⟩, hd, heq⟩ := List.mem_map.mp h
    obtain ⟨rfl, hj⟩ := Prod.mk.inj heq
    obtain rfl := Option.some.inj hj
    exact List.mem_zipIdx_iff_getElem?.mp hd
  · obtain ⟨d, -, heq⟩ := List.mem_map.mp h
    cases (Prod.mk.inj heq).2

theorem copied_eq : det.copied E content = kept content.length 0 (det.redactRanges E content) := by
  have hmark : (REDACTED.map fun c => (c, (none : Option Nat))).map Prod.snd = REDACTED.map fun _ => none := by
    rw [List.map_map]
    rfl
  have hcontent : (positions content).map Prod.snd = (List.range content.length).map some := by
    rw [positions, List.map_map, List.range_eq_range', ← List.zipIdx_map_snd 0 content, List.map_map]
    rfl
  have hsnd : ∀ l : List (Char × Option Nat), l.filterMap Prod.snd = (l.map Prod.snd).filterMap id := by
    intro l
    rw [List.filterMap_map]
    rfl
  rw [DetectorOf.copied, DetectorOf.trace, hsnd, map_splice, hmark, hcontent, filterMap_splice]
  rfl

/-! ## The positions that should be copied -/

/-- A position lies in a match of a pattern whose matches are redacted. -/
def Secret (patterns : List (PatternOf R)) (q : Nat) : Prop :=
  ∃ p ∈ patterns, p.action = .redact ∧ Inside (E.findIter p.regex content) q

instance (patterns : List (PatternOf R)) (q : Nat) : Decidable (Secret E content patterns q) :=
  inferInstanceAs (Decidable (∃ p ∈ patterns, p.action = .redact ∧ Inside (E.findIter p.regex content) q))

/-- A position lies in a match of a pattern that is tried and whose matches are redacted. -/
def DetectorOf.SecretTried (q : Nat) : Prop :=
  ∃ i ∈ det.candidateIndices content, ∃ p, det.patterns[i]? = some p ∧ p.action = .redact ∧
    Inside (E.findIter p.regex content) q

/-- Where a pattern that is not tried would match, one that is tried does. -/
def DetectorOf.HiddenCovered : Prop :=
  ∀ i p, det.patterns[i]? = some p → p.action = .redact → i ∉ det.candidateIndices content →
    ∀ q, Inside (E.findIter p.regex content) q → det.SecretTried E content q

theorem mem_redactRangesOf {r : Nat × Nat} : r ∈ det.redactRanges E content ↔
    ∃ i ∈ det.candidateIndices content, ∃ p, det.patterns[i]? = some p ∧ p.action = .redact ∧
      r ∈ E.findIter p.regex content := by
  rw [DetectorOf.mem_redactRanges]
  constructor
  · rintro ⟨m, hm, haction, rfl⟩
    obtain ⟨i, hi, p, hp, hm⟩ := (det.mem_foundMatches E).mp hm
    obtain ⟨range, hrange, rfl⟩ := List.mem_map.mp hm
    exact ⟨i, hi, p, hp, haction, hrange⟩
  · rintro ⟨i, hi, p, hp, haction, hr⟩
    exact ⟨_, (det.mem_foundMatches E).mpr ⟨i, hi, p, hp, List.mem_map_of_mem hr⟩, haction, rfl⟩

theorem inside_redactRanges (q : Nat) : Inside (det.redactRanges E content) q ↔ det.SecretTried E content q := by
  constructor
  · rintro ⟨r, hr, hq⟩
    obtain ⟨i, hi, p, hp, haction, hr⟩ := (mem_redactRangesOf E det content).mp hr
    exact ⟨i, hi, p, hp, haction, r, hr, hq⟩
  · rintro ⟨i, hi, p, hp, haction, r, hr, hq⟩
    exact ⟨r, (mem_redactRangesOf E det content).mpr ⟨i, hi, p, hp, haction, hr⟩, hq⟩

theorem redactRangesOf_sorted : Sorted content.length (det.redactRanges E content) := by
  refine ⟨fun r hr => ?_, ?_⟩
  · obtain ⟨i, hi, p, hp, haction, hr⟩ := (mem_redactRangesOf E det content).mp hr
    exact E.within hr
  · exact det.redactRanges_sorted E content

theorem secret_of_tried {q : Nat} (h : det.SecretTried E content q) : Secret E content det.patterns q := by
  obtain ⟨i, -, p, hp, haction, hq⟩ := h
  exact ⟨p, List.mem_of_getElem? hp, haction, hq⟩

theorem hiddenCovered_iff : det.HiddenCovered E content ↔
    ∀ q, Secret E content det.patterns q → det.SecretTried E content q := by
  constructor
  · rintro h q ⟨p, hp, haction, hq⟩
    obtain ⟨i, hi⟩ := List.getElem?_of_mem hp
    by_cases hcand : i ∈ det.candidateIndices content
    · exact ⟨i, hcand, p, hi, haction, hq⟩
    · exact h i p hi haction hcand q hq
  · intro h i p hp haction _ q hq
    exact h q ⟨p, List.mem_of_getElem? hp, haction, hq⟩

theorem copied_eq_iff :
    det.copied E content = (List.range content.length).filter (fun q => ¬Secret E content det.patterns q) ↔
    det.HiddenCovered E content ∧ EndsCovered (det.redactRanges E content) := by
  have hsorted := redactRangesOf_sorted E det content
  rw [copied_eq, hiddenCovered_iff]
  constructor
  · intro hcopied
    have hhidden : ∀ q, Secret E content det.patterns q → det.SecretTried E content q := by
      intro q hq
      by_contra hnot
      rw [← inside_redactRanges] at hnot
      have hlt : q < content.length := by
        obtain ⟨p, hp, haction, r, hr, -, hend⟩ := hq
        exact Nat.lt_of_lt_of_le hend (E.within hr).2
      have hmem := kept_of_not_inside hlt hnot
      rw [hcopied] at hmem
      exact of_decide_eq_true (List.mem_filter.mp hmem).2 hq
    refine ⟨hhidden, endsCovered_of_kept hsorted fun q hq hin => ?_⟩
    rw [hcopied] at hq
    have hsecret := secret_of_tried E det content ((inside_redactRanges E det content q).mp hin)
    exact of_decide_eq_true (List.mem_filter.mp hq).2 hsecret
  · rintro ⟨hhidden, hends⟩
    rw [(kept_eq_filter_iff hsorted).mpr hends]
    refine List.filter_congr fun q _ => ?_
    rw [decide_eq_decide, inside_redactRanges]
    exact not_congr ⟨secret_of_tried E det content, hhidden q⟩

end Trace

/-- **When redaction covers what it should.** In the redacted text just the positions outside the matches are copied, in
order and each once, if and only if where a pattern that is not tried would match one that is tried does, and each match
that ends before an earlier one is followed by one that starts no later than its end. -/
theorem redaction_covers_iff {R : Type} (E : Engine R) (patterns : List (PatternOf R)) (content : Str) :
    ((DetectorOf.withPatterns E patterns).trace E content).map Prod.fst =
        ((DetectorOf.withPatterns E patterns).scan E content).redactedContent.getD content ∧
      (∀ c i, (c, some i) ∈ (DetectorOf.withPatterns E patterns).trace E content → content[i]? = some c) ∧
      ((DetectorOf.withPatterns E patterns).copied E content =
          (List.range content.length).filter (fun q => ¬Secret E content patterns q) ↔
        (DetectorOf.withPatterns E patterns).HiddenCovered E content ∧
          EndsCovered ((DetectorOf.withPatterns E patterns).redactRanges E content)) :=
  ⟨trace_text E _ content, fun _ _ h => trace_source E _ content h, copied_eq_iff E _ content⟩

/-- Two patterns, and the matches of one of them lie inside those of the other. -/
def nestedPatterns : List (PatternOf Regex.Compiled) :=
  [ { name := "long".toList
      regex := Regex.new "abcdef".toList (by decide +kernel)
      severity := .high
      action := .redact },
    { name := "short".toList
      regex := Regex.new "cd".toList (by decide +kernel)
      severity := .high
      action := .redact } ]

theorem redaction_uncovers :
    ((DetectorOf.withPatterns (compiled Regex.asciiWord) nestedPatterns).scan (compiled Regex.asciiWord)
        "abcdef".toList).redactedContent = some "[REDACTED][REDACTED]ef".toList ∧
      (DetectorOf.withPatterns (compiled Regex.asciiWord) nestedPatterns).copied (compiled Regex.asciiWord)
        "abcdef".toList = [4, 5] ∧
      Secret (compiled Regex.asciiWord) "abcdef".toList nestedPatterns 4 := by
  decide

theorem redaction_covers_short :
    (DetectorOf.withPatterns (compiled Regex.asciiWord) nestedPatterns).copied (compiled Regex.asciiWord)
      "abcd".toList =
      (List.range 4).filter (fun q => ¬Secret (compiled Regex.asciiWord) "abcd".toList nestedPatterns q) := by
  refine (redaction_covers_iff (compiled Regex.asciiWord) nestedPatterns "abcd".toList).2.2.mpr ⟨?_, ?_⟩
  · rintro (_ | _ | i) p hp - hcand q hq
    · obtain rfl := Option.some.inj hp
      have hnone :
          (compiled Regex.asciiWord).findIter (Regex.new "abcdef".toList (by decide +kernel)) "abcd".toList = [] := by
        decide +kernel
      obtain ⟨r, hr, -⟩ := hq
      exact absurd (hnone ▸ hr) List.not_mem_nil
    · exact absurd (by decide) hcand
    · cases hp
  · have hranges : (DetectorOf.withPatterns (compiled Regex.asciiWord) nestedPatterns).redactRanges
        (compiled Regex.asciiWord) "abcd".toList = [(2, 4)] := by decide
    rw [hranges]
    rintro (_ | ⟨q, pre⟩) r post h
    · exact .inl fun q hq => by cases hq
    · obtain ⟨-, hrest⟩ := List.cons_eq_cons.mp h
      exact absurd hrest.symm (List.append_ne_nil_of_right_ne_nil pre (List.cons_ne_nil r post))

end Ironclaw.Safety

import Mathlib
import Ironclaw.Lib.RegexLang
import Ironclaw.Safety.Layer

/-!
# Critical markers

The literal patterns of the sanitizer are found by one search without overlaps, so a hit that ends inside an occurrence
of another pattern hides it. Of the critical patterns only `system:` can be hidden by one that is not critical: by a hit
that ends with its first letter, or by a code block for the system.

- `hit_of_swallower`: the patterns that hide `system:` are never hidden themselves;
- `caught_iff`: when a text has a critical warning;
- `marker_caught_iff`: when a text with a critical marker has one.
-/

namespace Ironclaw.Safety

open Text MultiSearch

/-- The text that a pattern is searched for as. -/
def PatternInfo.literal (p : PatternInfo) : Str := p.pattern.map asciiLower

def LITERALS : List Str := Sanitizer.new.patterns.map PatternInfo.literal

def SYSTEM : Str := "system:".toList

/-- What stands before `system:` where another pattern hides it, and how far into `system:` that pattern goes. -/
def SWALLOWERS : List (Str × Nat) :=
  [("```", 6), ("ignore previou", 1), ("act a", 1), ("new instruction", 1), ("updated instruction", 1)].map fun p =>
    (p.1.toList, p.2)

/-- The pattern of a swallower. -/
def swallower (p : Str × Nat) : Str := p.1 ++ SYSTEM.take p.2

/-- An occurrence of `system:` behind this text is hidden. -/
def Swallowed (x : Str) : Prop := ∃ p ∈ SWALLOWERS, p.1 <:+ x

instance (x : Str) : Decidable (Swallowed x) := inferInstanceAs (Decidable (∃ p ∈ SWALLOWERS, p.1 <:+ x))

/-- The text has one of the critical patterns, in lower or upper case. -/
def Marked (content : Str) : Prop :=
  ∃ p ∈ Sanitizer.new.patterns, p.severity = .critical ∧ p.literal <:+: content.map asciiLower

instance (content : Str) : Decidable (Marked content) :=
  inferInstanceAs (Decidable (∃ p ∈ Sanitizer.new.patterns, p.severity = .critical ∧
    p.literal <:+: content.map asciiLower))

/-- The text has a critical pattern other than `system:`, or `system:` where it is not hidden. -/
def MarkedInSight (content : Str) : Prop :=
  (∃ p ∈ Sanitizer.new.patterns, p.severity = .critical ∧ p.literal ≠ SYSTEM ∧ p.literal <:+: content.map asciiLower) ∨
    ∃ x y, content.map asciiLower = x ++ SYSTEM ++ y ∧ ¬Swallowed x

/-! ## The overlaps of the patterns -/

/-- How the patterns may overlap. -/
structure LiteralOverlaps : Prop where
  ne_nil : ∀ p ∈ Sanitizer.new.patterns, p.literal ≠ []
  /-- A pattern that ends inside an occurrence of a critical one is critical, or a swallower of `system:`. -/
  critical : ∀ p ∈ Sanitizer.new.patterns, p.severity = .critical →
    ∀ q ∈ Sanitizer.new.patterns, ∀ j ∈ List.range (p.literal.length + 1), 0 < j →
    overlaps q.literal p.literal j = true →
      q.severity = .critical ∨ p.literal = SYSTEM ∧ ∃ s ∈ SWALLOWERS, q.literal = s.1 ++ SYSTEM.take j
  bounds : ∀ s ∈ SWALLOWERS, 0 < s.2 ∧ s.2 < SYSTEM.length ∧ swallower s ∈ LITERALS
  /-- Nothing ends inside an occurrence of a swallower. -/
  swallower : ∀ s ∈ SWALLOWERS, ∀ q ∈ LITERALS, ∀ j ∈ List.range ((swallower s).length + 1), 0 < j →
    overlaps q (swallower s) j = true → j = (swallower s).length
  system_mem : ∃ p ∈ Sanitizer.new.patterns, p.severity = .critical ∧ p.literal = SYSTEM

theorem literalOverlaps : LiteralOverlaps := by
  constructor <;> decide +kernel

/-! ## Hits -/

section Hits

variable {content : Str}

theorem occursAt_middle (x p y : Str) : OccursAt p x.length (x ++ p ++ y) := by
  unfold OccursAt
  rw [List.append_assoc, List.drop_left]
  exact List.prefix_append p y

/-- The pattern that a hit is of. -/
theorem pattern_of_hit {s : Str} {h : Hit} {q : Str} (hq : IsHit LITERALS s q h) :
    ∃ p ∈ Sanitizer.new.patterns, Sanitizer.new.patterns[h.pattern]? = some p ∧ p.literal = q := by
  have hget := hq.1
  rw [LITERALS, List.getElem?_map] at hget
  obtain ⟨p, hp, rfl⟩ := Option.map_eq_some_iff.mp hget
  exact ⟨p, List.mem_of_getElem? hp, hp, rfl⟩

/-- Where a swallower occurs, there is a hit that ends with it. -/
theorem hit_of_swallower {s : Str × Nat} (hs : s ∈ SWALLOWERS) {x y text : Str} (htext : text = x ++ swallower s ++ y) :
    ∃ h ∈ hits LITERALS text, h.stop = x.length + (swallower s).length := by
  obtain ⟨hne_nil, -, hbounds, hends, -⟩ := literalOverlaps
  obtain ⟨hpos, -, hmem⟩ := hbounds s hs
  have hne : swallower s ≠ [] := by
    obtain ⟨p, hp, hlit⟩ := List.mem_map.mp hmem
    rw [← hlit]
    exact hne_nil p hp
  have hocc : OccursAt (swallower s) x.length text := htext ▸ occursAt_middle x (swallower s) y
  obtain ⟨h, hh, q, j, hq, hj, hle, hstop, hov⟩ := exists_hit LITERALS hmem hne hocc
  have hend := hends s hs q (List.mem_of_getElem? hq.1) j (List.mem_range.mpr (Nat.lt_succ_of_le hle)) hj hov
  exact ⟨h, hh, by rw [hstop, hend]⟩

/-- A hit of `system:` is not behind a swallower. -/
theorem not_swallowed_of_hit {x y text : Str} (htext : text = x ++ SYSTEM ++ y) {h : Hit} (hh : h ∈ hits LITERALS text)
    (hstart : h.start = x.length) (hstop : h.stop = x.length + SYSTEM.length) : ¬Swallowed x := by
  rintro ⟨s, hs, x', rfl⟩
  obtain ⟨-, -, hbounds, -, -⟩ := literalOverlaps
  obtain ⟨hpos, hshort, -⟩ := hbounds s hs
  have hsplit : text = x' ++ swallower s ++ (SYSTEM.drop s.2 ++ y) := by
    conv_lhs => rw [htext, ← List.take_append_drop s.2 SYSTEM]
    simp only [swallower, List.append_assoc]
  obtain ⟨h', hh', hstop'⟩ := hit_of_swallower hs hsplit
  have hlen : (swallower s).length = s.1.length + s.2 := by
    rw [swallower, List.length_append, List.length_take_of_le hshort.le]
  rw [List.length_append] at hstart hstop
  have hle : h'.start ≤ h'.stop := by
    obtain ⟨q, hq⟩ := hit_sound LITERALS hh'
    rw [hq.2.2.1]
    exact Nat.le_add_right _ _
  rcases hits_apart LITERALS hh hh' with rfl | hapart | hapart
  all_goals omega

/-- Some hit is of a critical pattern. -/
def CriticalHit (content : Str) : Prop :=
  ∃ h ∈ hits LITERALS (content.map asciiLower), ∃ p, Sanitizer.new.patterns[h.pattern]? = some p ∧
  p.severity = .critical

theorem criticalHit_iff : CriticalHit content ↔ MarkedInSight content := by
  obtain ⟨hne_nil, hcritical_of, -, -, hsystem_mem⟩ := literalOverlaps
  constructor
  · rintro ⟨h, hh, p, hp, hcritical⟩
    have hmem : p ∈ Sanitizer.new.patterns := List.mem_of_getElem? hp
    obtain ⟨q, hq⟩ := hit_sound LITERALS hh
    obtain rfl : p.literal = q := by
      obtain ⟨p', -, hp', hlit⟩ := pattern_of_hit hq
      rw [hp, Option.some_inj] at hp'
      rw [hp', hlit]
    obtain ⟨x, y, htext, hstart, hstop⟩ := hq.split
    by_cases hsystem : p.literal = SYSTEM
    · rw [hsystem] at htext hstop
      exact .inr ⟨x, y, htext, not_swallowed_of_hit htext hh hstart hstop⟩
    · exact .inl ⟨p, hmem, hcritical, hsystem, x, y, htext.symm⟩
  · have hfound : ∀ p ∈ Sanitizer.new.patterns, p.severity = .critical →
      ∀ x y, content.map asciiLower = x ++ p.literal ++ y →
        CriticalHit content ∨ p.literal = SYSTEM ∧ Swallowed x := by
      intro p hp hcritical x y htext
      have hocc : OccursAt p.literal x.length (content.map asciiLower) := htext ▸ occursAt_middle x p.literal y
      obtain ⟨h, hh, q, j, hq, hj, hle, hstop, hov⟩ :=
        exists_hit LITERALS (List.mem_map_of_mem hp) (hne_nil p hp) hocc
      obtain ⟨p', hp', hget, rfl⟩ := pattern_of_hit hq
      rcases hcritical_of p hp hcritical p' hp' j (List.mem_range.mpr (Nat.lt_succ_of_le hle)) hj hov with
        hcritical' | ⟨hsystem, s, hs, hlit⟩
      · exact .inl ⟨h, hh, p', hget, hcritical'⟩
      · refine .inr ⟨hsystem, s, hs, ?_⟩
        have hsuffix : p'.literal <:+ (content.map asciiLower).take h.stop := hq.suffix_take
        have htake : (content.map asciiLower).take (x.length + j) = x ++ SYSTEM.take j := by
          rw [htext, hsystem, List.append_assoc, List.take_length_add_append, List.take_append_of_le_length]
          rwa [hsystem] at hle
        rw [hstop, htake, hlit, List.suffix_append_self_iff] at hsuffix
        exact hsuffix
    rintro (⟨p, hp, hcritical, hother, x, y, htext⟩ | ⟨x, y, htext, hnot⟩)
    · rcases hfound p hp hcritical x y htext.symm with hhit | ⟨hsystem, -⟩
      · exact hhit
      · exact absurd hsystem hother
    · obtain ⟨p, hp, hcritical, hsystem⟩ := hsystem_mem
      rw [← hsystem] at htext
      rcases hfound p hp hcritical x y htext with hhit | ⟨-, hswallowed⟩
      · exact hhit
      · exact absurd hswallowed hnot

end Hits

/-! ## Null bytes -/

/-- The expression for a null byte. -/
def NUL_AST : Regex.Ast := .seq (.set ⟨false, false, [.range NUL NUL]⟩) .empty

/-- The one critical expression is that for a null byte. -/
theorem critical_regex : (∀ p ∈ Sanitizer.new.regexPatterns, p.severity = .critical → p.regex.ast = NUL_AST) ∧
    ∃ p ∈ Sanitizer.new.regexPatterns, p.severity = .critical ∧ p.regex.ast = NUL_AST := by
  decide_cbv

theorem lang_nul {u : Str} : Regex.Lang NUL_AST u ↔ u = [NUL] := by
  have hmem : ∀ c : Char, Regex.CharSet.mem Regex.noWord ⟨false, false, [.range NUL NUL]⟩ c = true ↔ c = NUL := by
    intro c
    simp only [Regex.CharSet.mem, Bool.false_eq_true, if_false, List.any_cons, List.any_nil, Bool.or_false,
      Bool.bne_false, Regex.ClassItem.mem, Bool.and_eq_true, decide_eq_true_eq]
    exact ⟨fun h => Char.le_antisymm h.2 h.1, fun h => h ▸ ⟨Char.le_refl _, Char.le_refl _⟩⟩
  constructor
  · rintro ⟨x, y, rfl, ⟨c, rfl, hc⟩, rfl⟩
    rw [(hmem c).mp hc, List.append_nil]
  · rintro rfl
    exact ⟨[NUL], [], rfl, ⟨NUL, rfl, (hmem NUL).mpr rfl⟩, rfl⟩

theorem findIter_nul_iff {isWord : Char → Bool} {content : Str} :
    Regex.findIter isWord NUL_AST content ≠ [] ↔ NUL ∈ content := by
  rw [← Regex.contains_iff_findIter (by decide)]
  constructor
  · rintro ⟨u, hu, huc⟩
    rw [lang_nul.1 hu] at huc
    exact huc.subset List.mem_cons_self
  · intro hmem
    obtain ⟨x, y, rfl⟩ := List.append_of_mem hmem
    exact ⟨[NUL], lang_nul.2 rfl, x, y, by rw [List.append_assoc, List.singleton_append]⟩

/-! ## The warnings -/

/-- A text is reported as critical, and modified. -/
def Caught (out : SanitizedOutput) : Prop := (∃ w ∈ out.warnings, w.severity = .critical) ∧ out.wasModified = true

instance (out : SanitizedOutput) : Decidable (Caught out) :=
  inferInstanceAs (Decidable ((∃ w ∈ out.warnings, w.severity = .critical) ∧ out.wasModified = true))

section Warnings

variable (cm : CaseMap) (isWord : Char → Bool) (content : Str)

theorem critical_warning_iff : (∃ w ∈ Sanitizer.new.detect isWord content, w.severity = .critical) ↔
    CriticalHit content ∨ NUL ∈ content := by
  rw [← @findIter_nul_iff isWord]
  have hdetect : ∀ w : InjectionWarning, w ∈ Sanitizer.new.detect isWord content ↔
      (∃ h ∈ hits LITERALS (content.map asciiLower), ∃ p, Sanitizer.new.patterns[h.pattern]? = some p ∧
        ⟨p.pattern, p.severity, (h.start, h.stop), p.description⟩ = w) ∨
      ∃ p ∈ Sanitizer.new.regexPatterns, ∃ r ∈ Regex.findIter isWord p.regex.ast content,
        ⟨p.name, p.severity, r, p.description⟩ = w := by
    intro w
    simp only [Sanitizer.detect, List.mem_insertionSort, List.mem_append, List.mem_filterMap, List.mem_flatMap,
      List.mem_map, Option.map_eq_some_iff]
    rfl
  constructor
  · rintro ⟨w, hw, hcritical⟩
    rcases (hdetect w).mp hw with ⟨h, hh, p, hp, rfl⟩ | ⟨p, hp, r, hr, rfl⟩
    · exact .inl ⟨h, hh, p, hp, hcritical⟩
    · rw [critical_regex.1 p hp hcritical] at hr
      exact .inr (List.ne_nil_of_mem hr)
  · rintro (⟨h, hh, p, hp, hcritical⟩ | hnul)
    · exact ⟨_, (hdetect _).mpr (.inl ⟨h, hh, p, hp, rfl⟩), hcritical⟩
    · obtain ⟨r, hr⟩ := List.exists_mem_of_ne_nil _ hnul
      obtain ⟨p, hp, hcritical, hast⟩ := critical_regex.2
      exact ⟨_, (hdetect _).mpr (.inr ⟨p, hp, r, hast ▸ hr, rfl⟩), hcritical⟩

theorem caught_iff : Caught (Sanitizer.new.sanitize cm isWord content) ↔ MarkedInSight content ∨ NUL ∈ content := by
  rw [← criticalHit_iff, ← critical_warning_iff isWord]
  unfold Caught Sanitizer.sanitize
  constructor
  · rintro ⟨⟨w, hw, hcritical⟩, hmodified⟩
    simp only at hw hmodified
    split at hmodified
    next hany =>
      obtain ⟨w, hw, hcritical⟩ := List.any_eq_true.mp hany
      exact ⟨w, hw, of_decide_eq_true hcritical⟩
    · cases hmodified
  · rintro ⟨w, hw, hcritical⟩
    have hany : ((Sanitizer.new.detect isWord content).any fun w => w.severity = .critical) = true :=
      List.any_eq_true.mpr ⟨w, hw, decide_eq_true hcritical⟩
    simp only [hany, if_true]
    exact ⟨⟨w, hw, hcritical⟩, trivial⟩

/-- **When a critical marker is caught.** A text with a critical marker is reported as critical and modified if and only
if it has a null byte, a critical marker other than `system:`, or `system:` where no other pattern hides it. -/
theorem marker_caught_iff : (Marked content → Caught (Sanitizer.new.sanitize cm isWord content)) ↔
    (Marked content → MarkedInSight content ∨ NUL ∈ content) := by
  rw [caught_iff]

end Warnings

/-- The block is a pattern of its own, of a lower severity, and ends before the colon. -/
theorem system_block_missed : Marked "```system:".toList ∧
    ¬Caught (Sanitizer.new.sanitize asciiCase Regex.asciiWord "```system:".toList) := by
  decide +kernel

theorem system_caught : Caught (Sanitizer.new.sanitize asciiCase Regex.asciiWord "Text\nSystem: go".toList) := by
  have hmarked : Marked "Text\nSystem: go".toList := by decide
  refine (marker_caught_iff asciiCase Regex.asciiWord "Text\nSystem: go".toList).mpr (fun _ => ?_) hmarked
  exact .inl (.inr ⟨"text\n".toList, " go".toList, by decide, by decide⟩)

end Ironclaw.Safety

import Ironclaw.Lib.Text

/-!
# The wrapper of tool outputs

`SafetyLayer::wrap_for_llm` puts an output between two tags. In the name the characters of the markup are escaped; in
the content a closing tag is broken up by a space of no width.

- `occurrences_escape`: in an escaped content, whatever follows on a new line, there is no closing tag;
- `wrapper_closed`: a wrapped output has one closing tag, at its end, whatever the name and the content are.
-/

namespace Ironclaw.Safety

open Text

/-! ## Occurrences -/

section Occurrences

variable {α : Type*} [DecidableEq α]

/-- How often a pattern occurs in a list, also with overlaps. -/
def occurrences (pat : List α) : List α → Nat
  | [] => if pat.isEmpty then 1 else 0
  | a :: as => (if pat.isPrefixOf (a :: as) then 1 else 0) + occurrences pat as

variable {x : α} {p l r : List α}

theorem occurrences_cons_of_no_match {pat : List α} {a : α} (h : ¬pat <+: a :: l) :
    occurrences pat (a :: l) = occurrences pat l := by
  rw [occurrences, if_neg fun hp => h (List.isPrefixOf_iff_prefix.mp hp), Nat.zero_add]

theorem occurrences_cons_of_ne {a : α} (h : x ≠ a) : occurrences (x :: p) (a :: l) = occurrences (x :: p) l :=
  occurrences_cons_of_no_match fun hp => h (List.cons_prefix_cons.mp hp).1

/-- A pattern does not occur where its first symbol is missing. -/
theorem occurrences_append_of_not_mem (h : x ∉ l) : occurrences (x :: p) (l ++ r) = occurrences (x :: p) r := by
  induction l with
  | nil => rfl
  | cons a l ih =>
    rw [List.mem_cons, not_or] at h
    rw [List.cons_append, occurrences_cons_of_ne h.1, ih h.2]

theorem one_le_occurrences {pat : List α} : ∀ {l : List α}, pat <:+: l → 1 ≤ occurrences pat l
  | [], h => by rw [occurrences, List.eq_nil_of_infix_nil h]; rfl
  | a :: l, h => by
    rw [occurrences]
    rcases List.infix_cons_iff.mp h with h | h
    · rw [if_pos (List.isPrefixOf_iff_prefix.mpr h)]
      exact Nat.le_add_right 1 _
    · exact (one_le_occurrences h).trans (Nat.le_add_left _ _)

theorem infix_of_occurrences {pat : List α} : ∀ {l : List α}, occurrences pat l ≠ 0 → pat <:+: l
  | [], h => by
    rw [occurrences] at h
    split at h
    · next hempty => rw [List.isEmpty_iff.mp hempty]
    · exact absurd rfl h
  | a :: l, h => by
    rw [occurrences] at h
    split at h
    · next hp => exact (List.isPrefixOf_iff_prefix.mp hp).isInfix
    · rw [Nat.zero_add] at h
      exact (infix_of_occurrences h).trans (List.suffix_cons a l).isInfix

/-- A longer pattern occurs less often. -/
theorem occurrences_le_of_prefix {pat longer : List α} (h : pat <+: longer) : ∀ l : List α,
    occurrences longer l ≤ occurrences pat l
  | [] => by
    rw [occurrences, occurrences]
    split
    · next hempty =>
      have hnil : pat = [] := List.prefix_nil.mp (List.isEmpty_iff.mp hempty ▸ h)
      rw [hnil]
      exact le_rfl
    · exact Nat.zero_le _
  | a :: l => by
    have ih := occurrences_le_of_prefix h l
    rw [occurrences, occurrences]
    split
    · next hlonger =>
      rw [if_pos (List.isPrefixOf_iff_prefix.mpr (h.trans (List.isPrefixOf_iff_prefix.mp hlonger)))]
      exact Nat.add_le_add_left ih 1
    · omega

/-- Two places where the pattern stands. -/
theorem two_le_occurrences {pat b d : List α} : ∀ {l a c : List α}, l = a ++ (pat ++ b) → l = c ++ (pat ++ d) →
    a.length < c.length → 2 ≤ occurrences pat l
  | [], _, c, _, hc, hlt => by
    rw [(List.append_eq_nil_iff.mp hc.symm).1] at hlt
    exact absurd hlt (Nat.not_lt_zero _)
  | x :: l, a, [], _, _, hlt => absurd hlt (Nat.not_lt_zero _)
  | x :: l, [], y :: c, ha, hc, _ => by
    have htail : l = c ++ (pat ++ d) := (List.cons.inj hc).2
    have hrest : 1 ≤ occurrences pat l := one_le_occurrences (htail ▸ List.infix_append' c pat d)
    have hfirst : pat <+: x :: l := ha ▸ List.prefix_append pat b
    rw [occurrences, if_pos (List.isPrefixOf_iff_prefix.mpr hfirst)]
    omega
  | x :: l, z :: a, y :: c, ha, hc, hlt => by
    have ih := two_le_occurrences (List.cons.inj ha).2 (List.cons.inj hc).2 (Nat.lt_of_succ_lt_succ hlt)
    exact ih.trans (Nat.le_add_left _ _)

end Occurrences

/-! ## The wrapper -/

/-- `escape_xml_attr`. -/
def escapeXmlAttr (s : Str) : Str :=
  s.flatMap fun c =>
    if c = '&' then "&amp;".toList
    else if c = '"' then "&quot;".toList
    else if c = '<' then "&lt;".toList
    else if c = '>' then "&gt;".toList
    else [c]

def NEEDLE : Str := "</tool_output".toList

def ZERO_WIDTH_SPACE : Char := Char.ofNat 0x200B

/-- The loop of `escape_tool_output_close`: `skip` characters of the last occurrence are still to be copied. -/
def escapeGo : (skip : Nat) → Str → Str
  | _, [] => []
  | skip + 1, c :: cs => c :: escapeGo skip cs
  | 0, c :: cs =>
    if NEEDLE.isPrefixOf ((c :: cs).map asciiLower) then '<' :: ZERO_WIDTH_SPACE :: escapeGo (NEEDLE.length - 1) cs
    else c :: escapeGo 0 cs

def escapeToolOutputClose (s : Str) : Str := escapeGo 0 s

def OPENING : Str := "<tool_output name=\"".toList

def OPENING_END : Str := "\">\n".toList

def CLOSING : Str := "\n</tool_output>".toList

def wrapForLlm (toolName content : Str) : Str :=
  OPENING ++ escapeXmlAttr toolName ++ OPENING_END ++ escapeToolOutputClose content ++ CLOSING

/-! ## The name -/

theorem escapeXmlAttr_plain (s : Str) : ∀ c ∈ escapeXmlAttr s, c ≠ '"' ∧ c ≠ '<' ∧ c ≠ '>' := by
  intro c hc
  obtain ⟨d, -, hc⟩ := List.mem_flatMap.mp hc
  have hplain : ∀ text ∈ ["&amp;", "&quot;", "&lt;", "&gt;"].map String.toList, '"' ∉ text ∧ '<' ∉ text ∧
      '>' ∉ text := by
    decide
  have htexts : ∀ text ∈ ["&amp;", "&quot;", "&lt;", "&gt;"].map String.toList, ∀ c ∈ text,
      c ≠ '"' ∧ c ≠ '<' ∧ c ≠ '>' := by
    intro text htext c hc
    obtain ⟨hquote, hlt, hgt⟩ := hplain text htext
    exact ⟨ne_of_mem_of_not_mem hc hquote, ne_of_mem_of_not_mem hc hlt, ne_of_mem_of_not_mem hc hgt⟩
  split at hc
  · exact htexts _ (by simp) c hc
  · split at hc
    · exact htexts _ (by simp) c hc
    next hquote =>
      split at hc
      · exact htexts _ (by simp) c hc
      next hlt =>
        split at hc
        · exact htexts _ (by simp) c hc
        next hgt =>
          rw [List.mem_singleton] at hc
          subst hc
          exact ⟨hquote, hlt, hgt⟩

/-! ## The content -/

/-- The needle after its first character. -/
def AFTER : Str := "/tool_output".toList

theorem needle_eq : NEEDLE = '<' :: AFTER := rfl

/-- Lower case makes letters only. -/
theorem asciiLower_eq {c d : Char} (hd : d.isLower = false) (h : asciiLower c = d) : c = d := by
  have hletters : ∀ n < 91, 65 ≤ n → (Char.ofNat (n + 32)).isLower = true := by decide
  unfold asciiLower at h
  split at h
  next hupper =>
    have hlower := hletters c.toNat (Nat.lt_succ_of_le hupper.2) hupper.1
    rw [h, hd] at hlower
    cases hlower
  · exact h

theorem asciiLower_eq_lt {c : Char} (h : asciiLower c = '<') : c = '<' := asciiLower_eq (by decide) h

section Content

variable {tail : Str}

/-- What is read in an escaped content, up to a bracket, is in the content. -/
theorem prefix_of_escape : ∀ {cs p : Str}, '<' ∉ p → '\n' ∉ p →
    p <+: (escapeGo 0 cs ++ '\n' :: tail).map asciiLower → p <+: cs.map asciiLower
  | _, [], _, _, _ => List.nil_prefix
  | [], x :: p, _, hbreak, h => by
    obtain ⟨rfl, -⟩ := List.cons_prefix_cons.mp h
    exact absurd List.mem_cons_self hbreak
  | c :: cs, x :: p, hbracket, hbreak, h => by
    rw [escapeGo] at h
    split at h
    · obtain ⟨rfl, -⟩ := List.cons_prefix_cons.mp h
      exact absurd List.mem_cons_self hbracket
    · obtain ⟨hx, hp⟩ := List.cons_prefix_cons.mp h
      refine List.cons_prefix_cons.mpr ⟨hx, ?_⟩
      exact prefix_of_escape (fun hmem => hbracket (List.mem_cons_of_mem x hmem))
        (fun hmem => hbreak (List.mem_cons_of_mem x hmem)) hp

/-- In the escaped content there is no needle; `p` is what is left of the needle that is being copied. -/
theorem occurrences_escapeGo : ∀ {s p : Str}, p <:+ AFTER → p <+: s.map asciiLower →
    occurrences NEEDLE ((escapeGo p.length s ++ '\n' :: tail).map asciiLower) =
      occurrences NEEDLE (('\n' :: tail).map asciiLower)
  | [], p, _, _ => by rw [escapeGo, List.nil_append]
  | c :: cs, [], _, _ => by
    show occurrences NEEDLE ((escapeGo 0 (c :: cs) ++ '\n' :: tail).map asciiLower) = _
    rw [escapeGo]
    split
    next hneedle =>
      obtain ⟨-, hafter⟩ := List.cons_prefix_cons.mp (List.isPrefixOf_iff_prefix.mp hneedle)
      have ih := occurrences_escapeGo List.suffix_rfl hafter
      have hbroken :
          ¬NEEDLE <+: '<' :: ZERO_WIDTH_SPACE :: ((escapeGo AFTER.length cs ++ '\n' :: tail).map asciiLower) := by
        intro hp
        have hsecond := (List.cons_prefix_cons.mp (List.cons_prefix_cons.mp hp).2).1
        exact absurd hsecond (by decide)
      refine (occurrences_cons_of_no_match hbroken).trans ?_
      exact (occurrences_cons_of_ne (by decide)).trans ih
    next hneedle =>
      have ih := @occurrences_escapeGo cs [] List.nil_suffix List.nil_prefix
      refine (occurrences_cons_of_no_match fun hp => hneedle ?_).trans ih
      obtain ⟨hc, hafter⟩ := List.cons_prefix_cons.mp hp
      refine List.isPrefixOf_iff_prefix.mpr (List.cons_prefix_cons.mpr ⟨hc, ?_⟩)
      exact prefix_of_escape (by decide) (by decide) hafter
  | c :: cs, x :: p, hsuffix, hprefix => by
    obtain ⟨hx, hp⟩ := List.cons_prefix_cons.mp hprefix
    have ih := occurrences_escapeGo ((List.suffix_cons x p).trans hsuffix) hp
    have hne : '<' ≠ asciiLower c := by
      rw [← hx]
      rintro rfl
      exact absurd (hsuffix.subset List.mem_cons_self) (by decide)
    exact (occurrences_cons_of_ne hne).trans ih

theorem occurrences_escape (content tail : Str) :
    occurrences NEEDLE ((escapeToolOutputClose content ++ '\n' :: tail).map asciiLower) =
      occurrences NEEDLE (('\n' :: tail).map asciiLower) :=
  occurrences_escapeGo List.nil_suffix List.nil_prefix

end Content

/-- **The wrapper cannot be escaped.** In a wrapped output the beginning of the closing tag occurs once, in lower or
upper case, and the output ends with that tag; the name in the opening tag has no quote and no bracket. -/
theorem wrapper_closed (toolName content : Str) :
    occurrences "</tool_output".toList ((wrapForLlm toolName content).map asciiLower) = 1 ∧
      (∃ front, wrapForLlm toolName content = front ++ "</tool_output>".toList) ∧
        ∃ attr rest, wrapForLlm toolName content = "<tool_output name=\"".toList ++ attr ++ '"' :: '>' :: rest ∧
          ∀ c ∈ attr, c ≠ '"' ∧ c ≠ '<' ∧ c ≠ '>' := by
  have hopening : OPENING = '<' :: "tool_output name=\"".toList := by decide
  have hend : OPENING_END = ['"', '>', '\n'] := by decide
  have hclosing : CLOSING = '\n' :: "</tool_output>".toList := by decide
  refine ⟨?_, ?_, ?_⟩
  · have hplain : '<' ∉ ("tool_output name=\"".toList ++ escapeXmlAttr toolName ++ OPENING_END).map asciiLower := by
      intro hmem
      obtain ⟨c, hc, hlower⟩ := List.mem_map.mp hmem
      obtain rfl := asciiLower_eq_lt hlower
      rcases List.mem_append.mp hc with hc | hc
      · rcases List.mem_append.mp hc with hc | hc
        · exact absurd hc (by decide)
        · exact (escapeXmlAttr_plain toolName '<' hc).2.1 rfl
      · exact absurd hc (by decide)
    rw [wrapForLlm, hopening, List.append_assoc, List.cons_append, List.cons_append, List.cons_append, List.map_cons]
    refine (occurrences_cons_of_no_match fun hp => ?_).trans ?_
    · have hsecond := (List.cons_prefix_cons.mp (List.cons_prefix_cons.mp hp).2).1
      exact absurd hsecond (by decide)
    · rw [List.map_append, hclosing]
      refine (occurrences_append_of_not_mem hplain).trans ((occurrences_escape content _).trans ?_)
      decide
  · refine ⟨OPENING ++ escapeXmlAttr toolName ++ OPENING_END ++ escapeToolOutputClose content ++ ['\n'], ?_⟩
    rw [wrapForLlm, hclosing, List.append_cons]
  · refine ⟨escapeXmlAttr toolName, '\n' :: (escapeToolOutputClose content ++ CLOSING), ?_,
      escapeXmlAttr_plain toolName⟩
    rw [wrapForLlm, hend, List.append_assoc, List.append_assoc]
    rfl

end Ironclaw.Safety

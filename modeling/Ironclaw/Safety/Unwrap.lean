import Ironclaw.Safety.Wrapper

/-!
# Unwrapping tool outputs

`SafetyLayer::unwrap_tool_output` looks for the end of the opening tag and for the last closing tag, trims what is
between them and takes the spaces of no width out again. Escaping and trimming do not get in each other's way: what the
wrapper breaks up has no white space in it.

- `trim_escape`: trimming an escaped content;
- `unescape_escape`: what was escaped is as good as the content, once the broken brackets are mended;
- `unwrap_wrapForLlm`: what comes out of a wrapped output.
-/

namespace Ironclaw.Safety

open Text

/-- `str::rfind` for a string. -/
def rfind (pat : Str) : Str → Option Nat
  | [] => if pat.isEmpty then some 0 else none
  | c :: cs =>
    match rfind pat cs with
    | some i => some (i + 1)
    | none => if pat.isPrefixOf (c :: cs) then some 0 else none

/-- A closing tag as the wrapper breaks it up. -/
def BROKEN : Str := ['<', ZERO_WIDTH_SPACE, '/']

def unescapeToolOutputClose (s : Str) : Str := replace BROKEN ['<', '/'] s

/-- `SafetyLayer::unwrap_tool_output`. -/
def unwrapToolOutput (content : Str) : Option Str :=
  let trimmed := trim content
  match stripStart "<tool_output".toList trimmed with
  | none => none
  | some rest =>
    match find ['>'] rest with
    | none => none
    | some tagEnd =>
      let inner := rest.drop (tagEnd + 1)
      match rfind "</tool_output>".toList inner with
      | some close => some (unescapeToolOutputClose (trim (inner.take close)))
      | none => none

/-! ## Searching -/

theorem find_char {c : Char} (s : Str) : ∀ {p : Str}, c ∉ p → find [c] (p ++ c :: s) = some p.length
  | [], _ => by
    rw [List.nil_append, find, if_pos (by simp only [List.isPrefixOf_cons_cons_self, List.isPrefixOf_nil_left])]
    rfl
  | d :: p, h => by
    rw [List.mem_cons, not_or] at h
    obtain ⟨hne, hp⟩ := h
    have ih := find_char s hp
    have hhead : ¬[c].isPrefixOf (d :: (p ++ c :: s)) = true := by
      rw [List.isPrefixOf_iff_prefix]
      intro hpre
      exact hne (List.cons_prefix_cons.mp hpre).1
    rw [List.cons_append, find, if_neg hhead, ih]
    rfl

theorem rfind_short {pat : Str} : ∀ {s : Str}, s.length < pat.length → rfind pat s = none
  | [], h => by
    rw [rfind, if_neg]
    rw [List.isEmpty_iff]
    rintro rfl
    cases h
  | c :: cs, h => by
    have ih : rfind pat cs = none := rfind_short (Nat.lt_of_succ_lt h)
    have hnot : ¬pat.isPrefixOf (c :: cs) = true := by
      rw [List.isPrefixOf_iff_prefix]
      intro hpre
      exact absurd hpre.length_le (Nat.not_le.mpr h)
    rw [rfind, ih]
    exact if_neg hnot

/-- What a text ends with occurs last at its end. -/
theorem rfind_append {pat : Str} (hne : pat ≠ []) : ∀ s : Str, rfind pat (s ++ pat) = some s.length
  | [] => by
    obtain ⟨c, cs, rfl⟩ := List.exists_cons_of_ne_nil hne
    have hnone : rfind (c :: cs) cs = none := rfind_short (Nat.lt_succ_self _)
    rw [List.nil_append, rfind, hnone]
    exact if_pos (List.isPrefixOf_iff_prefix.mpr (List.prefix_refl _))
  | c :: s => by
    have ih := rfind_append hne s
    rw [List.cons_append, rfind, ih]
    rfl

/-! ## White space -/

theorem trimStart_append {w s : Str} (hw : ∀ c ∈ w, isWhitespace c = true) : trimStart (w ++ s) = trimStart s :=
  List.dropWhile_append_of_pos hw

theorem trimEnd_append {w s : Str} (hw : ∀ c ∈ w, isWhitespace c = true) : trimEnd (s ++ w) = trimEnd s := by
  have hrev : ∀ c ∈ w.reverse, isWhitespace c = true := fun c hc => hw c (List.mem_reverse.mp hc)
  rw [trimEnd, List.rdropWhile, List.reverse_append, List.dropWhile_append_of_pos hrev]
  rfl

theorem trim_pad {front back : Str} (hfront : ∀ c ∈ front, isWhitespace c = true)
    (hback : ∀ c ∈ back, isWhitespace c = true) (s : Str) : trim (front ++ (s ++ back)) = trim s := by
  rw [trim, trimStart_append hfront]
  by_cases hs : ∀ c ∈ s, isWhitespace c = true
  · have hnil : trimStart s = [] := List.dropWhile_eq_nil_iff.mpr hs
    rw [trimStart_append hs, trim, hnil]
    rw [trimStart, List.dropWhile_eq_nil_iff.mpr hback]
  · have hne : ¬trimStart s = [] := fun hnil => hs (List.dropWhile_eq_nil_iff.mp hnil)
    have hstart : trimStart (s ++ back) = trimStart s ++ back := by
      rw [trimStart, List.dropWhile_append, if_neg (by rwa [List.isEmpty_iff])]
      rfl
    rw [hstart, trimEnd_append hback]
    rfl

/-- A text has white space on both sides of what trimming leaves. -/
theorem trim_split (s : Str) : ∃ front back : Str, s = front ++ trim s ++ back ∧
    (∀ c ∈ front, isWhitespace c = true) ∧ ∀ c ∈ back, isWhitespace c = true := by
  refine ⟨s.takeWhile isWhitespace, (trimStart s).rtakeWhile isWhitespace, ?_,
    fun c hc => List.mem_takeWhile_imp hc, fun c hc => List.mem_rtakeWhile_imp hc⟩
  have hback : trim s ++ (trimStart s).rtakeWhile isWhitespace = trimStart s := List.rdropWhile_append_rtakeWhile
  have hfront : s.takeWhile isWhitespace ++ trimStart s = s := List.takeWhile_append_dropWhile
  rw [List.append_assoc, hback, hfront]

/-- A text with no white space at its ends stays as it is. -/
theorem trim_of_ends {s : Str} (hhead : ∀ c ∈ s.head?, isWhitespace c = false)
    (hlast : ∀ c ∈ s.getLast?, isWhitespace c = false) : trim s = s := by
  have hstart : trimStart s = s := by
    cases s with
    | nil => rfl
    | cons c cs => exact List.dropWhile_cons_of_neg (by simp [hhead c rfl])
  rw [trim, hstart, trimEnd]
  rcases List.eq_nil_or_concat' s with rfl | ⟨t, c, rfl⟩
  · rfl
  · have hc : isWhitespace c = false := hlast c List.getLast?_concat
    exact List.rdropWhile_concat_neg _ _ _ (Bool.eq_false_iff.mp hc)

theorem head_trim (s : Str) : ∀ c ∈ (trim s).head?, isWhitespace c = false := by
  have hstart : trimStart (trim s) = trim s := trimStart_trimEnd (List.dropWhile_idempotent isWhitespace s)
  have hhead := List.head?_dropWhile_not isWhitespace (trim s)
  intro c hc
  rw [← hstart] at hc
  rw [show (trim s).dropWhile isWhitespace = trimStart (trim s) from rfl, Option.mem_def.mp hc] at hhead
  exact hhead

theorem last_trim (s : Str) : ∀ c ∈ (trim s).getLast?, isWhitespace c = false := by
  intro c hc
  have hne : trim s ≠ [] := by
    rintro hnil
    rw [hnil] at hc
    cases hc
  rw [List.getLast?_eq_some_getLast hne, Option.mem_some_iff] at hc
  subst hc
  exact Bool.eq_false_iff.mpr (List.rdropWhile_last_not isWhitespace _ hne)

/-! ## Escaping and white space -/

/-- Lower case does not make or unmake white space. -/
theorem asciiLower_whitespace {c : Char} (h : isWhitespace c = true) : asciiLower c = c := by
  unfold asciiLower
  refine if_neg fun ⟨hA, hZ⟩ => ?_
  have hA' : 65 ≤ c.toNat := hA
  have hZ' : c.toNat ≤ 90 := hZ
  simp only [isWhitespace, Bool.or_eq_true, Bool.and_eq_true, decide_eq_true_eq, beq_iff_eq] at h
  omega

theorem needle_whitespace : ∀ c ∈ NEEDLE, isWhitespace c = false := by
  have hall : (NEEDLE.all fun c => !isWhitespace c) = true := by decide
  intro c hc
  exact (Bool.not_eq_true' _).mp (List.all_eq_true.mp hall c hc)

theorem escapeGo_plain {w : Str} (h : '<' ∉ w) (s : Str) : escapeGo 0 (w ++ s) = w ++ escapeGo 0 s := by
  induction w with
  | nil => rfl
  | cons c w ih =>
    rw [List.mem_cons, not_or] at h
    have hnot : ¬NEEDLE.isPrefixOf ((c :: (w ++ s)).map asciiLower) = true := by
      intro hp
      have hc := (List.cons_prefix_cons.mp (List.isPrefixOf_iff_prefix.mp hp)).1
      exact h.1 (asciiLower_eq_lt hc.symm).symm
    rw [List.cons_append, escapeGo, if_neg hnot, ih h.2]
    rfl

/-- White space at the end of a content is copied. -/
theorem escapeGo_append {w : Str} (hw : ∀ c ∈ w, isWhitespace c = true) : ∀ (k : Nat) (s : Str),
    escapeGo k (s ++ w) = escapeGo k s ++ w
  | k, [] => by
    induction w generalizing k with
    | nil => cases k <;> rfl
    | cons c w ih =>
      have ih' := ih fun d hd => hw d (List.mem_cons_of_mem c hd)
      have hc := hw c List.mem_cons_self
      cases k with
      | zero =>
        have hnot : ¬NEEDLE.isPrefixOf ((c :: w).map asciiLower) = true := by
          intro hp
          have hlt := (List.cons_prefix_cons.mp (List.isPrefixOf_iff_prefix.mp hp)).1
          rw [asciiLower_eq_lt hlt.symm] at hc
          exact absurd hc (by decide)
        show escapeGo 0 (c :: w) = c :: w
        rw [escapeGo, if_neg hnot]
        exact congrArg (c :: ·) (ih' 0)
      | succ k => exact congrArg (c :: ·) (ih' k)
  | k + 1, c :: cs => congrArg (c :: ·) (escapeGo_append hw k cs)
  | 0, c :: cs => by
    have hneedle : NEEDLE.isPrefixOf ((c :: (cs ++ w)).map asciiLower) =
        NEEDLE.isPrefixOf ((c :: cs).map asciiLower) := by
      rw [Bool.eq_iff_iff, List.isPrefixOf_iff_prefix, List.isPrefixOf_iff_prefix, ← List.cons_append, List.map_append]
      refine ⟨fun hp => prefix_left hp ?_, fun hp => hp.trans (List.prefix_append _ _)⟩
      intro d hd hmem
      obtain ⟨e, he, rfl⟩ := List.mem_map.mp (List.mem_of_mem_head? hd)
      have hspace := hw e he
      rw [asciiLower_whitespace hspace] at hmem
      exact absurd hspace (Bool.eq_false_iff.mp (needle_whitespace e hmem))
    rw [List.cons_append, escapeGo, hneedle, escapeGo, escapeGo_append hw, escapeGo_append hw]
    split <;> rfl

theorem escapeGo_head? : ∀ (k : Nat) (s : Str), (escapeGo k s).head? = s.head?
  | k, [] => by cases k <;> rfl
  | k + 1, c :: cs => rfl
  | 0, c :: cs => by
    rw [escapeGo]
    split
    next hneedle =>
      have hlt := (List.cons_prefix_cons.mp (List.isPrefixOf_iff_prefix.mp hneedle)).1
      rw [asciiLower_eq_lt hlt.symm]
      rfl
    · rfl

theorem escapeGo_getLast? : ∀ (k : Nat) (s : Str), (escapeGo k s).getLast? = s.getLast?
  | k, [] => by cases k <;> rfl
  | k + 1, c :: cs => by
    rw [escapeGo, List.getLast?_cons, escapeGo_getLast? k cs, List.getLast?_cons]
  | 0, c :: cs => by
    rw [escapeGo]
    split
    next hneedle =>
      have hafter : AFTER <+: cs.map asciiLower := (List.cons_prefix_cons.mp (List.isPrefixOf_iff_prefix.mp hneedle)).2
      cases cs with
      | nil => exact absurd (List.prefix_nil.mp hafter) (by decide)
      | cons d cs => simp only [List.getLast?_cons, escapeGo_getLast? _ (d :: cs), Option.getD_some]
    · rw [List.getLast?_cons, escapeGo_getLast? 0 cs, List.getLast?_cons]

theorem trim_escape (s : Str) : trim (escapeToolOutputClose s) = escapeToolOutputClose (trim s) := by
  obtain ⟨front, back, hs, hfront, hback⟩ := trim_split s
  have hplain : '<' ∉ front := fun hmem => absurd (hfront _ hmem) (by decide)
  have hescape : escapeToolOutputClose s = front ++ (escapeToolOutputClose (trim s) ++ back) := by
    conv_lhs => rw [hs]
    rw [List.append_assoc, escapeToolOutputClose, escapeGo_plain hplain, escapeGo_append hback]
    rfl
  have hends : trim (escapeToolOutputClose (trim s)) = escapeToolOutputClose (trim s) := by
    refine trim_of_ends ?_ ?_
    · rw [escapeToolOutputClose, escapeGo_head?]
      exact head_trim s
    · rw [escapeToolOutputClose, escapeGo_getLast?]
      exact last_trim s
  rw [hescape, trim_pad hfront hback, hends]

/-! ## Mending -/

theorem unescape_broken (cs : Str) : unescapeToolOutputClose ('<' :: ZERO_WIDTH_SPACE :: '/' :: cs) =
    '<' :: '/' :: unescapeToolOutputClose cs := rfl

theorem unescape_of_ne {c : Char} (h : c ≠ '<') (cs : Str) :
    unescapeToolOutputClose (c :: cs) = c :: unescapeToolOutputClose cs :=
  replace_cons_of_not fun hp => h (List.cons_prefix_cons.mp hp).1.symm

/-- A copied character that is no bracket does not start a needle. -/
theorem escapeGo_of_ne {c : Char} (h : c ≠ '<') (cs : Str) : escapeGo 0 (c :: cs) = c :: escapeGo 0 cs :=
  escapeGo_plain (w := [c]) (by rw [List.mem_singleton]; exact h.symm) cs

/-- What looks broken up in an escaped content was so before. -/
theorem broken_of_escape {cs : Str} (h : [ZERO_WIDTH_SPACE, '/'] <+: escapeGo 0 cs) :
    [ZERO_WIDTH_SPACE, '/'] <+: cs := by
  have hfirst : cs.head? = some ZERO_WIDTH_SPACE := by
    obtain ⟨t, ht⟩ := h
    rw [← escapeGo_head? 0 cs, ← ht]
    rfl
  obtain ⟨ds, rfl⟩ : ∃ ds, cs = ZERO_WIDTH_SPACE :: ds := List.head?_eq_some_iff.mp hfirst
  rw [escapeGo_of_ne (by decide)] at h
  have hsecond : ds.head? = some '/' := by
    obtain ⟨t, ht⟩ := (List.cons_prefix_cons.mp h).2
    rw [← escapeGo_head? 0 ds, ← ht]
    rfl
  obtain ⟨es, rfl⟩ : ∃ es, ds = '/' :: es := List.head?_eq_some_iff.mp hsecond
  exact ⟨es, rfl⟩

/-- The needle after its first two characters. -/
def LETTERS : Str := "tool_output".toList

/-- Mending takes back what escaping did; the first `k` characters are the rest of a closing tag. -/
theorem unescape_escapeGo : ∀ (k : Nat) (s : Str), '<' ∉ s.take k →
    unescapeToolOutputClose (escapeGo k s) = unescapeToolOutputClose s
  | k, [], _ => by cases k <;> rfl
  | k + 1, c :: cs, h => by
    rw [List.take_succ_cons, List.mem_cons, not_or] at h
    obtain ⟨hc, hcs⟩ := h
    have ih := unescape_escapeGo k cs hcs
    rw [escapeGo, unescape_of_ne (Ne.symm hc), unescape_of_ne (Ne.symm hc), ih]
  | 0, c :: cs, _ => by
    by_cases hneedle : NEEDLE.isPrefixOf ((c :: cs).map asciiLower) = true
    · obtain ⟨hlt, hafter⟩ := List.cons_prefix_cons.mp (List.isPrefixOf_iff_prefix.mp hneedle)
      obtain rfl : c = '<' := asciiLower_eq_lt hlt.symm
      obtain ⟨d, ds, rfl⟩ : ∃ d ds, cs = d :: ds := by
        cases cs with
        | nil => exact absurd (List.prefix_nil.mp hafter) (by decide)
        | cons d ds => exact ⟨d, ds, rfl⟩
      obtain ⟨hslash, hletters⟩ : '/' = asciiLower d ∧ LETTERS <+: ds.map asciiLower := List.cons_prefix_cons.mp hafter
      obtain rfl : d = '/' := asciiLower_eq (by decide) hslash.symm
      have hplain : '<' ∉ ds.take LETTERS.length := by
        intro hmem
        have hlower : '<' ∈ (ds.map asciiLower).take LETTERS.length := by
          rw [← List.map_take]
          exact List.mem_map.mpr ⟨'<', hmem, rfl⟩
        rw [← List.prefix_iff_eq_take.mp hletters] at hlower
        exact absurd hlower (by decide)
      have ih := unescape_escapeGo LETTERS.length ds hplain
      have hsound : ¬BROKEN <+: '<' :: '/' :: ds := by
        intro hp
        have hsecond := (List.cons_prefix_cons.mp (List.cons_prefix_cons.mp hp).2).1
        exact absurd hsecond (by decide)
      rw [escapeGo, if_pos hneedle, unescapeToolOutputClose, unescapeToolOutputClose, replace_cons_of_not hsound]
      show unescapeToolOutputClose _ = '<' :: unescapeToolOutputClose _
      rw [@unescape_of_ne '/' (by decide), ← ih]
      exact unescape_broken _
    · rw [escapeGo, if_neg hneedle]
      by_cases hbroken : BROKEN <+: c :: cs
      · obtain ⟨ds, hds⟩ := hbroken
        obtain ⟨rfl, rfl⟩ : '<' = c ∧ ZERO_WIDTH_SPACE :: '/' :: ds = cs := List.cons_eq_cons.mp hds
        have ih := unescape_escapeGo 0 ds List.not_mem_nil
        rw [escapeGo_of_ne (by decide), escapeGo_of_ne (by decide), unescape_broken, unescape_broken, ih]
      · have hstill : ¬BROKEN <+: c :: escapeGo 0 cs := by
          intro hp
          obtain ⟨hc, hp⟩ := List.cons_prefix_cons.mp hp
          exact hbroken (List.cons_prefix_cons.mpr ⟨hc, broken_of_escape hp⟩)
        have ih := unescape_escapeGo 0 cs List.not_mem_nil
        rw [unescapeToolOutputClose, replace_cons_of_not hstill, unescapeToolOutputClose, replace_cons_of_not hbroken]
        exact congrArg (c :: ·) ih
termination_by _ s => s.length

theorem unescape_escape (s : Str) :
    unescapeToolOutputClose (escapeToolOutputClose s) = unescapeToolOutputClose s :=
  unescape_escapeGo 0 s List.not_mem_nil

/-! ## Unwrapping -/

/-- What `unwrap_tool_output` looks for. -/
def TAG_END : Str := "</tool_output>".toList

theorem stripStart_append (pat s : Str) : stripStart pat (pat ++ s) = some s := by
  rw [stripStart, if_pos (List.isPrefixOf_iff_prefix.mpr (List.prefix_append pat s)), List.drop_left]

/-- **Unwrapping undoes wrapping.** What comes out of a wrapped content is the content without the white space around
it, with every broken closing tag mended; and it is just that where there was none. -/
theorem unwrap_wrapForLlm (toolName content : Str) :
    unwrapToolOutput (wrapForLlm toolName content) = some (replace BROKEN ['<', '/'] (trim content)) ∧
      (¬BROKEN <:+: content → unwrapToolOutput (wrapForLlm toolName content) = some (trim content)) := by
  have hmain : unwrapToolOutput (wrapForLlm toolName content) = some (replace BROKEN ['<', '/'] (trim content)) := by
    have hwrap : wrapForLlm toolName content = "<tool_output".toList ++
        (" name=\"".toList ++ escapeXmlAttr toolName ++ ['"'] ++
          '>' :: ('\n' :: (escapeToolOutputClose content ++ ['\n']) ++ TAG_END)) := by
      have hopening : OPENING = "<tool_output".toList ++ " name=\"".toList := by decide
      have hend : OPENING_END = ['"'] ++ ['>', '\n'] := by decide
      have hclosing : CLOSING = ['\n'] ++ TAG_END := by decide
      rw [wrapForLlm, hopening, hend, hclosing]
      simp only [List.append_assoc, List.cons_append, List.nil_append]
    have htrim : trim (wrapForLlm toolName content) = wrapForLlm toolName content := by
      refine trim_of_ends ?_ ?_
      · rw [hwrap]
        intro c hc
        obtain rfl : '<' = c := Option.some.inj hc
        decide
      · have hlast : (wrapForLlm toolName content).getLast? = some '>' := by
          rw [wrapForLlm, List.getLast?_append, show CLOSING.getLast? = some '>' by decide]
          rfl
        rw [hlast]
        intro c hc
        obtain rfl : '>' = c := Option.some.inj hc
        decide
    have hattr : '>' ∉ " name=\"".toList ++ escapeXmlAttr toolName ++ ['"'] := by
      rw [List.mem_append, List.mem_append]
      rintro ((hmem | hmem) | hmem)
      · exact absurd hmem (by decide)
      · exact (escapeXmlAttr_plain toolName _ hmem).2.2 rfl
      · exact absurd hmem (by decide)
    have hbreak : ∀ c ∈ ['\n'], isWhitespace c = true := by
      intro c hc
      rw [List.mem_singleton.mp hc]
      rfl
    rw [unwrapToolOutput, htrim, hwrap]
    simp only [stripStart_append, find_char _ hattr]
    have hinner : ∀ attr inner : Str, (attr ++ '>' :: inner).drop (attr.length + 1) = inner :=
      fun attr inner => List.drop_length_add_append 1
    rw [hinner, show "</tool_output>".toList = TAG_END from rfl, rfind_append (by decide)]
    show some (unescapeToolOutputClose (trim (List.take _ _))) = _
    have hbody : trim ('\n' :: (escapeToolOutputClose content ++ ['\n'])) = trim (escapeToolOutputClose content) :=
      trim_pad hbreak hbreak _
    rw [List.take_left, hbody, trim_escape, unescape_escape]
    rfl
  refine ⟨hmain, fun hnone => ?_⟩
  have hinfix : trim content <:+: content := by
    obtain ⟨front, back, hs, -, -⟩ := trim_split content
    exact ⟨front, back, hs.symm⟩
  rw [hmain, replace_of_not_infix fun h => hnone (h.trans hinfix)]

theorem unwrap_wrapForLlm_tag :
    unwrapToolOutput (wrapForLlm "a\">b".toList " </tool_output> ".toList) = some "</tool_output>".toList :=
  ((unwrap_wrapForLlm _ _).2 (by decide)).trans (by decide)

end Ironclaw.Safety

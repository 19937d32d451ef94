import Ironclaw.Skills.Parser

/-!
# The division of a skill file into lines

What the parser does with a text is said again over its lines, whichever way each of them ends: the block of YAML is
what stands between the first line and the next line `---`, and the prompt is the rest.

- `normalizeLineEndings_eq`: a normalized text is its lines, joined by line feeds;
- `closingFrom_spec`: where the closing line starts, in characters or in bytes;
- `skill_split`: the parser divides a text by its lines, and its offsets lie between characters.
-/

namespace Ironclaw.Skills

open Text

/-! ## Lines -/

/-- The lines of a text; a line ends with a carriage return, a line feed, or both in this order. The last one has no
end. -/
def physicalLines : Str → List Str
  | [] => [[]]
  | '\r' :: '\n' :: s => [] :: physicalLines s
  | '\r' :: s => [] :: physicalLines s
  | '\n' :: s => [] :: physicalLines s
  | c :: s => (physicalLines s).modifyHead (c :: ·)

/-- A line without the characters that end lines. -/
def Unbroken (line : Str) : Prop := '\n' ∉ line ∧ '\r' ∉ line

theorem unbroken_nil : Unbroken [] := ⟨List.not_mem_nil, List.not_mem_nil⟩

theorem physicalLines_spec (s : Str) : physicalLines s ≠ [] ∧ ∀ line ∈ physicalLines s, Unbroken line := by
  have hbreak : ∀ {ls : List Str}, (ls ≠ [] ∧ ∀ line ∈ ls, Unbroken line) →
      [] :: ls ≠ [] ∧ ∀ line ∈ [] :: ls, Unbroken line :=
    fun h => ⟨List.cons_ne_nil _ _, List.forall_mem_cons.mpr ⟨unbroken_nil, h.2⟩⟩
  induction s using physicalLines.induct with
  | case1 => exact ⟨List.cons_ne_nil _ _, fun line hline => List.mem_singleton.mp hline ▸ unbroken_nil⟩
  | case2 s ih => exact hbreak ih
  | case3 s hs ih =>
    rw [physicalLines]
    · exact hbreak ih
    · exact hs
  | case4 s ih => exact hbreak ih
  | case5 c s hcrlf hcr hlf ih =>
    obtain ⟨line, ls, hls⟩ := List.exists_cons_of_ne_nil ih.1
    have hlines : physicalLines (c :: s) = (c :: line) :: ls := by
      rw [physicalLines, hls, List.modifyHead_cons]
      · exact hcrlf
      · exact hcr
      · exact hlf
    rw [hls] at ih
    obtain ⟨hline, hrest⟩ := List.forall_mem_cons.mp ih.2
    rw [hlines]
    refine ⟨List.cons_ne_nil _ _, List.forall_mem_cons.mpr ⟨⟨?_, ?_⟩, hrest⟩⟩
    · exact List.not_mem_cons_of_ne_of_not_mem (fun h => hlf h.symm) hline.1
    · exact List.not_mem_cons_of_ne_of_not_mem (fun h => hcr h.symm) hline.2

/-! ## Normalized texts -/

/-- A carriage return becomes a line feed. -/
def feed (c : Char) : Char := if c = '\r' then '\n' else c

theorem replace_cr (s : Str) : replace ['\r'] ['\n'] s = s.map feed := by
  rw [replace_char, List.map_eq_flatMap]
  refine List.flatMap_congr fun c _ => ?_
  rw [feed]
  split <;> rfl

theorem normalizeLineEndings_crlf (s : Str) :
    normalizeLineEndings ('\r' :: '\n' :: s) = '\n' :: normalizeLineEndings s := by
  have h : replace ['\r', '\n'] ['\n'] (['\r', '\n'] ++ s) = _ := replace_append (List.cons_ne_nil _ _) s
  simp only [List.cons_append, List.nil_append] at h
  rw [normalizeLineEndings, h, replace_cr, normalizeLineEndings, replace_cr]
  rfl

theorem normalizeLineEndings_cons {c : Char} {s : Str} (h : ¬['\r', '\n'] <+: c :: s) :
    normalizeLineEndings (c :: s) = feed c :: normalizeLineEndings s := by
  rw [normalizeLineEndings, replace_cons_of_not h, replace_cr, normalizeLineEndings, replace_cr]
  rfl

/-- Normalized line by line. -/
theorem normalizeLineEndings_eq (s : Str) : normalizeLineEndings s = join ['\n'] (physicalLines s) := by
  have hbreak : ∀ s : Str, join ['\n'] ([] :: physicalLines s) = '\n' :: join ['\n'] (physicalLines s) :=
    fun s => join_cons _ _ (physicalLines_spec s).1
  induction s using physicalLines.induct with
  | case1 => rfl
  | case2 s ih => rw [normalizeLineEndings_crlf, ih, physicalLines, hbreak]
  | case3 s hs ih =>
    have hpre : ¬['\r', '\n'] <+: '\r' :: s := by
      rintro ⟨t, ht⟩
      exact hs t (List.cons.inj ht).2.symm
    rw [normalizeLineEndings_cons hpre, ih, physicalLines, hbreak]
    · rfl
    · exact hs
  | case4 s ih =>
    have hpre : ¬['\r', '\n'] <+: '\n' :: s := fun h => absurd (List.cons_prefix_cons.mp h).1 (by decide)
    rw [normalizeLineEndings_cons hpre, ih, physicalLines, hbreak]
    rfl
  | case5 c s hcrlf hcr hlf ih =>
    have hpre : ¬['\r', '\n'] <+: c :: s := fun h => hcr (List.cons_prefix_cons.mp h).1.symm
    obtain ⟨line, ls, hls⟩ := List.exists_cons_of_ne_nil (physicalLines_spec s).1
    have hlines : physicalLines (c :: s) = (c :: line) :: ls := by
      rw [physicalLines, hls, List.modifyHead_cons]
      · exact hcrlf
      · exact hcr
      · exact hlf
    rw [normalizeLineEndings_cons hpre, ih, hlines, hls, feed, if_neg hcr]
    cases ls with
    | nil => simp only [join_singleton]
    | cons l ls => rw [join_cons_cons, join_cons_cons, List.cons_append]

theorem cr_not_mem_normalized (s : Str) : '\r' ∉ normalizeLineEndings s := by
  rw [normalizeLineEndings, replace_cr]
  intro h
  obtain ⟨c, -, hc⟩ := List.mem_map.mp h
  unfold feed at hc
  split at hc
  · exact absurd hc (by decide)
  next hne => exact hne hc

/-- A text without carriage returns stays as it is. -/
theorem normalizeLineEndings_of_not_mem {s : Str} (h : '\r' ∉ s) : normalizeLineEndings s = s := by
  have hcrlf : ¬['\r', '\n'] <:+: s := fun hs => h (hs.subset List.mem_cons_self)
  have hcr : ¬['\r'] <:+: s := fun hs => h (hs.subset List.mem_cons_self)
  rw [normalizeLineEndings, replace_of_not_infix hcrlf, replace_of_not_infix hcr]

theorem normalizeLineEndings_idem (s : Str) :
    normalizeLineEndings (normalizeLineEndings s) = normalizeLineEndings s :=
  normalizeLineEndings_of_not_mem (cr_not_mem_normalized s)

/-! ## The closing line -/

/-- The loop of `find_closing_delimiter`; `size` measures the lines. -/
def closingFrom (size : Str → Nat) : List Str → (pos : Nat) → Option Nat
  | [], _ => none
  | line :: ls, pos => if trim line = "---".toList then some pos else closingFrom size ls (pos + size line + 1)

/-- `find_closing_delimiter` as the source counts, in bytes. -/
def closingOffset (content : Str) : Option Nat := closingFrom utf8Len (lines content) 0

theorem findClosingDelimiter_eq (content : Str) :
    findClosingDelimiter content = closingFrom List.length (lines content) 0 := by
  have hgo : ∀ (ls : List Str) (pos : Nat), findClosingDelimiter.go ls pos = closingFrom List.length ls pos := by
    intro ls
    induction ls with
    | nil => exact fun _ => rfl
    | cons line ls ih =>
      intro pos
      rw [findClosingDelimiter.go, closingFrom, ih]
  exact hgo _ 0

/-- The lines before the closing line, each with its line feed. -/
def lineText (front : List Str) : Str := front.flatMap (· ++ ['\n'])

section Closing

variable {size : Str → Nat} {front back : List Str} {closing : Str}

theorem closingFrom_none : ∀ {ls : List Str} {pos : Nat}, (∀ line ∈ ls, trim line ≠ "---".toList) →
    closingFrom size ls pos = none
  | [], _, _ => rfl
  | line :: ls, pos, h => by
    obtain ⟨hline, hls⟩ := List.forall_mem_cons.mp h
    rw [closingFrom, if_neg hline]
    exact closingFrom_none hls

/-- The closing line starts after the lines before it and their line feeds. -/
theorem closingFrom_spec (hclosing : trim closing = "---".toList) : ∀ {front : List Str} {pos : Nat},
    (∀ line ∈ front, trim line ≠ "---".toList) →
    closingFrom size (front ++ closing :: back) pos = some (pos + (front.map fun line => size line + 1).sum)
  | [], pos, _ => by
    rw [List.nil_append, closingFrom, if_pos hclosing]
    rfl
  | line :: front, pos, h => by
    obtain ⟨hline, hfront⟩ := List.forall_mem_cons.mp h
    rw [List.cons_append, closingFrom, if_neg hline, closingFrom_spec hclosing hfront, List.map_cons, List.sum_cons,
      Nat.add_assoc, Nat.add_assoc, Nat.add_assoc]

theorem length_lineText : ∀ front : List Str, (lineText front).length = (front.map fun line => line.length + 1).sum
  | [] => rfl
  | line :: front => by
    rw [lineText, List.flatMap_cons, List.length_append, List.length_append, ← lineText, length_lineText front]
    rfl

theorem utf8Len_lineText : ∀ front : List Str, utf8Len (lineText front) = (front.map fun line => utf8Len line + 1).sum
  | [] => rfl
  | line :: front => by
    rw [lineText, List.flatMap_cons, utf8Len_append, utf8Len_append, ← lineText, utf8Len_lineText front]
    rfl

theorem join_lineText (hback : back ≠ []) : ∀ front : List Str,
    join ['\n'] (front ++ back) = lineText front ++ join ['\n'] back
  | [] => rfl
  | line :: front => by
    rw [List.cons_append, join_cons _ _ (List.append_ne_nil_of_right_ne_nil _ hback),
      join_lineText hback front, lineText, lineText, List.flatMap_cons, List.append_assoc (line ++ ['\n'])]

/-- The lines of joined lines are these; an empty last one does not count. -/
theorem lines_join {ls : List Str} (hne : ls ≠ []) (h : ∀ line ∈ ls, Unbroken line) :
    ls = lines (join ['\n'] ls) ∨ ls = lines (join ['\n'] ls) ++ [[]] := by
  obtain ⟨front, last, rfl⟩ := (List.eq_nil_or_concat' ls).resolve_left hne
  have hsplit : (join ['\n'] (front ++ [last])).splitOn '\n' = front ++ [last] :=
    List.splitOn_intercalate '\n' (fun line hline => (h line hline).1) hne
  have hcr : front.map stripCr = front := by
    refine (List.map_congr_left fun line hline => ?_).trans (List.map_id front)
    exact if_neg fun hlast => (h line (List.mem_append_left _ hline)).2 (List.mem_of_getLast? hlast)
  unfold lines
  rw [hsplit]
  simp only [List.dropLast_concat, List.getLast?_concat, hcr]
  cases last with
  | nil => exact .inr (by simp)
  | cons c last => exact .inl rfl

end Closing

/-! ## The parser by lines -/

/-- The lines without a byte order mark before the first. -/
def stripBom (ls : List Str) : List Str := ls.modifyHead fun line => (stripStart [Char.ofNat 0xFEFF] line).getD line

/-- How the lines are divided: after empty ones, the line that opens the block of YAML, the first line after it that is
`---`, and what follows. -/
def Divided (ls : List Str) (yamlText prompt : Str) : Prop :=
  ∃ blank opening front closing back, stripBom ls = blank ++ opening :: (front ++ closing :: back) ∧
    (∀ line ∈ blank, line = []) ∧ "---".toList <+: opening ∧ (∀ line ∈ front, trim line ≠ "---".toList) ∧
    trim closing = "---".toList ∧ yamlText = lineText front ∧ prompt = (join ['\n'] back).dropWhile (· == '\n')

/-- The rest of the parser, for a file that is divided. -/
def parseDivided (yaml : Yaml) (yamlText prompt : Str) : Except SkillParseError ParsedSkill := do
  let manifest ← (yaml yamlText).mapError .invalidYaml
  if !validateSkillName manifest.name then .error (.invalidName manifest.name)
  else if (trim prompt).isEmpty then .error .emptyPrompt
  else .ok ⟨{ manifest with activation := manifest.activation.enforceLimits }, prompt⟩

theorem unbroken_stripBom {ls : List Str} (h : ∀ line ∈ ls, Unbroken line) : ∀ line ∈ stripBom ls, Unbroken line := by
  cases ls with
  | nil => exact h
  | cons first ls =>
    obtain ⟨hfirst, hls⟩ := List.forall_mem_cons.mp h
    refine List.forall_mem_cons.mpr ⟨?_, hls⟩
    show Unbroken ((stripStart [Char.ofNat 0xFEFF] first).getD first)
    unfold stripStart
    split
    · exact ⟨fun hm => hfirst.1 (List.mem_of_mem_drop hm), fun hm => hfirst.2 (List.mem_of_mem_drop hm)⟩
    · exact hfirst

/-- The start of a text is that of its first line. -/
theorem stripStart_join {pat : Str} (hpat : '\n' ∉ pat) (first : Str) (ls : List Str) :
    stripStart pat (join ['\n'] (first :: ls)) = (stripStart pat first).map fun rest => join ['\n'] (rest :: ls) := by
  cases ls with
  | nil =>
    simp only [join_singleton]
    exact Option.map_id'.symm
  | cons l ls =>
    have hstart : pat.isPrefixOf (first ++ '\n' :: join ['\n'] (l :: ls)) = pat.isPrefixOf first := by
      refine Bool.eq_iff_iff.mpr ?_
      rw [List.isPrefixOf_iff_prefix, List.isPrefixOf_iff_prefix]
      constructor
      · intro h
        exact prefix_left h fun c hc => Option.some.inj hc ▸ hpat
      · exact fun h => h.trans (List.prefix_append _ _)
    unfold stripStart
    simp only [join_cons_cons, hstart]
    split
    next h =>
      have hle := (List.isPrefixOf_iff_prefix.mp h).length_le
      rw [Option.map_some, List.drop_append_of_le_length hle]
    · rfl

theorem join_stripBom (ls : List Str) :
    (stripStart [Char.ofNat 0xFEFF] (join ['\n'] ls)).getD (join ['\n'] ls) = join ['\n'] (stripBom ls) := by
  cases ls with
  | nil => rfl
  | cons first ls =>
    rw [stripStart_join (by decide), stripBom, List.modifyHead_cons]
    cases stripStart [Char.ofNat 0xFEFF] first <;> rfl

theorem idxOf?_split {α : Type*} [BEq α] [LawfulBEq α] {a : α} {post : List α} : ∀ {pre : List α}, a ∉ pre →
    (pre ++ a :: post).idxOf? a = some pre.length
  | [], _ => by rw [List.nil_append, List.idxOf?_cons, if_pos BEq.rfl, List.length_nil]
  | b :: pre, h => by
    obtain ⟨hb, hpre⟩ := not_or.mp (List.mem_cons.not.mp h)
    rw [List.cons_append, List.idxOf?_cons, if_neg fun hba => hb (beq_iff_eq.mp hba).symm, idxOf?_split hpre]
    rfl

theorem afterLine_join {first : Str} {ls : List Str} (hfirst : '\n' ∉ first) :
    afterLine (join ['\n'] (first :: ls)) = if ls.isEmpty then none else some (join ['\n'] ls) := by
  cases ls with
  | nil =>
    rw [join_singleton, afterLine, List.idxOf?_eq_none_iff.mpr hfirst]
    rfl
  | cons l ls =>
    rw [join_cons_cons, afterLine, idxOf?_split hfirst, Option.map_some, ← List.drop_drop, List.drop_left]
    rfl

/-- Leading empty lines are skipped. -/
theorem dropWhile_join {opening : Str} {rest : List Str} (hne : opening ≠ []) (hopening : Unbroken opening) :
    ∀ {blank : List Str}, (∀ line ∈ blank, line = []) →
    (join ['\n'] (blank ++ opening :: rest)).dropWhile (fun c => c == '\n' || c == '\r') = join ['\n'] (opening :: rest)
  | [], _ => by
    obtain ⟨c, line, rfl⟩ := List.exists_cons_of_ne_nil hne
    have hc : (c == '\n' || c == '\r') = false := by
      have hlf : c ≠ '\n' := fun h => hopening.1 (h ▸ List.mem_cons_self)
      have hcr : c ≠ '\r' := fun h => hopening.2 (h ▸ List.mem_cons_self)
      rw [Bool.or_eq_false_iff, beq_eq_false_iff_ne, beq_eq_false_iff_ne]
      exact ⟨hlf, hcr⟩
    cases rest with
    | nil => rw [List.nil_append, join_singleton, List.dropWhile_cons_of_neg (by simp [hc])]
    | cons l rest =>
      rw [List.nil_append, join_cons_cons, List.cons_append, List.dropWhile_cons_of_neg (by simp [hc])]
  | line :: blank, h => by
    obtain ⟨rfl, hblank⟩ := List.forall_mem_cons.mp h
    rw [List.cons_append, join_cons _ _ (List.append_ne_nil_of_right_ne_nil _ (List.cons_ne_nil _ _)), List.nil_append,
      List.singleton_append, List.dropWhile_cons_of_pos (by decide)]
    exact dropWhile_join hne hopening hblank

/-- Empty lines only are skipped altogether. -/
theorem dropWhile_join_blank : ∀ {ls : List Str}, (∀ line ∈ ls, line = []) →
    (join ['\n'] ls).dropWhile (fun c => c == '\n' || c == '\r') = []
  | [], _ => rfl
  | [line], h => by
    rw [join_singleton, h line (List.mem_singleton_self line)]
    rfl
  | line :: l :: ls, h => by
    obtain ⟨rfl, hrest⟩ := List.forall_mem_cons.mp h
    rw [join_cons_cons, List.nil_append, List.dropWhile_cons_of_pos (by decide)]
    exact dropWhile_join_blank hrest

/-- Where the first line is that is not empty, or that there is none. -/
theorem blank_or_opening : ∀ ls : List Str,
    (∃ blank opening rest, ls = blank ++ opening :: rest ∧ (∀ line ∈ blank, line = []) ∧ opening ≠ []) ∨
      ∀ line ∈ ls, line = []
  | [] => .inr fun _ h => absurd h List.not_mem_nil
  | line :: ls => by
    by_cases hline : line = []
    · rcases blank_or_opening ls with ⟨blank, opening, rest, rfl, hblank, hne⟩ | hall
      · exact .inl ⟨line :: blank, opening, rest, rfl, List.forall_mem_cons.mpr ⟨hline, hblank⟩, hne⟩
      · exact .inr (List.forall_mem_cons.mpr ⟨hline, hall⟩)
    · exact .inl ⟨[], line, ls, rfl, fun _ h => absurd h List.not_mem_nil, hline⟩

/-- There is one such place. -/
theorem opening_unique {opening opening' : Str} {rest rest' : List Str} (hne : opening ≠ []) (hne' : opening' ≠ []) :
    ∀ {blank blank' : List Str}, (∀ line ∈ blank, line = []) → (∀ line ∈ blank', line = []) →
    blank ++ opening :: rest = blank' ++ opening' :: rest' → opening = opening' ∧ rest = rest'
  | [], [], _, _, h => List.cons.inj h
  | [], line :: _, _, h', h => absurd ((List.cons.inj h).1.trans (h' line List.mem_cons_self)) hne
  | line :: _, [], h₁, _, h => absurd ((List.cons.inj h).1.symm.trans (h₁ line List.mem_cons_self)) hne'
  | _ :: _, _ :: _, h₁, h₂, h =>
    opening_unique hne hne' (List.forall_mem_cons.mp h₁).2 (List.forall_mem_cons.mp h₂).2 (List.cons.inj h).2

/-- Where the closing line is, or that there is none. -/
theorem closing_or_none (rest : List Str) :
    (∃ front closing back, rest = front ++ closing :: back ∧ (∀ line ∈ front, trim line ≠ "---".toList) ∧
      trim closing = "---".toList) ∨ ∀ line ∈ rest, trim line ≠ "---".toList := by
  cases h : rest.find? fun line => trim line = "---".toList with
  | none => exact .inr fun line hline heq => List.find?_eq_none.mp h line hline (decide_eq_true heq)
  | some closing =>
    obtain ⟨hclosing, front, back, hrest, hfront⟩ := List.find?_eq_some_iff_append.mp h
    exact .inl ⟨front, closing, back, hrest, fun line hline => by simpa using hfront line hline,
      of_decide_eq_true hclosing⟩

/-- An empty last line closes nothing. -/
theorem closingFrom_concat_nil (size : Str → Nat) : ∀ (ls : List Str) (pos : Nat),
    closingFrom size (ls ++ [[]]) pos = closingFrom size ls pos
  | [], pos => if_neg (by decide)
  | line :: ls, pos => by
    rw [List.cons_append, closingFrom, closingFrom, closingFrom_concat_nil size ls]

/-- The closing line in joined lines. -/
theorem closingFrom_lines (size : Str → Nat) {ls : List Str} (hne : ls ≠ []) (h : ∀ line ∈ ls, Unbroken line) :
    closingFrom size (lines (join ['\n'] ls)) 0 = closingFrom size ls 0 := by
  rcases lines_join hne h with heq | heq
  · rw [← heq]
  · conv_rhs => rw [heq, closingFrom_concat_nil]

/-- The parser on a text whose first line opens the block of YAML. -/
theorem parse_opening (yaml : Yaml) {content opening : Str} {rest : List Str} (hopening : Unbroken opening)
    (hrest : ∀ line ∈ rest, Unbroken line) (hdashes : "---".toList <+: opening)
    (hcontent : ((stripStart [Char.ofNat 0xFEFF] content).getD content).dropWhile (fun c => c == '\n' || c == '\r') =
      join ['\n'] (opening :: rest)) :
    (∀ front closing back, rest = front ++ closing :: back → (∀ line ∈ front, trim line ≠ "---".toList) →
      trim closing = "---".toList → parseSkillMd yaml content =
        parseDivided yaml (lineText front) ((join ['\n'] back).dropWhile (· == '\n'))) ∧
      ((∀ line ∈ rest, trim line ≠ "---".toList) → parseSkillMd yaml content = .error .missingFrontmatter) := by
  have hstart : stripStart "---".toList (join ['\n'] (opening :: rest)) =
      some (join ['\n'] (opening.drop 3 :: rest)) := by
    rw [stripStart_join (by decide), stripStart, if_pos (List.isPrefixOf_iff_prefix.mpr hdashes)]
    rfl
  have hfirst : '\n' ∉ opening.drop 3 := fun h => hopening.1 (List.mem_of_mem_drop h)
  have hafter : afterLine (join ['\n'] (opening.drop 3 :: rest)) = if rest.isEmpty then
    none else some (join ['\n'] rest) :=
    afterLine_join hfirst
  constructor
  · intro front closing back hsplit hfront hclosing
    have hne : rest ≠ [] := hsplit ▸ List.append_ne_nil_of_right_ne_nil _ (List.cons_ne_nil _ _)
    rw [if_neg (by simpa using hne)] at hafter
    have hfind : findClosingDelimiter (join ['\n'] rest) = some (lineText front).length := by
      rw [findClosingDelimiter_eq, closingFrom_lines _ hne hrest, hsplit, closingFrom_spec hclosing hfront,
        length_lineText, Nat.zero_add]
    have hjoin : join ['\n'] rest = lineText front ++ join ['\n'] (closing :: back) := by
      rw [hsplit, join_lineText (List.cons_ne_nil _ _)]
    have hclosingLf : '\n' ∉ closing :=
      (hrest closing (hsplit ▸ List.mem_append_right _ List.mem_cons_self)).1
    have hprompt : (afterLine (join ['\n'] (closing :: back))).getD [] = join ['\n'] back := by
      rw [afterLine_join hclosingLf]
      cases back with
      | nil => rfl
      | cons _ _ => rfl
    unfold parseSkillMd parseDivided
    simp only [hcontent, hstart, hafter, hfind, Option.elim_some, bind, Except.bind]
    rw [hjoin, List.take_left, List.drop_left, hprompt]
  · intro hnone
    unfold parseSkillMd
    by_cases hne : rest = []
    · rw [if_pos (List.isEmpty_iff.mpr hne)] at hafter
      simp only [hcontent, hstart, hafter, Option.elim_some, Option.elim_none, bind, Except.bind]
    · have hfind : findClosingDelimiter (join ['\n'] rest) = none := by
        rw [findClosingDelimiter_eq, closingFrom_lines _ hne hrest, closingFrom_none hnone]
      rw [if_neg (by simpa using hne)] at hafter
      simp only [hcontent, hstart, hafter, hfind, Option.elim_some, Option.elim_none, bind, Except.bind]

/-- The parser on joined lines, by the division of the lines. -/
theorem parse_join (yaml : Yaml) {ls : List Str} (h : ∀ line ∈ ls, Unbroken line) :
    (∀ yamlText prompt, Divided ls yamlText prompt →
      parseSkillMd yaml (join ['\n'] ls) = parseDivided yaml yamlText prompt) ∧
      ((¬∃ yamlText prompt, Divided ls yamlText prompt) →
        parseSkillMd yaml (join ['\n'] ls) = .error .missingFrontmatter) := by
  have hunbroken := unbroken_stripBom h
  have hdashes : ∀ {opening : Str}, "---".toList <+: opening → opening ≠ [] := by
    rintro opening hpre rfl
    exact absurd (List.prefix_nil.mp hpre) (by decide)
  have hskip : ∀ {blank opening rest}, stripBom ls = blank ++ opening :: rest → (∀ line ∈ blank, line = []) →
      opening ≠ [] → ((stripStart [Char.ofNat 0xFEFF] (join ['\n'] ls)).getD (join ['\n'] ls)).dropWhile
        (fun c => c == '\n' || c == '\r') = join ['\n'] (opening :: rest) := by
    intro blank opening rest hls hblank hne
    rw [join_stripBom, hls]
    exact dropWhile_join hne (hunbroken opening (hls ▸ List.mem_append_right _ List.mem_cons_self)) hblank
  constructor
  · rintro yamlText prompt ⟨blank, opening, front, closing, back, hls, hblank, hpre, hfront, hclosing, rfl, rfl⟩
    have hopening := hunbroken opening (hls ▸ List.mem_append_right _ List.mem_cons_self)
    have hrest : ∀ line ∈ front ++ closing :: back, Unbroken line :=
      fun line hline => hunbroken line (hls ▸ List.mem_append_right _ (List.mem_cons_of_mem _ hline))
    exact (parse_opening yaml hopening hrest hpre (hskip hls hblank (hdashes hpre))).1 front closing back rfl hfront
      hclosing
  · intro hnone
    rcases blank_or_opening (stripBom ls) with ⟨blank, opening, rest, hls, hblank, hne⟩ | hall
    · have hopening := hunbroken opening (hls ▸ List.mem_append_right _ List.mem_cons_self)
      have hrest : ∀ line ∈ rest, Unbroken line :=
        fun line hline => hunbroken line (hls ▸ List.mem_append_right _ (List.mem_cons_of_mem _ hline))
      by_cases hpre : "---".toList <+: opening
      · refine (parse_opening yaml hopening hrest hpre (hskip hls hblank hne)).2 ?_
        rcases closing_or_none rest with ⟨front, closing, back, rfl, hfront, hclosing⟩ | hall
        · exact absurd ⟨_, _, blank, opening, front, closing, back, hls, hblank, hpre, hfront, hclosing, rfl, rfl⟩ hnone
        · exact hall
      · have hstart : stripStart "---".toList (join ['\n'] (opening :: rest)) = none := by
          rw [stripStart_join (by decide), stripStart, if_neg fun hp => hpre (List.isPrefixOf_iff_prefix.mp hp)]
          rfl
        unfold parseSkillMd
        simp only [hskip hls hblank hne, hstart, Option.elim_none, bind, Except.bind]
    · have hempty := (congrArg _ (join_stripBom ls)).trans (dropWhile_join_blank hall)
      have hstart : stripStart "---".toList [] = none := rfl
      unfold parseSkillMd
      simp only [hempty, hstart, Option.elim_none, bind, Except.bind]

/-! ## The division -/

/-- What a division of texts into lines is worth: `parse` depends on the lines only, it takes the two parts that the
lines give, and every offset of the closing line lies between two characters. -/
structure SplitsByLines (yaml : Yaml) (content : Str) : Prop where
  terminators : ∀ other, physicalLines other = physicalLines content →
    parseSkillMd yaml (normalizeLineEndings other) = parseSkillMd yaml (normalizeLineEndings content)
  parts : ∀ yamlText prompt, Divided (physicalLines content) yamlText prompt →
    parseSkillMd yaml (normalizeLineEndings content) = parseDivided yaml yamlText prompt
  missing : (¬∃ yamlText prompt, Divided (physicalLines content) yamlText prompt) →
    parseSkillMd yaml (normalizeLineEndings content) = .error .missingFrontmatter
  boundaries : ∀ s, s <:+ normalizeLineEndings content → ∀ offset, closingOffset s = some offset →
    ∃ front back, s = front ++ back ∧ utf8Len front = offset ∧ findClosingDelimiter s = some front.length

/-- The offset in bytes is the length of a beginning of the text, and the model's offset in characters. -/
theorem closingOffset_boundary {s : Str} (hcr : '\r' ∉ s) {offset : Nat} (h : closingOffset s = some offset) :
    ∃ front back, s = front ++ back ∧ utf8Len front = offset ∧ findClosingDelimiter s = some front.length := by
  obtain ⟨hne, hunbroken⟩ := physicalLines_spec s
  have hs : s = join ['\n'] (physicalLines s) := by
    rw [← normalizeLineEndings_eq, normalizeLineEndings_of_not_mem hcr]
  generalize physicalLines s = ls at hne hunbroken hs
  subst hs
  rcases closing_or_none ls with ⟨front, closing, back, hsplit, hfront, hclosing⟩ | hnone
  · rw [closingOffset, closingFrom_lines _ hne hunbroken, hsplit, closingFrom_spec hclosing hfront] at h
    refine ⟨lineText front, join ['\n'] (closing :: back), ?_, ?_, ?_⟩
    · rw [hsplit, join_lineText (List.cons_ne_nil _ _)]
    · rw [utf8Len_lineText, ← Option.some.inj h, Nat.zero_add]
    · rw [findClosingDelimiter_eq, closingFrom_lines _ hne hunbroken, hsplit, closingFrom_spec hclosing hfront,
        length_lineText, Nat.zero_add]
  · rw [closingOffset, closingFrom_lines _ hne hunbroken, closingFrom_none hnone] at h
    cases h

/-- **A skill file is divided by its lines**, whichever way they end. -/
theorem skill_split (yaml : Yaml) (content : Str) : SplitsByLines yaml content := by
  obtain ⟨hparts, hmissing⟩ := parse_join yaml (physicalLines_spec content).2
  rw [← normalizeLineEndings_eq] at hparts hmissing
  refine ⟨fun other hother => ?_, hparts, hmissing, fun s hs offset => closingOffset_boundary ?_⟩
  · rw [normalizeLineEndings_eq, hother, ← normalizeLineEndings_eq]
  · exact fun hcr => cr_not_mem_normalized content (hs.subset hcr)

end Ironclaw.Skills

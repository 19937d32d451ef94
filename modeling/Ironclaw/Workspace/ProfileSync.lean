import Ironclaw.Lib.Occurrences
import Ironclaw.Workspace.Basic

/-!
# The profile section of USER.md

A sync puts the text of the profile between two markers: in place of the section that is there, in place of a generated
file or of the seed template, or behind what the user has written.

- `profileSection_eq` and `exists_of_profileSection`: the section that is found;
- `fixed_iff` and `appended_fixed_iff`: when a second merge changes nothing;
- `kept_iff`: when no line of the user is lost;
- `preserved_iff`: both together.
-/

namespace Ironclaw.Workspace

open Text

/-! ## Merging -/

def PROFILE_SECTION_BEGIN : Str := "<!-- BEGIN:profile-sync -->".toList
def PROFILE_SECTION_END : Str := "<!-- END:profile-sync -->".toList

/-- `wrap_profile_section`. -/
def wrapProfileSection (content : Str) : Str :=
  PROFILE_SECTION_BEGIN ++ '\n' :: (content ++ '\n' :: PROFILE_SECTION_END)

/-- The text before and behind the section: the first begin marker, and the first end marker from there on. -/
def profileSection (existing : Str) : Option (Str × Str) :=
  match find PROFILE_SECTION_BEGIN existing with
  | none => none
  | some start =>
    match find PROFILE_SECTION_END (existing.drop start) with
    | none => none
    | some endOffset =>
      some (existing.take start, existing.drop (start + endOffset + PROFILE_SECTION_END.length))

/-- The head of a file that was generated in the old format. -/
def isOldFormat (existing : Str) : Bool := "<!-- Auto-generated from context/profile.json".toList.isPrefixOf existing

def isSeedTemplate (content : Str) : Bool :=
  let trimmed := trim content
  "# User Context".toList.isPrefixOf trimmed && (find "- **Name:**".toList trimmed).isSome

def mergeProfileSection (existing newContent : Str) : Str :=
  let delimited := wrapProfileSection newContent
  match profileSection existing with
  | some (before, behind) => before ++ (delimited ++ behind)
  | none =>
    if isOldFormat existing then delimited
    else if isSeedTemplate existing then delimited
    else
      let trimmed := trimEnd existing
      if trimmed.isEmpty then delimited else trimmed ++ ("\n\n".toList ++ delimited)

/-- The template of USER.md. -/
def SEED : Str :=
  ("# User Context\n\n- **Name:**\n- **Timezone:**\n- **Preferences:**\n\n" ++
    "The agent will fill this in as it learns about you.\n" ++
    "You can also edit this directly to provide context upfront.").toList

/-! ## The section that is found -/

/-- No begin marker begins in the text or at its end. -/
def Fresh (u : Str) : Prop := ¬PROFILE_SECTION_BEGIN <:+: u ++ PROFILE_SECTION_BEGIN.dropLast

theorem begin_ne_nil : PROFILE_SECTION_BEGIN ≠ [] := by decide

theorem end_ne_nil : PROFILE_SECTION_END ≠ [] := by decide

theorem profileSection_eq {u v x : Str} (hu : Fresh u)
    (hbegin : PROFILE_SECTION_BEGIN <+: v ++ (PROFILE_SECTION_END ++ x))
    (hv : ¬PROFILE_SECTION_END <:+: v ++ PROFILE_SECTION_END.dropLast) :
    profileSection (u ++ (v ++ (PROFILE_SECTION_END ++ x))) = some (u, x) := by
  obtain ⟨rest, hrest⟩ := hbegin
  have hstart : find PROFILE_SECTION_BEGIN (u ++ (v ++ (PROFILE_SECTION_END ++ x))) = some u.length := by
    rw [← hrest]
    exact (find_first_iff begin_ne_nil rest u).mpr hu
  have hend : find PROFILE_SECTION_END (v ++ (PROFILE_SECTION_END ++ x)) = some v.length :=
    (find_first_iff end_ne_nil x v).mpr hv
  rw [profileSection, hstart]
  simp only [List.drop_left, hend, List.take_left]
  rw [Nat.add_assoc, ← List.drop_drop, List.drop_left, ← List.drop_drop, List.drop_left, List.drop_left]

theorem exists_of_profileSection {e u x : Str} (h : profileSection e = some (u, x)) : Fresh u ∧ ∃ v,
    e = u ++ (v ++ (PROFILE_SECTION_END ++ x)) ∧ PROFILE_SECTION_BEGIN <+: v ++ (PROFILE_SECTION_END ++ x) ∧
      ¬PROFILE_SECTION_END <:+: v ++ PROFILE_SECTION_END.dropLast := by
  rw [profileSection] at h
  split at h
  · cases h
  next start hstart =>
    obtain ⟨u', rest, rfl, rfl, hu⟩ := find_eq_some begin_ne_nil hstart
    rw [List.drop_left, List.take_left] at h
    split at h
    · cases h
    next endOffset hend =>
      obtain ⟨v, x', hrest, rfl, hv⟩ := find_eq_some end_ne_nil hend
      rw [hrest, Nat.add_assoc, ← List.drop_drop, List.drop_left, ← List.drop_drop, List.drop_left, List.drop_left] at h
      obtain ⟨rfl, rfl⟩ := Prod.mk.inj (Option.some.inj h)
      exact ⟨hu, v, congrArg (u' ++ ·) hrest, hrest ▸ List.prefix_append _ _, hv⟩

/-- Without a section, no end marker stands behind the first begin marker. -/
theorem not_infix_of_profileSection {u rest : Str} (hu : Fresh u)
    (h : profileSection (u ++ (PROFILE_SECTION_BEGIN ++ rest)) = none) :
    ¬PROFILE_SECTION_END <:+: PROFILE_SECTION_BEGIN ++ rest := by
  rw [profileSection, (find_first_iff begin_ne_nil rest u).mpr hu] at h
  simp only [List.drop_left] at h
  split at h
  next hend => exact find_eq_none_iff.mp hend
  · cases h

/-! ## A second merge -/

/-- The new section up to its end marker. -/
def opened (content : Str) : Str := PROFILE_SECTION_BEGIN ++ '\n' :: (content ++ ['\n'])

theorem wrap_eq (content : Str) : wrapProfileSection content = opened content ++ PROFILE_SECTION_END := by
  simp [wrapProfileSection, opened]

theorem wrap_append (content x : Str) :
    wrapProfileSection content ++ x = opened content ++ (PROFILE_SECTION_END ++ x) := by
  rw [wrap_eq, List.append_assoc]

theorem break_not_mem : '\n' ∉ PROFILE_SECTION_BEGIN ∧ '\n' ∉ PROFILE_SECTION_END := by decide

theorem end_not_infix_begin : ¬PROFILE_SECTION_END <:+: PROFILE_SECTION_BEGIN := by decide

theorem end_not_infix_end : ¬PROFILE_SECTION_END <:+: PROFILE_SECTION_END.dropLast := by decide

/-- The end marker of the section is the first one unless the content has one. -/
theorem end_infix_opened_iff (content : Str) :
    PROFILE_SECTION_END <:+: opened content ++ PROFILE_SECTION_END.dropLast ↔ PROFILE_SECTION_END <:+: content := by
  have hsplit : opened content ++ PROFILE_SECTION_END.dropLast =
      PROFILE_SECTION_BEGIN ++ '\n' :: (content ++ '\n' :: PROFILE_SECTION_END.dropLast) := by simp [opened]
  constructor
  · intro h
    rw [hsplit] at h
    rcases infix_append_cons break_not_mem.2 h with h | h
    · exact absurd h end_not_infix_begin
    · exact (infix_append_cons break_not_mem.2 h).resolve_right end_not_infix_end
  · rintro ⟨a, b, rfl⟩
    exact ⟨PROFILE_SECTION_BEGIN ++ '\n' :: a, b ++ '\n' :: PROFILE_SECTION_END.dropLast, by simp [opened]⟩

theorem begin_isPrefix (content x : Str) : PROFILE_SECTION_BEGIN <+: opened content ++ x := by
  rw [opened, List.append_assoc]
  exact List.prefix_append _ _

/-- A merge into a text with a new section behind fresh text changes nothing exactly when the content has no end
marker. -/
theorem fixed_iff {u : Str} (hu : Fresh u) (content x : Str) :
    mergeProfileSection (u ++ (wrapProfileSection content ++ x)) content = u ++ (wrapProfileSection content ++ x) ↔
      ¬PROFILE_SECTION_END <:+: content := by
  rw [← end_infix_opened_iff]
  constructor
  · intro hfixed hend
    -- the section that is found ends inside the content, so that the rest of the text is longer
    have hmem : PROFILE_SECTION_END <:+: opened content ++ (PROFILE_SECTION_END ++ x) :=
      hend.trans ((List.prefix_append_right_inj _).mpr
        ((List.dropLast_prefix _).trans (List.prefix_append _ x))).isInfix
    obtain ⟨i, hi⟩ := Option.ne_none_iff_exists'.mp (mt find_eq_none_iff.mp (not_not.mpr hmem))
    obtain ⟨v, x', hsplit, -, hv⟩ := find_eq_some end_ne_nil hi
    have hlen : v.length < (opened content).length := by
      by_contra hle
      have hleft : opened content ++ PROFILE_SECTION_END.dropLast <+: opened content ++ (PROFILE_SECTION_END ++ x) := by
        rw [List.prefix_append_right_inj]
        exact (List.dropLast_prefix _).trans (List.prefix_append _ x)
      have hright : v ++ PROFILE_SECTION_END.dropLast <+: opened content ++ (PROFILE_SECTION_END ++ x) := by
        rw [hsplit, List.prefix_append_right_inj]
        exact (List.dropLast_prefix _).trans (List.prefix_append _ x')
      have hprefix : opened content ++ PROFILE_SECTION_END.dropLast <+: v ++ PROFILE_SECTION_END.dropLast := by
        refine List.prefix_of_prefix_length_le hleft hright ?_
        simp only [List.length_append]
        omega
      exact hv (hend.trans hprefix.isInfix)
    have hsection : profileSection (u ++ (wrapProfileSection content ++ x)) = some (u, x') := by
      rw [wrap_append, hsplit]
      exact profileSection_eq hu (hsplit ▸ begin_isPrefix content _) hv
    rw [mergeProfileSection, hsection] at hfixed
    have hrest : x' = x := List.append_cancel_left (List.append_cancel_left hfixed)
    have hlens := congrArg List.length hsplit
    simp only [List.length_append, hrest] at hlens
    omega
  · intro hend
    have hsection : profileSection (u ++ (wrapProfileSection content ++ x)) = some (u, x) := by
      rw [wrap_append]
      exact profileSection_eq hu (begin_isPrefix content _) hend
    rw [mergeProfileSection, hsection]

/-- The block is put behind the text of the user. -/
def appends (existing : Str) : Prop :=
  profileSection existing = none ∧ isOldFormat existing = false ∧ isSeedTemplate existing = false

instance (existing : Str) : Decidable (appends existing) := inferInstanceAs (Decidable (_ ∧ _))

theorem fresh_nil : Fresh [] := by
  rw [Fresh]
  decide

/-- What has no white space at its end is not cut by trimming. -/
theorem prefix_trimEnd {l s : Str} (h : l <+: s) (hlast : ∀ c ∈ l.getLast?, isWhitespace c = false) :
    l <+: trimEnd s := by
  induction s using List.reverseRecOn with
  | nil => exact h
  | append_singleton s d ih =>
    rw [trimEnd]
    by_cases hd : isWhitespace d = true
    · rw [List.rdropWhile_concat_pos _ _ _ hd]
      rcases List.prefix_concat_iff.mp h with heq | h
      · rw [heq, List.getLast?_concat] at hlast
        exact absurd hd (by simpa using hlast d rfl)
      · exact ih h
    · rw [List.rdropWhile_concat_neg _ _ _ hd]
      exact h

theorem begin_infix_trimEnd_iff (s : Str) : PROFILE_SECTION_BEGIN <:+: trimEnd s ↔ PROFILE_SECTION_BEGIN <:+: s := by
  constructor
  · exact fun h => h.trans (List.rdropWhile_prefix isWhitespace s).isInfix
  · rintro ⟨a, b, rfl⟩
    have hlast : ∀ c ∈ (a ++ PROFILE_SECTION_BEGIN).getLast?, isWhitespace c = false := by
      rw [List.getLast?_append_of_ne_nil _ begin_ne_nil]
      exact fun c hc => Option.some.inj hc ▸ rfl
    obtain ⟨rest, hrest⟩ := prefix_trimEnd (List.prefix_append _ b) hlast
    exact ⟨a, rest, hrest⟩

theorem fresh_append_iff (t : Str) : Fresh (t ++ "\n\n".toList) ↔ ¬PROFILE_SECTION_BEGIN <:+: t := by
  have hsplit : t ++ "\n\n".toList ++ PROFILE_SECTION_BEGIN.dropLast =
      t ++ '\n' :: ([] ++ '\n' :: PROFILE_SECTION_BEGIN.dropLast) := by simp
  rw [Fresh, hsplit, not_iff_not]
  constructor
  · intro h
    refine (infix_append_cons break_not_mem.1 h).resolve_right fun h => ?_
    rcases infix_append_cons break_not_mem.1 h with h | h
    · exact begin_ne_nil (List.infix_nil.mp h)
    · exact fresh_nil h
  · exact fun h => h.trans (List.prefix_append _ _).isInfix

/-- Where a begin marker stands before the new section, a second merge drops what stands between them. -/
theorem not_fixed_of_begin {u rest content : Str} (hu : Fresh u)
    (hrest : ¬PROFILE_SECTION_END <:+: PROFILE_SECTION_BEGIN ++ rest) :
    let text := u ++ (PROFILE_SECTION_BEGIN ++ (rest ++ '\n' :: '\n' :: wrapProfileSection content))
    mergeProfileSection text content ≠ text := by
  intro text hfixed
  let stray := PROFILE_SECTION_BEGIN ++ (rest ++ '\n' :: '\n' :: opened content)
  have htext : text = u ++ (stray ++ (PROFILE_SECTION_END ++ [])) := by simp [text, stray, wrap_eq]
  have hmem : PROFILE_SECTION_END <:+: stray ++ (PROFILE_SECTION_END ++ []) := ⟨stray, [], by simp⟩
  obtain ⟨i, hi⟩ := Option.ne_none_iff_exists'.mp (mt find_eq_none_iff.mp (not_not.mpr hmem))
  obtain ⟨v, x, hsplit, -, hv⟩ := find_eq_some end_ne_nil hi
  have hprefix : PROFILE_SECTION_BEGIN <+: v ++ (PROFILE_SECTION_END ++ x) := by
    rw [← hsplit, List.append_assoc]
    exact List.prefix_append _ _
  have hsection : profileSection text = some (u, x) := by
    rw [htext, hsplit]
    exact profileSection_eq hu hprefix hv
  rw [mergeProfileSection, hsection] at hfixed
  -- so the section up to the first end marker is the new one, and it has no end marker of its own
  have hsame : opened content ++ (PROFILE_SECTION_END ++ x) = v ++ (PROFILE_SECTION_END ++ x) := by
    rw [← wrap_append]
    exact List.append_cancel_left (hfixed.trans (htext.trans (congrArg (u ++ ·) hsplit)))
  obtain rfl : opened content = v := List.append_cancel_right hsame
  -- but then the first end marker is the one at the end
  have hstray : ¬PROFILE_SECTION_END <:+: stray ++ PROFILE_SECTION_END.dropLast := by
    have hlines : stray ++ PROFILE_SECTION_END.dropLast = PROFILE_SECTION_BEGIN ++ rest ++
        '\n' :: ([] ++ '\n' :: (opened content ++ PROFILE_SECTION_END.dropLast)) := by simp [stray]
    rw [hlines]
    intro h
    rcases infix_append_cons break_not_mem.2 h with h | h
    · exact hrest h
    · rcases infix_append_cons break_not_mem.2 h with h | h
      · exact end_ne_nil (List.infix_nil.mp h)
      · exact hv h
  have hfirst := (find_first_iff end_ne_nil [] stray).mpr hstray
  rw [hsplit, (find_first_iff end_ne_nil x _).mpr hv] at hfirst
  have hlen := Option.some.inj hfirst
  simp only [stray, List.length_append, List.length_cons] at hlen
  omega

/-! ## What a merge writes -/

section Merge

variable {existing : Str} (content : Str)

theorem merge_replaced {u x : Str} (h : profileSection existing = some (u, x)) :
    mergeProfileSection existing content = u ++ (wrapProfileSection content ++ x) := by
  rw [mergeProfileSection, h]

theorem merge_whole (h : profileSection existing = none)
    (hwhole : isOldFormat existing = true ∨ isSeedTemplate existing = true ∨ trimEnd existing = []) :
    mergeProfileSection existing content = wrapProfileSection content := by
  rw [mergeProfileSection, h]
  simp only
  split
  · rfl
  next hold =>
    split
    · rfl
    next hseed => rw [(hwhole.resolve_left hold).resolve_left hseed, if_pos List.isEmpty_nil]

theorem merge_appended (h : appends existing) (hne : trimEnd existing ≠ []) :
    mergeProfileSection existing content = trimEnd existing ++ ("\n\n".toList ++ wrapProfileSection content) := by
  obtain ⟨hsection, hold, hseed⟩ := h
  have hempty : (trimEnd existing).isEmpty = false := by simpa using hne
  simp only [mergeProfileSection, hsection, hold, hseed, hempty, Bool.false_eq_true, if_false]

theorem whole_or_appends (h : profileSection existing = none) :
    (isOldFormat existing = true ∨ isSeedTemplate existing = true ∨ trimEnd existing = []) ∨
      appends existing ∧ trimEnd existing ≠ [] := by
  unfold appends
  by_cases hempty : trimEnd existing = []
  · exact .inl (.inr (.inr hempty))
  · cases hold : isOldFormat existing <;> cases hseed : isSeedTemplate existing <;> simp_all

/-- A second merge changes nothing exactly when the content has no end marker and the block was not put behind a text
with a begin marker. -/
theorem idempotent_iff :
    mergeProfileSection (mergeProfileSection existing content) content = mergeProfileSection existing content ↔
      ¬PROFILE_SECTION_END <:+: content ∧ (appends existing → ¬PROFILE_SECTION_BEGIN <:+: existing) := by
  have hreplaced := fixed_iff fresh_nil content []
  rw [List.nil_append, List.append_nil] at hreplaced
  cases hsection : profileSection existing with
  | some found =>
    obtain ⟨u, x⟩ := found
    obtain ⟨hu, -⟩ := exists_of_profileSection hsection
    have hno : ¬appends existing := fun h => by simp [h.1] at hsection
    rw [merge_replaced content hsection, fixed_iff hu]
    simp [hno]
  | none =>
    rcases whole_or_appends hsection with hwhole | ⟨happends, hne⟩
    · rw [merge_whole content hsection hwhole, hreplaced]
      refine (and_iff_left fun happends hbegin => ?_).symm
      have hempty : trimEnd existing = [] := by
        rcases hwhole with hold | hseed | hempty
        · exact absurd hold (by simp [happends.2.1])
        · exact absurd hseed (by simp [happends.2.2])
        · exact hempty
      have hnil := (begin_infix_trimEnd_iff existing).mpr hbegin
      rw [hempty] at hnil
      exact begin_ne_nil (List.infix_nil.mp hnil)
    · rw [merge_appended content happends hne]
      by_cases hbegin : PROFILE_SECTION_BEGIN <:+: existing
      · refine iff_of_false ?_ fun h => h.2 happends hbegin
        have hmem := (begin_infix_trimEnd_iff existing).mpr hbegin
        obtain ⟨i, hi⟩ := Option.ne_none_iff_exists'.mp (mt find_eq_none_iff.mp (not_not.mpr hmem))
        obtain ⟨u, rest, htrimmed, -, hu⟩ := find_eq_some begin_ne_nil hi
        obtain ⟨spaces, hspaces⟩ := List.rdropWhile_prefix isWhitespace existing
        have hend : ¬PROFILE_SECTION_END <:+: PROFILE_SECTION_BEGIN ++ (rest ++ spaces) := by
          refine not_infix_of_profileSection hu ?_
          rw [← hsection, ← hspaces]
          exact congrArg profileSection (by rw [show existing.rdropWhile _ = _ from htrimmed]; simp)
        have hrest : ¬PROFILE_SECTION_END <:+: PROFILE_SECTION_BEGIN ++ rest := by
          refine fun h => hend (h.trans ?_)
          rw [← List.append_assoc]
          exact (List.prefix_append _ spaces).isInfix
        have hnot := @not_fixed_of_begin u rest content hu hrest
        rw [htrimmed]
        simpa using hnot
      · have hfresh : Fresh (trimEnd existing ++ "\n\n".toList) :=
          (fresh_append_iff _).mpr fun h => hbegin ((begin_infix_trimEnd_iff existing).mp h)
        have hfixed := fixed_iff hfresh content []
        rw [List.append_nil, List.append_assoc] at hfixed
        rw [hfixed]
        exact (and_iff_left fun _ => hbegin).symm

end Merge

/-! ## The lines of the user -/

/-- The lines that a merge has to keep: those outside the section; without one, those that are no lines of the seed
template in a file made from it, none of a file of the old format, and all lines of any other file. -/
def keptLines (existing : Str) : List Str :=
  match profileSection existing with
  | some (before, behind) => completeLines before ++ lines (afterBreak behind)
  | none =>
    if isOldFormat existing then []
    else if isSeedTemplate existing then (lines existing).filter (· ∉ lines SEED)
    else lines existing

/-- The lines that a merge does not carry over: what was added to the seed template, and at the end of any other file
the lines that trimming its end takes away or changes. -/
def droppedLines (existing : Str) : List Str :=
  match profileSection existing with
  | some _ => []
  | none =>
    if isOldFormat existing then []
    else if isSeedTemplate existing then (lines existing).filter (· ∉ lines SEED)
    else if (trimEnd existing).isEmpty then lines existing
    else leftOver (lines existing) (lines (trimEnd existing ++ "\n\n".toList))

theorem lines_two_breaks (s t : Str) : lines (s ++ ("\n\n".toList ++ t)) = lines (s ++ "\n\n".toList) ++ lines t := by
  have hbreaks : ∀ r : Str, s ++ ("\n\n".toList ++ r) = s ++ '\n' :: ([] ++ '\n' :: r) := fun r => rfl
  have hnil : s ++ "\n\n".toList = s ++ '\n' :: ([] ++ '\n' :: []) := rfl
  rw [hbreaks, hnil, lines_break, lines_break, lines_break, lines_break]
  simp [lines]

theorem afterBreak_spec (s : Str) : afterBreak s = [] ∨ ∃ first, s = first ++ '\n' :: afterBreak s := by
  rw [afterBreak]
  cases h : s.dropWhile (· ≠ '\n') with
  | nil => exact .inl rfl
  | cons c rest =>
    have hhead := List.head?_dropWhile_not (· ≠ '\n') s
    rw [h] at hhead
    obtain rfl : c = '\n' := by simpa using hhead
    exact .inr ⟨s.takeWhile (· ≠ '\n'), by rw [List.drop_one, List.tail_cons, ← h, List.takeWhile_append_dropWhile]⟩

/-- The lines outside a part of a text stay whatever stands in its place. -/
theorem outside_sublist (before middle behind : Str) :
    (completeLines before ++ lines (afterBreak behind)).Sublist (lines (before ++ (middle ++ behind))) := by
  rcases afterBreak_spec behind with h | ⟨first, h⟩
  · rw [h, show lines [] = [] from rfl, List.append_nil]
    exact ((completeLines_isPrefix before _).trans (completeLines_prefix_lines _)).sublist
  · have htext : before ++ (middle ++ behind) = (before ++ (middle ++ first)) ++ '\n' :: afterBreak behind := by
      conv_lhs => rw [h]
      simp
    have hfirst : completeLines before <+: ((before ++ (middle ++ first)).splitOn '\n').map stripCr :=
      (completeLines_isPrefix before _).trans ((List.dropLast_prefix _).map stripCr)
    rw [htext, lines_break]
    exact hfirst.sublist.append_right _

/-- No line is lost exactly when what is not carried over stands in the new section. -/
theorem kept_iff (existing content : Str) :
    (keptLines existing).Sublist (lines (mergeProfileSection existing content)) ↔
      (droppedLines existing).Sublist (lines (wrapProfileSection content)) := by
  cases hsection : profileSection existing with
  | some found =>
    obtain ⟨u, x⟩ := found
    simp only [keptLines, droppedLines, hsection, merge_replaced content hsection, List.nil_sublist, iff_true]
    exact outside_sublist u (wrapProfileSection content) x
  | none =>
    rcases whole_or_appends hsection with hwhole | ⟨happends, hne⟩
    · have hsame : keptLines existing = droppedLines existing := by
        simp only [keptLines, droppedLines, hsection]
        split
        · rfl
        next hold =>
          split
          · rfl
          next hseed => rw [(hwhole.resolve_left hold).resolve_left hseed, if_pos List.isEmpty_nil]
      rw [merge_whole content hsection hwhole, hsame]
    · have hempty : (trimEnd existing).isEmpty = false := by simpa using hne
      rw [merge_appended content happends hne, lines_two_breaks]
      obtain ⟨-, hold, hseed⟩ := happends
      simp only [keptLines, droppedLines, hsection, hold, hseed, hempty, Bool.false_eq_true, if_false]
      exact sublist_append_iff _ _ _

/-! ## The law -/

/-- A merge that a second one does not change, and that keeps the lines of the user in their order. -/
structure Preserved (existing content : Str) : Prop where
  idempotent : mergeProfileSection (mergeProfileSection existing content) content = mergeProfileSection existing content
  kept : (keptLines existing).Sublist (lines (mergeProfileSection existing content))

/-- **The sync of the profile.** The text of the user is preserved exactly when the content of the profile has no end
marker, the block is not put behind a text with a begin marker, and the lines that a merge does not carry over stand in
the new section. -/
theorem preserved_iff (existing content : Str) : Preserved existing content ↔
    ¬PROFILE_SECTION_END <:+: content ∧ (appends existing → ¬PROFILE_SECTION_BEGIN <:+: existing) ∧
      (droppedLines existing).Sublist (lines (wrapProfileSection content)) := by
  rw [← and_assoc, ← idempotent_iff content, ← kept_iff]
  exact ⟨fun h => ⟨h.idempotent, h.kept⟩, fun h => ⟨h.1, h.2⟩⟩

/-- A name that was filled in to the seed template is lost. -/
theorem edited_template_is_lost : ¬∀ existing content : Str, Preserved existing content := by
  intro h
  have hkept := (h "# User Context\n\n- **Name:** Ada".toList "# User Profile".toList).kept
  revert hkept
  decide +kernel

end Ironclaw.Workspace

import Ironclaw.Lib.Occurrences
import Ironclaw.Llm.Reasoning
import Mathlib.Data.List.DropRight

/-!
# Code regions

The parts of a reply that are code: blocks between fences, which are lines, and spans between runs of backticks. A call
in tags is recovered from a reply only where it stands alone on its lines and outside of code.

- `region_of_open`: a fence that is open at a line gives a region that goes over the line;
- `isRecoverable_iff`: what stands around a segment that may be recovered;
- `recovered_isolated`: where a recovered call comes from.
-/

namespace Ironclaw.Llm

open Text

/-- `CodeRegion`: a range of positions. -/
structure CodeRegion where
  start : Nat
  finish : Nat
  deriving DecidableEq

/-- The characters that are skipped at the ends of a fence line. -/
def isBlank (c : Char) : Bool := c = ' ' || c = '\t'

/-- The fence that a line opens: its character and its length, of three or more. -/
def openingFence (line : Str) : Option (Char × Nat) :=
  match line.dropWhile isBlank with
  | [] => none
  | c :: rest =>
    let fenceLen := (rest.takeWhile (· = c)).length + 1
    if (c = '`' ∨ c = '~') ∧ 3 ≤ fenceLen then some (c, fenceLen) else none

/-- A line closes a fence: at least as long, of the same character, and nothing more on the line. -/
def closesFence (fence : Char × Nat) (line : Str) : Bool :=
  let rest := line.dropWhile isBlank
  fence.2 ≤ (rest.takeWhile (· = fence.1)).length && (rest.dropWhile (· = fence.1)).all isBlank

/-- The fenced blocks of a text with the length `len`, from the line at position `pos`; a block that is open has its
start and its fence. A block without a closing line goes to the end. -/
def fencedRegions (len : Nat) : Option (Nat × (Char × Nat)) → (pos : Nat) → List Str → List CodeRegion
  | none, _, [] => []
  | some (start, _), _, [] => [⟨start, len⟩]
  | none, pos, line :: lines =>
    fencedRegions len ((openingFence line).map fun fence => (pos, fence)) (pos + line.length + 1) lines
  | some (start, fence), pos, line :: lines =>
    if closesFence fence line then
      ⟨start, min (pos + line.length + 1) len⟩ :: fencedRegions len none (pos + line.length + 1) lines
    else fencedRegions len (some (start, fence)) (pos + line.length + 1) lines

/-- `is_inside_code` -/
def isInsideCode (pos : Nat) (regions : List CodeRegion) : Bool := regions.any fun r => r.start ≤ pos && pos < r.finish

/-- `overlaps_code_region` -/
def overlapsCodeRegion (start segmentEnd : Nat) (regions : List CodeRegion) : Bool :=
  regions.any fun r => start < r.finish && r.start < segmentEnd

/-- Where the first run of exactly `tickLen` backticks ends; `run` backticks were just read. -/
def closingRun (tickLen : Nat) : (run : Nat) → Str → Option Nat
  | run, [] => if run = tickLen then some 0 else none
  | run, c :: rest =>
    if c = '`' then (closingRun tickLen (run + 1) rest).map (· + 1)
    else if run = tickLen then some 0
    else (closingRun tickLen 0 rest).map (· + 1)

/-- The spans between runs of backticks, of which the first is not in a fenced block. -/
def inlineSpans (fenced : List CodeRegion) : (fuel pos : Nat) → Str → List CodeRegion
  | 0, _, _ => []
  | _ + 1, _, [] => []
  | fuel + 1, pos, c :: rest =>
    if c ≠ '`' ∨ isInsideCode pos fenced then inlineSpans fenced fuel (pos + 1) rest
    else
      let tickLen := (rest.takeWhile (· = '`')).length + 1
      let after := rest.dropWhile (· = '`')
      match closingRun tickLen 0 after with
      | some k => ⟨pos, pos + tickLen + k⟩ :: inlineSpans fenced fuel (pos + tickLen + k) (after.drop k)
      | none => inlineSpans fenced fuel (pos + tickLen) after

/-- `find_code_regions` -/
def findCodeRegions (text : Str) : List CodeRegion :=
  let fenced := fencedRegions text.length none 0 (text.splitOn '\n')
  (fenced ++ inlineSpans fenced (text.length + 1) 0 text).insertionSort fun r r' => r.start ≤ r'.start

/-- `line_bounds` -/
def lineBounds (text : Str) (pos : Nat) : Nat × Nat :=
  let pos := min pos text.length
  (((text.take pos).rdropWhile (· ≠ '\n')).length, pos + ((text.drop pos).takeWhile (· ≠ '\n')).length)

/-- The text between two positions. -/
def between (text : Str) (start finish : Nat) : Str := (text.take finish).drop start

/-- `is_recoverable_tool_call_segment` -/
def isRecoverableToolCallSegment (text : Str) (start segmentEnd : Nat) (regions : List CodeRegion) : Bool :=
  if overlapsCodeRegion start segmentEnd regions then false
  else
    let first := lineBounds text start
    if (trimStart (between text first.1 first.2)).head? = some '>' then false
    else
      let last := lineBounds text (segmentEnd - 1)
      (trim (between text first.1 start)).isEmpty && (trim (between text segmentEnd last.2)).isEmpty

/-- The texts of a reply with the code regions of the program. -/
def ReplyText.withCodeRegions (rt : ReplyText) : ReplyText :=
  { rt with isRecoverable := fun content start segmentEnd =>
      isRecoverableToolCallSegment content start segmentEnd (findCodeRegions content) }

/-! ## Fences -/

/-- The fence that is open after one more line. -/
def nextFence : Option (Char × Nat) → Str → Option (Char × Nat)
  | none, line => openingFence line
  | some fence, line => if closesFence fence line then none else some fence

/-- The fence that is open after some lines. -/
def fenceAfter (fence : Option (Char × Nat)) (lines : List Str) : Option (Char × Nat) := lines.foldl nextFence fence

/-- Lines, each with its line break. -/
def unlines (ls : List Str) : Str := ls.flatMap (· ++ ['\n'])

@[simp] theorem unlines_nil : unlines [] = [] := rfl

@[simp] theorem unlines_cons (l : Str) (ls : List Str) : unlines (l :: ls) = l ++ '\n' :: unlines ls := by
  simp [unlines]

/-- A block that is open goes over the next line. -/
theorem region_of_fence (len : Nat) (fence : Char × Nat) (start : Nat) : ∀ (lines : List Str) (pos : Nat) (line : Str),
    ∃ r ∈ fencedRegions len (some (start, fence)) pos (line :: lines),
      r.start = start ∧ min (pos + line.length + 1) len ≤ r.finish := by
  intro lines
  induction lines with
  | nil =>
    intro pos line
    by_cases hcloses : closesFence fence line
    · exact ⟨_, by rw [fencedRegions, if_pos hcloses]; exact List.mem_cons_self, rfl, le_refl _⟩
    · exact ⟨⟨start, len⟩, by rw [fencedRegions, if_neg hcloses]; exact List.mem_cons_self, rfl, min_le_right _ _⟩
  | cons line' lines ih =>
    intro pos line
    by_cases hcloses : closesFence fence line
    · exact ⟨_, by rw [fencedRegions, if_pos hcloses]; exact List.mem_cons_self, rfl, le_refl _⟩
    · obtain ⟨r, hr, hstart, hfinish⟩ := ih (pos + line.length + 1) line'
      refine ⟨r, ?_, hstart, le_trans ?_ hfinish⟩
      · rw [fencedRegions, if_neg hcloses]
        exact hr
      · omega

/-- One line of the scan. -/
theorem fencedRegions_cons (len : Nat) {state : Option (Nat × (Char × Nat))} {pos : Nat}
    (hstate : ∀ s ∈ state, s.1 ≤ pos)
    (line : Str) (lines : List Str) : ∃ state', (∀ s ∈ state', s.1 ≤ pos) ∧
      state'.map Prod.snd = nextFence (state.map Prod.snd) line ∧
      fencedRegions len state' (pos + line.length + 1) lines ⊆ fencedRegions len state pos (line :: lines) := by
  cases state with
  | none =>
    refine ⟨(openingFence line).map fun fence => (pos, fence), ?_, ?_, List.Subset.refl _⟩
    · intro s hs
      obtain ⟨f, -, rfl⟩ := Option.mem_map.mp hs
      exact le_refl _
    · cases h : openingFence line <;> simp [nextFence, h]
  | some s =>
    by_cases hcloses : closesFence s.2 line
    · refine ⟨none, (fun s hs => by cases hs), ?_, fun r hr => ?_⟩
      · simp [nextFence, hcloses]
      · rw [fencedRegions, if_pos hcloses]
        exact List.mem_cons_of_mem _ hr
    · refine ⟨some s, hstate, ?_, fun r hr => ?_⟩
      · simp [nextFence, hcloses]
      · rw [fencedRegions, if_neg hcloses]
        exact hr

/-- Where a fence is open after some lines, its block goes over the line that follows. -/
theorem region_of_open (len : Nat) {fence : Char × Nat} (line : Str) (lines before : List Str) :
    ∀ {state : Option (Nat × (Char × Nat))} {pos : Nat}, (∀ s ∈ state, s.1 ≤ pos) →
      fenceAfter (state.map Prod.snd) before = some fence →
      ∃ r ∈ fencedRegions len state pos (before ++ line :: lines), r.start ≤ pos + (unlines before).length ∧
        min (pos + (unlines before).length + line.length + 1) len ≤ r.finish := by
  induction before with
  | nil =>
    intro state pos hstate hopen
    cases state with
    | none => cases hopen
    | some s =>
      obtain ⟨r, hr, hstart, hfinish⟩ := region_of_fence len s.2 s.1 lines pos line
      refine ⟨r, hr, ?_, hfinish⟩
      rw [hstart]
      exact hstate s rfl
  | cons l before ih =>
    intro state pos hstate hopen
    obtain ⟨state', hstate', hnext, hsub⟩ := fencedRegions_cons len hstate l (before ++ line :: lines)
    have hopen' : fenceAfter (state'.map Prod.snd) before = some fence := by
      rw [hnext]
      exact hopen
    have hbound : ∀ s ∈ state', s.1 ≤ pos + l.length + 1 := fun s hs => (hstate' s hs).trans (by omega)
    obtain ⟨r, hr, hstart, hfinish⟩ := ih hbound hopen'
    refine ⟨r, hsub hr, ?_, ?_⟩
    · simp only [unlines_cons, List.length_append, List.length_cons]
      omega
    · simp only [unlines_cons, List.length_append, List.length_cons]
      omega

/-! ## Lines -/

/-- A text is lines with their line breaks and a last one without. -/
theorem exists_unlines : ∀ s : Str, ∃ before rest, s = unlines before ++ rest ∧ (∀ l ∈ before, '\n' ∉ l) ∧ '\n' ∉ rest
  | [] => ⟨[], [], rfl, (fun l hl => by cases hl), List.not_mem_nil⟩
  | c :: s => by
    obtain ⟨before, rest, rfl, hbefore, hrest⟩ := exists_unlines s
    by_cases hc : c = '\n'
    · refine ⟨[] :: before, rest, by rw [hc]; simp, fun l hl => ?_, hrest⟩
      rcases List.mem_cons.mp hl with rfl | hl
      · exact List.not_mem_nil
      · exact hbefore l hl
    · cases before with
      | nil =>
        refine ⟨[], c :: rest, rfl, hbefore, fun h => ?_⟩
        rcases List.mem_cons.mp h with h | h
        · exact hc h.symm
        · exact hrest h
      | cons l before =>
        refine ⟨(c :: l) :: before, rest, by simp, fun l' hl' => ?_, hrest⟩
        rcases List.mem_cons.mp hl' with rfl | hl'
        · intro h
          rcases List.mem_cons.mp h with h | h
          · exact hc h.symm
          · exact hbefore l List.mem_cons_self h
        · exact hbefore l' (List.mem_cons_of_mem _ hl')

theorem splitOn_unlines {rest : Str} : ∀ {before : List Str}, (∀ l ∈ before, '\n' ∉ l) →
    (unlines before ++ rest).splitOn '\n' = before ++ rest.splitOn '\n'
  | [], _ => rfl
  | l :: before, h => by
    have ih : (unlines before ++ rest).splitOn '\n' = before ++ rest.splitOn '\n' :=
      splitOn_unlines fun l' hl' => h l' (List.mem_cons_of_mem _ hl')
    rw [unlines_cons, List.append_assoc, List.cons_append,
      List.splitOn_append_cons_self_of_not_mem (h l List.mem_cons_self), ih]
    rfl

theorem getLast_unlines : ∀ {before : List Str} (h : unlines before ≠ []), (unlines before).getLast h = '\n' := by
  intro before
  induction before using List.reverseRecOn with
  | nil => exact fun h => absurd rfl h
  | append_singleton before l ih =>
    intro h
    simp [unlines, ← List.append_assoc]

/-- What follows the last line break is dropped. -/
theorem rdropWhile_unlines {rest : Str} (hrest : '\n' ∉ rest) (before : List Str) :
    (unlines before ++ rest).rdropWhile (· ≠ '\n') = unlines before := by
  have hall : ∀ c ∈ rest.reverse, (c ≠ '\n' : Bool) = true := by
    intro c hc
    refine decide_eq_true fun h => hrest ?_
    rw [← h]
    exact List.mem_reverse.mp hc
  rw [List.rdropWhile, List.reverse_append, List.dropWhile_append_of_pos hall]
  refine List.rdropWhile_eq_self_iff.mpr fun h => ?_
  rw [getLast_unlines h]
  simp

/-- The bounds of the line at a position, of which the text before and the text from there on are given. -/
theorem lineBounds_append {before : List Str} {pre rest : Str} (hpre : '\n' ∉ pre) :
    lineBounds (unlines before ++ pre ++ rest) (unlines before ++ pre).length =
      ((unlines before).length, (unlines before ++ pre).length + (rest.takeWhile (· ≠ '\n')).length) := by
  have hmin : min (unlines before ++ pre).length (unlines before ++ pre ++ rest).length =
    (unlines before ++ pre).length :=
    min_eq_left (List.prefix_append _ rest).length_le
  rw [lineBounds, hmin, List.take_left, List.drop_left, rdropWhile_unlines hpre]

theorem between_append (front mid back : Str) :
    between (front ++ mid ++ back) front.length (front ++ mid).length = mid := by
  rw [between, List.take_left, List.drop_left]

/-- The first line of a segment is no quote when only white space stands before its tag. -/
theorem head_trimStart {pre rest : Str} (hpre : ∀ c ∈ pre, isWhitespace c = true) :
    (trimStart (pre ++ '<' :: rest)).head? = some '<' := by
  rw [trimStart, List.dropWhile_append_of_pos hpre, List.dropWhile_cons_of_neg (by decide)]
  rfl

theorem takeWhile_line {suf after : Str} (hsuf : '\n' ∉ suf) (hafter : ∀ c ∈ after.head?, c = '\n') :
    (suf ++ after).takeWhile (· ≠ '\n') = suf := by
  have hall : ∀ c ∈ suf, (c ≠ '\n' : Bool) = true := fun c hc => decide_eq_true fun h => hsuf (h ▸ hc)
  rw [List.takeWhile_append_of_pos hall]
  cases after with
  | nil => exact List.append_nil suf
  | cons c after =>
    rw [hafter c rfl, List.takeWhile_cons_of_neg (by simp), List.append_nil]

/-- A segment between tags is recovered exactly when it is alone on its lines and overlaps no code region. The test for
a quote is decided by what stands before the segment. -/
theorem isRecoverable_iff {before : List Str} {pre mid suf after : Str} (hpre : '\n' ∉ pre) (hsuf : '\n' ∉ suf)
    (hafter : ∀ c ∈ after.head?, c = '\n') (regions : List CodeRegion) :
    isRecoverableToolCallSegment (unlines before ++ pre ++ ('<' :: (mid ++ ['>']) ++ (suf ++ after)))
        (unlines before ++ pre).length (unlines before ++ pre ++ '<' :: (mid ++ ['>'])).length regions = true ↔
      overlapsCodeRegion (unlines before ++ pre).length (unlines before ++ pre ++ '<' :: (mid ++ ['>'])).length
        regions = false ∧
        (∀ c ∈ pre, isWhitespace c = true) ∧ ∀ c ∈ suf, isWhitespace c = true := by
  -- the first line, up to its end
  obtain ⟨w, v, hline, hsplit⟩ : ∃ w v, ('<' :: (mid ++ ['>']) ++ (suf ++ after)).takeWhile (· ≠ '\n') = '<' :: w ∧
      '<' :: (mid ++ ['>']) ++ (suf ++ after) = '<' :: w ++ v := by
    refine ⟨(mid ++ ['>'] ++ (suf ++ after)).takeWhile (· ≠ '\n'),
      (mid ++ ['>'] ++ (suf ++ after)).dropWhile (· ≠ '\n'), List.takeWhile_cons_of_pos (by decide), ?_⟩
    rw [List.cons_append, List.cons_append, List.takeWhile_append_dropWhile]
  have hfirst :
    lineBounds (unlines before ++ pre ++ ('<' :: (mid ++ ['>']) ++ (suf ++ after))) (unlines before ++ pre).length =
      ((unlines before).length, (unlines before ++ (pre ++ '<' :: w)).length) := by
    rw [lineBounds_append hpre, hline, ← List.append_assoc, @List.length_append _ _ ('<' :: w)]
  have hfirstLine : between (unlines before ++ pre ++ ('<' :: (mid ++ ['>']) ++ (suf ++ after))) (unlines before).length
      (unlines before ++ (pre ++ '<' :: w)).length = pre ++ '<' :: w := by
    rw [hsplit, List.append_assoc, ← List.append_assoc pre, ← List.append_assoc]
    exact between_append _ _ _
  have hprefix : between (unlines before ++ pre ++ ('<' :: (mid ++ ['>']) ++ (suf ++ after))) (unlines before).length
      (unlines before ++ pre).length = pre := between_append _ _ _
  -- the last line, from the last character of the segment on
  have hlast : (lineBounds (unlines before ++ pre ++ ('<' :: (mid ++ ['>']) ++ (suf ++ after)))
      ((unlines before ++ pre ++ '<' :: (mid ++ ['>'])).length - 1)).2 =
      (unlines before ++ pre ++ '<' :: (mid ++ ['>']) ++ suf).length := by
    obtain ⟨before', pre', hfront, -, hpre'⟩ := exists_unlines (unlines before ++ pre ++ '<' :: mid)
    have hpos : (unlines before ++ pre ++ '<' :: (mid ++ ['>'])).length - 1 = (unlines before' ++ pre').length := by
      rw [← hfront]
      simp only [List.length_append, List.length_cons, List.length_nil]
      omega
    have htext : unlines before ++ pre ++ ('<' :: (mid ++ ['>']) ++ (suf ++ after)) =
        unlines before' ++ pre' ++ ('>' :: suf ++ after) := by
      rw [← hfront]
      simp
    have hgt : '\n' ∉ '>' :: suf := by
      simpa using hsuf
    rw [hpos, htext, lineBounds_append hpre', takeWhile_line hgt hafter, ← hfront]
    simp only [List.length_append, List.length_cons, List.length_nil]
    omega
  have hsuffix : between (unlines before ++ pre ++ ('<' :: (mid ++ ['>']) ++ (suf ++ after)))
      (unlines before ++ pre ++ '<' :: (mid ++ ['>'])).length
        (unlines before ++ pre ++ '<' :: (mid ++ ['>']) ++ suf).length =
      suf := by
    rw [← List.append_assoc, ← List.append_assoc]
    exact between_append _ _ _
  rw [isRecoverableToolCallSegment, hfirst]
  dsimp only
  rw [hfirstLine, hprefix, hlast, hsuffix]
  split
  next hoverlap => exact iff_of_false Bool.false_ne_true fun h => Bool.false_ne_true (h.1.symm.trans hoverlap)
  next hoverlap =>
    rw [Bool.not_eq_true] at hoverlap
    split
    next hquote =>
      refine iff_of_false Bool.false_ne_true fun h => ?_
      rw [head_trimStart h.2.1] at hquote
      exact absurd hquote (by decide)
    · rw [Bool.and_eq_true, List.isEmpty_iff, List.isEmpty_iff, trim_eq_nil_iff, trim_eq_nil_iff]
      exact ⟨fun h => ⟨hoverlap, h⟩, fun h => h.2⟩

/-! ## Recovered calls -/

/-- A segment lies in the text, from its opening tag to its closing tag. -/
theorem mem_taggedSegments {openTag closeTag : Str} (hopen : openTag ≠ []) (hclose : closeTag ≠ [])
    {seg : Nat × Nat × Str} :
    ∀ {fuel pos : Nat} {rest : Str}, seg ∈ taggedSegments openTag closeTag fuel pos rest →
      ∃ front back, rest = front ++ (openTag ++ seg.2.2 ++ closeTag) ++ back ∧ seg.1 = pos + front.length ∧
        seg.2.1 = pos + (front ++ (openTag ++ seg.2.2 ++ closeTag)).length
  | 0, _, _, h => by cases h
  | fuel + 1, pos, rest, h => by
    rw [taggedSegments] at h
    cases hfind : find openTag rest with
    | none =>
      rw [hfind] at h
      cases h
    | some offset =>
      rw [hfind] at h
      obtain ⟨front, after, rfl, rfl, -⟩ := find_eq_some hopen hfind
      have hdrop : (front ++ (openTag ++ after)).drop (front.length + openTag.length) = after := by
        rw [← List.append_assoc, ← List.length_append, List.drop_left]
      simp only [hdrop] at h
      cases hfind' : find closeTag after with
      | none =>
        rw [hfind'] at h
        cases h
      | some endOffset =>
        rw [hfind'] at h
        obtain ⟨inner, back, rfl, rfl, -⟩ := find_eq_some hclose hfind'
        rcases List.mem_cons.mp h with rfl | h
        · refine ⟨front, back, ?_, rfl, ?_⟩
          · simp [List.append_assoc]
          · simp only [List.length_append, List.take_left]
            omega
        · have hrest : (inner ++ (closeTag ++ back)).drop (inner.length + closeTag.length) = back := by
            rw [← List.append_assoc, ← List.length_append, List.drop_left]
          rw [hrest] at h
          obtain ⟨front', back', hback, hstart, hend⟩ := mem_taggedSegments hopen hclose h
          refine ⟨front ++ (openTag ++ inner ++ closeTag) ++ front', back', ?_, ?_, ?_⟩
          · rw [hback]
            simp only [List.append_assoc]
          · rw [hstart]
            simp only [List.length_append]
            omega
          · rw [hend]
            simp only [List.length_append]
            omega

/-- A call in bracket format has its name in the text. -/
theorem mem_bracketCalls {rt : ReplyText} {names : List Str} {c : Str × Json} : ∀ {fuel : Nat} {s : Str},
    c ∈ bracketCalls rt names fuel s → BRACKET_START ++ c.1 ++ ['`'] <:+: s
  | 0, _, h => by cases h
  | fuel + 1, s, h => by
    rw [bracketCalls] at h
    cases hfind : find BRACKET_START s with
    | none =>
      rw [hfind] at h
      cases h
    | some start =>
      rw [hfind] at h
      obtain ⟨front, after, rfl, rfl, -⟩ := find_eq_some (by decide) hfind
      have hdrop : (front ++ (BRACKET_START ++ after)).drop (front.length + BRACKET_START.length) = after := by
        rw [← List.append_assoc, ← List.length_append, List.drop_left]
      simp only [hdrop] at h
      cases htick : find "`".toList after with
      | none =>
        rw [htick] at h
        cases h
      | some backtickEnd =>
        rw [htick] at h
        obtain ⟨name, rest, rfl, rfl, -⟩ := find_eq_some (by decide) htick
        have htail : (name ++ ("`".toList ++ rest)).drop (name.length + 1) = rest := by
          rw [← List.append_assoc, ← List.length_singleton (a := '`'), ← List.length_append]
          exact List.drop_left
        have hhere : BRACKET_START ++ name ++ ['`'] <:+: front ++ (BRACKET_START ++ (name ++ ("`".toList ++ rest))) :=
          ⟨front, rest, by simp [List.append_assoc]⟩
        have hlater {t : Str} (ht : t <:+ rest) (hc : c ∈ bracketCalls rt names fuel t) :
            BRACKET_START ++ c.1 ++ ['`'] <:+: front ++ (BRACKET_START ++ (name ++ ("`".toList ++ rest))) := by
          refine (mem_bracketCalls hc).trans (ht.isInfix.trans ⟨front ++ BRACKET_START ++ name ++ ['`'], [], ?_⟩)
          simp [List.append_assoc]
        simp only [List.take_left, htail] at h
        split at h
        · split at h
          next args bracketEnd hargs =>
            rcases List.mem_cons.mp h with rfl | h
            · exact hhere
            · obtain ⟨args', hstrip, hend⟩ := Option.bind_eq_some_iff.mp hargs
              obtain ⟨n, -, heq⟩ := Option.map_eq_some_iff.mp hend
              obtain ⟨rfl, rfl⟩ := Prod.mk.inj heq
              rw [stripStart_eq_some_iff] at hstrip
              refine hlater ((List.drop_suffix _ _).trans ?_) h
              rw [hstrip]
              exact List.suffix_append _ _
          next =>
            rcases List.mem_cons.mp h with rfl | h
            · exact hhere
            · exact hlater (List.suffix_refl rest) h
        · exact hlater (List.suffix_refl rest) h

/-- The tags are between angle brackets. -/
theorem tags_form {tags : Str × Str} (h : tags ∈ TOOL_CALL_TAGS) :
    ∃ front back, tags.1 = '<' :: front ∧ tags.2 = back ++ ['>'] ∧ '\n' ∉ tags.1 := by
  have hall : TOOL_CALL_TAGS.all (fun t => t.1.head? = some '<' && t.2.getLast? = some '>' && !t.1.contains '\n') =
      true := by
    decide
  have htags := List.all_eq_true.mp hall tags h
  simp only [Bool.and_eq_true, decide_eq_true_eq, Bool.not_eq_true', List.contains_eq_mem,
    decide_eq_false_iff_not] at htags
  obtain ⟨front, hfront⟩ := List.head?_eq_some_iff.mp htags.1.1
  obtain ⟨back, hback⟩ := List.getLast?_eq_some_iff.mp htags.1.2
  exact ⟨front, back, hfront, hback, htags.2⟩

/-- What stands around a segment: the lines before, and the rest of its own lines. -/
structure Place where
  before : List Str
  pre : Str
  suf : Str
  after : Str

/-- The text before a segment. -/
def Place.front (p : Place) : Str := unlines p.before ++ p.pre

/-- A segment is alone on its lines and outside of code: no fence is open at its line, and no code region touches it. -/
structure Place.Isolated (p : Place) (content segment : Str) : Prop where
  eq : content = p.front ++ (segment ++ (p.suf ++ p.after))
  lines : ∀ l ∈ p.before, '\n' ∉ l
  pre : '\n' ∉ p.pre ∧ ∀ c ∈ p.pre, isWhitespace c = true
  suf : '\n' ∉ p.suf ∧ ∀ c ∈ p.suf, isWhitespace c = true
  after : ∀ c ∈ p.after.head?, c = '\n'
  noFence : fenceAfter none p.before = none
  noRegion : ∀ r ∈ findCodeRegions content, r.finish ≤ p.front.length ∨ (p.front ++ segment).length ≤ r.start

theorem mem_findCodeRegions {text : Str} {r : CodeRegion}
    (h : r ∈ fencedRegions text.length none 0 (text.splitOn '\n')) :
    r ∈ findCodeRegions text :=
  (List.perm_insertionSort _ _).mem_iff.mpr (List.mem_append_left _ h)

/-- The first line of a text that begins with white space and a tag. -/
theorem exists_firstLine {pre : Str} (hpre : '\n' ∉ pre) (x : Str) :
    ∃ w lines, (pre ++ '<' :: x).splitOn '\n' = (pre ++ '<' :: w) :: lines ∧ w.length ≤ x.length := by
  have hline {w : Str} (hw : '\n' ∉ w) : '\n' ∉ pre ++ '<' :: w := by
    simp [hpre, hw]
  obtain ⟨before, rest, rfl, hbefore, hrest⟩ := exists_unlines x
  cases before with
  | nil => exact ⟨rest, [], List.splitOn_eq_singleton (hline hrest), le_refl _⟩
  | cons l before =>
    refine ⟨l, (unlines before ++ rest).splitOn '\n', ?_, ?_⟩
    · have hassoc : pre ++ '<' :: (unlines (l :: before) ++ rest) = pre ++ '<' :: l ++
          '\n' :: (unlines before ++ rest) := by
        simp [List.append_assoc]
      rw [hassoc]
      exact List.splitOn_append_cons_self_of_not_mem (hline (hbefore l List.mem_cons_self)) _
    · rw [unlines_cons, List.length_append, List.length_append]
      omega

/-- A segment that may be recovered stands alone, outside of code. -/
theorem exists_isolated {front mid back : Str}
    (h : isRecoverableToolCallSegment (front ++ ('<' :: (mid ++ ['>']) ++ back)) front.length
      (front ++ '<' :: (mid ++ ['>'])).length (findCodeRegions (front ++ ('<' :: (mid ++ ['>']) ++ back))) = true) :
    ∃ p : Place, p.Isolated (front ++ ('<' :: (mid ++ ['>']) ++ back)) ('<' :: (mid ++ ['>'])) := by
  obtain ⟨before, pre, rfl, hbefore, hpre⟩ := exists_unlines front
  obtain ⟨suf, after, rfl, hsuf, hafter⟩ : ∃ suf after, back = suf ++ after ∧ '\n' ∉ suf ∧ ∀ c ∈ after.head?,
      c = '\n' := by
    refine ⟨back.takeWhile (· ≠ '\n'), back.dropWhile (· ≠ '\n'), List.takeWhile_append_dropWhile.symm,
      fun hmem => ?_, ?_⟩
    · simpa using List.mem_takeWhile_imp hmem
    · intro c hc
      have hnot := List.head?_dropWhile_not (· ≠ '\n') back
      rw [Option.mem_def.mp hc] at hnot
      simpa using hnot
  obtain ⟨hoverlap, hblank, hblank'⟩ := (isRecoverable_iff hpre hsuf hafter _).mp h
  generalize hcontent : unlines before ++ pre ++ ('<' :: (mid ++ ['>']) ++ (suf ++ after)) = content at hoverlap ⊢
  have hregion : ∀ r ∈ findCodeRegions content, r.finish ≤ (unlines before ++ pre).length ∨
      (unlines before ++ pre ++ '<' :: (mid ++ ['>'])).length ≤ r.start := by
    intro r hr
    have hr' := List.any_eq_false.mp hoverlap r hr
    simp only [Bool.and_eq_true, decide_eq_true_eq] at hr'
    omega
  refine ⟨⟨before, pre, suf, after⟩, hcontent.symm, hbefore, ⟨hpre, hblank⟩, ⟨hsuf, hblank'⟩, hafter, ?_, hregion⟩
  by_contra hopen
  obtain ⟨fence, hfence⟩ := Option.ne_none_iff_exists'.mp hopen
  obtain ⟨w, lines, hsplit, hw⟩ := exists_firstLine hpre (mid ++ ['>'] ++ (suf ++ after))
  have hnone : ∀ s ∈ (none : Option (Nat × (Char × Nat))), s.1 ≤ 0 := by
    intro s hs
    cases hs
  obtain ⟨r, hr, hstart, hfinish⟩ := region_of_open content.length (pre ++ '<' :: w) lines before hnone hfence
  have hmem : r ∈ findCodeRegions content := by
    refine mem_findCodeRegions ?_
    have hlines : content.splitOn '\n' = before ++ (pre ++ '<' :: w) :: lines := by
      rw [← hcontent, List.append_assoc, splitOn_unlines hbefore, List.cons_append, hsplit]
    rw [hlines]
    exact hr
  have hlength :
      content.length = (unlines before).length + (pre.length + ((mid ++ ['>'] ++ (suf ++ after)).length + 1)) := by
    rw [← hcontent]
    simp only [List.length_append, List.length_cons]
    omega
  have hr' := hregion r hmem
  simp only [List.length_append, List.length_cons] at hr' hfinish hlength hw hstart
  omega

/-- **Recovered calls.** A call that is recovered from a reply is either written in bracket format, or it comes from the
text between two tags that stand alone on their lines, outside of code: no fence is open there and no code region
touches them. -/
theorem recovered_isolated (rt : ReplyText) (content : Str) (tools : List ToolDefinition) {tc : ToolCall}
    (h : tc ∈ recoverToolCallsFromContent rt.withCodeRegions content tools) :
    BRACKET_START ++ tc.name ++ ['`'] <:+: content ∨
      ∃ tags ∈ TOOL_CALL_TAGS, ∃ (p : Place) (inner : Str), p.Isolated content (tags.1 ++ inner ++ tags.2) ∧
        recoverInner rt (tools.map ToolDefinition.name) inner = some (tc.name, tc.arguments) := by
  obtain ⟨c, hc, rfl⟩ := List.mem_map.mp h
  have hc : c.1 ∈ _ := List.fst_mem_of_mem_zipIdx hc
  rcases List.mem_append.mp hc with hc | hc
  · right
    obtain ⟨tags, htags, hc⟩ := List.mem_flatMap.mp hc
    obtain ⟨seg, hseg, hcall⟩ := List.mem_filterMap.mp hc
    obtain ⟨front, back, hopen, hclose, -⟩ := tags_form htags
    obtain ⟨x, y, hcontent, hstart, hend⟩ := mem_taggedSegments (by rw [hopen]; simp) (by rw [hclose]; simp) hseg
    split at hcall
    next hrecoverable =>
      have hsegment : tags.1 ++ seg.2.2 ++ tags.2 = '<' :: (front ++ seg.2.2 ++ back ++ ['>']) := by
        rw [hopen, hclose]
        simp [List.append_assoc]
      have hrecoverable : isRecoverableToolCallSegment content seg.1 seg.2.1 (findCodeRegions content) = true :=
        hrecoverable
      rw [hstart, hend, Nat.zero_add, Nat.zero_add, hcontent, List.append_assoc, hsegment] at hrecoverable
      obtain ⟨p, hp⟩ := exists_isolated hrecoverable
      refine ⟨tags, htags, p, seg.2.2, ?_, hcall⟩
      rw [hcontent, List.append_assoc, hsegment]
      exact hp
    · cases hcall
  · exact .inl (mem_bracketCalls hc)

/-- Texts that are taken as they are. -/
def plainTexts : ReplyText where
  truncateAtToolTags s := s
  cleanResponse s := s
  isRecoverable _ _ _ := true
  parseJson _ := none
  signalsToolIntent _ := false

def pingTool : ToolDefinition := ⟨"ping".toList, [], .null⟩

/-- The first call stands alone; the second one is in a code block. -/
def fencedReply : Str := "ok\n  <tool_call>ping</tool_call>\n```\n<tool_call>ping</tool_call>\n```".toList

theorem recovered_isolated_fenced :
    (recoverToolCallsFromContent plainTexts.withCodeRegions fencedReply [pingTool]).length = 1 ∧
      (BRACKET_START ++ "ping".toList ++ ['`'] <:+: fencedReply ∨
        ∃ tags ∈ TOOL_CALL_TAGS, ∃ (p : Place) (inner : Str), p.Isolated fencedReply (tags.1 ++ inner ++ tags.2) ∧
          recoverInner plainTexts ["ping".toList] inner = some ("ping".toList, .obj [])) := by
  have hmem : ⟨generateToolCallId 0 RECOVERED_TOOL_CALL_SEED, "ping".toList, .obj [], none⟩ ∈
      recoverToolCallsFromContent plainTexts.withCodeRegions fencedReply [pingTool] := by
    decide +kernel
  exact ⟨by decide +kernel, recovered_isolated plainTexts fencedReply [pingTool] hmem⟩

end Ironclaw.Llm

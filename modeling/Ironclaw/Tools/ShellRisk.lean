import Ironclaw.Lib.Glue
import Ironclaw.Lib.Lowercase
import Ironclaw.Tools.Shell

/-!
# The risk of a chain of commands

Commands with separators between them, as `sh -c` reads them, and the risk of the whole text. The classifier cuts the
text at `|`, `&` and `;` but not at a newline, so that the segment it looks at may be several commands in a row: a run.

- `pieces_text`: the segments of the text are its runs, each put together with newlines;
- `segmentRisk_run`: what the classifier sees of a run is its first line that is not blank;
- `le_classify_iff`, `classify_le_iff`: the risk of a command through its segments.
-/

namespace Ironclaw.Tools.Shell

open Text Agent Glue

/-- What stands between two commands. -/
inductive Separator
  | semicolon
  | pipe
  | or
  | background
  | and
  | newline
  deriving DecidableEq

def Separator.text : Separator → Str
  | .semicolon => [';']
  | .pipe => ['|']
  | .or => ['|', '|']
  | .background => ['&']
  | .and => ['&', '&']
  | .newline => ['\n']

/-- The pieces of a command, each as a run of its own. -/
def ownRuns (command : Str) : List (List Str) := (command.splitOnP isSplit).map fun piece => [piece]

/-- How the runs of what stands before and after it are put together. A separator of two characters has an empty piece
in it. -/
def Separator.connect (sep : Separator) (before after : List (List Str)) : List (List Str) :=
  match sep with
  | .semicolon | .pipe | .background => before ++ after
  | .or | .and => before ++ [[]] :: after
  | .newline => glue before after

structure Chain where
  first : Str
  rest : List (Separator × Str)

namespace Chain

def textFrom (command : Str) : List (Separator × Str) → Str
  | [] => command
  | (sep, next) :: rest => command ++ sep.text ++ textFrom next rest

def runsFrom (command : Str) : List (Separator × Str) → List (List Str)
  | [] => ownRuns command
  | (sep, next) :: rest => sep.connect (ownRuns command) (runsFrom next rest)

def text (chain : Chain) : Str := textFrom chain.first chain.rest

def commands (chain : Chain) : List Str := chain.first :: chain.rest.map Prod.snd

/-- The pieces of the commands, those with only newlines between them together. -/
def runs (chain : Chain) : List (List Str) := runsFrom chain.first chain.rest

end Chain

/-! ## Segments -/

theorem mem_segments {command seg : Str} :
    seg ∈ segments command ↔ seg ≠ [] ∧ ∃ piece ∈ command.splitOnP isSplit, trim piece = seg := by
  rw [segments, List.mem_filter, List.mem_map, Bool.not_eq_true', List.isEmpty_eq_false_iff, and_comm]

section Risk

variable (cm : CaseMap) (command : Str) (risk : RiskLevel)

theorem classify_of_blank (h : segments command = []) : classifyCommandRisk cm command = .medium := by
  rw [classifyCommandRisk, h]
  rfl

theorem classify_isGreatest (h : segments command ≠ []) :
    IsGreatest {r | ∃ seg ∈ segments command, segmentRisk cm seg = r} (classifyCommandRisk cm command) := by
  rw [classifyCommandRisk]
  cases hmax : ((segments command).map (segmentRisk cm)).max? with
  | none => exact absurd (List.map_eq_nil_iff.mp (List.max?_eq_none_iff.mp hmax)) h
  | some r =>
    obtain ⟨hmem, hle⟩ := List.max?_eq_some_iff.mp hmax
    refine ⟨List.mem_map.mp hmem, ?_⟩
    rintro r' ⟨seg, hseg, rfl⟩
    exact hle _ (List.mem_map_of_mem hseg)

/-- A command has a risk when one of its segments has it; a blank one has the middle risk. -/
theorem le_classify_iff : risk ≤ classifyCommandRisk cm command ↔
    (∃ seg ∈ segments command, risk ≤ segmentRisk cm seg) ∨ segments command = [] ∧ risk ≤ .medium := by
  by_cases h : segments command = []
  · rw [classify_of_blank cm command h, h]
    simp
  · have hgreatest := classify_isGreatest cm command h
    rw [or_iff_left fun hblank => h hblank.1]
    constructor
    · intro hle
      obtain ⟨seg, hseg, hrisk⟩ := hgreatest.1
      exact ⟨seg, hseg, hrisk ▸ hle⟩
    · rintro ⟨seg, hseg, hle⟩
      exact hle.trans (hgreatest.2 ⟨seg, hseg, rfl⟩)

theorem classify_le_iff : classifyCommandRisk cm command ≤ risk ↔
    (∀ seg ∈ segments command, segmentRisk cm seg ≤ risk) ∧ (segments command = [] → .medium ≤ risk) := by
  by_cases h : segments command = []
  · rw [classify_of_blank cm command h, h]
    simp
  · have hgreatest := classify_isGreatest cm command h
    constructor
    · exact fun hle => ⟨fun seg hseg => (hgreatest.2 ⟨seg, hseg, rfl⟩).trans hle, fun hblank => absurd hblank h⟩
    · rintro ⟨hle, -⟩
      obtain ⟨seg, hseg, hrisk⟩ := hgreatest.1
      exact hrisk ▸ hle seg hseg

end Risk

/-! ## The runs of a chain -/

theorem ownRuns_ne_nil (command : Str) : ownRuns command ≠ [] := by
  rw [ownRuns, Ne, List.map_eq_nil_iff]
  exact List.splitOnP_ne_nil isSplit command

theorem ne_nil_of_mem_ownRuns {command : Str} {run : List Str} (h : run ∈ ownRuns command) : run ≠ [] := by
  obtain ⟨piece, -, rfl⟩ := List.mem_map.mp h
  exact List.cons_ne_nil _ _

theorem map_join_ownRuns (command : Str) : (ownRuns command).map (join ['\n']) = command.splitOnP isSplit := by
  rw [ownRuns, List.map_map]
  exact (List.map_congr_left fun piece _ => join_singleton ['\n'] piece).trans (List.map_id _)

theorem flatten_ownRuns (command : Str) : (ownRuns command).flatten = command.splitOnP isSplit :=
  (List.flatMap_def ..).symm.trans (List.flatMap_singleton' _)

/-- What a separator does to the pieces of the text, and to the runs. -/
theorem Separator.splitOnP_text (sep : Separator) (command : Str) {tail : Str} {after : List (List Str)}
    (hafter : ∀ run ∈ after, run ≠ []) (htail : tail.splitOnP isSplit = after.map (join ['\n'])) :
    (command ++ sep.text ++ tail).splitOnP isSplit = (sep.connect (ownRuns command) after).map (join ['\n']) := by
  have hne : after ≠ [] := by
    rintro rfl
    exact List.splitOnP_ne_nil isSplit tail htail
  have hone : ∀ c, isSplit c = true → (command ++ [c] ++ tail).splitOnP isSplit =
      (ownRuns command ++ after).map (join ['\n']) := by
    intro c hc
    rw [List.append_assoc, List.singleton_append, splitOnP_append_of_pos command tail hc, htail, List.map_append,
      map_join_ownRuns]
  have htwo : ∀ c, isSplit c = true → (command ++ [c, c] ++ tail).splitOnP isSplit =
      (ownRuns command ++ [[]] :: after).map (join ['\n']) := by
    intro c hc
    have hempty := splitOnP_append_of_pos [] tail hc
    rw [List.nil_append, List.splitOnP_nil, htail] at hempty
    rw [List.append_assoc, List.cons_append, List.singleton_append, splitOnP_append_of_pos command (c :: tail) hc,
      hempty, List.map_append, map_join_ownRuns, List.map_cons, join_singleton, List.singleton_append]
  cases sep with
  | semicolon => exact hone ';' rfl
  | pipe => exact hone '|' rfl
  | background => exact hone '&' rfl
  | or => exact htwo '|' rfl
  | and => exact htwo '&' rfl
  | newline =>
    have happend : ∀ run ∈ ownRuns command, ∀ run' ∈ after,
        join ['\n'] (run ++ run') = join ['\n'] run ++ ('\n' :: join ['\n'] run') := by
      intro run hrun run' hrun'
      rw [join_append ['\n'] (hafter run' hrun') run (ne_nil_of_mem_ownRuns hrun), List.append_assoc,
        List.singleton_append]
    calc (command ++ ['\n'] ++ tail).splitOnP isSplit
        = (command ++ '\n' :: tail).splitOnP isSplit := by rw [List.append_assoc, List.singleton_append]
      _ = glue (command.splitOnP isSplit) ((tail.splitOnP isSplit).modifyHead ('\n' :: ·)) :=
        splitOnP_append_of_neg command tail rfl
      _ = glue ((ownRuns command).map (join ['\n'])) ((after.map (join ['\n'])).modifyHead ('\n' :: ·)) := by
        rw [map_join_ownRuns, htail]
      _ = (glue (ownRuns command) after).map (join ['\n']) := (map_glue (ownRuns_ne_nil command) hne happend).symm

theorem Separator.ne_nil_of_mem_connect (sep : Separator) (command : Str) {after : List (List Str)}
    (hafter : ∀ run ∈ after, run ≠ []) : ∀ run ∈ sep.connect (ownRuns command) after, run ≠ [] := by
  have hown : ∀ run ∈ ownRuns command, run ≠ [] := fun run hrun => ne_nil_of_mem_ownRuns hrun
  have hgap : ∀ run ∈ [[]] :: after, run ≠ [] := by
    intro run hrun
    rcases List.mem_cons.mp hrun with rfl | hrun
    · exact List.cons_ne_nil _ _
    · exact hafter run hrun
  intro run hrun
  cases sep with
  | semicolon | pipe | background => exact (List.mem_append.mp hrun).elim (hown run) (hafter run)
  | or | and => exact (List.mem_append.mp hrun).elim (hown run) (hgap run)
  | newline => exact ne_nil_of_mem_glue hafter hown run hrun

/-- The pieces in the runs are those of the command and those after it, and the empty one of a separator. -/
theorem Separator.mem_flatten_connect (sep : Separator) (command : Str) (after : List (List Str)) {piece : Str}
    (h : piece ≠ []) :
    piece ∈ (sep.connect (ownRuns command) after).flatten ↔ piece ∈ command.splitOnP isSplit ∨
    piece ∈ after.flatten := by
  have hgap : piece ∈ ([[]] :: after).flatten ↔ piece ∈ after.flatten := by
    rw [List.flatten_cons, List.singleton_append, List.mem_cons]
    exact or_iff_right h
  cases sep with
  | semicolon | pipe | background => rw [connect, List.flatten_append, List.mem_append, flatten_ownRuns]
  | or | and => rw [connect, List.flatten_append, List.mem_append, flatten_ownRuns, hgap]
  | newline => rw [connect, flatten_glue, List.mem_append, flatten_ownRuns]

namespace Chain

theorem ne_nil_of_mem_runsFrom : ∀ (rest : List (Separator × Str)) (command : Str),
    ∀ run ∈ runsFrom command rest, run ≠ []
  | [], _, _, hrun => ne_nil_of_mem_ownRuns hrun
  | (sep, next) :: rest, command, run, hrun =>
    sep.ne_nil_of_mem_connect command (ne_nil_of_mem_runsFrom rest next) run hrun

/-- Without newlines each piece is a run of its own. -/
theorem length_le_one_of_mem_runsFrom : ∀ (rest : List (Separator × Str)) (command : Str),
    (∀ r ∈ rest, r.1 ≠ .newline) →
    ∀ run ∈ runsFrom command rest, run.length ≤ 1
  | [], command, _, run, hrun => by
    obtain ⟨piece, -, rfl⟩ := List.mem_map.mp hrun
    exact le_rfl
  | (sep, next) :: rest, command, hsep, run, hrun => by
    have hown : run ∈ ownRuns command → run.length ≤ 1 := by
      intro h
      obtain ⟨piece, -, rfl⟩ := List.mem_map.mp h
      exact le_rfl
    have hafter := length_le_one_of_mem_runsFrom rest next (fun r hr => hsep r (List.mem_cons_of_mem _ hr)) run
    have hgap : run ∈ [[]] :: runsFrom next rest → run.length ≤ 1 := by
      intro h
      rcases List.mem_cons.mp h with rfl | h
      · exact le_rfl
      · exact hafter h
    cases sep with
    | semicolon | pipe | background => exact (List.mem_append.mp hrun).elim hown hafter
    | or | and => exact (List.mem_append.mp hrun).elim hown hgap
    | newline => exact absurd rfl (hsep _ List.mem_cons_self)

theorem splitOnP_textFrom : ∀ (rest : List (Separator × Str)) (command : Str),
    (textFrom command rest).splitOnP isSplit = (runsFrom command rest).map (join ['\n'])
  | [], command => (map_join_ownRuns command).symm
  | (sep, next) :: rest, command =>
    sep.splitOnP_text command (ne_nil_of_mem_runsFrom rest next) (splitOnP_textFrom rest next)

theorem mem_flatten_runsFrom {piece : Str} (h : piece ≠ []) : ∀ (rest : List (Separator × Str)) (command : Str),
    piece ∈ (runsFrom command rest).flatten ↔ ∃ c ∈ command :: rest.map Prod.snd, piece ∈ c.splitOnP isSplit
  | [], command => by
    rw [runsFrom, flatten_ownRuns, List.map_nil]
    simp only [List.mem_singleton, exists_eq_left]
  | (sep, next) :: rest, command => by
    rw [runsFrom, sep.mem_flatten_connect command _ h, mem_flatten_runsFrom h rest next, List.map_cons]
    simp only [List.mem_cons, exists_eq_or_imp]

variable (chain : Chain)

/-- The pieces of the text are the runs. -/
theorem pieces_text : chain.text.splitOnP isSplit = chain.runs.map (join ['\n']) :=
  splitOnP_textFrom chain.rest chain.first

/-- The segment that the classifier sees of a run. -/
def segment (run : List Str) : Str := trim (join ['\n'] run)

theorem mem_segments_text (seg : Str) : seg ∈ segments chain.text ↔ seg ≠ [] ∧ ∃ run ∈ chain.runs,
    segment run = seg := by
  rw [mem_segments, pieces_text]
  simp only [List.mem_map, exists_exists_and_eq_and, segment]

theorem mem_segments_command {seg : Str} :
    (∃ c ∈ chain.commands, seg ∈ segments c) ↔ seg ≠ [] ∧ ∃ piece ∈ chain.runs.flatten, trim piece = seg := by
  constructor
  · rintro ⟨c, hc, hseg⟩
    obtain ⟨hne, piece, hpiece, rfl⟩ := mem_segments.1 hseg
    have hpne : piece ≠ [] := by
      rintro rfl
      exact hne rfl
    exact ⟨hne, piece, (mem_flatten_runsFrom hpne chain.rest chain.first).mpr ⟨c, hc, hpiece⟩, rfl⟩
  · rintro ⟨hne, piece, hpiece, rfl⟩
    have hpne : piece ≠ [] := by
      rintro rfl
      exact hne rfl
    obtain ⟨c, hc, hsplit⟩ := (mem_flatten_runsFrom hpne chain.rest chain.first).mp hpiece
    exact ⟨c, hc, mem_segments.2 ⟨hne, piece, hsplit, rfl⟩⟩

/-- A run with a piece that is not blank is not blank. -/
theorem segment_ne_nil {run : List Str} {piece : Str} (hmem : piece ∈ run) (hne : trim piece ≠ []) :
    segment run ≠ [] := by
  rw [Ne, trim_eq_nil_iff] at hne
  rw [segment, Ne, trim_eq_nil_iff]
  exact fun hblank => hne fun c hc => hblank c (subset_join ['\n'] hmem hc)

/-! ## What the classifier sees of a run -/

theorem splitWhitespace_ne_nil : ∀ {s : Str}, trim s ≠ [] → splitWhitespace s ≠ []
  | [], h => absurd rfl h
  | c :: cs, h => by
    rw [splitWhitespace, List.splitOnP_cons_eq_if_modifyHead]
    split
    next hc =>
      have hcs : trim cs ≠ [] := by
        rw [Ne, trim_eq_nil_iff] at h ⊢
        exact fun hblank => h (List.forall_mem_cons.mpr ⟨hc, hblank⟩)
      exact splitWhitespace_ne_nil hcs
    · cases hpieces : cs.splitOnP isWhitespace with
      | nil => exact absurd hpieces (List.splitOnP_ne_nil isWhitespace cs)
      | cons piece pieces => simp

/-- A pattern is found in a line that others follow. A line that is just a pattern of several words is not seen: a space
has to follow these. -/
def matchesLine (line pattern : Str) : Bool :=
  matchesCommandPattern line pattern && !(pattern.contains ' ' && line == pattern)

theorem matches_firstLine {line pattern : Str} (rest : Str) (hline : trim line ≠ []) (hpattern : '\n' ∉ pattern) :
    matchesCommandPattern (line ++ '\n' :: rest) pattern = matchesLine line pattern := by
  unfold matchesLine matchesCommandPattern
  split
  next hwords =>
    have hne : (line ++ '\n' :: rest == pattern) = false := by
      refine beq_eq_false_iff_ne.mpr ?_
      rintro rfl
      exact hpattern (List.mem_append_right _ List.mem_cons_self)
    have hspaced : '\n' ∉ pattern ++ [' '] := by
      rw [List.mem_append, List.mem_singleton]
      exact fun h => h.elim hpattern (by decide)
    have hprefix : (pattern ++ [' ']).isPrefixOf (line ++ '\n' :: rest) = (pattern ++ [' ']).isPrefixOf line := by
      rw [Bool.eq_iff_iff, List.isPrefixOf_iff_prefix, List.isPrefixOf_iff_prefix]
      refine ⟨fun h => prefix_left h fun c hc => ?_, fun h => h.trans (List.prefix_append _ _)⟩
      obtain rfl := Option.some.inj hc
      exact hspaced
    rw [hne, hprefix, Bool.false_or, hwords, Bool.true_and]
    by_cases hline : line = pattern
    · have hlong : (pattern ++ [' ']).isPrefixOf line = false := by
        rw [← Bool.not_eq_true, List.isPrefixOf_iff_prefix, hline]
        intro h
        have hle := h.length_le
        rw [List.length_append, List.length_singleton] at hle
        omega
      rw [hlong, beq_iff_eq.mpr hline]
      rfl
    · rw [beq_eq_false_iff_ne.mpr hline, Bool.false_or, Bool.not_false, Bool.and_true]
  next hword =>
    have hfirst : (splitWhitespace (line ++ '\n' :: rest)).head? = (splitWhitespace line).head? := by
      rw [splitWhitespace, splitOnP_append_of_pos line rest (by decide), List.filter_append, ← splitWhitespace]
      exact List.head?_append_of_ne_nil _ (splitWhitespace_ne_nil hline)
    rw [hfirst, Bool.eq_false_iff.mpr hword, Bool.false_and, Bool.not_false, Bool.and_true]

theorem trimStart_join {blanks : List Str} (hblanks : ∀ b ∈ blanks, trim b = []) {run : List Str} (hrun : run ≠ []) :
    trimStart (join ['\n'] (blanks ++ run)) = trimStart (join ['\n'] run) := by
  induction blanks with
  | nil => rfl
  | cons b blanks ih =>
    obtain ⟨hb, hblanks⟩ := List.forall_mem_cons.mp hblanks
    have hjoin : join ['\n'] (b :: (blanks ++ run)) = b ++ ['\n'] ++ join ['\n'] (blanks ++ run) :=
      join_cons ['\n'] b (List.append_ne_nil_of_right_ne_nil blanks hrun)
    have hskip : (b ++ ['\n']).dropWhile isWhitespace = [] := by
      refine List.dropWhile_eq_nil_iff.mpr fun c hc => ?_
      rcases List.mem_append.mp hc with hc | hc
      · exact trim_eq_nil_iff.mp hb c hc
      · obtain rfl := List.mem_singleton.mp hc
        decide
    rw [List.cons_append, hjoin, trimStart, List.dropWhile_append, hskip]
    exact ih hblanks

theorem trimEnd_append {a b : Str} (h : trim b ≠ []) : trimEnd (a ++ b) = a ++ trimEnd b := by
  have hne : b.reverse.dropWhile isWhitespace ≠ [] := by
    rw [Ne, List.dropWhile_eq_nil_iff]
    intro hall
    exact h (trim_eq_nil_iff.mpr fun c hc => hall c (List.mem_reverse.mpr hc))
  unfold trimEnd List.rdropWhile
  rw [List.reverse_append, List.dropWhile_append, if_neg (by rwa [List.isEmpty_iff]), List.reverse_append,
    List.reverse_reverse]

/-- What is seen of a run starts with its first line that is not blank; the other lines follow. -/
theorem segment_run {blanks rest : List Str} {piece : Str} (hblanks : ∀ b ∈ blanks, trim b = [])
    (hpiece : trim piece ≠ [])
    (hrest : ∃ p ∈ rest, trim p ≠ []) :
    segment (blanks ++ piece :: rest) = trimStart piece ++ '\n' :: trimEnd (join ['\n'] rest) := by
  obtain ⟨p, hp, hpne⟩ := hrest
  have hjoin : join ['\n'] (piece :: rest) = piece ++ ['\n'] ++ join ['\n'] rest :=
    join_cons ['\n'] piece (List.ne_nil_of_mem hp)
  have hstart : piece.dropWhile isWhitespace ≠ [] := by
    rw [Ne, List.dropWhile_eq_nil_iff]
    exact fun hall => hpiece (trim_eq_nil_iff.mpr hall)
  have hend : trim (join ['\n'] rest) ≠ [] := by
    rw [Ne, trim_eq_nil_iff] at hpne ⊢
    exact fun hall => hpne fun c hc => hall c (subset_join ['\n'] hp hc)
  rw [segment, trim, trimStart_join hblanks (List.cons_ne_nil piece rest), hjoin, List.append_assoc, trimStart,
    List.dropWhile_append, if_neg (by rwa [List.isEmpty_iff]), ← List.append_assoc, trimEnd_append hend,
    List.append_assoc]
  rfl

/-- Lower case is made line by line, and makes neither line breaks nor white space of anything else. -/
structure LineWise (cm : CaseMap) : Prop where
  lines : ∀ a b, cm.lower (a ++ '\n' :: b) = cm.lower a ++ '\n' :: cm.lower b
  breaks : ∀ s, '\n' ∉ s → '\n' ∉ cm.lower s
  blank : ∀ s, trim (cm.lower s) = [] → trim s = []

theorem isWhitespace_asciiLower (c : Char) : isWhitespace (asciiLower c) = isWhitespace c := by
  cases h : isAsciiUppercase c with
  | false => rw [asciiLower_of_not h]
  | true =>
    have hrange := toNat_of_uppercase h
    have hlow := toNat_asciiLower h
    unfold isWhitespace
    rw [hlow, Bool.eq_iff_iff]
    simp only [Bool.or_eq_true, Bool.and_eq_true, decide_eq_true_eq, beq_iff_eq]
    omega

theorem lineWise_asciiCase : LineWise asciiCase where
  lines a b := List.map_append.trans (congrArg _ rfl)
  breaks s h hbreak := by
    obtain ⟨c, hc, hlow⟩ := List.mem_map.mp hbreak
    cases hupper : isAsciiUppercase c with
    | false =>
      rw [asciiLower_of_not hupper] at hlow
      exact h (hlow ▸ hc)
    | true =>
      have hnat := toNat_asciiLower hupper
      rw [hlow] at hnat
      have hrange := toNat_of_uppercase hupper
      have hten : '\n'.toNat = 10 := rfl
      omega
  blank s h := by
    rw [trim_eq_nil_iff] at h ⊢
    exact fun c hc => (isWhitespace_asciiLower c).symm.trans (h _ (List.mem_map_of_mem hc))

/-- The risk that is seen in a line that others follow. -/
def lineRisk (cm : CaseMap) (line : Str) : RiskLevel :=
  if NEVER_AUTO_APPROVE_PATTERNS.any fun p => matchesLine (cm.lower line) (cm.lower p) then .high
  else if LOW_RISK_PATTERNS.any (matchesLine (cm.lower line)) then .low
  else .medium

/-- **The risk of a run** of several lines is the one that is seen in its first line that is not blank. -/
theorem segmentRisk_run {cm : CaseMap} (hcm : LineWise cm) {blanks rest : List Str} {piece : Str}
    (hblanks : ∀ b ∈ blanks, trim b = []) (hpiece : trim piece ≠ []) (hrest : ∃ p ∈ rest, trim p ≠ []) :
    segmentRisk cm (segment (blanks ++ piece :: rest)) = lineRisk cm (trimStart piece) := by
  have hline : trim (cm.lower (trimStart piece)) ≠ [] := by
    intro h
    have hblank : trim (trimStart piece) = [] := hcm.blank _ h
    have hstart : trimStart (trimStart piece) = trimStart piece := List.dropWhile_idempotent isWhitespace piece
    rw [trim, hstart] at hblank
    exact hpiece hblank
  have hnever : ∀ p ∈ NEVER_AUTO_APPROVE_PATTERNS, '\n' ∉ p := by decide
  have hlow : ∀ p ∈ LOW_RISK_PATTERNS, '\n' ∉ p := by decide
  have hseen (f : Str → Str) {patterns : List Str} (hpatterns : ∀ p ∈ patterns, '\n' ∉ f p) (follows : Str) :
      (patterns.any fun p => matchesCommandPattern (cm.lower (trimStart piece) ++ '\n' :: follows) (f p)) =
        patterns.any fun p => matchesLine (cm.lower (trimStart piece)) (f p) := by
    rw [Bool.eq_iff_iff, List.any_eq_true, List.any_eq_true]
    refine exists_congr fun p => and_congr_right fun hp => ?_
    rw [matches_firstLine follows hline (hpatterns p hp)]
  rw [segment_run hblanks hpiece hrest, segmentRisk, hcm.lines, lineRisk, ite_self,
    hseen cm.lower fun p hp => hcm.breaks p (hnever p hp)]
  exact congrArg _ (congrArg (fun seen : Bool => if seen then RiskLevel.low else .medium) (hseen id hlow _))

-- `git status` is seen alone, but not with a line after it
example : segmentRisk asciiCase "git status".toList = .low ∧ lineRisk asciiCase "git status".toList =
    .medium := by decide

section Kept

variable (cm : CaseMap)

/-- The chain is at least as risky as each of its commands, and always asks when one of them does. -/
def RiskKept (json : JsonText) : Prop :=
  (∀ c ∈ chain.commands, classifyCommandRisk cm c ≤ classifyCommandRisk cm chain.text) ∧
    ∀ params, extractCommandParam json params = some chain.text →
      (∃ c ∈ chain.commands, classifyCommandRisk cm c = .high) → requiresApproval cm json params = .always

/-- Some run is as risky as that. -/
def Reaches (risk : RiskLevel) : Prop :=
  ∃ run ∈ chain.runs, segment run ≠ [] ∧ risk ≤ segmentRisk cm (segment run)

/-- A piece with others in its run, which only newlines part from it, is no riskier than some run (of which just its
first line is seen, `segmentRisk_run`), and a blank command no riskier either. -/
structure Unmasked : Prop where
  pieces : ∀ run ∈ chain.runs, 2 ≤ run.length → ∀ piece ∈ run, trim piece ≠ [] →
    chain.Reaches cm (segmentRisk cm (trim piece))
  blank : ∀ c ∈ chain.commands, segments c = [] → (∀ run ∈ chain.runs, segment run = []) ∨ chain.Reaches cm .medium

theorem segments_text_eq_nil_iff : segments chain.text = [] ↔ ∀ run ∈ chain.runs, segment run = [] := by
  rw [List.eq_nil_iff_forall_not_mem]
  simp only [mem_segments_text, not_and, not_exists]
  constructor
  · intro h run hrun
    by_contra hne
    exact h _ hne run hrun rfl
  · rintro h seg hne run hrun rfl
    exact hne (h run hrun)

theorem le_classify_text_iff (risk : RiskLevel) : risk ≤ classifyCommandRisk cm chain.text ↔
    chain.Reaches cm risk ∨ (∀ run ∈ chain.runs, segment run = []) ∧ risk ≤ .medium := by
  rw [le_classify_iff, segments_text_eq_nil_iff]
  refine or_congr_left ⟨?_, ?_⟩
  · rintro ⟨seg, hseg, hle⟩
    obtain ⟨hne, run, hrun, rfl⟩ := (chain.mem_segments_text seg).mp hseg
    exact ⟨run, hrun, hne, hle⟩
  · rintro ⟨run, hrun, hne, hle⟩
    exact ⟨segment run, (chain.mem_segments_text _).mpr ⟨hne, run, hrun, rfl⟩, hle⟩

variable {cm chain}

theorem Unmasked.reaches (h : chain.Unmasked cm) {run : List Str} (hrun : run ∈ chain.runs) {piece : Str}
    (hpiece : piece ∈ run)
    (hne : trim piece ≠ []) : chain.Reaches cm (segmentRisk cm (trim piece)) := by
  by_cases hlen : 2 ≤ run.length
  · exact h.pieces run hrun hlen piece hpiece hne
  · have hrisk : segment run = trim piece := by
      match run, hpiece, hlen with
      | [p], hpiece, _ =>
        obtain rfl := List.mem_singleton.mp hpiece
        rw [segment, join_singleton]
      | _ :: _ :: _, _, hlen => exact absurd (Nat.le_add_left 2 _) hlen
    exact ⟨run, hrun, segment_ne_nil hpiece hne, by rw [hrisk]⟩

theorem Unmasked.le_text (h : chain.Unmasked cm) {c : Str} (hc : c ∈ chain.commands) :
    classifyCommandRisk cm c ≤ classifyCommandRisk cm chain.text := by
  rw [classify_le_iff]
  constructor
  · intro seg hseg
    obtain ⟨hne, piece, hpiece, rfl⟩ := chain.mem_segments_command.mp ⟨c, hc, hseg⟩
    obtain ⟨run, hrun, hmem⟩ := List.mem_flatten.mp hpiece
    exact (chain.le_classify_text_iff cm _).mpr (.inl (h.reaches hrun hmem hne))
  · intro hblank
    rw [le_classify_text_iff]
    rcases h.blank c hc hblank with hall | hreach
    · exact .inr ⟨hall, le_rfl⟩
    · exact .inl hreach

/-- What is kept of the commands' risks is not masked. -/
theorem unmasked_of_le (h : ∀ c ∈ chain.commands, classifyCommandRisk cm c ≤ classifyCommandRisk cm chain.text) :
    chain.Unmasked cm where
  pieces run hrun _ piece hpiece hne := by
    have hflat : piece ∈ chain.runs.flatten := List.mem_flatten.mpr ⟨run, hrun, hpiece⟩
    obtain ⟨c, hc, hseg⟩ := chain.mem_segments_command.mpr ⟨hne, piece, hflat, rfl⟩
    have hle := ((classify_le_iff cm c _).mp (h c hc)).1 _ hseg
    rcases (chain.le_classify_text_iff cm _).mp hle with hreach | ⟨hall, -⟩
    · exact hreach
    · exact absurd (hall run hrun) (segment_ne_nil hpiece hne)
  blank c hc hblank := by
    have hle := ((classify_le_iff cm c _).mp (h c hc)).2 hblank
    exact ((chain.le_classify_text_iff cm _).mp hle).symm.imp_left And.left

theorem requiresApproval_of_high {json : JsonText} {params : Json} {command : Str}
    (hcommand : extractCommandParam json params = some command) (hrisk : classifyCommandRisk cm command = .high) :
    requiresApproval cm json params = .always := by
  rw [requiresApproval, riskLevelFor, hcommand, Option.map_some, hrisk]
  rfl

variable (cm chain) (json : JsonText)

/-- A chain keeps the risk of its commands exactly when no newline hides a riskier command behind another one. -/
theorem riskKept_iff : chain.RiskKept cm json ↔ chain.Unmasked cm := by
  constructor
  · exact fun h => unmasked_of_le h.1
  · intro h
    refine ⟨fun c hc => h.le_text hc, ?_⟩
    rintro params hcommand ⟨c, hc, hhigh⟩
    have hle := h.le_text hc
    rw [hhigh] at hle
    exact requiresApproval_of_high hcommand (le_antisymm (RiskLevel.le_high _) hle)

/-- The separators at which the classifier cuts hide nothing. -/
theorem Unmasked.of_no_newline (hsep : ∀ r ∈ chain.rest, r.1 ≠ .newline)
    (hblank : ∀ c ∈ chain.commands, segments c ≠ []) :
    chain.Unmasked cm where
  pieces run hrun hlen :=
    absurd (length_le_one_of_mem_runsFrom chain.rest chain.first hsep run hrun) (Nat.not_le.mpr hlen)
  blank c hc hnil := absurd hnil (hblank c hc)

/-- The second command deletes files, but what the classifier sees begins with `ls`. -/
theorem newline_hides_command :
    ¬∀ (cm : CaseMap) (json : JsonText) (chain : Chain), chain.RiskKept cm json := by
  intro h
  have hle := (h asciiCase ⟨fun _ => .error [], fun _ => []⟩ ⟨"ls".toList, [(.newline, "rm -rf x".toList)]⟩).1
    "rm -rf x".toList (by decide)
  revert hle
  decide

end Kept

end Chain
end Ironclaw.Tools.Shell

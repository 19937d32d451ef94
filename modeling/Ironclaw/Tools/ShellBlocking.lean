import Ironclaw.Lib.Lowercase
import Ironclaw.Tools.Shell

/-!
# Blocked commands

The patterns are looked for in the lower-case command, so that a pattern with a capital letter is never found.

- `isBlocked_isSome_iff`: what the tool finds;
- `chmod_not_found`: the one entry that it cannot find.
-/

namespace Ironclaw.Tools.Shell

open Text

/-- The entry that has a capital letter. -/
def CHMOD_ROOT : Str := "chmod -R 777 /".toList

/-- `pattern` occurs in `cmd` up to the case of ASCII letters. -/
def OccursUpToCase (pattern cmd : Str) : Prop := pattern.map asciiLower <:+: cmd.map asciiLower

instance (pattern cmd : Str) : Decidable (OccursUpToCase pattern cmd) :=
  inferInstanceAs (Decidable (pattern.map asciiLower <:+: cmd.map asciiLower))

/-- All characters of the pattern are ASCII, and none is a capital letter. -/
def isLowerPattern (pattern : Str) : Bool := pattern.all fun c => isAscii c && asciiLower c == c

theorem isLowerPattern_of_ne {pattern : Str} (h : pattern ∈ BLOCKED_COMMANDS ++ DANGEROUS_PATTERNS)
    (hne : pattern ≠ CHMOD_ROOT) : isLowerPattern pattern = true := by
  have hall : (BLOCKED_COMMANDS ++ DANGEROUS_PATTERNS).all (fun p => p == CHMOD_ROOT || isLowerPattern p) = true := by
    decide
  have hpattern := List.all_eq_true.mp hall pattern h
  rw [Bool.or_eq_true, beq_iff_eq] at hpattern
  exact hpattern.resolve_left hne

theorem infix_of_occurs {pattern cmd : Str} (hlower : isLowerPattern pattern = true) (h : OccursUpToCase pattern cmd)
    (tables : LowerTables) : pattern <:+: tables.toLowercase cmd := by
  rw [isLowerPattern, List.all_eq_true] at hlower
  have hascii : ∀ c ∈ pattern, isAscii c = true := fun c hc => (Bool.and_eq_true_iff.mp (hlower c hc)).1
  have hfixed : pattern.map asciiLower = pattern := by
    refine (List.map_congr_left fun c hc => ?_).trans (List.map_id pattern)
    exact eq_of_beq (Bool.and_eq_true_iff.mp (hlower c hc)).2
  exact hfixed ▸ tables.infix_toLowercase hascii h

section Blocking

variable (tables : LowerTables) (upper : Str → Str) (world : World) (tool : ShellTool) (cmd : Str)

/-- The lower and upper case that the tool works with. -/
abbrev caseMap : CaseMap := ⟨tables.toLowercase, upper⟩

theorem isBlocked_isSome_iff (cm : CaseMap) :
    (tool.isBlocked cm cmd).isSome ↔ ∃ pattern ∈ tool.patterns, pattern <:+: cm.lower cmd := by
  have hany : ∀ patterns : List Str, patterns.any (contains (cm.lower cmd)) = true ↔
      ∃ pattern ∈ patterns, pattern <:+: cm.lower cmd := by
    intro patterns
    simp only [List.any_eq_true, contains, decide_eq_true_iff]
  have hmem : (∃ pattern ∈ tool.patterns, pattern <:+: cm.lower cmd) ↔
      BLOCKED_COMMANDS.any (contains (cm.lower cmd)) = true ∨
        tool.allowDangerous = false ∧ DANGEROUS_PATTERNS.any (contains (cm.lower cmd)) = true := by
    rw [hany, hany, ShellTool.patterns]
    cases tool.allowDangerous <;> simp [or_and_right, exists_or]
  rw [hmem, ShellTool.isBlocked]
  generalize BLOCKED_COMMANDS.any (contains (cm.lower cmd)) = blocked
  generalize DANGEROUS_PATTERNS.any (contains (cm.lower cmd)) = dangerous
  cases blocked <;> cases dangerous <;> cases tool.allowDangerous <;> decide

theorem chmod_not_found : ¬CHMOD_ROOT <:+: tables.toLowercase cmd := by
  intro h
  have hmem : 'R' ∈ CHMOD_ROOT := by decide
  exact absurd (tables.toLowercase_noCapital cmd 'R' (h.subset hmem)) (by decide)

/-- Every pattern of the tool that occurs in the command gets it refused. -/
def PatternsRefused : Prop :=
  ∀ pattern ∈ tool.patterns, OccursUpToCase pattern cmd → ∀ workdir timeout extraEnv,
    Refused (executeCommand (caseMap tables upper) world tool cmd workdir timeout extraEnv)

theorem mem_lists_of_mem_patterns {pattern : Str} (h : pattern ∈ tool.patterns) :
    pattern ∈ BLOCKED_COMMANDS ++ DANGEROUS_PATTERNS := by
  rw [ShellTool.patterns] at h
  split at h
  · rw [List.append_nil] at h
    exact List.mem_append_left _ h
  · exact h

theorem chmod_mem_patterns : CHMOD_ROOT ∈ tool.patterns := by
  have hmem : CHMOD_ROOT ∈ BLOCKED_COMMANDS := by decide
  exact List.mem_append_left _ hmem

/-- The patterns are refused exactly when a command with `chmod -R 777 /` in it is refused for something else. -/
theorem patternsRefused_iff : PatternsRefused tables upper world tool cmd ↔
    (OccursUpToCase CHMOD_ROOT cmd →
      (∃ pattern ∈ tool.patterns, pattern ≠ CHMOD_ROOT ∧ pattern <:+: tables.toLowercase cmd) ∨
        (detectCommandInjection (caseMap tables upper) cmd).isSome) := by
  simp only [PatternsRefused, executeCommand_refused_iff, isBlocked_isSome_iff]
  constructor
  · intro h hchmod
    refine (h CHMOD_ROOT (chmod_mem_patterns tool) hchmod none none []).imp_left ?_
    rintro ⟨pattern, hmem, hfound⟩
    refine ⟨pattern, hmem, ?_, hfound⟩
    rintro rfl
    exact chmod_not_found tables cmd hfound
  · rintro h pattern hmem hoccurs - - -
    by_cases hne : pattern = CHMOD_ROOT
    · refine (h (hne ▸ hoccurs)).imp_left ?_
      rintro ⟨other, hother, -, hfound⟩
      exact ⟨other, hother, hfound⟩
    · have hlower := isLowerPattern_of_ne (mem_lists_of_mem_patterns tool hmem) hne
      exact .inl ⟨pattern, hmem, infix_of_occurs hlower hoccurs tables⟩

end Blocking

/-- The command is the entry itself; a process is spawned for it. -/
theorem chmod_not_refused :
    ¬∀ (tables : LowerTables) (upper : Str → Str) (world : World) (tool : ShellTool) (cmd : Str),
    PatternsRefused tables upper world tool cmd := by
  intro h
  let cm : CaseMap := ⟨LowerTables.asciiOnly.toLowercase, id⟩
  have hblocked : ShellTool.new.isBlocked cm CHMOD_ROOT = none := by decide
  have hinjection : detectCommandInjection cm CHMOD_ROOT = none := by decide
  have hrefused := h LowerTables.asciiOnly id ⟨none, fun _ => none, fun _ _ _ _ => .timedOut, fun _ _ _ _ => .timedOut⟩
    ShellTool.new CHMOD_ROOT CHMOD_ROOT (chmod_mem_patterns _) (List.infix_refl _) none none []
  exact executeCommand_passed none none [] hblocked hinjection hrefused

end Ironclaw.Tools.Shell

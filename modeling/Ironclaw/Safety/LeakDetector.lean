import Mathlib.Data.List.Sort
import Ironclaw.Lib.MultiSearch
import Ironclaw.Lib.Regex

/-!
# The leak detector

Patterns of secrets, and the scan of a text for them: a search for the literal prefixes of the patterns decides which
patterns are tried, the matches of these are collected, and those with the action `redact` are cut out. Locations count
characters.

- `mem_candidateIndices`: which patterns are tried;
- `mem_foundMatches`, `mem_matched_scan`: the reported matches are those of the patterns that are tried.
-/

namespace Ironclaw.Safety

open Text

inductive LeakAction
  | block
  | redact
  | warn
  deriving DecidableEq

inductive LeakSeverity
  | low
  | medium
  | high
  | critical
  deriving DecidableEq

/-- What the detector uses of compiled expressions: their texts, and their matches, which are ranges of the text. -/
structure Engine (R : Type) where
  asStr : R → Str
  findIter : R → Str → List (Nat × Nat)
  within : ∀ {rx s r}, r ∈ findIter rx s → r.1 ≤ r.2 ∧ r.2 ≤ s.length

/-- The expressions of `Lib/Regex`. -/
def compiled (isWord : Char → Bool) : Engine Regex.Compiled where
  asStr rx := rx.asStr
  findIter rx := Regex.findIter isWord rx.ast
  within h := Regex.findIter_within isWord h

/-- `LeakPattern`, over any expressions. -/
structure PatternOf (R : Type) where
  name : Str
  regex : R
  severity : LeakSeverity
  action : LeakAction

abbrev LeakPattern := PatternOf Regex.Compiled

structure LeakMatch where
  patternName : Str
  severity : LeakSeverity
  action : LeakAction
  location : Nat × Nat
  maskedPreview : Str
  deriving DecidableEq

structure LeakScanResult where
  matched : List LeakMatch
  shouldBlock : Bool
  redactedContent : Option Str
  deriving DecidableEq

/-- `LeakDetector`, over any expressions; the prefix matcher searches for the texts of the known prefixes. -/
structure DetectorOf (R : Type) where
  patterns : List (PatternOf R)
  prefixMatcher : Option (List Str)
  knownPrefixes : List (Str × Nat)

abbrev LeakDetector := DetectorOf Regex.Compiled

inductive LeakDetectionError
  | secretLeakBlocked (pattern preview : Str)
  deriving DecidableEq

def LeakDetectionError.toText : LeakDetectionError → Str
  | .secretLeakBlocked pattern preview =>
    "Secret leak blocked: pattern '".toList ++ pattern ++ "' matched '".toList ++ preview ++ "'".toList

/-- The characters before the first one that is special in a pattern text, at least three bytes of them. -/
def extractLiteralPrefix (pattern : Str) : Option Str :=
  let literal := pattern.takeWhile fun c => !"[(.*+?\x7b|^$\\".toList.contains c
  if 3 ≤ utf8Len literal then some literal else none

section Patterns

variable {R : Type}

/-- `LeakDetector::with_patterns`, given the texts of the expressions. -/
def DetectorOf.ofTexts (asStr : R → Str) (patterns : List (PatternOf R)) : DetectorOf R :=
  let prefixes := patterns.zipIdx.filterMap fun p =>
    ((extractLiteralPrefix (asStr p.1.regex)).filter fun literal => 3 ≤ utf8Len literal).map fun literal =>
      (literal, p.2)
  { patterns := patterns
    prefixMatcher := if prefixes.isEmpty then none else some (prefixes.map Prod.fst)
    knownPrefixes := prefixes }

def DetectorOf.withPatterns (E : Engine R) (patterns : List (PatternOf R)) : DetectorOf R := ofTexts E.asStr patterns

end Patterns

def LeakDetector.withPatterns (patterns : List LeakPattern) : LeakDetector :=
  DetectorOf.ofTexts Regex.Compiled.asStr patterns

theorem LeakDetector.prefixMatcher_withPatterns (patterns : List LeakPattern) :
    (withPatterns patterns).prefixMatcher =
      if (withPatterns patterns).knownPrefixes.isEmpty then none
      else some ((withPatterns patterns).knownPrefixes.map Prod.fst) := rfl

/-- Shows the first and the last four characters of a secret. -/
def maskSecret (secret : Str) : Str :=
  let len := utf8Len secret
  if len ≤ 8 then List.replicate len '*'
  else secret.take 4 ++ List.replicate (min (len - 8) 8) '*' ++ secret.drop (len - 4)

def slice (content : Str) (start stop : Nat) : Str := (content.drop start).take (stop - start)

/-- The text with the ranges replaced, in the order in which they are given. -/
def applyRedactions (content : Str) (ranges : List (Nat × Nat)) : Str :=
  if ranges.isEmpty then content
  else
    let (result, lastEnd) := ranges.foldl (fun (acc : Str × Nat) range =>
      ((if acc.2 < range.1 then acc.1 ++ slice content acc.2 range.1 else acc.1) ++ "[REDACTED]".toList,
        range.2)) ([], 0)
    if lastEnd < content.length then result ++ content.drop lastEnd else result

/-! ## The scan -/

/-- Adds the values of the entries that meet a condition, each once. -/
def pushNew {α : Type} (indices : List Nat) (entries : List α) (cond : α → Bool) (value : α → Nat) : List Nat :=
  entries.foldl (fun indices e =>
    if cond e && !indices.contains (value e) then indices ++ [value e] else indices) indices

/-- One prefix starts with the other. -/
def prefixesOverlap (a b : Str) : Bool := b.isPrefixOf a || a.isPrefixOf b

theorem mem_pushNew {α : Type} (cond : α → Bool) (value : α → Nat) (i : Nat) :
    ∀ (entries : List α) (indices : List Nat),
    i ∈ pushNew indices entries cond value ↔ i ∈ indices ∨ ∃ e ∈ entries, cond e = true ∧ value e = i
  | [], indices => by simp [pushNew]
  | e :: entries, indices => by
    have hstep : pushNew indices (e :: entries) cond value =
        pushNew (if cond e && !indices.contains (value e) then indices ++ [value e] else indices) entries cond value :=
          rfl
    rw [hstep, mem_pushNew cond value i entries, List.exists_mem_cons_iff, ← or_assoc]
    refine or_congr_left ?_
    split
    next h =>
      rw [List.mem_append, List.mem_singleton]
      obtain ⟨hcond, -⟩ := Bool.and_eq_true_iff.mp h
      simp only [hcond, true_and, eq_comm]
    next h =>
      constructor
      · exact Or.inl
      · rintro (hi | ⟨hcond, rfl⟩)
        · exact hi
        · by_contra hni
          apply h
          rw [hcond, Bool.true_and, Bool.not_eq_true', List.contains_eq_mem]
          exact decide_eq_false hni

section Detector

variable {R : Type}

section Prefilter

variable (det : DetectorOf R)

/-- The patterns to try: those with a prefix that overlaps a found one, and those without a known prefix. -/
def DetectorOf.candidateIndices (content : Str) : List Nat :=
  match det.prefixMatcher with
  | none => List.range det.patterns.length
  | some matcher =>
    let found := (MultiSearch.hits matcher content).foldl (fun indices hit =>
      match det.knownPrefixes[hit.pattern]? with
      | none => indices
      | some (foundPrefix, _) =>
        pushNew indices det.knownPrefixes (fun other => prefixesOverlap other.1 foundPrefix) Prod.snd) []
    pushNew found (List.range det.patterns.length) (fun idx => !det.knownPrefixes.any fun p => p.2 == idx) id

end Prefilter

/-- The patterns that are tried have no known prefix, or one that overlaps a prefix found in the text. -/
theorem DetectorOf.mem_candidateIndices {det : DetectorOf R} {matcher : List Str}
    (hm : det.prefixMatcher = some matcher) (content : Str) (i : Nat) :
    i ∈ det.candidateIndices content ↔
      (∃ h ∈ MultiSearch.hits matcher content, ∃ found, det.knownPrefixes[h.pattern]? = some found ∧
        ∃ other ∈ det.knownPrefixes, prefixesOverlap other.1 found.1 = true ∧ other.2 = i) ∨
      i < det.patterns.length ∧ ∀ p ∈ det.knownPrefixes, p.2 ≠ i := by
  have hfold : ∀ (hs : List MultiSearch.Hit) (indices : List Nat),
      i ∈ hs.foldl (fun indices hit =>
        match det.knownPrefixes[hit.pattern]? with
        | none => indices
        | some (foundPrefix, _) =>
          pushNew indices det.knownPrefixes (fun other => prefixesOverlap other.1 foundPrefix) Prod.snd) indices ↔
      i ∈ indices ∨ ∃ h ∈ hs, ∃ found, det.knownPrefixes[h.pattern]? = some found ∧
        ∃ other ∈ det.knownPrefixes, prefixesOverlap other.1 found.1 = true ∧ other.2 = i := by
    intro hs
    induction hs with
    | nil => simp
    | cons h hs ih =>
      intro indices
      rw [List.foldl_cons, ih, List.exists_mem_cons_iff, ← or_assoc]
      refine or_congr_left ?_
      cases hk : det.knownPrefixes[h.pattern]? with
      | none => simp
      | some found =>
        rw [mem_pushNew]
        simp
  unfold candidateIndices
  rw [hm]
  simp only
  rw [mem_pushNew, hfold]
  simp only [List.not_mem_nil, false_or, List.mem_range, Bool.not_eq_true', List.any_eq_false, beq_iff_eq, id_eq,
    exists_eq_right_right, ne_eq]

variable (E : Engine R)

/-- The matches of one pattern. -/
def PatternOf.leakMatches (p : PatternOf R) (content : Str) : List LeakMatch :=
  (E.findIter p.regex content).map fun range =>
    { patternName := p.name
      severity := p.severity
      action := p.action
      location := range
      maskedPreview := maskSecret (slice content range.1 range.2) }

variable (det : DetectorOf R)

/-- The matches of the patterns that are tried, in the order in which they are found. -/
def DetectorOf.foundMatches (content : Str) : List LeakMatch :=
  (det.candidateIndices content).flatMap fun idx =>
    match det.patterns[idx]? with
    | none => []
    | some p => p.leakMatches E content

def DetectorOf.redactRanges (content : Str) : List (Nat × Nat) :=
  (((det.foundMatches E content).filter fun m => m.action = .redact).map LeakMatch.location).insertionSort
    fun r r' => r.1 ≤ r'.1

/-- `LeakDetector::scan`. -/
def DetectorOf.scan (content : Str) : LeakScanResult :=
  let found := det.foundMatches E content
  let ranges := det.redactRanges E content
  { matched := found.insertionSort fun m m' => m.location.1 ≤ m'.location.1
    shouldBlock := found.any fun m => m.action = .block
    redactedContent := if ranges.isEmpty then none else some (applyRedactions content ranges) }

theorem DetectorOf.mem_foundMatches {content : Str} {m : LeakMatch} :
    m ∈ det.foundMatches E content ↔ ∃ i ∈ det.candidateIndices content, ∃ p, det.patterns[i]? = some p ∧
      m ∈ p.leakMatches E content := by
  unfold foundMatches
  rw [List.mem_flatMap]
  refine exists_congr fun i => and_congr_right fun _ => ?_
  cases det.patterns[i]? <;> simp

theorem DetectorOf.mem_matched_scan {content : Str} {m : LeakMatch} :
    m ∈ (det.scan E content).matched ↔ m ∈ det.foundMatches E content :=
  (List.perm_insertionSort _ _).mem_iff

theorem DetectorOf.mem_redactRanges {content : Str} {r : Nat × Nat} : r ∈ det.redactRanges E content ↔
    ∃ m ∈ det.foundMatches E content, m.action = .redact ∧ m.location = r := by
  unfold redactRanges
  rw [(List.perm_insertionSort _ _).mem_iff, List.mem_map]
  simp only [List.mem_filter, decide_eq_true_eq, and_assoc]

theorem DetectorOf.redactRanges_sorted (content : Str) :
    (det.redactRanges E content).Pairwise (fun r r' => r.1 ≤ r'.1) := by
  have : Std.Total (fun r r' : Nat × Nat => r.1 ≤ r'.1) := ⟨fun r r' => Nat.le_total r.1 r'.1⟩
  have : IsTrans (Nat × Nat) (fun r r' => r.1 ≤ r'.1) := ⟨fun r s t h h' => Nat.le_trans h h'⟩
  exact List.pairwise_insertionSort _ _

end Detector

section Scan

variable (isWord : Char → Bool) (det : LeakDetector)

def LeakDetector.foundMatches (content : Str) : List LeakMatch := DetectorOf.foundMatches (compiled isWord) det content

def LeakDetector.redactRanges (content : Str) : List (Nat × Nat) :=
  DetectorOf.redactRanges (compiled isWord) det content

def LeakDetector.scan (content : Str) : LeakScanResult := DetectorOf.scan (compiled isWord) det content

/-- `LeakDetector::scan_and_clean`. -/
def LeakDetector.scanAndClean (content : Str) : Except LeakDetectionError Str :=
  let result := det.scan isWord content
  if result.shouldBlock then
    let blocking := result.matched.find? fun m => m.action = .block
    .error (.secretLeakBlocked ((blocking.map LeakMatch.patternName).getD [])
      ((blocking.map LeakMatch.maskedPreview).getD []))
  else .ok (result.redactedContent.getD content)

/-- `LeakDetector::scan_http_request`, with the text of the body. -/
def LeakDetector.scanHttpRequest (url : Str) (headers : List (Str × Str)) (body : Option Str) :
    Except LeakDetectionError Unit := do
  let _ ← det.scanAndClean isWord url
  headers.forM fun h =>
    match det.scanAndClean isWord h.2 with
    | .error e => .error (.secretLeakBlocked ("header:".toList ++ h.1) e.toText)
    | .ok _ => .ok ()
  match body with
  | none => pure ()
  | some text =>
    let _ ← det.scanAndClean isWord text
    pure ()

end Scan

/-! ## The default patterns -/

def defaultPatterns : List LeakPattern :=
  [ { name := "openai_api_key".toList
      regex := Regex.new r"sk-(?:proj-)?[a-zA-Z0-9]{20,}(?:T3BlbkFJ[a-zA-Z0-9_-]*)?".toList (by decide +kernel)
      severity := .critical
      action := .block },
    { name := "anthropic_api_key".toList
      regex := Regex.new r"sk-ant-api[a-zA-Z0-9_-]{90,}".toList (by decide +kernel)
      severity := .critical
      action := .block },
    { name := "aws_access_key".toList
      regex := Regex.new r"AKIA[0-9A-Z]{16}".toList (by decide +kernel)
      severity := .critical
      action := .block },
    { name := "github_token".toList
      regex := Regex.new r"gh[pousr]_[A-Za-z0-9_]{36,}".toList (by decide +kernel)
      severity := .critical
      action := .block },
    { name := "github_fine_grained_pat".toList
      regex := Regex.new r"github_pat_[a-zA-Z0-9]{22}_[a-zA-Z0-9]{59}".toList (by decide +kernel)
      severity := .critical
      action := .block },
    { name := "stripe_api_key".toList
      regex := Regex.new r"sk_(?:live|test)_[a-zA-Z0-9]{24,}".toList (by decide +kernel)
      severity := .critical
      action := .block },
    { name := "nearai_session".toList
      regex := Regex.new r"sess_[a-zA-Z0-9]{32,}".toList (by decide +kernel)
      severity := .critical
      action := .block },
    { name := "pem_private_key".toList
      regex := Regex.new r"-----BEGIN\s+(?:RSA\s+)?PRIVATE\s+KEY-----".toList (by decide +kernel)
      severity := .critical
      action := .block },
    { name := "ssh_private_key".toList
      regex := Regex.new r"-----BEGIN\s+(?:OPENSSH|EC|DSA)\s+PRIVATE\s+KEY-----".toList (by decide +kernel)
      severity := .critical
      action := .block },
    { name := "google_api_key".toList
      regex := Regex.new r"AIza[0-9A-Za-z_-]{35}".toList (by decide +kernel)
      severity := .high
      action := .block },
    { name := "slack_token".toList
      regex := Regex.new r"xox[baprs]-[0-9a-zA-Z-]{10,}".toList (by decide +kernel)
      severity := .high
      action := .block },
    { name := "twilio_api_key".toList
      regex := Regex.new r"SK[a-fA-F0-9]{32}".toList (by decide +kernel)
      severity := .high
      action := .block },
    { name := "sendgrid_api_key".toList
      regex := Regex.new r"SG\.[a-zA-Z0-9_-]{22}\.[a-zA-Z0-9_-]{43}".toList (by decide +kernel)
      severity := .high
      action := .block },
    { name := "bearer_token".toList
      regex := Regex.new r"Bearer\s+[a-zA-Z0-9_-]{20,}".toList (by decide +kernel)
      severity := .high
      action := .redact },
    { name := "auth_header".toList
      regex := Regex.new r"(?i)authorization:\s*[a-zA-Z]+\s+[a-zA-Z0-9_-]{20,}".toList (by decide +kernel)
      severity := .high
      action := .redact },
    { name := "high_entropy_hex".toList
      regex := Regex.new r"\b[a-fA-F0-9]{64}\b".toList (by decide +kernel)
      severity := .medium
      action := .warn } ]

/-- `LeakDetector::new`. -/
def LeakDetector.new : LeakDetector := .withPatterns defaultPatterns

end Ironclaw.Safety

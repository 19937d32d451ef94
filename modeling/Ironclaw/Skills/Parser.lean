import Ironclaw.Lib.Text

/-!
# Skill files

The manifest of a skill and the parser of `SKILL.md`: a block of YAML between two lines `---`, followed by the prompt.
The YAML library is a parameter (`Yaml`).
-/

namespace Ironclaw.Skills

open Text

/-- `SkillTrust`; the order of the constructors is the order of trust. -/
inductive SkillTrust
  | installed
  | trusted
  deriving DecidableEq

instance : Min SkillTrust := ⟨fun a b => if a = .installed then a else b⟩

structure ActivationCriteria where
  keywords : List Str
  excludeKeywords : List Str
  patterns : List Str
  tags : List Str
  maxContextTokens : Nat
  deriving DecidableEq

structure GatingRequirements where
  bins : List Str
  env : List Str
  config : List Str
  deriving DecidableEq

/-- `SkillManifest`; `requires` are the requirements of the OpenClaw metadata, if there are any. -/
structure SkillManifest where
  name : Str
  version : Str
  description : Str
  activation : ActivationCriteria
  requires : Option GatingRequirements
  deriving DecidableEq

def MAX_KEYWORDS_PER_SKILL : Nat := 20
def MAX_PATTERNS_PER_SKILL : Nat := 5
def MAX_TAGS_PER_SKILL : Nat := 10
def MIN_KEYWORD_TAG_LENGTH : Nat := 3

/-- Short keywords and tags are dropped, then each list is cut. -/
def ActivationCriteria.enforceLimits (a : ActivationCriteria) : ActivationCriteria :=
  let long (s : Str) : Bool := MIN_KEYWORD_TAG_LENGTH ≤ utf8Len s
  { a with
    keywords := (a.keywords.filter long).take MAX_KEYWORDS_PER_SKILL
    excludeKeywords := (a.excludeKeywords.filter long).take MAX_KEYWORDS_PER_SKILL
    patterns := a.patterns.take MAX_PATTERNS_PER_SKILL
    tags := (a.tags.filter long).take MAX_TAGS_PER_SKILL }

/-- A letter, a digit, or one of `.`, `_` and `-`. -/
def isNameChar (c : Char) : Bool := c.isAlphanum || c == '.' || c == '_' || c == '-'

/-- The names that match `^[a-zA-Z0-9][a-zA-Z0-9._-]{0,63}$`. -/
def validateSkillName : Str → Bool
  | [] => false
  | c :: cs => c.isAlphanum && cs.all isNameChar && cs.length ≤ 63

/-- Line ends become line feeds. -/
def normalizeLineEndings (content : Str) : Str := replace ['\r'] ['\n'] (replace ['\r', '\n'] ['\n'] content)

inductive SkillParseError
  | missingFrontmatter
  | invalidYaml (reason : Str)
  | emptyPrompt
  | invalidName (name : Str)
  deriving DecidableEq

structure ParsedSkill where
  manifest : SkillManifest
  promptContent : Str
  deriving DecidableEq

/-- `serde_yml::from_str` at the type of manifests. -/
abbrev Yaml := Str → Except Str SkillManifest

/-- Where the first line starts that is `---`. The text has no carriage returns, so that each line before it takes its
length and one line break. -/
def findClosingDelimiter (content : Str) : Option Nat :=
  let rec go : List Str → Nat → Option Nat
    | [], _ => none
    | line :: ls, pos => if trim line = "---".toList then some pos else go ls (pos + line.length + 1)
  go (lines content) 0

/-- The text after the first line break. -/
def afterLine (s : Str) : Option Str := (s.idxOf? '\n').map fun i => s.drop (i + 1)

/-- `parse_skill_md`, for a text with normalized line ends. -/
def parseSkillMd (yaml : Yaml) (content : Str) : Except SkillParseError ParsedSkill := do
  let content := (stripStart [Char.ofNat 0xFEFF] content).getD content
  let trimmed := content.dropWhile fun c => c == '\n' || c == '\r'
  let afterFirst ← ((stripStart "---".toList trimmed).elim (.error .missingFrontmatter) .ok)
  let afterFirstLine ← ((afterLine afterFirst).elim (.error .missingFrontmatter) .ok)
  let yamlEnd ← ((findClosingDelimiter afterFirstLine).elim (.error .missingFrontmatter) .ok)
  let manifest ← (yaml (afterFirstLine.take yamlEnd)).mapError .invalidYaml
  if !validateSkillName manifest.name then .error (.invalidName manifest.name)
  else
    let manifest := { manifest with activation := manifest.activation.enforceLimits }
    let afterYaml := afterFirstLine.drop yamlEnd
    let promptContent := ((afterLine afterYaml).getD []).dropWhile (· == '\n')
    if (trim promptContent).isEmpty then .error .emptyPrompt else .ok ⟨manifest, promptContent⟩

end Ironclaw.Skills

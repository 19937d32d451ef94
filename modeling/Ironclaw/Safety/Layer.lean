import Ironclaw.Safety.LeakDetector

/-!
# The safety layer

Policy rules, the sanitizer for prompt injections, and what `SafetyLayer::sanitize_tool_output` makes of them and of the
leak detector: a long output is truncated, any other is scanned for secrets, checked against the policy and sanitized.

Full lower-case conversion is a parameter.
-/

namespace Ironclaw.Safety

open Text

/-! ## The policy -/

inductive Severity
  | low
  | medium
  | high
  | critical
  deriving DecidableEq

def Severity.value : Severity → Nat
  | .low => 1
  | .medium => 2
  | .high => 3
  | .critical => 4

inductive PolicyAction
  | warn
  | block
  | review
  | sanitize
  deriving DecidableEq

structure PolicyRule where
  id : Str
  description : Str
  severity : Severity
  pattern : Regex.Compiled
  action : PolicyAction

structure Policy where
  rules : List PolicyRule

/-- `Policy::default`. -/
def Policy.standard : Policy where
  rules :=
    [ { id := "system_file_access".toList
        description := "Attempt to access system files".toList
        pattern := Regex.new r"(?i)(/etc/passwd|/etc/shadow|\.ssh/|\.aws/credentials)".toList (by decide +kernel)
        severity := .critical
        action := .block },
      { id := "crypto_private_key".toList
        description := "Potential cryptocurrency private key".toList
        pattern := Regex.new r"(?i)(private.?key|seed.?phrase|mnemonic).{0,20}[0-9a-f]{64}".toList (by decide +kernel)
        severity := .critical
        action := .block },
      { id := "sql_pattern".toList
        description := "SQL-like pattern detected".toList
        pattern := Regex.new r"(?i)(DROP\s+TABLE|DELETE\s+FROM|INSERT\s+INTO|UPDATE\s+\w+\s+SET)".toList
          (by decide +kernel)
        severity := .medium
        action := .warn },
      { id := "shell_injection".toList
        description := "Potential shell command injection".toList
        pattern := Regex.new r"(?i)(;\s*rm\s+-rf|;\s*curl\s+.*\|\s*sh)".toList (by decide +kernel)
        severity := .critical
        action := .block },
      { id := "excessive_urls".toList
        description := "Excessive number of URLs detected".toList
        pattern := Regex.new r"(https?://[^\s]+\s*){10,}".toList (by decide +kernel)
        severity := .low
        action := .warn },
      { id := "encoded_exploit".toList
        description := "Potential encoded exploit payload".toList
        pattern := Regex.new r"(?i)(base64_decode|eval\s*\(\s*base64|atob\s*\()".toList (by decide +kernel)
        severity := .high
        action := .sanitize },
      { id := "obfuscated_string".toList
        description := "Potential obfuscated content".toList
        pattern := Regex.new r"[^\s]{500,}".toList (by decide +kernel)
        severity := .medium
        action := .warn } ]

/-- The rules that a text violates. -/
def Policy.check (isWord : Char → Bool) (policy : Policy) (content : Str) : List PolicyRule :=
  policy.rules.filter fun rule => Regex.isMatch isWord rule.pattern.ast content

/-! ## The sanitizer -/

structure InjectionWarning where
  pattern : Str
  severity : Severity
  location : Nat × Nat
  description : Str
  deriving DecidableEq

structure SanitizedOutput where
  content : Str
  warnings : List InjectionWarning
  wasModified : Bool
  deriving DecidableEq

structure PatternInfo where
  pattern : Str
  severity : Severity
  description : Str

structure RegexPattern where
  regex : Regex.Compiled
  name : Str
  severity : Severity
  description : Str

structure Sanitizer where
  patterns : List PatternInfo
  regexPatterns : List RegexPattern

/-- `Sanitizer::new`. -/
def Sanitizer.new : Sanitizer where
  patterns :=
    [ ("ignore previous", .high, "Attempt to override previous instructions"),
      ("ignore all previous", .critical, "Attempt to override all previous instructions"),
      ("disregard", .medium, "Potential instruction override"),
      ("forget everything", .high, "Attempt to reset context"),
      ("you are now", .high, "Attempt to change assistant role"),
      ("act as", .medium, "Potential role manipulation"),
      ("pretend to be", .medium, "Potential role manipulation"),
      ("system:", .critical, "Attempt to inject system message"),
      ("assistant:", .high, "Attempt to inject assistant response"),
      ("user:", .high, "Attempt to inject user message"),
      ("<|", .critical, "Potential special token injection"),
      ("|>", .critical, "Potential special token injection"),
      ("[INST]", .critical, "Potential instruction token injection"),
      ("[/INST]", .critical, "Potential instruction token injection"),
      ("new instructions", .high, "Attempt to provide new instructions"),
      ("updated instructions", .high, "Attempt to update instructions"),
      ("```system", .high, "Potential code block instruction injection"),
      ("```bash\nsudo", .medium, "Potential dangerous command injection") ].map fun (p : String × Severity × String) =>
        ⟨p.1.toList, p.2.1, p.2.2.toList⟩
  regexPatterns :=
    [ { regex := Regex.new r"(?i)base64[:\s]+[A-Za-z0-9+/=]{50,}".toList (by decide +kernel)
        name := "base64_payload".toList
        severity := .medium
        description := "Potential encoded payload".toList },
      { regex := Regex.new r"(?i)eval\s*\(".toList (by decide +kernel)
        name := "eval_call".toList
        severity := .high
        description := "Potential code evaluation attempt".toList },
      { regex := Regex.new r"(?i)exec\s*\(".toList (by decide +kernel)
        name := "exec_call".toList
        severity := .high
        description := "Potential code execution attempt".toList },
      { regex := Regex.new r"\x00".toList (by decide +kernel)
        name := "null_byte".toList
        severity := .critical
        description := "Null byte injection attempt".toList } ]

def NUL : Char := Char.ofNat 0

/-- The special tokens and what they are replaced by, in order. -/
def tokenEscapes : List (Str × Str) :=
  [("<|", "\\<|"), ("|>", "|\\>"), ("[INST]", "\\[INST]"), ("[/INST]", "\\[/INST]")].map fun p =>
    (p.1.toList, p.2.toList)

/-- The special tokens are escaped. -/
def escapeTokens (content : Str) : Str := tokenEscapes.foldl (fun s p => replace p.1 p.2 s) content

def ESCAPED : Str := "[ESCAPED] ".toList

section Sanitize

variable (cm : CaseMap) (isWord : Char → Bool)

/-- The line starts with a role marker. -/
def hasRoleMarker (line : Str) : Bool :=
  let trimmed := cm.lower (trimStart line)
  "system:".toList.isPrefixOf trimmed || "user:".toList.isPrefixOf trimmed || "assistant:".toList.isPrefixOf trimmed

def escapeLine (line : Str) : Str := if hasRoleMarker cm line then ESCAPED ++ line else line

/-- `Sanitizer::escape_content`. -/
def escapeContent (content : Str) : Str :=
  let escaped := replace [NUL] [] (escapeTokens content)
  join ['\n'] ((lines escaped).map (escapeLine cm))

/-- The warnings for a text, those of the highest severity first. -/
def Sanitizer.detect (s : Sanitizer) (content : Str) : List InjectionWarning :=
  let literal :=
    (MultiSearch.hits (s.patterns.map fun p => p.pattern.map asciiLower) (content.map asciiLower)).filterMap
    fun hit => s.patterns[hit.pattern]?.map fun p => ⟨p.pattern, p.severity, (hit.start, hit.stop), p.description⟩
  let regex := s.regexPatterns.flatMap fun p =>
    (Regex.findIter isWord p.regex.ast content).map fun range => ⟨p.name, p.severity, range, p.description⟩
  (literal ++ regex).insertionSort fun a b => b.severity.value ≤ a.severity.value

/-- `Sanitizer::sanitize`. -/
def Sanitizer.sanitize (s : Sanitizer) (content : Str) : SanitizedOutput :=
  let warnings := s.detect isWord content
  if warnings.any fun w => w.severity = .critical then ⟨escapeContent cm content, warnings, true⟩
  else ⟨content, warnings, false⟩

end Sanitize

/-! ## The layer -/

structure SafetyConfig where
  maxOutputLength : Nat
  injectionCheckEnabled : Bool

def LEAK_MESSAGE : Str := "[Output blocked due to potential secret leakage]".toList

def POLICY_MESSAGE : Str := "[Output blocked by safety policy]".toList

/-- The notice after a truncated output. -/
def truncationNotice (cut len : Nat) : Str :=
  "\n\n[... truncated: showing ".toList ++ Nat.toDigits 10 cut ++ "/".toList ++ Nat.toDigits 10 len ++
    " bytes. Use the json tool with source_tool_call_id to query the full output.]".toList

section Layer

variable (cm : CaseMap) (isWord : Char → Bool) (cfg : SafetyConfig)

/-- A long output: its beginning and a notice. -/
def truncatedOutput (toolName output : Str) : SanitizedOutput :=
  let kept := takeBytes cfg.maxOutputLength output
  { content := kept ++ truncationNotice (utf8Len kept) (utf8Len output)
    warnings := [
      { pattern := "output_too_large".toList
        severity := .low
        location := (0, output.length)
        description := "Output from tool '".toList ++ toolName ++ "' was truncated due to size".toList }]
    wasModified := true }

/-- The policy and the sanitizer, for a text without the secrets that were found. -/
def enforce (content : Str) (wasModified : Bool) : SanitizedOutput :=
  let violations := Policy.standard.check isWord content
  if violations.any fun rule => rule.action = .block then ⟨POLICY_MESSAGE, [], true⟩
  else
    let forceSanitize := violations.any fun rule => rule.action = .sanitize
    let wasModified := wasModified || forceSanitize
    if cfg.injectionCheckEnabled || forceSanitize then
      let sanitized := Sanitizer.new.sanitize cm isWord content
      { sanitized with wasModified := sanitized.wasModified || wasModified }
    else ⟨content, [], wasModified⟩

/-- `SafetyLayer::sanitize_tool_output`. -/
def sanitizeToolOutput (toolName output : Str) : SanitizedOutput :=
  if cfg.maxOutputLength < utf8Len output then truncatedOutput cfg toolName output
  else
    match LeakDetector.new.scanAndClean isWord output with
    | .error _ => ⟨LEAK_MESSAGE, [], true⟩
    | .ok cleaned => enforce cm isWord cfg cleaned (cleaned != output)

end Layer

end Ironclaw.Safety

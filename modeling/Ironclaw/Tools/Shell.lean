import Ironclaw.Agent.Submission
import Ironclaw.Agent.ToolBatch
import Ironclaw.Tools.Http

/-!
# The shell tool

How a command is classified, which commands are refused, and how a command that is not refused is run: in the sandbox,
or by `sh -c` where no sandbox is configured. What the sandbox and a process come to is a parameter; the log of a run
lists the calls of the sandbox and the processes that are spawned.

- `executeCommand_refused`: a refused command leaves no entry in the log;
- `executeCommand_passed`: any other does, and its error is never a refusal.
-/

namespace Ironclaw.Tools.Shell

open Text Agent

def MAX_OUTPUT_SIZE : Nat := 64 * 1024

/-- In seconds. -/
def DEFAULT_TIMEOUT : Nat := 120

def BLOCKED_COMMANDS : List Str :=
  ["rm -rf /", "rm -rf /*", ":()\x7b :|:& \x7d;:", "dd if=/dev/zero", "mkfs", "chmod -R 777 /",
    "> /dev/sda", "curl | sh", "wget | sh", "curl | bash", "wget | bash"].map String.toList

def DANGEROUS_PATTERNS : List Str :=
  ["sudo ", "doas ", " | sh", " | bash", " | zsh", "eval ", "$(curl", "$(wget", "/etc/passwd", "/etc/shadow", "~/.ssh",
    ".bash_history", "id_rsa"].map String.toList

def NEVER_AUTO_APPROVE_PATTERNS : List Str :=
  ["rm -rf", "rm -fr", "chmod -r 777", "chmod 777", "chown -r", "shutdown", "reboot", "poweroff", "init 0", "init 6",
    "iptables", "nft", "useradd", "userdel", "passwd", "visudo", "crontab", "systemctl disable", "launchctl unload",
    "kill -9", "killall", "pkill", "docker rm", "docker rmi", "docker system prune", "git push --force",
    "git push --force-with-lease", "git push -f", "git reset --hard", "git clean -f", "DROP TABLE", "DROP DATABASE",
    "TRUNCATE", "DELETE FROM", "sudo"].map String.toList

def SAFE_ENV_VARS : List Str :=
  ["PATH", "HOME", "USER", "LOGNAME", "SHELL", "TERM", "COLORTERM", "LANG", "LC_ALL", "LC_CTYPE", "LC_MESSAGES", "PWD",
    "TMPDIR", "TMP", "TEMP", "XDG_RUNTIME_DIR", "XDG_DATA_HOME", "XDG_CONFIG_HOME", "XDG_CACHE_HOME", "CARGO_HOME",
    "RUSTUP_HOME", "NODE_PATH", "NPM_CONFIG_PREFIX", "EDITOR", "VISUAL", "SystemRoot", "SYSTEMROOT",
    "ComSpec", "PATHEXT",
    "APPDATA", "LOCALAPPDATA", "USERPROFILE", "ProgramFiles", "ProgramFiles(x86)", "WINDIR"].map String.toList

def LOW_RISK_PATTERNS : List Str :=
  ["ls", "ll", "la", "dir", "cat", "less", "more", "head", "tail", "grep", "rg", "ag", "fd", "locate", "echo", "printf",
    "pwd", "cd", "env", "printenv", "which", "whereis", "type", "date", "cal", "uptime", "uname", "df", "du",
    "free", "top",
    "htop", "ps", "git status", "git log", "git diff", "git show", "git branch", "git remote", "git fetch",
    "cargo check",
    "cargo clippy", "curl --head", "curl -I", "ping", "wc", "sort", "uniq", "tr", "cut", "jq", "yq", "file", "stat",
    "man"].map String.toList

def MEDIUM_RISK_PATTERNS : List Str :=
  ["awk", "sed", "find", "mkdir", "rmdir", "touch", "cp", "copy", "mv", "move", "git commit", "git add", "git push",
    "git checkout", "git switch", "git merge", "git rebase", "git stash", "git tag", "cargo build", "cargo run",
    "cargo test", "npm test", "npm run test", "yarn test", "npm install", "npm ci", "npm update", "pip install",
    "pip uninstall", "brew install", "brew uninstall", "apt install", "apt remove", "make", "cmake", "tar",
    "zip", "unzip",
    "gzip", "gunzip", "ssh", "scp", "rsync", "curl", "wget", "docker build", "docker pull", "docker run",
    "kubectl apply", "kubectl create"].map String.toList

/-! ## The risk of a command -/

inductive RiskLevel
  | low
  | medium
  | high
  deriving DecidableEq

namespace RiskLevel

def rank : RiskLevel → Nat
  | .low => 0
  | .medium => 1
  | .high => 2

theorem rank_injective : Function.Injective rank := by
  intro a b h
  cases a <;> cases b <;> first | rfl | cases h

instance : LinearOrder RiskLevel := LinearOrder.lift' rank rank_injective

theorem le_high (r : RiskLevel) : r ≤ .high := by
  cases r <;> decide

end RiskLevel

/-- `str::contains`. -/
def contains (s pat : Str) : Bool := decide (pat <:+: s)

/-- `matches_command_pattern`. -/
def matchesCommandPattern (segment pattern : Str) : Bool :=
  if pattern.contains ' ' then segment == pattern || (pattern ++ [' ']).isPrefixOf segment
  else (splitWhitespace segment).head?.getD [] == pattern

/-- A character at which a command is split. -/
def isSplit (c : Char) : Bool := c == '|' || c == '&' || c == ';'

/-- The segments of a command: its pieces without those that are blank. -/
def segments (command : Str) : List Str := ((command.splitOnP isSplit).map trim).filter fun s => !s.isEmpty

section Risk

variable (cm : CaseMap)

/-- The risk of one segment. -/
def segmentRisk (segment : Str) : RiskLevel :=
  let segLower := cm.lower segment
  if NEVER_AUTO_APPROVE_PATTERNS.any fun p => matchesCommandPattern segLower (cm.lower p) then .high
  else if LOW_RISK_PATTERNS.any (matchesCommandPattern segLower) then .low
  else if MEDIUM_RISK_PATTERNS.any (matchesCommandPattern segLower) then .medium
  else .medium

/-- `classify_command_risk`. -/
def classifyCommandRisk (command : Str) : RiskLevel := ((segments command).map (segmentRisk cm)).max?.getD .medium

variable (json : JsonText)

/-- `extract_command_param`. -/
def extractCommandParam (params : Json) : Option Str :=
  ((params.get "command".toList).bind Json.asStr).or
    ((params.asStr.bind fun s => (json.parse s).toOption).bind fun v => (v.get "command".toList).bind Json.asStr)

/-- `ShellTool::risk_level_for`. -/
def riskLevelFor (params : Json) : RiskLevel :=
  ((extractCommandParam json params).map (classifyCommandRisk cm)).getD .medium

/-- `ShellTool::requires_approval`. -/
def requiresApproval (params : Json) : ApprovalRequirement :=
  match riskLevelFor cm json params with
  | .low => .unlessAutoApproved
  | .medium => .unlessAutoApproved
  | .high => .always

end Risk

/-! ## Refused commands -/

/-- The loop of `str::match_indices`: `skip` characters of the last occurrence are still to be passed over. -/
def matchIndicesGo (pat : Str) : (skip i : Nat) → Str → List Nat
  | _, _, [] => []
  | skip + 1, i, _ :: cs => matchIndicesGo pat skip (i + 1) cs
  | 0, i, c :: cs =>
    if pat.isPrefixOf (c :: cs) then i :: matchIndicesGo pat (pat.length - 1) (i + 1) cs
    else matchIndicesGo pat 0 (i + 1) cs

def matchIndices (s pat : Str) : List Nat := matchIndicesGo pat 0 0 s

/-- `has_pipe_to`. -/
def hasPipeTo (lower shell : Str) : Bool :=
  ["| ".toList, "|".toList].any fun pre =>
    let pattern := pre ++ shell
    (matchIndices lower pattern).any fun i =>
      match lower[i + pattern.length]? with
      | none => true
      | some c => " \t\n;|&)".toList.contains c

/-- `contains_shell_pipe`. -/
def containsShellPipe (lower : Str) : Bool :=
  ["sh", "bash", "zsh", "dash", "/bin/sh", "/bin/bash"].any fun shell => hasPipeTo lower shell.toList

/-- `has_command_substitution`. -/
def hasCommandSubstitution (s : Str) : Bool := contains s "$(".toList || contains s "`".toList

/-- `has_command_token`. -/
def hasCommandToken (lower token : Str) : Bool :=
  (matchIndices lower token).any fun i =>
    if i = 0 then true
    else
      match lower[i - 1]? with
      | none => false
      | some before => " \t|;&\n(".toList.contains before

section Refused

variable (cm : CaseMap)

/-- `detect_command_injection`. -/
def detectCommandInjection (cmd : Str) : Option Str :=
  if cmd.contains (Char.ofNat 0) then some "null byte in command".toList
  else
    let lower := cm.lower cmd
    let has := fun (pat : String) => contains lower pat.toList
    let token := fun (pat : String) => hasCommandToken lower pat.toList
    if (has "base64 -d" || has "base64 --decode") && containsShellPipe lower then
      some "base64 decode piped to shell".toList
    else if (has "printf" || has "echo -e" || has "echo $'") && (has "\\x" || has "\\0") && containsShellPipe lower then
      some "encoded escape sequences piped to shell".toList
    else if (has "xxd -r" || token "od ") && containsShellPipe lower then some "binary decode piped to shell".toList
    else if (token "dig " || token "nslookup " || token "host ") && hasCommandSubstitution lower then
      some "potential DNS exfiltration via command substitution".toList
    else if (token "nc " || token "ncat " || token "netcat ") && (lower.contains '|' || lower.contains '<') then
      some "netcat with data piping".toList
    else if has "curl" &&
        (has "-d @" || has "-d@" || has "--data @" || has "--data-binary @" || has "--upload-file") then
      some "curl posting file contents".toList
    else if has "wget" && has "--post-file" then some "wget posting file contents".toList
    else if (has "| rev" || has "|rev") && containsShellPipe lower then some "string reversal piped to shell".toList
    else none

inductive SandboxPolicy
  | readOnly
  | workspaceWrite
  | fullAccess
  deriving DecidableEq

/-- What the tool asks the sandbox manager for. -/
structure SandboxManager where
  initialized : Bool
  enabled : Bool

structure ShellTool where
  workingDir : Option Str
  timeout : Nat
  allowDangerous : Bool
  sandbox : Option SandboxManager
  sandboxPolicy : SandboxPolicy

/-- `ShellTool::new`. -/
def ShellTool.new : ShellTool := ⟨none, DEFAULT_TIMEOUT, false, none, .readOnly⟩

/-- The patterns that the tool looks for. -/
def ShellTool.patterns (tool : ShellTool) : List Str :=
  BLOCKED_COMMANDS ++ if tool.allowDangerous then [] else DANGEROUS_PATTERNS

/-- `ShellTool::is_blocked`. -/
def ShellTool.isBlocked (tool : ShellTool) (cmd : Str) : Option Str :=
  let normalized := cm.lower cmd
  if BLOCKED_COMMANDS.any (contains normalized) then some "Command contains blocked pattern".toList
  else if !tool.allowDangerous && DANGEROUS_PATTERNS.any (contains normalized) then
    some "Command contains potentially dangerous pattern".toList
  else none

end Refused

/-! ## Running a command -/

/-- What a run does to the outside. -/
inductive Event
  | sandbox (cmd cwd : Str) (policy : SandboxPolicy)
  | spawn (program : Str) (args : List Str) (env : List (Str × Str)) (cwd : Str)
  deriving DecidableEq

/-- What the sandbox answers in time, if it does. -/
inductive SandboxOutcome
  | output (text : Str) (exitCode : Int)
  | failed (text : Str)
  | timedOut

/-- What becomes of a process; the outputs are what is left of the first `MAX_OUTPUT_SIZE` bytes. -/
inductive ProcessOutcome
  | notSpawned (text : Str)
  | exited (stdout stderr : Str) (code : Option Int)
  | failed (text : Str)
  | timedOut

/-- The surroundings of the tool. -/
structure World where
  currentDir : Option Str
  env : Str → Option Str
  sandbox : (cmd cwd : Str) → SandboxPolicy → (timeout : Nat) → SandboxOutcome
  process : (cmd cwd : Str) → (env : List (Str × Str)) → (timeout : Nat) → ProcessOutcome

/-- `truncate_output`. -/
def truncateOutput (s : Str) : Str :=
  if utf8Len s ≤ MAX_OUTPUT_SIZE then s
  else
    let half := MAX_OUTPUT_SIZE / 2
    takeBytes half s ++ "\n\n... [truncated ".toList ++ Nat.toDigits 10 (utf8Len s - MAX_OUTPUT_SIZE) ++
      " bytes] ...\n\n".toList ++ s.drop (takeBytes (utf8Len s - half) s).length

/-- `truncate_for_error`. -/
def truncateForError (s : Str) : Str := if s.length ≤ 100 then s else s.take 100 ++ "...".toList

section Run

variable (cm : CaseMap) (world : World) (tool : ShellTool)

/-- `ShellTool::execute_sandboxed`. -/
def executeSandboxed (cmd workdir : Str) (timeout : Nat) : Except ToolError (Str × Int) × List Event :=
  (match world.sandbox cmd workdir tool.sandboxPolicy timeout with
    | .output text exitCode => .ok (truncateOutput text, exitCode)
    | .failed text => .error (.executionFailed ("Sandbox error: ".toList ++ text))
    | .timedOut => .error (.timeout timeout),
    [.sandbox cmd workdir tool.sandboxPolicy])

/-- The two outputs of a process, with a line between them when there are both. -/
def combineOutput (stdout stderr : Str) : Str :=
  if stderr.isEmpty then stdout
  else if stdout.isEmpty then stderr
  else stdout ++ "\n\n--- stderr ---\n".toList ++ stderr

/-- `ShellTool::execute_direct`: only the safe variables and the extra ones are in the environment of the process. -/
def executeDirect (cmd workdir : Str) (timeout : Nat) (extraEnv : List (Str × Str)) :
    Except ToolError (Str × Int) × List Event :=
  let env := (SAFE_ENV_VARS.filterMap fun var => (world.env var).map fun val => (var, val)) ++ extraEnv
  (match world.process cmd workdir env timeout with
    | .notSpawned text => .error (.executionFailed ("Failed to spawn command: ".toList ++ text))
    | .exited stdout stderr code => .ok (truncateOutput (combineOutput stdout stderr), code.getD (-1))
    | .failed text => .error (.executionFailed ("Command execution failed: ".toList ++ text))
    | .timedOut => .error (.timeout timeout),
    [.spawn "sh".toList ["-c".toList, cmd] env workdir])

/-- `ShellTool::execute_command`. -/
def executeCommand (cmd : Str) (workdir : Option Str) (timeout : Option Nat) (extraEnv : List (Str × Str)) :
    Except ToolError (Str × Int) × List Event :=
  match tool.isBlocked cm cmd with
  | some reason => (.error (.notAuthorized (reason ++ ": ".toList ++ truncateForError cmd)), [])
  | none =>
    match detectCommandInjection cm cmd with
    | some reason =>
      (.error (.notAuthorized ("Command injection detected (".toList ++ reason ++ "): ".toList ++
        truncateForError cmd)), [])
    | none =>
      let cwd := (workdir.or tool.workingDir).getD (world.currentDir.getD ".".toList)
      let timeout := timeout.getD tool.timeout
      match tool.sandbox with
      | some sandbox =>
        if sandbox.initialized || sandbox.enabled then executeSandboxed world tool cmd cwd timeout
        else executeDirect world cmd cwd timeout extraEnv
      | none => executeDirect world cmd cwd timeout extraEnv

/-- `ShellTool::execute`. -/
def execute (params : Json) (extraEnv : List (Str × Str)) : Except ToolError Json × List Event :=
  match requireStr params "command".toList with
  | .error e => (.error e, [])
  | .ok command =>
    let workdir := (params.get "workdir".toList).bind Json.asStr
    let timeout := (params.get "timeout".toList).bind Json.asU64
    let run := executeCommand cm world tool command workdir timeout extraEnv
    (run.1.map fun out =>
      .obj [("exit_code".toList, .num (.int out.2)), ("output".toList, .str out.1),
        ("sandboxed".toList, .bool tool.sandbox.isSome), ("success".toList, .bool (out.2 == 0))],
      run.2)

/-- A command is refused, and nothing is run. -/
def Refused (r : Except ToolError (Str × Int) × List Event) : Prop :=
  (∃ reason, r.1 = .error (.notAuthorized reason)) ∧ r.2 = []

variable {cm world tool} {cmd : Str} (workdir : Option Str) (timeout : Option Nat) (extraEnv : List (Str × Str))

theorem executeCommand_refused (h : (tool.isBlocked cm cmd).isSome ∨ (detectCommandInjection cm cmd).isSome) :
    Refused (executeCommand cm world tool cmd workdir timeout extraEnv) := by
  unfold executeCommand
  cases hblocked : tool.isBlocked cm cmd with
  | some reason => exact ⟨⟨_, rfl⟩, rfl⟩
  | none =>
    cases hinjection : detectCommandInjection cm cmd with
    | some reason => exact ⟨⟨_, rfl⟩, rfl⟩
    | none =>
      rw [hblocked, hinjection] at h
      rcases h with h | h <;> cases h

/-- The log of a command that is not refused has one entry. -/
theorem executeCommand_passed (hblocked : tool.isBlocked cm cmd = none)
    (hinjection : detectCommandInjection cm cmd = none) :
    ¬Refused (executeCommand cm world tool cmd workdir timeout extraEnv) := by
  unfold executeCommand
  simp only [hblocked, hinjection]
  rintro ⟨-, hlog⟩
  split at hlog
  · split at hlog <;> cases hlog
  · cases hlog

/-- A command is refused exactly when a pattern or an injection is found in it. -/
theorem executeCommand_refused_iff :
    Refused (executeCommand cm world tool cmd workdir timeout extraEnv) ↔
      (tool.isBlocked cm cmd).isSome ∨ (detectCommandInjection cm cmd).isSome := by
  constructor
  · intro h
    by_contra hno
    rw [not_or, Option.not_isSome_iff_eq_none, Option.not_isSome_iff_eq_none] at hno
    exact executeCommand_passed workdir timeout extraEnv hno.1 hno.2 h
  · exact executeCommand_refused workdir timeout extraEnv

end Run

end Ironclaw.Tools.Shell

import Ironclaw.Lib.Text

/-!
# Submissions

What a message asks of the agent: `SubmissionParser::parse`, which knows the control commands and leaves everything else
as user input, and `Router::route_command` for user input that begins with a slash.
-/

namespace Ironclaw.Agent

open Text

/-- `str::split_whitespace`. -/
def splitWhitespace (s : Str) : List Str := (s.splitOnP isWhitespace).filter fun word => !word.isEmpty

inductive Submission
  | userInput (content : Str)
  | execApproval (requestId : Nat) (approved always : Bool)
  | approvalResponse (approved always : Bool)
  | interrupt
  | compact
  | undo
  | redo
  | resume (checkpointId : Nat)
  | clear
  | switchThread (threadId : Nat)
  | newThread
  | heartbeat
  | summarize
  | suggest
  | jobStatus (jobId : Option Str)
  | jobCancel (jobId : Str)
  | quit
  | systemCommand (command : Str) (args : List Str)
  deriving DecidableEq

/-- What the parser reads with: the case of letters, `Uuid::parse_str` and `serde_json::from_str::<Submission>`. -/
structure Readers where
  case : CaseMap
  parseUuid : Str → Option Nat
  fromJson : Str → Option Submission

namespace SubmissionParser

/-- The commands that are matched as a whole, and those with arguments after a name; the first that matches is taken. -/
def controlCommand (trimmed lower : Str) : Option Submission :=
  let args := (splitWhitespace trimmed).drop 1
  let is (words : List String) : Bool := (words.map String.toList).contains lower
  let starts (word : String) : Bool := word.toList.isPrefixOf lower
  let system (command : String) : Submission := .systemCommand command.toList []
  let rules : List (Bool × Submission) :=
    [ (is ["/undo"], .undo), (is ["/redo"], .redo), (is ["/interrupt", "/stop"], .interrupt),
      (is ["/compact"], .compact), (is ["/clear"], .clear), (is ["/heartbeat"], .heartbeat),
      (is ["/summarize", "/summary"], .summarize), (is ["/suggest"], .suggest),
      (is ["/thread new", "/new"], .newThread), (is ["/help", "/?"], system "help"),
      (is ["/version"], system "version"), (is ["/tools"], system "tools"), (is ["/skills"], system "skills"),
      (starts "/skills ", .systemCommand "skills".toList args), (is ["/ping"], system "ping"),
      (is ["/debug"], system "debug"),
      (is ["/reasoning"] || starts "/reasoning ", .systemCommand "reasoning".toList args),
      (is ["/restart"], system "restart"), (starts "/model", .systemCommand "model".toList args),
      (is ["/quit", "/exit", "/shutdown"], .quit) ]
  (rules.find? Prod.fst).map Prod.snd

/-- `/status`, `/progress`, `/list` and `/cancel`. -/
def jobCommand (lower : Str) : Option Submission :=
  if lower = "/status".toList ∨ lower = "/progress".toList then some (.jobStatus none)
  else
    match (((stripStart "/status ".toList lower).or (stripStart "/progress ".toList lower)).map trim).filter
        (!·.isEmpty) with
    | some id => some (.jobStatus (some id))
    | none =>
      if lower = "/list".toList then some (.jobStatus none)
      else (((stripStart "/cancel ".toList lower).map trim).filter (!·.isEmpty)).map .jobCancel

section Parse

variable (r : Readers)

/-- `/thread` and `/resume` with an id. -/
def idCommand (lower : Str) : Option Submission :=
  match (((stripStart "/thread ".toList lower).map trim).filter (· ≠ "new".toList)).bind r.parseUuid with
  | some id => some (.switchThread id)
  | none => ((stripStart "/resume ".toList lower).bind fun rest => r.parseUuid (trim rest)).map .resume

/-- A structured approval. -/
def jsonApproval (trimmed : Str) : Option Submission :=
  if "\x7b".toList.isPrefixOf trimmed then
    match r.fromJson trimmed with
    | some (.execApproval requestId approved always) => some (.execApproval requestId approved always)
    | _ => none
  else none

/-- The words for an approval. -/
def approvalWord (lower : Str) : Option Submission :=
  if lower ∈ ["yes", "y", "approve", "ok", "/approve", "/yes", "/y"].map String.toList then
    some (.approvalResponse true false)
  else if lower ∈ ["always", "a", "yes always", "approve always", "/always", "/a"].map String.toList then
    some (.approvalResponse true true)
  else if lower ∈ ["no", "n", "deny", "reject", "cancel", "/deny", "/no", "/n"].map String.toList then
    some (.approvalResponse false false)
  else none

def parse (content : Str) : Submission :=
  let trimmed := trim content
  let lower := r.case.lower trimmed
  let later := (jobCommand lower).or ((idCommand r lower).or ((jsonApproval r trimmed).or (approvalWord lower)))
  ((controlCommand trimmed lower).or later).getD (.userInput content)

end Parse

end SubmissionParser

/-! ## The router -/

inductive MessageIntent
  | createJob (title description : Str) (category : Option Str)
  | checkJobStatus (jobId : Option Str)
  | cancelJob (jobId : Str)
  | listJobs (filter : Option Str)
  | helpJob (jobId : Str)
  | chat (content : Str)
  | command (command : Str) (args : List Str)
  | unknown
  deriving DecidableEq

namespace Router

/-- The prefix of `Router::new`. -/
def COMMAND_PREFIX : Str := "/".toList

def parseCommand (case : CaseMap) (content : Str) : MessageIntent :=
  match splitWhitespace ((stripStart COMMAND_PREFIX content).getD content) with
  | [] => .unknown
  | first :: args =>
    let cmd := case.lower first
    if cmd = "job".toList ∨ cmd = "create".toList then
      let rest := join " ".toList args
      .createJob rest rest none
    else if cmd = "status".toList then .checkJobStatus args.head?
    else if cmd = "cancel".toList then
      match args.head? with
      | some jobId => .cancelJob jobId
      | none => .unknown
    else if cmd = "list".toList ∨ cmd = "jobs".toList then .listJobs args.head?
    else if cmd = "help".toList then
      match args.head? with
      | some jobId => .helpJob jobId
      | none => .command "help".toList []
    else .command cmd args

/-- `route_command`: nothing for a text that is no command. -/
def routeCommand (case : CaseMap) (content : Str) : Option MessageIntent :=
  let content := trim content
  if COMMAND_PREFIX.isPrefixOf content then some (parseCommand case content) else none

end Router

end Ironclaw.Agent

import Ironclaw.Session.Coherence

/-!
# Compaction

`ContextCompactor::compact` makes a thread shorter: it summarises the old turns and keeps the recent ones, or drops the
old turns, or moves them to the workspace. The language model, the workspace, the clock and the count of tokens are
parameters (`Compactor`); what was appended to the workspace, and whether it was taken, is kept in the outcome.

Whatever these answer, the thread that is left has the last turns of the thread that came in.

- `truncateTurns_eq`: keeping a number of turns is dropping the others;
- `compact_spec`: what each strategy leaves, and what it needs for that;
- `compact_keeps_suffix`: the law for every thread, strategy and outcome;
- `compact_archived`: turns that are moved to the workspace are in what was written there;
- `compact_is_processCompact`: the handlers see a compaction as a number of turns to keep.
-/

namespace Ironclaw.Session

open Text Llm

inductive CompactionStrategy
  | summarize (keepRecent : Nat)
  | truncate (keepRecent : Nat)
  | moveToWorkspace
  deriving DecidableEq

/-- What a compaction reaches outside of the thread. Without a workspace there is no `append`. -/
structure Compactor where
  json : JsonText
  replies : ReplyText
  llm : LlmProvider
  /-- `Workspace::append`, for a path and an entry. -/
  append : Option (Str → Str → Except Str Unit)
  /-- The time now, as `%Y-%m-%d` and as `%H:%M UTC`. -/
  date : Str
  clock : Str
  /-- `ContextBreakdown::analyze`, of which the total is read. -/
  totalTokens : List ChatMessage → Nat

/-- An entry for the workspace, and what came of it. -/
structure ArchiveWrite where
  path : Str
  entry : Str
  outcome : Except Str Unit

structure CompactionPartial where
  turnsRemoved : Nat
  summaryWritten : Bool
  summary : Option Str
  deriving DecidableEq

def CompactionPartial.empty : CompactionPartial := ⟨0, false, none⟩

structure CompactionResult where
  turnsRemoved : Nat
  tokensBefore : Nat
  tokensAfter : Nat
  summaryWritten : Bool
  summary : Option Str
  deriving DecidableEq

/-- What a compaction returns, the thread that it leaves, and what it wrote. -/
structure Compacted (α : Type) where
  result : Except Str α
  thread : Thread
  writes : List ArchiveWrite

/-! ## The texts -/

def SUMMARY_PROMPT : Str :=
  "Summarize the following conversation concisely. Focus on:\n- Key decisions made\n".toList ++
    "- Important information exchanged\n- Actions taken\n- Outcomes achieved\n\n".toList ++
    "Be brief but capture all important details. Use bullet points.".toList

/-- A message in the conversation that is to be summarised. -/
def formatMessage (m : ChatMessage) : Str :=
  match m.role with
  | .user => "User: ".toList ++ m.content
  | .assistant => "Assistant: ".toList ++ m.content
  | .system => "System: ".toList ++ m.content
  | .tool => "Tool ".toList ++ m.name.getD "unknown".toList ++ ": ".toList ++ m.content

/-- The messages of the old turns: what the user wrote, and the responses. -/
def toSummarize (turns : List Turn) : List ChatMessage :=
  turns.flatMap fun turn => ChatMessage.user turn.userInput :: (turn.response.map ChatMessage.assistant).toList

def formatTurn (turn : Turn) : Str :=
  "**Turn ".toList ++ Nat.toDigits 10 (turn.turnNumber + 1) ++ "**\n".toList ++
    "User: ".toList ++ turn.userInput ++ "\n".toList ++
    (turn.response.elim [] fun response => "Agent: ".toList ++ response ++ "\n".toList) ++
    if turn.toolCalls.isEmpty then []
    else "Tools: ".toList ++ join ", ".toList (turn.toolCalls.map fun tc => tc.name) ++ "\n".toList

def formatTurnsForStorage (turns : List Turn) : Str := join "\n".toList (turns.map formatTurn)

/-! ## The strategies -/

namespace Compactor

variable (c : Compactor)

/-- `Reasoning::complete`. -/
def complete (messages : List ChatMessage) (maxTokens : Nat) : Except Str Str :=
  (c.llm.complete messages maxTokens).map fun response => cleanReply c.replies response.content

def generateSummary (messages : List ChatMessage) : Except Str Str :=
  c.complete
    [.system SUMMARY_PROMPT,
      .user ("Please summarize this conversation:\n\n".toList ++ join "\n\n".toList (messages.map formatMessage))]
    1024

def dailyPath : Str := "daily/".toList ++ c.date ++ ".md".toList

def summaryEntry (summary : Str) : Str :=
  "\n## Context Summary (".toList ++ c.clock ++ ")\n\n".toList ++ summary ++ "\n".toList

def contextEntry (content : Str) : Str :=
  "\n## Archived Context (".toList ++ c.clock ++ ")\n\n".toList ++ content ++ "\n".toList

/-- `write_summary_to_workspace` and `write_context_to_workspace`, for an entry. -/
def write (append : Str → Str → Except Str Unit) (entry : Str) : ArchiveWrite :=
  ⟨c.dailyPath, entry, append c.dailyPath entry⟩

def compactTruncate (thread : Thread) (keepRecent : Nat) : CompactionPartial × Thread :=
  let after := thread.truncateTurns keepRecent
  (⟨thread.turns.length - after.turns.length, false, none⟩, after)

def compactWithSummary (thread : Thread) (keepRecent : Nat) : Compacted CompactionPartial :=
  if thread.turns.length ≤ keepRecent then ⟨.ok .empty, thread, []⟩
  else
    let turnsToRemove := thread.turns.length - keepRecent
    match c.generateSummary (toSummarize (thread.turns.take turnsToRemove)) with
    | .error e => ⟨.error e, thread, []⟩
    | .ok summary =>
      match c.append with
      | none => ⟨.ok ⟨turnsToRemove, false, some summary⟩, thread.truncateTurns keepRecent, []⟩
      | some append =>
        let write := c.write append (c.summaryEntry summary)
        match write.outcome with
        | .ok () => ⟨.ok ⟨turnsToRemove, true, some summary⟩, thread.truncateTurns keepRecent, [write]⟩
        -- what could not be archived is not dropped
        | .error _ => ⟨.ok ⟨0, false, some summary⟩, thread, [write]⟩

def compactToWorkspace (thread : Thread) : Compacted CompactionPartial :=
  match c.append with
  | none =>
    let (result, after) := compactTruncate thread 5
    ⟨.ok result, after, []⟩
  | some append =>
    let keepRecent := 10
    if thread.turns.length ≤ keepRecent then ⟨.ok .empty, thread, []⟩
    else
      let turnsToRemove := thread.turns.length - keepRecent
      let write := c.write append (c.contextEntry (formatTurnsForStorage (thread.turns.take turnsToRemove)))
      match write.outcome with
      | .ok () => ⟨.ok ⟨turnsToRemove, true, none⟩, thread.truncateTurns keepRecent, [write]⟩
      | .error _ => ⟨.ok ⟨0, false, none⟩, thread, [write]⟩

/-- The strategy, before the tokens are counted again. -/
def compactBy (thread : Thread) : CompactionStrategy → Compacted CompactionPartial
  | .summarize keepRecent => c.compactWithSummary thread keepRecent
  | .truncate keepRecent =>
    let (result, after) := compactTruncate thread keepRecent
    ⟨.ok result, after, []⟩
  | .moveToWorkspace => c.compactToWorkspace thread

/-- `ContextCompactor::compact`. -/
def compact (thread : Thread) (strategy : CompactionStrategy) : Compacted CompactionResult :=
  let tokensBefore := c.totalTokens (thread.messages c.json)
  let compacted := c.compactBy thread strategy
  { result := compacted.result.map fun r =>
      ⟨r.turnsRemoved, tokensBefore, c.totalTokens (compacted.thread.messages c.json), r.summaryWritten, r.summary⟩
    thread := compacted.thread
    writes := compacted.writes }

end Compactor

/-! ## Dropping turns -/

/-- The thread without its first turns. -/
def Thread.dropTurns (thread : Thread) (removed : Nat) : Thread :=
  if removed = 0 then thread else { thread with turns := renumber (thread.turns.drop removed) }

section Drop

variable (thread : Thread)

theorem dropTurns_zero : thread.dropTurns 0 = thread := if_pos rfl

theorem length_dropTurns (removed : Nat) : (thread.dropTurns removed).turns.length = thread.turns.length - removed := by
  unfold Thread.dropTurns
  split
  next h => rw [h, Nat.sub_zero]
  next => rw [Thread.renumber, List.length_mapIdx, List.length_drop]

/-- Keeping a number of turns is dropping the others. -/
theorem truncateTurns_eq (keep : Nat) : thread.truncateTurns keep = thread.dropTurns (thread.turns.length - keep) := by
  unfold Thread.truncateTurns Thread.dropTurns
  by_cases h : keep < thread.turns.length
  · have hne : thread.turns.length - keep ≠ 0 := by omega
    rw [if_pos h, if_neg hne]
  · have hzero : thread.turns.length - keep = 0 := by omega
    rw [if_neg h, if_pos hzero]

/-- Turns that are numbered by their places keep their numbers when nothing is dropped. -/
theorem renumber_of_numbered {turns : List Turn} (h : Numbered 0 turns) : Thread.renumber turns = turns := by
  refine List.ext_getElem? fun i => ?_
  rw [Thread.renumber, List.getElem?_mapIdx]
  cases hi : turns[i]? with
  | none => rfl
  | some turn =>
    have hnumber : turn.turnNumber = i := (h i turn hi).trans (Nat.zero_add i)
    rw [Option.map_some, ← hnumber]

theorem turns_dropTurns {thread : Thread} (h : Numbered 0 thread.turns) (removed : Nat) :
    (thread.dropTurns removed).turns = Thread.renumber (thread.turns.drop removed) := by
  unfold Thread.dropTurns
  split
  next hzero => rw [hzero, List.drop_zero, renumber_of_numbered h]
  next => rfl

end Drop

/-! ## What a strategy leaves -/

/-- A compaction of a thread drops the turns that it counts; it drops none when it fails, or when an entry was not taken
by the workspace. -/
structure Drops (thread : Thread) (compacted : Compacted CompactionPartial) : Prop where
  counted : ∀ r, compacted.result = .ok r →
    r.turnsRemoved ≤ thread.turns.length ∧ compacted.thread = thread.dropTurns r.turnsRemoved
  failed : ∀ e, compacted.result = .error e → compacted.thread = thread
  unwritten : ∀ write ∈ compacted.writes, ∀ e, write.outcome = .error e →
    ∃ r, compacted.result = .ok r ∧ r.turnsRemoved = 0 ∧ r.summaryWritten = false

section Strategies

variable (c : Compactor) (thread : Thread)

/-- A compaction that returns, and wrote nothing that was refused. -/
theorem drops_of_ok {compacted : Compacted CompactionPartial} {r : CompactionPartial} (hok : compacted.result = .ok r)
    (hle : r.turnsRemoved ≤ thread.turns.length) (hthread : compacted.thread = thread.dropTurns r.turnsRemoved)
    (hwrites : ∀ write ∈ compacted.writes, ∀ e, write.outcome = .error e → r.turnsRemoved = 0 ∧
      r.summaryWritten = false) :
    Drops thread compacted where
  counted r' hr' := by
    rw [hok] at hr'
    cases hr'
    exact ⟨hle, hthread⟩
  failed e he := by
    rw [hok] at he
    cases he
  unwritten write hwrite e he := ⟨r, hok, hwrites write hwrite e he⟩

theorem drops_empty : Drops thread ⟨.ok .empty, thread, []⟩ :=
  drops_of_ok thread rfl (Nat.zero_le _) (dropTurns_zero thread).symm fun _ h => by cases h

theorem drops_truncate (keepRecent : Nat) :
    Drops thread
      ⟨.ok (Compactor.compactTruncate thread keepRecent).1, (Compactor.compactTruncate thread keepRecent).2, []⟩ := by
  have hthread := truncateTurns_eq thread keepRecent
  have hremoved : thread.turns.length - (thread.truncateTurns keepRecent).turns.length =
      thread.turns.length - keepRecent := by
    rw [hthread, length_dropTurns]
    omega
  refine drops_of_ok thread rfl (Nat.sub_le _ _) ?_ fun _ h => by cases h
  show thread.truncateTurns keepRecent =
    thread.dropTurns (thread.turns.length - (thread.truncateTurns keepRecent).turns.length)
  rw [hremoved, hthread]

/-- The end of a strategy that archives: the turns go when the entry was taken. -/
theorem drops_write (keepRecent : Nat) (summary : Option Str) (write : ArchiveWrite) :
    Drops thread (match write.outcome with
      | .ok () => ⟨.ok ⟨thread.turns.length - keepRecent, true, summary⟩, thread.truncateTurns keepRecent, [write]⟩
      | .error _ => ⟨.ok ⟨0, false, summary⟩, thread, [write]⟩) := by
  split
  next hok =>
    refine drops_of_ok thread rfl (Nat.sub_le _ _) (truncateTurns_eq thread keepRecent) fun write' hwrite' e he => ?_
    rw [List.mem_singleton.mp hwrite', hok] at he
    cases he
  next =>
    exact drops_of_ok thread rfl (Nat.zero_le _) (dropTurns_zero thread).symm fun _ _ _ _ => ⟨rfl, rfl⟩

theorem drops_withSummary (keepRecent : Nat) : Drops thread (c.compactWithSummary thread keepRecent) := by
  unfold Compactor.compactWithSummary
  split
  · exact drops_empty thread
  · simp only
    split
    next e _ =>
      exact
        { counted := fun r hr => by cases hr
          failed := fun _ _ => rfl
          unwritten := fun _ h => by cases h }
    next summary _ =>
      split
      · exact drops_of_ok thread rfl (Nat.sub_le _ _) (truncateTurns_eq thread keepRecent) fun _ h => by cases h
      · exact drops_write thread keepRecent (some summary) _

theorem drops_toWorkspace : Drops thread (c.compactToWorkspace thread) := by
  unfold Compactor.compactToWorkspace
  split
  · exact drops_truncate thread 5
  · simp only
    split
    · exact drops_empty thread
    · exact drops_write thread 10 none _

theorem drops_by : ∀ strategy : CompactionStrategy, Drops thread (c.compactBy thread strategy)
  | .summarize keepRecent => drops_withSummary c thread keepRecent
  | .truncate keepRecent => drops_truncate thread keepRecent
  | .moveToWorkspace => drops_toWorkspace c thread

end Strategies

/-! ## The law of compaction -/

section Law

variable (c : Compactor) (thread : Thread) (strategy : CompactionStrategy)

/-- A result counts what its strategy counted. -/
theorem of_compact_ok {result : CompactionResult} (h : (c.compact thread strategy).result = .ok result) :
    ∃ r, (c.compactBy thread strategy).result = .ok r ∧ result.turnsRemoved = r.turnsRemoved ∧
      result.summaryWritten = r.summaryWritten := by
  simp only [Compactor.compact] at h
  cases hr : (c.compactBy thread strategy).result with
  | error e =>
    rw [hr] at h
    cases h
  | ok r =>
    rw [hr] at h
    cases h
    exact ⟨r, rfl, rfl, rfl⟩

theorem of_compact_error {e : Str} (h : (c.compact thread strategy).result = .error e) :
    (c.compactBy thread strategy).result = .error e := by
  simp only [Compactor.compact] at h
  cases hr : (c.compactBy thread strategy).result with
  | error e' =>
    rw [hr] at h
    cases h
    rfl
  | ok r =>
    rw [hr] at h
    cases h

/-- Every compaction leaves the thread without some of its first turns. -/
theorem compact_spec : ∃ removed ≤ thread.turns.length, (c.compact thread strategy).thread =
    thread.dropTurns removed := by
  have hdrops := drops_by c thread strategy
  cases hr : (c.compactBy thread strategy).result with
  | error e => exact ⟨0, Nat.zero_le _, (hdrops.failed e hr).trans (dropTurns_zero thread).symm⟩
  | ok r => exact ⟨r.turnsRemoved, hdrops.counted r hr⟩

/-- For every thread, strategy, number of turns to keep and outcome of the model and the workspace, a compaction changes
the turns of the thread only, and leaves the last of them, as many as it does not count as removed, with their numbers
set anew when any was removed; for turns that are numbered by their places, as those of every thread are, the numbers
are set anew in any case. When it fails, or when the workspace refuses what a strategy writes, the thread is
unchanged. -/
theorem compact_keeps_suffix :
    (c.compact thread strategy).thread = { thread with turns := (c.compact thread strategy).thread.turns } ∧
      (∀ result, (c.compact thread strategy).result = .ok result →
        result.turnsRemoved + (c.compact thread strategy).thread.turns.length = thread.turns.length ∧
        (c.compact thread strategy).thread.turns =
          (if result.turnsRemoved = 0 then thread.turns else Thread.renumber (thread.turns.drop result.turnsRemoved)) ∧
        (Numbered 0 thread.turns →
          (c.compact thread strategy).thread.turns = Thread.renumber (thread.turns.drop result.turnsRemoved))) ∧
      (∀ e, (c.compact thread strategy).result = .error e → (c.compact thread strategy).thread = thread) ∧
      ∀ write ∈ (c.compact thread strategy).writes, ∀ e, write.outcome = .error e →
        (c.compact thread strategy).thread = thread ∧
          ∃ result, (c.compact thread strategy).result = .ok result ∧ result.turnsRemoved = 0 ∧
            result.summaryWritten = false := by
  have hdrops := drops_by c thread strategy
  refine ⟨?_, fun result hresult => ?_, fun e he => hdrops.failed e (of_compact_error c thread strategy he), ?_⟩
  · obtain ⟨removed, -, hthread⟩ := compact_spec c thread strategy
    rw [hthread]
    unfold Thread.dropTurns
    split <;> rfl
  · obtain ⟨r, hr, hremoved, -⟩ := of_compact_ok c thread strategy hresult
    obtain ⟨hle, hthread⟩ := hdrops.counted r hr
    have hthread' : (c.compact thread strategy).thread = thread.dropTurns r.turnsRemoved := hthread
    rw [hremoved, hthread', length_dropTurns]
    refine ⟨Nat.add_sub_cancel' hle, ?_, fun hnumbered => turns_dropTurns hnumbered r.turnsRemoved⟩
    unfold Thread.dropTurns
    split <;> rfl
  · intro write hwrite e he
    obtain ⟨r, hr, hzero, hnot⟩ := hdrops.unwritten write hwrite e he
    refine ⟨?_, _, congrArg (Except.map _) hr, hzero, hnot⟩
    have hthread := (hdrops.counted r hr).2
    rw [hzero, dropTurns_zero] at hthread
    exact hthread

/-- A desk whose model answers with one text, and whose workspace has the given answer for every entry. -/
def clerk (outcome : Except Str Unit) : Compactor where
  json := desk.json
  replies := ⟨id, id, fun _ _ _ => false, fun _ => none, fun _ => false⟩
  llm :=
    ⟨fun _ _ => .ok ⟨"- weather".toList, 1, 1, .stop⟩, fun _ _ _ => .error "no tools".toList, .ok none⟩
  append := some fun _ _ => outcome
  date := "2025-01-01".toList
  clock := "00:00 UTC".toList
  totalTokens messages := messages.length

def twoTurns : Thread := ((Thread.new.startTurn "rain?".toList).completeTurn "no".toList).startTurn "sun?".toList

/-- Of two turns one is summarised; when the workspace is full both stay. -/
theorem compact_keeps_suffix_twoTurns :
    ((clerk (.ok ())).compact twoTurns (.summarize 1)).thread.turns =
      [{ Turn.new 0 "sun?".toList with turnNumber := 0 }] ∧
      ((clerk (.error "disk full".toList)).compact twoTurns (.summarize 1)).thread = twoTurns := by
  refine ⟨?_, ?_⟩
  · have hlaw := ((compact_keeps_suffix (clerk (.ok ())) twoTurns (.summarize 1)).2.1 _ rfl).2.2
    have hfirst : Numbered 0 ((Thread.new.startTurn "rain?".toList).completeTurn "no".toList).turns := by
      intro i turn hi
      cases i with
      | zero =>
        cases hi
        rfl
      | succ i => cases hi
    exact hlaw (numbered_concat hfirst _)
  · exact ((compact_keeps_suffix (clerk (.error "disk full".toList)) twoTurns (.summarize 1)).2.2.2 _
      (List.mem_singleton.mpr rfl) _ rfl).1

/-- What is dropped while there is a workspace was taken by it first: the summary, or the turns themselves. -/
theorem compact_archived {append : Str → Str → Except Str Unit} (hws : c.append = some append)
    {result : CompactionResult}
    (hresult : (c.compact thread strategy).result = .ok result) (hremoved : result.turnsRemoved ≠ 0) :
    (∃ keepRecent, strategy = .truncate keepRecent) ∨
      ∃ write ∈ (c.compact thread strategy).writes, write.outcome = .ok () ∧ result.summaryWritten = true ∧
        ((∃ summary, result.summary = some summary ∧ write.entry = c.summaryEntry summary) ∨
          write.entry = c.contextEntry (formatTurnsForStorage (thread.turns.take result.turnsRemoved))) := by
  cases strategy with
  | truncate keepRecent => exact .inl ⟨keepRecent, rfl⟩
  | summarize keepRecent =>
    simp only [Compactor.compact, Compactor.compactBy, Compactor.compactWithSummary, hws] at hresult ⊢
    split at hresult
    · cases hresult
      exact absurd rfl hremoved
    next hlong =>
      rw [if_neg hlong]
      split at hresult
      · cases hresult
      next summary hsummary =>
        split at hresult
        next hok =>
          cases hresult
          refine .inr ⟨c.write append (c.summaryEntry summary), ?_, hok, rfl, .inl ⟨summary, rfl, rfl⟩⟩
          exact List.mem_singleton.mpr rfl
        next =>
          cases hresult
          exact absurd rfl hremoved
  | moveToWorkspace =>
    simp only [Compactor.compact, Compactor.compactBy, Compactor.compactToWorkspace, hws] at hresult ⊢
    split at hresult
    · cases hresult
      exact absurd rfl hremoved
    next hlong =>
      rw [if_neg hlong]
      split at hresult
      next hok =>
        cases hresult
        refine .inr ⟨c.write append _, ?_, hok, rfl, .inr rfl⟩
        exact List.mem_singleton.mpr rfl
      next =>
        cases hresult
        exact absurd rfl hremoved

end Law

/-- The handlers see a compaction as a number of turns to keep, or as nothing. -/
theorem compact_is_processCompact (c : Compactor) (w : World) (strategy : CompactionStrategy) :
    ∃ keep, { w with thread := (c.compact w.thread strategy).thread } = processCompact w keep := by
  obtain ⟨removed, hle, hthread⟩ := compact_spec c w.thread strategy
  refine ⟨some (w.thread.turns.length - removed), ?_⟩
  rw [hthread, processCompact, Option.elim_some, truncateTurns_eq, Nat.sub_sub_self hle]

end Ironclaw.Session

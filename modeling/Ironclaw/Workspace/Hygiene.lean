import Ironclaw.Lib.Run
import Ironclaw.Workspace.Listing

/-!
# Memory hygiene

A pass deletes the files in `daily/` and `conversations/` that were not updated for some days. What it deletes comes
from the merged listing of all read scopes; the deletion brings the path into its normal form and acts on the user's own
scope. The passes of one process run one after the other, and a pass saves its time in a state file before it deletes
anything. Others change the documents between the two directories of a pass, not while one of them is cleaned.

- `mem_targets_iff`: which paths a pass takes for stale files, told by the documents;
- `mem_cleanup`: which documents a pass deletes;
- `deletable_iff`: when all of them are the user's own, in the directory, old, and no identity files;
- `hygieneLaw_iff`: for which runs this holds throughout, while no pass comes too early;
- `fresh_log_deleted`: a log of today that is deleted for an old one with a space behind its name.
-/

namespace Ironclaw.Workspace

open Text Run

/-- Dates and durations are in nanoseconds. -/
def HOUR : Int := 3600 * 10 ^ 9

def DAY : Int := 24 * HOUR

structure HygieneConfig where
  enabled : Bool
  dailyRetentionDays : Nat
  conversationRetentionDays : Nat
  cadenceHours : Nat
  stateDir : Str
  deriving DecidableEq

structure HygieneReport where
  dailyLogsDeleted : Nat
  conversationDocsDeleted : Nat
  skipped : Bool
  deriving DecidableEq

/-- What hygiene runs on. No date is before `minUtc`. -/
structure HygieneHost where
  storage : Storage
  cm : CaseMap
  minUtc : Int

namespace Hygiene

def HEARTBEAT : Str := "HEARTBEAT.md".toList
def README : Str := "README.md".toList

def IDENTITY_PATHS : List Str := [MEMORY, IDENTITY, SOUL, AGENTS, USER, HEARTBEAT, README, TOOLS, BOOTSTRAP]

/-- The part of a path behind the last slash. -/
def fileName (path : Str) : Str := path.rtakeWhile (· != '/')

def isIdentityPath (cm : CaseMap) (path : Str) : Bool :=
  let fileNameLower := cm.lower (fileName path)
  IDENTITY_PATHS.any fun p => cm.lower p == fileNameLower

/-- The directories that are cleaned, in this order. -/
inductive Directory
  | daily
  | conversations
  deriving DecidableEq

def Directory.path : Directory → Str
  | .daily => "daily/".toList
  | .conversations => "conversations/".toList

def Directory.retentionDays (config : HygieneConfig) : Directory → Nat
  | .daily => config.dailyRetentionDays
  | .conversations => config.conversationRetentionDays

/-- What fails while a directory is cleaned: its listing, and the deletion of some paths. -/
structure CleanupFault where
  listing : Bool
  deletion : Str → Bool

/-- `Workspace::delete`, or nothing when there is no document at the path. -/
def delete (w : Workspace) (docs : List DatedDocument) (path : Str) : Option (List DatedDocument) :=
  let path := normalizePath path
  let held := fun d : DatedDocument => d.userId == w.userId && d.agentId == w.agentId && d.path == path
  if docs.any held then some (docs.filter fun d => !held d) else none

/-! ## One directory -/

section Cleanup

variable (cm : CaseMap) (fault : CleanupFault) (w : Workspace) (dir : Str) (cutoff : Int)

/-- One entry of the listing. -/
def cleanupEntry (state : List DatedDocument × Nat) (entry : WorkspaceEntry) : List DatedDocument × Nat :=
  if entry.isDirectory then state
  else if isIdentityPath cm entry.path then state
  else
    match entry.updatedAt with
    | none => state
    | some updatedAt =>
      if updatedAt < cutoff then
        let path := if dir.isPrefixOf entry.path then entry.path else dir ++ entry.path
        if fault.deletion path then state
        else
          match delete w state.1 path with
          | none => state
          | some docs => (docs, state.2 + 1)
      else state

/-- The loop over the listing, with the number of deleted documents. -/
def cleanupLoop (entries : List WorkspaceEntry) (docs : List DatedDocument) : List DatedDocument × Nat :=
  entries.foldl (cleanupEntry cm fault w dir cutoff) (docs, 0)

end Cleanup

/-- The documents after `cleanup_daily_logs` or `cleanup_conversation_docs`, and the number of those deleted. -/
def cleanup (host : HygieneHost) (fault : CleanupFault) (w : Workspace) (directory : Directory) (cutoff : Int)
    (docs : List DatedDocument) : List DatedDocument × Nat :=
  if fault.listing then (docs, 0)
  else cleanupLoop host.cm fault w directory.path cutoff (w.list host.storage docs directory.path) docs

/-! ## The process -/

/-- A pass on its way, before the directory is cleaned. -/
structure RunningPass where
  workspace : Workspace
  config : HygieneConfig
  directory : Directory
  report : HygieneReport

/-- A pass that was due, with the time at which it saved its state, if it did. -/
structure Pass where
  stateDir : Str
  cadenceHours : Nat
  checkedAt : Int
  savedAt : Option Int

/-- A document that was deleted. -/
structure Deletion where
  workspace : Workspace
  config : HygieneConfig
  directory : Directory
  deletedAt : Int
  document : DatedDocument

/-- The documents, the times in the state files, the pass that holds the guard, and a record of what happened. -/
structure HygieneState where
  now : Int
  docs : List DatedDocument
  states : Str → Option Int
  running : Option RunningPass
  passes : List Pass
  deletions : List Deletion
  reports : List HygieneReport

/-- A process that starts. -/
def HygieneState.start (now : Int) (docs : List DatedDocument) (states : Str → Option Int) : HygieneState :=
  ⟨now, docs, states, none, [], [], []⟩

inductive HygieneEvent
  /-- Time goes by. -/
  | tick (d : Nat)
  /-- Others change the documents. -/
  | edit (docs : List DatedDocument)
  /-- `run_if_due` up to the first directory; some time passes between the check and the save, which may fail. -/
  | runIfDue (w : Workspace) (config : HygieneConfig) (pause : Nat) (saves : Bool)
  /-- The running pass cleans its next directory. -/
  | cleanup (fault : CleanupFault)

/-- The deletions of the documents of one list that are not in the other. -/
def deletionsOf (pass : RunningPass) (now : Int) (docs docs' : List DatedDocument) : List Deletion :=
  (docs.filter fun d => !docs'.contains d).map (Deletion.mk pass.workspace pass.config pass.directory now)

section Step

variable (host : HygieneHost)

/-- The state file says that the last pass was less than the cadence ago. -/
def recent (s : HygieneState) (config : HygieneConfig) : Bool :=
  match s.states config.stateDir with
  | none => false
  | some lastRun => s.now - lastRun < HOUR * config.cadenceHours

def runIfDue (s : HygieneState) (w : Workspace) (config : HygieneConfig) (pause : Nat) (saves : Bool) : HygieneState :=
  if !config.enabled || s.running.isSome || recent s config then { s with reports := s.reports ++ [⟨0, 0, true⟩] }
  else
    let saved := s.now + pause
    { s with
      now := saved
      states := if saves then Function.update s.states config.stateDir (some saved) else s.states
      running := some ⟨w, config, .daily, ⟨0, 0, false⟩⟩
      passes := s.passes ++ [⟨config.stateDir, config.cadenceHours, s.now, if saves then some saved else none⟩] }

/-- The next directory of the running pass. A cutoff before the first date there is ends the pass with a panic. -/
def cleanupNext (s : HygieneState) (pass : RunningPass) (fault : CleanupFault) : HygieneState :=
  let cutoff := s.now - DAY * pass.directory.retentionDays pass.config
  if cutoff < host.minUtc then { s with running := none }
  else
    let cleaned := cleanup host fault pass.workspace pass.directory cutoff s.docs
    let s := { s with docs := cleaned.1, deletions := s.deletions ++ deletionsOf pass s.now s.docs cleaned.1 }
    match pass.directory with
    | .daily =>
      { s with running := some { pass with
          directory := .conversations
          report := { pass.report with dailyLogsDeleted := cleaned.2 } } }
    | .conversations =>
      { s with
        running := none
        reports := s.reports ++ [{ pass.report with conversationDocsDeleted := cleaned.2 }] }

def step (s : HygieneState) : HygieneEvent → HygieneState
  | .tick d => { s with now := s.now + d }
  | .edit docs => { s with docs }
  | .runIfDue w config pause saves => runIfDue s w config pause saves
  | .cleanup fault =>
    match s.running with
    | none => s
    | some pass => cleanupNext host s pass fault

end Step

/-! ## What hygiene promises -/

/-- A document of the user's own scope, in the directory, no identity file, and older than the cutoff. -/
structure Deletable (cm : CaseMap) (w : Workspace) (dir : Str) (cutoff : Int) (d : DatedDocument) : Prop where
  user : d.userId = w.userId
  agent : d.agentId = w.agentId
  directory : dir <+: d.path
  identity : isIdentityPath cm d.path = false
  old : d.updatedAt < cutoff

/-- Every deleted document was deletable. -/
def AllDeletable (cm : CaseMap) (deletions : List Deletion) : Prop :=
  ∀ x ∈ deletions, Deletable cm x.workspace x.directory.path (x.deletedAt - DAY * x.directory.retentionDays x.config)
    x.document

/-- A pass is not due before the cadence has elapsed since an earlier one that saved its state. -/
def CadenceKept (passes : List Pass) : Prop :=
  passes.Pairwise fun p q => p.stateDir = q.stateDir → ∀ t ∈ p.savedAt, HOUR * q.cadenceHours ≤ q.checkedAt - t

structure HygieneLaw (cm : CaseMap) (s : HygieneState) : Prop where
  deletable : AllDeletable cm s.deletions
  cadence : CadenceKept s.passes

/-- A stale file, as the documents of the read scopes show it: some scope has it, no scope that has it takes it for a
directory, and all documents that are shown as it are older than the cutoff. -/
structure StaleFile (backend : Backend) (scopes : List (List DatedDocument)) (dir : Str) (cutoff : Int)
    (p : Str) : Prop where
  child : ∃ child, child ≠ [] ∧ '/' ∉ child ∧ p = dir ++ child
  held : ∃ docs ∈ scopes, ∃ d ∈ docs, Under p d.path
  file : ∀ docs ∈ scopes, (∃ d ∈ docs, Under p d.path) → ∀ d ∈ docs, backend.marks p d.path = false
  old : ∀ docs ∈ scopes, ∀ d ∈ docs, Under p d.path → d.updatedAt < cutoff

/-- Of the stale files that are deleted, each whose path is not its own normal form spares what is not deletable: the
document at the normal form, if there is one, is deletable as well. -/
def Spares (host : HygieneHost) (fault : CleanupFault) (w : Workspace) (directory : Directory) (cutoff : Int)
    (docs : List DatedDocument) : Prop :=
  fault.listing = false →
    ∀ p, StaleFile host.storage.backend (readScopes w docs) directory.path cutoff p → isIdentityPath host.cm p = false →
      fault.deletion p = false → normalizePath p ≠ p →
        ∀ d ∈ docs, d.userId = w.userId → d.agentId = w.agentId → d.path = normalizePath p →
          directory.path <+: d.path ∧ isIdentityPath host.cm d.path = false ∧ d.updatedAt < cutoff

/-- The condition on an event. -/
def SparesNext (host : HygieneHost) (s : HygieneState) : HygieneEvent → Prop
  | .cleanup fault => ∀ pass ∈ s.running,
    host.minUtc ≤ s.now - DAY * pass.directory.retentionDays pass.config →
      Spares host fault pass.workspace pass.directory (s.now - DAY * pass.directory.retentionDays pass.config) s.docs
  | _ => True

/-! ## What is taken for a stale file -/

theorem Directory.dirPrefix_path (directory : Directory) : dirPrefix (normalizeDirectory directory.path) =
    directory.path := by
  cases directory <;> decide

theorem Directory.plain (directory : Directory) : ∀ c ∈ directory.path, c ≠ '%' ∧ c ≠ '_' ∧ c ≠ '\\' := by
  have hall : directory.path.all (fun c => c ≠ '%' ∧ c ≠ '_' ∧ c ≠ '\\') = true := by cases directory <;> decide
  exact fun c hc => of_decide_eq_true (List.all_eq_true.mp hall c hc)

theorem Directory.slash_mem (directory : Directory) : '/' ∈ directory.path := by
  cases directory <;> decide

section Targets

variable (storage : Storage) (w : Workspace) (docs : List DatedDocument) (directory : Directory) (cutoff : Int)

theorem lists_directory :
    Lists storage.backend (readScopes w docs) directory.path (w.list storage docs directory.path) :=
  lists_list storage w docs directory.dirPrefix_path directory.plain directory.slash_mem

/-- An entry of the listing that is no directory and is dated before the cutoff. -/
def Target (p : Str) : Prop :=
  ∃ e ∈ w.list storage docs directory.path, e.path = p ∧ e.isDirectory = false ∧ ∃ t, e.updatedAt = some t ∧ t < cutoff

/-- The listing takes for stale files what the documents of the read scopes show to be such. -/
theorem mem_targets_iff (p : Str) :
    Target storage w docs directory cutoff p ↔
    StaleFile storage.backend (readScopes w docs) directory.path cutoff p := by
  have hlists := lists_directory storage w docs directory
  constructor
  · rintro ⟨e, he, rfl, hfile, t, ht, hold⟩
    obtain ⟨hchild, hsummary⟩ := hlists.sound e he
    obtain ⟨t', ht', ⟨scope, hscope, d, hd, hunder, -⟩, hlatest⟩ := hsummary.date
    obtain rfl : t' = t := Option.some.inj (ht'.symm.trans ht)
    refine ⟨hchild, ⟨scope, hscope, d, hd, hunder⟩, fun scope hscope hheld d hd => ?_,
      fun scope hscope d hd hunder => ?_⟩
    · rw [Bool.eq_false_iff] at hfile ⊢
      exact fun hmarks => hfile (hsummary.directory.mpr ⟨scope, hscope, hheld, d, hd, hmarks⟩)
    · exact (hlatest scope hscope d hd hunder).trans_lt hold
  · rintro ⟨⟨child, hne, hslash, rfl⟩, hheld, hfile, hold⟩
    obtain ⟨e, he, hpath⟩ := hlists.complete child hne hslash hheld
    have hsummary := (hlists.sound e he).2
    obtain ⟨t, ht, ⟨scope, hscope, d, hd, hunder, rfl⟩, -⟩ := hsummary.date
    refine ⟨e, he, hpath, ?_, _, ht, hold scope hscope d hd (hpath ▸ hunder)⟩
    rw [Bool.eq_false_iff]
    intro hdir
    obtain ⟨scope, hscope, hheld, d, hd, hmarks⟩ := hsummary.directory.mp hdir
    rw [hpath] at hheld hmarks
    rw [hfile scope hscope hheld d hd] at hmarks
    cases hmarks

end Targets

/-! ## What is deleted -/

section Gone

variable {cm : CaseMap} {fault : CleanupFault} {w : Workspace} {dir : Str} {cutoff : Int}

/-- The loop deletes the document of this entry. -/
structure Deletes (cm : CaseMap) (fault : CleanupFault) (cutoff : Int) (e : WorkspaceEntry) : Prop where
  file : e.isDirectory = false
  identity : isIdentityPath cm e.path = false
  old : ∃ t, e.updatedAt = some t ∧ t < cutoff
  works : fault.deletion e.path = false

/-- The user's document at the normal form of a path. -/
def At (w : Workspace) (p : Str) (d : DatedDocument) : Prop :=
  d.userId = w.userId ∧ d.agentId = w.agentId ∧ d.path = normalizePath p

theorem at_iff (p : Str) (d : DatedDocument) :
    (d.userId == w.userId && d.agentId == w.agentId && d.path == normalizePath p) = true ↔ At w p d := by
  simp [At, and_assoc]

theorem mem_delete {docs docs' : List DatedDocument} {p : Str} (h : delete w docs p = some docs') (d : DatedDocument) :
    d ∈ docs' ↔ d ∈ docs ∧ ¬At w p d := by
  unfold delete at h
  simp only at h
  split at h
  · cases h
    rw [List.mem_filter, Bool.not_eq_true', Bool.eq_false_iff, ← at_iff]
  · cases h

theorem not_at_of_delete {docs : List DatedDocument} {p : Str} (h : delete w docs p = none) :
    ∀ d ∈ docs, ¬At w p d := by
  unfold delete at h
  simp only at h
  split at h
  · cases h
  next hany => exact fun d hd hat => hany (List.any_eq_true.mpr ⟨d, hd, (at_iff p d).mpr hat⟩)

theorem mem_cleanupEntry {e : WorkspaceEntry} (hdir : dir <+: e.path) (state : List DatedDocument × Nat)
    (d : DatedDocument) :
    d ∈ (cleanupEntry cm fault w dir cutoff state e).1 ↔
    d ∈ state.1 ∧ ¬(Deletes cm fault cutoff e ∧ At w e.path d) := by
  have hpath : (if dir.isPrefixOf e.path then e.path else dir ++ e.path) = e.path :=
    if_pos (List.isPrefixOf_iff_prefix.mpr hdir)
  unfold cleanupEntry
  rw [hpath]
  split
  next hfile => exact ⟨fun h => ⟨h, fun hdel => by simp [hdel.1.file] at hfile⟩, And.left⟩
  next hfile =>
    split
    next hidentity => exact ⟨fun h => ⟨h, fun hdel => by simp [hdel.1.identity] at hidentity⟩, And.left⟩
    next hidentity =>
      split
      next hnone => exact ⟨fun h => ⟨h, fun hdel => by obtain ⟨t, ht, -⟩ := hdel.1.old; simp [hnone] at ht⟩, And.left⟩
      next t ht =>
        split
        next hold =>
          simp only
          split
          next hfails => exact ⟨fun h => ⟨h, fun hdel => by simp [hdel.1.works] at hfails⟩, And.left⟩
          next hworks =>
            have hdeletes : Deletes cm fault cutoff e :=
              ⟨Bool.eq_false_iff.mpr hfile, Bool.eq_false_iff.mpr hidentity, ⟨t, ht, hold⟩,
                Bool.eq_false_iff.mpr hworks⟩
            split
            next hnone => exact ⟨fun h => ⟨h, fun hdel => not_at_of_delete hnone d h hdel.2⟩, And.left⟩
            next docs' hsome =>
              rw [mem_delete hsome]
              exact and_congr_right fun _ => not_congr ⟨fun h => ⟨hdeletes, h⟩, And.right⟩
        next hold =>
          refine ⟨fun h => ⟨h, fun hdel => ?_⟩, And.left⟩
          obtain ⟨t', ht', hlt⟩ := hdel.1.old
          obtain rfl : t = t' := Option.some.inj (ht.symm.trans ht')
          exact hold hlt

/-- What the loop leaves, by induction on the listing. -/
theorem mem_cleanupLoop {entries : List WorkspaceEntry} (hdir : ∀ e ∈ entries, dir <+: e.path)
    (state : List DatedDocument × Nat) (d : DatedDocument) :
    d ∈ (entries.foldl (cleanupEntry cm fault w dir cutoff) state).1 ↔
      d ∈ state.1 ∧ ∀ e ∈ entries, ¬(Deletes cm fault cutoff e ∧ At w e.path d) := by
  induction entries generalizing state with
  | nil => simp
  | cons e entries ih =>
    rw [List.foldl_cons, ih (fun e' he' => hdir e' (List.mem_cons_of_mem e he')),
      mem_cleanupEntry (hdir e List.mem_cons_self), and_assoc, List.forall_mem_cons]

end Gone

section Sound

variable (host : HygieneHost) (fault : CleanupFault) (w : Workspace) (directory : Directory) (cutoff : Int)
  (docs : List DatedDocument)

/-- A document goes when it is the user's document at the normal form of a stale file. -/
theorem mem_cleanup (d : DatedDocument) : d ∈ (cleanup host fault w directory cutoff docs).1 ↔
    d ∈ docs ∧ (fault.listing = false → ∀ p,
      StaleFile host.storage.backend (readScopes w docs) directory.path cutoff p → isIdentityPath host.cm p = false →
        fault.deletion p = false → ¬At w p d) := by
  unfold cleanup
  split
  next hlisting => simp [hlisting]
  next hlisting =>
    have hdir : ∀ e ∈ w.list host.storage docs directory.path, directory.path <+: e.path := fun e he => by
      obtain ⟨⟨child, -, -, hpath⟩, -⟩ := (lists_directory host.storage w docs directory).sound e he
      exact ⟨child, hpath.symm⟩
    rw [cleanupLoop, mem_cleanupLoop hdir]
    refine and_congr_right fun _ => ⟨fun h _ p hstale hidentity hworks hat => ?_, fun h e he => ?_⟩
    · obtain ⟨e, he, rfl, hfile, hold⟩ := (mem_targets_iff host.storage w docs directory cutoff p).mpr hstale
      exact h e he ⟨⟨hfile, hidentity, hold, hworks⟩, hat⟩
    · rintro ⟨hdeletes, hat⟩
      have hstale := (mem_targets_iff host.storage w docs directory cutoff e.path).mp
        ⟨e, he, rfl, hdeletes.file, hdeletes.old⟩
      exact h (Bool.eq_false_iff.mpr hlisting) e.path hstale hdeletes.identity hdeletes.works hat

/-- The user's own document at a stale path is deletable: it is one of those that the listing told the age of. -/
theorem deletable_of_stale {p : Str} {d : DatedDocument}
    (hstale : StaleFile host.storage.backend (readScopes w docs) directory.path cutoff p)
    (hidentity : isIdentityPath host.cm p = false) (hd : d ∈ docs) (huser : d.userId = w.userId)
    (hagent : d.agentId = w.agentId) (hpath : d.path = p) : Deletable host.cm w directory.path cutoff d := by
  subst hpath
  have hscope : scopeDocs docs w.userId w.agentId ∈ readScopes w docs :=
    List.mem_map_of_mem (List.mem_of_mem_head? w.head)
  have hmem : d ∈ scopeDocs docs w.userId w.agentId := List.mem_filter.mpr ⟨hd, by simp [huser, hagent]⟩
  obtain ⟨child, -, -, hchild⟩ := hstale.child
  exact ⟨huser, hagent, ⟨child, hchild.symm⟩, hidentity, hstale.old _ hscope d hmem (.inl rfl)⟩

/-- The documents that go are deletable exactly when no document is mistaken for a stale one. -/
theorem deletable_iff : (∀ d ∈ docs, d ∉ (cleanup host fault w directory cutoff docs).1 →
    Deletable host.cm w directory.path cutoff d) ↔ Spares host fault w directory cutoff docs := by
  constructor
  · intro h hlisting p hstale hidentity hworks _ d hd huser hagent hpath
    have hgone : d ∉ (cleanup host fault w directory cutoff docs).1 := fun hmem =>
      ((mem_cleanup host fault w directory cutoff docs d).mp hmem).2 hlisting p hstale hidentity hworks
        ⟨huser, hagent, hpath⟩
    obtain ⟨-, -, hdir, hidentity', hold⟩ := h d hd hgone
    exact ⟨hdir, hidentity', hold⟩
  · intro h d hd hgone
    rw [mem_cleanup, not_and] at hgone
    have hnot := hgone hd
    simp only [not_forall, not_not] at hnot
    obtain ⟨hlisting, p, hstale, hidentity, hworks, huser, hagent, hpath⟩ := hnot
    by_cases hnormal : normalizePath p = p
    · exact deletable_of_stale host w directory cutoff docs hstale hidentity hd huser hagent (hpath.trans hnormal)
    · obtain ⟨hdir, hidentity', hold⟩ := h hlisting p hstale hidentity hworks hnormal d hd huser hagent hpath
      exact ⟨huser, hagent, hdir, hidentity', hold⟩

end Sound

/-! ## Runs -/

section Runs

variable (host : HygieneHost)

theorem allDeletable_append (cm : CaseMap) (before after : List Deletion) :
    AllDeletable cm (before ++ after) ↔ AllDeletable cm before ∧ AllDeletable cm after := List.forall_mem_append

theorem allDeletable_deletionsOf (cm : CaseMap) (pass : RunningPass) (now : Int) (docs docs' : List DatedDocument) :
    AllDeletable cm (deletionsOf pass now docs docs') ↔ ∀ d ∈ docs, d ∉ docs' →
      Deletable cm pass.workspace pass.directory.path (now - DAY * pass.directory.retentionDays pass.config) d := by
  rw [AllDeletable, deletionsOf, List.forall_mem_map]
  simp [List.mem_filter]

theorem deletions_cleanupNext (s : HygieneState) (pass : RunningPass) (fault : CleanupFault) :
    (cleanupNext host s pass fault).deletions =
      if s.now - DAY * pass.directory.retentionDays pass.config < host.minUtc then s.deletions
      else s.deletions ++ deletionsOf pass s.now s.docs (cleanup host fault pass.workspace pass.directory
        (s.now - DAY * pass.directory.retentionDays pass.config) s.docs).1 := by
  unfold cleanupNext
  simp only
  split
  · rfl
  · cases pass.directory <;> rfl

/-- What one event adds to the deletions is deletable exactly when it spares the others. -/
theorem allDeletable_step_iff (s : HygieneState) (e : HygieneEvent) :
    AllDeletable host.cm (step host s e).deletions ↔ AllDeletable host.cm s.deletions ∧ SparesNext host s e := by
  cases e with
  | tick d => simp [step, SparesNext]
  | edit docs => simp [step, SparesNext]
  | runIfDue w config pause saves =>
    simp only [step, runIfDue, SparesNext, and_true]
    split <;> rfl
  | cleanup fault =>
    simp only [step, SparesNext]
    cases hrunning : s.running with
    | none => simp
    | some pass =>
      simp only [Option.mem_some_iff, forall_eq', deletions_cleanupNext]
      split
      next hpanic => simp [not_le.mpr hpanic]
      next hpanic =>
        rw [allDeletable_append, allDeletable_deletionsOf, deletable_iff]
        exact and_congr_right fun _ => (imp_iff_right (not_lt.mp hpanic)).symm

/-! ### Cadence -/

/-- The state file of a pass that saved its state has this time or a later one, and no such time is in the future. -/
structure Claimed (s : HygieneState) : Prop where
  cadence : CadenceKept s.passes
  past : ∀ p ∈ s.passes, ∀ t ∈ p.savedAt, t ≤ s.now
  file : ∀ p ∈ s.passes, ∀ t ∈ p.savedAt, ∃ lastRun, s.states p.stateDir = some lastRun ∧ t ≤ lastRun

theorem claimed_runIfDue {s : HygieneState} (h : Claimed s) (w : Workspace) (config : HygieneConfig) (pause : Nat)
    (saves : Bool) : Claimed (runIfDue s w config pause saves) := by
  unfold runIfDue
  split
  next => exact ⟨h.cadence, h.past, h.file⟩
  next hdue =>
    have hrecent : recent s config = false := by
      rw [Bool.eq_false_iff]
      exact fun hrecent => hdue (by simp [hrecent])
    refine ⟨List.pairwise_append.mpr ⟨h.cadence, List.pairwise_singleton _ _, ?_⟩, ?_, ?_⟩
    · -- the file has the time of every earlier pass or a later one, and the pass was due by the file
      intro p hp q hq hdir t ht
      obtain rfl := List.mem_singleton.mp hq
      obtain ⟨lastRun, hlast, hle⟩ := h.file p hp t ht
      rw [hdir] at hlast
      simp only at hlast
      rw [recent, hlast] at hrecent
      have helapsed := of_decide_eq_false hrecent
      show HOUR * config.cadenceHours ≤ s.now - t
      omega
    · intro p hp t ht
      show t ≤ s.now + pause
      rcases List.mem_append.mp hp with hp | hp
      · have := h.past p hp t ht
        omega
      · obtain rfl := List.mem_singleton.mp hp
        cases saves with
        | true => exact (Option.mem_some_iff.mp ht).ge
        | false => cases ht
    · intro p hp t ht
      simp only
      rcases List.mem_append.mp hp with hold | hnew
      · obtain ⟨lastRun, hlast, hle⟩ := h.file p hold t ht
        have hpast := h.past p hold t ht
        cases saves with
        | false => exact ⟨lastRun, hlast, hle⟩
        | true =>
          by_cases hdir : p.stateDir = config.stateDir
          · exact ⟨s.now + pause, by simp [hdir], by omega⟩
          · exact ⟨lastRun, by simp [Function.update_of_ne hdir, hlast], hle⟩
      · obtain rfl := List.mem_singleton.mp hnew
        cases saves with
        | true => exact ⟨s.now + pause, by simp, (Option.mem_some_iff.mp ht).ge⟩
        | false => cases ht

theorem cleanupNext_keeps (s : HygieneState) (pass : RunningPass) (fault : CleanupFault) :
    (cleanupNext host s pass fault).passes = s.passes ∧ (cleanupNext host s pass fault).states = s.states ∧
      (cleanupNext host s pass fault).now = s.now := by
  unfold cleanupNext
  simp only
  split
  · exact ⟨rfl, rfl, rfl⟩
  · cases pass.directory <;> exact ⟨rfl, rfl, rfl⟩

theorem claimed_step {s : HygieneState} (h : Claimed s) (e : HygieneEvent) : Claimed (step host s e) := by
  cases e with
  | tick d =>
    refine ⟨h.cadence, fun p hp t ht => ?_, h.file⟩
    have := h.past p hp t ht
    show t ≤ s.now + d
    omega
  | edit docs => exact ⟨h.cadence, h.past, h.file⟩
  | runIfDue w config pause saves => exact claimed_runIfDue h w config pause saves
  | cleanup fault =>
    simp only [step]
    cases s.running with
    | none => exact h
    | some pass =>
      obtain ⟨hpasses, hstates, hnow⟩ := cleanupNext_keeps host s pass fault
      simp only
      exact ⟨hpasses ▸ h.cadence, by rw [hpasses, hnow]; exact h.past, by rw [hpasses, hstates]; exact h.file⟩

/-- What a run adds to the deletions, by induction on it. -/
theorem allDeletable_run_iff (events : List HygieneEvent) (s : HygieneState) :
    AllDeletable host.cm (run (step host) s events).deletions ↔
      AllDeletable host.cm s.deletions ∧ Along (step host) (SparesNext host) s events := by
  induction events generalizing s with
  | nil => simp
  | cons e events ih => rw [run_cons, ih, allDeletable_step_iff, along_cons, and_assoc]

/-- **The law of hygiene** holds in a run if and only if, whenever a directory is cleaned, no document is mistaken for a
stale file with white space at the end of its path. -/
theorem hygieneLaw_iff (now : Int) (docs : List DatedDocument) (states : Str → Option Int)
    (events : List HygieneEvent) :
    HygieneLaw host.cm (run (step host) (.start now docs states) events) ↔
      Along (step host) (SparesNext host) (.start now docs states) events := by
  have hstart : Claimed (.start now docs states) :=
    ⟨List.Pairwise.nil, (fun _ hp => nomatch hp), (fun _ hp => nomatch hp)⟩
  have hclaimed : Claimed (run (step host) (.start now docs states) events) :=
    run_inv_all (I := Claimed) (fun _ e h => claimed_step host h e) events hstart
  have hempty : AllDeletable host.cm (HygieneState.start now docs states).deletions := fun _ hx => nomatch hx
  have hdeletable := allDeletable_run_iff host events (.start now docs states)
  constructor
  · exact fun h => (hdeletable.mp h.deletable).2
  · exact fun h => ⟨hdeletable.mpr ⟨hempty, h⟩, hclaimed.cadence⟩

end Runs

/-! ## A log of today -/

/-- A log from the last century has a space behind its name; the log without the space is of today. -/
def spacedLog : DatedDocument := ⟨⟨"me".toList, none, "daily/x ".toList, []⟩, 0⟩

def todaysLog : DatedDocument := ⟨⟨"me".toList, none, "daily/x".toList, []⟩, 100 * 365 * DAY⟩

def exampleHost : HygieneHost := ⟨⟨.libsql, .plain⟩, asciiCase, -(10 ^ 30)⟩

def exampleConfig : HygieneConfig := ⟨true, 30, 7, 12, "state".toList⟩

def noFault : CleanupFault := ⟨false, fun _ => false⟩

def mistakenRun : HygieneState :=
  run (step exampleHost) (.start (100 * 365 * DAY) [spacedLog, todaysLog] fun _ => none)
    [.runIfDue (newWithDb "me".toList) exampleConfig 0 true, .cleanup noFault]

theorem fresh_log_deleted : ¬HygieneLaw asciiCase mistakenRun := by
  intro h
  have hmem : ∃ x ∈ mistakenRun.deletions, x.document = todaysLog ∧ x.deletedAt = 100 * 365 * DAY ∧
      x.config = exampleConfig ∧ x.directory = .daily := by
    decide +kernel
  obtain ⟨x, hx, hdocument, hat, hconfig, hdirectory⟩ := hmem
  have hold := (h.deletable x hx).old
  rw [hdocument, hat, hconfig, hdirectory] at hold
  revert hold
  decide

end Hygiene

end Ironclaw.Workspace

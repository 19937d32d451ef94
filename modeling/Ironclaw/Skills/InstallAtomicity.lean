import Ironclaw.Skills.Splitting
import Ironclaw.Skills.Trust

/-!
# What a refused install leaves behind

`install_skill` writes the file and then reads it again with all checks. Nothing takes the file away when a check fails.

- `sameFiles_write`: when a write changes the files;
- `loadNode_ok_iff`: when a file that was written is loaded;
- `install_atomic_iff`: a refused install leaves everything as it was exactly when it is refused before it writes, or
  when the file was there before.
-/

namespace Ironclaw.Skills

open Text

/-- What a node holds; who wrote a file does not count. -/
def Node.content : Node → Option (Option Str)
  | .file text _ => some text
  | .symlink => none

/-- The same files with the same contents. -/
def SameFiles (disk disk' : Disk) : Prop :=
  ∀ p : Path, (disk'.nodeAt p).map Node.content = (disk.nodeAt p).map Node.content

/-- A refused install leaves the registry and the files as they were. -/
def InstallAtomic (env : Env) (faults : Faults) (reg : SkillRegistry) (disk : Disk) (content : Str) : Prop :=
  ∀ e, (reg.installSkill env faults disk content).2.2 = .error e →
    (reg.installSkill env faults disk content).1 = reg ∧ SameFiles disk (reg.installSkill env faults disk content).2.1

/-! ## The conditions -/

/-- The directory of the skill can be made, and no file, link or directory is in the way of the skill file. -/
structure Writable (faults : Faults) (disk : Disk) (skillDir : Path) : Prop where
  created : faults.createDir = none
  noFile : ∀ e ∈ disk, e.1.isPrefixOf skillDir = true → e.2 = .symlink
  noLink : ∀ e ∈ disk, e.1.isPrefixOf (skillDir ++ [SKILL_MD]) = true → e.2 ≠ .symlink
  noDir : disk.isDir (skillDir ++ [SKILL_MD]) = false

/-- What is written of a text: all of it, or what was written when the write failed. -/
def writtenText (faults : Faults) (text : Str) : Option Str :=
  match faults.write with
  | none => some text
  | some (_, n) => n.map text.take

/-- The file can be read, it is not too large, its requirements are met, and it keeps its token budget. -/
structure PassesChecks (env : Env) (path : Path) (text : Str) (parsed : ParsedSkill) : Prop where
  readable : env.readFails path = none
  size : utf8Len text ≤ MAX_PROMPT_FILE_SIZE
  gating : (parsed.manifest.requires.map env.gatingFailures).getD [] = []
  budget : ¬(0 < parsed.manifest.activation.maxContextTokens ∧
    parsed.manifest.activation.maxContextTokens * 2 % 2 ^ 64 < utf8Len parsed.promptContent / 4)

/-- The install is refused before it writes, it cannot write, the file has its text already, or it passes all checks. -/
def LeavesNoTrace (env : Env) (faults : Faults) (reg : SkillRegistry) (disk : Disk) (content : Str) : Prop :=
  ∀ parsed, parseSkillMd env.yaml (normalizeLineEndings content) = .ok parsed → reg.has parsed.manifest.name = false →
    Writable faults disk (reg.userDir.join parsed.manifest.name) →
    ∀ text ∈ writtenText faults (normalizeLineEndings content),
      (disk.nodeAt (reg.userDir.join parsed.manifest.name ++ [SKILL_MD])).map Node.content = some (some (some text)) ∨
        faults.write = none ∧ PassesChecks env (reg.userDir.join parsed.manifest.name ++ [SKILL_MD])
          (normalizeLineEndings content) parsed

/-! ## Writing -/

section Write

variable {env : Env} {faults : Faults} {reg : SkillRegistry} {disk : Disk}

theorem nodeAt_write (p : Path) (node : Node) : (disk.write p node).nodeAt p = some node := by
  rw [Disk.nodeAt, Disk.write, List.lookup_cons, BEq.rfl]

theorem nodeAt_write_ne {p q : Path} (h : q ≠ p) (node : Node) : (disk.write p node).nodeAt q = disk.nodeAt q := by
  have hfilter : ∀ disk : Disk, (disk.filter fun e => e.1 ≠ p).lookup q = disk.lookup q := by
    intro disk
    induction disk with
    | nil => rfl
    | cons e disk ih =>
      obtain ⟨r, n⟩ := e
      by_cases hr : r = p
      · have hqr : (q == r) = false := beq_eq_false_iff_ne.mpr (hr ▸ h)
        rw [List.filter_cons_of_neg (by simpa using hr), ih, List.lookup_cons, hqr]
      · rw [List.filter_cons_of_pos (by simpa using hr), List.lookup_cons, List.lookup_cons, ih]
  rw [Disk.nodeAt, Disk.write, List.lookup_cons, beq_eq_false_iff_ne.mpr h, hfilter]
  rfl

/-- A write changes the files unless the text was there. -/
theorem sameFiles_write (p : Path) (text : Str) (installed : Bool) :
    SameFiles disk (disk.write p (.file (some text) installed)) ↔
      (disk.nodeAt p).map Node.content = some (some (some text)) := by
  constructor
  · intro h
    have hp := h p
    rw [nodeAt_write] at hp
    exact hp.symm
  · intro h q
    by_cases hq : q = p
    · subst hq
      rw [nodeAt_write, h]
      rfl
    · rw [nodeAt_write_ne hq]

/-- What a write of the skill file does. -/
theorem writeSkillFile_spec (skillDir : Path) (text : Str) :
    (¬Writable faults disk skillDir ∧ (writeSkillFile faults disk skillDir text).1 = disk) ∨
      (Writable faults disk skillDir ∧ writeSkillFile faults disk skillDir text =
        ((writtenText faults text).elim disk fun t => disk.write (skillDir ++ [SKILL_MD]) (.file (some t) true),
          match faults.write with
          | none => .ok ()
          | some (reason, _) => .error (.writeError (skillDir ++ [SKILL_MD]).display reason))) := by
  unfold writeSkillFile
  simp only
  split
  next reason hreason => exact .inl ⟨fun h => (by rw [h.created] at hreason; cases hreason), rfl⟩
  next hcreated =>
    split
    next hfile =>
      refine .inl ⟨fun h => ?_, rfl⟩
      obtain ⟨e, he, hcond⟩ := List.any_eq_true.mp hfile
      simp only [Bool.and_eq_true, decide_eq_true_eq] at hcond
      exact hcond.2 (h.noFile e he hcond.1)
    next hfile =>
      split
      next hlink =>
        refine .inl ⟨fun h => ?_, rfl⟩
        obtain ⟨e, he, hcond⟩ := List.any_eq_true.mp hlink
        simp only [Bool.and_eq_true, decide_eq_true_eq] at hcond
        exact h.noLink e he hcond.1 hcond.2
      next hlink =>
        split
        next hdir =>
          refine .inl ⟨fun h => ?_, rfl⟩
          rw [h.noDir] at hdir
          cases hdir
        next hdir =>
          refine .inr ⟨⟨?_, fun e he hpre => ?_, fun e he hpre hlink' => ?_, by simpa using hdir⟩, ?_⟩
          · cases hnone : faults.createDir with
            | none => rfl
            | some reason => exact absurd hnone (hcreated reason)
          · by_contra hne
            exact hfile (List.any_eq_true.mpr ⟨e, he, by simp [hpre, hne]⟩)
          · exact hlink (List.any_eq_true.mpr ⟨e, he, by simp [hpre, hlink']⟩)
          · unfold writtenText
            split
            next heq => rw [heq]; rfl
            next heq => rw [heq]; rfl
            next heq => rw [heq]; rfl

end Write

/-! ## Reading again -/

section Read

variable {env : Env}

/-- A file with a text that parses is loaded when it passes the checks, under the name in it. -/
theorem loadNode_ok_iff {path : Path} {trust : SkillTrust} {source : SkillSource} {text : Str} {installed : Bool}
    {parsed : ParsedSkill} (hparse : parseSkillMd env.yaml (normalizeLineEndings text) = .ok parsed) :
    (PassesChecks env path text parsed →
      ∃ sk, loadNode env path trust source (some (.file (some text) installed)) = .ok (parsed.manifest.name, sk)) ∧
    (¬PassesChecks env path text parsed →
      ∃ e, loadNode env path trust source (some (.file (some text) installed)) = .error e) := by
  cases hread : env.readFails path with
  | some reason =>
    refine ⟨fun h => ?_, fun _ => ⟨_, by simp only [loadNode, hread]; rfl⟩⟩
    rw [h.readable] at hread
    cases hread
  | none =>
    simp only [loadNode, hread]
    by_cases hsize : MAX_PROMPT_FILE_SIZE < utf8Len text
    · rw [if_pos hsize]
      exact ⟨fun h => absurd h.size (Nat.not_le.mpr hsize), fun _ => ⟨_, rfl⟩⟩
    rw [if_neg hsize]
    simp only [validateSkill, hparse, Except.mapError, bind, Except.bind]
    by_cases hgating : (parsed.manifest.requires.map env.gatingFailures).getD [] = []
    · by_cases hbudget : 0 < parsed.manifest.activation.maxContextTokens ∧
          parsed.manifest.activation.maxContextTokens * 2 % 2 ^ 64 < utf8Len parsed.promptContent / 4
      · refine ⟨fun h => absurd hbudget h.budget, fun _ => ⟨.tokenBudgetExceeded parsed.manifest.name
          (utf8Len parsed.promptContent / 4) parsed.manifest.activation.maxContextTokens, ?_⟩⟩
        simp only [hgating, hbudget, List.isEmpty_nil, Bool.not_true, Bool.false_eq_true, if_false, decide_true,
          Bool.and_self, if_true]
      · refine ⟨fun _ => ?_, fun h => absurd ⟨hread, Nat.not_lt.mp hsize, hgating, hbudget⟩ h⟩
        have hwithin : (decide (0 < parsed.manifest.activation.maxContextTokens) &&
            decide (parsed.manifest.activation.maxContextTokens * 2 % 2 ^ 64 < utf8Len parsed.promptContent / 4)) =
            false := by
          rw [← Bool.decide_and]
          exact decide_eq_false hbudget
        simp only [hgating, hwithin, List.isEmpty_nil, Bool.not_true, Bool.false_eq_true, if_false]
        exact ⟨_, rfl⟩
    · refine ⟨fun h => absurd h.gating hgating, fun _ => ?_⟩
      have hne : ((parsed.manifest.requires.map env.gatingFailures).getD []).isEmpty = false := by
        simpa using hgating
      simp only [hne, Bool.not_false, if_true]
      exact ⟨_, rfl⟩

end Read

/-! ## The install -/

section Install

variable {env : Env} {faults : Faults} {reg : SkillRegistry} {disk : Disk} {content : Str} {parsed : ParsedSkill}

/-- An install whose text parses and whose name is free, from what the write and the second reading do. -/
theorem installSkill_eq (hparse : parseSkillMd env.yaml (normalizeLineEndings content) = .ok parsed)
    (hfree : reg.has parsed.manifest.name = false) :
    reg.installSkill env faults disk content =
      match prepareInstallToDisk env faults disk reg.userDir parsed.manifest.name (normalizeLineEndings content) with
      | (disk, .error e) => (reg, disk, .error e)
      | (disk, .ok (name, skill)) =>
        match reg.commitInstall name skill with
        | (reg, .error e) => (reg, disk, .error e)
        | (reg, .ok ()) => (reg, disk, .ok name) := by
  rw [SkillRegistry.installSkill, hparse]
  exact if_neg (Bool.eq_false_iff.mp hfree)

/-- Whatever happens, an install that is refused leaves the registry as it was, and its files are those of the write. -/
theorem installSkill_refused_reg {e : SkillRegistryError}
    (hparse : parseSkillMd env.yaml (normalizeLineEndings content) = .ok parsed)
    (hfree : reg.has parsed.manifest.name = false) (h : (reg.installSkill env faults disk content).2.2 = .error e) :
    (reg.installSkill env faults disk content).1 = reg := by
  rw [installSkill_eq hparse hfree] at h ⊢
  generalize prepareInstallToDisk env faults disk reg.userDir parsed.manifest.name (normalizeLineEndings content) = r
    at h ⊢
  obtain ⟨disk', _ | ⟨name, skill⟩⟩ := r
  · rfl
  · by_cases hhas : reg.has name = true
    · simp only [SkillRegistry.commitInstall, hhas, if_true]
    · simp only [SkillRegistry.commitInstall, hhas, Bool.false_eq_true, if_false] at h
      cases h

theorem installSkill_disk (hparse : parseSkillMd env.yaml (normalizeLineEndings content) = .ok parsed)
    (hfree : reg.has parsed.manifest.name = false) :
    (reg.installSkill env faults disk content).2.1 =
      (writeSkillFile faults disk (reg.userDir.join parsed.manifest.name) (normalizeLineEndings content)).1 := by
  have hdisk :
    (prepareInstallToDisk env faults disk reg.userDir parsed.manifest.name (normalizeLineEndings content)).1 =
      _ := disk_prepareInstallToDisk reg.userDir parsed.manifest.name (normalizeLineEndings content)
  rw [installSkill_eq hparse hfree, ← hdisk]
  rcases prepareInstallToDisk env faults disk reg.userDir parsed.manifest.name (normalizeLineEndings content) with
    ⟨disk', _ | ⟨name, skill⟩⟩
  · rfl
  · by_cases hhas : reg.has name = true
    · simp only [SkillRegistry.commitInstall, hhas, if_true]
    · simp only [SkillRegistry.commitInstall, hhas, Bool.false_eq_true, if_false]

/-- Once the text is written, the install succeeds exactly when the file passes the checks. -/
theorem installSkill_written (hparse : parseSkillMd env.yaml (normalizeLineEndings content) = .ok parsed)
    (hfree : reg.has parsed.manifest.name = false)
    (hwrite : writeSkillFile faults disk (reg.userDir.join parsed.manifest.name) (normalizeLineEndings content) =
      (disk.write (reg.userDir.join parsed.manifest.name ++ [SKILL_MD])
        (.file (some (normalizeLineEndings content)) true), .ok ())) :
    (∃ e, (reg.installSkill env faults disk content).2.2 = .error e) ↔
      ¬PassesChecks env (reg.userDir.join parsed.manifest.name ++ [SKILL_MD])
        (normalizeLineEndings content) parsed := by
  have hparse' : parseSkillMd env.yaml (normalizeLineEndings (normalizeLineEndings content)) = .ok parsed := by
    rw [normalizeLineEndings_idem, hparse]
  have hprepare : prepareInstallToDisk env faults disk reg.userDir parsed.manifest.name (normalizeLineEndings content) =
      (disk.write (reg.userDir.join parsed.manifest.name ++ [SKILL_MD])
        (.file (some (normalizeLineEndings content)) true),
        loadNode env (reg.userDir.join parsed.manifest.name ++ [SKILL_MD]) .installed
          (.user (reg.userDir.join parsed.manifest.name))
              (some (.file (some (normalizeLineEndings content)) true))) := by
    simp only [prepareInstallToDisk, hwrite, nodeAt_write, Option.getD_some]
  by_cases hchecks : PassesChecks env (reg.userDir.join parsed.manifest.name ++ [SKILL_MD])
      (normalizeLineEndings content) parsed
  · obtain ⟨sk, hload⟩ := (loadNode_ok_iff hparse').1 hchecks
    rw [hload] at hprepare
    refine iff_of_false ?_ (not_not.mpr hchecks)
    rintro ⟨e, he⟩
    simp only [installSkill_eq hparse hfree, hprepare, SkillRegistry.commitInstall, hfree, Bool.false_eq_true,
      if_false] at he
    cases he
  · obtain ⟨e, hload⟩ := (loadNode_ok_iff hparse').2 hchecks
    rw [hload] at hprepare
    refine iff_of_true ⟨e, ?_⟩ hchecks
    simp only [installSkill_eq hparse hfree, hprepare]

/-- A write that fails is the error of the install. -/
theorem installSkill_write_fails {e : SkillRegistryError} {disk' : Disk}
    (hparse : parseSkillMd env.yaml (normalizeLineEndings content) = .ok parsed)
    (hfree : reg.has parsed.manifest.name = false)
    (hwrite : writeSkillFile faults disk (reg.userDir.join parsed.manifest.name) (normalizeLineEndings content) =
      (disk', .error e)) : (reg.installSkill env faults disk content).2.2 = .error e := by
  simp only [installSkill_eq hparse hfree, prepareInstallToDisk, hwrite]

theorem SameFiles.refl (disk : Disk) : SameFiles disk disk := fun _ => rfl

/-- **Atomic installs.** A refused install leaves the registry and the files as they were exactly when it is refused
before it writes, cannot write, or finds its text in place. -/
theorem install_atomic_iff (env : Env) (faults : Faults) (reg : SkillRegistry) (disk : Disk) (content : Str) :
    InstallAtomic env faults reg disk content ↔ LeavesNoTrace env faults reg disk content := by
  constructor
  · intro h parsed hparse hfree hwritable text htext
    have hdisk : (reg.installSkill env faults disk content).2.1 = _ := installSkill_disk hparse hfree
    rcases writeSkillFile_spec (reg.userDir.join parsed.manifest.name) (normalizeLineEndings content) with
      ⟨hnot, -⟩ | ⟨-, hwrite⟩
    · exact absurd hwritable hnot
    rw [Option.mem_def] at htext
    rw [htext, Option.elim_some] at hwrite
    have hsame : (∃ e, (reg.installSkill env faults disk content).2.2 = .error e) →
        (disk.nodeAt (reg.userDir.join parsed.manifest.name ++ [SKILL_MD])).map Node.content =
          some (some (some text)) := by
      rintro ⟨e, he⟩
      have hfiles := (h e he).2
      rw [hdisk, hwrite] at hfiles
      exact (sameFiles_write _ text true).mp hfiles
    cases hfault : faults.write with
    | none =>
      simp only [hfault] at hwrite
      simp only [writtenText, hfault] at htext
      obtain rfl := Option.some.inj htext
      by_cases hchecks : PassesChecks env (reg.userDir.join parsed.manifest.name ++ [SKILL_MD])
          (normalizeLineEndings content) parsed
      · exact .inr ⟨rfl, hchecks⟩
      · exact .inl (hsame ((installSkill_written hparse hfree hwrite).mpr hchecks))
    | some fault =>
      simp only [hfault] at hwrite
      exact .inl (hsame ⟨_, installSkill_write_fails hparse hfree hwrite⟩)
  · intro h e he
    cases hparse : parseSkillMd env.yaml (normalizeLineEndings content) with
    | error err =>
      simp only [SkillRegistry.installSkill, hparse]
      exact ⟨trivial, SameFiles.refl disk⟩
    | ok parsed =>
      cases hfree : reg.has parsed.manifest.name with
      | true =>
        simp only [SkillRegistry.installSkill, hparse, hfree, if_true]
        exact ⟨trivial, SameFiles.refl disk⟩
      | false =>
        refine ⟨installSkill_refused_reg hparse hfree he, ?_⟩
        rw [installSkill_disk hparse hfree]
        rcases writeSkillFile_spec (reg.userDir.join parsed.manifest.name) (normalizeLineEndings content) with
          ⟨-, hsame⟩ | ⟨hwritable, hwrite⟩
        · rw [hsame]
          exact SameFiles.refl disk
        · cases htext : writtenText faults (normalizeLineEndings content) with
          | none =>
            rw [hwrite, htext]
            exact SameFiles.refl disk
          | some text =>
            rcases h parsed hparse hfree hwritable text htext with hin | ⟨hfault, hchecks⟩
            · rw [hwrite, htext]
              exact (sameFiles_write _ text true).mpr hin
            · simp only [writtenText, hfault] at hwrite
              exact absurd hchecks ((installSkill_written hparse hfree hwrite).mp ⟨e, he⟩)

end Install

/-! ## A refused install -/

/-- A skill that needs a program. -/
def gatedManifest : SkillManifest := { plainManifest with requires := some ⟨["docker".toList], [], []⟩ }

/-- The program is missing. -/
def gatedEnv : Env :=
  { plainEnv with
    yaml := fun _ => .ok gatedManifest
    gatingFailures := fun r => r.bins.map fun bin => "required binary not found: ".toList ++ bin }

/-- The install is refused; its file stays, and a reload after the program was installed loads it. -/
theorem refused_install_stays :
    (emptyWorld.reg.installSkill gatedEnv noFaults [] notesMd).2.2 =
        .error (.gatingFailed "notes".toList "required binary not found: docker".toList) ∧
      (emptyWorld.reg.reload { gatedEnv with gatingFailures := fun _ => [] }
        (emptyWorld.reg.installSkill gatedEnv noFaults [] notesMd).2.1).2 = ["notes".toList] ∧
      ¬InstallAtomic gatedEnv noFaults emptyWorld.reg [] notesMd := by
  have hrefused : (emptyWorld.reg.installSkill gatedEnv noFaults [] notesMd).2.2 =
      .error (.gatingFailed "notes".toList "required binary not found: docker".toList) := by decide
  refine ⟨hrefused, by decide, fun h => ?_⟩
  have hfile := (h _ hrefused).2 ["skills".toList, "notes".toList, SKILL_MD]
  exact absurd hfile (by decide)

end Ironclaw.Skills

import Ironclaw.Skills.Registry

/-!
# Trust of installed skills

The trust of a skill is that of the directory it is found in. Files that installs write stay installed as long as they
lie outside the trusted directories; `install_skill` writes to the directory of the user, which is one of them.

- `trust_kept`: in a run whose installs write outside the trusted directories no installed skill becomes trusted;
- `install_skill_escalates`: an installed skill that is trusted after a reload.
-/

namespace Ironclaw.Skills

open Text Run

/-- The registry, the files, and the skills that were prepared and not yet committed. -/
structure World where
  reg : SkillRegistry
  disk : Disk
  prepared : List (Str × LoadedSkill)

inductive Label
  | installSkill (env : Env) (faults : Faults) (content : Str)
  /-- `prepare_install_to_disk` into `install_target_dir`. -/
  | prepareInstall (env : Env) (faults : Faults) (skillName content : Str)
  /-- `commit_install` of a skill that was prepared. -/
  | commitInstall (name : Str) (i : Nat)
  | removeSkill (faults : Faults) (name : Str)
  /-- `reload`, with the order in which the directories list their entries now. -/
  | reload (env : Env) (listing : Disk)

def step (w : World) : Label → World
  | .installSkill env faults content =>
    let r := w.reg.installSkill env faults w.disk content
    { w with reg := r.1, disk := r.2.1 }
  | .prepareInstall env faults skillName content =>
    let r := prepareInstallToDisk env faults w.disk w.reg.installTargetDir skillName content
    { w with disk := r.1, prepared := w.prepared ++ r.2.toOption.toList }
  | .commitInstall name i =>
    match w.prepared[i]? with
    | none => w
    | some p => { w with reg := (w.reg.commitInstall name p.2).1 }
  | .removeSkill faults name =>
    let r := w.reg.removeSkill faults w.disk name
    { w with reg := r.1, disk := r.2.1 }
  | .reload env listing => if listing.Perm w.disk then { w with reg := (w.reg.reload env listing).1 } else w

/-- Each skill whose text came in through an install has the trust of installed skills. -/
def NoEscalation (reg : SkillRegistry) : Prop := ∀ sk ∈ reg.skills, sk.installed = true → sk.trust = .installed

/-- The directories whose skills are trusted. -/
def SkillRegistry.trustedDirs (reg : SkillRegistry) : List Path := reg.userDir :: reg.workspaceDir.toList

/-- The path lies in no trusted directory. -/
def Outside (reg : SkillRegistry) (p : Path) : Prop := ∀ dir ∈ reg.trustedDirs, ¬dir <+: p

/-- The files that an install would write lie outside the trusted directories; `install_skill`, which writes to the
directory of the user, is refused before it writes. -/
def InstallsOutside (w : World) : Label → Prop
  | .installSkill env _ content => ∀ parsed, parseSkillMd env.yaml (normalizeLineEndings content) = .ok parsed →
      w.reg.has parsed.manifest.name = true
  | .prepareInstall _ _ skillName _ => Outside w.reg (w.reg.installTargetDir.join skillName ++ [SKILL_MD])
  | _ => True

/-- Nothing was installed yet. -/
structure Fresh (w : World) : Prop where
  skills : ∀ sk ∈ w.reg.skills, sk.installed = false
  disk : ∀ p text, (p, Node.file text true) ∉ w.disk
  prepared : w.prepared = []

/-- The invariant. -/
structure Held (w : World) : Prop where
  skills : NoEscalation w.reg
  prepared : ∀ p ∈ w.prepared, p.2.trust = .installed
  disk : ∀ p text, (p, Node.file text true) ∈ w.disk → Outside w.reg p

/-! ## The files of an install -/

section Files

variable {env : Env} {faults : Faults} {disk : Disk}

/-- A write adds one file at most. -/
theorem mem_writeSkillFile {dir : Path} {content : Str} {p : Path} {node : Node}
    (h : (p, node) ∈ (writeSkillFile faults disk dir content).1) :
    (p, node) ∈ disk ∨ p = dir ++ [SKILL_MD] := by
  have hwrite : ∀ (q : Path) (n : Node), (p, node) ∈ disk.write q n → (p, node) ∈ disk ∨ p = q := by
    intro q n hm
    rcases List.mem_cons.mp hm with hm | hm
    · exact .inr (Prod.mk.inj hm).1
    · exact .inl (List.mem_of_mem_filter hm)
  unfold writeSkillFile at h
  simp only at h
  split at h
  · exact .inl h
  split at h
  · exact .inl h
  split at h
  · exact .inl h
  split at h
  · exact .inl h
  split at h
  · exact .inl h
  · exact hwrite _ _ h
  · exact hwrite _ _ h

theorem disk_prepareInstallToDisk (dir : Path) (skillName content : Str) :
    (prepareInstallToDisk env faults disk dir skillName content).1 =
      (writeSkillFile faults disk (dir.join skillName) content).1 := by
  unfold prepareInstallToDisk
  simp only
  split
  next heq => rw [heq]
  next heq => rw [heq]

/-- A prepared skill has the trust of installed skills. -/
theorem trust_of_prepare {dir : Path} {skillName content : Str} {r : Str × LoadedSkill}
    (h : (prepareInstallToDisk env faults disk dir skillName content).2 = .ok r) : r.2.trust = .installed := by
  unfold prepareInstallToDisk at h
  simp only at h
  split at h
  · cases h
  · exact (loadNode_ok h).1

theorem mem_deleteSkillFiles {dir : Path} {e : Path × Node} (h : e ∈ (deleteSkillFiles faults disk dir).1) :
    e ∈ disk := by
  unfold deleteSkillFiles at h
  simp only at h
  split at h
  · split at h
    · exact h
    · split at h
      · exact h
      · exact List.mem_of_mem_filter h
  · exact h

end Files

/-! ## Steps -/

section Steps

variable {w : World}

/-- The directories stay as they are, so paths outside the trusted ones stay outside. -/
theorem outside_of_sameDirs {reg reg' : SkillRegistry} (h : SameDirs reg reg') {p : Path} (hp : Outside reg p) :
    Outside reg' p := by
  have htrusted : reg'.trustedDirs = reg.trustedDirs := by
    unfold SkillRegistry.trustedDirs
    rw [h.1, h.2.2]
  unfold Outside
  rw [htrusted]
  exact hp

theorem held_prepare {env : Env} {faults : Faults} {skillName content : Str} (h : Held w)
    (hout : Outside w.reg (w.reg.installTargetDir.join skillName ++ [SKILL_MD])) :
    Held (step w (.prepareInstall env faults skillName content)) := by
  refine ⟨h.skills, fun p hp => ?_, fun p text hp => ?_⟩
  · rcases List.mem_append.mp hp with hp | hp
    · exact h.prepared p hp
    · cases hr : (prepareInstallToDisk env faults w.disk w.reg.installTargetDir skillName content).2 with
      | error e =>
        rw [hr] at hp
        cases hp
      | ok r =>
        rw [hr] at hp
        obtain rfl : p = r := List.mem_singleton.mp hp
        exact trust_of_prepare hr
  · simp only [step] at hp
    rw [disk_prepareInstallToDisk] at hp
    rcases mem_writeSkillFile hp with hp | rfl
    · exact h.disk p text hp
    · exact hout

theorem held_commit {name : Str} {i : Nat} (h : Held w) : Held (step w (.commitInstall name i)) := by
  simp only [step]
  split
  · exact h
  next p hp =>
    unfold SkillRegistry.commitInstall
    split
    · exact h
    · refine ⟨fun sk hsk hi => ?_, h.prepared, fun q text hq => h.disk q text hq⟩
      rcases List.mem_append.mp hsk with hsk | hsk
      · exact h.skills sk hsk hi
      · rw [List.mem_singleton.mp hsk]
        exact h.prepared p (List.mem_of_getElem? hp)

theorem held_remove {faults : Faults} {name : Str} (h : Held w) : Held (step w (.removeSkill faults name)) := by
  have hcommit : ∀ sk ∈ (w.reg.commitRemove name).1.skills, sk ∈ w.reg.skills := by
    unfold SkillRegistry.commitRemove
    split
    · exact fun sk hsk => List.mem_of_mem_eraseP hsk
    · exact fun sk hsk => hsk
  have hdirs : SameDirs w.reg (w.reg.commitRemove name).1 := by
    unfold SkillRegistry.commitRemove
    split <;> exact ⟨rfl, rfl, rfl⟩
  simp only [step, SkillRegistry.removeSkill]
  split
  · exact h
  next dir _ =>
    have hdisk : ∀ p text, (p, Node.file text true) ∈ (deleteSkillFiles faults w.disk dir).1 → Outside w.reg p :=
      fun p text hp => h.disk p text (mem_deleteSkillFiles hp)
    split
    next disk e heq =>
      rw [heq] at hdisk
      exact ⟨h.skills, h.prepared, hdisk⟩
    next disk heq =>
      rw [heq] at hdisk
      exact ⟨fun sk hsk hi => h.skills sk (hcommit sk hsk) hi, h.prepared,
        fun p text hp => outside_of_sameDirs hdirs (hdisk p text hp)⟩

theorem held_reload {env : Env} {listing : Disk} (h : Held w) : Held (step w (.reload env listing)) := by
  simp only [step]
  split
  next hperm =>
    refine ⟨fun sk hsk hi => ?_, h.prepared, fun p text hp =>
      outside_of_sameDirs (sameDirs_reload w.reg) (h.disk p text hp)⟩
    rcases mem_reload hsk with ⟨dir, hdir, -, p, text, hp, hm⟩ | ⟨dir, -, htrust, -⟩
    · -- a file in a trusted directory was not written by an install
      rw [hi] at hm
      refine absurd hp (h.disk p text (hperm.mem_iff.mp hm) dir ?_)
      unfold SkillRegistry.trustedDirs
      rcases hdir with hdir | rfl
      · rw [hdir]
        exact List.mem_cons_of_mem _ (List.mem_singleton.mpr rfl)
      · exact List.mem_cons_self
    · exact htrust
  · exact h

/-- `install_skill` changes nothing when it is refused. -/
theorem installSkill_refused {env : Env} {faults : Faults} {content : Str}
    (h : ∀ parsed, parseSkillMd env.yaml (normalizeLineEndings content) = .ok parsed →
      w.reg.has parsed.manifest.name = true) :
    step w (.installSkill env faults content) = w := by
  simp only [step, SkillRegistry.installSkill]
  split
  · rfl
  next parsed hparse =>
    rw [if_pos (h parsed hparse)]

theorem held_step (l : Label) (hl : InstallsOutside w l) (h : Held w) : Held (step w l) := by
  cases l with
  | installSkill env faults content =>
    rw [installSkill_refused hl]
    exact h
  | prepareInstall env faults skillName content => exact held_prepare h hl
  | commitInstall name i => exact held_commit h
  | removeSkill faults name => exact held_remove h
  | reload env listing => exact held_reload h

theorem held_of_fresh (h : Fresh w) : Held w := by
  refine ⟨fun sk hsk hi => ?_, ?_, fun p text hp => absurd hp (h.disk p text)⟩
  · rw [h.skills sk hsk] at hi
    cases hi
  · rw [h.prepared]
    exact fun p hp => by cases hp

end Steps

/-- **Trust is kept.** In a run whose installs write outside the trusted directories, each skill that came in through an
install has the trust of installed skills. -/
theorem trust_kept (w : World) (ls : List Label) (hw : Fresh w) (h : Along step InstallsOutside w ls) :
    NoEscalation (run step w ls).reg :=
  (run_inv (fun _ l hl hi => held_step l hl hi) ls (held_of_fresh hw) h).skills

/-! ## A registry with its usual directories -/

def plainManifest : SkillManifest := ⟨"notes".toList, "1".toList, [], ⟨[], [], [], [], 0⟩, none⟩

def plainEnv : Env := ⟨fun _ => .ok plainManifest, asciiCase, id, fun _ => [], fun _ => false, fun _ => none⟩

def noFaults : Faults := ⟨none, none, none⟩

def notesMd : Str := "---\nname: notes\n---\nTake notes.".toList

/-- The directories of a fresh installation, `~/.ironclaw/skills` and `~/.ironclaw/installed_skills`. -/
def emptyWorld : World :=
  ⟨⟨[], ["skills".toList], some ["installed_skills".toList], none, 3⟩, [], []⟩

def notesFile (dir : String) : Path × Node :=
  ([dir.toList, "notes".toList, SKILL_MD], .file (some notesMd) true)

def installAndReload : List Label :=
  [.prepareInstall plainEnv noFaults "notes".toList notesMd, .commitInstall "notes".toList 0,
    .reload plainEnv [notesFile "installed_skills"]]

theorem fresh_emptyWorld : Fresh emptyWorld := by
  refine ⟨fun sk hsk => ?_, fun p text hp => ?_, rfl⟩
  · cases hsk
  · cases hp

theorem outside_install : Along step InstallsOutside emptyWorld installAndReload := by
  refine ⟨?_, trivial, trivial, trivial⟩
  unfold InstallsOutside Outside
  decide

theorem trust_kept_notes :
    (run step emptyWorld installAndReload).reg.skills.map (fun sk => (sk.installed, sk.trust)) = [(true, .installed)] ∧
      NoEscalation (run step emptyWorld installAndReload).reg :=
  ⟨by decide, trust_kept emptyWorld installAndReload fresh_emptyWorld outside_install⟩

/-- **A trusted installed skill.** `install_skill` writes to the directory of the user; a reload trusts what is
there. -/
theorem install_skill_escalates :
    ¬ NoEscalation (run step emptyWorld
      [.installSkill plainEnv noFaults notesMd, .reload plainEnv [notesFile "skills"]]).reg := by
  unfold NoEscalation
  decide

end Ironclaw.Skills

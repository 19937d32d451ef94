import Ironclaw.Lib.Run
import Ironclaw.Skills.Parser

/-!
# The skill registry

Skills are found in up to three directories: those of the workspace and of the user are trusted, those in the directory
of installed skills are not. A skill file is a path with its text; directories are the beginnings of these paths.

- `mem_discoverFromDir`, `mem_reload`: a skill that is found was read from a file in one of the directories, with the
  trust of that directory.
-/

namespace Ironclaw.Skills

open Text

/-! ## Files -/

/-- The components of an absolute path. -/
abbrev Path := List Str

def Path.display (p : Path) : Str := p.flatMap fun c => '/' :: c

/-- `Path::join` with a relative or an absolute path, read as the file system reads it. -/
def Path.join (dir : Path) (s : Str) : Path :=
  (s.splitOn '/').foldl
    (fun p c => if c = [] ∨ c = ".".toList then p else if c = "..".toList then p.dropLast else p ++ [c])
    (if s.head? = some '/' then [] else dir)

def SKILL_MD : Str := "SKILL.md".toList

/-- What is at a path: the text of a file, unless its bytes are not UTF-8, or a symbolic link, which leads out of the
skill directories. `installed` says that the file was written by an install; the program does not store it. -/
inductive Node
  | file (text : Option Str) (installed : Bool)
  | symlink
  deriving DecidableEq

/-- The files, in the order in which directories list them. -/
abbrev Disk := List (Path × Node)

namespace Disk

def nodeAt (disk : Disk) (p : Path) : Option Node := disk.lookup p

/-- There is a file below the path. -/
def isDir (disk : Disk) (p : Path) : Bool := disk.any fun e => p.isPrefixOf e.1 && p.length < e.1.length

/-- `try_exists`, for a path that is not a link. -/
def exist (disk : Disk) (p : Path) : Bool := (disk.nodeAt p).isSome || disk.isDir p

/-- The names in a directory. -/
def readDir (disk : Disk) (dir : Path) : List Str :=
  (disk.filterMap fun e => if dir.isPrefixOf e.1 then e.1[dir.length]? else none).eraseDups

def write (disk : Disk) (p : Path) (node : Node) : Disk := (p, node) :: disk.filter fun e => e.1 ≠ p

def remove (disk : Disk) (p : Path) : Disk := disk.filter fun e => e.1 ≠ p

end Disk

/-! ## Skills -/

inductive SkillSource
  | workspace (path : Path)
  | user (path : Path)
  | bundled (path : Path)
  deriving DecidableEq

/-- `LoadedSkill`; `installed` is that of the file it was read from. -/
structure LoadedSkill where
  manifest : SkillManifest
  promptContent : Str
  trust : SkillTrust
  source : SkillSource
  contentHash : Str
  lowercasedKeywords : List Str
  lowercasedExcludeKeywords : List Str
  lowercasedTags : List Str
  installed : Bool
  deriving DecidableEq

inductive SkillRegistryError
  | notFound (name : Str)
  | readError (path reason : Str)
  | parseError (name reason : Str)
  | fileTooLarge (name : Str) (size max : Nat)
  | symlinkDetected (path : Str)
  | gatingFailed (name reason : Str)
  | tokenBudgetExceeded (name : Str) (approxTokens declared : Nat)
  | alreadyExists (name : Str)
  | cannotRemove (name reason : Str)
  | writeError (path reason : Str)
  deriving DecidableEq

def SkillParseError.display : SkillParseError → Str
  | .missingFrontmatter => "Missing YAML frontmatter delimiters (expected `---` at start of file)".toList
  | .invalidYaml reason => "Invalid YAML frontmatter: ".toList ++ reason
  | .emptyPrompt => "Prompt body is empty (no content after frontmatter)".toList
  | .invalidName name =>
    "Invalid skill name '".toList ++ name ++ "': must match [a-zA-Z0-9][a-zA-Z0-9._-]\x7b0,63\x7d".toList

/-- The outside world during one operation: the YAML library, the case table, the hash, which requirements fail, and the
reads that fail. -/
structure Env where
  yaml : Yaml
  cm : CaseMap
  computeHash : Str → Str
  gatingFailures : GatingRequirements → List Str
  readDirFails : Path → Bool
  readFails : Path → Option Str

/-- The writes that fail, with the reason; a write that fails may have written a first part of the text. -/
structure Faults where
  createDir : Option Str
  write : Option (Str × Option Nat)
  removeFile : Option Str

def MAX_PROMPT_FILE_SIZE : Nat := 64 * 1024

def parseErrorOf (fallback : Str) (e : SkillParseError) : SkillRegistryError :=
  match e with
  | .invalidName name => .parseError name e.display
  | _ => .parseError fallback e.display

section Operations

variable (env : Env)

/-- The checks of a file that was read, and the skill in it. -/
def validateSkill (path : Path) (trust : SkillTrust) (source : SkillSource) (installed : Bool) (raw : Str) :
    Except SkillRegistryError (Str × LoadedSkill) := do
  let parsed ← (parseSkillMd env.yaml (normalizeLineEndings raw)).mapError (parseErrorOf path.display)
  let failures := (parsed.manifest.requires.map env.gatingFailures).getD []
  if !failures.isEmpty then .error (.gatingFailed parsed.manifest.name (join "; ".toList failures))
  else
    let approxTokens := utf8Len parsed.promptContent / 4
    let declared := parsed.manifest.activation.maxContextTokens
    if 0 < declared && declared * 2 % 2 ^ 64 < approxTokens then
      .error (.tokenBudgetExceeded parsed.manifest.name approxTokens declared)
    else
      .ok (parsed.manifest.name,
        { manifest := parsed.manifest
          promptContent := parsed.promptContent
          trust := trust
          source := source
          contentHash := env.computeHash parsed.promptContent
          lowercasedKeywords := parsed.manifest.activation.keywords.map env.cm.lower
          lowercasedExcludeKeywords := parsed.manifest.activation.excludeKeywords.map env.cm.lower
          lowercasedTags := parsed.manifest.activation.tags.map env.cm.lower
          installed := installed })

/-- `load_and_validate_skill`, for what is at the path. -/
def loadNode (path : Path) (trust : SkillTrust) (source : SkillSource) (node : Option Node) :
    Except SkillRegistryError (Str × LoadedSkill) :=
  match node, env.readFails path with
  | some .symlink, _ => .error (.symlinkDetected path.display)
  | none, _ => .error (.readError path.display "No such file or directory (os error 2)".toList)
  | some (.file _ _), some reason => .error (.readError path.display reason)
  | some (.file none _), none => .error (.readError path.display "Invalid UTF-8".toList)
  | some (.file (some raw) installed), none =>
    if MAX_PROMPT_FILE_SIZE < utf8Len raw then
      .error (.fileTooLarge path.display (utf8Len raw) MAX_PROMPT_FILE_SIZE)
    else validateSkill env path trust source installed raw

def loadAndValidateSkill (disk : Disk) (path : Path) (trust : SkillTrust) (source : SkillSource) :
    Except SkillRegistryError (Str × LoadedSkill) :=
  loadNode env path trust source (disk.nodeAt path)

/-! ## Discovery -/

section Discovery

variable (disk : Disk) (trust : SkillTrust) (makeSource : Path → SkillSource)

/-- The loop over the names in a directory; `nested` scans a directory without a skill file. -/
def scanEntries (nested : Nat → Path → List (Str × LoadedSkill)) (cap : Nat) (dir : Path) :
    List Str → (count : Nat) → List (Str × LoadedSkill)
  | [], _ => []
  | name :: names, count =>
    if cap ≤ count then []
    else
      let path := dir ++ [name]
      if disk.nodeAt path = some .symlink then scanEntries nested cap dir names count
      else if disk.isDir path then
        if disk.exist (path ++ [SKILL_MD]) then
          (loadAndValidateSkill env disk (path ++ [SKILL_MD]) trust (makeSource path)).toOption.toList ++
            scanEntries nested cap dir names (count + 1)
        else
          let found := nested (cap - count) path
          found ++ scanEntries nested cap dir names (count + found.length)
      else if name = SKILL_MD then
        (loadAndValidateSkill env disk path trust (makeSource dir)).toOption.toList ++
          scanEntries nested cap dir names (count + 1)
      else scanEntries nested cap dir names count

/-- `discover_from_dir`; the first argument is how many levels of bundles are still entered. -/
def discoverFromDir : (depth cap : Nat) → (dir : Path) → List (Str × LoadedSkill)
  | 0, cap, dir =>
    if env.readDirFails dir then
      [] else scanEntries env disk trust makeSource (fun _ _ => []) cap dir (disk.readDir dir) 0
  | depth + 1, cap, dir =>
    if env.readDirFails dir then []
    else scanEntries env disk trust makeSource (discoverFromDir depth) cap dir (disk.readDir dir) 0

end Discovery

structure SkillRegistry where
  skills : List LoadedSkill
  userDir : Path
  installedDir : Option Path
  workspaceDir : Option Path
  maxScanDepth : Nat

def MAX_DISCOVERED_SKILLS : Nat := 100

namespace SkillRegistry

/-- Skills with a new name are added; `loaded` are the names so far. -/
def absorb (reg : SkillRegistry) (loaded : List Str) : List (Str × LoadedSkill) → SkillRegistry × List Str
  | [] => (reg, loaded)
  | (name, skill) :: skills =>
    if loaded.contains name then absorb reg loaded skills
    else absorb { reg with skills := reg.skills ++ [skill] } (loaded ++ [name]) skills

/-- One of the directories is scanned, if there is room. -/
def discoverIn (disk : Disk) (trust : SkillTrust) (makeSource : Path → SkillSource) (dir : Option Path)
    (s : SkillRegistry × List Str) : SkillRegistry × List Str :=
  match dir with
  | none => s
  | some dir =>
    if s.2.length < MAX_DISCOVERED_SKILLS then
      s.1.absorb s.2
        (discoverFromDir env disk trust makeSource s.1.maxScanDepth (MAX_DISCOVERED_SKILLS - s.2.length) dir)
    else s

/-- `discover_all`. -/
def discoverAll (reg : SkillRegistry) (disk : Disk) : SkillRegistry × List Str :=
  let s := discoverIn env disk .trusted .workspace reg.workspaceDir (reg, [])
  let s := discoverIn env disk .trusted .user (some reg.userDir) s
  discoverIn env disk .installed .user reg.installedDir s

def reload (reg : SkillRegistry) (disk : Disk) : SkillRegistry × List Str :=
  discoverAll env { reg with skills := [] } disk

def has (reg : SkillRegistry) (name : Str) : Bool := reg.skills.any fun s => s.manifest.name = name

def findByName (reg : SkillRegistry) (name : Str) : Option LoadedSkill :=
  reg.skills.find? fun s => s.manifest.name = name

def installTargetDir (reg : SkillRegistry) : Path := reg.installedDir.getD reg.userDir

end SkillRegistry

/-! ## Install and remove -/

/-- What a write leaves behind. A path that goes through a link leads out of the skill directories. -/
def writeSkillFile (faults : Faults) (disk : Disk) (skillDir : Path) (content : Str) :
    Disk × Except SkillRegistryError Unit :=
  let skillPath := skillDir ++ [SKILL_MD]
  if let some reason := faults.createDir then (disk, .error (.writeError skillDir.display reason))
  else if disk.any fun e => e.1.isPrefixOf skillDir && e.2 ≠ .symlink then
    (disk, .error (.writeError skillDir.display "Not a directory (os error 20)".toList))
  else if disk.any fun e => e.1.isPrefixOf skillPath && e.2 = .symlink then (disk, .ok ())
  else if disk.isDir skillPath then (disk, .error (.writeError skillPath.display "Is a directory (os error 21)".toList))
  else
    match faults.write with
    | some (reason, none) => (disk, .error (.writeError skillPath.display reason))
    | some (reason, some n) =>
      (disk.write skillPath (.file (some (content.take n)) true), .error (.writeError skillPath.display reason))
    | none => (disk.write skillPath (.file (some content) true), .ok ())

/-- `prepare_install_to_disk`: the file is written and read again. -/
def prepareInstallToDisk (faults : Faults) (disk : Disk) (dir : Path) (skillName content : Str) :
    Disk × Except SkillRegistryError (Str × LoadedSkill) :=
  let skillDir := dir.join skillName
  let skillPath := skillDir ++ [SKILL_MD]
  match writeSkillFile faults disk skillDir content with
  | (disk, .error e) => (disk, .error e)
  | (disk, .ok ()) =>
    -- behind a link to a directory the file is where it was written
    let node := (disk.nodeAt skillPath).getD (.file (some content) true)
    (disk, loadNode env skillPath .installed (.user skillDir) (some node))

namespace SkillRegistry

def commitInstall (reg : SkillRegistry) (name : Str) (skill : LoadedSkill) :
    SkillRegistry × Except SkillRegistryError Unit :=
  if reg.has name then (reg, .error (.alreadyExists name)) else ({ reg with skills := reg.skills ++ [skill] }, .ok ())

/-- `install_skill`. -/
def installSkill (faults : Faults) (reg : SkillRegistry) (disk : Disk) (content : Str) :
    SkillRegistry × Disk × Except SkillRegistryError Str :=
  let normalized := normalizeLineEndings content
  match parseSkillMd env.yaml normalized with
  | .error e => (reg, disk, .error (parseErrorOf "(install)".toList e))
  | .ok parsed =>
    if reg.has parsed.manifest.name then (reg, disk, .error (.alreadyExists parsed.manifest.name))
    else
      match prepareInstallToDisk env faults disk reg.userDir parsed.manifest.name normalized with
      | (disk, .error e) => (reg, disk, .error e)
      | (disk, .ok (name, skill)) =>
        match reg.commitInstall name skill with
        | (reg, .error e) => (reg, disk, .error e)
        | (reg, .ok ()) => (reg, disk, .ok name)

/-- `validate_remove`: the directory of a skill that may be removed. -/
def validateRemove (reg : SkillRegistry) (name : Str) : Except SkillRegistryError Path :=
  match reg.findByName name with
  | none => .error (.notFound name)
  | some skill =>
    match skill.source with
    | .user path => .ok path
    | .workspace _ => .error (.cannotRemove name "workspace skills cannot be removed via this interface".toList)
    | .bundled _ => .error (.cannotRemove name "bundled skills cannot be removed".toList)

def commitRemove (reg : SkillRegistry) (name : Str) : SkillRegistry × Except SkillRegistryError Unit :=
  if reg.has name then ({ reg with skills := reg.skills.eraseP fun s => s.manifest.name = name }, .ok ())
  else (reg, .error (.notFound name))

end SkillRegistry

/-- `delete_skill_files`. -/
def deleteSkillFiles (faults : Faults) (disk : Disk) (path : Path) : Disk × Except SkillRegistryError Unit :=
  let skillMd := path ++ [SKILL_MD]
  if disk.exist skillMd then
    match faults.removeFile with
    | some reason => (disk, .error (.writeError skillMd.display reason))
    | none =>
      if disk.isDir skillMd then (disk, .error (.writeError skillMd.display "Is a directory (os error 21)".toList))
      else (disk.remove skillMd, .ok ())
  else (disk, .ok ())

/-- `remove_skill`. -/
def SkillRegistry.removeSkill (faults : Faults) (reg : SkillRegistry) (disk : Disk) (name : Str) :
    SkillRegistry × Disk × Except SkillRegistryError Unit :=
  match reg.validateRemove name with
  | .error e => (reg, disk, .error e)
  | .ok path =>
    match deleteSkillFiles faults disk path with
    | (disk, .error e) => (reg, disk, .error e)
    | (disk, .ok ()) => ((reg.commitRemove name).1, disk, (reg.commitRemove name).2)

/-! ## What is loaded -/

section Loaded

variable {env} {disk : Disk} {trust : SkillTrust} {makeSource : Path → SkillSource} {name : Str} {sk : LoadedSkill}

theorem Disk.mem_of_nodeAt {p : Path} {node : Node} (h : disk.nodeAt p = some node) : (p, node) ∈ disk := by
  obtain ⟨l₁, l₂, hl, -⟩ := List.lookup_eq_some_iff.mp h
  rw [hl]
  exact List.mem_append_right _ List.mem_cons_self

theorem validateSkill_ok {path : Path} {source : SkillSource} {installed : Bool} {raw : Str}
    (h : validateSkill env path trust source installed raw = .ok (name, sk)) :
    sk.trust = trust ∧ sk.installed = installed := by
  unfold validateSkill at h
  simp only [bind, Except.bind] at h
  split at h
  · cases h
  split at h
  · cases h
  split at h
  · cases h
  · obtain ⟨-, rfl⟩ := Prod.mk.inj (Except.ok.inj h)
    exact ⟨rfl, rfl⟩

/-- A skill that is loaded comes from a file, with the trust that was asked for. -/
theorem loadNode_ok {path : Path} {source : SkillSource} {node : Option Node}
    (h : loadNode env path trust source node = .ok (name, sk)) :
    sk.trust = trust ∧ ∃ text, node = some (.file text sk.installed) := by
  unfold loadNode at h
  split at h
  · cases h
  · cases h
  · cases h
  · cases h
  · split at h
    · cases h
    · obtain ⟨ht, hi⟩ := validateSkill_ok h
      exact ⟨ht, _, by rw [hi]⟩

/-- A skill was read from a file in the directory, with the trust of the directory. -/
def ReadFrom (disk : Disk) (trust : SkillTrust) (dir : Path) (sk : LoadedSkill) : Prop :=
  sk.trust = trust ∧ ∃ p text, dir <+: p ∧ (p, Node.file text sk.installed) ∈ disk

theorem ReadFrom.mono {dir dir' : Path} (h : ReadFrom disk trust dir' sk) (hdir : dir <+: dir') :
    ReadFrom disk trust dir sk := by
  obtain ⟨ht, p, text, hp, hm⟩ := h
  exact ⟨ht, p, text, hdir.trans hp, hm⟩

theorem readFrom_of_load {dir path : Path} {source : SkillSource} (hdir : dir <+: path)
    (h : (name, sk) ∈ (loadAndValidateSkill env disk path trust source).toOption.toList) :
    ReadFrom disk trust dir sk := by
  unfold loadAndValidateSkill at h
  cases hload : loadNode env path trust source (disk.nodeAt path) with
  | error e =>
    rw [hload] at h
    cases h
  | ok r =>
    rw [hload] at h
    obtain rfl : (name, sk) = r := List.mem_singleton.mp h
    obtain ⟨ht, text, hnode⟩ := loadNode_ok hload
    exact ⟨ht, path, text, hdir, Disk.mem_of_nodeAt hnode⟩

theorem mem_scanEntries {nested : Nat → Path → List (Str × LoadedSkill)} {cap : Nat} {dir : Path}
    (hnested : ∀ c p, (name, sk) ∈ nested c p → ReadFrom disk trust p sk) : ∀ (names : List Str) (count : Nat),
      (name, sk) ∈ scanEntries env disk trust makeSource nested cap dir names count → ReadFrom disk trust dir sk
  | [], _, h => by cases h
  | n :: names, count, h => by
    have hpath : dir <+: dir ++ [n] := List.prefix_append dir [n]
    simp only [scanEntries] at h
    split at h
    · cases h
    split at h
    · exact mem_scanEntries hnested names count h
    split at h
    · split at h
      · rcases List.mem_append.mp h with h | h
        · exact readFrom_of_load (hpath.trans (List.prefix_append _ [SKILL_MD])) h
        · exact mem_scanEntries hnested names _ h
      · rcases List.mem_append.mp h with h | h
        · exact (hnested _ _ h).mono hpath
        · exact mem_scanEntries hnested names _ h
    split at h
    · rcases List.mem_append.mp h with h | h
      · exact readFrom_of_load hpath h
      · exact mem_scanEntries hnested names _ h
    · exact mem_scanEntries hnested names count h

theorem mem_discoverFromDir : ∀ {depth cap : Nat} {dir : Path},
    (name, sk) ∈ discoverFromDir env disk trust makeSource depth cap dir → ReadFrom disk trust dir sk
  | 0, cap, dir, h => by
    rw [discoverFromDir] at h
    split at h
    · cases h
    · exact mem_scanEntries (fun c p hm => by cases hm) _ _ h
  | depth + 1, cap, dir, h => by
    rw [discoverFromDir] at h
    split at h
    · cases h
    · exact mem_scanEntries (fun c p hm => mem_discoverFromDir hm) _ _ h

/-- Only the list of skills changes. -/
def SameDirs (reg reg' : SkillRegistry) : Prop :=
  reg'.userDir = reg.userDir ∧ reg'.installedDir = reg.installedDir ∧ reg'.workspaceDir = reg.workspaceDir

theorem sameDirs_absorb : ∀ (skills : List (Str × LoadedSkill)) (loaded : List Str) (reg : SkillRegistry),
    SameDirs reg (reg.absorb loaded skills).1
  | [], _, _ => ⟨rfl, rfl, rfl⟩
  | (n, s) :: skills, loaded, reg => by
    rw [SkillRegistry.absorb]
    split
    · exact sameDirs_absorb skills loaded reg
    · exact sameDirs_absorb skills _ _

theorem mem_absorb : ∀ {skills : List (Str × LoadedSkill)} {loaded : List Str} {reg : SkillRegistry},
    sk ∈ (reg.absorb loaded skills).1.skills → sk ∈ reg.skills ∨ ∃ name, (name, sk) ∈ skills
  | [], _, _, h => .inl h
  | (n, s) :: skills, loaded, reg, h => by
    rw [SkillRegistry.absorb] at h
    split at h
    · rcases mem_absorb h with h | ⟨m, h⟩
      · exact .inl h
      · exact .inr ⟨m, List.mem_cons_of_mem _ h⟩
    · rcases mem_absorb h with h | ⟨m, h⟩
      · rcases List.mem_append.mp h with h | h
        · exact .inl h
        · rw [List.mem_singleton.mp h]
          exact .inr ⟨n, List.mem_cons_self⟩
      · exact .inr ⟨m, List.mem_cons_of_mem _ h⟩

/-- A skill after the scan of a directory was there before, or was read from the directory. -/
theorem mem_discoverIn {dir : Option Path} {s : SkillRegistry × List Str}
    (h : sk ∈ (SkillRegistry.discoverIn env disk trust makeSource dir s).1.skills) :
    sk ∈ s.1.skills ∨ ∃ d, dir = some d ∧ ReadFrom disk trust d sk := by
  unfold SkillRegistry.discoverIn at h
  split at h
  · exact .inl h
  next d =>
    split at h
    · rcases mem_absorb h with h | ⟨n, h⟩
      · exact .inl h
      · exact .inr ⟨d, rfl, mem_discoverFromDir h⟩
    · exact .inl h

theorem sameDirs_discoverIn {dir : Option Path} {s : SkillRegistry × List Str} :
    SameDirs s.1 (SkillRegistry.discoverIn env disk trust makeSource dir s).1 := by
  unfold SkillRegistry.discoverIn
  split
  · exact ⟨rfl, rfl, rfl⟩
  · split
    · exact sameDirs_absorb _ _ _
    · exact ⟨rfl, rfl, rfl⟩

theorem SameDirs.trans {reg reg' reg'' : SkillRegistry} (h : SameDirs reg reg') (h' : SameDirs reg' reg'') :
    SameDirs reg reg'' :=
  ⟨h'.1.trans h.1, h'.2.1.trans h.2.1, h'.2.2.trans h.2.2⟩

theorem sameDirs_reload (reg : SkillRegistry) : SameDirs reg (reg.reload env disk).1 :=
  (sameDirs_discoverIn.trans sameDirs_discoverIn).trans sameDirs_discoverIn

/-- A skill after a reload was read from one of the directories, with the trust of that directory. -/
theorem mem_reload {reg : SkillRegistry} (h : sk ∈ (reg.reload env disk).1.skills) :
    (∃ dir, (reg.workspaceDir = some dir ∨ dir = reg.userDir) ∧ ReadFrom disk .trusted dir sk) ∨
      ∃ dir, reg.installedDir = some dir ∧ ReadFrom disk .installed dir sk := by
  rcases mem_discoverIn h with h | ⟨dir, hdir, hread⟩
  · rcases mem_discoverIn h with h | ⟨dir, hdir, hread⟩
    · rcases mem_discoverIn h with h | ⟨dir, hdir, hread⟩
      · cases h
      · exact .inl ⟨dir, .inl hdir, hread⟩
    · exact .inl ⟨dir, .inr (Option.some.inj hdir).symm, hread⟩
  · exact .inr ⟨dir, hdir, hread⟩

end Loaded

end Operations

end Ironclaw.Skills

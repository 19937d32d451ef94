import Ironclaw.Lib.FileTree
import Ironclaw.Tools.Http

/-!
# Paths of the file tools

`validate_path` keeps the file tools under a base directory. A path that exists is resolved; of one that does not, the
nearest existing ancestor is. So a link above a new file is followed, but not one in its place: where that link leads to
nothing, the file is made at its target.

- `validatePath_iff`: what is returned, and the path that is checked for it;
- `nearest_spec`: the nearest existing ancestor;
- `contained_of_exists`, `contained_of_missing`: what the returned path touches;
- `contained_iff`: it stays under the base exactly if its last name is no link that makes a file elsewhere.
-/

namespace Ironclaw.Tools.PathUtils

open Text DotSegments FileTree

/-! ## Paths -/

/-- `PathBuf::from`. The empty text has no segment. -/
def ofStr (s : Str) : Path Str := ⟨s.head? == some '/', if s.isEmpty then [] else (s.splitOn '/').map ofText⟩

/-- `Path::join`. -/
def join (base path : Path Str) : Path Str :=
  if path.absolute then path
  else if !base.absolute && base.segments.isEmpty then path
  else ⟨base.absolute, base.segments ++ if path.segments.isEmpty then [.here] else path.segments⟩

/-- A path without dot segments. -/
structure Plain where
  absolute : Bool
  names : List Str
  deriving DecidableEq

def Plain.path (p : Plain) : Path Str := .names p.absolute p.names

/-- `Path::starts_with`. -/
def Plain.startsWith (p base : Plain) : Bool := p.absolute == base.absolute && base.names.isPrefixOf p.names

/-- `normalize_lexical`: the names are a stack, and above its bottom there is nothing. -/
def normalizeLexical (path : Path Str) : Plain := ⟨path.absolute, resolve path.segments⟩

/-! ## The check -/

/-- `is_path_safe_minimal`. -/
def isPathSafeMinimal (cm : CaseMap) (path : Str) : Bool :=
  if path.contains '\x00' then false
  else
    let lower := cm.lower path
    !((find "%2e".toList lower).isSome || (find "%2f".toList lower).isSome || (find "%5c".toList lower).isSome)

section Validate

variable (cm : CaseMap) (fs : Fs Str) (limit : Nat)

/-- `canonicalize().unwrap_or_else(..)`. -/
def canonicalOr (path : Path Str) (fallback : Plain) : Plain :=
  match fs.canonicalize limit path with
  | some loc => ⟨true, loc⟩
  | none => fallback

/-- The place of an ancestor, with the tail after it. -/
def rejoin (ancestor : Plain) (tail : List Str) : Plain :=
  let canonicalAncestor := canonicalOr fs limit ancestor.path ancestor
  ⟨canonicalAncestor.absolute, canonicalAncestor.names ++ tail⟩

/-- The loop up to the nearest existing ancestor, whose names are in reverse. -/
def nearest (resolved : Plain) : List Str → List Str → Plain
  | [], tail =>
    if fs.exists limit (Plain.path ⟨resolved.absolute, []⟩) then
      rejoin fs limit ⟨resolved.absolute, []⟩ tail else resolved
  | name :: rev, tail =>
    if fs.exists limit (Plain.path ⟨resolved.absolute, (name :: rev).reverse⟩) then
      rejoin fs limit ⟨resolved.absolute, (name :: rev).reverse⟩ tail
    else nearest resolved rev (name :: tail)

/-- The path that is compared with the base. -/
def checkPath (resolved : Plain) : Plain :=
  if fs.exists limit resolved.path then canonicalOr fs limit resolved.path resolved
  else nearest fs limit resolved resolved.names.reverse []

/-- `validate_path`. -/
def validatePath (pathStr : Str) (baseDir : Option (Path Str)) : Except ToolError Plain :=
  if !isPathSafeMinimal cm pathStr then
    .error (.notAuthorized ("Path contains forbidden characters or sequences: ".toList ++ pathStr))
  else
    let path := ofStr pathStr
    let resolved :=
      if path.absolute then canonicalOr fs limit path (normalizeLexical path)
      else
        match baseDir with
        | some base => canonicalOr fs limit (join base path) (normalizeLexical (join base path))
        | none => normalizeLexical (join (.names true fs.cwd) path)
    match baseDir with
    | none => .ok resolved
    | some base =>
      if (checkPath fs limit resolved).startsWith (canonicalOr fs limit base (normalizeLexical base)) then .ok resolved
      else .error (.notAuthorized ("Path escapes sandbox: ".toList ++ pathStr))

end Validate

/-! ## What a path touches -/

section Touches

variable (fs : Fs Str) (limit : Nat)

/-- The places that opening a path, creating it or making the directories on its way touches; links are followed. -/
inductive Touches (r : Plain) : Loc Str → Prop
  | opens {loc : Loc Str} {left : Nat} (h : fs.resolve limit r.path = .found loc left) : Touches r loc
  | creates {loc : Loc Str} (h : fs.resolve limit r.path = .absent loc) : Touches r loc
  | makes {dir rest made : List Str} {name : Str} {place : Loc Str} {left : Nat}
      (hnames : r.names = dir ++ name :: rest)
      (hdir : walk fs limit (Path.start (.names r.absolute dir) fs.cwd) (dir.map .name) = .found place left)
      (hplace : fs.node place = some .dir) (hnone : fs.node (place ++ [name]) = none) (hmade : made <+: name :: rest) :
      Touches r (place ++ made)

/-- The path is not there, and its last name, once it is normalized, is a link under the base whose target is missing
and would be made elsewhere. -/
def Escapes (path : Path Str) (base : Loc Str) : Prop :=
  fs.canonicalize limit path = none ∧ ∃ dir name place target loc,
    (normalizeLexical path).names = dir ++ [name] ∧
      fs.canonicalize limit (Plain.path ⟨path.absolute, dir⟩) = some place ∧ base <+: place ∧
        fs.node (place ++ [name]) = some (.link target) ∧
          fs.resolve limit (normalizeLexical path).path = .absent loc ∧ ¬base <+: loc

end Touches

/-! ## What is returned -/

section Returned

variable {cm : CaseMap} {fs : Fs Str} {limit : Nat} {base : Path Str} {B : Loc Str}

/-- The path that is returned, if it passes the check. -/
def resolved (fs : Fs Str) (limit : Nat) (path : Path Str) : Plain := canonicalOr fs limit path (normalizeLexical path)

theorem canonicalOr_some {path : Path Str} {place : Loc Str} (h : fs.canonicalize limit path = some place) (p : Plain) :
    canonicalOr fs limit path p = ⟨true, place⟩ := by
  rw [canonicalOr, h]

theorem validatePath_iff {pathStr : Str} {r : Plain} (hbase : fs.canonicalize limit base = some B) :
    validatePath cm fs limit pathStr (some base) = .ok r ↔ isPathSafeMinimal cm pathStr = true ∧
      r = resolved fs limit (join base (ofStr pathStr)) ∧ (checkPath fs limit r).absolute = true ∧
        B <+: (checkPath fs limit r).names := by
  have hresolved :
    (if (ofStr pathStr).absolute then canonicalOr fs limit (ofStr pathStr) (normalizeLexical (ofStr pathStr))
      else canonicalOr fs limit (join base (ofStr pathStr)) (normalizeLexical (join base (ofStr pathStr)))) =
        resolved fs limit (join base (ofStr pathStr)) := by
    split
    next habsolute => rw [resolved, join, if_pos habsolute]
    next => rfl
  unfold validatePath
  simp only [hresolved, canonicalOr_some hbase]
  constructor
  · intro h
    split at h
    · cases h
    next hsafe =>
      split at h
      next hstarts =>
        obtain rfl := Except.ok.inj h
        obtain ⟨habsolute, hunder⟩ := Bool.and_eq_true_iff.mp hstarts
        rw [Bool.not_eq_true, Bool.not_eq_false'] at hsafe
        exact ⟨hsafe, rfl, beq_iff_eq.mp habsolute, List.isPrefixOf_iff_prefix.mp hunder⟩
      · cases h
  · rintro ⟨hsafe, rfl, habsolute, hunder⟩
    have hstarts : (checkPath fs limit (resolved fs limit (join base (ofStr pathStr)))).startsWith ⟨true, B⟩ = true :=
      Bool.and_eq_true_iff.mpr ⟨beq_iff_eq.mpr habsolute, List.isPrefixOf_iff_prefix.mpr hunder⟩
    rw [hsafe, Bool.not_true, if_neg Bool.false_ne_true, if_pos hstarts]

theorem exists_eq_true {path : Path Str} : fs.exists limit path = true ↔
    ∃ place, fs.canonicalize limit path = some place :=
  Option.isSome_iff_exists

theorem exists_eq_false {path : Path Str} : fs.exists limit path = false ↔ fs.canonicalize limit path = none := by
  rw [Fs.exists, Option.isSome_eq_false_iff, Option.isNone_iff_eq_none]

theorem nearest_of_exists {r : Plain} {rev : List Str} {place : Loc Str} (tail : List Str)
    (h : fs.canonicalize limit (Plain.path ⟨r.absolute, rev.reverse⟩) = some place) :
    nearest fs limit r rev tail = ⟨true, place ++ tail⟩ := by
  have hexists := exists_eq_true.2 ⟨place, h⟩
  cases rev with
  | nil =>
    rw [List.reverse_nil] at h hexists
    rw [nearest, if_pos hexists, rejoin, canonicalOr_some h]
  | cons name rev => rw [nearest, if_pos hexists, rejoin, canonicalOr_some h]

theorem nearest_cons_of_missing {r : Plain} {name : Str} {rev : List Str} (tail : List Str)
    (h : fs.canonicalize limit (Plain.path ⟨r.absolute, (name :: rev).reverse⟩) = none) :
    nearest fs limit r (name :: rev) tail = nearest fs limit r rev (name :: tail) := by
  rw [nearest, exists_eq_false.2 h, if_neg Bool.false_ne_true]

/-- The loop ends at an ancestor that exists, with the next name not there, or it finds none. -/
theorem nearest_spec (r : Plain) : ∀ (rev tail : List Str),
    (∃ dir rest place, rev.reverse = dir ++ rest ∧ fs.canonicalize limit (Plain.path ⟨r.absolute, dir⟩) = some place ∧
        (∀ name more, rest = name :: more → fs.canonicalize limit (Plain.path ⟨r.absolute, dir ++ [name]⟩) = none) ∧
          nearest fs limit r rev tail = ⟨true, place ++ (rest ++ tail)⟩) ∨
      fs.canonicalize limit (Plain.path ⟨r.absolute, []⟩) = none ∧ nearest fs limit r rev tail = r
  | [], tail => by
    cases h : fs.canonicalize limit (Plain.path ⟨r.absolute, []⟩) with
    | some place => exact .inl ⟨[], [], place, rfl, h, nofun, nearest_of_exists tail h⟩
    | none =>
      refine .inr ⟨rfl, ?_⟩
      rw [nearest, exists_eq_false.2 h, if_neg Bool.false_ne_true]
  | name :: rev, tail => by
    cases h : fs.canonicalize limit (Plain.path ⟨r.absolute, (name :: rev).reverse⟩) with
    | some place =>
      exact .inl ⟨(name :: rev).reverse, [], place, (List.append_nil _).symm, h, nofun, nearest_of_exists tail h⟩
    | none =>
      rw [nearest_cons_of_missing tail h]
      rcases nearest_spec r rev (name :: tail) with ⟨dir, rest, place, hrev, hdir, hnext, hnearest⟩ | hnone
      · refine .inl ⟨dir, rest ++ [name], place, ?_, hdir, ?_, ?_⟩
        · rw [List.reverse_cons, hrev, List.append_assoc]
        · intro name' more hrest
          cases rest with
          | nil =>
            obtain ⟨rfl, -⟩ := List.cons.inj hrest
            rw [List.reverse_cons, hrev, List.append_nil] at h
            exact h
          | cons name'' rest => exact hnext name' rest (by rw [(List.cons.inj hrest).1])
        · rw [hnearest, List.append_assoc, List.singleton_append]
      · exact .inr hnone

/-- A path that exists is returned as its place. -/
theorem checkPath_of_exists {r : Plain} {place : Loc Str} (h : fs.canonicalize limit r.path = some place) :
    checkPath fs limit r = ⟨true, place⟩ := by
  rw [checkPath, if_pos (exists_eq_true.2 ⟨place, h⟩), canonicalOr_some h]

/-- Of a path that does not exist, an ancestor does, if the check is passed; the next name is not there. -/
theorem checkPath_of_missing {r : Plain} (h : fs.canonicalize limit r.path = none)
    (habsolute : (checkPath fs limit r).absolute = true) : ∃ dir name rest place,
      r.names = dir ++ name :: rest ∧ fs.canonicalize limit (Plain.path ⟨r.absolute, dir⟩) = some place ∧
        fs.canonicalize limit (Plain.path ⟨r.absolute, dir ++ [name]⟩) = none ∧
          (checkPath fs limit r).names = place ++ name :: rest := by
  rw [checkPath, exists_eq_false.2 h, if_neg Bool.false_ne_true] at habsolute ⊢
  rcases nearest_spec r r.names.reverse [] with ⟨dir, rest, place, hnames, hdir, hnext, hnearest⟩ | ⟨hroot, hnearest⟩
  · rw [List.reverse_reverse] at hnames
    cases rest with
    | nil =>
      rw [List.append_nil] at hnames
      rw [← hnames] at hdir
      cases h.symm.trans hdir
    | cons name rest =>
      refine ⟨dir, name, rest, place, hnames, hdir, hnext name rest rfl, ?_⟩
      rw [hnearest, List.append_nil]
  · -- the root exists, so the path is relative and fails the check
    rw [hnearest] at habsolute
    rw [habsolute] at hroot
    cases hroot.symm.trans (canonicalize_loc (.inl fs.root))

/-! ## What the returned path touches -/

/-- A path through an entry that is not there does not exist. -/
theorem missing_of_makes {absolute : Bool} {dir : List Str} {name : Str} {place : Loc Str} {left : Nat}
    (hdir : walk fs limit (Path.start (.names absolute dir) fs.cwd) (dir.map .name) = .found place left)
    (hplace : fs.node place = some .dir) (hnone : fs.node (place ++ [name]) = none) (more : List Str) :
    fs.canonicalize limit (.names absolute (dir ++ name :: more)) = none := by
  by_contra hsome
  obtain ⟨loc, hloc⟩ := Option.ne_none_iff_exists'.mp hsome
  obtain ⟨left', hfound⟩ := canonicalize_eq_some.mp hloc
  rw [resolve_eq_walk (.inr (List.append_ne_nil_of_right_ne_nil dir (List.cons_ne_nil name more))),
    List.map_append] at hfound
  have happend := walk_append ((name :: more).map .name) _ _ _ hdir
  rw [List.map_cons, walk_cons_absent left _ hplace hnone] at happend
  have hstart : Path.start (.names absolute (dir ++ name :: more)) fs.cwd = Path.start (.names absolute dir) fs.cwd :=
    rfl
  rw [hstart, List.map_cons, happend] at hfound
  split at hfound <;> cases hfound

/-- A path that exists touches its place only. -/
theorem contained_of_exists {r : Plain} {place loc : Loc Str} (h : fs.canonicalize limit r.path = some place)
    (hloc : Touches fs limit r loc) : loc = place := by
  obtain ⟨left, hfound⟩ := canonicalize_eq_some.mp h
  cases hloc with
  | opens hopens =>
    rw [hfound] at hopens
    cases hopens
    rfl
  | creates hcreates =>
    rw [hfound] at hcreates
    cases hcreates
  | @makes dir rest made name place' left' hnames hdir hplace hnone hmade =>
    have hmissing := missing_of_makes hdir hplace hnone rest
    rw [← hnames] at hmissing
    cases hmissing.symm.trans h

/-- A path whose next name after an ancestor is not there: it touches places below the ancestor, or it ends in a
link. -/
theorem contained_of_missing {r : Plain} {dir rest : List Str} {name : Str} {place loc : Loc Str}
    (hnames : r.names = dir ++ name :: rest) (hdir : fs.canonicalize limit (Plain.path ⟨r.absolute, dir⟩) = some place)
    (hnext : fs.canonicalize limit (Plain.path ⟨r.absolute, dir ++ [name]⟩) = none) (hloc : Touches fs limit r loc) :
    (∃ made, loc = place ++ made ∧ made <+: name :: rest ∧ fs.node (place ++ [name]) = none) ∨
      rest = [] ∧ (∃ target, fs.node (place ++ [name]) = some (.link target)) ∧ fs.resolve limit r.path =
        .absent loc := by
  obtain ⟨left, hfound⟩ := canonicalize_eq_some.mp hdir
  have hne : r.absolute = true ∨ dir ++ [name] ≠ [] :=
    .inr (List.append_ne_nil_of_right_ne_nil dir (List.cons_ne_nil name []))
  have hstop : ∀ name' more, fs.resolve limit (.names r.absolute (dir ++ name :: name' :: more)) = .failed := by
    intro name' more
    rw [List.append_cons]
    exact resolve_append_stop hnext hne name' more
  have hresolve : fs.resolve limit r.path = fs.resolve limit (.names r.absolute (dir ++ name :: rest)) := by
    rw [Plain.path, hnames]
  cases hloc with
  | @opens _ left' hopens =>
    rw [hresolve] at hopens
    cases rest with
    | nil => cases hnext.symm.trans (canonicalize_eq_some.mpr ⟨left', hopens⟩)
    | cons name' more => cases (hstop name' more).symm.trans hopens
  | creates hcreates =>
    cases rest with
    | nil =>
      have hlast : walk fs left place [.name name] = .absent loc := by
        rw [← hcreates, hresolve]
        exact (resolve_append hfound [name]).symm
      rcases walk_name_absent hlast with ⟨rfl, hnone⟩ | hlink
      · exact .inl ⟨[name], rfl, List.prefix_rfl, hnone⟩
      · exact .inr ⟨rfl, hlink, hcreates⟩
    | cons name' more =>
      rw [hresolve] at hcreates
      cases (hstop name' more).symm.trans hcreates
  | @makes dir' rest' made name' place' left' hnames' hdir' hplace' hnone' hmade =>
    rw [hnames] at hnames'
    have hsame : dir' = dir := by
      rcases List.append_eq_append_iff.mp hnames' with ⟨mid, rfl, hmid⟩ | ⟨mid, rfl, hmid⟩
      · cases mid with
        | nil => rw [List.append_nil]
        | cons name'' mid =>
          -- a longer way goes through the name that is not there
          obtain ⟨rfl, -⟩ := List.cons.inj hmid
          have hexists : fs.resolve limit (.names r.absolute (dir ++ name :: mid)) = .found place' left' :=
            (resolve_eq_walk (.inr (List.append_ne_nil_of_right_ne_nil dir (List.cons_ne_nil name mid)))).trans hdir'
          cases mid with
          | nil => cases hnext.symm.trans (canonicalize_eq_some.mpr ⟨left', hexists⟩)
          | cons name'' mid => cases (hstop name'' mid).symm.trans hexists
      · cases mid with
        | nil => rw [List.append_nil]
        | cons name'' mid =>
          obtain ⟨rfl, -⟩ := List.cons.inj hmid
          cases (missing_of_makes hdir' hplace' hnone' mid).symm.trans hdir
    subst hsame
    obtain ⟨rfl, rfl⟩ := List.cons.inj (List.append_cancel_left hnames')
    have hfound' : fs.resolve limit (Plain.path ⟨r.absolute, dir'⟩) = .found place' left' :=
      (resolve_eq_walk (names_of_canonicalize hdir)).trans hdir'
    rw [hfound'] at hfound
    cases hfound
    exact .inl ⟨made, rfl, hmade, hnone'⟩

/-- A path that is not there is returned as it is normalized. -/
theorem resolved_of_missing {path : Path Str} (h : fs.canonicalize limit (resolved fs limit path).path = none) :
    fs.canonicalize limit path = none ∧ resolved fs limit path = normalizeLexical path := by
  cases hpath : fs.canonicalize limit path with
  | none => exact ⟨rfl, by rw [resolved, canonicalOr, hpath]⟩
  | some place =>
    rw [resolved, canonicalOr_some hpath] at h
    cases h.symm.trans (canonicalize_loc (canonicalize_real hpath))

/-- What is returned stays under the base, or it is a link that makes a file elsewhere. -/
theorem contained_or_escapes {path : Path Str} {loc : Loc Str} (hdir : fs.node B = some .dir)
    (habsolute : (checkPath fs limit (resolved fs limit path)).absolute = true)
    (hunder : B <+: (checkPath fs limit (resolved fs limit path)).names)
    (hloc : Touches fs limit (resolved fs limit path) loc) : B <+: loc ∨ Escapes fs limit path B := by
  cases hexists : fs.canonicalize limit (resolved fs limit path).path with
  | some place =>
    rw [checkPath_of_exists hexists] at hunder
    rw [contained_of_exists hexists hloc]
    exact .inl hunder
  | none =>
    obtain ⟨hmissing, hlexical⟩ := resolved_of_missing hexists
    obtain ⟨dir, name, rest, place, hnames, hplace, hnext, hcheck⟩ := checkPath_of_missing hexists habsolute
    rw [hcheck] at hunder
    rcases contained_of_missing hnames hplace hnext hloc with ⟨made, rfl, -, hnone⟩ | ⟨rfl, ⟨target, hlink⟩, hcreates⟩
    · have hbelow := Fs.prefix_of_no_dir hdir (by rw [hnone]; exact nofun) hunder
      exact .inl (hbelow.trans (List.prefix_append place made))
    · have hbelow := Fs.prefix_of_no_dir hdir (by rw [hlink]; exact nofun) hunder
      by_cases hin : B <+: loc
      · exact .inl hin
      · rw [hlexical] at hnames hplace hcreates
        exact .inr ⟨hmissing, dir, name, place, target, loc, hnames, hplace, hbelow, hlink, hcreates, hin⟩

/-- **Containment.** What a returned path touches lies under the base, whatever the tree is, exactly if the path is no
link under the base that makes a file elsewhere. -/
theorem contained_iff (pathStr : Str) (hbase : fs.canonicalize limit base = some B) (hdir : fs.node B = some .dir) :
    (∀ r, validatePath cm fs limit pathStr (some base) = .ok r → ∀ loc, Touches fs limit r loc → B <+: loc) ↔
      ¬(isPathSafeMinimal cm pathStr = true ∧ Escapes fs limit (join base (ofStr pathStr)) B) := by
  constructor
  · rintro hcontained ⟨hsafe, hmissing, dir, name, place, target, loc, hnames, hplace, hbelow, -, hcreates, hout⟩
    have hlexical : resolved fs limit (join base (ofStr pathStr)) = normalizeLexical (join base (ofStr pathStr)) := by
      rw [resolved, canonicalOr, hmissing]
    generalize hr : normalizeLexical (join base (ofStr pathStr)) = r at hnames hcreates hlexical
    have hthere : fs.canonicalize limit r.path = none := by
      rw [Fs.canonicalize, hcreates]
    have hparent : fs.canonicalize limit (Plain.path ⟨r.absolute, dir.reverse.reverse⟩) = some place := by
      rw [List.reverse_reverse, ← hr]
      exact hplace
    have hlast : fs.canonicalize limit (Plain.path ⟨r.absolute, (name :: dir.reverse).reverse⟩) = none := by
      rw [List.reverse_cons, List.reverse_reverse, ← hnames]
      exact hthere
    have hcheck : checkPath fs limit r = ⟨true, place ++ [name]⟩ := by
      have hreverse : r.names.reverse = name :: dir.reverse := by
        rw [hnames, List.reverse_append]
        rfl
      rw [checkPath, exists_eq_false.mpr hthere, if_neg Bool.false_ne_true, hreverse, nearest_cons_of_missing [] hlast,
        nearest_of_exists [name] hparent]
    refine hout (hcontained r ?_ loc (.creates hcreates))
    rw [validatePath_iff hbase, hlexical, hcheck]
    exact ⟨hsafe, rfl, rfl, hbelow.trans (List.prefix_append place [name])⟩
  · rintro hnot r hr loc hloc
    obtain ⟨hsafe, rfl, habsolute, hunder⟩ := (validatePath_iff hbase).mp hr
    rcases contained_or_escapes hdir habsolute hunder hloc with hin | hescapes
    · exact hin
    · exact absurd ⟨hsafe, hescapes⟩ hnot

end Returned

/-! ## A link to a missing file -/

/-- A base directory with a link to a file that is not there, in another directory. -/
def linkEntries : List (Loc Str × Node Str) :=
  [(["base".toList], .dir), (["outside".toList], .dir),
    (["base".toList, "link".toList], .link (.names true ["outside".toList, "new".toList]))]

def linkFs : Fs Str := .ofEntries linkEntries [] (by decide) (by decide)

def basePath : Path Str := .names true ["base".toList]

theorem contained_iff_link :
    (∀ r, validatePath asciiCase linkFs 40 "note".toList (some basePath) = .ok r →
      ∀ loc, Touches linkFs 40 r loc → ["base".toList] <+: loc) ↔
        ¬(isPathSafeMinimal asciiCase "note".toList = true ∧
          Escapes linkFs 40 (join basePath (ofStr "note".toList)) ["base".toList]) :=
  contained_iff "note".toList (by decide) (by decide)

/-- The link is returned as a path under the base, and creating it makes a file elsewhere. -/
theorem link_escapes :
    validatePath asciiCase linkFs 40 "link".toList (some basePath) = .ok ⟨true, ["base".toList, "link".toList]⟩ ∧
      Touches linkFs 40 ⟨true, ["base".toList, "link".toList]⟩ ["outside".toList, "new".toList] ∧
        ¬["base".toList] <+: ["outside".toList, "new".toList] :=
  ⟨by decide, .creates (by decide), by decide⟩

end Ironclaw.Tools.PathUtils

import Ironclaw.Lib.DotSegments

/-!
# File trees with symbolic links

A tree of directories, files and symbolic links, and how the system resolves a path in it: segment by segment, a link by
its target and what follows it, up to a number of links.

- `walk_append`, `walk_append_stop`: a path by its parts;
- `walk_real`: what is found is a directory or a file;
- `walk_loc`: the path of a place without links leads to the place.
-/

namespace Ironclaw.FileTree

open DotSegments

variable {α : Type*}

/-- A path as it is written. -/
structure Path (α : Type*) where
  absolute : Bool
  segments : List (Segment α)
  deriving DecidableEq

inductive Node (α : Type*)
  | dir
  | file
  | link (target : Path α)
  deriving DecidableEq

/-- A place in the tree: the names on the way from the root. -/
abbrev Loc (α : Type*) := List α

/-- What has an entry is in a directory. -/
structure Fs (α : Type*) where
  node : Loc α → Option (Node α)
  root : node [] = some .dir
  parent : ∀ loc name, node (loc ++ [name]) ≠ none → node loc = some .dir
  cwd : Loc α
  cwd_dir : node cwd = some .dir

/-- Where a path leads: to a place, with some links left; to a place in a directory that has no entry; or nowhere. -/
inductive Outcome (α : Type*)
  | found (loc : Loc α) (links : Nat)
  | absent (loc : Loc α)
  | failed
  deriving DecidableEq

section Walk

variable (fs : Fs α)

/-- The segments in order; `follow` goes on at a link. -/
def scan (follow : Loc α → Path α → List (Segment α) → Outcome α) (links : Nat) : Loc α → List (Segment α) → Outcome α
  | loc, [] => .found loc links
  | loc, s :: rest =>
    match fs.node loc with
    | some .dir =>
      match s with
      | .here => scan follow links loc rest
      | .up => scan follow links loc.dropLast rest
      | .name n =>
        match fs.node (loc ++ [n]) with
        | none => if rest.isEmpty then .absent (loc ++ [n]) else .failed
        | some (.link target) => follow loc target rest
        | some _ => scan follow links (loc ++ [n]) rest
    | _ => .failed

/-- Where the target of a link in a directory begins. -/
def Path.start (path : Path α) (loc : Loc α) : Loc α := if path.absolute then [] else loc

/-- At most this number of links is followed. -/
def walk : Nat → Loc α → List (Segment α) → Outcome α
  | 0 => scan fs (fun _ _ _ => .failed) 0
  | links + 1 => scan fs (fun loc target rest => walk links (target.start loc) (target.segments ++ rest)) (links + 1)

/-- A path from the working directory; the empty path leads nowhere. -/
def Fs.resolve (limit : Nat) (path : Path α) : Outcome α :=
  if !path.absolute && path.segments.isEmpty then .failed else walk fs limit (path.start fs.cwd) path.segments

/-- The place that an existing path leads to. -/
def Fs.canonicalize (limit : Nat) (path : Path α) : Option (Loc α) :=
  match fs.resolve limit path with
  | .found loc _ => some loc
  | _ => none

def Fs.exists (limit : Nat) (path : Path α) : Bool := (fs.canonicalize limit path).isSome

/-- A directory or a file. -/
def Fs.Real (loc : Loc α) : Prop := fs.node loc = some .dir ∨ fs.node loc = some .file

end Walk

/-! ## The segments of a path -/

section Lemmas

variable {fs : Fs α} {loc : Loc α}

theorem Fs.Real.ne_none (h : fs.Real loc) : fs.node loc ≠ none := by
  rcases h with h | h <;> simp [h]

/-- What leads to a place has only directories on the way. -/
theorem Fs.dir_of_append {rest : Loc α} (hne : rest ≠ []) (h : fs.node (loc ++ rest) ≠ none) :
    fs.node loc = some .dir := by
  induction rest using List.reverseRecOn with
  | nil => exact absurd rfl hne
  | append_singleton rest name ih =>
    rw [← List.append_assoc] at h
    have hdir := fs.parent _ _ h
    by_cases hrest : rest = []
    · rwa [hrest, List.append_nil] at hdir
    · exact ih hrest (by rw [hdir]; exact Option.some_ne_none _)

/-- An existing place that lies on the way to an entry of a directory, but is not that entry or below it, is above
it. -/
theorem Fs.prefix_of_no_dir {base place rest : Loc α} {name : α} (hbase : fs.node base = some .dir)
    (hnode : fs.node (place ++ [name]) ≠ some .dir) (h : base <+: place ++ name :: rest) : base <+: place := by
  obtain ⟨tail, htail⟩ := h
  rcases List.append_eq_append_iff.mp htail with ⟨mid, rfl, -⟩ | ⟨mid, rfl, hmid⟩
  · exact List.prefix_append base mid
  · cases mid with
    | nil => rw [List.append_nil]
    | cons name' mid =>
      obtain ⟨rfl, -⟩ := List.cons.inj hmid
      rw [List.append_cons] at hbase
      by_cases hnil : mid = []
      · rw [hnil, List.append_nil] at hbase
        exact absurd hbase hnode
      · exact absurd (Fs.dir_of_append hnil (by rw [hbase]; exact Option.some_ne_none _)) hnode

theorem Fs.dir_dropLast (h : fs.node loc = some .dir) : fs.node loc.dropLast = some .dir := by
  rcases List.eq_nil_or_concat loc with rfl | ⟨init, name, rfl⟩
  · exact h
  · rw [List.concat_eq_append] at h ⊢
    rw [List.dropLast_concat]
    exact fs.parent _ name (by rw [h]; exact Option.some_ne_none _)

theorem scan_cons (follow : Loc α → Path α → List (Segment α) → Outcome α) (links : Nat) (loc : Loc α) (s : Segment α)
    (rest : List (Segment α)) : scan fs follow links loc (s :: rest) =
      match fs.node loc with
      | some .dir =>
        match s with
        | .here => scan fs follow links loc rest
        | .up => scan fs follow links loc.dropLast rest
        | .name n =>
          match fs.node (loc ++ [n]) with
          | none => if rest.isEmpty then .absent (loc ++ [n]) else .failed
          | some (.link target) => follow loc target rest
          | some _ => scan fs follow links (loc ++ [n]) rest
      | _ => .failed := rfl

theorem walk_zero (loc : Loc α) (segments : List (Segment α)) :
    walk fs 0 loc segments = scan fs (fun _ _ _ => .failed) 0 loc segments := rfl

theorem walk_succ (links : Nat) (loc : Loc α) (segments : List (Segment α)) : walk fs (links + 1) loc segments =
    scan fs (fun loc target rest => walk fs links (target.start loc) (target.segments ++ rest)) (links + 1) loc
      segments := rfl

/-- One segment, by what stands in the tree. -/
theorem walk_cons_here (k : Nat) (rest : List (Segment α)) (h : fs.node loc = some .dir) :
    walk fs k loc (.here :: rest) = walk fs k loc rest := by
  cases k <;> simp [walk_zero, walk_succ, scan_cons, h]

theorem walk_cons_up (k : Nat) (rest : List (Segment α)) (h : fs.node loc = some .dir) :
    walk fs k loc (.up :: rest) = walk fs k loc.dropLast rest := by
  cases k <;> simp [walk_zero, walk_succ, scan_cons, h]

theorem walk_cons_not_dir (k : Nat) (s : Segment α) (rest : List (Segment α)) (h : fs.node loc ≠ some .dir) :
    walk fs k loc (s :: rest) = .failed := by
  cases hnode : fs.node loc with
  | none => cases k <;> simp [walk_zero, walk_succ, scan_cons, hnode]
  | some node =>
    cases node with
    | dir => exact absurd hnode h
    | file => cases k <;> simp [walk_zero, walk_succ, scan_cons, hnode]
    | link target => cases k <;> simp [walk_zero, walk_succ, scan_cons, hnode]

theorem walk_cons_absent (k : Nat) {name : α} (rest : List (Segment α)) (h : fs.node loc = some .dir)
    (hnode : fs.node (loc ++ [name]) = none) :
    walk fs k loc (.name name :: rest) = if rest.isEmpty then .absent (loc ++ [name]) else .failed := by
  cases k <;> simp [walk_zero, walk_succ, scan_cons, h, hnode]

theorem walk_cons_real (k : Nat) {name : α} (rest : List (Segment α)) (hnode : fs.Real (loc ++ [name])) :
    walk fs k loc (.name name :: rest) = walk fs k (loc ++ [name]) rest := by
  have h := fs.parent loc name hnode.ne_none
  rcases hnode with hnode | hnode
  · cases k <;> simp [walk_zero, walk_succ, scan_cons, h, hnode]
  · cases k <;> simp [walk_zero, walk_succ, scan_cons, h, hnode]

theorem walk_zero_cons_link {name : α} {target : Path α} (rest : List (Segment α))
    (hnode : fs.node (loc ++ [name]) = some (.link target)) : walk fs 0 loc (.name name :: rest) = .failed := by
  have h := fs.parent loc name (by rw [hnode]; exact Option.some_ne_none _)
  simp [walk_zero, scan_cons, h, hnode]

theorem walk_succ_cons_link (k : Nat) {name : α} {target : Path α} (rest : List (Segment α))
    (hnode : fs.node (loc ++ [name]) = some (.link target)) :
    walk fs (k + 1) loc (.name name :: rest) = walk fs k (target.start loc) (target.segments ++ rest) := by
  have h := fs.parent loc name (by rw [hnode]; exact Option.some_ne_none _)
  simp [walk_succ, scan_cons, h, hnode]

@[simp] theorem walk_nil (k : Nat) (loc : Loc α) : walk fs k loc [] = .found loc k := by
  cases k <;> rfl

/-- The segments up to the next link. -/
theorem segments_induction {P : Loc α → List (Segment α) → Prop}
    (hnil : ∀ loc, P loc [])
    (hnot : ∀ loc s rest, fs.node loc ≠ some .dir → P loc (s :: rest))
    (hhere : ∀ loc rest, fs.node loc = some .dir → P loc rest → P loc (.here :: rest))
    (hup : ∀ loc rest, fs.node loc = some .dir → P loc.dropLast rest → P loc (.up :: rest))
    (habsent : ∀ loc name rest, fs.node loc = some .dir → fs.node (loc ++ [name]) = none → P loc (.name name :: rest))
    (hreal : ∀ loc name rest, fs.Real (loc ++ [name]) → P (loc ++ [name]) rest → P loc (.name name :: rest))
    (hlink : ∀ loc name target rest, fs.node (loc ++ [name]) = some (.link target) → P loc (.name name :: rest)) :
    ∀ (segments : List (Segment α)) (loc : Loc α), P loc segments
  | [], loc => hnil loc
  | s :: rest, loc => by
    have ih := segments_induction hnil hnot hhere hup habsent hreal hlink rest
    by_cases hdir : fs.node loc = some .dir
    · cases s with
      | here => exact hhere loc rest hdir (ih loc)
      | up => exact hup loc rest hdir (ih _)
      | name name =>
        cases hnode : fs.node (loc ++ [name]) with
        | none => exact habsent loc name rest hdir hnode
        | some node =>
          cases node with
          | dir => exact hreal loc name rest (.inl hnode) (ih _)
          | file => exact hreal loc name rest (.inr hnode) (ih _)
          | link target => exact hlink loc name target rest hnode
    · exact hnot loc s rest hdir

/-- A walk by its steps: what holds where it ends and is kept by every step back holds of all walks. -/
theorem walk_induction {P : Nat → Loc α → List (Segment α) → Prop}
    (hnil : ∀ k loc, P k loc [])
    (hnot : ∀ k loc s rest, fs.node loc ≠ some .dir → P k loc (s :: rest))
    (hhere : ∀ k loc rest, fs.node loc = some .dir → P k loc rest → P k loc (.here :: rest))
    (hup : ∀ k loc rest, fs.node loc = some .dir → P k loc.dropLast rest → P k loc (.up :: rest))
    (habsent : ∀ k loc name rest, fs.node loc = some .dir → fs.node (loc ++ [name]) = none →
      P k loc (.name name :: rest))
    (hreal : ∀ k loc name rest, fs.Real (loc ++ [name]) → P k (loc ++ [name]) rest → P k loc (.name name :: rest))
    (hloop : ∀ loc name target rest, fs.node (loc ++ [name]) = some (.link target) → P 0 loc (.name name :: rest))
    (hlink : ∀ k loc name target rest, fs.node (loc ++ [name]) = some (.link target) →
      P k (target.start loc) (target.segments ++ rest) → P (k + 1) loc (.name name :: rest)) :
    ∀ (k : Nat) (loc : Loc α) (segments : List (Segment α)), P k loc segments
  | 0, loc, segments => segments_induction (hnil 0) (hnot 0) (hhere 0) (hup 0) (habsent 0) (hreal 0) hloop segments loc
  | k + 1, loc, segments => by
    have ih := walk_induction hnil hnot hhere hup habsent hreal hloop hlink k
    refine segments_induction (hnil _) (hnot _) (hhere _) (hup _) (habsent _) (hreal _) ?_ segments loc
    intro loc name target rest hnode
    exact hlink k loc name target rest hnode (ih _ _)

/-- What comes after a path that leads to a place goes on from there. -/
theorem walk_append (ys : List (Segment α)) :
    ∀ (k : Nat) (loc : Loc α) (xs : List (Segment α)) {place : Loc α} {left : Nat},
    walk fs k loc xs = .found place left → walk fs k loc (xs ++ ys) = walk fs left place ys := by
  intro k loc xs
  induction k, loc, xs using @walk_induction _ fs with
  | hnil k loc =>
    intro place left h
    rw [walk_nil] at h
    cases h
    rfl
  | hnot k loc s rest hdir =>
    intro place left h
    rw [walk_cons_not_dir k s rest hdir] at h
    cases h
  | hhere k loc rest hdir ih =>
    intro place left h
    rw [walk_cons_here k rest hdir] at h
    rw [List.cons_append, walk_cons_here k _ hdir, ih h]
  | hup k loc rest hdir ih =>
    intro place left h
    rw [walk_cons_up k rest hdir] at h
    rw [List.cons_append, walk_cons_up k _ hdir, ih h]
  | habsent k loc name rest hdir hnode =>
    intro place left h
    rw [walk_cons_absent k rest hdir hnode] at h
    split at h <;> cases h
  | hreal k loc name rest hnode ih =>
    intro place left h
    rw [walk_cons_real k rest hnode] at h
    rw [List.cons_append, walk_cons_real k _ hnode, ih h]
  | hloop loc name target rest hnode =>
    intro place left h
    rw [walk_zero_cons_link rest hnode] at h
    cases h
  | hlink k loc name target rest hnode ih =>
    intro place left h
    rw [walk_succ_cons_link k rest hnode] at h
    rw [List.cons_append, walk_succ_cons_link k _ hnode, ← List.append_assoc, ih h]

/-- Nothing comes after a path that leads to no place. -/
theorem walk_append_stop (y : Segment α) (ys : List (Segment α)) :
    ∀ (k : Nat) (loc : Loc α) (xs : List (Segment α)), (∀ place left, walk fs k loc xs ≠ .found place left) →
      walk fs k loc (xs ++ y :: ys) = .failed := by
  intro k loc xs
  induction k, loc, xs using @walk_induction _ fs with
  | hnil k loc =>
    intro h
    exact absurd (walk_nil k loc) (h loc k)
  | hnot k loc s rest hdir =>
    intro _
    exact walk_cons_not_dir k s _ hdir
  | hhere k loc rest hdir ih =>
    intro h
    rw [walk_cons_here k rest hdir] at h
    rw [List.cons_append, walk_cons_here k _ hdir, ih h]
  | hup k loc rest hdir ih =>
    intro h
    rw [walk_cons_up k rest hdir] at h
    rw [List.cons_append, walk_cons_up k _ hdir, ih h]
  | habsent k loc name rest hdir hnode =>
    intro _
    rw [List.cons_append, walk_cons_absent k _ hdir hnode, List.isEmpty_eq_false_iff.mpr (by simp),
      if_neg Bool.false_ne_true]
  | hreal k loc name rest hnode ih =>
    intro h
    rw [walk_cons_real k rest hnode] at h
    rw [List.cons_append, walk_cons_real k _ hnode, ih h]
  | hloop loc name target rest hnode =>
    intro _
    exact walk_zero_cons_link _ hnode
  | hlink k loc name target rest hnode ih =>
    intro h
    rw [walk_succ_cons_link k rest hnode] at h
    rw [List.cons_append, walk_succ_cons_link k _ hnode, ← List.append_assoc, ih h]

/-- A name that leads to no entry is missing itself, or it is a link. -/
theorem walk_name_absent {k : Nat} {place : Loc α} {name : α} (h : walk fs k place [.name name] = .absent loc) :
    loc = place ++ [name] ∧ fs.node (place ++ [name]) = none ∨
      ∃ target, fs.node (place ++ [name]) = some (.link target) := by
  by_cases hdir : fs.node place = some .dir
  · cases hnode : fs.node (place ++ [name]) with
    | none =>
      rw [walk_cons_absent k [] hdir hnode, List.isEmpty_nil, if_pos rfl] at h
      cases h
      exact .inl ⟨rfl, rfl⟩
    | some node =>
      cases node with
      | link target => exact .inr ⟨target, rfl⟩
      | dir =>
        rw [walk_cons_real k [] (.inl hnode), walk_nil] at h
        cases h
      | file =>
        rw [walk_cons_real k [] (.inr hnode), walk_nil] at h
        cases h
  · rw [walk_cons_not_dir k _ [] hdir] at h
    cases h

theorem Path.start_dir (path : Path α) (h : fs.node loc = some .dir) : fs.node (path.start loc) = some .dir := by
  unfold Path.start
  split
  · exact fs.root
  · exact h

/-- What is found from a place that exists is a directory or a file. -/
theorem walk_real : ∀ (k : Nat) (loc : Loc α) (xs : List (Segment α)) {place : Loc α} {left : Nat}, fs.Real loc →
    walk fs k loc xs = .found place left → fs.Real place := by
  intro k loc xs
  induction k, loc, xs using @walk_induction _ fs with
  | hnil k loc =>
    intro place left hreal h
    rw [walk_nil] at h
    cases h
    exact hreal
  | hnot k loc s rest hdir =>
    intro place left _ h
    rw [walk_cons_not_dir k s rest hdir] at h
    cases h
  | hhere k loc rest hdir ih =>
    intro place left hreal h
    rw [walk_cons_here k rest hdir] at h
    exact ih hreal h
  | hup k loc rest hdir ih =>
    intro place left _ h
    rw [walk_cons_up k rest hdir] at h
    exact ih (.inl (Fs.dir_dropLast hdir)) h
  | habsent k loc name rest hdir hnode =>
    intro place left _ h
    rw [walk_cons_absent k rest hdir hnode] at h
    split at h <;> cases h
  | hreal k loc name rest hnode ih =>
    intro place left _ h
    rw [walk_cons_real k rest hnode] at h
    exact ih hnode h
  | hloop loc name target rest hnode =>
    intro place left _ h
    rw [walk_zero_cons_link rest hnode] at h
    cases h
  | hlink k loc name target rest hnode ih =>
    intro place left _ h
    rw [walk_succ_cons_link k rest hnode] at h
    have hdir := fs.parent loc name (by rw [hnode]; exact Option.some_ne_none _)
    exact ih (.inl (target.start_dir hdir)) h

/-- The names on the way to a place that is no link lead to it, and no link is followed. -/
theorem walk_loc (k : Nat) : ∀ loc : Loc α, fs.Real loc → walk fs k [] (loc.map .name) = .found loc k := by
  intro loc
  induction loc using List.reverseRecOn with
  | nil => exact fun _ => walk_nil k []
  | append_singleton loc name ih =>
    intro hreal
    have hparent : fs.Real loc := .inl (fs.parent loc name hreal.ne_none)
    rw [List.map_append, walk_append _ _ _ _ (ih hparent), List.map_singleton, walk_cons_real k [] hreal, walk_nil]

end Lemmas

/-! ## Paths of names -/

section Resolve

variable {fs : Fs α} {limit : Nat} {absolute : Bool}

/-- A path of names. -/
def Path.names (absolute : Bool) (names : List α) : Path α := ⟨absolute, names.map .name⟩

theorem canonicalize_eq_some {path : Path α} {place : Loc α} :
    fs.canonicalize limit path = some place ↔ ∃ left, fs.resolve limit path = .found place left := by
  unfold Fs.canonicalize
  constructor
  · intro h
    split at h
    next loc left hfound =>
      cases h
      exact ⟨left, hfound⟩
    · cases h
  · rintro ⟨left, h⟩
    rw [h]

/-- A path of names is walked from its start, unless it is empty. -/
theorem resolve_eq_walk {names : List α} (hne : absolute = true ∨ names ≠ []) :
    fs.resolve limit (.names absolute names) = walk fs limit (Path.start (.names absolute names) fs.cwd)
      (names.map .name) := by
  rw [Fs.resolve, if_neg]
  · rfl
  · intro hempty
    obtain ⟨hrelative, hnil⟩ := Bool.and_eq_true_iff.mp hempty
    rcases hne with rfl | hne
    · cases hrelative
    · exact hne (List.map_eq_nil_iff.mp (List.isEmpty_iff.mp hnil))

/-- The empty path leads nowhere. -/
theorem names_of_canonicalize {names : List α} {place : Loc α}
    (h : fs.canonicalize limit (.names absolute names) = some place) : absolute = true ∨ names ≠ [] := by
  cases absolute with
  | true => exact .inl rfl
  | false =>
    refine .inr fun hnil => ?_
    subst hnil
    cases h

theorem canonicalize_real {path : Path α} {place : Loc α} (h : fs.canonicalize limit path = some place) :
    fs.Real place := by
  obtain ⟨left, hfound⟩ := canonicalize_eq_some.1 h
  unfold Fs.resolve at hfound
  split at hfound
  · cases hfound
  · exact walk_real _ _ _ (.inl (path.start_dir fs.cwd_dir)) hfound

theorem resolve_loc {place : Loc α} (h : fs.Real place) : fs.resolve limit (.names true place) = .found place limit :=
  walk_loc limit place h

theorem canonicalize_loc {place : Loc α} (h : fs.Real place) : fs.canonicalize limit (.names true place) = some place :=
  canonicalize_eq_some.2 ⟨limit, resolve_loc h⟩

/-- What comes after a path that exists goes on from its place. -/
theorem resolve_append {xs : List α} {place : Loc α} {left : Nat}
    (h : fs.resolve limit (.names absolute xs) = .found place left) (ys : List α) :
    fs.resolve limit (.names absolute (xs ++ ys)) = walk fs left place (ys.map .name) := by
  have hne : absolute = true ∨ xs ≠ [] := names_of_canonicalize (canonicalize_eq_some.2 ⟨left, h⟩)
  rw [resolve_eq_walk hne] at h
  rw [resolve_eq_walk (hne.imp_right fun hxs => List.append_ne_nil_of_left_ne_nil hxs ys), List.map_append]
  exact walk_append _ _ _ _ h

/-- Nothing comes after a path that does not exist. -/
theorem resolve_append_stop {xs : List α} (h : fs.canonicalize limit (.names absolute xs) = none)
    (hne : absolute = true ∨ xs ≠ []) (y : α) (ys : List α) :
    fs.resolve limit (.names absolute (xs ++ y :: ys)) = .failed := by
  rw [resolve_eq_walk (.inr (List.append_ne_nil_of_right_ne_nil xs (List.cons_ne_nil y ys))), List.map_append,
    List.map_cons]
  refine walk_append_stop (.name y) (ys.map .name) _ _ _ fun place left hfound => ?_
  have hresolve : fs.resolve limit (.names absolute xs) = .found place left := (resolve_eq_walk hne).trans hfound
  cases h.symm.trans (canonicalize_eq_some.2 ⟨left, hresolve⟩)

end Resolve

/-! ## Trees from their entries -/

section Entries

variable [DecidableEq α]

/-- The entry of a place; the root is a directory. -/
def entry (entries : List (Loc α × Node α)) (loc : Loc α) : Option (Node α) :=
  if loc = [] then some .dir else (entries.find? fun e => e.1 = loc).map Prod.snd

/-- The tree with these entries. -/
def Fs.ofEntries (entries : List (Loc α × Node α)) (cwd : Loc α)
    (hparent : ∀ e ∈ entries, entry entries e.1.dropLast = some .dir) (hcwd : entry entries cwd = some .dir) :
      Fs α where
  node := entry entries
  root := if_pos rfl
  parent := by
    intro loc name h
    rw [entry, if_neg (List.append_ne_nil_of_right_ne_nil loc (List.cons_ne_nil name []))] at h
    obtain ⟨_, hnode⟩ := Option.ne_none_iff_exists'.mp h
    obtain ⟨e, he, -⟩ := Option.map_eq_some_iff.mp hnode
    have hfound := List.find?_some he
    have hloc : e.1 = loc ++ [name] := by simpa only [decide_eq_true_eq] using hfound
    have hdir := hparent e (List.mem_of_find?_eq_some he)
    rwa [hloc, List.dropLast_concat] at hdir
  cwd := cwd
  cwd_dir := hcwd

end Entries

end Ironclaw.FileTree

import Ironclaw.Workspace.Write

/-!
# Paths of documents

Paths are normalized before they are looked up: white space and slashes are trimmed, and runs of slashes collapsed.

- `normalizePath_slashes`: what holds of every normal form;
- `canonical_iff`: when the normal form is canonical, so that it is its own normal form.
-/

namespace Ironclaw

open Text

namespace Workspace

/-- `normalize_directory`. -/
def normalizeDirectory (path : Str) : Str := (normalizePath path).rdropWhile (· == '/')

/-! ## Trimming -/

/-- A string without characters of a kind at its ends. -/
def Bare (p : Char → Bool) (s : Str) : Prop := (∀ c ∈ s.head?, p c = false) ∧ ∀ c ∈ s.getLast?, p c = false

theorem dropWhile_eq_self_iff {p : Char → Bool} {s : Str} : s.dropWhile p = s ↔ ∀ c ∈ s.head?, p c = false := by
  cases s with
  | nil => simp
  | cons d s =>
    rw [List.dropWhile_eq_self_iff]
    simp

theorem rdropWhile_eq_self_iff {p : Char → Bool} {s : Str} : s.rdropWhile p = s ↔ ∀ c ∈ s.getLast?, p c = false := by
  rw [List.rdropWhile_eq_self_iff]
  constructor
  · intro h c hc
    have hlast := h (List.ne_nil_of_mem (List.mem_of_mem_getLast? hc))
    rw [List.getLast_of_mem_getLast? hc] at hlast
    simpa using hlast
  · intro h hne
    simpa using h _ (List.getLast?_eq_getLast_of_ne_nil hne)

theorem bare_iff {p : Char → Bool} {s : Str} : Bare p s ↔ (s.dropWhile p).rdropWhile p = s := by
  rw [Bare, ← dropWhile_eq_self_iff, ← rdropWhile_eq_self_iff]
  constructor
  · rintro ⟨hstart, hend⟩
    rw [hstart, hend]
  · intro h
    -- neither end was cut, since both lengths add up
    have hend := (List.rdropWhile_prefix p (l := s.dropWhile p)).length_le
    have hstart := (List.dropWhile_suffix p (l := s)).length_le
    have hlen := congrArg List.length h
    have hs : s.dropWhile p = s := (List.dropWhile_suffix p).eq_of_length (by omega)
    exact ⟨hs, by rwa [hs] at h⟩

theorem bare_trim_ends (p : Char → Bool) (s : Str) : Bare p ((s.dropWhile p).rdropWhile p) := by
  constructor
  · intro c hc
    obtain ⟨rest, hrest⟩ := List.rdropWhile_prefix p (l := s.dropWhile p)
    have hhead : c ∈ (s.dropWhile p).head? := by
      rw [← hrest]
      exact List.mem_head?_append_of_mem_head? hc
    have hnot := List.head?_dropWhile_not p s
    rw [hhead] at hnot
    simpa using hnot
  · exact rdropWhile_eq_self_iff.1 (List.rdropWhile_idempotent p _)

theorem bare_trimChar (c : Char) (s : Str) : Bare (· == c) (trimChar c s) := bare_trim_ends _ s

theorem bare_isWhitespace_iff {s : Str} : Bare isWhitespace s ↔ trim s = s := bare_iff

theorem bare_slash_iff {s : Str} : Bare (· == '/') s ↔ trimChar '/' s = s := bare_iff

/-! ## Slashes -/

theorem length_collapseSlashes_le (s : Str) : ∀ last, (collapseSlashes last s).length ≤ s.length := by
  induction s with
  | nil => intro last; exact le_rfl
  | cons c s ih =>
    intro last
    have htrue := ih true
    have hfalse := ih false
    rw [collapseSlashes]
    split <;> (try split) <;> simp only [List.length_cons] <;> omega

theorem head_collapseSlashes (s : Str) : (collapseSlashes false s).head? = s.head? := by
  cases s with
  | nil => rfl
  | cons c s =>
    rw [collapseSlashes]
    split <;> simp

theorem collapseSlashes_concat {c : Char} (hc : c ≠ '/') (s : Str) :
    ∀ last, collapseSlashes last (s ++ [c]) = collapseSlashes last s ++ [c] := by
  induction s with
  | nil => intro last; simp [collapseSlashes, hc]
  | cons d s ih =>
    intro last
    rw [List.cons_append, collapseSlashes, collapseSlashes]
    split
    · split
      · exact ih true
      · rw [ih true]; rfl
    · rw [ih false]; rfl

theorem getLast_collapseSlashes {s : Str} (h : ∀ c ∈ s.getLast?, (c == '/') = false) :
    (collapseSlashes false s).getLast? = s.getLast? := by
  cases hlast : s.getLast? with
  | none =>
    rw [List.getLast?_eq_none_iff.mp hlast]
    rfl
  | some c =>
    obtain ⟨t, rfl⟩ := List.getLast?_eq_some_iff.mp hlast
    have hc : c ≠ '/' := by simpa using h c hlast
    rw [collapseSlashes_concat hc, List.getLast?_concat]

/-- Two slashes do not follow each other. -/
def NoRuns (s : Str) : Prop := s.IsChain fun c d => ¬(c = '/' ∧ d = '/')

theorem noRuns_cons {c : Char} {s : Str} : NoRuns (c :: s) ↔ (c = '/' → ∀ d ∈ s.head?, d ≠ '/') ∧ NoRuns s := by
  rw [NoRuns, List.isChain_cons]
  refine and_congr_left fun _ => ⟨fun h hc d hd hslash => h d hd ⟨hc, hslash⟩, fun h d hd hslash => ?_⟩
  exact h hslash.1 d hd hslash.2

/-- What is collapsed has no runs, and after a slash it starts with none. -/
theorem noRuns_collapseSlashes (s : Str) : ∀ last, NoRuns (collapseSlashes last s) ∧
    (last = true → ∀ c ∈ (collapseSlashes last s).head?, c ≠ '/') := by
  induction s with
  | nil => intro last; simp [collapseSlashes, NoRuns]
  | cons c s ih =>
    intro last
    obtain ⟨htrue, hhead⟩ := ih true
    obtain ⟨hfalse, -⟩ := ih false
    rw [collapseSlashes]
    split
    next hc =>
      split
      · exact ⟨htrue, fun _ => hhead rfl⟩
      next hlast => exact ⟨noRuns_cons.2 ⟨fun _ => hhead rfl, htrue⟩, fun h => absurd h hlast⟩
    next hc =>
      refine ⟨noRuns_cons.2 ⟨fun h => absurd h hc, hfalse⟩, fun _ d hd => ?_⟩
      obtain rfl : c = d := Option.some.inj hd
      exact hc

theorem collapseSlashes_of_noRuns (s : Str) : ∀ last, NoRuns s → (last = true → ∀ c ∈ s.head?, c ≠ '/') →
    collapseSlashes last s = s := by
  induction s with
  | nil => intro last _ _; rfl
  | cons c s ih =>
    intro last hruns hhead
    obtain ⟨hnext, hrest⟩ := noRuns_cons.1 hruns
    rw [collapseSlashes]
    split
    next hc =>
      split
      next hlast => exact absurd hc (hhead hlast c rfl)
      · rw [ih true hrest fun _ => hnext hc]
    · rw [ih false hrest fun h => absurd h Bool.false_ne_true]

/-! ## Normal forms -/

/-- What is left of a path before its slashes are collapsed. -/
def trimmed (path : Str) : Str := trimChar '/' (trim path)

/-- A normal form starts and ends as the trimmed path does, without slashes there and without runs of them. -/
theorem normalizePath_slashes (path : Str) : NoRuns (normalizePath path) ∧ Bare (· == '/') (normalizePath path) ∧
    (normalizePath path).head? = (trimmed path).head? ∧ (normalizePath path).getLast? = (trimmed path).getLast? := by
  have hbare : Bare (· == '/') (trimmed path) := bare_trimChar '/' (trim path)
  have hhead : (normalizePath path).head? = (trimmed path).head? := head_collapseSlashes _
  have hlast : (normalizePath path).getLast? = (trimmed path).getLast? := getLast_collapseSlashes hbare.2
  refine ⟨(noRuns_collapseSlashes _ false).1, ⟨?_, ?_⟩, hhead, hlast⟩
  · rw [hhead]
    exact hbare.1
  · rw [hlast]
    exact hbare.2

theorem bare_normalizePath_iff (path : Str) :
    Bare isWhitespace (normalizePath path) ↔ Bare isWhitespace (trimmed path) := by
  obtain ⟨-, -, hhead, hlast⟩ := normalizePath_slashes path
  rw [Bare, Bare, hhead, hlast]

theorem normalizeDirectory_eq (path : Str) : normalizeDirectory path = normalizePath path :=
  rdropWhile_eq_self_iff.2 (normalizePath_slashes path).2.1.2

/-- A path is its own normal form when it has no white space at its ends and slashes only between names. -/
theorem normalizePath_eq_self {s : Str} (hruns : NoRuns s) (hslashes : Bare (· == '/') s)
    (hspaces : Bare isWhitespace s) :
    normalizePath s = s := by
  rw [normalizePath, bare_isWhitespace_iff.1 hspaces, bare_slash_iff.1 hslashes]
  exact collapseSlashes_of_noRuns s false hruns fun h => absurd h Bool.false_ne_true

/-- The normal form of a path without white space at its ends is not shorter only if nothing was trimmed. -/
theorem bare_of_normalizePath_eq_self {s : Str} (h : normalizePath s = s) : Bare isWhitespace s := by
  rw [bare_isWhitespace_iff]
  have hstart : trim s <:+: s :=
    (List.rdropWhile_prefix isWhitespace _).isInfix.trans (List.dropWhile_suffix isWhitespace).isInfix
  have hslash : trimChar '/' (trim s) <:+: trim s :=
    (List.rdropWhile_prefix _ _).isInfix.trans (List.dropWhile_suffix _).isInfix
  have hlen := congrArg List.length h
  have hcollapse := length_collapseSlashes_le (trimChar '/' (trim s)) false
  have htrim := hslash.length_le
  rw [normalizePath] at hlen
  exact hstart.eq_of_length_le (by omega)

theorem normalizePath_idem_iff (path : Str) :
    normalizePath (normalizePath path) = normalizePath path ↔ Bare isWhitespace (trimmed path) := by
  obtain ⟨hruns, hslashes, -, -⟩ := normalizePath_slashes path
  rw [← bare_normalizePath_iff]
  exact ⟨bare_of_normalizePath_eq_self, normalizePath_eq_self hruns hslashes⟩

/-! ## Documents under a path -/

/-- A document is updated under its own key only. -/
theorem getDocumentByPath_updateDocument (docs : Docs) (u u' : Str) (a a' : Option Nat) (p p' content : Str) :
    getDocumentByPath (updateDocument docs u a p content) u' a' p' =
      if u' = u ∧ a' = a ∧ p' = p then (getDocumentByPath docs u a p).map fun _ => content
      else getDocumentByPath docs u' a' p' := by
  induction docs with
  | nil => simp [updateDocument, getDocumentByPath]
  | cons d docs ih =>
    simp only [getDocumentByPath] at ih ⊢
    rw [updateDocument]
    split
    next hkey =>
      simp only [Bool.and_eq_true, beq_iff_eq] at hkey
      obtain ⟨⟨rfl, rfl⟩, rfl⟩ := hkey
      by_cases h : u' = d.userId ∧ a' = d.agentId ∧ p' = d.path
      · obtain ⟨rfl, rfl, rfl⟩ := h
        simp
      · have hne : (d.userId == u' && d.agentId == a' && d.path == p') = false := by
          rw [Bool.eq_false_iff]
          intro heq
          simp only [Bool.and_eq_true, beq_iff_eq] at heq
          exact h ⟨heq.1.1.symm, heq.1.2.symm, heq.2.symm⟩
        rw [if_neg h, List.find?_cons, List.find?_cons, hne]
    next hkey =>
      rw [List.find?_cons, List.find?_cons, List.find?_cons]
      rw [Bool.not_eq_true] at hkey
      by_cases h : u' = u ∧ a' = a ∧ p' = p
      · obtain ⟨rfl, rfl, rfl⟩ := h
        rw [hkey, if_pos ⟨rfl, rfl, rfl⟩]
        rw [if_pos ⟨rfl, rfl, rfl⟩] at ih
        exact ih
      · rw [if_neg h] at ih ⊢
        split
        · rfl
        · exact ih

theorem getDocumentByPath_opened (docs : Docs) (u : Str) (a : Option Nat) (p : Str) :
    getDocumentByPath (getOrCreateDocumentByPath docs u a p).2 u a p =
      some (getOrCreateDocumentByPath docs u a p).1 := by
  rw [getOrCreateDocumentByPath]
  cases h : getDocumentByPath docs u a p with
  | some content => exact h
  | none =>
    rw [getDocumentByPath_append, h]
    simp [getDocumentByPath]

/-- A store that succeeds leaves the new content under the path. -/
theorem getDocumentByPath_stored {fault : StorageFault} {docs : Docs} {u : Str} {a : Option Nat} {p c : Str}
    {f : Str → Except WorkspaceError Str} (h : (storeDocument fault docs u a p f).2 = .ok c) :
    (∃ old, f old = .ok c) ∧ getDocumentByPath (storeDocument fault docs u a p f).1 u a p = some c := by
  revert h
  rw [storeDocument]
  split
  · exact fun h => nomatch h
  · simp only
    split
    · exact fun h => nomatch h
    · split
      · exact fun h => nomatch h
      · exact fun h => nomatch h
      next content hcontent _ =>
        split
        · exact fun h => nomatch h
        · intro h
          obtain rfl : content = c := Except.ok.inj h
          rw [getDocumentByPath_updateDocument, if_pos ⟨rfl, rfl, rfl⟩, getDocumentByPath_opened]
          exact ⟨⟨_, hcontent⟩, rfl⟩

/-- A document of the user is found, whatever the other scopes hold. -/
theorem read_of_primary {w : Workspace} {docs : Docs} {path c : Str}
    (h : getDocumentByPath docs w.userId w.agentId (normalizePath path) = some c) : w.read docs path = some c := by
  have hscopes : getDocumentByPathMulti docs w.readUserIds w.agentId (normalizePath path) = some c := by
    have hhead := w.head
    cases hr : w.readUserIds with
    | nil => simp [hr] at hhead
    | cons u rest =>
      rw [hr] at hhead
      obtain rfl : u = w.userId := Option.some.inj hhead
      simp [getDocumentByPathMulti, h]
  simp only [read, h, hscopes]
  split
  · rfl
  · split <;> rfl

/-! ## Canonical forms -/

/-- The documents written under `path` are found under `other`. -/
def FoundUnder (path other : Str) : Prop :=
  ∀ isWord fault (w : LayeredWorkspace) docs content stored,
    (w.write isWord fault docs path content).2 = .ok stored →
      w.read (w.write isWord fault docs path content).1 other = some content

/-- The normal form is its own normal form, without slashes or white space at its ends and without runs of slashes;
directories have the same one; and documents are found under every path of the same form and under the form itself. -/
structure Canonical (path : Str) : Prop where
  idempotent : normalizePath (normalizePath path) = normalizePath path
  slashes : Bare (· == '/') (normalizePath path)
  spaces : Bare isWhitespace (normalizePath path)
  runs : NoRuns (normalizePath path)
  directory : normalizeDirectory path = normalizePath path
  found : ∀ other, normalizePath other = normalizePath path → FoundUnder path other
  foundItself : FoundUnder path (normalizePath path)

theorem foundUnder_of_eq {path other : Str} (h : normalizePath other = normalizePath path) : FoundUnder path other := by
  intro isWord fault w docs content stored hwrite
  refine read_of_primary ?_
  rw [h]
  revert hwrite
  rw [LayeredWorkspace.write]
  split
  · exact fun hwrite => nomatch hwrite
  · intro hwrite
    obtain ⟨⟨_, hcontent⟩, hstored⟩ := getDocumentByPath_stored hwrite
    obtain rfl : content = stored := Except.ok.inj hcontent
    exact hstored

/-- **Normal forms.** The normal form of a path is canonical exactly when the path, its white space and then its slashes
trimmed, has no white space at its ends. -/
theorem canonical_iff (path : Str) : Canonical path ↔ Bare isWhitespace (trimChar '/' (trim path)) := by
  obtain ⟨hruns, hslashes, -, -⟩ := normalizePath_slashes path
  constructor
  · exact fun h => (normalizePath_idem_iff path).mp h.idempotent
  · intro h
    have hidem := (normalizePath_idem_iff path).mpr h
    exact ⟨hidem, hslashes, (bare_normalizePath_iff path).mpr h, hruns, normalizeDirectory_eq path,
      fun _ => foundUnder_of_eq, foundUnder_of_eq hidem⟩

/-- White space behind the first slash stays, and the form is another one at the second time. -/
theorem space_behind_slash_stays : ¬∀ path : Str, Canonical path := by
  intro h
  have hidem := (h "/ notes.md".toList).idempotent
  revert hidem
  decide

end Workspace

end Ironclaw

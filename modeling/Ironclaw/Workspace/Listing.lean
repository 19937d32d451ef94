import Ironclaw.Workspace.Entries
import Ironclaw.Workspace.Paths

/-!
# Listings of a workspace

`list` shows the files and directories right under a directory, in each read scope as the storage lists them and merged
over the scopes. The two storages list a scope in their own ways: one groups the rows by what stands before the next
slash, the other does it in SQL and tells directories by a pattern.

- `summary_libsql`, `summary_postgres`: what an entry of one scope says of the documents of the scope;
- `lists_list`: what an entry of a listing says of the documents of all read scopes.
-/

namespace Ironclaw

open Text

/-- A row of the table `memory_documents`, with the date of its last update. -/
structure DatedDocument extends MemoryDocument where
  updatedAt : Int
  deriving DecidableEq

namespace Workspace

inductive Backend
  | libsql
  | postgres
  deriving DecidableEq

/-- The directory with a slash at its end, unless it is the root. -/
def dirPrefix (directory : Str) : Str :=
  if !directory.isEmpty && directory.getLast? != some '/' then directory ++ ['/'] else directory

def scopeDocs (docs : List DatedDocument) (userId : Str) (agentId : Option Nat) : List DatedDocument :=
  docs.filter fun d => d.userId == userId && d.agentId == agentId

/-- The part of a path before the next slash. -/
def childName (relative : Str) : Str := relative.takeWhile (· != '/')

/-! ## libSQL -/

/-- The entry of a row, with the name of the child; the pattern of the query admits every path that begins with
`dir`. -/
def libsqlRow (dir : Str) (d : DatedDocument) : Option (Str × WorkspaceEntry) :=
  match stripStart dir d.path with
  | none => none
  | some relative =>
    let child := childName relative
    if child.isEmpty then none
    else
      let isDir := relative.contains '/'
      some (child, ⟨dir ++ child, isDir, some d.updatedAt, if isDir then none else some (d.content.take 200)⟩)

/-- One more row of a child. -/
def addRow (entry new : WorkspaceEntry) : WorkspaceEntry :=
  let entry := if new.isDirectory then { entry with isDirectory := true, contentPreview := none } else entry
  match entry.updatedAt, new.updatedAt with
  | some existing, some date => if existing < date then { entry with updatedAt := some date } else entry
  | _, _ => entry

def libsqlListDirectory (order : Table.Iteration Str WorkspaceEntry) (docs : List DatedDocument) (directory : Str) :
    List WorkspaceEntry :=
  let rows := docs.insertionSort fun a b => a.path ≤ b.path
  let entries := Table.grouped addRow (rows.filterMap (libsqlRow (dirPrefix directory)))
  ((order.entries entries).map fun e => e.2).insertionSort fun a b => a.path ≤ b.path

/-! ## PostgreSQL -/

/-- `LIKE`. -/
def like : Str → Str → Bool
  | [], s => s.isEmpty
  | '%' :: pattern, s => s.tails.any (like pattern)
  | '_' :: pattern, s =>
    match s with
    | [] => false
    | _ :: s => like pattern s
  | ['\\'], _ => false
  | '\\' :: c :: pattern, s =>
    match s with
    | [] => false
    | d :: s => c == d && like pattern s
  | c :: pattern, s =>
    match s with
    | [] => false
    | d :: s => c == d && like pattern s

/-- The later of two texts. -/
def maxText (s t : Str) : Str := if s < t then t else s

/-- The documents of a directory. -/
def postgresFiles (docs : List DatedDocument) (dir : Str) : List DatedDocument :=
  docs.filter fun d => dir.isEmpty || like (dir ++ ['%']) d.path

/-- The documents of a child. -/
def postgresGroup (docs : List DatedDocument) (dir child : Str) : List DatedDocument :=
  (postgresFiles docs dir).filter fun d => childName (d.path.drop dir.length) == child

def postgresEntry (docs : List DatedDocument) (dir child : Str) : WorkspaceEntry :=
  let group := postgresGroup docs dir child
  let isDirectory := docs.any fun d => like (dir ++ child ++ "/%".toList) d.path
  { path := dir ++ child
    isDirectory := isDirectory
    updatedAt := (group.map DatedDocument.updatedAt).max?
    contentPreview := if isDirectory then none else Table.mergeAll maxText (group.map fun d => d.content.take 200) }

def postgresChildren (docs : List DatedDocument) (dir : Str) : List Str :=
  (((postgresFiles docs dir).map fun d => childName (d.path.drop dir.length)).filter fun child => !child.isEmpty).dedup

/-- `list_workspace_files`. -/
def postgresListDirectory (docs : List DatedDocument) (directory : Str) : List WorkspaceEntry :=
  let dir := dirPrefix directory
  ((postgresChildren docs dir).insertionSort fun a b => a ≤ b).map (postgresEntry docs dir)

/-! ## Workspaces -/

/-- The storage: its kind, and the orders in which hash maps are iterated. -/
structure Storage where
  backend : Backend
  order : Table.Iteration Str WorkspaceEntry

def Storage.listDirectory (storage : Storage) (docs : List DatedDocument) (userId : Str) (agentId : Option Nat)
    (directory : Str) : List WorkspaceEntry :=
  match storage.backend with
  | .libsql => libsqlListDirectory storage.order (scopeDocs docs userId agentId) directory
  | .postgres => postgresListDirectory (scopeDocs docs userId agentId) directory

/-- `Workspace::list`. -/
def list (storage : Storage) (w : Workspace) (docs : List DatedDocument) (directory : Str) : List WorkspaceEntry :=
  let directory := normalizeDirectory directory
  if w.isMultiScope then
    let primary := storage.listDirectory docs w.userId w.agentId directory
    let secondary := w.readUserIds.tail.flatMap fun scope =>
      (storage.listDirectory docs scope w.agentId directory).filter fun e => !isIdentityPath e.path
    mergeWorkspaceEntries storage.order (primary ++ secondary)
  else storage.listDirectory docs w.userId w.agentId directory

/-! ## What a listing says -/

/-- A path that is shown as an entry: the path of the entry itself, or one beneath it. -/
def Under (p path : Str) : Prop := path = p ∨ (p ++ ['/']) <+: path

/-- The storage takes an entry for a directory because of this path. -/
def Backend.marks : Backend → Str → Str → Bool
  | .libsql, p, path => (p ++ ['/']).isPrefixOf path
  | .postgres, p, path => like (p ++ "/%".toList) path

/-- What an entry says of the documents of some scopes: some document is shown as it; it is a directory when a scope
that it is shown for has a path that makes it one; and its date is the latest of the documents that are shown as it. -/
structure Summary (backend : Backend) (scopes : List (List DatedDocument)) (e : WorkspaceEntry) : Prop where
  directory : e.isDirectory = true ↔ ∃ docs ∈ scopes, (∃ d ∈ docs, Under e.path d.path) ∧
    ∃ d ∈ docs, backend.marks e.path d.path = true
  date : ∃ t, e.updatedAt = some t ∧ (∃ docs ∈ scopes, ∃ d ∈ docs, Under e.path d.path ∧ d.updatedAt = t) ∧
    ∀ docs ∈ scopes, ∀ d ∈ docs, Under e.path d.path → d.updatedAt ≤ t

/-- A listing of the children of a directory in some scopes. -/
structure Lists (backend : Backend) (scopes : List (List DatedDocument)) (dir : Str) (entries : List WorkspaceEntry) :
    Prop where
  sound : ∀ e ∈ entries, (∃ child, child ≠ [] ∧ '/' ∉ child ∧ e.path = dir ++ child) ∧ Summary backend scopes e
  complete : ∀ child, child ≠ [] → '/' ∉ child → (∃ docs ∈ scopes, ∃ d ∈ docs, Under (dir ++ child) d.path) →
    ∃ e ∈ entries, e.path = dir ++ child

/-! ## Children -/

section Child

variable {dir child path : Str}

theorem slash_notMem_childName (relative : Str) : '/' ∉ childName relative := by
  intro h
  have hne := List.mem_takeWhile_imp h
  cases hne

/-- The name before the next slash is a given one when the path is shown as the entry of that name. -/
theorem childName_iff (hslash : '/' ∉ child) (relative : Str) :
    childName relative = child ↔ relative = child ∨ (child ++ ['/']) <+: relative := by
  have hall : ∀ c ∈ child, (c != '/') = true := fun c hc => bne_iff_ne.mpr fun h => hslash (h ▸ hc)
  constructor
  · rintro rfl
    have hsplit := List.takeWhile_append_dropWhile (p := (· != '/')) (l := relative)
    cases hrest : relative.dropWhile (· != '/') with
    | nil =>
      rw [hrest, List.append_nil] at hsplit
      exact .inl hsplit.symm
    | cons c rest =>
      have hc := List.head?_dropWhile_not (· != '/') relative
      rw [hrest] at hc
      have hslash : c = '/' := by simpa using hc
      refine .inr ⟨rest, ?_⟩
      rw [hrest, hslash] at hsplit
      rw [List.append_assoc]
      exact hsplit
  · rintro (rfl | ⟨rest, rfl⟩)
    · exact List.takeWhile_eq_self_iff.mpr hall
    · rw [childName, List.append_assoc, List.takeWhile_append_of_pos hall, List.singleton_append,
        List.takeWhile_cons_of_neg (by decide), List.append_nil]

/-- A path is shown as the entry of a child when it is in the directory and the child is the name before the next
slash. -/
theorem under_iff (hslash : '/' ∉ child) :
    Under (dir ++ child) path ↔ ∃ relative, path = dir ++ relative ∧ childName relative = child := by
  simp only [childName_iff hslash]
  constructor
  · rintro (rfl | ⟨rest, rfl⟩)
    · exact ⟨child, rfl, .inl rfl⟩
    · exact ⟨child ++ ['/'] ++ rest, by simp, .inr ⟨rest, rfl⟩⟩
  · rintro ⟨relative, rfl, rfl | ⟨rest, rfl⟩⟩
    · exact .inl rfl
    · exact .inr ⟨rest, by simp⟩

end Child

/-! ## What an entry is made of -/

/-- The date of an entry is the latest of some entries, and it is a directory when one of them is. -/
structure Digest (rows : List WorkspaceEntry) (e : WorkspaceEntry) : Prop where
  directory : e.isDirectory = true ↔ ∃ r ∈ rows, r.isDirectory = true
  date : ∃ t, e.updatedAt = some t ∧ (∃ r ∈ rows, r.updatedAt = some t) ∧ ∀ r ∈ rows, ∀ s, r.updatedAt = some s → s ≤ t

section Digest

variable {rows : List WorkspaceEntry} {e : WorkspaceEntry} {merge : WorkspaceEntry → WorkspaceEntry → WorkspaceEntry}

/-- Merging entries that have dates, one after the other: by induction on their number. -/
theorem digest_mergeAll (hdir : ∀ a b, (merge a b).isDirectory = (a.isDirectory || b.isDirectory))
    (hdate : ∀ a b s t, a.updatedAt = some s → b.updatedAt = some t → (merge a b).updatedAt = some (max s t))
    (hdated : ∀ r ∈ rows, r.updatedAt.isSome) (h : Table.mergeAll merge rows = some e) : Digest rows e := by
  induction rows using List.reverseRecOn generalizing e with
  | nil => cases h
  | append_singleton rows row ih =>
    obtain ⟨t, ht⟩ := Option.isSome_iff_exists.mp (hdated row (by simp))
    rw [Table.mergeAll_concat] at h
    cases hold : Table.mergeAll merge rows with
    | none =>
      have hnil : rows = [] := by
        cases rows with
        | nil => rfl
        | cons => cases hold
      subst hnil
      obtain rfl : row = e := by simpa [hold] using h
      exact ⟨by simp, t, ht, ⟨row, by simp, ht⟩, by simp [ht]⟩
    | some old =>
      obtain ⟨holddir, s, hs, ⟨r, hr, hrs⟩, hle⟩ := ih (fun r hr => hdated r (by simp [hr])) hold
      obtain rfl : merge old row = e := by simpa [hold] using h
      refine ⟨?_, max s t, hdate old row s t hs ht, ?_, fun r' hr' u hu => ?_⟩
      · rw [hdir, Bool.or_eq_true, holddir]
        simp [or_and_right, exists_or]
      · rcases le_total s t with hst | hst
        · exact ⟨row, by simp, by rw [max_eq_right hst, ht]⟩
        · exact ⟨r, by simp [hr], by rw [max_eq_left hst, hrs]⟩
      · rcases List.mem_append.mp hr' with hold' | hnew
        · exact (hle r' hold' u hu).trans (le_max_left s t)
        · rw [List.mem_singleton.mp hnew, ht] at hu
          cases hu
          exact le_max_right s t

theorem isDirectory_addRow (a b : WorkspaceEntry) : (addRow a b).isDirectory = (a.isDirectory || b.isDirectory) := by
  unfold addRow
  cases hb : b.isDirectory <;> simp <;> split <;> (try split) <;> simp

theorem updatedAt_addRow (a b : WorkspaceEntry) (s t : Int) (ha : a.updatedAt = some s) (hb : b.updatedAt = some t) :
    (addRow a b).updatedAt = some (max s t) := by
  rcases lt_or_ge s t with h | h
  · unfold addRow
    cases b.isDirectory <;> simp [ha, hb, h, h.le]
  · unfold addRow
    cases b.isDirectory <;> simp [ha, hb, not_lt.mpr h, h]

theorem path_addRow (a b : WorkspaceEntry) : (addRow a b).path = a.path := by
  unfold addRow
  cases b.isDirectory <;> simp <;> split <;> (try split) <;> rfl

theorem updatedAt_mergeEntry_dated (a b : WorkspaceEntry) (s t : Int) (ha : a.updatedAt = some s)
    (hb : b.updatedAt = some t) : (mergeEntry a b).updatedAt = some (max s t) := by
  rw [updatedAt_mergeEntry, ha, hb]
  rcases lt_or_ge s t with h | h
  · simp [givesWay, h, h.le]
  · simp [givesWay, not_lt.mpr h, h]

theorem path_mergeAll (hpath : ∀ a b, (merge a b).path = a.path) {p : Str} (hrows : ∀ r ∈ rows, r.path = p)
    (h : Table.mergeAll merge rows = some e) : e.path = p := by
  induction rows using List.reverseRecOn generalizing e with
  | nil => cases h
  | append_singleton rows row ih =>
    rw [Table.mergeAll_concat] at h
    cases hold : Table.mergeAll merge rows with
    | none =>
      obtain rfl : row = e := by simpa [hold] using h
      exact hrows row (by simp)
    | some old =>
      obtain rfl : merge old row = e := by simpa [hold] using h
      rw [hpath]
      exact ih (fun r hr => hrows r (by simp [hr])) hold

theorem mergeAll_isSome (merge : WorkspaceEntry → WorkspaceEntry → WorkspaceEntry) {r : WorkspaceEntry}
    (hr : r ∈ rows) : ∃ e, Table.mergeAll merge rows = some e := by
  cases rows with
  | nil => cases hr
  | cons row rows => exact ⟨_, rfl⟩

theorem exists_of_mergeAll (h : Table.mergeAll merge rows = some e) : ∃ r, r ∈ rows := by
  cases rows with
  | nil => cases h
  | cons row rows => exact ⟨row, List.mem_cons_self⟩

end Digest

/-! ## One scope -/

section Scope

variable {dir : Str} {docs : List DatedDocument} {e : WorkspaceEntry}

theorem libsqlRow_eq_some_iff {d : DatedDocument} {child : Str} :
    libsqlRow dir d = some (child, e) ↔ ∃ relative, d.path = dir ++ relative ∧ childName relative = child ∧ child ≠ [] ∧
      e = ⟨dir ++ child, relative.contains '/', some d.updatedAt,
        if relative.contains '/' then none else some (d.content.take 200)⟩ := by
  unfold libsqlRow
  cases hstrip : stripStart dir d.path with
  | none =>
    simp only [reduceCtorEq, false_iff]
    rintro ⟨relative, hpath, -⟩
    rw [stripStart_eq_some_iff.mpr hpath] at hstrip
    cases hstrip
  | some relative =>
    have hpath := stripStart_eq_some_iff.mp hstrip
    simp only
    split
    next hempty =>
      simp only [reduceCtorEq, false_iff]
      rintro ⟨relative', hpath', rfl, hne, -⟩
      obtain rfl : relative = relative' := List.append_cancel_left (hpath.symm.trans hpath')
      exact hne (List.isEmpty_iff.mp hempty)
    next hempty =>
      simp only [Option.some.injEq, Prod.mk.injEq]
      constructor
      · rintro ⟨rfl, rfl⟩
        exact ⟨relative, hpath, rfl, fun h => hempty (List.isEmpty_iff.mpr h), rfl⟩
      · rintro ⟨relative', hpath', rfl, hne, rfl⟩
        obtain rfl : relative = relative' := List.append_cancel_left (hpath.symm.trans hpath')
        exact ⟨rfl, rfl⟩

/-- A path in the directory has a further slash when it lies beneath the child. -/
theorem contains_slash_iff (relative : Str) :
    relative.contains '/' = true ↔ (dir ++ childName relative ++ ['/']) <+: dir ++ relative := by
  rw [List.append_assoc, List.prefix_append_right_inj, List.contains_iff_mem]
  constructor
  · intro hslash
    rcases (childName_iff (slash_notMem_childName relative) relative).mp rfl with heq | hprefix
    · rw [heq] at hslash
      exact absurd hslash (slash_notMem_childName relative)
    · exact hprefix
  · rintro ⟨rest, hrest⟩
    rw [← hrest]
    simp

/-- The rows of a child, as the query returns them. -/
def childRows (dir : Str) (docs : List DatedDocument) (child : Str) : List WorkspaceEntry :=
  (((docs.insertionSort fun a b => a.path ≤ b.path).filterMap (libsqlRow dir)).filter fun x => x.1 = child).map Prod.snd

/-- A row of the entry of a path. -/
structure IsRow (p : Str) (d : DatedDocument) (r : WorkspaceEntry) : Prop where
  under : Under p d.path
  path : r.path = p
  directory : r.isDirectory = Backend.libsql.marks p d.path
  date : r.updatedAt = some d.updatedAt

theorem mem_childRows {child : Str} : e ∈ childRows dir docs child ↔ ∃ d ∈ docs, libsqlRow dir d = some (child, e) := by
  simp only [childRows, List.mem_map, List.mem_filter, List.mem_filterMap, decide_eq_true_eq,
    (List.perm_insertionSort _ _).mem_iff]
  constructor
  · rintro ⟨⟨child', r'⟩, ⟨⟨d, hd, hrow⟩, rfl⟩, rfl⟩
    exact ⟨d, hd, hrow⟩
  · rintro ⟨d, hd, hrow⟩
    exact ⟨(child, e), ⟨⟨d, hd, hrow⟩, rfl⟩, rfl⟩

theorem isRow_of_libsqlRow {d : DatedDocument} {child : Str} (h : libsqlRow dir d = some (child, e)) :
    child ≠ [] ∧ '/' ∉ child ∧ IsRow (dir ++ child) d e := by
  obtain ⟨relative, hpath, rfl, hne, rfl⟩ := libsqlRow_eq_some_iff.1 h
  have hslash := slash_notMem_childName relative
  refine ⟨hne, hslash, (under_iff hslash).mpr ⟨relative, hpath, rfl⟩, rfl, ?_, rfl⟩
  rw [Bool.eq_iff_iff, hpath]
  exact (contains_slash_iff relative).trans List.isPrefixOf_iff_prefix.symm

/-- Every document that is shown as a child has its row. -/
theorem exists_childRow {d : DatedDocument} {child : Str} (hne : child ≠ []) (hslash : '/' ∉ child) (hd : d ∈ docs)
    (hunder : Under (dir ++ child) d.path) : ∃ r ∈ childRows dir docs child, IsRow (dir ++ child) d r := by
  obtain ⟨relative, hpath, hchild⟩ := (under_iff hslash).mp hunder
  have hrow := libsqlRow_eq_some_iff.2 ⟨relative, hpath, hchild, hne, rfl⟩
  exact ⟨_, mem_childRows.2 ⟨d, hd, hrow⟩, (isRow_of_libsqlRow hrow).2.2⟩

theorem mem_libsqlListDirectory {order : Table.Iteration Str WorkspaceEntry} {directory : Str} :
    e ∈ libsqlListDirectory order docs directory ↔
      ∃ child, Table.mergeAll addRow (childRows (dirPrefix directory) docs child) = some e := by
  unfold libsqlListDirectory
  simp only [(List.perm_insertionSort _ _).mem_iff, List.mem_map]
  constructor
  · rintro ⟨⟨child, e'⟩, hmem, rfl⟩
    rw [(order.perm _).mem_iff, Table.mem_entries_iff, Table.lookup_grouped] at hmem
    exact ⟨child, hmem⟩
  · rintro ⟨child, h⟩
    rw [childRows, ← Table.lookup_grouped, ← Table.mem_entries_iff, ← (order.perm _).mem_iff] at h
    exact ⟨⟨child, e⟩, h, rfl⟩

theorem path_of_childRows {child : Str} (h : Table.mergeAll addRow (childRows dir docs child) = some e) :
    e.path = dir ++ child :=
  path_mergeAll path_addRow (fun r hr => by
    obtain ⟨d, -, hrow⟩ := mem_childRows.1 hr
    exact (isRow_of_libsqlRow hrow).2.2.path) h

theorem summary_libsql {child : Str} (hne : child ≠ []) (hslash : '/' ∉ child)
    (h : Table.mergeAll addRow (childRows dir docs child) = some e) : Summary .libsql [docs] e := by
  have hpath := path_of_childRows h
  have hrow : ∀ r ∈ childRows dir docs child, ∃ d ∈ docs, IsRow e.path d r := fun r hr => by
    obtain ⟨d, hd, hrow⟩ := mem_childRows.1 hr
    exact ⟨d, hd, hpath ▸ (isRow_of_libsqlRow hrow).2.2⟩
  have hexists : ∀ d ∈ docs, Under e.path d.path → ∃ r ∈ childRows dir docs child, IsRow e.path d r :=
      fun d hd hunder =>
    hpath ▸ exists_childRow hne hslash hd (hpath ▸ hunder)
  have hdigest : Digest _ e := digest_mergeAll isDirectory_addRow updatedAt_addRow (fun r hr => by
    obtain ⟨d, -, hd⟩ := hrow r hr
    rw [hd.date]
    rfl) h
  obtain ⟨t, ht, ⟨r, hr, hrt⟩, hle⟩ := hdigest.date
  refine ⟨?_, t, ht, ?_, fun docs' hdocs d hd hunder => ?_⟩
  · rw [hdigest.directory]
    constructor
    · rintro ⟨r, hr, hrdir⟩
      obtain ⟨d, hd, hisRow⟩ := hrow r hr
      exact ⟨docs, by simp, ⟨d, hd, hisRow.under⟩, d, hd, hisRow.directory ▸ hrdir⟩
    · rintro ⟨docs', hdocs, -, d, hd, hmarks⟩
      obtain rfl := List.mem_singleton.mp hdocs
      obtain ⟨r, hr, hisRow⟩ := hexists d hd (.inr (List.isPrefixOf_iff_prefix.mp hmarks))
      exact ⟨r, hr, hisRow.directory.trans hmarks⟩
  · obtain ⟨d, hd, hisRow⟩ := hrow r hr
    exact ⟨docs, by simp, d, hd, hisRow.under, Option.some.inj (hisRow.date.symm.trans hrt)⟩
  · obtain rfl := List.mem_singleton.mp hdocs
    obtain ⟨r, hr, hisRow⟩ := hexists d hd hunder
    exact hle r hr d.updatedAt hisRow.date

theorem libsql_lists (order : Table.Iteration Str WorkspaceEntry) (docs : List DatedDocument) (directory : Str) :
    Lists .libsql [docs] (dirPrefix directory) (libsqlListDirectory order docs directory) := by
  refine ⟨fun e he => ?_, fun child hne hslash hunder => ?_⟩
  · obtain ⟨child, h⟩ := mem_libsqlListDirectory.1 he
    obtain ⟨r, hr⟩ := exists_of_mergeAll h
    obtain ⟨d, -, hrow⟩ := mem_childRows.1 hr
    obtain ⟨hne, hslash, -⟩ := isRow_of_libsqlRow hrow
    exact ⟨⟨child, hne, hslash, path_of_childRows h⟩, summary_libsql hne hslash h⟩
  · obtain ⟨docs', hdocs, d, hd, hunder⟩ := hunder
    obtain rfl := List.mem_singleton.mp hdocs
    obtain ⟨r, hr, -⟩ := exists_childRow hne hslash hd hunder
    obtain ⟨e, he⟩ := mergeAll_isSome addRow hr
    exact ⟨e, mem_libsqlListDirectory.2 ⟨child, he⟩, path_of_childRows he⟩

/-! ## PostgreSQL -/

/-- A directory whose name has no wildcard is matched by itself. -/
theorem like_prefix {dir s : Str} (h : ∀ c ∈ dir, c ≠ '%' ∧ c ≠ '_' ∧ c ≠ '\\') :
    like (dir ++ ['%']) s = true ↔ dir <+: s := by
  induction dir generalizing s with
  | nil => simp [like]
  | cons c dir ih =>
    obtain ⟨hpercent, hunder, hescape⟩ := h c List.mem_cons_self
    have hrest : ∀ {s : Str}, like (dir ++ ['%']) s = true ↔ dir <+: s :=
      ih fun c' hc' => h c' (List.mem_cons_of_mem c hc')
    cases s with
    | nil => simp [like, hescape]
    | cons d s => simp [like, hescape, hrest]

theorem mem_postgresGroup {child : Str} (hplain : ∀ c ∈ dir, c ≠ '%' ∧ c ≠ '_' ∧ c ≠ '\\') (hslash : '/' ∉ child)
    {d : DatedDocument} : d ∈ postgresGroup docs dir child ↔ d ∈ docs ∧ Under (dir ++ child) d.path := by
  have hfile : (dir.isEmpty || like (dir ++ ['%']) d.path) = true ↔ dir <+: d.path := by
    rw [Bool.or_eq_true, like_prefix hplain, List.isEmpty_iff]
    constructor
    · rintro (rfl | h)
      · exact List.nil_prefix
      · exact h
    · exact .inr
  rw [postgresGroup, postgresFiles, List.mem_filter, List.mem_filter, hfile, under_iff hslash, and_assoc]
  refine and_congr_right fun _ => ?_
  constructor
  · rintro ⟨⟨relative, hpath⟩, hchild⟩
    refine ⟨relative, hpath.symm, ?_⟩
    rw [← hpath, List.drop_left] at hchild
    exact eq_of_beq hchild
  · rintro ⟨relative, hpath, hchild⟩
    refine ⟨⟨relative, hpath.symm⟩, ?_⟩
    rw [hpath, List.drop_left]
    exact beq_iff_eq.mpr hchild

theorem mem_postgresChildren {child : Str} (hplain : ∀ c ∈ dir, c ≠ '%' ∧ c ≠ '_' ∧ c ≠ '\\') :
    child ∈ postgresChildren docs dir ↔ child ≠ [] ∧ '/' ∉ child ∧ ∃ d ∈ docs, Under (dir ++ child) d.path := by
  rw [postgresChildren, List.mem_dedup, List.mem_filter, List.mem_map]
  constructor
  · rintro ⟨⟨d, hd, rfl⟩, hne⟩
    have hslash := slash_notMem_childName (d.path.drop dir.length)
    obtain ⟨hmem, hunder⟩ := (mem_postgresGroup hplain hslash).mp (List.mem_filter.mpr ⟨hd, beq_self_eq_true _⟩)
    exact ⟨fun h => by simp [h] at hne, hslash, d, hmem, hunder⟩
  · rintro ⟨hne, hslash, d, hd, hunder⟩
    obtain ⟨hfile, hname⟩ := List.mem_filter.mp ((mem_postgresGroup hplain hslash).mpr ⟨hd, hunder⟩)
    exact ⟨⟨d, hfile, eq_of_beq hname⟩, by simp [hne]⟩

theorem summary_postgres {child : Str} (hplain : ∀ c ∈ dir, c ≠ '%' ∧ c ≠ '_' ∧ c ≠ '\\') (hslash : '/' ∉ child)
    (hheld : ∃ d ∈ docs, Under (dir ++ child) d.path) : Summary .postgres [docs] (postgresEntry docs dir child) := by
  have hgroup := @mem_postgresGroup dir docs child hplain hslash
  obtain ⟨d₀, hd₀, hunder₀⟩ := hheld
  have hsome : ((postgresGroup docs dir child).map DatedDocument.updatedAt).max?.isSome := by
    rw [List.isSome_max?_iff]
    exact List.ne_nil_of_mem (List.mem_map_of_mem (hgroup.mpr ⟨hd₀, hunder₀⟩))
  obtain ⟨t, ht⟩ := Option.isSome_iff_exists.mp hsome
  obtain ⟨hmem, hle⟩ := List.max?_eq_some_iff.mp ht
  obtain ⟨d, hd, hdt⟩ := List.mem_map.mp hmem
  obtain ⟨hdmem, hunder⟩ := hgroup.mp hd
  refine ⟨?_, t, ht, ⟨docs, by simp, d, hdmem, hunder, hdt⟩, fun docs' hdocs d' hd' hunder' => ?_⟩
  · show (docs.any _) = true ↔ _
    rw [List.any_eq_true]
    constructor
    · rintro ⟨d', hd', hmarks⟩
      exact ⟨docs, by simp, ⟨d₀, hd₀, hunder₀⟩, d', hd', hmarks⟩
    · rintro ⟨docs', hdocs, -, d', hd', hmarks⟩
      obtain rfl := List.mem_singleton.mp hdocs
      exact ⟨d', hd', hmarks⟩
  · obtain rfl := List.mem_singleton.mp hdocs
    exact hle d'.updatedAt (List.mem_map_of_mem (hgroup.mpr ⟨hd', hunder'⟩))

theorem postgres_lists (docs : List DatedDocument) {directory : Str}
    (hplain : ∀ c ∈ dirPrefix directory, c ≠ '%' ∧ c ≠ '_' ∧ c ≠ '\\') :
    Lists .postgres [docs] (dirPrefix directory) (postgresListDirectory docs directory) := by
  have hentries : ∀ e, e ∈ postgresListDirectory docs directory ↔
      ∃ child ∈ postgresChildren docs (dirPrefix directory), postgresEntry docs (dirPrefix directory) child = e := by
    intro e
    simp only [postgresListDirectory, List.mem_map, (List.perm_insertionSort _ _).mem_iff]
  refine ⟨fun e he => ?_, fun child hne hslash hheld => ?_⟩
  · obtain ⟨child, hchild, rfl⟩ := (hentries e).mp he
    obtain ⟨hne, hslash, hheld⟩ := (mem_postgresChildren hplain).mp hchild
    exact ⟨⟨child, hne, hslash, rfl⟩, summary_postgres hplain hslash hheld⟩
  · obtain ⟨docs', hdocs, hheld⟩ := hheld
    obtain rfl := List.mem_singleton.mp hdocs
    exact ⟨_, (hentries _).mpr ⟨child, (mem_postgresChildren hplain).mpr ⟨hne, hslash, hheld⟩, rfl⟩, rfl⟩

end Scope

/-! ## All read scopes -/

/-- The documents of each read scope. -/
def readScopes (w : Workspace) (docs : List DatedDocument) : List (List DatedDocument) :=
  w.readUserIds.map fun scope => scopeDocs docs scope w.agentId

theorem storage_lists (storage : Storage) (docs : List DatedDocument) (userId : Str) (agentId : Option Nat)
    {directory : Str}
    (hplain : ∀ c ∈ dirPrefix directory, c ≠ '%' ∧ c ≠ '_' ∧ c ≠ '\\') :
    Lists storage.backend [scopeDocs docs userId agentId] (dirPrefix directory)
      (storage.listDirectory docs userId agentId directory) := by
  unfold Storage.listDirectory
  cases storage.backend with
  | libsql => exact libsql_lists storage.order _ directory
  | postgres => exact postgres_lists _ hplain

theorem mergeGroup_eq_mergeAll (entries : List WorkspaceEntry) :
    mergeGroup entries = Table.mergeAll mergeEntry entries := by
  cases entries <;> rfl

section Scopes

variable {α : Type*} {backend : Backend} {dir : Str} {scopes : List α} {docsOf : α → List DatedDocument}
  {entriesOf : α → List WorkspaceEntry}

/-- The listings of several scopes, merged, are a listing of all of them. -/
theorem lists_merge (order : Table.Iteration Str WorkspaceEntry)
    (h : ∀ scope ∈ scopes, Lists backend [docsOf scope] dir (entriesOf scope)) :
    Lists backend (scopes.map docsOf) dir (mergeWorkspaceEntries order (scopes.flatMap entriesOf)) := by
  have hgroup : ∀ {p : Str} {r : WorkspaceEntry}, r ∈ group p (scopes.flatMap entriesOf) ↔
      ∃ scope ∈ scopes, r ∈ entriesOf scope ∧ r.path = p := by
    intro p r
    simp only [group, List.mem_filter, List.mem_flatMap, decide_eq_true_eq]
    constructor
    · rintro ⟨⟨scope, hscope, hr⟩, hp⟩
      exact ⟨scope, hscope, hr, hp⟩
    · rintro ⟨scope, hscope, hr, hp⟩
      exact ⟨⟨scope, hscope, hr⟩, hp⟩
  have hdocs : ∀ scope ∈ scopes, docsOf scope ∈ scopes.map docsOf := fun scope hscope => List.mem_map_of_mem hscope
  refine ⟨fun e he => ?_, fun child hne hslash hheld => ?_⟩
  · have hmerged := (mem_mergeWorkspaceEntries order _).mp he
    rw [mergeGroup_eq_mergeAll] at hmerged
    obtain ⟨r₀, hr₀⟩ := exists_of_mergeAll hmerged
    obtain ⟨scope₀, hscope₀, hmem₀, hpath₀⟩ := hgroup.mp hr₀
    obtain ⟨⟨child, hne, hslash, hpath⟩, -⟩ := (h scope₀ hscope₀).sound r₀ hmem₀
    rw [hpath₀] at hpath
    have hdigest : Digest _ e := digest_mergeAll isDirectory_mergeEntry updatedAt_mergeEntry_dated (fun r hr => by
      obtain ⟨scope, hscope, hmem, -⟩ := hgroup.mp hr
      obtain ⟨t, ht, -⟩ := ((h scope hscope).sound r hmem).2.date
      rw [ht]
      rfl) hmerged
    -- the entry that a scope with a document of the path contributes
    have hentry : ∀ scope ∈ scopes, ∀ d ∈ docsOf scope, Under e.path d.path →
        ∃ r ∈ group e.path (scopes.flatMap entriesOf), r.path = e.path ∧ Summary backend [docsOf scope] r := by
      intro scope hscope d hd hunder
      obtain ⟨r, hr, hrpath⟩ := (h scope hscope).complete child hne hslash ⟨_, by simp, d, hd, hpath ▸ hunder⟩
      rw [← hpath] at hrpath
      exact ⟨r, hgroup.mpr ⟨scope, hscope, hr, hrpath⟩, hrpath, ((h scope hscope).sound r hr).2⟩
    obtain ⟨t, ht, ⟨r, hr, hrt⟩, hle⟩ := hdigest.date
    refine ⟨⟨child, hne, hslash, hpath⟩, ?_, t, ht, ?_, fun docs hmem d hd hunder => ?_⟩
    · rw [hdigest.directory]
      constructor
      · rintro ⟨r, hr, hrdir⟩
        obtain ⟨scope, hscope, hmem, hrpath⟩ := hgroup.mp hr
        obtain ⟨docs, hsingle, hheld⟩ := ((h scope hscope).sound r hmem).2.directory.mp hrdir
        obtain rfl := List.mem_singleton.mp hsingle
        exact ⟨_, hdocs scope hscope, hrpath ▸ hheld⟩
      · rintro ⟨docs, hmem, ⟨d, hd, hunder⟩, hmarks⟩
        obtain ⟨scope, hscope, rfl⟩ := List.mem_map.mp hmem
        obtain ⟨r, hr, hrpath, hsummary⟩ := hentry scope hscope d hd hunder
        exact ⟨r, hr, hsummary.directory.mpr ⟨_, by simp, ⟨d, hd, hrpath ▸ hunder⟩, hrpath ▸ hmarks⟩⟩
    · obtain ⟨scope, hscope, hmem, hrpath⟩ := hgroup.mp hr
      obtain ⟨t', ht', ⟨docs, hsingle, d, hd, hunder, hdt⟩, -⟩ := ((h scope hscope).sound r hmem).2.date
      obtain rfl := List.mem_singleton.mp hsingle
      obtain rfl : t' = t := Option.some.inj (ht'.symm.trans hrt)
      exact ⟨_, hdocs scope hscope, d, hd, hrpath ▸ hunder, hdt⟩
    · obtain ⟨scope, hscope, rfl⟩ := List.mem_map.mp hmem
      obtain ⟨r, hr, hrpath, hsummary⟩ := hentry scope hscope d hd hunder
      obtain ⟨s, hs, -, hlatest⟩ := hsummary.date
      exact (hlatest _ (by simp) d hd (hrpath ▸ hunder)).trans (hle r hr s hs)
  · obtain ⟨docs, hmem, d, hd, hunder⟩ := hheld
    obtain ⟨scope, hscope, rfl⟩ := List.mem_map.mp hmem
    obtain ⟨r, hr, hrpath⟩ := (h scope hscope).complete child hne hslash ⟨_, by simp, d, hd, hunder⟩
    obtain ⟨e, he⟩ := mergeAll_isSome mergeEntry (hgroup.mpr ⟨scope, hscope, hr, hrpath⟩)
    rw [← mergeGroup_eq_mergeAll] at he
    have hepath : e.path = dir ++ child := path_of_mergeGroup _ _ he
    exact ⟨e, (mem_mergeWorkspaceEntries order _).mpr (hepath ▸ he), hepath⟩

end Scopes

/-- A listing of a directory, whose name has no wildcard and whose entries are no identity files, over all read
scopes. -/
theorem lists_list (storage : Storage) (w : Workspace) (docs : List DatedDocument) {directory dir : Str}
    (hdir : dirPrefix (normalizeDirectory directory) = dir) (hplain : ∀ c ∈ dir, c ≠ '%' ∧ c ≠ '_' ∧ c ≠ '\\')
    (hslash : '/' ∈ dir) : Lists storage.backend (readScopes w docs) dir (w.list storage docs directory) := by
  have hlists : ∀ scope, Lists storage.backend [scopeDocs docs scope w.agentId] dir
      (storage.listDirectory docs scope w.agentId (normalizeDirectory directory)) := fun scope =>
    hdir ▸ storage_lists storage docs scope w.agentId (hdir.symm ▸ hplain)
  obtain ⟨rest, hscopes⟩ : ∃ rest, w.readUserIds = w.userId :: rest := by
    cases hr : w.readUserIds with
    | nil => simpa [hr] using w.head
    | cons u rest =>
      have hhead := w.head
      rw [hr] at hhead
      exact ⟨rest, by rw [Option.some.inj hhead]⟩
  have hfilter : ∀ scope, (storage.listDirectory docs scope w.agentId (normalizeDirectory directory)).filter
      (fun e => !isIdentityPath e.path) = storage.listDirectory docs scope w.agentId
          (normalizeDirectory directory) := by
    intro scope
    refine List.filter_eq_self.mpr fun e he => ?_
    obtain ⟨⟨child, -, -, hpath⟩, -⟩ := (hlists scope).sound e he
    have hmem : '/' ∈ e.path := by rw [hpath]; exact List.mem_append_left _ hslash
    have hnames : ∀ p ∈ IDENTITY_PATHS, '/' ∉ p := by decide
    rw [Bool.not_eq_true', isIdentityPath, Bool.eq_false_iff]
    exact fun hcontains => hnames e.path (List.contains_iff_mem.mp hcontains) hmem
  unfold list readScopes
  simp only [hfilter, hscopes, List.tail_cons]
  split
  · have hmerge : Lists _ ((w.userId :: rest).map fun scope => scopeDocs docs scope w.agentId) dir _ :=
      lists_merge storage.order fun scope _ => hlists scope
    rwa [List.flatMap_cons] at hmerge
  next hmulti =>
    have hrest : rest = [] := by
      cases rest with
      | nil => rfl
      | cons u rest => exact absurd (by simp [isMultiScope, hscopes]) hmulti
    rw [hrest]
    exact hlists w.userId

end Workspace

end Ironclaw

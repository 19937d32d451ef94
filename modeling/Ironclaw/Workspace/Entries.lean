import Ironclaw.Lib.Table
import Ironclaw.Lib.Text
import Mathlib.Data.Char
import Mathlib.Data.List.Lex
import Mathlib.Data.List.Sort

/-!
# Entries of several scopes

`merge_workspace_entries` merges the listings of several scopes into one entry for each path. Two entries of one path
are merged pairwise, in the order of the input: the date and the preview are those of the later one, and an entry that
is a directory drops the preview. A directory that was there before does not drop the preview of a later file.

- `lookup_seen`: the entry of a path is merged from the entries of that path alone;
- `mergeGroup_spec`: the date of a merged entry, and whether it is a directory, for every order;
- `shown_of_merge`, `merge_of_shows`: whose preview a merged entry can have;
- `merges_iff`: for which entries the merging is what it should be;
- `directory_with_preview`: a directory that gets the preview of a file.
-/

namespace Ironclaw.Workspace

structure WorkspaceEntry where
  path : Str
  isDirectory : Bool
  updatedAt : Option Int
  contentPreview : Option Str
  deriving DecidableEq

/-- The date of an entry gives way to that of a new one: to a later date, or to any when the entry has none. -/
def givesWay (existing new : Option Int) : Bool :=
  match existing, new with
  | some existingTs, some newTs => existingTs < newTs
  | none, _ => true
  | some _, none => false

/-- An entry that was seen, with a new one of the same path. -/
def mergeEntry (existing entry : WorkspaceEntry) : WorkspaceEntry :=
  let existing :=
    if givesWay existing.updatedAt entry.updatedAt then
      { existing with updatedAt := entry.updatedAt, contentPreview := entry.contentPreview }
    else existing
  if entry.isDirectory then { existing with isDirectory := true, contentPreview := none } else existing

/-- The hash map of the entries that were seen. -/
def seen (entries : List WorkspaceEntry) : Table Str WorkspaceEntry :=
  entries.foldl (fun seen entry =>
    seen.insert entry.path ((seen.lookup entry.path).elim entry fun existing => mergeEntry existing entry)) ∅

/-- `merge_workspace_entries`, with the order in which the hash map is iterated. -/
def mergeWorkspaceEntries (order : Table.Iteration Str WorkspaceEntry) (entries : List WorkspaceEntry) :
    List WorkspaceEntry :=
  ((order.entries (seen entries)).map fun e => e.2).insertionSort fun a b => a.path ≤ b.path

/-! ## The entries of one path -/

/-- The entries of a path, merged one after the other. -/
def mergeGroup : List WorkspaceEntry → Option WorkspaceEntry
  | [] => none
  | entry :: entries => some (entries.foldl mergeEntry entry)

def group (path : Str) (entries : List WorkspaceEntry) : List WorkspaceEntry := entries.filter fun e => e.path = path

section Seen

variable (path : Str) (entries : List WorkspaceEntry) (entry : WorkspaceEntry)

theorem mergeGroup_concat :
    mergeGroup (entries ++ [entry]) = some ((mergeGroup entries).elim entry fun existing =>
      mergeEntry existing entry) := by
  cases entries with
  | nil => rfl
  | cons first rest =>
    show some ((rest ++ [entry]).foldl mergeEntry first) = _
    rw [List.foldl_append]
    rfl

theorem path_mergeEntry (existing : WorkspaceEntry) : (mergeEntry existing entry).path = existing.path := by
  simp only [mergeEntry]
  split <;> split <;> rfl

theorem group_concat : group path (entries ++ [entry]) = group path entries ++ if entry.path = path then
    [entry] else [] := by
  rw [group, group, List.filter_append, List.filter_singleton]
  by_cases h : entry.path = path <;> simp [h]

theorem seen_concat : seen (entries ++ [entry]) = (seen entries).insert entry.path
    (((seen entries).lookup entry.path).elim entry fun existing => mergeEntry existing entry) := by
  rw [seen, List.foldl_append]
  rfl

/-- The entry of a path is merged from the entries of that path alone. -/
theorem lookup_seen : (seen entries).lookup path = mergeGroup (group path entries) := by
  induction entries using List.reverseRecOn with
  | nil => rfl
  | append_singleton entries entry ih =>
    rw [seen_concat, Table.lookup_insert, group_concat]
    by_cases h : entry.path = path
    · rw [if_pos h, if_pos h.symm, mergeGroup_concat, h, ih]
    · rw [if_neg h, if_neg (Ne.symm h), List.append_nil, ih]

theorem path_foldl : ∀ (entries : List WorkspaceEntry) (entry : WorkspaceEntry),
    (entries.foldl mergeEntry entry).path = entry.path
  | [], _ => rfl
  | e :: entries, entry => (path_foldl entries (mergeEntry entry e)).trans (path_mergeEntry e entry)

theorem path_of_mergeGroup {entry : WorkspaceEntry} (h : mergeGroup (group path entries) = some entry) :
    entry.path = path := by
  cases hgroup : group path entries with
  | nil =>
    rw [hgroup] at h
    cases h
  | cons first rest =>
    rw [hgroup] at h
    cases h
    have hfirst : first ∈ group path entries := by
      rw [hgroup]
      exact List.mem_cons_self
    exact (path_foldl rest first).trans (of_decide_eq_true (List.mem_filter.mp hfirst).2)

end Seen

/-! ## The result -/

section Result

variable (order : Table.Iteration Str WorkspaceEntry) (entries : List WorkspaceEntry)

/-- The result has the merged entry of each path. -/
theorem mem_mergeWorkspaceEntries {entry : WorkspaceEntry} :
    entry ∈ mergeWorkspaceEntries order entries ↔ mergeGroup (group entry.path entries) = some entry := by
  unfold mergeWorkspaceEntries
  rw [(List.perm_insertionSort _ _).mem_iff, List.mem_map]
  constructor
  · rintro ⟨⟨path, entry'⟩, hmem, rfl⟩
    have hlookup : (seen entries).lookup path = some entry' :=
      Table.mem_entries_iff.mp ((order.perm _).mem_iff.mp hmem)
    rw [lookup_seen] at hlookup
    have hpath : entry'.path = path := path_of_mergeGroup path entries hlookup
    rw [hpath]
    exact hlookup
  · intro h
    refine ⟨⟨entry.path, entry⟩, (order.perm _).mem_iff.mpr (Table.mem_entries_iff.mpr ?_), rfl⟩
    rw [lookup_seen]
    exact h

/-- The result is sorted by path, with no path twice. -/
theorem sorted_mergeWorkspaceEntries : (mergeWorkspaceEntries order entries).Pairwise fun a b => a.path < b.path := by
  have hpaths : ((order.entries (seen entries)).map fun e => e.2).Pairwise fun a b => a.path ≠ b.path := by
    have hkeys : (order.entries (seen entries)).Pairwise fun e f => e.1 ≠ f.1 :=
      ((order.perm _).pairwise_iff fun h => Ne.symm h).mpr
        (List.pairwise_map.mp (seen entries).nodupKeys)
    refine List.pairwise_map.mpr (hkeys.imp_of_mem fun {e f} he hf hne => ?_)
    have hpath : ∀ g ∈ order.entries (seen entries), g.2.path = g.1 := fun g hg => by
      have hlookup : (seen entries).lookup g.1 = some g.2 :=
        Table.mem_entries_iff.mp ((order.perm _).mem_iff.mp hg)
      rw [lookup_seen] at hlookup
      exact path_of_mergeGroup g.1 entries hlookup
    rw [hpath e he, hpath f hf]
    exact hne
  have hle : (mergeWorkspaceEntries order entries).Pairwise fun a b => a.path ≤ b.path := by
    have htotal : Std.Total fun a b : WorkspaceEntry => a.path ≤ b.path := ⟨fun a b => le_total a.path b.path⟩
    have htrans : IsTrans WorkspaceEntry fun a b => a.path ≤ b.path := ⟨fun _ _ _ => le_trans⟩
    exact List.pairwise_insertionSort _ _
  have hne : (mergeWorkspaceEntries order entries).Pairwise fun a b => a.path ≠ b.path :=
    ((List.perm_insertionSort _ _).pairwise_iff fun h => Ne.symm h).mpr hpaths
  exact (hle.and hne).imp fun h => Std.lt_of_le_of_ne h.1 h.2

/-- Two results with the same entries are equal. -/
theorem eq_of_sorted {result result' : List WorkspaceEntry} (h : result.Pairwise fun a b => a.path < b.path)
    (h' : result'.Pairwise fun a b => a.path < b.path) (hmem : ∀ e, e ∈ result ↔ e ∈ result') : result = result' := by
  have hirrefl : Std.Irrefl fun a b : WorkspaceEntry => a.path < b.path := ⟨fun a => lt_irrefl a.path⟩
  have hantisymm : Std.Antisymm fun a b : WorkspaceEntry => a.path < b.path :=
    ⟨fun a _ hab hba => absurd (lt_trans hab hba) (lt_irrefl a.path)⟩
  exact h.eq_of_mem_iff h' hmem

end Result

/-! ## Dates -/

/-- A date is not after another one; no date is before every date. -/
def NotAfter (s t : Option Int) : Prop := ∀ a ∈ s, ∃ b ∈ t, a ≤ b

section Dates

variable {s t u : Option Int}

theorem NotAfter.refl (s : Option Int) : NotAfter s s := fun a ha => ⟨a, ha, le_refl a⟩

theorem NotAfter.trans (h : NotAfter s t) (h' : NotAfter t u) : NotAfter s u := fun a ha => by
  obtain ⟨b, hb, hab⟩ := h a ha
  obtain ⟨c, hc, hbc⟩ := h' b hb
  exact ⟨c, hc, hab.trans hbc⟩

theorem NotAfter.antisymm (h : NotAfter s t) (h' : NotAfter t s) : s = t := by
  cases s with
  | none =>
    cases t with
    | none => rfl
    | some b =>
      obtain ⟨_, ha, -⟩ := h' b rfl
      cases ha
  | some a =>
    obtain ⟨b, rfl, hab⟩ := h a rfl
    obtain ⟨_, ⟨⟩, hba⟩ := h' b rfl
    exact congrArg some (le_antisymm hab hba)

/-- A date gives way to one that is not before it. -/
theorem notAfter_of_givesWay (h : givesWay s t = true) : NotAfter s t := by
  cases s with
  | none => exact fun _ ha => by cases ha
  | some a =>
    cases t with
    | none => cases h
    | some b =>
      rintro _ ⟨⟩
      exact ⟨b, rfl, (of_decide_eq_true h).le⟩

/-- A date that does not give way is a date, and the new one is not after it. -/
theorem notAfter_of_not_givesWay (h : givesWay s t = false) : s.isSome ∧ NotAfter t s := by
  cases s with
  | none => cases h
  | some a =>
    refine ⟨rfl, ?_⟩
    cases t with
    | none => exact fun _ hb => by cases hb
    | some b =>
      rintro _ ⟨⟩
      exact ⟨a, rfl, not_lt.mp (of_decide_eq_false h)⟩

theorem givesWay_eq_false (hs : s.isSome) (h : NotAfter t s) : givesWay s t = false := by
  refine Bool.eq_false_iff.mpr fun hgives => ?_
  obtain ⟨a, rfl⟩ := Option.isSome_iff_exists.mp hs
  cases t with
  | none => cases hgives
  | some b =>
    obtain ⟨_, ⟨⟩, hba⟩ := h b rfl
    exact absurd (of_decide_eq_true hgives) (not_lt.mpr hba)

theorem not_isSome_of_notAfter (hs : s = none) (h : NotAfter t s) : t = none := by
  cases t with
  | none => rfl
  | some b =>
    obtain ⟨_, hb, -⟩ := h b rfl
    rw [hs] at hb
    cases hb

end Dates

/-! ## The merged entry of a path -/

/-- The date of an entry is the latest of some entries. -/
def Latest (entries : List WorkspaceEntry) (entry : WorkspaceEntry) : Prop :=
  ∀ e ∈ entries, NotAfter e.updatedAt entry.updatedAt

/-- The preview of an entry can be the one that is left: that of a file with the latest date when every directory is
older, or nothing has a date; and that of a directory which has the latest date, or is the only entry, when there is no
other directory. -/
def Shows (entries : List WorkspaceEntry) (entry : WorkspaceEntry) : Prop :=
  entry ∈ entries ∧ Latest entries entry ∧
    if entry.isDirectory then
      entries.countP (·.isDirectory) = 1 ∧ (entry.updatedAt.isSome ∨ entries.length = 1)
    else ∀ d ∈ entries, d.isDirectory = true → entry.updatedAt = none ∨ ¬NotAfter entry.updatedAt d.updatedAt

section Group

variable {entries : List WorkspaceEntry} {entry merged : WorkspaceEntry}

theorem isDirectory_mergeEntry (existing entry : WorkspaceEntry) :
    (mergeEntry existing entry).isDirectory = (existing.isDirectory || entry.isDirectory) := by
  simp only [mergeEntry]
  cases hdir : entry.isDirectory <;> cases givesWay existing.updatedAt entry.updatedAt <;> simp

theorem updatedAt_mergeEntry (existing entry : WorkspaceEntry) : (mergeEntry existing entry).updatedAt =
    if givesWay existing.updatedAt entry.updatedAt then entry.updatedAt else existing.updatedAt := by
  simp only [mergeEntry]
  cases entry.isDirectory <;> cases givesWay existing.updatedAt entry.updatedAt <;> rfl

theorem contentPreview_mergeEntry (existing entry : WorkspaceEntry) : (mergeEntry existing entry).contentPreview =
    if entry.isDirectory then none
    else if givesWay existing.updatedAt entry.updatedAt then entry.contentPreview else existing.contentPreview := by
  simp only [mergeEntry]
  cases entry.isDirectory <;> cases givesWay existing.updatedAt entry.updatedAt <;> rfl

/-- The date of a merged entry is the latest one, and it is a directory when one of its entries is. -/
theorem mergeGroup_spec (h : mergeGroup entries = some merged) :
    (∃ e ∈ entries, e.updatedAt = merged.updatedAt) ∧ Latest entries merged ∧
      (merged.isDirectory = true ↔ ∃ e ∈ entries, e.isDirectory = true) := by
  induction entries using List.reverseRecOn generalizing merged with
  | nil => cases h
  | append_singleton entries entry ih =>
    rw [mergeGroup_concat] at h
    cases hgroup : mergeGroup entries with
    | none =>
      rw [hgroup] at h
      cases h
      have hnil : entries = [] := by
        cases entries with
        | nil => rfl
        | cons => cases hgroup
      subst hnil
      refine ⟨⟨entry, List.mem_singleton.mpr rfl, rfl⟩, fun e he => List.mem_singleton.mp he ▸ NotAfter.refl _, ?_⟩
      exact ⟨fun hdir => ⟨entry, List.mem_singleton.mpr rfl, hdir⟩, fun ⟨e, he, hdir⟩ =>
        List.mem_singleton.mp he ▸ hdir⟩
    | some existing =>
      rw [hgroup] at h
      cases h
      obtain ⟨⟨e, he, hdate⟩, hlatest, hdir⟩ := ih hgroup
      rw [Option.elim_some]
      have hnew : entry ∈ entries ++ [entry] := List.mem_append_right _ List.mem_cons_self
      have hold : ∀ x ∈ entries, x ∈ entries ++ [entry] := fun x hx => List.mem_append_left _ hx
      refine ⟨?_, fun x hx => ?_, ?_⟩
      · rw [updatedAt_mergeEntry]
        split
        · exact ⟨entry, hnew, rfl⟩
        · exact ⟨e, hold e he, hdate⟩
      · rw [updatedAt_mergeEntry]
        cases hgives : givesWay existing.updatedAt entry.updatedAt with
        | true =>
          rw [if_pos rfl]
          rcases List.mem_append.mp hx with hx | hx
          · exact (hlatest x hx).trans (notAfter_of_givesWay hgives)
          · rw [List.mem_singleton.mp hx]
            exact NotAfter.refl _
        | false =>
          rw [if_neg Bool.false_ne_true]
          rcases List.mem_append.mp hx with hx | hx
          · exact hlatest x hx
          · rw [List.mem_singleton.mp hx]
            exact (notAfter_of_not_givesWay hgives).2
      · rw [isDirectory_mergeEntry, Bool.or_eq_true, hdir]
        constructor
        · rintro (⟨x, hx, hxdir⟩ | hentry)
          · exact ⟨x, hold x hx, hxdir⟩
          · exact ⟨entry, hnew, hentry⟩
        · rintro ⟨x, hx, hxdir⟩
          rcases List.mem_append.mp hx with hx | hx
          · exact .inl ⟨x, hx, hxdir⟩
          · exact .inr (List.mem_singleton.mp hx ▸ hxdir)

/-- An entry whose preview shows still shows when a file that is not later comes after it. -/
theorem shows_concat (h : Shows entries entry) {file : WorkspaceEntry} (hfile : file.isDirectory = false)
    (hold : NotAfter file.updatedAt entry.updatedAt) (hdated : entry.updatedAt.isSome) :
      Shows (entries ++ [file]) entry := by
  obtain ⟨hmem, hlatest, hkind⟩ := h
  refine ⟨List.mem_append_left _ hmem, fun e he => ?_, ?_⟩
  · rcases List.mem_append.mp he with he | he
    · exact hlatest e he
    · rw [List.mem_singleton.mp he]
      exact hold
  · split at hkind
    next hdir =>
      rw [if_pos hdir, List.countP_append, List.countP_singleton, hfile]
      exact ⟨hkind.1, .inl hdated⟩
    next hdir =>
      rw [if_neg hdir]
      intro d hd hddir
      rcases List.mem_append.mp hd with hd | hd
      · exact hkind d hd hddir
      · rw [List.mem_singleton.mp hd, hfile] at hddir
        cases hddir

/-- The preview of a merged entry is one that can show, or none when there is a directory. -/
theorem shown_of_merge (h : mergeGroup entries = some merged) :
    (∃ e, Shows entries e ∧ merged.contentPreview = e.contentPreview) ∨
      (∃ d ∈ entries, d.isDirectory = true) ∧ merged.contentPreview = none := by
  induction entries using List.reverseRecOn generalizing merged with
  | nil => cases h
  | append_singleton entries entry ih =>
    rw [mergeGroup_concat] at h
    have hnew : entry ∈ entries ++ [entry] := List.mem_append_right _ List.mem_cons_self
    cases hgroup : mergeGroup entries with
    | none =>
      rw [hgroup] at h
      cases h
      have hnil : entries = [] := by
        cases entries with
        | nil => rfl
        | cons => cases hgroup
      subst hnil
      refine .inl ⟨entry, ⟨hnew, fun e he => List.mem_singleton.mp he ▸ NotAfter.refl _, ?_⟩, rfl⟩
      split
      next hdir => exact ⟨by simp [hdir], .inr rfl⟩
      next hdir => exact fun d hd hddir => absurd (List.mem_singleton.mp hd ▸ hddir) hdir
    | some existing =>
      rw [hgroup] at h
      cases h
      rw [Option.elim_some, contentPreview_mergeEntry]
      obtain ⟨⟨e, he, hdate⟩, hlatest, -⟩ := mergeGroup_spec hgroup
      cases hdir : entry.isDirectory with
      | true => exact .inr ⟨⟨entry, hnew, hdir⟩, if_pos rfl⟩
      | false =>
        rw [if_neg Bool.false_ne_true]
        cases hgives : givesWay existing.updatedAt entry.updatedAt with
        | true =>
          -- the new file is later than everything before it, or nothing has a date
          rw [if_pos rfl]
          refine .inl ⟨entry, ⟨hnew, fun x hx => ?_, ?_⟩, rfl⟩
          · rcases List.mem_append.mp hx with hx | hx
            · exact (hlatest x hx).trans (notAfter_of_givesWay hgives)
            · rw [List.mem_singleton.mp hx]
              exact NotAfter.refl _
          · rw [hdir, if_neg Bool.false_ne_true]
            intro d hd hddir
            rcases List.mem_append.mp hd with hd | hd
            · refine or_iff_not_imp_left.mpr fun hdated hnot => ?_
              have hsome : existing.updatedAt.isSome := by
                rw [Option.isSome_iff_ne_none]
                intro hnone
                exact hdated (not_isSome_of_notAfter hnone (hnot.trans (hlatest d hd)))
              rw [givesWay_eq_false hsome (hnot.trans (hlatest d hd))] at hgives
              cases hgives
            · rw [List.mem_singleton.mp hd, hdir] at hddir
              cases hddir
        | false =>
          rw [if_neg Bool.false_ne_true]
          obtain ⟨hsome, hold⟩ := notAfter_of_not_givesWay hgives
          rcases ih hgroup with ⟨x, hx, hpreview⟩ | ⟨⟨d, hd, hddir⟩, hpreview⟩
          · have hxdate : x.updatedAt = existing.updatedAt :=
              (hlatest x hx.1).antisymm (hdate ▸ hx.2.1 e he)
            exact .inl ⟨x, shows_concat hx hdir (hxdate ▸ hold) (hxdate ▸ hsome), hpreview⟩
          · exact .inr ⟨⟨d, List.mem_append_left _ hd, hddir⟩, hpreview⟩

/-- Files that are not later than an entry leave it as it is. -/
theorem foldl_of_older : ∀ (files : List WorkspaceEntry) {entry : WorkspaceEntry}, entry.updatedAt.isSome →
    (∀ f ∈ files, f.isDirectory = false ∧ NotAfter f.updatedAt entry.updatedAt) → files.foldl mergeEntry entry = entry
  | [], _, _, _ => rfl
  | f :: files, entry, hdated, h => by
    obtain ⟨hfile, hold⟩ := h f List.mem_cons_self
    have hsame : mergeEntry entry f = entry := by
      simp only [mergeEntry, givesWay_eq_false hdated hold, hfile, Bool.false_eq_true, if_false]
    rw [List.foldl_cons, hsame]
    exact foldl_of_older files hdated fun g hg => h g (List.mem_cons_of_mem f hg)

/-- For every preview that can show there is an order in which it does. -/
theorem merge_of_shows (h : Shows entries entry) : ∃ entries', entries'.Perm entries ∧
    ∃ merged, mergeGroup entries' = some merged ∧ merged.contentPreview = entry.contentPreview := by
  obtain ⟨hmem, hlatest, hkind⟩ := h
  have hperm := List.perm_cons_erase hmem
  have hrest : ∀ e ∈ entries.erase entry, NotAfter e.updatedAt entry.updatedAt := fun e he =>
    hlatest e (List.mem_of_mem_erase he)
  split at hkind
  next hdir =>
    obtain ⟨hcount, hdated⟩ := hkind
    refine ⟨entry :: entries.erase entry, hperm.symm, _, rfl, ?_⟩
    have hfiles : ∀ f ∈ entries.erase entry, f.isDirectory = false := by
      rw [hperm.countP_eq, List.countP_cons, if_pos hdir] at hcount
      have hzero : (entries.erase entry).countP (·.isDirectory) = 0 := by omega
      exact fun f hf => Bool.eq_false_iff.mpr fun hfdir => List.countP_eq_zero.mp hzero f hf hfdir
    rcases hdated with hdated | hlength
    · rw [foldl_of_older _ hdated fun f hf => ⟨hfiles f hf, hrest f hf⟩]
    · have hnil : entries.erase entry = [] := by
        rw [hperm.length_eq, List.length_cons] at hlength
        exact List.length_eq_zero_iff.mp (by omega)
      rw [hnil]
      rfl
  next hdir =>
    have hentry : entry.isDirectory = false := Bool.eq_false_iff.mpr hdir
    cases hdated : entry.updatedAt.isSome with
    | true =>
      -- the directories first, then the entry, then the other files
      have hsplit := List.filter_append_perm (fun e => e.isDirectory) (entries.erase entry)
      refine ⟨(entries.erase entry).filter (fun e => e.isDirectory) ++
          entry :: (entries.erase entry).filter (fun e => !e.isDirectory),
        List.perm_middle.trans ((hsplit.cons entry).trans hperm.symm), ?_⟩
      have hfiles : ∀ f ∈ (entries.erase entry).filter (fun e => !e.isDirectory),
          f.isDirectory = false ∧ NotAfter f.updatedAt entry.updatedAt := fun f hf => by
        obtain ⟨hf, hffile⟩ := List.mem_filter.mp hf
        exact ⟨by simpa using hffile, hrest f hf⟩
      cases hdirs : (entries.erase entry).filter (fun e => e.isDirectory) with
      | nil => exact ⟨_, rfl, by rw [foldl_of_older _ hdated hfiles]⟩
      | cons d ds =>
        obtain ⟨existing, hexisting⟩ : ∃ existing, mergeGroup (d :: ds) = some existing := ⟨_, rfl⟩
        obtain ⟨⟨e, he, hdate⟩, -, -⟩ := mergeGroup_spec hexisting
        have hgives : givesWay existing.updatedAt entry.updatedAt = true := by
          refine Bool.of_not_eq_false fun hnot => ?_
          obtain ⟨-, hold⟩ := notAfter_of_not_givesWay hnot
          rw [← hdirs] at he
          obtain ⟨he, hedir⟩ := List.mem_filter.mp he
          rcases hkind e (List.mem_of_mem_erase he) hedir with hnone | hlater
          · rw [hnone] at hdated
            cases hdated
          · exact hlater (hdate ▸ hold)
        have hdate' : (mergeEntry existing entry).updatedAt = entry.updatedAt := by
          rw [updatedAt_mergeEntry, if_pos hgives]
        have hexisting' : ds.foldl mergeEntry d = existing := Option.some.inj hexisting
        refine ⟨mergeEntry existing entry, ?_, ?_⟩
        · show some ((ds ++ entry :: _).foldl mergeEntry d) = _
          rw [List.foldl_append, List.foldl_cons, hexisting', foldl_of_older _ (hdate' ▸ hdated) (hdate' ▸ hfiles)]
        · rw [contentPreview_mergeEntry, hentry, if_neg Bool.false_ne_true, if_pos hgives]
    | false =>
      -- nothing has a date, and the last entry is taken
      have hnone : entry.updatedAt = none := by
        cases hdate : entry.updatedAt with
        | none => rfl
        | some t =>
          rw [hdate] at hdated
          cases hdated
      refine ⟨entries.erase entry ++ [entry], (List.perm_append_singleton entry _).trans hperm.symm, _,
        mergeGroup_concat _ _, ?_⟩
      cases hgroup : mergeGroup (entries.erase entry) with
      | none => rfl
      | some existing =>
        obtain ⟨⟨e, he, hdate⟩, -, -⟩ := mergeGroup_spec hgroup
        have hexisting : existing.updatedAt = none := hdate ▸ not_isSome_of_notAfter hnone (hrest e he)
        rw [Option.elim_some, contentPreview_mergeEntry, hentry, if_neg Bool.false_ne_true, hexisting]
        rfl

end Group

/-! ## What the merging is to be -/

/-- The result does not depend on an order, is sorted with one entry for each path, has a directory where an input entry
is one, with no preview, and the latest date of each path. -/
structure Merges (entries result : List WorkspaceEntry) : Prop where
  orderFree : ∀ order entries', entries'.Perm entries → mergeWorkspaceEntries order entries' = result
  sorted : result.Pairwise fun a b => a.path < b.path
  paths : ∀ path, (∃ e ∈ result, e.path = path) ↔ ∃ e ∈ entries, e.path = path
  directory : ∀ e ∈ result, (e.isDirectory = true ↔ ∃ x ∈ entries, x.path = e.path ∧ x.isDirectory = true)
  preview : ∀ e ∈ result, e.isDirectory = true → e.contentPreview = none
  newest : ∀ e ∈ result, (∃ x ∈ entries, x.path = e.path ∧ x.updatedAt = e.updatedAt) ∧
    ∀ x ∈ entries, x.path = e.path → NotAfter x.updatedAt e.updatedAt

/-- With a directory, no preview can show; without one, all those that can show are the same. -/
structure Settled (entries : List WorkspaceEntry) : Prop where
  hidden : (∃ d ∈ entries, d.isDirectory = true) → ∀ e, Shows entries e → e.contentPreview = none
  same : (∀ e ∈ entries, e.isDirectory = false) → ∀ e e', Shows entries e → Shows entries e' →
    e.contentPreview = e'.contentPreview

section Settle

variable {entries entries' : List WorkspaceEntry} {entry : WorkspaceEntry} {path : Str}

theorem mem_group {e : WorkspaceEntry} : e ∈ group path entries ↔ e ∈ entries ∧ e.path = path := by
  rw [group, List.mem_filter, decide_eq_true_iff]

theorem shows_perm (hperm : entries'.Perm entries) (h : Shows entries' entry) : Shows entries entry := by
  obtain ⟨hmem, hlatest, hkind⟩ := h
  refine ⟨hperm.mem_iff.mp hmem, fun e he => hlatest e (hperm.mem_iff.mpr he), ?_⟩
  split at hkind
  next hdir =>
    rw [if_pos hdir, ← hperm.countP_eq, ← hperm.length_eq]
    exact hkind
  next hdir =>
    rw [if_neg hdir]
    exact fun d hd => hkind d (hperm.mem_iff.mpr hd)

/-- The preview of a settled directory is dropped in every order. -/
theorem Settled.preview (h : Settled entries) (hperm : entries'.Perm entries) {merged : WorkspaceEntry}
    (hmerged : mergeGroup entries' = some merged) (hdir : ∃ d ∈ entries, d.isDirectory = true) :
    merged.contentPreview = none := by
  rcases shown_of_merge hmerged with ⟨e, he, hpreview⟩ | ⟨-, hpreview⟩
  · exact hpreview.trans (h.hidden hdir e (shows_perm hperm he))
  · exact hpreview

/-- Settled entries of one path give the same entry in every order. -/
theorem Settled.mergeGroup_eq (h : Settled (group path entries)) (hperm : entries'.Perm entries) :
    mergeGroup (group path entries') = mergeGroup (group path entries) := by
  have hgroup : (group path entries').Perm (group path entries) := hperm.filter _
  cases hmerged : mergeGroup (group path entries) with
  | none =>
    have hnil : group path entries = [] := by
      cases hg : group path entries with
      | nil => rfl
      | cons =>
        rw [hg] at hmerged
        cases hmerged
    rw [hnil] at hgroup
    rw [hgroup.eq_nil]
    rfl
  | some merged =>
    obtain ⟨merged', hmerged'⟩ : ∃ merged', mergeGroup (group path entries') = some merged' := by
      cases hg : group path entries' with
      | nil =>
        rw [hg] at hgroup
        rw [hgroup.nil_eq.symm] at hmerged
        cases hmerged
      | cons first rest => exact ⟨_, rfl⟩
    rw [hmerged']
    obtain ⟨⟨e, he, hdate⟩, hlatest, hdir⟩ := mergeGroup_spec hmerged
    obtain ⟨⟨e', he', hdate'⟩, hlatest', hdir'⟩ := mergeGroup_spec hmerged'
    have hpaths : merged'.path = merged.path :=
      (path_of_mergeGroup path entries' hmerged').trans (path_of_mergeGroup path entries hmerged).symm
    have hdirs : merged'.isDirectory = merged.isDirectory := by
      refine Bool.eq_iff_iff.mpr (hdir'.trans (Iff.trans ?_ hdir.symm))
      exact exists_congr fun d => and_congr_left fun _ => hgroup.mem_iff
    have hdates : merged'.updatedAt = merged.updatedAt :=
      (hdate' ▸ hlatest e' (hgroup.mem_iff.mp he')).antisymm (hdate ▸ hlatest' e (hgroup.mem_iff.mpr he))
    have hpreviews : merged'.contentPreview = merged.contentPreview := by
      by_cases hany : ∃ d ∈ group path entries, d.isDirectory = true
      · rw [h.preview hgroup hmerged' hany, h.preview (List.Perm.refl _) hmerged hany]
      · have hfiles : ∀ d ∈ group path entries, d.isDirectory = false := fun d hd =>
          Bool.eq_false_iff.mpr fun hddir => hany ⟨d, hd, hddir⟩
        rcases shown_of_merge hmerged with ⟨x, hx, hpreview⟩ | ⟨hd, -⟩
        · rcases shown_of_merge hmerged' with ⟨x', hx', hpreview'⟩ | ⟨⟨d, hd, hddir⟩, -⟩
          · rw [hpreview, hpreview']
            exact h.same hfiles x' x (shows_perm hgroup hx') hx
          · exact absurd ⟨d, hgroup.mem_iff.mp hd, hddir⟩ hany
        · exact absurd hd hany
    cases merged
    cases merged'
    simp_all only

end Settle

/-- Another order of the entries of one path is an order of all entries. -/
theorem perm_of_group {entries order : List WorkspaceEntry} {path : Str} (h : order.Perm (group path entries)) :
    ∃ entries', entries'.Perm entries ∧ group path entries' = order := by
  refine ⟨order ++ entries.filter fun e => !decide (e.path = path), ?_, ?_⟩
  · exact (h.append_right _).trans (List.filter_append_perm _ entries)
  · have hall : ∀ e ∈ order, e.path = path := fun e he => (mem_group.1 (h.mem_iff.mp he)).2
    rw [group, List.filter_append, List.filter_filter]
    have hnone : (entries.filter fun e => decide (e.path = path) && !decide (e.path = path)) = [] :=
      List.filter_eq_nil_iff.mpr fun e _ => by simp
    rw [hnone, List.append_nil]
    exact List.filter_eq_self.mpr fun e he => decide_eq_true (hall e he)

/-- The merging is what it should be exactly when, for each path, no preview of a file can show on a directory, and the
previews that can show on a file are the same. -/
theorem merges_iff (order : Table.Iteration Str WorkspaceEntry) (entries : List WorkspaceEntry) :
    Merges entries (mergeWorkspaceEntries order entries) ↔ ∀ path, Settled (group path entries) := by
  constructor
  · intro h path
    -- a preview that can show is the preview of the result, which is the same for every order
    have hshown : ∀ e, Shows (group path entries) e → ∃ merged, mergeGroup (group path entries) = some merged ∧
        merged ∈ mergeWorkspaceEntries order entries ∧ merged.contentPreview = e.contentPreview := by
      intro e he
      obtain ⟨group', hperm, merged, hmerged, hpreview⟩ := merge_of_shows he
      obtain ⟨entries', hentries, rfl⟩ := perm_of_group hperm
      have hpath := path_of_mergeGroup path entries' hmerged
      have hmem : merged ∈ mergeWorkspaceEntries order entries' := by
        rw [mem_mergeWorkspaceEntries, hpath]
        exact hmerged
      rw [h.orderFree order entries' hentries] at hmem
      have hmem' := (mem_mergeWorkspaceEntries order entries).mp hmem
      rw [hpath] at hmem'
      exact ⟨merged, hmem', hmem, hpreview⟩
    refine ⟨fun hany e he => ?_, fun _ e e' he he' => ?_⟩
    · obtain ⟨merged, hmerged, hmem, hpreview⟩ := hshown e he
      rw [← hpreview]
      exact h.preview merged hmem ((mergeGroup_spec hmerged).2.2.mpr hany)
    · obtain ⟨merged, hmerged, -, hpreview⟩ := hshown e he
      obtain ⟨merged', hmerged', -, hpreview'⟩ := hshown e' he'
      rw [← hpreview, ← hpreview', Option.some.inj (hmerged.symm.trans hmerged')]
  · intro h
    have hspec : ∀ e ∈ mergeWorkspaceEntries order entries, mergeGroup (group e.path entries) = some e := fun e he =>
      (mem_mergeWorkspaceEntries order entries).mp he
    exact
      { orderFree := fun order' entries' hperm =>
          eq_of_sorted (sorted_mergeWorkspaceEntries order' entries') (sorted_mergeWorkspaceEntries order entries)
              fun e => by
            rw [mem_mergeWorkspaceEntries, mem_mergeWorkspaceEntries, (h e.path).mergeGroup_eq hperm]
        sorted := sorted_mergeWorkspaceEntries order entries
        paths := fun path => by
          constructor
          · rintro ⟨e, he, rfl⟩
            obtain ⟨⟨x, hx, -⟩, -, -⟩ := mergeGroup_spec (hspec e he)
            exact ⟨x, mem_group.mp hx⟩
          · rintro ⟨x, hx, rfl⟩
            cases hg : group x.path entries with
            | nil =>
              have hmem := mem_group.mpr ⟨hx, rfl⟩
              rw [hg] at hmem
              cases hmem
            | cons first rest =>
              have hmerged : mergeGroup (group x.path entries) = some (rest.foldl mergeEntry first) := by rw [hg]; rfl
              have hpath := path_of_mergeGroup x.path entries hmerged
              refine ⟨_, (mem_mergeWorkspaceEntries order entries).mpr ?_, hpath⟩
              rw [hpath]
              exact hmerged
        directory := fun e he => by
          refine (mergeGroup_spec (hspec e he)).2.2.trans (exists_congr fun x => ?_)
          rw [mem_group, and_assoc]
        preview := fun e he hdir =>
          (h e.path).preview (List.Perm.refl _) (hspec e he) ((mergeGroup_spec (hspec e he)).2.2.mp hdir)
        newest := fun e he => by
          obtain ⟨⟨x, hx, hdate⟩, hlatest, -⟩ := mergeGroup_spec (hspec e he)
          exact ⟨⟨x, (mem_group.mp hx).1, (mem_group.mp hx).2, hdate⟩,
            fun y hy hpath => hlatest y (mem_group.mpr ⟨hy, hpath⟩)⟩ }

/-- A directory in one scope, and a later file of the same path in another: the result is a directory with a preview. -/
theorem directory_with_preview :
    let dir : WorkspaceEntry := ⟨"notes".toList, true, some 1, none⟩
    let file : WorkspaceEntry := ⟨"notes".toList, false, some 2, some "text".toList⟩
    mergeWorkspaceEntries .plain [dir, file] = [⟨"notes".toList, true, some 2, some "text".toList⟩] ∧
      mergeWorkspaceEntries .plain [file, dir] = [⟨"notes".toList, true, some 2, none⟩] ∧
      ¬Merges [dir, file] (mergeWorkspaceEntries .plain [dir, file]) := by
  have hresult : mergeWorkspaceEntries .plain
      [⟨"notes".toList, true, some 1, none⟩, ⟨"notes".toList, false, some 2, some "text".toList⟩] =
      [⟨"notes".toList, true, some 2, some "text".toList⟩] := by decide
  refine ⟨hresult, by decide, fun h => ?_⟩
  have hpreview := h.preview
  rw [hresult] at hpreview
  cases hpreview _ (List.mem_singleton.mpr rfl) rfl

end Ironclaw.Workspace

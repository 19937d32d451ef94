import Mathlib.Data.List.AList
import Mathlib.Tactic

/-!
# Tables

A hash map as an association list with distinct keys, Mathlib's `AList`. Beside its operations there are `modify`,
`retain` and `count`, the number of values with a property:

- what an operation leaves under each key (`lookup_insert`, `lookup_erase`, `lookup_modify`, `lookup_retain`);
- what it does to the counts (`count_insert_le`, `count_erase_le`, `count_modify_le`) and to the length;
- an entry that is added and taken away again leaves the table as it was (`erase_insert`, `erase_modify`);
- what it does to a sum over the entries (`sum_of_lookup`, `sum_insert`, `sum_retain`);
- the values of a key that are merged into one (`lookup_grouped`).
-/

namespace Ironclaw

/-- A map from keys to values. -/
abbrev Table (κ ν : Type*) := AList fun _ : κ => ν

namespace Table

variable {κ ν : Type*}

/-- `HashMap::retain`. -/
def retain (p : κ → ν → Bool) (t : Table κ ν) : Table κ ν :=
  ⟨t.entries.filter fun e => p e.1 e.2, t.nodupKeys.sublist List.filter_sublist⟩

/-- The number of values with a property. -/
def count (p : ν → Bool) (t : Table κ ν) : Nat := t.entries.countP fun e => p e.2

/-- `HashMap::len`. -/
def len (t : Table κ ν) : Nat := t.entries.length

theorem len_eq_count (t : Table κ ν) : len t = count (fun _ => true) t := (congrFun List.countP_true t.entries).symm

/-- An order in which a hash map is iterated: it may be any. -/
structure Iteration (κ ν : Type*) where
  entries : Table κ ν → List (Sigma fun _ : κ => ν)
  perm : ∀ t, (entries t).Perm t.entries

/-- The order in which the entries are kept. -/
def Iteration.plain : Iteration κ ν := ⟨fun t => t.entries, fun t => List.Perm.refl t.entries⟩

variable [DecidableEq κ]

/-- One entry, with the value of the key `k` changed. -/
def modifyEntry (k : κ) (f : ν → ν) (e : Sigma fun _ : κ => ν) : Sigma fun _ : κ => ν :=
  if e.1 = k then ⟨e.1, f e.2⟩ else e

theorem modifyEntry_fst (k : κ) (f : ν → ν) (e : Sigma fun _ : κ => ν) : (modifyEntry k f e).1 = e.1 := by
  unfold modifyEntry
  split <;> rfl

theorem keys_modify (k : κ) (f : ν → ν) (es : List (Sigma fun _ : κ => ν)) :
    (es.map (modifyEntry k f)).keys = es.keys := by
  induction es with
  | nil => rfl
  | cons e es ih => rw [List.map_cons, List.keys_cons, List.keys_cons, modifyEntry_fst, ih]

/-- A write through `HashMap::get_mut`: changes the value of a key, where there is one. -/
def modify (k : κ) (f : ν → ν) (t : Table κ ν) : Table κ ν :=
  ⟨t.entries.map (modifyEntry k f), by
    rw [List.NodupKeys, keys_modify]
    exact t.nodupKeys⟩

/-! ## Lookups -/

section Lookup

variable (t : Table κ ν) (k k' : κ)

theorem mem_entries_iff {t : Table κ ν} {k : κ} {v : ν} : ⟨k, v⟩ ∈ t.entries ↔ t.lookup k = some v :=
  AList.mem_lookup_iff.symm

theorem lookup_insert (v : ν) : (t.insert k v).lookup k' = if k' = k then some v else t.lookup k' := by
  by_cases h : k' = k
  · subst h
    rw [AList.lookup_insert, if_pos rfl]
  · rw [AList.lookup_insert_ne h, if_neg h]

theorem lookup_erase : (t.erase k).lookup k' = if k' = k then none else t.lookup k' := by
  by_cases h : k' = k
  · subst h
    rw [AList.lookup_erase, if_pos rfl]
  · rw [AList.lookup_erase_ne h, if_neg h]

theorem lookup_modify (f : ν → ν) :
    (modify k f t).lookup k' = if k' = k then (t.lookup k').map f else t.lookup k' := by
  refine Option.ext fun v => ?_
  rw [← mem_entries_iff]
  constructor
  · intro h
    obtain ⟨⟨l, w⟩, hmem, heq⟩ := List.mem_map.mp h
    have hw : t.lookup l = some w := mem_entries_iff.1 hmem
    by_cases hl : l = k
    · rw [modifyEntry, if_pos hl] at heq
      cases heq
      rw [if_pos hl, hw, Option.map_some]
    · rw [modifyEntry, if_neg hl] at heq
      cases heq
      rw [if_neg hl, hw]
  · intro h
    refine List.mem_map.mpr ?_
    by_cases hk : k' = k
    · rw [if_pos hk] at h
      obtain ⟨w, hw, rfl⟩ := Option.map_eq_some_iff.mp h
      exact ⟨⟨k', w⟩, mem_entries_iff.2 hw, if_pos hk⟩
    · rw [if_neg hk] at h
      exact ⟨⟨k', v⟩, mem_entries_iff.2 h, if_neg hk⟩

theorem lookup_retain (p : κ → ν → Bool) : (retain p t).lookup k = (t.lookup k).filter (p k) := by
  refine Option.ext fun v => ?_
  rw [← mem_entries_iff, Option.filter_eq_some_iff, ← mem_entries_iff]
  exact List.mem_filter

end Lookup

/-! ## Counts -/

section Count

variable (p : ν → Bool) (t : Table κ ν) (k : κ)

theorem count_erase_le : count p (t.erase k) ≤ count p t :=
  (List.kerase_sublist k t.entries).countP_le

theorem count_insert_le (v : ν) : count p (t.insert k v) ≤ count p t + 1 := by
  have hle : (t.entries.kerase k).countP (fun e => p e.2) ≤ count p t := count_erase_le p t k
  unfold count
  rw [AList.entries_insert, List.countP_cons]
  split <;> exact Nat.add_le_add hle (by omega)

/-- The entry of a key counts for itself. -/
theorem count_of_lookup {v : ν} (h : t.lookup k = some v) :
    count p t = count p (t.erase k) + if p v then 1 else 0 := by
  have hmem : k ∈ t.entries.keys := AList.lookup_isSome.mp (by rw [h]; rfl)
  obtain ⟨w, l₁, l₂, -, hl, hrest⟩ := List.exists_of_kerase hmem
  have hw : t.lookup k = some w := mem_entries_iff.1 (by rw [hl]; simp)
  obtain rfl : w = v := Option.some.inj (hw.symm.trans h)
  show t.entries.countP (fun e => p e.2) = (t.entries.kerase k).countP (fun e => p e.2) + _
  rw [hrest, hl, List.countP_append, List.countP_append, List.countP_cons, Nat.add_assoc]

theorem count_modify_le (f : ν → ν) (h : ∀ v, t.lookup k = some v → p (f v) = true → p v = true) :
    count p (modify k f t) ≤ count p t := by
  unfold count modify
  rw [List.countP_map]
  refine List.countP_mono_left fun e he hp => ?_
  rw [Function.comp_apply, modifyEntry] at hp
  split at hp
  next hk => exact h e.2 (mem_entries_iff.1 (hk ▸ he)) hp
  next => exact hp

theorem len_erase_lt (h : k ∈ t) : len (t.erase k) < len t := by
  obtain ⟨v, hv⟩ := Option.isSome_iff_exists.mp (AList.lookup_isSome.mpr h)
  rw [len_eq_count, len_eq_count, count_of_lookup _ t k hv]
  exact Nat.lt_succ_self _

theorem len_insert_le (v : ν) : len (t.insert k v) ≤ len t + 1 := by
  rw [len_eq_count, len_eq_count]
  exact count_insert_le _ t k v

end Count

/-! ## Entries that come and go -/

section ComeAndGo

variable (t : Table κ ν) {k : κ}

theorem erase_of_not_mem (h : k ∉ t) : t.erase k = t :=
  AList.ext (List.kerase_of_notMem_keys h)

theorem erase_insert (v : ν) : (t.insert k v).erase k = t.erase k := by
  apply AList.ext
  show (t.insert k v).entries.kerase k = t.entries.kerase k
  rw [AList.entries_insert]
  exact List.kerase_cons_eq rfl

theorem erase_modify (f : ν → ν) : (modify k f t).erase k = t.erase k := by
  apply AList.ext
  show (t.entries.map (modifyEntry k f)).kerase k = t.entries.kerase k
  have hrest : ∀ es : List (Sigma fun _ : κ => ν), es.NodupKeys →
      (es.map (modifyEntry k f)).kerase k = es.kerase k := by
    intro es
    induction es with
    | nil => exact fun _ => rfl
    | cons e es ih =>
      intro hnd
      obtain ⟨hnot, hnd⟩ := List.nodupKeys_cons.mp hnd
      by_cases he : k = e.1
      · have hsame : es.map (modifyEntry k f) = es := by
          refine (List.map_congr_left fun e' he' => ?_).trans (List.map_id es)
          refine if_neg fun hk => hnot ?_
          rw [← he, ← hk]
          exact List.mem_keys_of_mem he'
        rw [List.map_cons, List.kerase_cons_eq (by rw [modifyEntry_fst]; exact he), List.kerase_cons_eq he, hsame]
      · have hsame : modifyEntry k f e = e := if_neg (Ne.symm he)
        rw [List.map_cons, hsame, List.kerase_cons_ne he, List.kerase_cons_ne he, ih hnd]
  exact hrest t.entries t.nodupKeys

end ComeAndGo

/-! ## Sums -/

section Sum

variable {M : Type*} [AddCommMonoid M] (f : κ → ν → M) (t : Table κ ν) (k : κ)

omit [DecidableEq κ] in
/-- The sum over the entries. -/
def sum : M := (t.entries.map fun e => f e.1 e.2).sum

theorem sum_of_lookup {v : ν} (h : t.lookup k = some v) : sum f t = f k v + sum f (t.erase k) := by
  have hmem : k ∈ t.entries.keys := AList.lookup_isSome.mp (by rw [h]; rfl)
  obtain ⟨w, l₁, l₂, -, hl, hrest⟩ := List.exists_of_kerase hmem
  have hw : t.lookup k = some w := mem_entries_iff.1 (by rw [hl]; simp)
  obtain rfl : w = v := Option.some.inj (hw.symm.trans h)
  show (t.entries.map fun e => f e.1 e.2).sum = _ + ((t.entries.kerase k).map fun e => f e.1 e.2).sum
  rw [hrest, hl, List.map_append, List.map_append, List.sum_append, List.sum_append, List.map_cons, List.sum_cons,
    add_left_comm]

theorem sum_insert (v : ν) : sum f (t.insert k v) = f k v + sum f (t.erase k) := by
  rw [sum_of_lookup f (t.insert k v) k (AList.lookup_insert t), erase_insert]

omit [DecidableEq κ] in
/-- The sum over what is retained counts nothing for the others. -/
theorem sum_retain (p : κ → ν → Bool) : sum f (retain p t) = sum (fun k v => if p k v then f k v else 0) t := by
  have hfilter : ∀ es : List (Sigma fun _ : κ => ν), ((es.filter fun e => p e.1 e.2).map fun e => f e.1 e.2).sum =
      (es.map fun e => if p e.1 e.2 then f e.1 e.2 else 0).sum := by
    intro es
    induction es with
    | nil => rfl
    | cons e es ih =>
      rw [List.map_cons, List.sum_cons, ← ih, List.filter_cons]
      cases hp : p e.1 e.2 with
      | true => simp
      | false => simp
  exact hfilter t.entries

theorem sum_eq_zero (h : ∀ k v, t.lookup k = some v → f k v = 0) : sum f t = 0 := by
  refine List.sum_eq_zero fun x hx => ?_
  obtain ⟨e, he, rfl⟩ := List.mem_map.mp hx
  exact h e.1 e.2 (mem_entries_iff.1 he)

/-- The sum over the keys, each with what is found under it. -/
theorem sum_keys : (t.keys.map fun k => (t.lookup k).elim 0 (f k)).sum = sum f t := by
  unfold sum
  show ((t.entries.map Sigma.fst).map _).sum = _
  rw [List.map_map]
  refine congrArg List.sum (List.map_congr_left fun e he => ?_)
  have hlookup : t.lookup e.1 = some e.2 := mem_entries_iff.1 he
  rw [Function.comp_apply, hlookup, Option.elim_some]

end Sum

/-! ## Groups -/

section Group

variable (merge : ν → ν → ν)

/-- The values of each key, merged in the order in which they come: `entry().and_modify().or_insert()` in a loop. -/
def grouped (xs : List (κ × ν)) : Table κ ν :=
  xs.foldl (fun t x => t.insert x.1 ((t.lookup x.1).elim x.2 fun v => merge v x.2)) ∅

omit [DecidableEq κ] in
/-- Some values, merged one after the other. -/
def mergeAll : List ν → Option ν
  | [] => none
  | v :: vs => some (vs.foldl merge v)

omit [DecidableEq κ] in
theorem mergeAll_concat (vs : List ν) (v : ν) :
    mergeAll merge (vs ++ [v]) = some ((mergeAll merge vs).elim v fun w => merge w v) := by
  cases vs with
  | nil => rfl
  | cons w vs =>
    show some ((vs ++ [v]).foldl merge w) = _
    rw [List.foldl_append]
    rfl

/-- What a key has is merged from its own values. -/
theorem lookup_grouped (k : κ) (xs : List (κ × ν)) :
    (grouped merge xs).lookup k = mergeAll merge ((xs.filter fun x => x.1 = k).map Prod.snd) := by
  induction xs using List.reverseRecOn with
  | nil => rfl
  | append_singleton xs x ih =>
    have hstep : grouped merge (xs ++ [x]) = (grouped merge xs).insert x.1
        (((grouped merge xs).lookup x.1).elim x.2 fun v => merge v x.2) := by
      rw [grouped, List.foldl_append]
      rfl
    rw [hstep, lookup_insert, List.filter_append, List.map_append]
    by_cases h : x.1 = k
    · rw [if_pos h.symm, List.filter_singleton, decide_eq_true h, cond_true, List.map_singleton,
        mergeAll_concat, ← ih, h]
    · rw [if_neg (Ne.symm h), List.filter_singleton, decide_eq_false h, cond_false, List.map_nil, List.append_nil, ih]

end Group

end Table

end Ironclaw

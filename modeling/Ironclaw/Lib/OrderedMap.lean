import Mathlib.Data.List.Lex
import Mathlib.Tactic

/-!
# Maps kept in the order of their keys

A map as the list of its entries with strictly increasing keys, as a B-tree iterates over it. Two maps with the same
value under every key are the same list (`ext`).

- `insertKey` and `lookup_insertKey`: setting the value of a key;
- `ofEntries` and `lookup_ofEntries`: the map of some entries, the first of each key;
- `lookup_mapValues`: what a function does to the values.
-/

namespace Ironclaw.OrderedMap

variable {κ ν ω : Type*} [LinearOrder κ]

/-- The keys increase. -/
def InOrder (m : List (κ × ν)) : Prop := m.Pairwise fun a b => a.1 < b.1

instance (m : List (κ × ν)) : Decidable (InOrder m) := inferInstanceAs (Decidable (List.Pairwise _ m))

/-- `BTreeMap::insert`. -/
def insertKey (k : κ) (v : ν) : List (κ × ν) → List (κ × ν)
  | [] => [(k, v)]
  | (l, w) :: m => if k = l then (k, v) :: m else if k < l then (k, v) :: (l, w) :: m else (l, w) :: insertKey k v m

/-- The map of some entries; of two entries with one key the first counts. -/
def ofEntries (entries : List (κ × ν)) : List (κ × ν) := entries.foldr (fun kv m => insertKey kv.1 kv.2 m) []

/-- The values of a map, changed. -/
def mapValues (f : ν → ω) (m : List (κ × ν)) : List (κ × ω) := m.map fun kv => (kv.1, f kv.2)

theorem mem_insertKey {k : κ} {v : ν} {kv : κ × ν} : ∀ {m : List (κ × ν)}, kv ∈ insertKey k v m → kv = (k, v) ∨ kv ∈ m
  | [], h => .inl (List.mem_singleton.mp h)
  | (j, w) :: m, h => by
    rw [insertKey] at h
    split at h
    · exact (List.mem_cons.mp h).imp_right (List.mem_cons_of_mem _)
    · split at h
      · exact List.mem_cons.mp h
      · rcases List.mem_cons.mp h with h | h
        · exact .inr (h ▸ List.mem_cons_self)
        · exact (mem_insertKey h).imp_right (List.mem_cons_of_mem _)

theorem InOrder.insertKey {k : κ} {v : ν} : ∀ {m : List (κ × ν)}, InOrder m → InOrder (insertKey k v m)
  | [], _ => List.pairwise_singleton _ _
  | (j, w) :: m, h => by
    obtain ⟨hj, hm⟩ := List.pairwise_cons.mp h
    rw [OrderedMap.insertKey]
    split
    next hkj => exact List.pairwise_cons.mpr ⟨fun kv hkv => hkj ▸ hj kv hkv, hm⟩
    · split
      next hlt =>
        refine List.pairwise_cons.mpr ⟨fun kv hkv => ?_, h⟩
        rcases List.mem_cons.mp hkv with rfl | hkv
        · exact hlt
        · exact hlt.trans (hj kv hkv)
      next hne hge =>
        refine List.pairwise_cons.mpr ⟨fun kv hkv => ?_, InOrder.insertKey hm⟩
        rcases mem_insertKey hkv with rfl | hkv
        · exact lt_of_le_of_ne (not_lt.mp hge) (Ne.symm hne)
        · exact hj kv hkv

theorem inOrder_ofEntries (entries : List (κ × ν)) : InOrder (ofEntries entries) := by
  induction entries with
  | nil => exact .nil
  | cons kv entries ih => exact ih.insertKey

theorem inOrder_mapValues {f : ν → ω} {m : List (κ × ν)} : InOrder (mapValues f m) ↔ InOrder m := by
  rw [InOrder, mapValues, List.pairwise_map]
  rfl

variable [BEq κ] [LawfulBEq κ]

theorem lookup_cons (k l : κ) (v : ν) (m : List (κ × ν)) :
    List.lookup k ((l, v) :: m) = if k = l then some v else m.lookup k := by
  rw [List.lookup_cons]
  by_cases h : k = l
  · rw [if_pos h, beq_iff_eq.mpr h]
  · rw [if_neg h, beq_eq_false_iff_ne.mpr h]

theorem lookup_insertKey (k l : κ) (v : ν) : ∀ m : List (κ × ν),
    (insertKey k v m).lookup l = if l = k then some v else m.lookup l
  | [] => lookup_cons l k v []
  | (j, w) :: m => by
    rw [insertKey]
    split
    next h =>
      subst h
      rw [lookup_cons, lookup_cons]
      split <;> rfl
    · split
      · exact lookup_cons l k v _
      next hkj _ =>
        rw [lookup_cons, lookup_cons, lookup_insertKey k l v m]
        by_cases hlj : l = j
        · have hlk : l ≠ k := fun h => hkj (h ▸ hlj)
          rw [if_pos hlj, if_neg hlk, if_pos hlj]
        · rw [if_neg hlj, if_neg hlj]

theorem lookup_ofEntries (k : κ) (entries : List (κ × ν)) : (ofEntries entries).lookup k = entries.lookup k := by
  induction entries with
  | nil => rfl
  | cons kv entries ih =>
    obtain ⟨l, v⟩ := kv
    rw [show ofEntries ((l, v) :: entries) = insertKey l v (ofEntries entries) from rfl, lookup_insertKey,
      lookup_cons, ih]

theorem lookup_mapValues (f : ν → ω) (k : κ) (m : List (κ × ν)) : (mapValues f m).lookup k = (m.lookup k).map f := by
  induction m with
  | nil => rfl
  | cons kv m ih =>
    obtain ⟨l, v⟩ := kv
    rw [show mapValues f ((l, v) :: m) = (l, f v) :: mapValues f m from rfl, lookup_cons, lookup_cons, ih]
    split <;> rfl

theorem mem_of_lookup {k : κ} {v : ν} : ∀ {m : List (κ × ν)}, m.lookup k = some v → (k, v) ∈ m
  | (l, w) :: m, h => by
    rw [lookup_cons] at h
    split at h
    next hkl =>
      cases h
      exact hkl ▸ List.mem_cons_self
    · exact List.mem_cons_of_mem _ (mem_of_lookup h)

/-- An entry is found under its key. -/
theorem lookup_of_mem {k : κ} {v : ν} : ∀ {m : List (κ × ν)}, InOrder m → (k, v) ∈ m → m.lookup k = some v
  | (l, w) :: m, hm, h => by
    obtain ⟨hl, hm⟩ := List.pairwise_cons.mp hm
    rw [lookup_cons]
    rcases List.mem_cons.mp h with h | h
    · obtain ⟨rfl, rfl⟩ := Prod.mk.inj h
      exact if_pos rfl
    · rw [if_neg (hl _ h).ne', lookup_of_mem hm h]

theorem ext {m n : List (κ × ν)} (hm : InOrder m) (hn : InOrder n) (h : ∀ k, m.lookup k = n.lookup k) : m = n := by
  have hperm : m.Perm n := by
    refine (List.perm_ext_iff_of_nodup (hm.imp fun hlt heq => ?_) (hn.imp fun hlt heq => ?_)).mpr fun kv => ?_
    · exact hlt.ne (congrArg Prod.fst heq)
    · exact hlt.ne (congrArg Prod.fst heq)
    · exact ⟨fun hkv => mem_of_lookup ((h kv.1).symm.trans (lookup_of_mem hm hkv)),
        fun hkv => mem_of_lookup ((h kv.1).trans (lookup_of_mem hn hkv))⟩
  exact hperm.eq_of_pairwise (fun a b _ _ hab hba => absurd hab hba.asymm) hm hn

theorem ofEntries_of_inOrder {m : List (κ × ν)} (hm : InOrder m) : ofEntries m = m :=
  ext (inOrder_ofEntries m) hm fun k => lookup_ofEntries k m

theorem mem_of_mem_ofEntries {kv : κ × ν} {entries : List (κ × ν)} (h : kv ∈ ofEntries entries) : kv ∈ entries :=
  mem_of_lookup ((lookup_ofEntries kv.1 entries).symm.trans (lookup_of_mem (inOrder_ofEntries entries) h))

end Ironclaw.OrderedMap

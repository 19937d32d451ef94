import Ironclaw.Lib.Table

/-!
# Caches of a bounded size

What is relied on of a library of bounded caches, and what follows from it: a `get` keeps the entries, a `push` adds its
entry and may drop others, and there are never more entries than the capacity. Which entry is dropped is left open.

- `Reordered`: a cache with the same entries, as after any number of `get`s;
- `Holds`: what every entry has, and what keeps it;
- `leastRecent`: a cache that drops the entry that was not used for longest.
-/

namespace Ironclaw

/-- The operations of a library of caches, and their laws; `lookup` is what a cache holds for a key, whether it is used
or not. -/
structure LruCache (κ ν : Type) where
  Cache : Type
  empty : (cap : Nat) → 0 < cap → Cache
  cap : Cache → Nat
  len : Cache → Nat
  lookup : κ → Cache → Option ν
  get : κ → Cache → Option ν × Cache
  push : κ → ν → Cache → Cache
  clear : Cache → Cache
  len_le : ∀ c, len c ≤ cap c
  cap_empty : ∀ n h, cap (empty n h) = n
  lookup_empty : ∀ n h k, lookup k (empty n h) = none
  get_fst : ∀ k c, (get k c).1 = lookup k c
  cap_get : ∀ k c, cap (get k c).2 = cap c
  lookup_get : ∀ k k' c, lookup k' (get k c).2 = lookup k' c
  cap_push : ∀ k v c, cap (push k v c) = cap c
  lookup_push_self : ∀ k v c, lookup k (push k v c) = some v
  lookup_push_of_ne : ∀ {k k' v c w}, k' ≠ k → lookup k' (push k v c) = some w → lookup k' c = some w
  cap_clear : ∀ c, cap (clear c) = cap c
  lookup_clear : ∀ k c, lookup k (clear c) = none

namespace LruCache

variable {κ ν : Type} {lru : LruCache κ ν}

theorem get_eq (k : κ) (c : lru.Cache) : lru.get k c = (lru.lookup k c, (lru.get k c).2) :=
  Prod.ext (lru.get_fst k c) rfl

/-- The second cache is the first one but for the order of its entries. -/
structure Reordered (lru : LruCache κ ν) (before after : lru.Cache) : Prop where
  lookup : ∀ k, lru.lookup k after = lru.lookup k before
  cap : lru.cap after = lru.cap before

theorem Reordered.refl (c : lru.Cache) : lru.Reordered c c := ⟨fun _ => rfl, rfl⟩

theorem Reordered.get {before after : lru.Cache} (h : lru.Reordered before after) (k : κ) :
    lru.Reordered before (lru.get k after).2 :=
  ⟨fun k' => (lru.lookup_get k k' after).trans (h.lookup k'), (lru.cap_get k after).trans h.cap⟩

/-! ## What every entry has -/

/-- Every entry of the cache has the property. -/
def Holds (lru : LruCache κ ν) (p : κ → ν → Prop) (c : lru.Cache) : Prop := ∀ k v, lru.lookup k c = some v → p k v

variable {p : κ → ν → Prop} {c : lru.Cache}

/-- A cache without entries has them all. -/
theorem holds_of_none (h : ∀ k, lru.lookup k c = none) : lru.Holds p c := by
  intro k v hv
  rw [h k] at hv
  cases hv

theorem Holds.of_reordered {c' : lru.Cache} (h : lru.Holds p c) (hc : lru.Reordered c c') : lru.Holds p c' := by
  intro k v hv
  rw [hc.lookup] at hv
  exact h k v hv

theorem Holds.push {k : κ} {v : ν} (h : lru.Holds p c) (hp : p k v) : lru.Holds p (lru.push k v c) := by
  intro k' w hw
  by_cases hk : k' = k
  · subst hk
    rw [lru.lookup_push_self] at hw
    cases hw
    exact hp
  · exact h k' w (lru.lookup_push_of_ne hk hw)

end LruCache

/-! ## The least recently used entry -/

variable {κ ν : Type}

/-- The entries that stand first. -/
def Table.firsts (n : Nat) (t : Table κ ν) : Table κ ν :=
  ⟨t.entries.take n, t.nodupKeys.sublist (List.take_sublist n _)⟩

theorem Table.len_firsts (n : Nat) (t : Table κ ν) : Table.len (Table.firsts n t) ≤ n := List.length_take_le n _

/-- A cache of at most `cap` entries, the last used one first (`AList.insert` puts its entry there). -/
structure Lru (κ ν : Type) where
  cap : Nat
  entries : Table κ ν
  cap_pos : 0 < cap
  len_le : Table.len entries ≤ cap

namespace Lru

def empty (cap : Nat) (h : 0 < cap) : Lru κ ν := ⟨cap, ∅, h, Nat.zero_le cap⟩

variable [DecidableEq κ]

/-- What the cache holds for a key, whether it is used or not. -/
def lookup (k : κ) (c : Lru κ ν) : Option ν := c.entries.lookup k

/-- The entry of a key is put first. -/
def promote (k : κ) (t : Table κ ν) : Table κ ν :=
  match t.lookup k with
  | none => t
  | some v => t.insert k v

theorem lookup_promote (k k' : κ) (t : Table κ ν) : (promote k t).lookup k' = t.lookup k' := by
  unfold promote
  split
  · rfl
  next v h =>
    rw [Table.lookup_insert]
    split
    next heq => rw [heq, h]
    · rfl

theorem len_promote (k : κ) (t : Table κ ν) : Table.len (promote k t) = Table.len t := by
  unfold promote
  split
  · rfl
  next v h =>
    rw [Table.len_eq_count, Table.len_eq_count, Table.count_of_lookup _ t k h,
      Table.count_of_lookup _ _ k (AList.lookup_insert t), Table.erase_insert]

/-- `get`: the entry counts as used. -/
def get (k : κ) (c : Lru κ ν) : Option ν × Lru κ ν :=
  (c.lookup k, { c with entries := promote k c.entries, len_le := (len_promote k c.entries).trans_le c.len_le })

/-- `push`: the entry is put first; where there is no room for it, the last one is dropped. -/
def push (k : κ) (v : ν) (c : Lru κ ν) : Lru κ ν :=
  { c with entries := Table.firsts c.cap (c.entries.insert k v), len_le := Table.len_firsts c.cap _ }

variable (k : κ) (v : ν) (c : Lru κ ν)

/-- What is pushed is there: the cache has room for one entry. -/
theorem lookup_push_self : (c.push k v).lookup k = some v := by
  refine Table.mem_entries_iff.mp ?_
  show (⟨k, v⟩ : Sigma fun _ : κ => ν) ∈ (c.entries.insert k v).entries.take c.cap
  rw [AList.entries_insert, List.take_cons c.cap_pos]
  exact List.mem_cons_self

variable {k v c}

/-- What the cache holds for another key after a `push` was there before. -/
theorem lookup_push_of_ne {k' : κ} {w : ν} (hne : k' ≠ k) (h : (c.push k v).lookup k' = some w) :
    c.lookup k' = some w := by
  have hmem : (⟨k', w⟩ : Sigma fun _ : κ => ν) ∈ (c.entries.insert k v).entries :=
    List.mem_of_mem_take (Table.mem_entries_iff.mpr h)
  have hlookup := Table.mem_entries_iff.mp hmem
  rwa [Table.lookup_insert, if_neg hne] at hlookup

end Lru

/-- The caches that drop the entry that was not used for longest. -/
def leastRecent (κ ν : Type) [DecidableEq κ] : LruCache κ ν where
  Cache := Lru κ ν
  empty := Lru.empty
  cap := Lru.cap
  len c := Table.len c.entries
  lookup := Lru.lookup
  get := Lru.get
  push := Lru.push
  clear c := Lru.empty c.cap c.cap_pos
  len_le := Lru.len_le
  cap_empty _ _ := rfl
  lookup_empty _ _ k := AList.lookup_empty k
  get_fst _ _ := rfl
  cap_get _ _ := rfl
  lookup_get k k' c := Lru.lookup_promote k k' c.entries
  cap_push _ _ _ := rfl
  lookup_push_self := Lru.lookup_push_self
  lookup_push_of_ne := Lru.lookup_push_of_ne
  cap_clear _ := rfl
  lookup_clear k _ := AList.lookup_empty k

end Ironclaw

import Ironclaw.Lib.Text

/-!
# JSON values

A number is an integer of the 64-bit ranges or a float, which is kept as the text it prints as. An object is the list
of its entries; `get` and `insert` treat it as a map, so that the entries of a built object have distinct keys.
-/

namespace Ironclaw

inductive Number
  | int (n : Int)
  | float (text : Str)
  deriving DecidableEq, Repr

inductive Json
  | null
  | bool (b : Bool)
  | num (n : Number)
  | str (s : Str)
  | arr (xs : List Json)
  | obj (kvs : List (Str × Json))
  deriving Inhabited

namespace Json

/-! ## Equality -/

mutual

/-- Equality of values, entry by entry. -/
def beq : Json → Json → Bool
  | .null, .null => true
  | .bool a, .bool b => a == b
  | .num a, .num b => a == b
  | .str a, .str b => a == b
  | .arr xs, .arr ys => beqList xs ys
  | .obj xs, .obj ys => beqEntries xs ys
  | _, _ => false

def beqList : List Json → List Json → Bool
  | [], [] => true
  | x :: xs, y :: ys => beq x y && beqList xs ys
  | _, _ => false

def beqEntries : List (Str × Json) → List (Str × Json) → Bool
  | [], [] => true
  | (k, x) :: xs, (l, y) :: ys => k == l && beq x y && beqEntries xs ys
  | _, _ => false

end

mutual

theorem beq_iff : ∀ a b : Json, beq a b = true ↔ a = b
  | .null, b => by cases b <;> simp [beq]
  | .bool _, b => by cases b <;> simp [beq]
  | .num _, b => by cases b <;> simp [beq]
  | .str _, b => by cases b <;> simp [beq]
  | .arr xs, b => by cases b <;> simp [beq, beqList_iff xs]
  | .obj xs, b => by cases b <;> simp [beq, beqEntries_iff xs]

theorem beqList_iff : ∀ xs ys : List Json, beqList xs ys = true ↔ xs = ys
  | [], ys => by cases ys <;> simp [beqList]
  | x :: xs, ys => by cases ys <;> simp [beqList, beq_iff x, beqList_iff xs]

theorem beqEntries_iff : ∀ xs ys : List (Str × Json), beqEntries xs ys = true ↔ xs = ys
  | [], ys => by cases ys <;> simp [beqEntries]
  | (k, x) :: xs, ys => by
    cases ys with
    | nil => simp [beqEntries]
    | cons y ys => simp [beqEntries, beq_iff x, beqEntries_iff xs, Prod.ext_iff, and_assoc]

end

instance : DecidableEq Json := fun a b => decidable_of_iff _ (beq_iff a b)

/-! ## Objects and accessors -/

/-- The value of a key of an object. -/
def get (key : Str) : Json → Option Json
  | .obj kvs => kvs.lookup key
  | _ => none

/-- The entries of an object with the value of `key` set. -/
def insertEntry (key : Str) (v : Json) : List (Str × Json) → List (Str × Json)
  | [] => [(key, v)]
  | (k, w) :: kvs => if key = k then (k, v) :: kvs else (k, w) :: insertEntry key v kvs

def asStr : Json → Option Str
  | .str s => some s
  | _ => none

def asBool : Json → Option Bool
  | .bool b => some b
  | _ => none

/-- An integer of the unsigned 64-bit range. -/
def asU64 : Json → Option Nat
  | .num (.int n) => if 0 ≤ n ∧ n < 2 ^ 64 then some n.toNat else none
  | _ => none

/-! ## Size -/

mutual

/-- The number of values in a value, itself included. -/
def size : Json → Nat
  | .arr xs => sizeList xs + 1
  | .obj kvs => sizeEntries kvs + 1
  | _ => 1

def sizeList : List Json → Nat
  | [] => 0
  | x :: xs => size x + sizeList xs

def sizeEntries : List (Str × Json) → Nat
  | [] => 0
  | (_, x) :: kvs => size x + sizeEntries kvs

end

theorem size_le_sizeList {x : Json} : ∀ {xs : List Json}, x ∈ xs → size x ≤ sizeList xs
  | y :: ys, h => by
    rw [sizeList]
    rcases List.mem_cons.mp h with rfl | h
    · omega
    · have := size_le_sizeList h
      omega

theorem size_le_sizeEntries {k : Str} {x : Json} : ∀ {kvs : List (Str × Json)}, (k, x) ∈ kvs → size x ≤ sizeEntries kvs
  | (l, y) :: kvs, h => by
    rw [sizeEntries]
    rcases List.mem_cons.mp h with h | h
    · obtain ⟨-, rfl⟩ := Prod.mk.injEq .. ▸ h
      omega
    · have := size_le_sizeEntries h
      omega

theorem size_lt_of_mem {x : Json} {xs : List Json} (h : x ∈ xs) : size x < size (.arr xs) := by
  rw [size]
  exact Nat.lt_succ_of_le (size_le_sizeList h)

theorem size_lt_of_mem_obj {k : Str} {x : Json} {kvs : List (Str × Json)} (h : (k, x) ∈ kvs) :
    size x < size (.obj kvs) := by
  rw [size]
  exact Nat.lt_succ_of_le (size_le_sizeEntries h)

/-- A value under a key is one of the entries. -/
theorem mem_of_get {key : Str} {x j : Json} (h : j.get key = some x) : ∃ kvs, j = .obj kvs ∧ (key, x) ∈ kvs := by
  cases j with
  | obj kvs =>
    refine ⟨kvs, rfl, ?_⟩
    rw [get] at h
    induction kvs with
    | nil => exact absurd h (by simp)
    | cons kv kvs ih =>
      rw [List.lookup_cons] at h
      split at h
      · next heq =>
        cases h
        rw [beq_iff_eq] at heq
        exact heq ▸ List.mem_cons_self
      · exact List.mem_cons_of_mem _ (ih h)
  | _ => exact absurd h (by simp [get])

theorem size_lt_of_get {key : Str} {x j : Json} (h : j.get key = some x) : size x < size j := by
  obtain ⟨kvs, rfl, hmem⟩ := mem_of_get h
  exact size_lt_of_mem_obj hmem

end Json

/-- The reader and the writer of JSON texts. -/
structure JsonText where
  parse : Str → Except Str Json
  print : Json → Str

/-- The text of a number. -/
def Number.toText : Number → Str
  | .int n => (toString n).toList
  | .float t => t

end Ironclaw

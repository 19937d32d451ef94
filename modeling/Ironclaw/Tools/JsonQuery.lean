import Ironclaw.Lib.Json
import Ironclaw.Tools.Http

/-!
# Queries into JSON values

`query_json` cuts its path at the dots, and each segment at its first bracket: a segment is a field, an index, or a
field with one index. Steps are written with a dot between fields and brackets around each index.

- `toOption_querySegment`: what the segment of a field and some indices gives;
- `toOption_queryJson`: what a written path gives;
- `queryFollows_iff`: which paths are followed.
-/

namespace Ironclaw.Tools

open Text

/-- The value at an index of an array. -/
def item (index : Nat) : Json → Option Json
  | .arr xs => xs[index]?
  | _ => none

def queryField (current : Json) (field : Str) : Except ToolError Json :=
  match current.get field with
  | some value => .ok value
  | none => .error (.executionFailed ("field not found: ".toList ++ field))

def queryIndex (current : Json) (indexStr : Str) : Except ToolError Json :=
  match parseUnsigned 64 indexStr with
  | none => .error (.invalidParameters ("invalid array index: ".toList ++ indexStr))
  | some index =>
    match item index current with
    | some value => .ok value
    | none => .error (.executionFailed ("array index out of bounds: ".toList ++ Nat.toDigits 10 index))

/-- The field before a bracket. -/
def enterField (current : Json) (field : Str) : Except ToolError Json :=
  if field.isEmpty then .ok current else queryField current field

/-- One segment of a path. -/
def querySegment (current : Json) (segment : Str) : Except ToolError Json :=
  if segment.isEmpty then .ok current
  else
    match splitOnce '[' segment with
    | some (field, indexStr) => do
      let current ← enterField current field
      queryIndex current (trimEndChar ']' indexStr)
    | none => queryField current segment

/-- `query_json`. -/
def queryJson (data : Json) (path : Str) : Except ToolError Json := (path.splitOn '.').foldlM querySegment data

/-! ## Paths -/

/-- A key that can be written in a path. -/
structure FieldKey where
  name : Str
  ne : name ≠ []
  dot : '.' ∉ name
  bracket : '[' ∉ name

inductive QueryStep
  | field (key : FieldKey)
  | index (i : Nat)

namespace QueryStep

/-- An index between brackets. -/
def bracketed (i : Nat) : Str := '[' :: Nat.toDigits 10 i ++ [']']

/-- The steps as they are written behind others. -/
def writtenAfter : List QueryStep → Str
  | [] => []
  | .field key :: path => '.' :: key.name ++ writtenAfter path
  | .index i :: path => bracketed i ++ writtenAfter path

/-- The written form of a path. -/
def written : List QueryStep → Str
  | .field key :: path => key.name ++ writtenAfter path
  | path => writtenAfter path

/-- The value to which one step leads. -/
def follow (data : Json) : QueryStep → Option Json
  | .field key => data.get key.name
  | .index i => item i data

/-- The value to which a path leads. -/
def lookup (data : Json) (path : List QueryStep) : Option Json := path.foldlM follow data

def startsWithIndex : List QueryStep → Bool
  | .index _ :: _ => true
  | _ => false

/-- No index directly behind another, and every index is a 64-bit number. -/
def plain : List QueryStep → Bool
  | [] => true
  | .field _ :: path => plain path
  | .index i :: path => decide (i < 2 ^ 64) && !startsWithIndex path && plain path

end QueryStep

open QueryStep

/-- The query finds exactly the value to which the path leads, and fails when it leads to none. -/
def QueryFollows (data : Json) (path : List QueryStep) : Prop :=
  match lookup data path with
  | some value => queryJson data (written path) = .ok value
  | none => ∃ e, queryJson data (written path) = .error e

/-! ## Segments -/

/-- The steps of a segment: a field, or none, and indices. -/
def segmentSteps (head : Option FieldKey) (indices : List Nat) : List QueryStep :=
  head.toList.map .field ++ indices.map .index

/-- The text of a segment. -/
def segmentText (head : Option FieldKey) (indices : List Nat) : Str :=
  head.elim [] FieldKey.name ++ indices.flatMap bracketed

section Segments

variable {head : Option FieldKey} {data : Json}

theorem name_safe (head : Option FieldKey) {c : Char} (hc : c = '.' ∨ c = '[') : c ∉ head.elim [] FieldKey.name := by
  cases head with
  | none => exact List.not_mem_nil
  | some key =>
    rcases hc with rfl | rfl
    · exact key.dot
    · exact key.bracket

theorem notMem_toDigits (i : Nat) {c : Char} (hc : c.isDigit = false) : c ∉ Nat.toDigits 10 i := by
  intro h
  rw [Nat.isDigit_of_mem_toDigits (by decide) (by decide) h] at hc
  cases hc

theorem dot_notMem_segmentText (head : Option FieldKey) (indices : List Nat) : '.' ∉ segmentText head indices := by
  rw [segmentText, List.mem_append, not_or]
  refine ⟨name_safe head (.inl rfl), fun h => ?_⟩
  obtain ⟨i, -, hi⟩ := List.mem_flatMap.mp h
  rw [bracketed, List.cons_append, List.mem_cons, List.mem_append, List.mem_singleton] at hi
  rcases hi with hi | hi | hi
  · cases hi
  · exact notMem_toDigits i rfl hi
  · cases hi

theorem trimEndChar_bracket (i : Nat) : trimEndChar ']' (Nat.toDigits 10 i ++ [']']) = Nat.toDigits 10 i := by
  rw [trimEndChar, List.rdropWhile_concat_pos (· == ']') _ _ rfl, List.rdropWhile_eq_self_iff]
  intro hne hlast
  have hmem : ']' ∈ Nat.toDigits 10 i := beq_iff_eq.mp hlast ▸ List.getLast_mem hne
  exact notMem_toDigits i rfl hmem

theorem toOption_queryField (name : Str) : (queryField data name).toOption = data.get name := by
  unfold queryField
  cases data.get name <;> rfl

theorem toOption_queryIndex (i : Nat) : (queryIndex data (Nat.toDigits 10 i)).toOption =
    if i < 2 ^ 64 then item i data else none := by
  rw [queryIndex, parseUnsigned_toDigits]
  by_cases hi : i < 2 ^ 64
  · simp only [if_pos hi]
    cases item i data <;> rfl
  · simp only [if_neg hi]
    rfl

theorem toOption_bind {ε α β : Type} (x : Except ε α) (f : α → Except ε β) :
    (x >>= f).toOption = x.toOption.bind fun a => (f a).toOption := by
  cases x <;> rfl

theorem lookup_append (path path' : List QueryStep) (data : Json) :
    lookup data (path ++ path') = (lookup data path).bind fun value => lookup value path' :=
  List.foldlM_append

theorem lookup_index (i : Nat) (data : Json) : lookup data [.index i] = item i data := Option.bind_fun_some _

theorem plain_append_field (key : FieldKey) (path' : List QueryStep) : ∀ path : List QueryStep,
    plain (path ++ .field key :: path') = (plain path && plain (.field key :: path'))
  | [] => rfl
  | .field _ :: path => plain_append_field key path' path
  | [.index i] => by simp [plain, startsWithIndex]
  | .index i :: .field key' :: path => by
    have ih := plain_append_field key path' path
    rw [plain] at ih
    simp [plain, startsWithIndex, ih, Bool.and_assoc]
  | .index i :: .index j :: path => by simp [plain, startsWithIndex]

/-- The field of a segment, or its start, before the first index. -/
theorem toOption_enterField (head : Option FieldKey) :
    (enterField data (head.elim [] FieldKey.name)).toOption = lookup data (segmentSteps head []) := by
  cases head with
  | none => rfl
  | some key =>
    rw [Option.elim_some, enterField, if_neg (by simpa using key.ne)]
    exact (toOption_queryField key.name).trans (Option.bind_fun_some _).symm

theorem plain_segmentSteps (head : Option FieldKey) (path : List QueryStep) :
    plain (segmentSteps head [] ++ path) = plain path := by
  cases head <;> rfl

theorem segmentSteps_append (head : Option FieldKey) (indices indices' : List Nat) :
    segmentSteps head (indices ++ indices') = segmentSteps head indices ++ indices'.map .index := by
  rw [segmentSteps, segmentSteps, List.map_append, List.append_assoc]

/-- An index behind another is no number. -/
theorem queryIndex_nested (current : Json) (i j : Nat) (indices : List Nat) :
    (queryIndex current (trimEndChar ']' (Nat.toDigits 10 i ++ ']' :: (j :: indices).flatMap bracketed))).toOption =
      none := by
  have hsplit : Nat.toDigits 10 i ++ ']' :: (j :: indices).flatMap bracketed =
      (Nat.toDigits 10 i ++ [']']) ++ '[' :: (Nat.toDigits 10 j ++ [']'] ++ indices.flatMap bracketed) := by
    simp [bracketed]
  have hmem : ']' ∈ trimEndChar ']' (Nat.toDigits 10 i ++ ']' :: (j :: indices).flatMap bracketed) := by
    rw [hsplit]
    exact mem_trimEndChar (List.mem_append_right _ (List.mem_singleton_self ']')) (by decide) _
  rw [queryIndex, parseUnsigned_of_mem hmem rfl (by decide)]
  rfl

/-- **One segment.** A segment is followed when it has no more than one index. -/
theorem toOption_querySegment (head : Option FieldKey) (indices : List Nat) (data : Json) :
    (querySegment data (segmentText head indices)).toOption =
      if plain (segmentSteps head indices) then lookup data (segmentSteps head indices) else none := by
  cases indices with
  | nil =>
    have hplain : plain (segmentSteps head []) = true := by cases head <;> rfl
    rw [if_pos hplain, ← toOption_enterField, segmentText, List.flatMap_nil, List.append_nil, querySegment, enterField,
      splitOnce_of_notMem (name_safe head (.inr rfl))]
  | cons i indices =>
    have htext : segmentText head (i :: indices) =
        head.elim [] FieldKey.name ++ '[' :: (Nat.toDigits 10 i ++ ']' :: indices.flatMap bracketed) := by
      simp [segmentText, bracketed]
    have hsteps : segmentSteps head (i :: indices) = segmentSteps head [] ++ .index i :: indices.map .index :=
      segmentSteps_append head [] (i :: indices)
    rw [htext, querySegment, if_neg (by simp), splitOnce_append _ (name_safe head (.inr rfl)), hsteps,
      plain_segmentSteps, lookup_append, ← toOption_enterField]
    dsimp only
    rw [toOption_bind]
    cases indices with
    | nil =>
      simp only [List.flatMap_nil, trimEndChar_bracket, toOption_queryIndex]
      by_cases hi : i < 2 ^ 64
      · have hplain : plain [.index i] = true := by simpa [plain, startsWithIndex] using hi
        rw [List.map_nil, if_pos hplain]
        simp only [if_pos hi, lookup_index]
      · have hplain : ¬plain [.index i] = true := by simpa [plain, startsWithIndex] using hi
        rw [List.map_nil, if_neg hplain]
        simp only [if_neg hi, Option.bind_fun_none]
    | cons j indices =>
      simp only [queryIndex_nested, Option.bind_fun_none]
      rw [if_neg (by simp [plain, startsWithIndex])]

/-- **The segments of a path**, one of which was begun. -/
theorem toOption_segments : ∀ (path : List QueryStep) (head : Option FieldKey) (indices : List Nat) (data : Json),
    (((segmentText head indices ++ writtenAfter path).splitOn '.').foldlM querySegment data).toOption =
      if plain (segmentSteps head indices ++ path) then lookup data (segmentSteps head indices ++ path) else none
  | [], head, indices, data => by
    rw [writtenAfter, List.append_nil, List.append_nil, List.splitOn_eq_singleton (dot_notMem_segmentText head indices),
      List.foldlM_cons, toOption_bind, ← toOption_querySegment]
    exact Option.bind_fun_some _
  | .index i :: path, head, indices, data => by
    have ih := toOption_segments path head (indices ++ [i]) data
    have htext : segmentText head (indices ++ [i]) = segmentText head indices ++ bracketed i := by
      simp [segmentText]
    rw [segmentSteps_append, htext, List.append_assoc, List.append_assoc] at ih
    exact ih
  | .field key :: path, head, indices, data => by
    have ih := toOption_segments path (some key) []
    have hsplit : (segmentText head indices ++ writtenAfter (.field key :: path)).splitOn '.' =
        segmentText head indices :: (segmentText (some key) [] ++ writtenAfter path).splitOn '.' := by
      rw [writtenAfter, List.cons_append,
        List.splitOn_append_cons_self_of_not_mem (dot_notMem_segmentText head indices)]
      simp [segmentText]
    rw [hsplit, List.foldlM_cons, toOption_bind, toOption_querySegment, plain_append_field, lookup_append]
    simp only [ih]
    show _ = if (_ && plain (segmentSteps (some key) [] ++ path)) = true then _ else _
    cases plain (segmentSteps head indices) <;> cases plain (segmentSteps (some key) [] ++ path) <;> simp
    rfl

/-- **Written paths.** A query follows a path when it is plain, and fails otherwise. -/
theorem toOption_queryJson (data : Json) (path : List QueryStep) :
    (queryJson data (written path)).toOption = if plain path then lookup data path else none := by
  cases path with
  | nil => exact toOption_segments [] none [] data
  | cons step path =>
    cases step with
    | field key =>
      have hpath := toOption_segments path (some key) [] data
      rw [segmentText, Option.elim_some, List.flatMap_nil, List.append_nil] at hpath
      exact hpath
    | index i => exact toOption_segments (.index i :: path) none [] data

/-- The answer that is asked for, as an equation. -/
theorem follows_iff_of_toOption {result : Except ToolError Json} {expected : Option Json} :
    (match expected with
      | some value => result = .ok value
      | none => ∃ e, result = .error e) ↔ result.toOption = expected := by
  cases result <;> cases expected <;> simp [Except.toOption]

end Segments

/-- **Queries.** A query follows a path if and only if no index stands directly behind another and each is a 64-bit
number, or the path leads to no value. -/
theorem queryFollows_iff (data : Json) (path : List QueryStep) :
    QueryFollows data path ↔ plain path = true ∨ lookup data path = none := by
  rw [QueryFollows, follows_iff_of_toOption, toOption_queryJson]
  cases plain path
  · simp [eq_comm]
  · simp

/-- Rows that are arrays. -/
def rowsData : Json := .obj [("rows".toList, .arr [.arr [], .arr [], .arr [.str "x".toList]])]

/-- `rows[2][0]` -/
def rowsPath : List QueryStep :=
  [.field ⟨"rows".toList, by decide, by decide, by decide⟩, .index 2, .index 0]

/-- The second index is taken for a part of the first. -/
theorem nested_index_fails : lookup rowsData rowsPath = some (.str "x".toList) ∧
    written rowsPath = "rows[2][0]".toList ∧
    queryJson rowsData (written rowsPath) = .error (.invalidParameters "invalid array index: 2][0".toList) ∧
      ¬QueryFollows rowsData rowsPath := by
  have hlookup : lookup rowsData rowsPath = some (.str "x".toList) := rfl
  have hquery :
    queryJson rowsData (written rowsPath) = .error (.invalidParameters "invalid array index: 2][0".toList) := rfl
  refine ⟨hlookup, rfl, hquery, fun h => ?_⟩
  rw [QueryFollows, hlookup, hquery] at h
  cases h

end Ironclaw.Tools

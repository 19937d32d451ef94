import Ironclaw.Lib.Json
import Ironclaw.Safety.Layer

/-!
# The validation of tool parameters

`Validator::validate_tool_params` walks through a JSON value and checks each string value that is not empty, down to a
depth of 32; what lies deeper is skipped, as are the keys of objects.

- `checkStrings_isValid`: what a walk adds to a result;
- `validateToolParams_isValid_iff`: when the parameters are valid.
-/

namespace Ironclaw.Safety

open Text

/-! ## Results -/

inductive ValidationErrorCode
  | empty
  | tooLong
  | tooShort
  | invalidFormat
  | forbiddenContent
  | invalidEncoding
  | suspiciousPattern
  deriving DecidableEq

structure ValidationError where
  field : Str
  message : Str
  code : ValidationErrorCode
  deriving DecidableEq

structure ValidationResult where
  isValid : Bool
  errors : List ValidationError
  warnings : List Str
  deriving DecidableEq

namespace ValidationResult

def ok : ValidationResult := ⟨true, [], []⟩

def error (e : ValidationError) : ValidationResult := ⟨false, [e], []⟩

def withWarning (r : ValidationResult) (warning : Str) : ValidationResult :=
  { r with warnings := r.warnings ++ [warning] }

def merge (r other : ValidationResult) : ValidationResult :=
  ⟨r.isValid && other.isValid, r.errors ++ other.errors, r.warnings ++ other.warnings⟩

@[simp] theorem merge_isValid (r other : ValidationResult) : (r.merge other).isValid = (r.isValid && other.isValid) :=
  rfl

@[simp] theorem withWarning_isValid (r : ValidationResult) (warning : Str) :
    (r.withWarning warning).isValid = r.isValid := rfl

section Steps

variable {r : ValidationResult} {c : Prop} [Decidable c]

theorem check_isValid {e : ValidationError} :
    (if c then r.merge (.error e) else r).isValid = true ↔ r.isValid = true ∧ ¬c := by
  split
  next hc =>
    rw [merge_isValid]
    exact iff_of_false (fun h => by cases (Bool.and_eq_true_iff.mp h).2) (fun h => h.2 hc)
  next hc => rw [and_iff_left hc]

theorem warn_isValid {warning : Str} : (if c then r.withWarning warning else r).isValid = r.isValid := by
  split <;> rfl

theorem checkAll_isValid {α : Type} {P : α → Prop} [DecidablePred P] {e : α → ValidationError} :
    ∀ {l : List α} {r : ValidationResult},
      (l.foldl (fun r a => if P a then r.merge (.error (e a)) else r) r).isValid = true ↔
        r.isValid = true ∧ ∀ a ∈ l, ¬P a
  | [], r => by rw [List.foldl_nil, and_iff_left (fun a ha => by cases ha)]
  | a :: l, r => by rw [List.foldl_cons, checkAll_isValid, check_isValid, and_assoc, List.forall_mem_cons]

end Steps

end ValidationResult

/-! ## The validator -/

structure Validator where
  maxLength : Nat
  minLength : Nat
  forbiddenPatterns : List Str

/-- `Validator::new`. -/
def Validator.new : Validator := ⟨100000, 1, []⟩

/-- `has_excessive_repetition`: a run of more than 20 equal characters in a text of at least 50 bytes. -/
def hasExcessiveRepetition (s : Str) : Bool :=
  let step := fun (acc : Option Char × Nat × Nat) (c : Char) =>
    let current := if acc.1 = some c then acc.2.1 + 1 else 1
    (some c, current, max acc.2.2 current)
  50 ≤ utf8Len s && 20 < (s.foldl step (none, 1, 1)).2.2

section Validate

variable (cm : CaseMap) (validator : Validator)

/-- `Validator::validate_non_empty_input`; the quotient of the two counts is compared with 0.9. -/
def Validator.validateNonEmptyInput (input field : Str) : ValidationResult :=
  let result := ValidationResult.ok
  let result :=
    if validator.maxLength < utf8Len input then
      result.merge (.error
        { field := field
          message := "Input too long: ".toList ++ Nat.toDigits 10 (utf8Len input) ++ " bytes (max ".toList ++
            Nat.toDigits 10 validator.maxLength ++ ")".toList
          code := .tooLong })
    else result
  let result :=
    if utf8Len input < validator.minLength then
      result.merge (.error
        { field := field
          message := "Input too short: ".toList ++ Nat.toDigits 10 (utf8Len input) ++ " bytes (min ".toList ++
            Nat.toDigits 10 validator.minLength ++ ")".toList
          code := .tooShort })
    else result
  let result :=
    if input.any (· == NUL) then
      result.merge (.error ⟨field, "Input contains null bytes".toList, .invalidEncoding⟩)
    else result
  let lowerInput := cm.lower input
  let result := validator.forbiddenPatterns.foldl (fun result pattern =>
    if pattern <:+: lowerInput then
      result.merge (.error ⟨field, "Input contains forbidden pattern: ".toList ++ pattern, .forbiddenContent⟩)
    else result) result
  let result :=
    if 9 * utf8Len input < 10 * input.countP isWhitespace ∧ 100 < utf8Len input then
      result.withWarning "Input has unusually high whitespace ratio".toList
    else result
  if hasExcessiveRepetition input then result.withWarning "Input has excessive character repetition".toList else result

def MAX_DEPTH : Nat := 32

mutual

/-- `check_strings`. -/
def Validator.checkStrings : Json → (path : Str) → ValidationResult → (depth : Nat) → ValidationResult
  | .str s, path, result, depth =>
    if MAX_DEPTH < depth then result
    else result.merge (if s.isEmpty then .ok else validator.validateNonEmptyInput cm s path)
  | .arr xs, path, result, depth =>
    if MAX_DEPTH < depth then result else checkItems xs 0 path result (depth + 1)
  | .obj kvs, path, result, depth =>
    if MAX_DEPTH < depth then result else checkFields kvs path result (depth + 1)
  | .null, _, result, _ => result
  | .bool _, _, result, _ => result
  | .num _, _, result, _ => result

/-- The loop over the items of an array, from the index `i` on. -/
def Validator.checkItems : List Json → (i : Nat) → (path : Str) → ValidationResult → (depth : Nat) → ValidationResult
  | [], _, _, result, _ => result
  | x :: xs, i, path, result, depth =>
    checkItems xs (i + 1) path
      (checkStrings x (path ++ "[".toList ++ Nat.toDigits 10 i ++ "]".toList) result depth) depth

/-- The loop over the fields of an object. -/
def Validator.checkFields : List (Str × Json) → (path : Str) → ValidationResult → (depth : Nat) → ValidationResult
  | [], _, result, _ => result
  | (k, v) :: kvs, path, result, depth =>
    checkFields kvs path
      (checkStrings v (if path.isEmpty then k else path ++ ".".toList ++ k) result depth) depth

end

/-- `Validator::validate_tool_params`. -/
def Validator.validateToolParams (params : Json) : ValidationResult := validator.checkStrings cm params [] .ok 0

end Validate

/-! ## What is checked -/

/-- A string value of a JSON value, and how deep it lies. -/
inductive StringAt : Json → (depth : Nat) → Str → Prop
  | here (s : Str) : StringAt (.str s) 0 s
  | item {xs : List Json} {x : Json} {d : Nat} {s : Str} : x ∈ xs → StringAt x d s → StringAt (.arr xs) (d + 1) s
  | field {kvs : List (Str × Json)} {kv : Str × Json} {d : Nat} {s : Str} :
    kv ∈ kvs → StringAt kv.2 d s → StringAt (.obj kvs) (d + 1) s

/-- What a string that is not empty must meet. -/
structure Validator.Accepts (cm : CaseMap) (validator : Validator) (s : Str) : Prop where
  notTooLong : utf8Len s ≤ validator.maxLength
  notTooShort : validator.minLength ≤ utf8Len s
  noNul : NUL ∉ s
  noForbidden : ∀ pattern ∈ validator.forbiddenPatterns, ¬pattern <:+: cm.lower s

section Walk

variable {cm : CaseMap} {validator : Validator}

theorem validateNonEmptyInput_isValid (s field : Str) :
    (validator.validateNonEmptyInput cm s field).isValid = true ↔ validator.Accepts cm s := by
  have hnul : s.any (· == NUL) = true ↔ NUL ∈ s := by
    rw [List.any_eq_true]
    exact ⟨fun ⟨c, hc, heq⟩ => eq_of_beq heq ▸ hc, fun h => ⟨NUL, h, beq_self_eq_true _⟩⟩
  simp only [Validator.validateNonEmptyInput, ValidationResult.warn_isValid, ValidationResult.checkAll_isValid,
    ValidationResult.check_isValid, hnul, Nat.not_lt]
  constructor
  · rintro ⟨⟨⟨⟨-, hlong⟩, hshort⟩, hnone⟩, hforbidden⟩
    exact ⟨hlong, hshort, hnone, hforbidden⟩
  · rintro ⟨hlong, hshort, hnone, hforbidden⟩
    exact ⟨⟨⟨⟨rfl, hlong⟩, hshort⟩, hnone⟩, hforbidden⟩

/-- The strings from a depth on down to the cap. -/
def AcceptsBelow (cm : CaseMap) (validator : Validator) (depth : Nat) (v : Json) : Prop :=
  ∀ d s, StringAt v d s → depth + d ≤ MAX_DEPTH → s ≠ [] → validator.Accepts cm s

theorem acceptsBelow_of_deep {v : Json} {depth : Nat} (h : MAX_DEPTH < depth) : AcceptsBelow cm validator depth v :=
  fun _ _ _ hle => absurd (Nat.le_trans (Nat.le_add_right _ _) hle) (Nat.not_le.mpr h)

theorem acceptsBelow_str {s : Str} {depth : Nat} (h : depth ≤ MAX_DEPTH) :
    AcceptsBelow cm validator depth (.str s) ↔ (s ≠ [] → validator.Accepts cm s) := by
  constructor
  · exact fun hs => hs 0 s (.here s) h
  · rintro hs d t ⟨⟩ -
    exact hs

theorem acceptsBelow_arr {xs : List Json} {depth : Nat} :
    AcceptsBelow cm validator depth (.arr xs) ↔ ∀ x ∈ xs, AcceptsBelow cm validator (depth + 1) x := by
  constructor
  · intro h x hx d s hs hle
    exact h (d + 1) s (.item hx hs) (by omega)
  · rintro h d s ⟨⟩ hle
    next x d hx hs => exact h x hx d s hs (by omega)

theorem acceptsBelow_obj {kvs : List (Str × Json)} {depth : Nat} :
    AcceptsBelow cm validator depth (.obj kvs) ↔ ∀ kv ∈ kvs, AcceptsBelow cm validator (depth + 1) kv.2 := by
  constructor
  · intro h kv hkv d s hs hle
    exact h (d + 1) s (.field hkv hs) (by omega)
  · rintro h d s ⟨⟩ hle
    next kv d hkv hs => exact h kv hkv d s hs (by omega)

mutual

/-- What the walk through a value adds to a result. -/
theorem checkStrings_isValid : ∀ (v : Json) (path : Str) (result : ValidationResult) (depth : Nat),
    (validator.checkStrings cm v path result depth).isValid = true ↔
      result.isValid = true ∧ AcceptsBelow cm validator depth v
  | .str s, path, result, depth => by
    rw [Validator.checkStrings]
    split
    next h => rw [and_iff_left (acceptsBelow_of_deep h)]
    next h =>
      rw [ValidationResult.merge_isValid, Bool.and_eq_true, acceptsBelow_str (Nat.not_lt.mp h)]
      refine and_congr_right fun _ => ?_
      cases s with
      | nil => exact iff_of_true rfl fun hne => absurd rfl hne
      | cons c s =>
        rw [if_neg (by exact Bool.false_ne_true), validateNonEmptyInput_isValid]
        exact ⟨fun h _ => h, fun h => h (List.cons_ne_nil c s)⟩
  | .arr xs, path, result, depth => by
    have ih := checkItems_isValid xs 0 path result (depth + 1)
    rw [Validator.checkStrings]
    split
    next h => rw [and_iff_left (acceptsBelow_of_deep h)]
    · rw [ih, acceptsBelow_arr]
  | .obj kvs, path, result, depth => by
    have ih := checkFields_isValid kvs path result (depth + 1)
    rw [Validator.checkStrings]
    split
    next h => rw [and_iff_left (acceptsBelow_of_deep h)]
    · rw [ih, acceptsBelow_obj]
  | .null, path, result, depth => (and_iff_left fun _ _ hs => by cases hs).symm
  | .bool _, path, result, depth => (and_iff_left fun _ _ hs => by cases hs).symm
  | .num _, path, result, depth => (and_iff_left fun _ _ hs => by cases hs).symm

theorem checkItems_isValid : ∀ (xs : List Json) (i : Nat) (path : Str) (result : ValidationResult) (depth : Nat),
    (validator.checkItems cm xs i path result depth).isValid = true ↔
      result.isValid = true ∧ ∀ x ∈ xs, AcceptsBelow cm validator depth x
  | [], i, path, result, depth => (and_iff_left fun _ hx => by cases hx).symm
  | x :: xs, i, path, result, depth => by
    rw [Validator.checkItems, checkItems_isValid xs, checkStrings_isValid x, and_assoc, List.forall_mem_cons]

theorem checkFields_isValid : ∀ (kvs : List (Str × Json)) (path : Str) (result : ValidationResult) (depth : Nat),
    (validator.checkFields cm kvs path result depth).isValid = true ↔
      result.isValid = true ∧ ∀ kv ∈ kvs, AcceptsBelow cm validator depth kv.2
  | [], path, result, depth => (and_iff_left fun _ hkv => by cases hkv).symm
  | (k, v) :: kvs, path, result, depth => by
    rw [Validator.checkFields, checkFields_isValid kvs, checkStrings_isValid v, and_assoc, List.forall_mem_cons]

end

end Walk

section Params

variable (cm : CaseMap) (validator : Validator) (params : Json)

/-- **When tool parameters are valid.** Each string value down to a depth of 32 is empty, or within the limits of the
length and without null bytes and forbidden patterns. -/
theorem validateToolParams_isValid_iff : (validator.validateToolParams cm params).isValid = true ↔
    ∀ d s, StringAt params d s → d ≤ 32 → s = [] ∨
      validator.minLength ≤ utf8Len s ∧ utf8Len s ≤ validator.maxLength ∧ NUL ∉ s ∧
        ∀ pattern ∈ validator.forbiddenPatterns, ¬pattern <:+: cm.lower s := by
  rw [Validator.validateToolParams, checkStrings_isValid, and_iff_right (by rfl)]
  refine forall_congr' fun d => forall_congr' fun s => forall_congr' fun hs => ?_
  rw [Nat.zero_add]
  refine forall_congr' fun _ => ?_
  rw [or_iff_not_imp_left]
  refine forall_congr' fun _ => ?_
  exact ⟨fun h => ⟨h.notTooShort, h.notTooLong, h.noNul, h.noForbidden⟩,
    fun ⟨hshort, hlong, hnone, hforbidden⟩ => ⟨hlong, hshort, hnone, hforbidden⟩⟩

end Params

/-- The value in this many arrays. -/
def nestArrays : Nat → Json → Json
  | 0, v => v
  | n + 1, v => .arr [nestArrays n v]

theorem stringAt_nestArrays {v : Json} {d : Nat} {s : Str} (h : StringAt v d s) :
    ∀ n, StringAt (nestArrays n v) (d + n) s
  | 0 => h
  | n + 1 => .item List.mem_cons_self (stringAt_nestArrays h n)

theorem nul_below_cap : (Validator.new.validateToolParams asciiCase (nestArrays 33 (.str [NUL]))).isValid = true ∧
    StringAt (nestArrays 33 (.str [NUL])) 33 [NUL] :=
  ⟨by decide, stringAt_nestArrays (.here [NUL]) 33⟩

end Ironclaw.Safety

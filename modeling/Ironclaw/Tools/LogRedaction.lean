import Ironclaw.Lib.Json

/-!
# Redacting values for the log

`redact_sensitive_json`: the values of sensitive keys are replaced, at any depth; whether a key is sensitive is decided
by its name and the parts that it is made of.

- `flatten_splitCamelCaseKeyParts`: the parts of a segment are the segment, cut;
- `redact_eq_iff`: two values have one redaction exactly when they agree outside what is stored under sensitive keys;
- `valueAt_redact`: what a redacted value holds at a place above every sensitive key;
- `redaction_hides_secrets`: the three together.
-/

namespace Ironclaw.Tools

open Text

/-! ## Sensitive keys -/

def REDACTED : Str := "[REDACTED]".toList

def SENSITIVE_EXACT : List Str :=
  ["authorization".toList, "proxy-authorization".toList, "cookie".toList, "set-cookie".toList, "x-api-key".toList,
    "api-key".toList, "api_key".toList, "access_token".toList, "refresh_token".toList, "session_token".toList,
    "id_token".toList, "token".toList, "password".toList, "passwd".toList, "secret".toList, "client_secret".toList,
    "private_key".toList, "apikey".toList, "apisecret".toList]

def SENSITIVE_PARTS : List Str :=
  ["password".toList, "passwd".toList, "secret".toList, "credential".toList, "authorization".toList, "cookie".toList,
    "apikey".toList, "apisecret".toList]

def TOKEN_PARTS : List Str := ["token".toList, "jwt".toList]

def KEY_PARTS : List Str := ["key".toList]

def CONTEXT_PARTS : List Str :=
  ["auth".toList, "oauth".toList, "authorization".toList, "api".toList, "access".toList, "refresh".toList,
    "session".toList, "bearer".toList, "private".toList, "client".toList, "id".toList, "app".toList, "user".toList,
    "application".toList, "account".toList]

/-- A new part begins at `cur`. -/
def isBoundary (prev cur : Char) (next : Option Char) : Bool :=
  (prev.isLower && cur.isUpper) || (prev.isAlpha && cur.isDigit) || (prev.isDigit && cur.isAlpha) ||
    (prev.isUpper && cur.isUpper && (next.map Char.isLower).getD false)

/-- The loop over the characters after `prev`, which ends the part so far. -/
def splitCamelCaseLoop (part : Str) (prev : Char) : Str → List Str
  | [] => [part]
  | cur :: rest =>
    if isBoundary prev cur rest.head? then part :: splitCamelCaseLoop [cur] cur rest
    else splitCamelCaseLoop (part ++ [cur]) cur rest

/-- `split_camel_case_key_parts`. -/
def splitCamelCaseKeyParts : Str → List Str
  | [] => []
  | c :: rest => splitCamelCaseLoop [c] c rest

/-- `tokenize_key_parts`. -/
def tokenizeKeyParts (key : Str) : List Str :=
  let segments := (key.splitOnP fun c => !c.isAlphanum).filter fun segment => !segment.isEmpty
  (segments.flatMap splitCamelCaseKeyParts).map fun part => part.map asciiLower

def hasExact (parts candidates : List Str) : Bool := parts.any fun part => candidates.contains part

/-- `has_candidate_or_numbered_variant`. -/
def hasCandidateOrNumberedVariant (parts candidates : List Str) : Bool :=
  parts.any fun part => candidates.any fun candidate =>
    part == candidate ||
      match stripStart candidate part with
      | some suffix => !suffix.isEmpty && suffix.all Char.isDigit
      | none => false

/-- `str::strip_suffix`. -/
def stripEnd (pat s : Str) : Option Str := if pat.isSuffixOf s then some (s.take (s.length - pat.length)) else none

/-- `has_contextual_suffix`. -/
def hasContextualSuffix (parts candidates : List Str) : Bool :=
  parts.any fun part => candidates.any fun candidate =>
    match stripEnd candidate part with
    | some front => !front.isEmpty && CONTEXT_PARTS.contains front
    | none => false

/-- `is_sensitive_key`. -/
def isSensitiveKey (key : Str) : Bool :=
  if SENSITIVE_EXACT.contains (key.map asciiLower) then true
  else
    let parts := tokenizeKeyParts key
    if parts.isEmpty then false
    else if hasCandidateOrNumberedVariant parts SENSITIVE_PARTS then true
    else
      let hasToken := hasCandidateOrNumberedVariant parts TOKEN_PARTS
      let hasKey := hasCandidateOrNumberedVariant parts KEY_PARTS
      if hasToken && hasKey then true
      else if hasContextualSuffix parts TOKEN_PARTS || hasContextualSuffix parts KEY_PARTS then true
      else hasExact parts CONTEXT_PARTS && (hasToken || hasKey)

theorem flatten_splitCamelCaseLoop : ∀ (part : Str) (prev : Char) (rest : Str),
    (splitCamelCaseLoop part prev rest).flatten = part ++ rest
  | part, prev, [] => by
    rw [splitCamelCaseLoop, List.flatten_singleton, List.append_nil]
  | part, prev, cur :: rest => by
    rw [splitCamelCaseLoop]
    split
    · rw [List.flatten_cons, flatten_splitCamelCaseLoop [cur] cur rest, List.singleton_append]
    · rw [flatten_splitCamelCaseLoop (part ++ [cur]) cur rest, ← List.append_cons]

/-- Nothing of a segment is lost between its parts. -/
theorem flatten_splitCamelCaseKeyParts (key : Str) : (splitCamelCaseKeyParts key).flatten = key := by
  cases key with
  | nil => rfl
  | cons c rest => exact flatten_splitCamelCaseLoop [c] c rest

example : isSensitiveKey "x-api-key".toList = true ∧ isSensitiveKey "author".toList = false := by
  decide

/-! ## Redaction -/

mutual

/-- `redact_in_place`. -/
def redactInPlace : Json → Json
  | .obj kvs => .obj (redactObject kvs)
  | .arr xs => .arr (redactItems xs)
  | .null => .null
  | .bool b => .bool b
  | .num n => .num n
  | .str s => .str s

/-- The loop over the items of an array. -/
def redactItems : List Json → List Json
  | [] => []
  | x :: xs => redactInPlace x :: redactItems xs

/-- `redact_object`. -/
def redactObject : List (Str × Json) → List (Str × Json)
  | [] => []
  | (key, val) :: kvs => (key, if isSensitiveKey key then .str REDACTED else redactInPlace val) :: redactObject kvs

end

/-- `redact_sensitive_json`. -/
def redactSensitiveJson (value : Json) : Json := redactInPlace value

/-! ## Two values -/

mutual

/-- Two values are the same outside what is stored under sensitive keys. -/
def AgreeOutside : Json → Json → Prop
  | .obj xs, .obj ys => AgreeFields xs ys
  | .arr xs, .arr ys => AgreeItems xs ys
  | .obj _, _ => False
  | .arr _, _ => False
  | .null, w => w = .null
  | .bool b, w => w = .bool b
  | .num n, w => w = .num n
  | .str s, w => w = .str s

def AgreeItems : List Json → List Json → Prop
  | [], [] => True
  | x :: xs, y :: ys => AgreeOutside x y ∧ AgreeItems xs ys
  | _, _ => False

def AgreeFields : List (Str × Json) → List (Str × Json) → Prop
  | [], [] => True
  | (key, x) :: xs, (other, y) :: ys =>
    key = other ∧ (isSensitiveKey key = true ∨ AgreeOutside x y) ∧ AgreeFields xs ys
  | _, _ => False

end

mutual

/-- **Two values have one redaction exactly when they agree outside the sensitive values.** -/
theorem redact_eq_iff : ∀ a b : Json, redactInPlace a = redactInPlace b ↔ AgreeOutside a b
  | .obj xs, b => by
    cases b <;> simp [redactInPlace, AgreeOutside, redactObject_eq_iff xs]
  | .arr xs, b => by
    cases b <;> simp [redactInPlace, AgreeOutside, redactItems_eq_iff xs]
  | .null, b => by
    cases b <;> simp [redactInPlace, AgreeOutside]
  | .bool _, b => by
    cases b <;> simp [redactInPlace, AgreeOutside, eq_comm]
  | .num _, b => by
    cases b <;> simp [redactInPlace, AgreeOutside, eq_comm]
  | .str _, b => by
    cases b <;> simp [redactInPlace, AgreeOutside, eq_comm]

theorem redactItems_eq_iff : ∀ xs ys : List Json, redactItems xs = redactItems ys ↔ AgreeItems xs ys
  | [], ys => by
    cases ys <;> simp [redactItems, AgreeItems]
  | x :: xs, ys => by
    cases ys with
    | nil => simp [redactItems, AgreeItems]
    | cons y ys =>
      rw [redactItems, redactItems, AgreeItems, List.cons_eq_cons, redact_eq_iff x, redactItems_eq_iff xs]

theorem redactObject_eq_iff : ∀ xs ys : List (Str × Json), redactObject xs = redactObject ys ↔ AgreeFields xs ys
  | [], ys => by
    cases ys <;> simp [redactObject, AgreeFields]
  | (key, x) :: xs, ys => by
    cases ys with
    | nil => simp [redactObject, AgreeFields]
    | cons field ys =>
      obtain ⟨other, y⟩ := field
      rw [redactObject, redactObject, AgreeFields, List.cons_eq_cons, Prod.mk.injEq, redactObject_eq_iff xs, and_assoc]
      refine and_congr_right fun hkey => and_congr_left fun _ => ?_
      subst hkey
      cases hsensitive : isSensitiveKey key with
      | true => simp
      | false => simpa using redact_eq_iff x y

end

mutual

/-- A value and its redaction agree outside the sensitive values. -/
theorem agree_redact : ∀ v : Json, AgreeOutside v (redactInPlace v)
  | .obj kvs => by
    rw [redactInPlace, AgreeOutside]
    exact agree_redactObject kvs
  | .arr xs => by
    rw [redactInPlace, AgreeOutside]
    exact agree_redactItems xs
  | .null => by rw [redactInPlace, AgreeOutside]
  | .bool b => by rw [redactInPlace, AgreeOutside]
  | .num n => by rw [redactInPlace, AgreeOutside]
  | .str s => by rw [redactInPlace, AgreeOutside]

theorem agree_redactItems : ∀ xs : List Json, AgreeItems xs (redactItems xs)
  | [] => trivial
  | x :: xs => ⟨agree_redact x, agree_redactItems xs⟩

theorem agree_redactObject : ∀ kvs : List (Str × Json), AgreeFields kvs (redactObject kvs)
  | [] => trivial
  | (key, val) :: kvs => by
    refine ⟨rfl, ?_, agree_redactObject kvs⟩
    cases hsensitive : isSensitiveKey key with
    | true => exact .inl rfl
    | false => exact .inr (agree_redact val)

end

/-- A redacted value has nothing left to redact. -/
theorem redact_redact (v : Json) : redactInPlace (redactInPlace v) = redactInPlace v :=
  ((redact_eq_iff v (redactInPlace v)).mpr (agree_redact v)).symm

/-! ## Places -/

/-- A step into a value. -/
inductive PathStep
  | key (key : Str)
  | index (i : Nat)

/-- The value at a place. -/
def valueAt : List PathStep → Json → Option Json
  | [], v => some v
  | .key key :: path, .obj kvs => (kvs.lookup key).bind (valueAt path)
  | .index i :: path, .arr xs => xs[i]?.bind (valueAt path)
  | _ :: _, _ => none

/-- No step of the path is a sensitive key. -/
def Outside (path : List PathStep) : Prop := ∀ key, .key key ∈ path → isSensitiveKey key = false

theorem redactItems_eq : ∀ xs : List Json, redactItems xs = xs.map redactInPlace
  | [] => rfl
  | x :: xs => by rw [redactItems, List.map_cons, redactItems_eq xs]

theorem keys_redactObject : ∀ kvs : List (Str × Json), (redactObject kvs).map Prod.fst = kvs.map Prod.fst
  | [] => rfl
  | (key, val) :: kvs => by rw [redactObject, List.map_cons, List.map_cons, keys_redactObject kvs]

/-- The value of a key that is not sensitive is redacted on its own. -/
theorem lookup_redactObject {key : Str} (h : isSensitiveKey key = false) : ∀ kvs : List (Str × Json),
    (redactObject kvs).lookup key = (kvs.lookup key).map redactInPlace
  | [] => rfl
  | (other, val) :: kvs => by
    rw [redactObject, List.lookup_cons, List.lookup_cons]
    split
    next heq =>
      rw [← eq_of_beq heq, h]
      rfl
    · exact lookup_redactObject h kvs

/-- **A redacted value holds at every place outside the sensitive keys what the value holds there**, redacted. -/
theorem valueAt_redact : ∀ {path : List PathStep}, Outside path → ∀ v : Json,
    valueAt path (redactInPlace v) = (valueAt path v).map redactInPlace
  | [], _, v => rfl
  | .key key :: path, h, v => by
    have hkey : isSensitiveKey key = false := h key List.mem_cons_self
    have houtside : Outside path := fun k hk => h k (List.mem_cons_of_mem _ hk)
    have ih := valueAt_redact houtside
    cases v with
    | obj kvs =>
      rw [redactInPlace, valueAt, valueAt, lookup_redactObject hkey]
      cases kvs.lookup key with
      | none => rfl
      | some w => exact ih w
    | null => rfl
    | bool b => rfl
    | num n => rfl
    | str s => rfl
    | arr xs => rfl
  | .index i :: path, h, v => by
    have houtside : Outside path := fun k hk => h k (List.mem_cons_of_mem _ hk)
    have ih := valueAt_redact houtside
    cases v with
    | arr xs =>
      rw [redactInPlace, valueAt, valueAt, redactItems_eq, List.getElem?_map]
      cases xs[i]? with
      | none => rfl
      | some w => exact ih w
    | null => rfl
    | bool b => rfl
    | num n => rfl
    | str s => rfl
    | obj kvs => rfl

/-- **Log redaction hides secrets**: values that agree outside the sensitive keys have one redaction, and no others do;
a second redaction changes nothing; and at every place outside the sensitive keys an array keeps its length and an
object its keys. -/
theorem redaction_hides_secrets :
    (∀ a b, redactSensitiveJson a = redactSensitiveJson b ↔ AgreeOutside a b) ∧
      (∀ v, redactSensitiveJson (redactSensitiveJson v) = redactSensitiveJson v) ∧
      ∀ (path : List PathStep), Outside path → ∀ v,
        (∀ xs, valueAt path v = some (.arr xs) →
          ∃ ys, valueAt path (redactSensitiveJson v) = some (.arr ys) ∧ ys.length = xs.length) ∧
        ∀ kvs, valueAt path v = some (.obj kvs) →
          ∃ kvs', valueAt path (redactSensitiveJson v) = some (.obj kvs') ∧ kvs'.map Prod.fst = kvs.map Prod.fst := by
  refine ⟨redact_eq_iff, redact_redact, fun path houtside v => ⟨fun xs hxs => ?_, fun kvs hkvs => ?_⟩⟩
  · refine ⟨redactItems xs, ?_, by rw [redactItems_eq, List.length_map]⟩
    rw [redactSensitiveJson, valueAt_redact houtside, hxs, Option.map_some, redactInPlace]
  · refine ⟨redactObject kvs, ?_, keys_redactObject kvs⟩
    rw [redactSensitiveJson, valueAt_redact houtside, hkvs, Option.map_some, redactInPlace]

end Ironclaw.Tools

import Ironclaw.Tools.Schema

/-!
# Coercing the parameters of a tool

`prepare_params_for_schema` turns the strings of a call's parameters into what the tool's schema asks for.

- `collectProperties_size`: the schemas that an object is coerced with are smaller than its own;
- `coerceStringValue_allowed`: what a string becomes has a type of the schema;
- `coerceValue_entries`: an object keeps its keys;
- `coerceValue_idem`: coercing twice, where the coerced objects select the same variants;
- `coercion_spec`: the three together.
-/

namespace Ironclaw.Tools

open Text Schema

/-! ## References -/

def MAX_REF_DEPTH : Nat := 16

/-- `resolve_ref_pointer`. -/
def resolveRefPointer (refStr : Str) (definitions : Json) : Option Json :=
  (stripStart "#/".toList refStr).bind fun path =>
    match path.splitOn '/' with
    | [group, name] =>
      if group = "definitions".toList ∨ group = "$defs".toList then definitions.get name else none
    | _ => none

/-- `resolve_refs_inner`, with the depth that is left. -/
def resolveRefsInner (definitions : Json) : Nat → Json → Json
  | 0, schema => schema
  | left + 1, .obj kvs =>
    match (kvs.lookup "$ref".toList).bind Json.asStr with
    | some refStr =>
      match resolveRefPointer refStr definitions with
      | some target => resolveRefsInner definitions left target
      | none => .obj kvs
    | none =>
      .obj (kvs.map fun (k, v) =>
        if k = "definitions".toList ∨ k = "$defs".toList then (k, v) else (k, resolveRefsInner definitions left v))
  | left + 1, .arr xs => .arr (xs.map (resolveRefsInner definitions left))
  | _ + 1, schema => schema

/-- `resolve_refs`. -/
def resolveRefs (schema : Json) : Json :=
  let definitions := ((schema.get "definitions".toList).or (schema.get "$defs".toList)).getD .null
  resolveRefsInner definitions (MAX_REF_DEPTH + 1) schema

/-! ## Types -/

/-- `schema_allows_type`. -/
def schemaAllowsType (schema : Json) (expected : Str) : Bool :=
  match schema.get "type".toList with
  | some (.str t) => t == expected
  | some (.arr types) => types.any fun t => Json.asStr t == some expected
  | _ =>
    if expected = "object".toList then
      (propertiesOf schema).isSome || combinatorKeys.any fun key => (schema.get key).isSome
    else if expected = "array".toList then (schema.get "items".toList).isSome
    else false

/-- The types of a value. -/
def typeNames : Json → List Str
  | .null => ["null".toList]
  | .bool _ => ["boolean".toList]
  | .num (.int _) => ["integer".toList, "number".toList]
  | .num (.float _) => ["number".toList]
  | .str _ => ["string".toList]
  | .arr _ => ["array".toList]
  | .obj _ => ["object".toList]

/-- The schema allows one of the value's types. -/
def Allows (schema v : Json) : Prop := ∃ t ∈ typeNames v, schemaAllowsType schema t

/-! ## The variants of an object -/

/-- The value that a discriminator must have. -/
def discriminatorValue (propSchema : Json) : Option Json :=
  match propSchema.get "const".toList with
  | some constVal => some constVal
  | none =>
    match (propSchema.get "enum".toList).bind asArray with
    | some [val] => some val
    | _ => none

/-- The loop over the properties of a variant, with the number of its discriminators so far. -/
def matchDiscriminators (entries : List (Str × Json)) : List (Str × Json) → Nat → Bool
  | [], count => 0 < count
  | (key, propSchema) :: props, count =>
    match discriminatorValue propSchema with
    | some val => if entries.lookup key = some val then matchDiscriminators entries props (count + 1) else false
    | none => matchDiscriminators entries props count

/-- A variant that has a discriminator, all of which have the object's values. -/
def isSelected (entries : List (Str × Json)) (variant : Json) : Bool :=
  match propertiesOf variant with
  | some props => matchDiscriminators entries props 0
  | none => false

/-- `find_discriminated_variant`. -/
def findDiscriminatedVariant (variants : List Json) (entries : List (Str × Json)) : Option Json :=
  variants.find? (isSelected entries)

def MAX_COMBINATOR_DEPTH : Nat := 4

/-- `Map::extend`: a later entry replaces an earlier one. -/
def extend (merged : List (Str × Json)) (entries : List (Str × Json)) : List (Str × Json) :=
  entries.foldl (fun merged kv => Json.insertEntry kv.1 kv.2 merged) merged

/-- The variant that each of `oneOf` and `anyOf` selects. -/
def selectedVariants (schema : Json) (entries : List (Str × Json)) : List Json :=
  ["oneOf".toList, "anyOf".toList].filterMap fun key => findDiscriminatedVariant (arrayOf key schema) entries

/-- `collect_properties`, with the depth that is left. -/
def collectProperties (entries : List (Str × Json)) : Nat → Json → Option (List (Str × Json))
  | 0, _ => none
  | left + 1, schema =>
    if combinatorKeys.any fun key => (schema.get key).isSome then
      let merged := (arrayOf "allOf".toList schema ++ selectedVariants schema entries).foldl
        (fun merged variant =>
          extend (extend merged ((propertiesOf variant).getD [])) ((collectProperties entries left variant).getD []))
        (extend [] ((propertiesOf schema).getD []))
      if merged.isEmpty then none else some merged
    else none

/-- `resolve_effective_properties`. -/
def resolveEffectiveProperties (schema : Json) (entries : List (Str × Json)) : Option (List (Str × Json)) :=
  collectProperties entries (MAX_COMBINATOR_DEPTH + 1) schema

/-- `additionalProperties`, where it is a schema. -/
def additionalOf (schema : Json) : Option Json :=
  (schema.get "additionalProperties".toList).filter fun v => (asObject v).isSome

/-- `resolve_additional_properties`. -/
def resolveAdditionalProperties (schema : Json) (entries : List (Str × Json)) : Option Json :=
  ((arrayOf "allOf".toList schema).reverse.findSome? additionalOf).or
    ((selectedVariants schema entries).findSome? additionalOf)

/-- What an entry of an object is coerced with. -/
inductive Slot
  | property (schema : Json)
  | additional (schema : Json)
  deriving DecidableEq

def Slot.schema : Slot → Json
  | .property schema => schema
  | .additional schema => schema

/-- The schema for a key: its property's, or else that of additional properties. -/
def slotOf (schema : Json) (entries : List (Str × Json)) (key : Str) : Option Slot :=
  let properties := (resolveEffectiveProperties schema entries).or (propertiesOf schema)
  match properties.bind fun props => props.lookup key with
  | some propSchema => some (.property propSchema)
  | none => ((additionalOf schema).or (resolveAdditionalProperties schema entries)).map .additional

/-! ## The schemas below a schema are smaller -/

section Sizes

variable {schema : Json} {entries : List (Str × Json)}

theorem size_arrayOf {key : Str} {variant : Json} (h : variant ∈ arrayOf key schema) : variant.size < schema.size := by
  rw [arrayOf] at h
  cases hget : schema.get key with
  | none => simp [hget] at h
  | some w =>
    cases w with
    | arr xs =>
      simp only [hget, Option.bind_some, asArray, Option.getD_some] at h
      exact (Json.size_lt_of_mem h).trans (Json.size_lt_of_get hget)
    | _ => simp [hget, asArray] at h

theorem size_selectedVariants {variant : Json} (h : variant ∈ selectedVariants schema entries) :
    variant.size < schema.size := by
  obtain ⟨key, -, hfind⟩ := List.mem_filterMap.mp h
  exact size_arrayOf (List.mem_of_find?_eq_some hfind)

theorem size_additionalOf {a : Json} (h : additionalOf schema = some a) : a.size < schema.size :=
  Json.size_lt_of_get (Option.filter_eq_some_iff.mp h).1

/-- Every value of the map is smaller than `n`. -/
def Below (n : Nat) (merged : List (Str × Json)) : Prop := ∀ kv ∈ merged, kv.2.size < n

theorem mem_insertEntry {key : Str} {v : Json} {kv : Str × Json} : ∀ {kvs : List (Str × Json)},
    kv ∈ Json.insertEntry key v kvs → kv ∈ kvs ∨ kv = (key, v)
  | [], h => .inr (List.mem_singleton.mp h)
  | (k, w) :: kvs, h => by
    rw [Json.insertEntry] at h
    split at h
    · next hk =>
      rcases List.mem_cons.mp h with h | h
      · exact .inr (hk ▸ h)
      · exact .inl (List.mem_cons_of_mem _ h)
    · rcases List.mem_cons.mp h with h | h
      · exact .inl (h ▸ List.mem_cons_self)
      · exact (mem_insertEntry h).imp_left (List.mem_cons_of_mem _)

theorem Below.extend {n : Nat} : ∀ {added merged : List (Str × Json)}, Below n merged → Below n added →
    Below n (extend merged added)
  | [], _, hm, _ => hm
  | (k, v) :: added, merged, hm, ha => by
    show Below n (Tools.extend (Json.insertEntry k v merged) added)
    refine Below.extend (fun kv hkv => ?_) fun kv hkv => ha kv (List.mem_cons_of_mem _ hkv)
    rcases mem_insertEntry hkv with hkv | rfl
    · exact hm kv hkv
    · exact ha _ List.mem_cons_self

theorem below_propertiesOf : Below schema.size ((propertiesOf schema).getD []) := by
  intro kv hkv
  cases hprops : propertiesOf schema with
  | none => simp [hprops] at hkv
  | some props =>
    rw [hprops] at hkv
    exact size_property hprops hkv

theorem Below.mono {n m : Nat} {merged : List (Str × Json)} (h : n ≤ m) (hb : Below n merged) : Below m merged :=
  fun kv hkv => lt_of_lt_of_le (hb kv hkv) h

/-- The schemas that an object is coerced with are smaller than its own. -/
theorem collectProperties_size (entries : List (Str × Json)) : ∀ (left : Nat) (schema : Json),
    Below schema.size ((collectProperties entries left schema).getD [])
  | 0, _ => fun _ hkv => absurd hkv (by simp [collectProperties])
  | left + 1, schema => by
    rw [collectProperties]
    split
    · have hfold : ∀ (variants : List Json) (merged : List (Str × Json)), (∀ v ∈ variants, v.size < schema.size) →
          Below schema.size merged → Below schema.size (variants.foldl (fun merged variant =>
            Tools.extend (Tools.extend merged ((propertiesOf variant).getD []))
              ((collectProperties entries left variant).getD [])) merged) := by
        intro variants
        induction variants with
        | nil => exact fun _ _ hm => hm
        | cons v variants ih =>
          intro merged hv hm
          have hsize := hv v List.mem_cons_self
          refine ih _ (fun w hw => hv w (List.mem_cons_of_mem _ hw)) ?_
          exact (hm.extend (below_propertiesOf.mono hsize.le)).extend
            ((collectProperties_size entries left v).mono hsize.le)
      have hvariants : ∀ v ∈ arrayOf "allOf".toList schema ++ selectedVariants schema entries, v.size < schema.size :=
        fun v hv => (List.mem_append.mp hv).elim size_arrayOf size_selectedVariants
      have hstart : Below schema.size (Tools.extend [] ((propertiesOf schema).getD [])) :=
        Below.extend (fun _ h => absurd h (by simp)) below_propertiesOf
      have hmerged := hfold _ _ hvariants hstart
      simp only
      split
      · exact fun _ h => absurd h (by simp)
      · exact hmerged
    · exact fun _ h => absurd h (by simp)

theorem mem_of_lookup {key : Str} {v : Json} {kvs : List (Str × Json)} (h : kvs.lookup key = some v) :
    (key, v) ∈ kvs := by
  obtain ⟨kvs', heq, hmem⟩ := Json.mem_of_get (j := .obj kvs) h
  cases heq
  exact hmem

theorem size_slotOf {key : Str} {slot : Slot} (h : slotOf schema entries key = some slot) :
    slot.schema.size < schema.size := by
  rw [slotOf] at h
  split at h
  · next propSchema hprop =>
    cases h
    obtain ⟨props, hprops, hlookup⟩ := Option.bind_eq_some_iff.mp hprop
    rcases Option.or_eq_some_iff.mp hprops with hres | ⟨-, hres⟩
    · have hsize := collectProperties_size entries (MAX_COMBINATOR_DEPTH + 1) schema
      rw [← resolveEffectiveProperties, hres] at hsize
      exact hsize _ (mem_of_lookup hlookup)
    · exact size_property hres (mem_of_lookup hlookup)
  · obtain ⟨a, ha, rfl⟩ := Option.map_eq_some_iff.mp h
    rcases Option.or_eq_some_iff.mp ha with ha | ⟨-, ha⟩
    · exact size_additionalOf ha
    · rcases Option.or_eq_some_iff.mp ha with ha | ⟨-, ha⟩
      · obtain ⟨v, hv, hva⟩ := List.exists_of_findSome?_eq_some ha
        exact (size_additionalOf hva).trans (size_arrayOf (List.mem_reverse.mp hv))
      · obtain ⟨v, hv, hva⟩ := List.exists_of_findSome?_eq_some ha
        exact (size_additionalOf hva).trans (size_selectedVariants hv)

end Sizes

/-! ## Scalars -/

/-- The number that digits spell. -/
def natOfDigits (digits : Str) : Option Nat :=
  if digits.isEmpty || digits.any (fun c => !c.isDigit) then none
  else some (digits.foldl (fun n c => 10 * n + (c.toNat - '0'.toNat)) 0)

/-- `str::parse::<i64>`. -/
def parseI64 (s : Str) : Option Int :=
  match s with
  | '-' :: digits => (natOfDigits digits).bind fun n => if n ≤ 2 ^ 63 then some (-(n : Int)) else none
  | '+' :: digits => (natOfDigits digits).bind fun n => if n < 2 ^ 63 then some (n : Int) else none
  | digits => (natOfDigits digits).bind fun n => if n < 2 ^ 63 then some (n : Int) else none

/-- The sign of a number, taken off. -/
def withoutSign : Str → Str
  | '-' :: s => s
  | '+' :: s => s
  | s => s

/-- The decimal spelling of a float: digits with a point among or around them, and an exponent. -/
def isDecimal (s : Str) : Bool :=
  let (whole, rest) := s.span Char.isDigit
  let (fraction, rest) :=
    match rest with
    | '.' :: rest => rest.span Char.isDigit
    | rest => ([], rest)
  (!whole.isEmpty || !fraction.isEmpty) &&
    match rest with
    | [] => true
    | c :: rest => asciiLower c == 'e' && !(withoutSign rest).isEmpty && (withoutSign rest).all Char.isDigit

section Coerce

/-! `round` reads a decimal spelling as the nearest float: the text that the float prints as, or nothing where it is
infinite. `json` is the reader of JSON texts. -/

variable (json : JsonText) (round : Str → Option Str)

/-- `str::parse::<f64>`: no float at all, or one that is not finite, or one that prints as a text. -/
def parseF64 (s : Str) : Option (Option Str) :=
  let body := withoutSign s
  if ["inf".toList, "infinity".toList, "nan".toList].any (eqIgnoreAsciiCase body) then some none
  else if isDecimal body then some (round s)
  else none

/-- `Value::from` for a float: one that is not finite is null. -/
def ofF64 : Option Str → Json
  | some text => .num (.float text)
  | none => .null

/-- The scalar that a string spells, of the first type that the schema allows. -/
def scalarOf (s : Str) (schema : Json) : Option Json :=
  let integer := if schemaAllowsType schema "integer".toList then (parseI64 s).map fun v => .num (.int v) else none
  let number := if schemaAllowsType schema "number".toList then (parseF64 round s).map ofF64 else none
  let boolean :=
    if schemaAllowsType schema "boolean".toList then
      if s.map asciiLower = "true".toList then some (.bool true)
      else if s.map asciiLower = "false".toList then some (.bool false)
      else none
    else none
  (integer.or number).or boolean

/-! ## Coercion -/

/-- An empty string for an optional property that may be null, or may not be a string. -/
def isOmitted (required : List Str) (key : Str) (propSchema current : Json) : Bool :=
  current == .str [] && !required.contains key &&
    (schemaAllowsType propSchema "null".toList || !schemaAllowsType propSchema "string".toList)

mutual

/-- `coerce_value`. -/
def coerceValue (value schema : Json) : Json :=
  match value with
  | .str s => (coerceStringValue s schema).getD (.str s)
  | .arr items =>
    if schemaAllowsType schema "array".toList then
      match _ : schema.get "items".toList with
      | some itemSchema => .arr (items.map fun item => coerceValue item itemSchema)
      | none => .arr items
    else .arr items
  | .obj entries =>
    if schemaAllowsType schema "object".toList then
      .obj (entries.map fun (key, current) =>
        (key,
          match _ : slotOf schema entries key with
          | some (.property propSchema) =>
            if isOmitted (requiredKeys schema) key propSchema current then .null else coerceValue current propSchema
          | some (.additional additionalSchema) => coerceValue current additionalSchema
          | none => current))
    else .obj entries
  | value => value
termination_by (schema.size, match value with | .str _ => 2 | _ => 0)
decreasing_by
  · exact Prod.Lex.right _ (by decide)
  · exact Prod.Lex.left _ _ (Json.size_lt_of_get ‹_›)
  · have hsize := size_slotOf ‹slotOf _ _ _ = _›
    exact Prod.Lex.left _ _ hsize
  · have hsize := size_slotOf ‹slotOf _ _ _ = _›
    exact Prod.Lex.left _ _ hsize

/-- `coerce_string_value`. -/
def coerceStringValue (s : Str) (schema : Json) : Option Json :=
  if s = [] ∧ schemaAllowsType schema "null".toList ∧ ¬ schemaAllowsType schema "string".toList then some .null
  else if schemaAllowsType schema "string".toList then none
  else if s = [] then none
  else
    match scalarOf round s schema with
    | some v => some v
    | none =>
      -- what is neither an array nor an object is no match
      match json.parse s with
      | .ok (.arr items) =>
        if schemaAllowsType schema "array".toList then some (coerceValue (.arr items) schema) else none
      | .ok (.obj entries) =>
        if schemaAllowsType schema "object".toList then some (coerceValue (.obj entries) schema) else none
      | _ => none
termination_by (schema.size, 1)
decreasing_by
  · exact Prod.Lex.right _ (by decide)
  · exact Prod.Lex.right _ (by decide)

end

/-- What the value under a key becomes, with the schema for the key. -/
def coerceSlot (required : List Str) (key : Str) (slot : Option Slot) (current : Json) : Json :=
  match slot with
  | some (.property propSchema) =>
    if isOmitted required key propSchema current then .null else coerceValue json round current propSchema
  | some (.additional additionalSchema) => coerceValue json round current additionalSchema
  | none => current

/-- What an entry of an object becomes. -/
def coerceEntry (schema : Json) (entries : List (Str × Json)) (kv : Str × Json) : Str × Json :=
  (kv.1, coerceSlot json round (requiredKeys schema) kv.1 (slotOf schema entries kv.1) kv.2)

/-- `prepare_params_for_schema`. -/
def prepareParamsForSchema (params schema : Json) : Json := coerceValue json round params (resolveRefs schema)

variable {json round} {schema : Json}

theorem coerceValue_str (s : Str) :
    coerceValue json round (.str s) schema = (coerceStringValue json round s schema).getD (.str s) := by
  rw [coerceValue]

theorem coerceValue_arr (items : List Json) :
    coerceValue json round (.arr items) schema =
      .arr (if schemaAllowsType schema "array".toList then
        match schema.get "items".toList with
        | some itemSchema => items.map fun item => coerceValue json round item itemSchema
        | none => items
      else items) := by
  rw [coerceValue]
  split
  · split <;> next h => rw [h]
  · rfl

theorem coerceValue_obj (entries : List (Str × Json)) :
    coerceValue json round (.obj entries) schema =
      .obj (if schemaAllowsType schema "object".toList then entries.map (coerceEntry json round schema entries)
        else entries) := by
  rw [coerceValue]
  split
  · refine congrArg Json.obj (List.map_congr_left fun kv _ => ?_)
    refine congrArg (Prod.mk kv.1) ?_
    split <;> next h => rw [h, coerceSlot]
  · rfl

/-- Any other value stays as it is. -/
theorem coerceValue_atom {v : Json} (hstr : ∀ s, v ≠ .str s) (harr : ∀ items, v ≠ .arr items)
    (hobj : ∀ entries, v ≠ .obj entries) : coerceValue json round v schema = v := by
  cases v with
  | str s => exact absurd rfl (hstr s)
  | arr items => exact absurd rfl (harr items)
  | obj entries => exact absurd rfl (hobj entries)
  | _ =>
    rw [coerceValue]
    all_goals exact fun _ hv => nomatch hv

theorem coerceValue_null : coerceValue json round .null schema = .null :=
  coerceValue_atom (fun _ h => nomatch h) (fun _ h => nomatch h) fun _ h => nomatch h

theorem coerceValue_bool {b : Bool} : coerceValue json round (.bool b) schema = .bool b :=
  coerceValue_atom (fun _ h => nomatch h) (fun _ h => nomatch h) fun _ h => nomatch h

theorem coerceValue_num {n : Number} : coerceValue json round (.num n) schema = .num n :=
  coerceValue_atom (fun _ h => nomatch h) (fun _ h => nomatch h) fun _ h => nomatch h

/-! ## Types and empty strings -/

/-- A string is read as a number that is not finite. -/
def ReadsInfinite (round : Str → Option Str) (s : Str) (schema : Json) : Prop :=
  schemaAllowsType schema "number".toList ∧ parseF64 round s = some none

theorem scalarOf_cases {s : Str} {v : Json} (h : scalarOf round s schema = some v) :
    (∃ n, v = .num (.int n) ∧ schemaAllowsType schema "integer".toList) ∨
    (∃ text, v = .num (.float text) ∧ schemaAllowsType schema "number".toList) ∨
    (∃ b, v = .bool b ∧ schemaAllowsType schema "boolean".toList) ∨
    v = .null ∧ ReadsInfinite round s schema := by
  rw [scalarOf] at h
  rcases Option.or_eq_some_iff.mp h with h | ⟨-, h⟩
  · rcases Option.or_eq_some_iff.mp h with h | ⟨-, h⟩
    · obtain ⟨hallows, h⟩ := Option.ite_none_right_eq_some.mp h
      obtain ⟨n, -, rfl⟩ := Option.map_eq_some_iff.mp h
      exact .inl ⟨n, rfl, hallows⟩
    · obtain ⟨hallows, h⟩ := Option.ite_none_right_eq_some.mp h
      obtain ⟨float, hfloat, rfl⟩ := Option.map_eq_some_iff.mp h
      cases float with
      | none => exact .inr (.inr (.inr ⟨rfl, hallows, hfloat⟩))
      | some text => exact .inr (.inl ⟨text, rfl, hallows⟩)
  · obtain ⟨hallows, h⟩ := Option.ite_none_right_eq_some.mp h
    refine .inr (.inr (.inl ?_))
    split at h
    · exact ⟨true, (Option.some.inj h).symm, hallows⟩
    · exact ⟨false, (Option.some.inj (Option.ite_none_right_eq_some.mp h).2).symm, hallows⟩

/-- A string is read as the array or the object that it spells. -/
structure ReadsAs (json : JsonText) (round : Str → Option Str) (s : Str) (schema v : Json) : Prop where
  nonempty : s ≠ []
  notString : ¬ schemaAllowsType schema "string".toList
  notScalar : scalarOf round s schema = none
  parse : json.parse s = .ok v
  container : (∃ items, v = .arr items) ∧ schemaAllowsType schema "array".toList ∨
    (∃ entries, v = .obj entries) ∧ schemaAllowsType schema "object".toList

/-- What a string can become: null, where it is empty, a scalar, or the array or object that it spells, coerced. -/
theorem coerceStringValue_cases {s : Str} {v : Json} (h : coerceStringValue json round s schema = some v) :
    s = [] ∧ v = .null ∧ schemaAllowsType schema "null".toList ∨
    s ≠ [] ∧ scalarOf round s schema = some v ∨
    ∃ parsed, ReadsAs json round s schema parsed ∧ v = coerceValue json round parsed schema := by
  rw [coerceStringValue] at h
  split at h
  · next hnull =>
    cases h
    exact .inl ⟨hnull.1, rfl, hnull.2.1⟩
  · split at h
    · exact nomatch h
    · next hstring =>
      split at h
      · exact nomatch h
      · next hempty =>
        split at h
        · next hscalar => exact .inr (.inl ⟨hempty, hscalar.trans h⟩)
        · next hscalar =>
          refine .inr (.inr ?_)
          split at h
          · next items hparse =>
            obtain ⟨hallows, h⟩ := Option.ite_none_right_eq_some.mp h
            exact ⟨_, ⟨hempty, hstring, hscalar, hparse, .inl ⟨⟨items, rfl⟩, hallows⟩⟩, (Option.some.inj h).symm⟩
          · next entries hparse =>
            obtain ⟨hallows, h⟩ := Option.ite_none_right_eq_some.mp h
            exact ⟨_, ⟨hempty, hstring, hscalar, hparse, .inr ⟨⟨entries, rfl⟩, hallows⟩⟩, (Option.some.inj h).symm⟩
          · exact nomatch h

/-- What a string becomes has a type of the schema, and is null only where the string is empty. -/
theorem coerceStringValue_allowed {s : Str} {v : Json} (h : coerceStringValue json round s schema = some v)
    (hfinite : ¬ ReadsInfinite round s schema) : Allows schema v ∧ (s ≠ [] → v ≠ .null) := by
  rcases coerceStringValue_cases h with ⟨hs, rfl, hnull⟩ | ⟨-, hscalar⟩ | ⟨parsed, hread, rfl⟩
  · exact ⟨⟨_, List.mem_singleton_self _, hnull⟩, fun hne => absurd hs hne⟩
  · rcases scalarOf_cases hscalar with ⟨n, rfl, hallows⟩ | ⟨text, rfl, hallows⟩ | ⟨b, rfl, hallows⟩ | ⟨-, hinf⟩
    · exact ⟨⟨_, List.mem_cons_self, hallows⟩, fun _ hv => nomatch hv⟩
    · exact ⟨⟨_, List.mem_singleton_self _, hallows⟩, fun _ hv => nomatch hv⟩
    · exact ⟨⟨_, List.mem_singleton_self _, hallows⟩, fun _ hv => nomatch hv⟩
    · exact absurd hinf hfinite
  · rcases hread.container with ⟨⟨items, rfl⟩, hallows⟩ | ⟨⟨entries, rfl⟩, hallows⟩
    · rw [coerceValue_arr]
      exact ⟨⟨_, List.mem_singleton_self _, hallows⟩, fun _ hv => nomatch hv⟩
    · rw [coerceValue_obj]
      exact ⟨⟨_, List.mem_singleton_self _, hallows⟩, fun _ hv => nomatch hv⟩

/-- Only a string that stays as it is is a string afterwards. -/
theorem eq_of_coerceValue_eq_str {v : Json} {s : Str} (h : coerceValue json round v schema = .str s) : v = .str s := by
  cases v with
  | str t =>
    rw [coerceValue_str] at h
    cases hc : coerceStringValue json round t schema with
    | none =>
      rw [hc] at h
      exact h
    | some w =>
      rw [hc, Option.getD_some] at h
      subst h
      rcases coerceStringValue_cases hc with ⟨-, h, -⟩ | ⟨-, h⟩ | ⟨parsed, hread, h⟩
      · exact nomatch h
      · rcases scalarOf_cases h with ⟨_, h, -⟩ | ⟨_, h, -⟩ | ⟨_, h, -⟩ | ⟨h, -⟩ <;> exact nomatch h
      · rcases hread.container with ⟨⟨items, rfl⟩, -⟩ | ⟨⟨entries, rfl⟩, -⟩
        · exact nomatch h.trans (coerceValue_arr items)
        · exact nomatch h.trans (coerceValue_obj entries)
  | arr items => exact nomatch h.symm.trans (coerceValue_arr items)
  | obj entries => exact nomatch h.symm.trans (coerceValue_obj entries)
  | null => exact nomatch h.symm.trans coerceValue_null
  | bool => exact nomatch h.symm.trans coerceValue_bool
  | num => exact nomatch h.symm.trans coerceValue_num

/-- An entry keeps its key, and a string that is not empty does not become null. -/
theorem coerceEntry_spec (entries : List (Str × Json)) (kv : Str × Json) :
    (coerceEntry json round schema entries kv).1 = kv.1 ∧
      ∀ s, kv.2 = .str s → s ≠ [] → parseF64 round s ≠ some none →
        (coerceEntry json round schema entries kv).2 ≠ .null := by
  refine ⟨rfl, fun s hs hne hfinite => ?_⟩
  have hcoerce (p : Json) : coerceValue json round (.str s) p ≠ .null := by
    rw [coerceValue_str]
    cases hc : coerceStringValue json round s p with
    | none => exact fun h => nomatch h
    | some v => exact (coerceStringValue_allowed hc fun h => hfinite h.2).2 hne
  rw [coerceEntry, hs]
  cases slotOf schema entries kv.1 with
  | none => exact fun h => nomatch h
  | some slot =>
    cases slot with
    | additional a => exact hcoerce a
    | property p =>
      have homit : ¬ isOmitted (requiredKeys schema) kv.1 p (.str s) := by simp [isOmitted, hne]
      show coerceSlot json round _ _ (some (.property p)) _ ≠ _
      rw [coerceSlot, if_neg homit]
      exact hcoerce p

/-! ## Coercing twice -/

/-- Every object that is coerced gives its keys the same schemas before and after. -/
inductive Steady (json : JsonText) (round : Str → Option Str) : Json → Json → Prop
  | null {schema : Json} : Steady json round .null schema
  | bool {b : Bool} {schema : Json} : Steady json round (.bool b) schema
  | num {n : Number} {schema : Json} : Steady json round (.num n) schema
  | str {s : Str} {schema : Json} (h : ∀ parsed, ReadsAs json round s schema parsed → Steady json round parsed schema) :
      Steady json round (.str s) schema
  | arr {items : List Json} {schema : Json} (h : schemaAllowsType schema "array".toList → ∀ itemSchema,
      schema.get "items".toList = some itemSchema → ∀ item ∈ items, Steady json round item itemSchema) :
      Steady json round (.arr items) schema
  | obj {entries : List (Str × Json)} {schema : Json}
      (same : schemaAllowsType schema "object".toList → ∀ key,
        slotOf schema (entries.map (coerceEntry json round schema entries)) key = slotOf schema entries key)
      (h : schemaAllowsType schema "object".toList → ∀ kv ∈ entries, ∀ slot, slotOf schema entries kv.1 = some slot →
        Steady json round kv.2 slot.schema) : Steady json round (.obj entries) schema

theorem coerceValue_scalar {s : Str} {v : Json} (h : scalarOf round s schema = some v) :
    coerceValue json round v schema = v := by
  rcases scalarOf_cases h with ⟨_, rfl, -⟩ | ⟨_, rfl, -⟩ | ⟨_, rfl, -⟩ | ⟨rfl, -⟩
  · exact coerceValue_num
  · exact coerceValue_num
  · exact coerceValue_bool
  · exact coerceValue_null

theorem isOmitted_null (required : List Str) (key : Str) (propSchema : Json) :
    isOmitted required key propSchema .null = false := rfl

/-- The value under a key is coerced once, where its schema coerces it once. -/
theorem coerceSlot_idem {required : List Str} {key : Str} {slot : Option Slot} {v : Json}
    (h : ∀ s, slot = some s →
      coerceValue json round (coerceValue json round v s.schema) s.schema = coerceValue json round v s.schema) :
    coerceSlot json round required key slot (coerceSlot json round required key slot v) =
      coerceSlot json round required key slot v := by
  cases slot with
  | none => rfl
  | some slot =>
    cases slot with
    | additional a => exact h _ rfl
    | property p =>
      by_cases homit : isOmitted required key p v
      · have hslot : coerceSlot json round required key (some (.property p)) v = .null := if_pos homit
        rw [hslot, coerceSlot, isOmitted_null, if_neg (by decide), coerceValue_null]
      · have hslot : coerceSlot json round required key (some (.property p)) v = coerceValue json round v p :=
          if_neg homit
        have homit' : ¬ isOmitted required key p (coerceValue json round v p) := by
          -- an empty string that was not omitted is still the same string
          intro hc
          have hempty : coerceValue json round v p = .str [] := by
            rw [isOmitted, Bool.and_eq_true, Bool.and_eq_true, beq_iff_eq] at hc
            exact hc.1.1
          rw [hempty, ← eq_of_coerceValue_eq_str hempty] at hc
          exact homit hc
        rw [hslot, coerceSlot, if_neg homit']
        exact h _ rfl

/-- Coercing twice is coercing once. -/
theorem coerceValue_idem {value schema : Json} (h : Steady json round value schema) :
    coerceValue json round (coerceValue json round value schema) schema = coerceValue json round value schema := by
  induction h with
  | null => rw [coerceValue_null, coerceValue_null]
  | bool => rw [coerceValue_bool, coerceValue_bool]
  | num => rw [coerceValue_num, coerceValue_num]
  | @str s schema h ih =>
    rw [coerceValue_str]
    cases hc : coerceStringValue json round s schema with
    | none => rw [Option.getD_none, coerceValue_str, hc, Option.getD_none]
    | some v =>
      rw [Option.getD_some]
      rcases coerceStringValue_cases hc with ⟨-, rfl, -⟩ | ⟨-, hscalar⟩ | ⟨parsed, hread, rfl⟩
      · exact coerceValue_null
      · exact coerceValue_scalar hscalar
      · exact ih parsed hread
  | @arr items schema h ih =>
    rw [coerceValue_arr, coerceValue_arr]
    by_cases hallows : schemaAllowsType schema "array".toList
    · cases hitems : schema.get "items".toList with
      | none => simp only [hallows, if_true]
      | some itemSchema =>
        simp only [hallows, if_true, List.map_map]
        exact congrArg Json.arr (List.map_congr_left fun item hitem => ih hallows itemSchema hitems item hitem)
    · rw [if_neg hallows, if_neg hallows]
  | @obj entries schema same h ih =>
    rw [coerceValue_obj]
    by_cases hallows : schemaAllowsType schema "object".toList
    · rw [if_pos hallows, coerceValue_obj, if_pos hallows]
      refine congrArg Json.obj ((List.map_map ..).trans (List.map_congr_left fun kv hkv => ?_))
      refine Prod.ext rfl ?_
      show coerceSlot json round _ kv.1 (slotOf schema _ kv.1) _ = _
      rw [same hallows kv.1]
      exact coerceSlot_idem (ih hallows kv hkv)
    · rw [if_neg hallows, coerceValue_obj, if_neg hallows]

/-! ## Discriminators -/

/-- The keys of the discriminators of these variants. -/
def variantDiscriminators (variants : List Json) : List Str :=
  variants.flatMap fun variant =>
    (((propertiesOf variant).getD []).filter fun kv => (discriminatorValue kv.2).isSome).map Prod.fst

/-- The keys of the discriminators that are looked at, with the depth that is left. -/
def discriminators : Nat → Json → List Str
  | 0, _ => []
  | left + 1, schema =>
    variantDiscriminators (arrayOf "oneOf".toList schema) ++ variantDiscriminators (arrayOf "anyOf".toList schema) ++
      (arrayOf "allOf".toList schema ++ arrayOf "oneOf".toList schema ++ arrayOf "anyOf".toList schema).flatMap
        (discriminators left)

section Discriminators

variable {entries entries' : List (Str × Json)}

theorem matchDiscriminators_congr : ∀ (props : List (Str × Json)) (count : Nat),
    (∀ kv ∈ props, (discriminatorValue kv.2).isSome → entries'.lookup kv.1 = entries.lookup kv.1) →
    matchDiscriminators entries' props count = matchDiscriminators entries props count
  | [], _, _ => rfl
  | (key, p) :: props, count, h => by
    have ih (n : Nat) := matchDiscriminators_congr props n fun kv hkv => h kv (List.mem_cons_of_mem _ hkv)
    rw [matchDiscriminators, matchDiscriminators]
    cases hval : discriminatorValue p with
    | none => exact ih count
    | some val =>
      have hkey : entries'.lookup key = entries.lookup key := h (key, p) List.mem_cons_self (by rw [hval]; rfl)
      simp only [hkey, ih]

theorem isSelected_congr {variant : Json}
    (h : ∀ key ∈ variantDiscriminators [variant], entries'.lookup key = entries.lookup key) :
    isSelected entries' variant = isSelected entries variant := by
  rw [variantDiscriminators, List.flatMap_singleton] at h
  rw [isSelected, isSelected]
  cases hprops : propertiesOf variant with
  | none => rfl
  | some props =>
    rw [hprops, Option.getD_some] at h
    exact matchDiscriminators_congr props 0 fun kv hkv hsome =>
      h kv.1 (List.mem_map_of_mem (List.mem_filter.mpr ⟨hkv, hsome⟩))

theorem findDiscriminatedVariant_congr {variants : List Json}
    (h : ∀ key ∈ variantDiscriminators variants, entries'.lookup key = entries.lookup key) :
    findDiscriminatedVariant variants entries' = findDiscriminatedVariant variants entries := by
  induction variants with
  | nil => rfl
  | cons variant variants ih =>
    have ih := ih fun key hkey => h key (List.mem_append_right _ hkey)
    have hselected : isSelected entries' variant = isSelected entries variant := by
      refine isSelected_congr fun key hkey => h key (List.mem_append_left _ ?_)
      rwa [variantDiscriminators, List.flatMap_singleton] at hkey
    rw [findDiscriminatedVariant] at ih
    rw [findDiscriminatedVariant, findDiscriminatedVariant, List.find?_cons, List.find?_cons, hselected, ih,
      findDiscriminatedVariant]

theorem selectedVariants_congr {left : Nat}
    (h : ∀ key ∈ discriminators (left + 1) schema, entries'.lookup key = entries.lookup key) :
    selectedVariants schema entries' = selectedVariants schema entries := by
  have hone := findDiscriminatedVariant_congr fun key hkey =>
    h key (List.mem_append_left _ (List.mem_append_left _ hkey))
  have hany := findDiscriminatedVariant_congr fun key hkey =>
    h key (List.mem_append_left _ (List.mem_append_right _ hkey))
  refine List.filterMap_congr fun key hkey => ?_
  rcases List.mem_cons.mp hkey with rfl | hkey
  · exact hone
  · cases List.mem_singleton.mp hkey
    exact hany

theorem collectProperties_congr : ∀ (left : Nat) (schema : Json),
    (∀ key ∈ discriminators left schema, entries'.lookup key = entries.lookup key) →
    collectProperties entries' left schema = collectProperties entries left schema
  | 0, _, _ => rfl
  | left + 1, schema, h => by
    have hselected := selectedVariants_congr h
    have hbelow : ∀ v ∈ arrayOf "allOf".toList schema ++ selectedVariants schema entries,
        collectProperties entries' left v = collectProperties entries left v := by
      intro v hv
      refine collectProperties_congr left v fun key hkey =>
        h key (List.mem_append_right _ (List.mem_flatMap.mpr ⟨v, ?_, hkey⟩))
      rw [List.append_assoc]
      refine (List.mem_append.mp hv).elim (List.mem_append_left _) fun hv => List.mem_append_right _ ?_
      obtain ⟨combinator, hmem, hfind⟩ := List.mem_filterMap.mp hv
      have hv := List.mem_of_find?_eq_some hfind
      rcases List.mem_cons.mp hmem with rfl | hmem
      · exact List.mem_append_left _ hv
      · cases List.mem_singleton.mp hmem
        exact List.mem_append_right _ hv
    rw [collectProperties, collectProperties, hselected]
    have hfold : ∀ (variants : List Json),
      (∀ v ∈ variants, collectProperties entries' left v = collectProperties entries left v) →
        ∀ merged, variants.foldl (fun merged variant =>
          extend (extend merged ((propertiesOf variant).getD [])) ((collectProperties entries' left variant).getD []))
            merged =
        variants.foldl (fun merged variant =>
          extend (extend merged ((propertiesOf variant).getD [])) ((collectProperties entries left variant).getD []))
              merged := by
      intro variants
      induction variants with
      | nil => exact fun _ _ => rfl
      | cons v variants ih =>
        intro hv merged
        rw [List.foldl_cons, List.foldl_cons, hv v List.mem_cons_self]
        exact ih (fun w hw => hv w (List.mem_cons_of_mem _ hw)) _
    simp only [hfold _ hbelow]

/-- Objects that agree on the discriminators give a key the same schema. -/
theorem slotOf_congr
    (h : ∀ key ∈ discriminators (MAX_COMBINATOR_DEPTH + 1) schema, entries'.lookup key = entries.lookup key)
    (key : Str) : slotOf schema entries' key = slotOf schema entries key := by
  rw [slotOf, slotOf, resolveEffectiveProperties, collectProperties_congr _ _ h, resolveAdditionalProperties,
    selectedVariants_congr h, ← resolveAdditionalProperties, ← resolveEffectiveProperties]

end Discriminators

/-! ## The properties together -/

/-- A string becomes a value of a type that the schema allows, and null only where it is empty, unless it is read as a
number that is not finite; an object keeps its keys; and coercing twice is coercing once, where every object selects the
same schemas afterwards. -/
theorem coercion_spec (json : JsonText) (round : Str → Option Str) (schema : Json) :
    (∀ s v, coerceStringValue json round s schema = some v → ¬ ReadsInfinite round s schema →
      Allows schema v ∧ (s ≠ [] → v ≠ .null)) ∧
    (∀ entries, ∃ entries', coerceValue json round (.obj entries) schema = .obj entries' ∧
      List.Forall₂ (fun kv kv' => kv'.1 = kv.1 ∧
        ∀ s, kv.2 = .str s → s ≠ [] → parseF64 round s ≠ some none → kv'.2 ≠ .null) entries entries') ∧
    ∀ value, Steady json round value schema →
      coerceValue json round (coerceValue json round value schema) schema = coerceValue json round value schema := by
  refine ⟨fun s v h hfinite => coerceStringValue_allowed h hfinite, fun entries => ?_, fun value h =>
    coerceValue_idem h⟩
  rw [coerceValue_obj]
  refine ⟨_, rfl, ?_⟩
  split
  · rw [List.forall₂_map_right_iff]
    exact List.forall₂_same.mpr fun kv _ => coerceEntry_spec entries kv
  · exact List.forall₂_same.mpr fun kv _ => ⟨rfl, fun s hs _ _ h => nomatch hs.symm.trans h⟩

/-- The parameters of a call are coerced once. -/
theorem prepareParamsForSchema_idem {params : Json} (h : Steady json round params (resolveRefs schema)) :
    prepareParamsForSchema json round (prepareParamsForSchema json round params schema) schema =
      prepareParamsForSchema json round params schema :=
  coerceValue_idem h

end Coerce

/-! ## Two calls -/

/-- A schema of one type. -/
def typed (t : Str) : Json := .obj [("type".toList, .str t)]

/-- A counter. -/
def countSchema : Json :=
  .obj [("type".toList, .str "object".toList), ("properties".toList, .obj [("count".toList, typed "integer".toList)])]

/-- A variant is selected by a number. -/
def kindSchema : Json :=
  .obj [("properties".toList, .obj [("kind".toList, typed "integer".toList)]),
    ("oneOf".toList, .arr [.obj [("properties".toList, .obj [
      ("kind".toList, .obj [("const".toList, .num (.int 5))]), ("x".toList, typed "integer".toList)])]])]

/-- A reader of no texts, for calls that read none. -/
def noText : JsonText := ⟨fun _ => .error [], Json.toText⟩

theorem coercion_spec_count :
    coerceValue noText some (coerceValue noText some (.obj [("count".toList, .str "5".toList)]) countSchema)
      countSchema =
      coerceValue noText some (.obj [("count".toList, .str "5".toList)]) countSchema := by
  refine (coercion_spec noText some countSchema).2.2 _ (.obj (fun _ => ?_) fun _ kv hkv slot hslot => ?_)
  · have hnone : discriminators (MAX_COMBINATOR_DEPTH + 1) countSchema = [] := by decide
    exact slotOf_congr fun key hkey => absurd (hnone ▸ hkey) (by simp)
  · cases List.mem_singleton.mp hkv
    have hcount : slotOf countSchema [("count".toList, .str "5".toList)] "count".toList =
        some (.property (typed "integer".toList)) := by decide
    cases Option.some.inj (hslot.symm.trans hcount)
    exact .str fun parsed hread => absurd hread.notScalar (by decide)

/-- An integer in a string, for an integer. -/
theorem coerceValue_five : coerceValue noText some (.str "5".toList) (typed "integer".toList) = .num (.int 5) := by
  rw [coerceValue_str, coerceStringValue]
  decide

/-- A number that is not finite becomes null. -/
theorem nan_becomes_null :
    coerceStringValue noText some "NaN".toList (typed "number".toList) = some .null ∧
      ¬ Allows (typed "number".toList) .null := by
  refine ⟨?_, ?_⟩
  · rw [coerceStringValue]
    decide
  · rintro ⟨t, ht, hallows⟩
    cases List.mem_singleton.mp ht
    exact absurd hallows (by decide)

/-- The call's own `kind` selects no variant; the coerced one selects the variant that makes `x` an integer. -/
theorem coerced_discriminator_selects :
    coerceValue noText some (.obj [("kind".toList, .str "5".toList), ("x".toList, .str "5".toList)]) kindSchema =
        .obj [("kind".toList, .num (.int 5)), ("x".toList, .str "5".toList)] ∧
      coerceValue noText some (.obj [("kind".toList, .num (.int 5)), ("x".toList, .str "5".toList)]) kindSchema =
        .obj [("kind".toList, .num (.int 5)), ("x".toList, .num (.int 5))] := by
  have hallows : schemaAllowsType kindSchema "object".toList := by decide
  refine ⟨?_, ?_⟩
  · have hkind : slotOf kindSchema [("kind".toList, .str "5".toList), ("x".toList, .str "5".toList)] "kind".toList =
        some (.property (typed "integer".toList)) := by decide
    have hx : slotOf kindSchema [("kind".toList, .str "5".toList), ("x".toList, .str "5".toList)] "x".toList =
        none := by
      decide
    rw [coerceValue_obj, if_pos hallows, List.map_cons, List.map_singleton, coerceEntry, coerceEntry, hkind, hx,
      coerceSlot, if_neg (by decide), coerceValue_five]
    rfl
  · have hkind : slotOf kindSchema [("kind".toList, .num (.int 5)), ("x".toList, .str "5".toList)] "kind".toList =
        some (.property (.obj [("const".toList, .num (.int 5))])) := by decide
    have hx : slotOf kindSchema [("kind".toList, .num (.int 5)), ("x".toList, .str "5".toList)] "x".toList =
        some (.property (typed "integer".toList)) := by decide
    rw [coerceValue_obj, if_pos hallows, List.map_cons, List.map_singleton, coerceEntry, coerceEntry, hkind, hx,
      coerceSlot, coerceSlot, if_neg (by decide), if_neg (by decide), coerceValue_five, coerceValue_num]

/-- Both the types and the second coercion fail. -/
theorem coercion_fails :
    (¬ ∀ (schema : Json) (s : Str) (v : Json), coerceStringValue noText some s schema = some v →
      Allows schema v ∧ (s ≠ [] → v ≠ .null)) ∧
    ¬ ∀ value schema : Json, coerceValue noText some (coerceValue noText some value schema) schema =
      coerceValue noText some value schema := by
  refine ⟨fun h => nan_becomes_null.2 (h _ _ _ nan_becomes_null.1).1, fun h => ?_⟩
  have htwice := h (.obj [("kind".toList, .str "5".toList), ("x".toList, .str "5".toList)]) kindSchema
  rw [coerced_discriminator_selects.1, coerced_discriminator_selects.2] at htwice
  exact absurd htwice (by decide)

end Ironclaw.Tools

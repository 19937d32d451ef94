import Ironclaw.Lib.JsonText

/-!
# The two checks of a tool's schema

`validate_tool_schema`, at registration, and `validate_strict_schema`, in the tests. One node of a schema is checked by
the same rules in both; they differ in the rules for its properties, in the bound on the depth, and in
`additionalProperties`.

- `checkNode_eq_nil`: when one node has no errors, given the checks below it;
- `checkObjectSchema_eq`: the strict check is the node's check with itself below;
- `validateToolSchemaInner_eq_nil`, `checkObjectSchema_eq_nil`: when each check finds nothing, whatever the path;
- `strict_refines_iff`: what a schema that the strict check accepts needs for the lenient one.
-/

namespace Ironclaw.Tools

open Text

namespace Schema

/-! ## Reading a schema -/

def asArray : Json → Option (List Json)
  | .arr xs => some xs
  | _ => none

def asObject : Json → Option (List (Str × Json))
  | .obj kvs => some kvs
  | _ => none

/-- The string under `type`. -/
def typeOf (schema : Json) : Option Str := (schema.get "type".toList).bind Json.asStr

def arrayOf (key : Str) (schema : Json) : List Json := ((schema.get key).bind asArray).getD []

/-- A variant of a combinator that is an object. -/
def isObjectVariant (variant : Json) : Bool :=
  typeOf variant == some "object".toList || (variant.get "properties".toList).isSome

/-- The keys of the combinators. -/
def combinatorKeys : List Str := ["oneOf".toList, "anyOf".toList, "allOf".toList]

/-- `has_object_combinator_variants`. -/
def hasObjectCombinatorVariants (schema : Json) : Bool :=
  combinatorKeys.any fun key => (arrayOf key schema).any isObjectVariant

/-- The object variants of the combinators, each with its place in the path. -/
def objectVariants (schema : Json) : List (Str × Json) :=
  ["allOf".toList, "oneOf".toList, "anyOf".toList].flatMap fun key =>
    (arrayOf key schema).zipIdx.filterMap fun (variant, i) =>
      if isObjectVariant variant then
        some (".".toList ++ key ++ "[".toList ++ (Nat.repr i).toList ++ "]".toList, variant)
      else none

def propertiesOf (schema : Json) : Option (List (Str × Json)) := (schema.get "properties".toList).bind asObject

/-- The keys under `required`. -/
def requiredKeys (schema : Json) : List Str := (arrayOf "required".toList schema).filterMap Json.asStr

/-- The properties of all variants. -/
def mergedKeys (schema : Json) : List Str :=
  ["allOf".toList, "oneOf".toList, "anyOf".toList].flatMap fun key =>
    (arrayOf key schema).flatMap fun variant => ((propertiesOf variant).getD []).map Prod.fst

/-! ## One node -/

section Node

variable (schema : Json) (path : Str)

/-- A combinator that is not an array. -/
def combinatorErrors : List Str :=
  combinatorKeys.filterMap fun key =>
    match schema.get key with
    | some (.arr _) => none
    | some _ => some (path ++ ": \"".toList ++ key ++ "\" must be an array".toList)
    | none => none

/-- Rule 1: the type is an object, unless combinators define the structure. -/
def typeError : Option Str :=
  match typeOf schema with
  | some other =>
    if other = "object".toList then none
    else some (path ++ ": expected type \"object\", got \"".toList ++ other ++ "\"".toList)
  | none =>
    if hasObjectCombinatorVariants schema then none else some (path ++ ": missing \"type\": \"object\"".toList)

/-- The required keys that are not among the known ones. -/
def requiredErrors (known : List Str) (place : Str) : List Str :=
  (requiredKeys schema).filterMap fun key =>
    if key ∈ known then none
    else some (path ++ ": required key \"".toList ++ key ++ "\" not found in ".toList ++ place)

/-- The rules for one node, with what checks the variants and the properties below it, and the errors that come last. -/
def checkNode (check checkProperty : Json → Str → List Str) (additional : List Str) : List Str :=
  combinatorErrors schema path ++
    match typeError schema path with
    | some e => [e]
    | none =>
      ((objectVariants schema).flatMap fun (place, variant) => check variant (path ++ place)) ++
        match propertiesOf schema with
        | none =>
          if !hasObjectCombinatorVariants schema then [path ++ ": missing or non-object \"properties\"".toList]
          else requiredErrors schema path (mergedKeys schema) "any combinator variant properties".toList
        | some properties =>
          requiredErrors schema path (properties.map Prod.fst) "properties".toList ++
            (properties.flatMap fun (key, prop) => checkProperty prop (path ++ ".".toList ++ key)) ++ additional

end Node

section NodeFacts

variable {schema : Json} {path : Str}

/-- What the rules ask of one node, whatever its place. -/
structure Shape (schema : Json) : Prop where
  combinators : ∀ key ∈ combinatorKeys, ∀ v, schema.get key = some v → (asArray v).isSome
  type : typeOf schema = some "object".toList ∨ typeOf schema = none ∧ hasObjectCombinatorVariants schema
  properties : propertiesOf schema = none → hasObjectCombinatorVariants schema
  required : ∀ key ∈ requiredKeys schema,
    key ∈ ((propertiesOf schema).map (List.map Prod.fst)).getD (mergedKeys schema)

theorem combinatorErrors_eq_nil : combinatorErrors schema path = [] ↔
    ∀ key ∈ combinatorKeys, ∀ v, schema.get key = some v → (asArray v).isSome := by
  rw [combinatorErrors, List.filterMap_eq_nil_iff]
  refine forall₂_congr fun key _ => ?_
  cases schema.get key with
  | none => simp
  | some v => cases v <;> simp [asArray]

theorem typeError_eq_none : typeError schema path = none ↔
    typeOf schema = some "object".toList ∨ typeOf schema = none ∧ hasObjectCombinatorVariants schema := by
  rw [typeError]
  generalize "object".toList = object
  cases typeOf schema with
  | none => cases hasObjectCombinatorVariants schema <;> simp
  | some other => by_cases h : other = object <;> simp [h]

theorem requiredErrors_eq_nil {known : List Str} {place : Str} :
    requiredErrors schema path known place = [] ↔ ∀ key ∈ requiredKeys schema, key ∈ known := by
  rw [requiredErrors, List.filterMap_eq_nil_iff]
  refine forall₂_congr fun key _ => ?_
  by_cases h : key ∈ known <;> simp [h]

/-- A node has no errors when its shape is right and the checks below it find none; `P` and `Q` say when they do. -/
theorem checkNode_eq_nil {check checkProperty : Json → Str → List Str} {additional : List Str} {P Q : Json → Prop}
    (hcheck : ∀ v ∈ objectVariants schema, ∀ p, check v.2 p = [] ↔ P v.2)
    (hprop : ∀ properties, propertiesOf schema = some properties →
      ∀ kv ∈ properties, ∀ p, checkProperty kv.2 p = [] ↔ Q kv.2) :
    checkNode schema path check checkProperty additional = [] ↔
      Shape schema ∧ (∀ v ∈ objectVariants schema, P v.2) ∧
        ∀ properties, propertiesOf schema = some properties → (∀ kv ∈ properties, Q kv.2) ∧ additional = [] := by
  have hvariants : ((objectVariants schema).flatMap fun v => check v.2 (path ++ v.1)) = [] ↔
      ∀ v ∈ objectVariants schema, P v.2 := by
    rw [List.flatMap_eq_nil_iff]
    exact forall₂_congr fun v hv => hcheck v hv _
  have htypes : typeError schema path = none ↔ _ := typeError_eq_none
  rw [checkNode, List.append_eq_nil_iff]
  cases htype : typeError schema path with
  | some e =>
    -- the type is wrong, which is one error
    refine iff_of_false (fun h => List.cons_ne_nil _ _ h.2) fun h => ?_
    exact Option.some_ne_none e (htype.symm.trans (htypes.mpr h.1.type))
  | none =>
    have htype := htypes.mp htype
    simp only [List.append_eq_nil_iff]
    rw [combinatorErrors_eq_nil, hvariants]
    cases hproperties : propertiesOf schema with
    | none =>
      simp only
      constructor
      · intro ⟨hkeys, hv, h⟩
        split at h
        · exact absurd h (List.cons_ne_nil _ _)
        · next hcomb =>
          refine ⟨⟨hkeys, htype, fun _ => by simpa using hcomb, ?_⟩, hv, fun _ hp => nomatch hp⟩
          rw [hproperties]
          exact requiredErrors_eq_nil.1 h
      · rintro ⟨hshape, hv, -⟩
        refine ⟨hshape.combinators, hv, ?_⟩
        rw [if_neg (by simp [hshape.properties hproperties]), requiredErrors_eq_nil]
        have := hshape.required
        rwa [hproperties] at this
    | some properties =>
      have hbelow : (properties.flatMap fun kv => checkProperty kv.2 (path ++ ".".toList ++ kv.1)) = [] ↔
          ∀ kv ∈ properties, Q kv.2 := by
        rw [List.flatMap_eq_nil_iff]
        exact forall₂_congr fun kv hkv => hprop properties hproperties kv hkv _
      simp only [List.append_eq_nil_iff, Option.some.injEq, forall_eq']
      rw [hbelow, requiredErrors_eq_nil]
      constructor
      · intro ⟨hkeys, hv, ⟨hreq, hp⟩, ha⟩
        refine ⟨⟨hkeys, htype, fun h => ?_, ?_⟩, hv, hp, ha⟩
        · exact absurd (hproperties.symm.trans h) (Option.some_ne_none _)
        · rw [hproperties]
          exact hreq
      · intro ⟨hshape, hv, hp, ha⟩
        have := hshape.required
        rw [hproperties] at this
        exact ⟨hshape.combinators, hv, ⟨this, hp⟩, ha⟩

/-- Two ways to check what is below a node that agree there give the same errors. -/
theorem checkNode_congr {check check' checkProperty checkProperty' : Json → Str → List Str} {additional : List Str}
    (hcheck : ∀ v ∈ objectVariants schema, check v.2 = check' v.2)
    (hprop : ∀ properties, propertiesOf schema = some properties →
      ∀ kv ∈ properties, checkProperty kv.2 = checkProperty' kv.2) :
    checkNode schema path check checkProperty additional = checkNode schema path check' checkProperty' additional := by
  have hvariants : ((objectVariants schema).flatMap fun v => check v.2 (path ++ v.1)) =
      (objectVariants schema).flatMap fun v => check' v.2 (path ++ v.1) :=
    List.flatMap_congr fun v hv => congrFun (hcheck v hv) _
  rw [checkNode, checkNode, hvariants]
  cases hproperties : propertiesOf schema with
  | none => rfl
  | some properties =>
    have hbelow : (properties.flatMap fun kv => checkProperty kv.2 (path ++ ".".toList ++ kv.1)) =
        properties.flatMap fun kv => checkProperty' kv.2 (path ++ ".".toList ++ kv.1) :=
      List.flatMap_congr fun kv hkv => congrFun (hprop properties hproperties kv hkv) _
    simp only [hbelow]

/-- The object variants are smaller than the schema. -/
theorem size_objectVariant {v : Str × Json} (h : v ∈ objectVariants schema) : v.2.size < schema.size := by
  rw [objectVariants, List.mem_flatMap] at h
  obtain ⟨key, -, h⟩ := h
  rw [List.mem_filterMap] at h
  obtain ⟨⟨variant, i⟩, hmem, h⟩ := h
  have hmem : variant ∈ arrayOf key schema := by
    have := List.mem_map_of_mem (f := Prod.fst) hmem
    rwa [List.zipIdx_map_fst] at this
  rw [arrayOf] at hmem
  cases hget : schema.get key with
  | none => simp [hget] at hmem
  | some w =>
    cases w with
    | arr xs =>
      simp only [hget, Option.bind_some, asArray, Option.getD_some] at hmem
      obtain ⟨-, h⟩ := Option.ite_none_right_eq_some.mp h
      cases h
      exact (Json.size_lt_of_mem hmem).trans (Json.size_lt_of_get hget)
    | _ => simp [hget, asArray] at hmem

/-- So are the properties. -/
theorem size_property {properties : List (Str × Json)} (h : propertiesOf schema = some properties) {kv : Str × Json}
    (hkv : kv ∈ properties) : kv.2.size < schema.size := by
  rw [propertiesOf, Option.bind_eq_some_iff] at h
  obtain ⟨w, hget, hw⟩ := h
  cases w with
  | obj kvs =>
    cases hw
    exact (Json.size_lt_of_mem_obj hkv).trans (Json.size_lt_of_get hget)
  | _ => exact absurd hw (by simp [asObject])

end NodeFacts

end Schema

open Schema

/-- An array says its items; items that are objects are checked. -/
def itemsErrors (check : Json → Str → List Str) (prop : Json) (propPath : Str) : List Str :=
  match prop.get "items".toList with
  | none => [propPath ++ ": array property missing \"items\"".toList]
  | some items => if typeOf items = some "object".toList then check items (propPath ++ ".items".toList) else []

/-! ## The lenient check -/

def MAX_SCHEMA_DEPTH : Nat := 16

/-- What the lenient check says about one property. -/
def lenientProperty (check : Json → Str → List Str) (prop : Json) (propPath : Str) : List Str :=
  match typeOf prop with
  | some propType =>
    if propType = "object".toList then check prop propPath
    else if propType = "array".toList then itemsErrors check prop propPath
    else []
  | none => []

/-- `validate_tool_schema_inner`. -/
def validateToolSchemaInner (schema : Json) (path : Str) (depth : Nat) : List Str :=
  if MAX_SCHEMA_DEPTH < depth then
    [path ++ ": schema nesting exceeds maximum depth of ".toList ++ (Nat.repr MAX_SCHEMA_DEPTH).toList]
  else
    checkNode schema path (fun child childPath => validateToolSchemaInner child childPath (depth + 1))
      (lenientProperty fun child childPath => validateToolSchemaInner child childPath (depth + 1)) []
termination_by MAX_SCHEMA_DEPTH + 1 - depth

/-- `validate_tool_schema`. -/
def validateToolSchema (schema : Json) (path : Str) : List Str := validateToolSchemaInner schema path 0

/-! ## The strict check -/

/-- Rule 5: `additionalProperties` is false, or says a type. -/
def additionalError (schema : Json) (message : Str) : List Str :=
  match schema.get "additionalProperties".toList with
  | some additional =>
    if additional ≠ .bool false ∧ (additional.get "type".toList).isNone then [message] else []
  | none => []

/-- Rule 7: a value of an enum has the declared type. -/
def enumMatches (propType : Str) (val : Json) : Bool :=
  if propType = "string".toList then
    match val with
    | .str _ => true
    | _ => false
  else if propType = "integer".toList ∨ propType = "number".toList then
    match val with
    | .num _ => true
    | _ => false
  else if propType = "boolean".toList then
    match val with
    | .bool _ => true
    | _ => false
  else true

def enumErrors (prop : Json) (propPath propType : Str) : List Str :=
  (arrayOf "enum".toList prop).zipIdx.filterMap fun (val, i) =>
    if enumMatches propType val then none
    else
      some (propPath ++ ": enum[".toList ++ (Nat.repr i).toList ++ "] value ".toList ++ val.toText ++
        " does not match declared type \"".toList ++ propType ++ "\"".toList)

/-- An object with values of one type, and no properties of its own. -/
def isMap (prop : Json) : Bool :=
  (prop.get "additionalProperties".toList).isSome && (prop.get "properties".toList).isNone

/-- What the strict check says about one property. -/
def strictProperty (check : Json → Str → List Str) (prop : Json) (propPath : Str) : List Str :=
  match prop.get "type".toList with
  | none => []
  | some propType =>
    let propType := (Json.asStr propType).getD []
    additionalError prop (propPath ++ ": \"additionalProperties\" should be false or a type schema".toList) ++
      enumErrors prop propPath propType ++
      (if propType = "object".toList then if isMap prop then [] else check prop propPath else []) ++
      (if propType = "array".toList then itemsErrors check prop propPath else [])

/-- `check_object_schema`; what is checked below a schema is smaller (`checkObjectSchema_eq`). -/
def checkObjectSchema (schema : Json) (path : Str) : List Str :=
  let below (child : Json) (childPath : Str) : List Str :=
    if child.size < schema.size then checkObjectSchema child childPath else []
  checkNode schema path below (strictProperty below)
    (additionalError schema (path ++ ": top-level \"additionalProperties\" should be false or a type schema".toList))
termination_by schema.size

/-- `validate_strict_schema`. -/
def validateStrictSchema (schema : Json) (toolName : Str) : Except (List Str) Unit :=
  let errors := checkObjectSchema schema toolName
  if errors.isEmpty then .ok () else .error errors

/-! ## When the checks find nothing -/

section Properties

variable {check : Json → Str → List Str} {P : Json → Prop} {schema prop : Json} {path : Str}

/-- The items of an array are there, and where they are objects they meet `P`. -/
def ItemsOk (P : Json → Prop) (prop : Json) : Prop :=
  ∃ items, prop.get "items".toList = some items ∧ (typeOf items = some "object".toList → P items)

theorem itemsErrors_eq_nil
    (h : ∀ items, prop.get "items".toList = some items → ∀ p, check items p = [] ↔ P items) :
    itemsErrors check prop path = [] ↔ ItemsOk P prop := by
  rw [itemsErrors, ItemsOk]
  generalize "object".toList = object
  cases hget : prop.get "items".toList with
  | none => exact iff_of_false (List.cons_ne_nil _ _) fun ⟨_, h, _⟩ => Option.some_ne_none _ h.symm
  | some items =>
    simp only [Option.some.injEq, exists_eq_left']
    by_cases hobject : typeOf items = some object
    · rw [if_pos hobject, h items hget]
      exact ⟨fun hp _ => hp, fun hp => hp hobject⟩
    · rw [if_neg hobject]
      exact iff_of_true rfl fun h => absurd h hobject

/-- What the lenient check asks of a property, where it asks `P` of the objects. -/
structure LenientProperty (P : Json → Prop) (prop : Json) : Prop where
  object : typeOf prop = some "object".toList → P prop
  array : typeOf prop = some "array".toList → ItemsOk P prop

theorem lenientProperty_eq_nil (h : ∀ child p, check child p = [] ↔ P child) :
    lenientProperty check prop path = [] ↔ LenientProperty P prop := by
  have hne : "object".toList ≠ "array".toList := by decide
  have hiff : lenientProperty check prop path = [] ↔
      (typeOf prop = some "object".toList → P prop) ∧ (typeOf prop = some "array".toList → ItemsOk P prop) := by
    have hitems : itemsErrors check prop path = [] ↔ ItemsOk P prop := itemsErrors_eq_nil fun items _ => h items
    rw [lenientProperty, ← hitems]
    generalize "object".toList = object, "array".toList = array at hne
    cases typeOf prop with
    | none => simp
    | some propType =>
      by_cases hobject : propType = object
      · subst hobject
        simp [hne, h]
      · by_cases harray : propType = array
        · subst harray
          simp [hobject]
        · simp [hobject, harray]
  exact hiff.trans ⟨fun hp => ⟨hp.1, hp.2⟩, fun hp => ⟨hp.object, hp.array⟩⟩

/-- `additionalProperties` is false, says a type, or is not there. -/
def AdditionalOk (schema : Json) : Prop :=
  ∀ additional, schema.get "additionalProperties".toList = some additional →
    additional = .bool false ∨ (additional.get "type".toList).isSome

theorem additionalError_eq_nil {message : Str} : additionalError schema message = [] ↔ AdditionalOk schema := by
  rw [additionalError, AdditionalOk]
  generalize "type".toList = type
  cases schema.get "additionalProperties".toList with
  | none => exact iff_of_true rfl fun _ h => nomatch h
  | some additional =>
    simp only [Option.some.injEq, forall_eq']
    by_cases hfalse : additional = .bool false
    · simp [hfalse]
    · cases additional.get type <;> simp [hfalse]

theorem enumErrors_eq_nil {propType : Str} :
    enumErrors prop path propType = [] ↔ ∀ val ∈ arrayOf "enum".toList prop, enumMatches propType val := by
  rw [enumErrors, List.filterMap_eq_nil_iff]
  generalize arrayOf "enum".toList prop = vals
  constructor
  · intro h val hval
    obtain ⟨i, hi, rfl⟩ := List.mem_iff_getElem.mp hval
    have hrow := h (vals[i], i) (List.mk_mem_zipIdx_iff_getElem?.mpr (List.getElem?_eq_getElem hi))
    by_contra hno
    exact Option.some_ne_none _ ((if_neg hno).symm.trans hrow)
  · rintro h ⟨val, i⟩ hval
    exact if_pos (h val (List.mem_of_getElem? (List.mk_mem_zipIdx_iff_getElem?.mp hval)))

/-- What the strict check asks of a property that has a type. -/
structure StrictProperty (P : Json → Prop) (prop : Json) (propType : Str) : Prop where
  additional : AdditionalOk prop
  enum : ∀ val ∈ arrayOf "enum".toList prop, enumMatches propType val
  object : propType = "object".toList → ¬ isMap prop → P prop
  array : propType = "array".toList → ItemsOk P prop

theorem strictProperty_eq_nil (hobject : ∀ p, check prop p = [] ↔ P prop)
    (hitems : ∀ items, prop.get "items".toList = some items → ∀ p, check items p = [] ↔ P items) :
    strictProperty check prop path = [] ↔
      ∀ propType, prop.get "type".toList = some propType → StrictProperty P prop ((Json.asStr propType).getD []) := by
  rw [strictProperty]
  cases prop.get "type".toList with
  | none => exact iff_of_true rfl fun _ h => nomatch h
  | some propType =>
    simp only [Option.some.injEq, forall_eq', List.append_eq_nil_iff]
    generalize (Json.asStr propType).getD [] = propType
    have hobj : (if propType = "object".toList then if isMap prop then [] else check prop path else []) = [] ↔
        (propType = "object".toList → ¬ isMap prop → P prop) := by
      generalize "object".toList = object
      by_cases ht : propType = object <;> by_cases hm : isMap prop <;> simp [ht, hm, hobject]
    have harr : (if propType = "array".toList then itemsErrors check prop path else []) = [] ↔
        (propType = "array".toList → ItemsOk P prop) := by
      have hitems : itemsErrors check prop path = [] ↔ ItemsOk P prop := itemsErrors_eq_nil hitems
      rw [← hitems]
      generalize "array".toList = array
      by_cases ht : propType = array <;> simp [ht]
    rw [additionalError_eq_nil, enumErrors_eq_nil, hobj, harr]
    exact ⟨fun ⟨⟨⟨ha, he⟩, ho⟩, hr⟩ => ⟨ha, he, ho, hr⟩, fun h => ⟨⟨⟨h.additional, h.enum⟩, h.object⟩, h.array⟩⟩

end Properties

/-- The lenient check at a depth, whatever the path. -/
theorem validateToolSchemaInner_eq_nil (schema : Json) (path : Str) {depth : Nat} (h : depth ≤ MAX_SCHEMA_DEPTH) :
    validateToolSchemaInner schema path depth = [] ↔
      Shape schema ∧ (∀ v ∈ objectVariants schema, validateToolSchemaInner v.2 [] (depth + 1) = []) ∧
        ∀ properties, propertiesOf schema = some properties → (∀ kv ∈ properties,
          LenientProperty (fun child => validateToolSchemaInner child [] (depth + 1) = []) kv.2) ∧ ([] :
            List Str) = [] := by
  -- induction on the levels that are left: one level down the path does not matter
  have hbelow (child : Json) (p : Str) :
      validateToolSchemaInner child p (depth + 1) = [] ↔ validateToolSchemaInner child [] (depth + 1) = [] := by
    by_cases hd : depth + 1 ≤ MAX_SCHEMA_DEPTH
    · rw [validateToolSchemaInner_eq_nil child p hd]
      exact (validateToolSchemaInner_eq_nil child [] hd).symm
    · rw [validateToolSchemaInner, validateToolSchemaInner, if_pos (by omega), if_pos (by omega)]
      exact iff_of_false (List.cons_ne_nil _ _) (List.cons_ne_nil _ _)
  rw [validateToolSchemaInner, if_neg (by omega)]
  exact checkNode_eq_nil (P := fun child => validateToolSchemaInner child [] (depth + 1) = [])
    (fun v _ => hbelow v.2) fun _ _ _ _ _ => lenientProperty_eq_nil hbelow
termination_by MAX_SCHEMA_DEPTH + 1 - depth

/-- What is checked below a schema is smaller, so the strict check is the node's check with itself below. -/
theorem checkObjectSchema_eq (schema : Json) (path : Str) :
    checkObjectSchema schema path = checkNode schema path checkObjectSchema (strictProperty checkObjectSchema)
      (additionalError schema
          (path ++ ": top-level \"additionalProperties\" should be false or a type schema".toList)) := by
  rw [checkObjectSchema]
  refine checkNode_congr (fun v hv => ?_) fun properties hproperties kv hkv => ?_
  · funext p
    exact if_pos (size_objectVariant hv)
  · have hsize := size_property hproperties hkv
    funext p
    rw [strictProperty, strictProperty]
    cases kv.2.get "type".toList with
    | none => rfl
    | some propType =>
      rw [itemsErrors, itemsErrors]
      cases hitems : kv.2.get "items".toList with
      | none => simp only [if_pos hsize]
      | some items => simp only [if_pos hsize, if_pos ((Json.size_lt_of_get hitems).trans hsize)]

/-- The strict check, whatever the path. -/
theorem checkObjectSchema_eq_nil (schema : Json) (path : Str) :
    checkObjectSchema schema path = [] ↔
      Shape schema ∧ (∀ v ∈ objectVariants schema, checkObjectSchema v.2 [] = []) ∧
        ∀ properties, propertiesOf schema = some properties → (∀ kv ∈ properties, ∀ propType,
          kv.2.get "type".toList = some propType →
            StrictProperty (fun child => checkObjectSchema child [] = []) kv.2 ((Json.asStr propType).getD [])) ∧
          AdditionalOk schema := by
  -- induction on the size: what is below does not depend on its path
  have hbelow (child : Json) (hsize : child.size < schema.size) (p : Str) :
      checkObjectSchema child p = [] ↔ checkObjectSchema child [] = [] := by
    rw [checkObjectSchema_eq_nil child p]
    exact (checkObjectSchema_eq_nil child []).symm
  rw [checkObjectSchema_eq, ← additionalError_eq_nil]
  exact checkNode_eq_nil (P := fun child => checkObjectSchema child [] = [])
    (Q := fun prop => ∀ propType, prop.get "type".toList = some propType →
      StrictProperty (fun child => checkObjectSchema child [] = []) prop ((Json.asStr propType).getD []))
    (fun v hv => hbelow v.2 (size_objectVariant hv)) fun properties hproperties kv hkv p =>
      strictProperty_eq_nil (hbelow kv.2 (size_property hproperties hkv)) fun items hitems =>
        hbelow items ((Json.size_lt_of_get hitems).trans (size_property hproperties hkv))
termination_by schema.size

/-! ## The two checks together -/

/-- The objects of a schema are at most `n` deep, and the map properties, which the strict check skips, pass the lenient
one. -/
def Fits : Nat → Json → Prop
  | 0, _ => False
  | n + 1, schema =>
    (∀ v ∈ objectVariants schema, Fits n v.2) ∧
      ∀ properties, propertiesOf schema = some properties → ∀ kv ∈ properties,
        (typeOf kv.2 = some "object".toList →
          if isMap kv.2 then validateToolSchemaInner kv.2 [] (MAX_SCHEMA_DEPTH + 1 - n) = [] else Fits n kv.2) ∧
        (typeOf kv.2 = some "array".toList → ∀ items, kv.2.get "items".toList = some items →
          typeOf items = some "object".toList → Fits n items)

theorem typeOf_eq_some {prop : Json} {propType : Str} (h : typeOf prop = some propType) :
    ∃ v, prop.get "type".toList = some v ∧ (Json.asStr v).getD [] = propType := by
  obtain ⟨v, hget, hv⟩ := Option.bind_eq_some_iff.mp h
  exact ⟨v, hget, by rw [hv, Option.getD_some]⟩

/-- Where the strict check finds nothing, the lenient one needs only the depth and the maps. -/
theorem fits_of_strict : ∀ (levels : Nat) (schema : Json), levels ≤ MAX_SCHEMA_DEPTH + 1 →
    checkObjectSchema schema [] = [] →
    (validateToolSchemaInner schema [] (MAX_SCHEMA_DEPTH + 1 - levels) = [] ↔ Fits levels schema)
  | 0, schema, _, _ => by
    rw [validateToolSchemaInner, if_pos (by omega), Fits]
    exact iff_of_false (List.cons_ne_nil _ _) id
  | n + 1, schema, hlevels, hstrict => by
    obtain ⟨hshape, hvariants, hproperties⟩ := (checkObjectSchema_eq_nil schema []).mp hstrict
    have hdepth : MAX_SCHEMA_DEPTH + 1 - (n + 1) + 1 = MAX_SCHEMA_DEPTH + 1 - n := by omega
    have ih (child : Json) (h : checkObjectSchema child [] = []) :
        validateToolSchemaInner child [] (MAX_SCHEMA_DEPTH + 1 - n) = [] ↔ Fits n child :=
      fits_of_strict n child (by omega) h
    rw [validateToolSchemaInner_eq_nil schema [] (by omega), hdepth, Fits]
    have hv : (∀ v ∈ objectVariants schema, validateToolSchemaInner v.2 [] (MAX_SCHEMA_DEPTH + 1 - n) = []) ↔
        ∀ v ∈ objectVariants schema, Fits n v.2 :=
      forall₂_congr fun v hv => ih v.2 (hvariants v hv)
    rw [hv]
    refine ⟨fun ⟨_, hfit, hprops⟩ => ⟨hfit, fun properties hp kv hkv => ?_⟩,
      fun ⟨hfit, hprops⟩ => ⟨hshape, hfit, fun properties hp => ⟨fun kv hkv => ?_, rfl⟩⟩⟩
    · have hlenient := (hprops properties hp).1 kv hkv
      have hrules := (hproperties properties hp).1 kv hkv
      refine ⟨fun ht => ?_, fun ht items hitems hobject => ?_⟩
      · obtain ⟨v, hget, hv⟩ := typeOf_eq_some ht
        split
        · exact hlenient.object ht
        · next hmap => exact (ih kv.2 ((hrules v hget).object hv hmap)).mp (hlenient.object ht)
      · obtain ⟨v, hget, hv⟩ := typeOf_eq_some ht
        obtain ⟨items', hitems', hi⟩ := (hrules v hget).array hv
        obtain ⟨items'', hitems'', hl⟩ := hlenient.array ht
        cases hitems.symm.trans hitems'
        cases hitems.symm.trans hitems''
        exact (ih items (hi hobject)).mp (hl hobject)
    · have hfits := hprops properties hp kv hkv
      have hrules := (hproperties properties hp).1 kv hkv
      refine ⟨fun ht => ?_, fun ht => ?_⟩
      · obtain ⟨v, hget, hv⟩ := typeOf_eq_some ht
        have hobject := hfits.1 ht
        split at hobject
        · exact hobject
        · next hmap => exact (ih kv.2 ((hrules v hget).object hv hmap)).mpr hobject
      · obtain ⟨v, hget, hv⟩ := typeOf_eq_some ht
        obtain ⟨items, hitems, hi⟩ := (hrules v hget).array hv
        exact ⟨items, hitems, fun hobject => (ih items (hi hobject)).mpr (hfits.2 ht items hitems hobject)⟩

/-- A map without object combinators never passes the lenient check. -/
theorem map_rejected {prop : Json} {path : Str} {depth : Nat} (hmap : isMap prop)
    (hcomb : ¬ hasObjectCombinatorVariants prop) : validateToolSchemaInner prop path depth ≠ [] := by
  intro h
  by_cases hdepth : depth ≤ MAX_SCHEMA_DEPTH
  · have hshape := ((validateToolSchemaInner_eq_nil prop path hdepth).mp h).1
    have hnone : prop.get "properties".toList = none := by
      rw [isMap, Bool.and_eq_true, Option.isNone_iff_eq_none] at hmap
      exact hmap.2
    exact hcomb (hshape.properties (by rw [propertiesOf, hnone, Option.bind_none]))
  · rw [validateToolSchemaInner, if_pos (by omega)] at h
    exact List.cons_ne_nil _ _ h

theorem validateStrictSchema_eq_ok {schema : Json} {toolName : Str} :
    validateStrictSchema schema toolName = .ok () ↔ checkObjectSchema schema toolName = [] := by
  rw [validateStrictSchema]
  cases checkObjectSchema schema toolName <;> simp

/-- A schema that the strict check accepts passes the lenient one when its objects are at most `MAX_SCHEMA_DEPTH` below
its root and the maps that the strict check skips pass it, and only then. -/
theorem strict_refines_iff (schema : Json) (toolName path : Str) (h : validateStrictSchema schema toolName = .ok ()) :
    validateToolSchema schema path = [] ↔ Fits (MAX_SCHEMA_DEPTH + 1) schema := by
  have hstrict : checkObjectSchema schema [] = [] :=
    (checkObjectSchema_eq_nil schema []).mpr
      ((checkObjectSchema_eq_nil schema toolName).mp (validateStrictSchema_eq_ok.mp h))
  rw [← fits_of_strict (MAX_SCHEMA_DEPTH + 1) schema (Nat.le_refl _) hstrict, validateToolSchema,
    validateToolSchemaInner_eq_nil schema path (Nat.zero_le _), Nat.sub_self,
    validateToolSchemaInner_eq_nil schema [] (Nat.zero_le _)]

/-- A tool with the parameters `params`. -/
def toolSchema (params : List (Str × Json)) : Json :=
  .obj [("type".toList, .str "object".toList), ("properties".toList, .obj params)]

/-- A parameter that maps names to strings. -/
def credentialsMap : Json :=
  .obj [("type".toList, .str "object".toList),
    ("additionalProperties".toList, .obj [("type".toList, .str "string".toList)])]

/-- A parameter with its own parameters, and a list of them. -/
def nestedParams : List (Str × Json) :=
  [("title".toList, .obj [("type".toList, .str "string".toList)]),
    ("options".toList, toolSchema [("limit".toList, .obj [("type".toList, .str "integer".toList)])]),
    ("rows".toList, .obj [("type".toList, .str "array".toList),
      ("items".toList, toolSchema [("name".toList, .obj [("type".toList, .str "string".toList)])])])]

/-- The strict check of a tool is the check of its parameters. -/
theorem checkObjectSchema_toolSchema (params : List (Str × Json)) (path : Str) :
    checkObjectSchema (toolSchema params) path =
      params.flatMap fun kv => strictProperty checkObjectSchema kv.2 (path ++ ".".toList ++ kv.1) := by
  have hcombinators : combinatorErrors (toolSchema params) path = [] := rfl
  have htype : typeError (toolSchema params) path = none := rfl
  have hvariants : objectVariants (toolSchema params) = [] := rfl
  have hproperties : propertiesOf (toolSchema params) = some params := rfl
  have hrequired : ∀ known place, requiredErrors (toolSchema params) path known place = [] := fun _ _ => rfl
  have hadditional : ∀ message, additionalError (toolSchema params) message = [] := fun _ => rfl
  rw [checkObjectSchema_eq, checkNode, hcombinators, htype, hproperties]
  dsimp only
  rw [hvariants, hrequired, hadditional, List.append_nil]
  rfl

theorem checkObjectSchema_single (key path : Str) {type : Str} (h : type = "string".toList ∨ type = "integer".toList) :
    checkObjectSchema (toolSchema [(key, .obj [("type".toList, .str type)])]) path = [] := by
  rw [checkObjectSchema_toolSchema]
  rcases h with rfl | rfl <;> rfl

theorem strict_refines_iff_title :
    validateToolSchema (toolSchema nestedParams) "t".toList = [] ↔
    Fits (MAX_SCHEMA_DEPTH + 1) (toolSchema nestedParams) :=
  strict_refines_iff _ "t".toList _ (by
    rw [validateStrictSchema_eq_ok, checkObjectSchema_toolSchema, List.flatMap_eq_nil_iff, nestedParams]
    simp only [List.forall_mem_cons]
    refine ⟨rfl, ?_, ?_, List.forall_mem_nil _⟩
    · exact (List.append_nil _).trans (checkObjectSchema_single "limit".toList _ (.inr rfl))
    · exact checkObjectSchema_single "name".toList _ (.inl rfl))

/-- The strict check accepts a map as a parameter, and the lenient one does not. -/
theorem map_parameter_rejected :
    ¬ ∀ (schema : Json) (toolName path : Str), validateStrictSchema schema toolName = .ok () →
      validateToolSchema schema path = [] := by
  intro h
  have hstrict : validateStrictSchema (toolSchema [("credentials".toList, credentialsMap)]) "create_job".toList =
      .ok () := by
    rw [validateStrictSchema_eq_ok, checkObjectSchema]
    decide
  have hlenient := h _ _ "create_job".toList hstrict
  rw [validateToolSchema, validateToolSchemaInner_eq_nil _ _ (Nat.zero_le _)] at hlenient
  have hparam := (hlenient.2.2 [("credentials".toList, credentialsMap)] (by decide)).1 _ List.mem_cons_self
  exact map_rejected (by decide) (by decide) (hparam.object (by decide))

end Ironclaw.Tools

import Ironclaw.Safety.CredentialDetect
import Ironclaw.Tools.Coercion
import Ironclaw.Tools.Shell

/-!
# Approval and normalised parameters

Whether a call of the shell or the HTTP tool has to be approved is decided on the arguments as the model wrote them;
what is executed are the arguments after `prepare_tool_params`, which reads strings as the objects and arrays that they
spell.

- `coerceValue_object`, `coerceValue_array`: what a schema of one type makes of a value;
- `shell_requiresApproval_prepare`: the shell tool reads the same command in both;
- `risky_prepare_iff`: what the HTTP tool finds in the normalised arguments.
-/

namespace Ironclaw.Agent.ApprovalRequirement

def rank : ApprovalRequirement → Nat
  | .never => 0
  | .unlessAutoApproved => 1
  | .always => 2

theorem rank_injective : Function.Injective rank := by
  intro a b h
  cases a <;> cases b <;> first | rfl | cases h

/-- The stricter one is greater. -/
instance : LinearOrder ApprovalRequirement := LinearOrder.lift' rank rank_injective

end Ironclaw.Agent.ApprovalRequirement

namespace Ironclaw.Tools

open Text Agent Safety Secrets Schema

/-! ## The two tools -/

/-- A property with a type and a description. -/
def described (t description : Str) : Json := .obj [("type".toList, .str t), ("description".toList, .str description)]

/-- `ShellTool::parameters_schema`. -/
def Shell.parametersSchema : Json :=
  .obj [("type".toList, .str "object".toList),
    ("properties".toList, .obj [
      ("command".toList, described "string".toList "The shell command to execute".toList),
      ("workdir".toList, described "string".toList "Working directory for the command (optional)".toList),
      ("timeout".toList, described "integer".toList "Timeout in seconds (optional, default 120)".toList)]),
    ("required".toList, .arr [.str "command".toList])]

namespace Http

def methodSchema : Json :=
  .obj [("type".toList, .str "string".toList),
    ("enum".toList, .arr (["GET", "POST", "PUT", "DELETE", "PATCH"].map fun m => .str m.toList)),
    ("description".toList, .str "HTTP method (default: GET)".toList)]

def headerSchema : Json :=
  .obj [("type".toList, .str "object".toList),
    ("properties".toList, .obj [("name".toList, typed "string".toList), ("value".toList, typed "string".toList)]),
    ("required".toList, .arr [.str "name".toList, .str "value".toList]), ("additionalProperties".toList, .bool false)]

def headersSchema : Json :=
  .obj [("type".toList, .str "array".toList),
    ("description".toList, .str "Optional headers as a list of \x7bname, value\x7d objects".toList),
    ("items".toList, headerSchema)]

/-- `HttpTool::parameters_schema`. -/
def parametersSchema : Json :=
  .obj [("type".toList, .str "object".toList),
    ("properties".toList, .obj [
      ("method".toList, methodSchema),
      ("url".toList, described "string".toList "The URL to request".toList),
      ("headers".toList, headersSchema),
      ("body".toList, .obj [("description".toList, .str
        "Request body (for POST/PUT/PATCH). Can be a JSON object, array, string, or other value.".toList)]),
      ("timeout_secs".toList, described "integer".toList "Request timeout in seconds (default: 30)".toList),
      ("save_to".toList, described "string".toList
        ("Save response body as raw bytes to this file path instead of returning" ++
        " it. Use for binary downloads (images, PDFs, etc.). The path must be under /tmp/.").toList)]),
    ("required".toList, .arr [.str "url".toList])]

section RequiresApproval

variable (d : Detector) (tool : HttpTool)

/-- `extract_host_from_params`. -/
def extractHostFromParams (params : Json) : Option Str := (urlOf d params).bind Net.Url.hostStr

/-- `SharedCredentialRegistry::has_credentials_for_host`. -/
def hasCredentialsForHost (registry : List CredentialMapping) (host : Str) : Bool :=
  registry.any fun mapping => mapping.matchesHost host

/-- There are credentials for the host of the request. -/
def hostHasCredentials (params : Json) : Bool :=
  tool.credentialRegistry.any fun registry => (extractHostFromParams d params).any (hasCredentialsForHost registry)

/-- `HttpTool::requires_approval`. -/
def requiresApproval (params : Json) : ApprovalRequirement :=
  if paramsContainManualCredentials d params || hostHasCredentials d tool params then .unlessAutoApproved
  else if eqIgnoreAsciiCase (methodParam params) "GET".toList then .never
  else .unlessAutoApproved

/-- A request with credentials, or with another method than `GET`. -/
def isRisky (params : Json) : Bool :=
  paramsContainManualCredentials d params || hostHasCredentials d tool params ||
    !eqIgnoreAsciiCase (methodParam params) "GET".toList

theorem requiresApproval_eq (params : Json) :
    requiresApproval d tool params = if isRisky d tool params then .unlessAutoApproved else .never := by
  rw [requiresApproval, isRisky]
  cases paramsContainManualCredentials d params || hostHasCredentials d tool params <;>
    cases eqIgnoreAsciiCase (methodParam params) "GET".toList <;> rfl

end RequiresApproval

end Http

/-! ## Schemas of one type -/

section OneType

variable {json : JsonText} {round : Str → Option Str} {schema : Json}

/-- The schema names one type. -/
def HasType (schema : Json) (t : String) : Prop := schema.get "type".toList = some (.str t.toList)

theorem HasType.allows {t : String} (h : HasType schema t) (expected : String) :
    schemaAllowsType schema expected.toList = (t.toList == expected.toList) := by
  rw [schemaAllowsType, h]

/-- A value, or the object that it spells. -/
def decodedObject (json : JsonText) (v : Json) : Json :=
  match v with
  | .str s =>
    if s = [] then v
    else
      match json.parse s with
      | .ok (.obj entries) => .obj entries
      | _ => v
  | _ => v

/-- A value, or the array that it spells. -/
def decodedArray (json : JsonText) (v : Json) : Json :=
  match v with
  | .str s =>
    if s = [] then v
    else
      match json.parse s with
      | .ok (.arr items) => .arr items
      | _ => v
  | _ => v

/-- What becomes of the entries of an object; any other value stays. -/
def onObject (f : List (Str × Json) → List (Str × Json)) : Json → Json
  | .obj entries => .obj (f entries)
  | v => v

/-- What becomes of the items of an array; any other value stays. -/
def onArray (f : List Json → List Json) : Json → Json
  | .arr items => .arr (f items)
  | v => v

theorem decodedObject_cases (json : JsonText) (v : Json) : decodedObject json v = v ∨
    ∃ s entries, v = .str s ∧ json.parse s = .ok (.obj entries) ∧ decodedObject json v = .obj entries := by
  unfold decodedObject
  split
  · next s =>
    split
    · exact .inl rfl
    · split
      · next entries hparse => exact .inr ⟨s, entries, rfl, hparse, rfl⟩
      · exact .inl rfl
  · exact .inl rfl

theorem asStr_onObject (f : List (Str × Json) → List (Str × Json)) (v : Json) : (onObject f v).asStr = v.asStr := by
  cases v <;> rfl

theorem scalarOf_eq_none {s : Str} (hinteger : schemaAllowsType schema "integer".toList = false)
    (hnumber : schemaAllowsType schema "number".toList = false)
    (hboolean : schemaAllowsType schema "boolean".toList = false) : scalarOf round s schema = none := by
  rw [scalarOf, hinteger, hnumber, hboolean]
  rfl

theorem coerceValue_object (h : HasType schema "object") (v : Json) : coerceValue json round v schema =
    onObject (fun entries => entries.map (coerceEntry json round schema entries)) (decodedObject json v) := by
  have hobject : schemaAllowsType schema "object".toList = true := h.allows "object"
  have harray : schemaAllowsType schema "array".toList = false := h.allows "array"
  cases v with
  | str s =>
    have hscalar : scalarOf round s schema = none :=
      scalarOf_eq_none (h.allows "integer") (h.allows "number") (h.allows "boolean")
    rw [coerceValue_str, coerceStringValue, show schemaAllowsType schema "null".toList = false from h.allows "null",
      show schemaAllowsType schema "string".toList = false from h.allows "string", hscalar, hobject, harray,
      decodedObject]
    by_cases hs : s = []
    · simp [hs, onObject]
    · cases hparse : json.parse s with
      | error e => simp [hs, onObject]
      | ok w =>
        cases w with
        | obj entries =>
          have hcoerced : coerceValue json round (.obj entries) schema =
              .obj (entries.map (coerceEntry json round schema entries)) := by
            rw [coerceValue_obj, hobject, if_pos rfl]
          simp [hs, onObject, hcoerced]
        | _ => simp [hs, onObject]
  | arr items =>
    rw [coerceValue_arr, harray, if_neg Bool.false_ne_true]
    rfl
  | obj entries =>
    rw [coerceValue_obj, hobject, if_pos rfl]
    rfl
  | null => exact coerceValue_null
  | bool b => exact coerceValue_bool
  | num n => exact coerceValue_num

theorem coerceValue_array {itemSchema : Json} (h : HasType schema "array")
    (hitems : schema.get "items".toList = some itemSchema)
    (v : Json) : coerceValue json round v schema =
      onArray (fun items => items.map fun item => coerceValue json round item itemSchema) (decodedArray json v) := by
  have hobject : schemaAllowsType schema "object".toList = false := h.allows "object"
  have harray : schemaAllowsType schema "array".toList = true := h.allows "array"
  cases v with
  | str s =>
    have hscalar : scalarOf round s schema = none :=
      scalarOf_eq_none (h.allows "integer") (h.allows "number") (h.allows "boolean")
    rw [coerceValue_str, coerceStringValue, show schemaAllowsType schema "null".toList = false from h.allows "null",
      show schemaAllowsType schema "string".toList = false from h.allows "string", hscalar, hobject,
      harray, decodedArray]
    by_cases hs : s = []
    · simp [hs, onArray]
    · cases hparse : json.parse s with
      | error e => simp [hs, onArray]
      | ok w =>
        cases w with
        | arr items =>
          have hcoerced : coerceValue json round (.arr items) schema =
              .arr (items.map fun item => coerceValue json round item itemSchema) := by
            rw [coerceValue_arr, harray, if_pos rfl, hitems]
          simp [hs, onArray, hcoerced]
        | _ => simp [hs, onArray]
  | arr items =>
    rw [coerceValue_arr, harray, if_pos rfl, hitems]
    rfl
  | obj entries =>
    rw [coerceValue_obj, hobject, if_neg Bool.false_ne_true]
    rfl
  | null => exact coerceValue_null
  | bool b => exact coerceValue_bool
  | num n => exact coerceValue_num

/-- An entry is coerced by its key. -/
theorem lookup_coerced (required : Json) (entries : List (Str × Json)) (key : Str) (kvs : List (Str × Json)) :
    (kvs.map (coerceEntry json round required entries)).lookup key =
      (kvs.lookup key).map (coerceSlot json round (requiredKeys required) key (slotOf required entries key)) := by
  induction kvs with
  | nil => rfl
  | cons kv kvs ih =>
    obtain ⟨k, v⟩ := kv
    rw [List.map_cons, coerceEntry, List.lookup_cons, List.lookup_cons]
    cases hk : key == k with
    | true => rw [eq_of_beq hk, Option.map_some]
    | false => exact ih

/-- The value under the key is a text. -/
def IsText (schema : Json) (key : Str) : Prop :=
  ∀ entries, ∃ propSchema, slotOf schema entries key = some (.property propSchema) ∧ HasType propSchema "string"

theorem asStr_coerceSlot {propSchema : Json} (h : HasType propSchema "string") (required : List Str)
    (key : Str) (v : Json) :
    (coerceSlot json round required key (some (.property propSchema)) v).asStr = v.asStr := by
  have hnull : schemaAllowsType propSchema "null".toList = false := h.allows "null"
  have hstring : schemaAllowsType propSchema "string".toList = true := h.allows "string"
  have hkept : isOmitted required key propSchema v = false := by
    rw [isOmitted, hnull, hstring]
    exact Bool.and_false _
  rw [coerceSlot, hkept, if_neg Bool.false_ne_true]
  cases v with
  | str s =>
    rw [coerceValue_str, coerceStringValue, hnull, hstring, if_neg fun hc => Bool.false_ne_true hc.2.1, if_pos rfl]
    rfl
  | arr items => rw [coerceValue_arr]; rfl
  | obj entries => rw [coerceValue_obj]; rfl
  | null => rw [coerceValue_null]
  | bool b => rw [coerceValue_bool]
  | num n => rw [coerceValue_num]

/-- A text is the same in what the arguments spell and in what they are coerced to. -/
theorem text_coerceValue (json : JsonText) (round : Str → Option Str) {key : Str} (h : HasType schema "object")
    (hkey : IsText schema key) (v : Json) :
    ((coerceValue json round v schema).get key).bind Json.asStr = ((decodedObject json v).get key).bind Json.asStr := by
  rw [coerceValue_object h]
  cases decodedObject json v with
  | obj entries =>
    obtain ⟨propSchema, hslot, hstring⟩ := hkey entries
    rw [onObject, Json.get, lookup_coerced, hslot, Json.get]
    cases entries.lookup key with
    | none => rfl
    | some w => exact asStr_coerceSlot hstring _ key w
  | _ => rfl

end OneType

/-! ## The shell tool -/

section Shell

variable (cm : CaseMap) (json : JsonText) (round : Str → Option Str) (params : Json)

theorem hasType_shell : HasType (resolveRefs Shell.parametersSchema) "object" := rfl

theorem isText_command : IsText (resolveRefs Shell.parametersSchema) "command".toList := fun _ => ⟨_, rfl, rfl⟩

theorem extractCommandParam_prepare :
    Shell.extractCommandParam json (prepareParamsForSchema json round params Shell.parametersSchema) =
      Shell.extractCommandParam json params := by
  have htext := text_coerceValue json round hasType_shell isText_command params
  have hstr : (prepareParamsForSchema json round params Shell.parametersSchema).asStr =
      (decodedObject json params).asStr := by
    rw [prepareParamsForSchema, coerceValue_object hasType_shell, asStr_onObject]
  rw [Shell.extractCommandParam, prepareParamsForSchema, htext, ← prepareParamsForSchema, hstr]
  rcases decodedObject_cases json params with hsame | ⟨s, entries, rfl, hparse, hdecoded⟩
  · rw [hsame, Shell.extractCommandParam]
  · -- the raw argument is a string, which the tool parses itself
    have hraw : Shell.extractCommandParam json (.str s) = ((Json.obj entries).get "command".toList).bind
        Json.asStr := by
      show (json.parse s).toOption.bind _ = _
      rw [hparse]
      rfl
    rw [hdecoded, hraw]
    exact Option.or_none

theorem shell_requiresApproval_prepare :
    Shell.requiresApproval cm json (prepareParamsForSchema json round params Shell.parametersSchema) =
      Shell.requiresApproval cm json params := by
  rw [Shell.requiresApproval, Shell.riskLevelFor, extractCommandParam_prepare]
  rfl

end Shell

/-! ## The HTTP tool -/

namespace Http

variable (d : Detector) (tool : HttpTool) (json : JsonText) (round : Str → Option Str)

/-- The headers, with the array and the objects that are written as strings. -/
def decodedHeaders (params : Json) : Option Json :=
  (params.get "headers".toList).map fun headers => onArray (List.map (decodedObject json)) (decodedArray json headers)

theorem hasType_http : HasType (resolveRefs parametersSchema) "object" := rfl

theorem isText_url : IsText (resolveRefs parametersSchema) "url".toList := fun _ => ⟨_, rfl, rfl⟩

theorem isText_method : IsText (resolveRefs parametersSchema) "method".toList := fun _ => ⟨_, rfl, rfl⟩

theorem slotOf_headers (entries : List (Str × Json)) :
    slotOf (resolveRefs parametersSchema) entries "headers".toList = some (.property headersSchema) := rfl

theorem hasType_headers : HasType headersSchema "array" := rfl

theorem hasType_header : HasType headerSchema "object" := rfl

theorem isText_name : IsText headerSchema "name".toList := fun _ => ⟨_, rfl, rfl⟩

theorem isText_value : IsText headerSchema "value".toList := fun _ => ⟨_, rfl, rfl⟩

/-- A header says the same in what it spells and in what it is coerced to. -/
theorem itemIsCredential_coerce (item : Json) :
    itemIsCredential d (coerceValue json round item headerSchema) = itemIsCredential d (decodedObject json item) := by
  rw [itemIsCredential, text_coerceValue json round hasType_header isText_name,
    text_coerceValue json round hasType_header isText_value]
  rfl

theorem headersAreCredentials_coerce (required : List Str) (headers : Json) :
    headersAreCredentials d
      (some (coerceSlot json round required "headers".toList (some (.property headersSchema)) headers)) =
      headersAreCredentials d (some (onArray (List.map (decodedObject json)) (decodedArray json headers))) := by
  rw [coerceSlot]
  split
  · next homitted =>
    -- an empty string becomes null
    have hempty : headers = .str [] := by
      rw [isOmitted, Bool.and_eq_true, Bool.and_eq_true, beq_iff_eq] at homitted
      exact homitted.1.1
    rw [hempty]
    rfl
  · rw [coerceValue_array hasType_headers rfl]
    cases decodedArray json headers with
    | arr items =>
      simp only [onArray, headersAreCredentials, List.any_map]
      exact congrArg (List.any items) (funext fun item => itemIsCredential_coerce d json round item)
    | _ => rfl

/-- What the headers say as they are written, they say when the strings in them are read. -/
theorem headersAreCredentials_decoded {params : Json} (h : headersContainCredentials d params = true) :
    headersAreCredentials d (decodedHeaders json params) = true := by
  rw [headersContainCredentials] at h
  rw [decodedHeaders]
  cases hget : params.get "headers".toList with
  | none =>
    rw [hget] at h
    exact absurd h Bool.false_ne_true
  | some headers =>
    rw [hget] at h
    cases headers with
    | arr items =>
      obtain ⟨item, hitem, hcredential⟩ := List.any_eq_true.mp h
      refine List.any_eq_true.mpr ⟨decodedObject json item, List.mem_map_of_mem hitem, ?_⟩
      rcases decodedObject_cases json item with hsame | ⟨s, entries, rfl, -⟩
      · rwa [hsame]
      · exact absurd hcredential Bool.false_ne_true
    | obj entries => exact h
    | _ => exact absurd h Bool.false_ne_true

section Prepare

variable (params : Json)

theorem headersContainCredentials_prepare :
    headersContainCredentials d (prepareParamsForSchema json round params parametersSchema) =
      headersAreCredentials d (decodedHeaders json (decodedObject json params)) := by
  rw [headersContainCredentials, prepareParamsForSchema, coerceValue_object hasType_http, decodedHeaders]
  cases decodedObject json params with
  | obj entries =>
    rw [onObject, Json.get, lookup_coerced, slotOf_headers, Json.get]
    cases entries.lookup "headers".toList with
    | none => rfl
    | some headers => exact headersAreCredentials_coerce d json round _ headers
  | _ => rfl

/-- The normalised arguments need approval for what the arguments spell, and for the headers that are spelled in
them. -/
theorem isRisky_prepare : isRisky d tool (prepareParamsForSchema json round params parametersSchema) =
    (headersAreCredentials d (decodedHeaders json (decodedObject json params)) ||
      isRisky d tool (decodedObject json params)) := by
  have hurl := text_coerceValue json round hasType_http isText_url params
  have hmethod := text_coerceValue json round hasType_http isText_method params
  rw [← prepareParamsForSchema] at hurl hmethod
  have hhost : hostHasCredentials d tool (prepareParamsForSchema json round params parametersSchema) =
      hostHasCredentials d tool (decodedObject json params) := by
    rw [hostHasCredentials, extractHostFromParams, urlOf_congr hurl]
    rfl
  have hheaders : headersContainCredentials d (decodedObject json params) = true →
      headersAreCredentials d (decodedHeaders json (decodedObject json params)) = true :=
    headersAreCredentials_decoded d json
  rw [isRisky, isRisky, hhost, methodParam, hmethod, paramsContainManualCredentials_of_url hurl,
    headersContainCredentials_prepare, ← methodParam, paramsContainManualCredentials]
  generalize headersAreCredentials d (decodedHeaders json (decodedObject json params)) = decoded at hheaders ⊢
  generalize headersContainCredentials d (decodedObject json params) = written at hheaders ⊢
  cases decoded with
  | true => simp
  | false =>
    have hwritten : written = false := Bool.eq_false_iff.mpr fun h => Bool.false_ne_true (hheaders h)
    rw [hwritten, Bool.false_or, Bool.false_or]

end Prepare

end Http

/-! ## Approval of the two tools -/

section Covered

variable (cm : CaseMap) (d : Detector) (tool : Http.HttpTool) (json : JsonText) (round : Str → Option Str)
    (params : Json)

/-- What is asked for the arguments as they are written is at least what the normalised arguments need, for both
tools. -/
def ApprovalCovers : Prop :=
  Shell.requiresApproval cm json (prepareParamsForSchema json round params Shell.parametersSchema) ≤
      Shell.requiresApproval cm json params ∧
    Http.requiresApproval d tool (prepareParamsForSchema json round params Http.parametersSchema) ≤
      Http.requiresApproval d tool params

/-- Approval covers what is executed exactly when the HTTP tool asks for the arguments as they are written, or there is
nothing to ask for in what the strings among them spell. -/
theorem approvalCovers_iff : ApprovalCovers cm d tool json round params ↔
    Http.isRisky d tool params = true ∨
      Http.isRisky d tool (decodedObject json params) = false ∧
        headersAreCredentials d (Http.decodedHeaders json (decodedObject json params)) = false := by
  rw [ApprovalCovers, shell_requiresApproval_prepare, Http.requiresApproval_eq, Http.requiresApproval_eq,
    Http.isRisky_prepare]
  cases Http.isRisky d tool params <;> cases Http.isRisky d tool (decodedObject json params) <;>
    cases headersAreCredentials d (Http.decodedHeaders json (decodedObject json params)) <;> simp <;> decide

end Covered

/-- A request that changes something. -/
def postRequest : Json := .obj [("method".toList, .str "POST".toList), ("url".toList, .str "u".toList)]

/-- A reader of the text of one request. -/
def postText : JsonText := ⟨fun s => if s = postRequest.toText then .ok postRequest else .error [], Json.toText⟩

/-- The text of the request has no method that the tool sees, and nobody is asked. -/
theorem post_in_string_not_covered :
    ¬∀ (cm : CaseMap) (d : Detector) (tool : Http.HttpTool) (json : JsonText) (round : Str →
      Option Str) (params : Json), ApprovalCovers cm d tool json round params := by
  intro h
  let d : Detector := ⟨asciiCase, fun _ => .error [], fun _ => []⟩
  have hcovers := (h asciiCase d ⟨none, none⟩ postText (fun _ => none) (.str postRequest.toText)).2
  have hdecoded : decodedObject postText (.str postRequest.toText) = postRequest := by decide
  rw [Http.requiresApproval_eq, Http.requiresApproval_eq, Http.isRisky_prepare, hdecoded] at hcovers
  revert hcovers
  decide

end Ironclaw.Tools

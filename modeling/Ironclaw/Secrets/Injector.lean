import Ironclaw.Lib.Lowercase
import Ironclaw.Lib.OrderedMap
import Ironclaw.Lib.Table
import Ironclaw.Secrets.Credentials
import Mathlib.Data.Char

/-!
# The credential injector of a tool

The injector visits the mappings for a host in the order of a hash map; the first failure ends the visit, and a later
credential takes the place of an earlier one.

- `inject_of_failure`: the first failure is the result;
- `get_inject`: every entry of the result comes from a mapping;
- `inject_independent_iff`: when the order does not matter.
-/

namespace Ironclaw

/-- Every order of the entries of one table is an order of iteration. -/
theorem Table.exists_iteration {κ ν : Type*} (t : Table κ ν) {es : List (Sigma fun _ : κ => ν)}
    (h : es.Perm t.entries) :
    ∃ order : Table.Iteration κ ν, order.entries t = es := by
  classical
  refine ⟨⟨fun t' => if t' = t then es else t'.entries, fun t' => ?_⟩, if_pos rfl⟩
  split
  next heq =>
    rw [heq]
    exact h
  next => exact List.Perm.refl _

end Ironclaw

namespace Ironclaw.Secrets

open Text

/-! ## Errors and stores -/

inductive SecretError
  | notFound (name : Str)
  | expired
  | decryptionFailed (message : Str)
  | encryptionFailed (message : Str)
  | invalidMasterKey
  | invalidUtf8
  | database (message : Str)
  | accessDenied
  | keychainError (message : Str)
  deriving DecidableEq

namespace SecretError

def text : SecretError → Str
  | notFound name => "Secret not found: ".toList ++ name
  | expired => "Secret has expired".toList
  | decryptionFailed message => "Decryption failed: ".toList ++ message
  | encryptionFailed message => "Encryption failed: ".toList ++ message
  | invalidMasterKey => "Invalid master key".toList
  | invalidUtf8 => "Secret value is not valid UTF-8".toList
  | database message => "Database error: ".toList ++ message
  | accessDenied => "Secret access denied for tool".toList
  | keychainError message => "Keychain error: ".toList ++ message

end SecretError

inductive InjectionError
  | secretNotFound (name : Str)
  | accessDenied (name : Str)
  | secretExpired (name : Str)
  | decryptionFailed (message : Str)
  deriving DecidableEq

/-- `get_decrypted` for a user and the name of a secret. -/
abbrev SecretsStore := Str → Str → Except SecretError Str

/-! ## Entries -/

/-- Where a request can carry a credential. -/
inductive Place
  | header (name : Str)
  | query (name : Str)
  deriving DecidableEq

namespace InjectedCredentials

def empty : InjectedCredentials := ⟨[], []⟩

/-- What stands at a place. -/
def get (c : InjectedCredentials) : Place → Option Str
  | .header name => c.headers.lookup name
  | .query name => c.queryParams.lookup name

/-- The entries are those of two maps. -/
def Maps (c : InjectedCredentials) : Prop := OrderedMap.InOrder c.headers ∧ OrderedMap.InOrder c.queryParams

def insertAll (added old : List (Str × Str)) : List (Str × Str) :=
  added.foldl (fun m kv => OrderedMap.insertKey kv.1 kv.2 m) old

/-- `inject_credential`: the entries of a credential replace those that are there. -/
def inject (c : InjectedCredentials) (location : CredentialLocation) (secret : Str) : InjectedCredentials :=
  ⟨insertAll (injectCredential location secret).headers c.headers,
    insertAll (injectCredential location secret).queryParams c.queryParams⟩

theorem ext_get {c d : InjectedCredentials} (hc : c.Maps) (hd : d.Maps) (h : ∀ place, c.get place = d.get place) :
    c = d := by
  obtain ⟨ch, cq⟩ := c
  obtain ⟨dh, dq⟩ := d
  obtain rfl : ch = dh := OrderedMap.ext hc.1 hd.1 fun name => h (.header name)
  obtain rfl : cq = dq := OrderedMap.ext hc.2 hd.2 fun name => h (.query name)
  rfl

theorem inOrder_insertAll {old : List (Str × Str)} (h : OrderedMap.InOrder old) (added : List (Str × Str)) :
    OrderedMap.InOrder (insertAll added old) := by
  induction added generalizing old with
  | nil => exact h
  | cons kv added ih => exact ih h.insertKey

theorem maps_inject {c : InjectedCredentials} (h : c.Maps) (location : CredentialLocation) (secret : Str) :
    (c.inject location secret).Maps :=
  ⟨inOrder_insertAll h.1 _, inOrder_insertAll h.2 _⟩

theorem lookup_insert_one (kv : Str × Str) (m : List (Str × Str)) (name : Str) :
    (OrderedMap.insertKey kv.1 kv.2 m).lookup name = (([kv].lookup name).or (m.lookup name)) := by
  rw [OrderedMap.lookup_insertKey, OrderedMap.lookup_cons]
  split <;> rfl

/-- A credential stands at its place, the others stay where they are. -/
theorem get_inject (c : InjectedCredentials) (location : CredentialLocation) (secret : Str) (place : Place) :
    (c.inject location secret).get place = ((injectCredential location secret).get place).or (c.get place) := by
  cases location <;> cases place <;> first | rfl | exact lookup_insert_one _ _ _

end InjectedCredentials

/-! ## The injector -/

structure CredentialInjector where
  mappings : Table Str CredentialMapping
  allowedSecrets : List Str

namespace CredentialInjector

section Inject

variable (tables : LowerTables) (injector : CredentialInjector) (order : Table.Iteration Str CredentialMapping)
  (user host : Str) (store : SecretsStore)

/-- `find_credentials_for_host`, in the order of an iteration. -/
def findCredentialsForHost : List CredentialMapping :=
  findForHost ((order.entries injector.mappings).map Sigma.snd) host

def isSecretAllowed (name : Str) : Bool :=
  injector.allowedSecrets.any fun pattern =>
    tables.toLowercase pattern == tables.toLowercase name ||
      ((tables.toLowercase pattern).getLast? == some '*' &&
        (tables.toLowercase pattern).dropLast.isPrefixOf (tables.toLowercase name))

/-- What the injector makes of an error of the store. -/
def storeError (name : Str) : SecretError → InjectionError
  | .notFound missing => .secretNotFound missing
  | .expired => .secretExpired name
  | e => .decryptionFailed e.text

/-- The secret of a mapping, if the tool may have it. -/
def fetch (mapping : CredentialMapping) : Except InjectionError Str :=
  if !injector.isSecretAllowed tables mapping.secretName then .error (.accessDenied mapping.secretName)
  else
    match store user mapping.secretName with
    | .error e => .error (storeError mapping.secretName e)
    | .ok secret => .ok secret

def injectAll (result : InjectedCredentials) : List CredentialMapping → Except InjectionError InjectedCredentials
  | [] => .ok result
  | mapping :: mappings =>
    match injector.fetch tables user store mapping with
    | .error e => .error e
    | .ok secret => injectAll (result.inject mapping.location secret) mappings

def inject : Except InjectionError InjectedCredentials :=
  injector.injectAll tables user store .empty (injector.findCredentialsForHost order host)

end Inject

/-! ## One visit -/

section Visit

variable {tables : LowerTables} {injector : CredentialInjector} {user : Str} {store : SecretsStore}

/-- The first mapping without a secret decides. -/
theorem injectAll_of_failure {e : InjectionError} {mappings : List CredentialMapping}
    (hsame : ∀ m ∈ mappings, ∀ e', injector.fetch tables user store m = .error e' → e' = e)
    (hfails : ∃ m ∈ mappings, injector.fetch tables user store m = .error e) (result : InjectedCredentials) :
    injector.injectAll tables user store result mappings = .error e := by
  induction mappings generalizing result with
  | nil => simp at hfails
  | cons mapping mappings ih =>
    rw [injectAll]
    cases hfetch : injector.fetch tables user store mapping with
    | error e' => rw [hsame mapping List.mem_cons_self e' hfetch]
    | ok secret =>
      refine ih (fun m hm => hsame m (List.mem_cons_of_mem _ hm)) ?_ _
      obtain ⟨m, hm, hfail⟩ := hfails
      rcases List.mem_cons.mp hm with rfl | hm
      · rw [hfetch] at hfail
        cases hfail
      · exact ⟨m, hm, hfail⟩

/-- The injector succeeds when every secret can be had. -/
theorem injectAll_ok {mappings : List CredentialMapping}
    (hok : ∀ m ∈ mappings, ∃ secret, injector.fetch tables user store m = .ok secret) {result : InjectedCredentials}
    (hmaps : result.Maps) :
    ∃ result', injector.injectAll tables user store result mappings = .ok result' ∧ result'.Maps := by
  induction mappings generalizing result with
  | nil => exact ⟨result, rfl, hmaps⟩
  | cons mapping mappings ih =>
    obtain ⟨secret, hsecret⟩ := hok mapping List.mem_cons_self
    rw [injectAll, hsecret]
    exact ih (fun m hm => hok m (List.mem_cons_of_mem _ hm)) (InjectedCredentials.maps_inject hmaps _ _)

/-- A success means that every secret could be had. -/
theorem fetch_of_ok {mappings : List CredentialMapping} {result result' : InjectedCredentials}
    (h : injector.injectAll tables user store result mappings = .ok result') :
    ∀ m ∈ mappings, ∃ secret, injector.fetch tables user store m = .ok secret := by
  induction mappings generalizing result with
  | nil => simp
  | cons mapping mappings ih =>
    rw [injectAll] at h
    cases hfetch : injector.fetch tables user store mapping with
    | error e =>
      rw [hfetch] at h
      cases h
    | ok secret =>
      rw [hfetch] at h
      intro m hm
      rcases List.mem_cons.mp hm with rfl | hm
      · exact ⟨secret, hfetch⟩
      · exact ih h m hm

/-- A mapping writes a value at a place. -/
def Writes (tables : LowerTables) (injector : CredentialInjector) (user : Str) (store : SecretsStore)
    (mapping : CredentialMapping) (place : Place) (value : Str) : Prop :=
  ∃ secret, injector.fetch tables user store mapping = .ok secret ∧
    (injectCredential mapping.location secret).get place = some value

/-- What stands at a place in the end: what a mapping wrote there, or what was there when none wrote. -/
theorem get_injectAll {mappings : List CredentialMapping} {result result' : InjectedCredentials}
    (h : injector.injectAll tables user store result mappings = .ok result') (place : Place) :
    (∃ m ∈ mappings, ∃ value, injector.Writes tables user store m place value ∧ result'.get place = some value) ∨
      (∀ m ∈ mappings, ∀ value, ¬injector.Writes tables user store m place value) ∧
      result'.get place = result.get place := by
  induction mappings generalizing result with
  | nil =>
    obtain rfl : result = result' := Except.ok.inj h
    exact Or.inr ⟨by simp, rfl⟩
  | cons mapping mappings ih =>
    rw [injectAll] at h
    cases hfetch : injector.fetch tables user store mapping with
    | error e =>
      rw [hfetch] at h
      cases h
    | ok secret =>
      rw [hfetch] at h
      rcases ih h with ⟨m, hm, hwrites⟩ | ⟨hnone, hget⟩
      · exact Or.inl ⟨m, List.mem_cons_of_mem _ hm, hwrites⟩
      · rw [InjectedCredentials.get_inject] at hget
        cases hvalue : (injectCredential mapping.location secret).get place with
        | some value =>
          rw [hvalue] at hget
          exact Or.inl ⟨mapping, List.mem_cons_self, value, ⟨secret, hfetch, hvalue⟩, hget⟩
        | none =>
          rw [hvalue] at hget
          refine Or.inr ⟨?_, hget⟩
          rintro m hm value ⟨secret', hfetch', hvalue'⟩
          rcases List.mem_cons.mp hm with rfl | hm
          · obtain rfl : secret = secret' := Except.ok.inj (hfetch.symm.trans hfetch')
            rw [hvalue] at hvalue'
            cases hvalue'
          · exact hnone m hm value ⟨secret', hfetch', hvalue'⟩

/-- The last mapping has its value at its place. -/
theorem get_last {mappings : List CredentialMapping} {result result' : InjectedCredentials} {m : CredentialMapping}
    (h : injector.injectAll tables user store result (mappings ++ [m]) = .ok result') {place : Place} {value : Str}
    (hwrites : injector.Writes tables user store m place value) : result'.get place = some value := by
  induction mappings generalizing result with
  | nil =>
    obtain ⟨secret, hfetch, hvalue⟩ := hwrites
    rw [List.nil_append, injectAll, hfetch] at h
    obtain rfl := Except.ok.inj h
    rw [InjectedCredentials.get_inject, hvalue, Option.some_or]
  | cons mapping mappings ih =>
    rw [List.cons_append, injectAll] at h
    cases hfetch : injector.fetch tables user store mapping with
    | error e =>
      rw [hfetch] at h
      cases h
    | ok secret =>
      rw [hfetch] at h
      exact ih h

end Visit

/-! ## All orders -/

/-- A mapping of the injector is for the host. -/
def Matching (injector : CredentialInjector) (host : Str) (m : CredentialMapping) : Prop :=
  (∃ key, injector.mappings.lookup key = some m) ∧ m.matchesHost host = true

/-- All failures are the same; and without failures, all that is written at one place is the same. -/
def Settled (tables : LowerTables) (injector : CredentialInjector) (user host : Str) (store : SecretsStore) : Prop :=
  (∀ m m', injector.Matching host m → injector.Matching host m' → ∀ e e',
    injector.fetch tables user store m = .error e → injector.fetch tables user store m' = .error e' → e = e') ∧
  ((∀ m, injector.Matching host m → ∃ secret, injector.fetch tables user store m = .ok secret) →
    ∀ m m', injector.Matching host m → injector.Matching host m' → ∀ place value value',
      injector.Writes tables user store m place value → injector.Writes tables user store m' place value' →
        value = value')

section Orders

variable {tables : LowerTables} {injector : CredentialInjector} {user host : Str} {store : SecretsStore}

theorem mem_findCredentialsForHost {order : Table.Iteration Str CredentialMapping} {m : CredentialMapping} :
    m ∈ injector.findCredentialsForHost order host ↔ injector.Matching host m := by
  rw [findCredentialsForHost, findForHost, List.mem_filter, List.mem_map]
  refine and_congr_left fun _ => ?_
  constructor
  · rintro ⟨⟨key, m⟩, hmem, rfl⟩
    exact ⟨key, Table.mem_entries_iff.mp ((order.perm _).mem_iff.mp hmem)⟩
  · rintro ⟨key, hlookup⟩
    exact ⟨⟨key, m⟩, (order.perm _).mem_iff.mpr (Table.mem_entries_iff.mpr hlookup), rfl⟩

/-- Any mapping for the host can be the first one, and the last one. -/
theorem exists_first_last {m : CredentialMapping} (h : injector.Matching host m) :
    ∃ (first last : Table.Iteration Str CredentialMapping) (ms : List CredentialMapping),
      injector.findCredentialsForHost first host = m :: ms ∧ injector.findCredentialsForHost last host = ms ++ [m] := by
  obtain ⟨⟨key, hlookup⟩, hhost⟩ := h
  obtain ⟨a, b, hentries⟩ := List.append_of_mem (Table.mem_entries_iff.mpr hlookup)
  obtain ⟨first, hfirst⟩ := @Table.exists_iteration _ _ injector.mappings (⟨key, m⟩ :: (a ++ b)) (by
    rw [hentries]
    exact List.perm_middle.symm)
  obtain ⟨last, hlast⟩ := @Table.exists_iteration _ _ injector.mappings ((a ++ b) ++ [⟨key, m⟩]) (by
    rw [hentries, List.append_assoc]
    exact List.Perm.append_left a (List.perm_append_singleton _ b))
  refine ⟨first, last, findForHost ((a ++ b).map Sigma.snd) host, ?_, ?_⟩
  · rw [findCredentialsForHost, hfirst, List.map_cons, findForHost, List.filter_cons, if_pos hhost]
    rfl
  · rw [findCredentialsForHost, hlast, List.map_append, findForHost, List.filter_append]
    simp [findForHost, hhost]

theorem inject_of_failure (hsettled : injector.Settled tables user host store) {m : CredentialMapping}
    {e : InjectionError}
    (hm : injector.Matching host m) (hfail : injector.fetch tables user store m = .error e)
    (order : Table.Iteration Str CredentialMapping) : injector.inject tables order user host store = .error e := by
  refine injectAll_of_failure ?_ ⟨m, mem_findCredentialsForHost.2 hm, hfail⟩ _
  intro m' hm' e' hfail'
  exact hsettled.1 m' m (mem_findCredentialsForHost.1 hm') hm e' e hfail' hfail

theorem inject_ok (hok : ∀ m, injector.Matching host m → ∃ secret, injector.fetch tables user store m = .ok secret)
    (order : Table.Iteration Str CredentialMapping) :
    ∃ result, injector.inject tables order user host store = .ok result ∧ result.Maps :=
  injectAll_ok (fun m hm => hok m (mem_findCredentialsForHost.1 hm)) ⟨.nil, .nil⟩

/-- Where values are settled, the result has at a place exactly what a mapping writes there. -/
theorem get_inject_iff (hsettled : injector.Settled tables user host store)
    (hok : ∀ m, injector.Matching host m → ∃ secret, injector.fetch tables user store m = .ok secret)
    {order : Table.Iteration Str CredentialMapping} {result : InjectedCredentials}
    (h : injector.inject tables order user host store = .ok result) (place : Place) (value : Str) :
    result.get place = some value ↔ ∃ m, injector.Matching host m ∧
    injector.Writes tables user store m place value := by
  rcases get_injectAll h place with ⟨m, hm, found, hwrites, hget⟩ | ⟨hnone, hget⟩
  · rw [hget]
    constructor
    · intro heq
      obtain rfl := Option.some.inj heq
      exact ⟨m, mem_findCredentialsForHost.1 hm, hwrites⟩
    · rintro ⟨m', hm', hwrites'⟩
      exact congrArg some (hsettled.2 hok m m' (mem_findCredentialsForHost.1 hm) hm' place found value hwrites hwrites')
  · have hempty : InjectedCredentials.empty.get place = none := by cases place <;> rfl
    rw [hget, hempty]
    constructor
    · simp
    · rintro ⟨m, hm, hwrites⟩
      exact absurd hwrites (hnone m (mem_findCredentialsForHost.2 hm) value)

/-- A secret has a place in the request, unless it is for its path. -/
theorem exists_writes {m : CredentialMapping} {secret : Str} (hfetch : injector.fetch tables user store m = .ok secret)
    (hlocation : ∀ placeholder, m.location ≠ .urlPath placeholder) :
    ∃ place value, injector.Writes tables user store m place value := by
  have hplace : ∃ place value, (injectCredential m.location secret).get place = some value := by
    cases h : m.location with
    | authorizationBearer => exact ⟨.header "Authorization".toList, _, rfl⟩
    | authorizationBasic username => exact ⟨.header "Authorization".toList, _, rfl⟩
    | header name start => exact ⟨.header name, start.getD [] ++ secret, by
        simp [InjectedCredentials.get, injectCredential]⟩
    | queryParam name => exact ⟨.query name, secret, by simp [InjectedCredentials.get, injectCredential]⟩
    | urlPath placeholder => exact absurd h (hlocation placeholder)
  obtain ⟨place, value, hvalue⟩ := hplace
  exact ⟨place, value, secret, hfetch, hvalue⟩

/-- Orders that give the same result settle what the mappings write and how they fail. -/
theorem settled_of_same (h : ∀ order order', injector.inject tables order user host store =
    injector.inject tables order' user host store) : injector.Settled tables user host store := by
  constructor
  · intro m m' hm hm' e e' hfail hfail'
    obtain ⟨first, -, ms, hfirst, -⟩ := exists_first_last hm
    obtain ⟨first', -, ms', hfirst', -⟩ := exists_first_last hm'
    have hsame := h first first'
    rw [inject, inject, hfirst, hfirst', injectAll, injectAll, hfail, hfail'] at hsame
    exact Except.error.inj hsame
  · intro hok m m' hm hm' place value value' hwrites hwrites'
    obtain ⟨-, last, ms, -, hlast⟩ := exists_first_last hm
    obtain ⟨-, last', ms', -, hlast'⟩ := exists_first_last hm'
    obtain ⟨result, hresult, -⟩ := inject_ok hok last
    have hresult' := (h last last').symm.trans hresult
    rw [inject, hlast] at hresult
    rw [inject, hlast'] at hresult'
    exact Option.some.inj ((get_last hresult hwrites).symm.trans (get_last hresult' hwrites'))

theorem same_of_settled (hsettled : injector.Settled tables user host store)
    (order order' : Table.Iteration Str CredentialMapping) :
    injector.inject tables order user host store = injector.inject tables order' user host store := by
  by_cases hok : ∀ m, injector.Matching host m → ∃ secret, injector.fetch tables user store m = .ok secret
  · obtain ⟨result, hresult, hmaps⟩ := inject_ok hok order
    obtain ⟨result', hresult', hmaps'⟩ := inject_ok hok order'
    rw [hresult, hresult']
    refine congrArg Except.ok (InjectedCredentials.ext_get hmaps hmaps' fun place => Option.ext fun value => ?_)
    rw [get_inject_iff hsettled hok hresult, get_inject_iff hsettled hok hresult']
  · simp only [not_forall] at hok
    obtain ⟨m, hm, hnot⟩ := hok
    cases hfetch : injector.fetch tables user store m with
    | ok secret => exact absurd ⟨secret, hfetch⟩ hnot
    | error e => rw [inject_of_failure hsettled hm hfetch, inject_of_failure hsettled hm hfetch]

/-- **Injection.** The result does not depend on the order exactly when all failures are the same and, without failures,
all that is written at one place is the same; then every mapping for the host stands in the result, but for those of the
path. -/
theorem inject_independent_iff (tables : LowerTables) (injector : CredentialInjector) (user host : Str)
    (store : SecretsStore) :
    ((∀ order order', injector.inject tables order user host store = injector.inject tables order' user host store) ↔
      injector.Settled tables user host store) ∧
    (injector.Settled tables user host store → ∀ order result,
      injector.inject tables order user host store = .ok result →
      ∀ m, injector.Matching host m → (∀ placeholder, m.location ≠ .urlPath placeholder) →
        ∃ place value, injector.Writes tables user store m place value ∧ result.get place = some value) := by
  refine ⟨⟨settled_of_same, same_of_settled⟩, fun hsettled order result hresult m hm hlocation => ?_⟩
  have hok : ∀ m, injector.Matching host m → ∃ secret, injector.fetch tables user store m = .ok secret :=
    fun m hm => fetch_of_ok hresult m (mem_findCredentialsForHost.mpr hm)
  obtain ⟨secret, hfetch⟩ := hok m hm
  obtain ⟨place, value, hwrites⟩ := exists_writes hfetch hlocation
  exact ⟨place, value, hwrites, (get_inject_iff hsettled hok hresult place value).mpr ⟨m, hm, hwrites⟩⟩

end Orders

/-! ## Two tokens for one host -/

/-- The last entry first. -/
def reversed : Table.Iteration Str CredentialMapping :=
  ⟨fun t => t.entries.reverse, fun t => List.reverse_perm t.entries⟩

/-- An injector with two mappings for one host. -/
def twoMappings (first second : CredentialLocation) : CredentialInjector where
  mappings := (AList.insert "b".toList ⟨"two".toList, second, ["api.example.com".toList]⟩
    (AList.insert "a".toList ⟨"one".toList, first, ["api.example.com".toList]⟩ ∅))
  allowedSecrets := ["*".toList]

/-- Every secret has its own name as its value. -/
def nameStore : SecretsStore := fun _ name => .ok name

/-- Two bearer tokens overwrite each other in the order of the map; a secret for the path is in no entry. -/
theorem bearer_tokens_race :
    (twoMappings .authorizationBearer .authorizationBearer).inject LowerTables.asciiOnly .plain "user".toList
        "api.example.com".toList nameStore ≠
      (twoMappings .authorizationBearer .authorizationBearer).inject LowerTables.asciiOnly reversed "user".toList
        "api.example.com".toList nameStore ∧
    (twoMappings (.urlPath "a".toList) (.urlPath "b".toList)).inject LowerTables.asciiOnly .plain "user".toList
        "api.example.com".toList nameStore = .ok .empty := by
  decide

end CredentialInjector

end Ironclaw.Secrets

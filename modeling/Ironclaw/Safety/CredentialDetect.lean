import Ironclaw.Lib.Json
import Ironclaw.Lib.Net

/-!
# Credentials in the parameters of a request

`params_contain_manual_credentials`: whether the headers, the query or the user information of the URL look as if they
authenticate somebody. Only the values under `headers` and `url` are read.

- `paramsContainManualCredentials_of_url`: parameters with the same URL differ in their headers alone.
-/

namespace Ironclaw.Safety

open Text Net

def AUTH_HEADER_EXACT : List Str :=
  ["authorization", "proxy-authorization", "cookie", "x-api-key", "api-key", "x-auth-token", "x-token",
    "x-access-token", "x-session-token", "x-csrf-token", "x-secret", "x-api-secret"].map String.toList

def AUTH_HEADER_SUBSTRINGS : List Str := ["auth", "token", "secret", "credential", "password"].map String.toList

def AUTH_VALUE_PREFIXES : List Str :=
  ["bearer ", "basic ", "token ", "digest ", "hoba ", "mutual ", "aws4-hmac-sha256 "].map String.toList

def AUTH_QUERY_EXACT : List Str :=
  ["api_key", "apikey", "api-key", "access_token", "token", "key", "secret", "password", "auth", "auth_token",
    "session_token", "client_secret", "client_id", "app_key", "app_secret", "sig", "signature"].map String.toList

def AUTH_QUERY_SUBSTRINGS : List Str := ["token", "secret", "auth", "password", "credential"].map String.toList

/-- What the detection reads with: the case of letters and the URL library, with its decoding of a query. -/
structure Detector where
  case : CaseMap
  parse : Str → Except Str Url
  queryPairs : Url → List (Str × Str)

section Detect

variable (d : Detector)

/-- A lower-case name is one of the exact ones or has one of the substrings. -/
def isNamed (exact substrings : List Str) (name : Str) : Bool :=
  let lower := d.case.lower name
  exact.contains lower || substrings.any fun sub => decide (sub <:+: lower)

def headerNameIsCredential : Str → Bool := isNamed d AUTH_HEADER_EXACT AUTH_HEADER_SUBSTRINGS

def headerValueIsCredential (value : Str) : Bool :=
  let lower := d.case.lower value
  AUTH_VALUE_PREFIXES.any fun pfx => pfx.isPrefixOf lower

/-- An item of a list of headers. -/
def itemIsCredential (item : Json) : Bool :=
  ((item.get "name".toList).bind Json.asStr).any (headerNameIsCredential d) ||
    ((item.get "value".toList).bind Json.asStr).any (headerValueIsCredential d)

/-- What stands under `headers`. -/
def headersAreCredentials : Option Json → Bool
  | some (.obj map) => map.any fun kv => headerNameIsCredential d kv.1 || kv.2.asStr.any (headerValueIsCredential d)
  | some (.arr items) => items.any (itemIsCredential d)
  | _ => false

def headersContainCredentials (params : Json) : Bool := headersAreCredentials d (params.get "headers".toList)

def queryParamIsCredential : Str → Bool := isNamed d AUTH_QUERY_EXACT AUTH_QUERY_SUBSTRINGS

/-- The URL of the parameters, when it is one. -/
def urlOf (params : Json) : Option Url :=
  ((params.get "url".toList).bind Json.asStr).bind fun url => (d.parse url).toOption

def urlContainsCredentialParams (params : Json) : Bool :=
  (urlOf d params).any fun url => (d.queryPairs url).any fun pair => queryParamIsCredential d pair.1

/-- A user name or a password; the user information of a URL is not empty when it has one of them. -/
def urlContainsUserinfo (params : Json) : Bool := (urlOf d params).any fun url => !url.userinfo.isEmpty

/-- `params_contain_manual_credentials`. -/
def paramsContainManualCredentials (params : Json) : Bool :=
  headersContainCredentials d params || urlContainsCredentialParams d params || urlContainsUserinfo d params

variable {d} {params params' : Json}

theorem urlOf_congr (h : (params'.get "url".toList).bind Json.asStr = (params.get "url".toList).bind Json.asStr) :
    urlOf d params' = urlOf d params := by
  rw [urlOf, urlOf, h]

theorem paramsContainManualCredentials_of_url
    (h : (params'.get "url".toList).bind Json.asStr = (params.get "url".toList).bind Json.asStr) :
    paramsContainManualCredentials d params' = (headersContainCredentials d params' ||
      urlContainsCredentialParams d params || urlContainsUserinfo d params) := by
  rw [paramsContainManualCredentials, urlContainsCredentialParams, urlContainsUserinfo, urlOf_congr h]
  rfl

end Detect

end Ironclaw.Safety

import Ironclaw.Lib.Text

/-!
# Credentials of requests

Which secrets go with a request and where they stand in it. A mapping names a secret, its location and the hosts it is
for; `host_matches_pattern` decides on a host.
-/

namespace Ironclaw.Secrets

open Text

/-- Where a credential stands in a request. -/
inductive CredentialLocation
  | authorizationBearer
  | authorizationBasic (username : Str)
  | header (name : Str) (start : Option Str)
  | queryParam (name : Str)
  | urlPath (placeholder : Str)
  deriving DecidableEq

structure CredentialMapping where
  secretName : Str
  location : CredentialLocation
  hostPatterns : List Str
  deriving DecidableEq

/-- `host_matches_pattern`: the host itself, or `*.` before a domain for the hosts under it. -/
def hostMatchesPattern (host pattern : Str) : Bool :=
  pattern == host ||
    match stripStart "*.".toList pattern with
    | none => false
    | some suffix =>
      suffix.isSuffixOf host && suffix.length < host.length &&
        let start := host.take (host.length - suffix.length)
        start.getLast? == some '.' || start.isEmpty

def CredentialMapping.matchesHost (mapping : CredentialMapping) (host : Str) : Bool :=
  mapping.hostPatterns.any (hostMatchesPattern host)

/-- `SharedCredentialRegistry::find_for_host`. -/
def findForHost (mappings : List CredentialMapping) (host : Str) : List CredentialMapping :=
  mappings.filter fun mapping => mapping.matchesHost host

/-! ## Injection -/

def base64Digit (n : UInt8) : Char :=
  "ABCDEFGHIJKLMNOPQRSTUVWXYZabcdefghijklmnopqrstuvwxyz0123456789+/".toList.getD n.toNat '='

def base64Encode : List UInt8 → Str
  | [] => []
  | [b0] => [base64Digit (b0 >>> 2), base64Digit ((b0 &&& 0x03) <<< 4), '=', '=']
  | [b0, b1] =>
    [base64Digit (b0 >>> 2), base64Digit ((b0 &&& 0x03) <<< 4 ||| b1 >>> 4), base64Digit ((b1 &&& 0x0f) <<< 2), '=']
  | b0 :: b1 :: b2 :: rest =>
    [base64Digit (b0 >>> 2), base64Digit ((b0 &&& 0x03) <<< 4 ||| b1 >>> 4),
      base64Digit ((b1 &&& 0x0f) <<< 2 ||| b2 >>> 6), base64Digit (b2 &&& 0x3f)] ++ base64Encode rest

/-- What one credential adds to a request. -/
structure InjectedCredentials where
  headers : List (Str × Str)
  queryParams : List (Str × Str)
  deriving DecidableEq

/-- The bytes of a text. -/
def utf8Bytes (s : Str) : List UInt8 := s.flatMap String.utf8EncodeChar

/-- `inject_credential` into no credentials. -/
def injectCredential (location : CredentialLocation) (secret : Str) : InjectedCredentials :=
  match location with
  | .authorizationBearer => ⟨[("Authorization".toList, "Bearer ".toList ++ secret)], []⟩
  | .authorizationBasic username =>
    ⟨[("Authorization".toList, "Basic ".toList ++ base64Encode (utf8Bytes (username ++ ":".toList ++ secret)))], []⟩
  | .header name start => ⟨[(name, start.getD [] ++ secret)], []⟩
  | .queryParam name => ⟨[], [(name, secret)]⟩
  | .urlPath _ => ⟨[], []⟩

end Ironclaw.Secrets

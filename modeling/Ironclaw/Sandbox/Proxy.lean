import Ironclaw.Lib.Net
import Ironclaw.Secrets.Credentials

/-!
# The network proxy of a sandbox

A request of a container is decided on by its host (`DefaultPolicyDecider`), and is then forwarded with the credential
of the host or tunnelled. The client that forwards is a reqwest client: what it does with redirects is given by its
policy (`follow`). The answers of the servers are a list, one for each request that is sent.
-/

namespace Ironclaw.Sandbox

open Text Net Secrets

/-! ## The allowlist -/

structure DomainPattern where
  pattern : Str
  isWildcard : Bool
  baseDomain : Str
  deriving DecidableEq

section Policy

variable (cm : CaseMap)

def DomainPattern.new (pattern : Str) : DomainPattern where
  pattern := pattern
  isWildcard := "*.".toList.isPrefixOf pattern
  baseDomain := cm.lower (if "*.".toList.isPrefixOf pattern then pattern.drop 2 else pattern)

/-- `*.example.com` matches the hosts under `example.com` and `example.com` itself. -/
def DomainPattern.accepts (p : DomainPattern) (host : Str) : Bool :=
  let hostLower := cm.lower host
  if p.isWildcard then hostLower == p.baseDomain || ('.' :: p.baseDomain).isSuffixOf hostLower
  else hostLower == p.baseDomain

inductive DomainValidationResult
  | allowed
  | denied (reason : Str)
  deriving DecidableEq

abbrev DomainAllowlist := List DomainPattern

def DomainAllowlist.new (domains : List Str) : DomainAllowlist := domains.map (DomainPattern.new cm)

def DomainAllowlist.isAllowed (allowlist : DomainAllowlist) (host : Str) : DomainValidationResult :=
  if allowlist.isEmpty then .denied "empty allowlist".toList
  else if allowlist.any fun p => p.accepts cm host then .allowed
  else
    .denied ("host '".toList ++ host ++ "' not in allowlist: [".toList ++
      join ", ".toList (allowlist.map DomainPattern.pattern) ++ "]".toList)

/-! ## The policy -/

structure NetworkRequest where
  method : Str
  url : Str
  host : Str
  path : Str
  deriving DecidableEq

/-- A text without the brackets around it. -/
def stripBrackets (host : Str) : Str :=
  if host.head? = some '[' ∧ host.getLast? = some ']' ∧ 2 ≤ host.length then host.tail.dropLast else host

def isHttp (url : Url) : Bool := url.scheme == "http".toList || url.scheme == "https".toList

/-- The request for a URL that was parsed from this text. -/
def NetworkRequest.ofUrl (method text : Str) (parsed : Url) : Option NetworkRequest :=
  if isHttp parsed then
    parsed.hostStr.map fun host =>
      { method := cm.upper method
        url := text
        host := cm.lower (stripBrackets host)
        path := parsed.path }
  else none

def NetworkRequest.fromUrl (urls : UrlParser) (method text : Str) : Option NetworkRequest :=
  match urls.parse text with
  | .error _ => none
  | .ok parsed => NetworkRequest.ofUrl cm method text parsed

inductive NetworkDecision
  | allow
  | allowWithCredentials (secretName : Str) (location : CredentialLocation)
  | deny (reason : Str)
  deriving DecidableEq

def NetworkDecision.isAllowed : NetworkDecision → Bool
  | .deny _ => false
  | _ => true

structure DefaultPolicyDecider where
  allowlist : DomainAllowlist
  credentialMappings : List CredentialMapping

/-- The mapping has a pattern that matches the host; patterns and hosts are compared in lower case. -/
def mappingFor (host : Str) (m : CredentialMapping) : Bool :=
  m.hostPatterns.any fun pattern => hostMatchesPattern (cm.lower host) (cm.lower pattern)

def DefaultPolicyDecider.findCredential (d : DefaultPolicyDecider) (host : Str) : Option CredentialMapping :=
  d.credentialMappings.find? (mappingFor cm host)

def DefaultPolicyDecider.decide (d : DefaultPolicyDecider) (request : NetworkRequest) : NetworkDecision :=
  match d.allowlist.isAllowed cm request.host with
  | .denied reason => .deny reason
  | .allowed =>
    match d.findCredential cm request.host with
    | some mapping => .allowWithCredentials mapping.secretName mapping.location
    | none => .allow

end Policy

/-! ## The client -/

structure Header where
  name : Str
  value : Str
  deriving DecidableEq

/-- A request that is sent to a server. -/
structure Outgoing where
  method : Str
  url : Url
  headers : List Header
  body : List UInt8
  deriving DecidableEq

/-- The answer of a server; the value of a header is there when it is text. -/
structure Upstream where
  status : Nat
  headers : List (Str × Option Str)
  body : Except Str (List UInt8)

/-- The status codes that a client takes for a redirect. -/
def REDIRECTS : List Nat := [301, 302, 303, 307, 308]

/-- The headers that a client removes when the host changes. -/
def SENSITIVE_HEADERS : List Str :=
  ["authorization".toList, "cookie".toList, "cookie2".toList, "proxy-authorization".toList, "www-authenticate".toList]

def isSensitive (name : Str) : Bool := SENSITIVE_HEADERS.any fun s => eqIgnoreAsciiCase name s

def Upstream.header (answer : Upstream) (name : Str) : Option Str :=
  (answer.headers.find? fun h => eqIgnoreAsciiCase h.1 name).bind Prod.snd

/-- The URL that an answer leads to, if it is a redirect to a URL of HTTP. -/
def redirectTarget (urls : UrlParser) (url : Url) (answer : Upstream) : Option Url :=
  if answer.status ∈ REDIRECTS then
    (answer.header "location".toList).bind fun location =>
      match urls.join url location with
      | .error _ => none
      | .ok next => if isHttp next && next.host.isSome then some next else none
  else none

def sameHost (url next : Url) : Bool :=
  url.hostStr == next.hostStr && url.portOrKnownDefault == next.portOrKnownDefault

def REFERER : Str := "referer".toList

def isReferer (name : Str) : Bool := eqIgnoreAsciiCase name REFERER

/-- The text of a URL as a Referer. -/
def refererText (url : Url) : Str := { url with userinfo := [], fragment := none }.asStr

/-- The Referer header of the request for `next` after one for `previous`. From HTTPS to HTTP none is set. -/
def makeReferer (next previous : Url) : Option Header :=
  if next.scheme = "http".toList ∧ previous.scheme = "https".toList then none else some ⟨REFERER, refererText previous⟩

/-- The Referer header is set in place of the one that is there. -/
def insertReferer (headers : List Header) : Option Header → List Header
  | none => headers
  | some referer => headers.filter (fun h => !isReferer h.name) ++ [referer]

/-- The request that follows a redirect: the method becomes GET after 301, 302 and 303, the sensitive headers are
removed when the host changes, and the Referer is the URL before. -/
def Outgoing.redirected (request : Outgoing) (answer : Upstream) (next : Url) : Outgoing where
  method :=
    if answer.status ∈ [307, 308] ∨ request.method = "HEAD".toList then request.method else "GET".toList
  url := next
  headers :=
    insertReferer
      (if sameHost request.url next then request.headers else request.headers.filter fun h => !isSensitive h.name)
      (makeReferer next request.url)
  body := if answer.status ∈ [307, 308] then request.body else []

/-- The requests that a client sends, and the answer it returns. -/
def follow (urls : UrlParser) : (remaining : Nat) → Outgoing → List Upstream → List Outgoing × Except Str Upstream
  | _, request, [] => ([request], .error "error sending request".toList)
  | 0, request, answer :: _ =>
    match redirectTarget urls request.url answer with
    | none => ([request], .ok answer)
    | some _ => ([request], .error "too many redirects".toList)
  | remaining + 1, request, answer :: answers =>
    match redirectTarget urls request.url answer with
    | none => ([request], .ok answer)
    | some next =>
      let rest := follow urls remaining (request.redirected answer next) answers
      (request :: rest.1, rest.2)

/-- A client with a policy sends a request. Without redirects every answer is the last one. -/
def send (urls : UrlParser) (policy : RedirectPolicy) (request : Outgoing) (answers : List Upstream) :
    List Outgoing × Except Str Upstream :=
  match policy with
  | .limited n => follow urls n request answers
  | .none =>
    match answers with
    | [] => ([request], .error "error sending request".toList)
    | answer :: _ => ([request], .ok answer)

/-- The policy of `reqwest::Client::new()`. -/
def DEFAULT_POLICY : RedirectPolicy := .limited 10

/-! ## The proxy -/

/-- The target of a CONNECT request. -/
structure Authority where
  userinfo : Option Str
  host : Str
  port : Option Str
  deriving DecidableEq

/-- The host that `TcpStream::connect` takes from the text of an authority: all that stands before the last colon.
Without a port there is nothing to connect to. -/
def Authority.connectHost (a : Authority) : Option Str :=
  (a.port.bind (parseUnsigned 16)).map fun _ => (a.userinfo.elim [] fun u => u ++ ['@']) ++ a.host

/-- A request of a container; the value of a header is there when it is text. -/
structure IncomingRequest where
  method : Str
  uri : Str
  authority : Option Authority
  headers : List (Str × Option Str)
  body : Except Str (List UInt8)

structure ProxyState where
  decider : DefaultPolicyDecider
  credentialResolver : Str → Option Str
  httpClient : RedirectPolicy

/-- `HttpProxy::new`. -/
def ProxyState.new (decider : DefaultPolicyDecider) (credentialResolver : Str → Option Str) : ProxyState :=
  ⟨decider, credentialResolver, DEFAULT_POLICY⟩

structure ProxyResponse where
  status : Nat
  headers : List (Str × Option Str)
  body : List UInt8

def errorResponse (status : Nat) (message : Str) : ProxyResponse :=
  ⟨status, [("Content-Type".toList, some "text/plain".toList)], utf8Bytes message⟩

/-- What the proxy contacts: the server of a tunnel, or the servers that requests are sent to. -/
inductive Contact
  | tunnel (request : NetworkRequest) (host : Str)
  | forwarded (request : Outgoing)
  deriving DecidableEq

section Proxy

variable (cm : CaseMap) (urls : UrlParser) (validHeader : Str → Str → Bool) (state : ProxyState)

def HOP_BY_HOP : List Str :=
  ["connection".toList, "keep-alive".toList, "proxy-authenticate".toList, "proxy-authorization".toList, "te".toList,
    "trailers".toList, "transfer-encoding".toList, "upgrade".toList]

def isHopByHopHeader (name : Str) : Bool := HOP_BY_HOP.contains (cm.lower name)

/-- The headers of a request that are forwarded. -/
def copiedHeaders (headers : List (Str × Option Str)) : List Header :=
  headers.filterMap fun h => if isHopByHopHeader cm h.1 then none else h.2.map fun v => ⟨h.1, v⟩

/-- The header that is injected for a credential. -/
def injectedHeader (location : CredentialLocation) (credential : Str) : List Header :=
  match location with
  | .authorizationBearer => [⟨"Authorization".toList, "Bearer ".toList ++ credential⟩]
  | .header name start => [⟨name, start.getD [] ++ credential⟩]
  | _ => []

/-- The URL with the credential in its query, if it goes there. -/
def injectedUrl (location : CredentialLocation) (credential : Str) (url : Url) : Url :=
  match location with
  | .queryParam name => url.appendPair urls name credential
  | _ => url

/-- The credential that a decision asks for, with its location, if it is found. -/
def resolvedCredential : NetworkDecision → Option (CredentialLocation × Str)
  | .allowWithCredentials secretName location => (state.credentialResolver secretName).map fun c => (location, c)
  | _ => none

/-- The request that is built for the upstream server. -/
def buildRequest (req : IncomingRequest) (url : Url) (decision : NetworkDecision) (body : List UInt8) : Outgoing :=
  match resolvedCredential state decision with
  | none => ⟨req.method, url, copiedHeaders cm req.headers, body⟩
  | some (location, credential) =>
    ⟨req.method, injectedUrl urls location credential url,
      copiedHeaders cm req.headers ++ injectedHeader location credential, body⟩

/-- The request that is sent for a request of a container; one with a header that is not valid is not sent. -/
def prepare (req : IncomingRequest) (decision : NetworkDecision) : Except ProxyResponse Outgoing :=
  match req.body with
  | .error _ => .error (errorResponse 500 "Failed to read body".toList)
  | .ok body =>
    match urls.parse req.uri with
    | .error e => .error (errorResponse 502 ("Request failed: builder error: ".toList ++ e))
    | .ok url =>
      let request := buildRequest cm urls state req url decision body
      if request.headers.any fun h => !validHeader h.name h.value then
        .error (errorResponse 502 "Request failed: builder error".toList)
      else .ok request

/-- The response that is returned for the answer of a server. -/
def relay : Except Str Upstream → ProxyResponse
  | .error e => errorResponse 502 ("Request failed: ".toList ++ e)
  | .ok answer =>
    match answer.body with
    | .error _ => errorResponse 502 "Failed to read response".toList
    | .ok body => ⟨answer.status, answer.headers.filter fun h => !isHopByHopHeader cm h.1, body⟩

/-- `forward_request`. -/
def forwardRequest (req : IncomingRequest) (decision : NetworkDecision) (answers : List Upstream) :
    List Contact × ProxyResponse :=
  match prepare cm urls validHeader state req decision with
  | .error response => ([], response)
  | .ok request =>
    let sent := send urls state.httpClient request answers
    (sent.1.map .forwarded, relay cm sent.2)

/-- The request that a CONNECT is decided on. -/
def connectRequest (host : Str) : NetworkRequest where
  method := "CONNECT".toList
  url := "https://".toList ++ host
  host := host
  path := "/".toList

/-- `handle_connect`. -/
def handleConnect (req : IncomingRequest) : List Contact × ProxyResponse :=
  match req.authority with
  | none => ([], errorResponse 400 "Missing host".toList)
  | some authority =>
    match state.decider.decide cm (connectRequest authority.host) with
    | .deny reason => ([], errorResponse 403 reason)
    | _ => (authority.connectHost.toList.map (.tunnel (connectRequest authority.host)), ⟨200, [], []⟩)

/-- `handle_request`, for the answers that the servers give. -/
def handleRequest (req : IncomingRequest) (answers : List Upstream) : List Contact × ProxyResponse :=
  if req.method = "CONNECT".toList then handleConnect cm state req
  else
    match NetworkRequest.fromUrl cm urls req.method req.uri with
    | none => ([], errorResponse 400 "Invalid URL".toList)
    | some networkReq =>
      match state.decider.decide cm networkReq with
      | .deny reason => ([], errorResponse 403 reason)
      | decision => forwardRequest cm urls validHeader state req decision answers

end Proxy

end Ironclaw.Sandbox

import Ironclaw.Lib.Hoare
import Ironclaw.Lib.Json
import Ironclaw.Lib.Net
import Ironclaw.Safety.LeakDetector
import Ironclaw.Secrets.Credentials

/-!
# The HTTP tool

`HttpTool::execute`: the URL is validated, its host is resolved and the addresses are checked, a client is pinned to
them, credentials are added, the request is scanned for secrets and sent. A simple GET follows redirects, with the same
checks at every hop. What the call does is kept in a log; the answers of the name servers and of the servers may depend
on all of it (`Network`).
-/

namespace Ironclaw.Tools

open Text Net Hoare Safety Secrets

inductive ToolError
  | invalidParameters (reason : Str)
  | executionFailed (reason : Str)
  | timeout (seconds : Nat)
  | notAuthorized (reason : Str)
  | rateLimited (retryAfter : Option Nat)
  | externalService (reason : Str)
  | sandbox (reason : Str)
  deriving DecidableEq

/-- `require_str`. -/
def requireStr (params : Json) (name : Str) : Except ToolError Str :=
  match (params.get name).bind Json.asStr with
  | some s => .ok s
  | none => .error (.invalidParameters ("missing '".toList ++ name ++ "' parameter".toList))

namespace Http

def MAX_RESPONSE_SIZE : Nat := 5 * 1024 * 1024

def MAX_SAVE_TO_SIZE : Nat := 50 * 1024 * 1024

def DEFAULT_TIMEOUT_SECS : Nat := 30

def MAX_TIMEOUT_SECS : Nat := 300

def MAX_REDIRECTS : Nat := 3

/-! ## Requests and the network -/

inductive Method
  | get
  | post
  | put
  | delete
  | patch
  deriving DecidableEq

/-- A client whose host is pinned to addresses. -/
structure Client where
  host : Str
  resolved : List SocketAddr
  timeout : Nat
  redirectPolicy : RedirectPolicy
  deriving DecidableEq

structure Request where
  method : Method
  url : Url
  headers : List (Str × Str)
  body : Option Str
  timeout : Nat
  deriving DecidableEq

/-- The value of a header is there when it is text; the body comes in chunks. -/
structure Response where
  status : Nat
  headers : List (Str × Option Str)
  chunks : List (Except Str (List UInt8))

inductive SendError
  | timeout
  | other (reason : Str)

/-- What a call does: a check of an address, with the answer of `is_disallowed_ip`, and a request that is sent. -/
inductive Event
  | checked (ip : IpAddr) (disallowed : Bool)
  | sent (client : Client) (request : Request)
  deriving DecidableEq

/-- The events of a call, the last one first. -/
abbrev Log := List Event

/-- Where a client connects for a URL: to the address of the URL, else to the addresses that the host is pinned to. A
client looks up any other host by itself, and with another policy it follows redirects by itself. -/
inductive Client.Connects (client : Client) (url : Url) : IpAddr → Prop
  | literal {host : Host} {ip : IpAddr} (hhost : url.host = some host) (hlit : host.literal = some ip) :
      Connects client url ip
  | pinned {host : Host} {addr : SocketAddr} (hhost : url.host = some host) (hlit : host.literal = none)
      (hstr : host.str = client.host) (hmem : addr ∈ client.resolved) : Connects client url addr.ip
  | lookup {host : Host} (ip : IpAddr) (hhost : url.host = some host) (hlit : host.literal = none)
      (hstr : host.str ≠ client.host) : Connects client url ip
  | redirected (ip : IpAddr) (hpolicy : client.redirectPolicy ≠ .none) : Connects client url ip

structure HttpExchangeRequest where
  method : Str
  url : Str
  headers : List (Str × Str)
  body : Option Str

structure HttpExchangeResponse where
  status : Nat
  headers : List (Str × Str)
  body : Str

/-- The world outside of the call. -/
structure Network where
  urls : UrlParser
  json : JsonText
  case : CaseMap
  isWord : Char → Bool
  dns : Log → (host : Str) → (port : Nat) → Except Str (List SocketAddr)
  buildError : Client → Option Str
  serve : Log → Client → Request → Except SendError Response
  /-- `String::from_utf8_lossy`. -/
  lossy : List UInt8 → Str
  /-- The conversion of a page at a URL, when it is built in. -/
  htmlToMarkdown : Option (Str → Str → Except Str Str)
  /-- Writes a file after its path was validated. -/
  saveFile : Str → List UInt8 → Except ToolError Unit

/-- `HttpTool`: the registered credentials and the store of the secrets. -/
structure HttpTool where
  credentialRegistry : Option (List CredentialMapping)
  secretsStore : Option ((userId secretName : Str) → Except Str Str)

structure JobContext where
  userId : Str
  httpInterceptor : Option (HttpExchangeRequest → Option HttpExchangeResponse)

structure ToolOutput where
  result : Json
  raw : Option Str

/-- A computation of the tool. -/
abbrev Exec (α : Type) := Prog ToolError Log α

/-! ## Addresses and URLs -/

def isDisallowedIpv4 (v4 : Ipv4Addr) : Bool :=
  v4.isPrivate || v4.isLoopback || v4.isLinkLocal || v4.isMulticast || v4.isUnspecified ||
    v4 == ⟨169, 254, 169, 254⟩ || (v4.a == 100 && v4.b &&& 0xC0 == 64)

def isDisallowedIp : IpAddr → Bool
  | .v4 v4 => isDisallowedIpv4 v4
  | .v6 v6 =>
    v6.toIpv4Mapped.any isDisallowedIpv4 || v6.isLoopback || v6.isUniqueLocal || v6.isUnicastLinkLocal ||
      v6.isMulticast || v6.isUnspecified

section Execute

variable (net : Network)

/-- `url.host_str().ok_or_else(..)`. -/
def requireHost (url : Url) : Except ToolError Host :=
  match url.host with
  | none => .error (.invalidParameters "URL missing host".toList)
  | some host => .ok host

def validateUrl (url : Str) : Except ToolError Url :=
  match net.urls.parse url with
  | .error e => .error (.invalidParameters ("invalid URL: ".toList ++ e))
  | .ok parsed =>
    if parsed.scheme ≠ "https".toList then .error (.notAuthorized "only https URLs are allowed".toList)
    else
      match requireHost parsed with
      | .error e => .error e
      | .ok host =>
        let hostLower := net.case.lower host.str
        if hostLower = "localhost".toList ∨ ".localhost".toList <:+ hostLower then
          .error (.notAuthorized "localhost is not allowed".toList)
        else if host.parseIp.any isDisallowedIp then
          .error (.notAuthorized "private or local IPs are not allowed".toList)
        else .ok parsed

/-- `tokio::net::lookup_host` for `host:port`: the text of an address and a port is not looked up. -/
def lookupHost (log : Log) (host : Host) (port : Nat) : Except Str (List SocketAddr) :=
  match host.literal with
  | some ip => .ok [⟨ip, port⟩]
  | none => net.dns log host.str port

/-- The check of the addresses that a host resolves to, up to the first one that is not allowed. -/
def checkAddrs (host : Str) : List SocketAddr → Exec Unit
  | [] => pure ()
  | addr :: addrs => do
    writes (Event.checked addr.ip (isDisallowedIp addr.ip) :: ·)
    if isDisallowedIp addr.ip then
      throw (.notAuthorized
        ("hostname '".toList ++ host ++ "' resolves to disallowed IP ".toList ++ addr.ip.toText))
    else checkAddrs host addrs

def validateAndResolveUrl (url : Url) : Exec (List SocketAddr) := do
  let host ← requireHost url
  let answer ← reads fun log => lookupHost net log host (url.portOrKnownDefault.getD 443)
  let addrs ← answer.mapError fun e =>
    ToolError.externalService ("DNS resolution failed for '".toList ++ host.str ++ "': ".toList ++ e)
  if addrs.isEmpty then
    throw (.externalService ("DNS resolution for '".toList ++ host.str ++ "' returned no addresses".toList))
  else do
    checkAddrs host.str addrs
    pure addrs

def buildPinnedClient (host : Str) (resolved : List SocketAddr) (timeout : Nat) (redirectPolicy : RedirectPolicy) :
    Except ToolError Client :=
  let client : Client := ⟨host, resolved, timeout, redirectPolicy⟩
  match net.buildError client with
  | some e => .error (.externalService ("failed to build HTTP client: ".toList ++ e))
  | none => .ok client

/-! ## Parameters -/

/-- The entries of an object of headers. -/
def parseHeaderObject : List (Str × Json) → Except ToolError (List (Str × Str))
  | [] => .ok []
  | (k, v) :: kvs => do
    match v.asStr with
    | none => .error (.invalidParameters ("header '".toList ++ k ++ "' must have a string value".toList))
    | some value => return (k, value) :: (← parseHeaderObject kvs)

/-- `headers[idx]` and the text that follows it in a message. -/
def headerItem (idx : Nat) (rest : String) : ToolError :=
  .invalidParameters ("headers[".toList ++ (Nat.repr idx).toList ++ "]".toList ++ rest.toList)

/-- The items of an array of headers from an index on. -/
def parseHeaderArray : Nat → List Json → Except ToolError (List (Str × Str))
  | _, [] => .ok []
  | idx, item :: items => do
    match item with
    | .obj _ =>
      match (item.get "name".toList).bind Json.asStr with
      | none => .error (headerItem idx ".name must be a string")
      | some name =>
        match (item.get "value".toList).bind Json.asStr with
        | none => .error (headerItem idx ".value must be a string")
        | some value => return (name, value) :: (← parseHeaderArray (idx + 1) items)
    | _ => .error (headerItem idx " must be an object with 'name' and 'value'")

def parseHeadersParam : Option Json → Except ToolError (List (Str × Str))
  | none => .ok []
  | some (.str raw) =>
    if (trim raw).isEmpty then .ok []
    else
      match net.json.parse (trim raw) with
      | .error e =>
        .error (.invalidParameters ("headers string must contain valid JSON object/array: ".toList ++ e))
      | .ok (.obj kvs) => parseHeaderObject kvs
      | .ok (.arr items) => parseHeaderArray 0 items
      | .ok _ => .error (.invalidParameters "headers string must decode to a JSON object or array".toList)
  | some (.obj kvs) => parseHeaderObject kvs
  | some (.arr items) => parseHeaderArray 0 items
  | some _ =>
    .error (.invalidParameters "'headers' must be an object or an array of \x7bname, value\x7d".toList)

def parseTimeoutSecsParam (timeout : Option Json) : Except ToolError (Option Nat) := do
  let parsed : Option Nat ←
    match timeout with
    | none => pure none
    | some .null => pure none
    | some (.num (.int n)) =>
      if 0 ≤ n ∧ n < 2 ^ 64 then pure (some n.toNat)
      else throw (.invalidParameters "timeout_secs must be a non-negative integer".toList)
    | some (.num (.float _)) => throw (.invalidParameters "timeout_secs must be a non-negative integer".toList)
    | some (.str raw) =>
      if (trim raw).isEmpty then pure none
      else
        match parseUnsigned 64 (trim raw) with
        | some secs => pure (some secs)
        | none => throw (.invalidParameters "timeout_secs string must contain a non-negative integer".toList)
    | some _ => throw (.invalidParameters "timeout_secs must be an integer".toList)
  if parsed.any (MAX_TIMEOUT_SECS < ·) then
    throw (.invalidParameters ("timeout_secs must be <= ".toList ++ (Nat.repr MAX_TIMEOUT_SECS).toList))
  else pure parsed

def parseSaveToParam : Option Json → Except ToolError (Option Str)
  | none => .ok none
  | some .null => .ok none
  | some (.str path) => .ok (if (trim path).isEmpty then none else some (trim path))
  | some _ => .error (.invalidParameters "save_to must be a string".toList)

/-- `params["method"].as_str().unwrap_or("GET")`. -/
def methodParam (params : Json) : Str := ((params.get "method".toList).bind Json.asStr).getD "GET".toList

/-- The method of the request that is built. -/
def parseMethod (method : Str) : Except ToolError Method :=
  let upper := net.case.upper method
  if upper = "GET".toList then .ok .get
  else if upper = "POST".toList then .ok .post
  else if upper = "PUT".toList then .ok .put
  else if upper = "DELETE".toList then .ok .delete
  else if upper = "PATCH".toList then .ok .patch
  else .error (.invalidParameters ("unsupported method: ".toList ++ method))

/-- The body of a request, and whether it is sent as JSON. -/
def bodyParam : Option Json → Option (Str × Bool)
  | none => none
  | some (.str text) =>
    if text.isEmpty then none
    else
      match net.json.parse text with
      | .ok json => some (net.json.print json, true)
      | .error _ => some (text, false)
  | some body => some (net.json.print body, true)

/-- `RequestBuilder::json` adds the type of the body when no header gives it. -/
def contentType (headers : List (Str × Str)) (isJson : Bool) : List (Str × Str) :=
  if isJson && !headers.any (fun h => eqIgnoreAsciiCase h.1 "content-type".toList) then
    [("content-type".toList, "application/json".toList)]
  else []

/-! ## Credentials -/

/-- The credentials that are found for a host, in the order of their mappings. A secret that is not found is left
out. -/
def injectedFor (tool : HttpTool) (ctx : JobContext) (host : Str) : List InjectedCredentials :=
  match tool.credentialRegistry, tool.secretsStore with
  | some registry, some store =>
    (findForHost registry host).filterMap fun mapping =>
      match store ctx.userId mapping.secretName with
      | .ok secret => some (injectCredential mapping.location secret)
      | .error _ => none
  | _, _ => []

/-- The headers that are injected. -/
def injectedHeaders (tool : HttpTool) (ctx : JobContext) (host : Str) : List (Str × Str) :=
  (injectedFor tool ctx host).flatMap InjectedCredentials.headers

/-- The URL with the injected query parameters. -/
def withQueryParams (tool : HttpTool) (ctx : JobContext) (host : Str) (url : Url) : Url :=
  ((injectedFor tool ctx host).flatMap InjectedCredentials.queryParams).foldl
    (fun url pair => url.appendPair net.urls pair.1 pair.2) url

/-! ## Requests -/

/-- The request is sent, and the server answers. -/
def send (client : Client) (request : Request) (effectiveTimeout : Nat) : Exec Response := do
  let answer ← reads fun log => net.serve log client request
  writes (Event.sent client request :: ·)
  match answer with
  | .ok response => pure response
  | .error .timeout => throw (.timeout effectiveTimeout)
  | .error (.other e) => throw (.externalService e)

def isRedirect (status : Nat) : Bool := 300 ≤ status && status < 400

def ACCEPT : Str × Str :=
  ("accept".toList, "text/markdown, text/html;q=0.9, application/json;q=0.9, */*;q=0.8".toList)

/-- The value of the first header of this name, if it is text. -/
def Response.header (response : Response) (name : Str) : Option Str :=
  (response.headers.find? fun h => h.1 = name).bind Prod.snd

/-- The URL that a redirect leads to. -/
def nextUrl (url : Url) (response : Response) : Except ToolError Url := do
  match response.header "location".toList with
  | none =>
    .error (.executionFailed
      ("redirect (HTTP ".toList ++ (Nat.repr response.status).toList ++ ") has no Location header".toList))
  | some location =>
    let next : Str ←
      if "http://".toList.isPrefixOf location || "https://".toList.isPrefixOf location then pure location
      else
        match net.urls.join url location with
        | .ok joined => pure joined.asStr
        | .error e =>
          throw (.executionFailed
            ("could not resolve relative redirect '".toList ++ location ++ "': ".toList ++ e))
    validateUrl net next

/-- The scan of a request for secrets. -/
def scanRequest (url : Url) (headers : List (Str × Str)) (body : Option Str) : Except ToolError Unit :=
  (LeakDetector.new.scanHttpRequest net.isWord url.asStr headers body).mapError fun e => .notAuthorized e.toText

/-- The client of one hop and the answer to its request. -/
def hop (effectiveTimeout : Nat) (url : Url) : Exec Response := do
  let addrs ← validateAndResolveUrl net url
  let host ← requireHost url
  let client ← buildPinnedClient net host.str addrs effectiveTimeout .none
  send net client ⟨.get, url, [ACCEPT], none, effectiveTimeout⟩ effectiveTimeout

/-- The redirect loop of a simple GET, with the redirects that remain. -/
def followRedirects (effectiveTimeout : Nat) : (remaining : Nat) → Url → Exec (Url × Response)
  | 0, url => do
    let response ← hop net effectiveTimeout url
    if isRedirect response.status then
      throw (.executionFailed ("too many redirects (max ".toList ++ (Nat.repr MAX_REDIRECTS).toList ++ ")".toList))
    else pure (url, response)
  | remaining + 1, url => do
    let response ← hop net effectiveTimeout url
    if isRedirect response.status then do
      let next ← nextUrl net url response
      scanRequest net next [] none
      followRedirects effectiveTimeout remaining next
    else pure (url, response)

/-- A request that is not a simple GET follows no redirect. -/
def sendOnce (client : Client) (request : Request) (effectiveTimeout : Nat) : Exec Response := do
  let response ← send net client request effectiveTimeout
  if isRedirect response.status then
    throw (.notAuthorized
      ("request returned redirect (HTTP ".toList ++ (Nat.repr response.status).toList ++
        "), which is blocked to prevent SSRF".toList))
  else pure response

/-! ## The answer -/

/-- The body, unless it is larger than allowed. -/
def readBody (maxSize : Nat) : (body : List UInt8) → List (Except Str (List UInt8)) → Except ToolError (List UInt8)
  | body, [] => .ok body
  | _, .error e :: _ => .error (.externalService ("failed to read response body: ".toList ++ e))
  | body, .ok chunk :: chunks =>
    if maxSize < body.length + chunk.length then
      .error (.executionFailed
        ("Response body exceeds maximum allowed size (".toList ++ (Nat.repr maxSize).toList ++ " bytes)".toList))
    else readBody maxSize (body ++ chunk) chunks

/-- The check of the announced length. -/
def checkContentLength (maxSize : Nat) (response : Response) : Except ToolError Unit :=
  match (response.header "content-length".toList).bind (parseUnsigned 64) with
  | none => .ok ()
  | some len =>
    if maxSize < len then
      .error (.executionFailed
        ("Response Content-Length (".toList ++ (Nat.repr len).toList ++
          " bytes) exceeds maximum allowed size (".toList ++
          (Nat.repr maxSize).toList ++ " bytes)".toList))
    else .ok ()

/-- The headers of a response as a map; a value that is not text is left out. -/
def headerMap (headers : List (Str × Option Str)) : List (Str × Json) :=
  headers.foldl (fun kvs h => h.2.elim kvs fun v => Json.insertEntry h.1 (.str v) kvs) []

def isHtmlResponse (headers : List (Str × Json)) : Bool :=
  ((headers.find? fun h => eqIgnoreAsciiCase h.1 "content-type".toList).bind fun h => h.2.asStr).any fun v =>
    (find "text/html".toList (net.case.lower v)).isSome

/-- JSON when it parses, else the text. -/
def bodyJson (text : Str) : Json :=
  match net.json.parse text with
  | .ok json => json
  | .error _ => .str text

/-- What the tool returns for a response. -/
def readResponse (saveTo : Option Str) (url : Url) (response : Response) : Except ToolError ToolOutput := do
  let maxSize := if saveTo.isSome then MAX_SAVE_TO_SIZE else MAX_RESPONSE_SIZE
  checkContentLength maxSize response
  let bytes ← readBody maxSize [] response.chunks
  let status : Json := .num (.int response.status)
  let headers : Json := .obj (headerMap response.headers)
  match saveTo with
  | some path =>
    net.saveFile path bytes
    return ⟨.obj [("status".toList, status), ("saved_to".toList, .str path),
      ("size_bytes".toList, .num (.int bytes.length)), ("headers".toList, headers)], none⟩
  | none =>
    let raw := net.lossy bytes
    let text :=
      match net.htmlToMarkdown with
      | none => raw
      | some convert =>
        if isHtmlResponse net (headerMap response.headers) then
          match convert raw url.asStr with
          | .ok md => md
          | .error _ => raw
        else raw
    return ⟨.obj [("status".toList, status), ("headers".toList, headers), ("body".toList, bodyJson net text)],
      some text⟩

/-- The answer of an interceptor that replays a recorded exchange. -/
def replayed (recorded : HttpExchangeResponse) : ToolOutput :=
  ⟨.obj [("status".toList, .num (.int recorded.status)),
    ("headers".toList, .obj (headerMap (recorded.headers.map fun h => (h.1, some h.2)))),
    ("body".toList, bodyJson net recorded.body)], some recorded.body⟩

/-! ## `execute` -/

/-- `is_simple_get`. -/
def isSimpleGet (method : Str) (headers : List (Str × Str)) (body : Option (Str × Bool)) : Bool :=
  eqIgnoreAsciiCase method "GET".toList && headers.isEmpty && body.isNone

/-- The URL at the end, and the response. -/
def fetch (method : Str) (client : Client) (request : Request) (headers : List (Str × Str))
    (body : Option (Str × Bool)) (effectiveTimeout : Nat) : Exec (Url × Response) := do
  if isSimpleGet method headers body then followRedirects net effectiveTimeout MAX_REDIRECTS request.url
  else
    let response ← sendOnce net client request effectiveTimeout
    pure (request.url, response)

def execute (tool : HttpTool) (params : Json) (ctx : JobContext) : Exec ToolOutput := do
  let method := methodParam params
  let url ← requireStr params "url".toList
  let parsed ← validateUrl net url
  let resolved ← validateAndResolveUrl net parsed
  let host ← requireHost parsed
  let client ← buildPinnedClient net host.str resolved 30 .none
  let ownHeaders ← parseHeadersParam net (params.get "headers".toList)
  let timeoutSecs ← parseTimeoutSecsParam (params.get "timeout_secs".toList)
  let saveTo ← parseSaveToParam (params.get "save_to".toList)
  let effectiveTimeout := timeoutSecs.getD DEFAULT_TIMEOUT_SECS
  let verb ← parseMethod net method
  let body := bodyParam net (params.get "body".toList)
  let headers := ownHeaders ++ injectedHeaders tool ctx host.str
  let target := withQueryParams net tool ctx host.str parsed
  scanRequest net target headers (body.map Prod.fst)
  match ctx.httpInterceptor.bind fun before =>
      before ⟨net.case.upper method, target.asStr, headers, body.map Prod.fst⟩ with
  | some recorded => pure (replayed net recorded)
  | none =>
    let sentHeaders := ownHeaders ++ contentType ownHeaders (body.any Prod.snd) ++ injectedHeaders tool ctx host.str
    let request : Request := ⟨verb, target, sentHeaders, body.map Prod.fst, effectiveTimeout⟩
    let answer ← fetch net method client request headers body effectiveTimeout
    readResponse net saveTo answer.1 answer.2

end Execute

end Http

end Ironclaw.Tools

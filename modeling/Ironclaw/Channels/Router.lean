import Ironclaw.Lib.Json
import Ironclaw.Lib.Text

/-!
# The router of WASM channels

Channels are found by the path of a request. What they need to be authenticated is kept in four further maps: the shared
secrets, the headers that carry them, the Ed25519 keys and the HMAC secrets. A map is a function; the channels are of
any type with names, and the verification of signatures is a parameter (`Crypto`).
-/

namespace Ironclaw.Channels

open Text

structure RegisteredEndpoint where
  channelName : Str
  path : Str
  methods : List Str
  requireSecret : Bool
  deriving DecidableEq

/-- `WasmChannelRouter`. -/
structure WasmChannelRouter (Ch : Type) where
  channels : Str → Option Ch
  pathToChannel : Str → Option Str
  secrets : Str → Option Str
  secretHeaders : Str → Option Str
  signatureKeys : Str → Option Str
  hmacSecrets : Str → Option Str

/-- The checks of the cryptographic libraries: keys, and signatures at a time in seconds. -/
structure Crypto where
  checkKey : (publicKeyHex : Str) → Except Str Unit
  verifyDiscordSignature : (publicKeyHex sig timestamp : Str) → (body : List UInt8) → (now : Int) → Bool
  verifySlackSignature : (secret timestamp : Str) → (body : List UInt8) → (sig : Str) → (now : Int) → Bool

variable {Ch : Type}

namespace WasmChannelRouter

def new : WasmChannelRouter Ch where
  channels _ := none
  pathToChannel _ := none
  secrets _ := none
  secretHeaders _ := none
  signatureKeys _ := none
  hmacSecrets _ := none

/-- An optional value is stored. -/
def insertOpt {V : Type} (m : Str → Option V) (key : Str) : Option V → Str → Option V
  | none => m
  | some v => Function.update m key (some v)

variable (channelName : Ch → Str) (r : WasmChannelRouter Ch)

def register (channel : Ch) (endpoints : List RegisteredEndpoint) (secret secretHeader : Option Str) :
    WasmChannelRouter Ch :=
  let name := channelName channel
  { r with
    channels := Function.update r.channels name (some channel)
    pathToChannel := endpoints.foldl (fun m e => Function.update m e.path (some name)) r.pathToChannel
    secrets := insertOpt r.secrets name secret
    secretHeaders := insertOpt r.secretHeaders name secretHeader }

def X_WEBHOOK_SECRET : Str := "X-Webhook-Secret".toList

def getSecretHeader (name : Str) : Str := (r.secretHeaders name).getD X_WEBHOOK_SECRET

def updateSecret (name secret : Str) : WasmChannelRouter Ch :=
  { r with secrets := Function.update r.secrets name (some secret) }

def unregister (name : Str) : WasmChannelRouter Ch where
  channels := Function.update r.channels name none
  secrets := Function.update r.secrets name none
  secretHeaders := Function.update r.secretHeaders name none
  signatureKeys := Function.update r.signatureKeys name none
  hmacSecrets := Function.update r.hmacSecrets name none
  pathToChannel path := (r.pathToChannel path).filter fun n => n ≠ name

def getChannelForPath (path : Str) : Option Ch := (r.pathToChannel path).bind r.channels

def validateSecret (name provided : Str) : Bool :=
  match r.secrets name with
  | some expected => expected == provided
  | none => true

def requiresSecret (name : Str) : Bool := (r.secrets name).isSome

/-- A key that is not valid is not stored. -/
def registerSignatureKey (crypto : Crypto) (name publicKeyHex : Str) : WasmChannelRouter Ch × Except Str Unit :=
  match crypto.checkKey publicKeyHex with
  | .error e => (r, .error e)
  | .ok () => ({ r with signatureKeys := Function.update r.signatureKeys name (some publicKeyHex) }, .ok ())

def registerHmacSecret (name secret : Str) : WasmChannelRouter Ch :=
  { r with hmacSecrets := Function.update r.hmacSecrets name (some secret) }

end WasmChannelRouter

/-! ## Requests -/

/-- A request below `/webhook/`. Header names are in lower case; a value that is no text is `none`. -/
structure WebhookRequest where
  method : Str
  path : Str
  query : Str → Option Str
  headers : List (Str × Option Str)
  body : List UInt8
  now : Int

namespace WebhookRequest

def fullPath (req : WebhookRequest) : Str := "/webhook/".toList ++ req.path

/-- The first value of a header, if it is a text. -/
def header (req : WebhookRequest) (name : Str) : Option Str :=
  (req.headers.find? fun h => h.1 = name.map asciiLower).bind Prod.snd

/-- The headers for the channel: the last text value of each name. -/
def headersMap (req : WebhookRequest) (name : Str) : Option Str :=
  (req.headers.filterMap fun h => if h.1 = name then h.2 else none).getLast?

end WebhookRequest

/-- What a channel is called with. -/
structure ChannelCall (Ch : Type) where
  channel : Ch
  method : Str
  path : Str
  headers : Str → Option Str
  query : Str → Option Str
  body : List UInt8
  secretValidated : Bool

/-- The status and the body of a response. -/
structure Reply where
  status : Nat
  body : Json
  deriving DecidableEq

def Reply.fail (status : Nat) (error : String) : Reply := ⟨status, .obj [("error".toList, .str error.toList)]⟩

def X_SIGNATURE_ED25519 : Str := "x-signature-ed25519".toList
def X_SIGNATURE_TIMESTAMP : Str := "x-signature-timestamp".toList
def X_SLACK_REQUEST_TIMESTAMP : Str := "x-slack-request-timestamp".toList
def X_SLACK_SIGNATURE : Str := "x-slack-signature".toList

section Handler

variable (crypto : Crypto) (r : WasmChannelRouter Ch) (name : Str) (req : WebhookRequest)

/-- The secret of a request: from the query, from the configured header, or from the generic one. -/
def providedSecret : Option Str :=
  let secretHeader := r.getSecretHeader name
  ((req.query "secret".toList).or (req.header secretHeader)).or
    (if secretHeader ≠ WasmChannelRouter.X_WEBHOOK_SECRET then req.header WasmChannelRouter.X_WEBHOOK_SECRET else none)

/-- The check of the shared secret; the result says whether there was one to pass. -/
def checkSecret : Except Reply Bool :=
  if r.requiresSecret name then
    match providedSecret r name req with
    | some secret => if r.validateSecret name secret then .ok true else .error (.fail 401 "Invalid webhook secret")
    | none => .error (.fail 401 "Webhook secret required")
  else .ok false

/-- The check of the Ed25519 signature. -/
def checkEd25519 : Except Reply Bool :=
  match r.signatureKeys name with
  | none => .ok false
  | some key =>
    match req.header X_SIGNATURE_ED25519, req.header X_SIGNATURE_TIMESTAMP with
    | some sig, some ts =>
      if crypto.verifyDiscordSignature key sig ts req.body req.now then .ok true
      else .error (.fail 401 "Invalid signature")
    | _, _ => .error (.fail 401 "Missing signature headers")

/-- The check of the HMAC signature. -/
def checkHmac : Except Reply Bool :=
  match r.hmacSecrets name with
  | none => .ok false
  | some secret =>
    match req.header X_SLACK_REQUEST_TIMESTAMP, req.header X_SLACK_SIGNATURE with
    | some ts, some sig =>
      if crypto.verifySlackSignature secret ts req.body sig req.now then .ok true
      else .error (.fail 401 "Invalid Slack signature")
    | _, _ => .error (.fail 401 "Missing Slack signature headers")

/-- `webhook_handler` up to the call: a reply without a call, or the call. -/
def webhookHandler (channelName : Ch → Str) (r : WasmChannelRouter Ch) (req : WebhookRequest) :
    Except Reply (ChannelCall Ch) :=
  match r.getChannelForPath req.fullPath with
  | none =>
    .error ⟨404, .obj [("error".toList, .str "Channel not found for path".toList), ("path".toList, .str req.fullPath)]⟩
  | some channel => do
    let bySecret ← checkSecret r (channelName channel) req
    let byEd25519 ← checkEd25519 crypto r (channelName channel) req
    let byHmac ← checkHmac crypto r (channelName channel) req
    .ok
      { channel := channel
        method := req.method
        path := req.fullPath
        headers := req.headersMap
        query := req.query
        body := req.body
        secretValidated := bySecret || byEd25519 || byHmac }

end Handler

end Ironclaw.Channels

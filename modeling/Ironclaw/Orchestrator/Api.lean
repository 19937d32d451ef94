import Ironclaw.Lib.Json
import Ironclaw.Lib.Run
import Ironclaw.Lib.Table
import Ironclaw.Orchestrator.JobManager

/-!
# The internal API

The requests of the workers in their containers: each names a job in its path and carries a bearer token, which the
middleware compares with the token of the job. An accepted request is handled later; events of a job are broadcast,
prompts for it are handed out, and its granted secrets are served. Tokens and grants come and go with the containers, at
any time.

- `handle_cases`: what one step of a handler does;
- `requests_authenticated`: each event and each answer is that of a request in flight which had the token of its job;
- `prompts_delivered`: the prompts of a job are handed out in their order, each once;
- `credentials_granted`: the secrets that are served were granted to the job, and the grant was not revoked.
-/

namespace Ironclaw.Orchestrator.Api

open Text Run

/-! ## Tokens -/

/-- Ids of jobs as texts, and the decoding of a part of a path. A text that is read as an id has nothing that is
encoded. -/
structure UuidText where
  parse : Str → Option Nat
  display : Nat → Str
  decode : Str → Str
  decode_plain : ∀ {s id}, parse s = some id → decode s = s

/-- `TokenStore`: the tokens and the grants, each behind a lock of its own. -/
structure TokenStore where
  tokens : Table Nat Str
  credentialGrants : Table Nat (List CredentialGrant)

namespace TokenStore

def new : TokenStore := ⟨∅, ∅⟩

variable (store : TokenStore) (jobId : Nat)

/-- `create_token`, with the token that is generated. -/
def createToken (token : Str) : TokenStore := { store with tokens := store.tokens.insert jobId token }

def validate (token : Str) : Bool :=
  match store.tokens.lookup jobId with
  | some stored => stored = token
  | none => false

/-- The two halves of `revoke`. -/
def revokeToken : TokenStore := { store with tokens := store.tokens.erase jobId }

def revokeGrants : TokenStore := { store with credentialGrants := store.credentialGrants.erase jobId }

def storeGrants (grants : List CredentialGrant) : TokenStore :=
  if grants.isEmpty then store else { store with credentialGrants := store.credentialGrants.insert jobId grants }

def getGrants : Option (List CredentialGrant) := store.credentialGrants.lookup jobId

end TokenStore

inductive StatusCode
  | ok
  | noContent
  | badRequest
  | unauthorized
  | notFound
  | methodNotAllowed
  | internalServerError
  | serviceUnavailable
  deriving DecidableEq

section Auth

variable (uuid : UuidText)

/-- `extract_job_id_from_path` -/
def extractJobIdFromPath (path : Str) : Option Nat :=
  match (path.dropWhile (· = '/')).splitOn '/' with
  | first :: second :: _ => if first = "worker".toList then uuid.parse second else none
  | _ => none

def BEARER : Str := "Bearer ".toList

/-- `worker_auth_middleware`: the job of the path, if the token is its token. -/
def workerAuthMiddleware (store : TokenStore) (path : Str) (authorization : Option Str) : Except StatusCode Nat :=
  match extractJobIdFromPath uuid path with
  | none => .error .badRequest
  | some jobId =>
    match authorization.bind (stripStart BEARER) with
    | none => .error .unauthorized
    | some token => if store.validate jobId token then .ok jobId else .error .unauthorized

end Auth

/-! ## Requests -/

/-- The handlers of the routes under `/worker/{job_id}/`. -/
inductive Route
  | getJob
  | llmComplete
  | llmCompleteWithTools
  | reportStatus
  | reportComplete
  | jobEvent
  | getPrompt
  | getCredentials
  deriving DecidableEq

def ROUTES : List (List Str × Route) :=
  [(["job".toList], .getJob), (["llm".toList, "complete".toList], .llmComplete),
    (["llm".toList, "complete_with_tools".toList], .llmCompleteWithTools), (["status".toList], .reportStatus),
    (["complete".toList], .reportComplete), (["event".toList], .jobEvent), (["prompt".toList], .getPrompt),
    (["credentials".toList], .getCredentials)]

inductive Method
  | get
  | post
  deriving DecidableEq

def Route.method : Route → Method
  | .getJob | .getPrompt | .getCredentials => .get
  | _ => .post

/-- The route of a path, and the part of the path for the job. -/
def routeOf (path : Str) : Option (Route × Str) :=
  match path.splitOn '/' with
  | [] :: first :: segment :: rest =>
    if first = "worker".toList ∧ segment ≠ [] then (ROUTES.lookup rest).map fun route => (route, segment) else none
  | _ => none

structure JobEventPayload where
  eventType : Str
  data : Json

/-- A request; the payload is there when the body is one. -/
structure Request where
  method : Method
  path : Str
  authorization : Option Str
  payload : Option JobEventPayload

structure PendingPrompt where
  content : Str
  done : Bool
  deriving DecidableEq

structure ToolDecisionDto where
  toolName : Str
  rationale : Str
  deriving DecidableEq

/-- `AppEvent`, the events of jobs. -/
inductive AppEvent
  | jobMessage (jobId role content : Str)
  | jobToolUse (jobId toolName : Str) (input : Json)
  | jobToolResult (jobId toolName output : Str)
  | jobResult (jobId status : Str) (sessionId : Option Str) (fallbackDeliverable : Option Json)
  | jobReasoning (jobId narrative : Str) (decisions : List ToolDecisionDto)
  | jobStatus (jobId message : Str)

/-- `ToolDecisionDto::from_json_array` -/
def ToolDecisionDto.fromJsonArray : Option Json → List ToolDecisionDto
  | some (.arr ds) => ds.filterMap fun d =>
    ((d.get "tool_name".toList).bind Json.asStr).bind fun toolName =>
      ((d.get "rationale".toList).bind Json.asStr).map fun rationale => ⟨toolName, rationale⟩
  | _ => []

/-- A text of the payload, or what stands for it. -/
def JobEventPayload.text (payload : JobEventPayload) (key default : String) : Str :=
  ((payload.data.get key.toList).bind Json.asStr).getD default.toList

/-- The event of a payload, in `job_event_handler`. -/
def appEvent (jobId : Str) (payload : JobEventPayload) : AppEvent :=
  if payload.eventType = "message".toList then
    .jobMessage jobId (payload.text "role" "assistant") (payload.text "content" "")
  else if payload.eventType = "tool_use".toList then
    .jobToolUse jobId (payload.text "tool_name" "unknown") ((payload.data.get "input".toList).getD .null)
  else if payload.eventType = "tool_result".toList then
    .jobToolResult jobId (payload.text "tool_name" "unknown") (payload.text "output" "")
  else if payload.eventType = "result".toList then
    .jobResult jobId (payload.text "status" "unknown") ((payload.data.get "session_id".toList).bind Json.asStr)
      (payload.data.get "fallback_deliverable".toList)
  else if payload.eventType = "reasoning".toList then
    .jobReasoning jobId (payload.text "narrative" "")
      (ToolDecisionDto.fromJsonArray (payload.data.get "decisions".toList))
  else .jobStatus jobId (payload.text "message" "")

/-! ## The machine -/

/-- What a worker is answered. -/
inductive Answer
  | prompt (prompt : PendingPrompt)
  | credentials (values : List (Str × Str))
  | status (code : StatusCode)

/-- An accepted request, with the number of requests that came before it; the owner of the job, once it was looked
up. -/
structure InFlight where
  number : Nat
  request : Request
  owner : Option Str

/-- `OrchestratorState`, with the events that were broadcast, the accepted requests, the answers that were given, and
how many requests came. -/
structure OrchestratorState where
  tokenStore : TokenStore
  promptQueue : Table Nat (List PendingPrompt)
  jobOwnerCache : Table Nat Str
  sent : List (Nat × Str × AppEvent)
  inFlight : List InFlight
  answers : List (Nat × Answer)
  received : Nat

namespace OrchestratorState

def new : OrchestratorState := ⟨.new, ∅, ∅, [], [], [], 0⟩

variable (uuid : UuidText) (s : OrchestratorState)

/-- A request arrives: its route is found, and the middleware runs. -/
def receive (request : Request) : Except StatusCode OrchestratorState :=
  match routeOf request.path with
  | none => .error .notFound
  | some _ =>
    match workerAuthMiddleware uuid s.tokenStore request.path request.authorization with
    | .error code => .error code
    | .ok _ => .ok { s with inFlight := s.inFlight ++ [⟨s.received, request, none⟩] }

/-- The handler of an accepted request and the job that it reads from the path. -/
def handlerOf (request : Request) : Except StatusCode (Route × Nat) :=
  match routeOf request.path with
  | none => .error .notFound
  | some (route, segment) =>
    if request.method ≠ route.method then .error .methodNotAllowed
    else
      match uuid.parse (uuid.decode segment) with
      | none => .error .badRequest
      | some jobId => .ok (route, jobId)

/-- The user of a job: from the cache, or from the database, whose answer is kept. -/
def resolveOwner (jobId : Nat) (stored : Option Str) : Str × Table Nat Str :=
  match s.jobOwnerCache.lookup jobId with
  | some user => (user, s.jobOwnerCache)
  | none =>
    match stored with
    | some user => (user, s.jobOwnerCache.insert jobId user)
    | none => ([], s.jobOwnerCache)

/-- `get_prompt_handler` -/
def getPrompt (jobId : Nat) : Answer × Table Nat (List PendingPrompt) :=
  match s.promptQueue.lookup jobId with
  | some (prompt :: prompts) => (.prompt prompt, s.promptQueue.insert jobId prompts)
  | _ => (.status .noContent, s.promptQueue)

/-- `get_credentials_handler`; the secrets are what the store decrypts, if there is one. -/
def getCredentials (jobId : Nat) (secrets : Option (Str → Option Str)) : Answer :=
  match s.tokenStore.getGrants jobId with
  | none => .status .noContent
  | some grants =>
    if grants.isEmpty then .status .noContent
    else
      match secrets with
      | none => .status .serviceUnavailable
      | some decrypt =>
        match grants.mapM fun g => (decrypt g.secretName).map fun value => (g.envVar, value) with
        | none => .status .internalServerError
        | some values => .credentials values

/-- The next step of a handler. -/
def handle (n : Nat) (f : InFlight) (stored : Option Str) (secrets : Option (Str → Option Str)) : OrchestratorState :=
  let rest := s.inFlight.eraseIdx n
  match handlerOf uuid f.request with
  | .error _ => { s with inFlight := rest }
  | .ok (.jobEvent, jobId) =>
    match f.request.payload with
    | none => { s with inFlight := rest }
    | some payload =>
      match f.owner with
      | none =>
        let owner := s.resolveOwner jobId stored
        { s with jobOwnerCache := owner.2, inFlight := s.inFlight.set n { f with owner := some owner.1 } }
      | some user =>
        { s with inFlight := rest, sent := s.sent ++ [(jobId, user, appEvent (uuid.display jobId) payload)] }
  | .ok (.getPrompt, jobId) =>
    let answer := s.getPrompt jobId
    { s with inFlight := rest, promptQueue := answer.2, answers := s.answers ++ [(jobId, answer.1)] }
  | .ok (.getCredentials, jobId) =>
    { s with inFlight := rest, answers := s.answers ++ [(jobId, s.getCredentials jobId secrets)] }
  | .ok (_, _) => { s with inFlight := rest }

/-- `queue.entry(job_id).or_default().push_back(prompt)` -/
def queuePrompt (jobId : Nat) (prompt : PendingPrompt) : OrchestratorState :=
  { s with promptQueue := s.promptQueue.insert jobId ((s.promptQueue.lookup jobId).getD [] ++ [prompt]) }

/-- A step: of the job manager on the tokens, of a user with a prompt, of a worker, or of a handler. -/
inductive Label
  | createToken (jobId : Nat) (token : Str)
  | storeGrants (jobId : Nat) (grants : List CredentialGrant)
  | revokeToken (jobId : Nat)
  | revokeGrants (jobId : Nat)
  | queuePrompt (jobId : Nat) (prompt : PendingPrompt)
  | request (request : Request)
  | handle (n : Nat) (stored : Option Str) (secrets : Option (Str → Option Str))

def step : Label → OrchestratorState
  | .createToken jobId token => { s with tokenStore := s.tokenStore.createToken jobId token }
  | .storeGrants jobId grants => { s with tokenStore := s.tokenStore.storeGrants jobId grants }
  | .revokeToken jobId => { s with tokenStore := s.tokenStore.revokeToken jobId }
  | .revokeGrants jobId => { s with tokenStore := s.tokenStore.revokeGrants jobId }
  | .queuePrompt jobId prompt => s.queuePrompt jobId prompt
  | .request request => { (s.receive uuid request).toOption.getD s with received := s.received + 1 }
  | .handle n stored secrets =>
    match s.inFlight[n]? with
    | none => s
    | some f => s.handle uuid n f stored secrets

/-! ## Accepted requests -/

section Accepted

variable {uuid : UuidText} {s : OrchestratorState}

theorem splitOn_cons_nil {c : Char} {path : Str} {parts : List Str} (h : path.splitOn c = [] :: parts)
    (hparts : parts ≠ []) :
    ∃ rest, path = c :: rest ∧ rest.splitOn c = parts := by
  cases path with
  | nil =>
    rw [List.splitOn_nil] at h
    exact absurd (List.cons.inj h).2.symm hparts
  | cons d rest =>
    rw [List.splitOn_cons_eq_if_modifyHead] at h
    split at h
    next hd => exact ⟨rest, by rw [beq_iff_eq.mp hd], (List.cons.inj h).2⟩
    next =>
      obtain ⟨first, others, hsplit⟩ := List.exists_cons_of_ne_nil (List.splitOn_ne_nil c rest)
      rw [hsplit] at h
      cases h

theorem head_of_splitOn {c : Char} {path first : Str} {parts : List Str} (h : path.splitOn c = first :: parts)
    (hfirst : first ≠ []) : path.head? ≠ some c := by
  intro hhead
  obtain ⟨rest, rfl⟩ := List.head?_eq_some_iff.mp hhead
  rw [List.splitOn_cons_eq_if_modifyHead, if_pos (beq_self_eq_true c)] at h
  exact hfirst (List.cons.inj h).1.symm

/-- The route and the middleware read the same part of a path. -/
theorem extract_of_route {path : Str} {route : Route} {segment : Str} (h : routeOf path = some (route, segment)) :
    extractJobIdFromPath uuid path = uuid.parse segment := by
  unfold routeOf at h
  split at h
  next first segment' parts hsplit =>
    split at h
    next hworker =>
      obtain ⟨route', -, heq⟩ := Option.map_eq_some_iff.mp h
      obtain ⟨-, rfl⟩ := Prod.mk.inj heq
      obtain ⟨rest, rfl, hrest⟩ := splitOn_cons_nil hsplit (List.cons_ne_nil _ _)
      have hne : first ≠ [] := by
        rw [hworker.1]
        decide
      have hdrop : ('/' :: rest).dropWhile (· = '/') = rest := by
        rw [List.dropWhile_cons_of_pos (by decide), List.dropWhile_eq_self_iff]
        intro hpos hhead
        refine head_of_splitOn hrest hne ?_
        rw [List.head?_eq_getElem?, List.getElem?_eq_getElem hpos, of_decide_eq_true hhead]
      rw [extractJobIdFromPath, hdrop, hrest]
      exact if_pos hworker.1
    · cases h
  · cases h

/-- The token of a request is the one that the job has. -/
def Authorized (store : TokenStore) (request : Request) (jobId : Nat) (token : Str) : Prop :=
  request.authorization = some (BEARER ++ token) ∧ store.tokens.lookup jobId = some token

theorem validate_iff {store : TokenStore} {jobId : Nat} {token : Str} :
    store.validate jobId token = true ↔ store.tokens.lookup jobId = some token := by
  unfold TokenStore.validate
  split
  next stored hstored => rw [hstored, Option.some.injEq, decide_eq_true_iff]
  next hnone => simp [hnone]

/-- The middleware lets a request pass exactly when it has the token of the job in its path. -/
theorem middleware_ok_iff {store : TokenStore} {path : Str} {authorization : Option Str} {jobId : Nat} :
    workerAuthMiddleware uuid store path authorization = .ok jobId ↔
      extractJobIdFromPath uuid path = some jobId ∧
        ∃ token, authorization = some (BEARER ++ token) ∧ store.tokens.lookup jobId = some token := by
  unfold workerAuthMiddleware
  cases hid : extractJobIdFromPath uuid path with
  | none => simp
  | some id =>
    cases hbearer : authorization.bind (stripStart BEARER) with
    | none =>
      refine iff_of_false (fun h => by cases h) ?_
      rintro ⟨-, token, rfl, -⟩
      rw [Option.bind_some, stripStart_eq_some_iff.mpr rfl] at hbearer
      cases hbearer
    | some token =>
      obtain ⟨header, rfl, hstrip⟩ := Option.bind_eq_some_iff.mp hbearer
      rw [stripStart_eq_some_iff] at hstrip
      subst hstrip
      dsimp only
      split
      next hvalid =>
        constructor
        · intro h
          obtain rfl := Except.ok.inj h
          exact ⟨rfl, token, rfl, validate_iff.mp hvalid⟩
        · rintro ⟨hsome, -⟩
          rw [Option.some.inj hsome]
      next hinvalid =>
        refine iff_of_false (fun h => by cases h) ?_
        rintro ⟨hsome, token', hheader, hlookup⟩
        obtain rfl := Option.some.inj hsome
        rw [List.append_cancel_left (Option.some.inj hheader)] at hinvalid
        exact hinvalid (validate_iff.mpr hlookup)

/-- An accepted request has the token of the job that its handler reads. -/
theorem receive_ok {request : Request} {s' : OrchestratorState} (h : s.receive uuid request = .ok s') :
    s' = { s with inFlight := s.inFlight ++ [⟨s.received, request, none⟩] } ∧
      ∀ route jobId, handlerOf uuid request = .ok (route, jobId) →
      ∃ token, Authorized s.tokenStore request jobId token := by
  unfold receive at h
  split at h
  · cases h
  next found hroute =>
    split at h
    · cases h
    next jobId hauth =>
      obtain rfl := Except.ok.inj h
      refine ⟨rfl, fun route jobId' hhandler => ?_⟩
      obtain ⟨hextract, token, hheader, hlookup⟩ := middleware_ok_iff.mp hauth
      rw [extract_of_route hroute] at hextract
      rw [handlerOf, hroute] at hhandler
      dsimp only at hhandler
      split at hhandler
      · cases hhandler
      · rw [uuid.decode_plain hextract, hextract] at hhandler
        obtain ⟨-, rfl⟩ := Prod.mk.inj (Except.ok.inj hhandler)
        exact ⟨token, hheader, hlookup⟩

end Accepted

/-! ## The steps -/

section Steps

variable {uuid : UuidText} {s : OrchestratorState}

/-- What one step of a handler does: it ends without an effect, it finds the owner of a job, it broadcasts an event, or
it answers. -/
theorem handle_cases (uuid : UuidText) (s : OrchestratorState) (n : Nat) (f : InFlight) (stored : Option Str)
    (secrets : Option (Str → Option Str)) :
    s.handle uuid n f stored secrets = { s with inFlight := s.inFlight.eraseIdx n } ∨
    (∃ jobId, handlerOf uuid f.request = .ok (.jobEvent, jobId) ∧ s.handle uuid n f stored secrets =
      { s with
        jobOwnerCache := (s.resolveOwner jobId stored).2
        inFlight := s.inFlight.set n { f with owner := some (s.resolveOwner jobId stored).1 } }) ∨
    (∃ jobId payload user, handlerOf uuid f.request = .ok (.jobEvent, jobId) ∧ f.request.payload = some payload ∧
      f.owner = some user ∧ s.handle uuid n f stored secrets =
        { s with
          inFlight := s.inFlight.eraseIdx n
          sent := s.sent ++ [(jobId, user, appEvent (uuid.display jobId) payload)] }) ∨
    (∃ jobId, handlerOf uuid f.request = .ok (.getPrompt, jobId) ∧ s.handle uuid n f stored secrets =
      { s with
        inFlight := s.inFlight.eraseIdx n
        promptQueue := (s.getPrompt jobId).2
        answers := s.answers ++ [(jobId, (s.getPrompt jobId).1)] }) ∨
    ∃ jobId, handlerOf uuid f.request = .ok (.getCredentials, jobId) ∧ s.handle uuid n f stored secrets =
      { s with
        inFlight := s.inFlight.eraseIdx n
        answers := s.answers ++ [(jobId, s.getCredentials jobId secrets)] } := by
  unfold handle
  cases hhandler : handlerOf uuid f.request with
  | error code => exact .inl rfl
  | ok handler =>
    obtain ⟨route, jobId⟩ := handler
    cases route with
    | jobEvent =>
      cases hpayload : f.request.payload with
      | none => exact .inl rfl
      | some payload =>
        cases howner : f.owner with
        | none => exact .inr (.inl ⟨jobId, rfl, rfl⟩)
        | some user => exact .inr (.inr (.inl ⟨jobId, payload, user, rfl, rfl, rfl, rfl⟩))
    | getPrompt => exact .inr (.inr (.inr (.inl ⟨jobId, rfl, rfl⟩)))
    | getCredentials => exact .inr (.inr (.inr (.inr ⟨jobId, rfl, rfl⟩)))
    | _ => exact .inl rfl

/-- A handler leaves the tokens and the grants as they are. -/
theorem handle_tokenStore (n : Nat) (f : InFlight) (stored : Option Str) (secrets : Option (Str → Option Str)) :
    (s.handle uuid n f stored secrets).tokenStore = s.tokenStore := by
  rcases handle_cases uuid s n f stored secrets with h | ⟨_, _, h⟩ | ⟨_, _, _, _, _, _, h⟩ | ⟨_, _, h⟩ |
    ⟨_, _, h⟩ <;> rw [h]

/-- A request is rejected, or it is in flight. -/
theorem step_request (uuid : UuidText) (s : OrchestratorState) (request : Request) :
    s.step uuid (.request request) = { s with received := s.received + 1 } ∨
    s.receive uuid request = .ok { s with inFlight := s.inFlight ++ [⟨s.received, request, none⟩] } ∧
      s.step uuid (.request request) =
        { s with inFlight := s.inFlight ++ [⟨s.received, request, none⟩], received := s.received + 1 } := by
  rw [step]
  cases h : s.receive uuid request with
  | error code => exact .inl rfl
  | ok s' =>
    obtain ⟨rfl, -⟩ := receive_ok h
    exact .inr ⟨rfl, rfl⟩

/-- A step broadcasts at most one event. -/
theorem sent_cases (uuid : UuidText) (s : OrchestratorState) (l : Label) :
    (s.step uuid l).sent = s.sent ∨ ∃ e, (s.step uuid l).sent = s.sent ++ [e] := by
  cases l with
  | request request =>
    rcases step_request uuid s request with hs | ⟨-, hs⟩ <;> rw [hs] <;> exact .inl rfl
  | handle n stored secrets =>
    rw [step]
    split
    · exact .inl rfl
    next f hf =>
      rcases handle_cases uuid s n f stored secrets with hs | ⟨_, _, hs⟩ | ⟨_, _, _, _, _, _, hs⟩ | ⟨_, _, hs⟩ |
        ⟨_, _, hs⟩ <;> rw [hs]
      · exact .inl rfl
      · exact .inl rfl
      · exact .inr ⟨_, rfl⟩
      · exact .inl rfl
      · exact .inl rfl
  | _ => exact .inl rfl

/-- The request with this number is accepted by the step. -/
def Accepts (uuid : UuidText) (s : OrchestratorState) (l : Label) (arrival : Nat × Request) : Prop :=
  l = .request arrival.2 ∧ arrival.1 = s.received ∧
    s.receive uuid arrival.2 = .ok { s with inFlight := s.inFlight ++ [⟨s.received, arrival.2, none⟩] }

/-- The step handles a request in flight: it broadcasts the event, which is the next one. -/
def Broadcasts (uuid : UuidText) (s : OrchestratorState) (l : Label) (event : Nat × (Nat × Str × AppEvent)) : Prop :=
  ∃ n stored secrets f payload, l = .handle n stored secrets ∧ s.inFlight[n]? = some f ∧
    s.sent.length = event.1 ∧ (s.step uuid l).sent = s.sent ++ [event.2] ∧
    handlerOf uuid f.request = .ok (.jobEvent, event.2.1) ∧ f.request.payload = some payload ∧
    event.2.2.2 = appEvent (uuid.display event.2.1) payload

/-- The step handles a request in flight: it gives the answer, the next prompt or the secrets that are granted. -/
def Answers (uuid : UuidText) (s : OrchestratorState) (l : Label) (answer : Nat × (Nat × Answer)) : Prop :=
  ∃ n stored secrets f, l = .handle n stored secrets ∧ s.inFlight[n]? = some f ∧
    s.answers.length = answer.1 ∧ (s.step uuid l).answers = s.answers ++ [answer.2] ∧
    (handlerOf uuid f.request = .ok (.getPrompt, answer.2.1) ∧ answer.2.2 = (s.getPrompt answer.2.1).1 ∨
      handlerOf uuid f.request = .ok (.getCredentials, answer.2.1) ∧ answer.2.2 = s.getCredentials answer.2.1 secrets)

/-- A token comes with `create_token`. -/
theorem tokens_step (jobId : Nat) (s : OrchestratorState) (l : Label) (token : Str)
    (h : (s.step uuid l).tokenStore.tokens.lookup jobId = some token) :
    s.tokenStore.tokens.lookup jobId = some token ∨ l = .createToken jobId token := by
  cases l with
  | createToken jobId' token' =>
    simp only [step, TokenStore.createToken, Table.lookup_insert] at h
    split at h
    next heq => exact .inr (by rw [heq, Option.some.inj h])
    · exact .inl h
  | storeGrants jobId' grants =>
    simp only [step, TokenStore.storeGrants] at h
    split at h <;> exact .inl h
  | revokeToken jobId' =>
    simp only [step, TokenStore.revokeToken, Table.lookup_erase] at h
    split at h
    · cases h
    · exact .inl h
  | revokeGrants jobId' => exact .inl h
  | queuePrompt jobId' prompt => exact .inl h
  | request request =>
    rcases step_request uuid s request with hs | ⟨-, hs⟩ <;> rw [hs] at h <;> exact .inl h
  | handle n stored secrets =>
    simp only [step] at h
    split at h
    · exact .inl h
    · rw [handle_tokenStore] at h
      exact .inl h

/-- Grants come with `store_grants`, and there are some. -/
theorem grants_step (jobId : Nat) (s : OrchestratorState) (l : Label) (grants : List CredentialGrant)
    (h : (s.step uuid l).tokenStore.getGrants jobId = some grants) :
    s.tokenStore.getGrants jobId = some grants ∨ l = .storeGrants jobId grants ∧ grants ≠ [] := by
  cases l with
  | createToken jobId' token' => exact .inl h
  | storeGrants jobId' grants' =>
    simp only [step, TokenStore.storeGrants] at h
    split at h
    · exact .inl h
    next hne =>
      simp only [TokenStore.getGrants, Table.lookup_insert] at h
      split at h
      next heq =>
        obtain rfl := Option.some.inj h
        exact .inr ⟨by rw [heq], fun hnil => hne (by rw [hnil]; rfl)⟩
      · exact .inl h
  | revokeToken jobId' => exact .inl h
  | revokeGrants jobId' =>
    simp only [step, TokenStore.revokeGrants, TokenStore.getGrants, Table.lookup_erase] at h
    split at h
    · cases h
    · exact .inl h
  | queuePrompt jobId' prompt => exact .inl h
  | request request =>
    rcases step_request uuid s request with hs | ⟨-, hs⟩ <;> rw [hs] at h <;> exact .inl h
  | handle n stored secrets =>
    simp only [step] at h
    split at h
    · exact .inl h
    · rw [handle_tokenStore] at h
      exact .inl h

/-- A thing at a place of a list that got one more was there, or it is the one. -/
theorem concat_cases {α : Type*} {l : List α} {a b : α} {i : Nat} (h : (l ++ [a])[i]? = some b) :
    l[i]? = some b ∨ l.length = i ∧ b = a := by
  rcases Nat.lt_trichotomy i l.length with hlt | rfl | hgt
  · rw [List.getElem?_append_left hlt] at h
    exact .inl h
  · rw [List.getElem?_concat_length] at h
    exact .inr ⟨rfl, (Option.some.inj h).symm⟩
  · rw [List.getElem?_eq_none (by rw [List.length_append]; exact hgt)] at h
    cases h

/-- A request in flight was accepted. -/
theorem inFlight_step (s : OrchestratorState) (l : Label) (arrival : Nat × Request)
    (h : ∃ f ∈ (s.step uuid l).inFlight, (f.number, f.request) = arrival) :
    (∃ f ∈ s.inFlight, (f.number, f.request) = arrival) ∨ Accepts uuid s l arrival := by
  obtain ⟨f, hf, rfl⟩ := h
  cases l with
  | storeGrants jobId grants => exact .inl ⟨f, hf, rfl⟩
  | request request =>
    rcases step_request uuid s request with hs | ⟨hreceive, hs⟩
    · rw [hs] at hf
      exact .inl ⟨f, hf, rfl⟩
    · rw [hs] at hf
      rcases List.mem_append.mp hf with hf | hf
      · exact .inl ⟨f, hf, rfl⟩
      · rw [List.mem_singleton.mp hf]
        exact .inr ⟨rfl, rfl, hreceive⟩
  | handle n stored secrets =>
    simp only [step] at hf
    split at hf
    · exact .inl ⟨f, hf, rfl⟩
    next g hg =>
      have herase (h : f ∈ s.inFlight.eraseIdx n) : ∃ f' ∈ s.inFlight, (f'.number, f'.request) =
        (f.number, f.request) :=
        ⟨f, List.mem_of_mem_eraseIdx h, rfl⟩
      rcases handle_cases uuid s n g stored secrets with hs | ⟨_, _, hs⟩ | ⟨_, _, _, _, _, _, hs⟩ | ⟨_, _, hs⟩ |
        ⟨_, _, hs⟩ <;> rw [hs] at hf
      · exact .inl (herase hf)
      · rcases List.mem_or_eq_of_mem_set hf with hf | rfl
        · exact .inl ⟨f, hf, rfl⟩
        · exact .inl ⟨g, List.mem_of_getElem? hg, rfl⟩
      · exact .inl (herase hf)
      · exact .inl (herase hf)
      · exact .inl (herase hf)
  | _ => exact .inl ⟨f, hf, rfl⟩

/-- An event is broadcast for a request in flight. -/
theorem sent_step (s : OrchestratorState) (l : Label) (event : Nat × (Nat × Str × AppEvent))
    (h : (s.step uuid l).sent[event.1]? = some event.2) : s.sent[event.1]? = some event.2 ∨
    Broadcasts uuid s l event := by
  cases l with
  | request request =>
    rcases step_request uuid s request with hs | ⟨-, hs⟩ <;> rw [hs] at h <;> exact .inl h
  | handle n stored secrets =>
    cases hf : s.inFlight[n]? with
    | none =>
      simp only [step, hf] at h
      exact .inl h
    | some f =>
      have hstep : s.step uuid (.handle n stored secrets) = s.handle uuid n f stored secrets := by simp only [step, hf]
      rw [hstep] at h
      rcases handle_cases uuid s n f stored secrets with hs | ⟨_, _, hs⟩ |
        ⟨jobId, payload, user, hhandler, hpayload, _, hs⟩ | ⟨_, _, hs⟩ | ⟨_, _, hs⟩ <;> rw [hs] at h
      · exact .inl h
      · exact .inl h
      · rcases concat_cases h with h | ⟨hlen, hevent⟩
        · exact .inl h
        · refine .inr ⟨n, stored, secrets, f, payload, rfl, hf, hlen, by rw [hstep, hs, hevent], ?_, hpayload, ?_⟩
          · rw [hevent]
            exact hhandler
          · rw [hevent]
      · exact .inl h
      · exact .inl h
  | _ => exact .inl h

/-- An answer is given to a request in flight. -/
theorem answers_step (s : OrchestratorState) (l : Label) (answer : Nat × (Nat × Answer))
    (h : (s.step uuid l).answers[answer.1]? = some answer.2) :
    s.answers[answer.1]? = some answer.2 ∨ Answers uuid s l answer := by
  cases l with
  | request request =>
    rcases step_request uuid s request with hs | ⟨-, hs⟩ <;> rw [hs] at h <;> exact .inl h
  | handle n stored secrets =>
    cases hf : s.inFlight[n]? with
    | none =>
      simp only [step, hf] at h
      exact .inl h
    | some f =>
      have hstep : s.step uuid (.handle n stored secrets) = s.handle uuid n f stored secrets := by simp only [step, hf]
      rw [hstep] at h
      rcases handle_cases uuid s n f stored secrets with hs | ⟨_, _, hs⟩ | ⟨_, _, _, _, _, _, hs⟩ |
        ⟨jobId, hhandler, hs⟩ | ⟨jobId, hhandler, hs⟩ <;> rw [hs] at h
      · exact .inl h
      · exact .inl h
      · exact .inl h
      · rcases concat_cases h with h | ⟨hlen, hanswer⟩
        · exact .inl h
        · refine .inr ⟨n, stored, secrets, f, rfl, hf, hlen, by rw [hstep, hs, hanswer], .inl ?_⟩
          rw [hanswer]
          exact ⟨hhandler, rfl⟩
      · rcases concat_cases h with h | ⟨hlen, hanswer⟩
        · exact .inl h
        · refine .inr ⟨n, stored, secrets, f, rfl, hf, hlen, by rw [hstep, hs, hanswer], .inr ?_⟩
          rw [hanswer]
          exact ⟨hhandler, rfl⟩
  | _ => exact .inl h

end Steps

/-! ## Whole runs -/

/-- In a run the request came with a token that was created for the job, and that was its token ever since. -/
def Authenticated (labels : List Label) (jobId : Nat) (request : Request) : Prop :=
  ∃ before token mid after, labels = before ++ .createToken jobId token :: (mid ++ .request request :: after) ∧
    request.authorization = some (BEARER ++ token) ∧
    ∀ l ∈ mid, l ≠ .revokeToken jobId ∧ ∀ other, l = .createToken jobId other → other = token

theorem Authenticated.append {labels : List Label} {jobId : Nat} {request : Request}
    (h : Authenticated labels jobId request)
    (more : List Label) : Authenticated (labels ++ more) jobId request := by
  obtain ⟨before, token, mid, after, rfl, hheader, hmid⟩ := h
  exact ⟨before, token, mid, after ++ more, by simp, hheader, hmid⟩

/-- The requests that come in a run. -/
def requests (labels : List Label) : List Request :=
  labels.filterMap fun
    | .request request => some request
    | _ => none

/-- The request in flight is the one with its number in the run, and it came with a token that was created for the job,
and that was its token ever since. -/
def Admitted (labels : List Label) (jobId : Nat) (f : InFlight) : Prop :=
  ∃ before token mid after, labels = before ++ .createToken jobId token :: (mid ++ .request f.request :: after) ∧
    f.number = (requests before).length + (requests mid).length ∧
    f.request.authorization = some (BEARER ++ token) ∧
    ∀ l ∈ mid, l ≠ .revokeToken jobId ∧ ∀ other, l = .createToken jobId other → other = token

theorem Admitted.authenticated {labels : List Label} {jobId : Nat} {f : InFlight} (h : Admitted labels jobId f) :
    Authenticated labels jobId f.request := by
  obtain ⟨before, token, mid, after, hlabels, -, hheader, hmid⟩ := h
  exact ⟨before, token, mid, after, hlabels, hheader, hmid⟩

variable {uuid : UuidText}

theorem received_step (s : OrchestratorState) (l : Label) :
    (s.step uuid l).received = s.received + (requests [l]).length := by
  cases l with
  | request request => rfl
  | handle n stored secrets =>
    rw [step]
    split
    · rfl
    next f hf =>
      rcases handle_cases uuid s n f stored secrets with hs | ⟨_, _, hs⟩ | ⟨_, _, _, _, _, _, hs⟩ | ⟨_, _, hs⟩ |
        ⟨_, _, hs⟩ <;> rw [hs] <;> rfl
  | _ => rfl

theorem received_run (labels : List Label) : (run (step uuid) new labels).received = (requests labels).length := by
  induction labels using List.reverseRecOn with
  | nil => rfl
  | append_singleton labels l ih =>
    rw [run_append, run_cons, run_nil, received_step, ih, requests, requests, requests, List.filterMap_append,
      List.length_append]

/-- The token of a job was created, and was neither revoked nor replaced since. -/
theorem exists_createToken {labels : List Label} {jobId : Nat} {token : Str}
    (h : (run (step uuid) new labels).tokenStore.tokens.lookup jobId = some token) :
    ∃ before mid, labels = before ++ .createToken jobId token :: mid ∧
      ∀ l ∈ mid, l ≠ .revokeToken jobId ∧ ∀ other, l = .createToken jobId other → other = token := by
  rcases run_since (P := fun (s : OrchestratorState) token => s.tokenStore.tokens.lookup jobId = some token)
      (Q := fun _ l token => l = .createToken jobId token) (tokens_step jobId) labels h with
    hall | ⟨before, l, mid, rfl, rfl, hsince⟩
  · have hnew := hall [] (List.nil_prefix)
    cases hnew
  · refine ⟨before, mid, rfl, fun l hl => ?_⟩
    obtain ⟨pre, post, rfl⟩ := List.append_of_mem hl
    have hafter := hsince (pre ++ [l]) ⟨post, by simp⟩
    rw [← List.cons_append, ← List.append_assoc, run_append, run_cons, run_nil] at hafter
    constructor
    · rintro rfl
      rw [step, TokenStore.revokeToken, Table.lookup_erase, if_pos rfl] at hafter
      cases hafter
    · rintro other rfl
      rw [step, TokenStore.createToken, Table.lookup_insert, if_pos rfl] at hafter
      exact Option.some.inj hafter

/-- A request in flight came with the token of the job that its handler reads. -/
theorem admitted_of_inFlight {labels : List Label} {f : InFlight} {n : Nat}
    (hf : (run (step uuid) new labels).inFlight[n]? = some f) {route : Route} {jobId : Nat}
    (hhandler : handlerOf uuid f.request = .ok (route, jobId)) : Admitted labels jobId f := by
  rcases run_since (P := fun (s : OrchestratorState) arrival => ∃ f ∈ s.inFlight, (f.number, f.request) = arrival)
      (Q := Accepts uuid) inFlight_step labels ⟨f, List.mem_of_getElem? hf, rfl⟩ with
    hall | ⟨pre, l, post, rfl, ⟨rfl, hnumber, hreceive⟩, -⟩
  · obtain ⟨g, hg, -⟩ := hall [] List.nil_prefix
    cases hg
  · obtain ⟨token, hheader, hlookup⟩ := (receive_ok hreceive).2 route jobId hhandler
    obtain ⟨before, mid, rfl, hmid⟩ := exists_createToken hlookup
    refine ⟨before, token, mid, post, by simp, ?_, hheader, hmid⟩
    rw [received_run, requests, List.filterMap_append, List.length_append] at hnumber
    exact hnumber

/-- One step of the run, after the steps `before`, handles a request in flight for a job. -/
def Handles (uuid : UuidText) (labels before : List Label) (l : Label) (jobId : Nat) (f : InFlight) : Prop :=
  (∃ after, labels = before ++ l :: after) ∧
    (∃ n stored secrets, l = .handle n stored secrets ∧ (run (step uuid) new before).inFlight[n]? = some f) ∧
    ∃ route, handlerOf uuid f.request = .ok (route, jobId)

theorem Handles.admitted {labels before : List Label} {l : Label} {jobId : Nat} {f : InFlight}
    (h : Handles uuid labels before l jobId f) : Admitted before jobId f := by
  obtain ⟨-, ⟨n, stored, secrets, -, hf⟩, route, hhandler⟩ := h
  exact admitted_of_inFlight hf hhandler

/-- Each event is broadcast by a step that handles a request in flight. -/
theorem exists_handles_of_sent {labels : List Label} {i : Nat} {e : Nat × Str × AppEvent}
    (he : (run (step uuid) new labels).sent[i]? = some e) :
    ∃ before l f payload, Handles uuid labels before l e.1 f ∧ (run (step uuid) new before).sent.length = i ∧
      (run (step uuid) new (before ++ [l])).sent = (run (step uuid) new before).sent ++ [e] ∧
      f.request.payload = some payload ∧ e.2.2 = appEvent (uuid.display e.1) payload := by
  rcases run_since (P := fun (s : OrchestratorState) event => s.sent[event.1]? = some event.2) (Q := Broadcasts uuid)
      sent_step labels (x := (i, e)) he with
    hall | ⟨before, l, after, hlabels,
      ⟨n, stored, secrets, f, payload, hl, hf, hlen, hsent, hhandler, hpayload, hevent⟩, -⟩
  · cases hall [] List.nil_prefix
  · refine ⟨before, l, f, payload, ⟨⟨after, hlabels⟩, ⟨n, stored, secrets, hl, hf⟩, .jobEvent, hhandler⟩,
      hlen, ?_, hpayload, hevent⟩
    rw [run_append, run_cons, run_nil]
    exact hsent

/-- An event that was broadcast is the one of an authenticated request. -/
theorem authenticated_of_sent {labels : List Label} {e : Nat × Str × AppEvent}
    (he : e ∈ (run (step uuid) new labels).sent) :
    ∃ request payload, Authenticated labels e.1 request ∧ request.payload = some payload ∧
      e.2.2 = appEvent (uuid.display e.1) payload := by
  obtain ⟨i, hi⟩ := List.mem_iff_getElem?.mp he
  obtain ⟨before, l, f, payload, hhandles, -, -, hpayload, hevent⟩ := exists_handles_of_sent hi
  obtain ⟨⟨after, rfl⟩, -⟩ := id hhandles
  exact ⟨f.request, payload, hhandles.admitted.authenticated.append _, hpayload, hevent⟩

/-- **Authentication.** In every run, each event that is broadcast and each answer that is given for a job is that of
one step that handles a request in flight, and the request came, as the one with its number, with the token created for
this job, neither revoked nor replaced until then; the event is what this request carried. -/
theorem requests_authenticated (uuid : UuidText) (labels : List Label) :
    (∀ i e, (run (step uuid) new labels).sent[i]? = some e → ∃ before l f payload,
      Handles uuid labels before l e.1 f ∧ Admitted before e.1 f ∧ (run (step uuid) new before).sent.length = i ∧
        (run (step uuid) new (before ++ [l])).sent = (run (step uuid) new before).sent ++ [e] ∧
        f.request.payload = some payload ∧ e.2.2 = appEvent (uuid.display e.1) payload) ∧
    ∀ i a, (run (step uuid) new labels).answers[i]? = some a → ∃ before l f,
      Handles uuid labels before l a.1 f ∧ Admitted before a.1 f ∧ (run (step uuid) new before).answers.length = i ∧
        (run (step uuid) new (before ++ [l])).answers = (run (step uuid) new before).answers ++ [a] := by
  constructor
  · intro i e he
    obtain ⟨before, l, f, payload, hhandles, hevent⟩ := exists_handles_of_sent he
    exact ⟨before, l, f, payload, hhandles, hhandles.admitted, hevent⟩
  · intro i a ha
    rcases run_since (P := fun (s : OrchestratorState) answer => s.answers[answer.1]? = some answer.2)
      (Q := Answers uuid)
        answers_step labels (x := (i, a)) ha with
      hall | ⟨before, l, after, hlabels, ⟨n, stored, secrets, f, hl, hf, hlen, hanswers, hhandler⟩, -⟩
    · cases hall [] List.nil_prefix
    · have hroute : ∃ route, handlerOf uuid f.request = .ok (route, a.1) := by
        rcases hhandler with ⟨hprompt, -⟩ | ⟨hcredentials, -⟩
        · exact ⟨_, hprompt⟩
        · exact ⟨_, hcredentials⟩
      have hhandles : Handles uuid labels before l a.1 f := ⟨⟨after, hlabels⟩, ⟨n, stored, secrets, hl, hf⟩, hroute⟩
      refine ⟨before, l, f, hhandles, hhandles.admitted, hlen, ?_⟩
      rw [run_append, run_cons, run_nil]
      exact hanswers

/-- The answer of `get_credentials_handler` when it serves secrets. -/
theorem getCredentials_eq {s : OrchestratorState} {jobId : Nat} {secrets : Option (Str → Option Str)}
    {values : List (Str × Str)} (h : s.getCredentials jobId secrets = .credentials values) :
    ∃ grants decrypt, s.tokenStore.getGrants jobId = some grants ∧ secrets = some decrypt ∧
      grants.mapM (fun g => (decrypt g.secretName).map fun value => (g.envVar, value)) = some values := by
  unfold getCredentials at h
  split at h
  · cases h
  next grants hgrants =>
    split at h
    · cases h
    · split at h
      · cases h
      next decrypt =>
        split at h
        · cases h
        next found hfound =>
          cases h
          exact ⟨grants, decrypt, hgrants, rfl, hfound⟩

/-- **Credentials.** In every run, the secrets that are served for a job are those of grants that were stored for this
job and were neither revoked nor replaced until then: the variable of each grant with what the store decrypts under its
name. -/
theorem credentials_granted (uuid : UuidText) (labels : List Label) (jobId : Nat) (values : List (Str × Str)) :
    (jobId, .credentials values) ∈ (run (step uuid) new labels).answers →
      ∃ before grants mid n stored decrypt after,
        labels = before ++ .storeGrants jobId grants :: (mid ++ .handle n stored (some decrypt) :: after) ∧
        grants ≠ [] ∧
        (∀ l ∈ mid, l ≠ .revokeGrants jobId ∧ ∀ other, l = .storeGrants jobId other → other = [] ∨ other = grants) ∧
        grants.mapM (fun g => (decrypt g.secretName).map fun value => (g.envVar, value)) = some values := by
  intro ha
  obtain ⟨i, hi⟩ := List.mem_iff_getElem?.mp ha
  rcases run_since (P := fun (s : OrchestratorState) answer => s.answers[answer.1]? = some answer.2) (Q := Answers uuid)
      answers_step labels (x := (i, (jobId, .credentials values))) hi with
    hall | ⟨pre, l, post, rfl, ⟨n, stored, secrets, f, rfl, hf, -, -, ⟨-, hprompt⟩ | ⟨-, hserved⟩⟩, -⟩
  · cases hall [] List.nil_prefix
  · unfold getPrompt at hprompt
    split at hprompt <;> cases hprompt
  · obtain ⟨grants, decrypt, hgrants, rfl, hvalues⟩ := getCredentials_eq hserved.symm
    rcases run_since (P := fun (s : OrchestratorState) grants => s.tokenStore.getGrants jobId = some grants)
        (Q := fun _ l grants => l = .storeGrants jobId grants ∧ grants ≠ []) (grants_step jobId) pre hgrants with
      hall | ⟨before, l, mid, rfl, ⟨rfl, hne⟩, hsince⟩
    · cases hall [] List.nil_prefix
    · refine ⟨before, grants, mid, n, stored, decrypt, post, by simp, hne, fun l hl => ?_, hvalues⟩
      obtain ⟨front, back, rfl⟩ := List.append_of_mem hl
      have hafter := hsince (front ++ [l]) ⟨back, by simp⟩
      rw [← List.cons_append, ← List.append_assoc, run_append, run_cons, run_nil] at hafter
      constructor
      · rintro rfl
        rw [step, TokenStore.revokeGrants, TokenStore.getGrants, Table.lookup_erase, if_pos rfl] at hafter
        cases hafter
      · rintro other rfl
        by_cases hother : other = []
        · exact .inl hother
        · rw [step, TokenStore.storeGrants, if_neg (by simpa using hother), TokenStore.getGrants, Table.lookup_insert,
            if_pos rfl] at hafter
          exact .inr (Option.some.inj hafter)

/-- One job, and the text of its id. -/
def oneJob : UuidText where
  parse s := if s = "00000000-0000-0000-0000-000000000007".toList then some 7 else none
  display _ := "00000000-0000-0000-0000-000000000007".toList
  decode s := s
  decode_plain _ := rfl

/-- A request with the token of the job gets the secret that was granted. -/
theorem credentials_granted_one :
    let path := "/worker/00000000-0000-0000-0000-000000000007/credentials".toList
    let grant : CredentialGrant := ⟨"github_token".toList, "GITHUB_TOKEN".toList⟩
    let decrypt : Str → Option Str := fun name => if name = "github_token".toList then some "ghp".toList else none
    let labels : List Label := [.createToken 7 "t7".toList, .storeGrants 7 [grant],
      .request ⟨.get, path, some "Bearer t7".toList, none⟩, .handle 0 none (some decrypt)]
    ∃ before grants mid n stored decrypt after,
      labels = before ++ .storeGrants 7 grants :: (mid ++ .handle n stored (some decrypt) :: after) ∧ grants ≠ [] ∧
      (∀ l ∈ mid, l ≠ .revokeGrants 7 ∧ ∀ other, l = .storeGrants 7 other → other = [] ∨ other = grants) ∧
      grants.mapM (fun g => (decrypt g.secretName).map fun value => (g.envVar, value)) =
        some [("GITHUB_TOKEN".toList, "ghp".toList)] := by
  intro path grant decrypt labels
  have hanswers :
      (run (step oneJob) new labels).answers = [(7, .credentials [("GITHUB_TOKEN".toList, "ghp".toList)])] := by
    rfl
  refine credentials_granted oneJob labels 7 _ ?_
  rw [hanswers]
  exact List.mem_singleton_self _

/-! ## Prompts -/

/-- The prompts that were queued for a job. -/
def queued (jobId : Nat) (labels : List Label) : List PendingPrompt :=
  labels.filterMap fun
    | .queuePrompt id prompt => if id = jobId then some prompt else none
    | _ => none

/-- The prompts that were handed out for a job. -/
def handedOut (jobId : Nat) (answers : List (Nat × Answer)) : List PendingPrompt :=
  answers.filterMap fun
    | (id, .prompt prompt) => if id = jobId then some prompt else none
    | _ => none

/-- The prompts that wait for a job. -/
def waiting (jobId : Nat) (queue : Table Nat (List PendingPrompt)) : List PendingPrompt := (queue.lookup jobId).getD []

theorem handedOut_append (jobId : Nat) (answers : List (Nat × Answer)) (a : Nat × Answer) :
    handedOut jobId (answers ++ [a]) = handedOut jobId answers ++ handedOut jobId [a] := List.filterMap_append

/-- An answer takes the first of the prompts that wait for its job. -/
theorem getPrompt_waiting (s : OrchestratorState) (id jobId : Nat) :
    handedOut jobId [(id, (s.getPrompt id).1)] ++ waiting jobId (s.getPrompt id).2 = waiting jobId s.promptQueue := by
  unfold getPrompt waiting
  split
  next prompt prompts hqueue =>
    dsimp only
    rw [Table.lookup_insert]
    by_cases hid : id = jobId
    · subst hid
      simp [handedOut, hqueue]
    · have hne : jobId ≠ id := fun h => hid h.symm
      simp [handedOut, hid, hne]
  · simp [handedOut]

theorem getCredentials_handedOut (s : OrchestratorState) (id jobId : Nat) (secrets : Option (Str → Option Str)) :
    handedOut jobId [(id, s.getCredentials id secrets)] = [] := by
  unfold getCredentials
  split
  · rfl
  · split
    · rfl
    · split
      · rfl
      · split <;> rfl

/-- A step queues a prompt, hands one out, or leaves both as they are. -/
theorem prompts_step (uuid : UuidText) (s : OrchestratorState) (l : Label) (jobId : Nat) :
    handedOut jobId (s.step uuid l).answers ++ waiting jobId (s.step uuid l).promptQueue =
      handedOut jobId s.answers ++ waiting jobId s.promptQueue ++ queued jobId [l] := by
  cases l with
  | storeGrants id grants => simp [step, queued, waiting]
  | queuePrompt id prompt =>
    simp only [step, queuePrompt, waiting, Table.lookup_insert]
    by_cases hid : jobId = id
    · subst hid
      simp [queued]
    · have hne : id ≠ jobId := fun h => hid h.symm
      simp [queued, hid, hne]
  | request request =>
    rcases step_request uuid s request with hs | ⟨-, hs⟩ <;> rw [hs] <;> simp [queued, waiting]
  | handle n stored secrets =>
    simp only [step]
    split
    · simp [queued]
    next f hf =>
      rcases handle_cases uuid s n f stored secrets with hs | ⟨_, _, hs⟩ | ⟨_, _, _, _, _, _, hs⟩ |
        ⟨id, _, hs⟩ | ⟨id, _, hs⟩ <;> rw [hs]
      · simp [queued, waiting]
      · simp [queued, waiting]
      · simp [queued, waiting]
      · dsimp only
        rw [handedOut_append, List.append_assoc, List.append_assoc]
        congr 1
        exact (getPrompt_waiting s id jobId).trans (by simp [queued])
      · dsimp only
        rw [handedOut_append, getCredentials_handedOut]
        simp [queued, waiting]
  | _ => simp [step, queued, waiting]

/-- **Prompts.** In every run, the prompts of a job that were handed out and those that wait are those that were queued
for it, in their order and each once. -/
theorem prompts_delivered (uuid : UuidText) (labels : List Label) (jobId : Nat) :
    handedOut jobId (run (step uuid) new labels).answers ++ waiting jobId (run (step uuid) new labels).promptQueue =
      queued jobId labels := by
  induction labels using List.reverseRecOn with
  | nil => rfl
  | append_singleton labels l ih =>
    rw [run_append, run_cons, run_nil, prompts_step, ih, queued, queued, ← List.filterMap_append]
    rfl

end OrchestratorState

end Ironclaw.Orchestrator.Api

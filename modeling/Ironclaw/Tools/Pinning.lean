import Ironclaw.Tools.Http

/-!
# Where the HTTP tool connects

A run of `execute` is judged by its log. `Guarded` says of every request that it was fine at the time it was sent: every
address that its client connects to was checked in this hop, its URL is of the scheme `https`, and a redirect that is
followed has passed the scan for secrets.

- `triple_hop`: one hop, with its own lookup and checks;
- `execute_guarded`: all of it, for a whole call.
-/

namespace Ironclaw.Tools.Http

open Text Net Hoare Safety Secrets

def Event.isSent : Event → Bool
  | .sent _ _ => true
  | .checked _ _ => false

/-- The number of requests that were sent. -/
def sends (log : Log) : Nat := log.countP Event.isSent

/-- The events since the last request. -/
def thisHop (log : Log) : Log := log.takeWhile fun e => !e.isSent

/-- The address was checked in this hop and found to be allowed. -/
def Allowed (ip : IpAddr) (log : Log) : Prop := .checked ip false ∈ thisHop log ∧ isDisallowedIp ip = false

section Guarded

variable (net : Network)

/-- What is asked of a request, with the events before it. -/
structure SendOk (client : Client) (request : Request) (before : Log) : Prop where
  pinned : ∀ ip, client.Connects request.url ip → Allowed ip before
  https : request.url.scheme = "https".toList
  scanned : sends before = 0 ∨ scanRequest net request.url [] none = .ok ()

/-- Every check answered what `is_disallowed_ip` says, and every request was fine when it was sent. -/
def Guarded : Log → Prop
  | [] => True
  | .checked ip disallowed :: log => disallowed = isDisallowedIp ip ∧ Guarded log
  | .sent client request :: log => SendOk net client request log ∧ Guarded log

/-- A GET without headers, body and credentials in headers. -/
structure SimpleGet (tool : HttpTool) (params : Json) (ctx : JobContext) : Prop where
  method : eqIgnoreAsciiCase (methodParam params) "GET".toList = true
  headers : parseHeadersParam net (params.get "headers".toList) = .ok []
  body : bodyParam net (params.get "body".toList) = none
  credentials : ∀ text url host, requireStr params "url".toList = .ok text → net.urls.parse text = .ok url →
    url.host = some host → injectedHeaders tool ctx host.str = []

/-! ## One hop -/

/-- The log is fine, with this number of requests. -/
def At (n : Nat) (log : Log) : Prop := Guarded net log ∧ sends log = n

variable {net} {E : Log → Prop} {n : Nat}

theorem allowed_cons_checked {ip ip' : IpAddr} {disallowed : Bool} {log : Log} (h : Allowed ip log) :
    Allowed ip (.checked ip' disallowed :: log) :=
  ⟨List.mem_cons_of_mem _ h.1, h.2⟩

theorem triple_checkAddrs (hE : ∀ log, At net n log → E log) (host : Str) : ∀ (addrs done : List SocketAddr),
    Triple (fun log => At net n log ∧ ∀ addr ∈ done, Allowed addr.ip log) (checkAddrs host addrs)
      (fun _ log => At net n log ∧ ∀ addr ∈ done ++ addrs, Allowed addr.ip log) E
  | [], done => by
    refine triple_pure fun log h => ?_
    rw [List.append_nil]
    exact h
  | addr :: addrs, done => by
    refine triple_bind (Q := fun _ log => (At net n log ∧ ∀ a ∈ done, Allowed a.ip log) ∧
      .checked addr.ip (isDisallowedIp addr.ip) ∈ thisHop log) (triple_writes ?_) fun _ => ?_
    · rintro log ⟨⟨hguard, hsends⟩, hdone⟩
      refine ⟨⟨⟨⟨rfl, hguard⟩, ?_⟩, fun a ha => allowed_cons_checked (hdone a ha)⟩, ?_⟩
      · rw [← hsends, sends, List.countP_cons_of_neg (by simp [Event.isSent])]
        rfl
      · simp [thisHop, Event.isSent]
    · by_cases hbad : isDisallowedIp addr.ip = true
      · rw [if_pos hbad]
        exact triple_throw fun log h => hE log h.1.1
      · rw [if_neg hbad]
        rw [Bool.not_eq_true] at hbad
        have hrest := triple_checkAddrs hE host addrs (done ++ [addr])
        refine triple_conseq hrest ?_ fun _ log h => ?_
        · rintro log ⟨⟨hat, hdone⟩, hmem⟩
          refine ⟨hat, fun a ha => ?_⟩
          rcases List.mem_append.mp ha with ha | ha
          · exact hdone a ha
          · rw [List.mem_singleton.mp ha]
            rw [hbad] at hmem
            exact ⟨hmem, hbad⟩
        · rwa [List.append_assoc] at h

/-- The addresses that a client for this URL may connect to are allowed. -/
def Resolved (url : Url) (addrs : List SocketAddr) (log : Log) : Prop :=
  ∀ host, url.host = some host →
    (∀ addr ∈ addrs, Allowed addr.ip log) ∧ ∀ ip, host.literal = some ip → Allowed ip log

theorem requireHost_ok {url : Url} {host : Host} (h : requireHost url = .ok host) : url.host = some host := by
  unfold requireHost at h
  split at h
  · cases h
  · rename_i host' hurl
    cases h
    exact hurl

/-- `validate_and_resolve_url`. An address that is written in the URL is its own resolution, so that it is checked
too. -/
theorem triple_validateAndResolveUrl (hE : ∀ log, At net n log → E log) (url : Url) :
    Triple (At net n) (validateAndResolveUrl net url) (fun addrs log => At net n log ∧ Resolved url addrs log) E := by
  refine triple_lift_bind hE fun host hhost => ?_
  refine triple_reads_bind (A := fun answer => ∀ ip, host.literal = some ip →
    answer = .ok [⟨ip, url.portOrKnownDefault.getD 443⟩]) ?_ fun answer hlit => ?_
  · intro log _ ip hip
    rw [lookupHost, hip]
  refine triple_lift_bind hE fun addrs haddrs => ?_
  have hanswer : answer = .ok addrs := by
    cases answer with
    | error e => cases haddrs
    | ok as => exact congrArg Except.ok (Except.ok.inj haddrs)
  by_cases hempty : addrs.isEmpty = true
  · rw [if_pos hempty]
    exact triple_throw hE
  rw [if_neg hempty]
  refine triple_bind (triple_conseq (triple_checkAddrs hE host.str addrs []) ?_ fun _ _ h => h) fun _ => triple_pure ?_
  · exact fun log hlog => ⟨hlog, fun _ h => absurd h List.not_mem_nil⟩
  rintro log ⟨hat, hall⟩
  refine ⟨hat, fun host' hhost' => ⟨hall, fun ip hip => ?_⟩⟩
  obtain rfl : host = host' := Option.some.inj ((requireHost_ok hhost).symm.trans hhost')
  have heq := Except.ok.inj (hanswer.symm.trans (hlit ip hip))
  refine hall ⟨ip, url.portOrKnownDefault.getD 443⟩ ?_
  rw [heq]
  exact List.mem_singleton_self _

/-- A client that is pinned to what the host resolved to connects to allowed addresses only. -/
theorem allowed_of_connects {client : Client} {url : Url} {host : Host} {log : Log} (hhost : url.host = some host)
    (hclient : client.host = host.str) (hpolicy : client.redirectPolicy = .none) (h : Resolved url client.resolved log)
    {ip : IpAddr} (hip : client.Connects url ip) : Allowed ip log := by
  obtain ⟨haddrs, hliteral⟩ := h host hhost
  cases hip with
  | literal hhost' hlit =>
    obtain rfl := Option.some.inj (hhost.symm.trans hhost')
    exact hliteral ip hlit
  | pinned _ _ _ hmem => exact haddrs _ hmem
  | lookup _ hhost' _ hstr =>
    obtain rfl := Option.some.inj (hhost.symm.trans hhost')
    exact absurd hclient.symm hstr
  | redirected _ hne => exact absurd hpolicy hne

theorem triple_send (hE : ∀ log, At net (n + 1) log → E log) (client : Client) (request : Request) (timeout : Nat) :
    Triple (fun log => At net n log ∧ SendOk net client request log) (send net client request timeout)
      (fun _ log => At net (n + 1) log) E := by
  refine triple_reads_bind (A := fun _ => True) (fun _ _ => trivial) fun answer _ => ?_
  refine triple_bind (Q := fun _ log => At net (n + 1) log) (triple_writes ?_) fun _ => ?_
  · rintro log ⟨⟨hguard, hsends⟩, hok⟩
    refine ⟨⟨hok, hguard⟩, ?_⟩
    rw [← hsends, sends, List.countP_cons_of_pos rfl]
    rfl
  · rcases answer with (_ | _) | response
    · exact triple_throw hE
    · exact triple_throw hE
    · exact triple_pure fun _ h => h

theorem buildPinnedClient_ok {host : Str} {resolved : List SocketAddr} {timeout : Nat} {policy : RedirectPolicy}
    {client : Client} (h : buildPinnedClient net host resolved timeout policy = .ok client) :
    client = ⟨host, resolved, timeout, policy⟩ := by
  unfold buildPinnedClient at h
  dsimp only at h
  split at h
  · cases h
  · cases h
    rfl

/-- What follows once the host of a URL is resolved and a client is pinned to its addresses. -/
theorem triple_pinned (hE : ∀ log, At net n log → E log) (url : Url) (timeout : Nat) {α : Type}
    {next : Host → Client → Exec α} {R : α → Log → Prop}
    (hnext : ∀ host client, url.host = some host → Triple (fun log => At net n log ∧
      ∀ ip, client.Connects url ip → Allowed ip log) (next host client) R E) :
    Triple (At net n)
      (do
        let addrs ← validateAndResolveUrl net url
        let host ← requireHost url
        let client ← buildPinnedClient net host.str addrs timeout .none
        next host client) R E := by
  refine triple_bind (triple_validateAndResolveUrl hE url) fun addrs => ?_
  refine triple_lift_bind (fun log h => hE log h.1) fun host hhost => ?_
  refine triple_lift_bind (fun log h => hE log h.1) fun client hclient => ?_
  obtain rfl := buildPinnedClient_ok hclient
  have hhost := requireHost_ok hhost
  refine triple_conseq (hnext host _ hhost) ?_ fun _ _ h => h
  exact fun log h => ⟨h.1, fun ip hip => allowed_of_connects hhost rfl rfl h.2 hip⟩

/-- The URL of the next request: of the scheme `https`, and scanned unless it is the first one. -/
def Ready (net : Network) (n : Nat) (url : Url) : Prop :=
  url.scheme = "https".toList ∧ (n = 0 ∨ scanRequest net url [] none = .ok ())

theorem triple_hop (hE : ∀ log, At net n log → E log) (hE' : ∀ log, At net (n + 1) log → E log) (timeout : Nat)
    {url : Url} (hurl : Ready net n url) :
    Triple (At net n) (hop net timeout url) (fun _ log => At net (n + 1) log) E := by
  refine triple_pinned hE url timeout fun host client _ => ?_
  refine triple_conseq (triple_send hE' client _ timeout) ?_ fun _ _ h => h
  rintro log ⟨hat, hallowed⟩
  refine ⟨hat, hallowed, hurl.1, ?_⟩
  rw [hat.2]
  exact hurl.2

/-! ## The redirect loop -/

theorem validateUrl_ok {text : Str} {url : Url} (h : validateUrl net text = .ok url) :
    net.urls.parse text = .ok url ∧ url.scheme = "https".toList := by
  unfold validateUrl at h
  split at h
  · cases h
  · rename_i parsed hparse
    split_ifs at h with hscheme
    split at h
    · cases h
    · dsimp only at h
      split_ifs at h
      cases h
      exact ⟨hparse, not_not.mp hscheme⟩

theorem nextUrl_ok {url next : Url} {response : Response} (h : nextUrl net url response = .ok next) :
    next.scheme = "https".toList := by
  unfold nextUrl at h
  split at h
  · cases h
  · rename_i location _
    obtain ⟨text, -, hvalid⟩ : ∃ text, _ ∧ validateUrl net text = .ok next := by
      split at h
      · exact ⟨location, trivial, h⟩
      · split at h
        · rename_i joined _
          exact ⟨joined.asStr, trivial, h⟩
        · cases h
    exact (validateUrl_ok hvalid).2

/-- The loop sends one request more than redirects remain, at most. -/
theorem triple_followRedirects (timeout : Nat) : ∀ (remaining n : Nat) (url : Url),
    (∀ m ≤ n + remaining + 1, ∀ log, At net m log → E log) → Ready net n url →
    Triple (At net n) (followRedirects net timeout remaining url)
      (fun _ log => ∃ m ≤ n + remaining + 1, At net m log) E
  | 0, n, url, hE, hurl => by
    refine triple_bind (triple_hop (hE n (by omega)) (hE (n + 1) (by omega)) timeout hurl) fun response => ?_
    by_cases hredirect : isRedirect response.status = true
    · rw [if_pos hredirect]
      exact triple_throw (hE (n + 1) (by omega))
    · rw [if_neg hredirect]
      exact triple_pure fun log h => ⟨n + 1, by omega, h⟩
  | remaining + 1, n, url, hE, hurl => by
    refine triple_bind (triple_hop (hE n (by omega)) (hE (n + 1) (by omega)) timeout hurl) fun response => ?_
    by_cases hredirect : isRedirect response.status = true
    · rw [if_pos hredirect]
      refine triple_lift_bind (hE (n + 1) (by omega)) fun next hnext => ?_
      refine triple_lift_bind (hE (n + 1) (by omega)) fun _ hscan => ?_
      have hrest := triple_followRedirects timeout remaining (n + 1) next (fun m hm => hE m (by omega))
        ⟨nextUrl_ok hnext, .inr hscan⟩
      refine triple_conseq hrest (fun _ h => h) ?_
      rintro _ log ⟨m, hm, hat⟩
      exact ⟨m, by omega, hat⟩
    · rw [if_neg hredirect]
      exact triple_pure fun log h => ⟨n + 1, by omega, h⟩

/-! ## The whole call -/

theorem triple_sendOnce (hE : ∀ log, At net (n + 1) log → E log) (client : Client) (request : Request) (timeout : Nat) :
    Triple (fun log => At net n log ∧ SendOk net client request log) (sendOnce net client request timeout)
      (fun _ log => At net (n + 1) log) E := by
  refine triple_bind (triple_send hE client request timeout) fun response => ?_
  by_cases hredirect : isRedirect response.status = true
  · rw [if_pos hredirect]
    exact triple_throw hE
  · rw [if_neg hredirect]
    exact triple_pure fun _ h => h

/-- Injected parameters change the query of a URL only. -/
theorem withQueryParams_eq (net : Network) (tool : HttpTool) (ctx : JobContext) (host : Str) (url : Url) :
    ∃ query, withQueryParams net tool ctx host url = { url with query := query } := by
  unfold withQueryParams
  generalize (injectedFor tool ctx host).flatMap InjectedCredentials.queryParams = pairs
  induction pairs generalizing url with
  | nil => exact ⟨url.query, rfl⟩
  | cons pair pairs ih => exact ih (url.appendPair net.urls pair.1 pair.2)

theorem Client.Connects.of_query {client : Client} {url : Url} {query : Option Str} {ip : IpAddr}
    (h : client.Connects { url with query := query } ip) : client.Connects url ip := by
  cases h with
  | literal hhost hlit => exact .literal hhost hlit
  | pinned hhost hlit hstr hmem => exact .pinned hhost hlit hstr hmem
  | lookup _ hhost hlit hstr => exact .lookup ip hhost hlit hstr
  | redirected _ hpolicy => exact .redirected ip hpolicy

variable (net) in
/-- What is claimed of the log of a call. -/
structure Served (tool : HttpTool) (params : Json) (ctx : JobContext) (log : Log) : Prop where
  guarded : Guarded net log
  bounded : sends log ≤ MAX_REDIRECTS + 1
  simple : sends log ≤ 1 ∨ SimpleGet net tool params ctx

theorem At.served {tool : HttpTool} {params : Json} {ctx : JobContext} {m : Nat} (hm : m ≤ 1) {log : Log}
    (h : At net m log) : Served net tool params ctx log := by
  refine ⟨h.1, ?_, .inl ?_⟩
  · have := h.2
    simp only [MAX_REDIRECTS]
    omega
  · have := h.2
    omega

theorem SimpleGet.served {tool : HttpTool} {params : Json} {ctx : JobContext} (hsimple : SimpleGet net tool params ctx)
    {m : Nat} (hm : m ≤ MAX_REDIRECTS + 1) {log : Log} (h : At net m log) : Served net tool params ctx log := by
  refine ⟨h.1, ?_, .inr hsimple⟩
  rw [h.2]
  exact hm

theorem triple_fetch {tool : HttpTool} {params : Json} {ctx : JobContext} {method : Str} {client : Client}
    {request : Request} {headers : List (Str × Str)} {body : Option (Str × Bool)} (timeout : Nat)
    (hsimple : isSimpleGet method headers body = true → SimpleGet net tool params ctx)
    (hscheme : request.url.scheme = "https".toList) :
    Triple (fun log => At net 0 log ∧ ∀ ip, client.Connects request.url ip → Allowed ip log)
      (fetch net method client request headers body timeout) (fun _ log => Served net tool params ctx log)
      (Served net tool params ctx) := by
  unfold fetch
  by_cases hget : isSimpleGet method headers body = true
  · rw [if_pos hget]
    have hloop := triple_followRedirects (E := Served net tool params ctx) timeout MAX_REDIRECTS 0 request.url
      (fun m hm log h => (hsimple hget).served (by omega) h) ⟨hscheme, .inl rfl⟩
    refine triple_conseq hloop (fun log h => h.1) ?_
    rintro _ log ⟨m, hm, hat⟩
    exact (hsimple hget).served (by omega) hat
  · rw [if_neg hget]
    have hserved : ∀ log, At net (0 + 1) log → Served net tool params ctx log := fun log h => h.served (by omega)
    refine triple_bind (triple_conseq (triple_sendOnce hserved client request timeout) ?_ fun _ _ h => h)
        fun response =>
      triple_pure hserved
    rintro log ⟨hat, hallowed⟩
    exact ⟨hat, hallowed, hscheme, .inl hat.2⟩

/-- The test of the code for a simple GET, in terms of the parameters. -/
theorem simpleGet_of {tool : HttpTool} {params : Json} {ctx : JobContext} {text : Str} {url : Url} {host : Host}
    {ownHeaders : List (Str × Str)} (htext : requireStr params "url".toList = .ok text)
    (hparse : net.urls.parse text = .ok url) (hhost : url.host = some host)
    (hheaders : parseHeadersParam net (params.get "headers".toList) = .ok ownHeaders)
    (h : isSimpleGet (methodParam params) (ownHeaders ++ injectedHeaders tool ctx host.str)
      (bodyParam net (params.get "body".toList)) = true) : SimpleGet net tool params ctx := by
  simp only [isSimpleGet, Bool.and_eq_true, List.isEmpty_iff, List.append_eq_nil_iff, Option.isNone_iff_eq_none] at h
  obtain ⟨⟨hmethod, hown, hinjected⟩, hbody⟩ := h
  refine ⟨hmethod, ?_, hbody, ?_⟩
  · rw [hheaders, hown]
  · intro text' url' host' htext' hparse' hhost'
    obtain rfl := Except.ok.inj (htext.symm.trans htext')
    obtain rfl := Except.ok.inj (hparse.symm.trans hparse')
    obtain rfl := Option.some.inj (hhost.symm.trans hhost')
    exact hinjected

variable (net) in
theorem triple_execute (tool : HttpTool) (params : Json) (ctx : JobContext) :
    Triple (At net 0) (execute net tool params ctx) (fun _ log => Served net tool params ctx log)
      (Served net tool params ctx) := by
  have hE : ∀ log, At net 0 log → Served net tool params ctx log := fun log h => h.served (by omega)
  refine triple_lift_bind hE fun text htext => ?_
  refine triple_lift_bind hE fun parsed hparsed => ?_
  obtain ⟨hparse, hscheme⟩ := validateUrl_ok hparsed
  refine triple_pinned hE parsed 30 fun host client hhost => ?_
  have hE' : ∀ log, (At net 0 log ∧ ∀ ip, client.Connects parsed ip → Allowed ip log) →
      Served net tool params ctx log := fun log h => hE log h.1
  refine triple_lift_bind hE' fun ownHeaders hheaders => ?_
  refine triple_lift_bind hE' fun timeoutSecs _ => ?_
  refine triple_lift_bind hE' fun saveTo _ => ?_
  refine triple_lift_bind hE' fun verb _ => ?_
  obtain ⟨query, hquery⟩ := withQueryParams_eq net tool ctx host.str parsed
  refine triple_lift_bind hE' fun _ _ => ?_
  dsimp only
  split
  · exact triple_pure hE'
  · refine triple_bind (triple_conseq (triple_fetch _ (simpleGet_of htext hparse hhost hheaders) ?_) ?_ fun _ _ h => h)
      fun answer => triple_lift (fun _ h => h) fun _ _ _ h => h
    · rw [hquery]
      exact hscheme
    · rintro log ⟨hat, hallowed⟩
      refine ⟨hat, fun ip hip => hallowed ip ?_⟩
      rw [hquery] at hip
      exact hip.of_query

end Guarded

/-- For any parameters, name servers and servers: the requests of a call are guarded, they are bounded, and only a
simple GET follows a redirect. -/
theorem execute_guarded (net : Network) (tool : HttpTool) (params : Json) (ctx : JobContext) :
    Served net tool params ctx (exec (execute net tool params ctx) []).2 :=
  (triple_execute net tool params ctx).final ⟨trivial, rfl⟩

end Ironclaw.Tools.Http

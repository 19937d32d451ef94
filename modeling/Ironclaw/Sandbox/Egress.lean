import Ironclaw.Sandbox.Proxy

/-!
# What a sandbox reaches through its proxy

A contact is contained when the decider would allow it and, if the resolved credential shows in what is sent, when the
mapping of the credential has a pattern for its host. The policy is asked once, about the URL that the container sends;
the client then follows redirects by itself, and takes along the headers that are not sensitive and, as the Referer, the
URL before.

- `After`, `after_redirected`: what is sent after some redirects;
- `egress_iff`: all contacts are contained exactly when the redirects lead to hosts that are allowed, and that the
  credential is for if it shows in the URL, in a header that is kept or in the Referer.
-/

namespace Ironclaw.Sandbox

open Text Net Secrets

/-! ## Redirects -/

/-- A redirect that is followed. -/
structure Hop where
  previous : Url
  next : Url
  deriving DecidableEq

def Hop.sameHost (hop : Hop) : Bool := Sandbox.sameHost hop.previous hop.next

/-- The Referer headers after some redirects: the one that was set last, else those of the first request. -/
def refererHeaders (first : Outgoing) (hops : List Hop) : List Header :=
  match (hops.filterMap fun hop => makeReferer hop.next hop.previous).getLast? with
  | some referer => [referer]
  | none => first.headers.filter fun h => isReferer h.name

/-- What is sent after some redirects of the first request. -/
structure After (first : Outgoing) (hops : List Hop) (out : Outgoing) : Prop where
  url : out.url = (hops.getLast?.map Hop.next).getD first.url
  host : (∀ hop ∈ hops, hop.sameHost = true) → out.url.hostStr = first.url.hostStr
  headers : ∀ h, isReferer h.name = false →
    (h ∈ out.headers ↔ h ∈ first.headers ∧ (isSensitive h.name = true → ∀ hop ∈ hops, hop.sameHost = true))
  referers : ∀ h, isReferer h.name = true → (h ∈ out.headers ↔ h ∈ refererHeaders first hops)

theorem after_nil (first : Outgoing) : After first [] first where
  url := rfl
  host := fun _ => rfl
  headers := fun _ _ => ⟨fun hh => ⟨hh, fun _ _ hop => absurd hop List.not_mem_nil⟩, fun hh => hh.1⟩
  referers := fun _ hr => ⟨fun hh => List.mem_filter.mpr ⟨hh, hr⟩, fun hh => (List.mem_filter.mp hh).1⟩

theorem hostStr_of_sameHost {url next : Url} (h : sameHost url next = true) : url.hostStr = next.hostStr :=
  beq_iff_eq.mp (Bool.and_eq_true_iff.mp h).1

/-- The Referer header is not one of the sensitive ones. -/
theorem not_sensitive_of_referer {name : Str} (h : isReferer name = true) : isSensitive name = false := by
  rw [isReferer, eqIgnoreAsciiCase, beq_iff_eq] at h
  unfold isSensitive eqIgnoreAsciiCase
  rw [h]
  decide

theorem isReferer_of_makeReferer {next previous : Url} {h : Header} (hh : makeReferer next previous = some h) :
    isReferer h.name = true := by
  unfold makeReferer at hh
  split at hh
  · cases hh
  · cases hh
    exact beq_self_eq_true _

theorem mem_insertReferer {headers : List Header} {referer : Option Header} {h : Header} :
    h ∈ insertReferer headers referer ↔
      referer = some h ∨ h ∈ headers ∧ (referer = none ∨ isReferer h.name = false) := by
  cases referer with
  | none => simp [insertReferer]
  | some r =>
    rw [insertReferer, List.mem_append, List.mem_filter, List.mem_singleton, Option.some.injEq, or_comm,
      eq_comm (a := r)]
    simp

/-- One more redirect. -/
theorem after_redirected {first request : Outgoing} {hops : List Hop} (h : After first hops request) (answer : Upstream)
    (next : Url) : After first (hops ++ [⟨request.url, next⟩]) (request.redirected answer next) where
  url := by
    rw [List.getLast?_concat]
    rfl
  host := by
    intro hall
    have hlast : sameHost request.url next = true := hall _ (List.mem_append_right _ (List.mem_singleton_self _))
    rw [← h.host fun hop hhop => hall hop (List.mem_append_left _ hhop)]
    exact (hostStr_of_sameHost hlast).symm
  headers := by
    intro hd hr
    have hno : makeReferer next request.url ≠ some hd := by
      intro hmake
      rw [isReferer_of_makeReferer hmake] at hr
      cases hr
    have hmem : hd ∈ (request.redirected answer next).headers ↔
        hd ∈ request.headers ∧ (isSensitive hd.name = true → sameHost request.url next = true) := by
      unfold Outgoing.redirected
      rw [mem_insertReferer]
      by_cases hsame : sameHost request.url next = true
      · simp [hno, hr, hsame]
      · simp [hno, hr, hsame]
    rw [hmem, h.headers hd hr, and_assoc]
    refine and_congr_right fun _ => ⟨fun hkept hs hop hhop => ?_, fun hall => ⟨fun hs hop hhop => ?_, fun hs => ?_⟩⟩
    · rcases List.mem_append.mp hhop with hhop | hhop
      · exact hkept.1 hs hop hhop
      · rw [List.mem_singleton.mp hhop]
        exact hkept.2 hs
    · exact hall hs hop (List.mem_append_left _ hhop)
    · exact hall hs _ (List.mem_append_right _ (List.mem_singleton_self _))
  referers := by
    intro hd hr
    have hs := not_sensitive_of_referer hr
    have hkept : hd ∈ (if sameHost request.url next then request.headers
        else request.headers.filter fun x => !isSensitive x.name) ↔ hd ∈ request.headers := by
      split
      · exact Iff.rfl
      · simp [hs]
    unfold Outgoing.redirected
    rw [mem_insertReferer, hkept, h.referers hd hr, refererHeaders, refererHeaders, List.filterMap_append]
    cases hmake : makeReferer next request.url with
    | none =>
      have hnil : [(⟨request.url, next⟩ : Hop)].filterMap (fun hop => makeReferer hop.next hop.previous) = [] := by
        simp [hmake]
      rw [hnil, List.append_nil]
      simp
    | some r =>
      have hone : [(⟨request.url, next⟩ : Hop)].filterMap (fun hop => makeReferer hop.next hop.previous) = [r] := by
        simp [hmake]
      rw [hone, List.getLast?_concat]
      simp [hr, eq_comm]

section Redirects

variable (urls : UrlParser)

/-- The redirects that are followed, up to a number of them. -/
def hopsFrom : (remaining : Nat) → Url → List Upstream → List Hop
  | 0, _, _ => []
  | _ + 1, _, [] => []
  | remaining + 1, url, answer :: answers =>
    match redirectTarget urls url answer with
    | none => []
    | some next => ⟨url, next⟩ :: hopsFrom remaining next answers

/-- One request is sent at first, and one after each redirect. -/
theorem follow_after {first : Outgoing} :
    ∀ (remaining : Nat) (request : Outgoing) (answers : List Upstream) (hops : List Hop),
    After first hops request → List.Forall₂ (fun more out => After first (hops ++ more) out)
      (hopsFrom urls remaining request.url answers).inits (follow urls remaining request answers).1
  | 0, request, [], hops, h => by
    simpa [hopsFrom, follow] using h
  | _ + 1, request, [], hops, h => by
    simpa [hopsFrom, follow] using h
  | 0, request, answer :: answers, hops, h => by
    unfold follow
    cases redirectTarget urls request.url answer <;> simpa [hopsFrom] using h
  | remaining + 1, request, answer :: answers, hops, h => by
    unfold follow hopsFrom
    cases redirectTarget urls request.url answer with
    | none => simpa using h
    | some next =>
      have hrest := follow_after remaining (request.redirected answer next) answers _ (after_redirected h answer next)
      rw [List.inits_cons]
      refine .cons (by rwa [List.append_nil]) (List.forall₂_map_left_iff.mpr ?_)
      refine hrest.imp fun more out hmore => ?_
      rwa [List.append_assoc] at hmore

theorem exists_of_forall₂ {α β : Type*} {R : α → β → Prop} {as : List α} {bs : List β} (h : List.Forall₂ R as bs) :
    ∀ b ∈ bs, ∃ a ∈ as, R a b := by
  induction h with
  | nil => exact fun _ hb => absurd hb List.not_mem_nil
  | @cons a b as bs hab _ ih =>
    intro b' hb
    rcases List.mem_cons.mp hb with rfl | hb
    · exact ⟨a, List.mem_cons_self, hab⟩
    · obtain ⟨a', ha, hab'⟩ := ih b' hb
      exact ⟨a', List.mem_cons_of_mem _ ha, hab'⟩

/-- Every request is sent after some of the redirects. -/
theorem exists_after {first out : Outgoing} {remaining : Nat} {answers : List Upstream}
    (h : out ∈ (follow urls remaining first answers).1) :
    ∃ hops, hops <+: hopsFrom urls remaining first.url answers ∧ After first hops out := by
  obtain ⟨hops, hhops, hafter⟩ :=
    exists_of_forall₂ (follow_after urls remaining first answers [] (after_nil first)) out h
  exact ⟨hops, (List.mem_inits _ _).mp hhops, hafter⟩

/-- After each of the redirects a request is sent. -/
theorem exists_sent {first : Outgoing} {remaining : Nat} {answers : List Upstream} {hops : List Hop}
    (h : hops <+: hopsFrom urls remaining first.url answers) :
    ∃ out ∈ (follow urls remaining first answers).1, After first hops out :=
  exists_of_forall₂ (follow_after urls remaining first answers [] (after_nil first)).flip hops
    ((List.mem_inits _ _).mpr h)

end Redirects

/-- The host of a URL, as the policy sees it. -/
def urlHost (cm : CaseMap) (url : Url) : Option Str := url.hostStr.map fun h => cm.lower (stripBrackets h)

/-- What a server sees of a URL. -/
def sentText (url : Url) : Str := { url with fragment := none }.asStr

/-! ## Contained contacts -/

section Egress

/-! `shown credential text` says that a text has a credential in it, in clear or encoded; the results hold for every
such test. -/

variable (shown : Str → Str → Bool)
variable (cm : CaseMap) (urls : UrlParser) (validHeader : Str → Str → Bool) (d : DefaultPolicyDecider)
  (resolver : Str → Option Str) (req : IncomingRequest)

/-- The credential shows in the URL or in a header of the request. -/
def Outgoing.shows (out : Outgoing) (credential : Str) : Bool :=
  shown credential (sentText out.url) || out.headers.any fun h => shown credential h.value

/-- The decider would allow the request that makes this contact. -/
def Contact.Allowed : Contact → Prop
  | .tunnel request host => (d.decide cm { request with host := host }).isAllowed = true
  | .forwarded out =>
    ∃ nr, NetworkRequest.ofUrl cm out.method out.url.asStr out.url = some nr ∧ (d.decide cm nr).isAllowed = true

/-- The mapping whose credential goes with a request. -/
def credentialMapping : Option CredentialMapping :=
  (NetworkRequest.fromUrl cm urls req.method req.uri).bind fun nr => d.findCredential cm nr.host

/-- The credential that is resolved for a request. -/
def credential : Option Str := (credentialMapping cm urls d req).bind fun m => resolver m.secretName

/-- The mapping of the credential has a pattern for the host of this URL. -/
def ForUrl (url : Url) : Prop :=
  ∃ m host, credentialMapping cm urls d req = some m ∧ urlHost cm url = some host ∧ mappingFor cm host m = true

/-- A credential is sent to hosts that it is for. -/
def Contact.Entitled : Contact → Prop
  | .tunnel _ _ => True
  | .forwarded out =>
    ∀ c, credential cm urls d resolver req = some c → out.shows shown c = true → ForUrl cm urls d req out.url

/-- The policy of the proxy covers a contact. -/
structure Contained (contact : Contact) : Prop where
  allowed : contact.Allowed cm d
  entitled : contact.Entitled shown cm urls d resolver req

/-! ## The condition -/

def HostAllowed (host : Str) : Prop := d.allowlist.isAllowed cm host = .allowed

/-- The request that is sent for a request of a container, if there is one. -/
def outgoing : Option Outgoing :=
  if req.method = "CONNECT".toList then none
  else
    (NetworkRequest.fromUrl cm urls req.method req.uri).bind fun nr =>
      let decision := d.decide cm nr
      if decision.isAllowed then (prepare cm urls validHeader (.new d resolver) req decision).toOption else none

/-- The credential goes along with the last of some redirects: it shows in the URL that the redirect leads to, in a
header of the first request that clients keep, or in the Referer. -/
def Exposed (credential : Str) (first : Outgoing) (hops : List Hop) (next : Url) : Prop :=
  shown credential (sentText next) = true ∨
    (∃ h ∈ first.headers, isSensitive h.name = false ∧ isReferer h.name = false ∧ shown credential h.value = true) ∨
    ∃ h ∈ refererHeaders first hops, shown credential h.value = true

/-- When the proxy does what it is for. The target of a tunnel has no user part, or is a host with it that is allowed.
Every redirect of the first ten leads to a host that is allowed, and that the credential is for when it goes along. -/
structure Orderly (answers : List Upstream) : Prop where
  tunnel : req.method = "CONNECT".toList → ∀ a, req.authority = some a → HostAllowed cm d a.host → ∀ host,
    a.connectHost = some host → a.userinfo = none ∨ HostAllowed cm d host
  redirects : ∀ out, outgoing cm urls validHeader d resolver req = some out → ∀ hops hop,
    hops ++ [hop] <+: hopsFrom urls 10 out.url answers →
      (∃ host, urlHost cm hop.next = some host ∧ HostAllowed cm d host) ∧
        ∀ c, credential cm urls d resolver req = some c → Exposed shown c out (hops ++ [hop]) hop.next →
          ForUrl cm urls d req hop.next

variable {shown cm urls validHeader d resolver req}

theorem isAllowed_decide {nr : NetworkRequest} : (d.decide cm nr).isAllowed = true ↔ HostAllowed cm d nr.host := by
  unfold DefaultPolicyDecider.decide HostAllowed
  cases d.allowlist.isAllowed cm nr.host with
  | denied reason => simp [NetworkDecision.isAllowed]
  | allowed => cases d.findCredential cm nr.host <;> simp [NetworkDecision.isAllowed]

theorem ofUrl_eq_some {method text : Str} {url : Url} {nr : NetworkRequest} :
    NetworkRequest.ofUrl cm method text url = some nr ↔
      isHttp url = true ∧ ∃ host, urlHost cm url = some host ∧ nr = ⟨cm.upper method, text, host, url.path⟩ := by
  unfold NetworkRequest.ofUrl urlHost
  by_cases hhttp : isHttp url = true
  · cases url.hostStr with
    | none => simp [hhttp]
    | some h => simp [hhttp, eq_comm]
  · simp [hhttp]

/-- A request is allowed by the host of its URL. -/
theorem allowed_forwarded {out : Outgoing} : (Contact.forwarded out).Allowed cm d ↔
    isHttp out.url = true ∧ ∃ host, urlHost cm out.url = some host ∧ HostAllowed cm d host := by
  constructor
  · rintro ⟨nr, hnr, hallowed⟩
    obtain ⟨hhttp, host, hhost, rfl⟩ := ofUrl_eq_some.1 hnr
    exact ⟨hhttp, host, hhost, isAllowed_decide.1 hallowed⟩
  · rintro ⟨hhttp, host, hhost, hallowed⟩
    exact ⟨_, ofUrl_eq_some.2 ⟨hhttp, host, hhost, rfl⟩, isAllowed_decide.2 hallowed⟩

theorem isHttp_of_redirectTarget {url next : Url} {answer : Upstream} (h : redirectTarget urls url answer = some next) :
    isHttp next = true := by
  unfold redirectTarget at h
  split_ifs at h
  obtain ⟨location, -, hjoin⟩ := Option.bind_eq_some_iff.mp h
  split at hjoin
  · cases hjoin
  · split_ifs at hjoin with hcond
    cases hjoin
    exact (Bool.and_eq_true_iff.mp hcond).1

theorem isHttp_of_mem_hopsFrom : ∀ {remaining : Nat} {url : Url} {answers : List Upstream} {hop : Hop},
    hop ∈ hopsFrom urls remaining url answers → isHttp hop.next = true
  | 0, _, _, _, h => absurd h List.not_mem_nil
  | _ + 1, _, [], _, h => absurd h List.not_mem_nil
  | remaining + 1, url, answer :: answers, hop, h => by
    unfold hopsFrom at h
    cases htarget : redirectTarget urls url answer with
    | none =>
      rw [htarget] at h
      exact absurd h List.not_mem_nil
    | some target =>
      rw [htarget] at h
      rcases List.mem_cons.mp h with rfl | h
      · exact isHttp_of_redirectTarget htarget
      · exact isHttp_of_mem_hopsFrom h

/-! ## The first request -/

theorem contacts_forwardRequest (decision : NetworkDecision) (answers : List Upstream) :
    (forwardRequest cm urls validHeader (.new d resolver) req decision answers).1 =
      (prepare cm urls validHeader (.new d resolver) req decision).toOption.elim [] fun out =>
        (follow urls 10 out answers).1.map Contact.forwarded := by
  unfold forwardRequest
  cases prepare cm urls validHeader (.new d resolver) req decision <;> rfl

/-- The contacts of a request that is not a CONNECT. -/
theorem contacts_of_plain (hmethod : req.method ≠ "CONNECT".toList) (answers : List Upstream) :
    (handleRequest cm urls validHeader (.new d resolver) req answers).1 =
      (outgoing cm urls validHeader d resolver req).elim [] fun out =>
        (follow urls 10 out answers).1.map Contact.forwarded := by
  unfold handleRequest outgoing
  rw [if_neg hmethod, if_neg hmethod]
  cases NetworkRequest.fromUrl cm urls req.method req.uri with
  | none => rfl
  | some nr =>
    have hd : (ProxyState.new d resolver).decider = d := rfl
    simp only [hd, Option.bind_some]
    cases d.decide cm nr with
    | deny reason => rfl
    | allow => exact contacts_forwardRequest .allow answers
    | allowWithCredentials secretName location => exact contacts_forwardRequest _ answers

theorem injectedUrl_eq (location : CredentialLocation) (credential : Str) (url : Url) :
    ∃ query, injectedUrl urls location credential url = { url with query := query } := by
  cases location with
  | queryParam name => exact ⟨_, rfl⟩
  | _ => exact ⟨url.query, rfl⟩

variable (cm urls d req) in
/-- What is known of the request that is sent first. -/
structure First (out : Outgoing) (nr : NetworkRequest) : Prop where
  fromUrl : NetworkRequest.fromUrl cm urls req.method req.uri = some nr
  allowed : HostAllowed cm d nr.host
  http : isHttp out.url = true
  host : urlHost cm out.url = some nr.host

variable (cm urls req) in
/-- The request that is built keeps the host. -/
theorem buildRequest_url (state : ProxyState) (url : Url) (decision : NetworkDecision) (body : List UInt8) :
    ∃ query, (buildRequest cm urls state req url decision body).url = { url with query := query } := by
  unfold buildRequest
  cases resolvedCredential state decision with
  | none => exact ⟨url.query, rfl⟩
  | some pair => exact injectedUrl_eq pair.1 pair.2 url

theorem prepare_ok {state : ProxyState} {decision : NetworkDecision} {out : Outgoing}
    (h : prepare cm urls validHeader state req decision = .ok out) :
    ∃ url body, urls.parse req.uri = .ok url ∧ out = buildRequest cm urls state req url decision body := by
  unfold prepare at h
  cases hbody : req.body with
  | error e =>
    rw [hbody] at h
    cases h
  | ok body =>
    cases hparse : urls.parse req.uri with
    | error e =>
      rw [hbody, hparse] at h
      cases h
    | ok url =>
      simp only [hbody, hparse] at h
      split_ifs at h
      cases h
      exact ⟨url, body, rfl, rfl⟩

/-- Only the query of a URL was changed. -/
theorem urlHost_query (url : Url) (query : Option Str) : urlHost cm { url with query := query } = urlHost cm url := rfl

theorem first_of_outgoing {out : Outgoing} (h : outgoing cm urls validHeader d resolver req = some out) :
    ∃ nr, First cm urls d req out nr := by
  unfold outgoing at h
  split_ifs at h
  obtain ⟨nr, hnr, h⟩ := Option.bind_eq_some_iff.mp h
  dsimp only at h
  split_ifs at h with hallowed
  have hprepare : prepare cm urls validHeader (.new d resolver) req (d.decide cm nr) = .ok out := by
    cases hp : prepare cm urls validHeader (.new d resolver) req (d.decide cm nr) with
    | error e =>
      rw [hp] at h
      cases h
    | ok out' =>
      rw [hp] at h
      exact congrArg Except.ok (Option.some.inj h)
  obtain ⟨url, body, hparse, rfl⟩ := prepare_ok hprepare
  obtain ⟨query, hquery⟩ := buildRequest_url cm urls req (.new d resolver) url (d.decide cm nr) body
  have hof : NetworkRequest.ofUrl cm req.method req.uri url = some nr := by
    unfold NetworkRequest.fromUrl at hnr
    rwa [hparse] at hnr
  obtain ⟨hhttp, host, hhost, heq⟩ := ofUrl_eq_some.1 hof
  refine ⟨nr, hnr, isAllowed_decide.1 hallowed, ?_, ?_⟩
  · rw [hquery]
    exact hhttp
  · rw [hquery, urlHost_query, hhost, heq]

/-! ## All contacts -/

/-- The first host is one that the credential is for. -/
theorem First.forUrl {out : Outgoing} {nr : NetworkRequest} (h : First cm urls d req out nr) {c : Str}
    (hc : credential cm urls d resolver req = some c) {url : Url} (hurl : url.hostStr = out.url.hostStr) :
    ForUrl cm urls d req url := by
  obtain ⟨m, hm, -⟩ := Option.bind_eq_some_iff.mp hc
  have hfind : d.findCredential cm nr.host = some m := by
    rwa [credentialMapping, h.fromUrl] at hm
  refine ⟨m, nr.host, hm, ?_, List.find?_some hfind⟩
  rw [← h.host]
  unfold urlHost
  rw [hurl]

/-- Without a redirect, or with redirects to the same host, the credential is where it belongs; else it goes along. -/
theorem After.exposed {first out : Outgoing} {hops : List Hop} {c : Str} (h : After first hops out)
    (hshows : out.shows shown c = true) : (∀ hop ∈ hops, hop.sameHost = true) ∨ Exposed shown c first hops out.url := by
  rcases Bool.or_eq_true_iff.mp hshows with hurl | hheader
  · exact .inr (.inl hurl)
  · obtain ⟨hd, hhd, hshown⟩ := List.any_eq_true.mp hheader
    cases hr : isReferer hd.name with
    | true => exact .inr (.inr (.inr ⟨hd, (h.referers hd hr).mp hhd, hshown⟩))
    | false =>
      obtain ⟨hfirst, hsame⟩ := (h.headers hd hr).mp hhd
      cases hs : isSensitive hd.name with
      | true => exact .inl (hsame hs)
      | false => exact .inr (.inr (.inl ⟨hd, hfirst, hs, hr, hshown⟩))

/-- What goes along is sent. -/
theorem After.shows {first out : Outgoing} {hops : List Hop} {c : Str} (h : After first hops out)
    (hexposed : Exposed shown c first hops out.url) : out.shows shown c = true := by
  refine Bool.or_eq_true_iff.mpr ?_
  rcases hexposed with hurl | ⟨hd, hhd, hs, hr, hshown⟩ | ⟨hd, hhd, hshown⟩
  · exact .inl hurl
  · have hkept := (h.headers hd hr).mpr ⟨hhd, fun hsens => by rw [hs] at hsens; cases hsens⟩
    exact .inr (List.any_eq_true.mpr ⟨hd, hkept, hshown⟩)
  · have hr : isReferer hd.name = true := by
      unfold refererHeaders at hhd
      split at hhd
      · next referer hlast =>
        obtain ⟨hop, -, hmake⟩ := List.mem_filterMap.mp (List.mem_of_getLast? hlast)
        rw [List.mem_singleton.mp hhd]
        exact isReferer_of_makeReferer hmake
      · exact (List.mem_filter.mp hhd).2
    exact .inr (List.any_eq_true.mpr ⟨hd, (h.referers hd hr).mpr hhd, hshown⟩)

theorem contained_of_mem_follow {answers : List Upstream} {out : Outgoing}
    (hout : outgoing cm urls validHeader d resolver req = some out)
    (h : Orderly shown cm urls validHeader d resolver req answers) :
    ∀ sent ∈ (follow urls 10 out answers).1, Contained shown cm urls d resolver req (.forwarded sent) := by
  obtain ⟨nr, hfirst⟩ := first_of_outgoing hout
  intro sent hsent
  obtain ⟨hops, hhops, hafter⟩ := exists_after urls hsent
  rcases List.eq_nil_or_concat' hops with rfl | ⟨hops, hop, rfl⟩
  · -- the first request
    have hurl : sent.url = out.url := hafter.url
    refine ⟨allowed_forwarded.2 ?_, fun c hc _ => hfirst.forUrl hc (congrArg Url.hostStr hurl)⟩
    rw [hurl]
    exact ⟨hfirst.http, nr.host, hfirst.host, hfirst.allowed⟩
  · have hurl : sent.url = hop.next := by
      rw [hafter.url, List.getLast?_concat]
      rfl
    have hmem : hop ∈ hopsFrom urls 10 out.url answers :=
      hhops.subset (List.mem_append_right _ (List.mem_singleton_self hop))
    obtain ⟨hallowed, hfor⟩ := h.redirects out hout hops hop hhops
    refine ⟨allowed_forwarded.2 ?_, fun c hc hshows => ?_⟩
    · rw [hurl]
      exact ⟨isHttp_of_mem_hopsFrom hmem, hallowed⟩
    · rcases hafter.exposed hshows with hsame | hexposed
      · exact hfirst.forUrl hc (hafter.host hsame)
      · rw [hurl] at hexposed ⊢
        exact hfor c hc hexposed

/-- The other way: after a redirect that is followed a request is sent, with what goes along. -/
theorem redirects_of_contained {answers : List Upstream} {out : Outgoing}
    (h : ∀ sent ∈ (follow urls 10 out answers).1, Contained shown cm urls d resolver req (.forwarded sent)) :
    ∀ hops hop, hops ++ [hop] <+: hopsFrom urls 10 out.url answers →
      (∃ host, urlHost cm hop.next = some host ∧ HostAllowed cm d host) ∧
        ∀ c, credential cm urls d resolver req = some c → Exposed shown c out (hops ++ [hop]) hop.next →
          ForUrl cm urls d req hop.next := by
  intro hops hop hhops
  obtain ⟨sent, hsent, hafter⟩ := exists_sent urls hhops
  have hurl : sent.url = hop.next := by
    rw [hafter.url, List.getLast?_concat]
    rfl
  obtain ⟨hallowed, hentitled⟩ := h sent hsent
  rw [← hurl]
  exact ⟨(allowed_forwarded.1 hallowed).2, fun c hc hexposed => hentitled c hc (hafter.shows hexposed)⟩

/-! ## Tunnels -/

theorem contacts_of_connect (hmethod : req.method = "CONNECT".toList) (answers : List Upstream) {contact : Contact} :
    contact ∈ (handleRequest cm urls validHeader (.new d resolver) req answers).1 ↔
      ∃ a host, req.authority = some a ∧ HostAllowed cm d a.host ∧ a.connectHost = some host ∧
        contact = .tunnel (connectRequest a.host) host := by
  unfold handleRequest handleConnect
  rw [if_pos hmethod]
  cases req.authority with
  | none => simp
  | some a =>
    have hd : (ProxyState.new d resolver).decider = d := rfl
    have hallowed : (d.decide cm (connectRequest a.host)).isAllowed = true ↔ HostAllowed cm d a.host := isAllowed_decide
    simp only [hd]
    cases hdecide : d.decide cm (connectRequest a.host) with
    | deny reason =>
      rw [hdecide] at hallowed
      have hno : ¬HostAllowed cm d a.host := fun h => absurd (hallowed.mpr h) Bool.false_ne_true
      simp only [List.not_mem_nil, false_iff]
      rintro ⟨a', host, ha, hallow, -, -⟩
      obtain rfl := Option.some.inj ha
      exact hno hallow
    | _ =>
      rw [hdecide] at hallowed
      have hyes : HostAllowed cm d a.host := hallowed.mp rfl
      simp only [List.mem_map, Option.mem_toList]
      constructor
      · rintro ⟨host, hhost, rfl⟩
        exact ⟨a, host, rfl, hyes, hhost, rfl⟩
      · rintro ⟨a', host, ha, -, hhost, rfl⟩
        obtain rfl := Option.some.inj ha
        exact ⟨host, hhost, rfl⟩

/-- Without a user part the host that is connected to is the one that was decided on. -/
theorem connectHost_of_userinfo {a : Authority} {host : Str} (h : a.connectHost = some host)
    (hnone : a.userinfo = none) :
    host = a.host := by
  unfold Authority.connectHost at h
  obtain ⟨_, -, rfl⟩ := Option.map_eq_some_iff.mp h
  rw [hnone]
  rfl

theorem contained_tunnel {a : Authority} {host : Str} :
    Contained shown cm urls d resolver req (.tunnel (connectRequest a.host) host) ↔ HostAllowed cm d host :=
  ⟨fun h => isAllowed_decide.1 h.allowed, fun h => ⟨isAllowed_decide.2 h, trivial⟩⟩

end Egress

/-- The contacts of a request are contained exactly when the redirects are. -/
theorem egress_iff (shown : Str → Str → Bool) (cm : CaseMap) (urls : UrlParser) (validHeader : Str → Str → Bool)
    (d : DefaultPolicyDecider) (resolver : Str → Option Str) (req : IncomingRequest) (answers : List Upstream) :
    (∀ contact ∈ (handleRequest cm urls validHeader (.new d resolver) req answers).1,
      Contained shown cm urls d resolver req contact) ↔ Orderly shown cm urls validHeader d resolver req answers := by
  by_cases hmethod : req.method = "CONNECT".toList
  · have hnone : outgoing cm urls validHeader d resolver req = none := if_pos hmethod
    constructor
    · intro h
      refine ⟨fun _ a ha hallowed host hhost => .inr ?_, fun out hout => ?_⟩
      · exact contained_tunnel.mp (h _ ((contacts_of_connect hmethod answers).mpr ⟨a, host, ha, hallowed, hhost, rfl⟩))
      · rw [hnone] at hout
        cases hout
    · intro h contact hcontact
      obtain ⟨a, host, ha, hallowed, hhost, rfl⟩ := (contacts_of_connect hmethod answers).mp hcontact
      rw [contained_tunnel]
      rcases h.tunnel hmethod a ha hallowed host hhost with huser | hallow
      · rw [connectHost_of_userinfo hhost huser]
        exact hallowed
      · exact hallow
  · rw [contacts_of_plain hmethod]
    cases hout : outgoing cm urls validHeader d resolver req with
    | none =>
      refine iff_of_true (fun contact h => absurd h List.not_mem_nil) ⟨fun h => absurd h hmethod, fun out h => ?_⟩
      rw [hout] at h
      cases h
    | some out =>
      constructor
      · intro h
        refine ⟨fun h => absurd h hmethod, fun out' hout' => ?_⟩
        obtain rfl := Option.some.inj (hout.symm.trans hout')
        exact redirects_of_contained fun sent hsent => h _ (List.mem_map_of_mem hsent)
      · intro h contact hcontact
        obtain ⟨sent, hsent, rfl⟩ := List.mem_map.mp hcontact
        exact contained_of_mem_follow hout h sent hsent

def webUrl (host : String) : Url := ⟨"http".toList, [], some (.domain host.toList), none, "/".toList, none, none⟩

/-- URLs that are the name of a host. -/
def hostUrls : UrlParser :=
  ⟨fun text => .ok (webUrl (String.ofList text)), fun _ text => .ok (webUrl (String.ofList text)),
    fun _ _ value => value⟩

/-- Requests to `api.io` and `cdn.io` are allowed, the first with a key. -/
def keyDecider (location : CredentialLocation) : DefaultPolicyDecider :=
  ⟨.new asciiCase ["api.io".toList, "cdn.io".toList], [⟨"KEY".toList, location, ["api.io".toList]⟩]⟩

/-- The key goes into a header of its own, or into the query. -/
def headerDecider : DefaultPolicyDecider := keyDecider (.header "X-Api-Key".toList none)

def queryDecider : DefaultPolicyDecider := keyDecider (.queryParam "key".toList)

def getApi : IncomingRequest := ⟨"GET".toList, "api.io".toList, none, [], .ok []⟩

def connectApi : IncomingRequest :=
  ⟨"CONNECT".toList, [], some ⟨some "x".toList, "api.io".toList, some "443".toList⟩, [], .ok []⟩

def redirectTo (host : String) : Upstream := ⟨302, [("location".toList, some host.toList)], .ok []⟩

/-- The contacts of a request for `api.io` after a redirect are contained. -/
def ContainedAfter (d : DefaultPolicyDecider) (host : String) : Prop :=
  ∀ contact ∈ (handleRequest asciiCase hostUrls (fun _ _ => true) (.new d some) getApi [redirectTo host]).1,
    Contained (fun c text => decide (c <:+: text)) asciiCase hostUrls d some getApi contact

/-- A redirect of `api.io` leads to a host that is not allowed, or takes the key to `cdn.io`, in its header or in the
Referer. The user part of a tunnel makes it a tunnel to another name than the one that is decided on. -/
theorem redirect_leaves_policy :
    ¬ContainedAfter headerDecider "evil.io" ∧ ¬ContainedAfter headerDecider "cdn.io" ∧
      ¬ContainedAfter queryDecider "cdn.io" ∧
      ¬(∀ contact ∈ (handleRequest asciiCase hostUrls (fun _ _ => true) (.new headerDecider some) connectApi []).1,
        Contained (fun c text => decide (c <:+: text)) asciiCase hostUrls headerDecider some connectApi contact) := by
  have hcdn {d : DefaultPolicyDecider} {m : CredentialMapping}
    (hm : credentialMapping asciiCase hostUrls d getApi = some m)
      (hpatterns : m.hostPatterns = ["api.io".toList]) : ¬ForUrl asciiCase hostUrls d getApi (webUrl "cdn.io") := by
    rintro ⟨m', host, hm', hhost, hfor⟩
    obtain rfl := Option.some.inj (hm.symm.trans hm')
    obtain rfl : "cdn.io".toList = host := Option.some.inj hhost
    rw [mappingFor, hpatterns] at hfor
    exact absurd hfor (by decide)
  refine ⟨fun h => ?_, fun h => ?_, fun h => ?_, fun h => ?_⟩
  · have hcontact := h (.forwarded ⟨"GET".toList, webUrl "evil.io",
      [⟨"X-Api-Key".toList, "KEY".toList⟩, ⟨REFERER, "http://api.io/".toList⟩], []⟩) (by decide)
    obtain ⟨-, host, hhost, hallowed⟩ := allowed_forwarded.mp hcontact.allowed
    obtain rfl : "evil.io".toList = host := Option.some.inj hhost
    exact absurd hallowed (by unfold HostAllowed; decide)
  · have hcontact := h (.forwarded ⟨"GET".toList, webUrl "cdn.io",
      [⟨"X-Api-Key".toList, "KEY".toList⟩, ⟨REFERER, "http://api.io/".toList⟩], []⟩) (by decide)
    exact hcdn rfl rfl (hcontact.entitled "KEY".toList rfl (by decide))
  · have hcontact :=
      h (.forwarded ⟨"GET".toList, webUrl "cdn.io", [⟨REFERER, "http://api.io/?KEY".toList⟩], []⟩) (by decide)
    exact hcdn rfl rfl (hcontact.entitled "KEY".toList rfl (by decide))
  · have hcontact := h (.tunnel (connectRequest "api.io".toList) "x@api.io".toList) (by decide)
    exact absurd hcontact.allowed (by unfold Contact.Allowed; decide)

end Ironclaw.Sandbox

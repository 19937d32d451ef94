import Ironclaw.Channels.Router
import Ironclaw.Lib.Run

/-!
# The gate of webhooks

Which requests reach a channel. The endpoints a channel registers are kept beside the router, which itself keeps their
paths only: neither the methods nor `require_secret` of an endpoint can be checked, and a path may be taken over by
another channel.

- `handler_ok_iff`: a request reaches the channel of its path exactly when every mechanism configured for it passes;
- `gate_iff`: the gate holds along a run exactly when requests use listed methods, endpoints that require a secret have
  a mechanism configured, and no channel registers the path of another.
-/

namespace Ironclaw.Channels

open Text Run

/-- The router, and the endpoint each channel registered last at each path. -/
structure Gateway (Ch : Type) where
  router : WasmChannelRouter Ch
  endpoints : (name path : Str) → Option RegisteredEndpoint

inductive RouterLabel (Ch : Type)
  | register (channel : Ch) (endpoints : List RegisteredEndpoint) (secret secretHeader : Option Str)
  | updateSecret (name secret : Str)
  | registerSignatureKey (name publicKeyHex : Str)
  | registerHmacSecret (name secret : Str)
  | unregister (name : Str)
  | request (req : WebhookRequest)

section Gate

variable {Ch : Type} (channelName : Ch → Str) (crypto : Crypto)

/-- The last endpoint of the list with the path. -/
def endpointAt (endpoints : List RegisteredEndpoint) (path : Str) : Option RegisteredEndpoint :=
  (endpoints.filter fun e => e.path = path).getLast?

def gatewayStep (g : Gateway Ch) : RouterLabel Ch → Gateway Ch
  | .register channel endpoints secret secretHeader =>
    { router := g.router.register channelName channel endpoints secret secretHeader
      endpoints := Function.update g.endpoints (channelName channel) fun path =>
        (endpointAt endpoints path).or (g.endpoints (channelName channel) path) }
  | .updateSecret name secret => { g with router := g.router.updateSecret name secret }
  | .registerSignatureKey name key => { g with router := (g.router.registerSignatureKey crypto name key).1 }
  | .registerHmacSecret name secret => { g with router := g.router.registerHmacSecret name secret }
  | .unregister name =>
    { router := g.router.unregister name
      endpoints := Function.update g.endpoints name fun _ => none }
  | .request _ => g

def Gateway.new : Gateway Ch := ⟨.new, fun _ _ => none⟩

/-! ## Authentication -/

section Auth

variable (r : WasmChannelRouter Ch) (name : Str) (req : WebhookRequest)

/-- The channel has a shared secret, and the request brings it. -/
def SecretPassed : Prop := ∃ secret, r.secrets name = some secret ∧ providedSecret r name req = some secret

/-- The channel has an Ed25519 key, and the request is signed with it. -/
def Ed25519Passed : Prop :=
  ∃ key sig ts, r.signatureKeys name = some key ∧ req.header X_SIGNATURE_ED25519 = some sig ∧
    req.header X_SIGNATURE_TIMESTAMP = some ts ∧
    crypto.verifyDiscordSignature key sig ts req.body req.now = true

/-- The channel has an HMAC secret, and the request is signed with it. -/
def HmacPassed : Prop :=
  ∃ secret ts sig, r.hmacSecrets name = some secret ∧ req.header X_SLACK_REQUEST_TIMESTAMP = some ts ∧
    req.header X_SLACK_SIGNATURE = some sig ∧
    crypto.verifySlackSignature secret ts req.body sig req.now = true

/-- Every mechanism that is configured for the channel has passed. -/
structure AllPassed : Prop where
  secret : (r.secrets name).isSome = true → SecretPassed r name req
  ed25519 : (r.signatureKeys name).isSome = true → Ed25519Passed crypto r name req
  hmac : (r.hmacSecrets name).isSome = true → HmacPassed crypto r name req

/-- Some mechanism has passed. -/
def SomePassed : Prop := SecretPassed r name req ∨ Ed25519Passed crypto r name req ∨ HmacPassed crypto r name req

/-- Some mechanism is configured for the channel. -/
def HasAuth : Prop :=
  (r.secrets name).isSome = true ∨ (r.signatureKeys name).isSome = true ∨ (r.hmacSecrets name).isSome = true

end Auth

/-- What is asked of a step. A request calls a channel only at an endpoint of the channel, with one of its methods, past
every mechanism, and past one at least if the endpoint requires it. A registration leaves the paths of other channels
alone. -/
def Gated (g : Gateway Ch) : RouterLabel Ch → Prop
  | .request req => ∀ call, webhookHandler crypto channelName g.router req = .ok call →
    ∃ e, g.endpoints (channelName call.channel) req.fullPath = some e ∧ req.method ∈ e.methods ∧
      AllPassed crypto g.router (channelName call.channel) req ∧
      (e.requireSecret = true → SomePassed crypto g.router (channelName call.channel) req)
  | .register channel endpoints secret secretHeader => ∀ name path, name ≠ channelName channel →
    (g.endpoints name path).isSome = true →
      (g.router.register channelName channel endpoints secret secretHeader).getChannelForPath path =
        g.router.getChannelForPath path
  | .unregister removed => ∀ name path, name ≠ removed → (g.endpoints name path).isSome = true →
      (g.router.unregister removed).getChannelForPath path = g.router.getChannelForPath path
  | _ => True

/-- A request that passes the mechanisms of its channel uses a method of the endpoint, and if the endpoint requires a
secret, a mechanism is configured. A channel registers no path of another channel. -/
def Orderly (g : Gateway Ch) : RouterLabel Ch → Prop
  | .request req => ∀ name e, g.router.pathToChannel req.fullPath = some name →
    g.endpoints name req.fullPath = some e → AllPassed crypto g.router name req →
      req.method ∈ e.methods ∧ (e.requireSecret = true → HasAuth g.router name)
  | .register channel endpoints _ _ => ∀ e ∈ endpoints, ∀ name, name ≠ channelName channel →
    g.endpoints name e.path = none
  | _ => True

/-- The invariant: channels are stored under their names, a path leads to a channel exactly when the channel registered
it, and such a channel is there. -/
structure Owned (g : Gateway Ch) : Prop where
  named : ∀ name channel, g.router.channels name = some channel → channelName channel = name
  served : ∀ name path, g.router.pathToChannel path = some name ↔ (g.endpoints name path).isSome = true
  present : ∀ name path, (g.endpoints name path).isSome = true → (g.router.channels name).isSome = true

/-! ## The checks -/

section Checks

variable {crypto} {r : WasmChannelRouter Ch} {name : Str} {req : WebhookRequest}

/-- A check with nothing configured passes with `false`, else it passes with `true` exactly when `P` holds. -/
theorem check_iff {conf : Option Str} {check : Except Reply Bool} {P : Prop} (hnone : conf = none → check = .ok false)
    (hpass : ∀ k, conf = some k → P → check = .ok true) (hfail : ∀ k b, conf = some k → check = .ok b → P) (b : Bool) :
    check = .ok b ↔ (conf.isSome = true → P) ∧ b = conf.isSome := by
  cases conf with
  | none =>
    rw [hnone rfl]
    constructor
    · intro h
      exact ⟨fun hn => Bool.noConfusion hn, (Except.ok.inj h).symm⟩
    · rintro ⟨-, rfl⟩
      rfl
  | some k =>
    constructor
    · intro h
      have hP := hfail k b rfl h
      rw [hpass k rfl hP] at h
      exact ⟨fun _ => hP, (Except.ok.inj h).symm⟩
    · rintro ⟨hP, rfl⟩
      exact hpass k rfl (hP rfl)

theorem checkSecret_iff (b : Bool) : checkSecret r name req = .ok b ↔
    ((r.secrets name).isSome = true → SecretPassed r name req) ∧ b = (r.secrets name).isSome := by
  refine check_iff (fun hs => ?_) (fun k hs => ?_) (fun k b hs h => ?_) b
  · simp only [checkSecret, WasmChannelRouter.requiresSecret, hs]
    rfl
  · rintro ⟨secret, hs', hp⟩
    rw [hs] at hs'
    cases hs'
    simp [checkSecret, WasmChannelRouter.requiresSecret, WasmChannelRouter.validateSecret, hs, hp]
  · simp only [checkSecret, WasmChannelRouter.requiresSecret, WasmChannelRouter.validateSecret, hs, Option.isSome_some,
      if_true] at h
    split at h
    next secret hp =>
      split at h
      next heq =>
        rw [← beq_iff_eq.mp heq] at hp
        exact ⟨k, hs, hp⟩
      · cases h
    · cases h

theorem checkEd25519_iff (b : Bool) : checkEd25519 crypto r name req = .ok b ↔
    ((r.signatureKeys name).isSome = true → Ed25519Passed crypto r name req) ∧ b = (r.signatureKeys name).isSome := by
  refine check_iff (fun hk => ?_) (fun k hk => ?_) (fun k b hk h => ?_) b
  · simp only [checkEd25519, hk]
  · rintro ⟨key, sig, ts, hk', hsig, hts, hv⟩
    rw [hk] at hk'
    cases hk'
    simp only [checkEd25519, hk, hsig, hts, hv, if_true]
  · simp only [checkEd25519, hk] at h
    split at h
    next sig ts hsig hts =>
      split at h
      next hv => exact ⟨k, sig, ts, hk, hsig, hts, hv⟩
      · cases h
    · cases h

theorem checkHmac_iff (b : Bool) : checkHmac crypto r name req = .ok b ↔
    ((r.hmacSecrets name).isSome = true → HmacPassed crypto r name req) ∧ b = (r.hmacSecrets name).isSome := by
  refine check_iff (fun hk => ?_) (fun k hk => ?_) (fun k b hk h => ?_) b
  · simp only [checkHmac, hk]
  · rintro ⟨secret, ts, sig, hk', hts, hsig, hv⟩
    rw [hk] at hk'
    cases hk'
    simp only [checkHmac, hk, hts, hsig, hv, if_true]
  · simp only [checkHmac, hk] at h
    split at h
    next ts sig hts hsig =>
      split at h
      next hv => exact ⟨k, ts, sig, hk, hts, hsig, hv⟩
      · cases h
    · cases h

/-- **A request reaches the channel of its path** exactly when every mechanism configured for it passes. -/
theorem handler_ok_iff (channelName : Ch → Str) (channel : Ch) :
    (∃ call, webhookHandler crypto channelName r req = .ok call ∧ call.channel = channel) ↔
      r.getChannelForPath req.fullPath = some channel ∧ AllPassed crypto r (channelName channel) req := by
  unfold webhookHandler
  cases hch : r.getChannelForPath req.fullPath with
  | none =>
    constructor
    · rintro ⟨call, h, -⟩
      cases h
    · rintro ⟨h, -⟩
      cases h
  | some ch =>
    constructor
    · rintro ⟨call, h, rfl⟩
      simp only [bind, Except.bind] at h
      split at h
      · cases h
      next b₁ h₁ =>
        split at h
        · cases h
        next b₂ h₂ =>
          split at h
          · cases h
          next b₃ h₃ =>
            cases h
            exact ⟨rfl, ((checkSecret_iff b₁).mp h₁).1, ((checkEd25519_iff b₂).mp h₂).1, ((checkHmac_iff b₃).mp h₃).1⟩
    · rintro ⟨h, hall⟩
      cases h
      simp only [(checkSecret_iff _).mpr ⟨hall.secret, rfl⟩, (checkEd25519_iff _).mpr ⟨hall.ed25519, rfl⟩,
        (checkHmac_iff _).mpr ⟨hall.hmac, rfl⟩]
      exact ⟨_, rfl, rfl⟩

/-- When every configured mechanism passes, one passes exactly when one is configured. -/
theorem somePassed_iff (h : AllPassed crypto r name req) : SomePassed crypto r name req ↔ HasAuth r name := by
  constructor
  · rintro (⟨secret, hs, -⟩ | ⟨key, sig, ts, hk, -⟩ | ⟨secret, ts, sig, hk, -⟩)
    · exact .inl (by rw [hs]; rfl)
    · exact .inr (.inl (by rw [hk]; rfl))
    · exact .inr (.inr (by rw [hk]; rfl))
  · rintro (hs | hk | hk)
    · exact .inl (h.secret hs)
    · exact .inr (.inl (h.ed25519 hk))
    · exact .inr (.inr (h.hmac hk))

end Checks

/-! ## Steps -/

section Steps

variable {channelName crypto} {g : Gateway Ch}

/-- The paths of a registration lead to the channel, the others where they led. -/
theorem pathToChannel_register (m : Str → Option Str) (name path : Str) (endpoints : List RegisteredEndpoint) :
    endpoints.foldl (fun (m : Str → Option Str) e => Function.update m e.path (some name)) m path =
      if (endpointAt endpoints path).isSome then some name else m path := by
  induction endpoints using List.reverseRecOn with
  | nil => rfl
  | append_singleton endpoints e ih =>
    rw [List.foldl_append]
    simp only [List.foldl_cons, List.foldl_nil, endpointAt, List.filter_append]
    by_cases he : e.path = path
    · subst he
      simp
    · rw [Function.update_of_ne (Ne.symm he), ih]
      simp [he, endpointAt]

theorem endpointAt_isSome {endpoints : List RegisteredEndpoint} {path : Str}
    (h : (endpointAt endpoints path).isSome = true) : ∃ e ∈ endpoints, e.path = path := by
  obtain ⟨e, he⟩ := Option.isSome_iff_exists.mp h
  obtain ⟨hmem, hpath⟩ := List.mem_filter.mp (List.mem_of_getLast? he)
  exact ⟨e, hmem, of_decide_eq_true hpath⟩

theorem endpointAt_of_mem {endpoints : List RegisteredEndpoint} {e : RegisteredEndpoint} (h : e ∈ endpoints) :
    (endpointAt endpoints e.path).isSome = true := by
  rw [endpointAt, List.getLast?_isSome]
  exact List.ne_nil_of_mem (List.mem_filter.mpr ⟨h, decide_eq_true rfl⟩)

theorem owned_new : Owned channelName (Gateway.new : Gateway Ch) := by
  refine ⟨?_, ?_, ?_⟩
  · intro name channel h
    cases h
  · intro name path
    simp [Gateway.new, WasmChannelRouter.new]
  · intro name path h
    cases h

theorem owned_register (h : Owned channelName g) {channel : Ch} {endpoints : List RegisteredEndpoint}
    {secret secretHeader : Option Str}
    (hfree : ∀ e ∈ endpoints, ∀ name, name ≠ channelName channel → g.endpoints name e.path = none) :
    Owned channelName (gatewayStep channelName crypto g (.register channel endpoints secret secretHeader)) := by
  refine ⟨?_, ?_, ?_⟩
  · intro name ch hch
    simp only [gatewayStep, WasmChannelRouter.register] at hch
    by_cases hn : name = channelName channel
    · subst hn
      rw [Function.update_self] at hch
      cases hch
      rfl
    · rw [Function.update_of_ne hn] at hch
      exact h.named name ch hch
  · intro name path
    simp only [gatewayStep, WasmChannelRouter.register]
    rw [pathToChannel_register]
    by_cases hn : name = channelName channel
    · subst hn
      rw [Function.update_self]
      cases hat : endpointAt endpoints path with
      | some e => simp
      | none => simpa using h.served (channelName channel) path
    · rw [Function.update_of_ne hn]
      cases hat : endpointAt endpoints path with
      | some e =>
        -- a path of the registration was free, so no other channel has an endpoint there
        obtain ⟨e', he', hpath⟩ := endpointAt_isSome (by rw [hat]; rfl)
        have hnone := hfree e' he' name hn
        rw [hpath] at hnone
        simp [hnone, Ne.symm hn]
      | none => simpa using h.served name path
  · intro name path hsome
    simp only [gatewayStep, WasmChannelRouter.register] at hsome ⊢
    by_cases hn : name = channelName channel
    · subst hn
      rw [Function.update_self]
      rfl
    · rw [Function.update_of_ne hn] at hsome ⊢
      exact h.present name path hsome

theorem owned_unregister (h : Owned channelName g) (removed : Str) :
    Owned channelName (gatewayStep channelName crypto g (.unregister removed)) := by
  refine ⟨?_, ?_, ?_⟩
  · intro name ch hch
    simp only [gatewayStep, WasmChannelRouter.unregister] at hch
    by_cases hn : name = removed
    · subst hn
      rw [Function.update_self] at hch
      cases hch
    · rw [Function.update_of_ne hn] at hch
      exact h.named name ch hch
  · intro name path
    simp only [gatewayStep, WasmChannelRouter.unregister, Option.filter_eq_some_iff, decide_eq_true_eq]
    by_cases hn : name = removed
    · subst hn
      simp
    · rw [Function.update_of_ne hn, h.served name path]
      simp [hn]
  · intro name path hsome
    simp only [gatewayStep, WasmChannelRouter.unregister] at hsome ⊢
    by_cases hn : name = removed
    · subst hn
      rw [Function.update_self] at hsome
      cases hsome
    · rw [Function.update_of_ne hn] at hsome ⊢
      exact h.present name path hsome

theorem owned_step (g : Gateway Ch) (l : RouterLabel Ch) (hl : Orderly channelName crypto g l)
    (h : Owned channelName g) : Owned channelName (gatewayStep channelName crypto g l) := by
  cases l with
  | register channel endpoints secret secretHeader => exact owned_register h hl
  | updateSecret name secret => exact ⟨h.named, h.served, h.present⟩
  | registerSignatureKey name key =>
    simp only [gatewayStep, WasmChannelRouter.registerSignatureKey]
    split <;> exact ⟨h.named, h.served, h.present⟩
  | registerHmacSecret name secret => exact ⟨h.named, h.served, h.present⟩
  | unregister name => exact owned_unregister h name
  | request req => exact h

/-- The channel that registered a path serves it. -/
theorem getChannelForPath_eq (h : Owned channelName g) {name path : Str} (hp : (g.endpoints name path).isSome = true) :
    g.router.getChannelForPath path = g.router.channels name := by
  rw [WasmChannelRouter.getChannelForPath, (h.served name path).mpr hp]
  rfl

theorem gated_register_iff (h : Owned channelName g) (channel : Ch) (endpoints : List RegisteredEndpoint)
    (secret secretHeader : Option Str) :
    Gated channelName crypto g (.register channel endpoints secret secretHeader) ↔
      Orderly channelName crypto g (.register channel endpoints secret secretHeader) := by
  constructor
  · intro hg e he name hn
    by_contra hsome
    have hsome : (g.endpoints name e.path).isSome = true := Option.isSome_iff_ne_none.mpr hsome
    have hserved := hg name e.path hn hsome
    rw [getChannelForPath_eq h hsome] at hserved
    -- the new channel serves the path now, under a name of its own
    have hnew : (g.router.register channelName channel endpoints secret secretHeader).getChannelForPath e.path =
        some channel := by
      simp only [WasmChannelRouter.getChannelForPath, WasmChannelRouter.register]
      rw [pathToChannel_register, if_pos (endpointAt_of_mem he)]
      simp
    rw [hnew] at hserved
    exact hn (h.named name channel hserved.symm).symm
  · intro ho name path hn hsome
    have howned :
      Owned channelName (gatewayStep channelName crypto g (.register channel endpoints secret secretHeader)) :=
      owned_register h ho
    have hkept : ((gatewayStep channelName crypto g (.register channel endpoints secret secretHeader)).endpoints
        name path).isSome = true := by
      simp only [gatewayStep]
      rw [Function.update_of_ne hn]
      exact hsome
    have heq := getChannelForPath_eq howned hkept
    rw [getChannelForPath_eq h hsome]
    simp only [gatewayStep] at heq
    rw [heq]
    simp only [WasmChannelRouter.register]
    rw [Function.update_of_ne hn]

theorem gated_unregister (h : Owned channelName g) (removed : Str) :
    Gated channelName crypto g (.unregister removed) := by
  intro name path hn hsome
  rw [getChannelForPath_eq h hsome]
  simp only [WasmChannelRouter.getChannelForPath, WasmChannelRouter.unregister]
  rw [(h.served name path).mpr hsome, Option.filter_some, if_pos (decide_eq_true hn)]
  simp [hn]

theorem gated_request_iff (h : Owned channelName g) (req : WebhookRequest) :
    Gated channelName crypto g (.request req) ↔ Orderly channelName crypto g (.request req) := by
  constructor
  · intro hg name e hname he hall
    obtain ⟨channel, hch⟩ := Option.isSome_iff_exists.mp (h.present name req.fullPath (by rw [he]; rfl))
    have hserved : g.router.getChannelForPath req.fullPath = some channel := by
      rw [WasmChannelRouter.getChannelForPath, hname]
      exact hch
    have hchn := h.named name channel hch
    subst hchn
    obtain ⟨call, hcall, rfl⟩ := (handler_ok_iff channelName channel).mpr ⟨hserved, hall⟩
    obtain ⟨e', he', hmethod, -, hsome⟩ := hg call hcall
    rw [he] at he'
    cases he'
    exact ⟨hmethod, fun hreq => (somePassed_iff hall).mp (hsome hreq)⟩
  · intro ho call hcall
    obtain ⟨hserved, hall⟩ := (handler_ok_iff channelName call.channel).mp ⟨call, hcall, rfl⟩
    obtain ⟨name, hname, hch⟩ := Option.bind_eq_some_iff.mp hserved
    have hchn := h.named name call.channel hch
    subst hchn
    obtain ⟨e, he⟩ := Option.isSome_iff_exists.mp ((h.served _ _).mp hname)
    obtain ⟨hmethod, hauth⟩ := ho _ e hname he hall
    exact ⟨e, he, hmethod, hall, fun hreq => (somePassed_iff hall).mpr (hauth hreq)⟩

theorem gated_iff_orderly (g : Gateway Ch) (l : RouterLabel Ch) (h : Owned channelName g) :
    Gated channelName crypto g l ↔ Orderly channelName crypto g l := by
  cases l with
  | register channel endpoints secret secretHeader => exact gated_register_iff h channel endpoints secret secretHeader
  | unregister name => exact iff_of_true (gated_unregister h name) trivial
  | request req => exact gated_request_iff h req
  | _ => exact Iff.rfl

end Steps

/-- **The gate holds along a run** of registrations and requests exactly when the run is orderly. -/
theorem gate_iff (ls : List (RouterLabel Ch)) :
    Along (gatewayStep channelName crypto) (Gated channelName crypto) Gateway.new ls ↔
      Along (gatewayStep channelName crypto) (Orderly channelName crypto) Gateway.new ls :=
  along_iff_of_inv owned_step gated_iff_orderly ls owned_new

end Gate

/-! ## Requests that should not pass -/

/-- A channel is its name; every key and every signature is accepted. -/
def acceptAll : Crypto := ⟨fun _ => .ok (), fun _ _ _ _ _ => true, fun _ _ _ _ _ => true⟩

def slackEndpoint (name : String) : RegisteredEndpoint :=
  ⟨name.toList, "/webhook/slack".toList, ["POST".toList], true⟩

def plainRequest (method : String) : WebhookRequest where
  method := method.toList
  path := "slack".toList
  query _ := none
  headers := []
  body := []
  now := 0

def registerSlack : RouterLabel Str := .register "slack".toList [slackEndpoint "slack"] none none

/-- An endpoint for `POST` that requires a secret is called by `GET` and without one, and a second channel takes its
path. -/
theorem unlisted_method_reaches_channel :
    let g := gatewayStep id acceptAll Gateway.new registerSlack
    (∀ method, ∃ call, webhookHandler acceptAll id g.router (plainRequest method) = .ok call ∧
      call.channel = "slack".toList ∧ call.secretValidated = false) ∧
    ¬Along (gatewayStep id acceptAll) (Gated id acceptAll) Gateway.new
      [registerSlack, .request (plainRequest "GET")] ∧
    ¬Along (gatewayStep id acceptAll) (Gated id acceptAll) Gateway.new
      [registerSlack, .request (plainRequest "POST")] ∧
    ¬Along (gatewayStep id acceptAll) (Gated id acceptAll) Gateway.new
      [registerSlack, .register "other".toList [slackEndpoint "other"] none none] := by
  intro g
  have hcalls : ∀ method, ∃ call, webhookHandler acceptAll id g.router (plainRequest method) = .ok call ∧
      call.channel = "slack".toList ∧ call.secretValidated = false := fun method => ⟨_, rfl, rfl, rfl⟩
  have hendpoint : g.endpoints "slack".toList "/webhook/slack".toList = some (slackEndpoint "slack") := by decide
  refine ⟨hcalls, ?_, ?_, ?_⟩
  · rintro ⟨-, h, -⟩
    obtain ⟨call, hcall, hch, -⟩ := hcalls "GET"
    obtain ⟨e, he, hmethod, -⟩ := h call hcall
    rw [hch] at he
    obtain rfl := Option.some.inj (hendpoint.symm.trans he)
    exact absurd hmethod (by decide)
  · rintro ⟨-, h, -⟩
    obtain ⟨call, hcall, hch, -⟩ := hcalls "POST"
    obtain ⟨e, he, -, -, hsome⟩ := h call hcall
    rw [hch] at he hsome
    obtain rfl := Option.some.inj (hendpoint.symm.trans he)
    rcases hsome rfl with ⟨secret, hs, -⟩ | ⟨key, sig, ts, hk, -⟩ | ⟨secret, ts, sig, hk, -⟩
    · cases hs
    · cases hk
    · cases hk
  · rintro ⟨-, h, -⟩
    have hserved := h "slack".toList "/webhook/slack".toList (by decide) (by rw [hendpoint]; rfl)
    exact absurd hserved (by decide)

end Ironclaw.Channels

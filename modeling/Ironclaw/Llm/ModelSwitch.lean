import Ironclaw.Llm.Failover

/-!
# Switching the model

`set_model` on the providers of the chain. A failover asks its providers one after another and stops at the first that
refuses, so that the providers before it are switched and the others are not.

- `setModel_spec`, `setModels_spec`: who accepts, and what every provider goes by afterwards;
- `setModels_refused`: what a refused switch leaves;
- `setModel_failover`: a failover is the loop over its providers.
-/

namespace Ironclaw.Llm.Failover

/-- A provider, as far as its model is concerned. -/
inductive Provider
  /-- The name is kept behind a lock (NEAR AI, Anthropic and Copilot). -/
  | switchable (activeModel : Str)
  /-- The name has the prefix of a region in front. -/
  | bedrock (crossRegionPrefix activeModel : Str)
  /-- The model is fixed, and a switch fails with that error. -/
  | fixed (modelName : Str) (error : LlmError)
  /-- Retry, circuit breaker, response cache and recording pass everything on. -/
  | wrapper (inner : Provider)
  | smartRouting (primary cheap : Provider)
  /-- The provider that answered last stands between those before and after it. -/
  | failover (before : List Provider) (used : Provider) (after : List Provider)

namespace Provider

/-- The default of `LlmProvider::set_model`. -/
def UNSUPPORTED : LlmError :=
  .requestFailed "unknown".toList "Runtime model switching not supported by this provider".toList

/-- `active_model_name`. -/
def activeModelName : Provider → Str
  | .switchable activeModel => activeModel
  | .bedrock _ activeModel => activeModel
  | .fixed modelName _ => modelName
  | .wrapper inner => inner.activeModelName
  | .smartRouting primary _ => primary.activeModelName
  | .failover _ used _ => used.activeModelName

variable (model : Str)

mutual

/-- `set_model`. -/
def setModel : Provider → Except LlmError Unit × Provider
  | .switchable _ => (.ok (), .switchable model)
  | .bedrock crossRegionPrefix _ => (.ok (), .bedrock crossRegionPrefix (crossRegionPrefix ++ model))
  | .fixed modelName error => (.error error, .fixed modelName error)
  | .wrapper inner =>
    let (result, inner) := setModel inner
    (result, .wrapper inner)
  | .smartRouting primary cheap =>
    let (result, primary) := setModel primary
    (result, .smartRouting primary cheap)
  | .failover before used after =>
    match setModels before with
    | (.error e, before) => (.error e, .failover before used after)
    | (.ok (), before) =>
      match setModel used with
      | (.error e, used) => (.error e, .failover before used after)
      | (.ok (), used) =>
        let (result, after) := setModels after
        (result, .failover before used after)

/-- The loop of `FailoverProvider::set_model` over its providers. -/
def setModels : List Provider → Except LlmError Unit × List Provider
  | [] => (.ok (), [])
  | provider :: providers =>
    match setModel provider with
    | (.error e, provider) => (.error e, provider :: providers)
    | (.ok (), provider) =>
      let (result, providers) := setModels providers
      (result, provider :: providers)

end

mutual

/-- The provider goes by the new model; of a smart routing only the primary provider is switched. -/
def Uses : Provider → Prop
  | .switchable activeModel => activeModel = model
  | .bedrock crossRegionPrefix activeModel => activeModel = crossRegionPrefix ++ model
  | .fixed modelName _ => modelName = model
  | .wrapper inner => Uses inner
  | .smartRouting primary _ => Uses primary
  | .failover before used after => AllUse before ∧ Uses used ∧ AllUse after

def AllUse : List Provider → Prop
  | [] => True
  | provider :: providers => Uses provider ∧ AllUse providers

end

mutual

/-- The provider supports switching. -/
def accepts : Provider → Bool
  | .switchable _ | .bedrock _ _ => true
  | .fixed _ _ => false
  | .wrapper inner => accepts inner
  | .smartRouting primary _ => accepts primary
  | .failover before used after => allAccept before && accepts used && allAccept after

def allAccept : List Provider → Bool
  | [] => true
  | provider :: providers => accepts provider && allAccept providers

end

/-- The name that the provider goes by when it has been asked to switch. -/
def nameAfter : Provider → Str
  | .switchable _ => model
  | .bedrock crossRegionPrefix _ => crossRegionPrefix ++ model
  | .fixed modelName _ => modelName
  | .wrapper inner => inner.nameAfter
  | .smartRouting primary _ => primary.nameAfter
  | .failover before used _ => if allAccept before then used.nameAfter else used.activeModelName

/-! ## One provider -/

/-- What a switch of a provider comes to. -/
structure Switched (provider : Provider) (switched : Except LlmError Unit × Provider) : Prop where
  accepted : switched.1.isOk = accepts provider
  uses : switched.1.isOk = true → switched.2.Uses model
  name : switched.2.activeModelName = provider.nameAfter model

/-- What a switch of providers in a row comes to. -/
structure AllSwitched (providers : List Provider) (switched : Except LlmError Unit × List Provider) : Prop where
  accepted : switched.1.isOk = allAccept providers
  uses : switched.1.isOk = true → AllUse model switched.2

mutual

theorem setModel_spec : ∀ provider : Provider, Switched model provider (setModel model provider)
  | .switchable _ => ⟨rfl, fun _ => rfl, rfl⟩
  | .bedrock _ _ => ⟨rfl, fun _ => rfl, rfl⟩
  | .fixed _ _ => ⟨rfl, fun h => absurd h Bool.false_ne_true, rfl⟩
  | .wrapper inner => ⟨(setModel_spec inner).accepted, (setModel_spec inner).uses, (setModel_spec inner).name⟩
  | .smartRouting primary _ =>
    ⟨(setModel_spec primary).accepted, (setModel_spec primary).uses, (setModel_spec primary).name⟩
  | .failover before used after => by
    have hbefore := setModels_spec before
    have hused := setModel_spec used
    have hafter := setModels_spec after
    rw [setModel]
    cases hb : setModels model before with
    | mk result before' =>
      rw [hb] at hbefore
      cases result with
      | error e =>
        have hrefused : allAccept before = false := hbefore.accepted.symm
        refine ⟨?_, fun h => absurd h Bool.false_ne_true, ?_⟩
        · rw [accepts, hrefused]
          rfl
        · rw [nameAfter, hrefused, if_neg Bool.false_ne_true]
          rfl
      | ok =>
        have haccepted : allAccept before = true := hbefore.accepted.symm
        cases hu : setModel model used with
        | mk result used' =>
          rw [hu] at hused
          cases result with
          | error e =>
            refine ⟨?_, fun h => absurd h Bool.false_ne_true, ?_⟩
            · rw [accepts, haccepted, ← hused.accepted]
              rfl
            · rw [nameAfter, haccepted, if_pos rfl]
              exact hused.name
          | ok =>
            refine ⟨?_, fun h => ⟨hbefore.uses rfl, hused.uses rfl, hafter.uses h⟩, ?_⟩
            · rw [accepts, haccepted, ← hused.accepted, ← hafter.accepted]
              rfl
            · rw [nameAfter, haccepted, if_pos rfl]
              exact hused.name

theorem setModels_spec : ∀ providers : List Provider, AllSwitched model providers (setModels model providers)
  | [] => ⟨rfl, fun _ => trivial⟩
  | provider :: providers => by
    have hfirst := setModel_spec provider
    have hrest := setModels_spec providers
    rw [setModels]
    cases hp : setModel model provider with
    | mk result provider' =>
      rw [hp] at hfirst
      cases result with
      | error e =>
        refine ⟨?_, fun h => absurd h Bool.false_ne_true⟩
        rw [allAccept, ← hfirst.accepted]
        rfl
      | ok =>
        refine ⟨?_, fun h => ⟨hfirst.uses rfl, hrest.uses h⟩⟩
        rw [allAccept, ← hfirst.accepted, ← hrest.accepted]
        rfl

end

/-! ## The providers of a failover -/

variable {model}

theorem setModel_refuses {provider : Provider} (h : accepts provider = false) :
    ∃ e, (setModel model provider).1 = .error e := by
  have hspec := (setModel_spec model provider).accepted
  cases hresult : (setModel model provider).1 with
  | error e => exact ⟨e, rfl⟩
  | ok =>
    rw [hresult, h] at hspec
    cases hspec

theorem setModel_accepts {provider : Provider} (h : accepts provider = true) :
    (setModel model provider).1 = .ok () := by
  have hspec := (setModel_spec model provider).accepted
  cases hresult : (setModel model provider).1 with
  | ok => rfl
  | error e =>
    rw [hresult, h] at hspec
    cases hspec

theorem setModels_cons_refuses {provider : Provider} (providers : List Provider) (h : accepts provider = false) :
    (setModels model (provider :: providers)).2 = (setModel model provider).2 :: providers := by
  have hrefused : ∃ e, (setModel model provider).1 = .error e := setModel_refuses h
  obtain ⟨e, he⟩ := hrefused
  rw [setModels]
  cases hp : setModel model provider with
  | mk result provider' =>
    rw [hp] at he
    cases he
    rfl

theorem setModels_cons_accepts {provider : Provider} (providers : List Provider) (h : accepts provider = true) :
    setModels model (provider :: providers) =
      ((setModels model providers).1, (setModel model provider).2 :: (setModels model providers).2) := by
  have hok : (setModel model provider).1 = .ok () := setModel_accepts h
  rw [setModels]
  cases hp : setModel model provider with
  | mk result provider' =>
    rw [hp] at hok
    cases hok
    rfl

theorem allAccept_iff : ∀ {providers : List Provider}, allAccept providers = true ↔ ∀ p ∈ providers, accepts p = true
  | [] => ⟨fun _ _ hp => absurd hp List.not_mem_nil, fun _ => rfl⟩
  | provider :: providers => by rw [allAccept, Bool.and_eq_true, allAccept_iff, List.forall_mem_cons]

theorem allUse_iff : ∀ {providers : List Provider}, AllUse model providers ↔ ∀ p ∈ providers, p.Uses model
  | [] => ⟨fun _ _ hp => absurd hp List.not_mem_nil, fun _ => trivial⟩
  | provider :: providers => by rw [AllUse, allUse_iff, List.forall_mem_cons]

/-- Providers that do not all accept have a first one that refuses. -/
theorem exists_first_refusing : ∀ {providers : List Provider}, allAccept providers = false →
    ∃ before p after, providers = before ++ p :: after ∧ (∀ q ∈ before, accepts q = true) ∧ accepts p = false
  | provider :: providers, h => by
    cases hfirst : accepts provider with
    | false => exact ⟨[], provider, providers, rfl, fun _ hq => absurd hq List.not_mem_nil, hfirst⟩
    | true =>
      rw [allAccept, hfirst, Bool.true_and] at h
      obtain ⟨before, p, after, rfl, hbefore, hp⟩ := exists_first_refusing h
      exact ⟨provider :: before, p, after, rfl, List.forall_mem_cons.mpr ⟨hfirst, hbefore⟩, hp⟩

/-- A refused switch leaves the providers before the one that refuses switched. -/
theorem setModels_refused {p : Provider} (after : List Provider) (hp : accepts p = false) : ∀ before : List Provider,
    (∀ q ∈ before, accepts q = true) → (setModels model (before ++ p :: after)).2.map activeModelName =
      (before ++ [p]).map (nameAfter model) ++ after.map activeModelName
  | [], _ => by
    rw [List.nil_append, setModels_cons_refuses after hp, List.map_cons, (setModel_spec model p).name]
    rfl
  | q :: before, hbefore => by
    have ih := setModels_refused after hp before fun r hr => hbefore r (List.mem_cons_of_mem _ hr)
    rw [List.cons_append, setModels_cons_accepts _ (hbefore q List.mem_cons_self), List.map_cons, ih,
      (setModel_spec model q).name]
    rfl

theorem setModels_append (rest : List Provider) : ∀ before : List Provider, setModels model (before ++ rest) =
    match setModels model before with
    | (.error e, before') => (.error e, before' ++ rest)
    | (.ok (), before') => ((setModels model rest).1, before' ++ (setModels model rest).2)
  | [] => rfl
  | q :: before => by
    rw [List.cons_append, setModels, setModels, setModels_append rest before]
    obtain ⟨result, q'⟩ := setModel model q
    obtain ⟨result', before'⟩ := setModels model before
    cases result with
    | error e => rfl
    | ok => cases result' <;> rfl

/-- The failover's own switch is the loop over all its providers. -/
theorem setModel_failover (before : List Provider) (used : Provider) (after : List Provider) :
    ∃ before' used' after', (setModel model (.failover before used after)).2 = .failover before' used' after' ∧
      setModels model (before ++ used :: after) =
        ((setModel model (.failover before used after)).1, before' ++ used' :: after') := by
  rw [setModels_append, setModel, setModels]
  obtain ⟨result, before'⟩ := setModels model before
  cases result with
  | error e => exact ⟨before', used, after, rfl, rfl⟩
  | ok =>
    obtain ⟨result, used'⟩ := setModel model used
    cases result with
    | error e => exact ⟨before', used', after, rfl, rfl⟩
    | ok => exact ⟨before', used', (setModels model after).2, rfl, rfl⟩

section Atomic

variable (model) (providers : List Provider)

/-- A switch that fails changes no active model, and one that succeeds switches every provider. -/
def SwitchesAtomically : Prop :=
  ((∃ e, (setModels model providers).1 = .error e) →
      (setModels model providers).2.map activeModelName = providers.map activeModelName) ∧
    ((setModels model providers).1 = .ok () → ∀ p ∈ (setModels model providers).2, p.Uses model)

/-- The switch is atomic exactly when no provider refuses it, or every provider up to the first that does already goes
by the name that the switch gives it. -/
theorem switchesAtomically_iff : SwitchesAtomically model providers ↔
    (∀ p ∈ providers, accepts p = true) ∨
      ∃ before p after, providers = before ++ p :: after ∧ (∀ q ∈ before, accepts q = true) ∧ accepts p = false ∧
        ∀ q ∈ before ++ [p], q.nameAfter model = q.activeModelName := by
  have hspec := setModels_spec model providers
  have huses : (setModels model providers).1 = .ok () → ∀ p ∈ (setModels model providers).2, p.Uses model := by
    intro hok
    exact allUse_iff.mp (hspec.uses (by rw [hok]; rfl))
  have hnames : ∀ before p after, providers = before ++ p :: after → (∀ q ∈ before, accepts q = true) →
    accepts p = false →
      ((setModels model providers).2.map activeModelName = providers.map activeModelName ↔
        ∀ q ∈ before ++ [p], q.nameAfter model = q.activeModelName) := by
    rintro before p after rfl hbefore hp
    have hsame : (before ++ p :: after).map activeModelName =
        (before ++ [p]).map activeModelName ++ after.map activeModelName := by
      rw [List.append_cons, List.map_append]
    rw [setModels_refused after hp before hbefore, hsame, List.append_left_inj, List.map_inj_left]
  rw [SwitchesAtomically, and_iff_left huses]
  cases hall : allAccept providers with
  | true =>
    have haccept := allAccept_iff.mp hall
    refine iff_of_true ?_ (.inl haccept)
    rintro ⟨e, he⟩
    have haccepted := hspec.accepted
    rw [he, hall] at haccepted
    cases haccepted
  | false =>
    obtain ⟨before, p, after, hsplit, hbefore, hp⟩ := exists_first_refusing hall
    have herror : ∃ e, (setModels model providers).1 = .error e := by
      cases hresult : (setModels model providers).1 with
      | error e => exact ⟨e, rfl⟩
      | ok =>
        have haccepted := hspec.accepted
        rw [hresult, hall] at haccepted
        cases haccepted
    constructor
    · exact fun h => .inr ⟨before, p, after, hsplit, hbefore, hp,
        (hnames before p after hsplit hbefore hp).mp (h herror)⟩
    · rintro (haccept | ⟨before, p, after, hsplit, hbefore, hp, hq⟩) -
      · rw [allAccept_iff.mpr haccept] at hall
        cases hall
      · exact (hnames before p after hsplit hbefore hp).mpr hq

end Atomic

/-- The first provider is switched before the second refuses. -/
theorem half_switched : ¬∀ (model : Str) (providers : List Provider), SwitchesAtomically model providers := by
  intro h
  have hnames := (h ['n'] [.switchable ['a'], .fixed ['b'] UNSUPPORTED]).1 ⟨UNSUPPORTED, rfl⟩
  exact absurd hnames (by decide)

end Provider

end Ironclaw.Llm.Failover

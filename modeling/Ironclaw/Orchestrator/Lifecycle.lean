import Ironclaw.Orchestrator.JobManager

/-!
# The lifecycle of a container job

What holds once a job was completed or stopped, over any interleaving of the calls. It fails when `complete_job` runs
before `create_job` has recorded the container, when it finds no handle or no connection to Docker, and when Docker does
not start a container that it created.

- `later_step`: what a step cannot undo;
- `lifecycle`: in a run without these steps the job stays ended.
-/

namespace Ironclaw.Orchestrator

open Text Run

/-- Every container that runs is one that Docker was asked to stop. -/
def AllAsked (w : World) : Prop := ∀ c ∈ w.docker, c.started = true → c.id ∈ w.asked

/-- What is asked of a state: once the job has ended, its handle is not running, its token is revoked and its containers
are asked to stop; a failed creation leaves no container. -/
structure Safe (w : World) : Prop where
  notRunning : w.ended = true → ∀ h, w.handle = some h → h.state ≠ .running
  revoked : w.ended = true → w.token = none
  stopped : w.ended = true → AllAsked w
  failed : ∀ e, w.create = .returned (.error e) → w.docker = []

/-- `create_job` has returned. -/
def Over (w : World) : Prop := ∃ result, w.create = .returned result

/-- The steps that keep the promise. Docker starts what it created. `complete_job` begins after `create_job` returned;
when it reads the container id, there is a handle, unless every container is asked to stop already; and it reaches
Docker. -/
def Orderly (w : World) : Label → Prop
  | .create _ _ start => ∀ t id, w.create = .startContainer t id → start = none
  | .advance i answer =>
    (∀ result, w.calls[i]? = some (.complete (.store result)) → Over w) ∧
      (w.calls[i]? = some (.complete .read) → AllAsked w ∨ w.handle.isSome = true) ∧
      ∀ id, w.calls[i]? = some (.complete (.stop id)) → AllAsked w ∨ answer.connect = none
  | _ => True

/-! ## The invariant -/

/-- The creation is over, and the handle does not run. -/
def Quiet (w : World) : Prop := Over w ∧ ∀ h, w.handle = some h → h.state ≠ .running

/-- The creation is over, and this is the id of the job's container. -/
def Recorded (w : World) (id : Str) : Prop := Over w ∧ ∀ c ∈ w.docker, c.id = id

/-- The job has ended, up to the grants. -/
def Ended (w : World) : Prop := Quiet w ∧ AllAsked w ∧ w.token = none

/-- What a call relies on at each point. -/
def Call.Fine (w : World) : Call → Prop
  | .complete (.store _) => True
  | .complete .read => Quiet w
  | .complete (.stop id) => Quiet w ∧ Recorded w id
  | .complete (.remove _) => Quiet w ∧ AllAsked w
  | .complete .revokeToken => Quiet w ∧ AllAsked w
  | .complete .revokeGrants => Ended w
  | .complete .returned => Ended w
  | .stop .read => True
  | .stop (.stop id) => Recorded w id
  | .stop (.remove _) => Over w ∧ AllAsked w
  | .stop .update => Over w ∧ AllAsked w
  | .stop .revokeToken => Quiet w ∧ AllAsked w
  | .stop .revokeGrants => Ended w
  | .stop (.returned (.ok _)) => Ended w
  | .stop (.returned (.error _)) => True

/-- What Docker has at each point of the creation. -/
def DockerAt (w : World) : Prop :=
  match w.create with
  | .startContainer _ id => ∀ c ∈ w.docker, c.id = id.1
  | .record _ id => ∀ c ∈ w.docker, c.id = id.1
  | .returned (.ok _) => True
  | _ => w.docker = []

/-- A handle has a container id only after the creation, and then it is that of the job's container. -/
def HandleAt (w : World) : Prop :=
  ∀ h, w.handle = some h →
    (∃ t, w.create = .returned (.ok t) ∧ h.containerId ≠ [] ∧ ∀ c ∈ w.docker, c.id = h.containerId) ∨
      (h.containerId = [] ∧ ¬Over w)

structure Inv (w : World) : Prop where
  docker : DockerAt w
  handle : HandleAt w
  calls : ∀ call ∈ w.calls, call.Fine w
  ended : w.ended = true → Ended w

/-! ## What lasts -/

/-- What a step cannot undo. -/
structure Later (w w' : World) : Prop where
  isOver : Over w → Over w'
  quiet : Quiet w → Quiet w'
  asked : Over w → AllAsked w → AllAsked w'
  token : Over w → w.token = none → w'.token = none
  docker : Over w → ∀ c' ∈ w'.docker, ∃ c ∈ w.docker, c.id = c'.id

section Lasting

variable {w w' : World}

theorem Later.ended (h : Later w w') (he : Ended w) : Ended w' :=
  ⟨h.quiet he.1, h.asked he.1.1 he.2.1, h.token he.1.1 he.2.2⟩

theorem Later.recorded {id : Str} (h : Later w w') (hr : Recorded w id) : Recorded w' id := by
  refine ⟨h.isOver hr.1, fun c' hc' => ?_⟩
  obtain ⟨c, hc, heq⟩ := h.docker hr.1 c' hc'
  rw [← heq]
  exact hr.2 c hc

/-- What a call relies on lasts. -/
theorem Later.fine (h : Later w w') : ∀ {call : Call}, call.Fine w → call.Fine w'
  | .complete (.store _), _ => trivial
  | .complete .read, hq => h.quiet hq
  | .complete (.stop _), hf => ⟨h.quiet hf.1, h.recorded hf.2⟩
  | .complete (.remove _), hf => ⟨h.quiet hf.1, h.asked hf.1.1 hf.2⟩
  | .complete .revokeToken, hf => ⟨h.quiet hf.1, h.asked hf.1.1 hf.2⟩
  | .complete .revokeGrants, he => h.ended he
  | .complete .returned, he => h.ended he
  | .stop .read, _ => trivial
  | .stop (.stop _), hr => h.recorded hr
  | .stop (.remove _), hf => ⟨h.isOver hf.1, h.asked hf.1 hf.2⟩
  | .stop .update, hf => ⟨h.isOver hf.1, h.asked hf.1 hf.2⟩
  | .stop .revokeToken, hf => ⟨h.quiet hf.1, h.asked hf.1.1 hf.2⟩
  | .stop .revokeGrants, he => h.ended he
  | .stop (.returned (.ok _)), he => h.ended he
  | .stop (.returned (.error _)), _ => trivial

/-- A step of `create_job` that is not over starts from a state that is not. -/
theorem later_of_not_over (h : ¬Over w) : Later w w' :=
  ⟨fun ho => absurd ho h, fun hq => absurd hq.1 h, fun ho => absurd ho h, fun ho => absurd ho h, fun ho => absurd ho h⟩

/-- A step outside `create_job`: containers stop or go and none starts, no handle is made and none begins to run, and
the token stays as it is or is revoked. -/
structure Frame (w w' : World) : Prop where
  create : w'.create = w.create
  docker : ∀ c' ∈ w'.docker, ∃ c ∈ w.docker, c.id = c'.id ∧ (c'.started = true → c.started = true)
  asked : w.asked ⊆ w'.asked
  handle : ∀ h', w'.handle = some h' →
    ∃ h, w.handle = some h ∧ h.containerId = h'.containerId ∧ (h'.state = .running → h.state = .running)
  token : w'.token = w.token ∨ w'.token = none

theorem frame_refl (w : World) : Frame w w :=
  ⟨rfl, fun c hc => ⟨c, hc, rfl, id⟩, List.Subset.refl _, fun h hh => ⟨h, hh, rfl, id⟩, .inl rfl⟩

theorem Frame.later (h : Frame w w') : Later w w' := by
  have hover : Over w → Over w' := by
    rintro ⟨r, hr⟩
    exact ⟨r, h.create.trans hr⟩
  refine ⟨hover, ?_, ?_, ?_, ?_⟩
  · rintro ⟨ho, hq⟩
    refine ⟨hover ho, fun h' hh' hrun => ?_⟩
    obtain ⟨h₀, hh, -, hrun'⟩ := h.handle h' hh'
    exact hq h₀ hh (hrun' hrun)
  · intro _ ha c' hc' hs
    obtain ⟨c, hc, heq, hstart⟩ := h.docker c' hc'
    rw [← heq]
    exact h.asked (ha c hc (hstart hs))
  · intro _ ht
    rcases h.token with heq | heq
    · rw [heq, ht]
    · exact heq
  · intro _ c' hc'
    obtain ⟨c, hc, heq, -⟩ := h.docker c' hc'
    exact ⟨c, hc, heq⟩

theorem Frame.dockerAt (h : Frame w w') (hw : DockerAt w) : DockerAt w' := by
  have hids : ∀ id : Str, (∀ c ∈ w.docker, c.id = id) → ∀ c' ∈ w'.docker, c'.id = id := by
    intro id hid c' hc'
    obtain ⟨c, hc, heq, -⟩ := h.docker c' hc'
    rw [← heq]
    exact hid c hc
  have hnil : w.docker = [] → w'.docker = [] := by
    intro hw
    refine List.eq_nil_iff_forall_not_mem.mpr fun c' hc' => ?_
    obtain ⟨c, hc, -⟩ := h.docker c' hc'
    rw [hw] at hc
    cases hc
  unfold DockerAt at hw ⊢
  rw [h.create]
  split at hw
  · exact hids _ hw
  · exact hids _ hw
  · trivial
  · exact hnil hw

theorem Frame.handleAt (h : Frame w w') (hw : HandleAt w) : HandleAt w' := by
  intro h' hh'
  obtain ⟨h₀, hh, hid, -⟩ := h.handle h' hh'
  rw [← hid]
  rcases hw h₀ hh with ⟨t, ht, hne, hdocker⟩ | ⟨hnil, hover⟩
  · refine .inl ⟨t, h.create.trans ht, hne, fun c' hc' => ?_⟩
    obtain ⟨c, hc, heq, -⟩ := h.docker c' hc'
    rw [← heq]
    exact hdocker c hc
  · refine .inr ⟨hnil, ?_⟩
    rintro ⟨r, hr⟩
    exact hover ⟨r, h.create.symm.trans hr⟩

theorem frame_askStop (w : World) (id : Str) (succeeds : Bool) : Frame w (askStop w id succeeds) := by
  refine { frame_refl w with docker := fun c' hc' => ?_, asked := List.subset_cons_self id w.asked }
  cases succeeds with
  | false => exact ⟨c', hc', rfl, fun h => h⟩
  | true =>
    obtain ⟨c, hc, rfl⟩ := List.mem_map.mp hc'
    refine ⟨c, hc, ?_, ?_⟩
    · split <;> rfl
    · split
      · exact fun h => by cases h
      · exact fun h => h

theorem frame_askRemove (w : World) (id : Str) (succeeds : Bool) : Frame w (askRemove w id succeeds) := by
  refine { frame_refl w with docker := fun c' hc' => ?_ }
  cases succeeds with
  | false => exact ⟨c', hc', rfl, fun h => h⟩
  | true => exact ⟨c', List.mem_of_mem_filter hc', rfl, fun h => h⟩

/-- The handle is marked as stopped. -/
theorem frame_stopped (w : World) (f : ContainerHandle → ContainerHandle) (hid : ∀ h, (f h).containerId = h.containerId)
    (hstate : ∀ h, (f h).state = .stopped) : Frame w { w with handle := w.handle.map f } := by
  refine { frame_refl w with handle := fun h' hh' => ?_ }
  obtain ⟨h, hh, rfl⟩ := Option.map_eq_some_iff.mp hh'
  refine ⟨h, hh, (hid h).symm, fun hrun => ?_⟩
  rw [hstate h] at hrun
  cases hrun

/-- After the request to stop the job's container, all of them are asked to stop. -/
theorem allAsked_askStop {id : Str} (h : Recorded w id) (succeeds : Bool) : AllAsked (askStop w id succeeds) := by
  intro c' hc' _
  obtain ⟨c, hc, heq⟩ := (frame_askStop w id succeeds).later.docker h.1 c' hc'
  rw [← heq, h.2 c hc]
  exact List.mem_cons_self

end Lasting

/-! ## Steps of the calls -/

section Calls

variable {w : World}

/-- A step of `complete_job` or `stop_job`, from the world `w` to `r.1` with the call now at `r.2`. -/
structure CallStepped (w : World) (r : World × Call) : Prop where
  frame : Frame w r.1
  fine : r.2.Fine r.1
  ended : r.1.ended = true → w.ended = true ∨ Ended r.1

/-- The container id in a handle after the creation. -/
theorem Inv.recorded (h : Inv w) (hover : Over w) {hd : ContainerHandle} (hh : w.handle = some hd) :
    hd.containerId.isEmpty = false ∧ Recorded w hd.containerId := by
  rcases h.handle hd hh with ⟨t, ht, hne, hdocker⟩ | ⟨-, hno⟩
  · exact ⟨List.isEmpty_eq_false_iff.mpr hne, hover, hdocker⟩
  · exact absurd hover hno

theorem completeStep_fine (h : Inv w) (answer : DockerAnswer) (pc : CompletePc) (hf : (Call.complete pc).Fine w)
    (hstore : ∀ result, pc = .store result → Over w) (hread : pc = .read → AllAsked w ∨ w.handle.isSome = true)
    (hstop : ∀ id, pc = .stop id → AllAsked w ∨ answer.connect = none) :
    CallStepped w ((completeStep w answer pc).map id .complete) := by
  cases pc with
  | store result =>
    have hframe := frame_stopped w (fun h => { h with completionResult := some result, state := .stopped })
      (fun _ => rfl) (fun _ => rfl)
    refine ⟨hframe, ⟨hframe.later.isOver (hstore result rfl), fun hd hh => ?_⟩, fun he => .inl he⟩
    obtain ⟨hd', -, rfl⟩ := Option.map_eq_some_iff.mp hh
    exact fun hrun => by cases hrun
  | read =>
    simp only [completeStep]
    cases hh : w.handle with
    | none =>
      refine ⟨frame_refl w, ⟨hf, ?_⟩, fun he => .inl he⟩
      rcases hread rfl with ha | hsome
      · exact ha
      · rw [hh] at hsome
        cases hsome
    | some hd =>
      obtain ⟨hne, hrec⟩ := h.recorded hf.1 hh
      simp only [Option.map_some, hne, Bool.false_eq_true, if_false]
      exact ⟨frame_refl w, ⟨hf, hrec⟩, fun he => .inl he⟩
  | stop cid =>
    simp only [completeStep]
    split
    next e he =>
      refine ⟨frame_refl w, ⟨hf.1, ?_⟩, fun he => .inl he⟩
      rcases hstop cid rfl with ha | hconn
      · exact ha
      · rw [hconn] at he
        cases he
    · have hframe := frame_askStop w cid answer.succeeds
      exact ⟨hframe, ⟨hframe.later.quiet hf.1, allAsked_askStop hf.2 _⟩, fun he => .inl he⟩
  | remove cid =>
    have hframe := frame_askRemove w cid answer.succeeds
    exact ⟨hframe, ⟨hframe.later.quiet hf.1, hframe.later.asked hf.1.1 hf.2⟩, fun he => .inl he⟩
  | revokeToken =>
    have hframe : Frame w { w with token := none } := { frame_refl w with token := .inr rfl }
    exact ⟨hframe, ⟨hframe.later.quiet hf.1, hframe.later.asked hf.1.1 hf.2, rfl⟩, fun he => .inl he⟩
  | revokeGrants =>
    have hframe : Frame w { w with grants := none, ended := true } := { frame_refl w with }
    exact ⟨hframe, hframe.later.ended hf, fun _ => .inr (hframe.later.ended hf)⟩
  | returned => exact ⟨frame_refl w, hf, fun he => .inl he⟩

theorem stopStep_fine (h : Inv w) (answer : DockerAnswer) (pc : StopPc) (hf : (Call.stop pc).Fine w) :
    CallStepped w ((stopStep w answer pc).map id .stop) := by
  cases pc with
  | read =>
    simp only [stopStep]
    cases hh : w.handle with
    | none => exact ⟨frame_refl w, trivial, fun he => .inl he⟩
    | some hd =>
      simp only [Option.map_some]
      rcases h.handle hd hh with ⟨t, ht, hne, hdocker⟩ | ⟨hnil, -⟩
      · rw [if_neg (by rw [List.isEmpty_iff]; exact hne)]
        exact ⟨frame_refl w, ⟨⟨_, ht⟩, hdocker⟩, fun he => .inl he⟩
      · rw [if_pos (by rw [hnil]; rfl)]
        exact ⟨frame_refl w, trivial, fun he => .inl he⟩
  | stop cid =>
    simp only [stopStep]
    split
    · exact ⟨frame_refl w, trivial, fun he => .inl he⟩
    · have hframe := frame_askStop w cid answer.succeeds
      exact ⟨hframe, ⟨hframe.later.isOver hf.1, allAsked_askStop hf _⟩, fun he => .inl he⟩
  | remove cid =>
    have hframe := frame_askRemove w cid answer.succeeds
    exact ⟨hframe, ⟨hframe.later.isOver hf.1, hframe.later.asked hf.1 hf.2⟩, fun he => .inl he⟩
  | update =>
    have hframe := frame_stopped w (fun h => { h with state := .stopped }) (fun _ => rfl) (fun _ => rfl)
    refine ⟨hframe, ⟨⟨hframe.later.isOver hf.1, fun hd hh => ?_⟩, hframe.later.asked hf.1 hf.2⟩, fun he => .inl he⟩
    obtain ⟨hd', -, rfl⟩ := Option.map_eq_some_iff.mp hh
    exact fun hrun => by cases hrun
  | revokeToken =>
    have hframe : Frame w { w with token := none } := { frame_refl w with token := .inr rfl }
    exact ⟨hframe, ⟨hframe.later.quiet hf.1, hframe.later.asked hf.1.1 hf.2, rfl⟩, fun he => .inl he⟩
  | revokeGrants =>
    have hframe : Frame w { w with grants := none, ended := true } := { frame_refl w with }
    exact ⟨hframe, hframe.later.ended hf, fun _ => .inr (hframe.later.ended hf)⟩
  | returned result => exact ⟨frame_refl w, hf, fun he => .inl he⟩

/-- A step outside `create_job` keeps the invariant, when new positions of calls are fine. -/
theorem Frame.inv {w' : World} (h : Inv w) (hframe : Frame w w')
    (hcalls : ∀ call ∈ w'.calls, call ∈ w.calls ∨ call.Fine w')
    (hended : w'.ended = true → w.ended = true ∨ Ended w') : Inv w' := by
  refine ⟨hframe.dockerAt h.docker, hframe.handleAt h.handle, ?_, ?_⟩
  · intro call hcall
    rcases hcalls call hcall with hold | hfine
    · exact hframe.later.fine (h.calls call hold)
    · exact hfine
  · intro he
    rcases hended he with hold | hnew
    · exact hframe.later.ended (h.ended hold)
    · exact hnew

theorem inv_advance (h : Inv w) (i : Nat) (answer : DockerAnswer) (spec : JobSpec)
    (ho : Orderly w (.advance i answer)) : Inv (step spec w (.advance i answer)) := by
  obtain ⟨hstore, hread, hstop⟩ := ho
  simp only [step]
  split
  · exact h
  next call hcall =>
    have hfine := h.calls call (List.mem_of_getElem? hcall)
    have hstepped : CallStepped w (callStep w answer call) := by
      cases call with
      | complete pc =>
        refine completeStep_fine h answer pc hfine ?_ ?_ ?_
        · rintro result rfl
          exact hstore result hcall
        · rintro rfl
          exact hread hcall
        · rintro id rfl
          exact hstop id hcall
      | stop pc => exact stopStep_fine h answer pc hfine
    refine Frame.inv h { hstepped.frame with } (fun call' hcall' => ?_) hstepped.ended
    rcases List.mem_or_eq_of_mem_set hcall' with hold | rfl
    · exact .inl hold
    · exact .inr hstepped.fine

end Calls

/-! ## Steps of the creation -/

section Creation

variable {w : World}

theorem not_over_of {pc : CreatePc} (hc : w.create = pc) (hpc : ∀ r, pc ≠ .returned r) : ¬Over w := by
  rintro ⟨r, hr⟩
  exact hpc r (hc.symm.trans hr)

/-- A step of `create_job` needs what it does to containers and handles only: nothing relies on a creation that is not
over. -/
theorem inv_of_not_over {w' : World} (h : Inv w) (hover : ¬Over w) (hcalls : w'.calls = w.calls)
    (hended : w'.ended = w.ended) (hdocker : DockerAt w') (hhandle : HandleAt w') : Inv w' := by
  refine ⟨hdocker, hhandle, fun call hcall => ?_, fun he => ?_⟩
  · rw [hcalls] at hcall
    exact (later_of_not_over hover).fine (h.calls call hcall)
  · rw [hended] at he
    exact absurd (h.ended he).1.1 hover

/-- Until the creation is over a handle has no container id. -/
theorem handleAt_of_not_over {w' : World} (h : Inv w) (hover : ¬Over w) (hover' : ¬Over w')
    (hhandle : w'.handle = w.handle) : HandleAt w' := by
  intro hd hh
  rw [hhandle] at hh
  rcases h.handle hd hh with ⟨t, ht, -⟩ | ⟨hnil, -⟩
  · exact absurd ⟨_, ht⟩ hover
  · exact .inr ⟨hnil, hover'⟩

theorem inv_create (h : Inv w) (spec : JobSpec) (token : Str) (container : Except OrchestratorError DockerId)
    (start : Option Str) (ho : Orderly w (.create token container start)) :
    Inv (createStep spec w token container start) := by
  have hdocker := h.docker
  unfold DockerAt at hdocker
  unfold createStep
  cases hc : w.create with
  | createToken =>
    rw [hc] at hdocker
    have hover := not_over_of hc (by intro r hr; cases hr)
    exact inv_of_not_over h hover rfl rfl hdocker
      (handleAt_of_not_over h hover (not_over_of rfl (by intro r hr; cases hr)) rfl)
  | storeGrants t =>
    rw [hc] at hdocker
    have hover := not_over_of hc (by intro r hr; cases hr)
    exact inv_of_not_over h hover rfl rfl hdocker
      (handleAt_of_not_over h hover (not_over_of rfl (by intro r hr; cases hr)) rfl)
  | insertHandle t =>
    rw [hc] at hdocker
    refine inv_of_not_over h (not_over_of hc (by intro r hr; cases hr)) rfl rfl hdocker fun hd hh => ?_
    obtain rfl := Option.some.inj hh
    exact .inr ⟨rfl, not_over_of rfl (by intro r hr; cases hr)⟩
  | createContainer t =>
    rw [hc] at hdocker
    have hover := not_over_of hc (by intro r hr; cases hr)
    cases container with
    | error e =>
      exact inv_of_not_over h hover rfl rfl hdocker
        (handleAt_of_not_over h hover (not_over_of rfl (by intro r hr; cases hr)) rfl)
    | ok id =>
      refine inv_of_not_over h hover rfl rfl ?_
        (handleAt_of_not_over h hover (not_over_of rfl (by intro r hr; cases hr)) rfl)
      intro c hcm
      rw [show w.docker = [] from hdocker] at hcm
      rw [List.mem_singleton.mp hcm]
  | startContainer t id =>
    rw [hc] at hdocker
    have hover := not_over_of hc (by intro r hr; cases hr)
    -- Docker starts the container: the failing case is the one that is left out
    obtain rfl := ho t id hc
    refine inv_of_not_over h hover rfl rfl ?_
      (handleAt_of_not_over h hover (not_over_of rfl (by intro r hr; cases hr)) rfl)
    intro c' hc'
    obtain ⟨c, hcm, rfl⟩ := List.mem_map.mp hc'
    split
    · exact hdocker c hcm
    · exact hdocker c hcm
  | record t id =>
    rw [hc] at hdocker
    refine inv_of_not_over h (not_over_of hc (by intro r hr; cases hr)) rfl rfl trivial fun hd hh => ?_
    obtain ⟨hd', -, rfl⟩ := Option.map_eq_some_iff.mp hh
    exact .inl ⟨t, rfl, id.2, hdocker⟩
  | revokeToken e =>
    rw [hc] at hdocker
    have hover := not_over_of hc (by intro r hr; cases hr)
    exact inv_of_not_over h hover rfl rfl hdocker
      (handleAt_of_not_over h hover (not_over_of rfl (by intro r hr; cases hr)) rfl)
  | revokeGrants e =>
    rw [hc] at hdocker
    have hover := not_over_of hc (by intro r hr; cases hr)
    exact inv_of_not_over h hover rfl rfl hdocker
      (handleAt_of_not_over h hover (not_over_of rfl (by intro r hr; cases hr)) rfl)
  | removeHandle e =>
    rw [hc] at hdocker
    refine inv_of_not_over h (not_over_of hc (by intro r hr; cases hr)) rfl rfl hdocker fun hd hh => ?_
    cases hh
  | returned result => exact h

end Creation

/-! ## Runs -/

theorem inv_initial : Inv initial := by
  refine ⟨rfl, fun hd hh => ?_, fun call hcall => ?_, fun he => ?_⟩
  · cases hh
  · cases hcall
  · cases he

theorem inv_step (spec : JobSpec) (w : World) (l : Label) (hl : Orderly w l) (h : Inv w) : Inv (step spec w l) := by
  cases l with
  | create token container start => exact inv_create h spec token container start hl
  | completeJob result =>
    refine Frame.inv h { frame_refl w with } (fun call hcall => ?_) (fun he => .inl he)
    rcases List.mem_append.mp hcall with hold | hnew
    · exact .inl hold
    · rw [List.mem_singleton.mp hnew]
      exact .inr trivial
  | stopJob =>
    refine Frame.inv h { frame_refl w with } (fun call hcall => ?_) (fun he => .inl he)
    rcases List.mem_append.mp hcall with hold | hnew
    · exact .inl hold
    · rw [List.mem_singleton.mp hnew]
      exact .inr trivial
  | cleanupJob =>
    refine Frame.inv h { frame_refl w with handle := fun h' hh' => ?_ } (fun call hcall => .inl hcall)
      (fun he => .inl he)
    cases hh'
  | advance i answer => exact inv_advance h i answer spec hl

theorem Inv.safe {w : World} (h : Inv w) : Safe w := by
  refine ⟨fun he => (h.ended he).1.2, fun he => (h.ended he).2.2, fun he => (h.ended he).2.1, fun e hc => ?_⟩
  have hdocker := h.docker
  unfold DockerAt at hdocker
  rw [hc] at hdocker
  exact hdocker

/-- **The lifecycle of a job.** In every state of a run whose steps are orderly, a job that has ended stays ended, and a
failed creation leaves no container. -/
theorem lifecycle (spec : JobSpec) (ls : List Label) (h : Along (step spec) Orderly initial ls) :
    Safe (run (step spec) initial ls) :=
  (run_inv (inv_step spec) ls inv_initial h).safe

def plainSpec : JobSpec := ⟨"build".toList, none, .worker, [], 0⟩

def containerOne : DockerId := ⟨"c1".toList, by decide⟩

/-- The next step of `create_job`, with Docker doing what it is asked to do. -/
def creates : Label := .create "t1".toList (.ok containerOne) none

/-- The next step of the first call. -/
def advances : Label := .advance 0 ⟨none, true⟩

def success : CompletionResult := ⟨true, none⟩

/-- A job is created and completed. -/
def completedRun : List Label :=
  List.replicate 6 creates ++ .completeJob success :: List.replicate 6 advances

theorem lifecycle_completed :
    (run (step plainSpec) initial completedRun).ended = true ∧ Safe (run (step plainSpec) initial completedRun) := by
  refine ⟨rfl, lifecycle plainSpec completedRun ?_⟩
  have hcreates : ∀ w, Orderly w creates := fun w t id _ => rfl
  have hadvances : ∀ w, Over w → w.handle.isSome = true → Orderly w advances :=
    fun w hover hsome => ⟨fun _ _ => hover, fun _ => .inr hsome, fun _ _ => .inr rfl⟩
  refine ⟨hcreates _, hcreates _, hcreates _, hcreates _, hcreates _, hcreates _, trivial, ?_, ?_, ?_, ?_,
    ?_, ?_, trivial⟩
  all_goals exact hadvances _ ⟨_, rfl⟩ rfl

/-- The worker reports its result before `create_job` has recorded the container: the job runs again, and its container
is not stopped. Docker does not start a container: it stays when `create_job` has failed. Docker is not reached by
`complete_job`: the container is not stopped. -/
theorem early_completion_resurrects :
    ¬Safe (run (step plainSpec) initial
      (List.replicate 5 creates ++ .completeJob success :: List.replicate 4 advances ++ [creates])) ∧
    ¬Safe (run (step plainSpec) initial
      (List.replicate 4 creates ++
        List.replicate 4 (.create "t1".toList (.ok containerOne) (some "no such image".toList)))) ∧
    ¬Safe (run (step plainSpec) initial
      (List.replicate 6 creates ++ .completeJob success ::
        List.replicate 5 (.advance 0 ⟨some (.docker "connection refused".toList), true⟩))) := by
  refine ⟨fun h => ?_, fun h => ?_, fun h => ?_⟩
  · exact h.notRunning rfl _ rfl rfl
  · exact absurd (h.failed _ rfl) (by decide)
  · exact absurd (h.stopped rfl ⟨"c1".toList, true⟩ (by decide) rfl) (by decide)

end Ironclaw.Orchestrator

import Ironclaw.Lib.Run
import Ironclaw.Session.Handlers

/-!
# Approvals and cancellations

Once a thread that waited for a request has been interrupted, cleared or undone, the tool of the request must not run,
the thread must not wait for it again, and an interrupted turn must not be ended or taken up. `process_approval` takes
the request, releases the lock and does not look again.

- `kept_input`: the steps of a user message are safe whatever came between them;
- `approval_iff`: all states of a run are safe exactly when `process_approval` is never overtaken at the steps that
  matter;
- `interrupted_request_goes_on`: the tool of an interrupted request runs.
-/

namespace Ironclaw.Session

open Text Llm Run

/-! ## Safe logs -/

/-- The thread has waited for the request and was cancelled afterwards. -/
def Stale (r : Nat) (log : List Event) : Prop := ∃ pre, .cancelled :: pre <:+ log ∧ .awaited r ∈ pre

/-- What is asked of an event, with the events before it. -/
def Event.Fine (before : List Event) : Event → Prop
  | .executed r => ¬Stale r before
  | .awaited r => ¬Stale r before
  | .settled state => state ≠ .interrupted
  | _ => True

def Safe : List Event → Prop
  | [] => True
  | e :: log => e.Fine log ∧ Safe log

/-- The condition on a step of `process_approval`. The steps that put the request back or execute its tool come before
any cancellation since it was taken; the steps that end a turn or take it up find a thread that is not interrupted. -/
def ApprovalPc.Rechecked (w : World) (since : Nat) : ApprovalPc → Prop
  | .restore _ => since = cancels w.log
  | .execute _ => since = cancels w.log
  | .setProcessing _ => w.thread.state ≠ .interrupted
  | .authIntercept _ _ => w.thread.state ≠ .interrupted
  | .deferredAuth _ _ _ _ _ _ => w.thread.state ≠ .interrupted
  | .finish (.ok (.response _)) => w.thread.state ≠ .interrupted
  | .finish (.error _) => w.thread.state ≠ .interrupted
  | .reject _ => w.thread.state ≠ .interrupted
  | _ => True

/-- No step of an approval is overtaken by a cancellation. -/
def NotOvertaken (w : World) : Label → Prop
  | .advance i _ => ∀ since pc, w.calls[i]? = some (.approval since pc) → pc.Rechecked w since
  | _ => True

/-! ## Stale requests -/

theorem stale_cons {r : Nat} {e : Event} {log : List Event} :
    Stale r (e :: log) ↔ e = .cancelled ∧ .awaited r ∈ log ∨ Stale r log := by
  constructor
  · rintro ⟨pre, hpre, hmem⟩
    rcases List.suffix_cons_iff.mp hpre with heq | hpre
    · obtain ⟨rfl, rfl⟩ := List.cons_eq_cons.mp heq
      exact .inl ⟨rfl, hmem⟩
    · exact .inr ⟨pre, hpre, hmem⟩
  · rintro (⟨rfl, hmem⟩ | ⟨pre, hpre, hmem⟩)
    · exact ⟨log, List.suffix_rfl, hmem⟩
    · exact ⟨pre, hpre.trans (List.suffix_cons e log), hmem⟩

theorem stale_cons_of_ne {r : Nat} {e : Event} {log : List Event} (he : e ≠ .cancelled) :
    Stale r (e :: log) ↔ Stale r log := by
  rw [stale_cons]
  simp [he]

theorem Stale.awaited {r : Nat} {log : List Event} (h : Stale r log) : .awaited r ∈ log := by
  obtain ⟨pre, hpre, hmem⟩ := h
  exact hpre.subset (List.mem_cons_of_mem _ hmem)

/-- A request that a call holds was on the thread, and it is stale exactly when there were cancellations since. -/
structure Held (log : List Event) (since : Nat) (p : PendingApproval) : Prop where
  awaited : .awaited p.requestId ∈ log
  since_le : since ≤ cancels log
  stale_iff : Stale p.requestId log ↔ since ≠ cancels log

theorem cancels_cons (e : Event) (log : List Event) :
    cancels (e :: log) = cancels log + if e = .cancelled then 1 else 0 := by
  simp [cancels, List.countP_cons]

theorem Held.cons {log : List Event} {since : Nat} {p : PendingApproval} (h : Held log since p) (e : Event) :
    Held (e :: log) since p := by
  have hle := h.since_le
  by_cases he : e = .cancelled
  · subst he
    have hcount : cancels (.cancelled :: log) = cancels log + 1 := by simp [cancels_cons]
    refine ⟨List.mem_cons_of_mem _ h.awaited, by omega, iff_of_true ?_ (by omega)⟩
    exact stale_cons.2 (.inl ⟨rfl, h.awaited⟩)
  · have hcount : cancels (e :: log) = cancels log := by simp [cancels_cons, he]
    refine ⟨List.mem_cons_of_mem _ h.awaited, by omega, ?_⟩
    rw [stale_cons_of_ne he, h.stale_iff, hcount]

/-- Later events change nothing about that. -/
theorem Held.mono {since : Nat} {p : PendingApproval} : ∀ {log log' : List Event}, log <:+ log' → Held log since p →
    Held log' since p
  | log, log', hsuffix, h => by
    obtain ⟨events, rfl⟩ := hsuffix
    induction events with
    | nil => exact h
    | cons e events ih => exact ih.cons e

/-! ## The invariant of the thread -/

/-- Request numbers are new, a request that the thread waits for is not stale, and the log is safe. -/
structure Core (w : World) : Prop where
  ids : ∀ r, .awaited r ∈ w.log → r < w.nextRequest
  pending : w.thread.state = .awaitingApproval → ∀ p, w.thread.pendingApproval = some p →
    .awaited p.requestId ∈ w.log ∧ ¬Stale p.requestId w.log
  safe : Safe w.log

/-- A step to `w'` keeps the invariant and the log. -/
structure Kept (w w' : World) : Prop where
  core : Core w'
  log : w.log <:+ w'.log

section Steps

variable {w : World}

/-- An event about messages. -/
def Event.isPlain : Event → Bool
  | .accepted _ _ => true
  | .started _ _ => true
  | .discarded _ => true
  | _ => false

theorem Core.cons_plain (h : Core w) {e : Event} (he : e.isPlain = true) : Core { w with log := e :: w.log } := by
  have hne : e ≠ .cancelled := by rintro rfl; cases he
  refine ⟨fun r hr => ?_, fun hstate p hp => ?_, ?_, h.safe⟩
  · rcases List.mem_cons.mp hr with rfl | hr
    · cases he
    · exact h.ids r hr
  · obtain ⟨hawaited, hstale⟩ := h.pending hstate p hp
    refine ⟨List.mem_cons_of_mem _ hawaited, ?_⟩
    rw [stale_cons_of_ne hne]
    exact hstale
  · cases e <;> first | exact trivial | cases he

/-- A change that does not make the thread wait, with events about messages. -/
theorem kept_of_plain {w' : World} (h : Core w) (events : List Event) (hplain : ∀ e ∈ events, e.isPlain = true)
    (hlog : w'.log = events ++ w.log) (hnext : w'.nextRequest = w.nextRequest)
    (hpending : w'.thread.state = .awaitingApproval → w.thread.state = .awaitingApproval ∧
      ∀ p, w'.thread.pendingApproval = some p → w.thread.pendingApproval = some p) : Kept w w' := by
  have hcore : Core { w with log := events ++ w.log } := by
    clear hlog
    induction events with
    | nil => exact h
    | cons e events ih =>
      exact (ih fun e' he' => hplain e' (List.mem_cons_of_mem _ he')).cons_plain (hplain e List.mem_cons_self)
  refine ⟨⟨?_, ?_, ?_⟩, ?_⟩
  · rw [hlog, hnext]
    exact hcore.ids
  · intro hstate p hp
    rw [hlog]
    exact hcore.pending (hpending hstate).1 p ((hpending hstate).2 p hp)
  · rw [hlog]
    exact hcore.safe
  · rw [hlog]
    exact List.suffix_append _ _

theorem kept_of_thread {w' : World} (h : Core w) (hlog : w'.log = w.log) (hnext : w'.nextRequest = w.nextRequest)
    (hpending : w'.thread.state = .awaitingApproval → w.thread.state = .awaitingApproval ∧
      ∀ p, w'.thread.pendingApproval = some p → w.thread.pendingApproval = some p) : Kept w w' :=
  kept_of_plain h [] (fun _ he => absurd he List.not_mem_nil) hlog hnext hpending

theorem kept_settle (h : Core w) (hstate : w.thread.state ≠ .interrupted) {thread : Thread}
    (hthread : thread.state ≠ .awaitingApproval) : Kept w (w.settle thread) := by
  refine ⟨⟨fun r hr => ?_, fun hs => absurd hs hthread, hstate, h.safe⟩, List.suffix_cons _ _⟩
  exact h.ids r (List.mem_of_ne_of_mem Event.noConfusion hr)

/-- The thread waits for a request that is not stale. -/
theorem kept_await (h : Core w) {p : PendingApproval} (hid : p.requestId < w.nextRequest)
    (hstale : ¬Stale p.requestId w.log) : Kept w (w.await p) := by
  refine ⟨⟨fun r hr => ?_, fun _ q hq => ?_, hstale, h.safe⟩, List.suffix_cons _ _⟩
  · rcases List.mem_cons.mp hr with heq | hr
    · rw [Event.awaited.inj heq]
      exact hid
    · exact h.ids r hr
  · obtain rfl : p = q := Option.some.inj hq
    refine ⟨List.mem_cons_self, ?_⟩
    rw [World.await, stale_cons_of_ne Event.noConfusion]
    exact hstale

theorem Core.not_stale_new (h : Core w) : ¬Stale w.nextRequest w.log :=
  fun hs => absurd (h.ids _ hs.awaited) (Nat.lt_irrefl _)

theorem kept_awaitNew (h : Core w) (p : Agent.PendingApproval) : Kept w (w.awaitNew p) := by
  refine ⟨⟨fun r hr => ?_, fun _ q hq => ?_, h.not_stale_new, h.safe⟩, List.suffix_cons _ _⟩
  · show r < w.nextRequest + 1
    rcases List.mem_cons.mp hr with heq | hr
    · rw [Event.awaited.inj heq]
      exact Nat.lt_succ_self _
    · exact Nat.lt_succ_of_lt (h.ids r hr)
  · obtain rfl : { p with requestId := w.nextRequest } = q := Option.some.inj hq
    refine ⟨List.mem_cons_self, ?_⟩
    rw [World.awaitNew, World.await, stale_cons_of_ne Event.noConfusion]
    exact h.not_stale_new

theorem kept_executed (h : Core w) {r : Nat} (hstale : ¬Stale r w.log) :
    Kept w { w with log := .executed r :: w.log } := by
  refine ⟨⟨fun r' hr => ?_, fun hstate p hp => ?_, hstale, h.safe⟩, List.suffix_cons _ _⟩
  · exact h.ids r' (List.mem_of_ne_of_mem Event.noConfusion hr)
  · obtain ⟨hawaited, hs⟩ := h.pending hstate p hp
    refine ⟨List.mem_cons_of_mem _ hawaited, ?_⟩
    rw [stale_cons_of_ne Event.noConfusion]
    exact hs

theorem kept_cancel (h : Core w) (thread : Thread) (hthread : thread.state ≠ .awaitingApproval)
    (messages : List Message) : Kept w (w.cancel thread messages) := by
  refine ⟨⟨fun r hr => ?_, fun hs => absurd hs hthread, trivial, trivial, h.safe⟩, ?_⟩
  · have hr := List.mem_of_ne_of_mem Event.noConfusion hr
    exact h.ids r (List.mem_of_ne_of_mem Event.noConfusion hr)
  · exact (List.suffix_cons _ _).trans (List.suffix_cons _ _)

theorem Kept.withUndo {w' : World} (h : Kept w w') (undo : UndoManager) : Kept w { w' with undo := undo } :=
  ⟨⟨h.core.ids, h.core.pending, h.core.safe⟩, h.log⟩

theorem kept_refl (h : Core w) : Kept w w := ⟨h, List.suffix_rfl⟩

/-- The thread is changed outside its state and its request. -/
theorem kept_update (h : Core w) {thread : Thread} (hstate : thread.state = w.thread.state)
    (hpending : thread.pendingApproval = w.thread.pendingApproval) : Kept w { w with thread := thread } :=
  kept_of_thread h rfl rfl fun hs => ⟨hstate ▸ hs, fun _ hp => hpending ▸ hp⟩

theorem kept_work (h : Core w) (answer : Answer) : Kept w (workStep w answer) := by
  refine kept_update h ?_ ?_ <;> cases answer.auth <;> rfl

end Steps

/-! ## The steps of a user message -/

section Input

variable (env : Env) {w : World}

theorem kept_enqueue (h : Core w) (job : Job) : Kept w (enqueueStep env w job).1 := by
  unfold enqueueStep
  split
  · split
    · exact kept_refl h
    · split
      · exact kept_refl h
      · split
        · exact kept_refl h
        · rename_i thread hqueue
          obtain ⟨-, rfl⟩ := Thread.eq_of_queueMessage hqueue
          split
          · exact kept_update h rfl rfl
          · refine kept_of_plain h [.accepted w.nextMessage job.message.text] ?_ rfl rfl fun hs => ⟨hs, fun _ hp => hp⟩
            simp [Event.isPlain]
  · exact kept_refl h

theorem kept_finish (h : Core w) (job : Job) (result : LoopResult) : Kept w (finishStep env w job result).1 := by
  unfold finishStep
  split
  · exact kept_refl h
  · rename_i hstate
    split
    · exact kept_settle h hstate nofun
    · exact kept_awaitNew h _
    · exact kept_settle h hstate nofun

theorem kept_processed (h : Core w) (job : Job) (result : SubmissionResult) :
    Kept w (processedStep w job result).1 := by
  unfold processedStep
  split
  · split
    · exact kept_refl h
    · rename_i hdrain
      obtain ⟨-, -, rfl⟩ := Thread.eq_of_drain hdrain
      exact kept_update h rfl rfl
  · split
    · exact kept_update h rfl rfl
    · exact kept_refl h

/-- Whatever another call does, the steps of a user message keep the invariant. -/
theorem kept_input (h : Core w) (answer : Answer) : ∀ pc : InputPc, Kept w (inputStep env w answer pc).1
  | .snapshot _ => kept_refl h
  | .enqueue job => kept_enqueue env h job
  | .validate _ => kept_refl h
  | .compact _ => by
    simp only [inputStep]
    cases answer.keep with
    | none => exact kept_refl h
    | some keep =>
      obtain ⟨turns, hturns⟩ := Thread.eq_of_truncateTurns w.thread keep
      refine kept_update h ?_ ?_ <;> simp only [Option.elim] <;> rw [hturns]
  | .checkpoint _ => kept_of_thread h rfl rfl fun hs => ⟨hs, fun _ hp => hp⟩
  | .start job => by
    refine kept_of_plain h [.started job.message.parts (job.augmented.getD job.message.text)] ?_ rfl rfl nofun
    simp [Event.isPlain]
  | .loop _ => by
    simp only [inputStep]
    cases answer.loop with
    | none => exact kept_work h answer
    | some _ => exact kept_refl h
  | .finish job result => kept_finish env h job result
  | .processed job result => kept_processed h job result
  | .returned _ => kept_refl h

end Input

/-! ## The steps of an approval -/

/-- The request that an approval holds and has not used yet. -/
def ApprovalPc.held : ApprovalPc → Option PendingApproval
  | .restore p => some p
  | .autoApprove p => some p
  | .setProcessing p => some p
  | .execute p => some p
  | _ => none

section Approval

variable (env : Env) {w : World} {since : Nat}

theorem Held.not_stale {log : List Event} {p : PendingApproval} (h : Held log since p) (hsince : since = cancels log) :
    ¬Stale p.requestId log :=
  fun hs => h.stale_iff.mp hs hsince

theorem Held.since_eq {log : List Event} {p : PendingApproval} (h : Held log since p)
    (hstale : ¬Stale p.requestId log) :
    since = cancels log :=
  Decidable.byContradiction fun hne => hstale (h.stale_iff.mpr hne)

theorem kept_record (h : Core w) (toolName toolCallId : Str) (outcome : Agent.ToolOutcome) :
    Kept w { w with thread := recordResult env w.thread toolName toolCallId outcome } :=
  kept_update h rfl rfl

theorem kept_take (h : Core w) (requestId : Option Nat) (approved always : Bool) :
    Kept w (takeStep w requestId approved always).1 := by
  rcases takeStep_fst w requestId approved always with heq | heq <;> rw [heq]
  · exact kept_refl h
  · exact kept_of_thread h rfl rfl fun hs => ⟨hs, nofun⟩

/-- A step of an approval that is not overtaken keeps the invariant. -/
theorem kept_approval (h : Core w) (answer : Answer) : ∀ pc : ApprovalPc,
    (∀ p, pc.held = some p → Held w.log since p) → pc.Rechecked w since → Kept w (approvalStep env w answer pc).1
  | .take requestId approved always, _, _ => kept_take h requestId approved always
  | .restore p, hheld, hsince => by
    have hp := hheld p rfl
    exact kept_await h (h.ids _ hp.awaited) (hp.not_stale hsince)
  | .autoApprove _, _, _ => kept_of_thread h rfl rfl fun hs => ⟨hs, fun _ hp => hp⟩
  | .setProcessing _, _, hstate => kept_settle h hstate nofun
  | .execute p, hheld, hsince => kept_executed h ((hheld p rfl).not_stale hsince)
  | .record p outcome, _, _ => by
    simp only [approvalStep]
    split <;> exact kept_record env h _ _ _
  | .authIntercept _ _, _, hstate => kept_settle h hstate nofun
  | .preflight _ _ _ _, _, _ => kept_refl h
  | .runDeferred _ _ _ _, _, _ => kept_refl h
  | .recordDeferred _ _ ((tc, outcome) :: _) _ auth, _, _ => by
    simp only [approvalStep]
    split <;> exact kept_record env h _ _ _
  | .recordDeferred _ _ [] _ (some _), _, _ => kept_refl h
  | .recordDeferred _ _ [] (some _) none, _, _ => kept_refl h
  | .recordDeferred _ _ [] none none, _, _ => kept_refl h
  | .deferredAuth _ _ _ _ _ _, _, hstate => kept_settle h hstate nofun
  | .awaitNew p context needed, _, _ => kept_awaitNew h _
  | .loop _, _, _ => by
    simp only [approvalStep]
    cases answer.loop with
    | none => exact kept_work h answer
    | some _ => exact kept_refl h
  | .finish (.ok (.response _)), _, hstate => kept_settle h hstate nofun
  | .finish (.ok (.needApproval _)), _, _ => kept_awaitNew h _
  | .finish (.error _), _, hstate => kept_settle h hstate nofun
  | .reject _, _, hstate => kept_settle h hstate nofun
  | .returned _, _, _ => kept_refl h

/-- A step of an approval that is overtaken leaves an unsafe log. -/
theorem rechecked_of_safe (answer : Answer) : ∀ pc : ApprovalPc,
    (∀ p, pc.held = some p → Held w.log since p) → Safe (approvalStep env w answer pc).1.log → pc.Rechecked w since
  | .restore p, hheld, hsafe => (hheld p rfl).since_eq hsafe.1
  | .execute p, hheld, hsafe => (hheld p rfl).since_eq hsafe.1
  | .setProcessing _, _, hsafe => hsafe.1
  | .authIntercept _ _, _, hsafe => hsafe.1
  | .deferredAuth _ _ _ _ _ _, _, hsafe => hsafe.1
  | .finish (.ok (.response _)), _, hsafe => hsafe.1
  | .finish (.error _), _, hsafe => hsafe.1
  | .reject _, _, hsafe => hsafe.1
  | .finish (.ok (.needApproval _)), _, _ => trivial
  | .take _ _ _, _, _ => trivial
  | .autoApprove _, _, _ => trivial
  | .record _ _, _, _ => trivial
  | .preflight _ _ _ _, _, _ => trivial
  | .runDeferred _ _ _ _, _, _ => trivial
  | .recordDeferred _ _ _ _ _, _, _ => trivial
  | .awaitNew _ _ _, _, _ => trivial
  | .loop _, _, _ => trivial
  | .returned _, _, _ => trivial

theorem takeStep_log (w : World) (requestId : Option Nat) (approved always : Bool) :
    (takeStep w requestId approved always).1.log = w.log := by
  rcases takeStep_fst w requestId approved always with heq | heq <;> rw [heq]

/-- What is taken is the request that the thread waits for. -/
theorem held_takeStep {requestId : Option Nat} {approved always : Bool} {p : PendingApproval}
    (hp : (takeStep w requestId approved always).2.held = some p) :
    w.thread.state = .awaitingApproval ∧ w.thread.pendingApproval = some p := by
  unfold takeStep Thread.takePendingApproval at hp
  by_cases hstate : w.thread.state = .awaitingApproval
  · rw [if_neg (not_not.mpr hstate)] at hp
    refine ⟨hstate, ?_⟩
    cases hq : w.thread.pendingApproval with
    | none =>
      simp only [hq] at hp
      cases hp
    | some q =>
      simp only [hq] at hp
      split_ifs at hp
      · exact hp
      · exact hp
      · exact hp
      · cases hp
  · rw [if_pos hstate] at hp
    cases hp

theorem held_take (h : Core w) (requestId : Option Nat) (approved always : Bool) {p : PendingApproval}
    (hp : (takeStep w requestId approved always).2.held = some p) :
    Held (takeStep w requestId approved always).1.log (cancels w.log) p := by
  obtain ⟨hstate, hpending⟩ := held_takeStep hp
  obtain ⟨hawaited, hstale⟩ := h.pending hstate p hpending
  rw [takeStep_log]
  exact ⟨hawaited, Nat.le_refl _, iff_of_false hstale fun hne => hne rfl⟩

/-- The request that an approval holds after a step. -/
theorem held_approval (h : Core w) (answer : Answer) : ∀ pc : ApprovalPc,
    (∀ p, pc.held = some p → Held w.log since p) → ∀ p, (approvalStep env w answer pc).2.held = some p →
      Held (approvalStep env w answer pc).1.log (pc.sinceNow w since) p
  | .take requestId approved always, _, p, hp => held_take h requestId approved always hp
  | .autoApprove q, hheld, p, hp => hheld p hp
  | .setProcessing q, hheld, p, hp => (hheld p hp).cons _
  | .record q outcome, _, p, hp => by
    simp only [approvalStep] at hp
    split at hp <;> cases hp
  | .preflight q context runnable rest, _, p, hp => by
    cases rest with
    | nil => cases hp
    | cons tc rest =>
      simp only [approvalStep, preflightStep] at hp
      split at hp
      · cases hp
      · split at hp <;> cases hp
  | .recordDeferred _ _ ((tc, outcome) :: _) _ auth, _, p, hp => by
    simp only [approvalStep] at hp
    split at hp <;> cases hp
  | .loop _, _, p, hp => by
    simp only [approvalStep] at hp
    split at hp <;> cases hp

end Approval

/-! ## Runs -/

/-- The invariant of a run: that of the thread, and what is known of the requests that the approvals hold. -/
structure Inv (w : World) : Prop where
  core : Core w
  held : ∀ since pc p, .approval since pc ∈ w.calls → pc.held = some p → Held w.log since p

theorem inv_initial : Inv initial := ⟨⟨nofun, nofun, trivial⟩, fun _ _ _ hmem => absurd hmem List.not_mem_nil⟩

theorem Core.withCalls {w : World} (h : Core w) (calls : List Call) : Core { w with calls := calls } :=
  ⟨h.ids, h.pending, h.safe⟩

/-- A step outside the calls. -/
theorem Inv.of_kept {w w' : World} (h : Inv w) (hkept : Kept w w') (hcalls : w'.calls = w.calls) : Inv w' :=
  ⟨hkept.core, fun since pc p hmem hp => (h.held since pc p (hcalls ▸ hmem) hp).mono hkept.log⟩

/-- A new call holds no request. -/
theorem Inv.arrive {w : World} (h : Inv w) {call : Call}
    (hcall : ∀ since pc, call = .approval since pc → pc.held = none) : Inv { w with calls := w.calls ++ [call] } := by
  refine ⟨h.core.withCalls _, fun since pc p hmem hp => ?_⟩
  rcases List.mem_append.mp hmem with hmem | hmem
  · exact h.held since pc p hmem hp
  · rw [hcall since pc (List.mem_singleton.mp hmem).symm] at hp
    cases hp

/-- A step of the call at a place. -/
theorem Inv.advance {w w' : World} (h : Inv w) {i : Nat} {call : Call} (hkept : Kept w w')
    (hcall : ∀ since pc p, call = .approval since pc → pc.held = some p → Held w'.log since p) :
    Inv { w' with calls := w.calls.set i call } := by
  refine ⟨hkept.core.withCalls _, fun since pc p hmem hp => ?_⟩
  rcases List.mem_or_eq_of_mem_set hmem with hmem | heq
  · exact (h.held since pc p hmem hp).mono hkept.log
  · exact hcall since pc p heq.symm hp

section Runs

variable (env : Env)

theorem inv_interrupt {w : World} (h : Inv w) : Inv (processInterrupt w) := by
  unfold processInterrupt
  split
  · exact h.of_kept (kept_cancel h.core w.thread.interrupt nofun w.thread.pendingMessages) rfl
  · exact h

theorem inv_undo {w : World} (h : Inv w) (checkpointId : Nat) : Inv (processUndo env w checkpointId) := by
  unfold processUndo
  split
  · exact h
  · rename_i checkpoint mgr _
    have hkept := kept_cancel h.core (w.thread.restoreFromMessages checkpoint.messages) nofun []
    exact h.of_kept (hkept.withUndo mgr) rfl

theorem inv_step {w : World} : ∀ l : Label, Inv w → NotOvertaken w l → Inv (step env w l)
  | .userInput _ _ _, h, _ => h.arrive nofun
  | .approval _ _ _, h, _ => h.arrive fun _ _ heq => by cases heq; rfl
  | .interrupt, h, _ => inv_interrupt h
  | .clear, h, _ => by
    have hkept := kept_cancel h.core w.thread.clear nofun w.thread.pendingMessages
    exact h.of_kept (hkept.withUndo w.undo.clear) rfl
  | .undo checkpointId, h, _ => inv_undo env h checkpointId
  | .advance i answer, h, hover => by
    simp only [step]
    cases hcall : w.calls[i]? with
    | none => exact h
    | some call =>
      have hmem := List.mem_of_getElem? hcall
      cases call with
      | input pc => exact h.advance (kept_input env h.core answer pc) nofun
      | approval since pc =>
        have hheld := fun p => h.held since pc p hmem
        refine h.advance (kept_approval env h.core answer pc hheld (hover since pc hcall)) ?_
        intro since' pc' p heq hp
        cases heq
        exact held_approval env h.core answer pc hheld p hp

theorem notOvertaken_of_safe {w : World} : ∀ l : Label, Inv w → Safe (step env w l).log → NotOvertaken w l
  | .userInput _ _ _, _, _ => trivial
  | .approval _ _ _, _, _ => trivial
  | .interrupt, _, _ => trivial
  | .clear, _, _ => trivial
  | .undo _, _, _ => trivial
  | .advance i answer, h, hsafe => by
    intro since pc hcall
    simp only [step, hcall] at hsafe
    exact rechecked_of_safe env answer pc (fun p => h.held since pc p (List.mem_of_getElem? hcall)) hsafe

/-- **Approvals and cancellations.** In every state of a run the log is safe exactly when no step of `process_approval`
is overtaken by a cancellation. -/
theorem approval_iff (ls : List Label) :
    (∀ pre, pre <+: ls → Safe (run (step env) initial pre).log) ↔ Along (step env) NotOvertaken initial ls :=
  states_iff (S := fun w => Safe w.log) (fun _ l => inv_step env l) (fun _ h => h.core.safe)
    (fun _ l => notOvertaken_of_safe env l) ls inv_initial

end Runs

/-! ## A request that is taken before the interrupt -/

def install : Agent.PendingApproval :=
  ⟨"tool_install".toList, .obj [], .obj [], "Installs an extension.".toList, "call_1".toList, [], [], none, true⟩

def wish : Str := "Install the calendar.".toList

/-- A turn asks for approval, an approval takes the request, and then the thread is interrupted. -/
def taken (requestId : Nat) : List Label :=
  .userInput wish false none :: turnOf 0 (.ok (.needApproval install)) ++
    [.approval (some requestId) true false, .advance 1 calm, .interrupt]

/-- The tool runs after the interrupt, and a wrong request id makes the thread wait again. -/
theorem interrupted_request_goes_on :
    (run (step desk) initial (taken 0)).thread.state = .interrupted ∧
    (run (step desk) initial (taken 0 ++ [.advance 1 calm, .advance 1 calm])).log =
      [.executed 0, .settled .interrupted, .cancelled, .discarded [], .awaited 0, .started [] wish] ∧
    ¬Safe (run (step desk) initial (taken 0 ++ [.advance 1 calm, .advance 1 calm])).log ∧
    (run (step desk) initial (taken 7 ++ [.advance 1 calm])).thread.state = .awaitingApproval ∧
    ¬Safe (run (step desk) initial (taken 7 ++ [.advance 1 calm])).log := by
  have hrun : (run (step desk) initial (taken 0 ++ [.advance 1 calm, .advance 1 calm])).log =
      [.executed 0, .settled .interrupted, .cancelled, .discarded [], .awaited 0, .started [] wish] := rfl
  have hback : (run (step desk) initial (taken 7 ++ [.advance 1 calm])).log =
      [.awaited 0, .cancelled, .discarded [], .awaited 0, .started [] wish] := rfl
  refine ⟨rfl, hrun, ?_, rfl, ?_⟩
  · rw [hrun]
    rintro ⟨hfine, -⟩
    exact hfine ⟨[.discarded [], .awaited 0, .started [] wish], ⟨[.settled .interrupted], rfl⟩, by simp⟩
  · rw [hback]
    rintro ⟨hfine, -⟩
    exact hfine ⟨[.discarded [], .awaited 0, .started [] wish], ⟨[], rfl⟩, by simp⟩

end Ironclaw.Session

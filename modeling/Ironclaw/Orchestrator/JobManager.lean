import Ironclaw.Lib.Run
import Ironclaw.Lib.Text

/-!
# The container job manager

One job: `create_job`, and any number of calls of `complete_job`, `stop_job` and `cleanup_job` on its id. A call is a
program counter; a step of it is one lock window on the handles or on the tokens, or one request to Docker. The answers
of Docker are part of the labels. The id of a job is made for its one `create_job` call.
-/

namespace Ironclaw.Orchestrator

open Text

inductive JobMode
  | worker
  | claudeCode
  deriving DecidableEq

inductive ContainerState
  | creating
  | running
  | stopped
  | failed
  deriving DecidableEq

structure CompletionResult where
  success : Bool
  message : Option Str
  deriving DecidableEq

/-- `ContainerHandle`; the container id is empty until the container was created. -/
structure ContainerHandle where
  containerId : Str
  state : ContainerState
  mode : JobMode
  createdAt : Int
  projectDir : Option Str
  taskDescription : Str
  lastWorkerStatus : Option Str
  workerIteration : Nat
  completionResult : Option CompletionResult
  deriving DecidableEq

structure CredentialGrant where
  secretName : Str
  envVar : Str
  deriving DecidableEq

inductive OrchestratorError
  | containerCreationFailed (reason : Str)
  | containerNotFound
  | invalidContainerState (state : Str)
  | docker (reason : Str)
  deriving DecidableEq

/-- The id of a container; Docker gives no empty ones. -/
def DockerId := { s : Str // s ≠ [] }

instance : DecidableEq DockerId := inferInstanceAs (DecidableEq { s : Str // s ≠ [] })

/-- A container that Docker has for the job. -/
structure Container where
  id : Str
  started : Bool
  deriving DecidableEq

/-- The arguments of `create_job`, with the time of the call. -/
structure JobSpec where
  task : Str
  projectDir : Option Str
  mode : JobMode
  credentialGrants : List CredentialGrant
  createdAt : Int

/-- What `create_job` does next. -/
inductive CreatePc
  | createToken
  | storeGrants (token : Str)
  | insertHandle (token : Str)
  | createContainer (token : Str)
  | startContainer (token : Str) (id : DockerId)
  | record (token : Str) (id : DockerId)
  | revokeToken (e : OrchestratorError)
  | revokeGrants (e : OrchestratorError)
  | removeHandle (e : OrchestratorError)
  | returned (result : Except OrchestratorError Str)

/-- What `complete_job` does next. -/
inductive CompletePc
  | store (result : CompletionResult)
  | read
  | stop (id : Str)
  | remove (id : Str)
  | revokeToken
  | revokeGrants
  | returned

/-- What `stop_job` does next. -/
inductive StopPc
  | read
  | stop (id : Str)
  | remove (id : Str)
  | update
  | revokeToken
  | revokeGrants
  | returned (result : Except OrchestratorError Unit)

inductive Call
  | complete (pc : CompletePc)
  | stop (pc : StopPc)

/-- The manager's state for the job, what Docker has, and the calls. Two entries are for the statements only: the ids
that Docker was asked to stop, and whether a `complete_job` or a successful `stop_job` has returned. -/
structure World where
  token : Option Str
  grants : Option (List CredentialGrant)
  handle : Option ContainerHandle
  docker : List Container
  create : CreatePc
  calls : List Call
  asked : List Str
  ended : Bool

/-- What Docker answers: the connection, and the request itself. -/
structure DockerAnswer where
  connect : Option OrchestratorError
  succeeds : Bool

inductive Label
  /-- The next step of `create_job`: the token it generates, and what comes of its request to Docker. -/
  | create (token : Str) (container : Except OrchestratorError DockerId) (start : Option Str)
  | completeJob (result : CompletionResult)
  | stopJob
  | cleanupJob
  /-- The next step of a call. -/
  | advance (i : Nat) (answer : DockerAnswer)

/-! ## `create_job` -/

def newHandle (spec : JobSpec) : ContainerHandle where
  containerId := []
  state := .creating
  mode := spec.mode
  createdAt := spec.createdAt
  projectDir := spec.projectDir
  taskDescription := spec.task
  lastWorkerStatus := none
  workerIteration := 0
  completionResult := none

def startFailed (reason : Str) : OrchestratorError :=
  .containerCreationFailed ("failed to start container: ".toList ++ reason)

/-- A step of `create_job`; its failure path revokes the token and removes the handle. -/
def createStep (spec : JobSpec) (w : World) (token : Str) (container : Except OrchestratorError DockerId)
    (start : Option Str) : World :=
  match w.create with
  | .createToken => { w with token := some token, create := .storeGrants token }
  | .storeGrants t =>
    { w with
      grants := if spec.credentialGrants.isEmpty then w.grants else some spec.credentialGrants
      create := .insertHandle t }
  | .insertHandle t => { w with handle := some (newHandle spec), create := .createContainer t }
  | .createContainer t =>
    match container with
    | .error e => { w with create := .revokeToken e }
    | .ok id => { w with docker := ⟨id.1, false⟩ :: w.docker, create := .startContainer t id }
  | .startContainer t id =>
    match start with
    | some reason => { w with create := .revokeToken (startFailed reason) }
    | none =>
      { w with
        docker := w.docker.map fun c => if c.id = id.1 then { c with started := true } else c
        create := .record t id }
  | .record t id =>
    { w with
      handle := w.handle.map fun h => { h with containerId := id.1, state := .running }
      create := .returned (.ok t) }
  | .revokeToken e => { w with token := none, create := .revokeGrants e }
  | .revokeGrants e => { w with grants := none, create := .removeHandle e }
  | .removeHandle e => { w with handle := none, create := .returned (.error e) }
  | .returned _ => w

/-! ## Requests to Docker -/

/-- Docker is asked to stop a container. -/
def askStop (w : World) (id : Str) (succeeds : Bool) : World :=
  { w with
    docker := if succeeds then w.docker.map fun c => if c.id = id then { c with started := false } else c else w.docker
    asked := id :: w.asked }

/-- Docker is asked to remove a container, running or not. -/
def askRemove (w : World) (id : Str) (succeeds : Bool) : World :=
  { w with docker := if succeeds then w.docker.filter fun c => c.id ≠ id else w.docker }

/-! ## `complete_job` and `stop_job` -/

/-- A step of `complete_job`, and what it does next. -/
def completeStep (w : World) (answer : DockerAnswer) : CompletePc → World × CompletePc
  | .store result =>
    ({ w with handle := w.handle.map fun h => { h with completionResult := some result, state := .stopped } }, .read)
  | .read =>
    match w.handle.map ContainerHandle.containerId with
    | none => (w, .revokeToken)
    | some id => if id.isEmpty then (w, .revokeToken) else (w, .stop id)
  | .stop id =>
    match answer.connect with
    | some _ => (w, .revokeToken)
    | none => (askStop w id answer.succeeds, .remove id)
  | .remove id => (askRemove w id answer.succeeds, .revokeToken)
  | .revokeToken => ({ w with token := none }, .revokeGrants)
  | .revokeGrants => ({ w with grants := none, ended := true }, .returned)
  | .returned => (w, .returned)

/-- A step of `stop_job`, and what it does next. -/
def stopStep (w : World) (answer : DockerAnswer) : StopPc → World × StopPc
  | .read =>
    match w.handle.map ContainerHandle.containerId with
    | none => (w, .returned (.error .containerNotFound))
    | some id =>
      if id.isEmpty then (w, .returned (.error (.invalidContainerState "creating (no container ID yet)".toList)))
      else (w, .stop id)
  | .stop id =>
    match answer.connect with
    | some e => (w, .returned (.error e))
    | none => (askStop w id answer.succeeds, .remove id)
  | .remove id => (askRemove w id answer.succeeds, .update)
  | .update => ({ w with handle := w.handle.map fun h => { h with state := .stopped } }, .revokeToken)
  | .revokeToken => ({ w with token := none }, .revokeGrants)
  | .revokeGrants => ({ w with grants := none, ended := true }, .returned (.ok ()))
  | .returned result => (w, .returned result)

def callStep (w : World) (answer : DockerAnswer) : Call → World × Call
  | .complete pc => (completeStep w answer pc).map id .complete
  | .stop pc => (stopStep w answer pc).map id .stop

def step (spec : JobSpec) (w : World) : Label → World
  | .create token container start => createStep spec w token container start
  | .completeJob result => { w with calls := w.calls ++ [.complete (.store result)] }
  | .stopJob => { w with calls := w.calls ++ [.stop .read] }
  | .cleanupJob => { w with handle := none }
  | .advance i answer =>
    match w.calls[i]? with
    | none => w
    | some call =>
      let r := callStep w answer call
      { r.1 with calls := w.calls.set i r.2 }

/-- Before the first call. -/
def initial : World := ⟨none, none, none, [], .createToken, [], [], false⟩

end Ironclaw.Orchestrator

import CameraLogs.Lib.Run
import CameraLogs.Tasks.Claim
import CameraLogs.Tasks.Deployment
import CameraLogs.Tasks.Health

/-!
# All that can happen to a task

An `Act` is one transaction, or one write outside a transaction, of any component: users,
the scheduler, any worker under any owner, the health checks, deployments and deletions.
The acts come in any order. What one component does in several writes is several acts, so
that everything else may come between them and it may stop after any of them.
-/

namespace CameraLogs.Tasks

open Lib

inductive Act
  -- users and administrators
  | control (request : Request) (identifier : OperationId) (resources : Resources)
  | edit (version : Nat) (behavioral clear : Bool) (document : TaskDocument)
      (identifier : OperationId) (identifiers : List ResourceId) (resources : Resources)
      (sameIdentity : ResourceId → Bool)
  | delete (version : Nat)
  | deleteResource (identifier : ResourceId)
  | restartBlocked (identifier : OperationId) (reachable : Bool) (resources : Resources)
  | isolateTask (identifier : OperationId) (resources : Resources)
  | isolateNode (nodeId : NodeId)
  -- the scheduler
  | claim (status : Status) (runId : Option RunId) (newRun : RunId) (nodeId : NodeId)
      (admitted : Bool) (resources : Resources)
  | blockStale (nodeId : NodeId)
  | reconcileStopped
  | queue (status : Status) (runId : Option RunId) (generation : Nat)
  | consumeFailover (resources : Resources)
  | consumeRecovery (identifier : ResourceId) (resource : Resource)
  | sweepIntent (resourceDeleted : Bool)
  | sweepPaused
  | sweepStopped
  -- the workers
  | write (write : OwnerWrite) (owner : Owner)
  | dropReleasedLock (runId : RunId)
  | endReleasedRun (runId : RunId)
  | markPlannedRestart (nodeId : NodeId) (token : Nat)
  | recoverPlanned (owner : Owner) (token : Nat)
  | finalizeClosed (owner : Owner) (resources : Resources)
  | stopUnresponsive (owner : Owner) (claimVersion : Nat) (identifier : ResourceId)
      (resource : Resource) (operationId : OperationId)
  | settle (picks : DesiredState → Bool) (status : OperationStatus)
  -- deployments
  | preparePending (nodeId : NodeId)
  | complete (marker : DeploymentMarker)
  -- device health
  | healthFailure (identifier : ResourceId) (resource : Resource) (operationId : OperationId)
  | healthSuccess (identifier : ResourceId)
      (identityChanged authorizeUserRecovery timely : Bool)
  | userAuthentication (identifier : ResourceId) (identityChanged : Bool)

/-- The id of a new run has never been used. -/
def Records.Fresh (records : Records) (runId : RunId) : Prop :=
  records.runs runId = none ∧ runId ∉ records.released ∧
    ∀ owner ∈ records.claims, owner.runId ≠ runId

instance (records : Records) (runId : RunId) : Decidable (records.Fresh runId) :=
  inferInstanceAs (Decidable (_ ∧ _))

/-- A device is read as it is: one that has been deleted as deleted. -/
def Records.Reads (records : Records) (identifier : ResourceId) (resource : Resource) : Prop :=
  identifier ∈ records.gone → resource.deleted = true

instance (records : Records) (identifier : ResourceId) (resource : Resource) :
    Decidable (records.Reads identifier resource) :=
  inferInstanceAs (Decidable (_ → _))

/-- What the scheduler's query offers for a claim. -/
def offered (status : Status) : Prop :=
  status = .stopped ∨ status = .pending ∨ status = .paused

instance (status : Status) : Decidable (offered status) :=
  inferInstanceAs (Decidable (_ ∨ _))

/-- The documents after an act, if it comes off. -/
def Act.apply (act : Act) (records : Records) : Option Records :=
  match act with
  | .control request identifier resources =>
    (requestControl records request.desired request.requirePaused identifier
      resources).toOption.map Prod.fst
  | .edit version behavioral clear document identifier identifiers resources sameIdentity =>
    (editTask records version behavioral clear document identifier identifiers resources
      sameIdentity).toOption
  | .delete version => (deleteTask records version).toOption
  | .deleteResource identifier => some (markResourceDeletion records identifier)
  | .restartBlocked identifier reachable resources =>
    (requestBlockedRestart records identifier reachable resources).toOption
  | .isolateTask identifier resources =>
    (confirmTaskIsolation records identifier resources).toOption
  | .isolateNode nodeId => confirmNodeIsolation records nodeId
  | .claim status runId newRun nodeId admitted resources =>
    if offered status ∧ records.Fresh newRun then
      claimTask records status runId newRun nodeId admitted resources
    else none
  | .blockStale nodeId => Tasks.blockStale records nodeId
  | .reconcileStopped => reconcileStoppedTasks records
  | .queue status runId generation => queueTask records status runId generation
  | .consumeFailover resources => consumeConfirmedFailover records resources
  | .consumeRecovery identifier resource =>
    if records.Reads identifier resource then
      consumeAuthorizedRecovery records identifier resource
    else none
  | .sweepIntent resourceDeleted => Tasks.sweepIntent records resourceDeleted
  | .sweepPaused => Tasks.sweepPaused records
  | .sweepStopped => Tasks.sweepStopped records
  | .write update owner => update.apply owner records
  | .dropReleasedLock runId => Tasks.dropReleasedLock records runId
  | .endReleasedRun runId => Tasks.endReleasedRun records runId
  | .markPlannedRestart nodeId token => Tasks.markPlannedRestart records nodeId token
  | .recoverPlanned owner token => recoverPlannedRestartTask records owner token
  | .finalizeClosed owner resources => finalizeClosedTask records owner resources
  | .stopUnresponsive owner claimVersion identifier resource operationId =>
    if records.Reads identifier resource then
      stopForResourceHealth records (some owner) claimVersion identifier resource operationId
    else none
  | .settle picks status => some (records.settle picks status)
  | .preparePending nodeId => Tasks.preparePending records nodeId
  | .complete marker => completeRun records marker
  | .healthFailure identifier resource operationId =>
    if records.Reads identifier resource then
      applyFailure records identifier resource operationId
    else none
  -- the result is stored on the device first, which fails where it has been deleted
  | .healthSuccess identifier identityChanged authorizeUserRecovery timely =>
    if identifier ∉ records.gone then
      some (applySuccess records identifier identityChanged authorizeUserRecovery timely)
    else none
  | .userAuthentication identifier identityChanged =>
    if identifier ∉ records.gone then
      some (grantAfterUserAuthentication records identifier identityChanged)
    else none

/-- A task as it is created, to be started at once or not. -/
structure Initial (records : Records) : Prop where
  nodeId : records.task.nodeId = none
  runId : records.task.runId = none
  status : records.task.status = .stopped
  generation : records.task.generation = 0
  desiredState : records.task.desiredState = .running ∨ records.task.desiredState = .stopped
  restartRequested : records.task.restartRequested = false
  resourceHealthRecovery : records.task.resourceHealthRecovery = none
  deploymentRecovery : records.task.deploymentRecovery = none
  deleted : records.task.deleted = false
  lock : records.lock = none
  runs : records.runs = fun _ => none
  released : records.released = []
  claims : records.claims = []

/-- Something happens to the task. -/
def Step (records records' : Records) : Prop := ∃ act : Act, act.apply records = some records'

/-- The acts of a sequence, one after another. -/
def runActs (acts : List Act) (records : Records) : Option Records :=
  acts.foldlM (fun records act => act.apply records) records

theorem runActs_reaches {acts : List Act} {records records' : Records}
    (h : runActs acts records = some records') :
    Relation.ReflTransGen Step records records' := by
  induction acts generalizing records with
  | nil =>
    cases h
    exact .refl
  | cons act acts ih =>
    simp only [runActs, List.foldlM_cons, Option.bind_eq_bind, Option.bind_eq_some_iff] at h
    obtain ⟨next, hact, hrest⟩ := h
    exact .head ⟨act, hact⟩ (ih hrest)

end CameraLogs.Tasks

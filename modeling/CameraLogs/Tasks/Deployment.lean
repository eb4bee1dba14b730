import CameraLogs.Tasks.Worker

/-!
# Controlled deployments

Before a worker's container is replaced, `prepare` freezes the owner of each of its runs in
a marker, on the task and on the run; once the container has really stopped, `complete`
proves each of these runs closed and releases the tasks that are still to run.

`prepare` is one of the `OwnerWrite`s, its filter being the owner.
-/

namespace CameraLogs.Tasks

/-- A task that waits on the node without a run goes back. -/
def preparePending (records : Records) (nodeId : NodeId) : Option Records :=
  updateOne (records.task.nodeId = some nodeId ∧ records.task.status = .pending ∧
      records.task.runId = none)
    (records.withTask { records.task with nodeId := none, status := .stopped })

/-- The owner, with its session, that the task has to have for the marker to be about it. -/
def sessionOwnerFilter (marker : DeploymentMarker) (task : Task) : Prop :=
  ownerFilter ⟨marker.runId, marker.nodeId, marker.generation⟩ task ∧
    task.sessionId = some marker.sessionId

instance (marker : DeploymentMarker) (task : Task) :
    Decidable (sessionOwnerFilter marker task) :=
  inferInstanceAs (Decidable (_ ∧ _))

/-- The token of the marker a deployment has left. -/
def markerToken (marker : Option DeploymentMarker) : Option Nat :=
  marker.map DeploymentMarker.token

/-- The task still has the owner of the marker. -/
def attached (marker : DeploymentMarker) (task : Task) : Prop :=
  sessionOwnerFilter marker task ∧ markerToken task.deploymentRecovery = some marker.token

instance (marker : DeploymentMarker) (task : Task) : Decidable (attached marker task) :=
  inferInstanceAs (Decidable (_ ∧ _))

/-- The run is the one of the marker. -/
def runMatches (marker : DeploymentMarker) (run : Run) : Prop :=
  run.nodeId = marker.nodeId ∧ run.generation = marker.generation ∧
    markerToken run.deploymentRecovery = some marker.token

instance (marker : DeploymentMarker) (run : Run) : Decidable (runMatches marker run) :=
  inferInstanceAs (Decidable (_ ∧ _))

/-- A pause of the same run keeps its budget, and the run stays open. -/
def preservesPausedRun (marker : DeploymentMarker) (task : Task) : Prop :=
  task.runId = some marker.runId ∧ task.desiredState = .paused

instance (marker : DeploymentMarker) (task : Task) : Decidable (preservesPausedRun marker task) :=
  inferInstanceAs (Decidable (_ ∧ _))

/-- Nobody has asked anything else of the task since it was marked. -/
def controlMatches (marker : DeploymentMarker) (task : Task) : Prop :=
  task.desiredState = .running ∧ task.controlClaimVersion = marker.controlClaimVersion ∧
    task.controlOperationId = marker.controlOperationId ∧ task.resourceDeleted = false

instance (marker : DeploymentMarker) (task : Task) : Decidable (controlMatches marker task) :=
  inferInstanceAs (Decidable (_ ∧ _))

/-- The run as its proof of closure leaves it. -/
def Run.proved (run : Run) (marker : DeploymentMarker) (preserved : Bool) : Run :=
  { run with
    sessionId := some marker.sessionId
    ended := run.ended || !preserved
    deploymentRecovery := none }

/-- The task as the deployment leaves it. -/
def Task.deployed (task : Task) (marker : DeploymentMarker) : Task :=
  if controlMatches marker task then
    { task with
      nodeId := none
      status := .stopped
      restartRequested := false
      plannedRestart := none
      closedReceipt := none
      deploymentRecovery := none }
  else
    { task with
      nodeId := none
      status := if task.desiredState = .paused then .paused else .stopped
      deploymentRecovery := none }

/-- The run of a marker with its proof of closure. -/
def Records.proveRun (records : Records) (marker : DeploymentMarker) (run : Run) : Records :=
  { records with
    runs := Function.update records.runs marker.runId
      (some (run.proved marker (decide (preservesPausedRun marker records.task)))) }

/-- Complete one run, given the marker that was read from it. -/
def completeRun (records : Records) (marker : DeploymentMarker) : Option Records :=
  match records.runs marker.runId with
  | none => none
  | some run =>
    if ¬runMatches marker run then none
    else if attached marker records.task ∧ records.foreignLock (some marker.runId) then none
    else if ¬(run.sessionId = none ∨ run.sessionId = some marker.sessionId) then none
    -- the owner has changed: neither the task nor its lock is touched
    else if ¬attached marker records.task then some (records.proveRun marker run)
    else some (((records.proveRun marker run).deleteLock marker.runId).withTask
      (records.task.deployed marker))

theorem completeRun_eq_some {records records' : Records} {marker : DeploymentMarker}
    (h : completeRun records marker = some records') :
    ∃ run, records.runs marker.runId = some run ∧ runMatches marker run ∧
      ((¬attached marker records.task ∧ records' = records.proveRun marker run) ∨
        (attached marker records.task ∧
          records' = ((records.proveRun marker run).deleteLock marker.runId).withTask
            (records.task.deployed marker))) := by
  unfold completeRun at h
  split at h
  · cases h
  rename_i run hrun
  split at h
  · cases h
  rename_i hmatches
  refine ⟨run, hrun, not_not.1 hmatches, ?_⟩
  split at h
  · cases h
  split at h
  · cases h
  split at h
  · rename_i hattached
    cases h
    exact .inl ⟨hattached, rfl⟩
  · rename_i hattached
    cases h
    exact .inr ⟨not_not.1 hattached, rfl⟩

end CameraLogs.Tasks

import CameraLogs.Tasks.Recovery

/-!
# The writes of a worker

A worker writes to a task under the owner it was given when the task was claimed, and a
late write of an old owner finds nothing. `OwnerWrite` are these writes, each the one
update the source makes; `release`, `pause` and `stopPending` are several of them, one
after another, with a crash possible between any two.

What a release does to the lock and the run it does by the run's id alone.
-/

namespace CameraLogs.Tasks

/-- What a collector reports, as the status of its task. -/
inductive RuntimeState
  | connecting
  | collecting
  | reconnecting
  | stopping
  deriving DecidableEq

def RuntimeState.status : RuntimeState → Status
  | .connecting => .connecting
  | .collecting => .collecting
  | .reconnecting => .reconnecting
  | .stopping => .stopping

/-- The updates whose filter holds an owner. -/
inductive OwnerWrite
  /-- `apply_runtime_state` -/
  | runtimeState (state : RuntimeState) (sessionId : Option SessionId)
  /-- `tick`: a pause is about to begin -/
  | pausing
  /-- `tick`: the task has no runtime any more; `finish_runtime`: closing it has failed -/
  | block
  /-- `pause` -/
  | pause
  /-- `pause_pending` -/
  | pausePending
  /-- `stop_pending`, its first update -/
  | stopPending
  /-- `stop_pending`, its last update -/
  | restartPending
  /-- `record_closed_receipt` -/
  | closedReceipt (sessionId : SessionId) (fenced : Bool)
  /-- `close_for_failover` and `record_self_fenced_receipt`, after the receipt -/
  | fence
  /-- `release`, before the lock is given up -/
  | closing (failed : Bool)
  /-- `release`, after the run is ended -/
  | detach (failed : Bool)
  /-- `release`, its last update -/
  | restart (failed : Bool)
  /-- `prepare_deployment_recovery`, for a task -/
  | prepare (marker : DeploymentMarker)
  deriving DecidableEq

/-- What a run has failed with it stops for good. -/
def Task.withFailure (task : Task) (failed : Bool) : Task :=
  if failed = true then { task with desiredState := .stopped, restartRequested := false } else task

/-- Whether a receipt may replace the one there is: the plain receipt of a run does not
replace the one of the same run that says it was fenced. -/
def replacesReceipt (task : Task) (receipt : ClosedReceipt) : Prop :=
  receipt.fenced = true ∨ task.closedReceipt ≠ some { receipt with fenced := true }

instance (task : Task) (receipt : ClosedReceipt) : Decidable (replacesReceipt task receipt) :=
  inferInstanceAs (Decidable (_ ∨ _))

/-- The run is given up from here on. -/
def Records.release (records : Records) (runId : RunId) : Records :=
  { records with released := runId :: records.released }

def OwnerWrite.apply (write : OwnerWrite) (owner : Owner) (records : Records) : Option Records :=
  let task := records.task
  match write with
  | .runtimeState state sessionId =>
    updateOne (ownerFilter owner task ∧ task.status ≠ .blocked)
      (records.withTask { task with status := state.status, sessionId := sessionId })
  | .pausing =>
    updateOne (ownerFilter owner task) (records.withTask { task with status := .pausing })
  | .block =>
    updateOne (ownerFilter owner task) (records.withTask { task with status := .blocked })
  | .pause =>
    updateOne (ownerFilter owner task ∧ task.desiredState = .paused)
      (records.withTask { task with status := .paused, nodeId := none })
  | .pausePending =>
    updateOne (ownerFilter owner task ∧ task.desiredState = .paused ∧ task.status = .pending)
      (records.withTask { task with status := .paused, nodeId := none })
  | .stopPending =>
    updateOne (ownerFilter owner task ∧ task.status = .pending ∧ task.desiredState = .stopped)
      ((records.release owner.runId).withTask { task with status := .stopped, nodeId := none })
  | .restartPending =>
    updateOne (formerOwnerFilter owner task ∧ task.status = .stopped ∧
        task.restartRequested = true)
      (records.withTask { task with desiredState := .running, restartRequested := false })
  | .closedReceipt sessionId fenced =>
    let receipt : ClosedReceipt :=
      ⟨owner.runId, owner.generation, owner.nodeId, sessionId, fenced⟩
    updateOne (ownerFilter owner task ∧ replacesReceipt task receipt)
      (records.withTask { task with closedReceipt := some receipt })
  | .fence =>
    updateOne (ownerFilter owner task ∧ task.desiredState = .running)
      (records.withTask { task with status := .blocked })
  | .closing failed =>
    updateOne (ownerFilter owner task)
      ((records.release owner.runId).withTask { task.withFailure failed with status := .stopping })
  | .detach failed =>
    updateOne (ownerFilter owner task)
      (records.withTask { task.withFailure failed with
        nodeId := none
        status := if failed = true then .error else .stopped
        plannedRestart := none })
  | .restart failed =>
    updateOne (formerOwnerFilter owner task ∧
        task.status = (if failed = true then .error else .stopped) ∧ task.restartRequested = true)
      (records.withTask { task with desiredState := .running, restartRequested := false })
  | .prepare marker =>
    -- the run is marked in the same transaction, so it has to be the owner's too
    match records.runs owner.runId with
    | none => none
    | some run =>
      updateOne (ownerFilter owner task ∧ task.sessionId = some marker.sessionId ∧
          marker.runId = owner.runId ∧ marker.nodeId = owner.nodeId ∧
          marker.generation = owner.generation ∧
          run.nodeId = owner.nodeId ∧ run.generation = owner.generation ∧
          (run.sessionId = none ∨ run.sessionId = some marker.sessionId))
        ({ records with
          runs := Function.update records.runs owner.runId
            (some { run with deploymentRecovery := some marker }) }.withTask
          { task with deploymentRecovery := some marker })

/-- A write under an owner reaches the task only while the owner has it, or has just let it
go. -/
theorem OwnerWrite.apply_filter {write : OwnerWrite} {owner : Owner} {records records' : Records}
    (h : write.apply owner records = some records') :
    ownerFilter owner records.task ∨ formerOwnerFilter owner records.task := by
  cases write
  case restartPending =>
    exact .inr (updateOne_eq_some.1 h).1.1
  case restart =>
    exact .inr (updateOne_eq_some.1 h).1.1
  case prepare marker =>
    refine .inl ?_
    simp only [OwnerWrite.apply] at h
    split at h
    · cases h
    · exact (updateOne_eq_some.1 h).1.1
  case pausing =>
    exact .inl (updateOne_eq_some.1 h).1
  case block =>
    exact .inl (updateOne_eq_some.1 h).1
  case closing =>
    exact .inl (updateOne_eq_some.1 h).1
  case detach =>
    exact .inl (updateOne_eq_some.1 h).1
  all_goals exact .inl (updateOne_eq_some.1 h).1.1

/-! ## Writes that know no owner -/

/-- A run being given up loses its lock. -/
def dropReleasedLock (records : Records) (runId : RunId) : Option Records :=
  updateOne (runId ∈ records.released) (records.deleteLock runId)

/-- A run being given up is ended. -/
def endReleasedRun (records : Records) (runId : RunId) : Option Records :=
  updateOne (runId ∈ records.released) (records.endRun runId)

/-- A node on its way down marks what it has, so that its successor may take it back. -/
def markPlannedRestart (records : Records) (nodeId : NodeId) (token : Nat) : Option Records :=
  updateOne (records.task.nodeId = some nodeId ∧ records.task.desiredState = .running ∧
      (records.task.status = .pending ∨ records.task.status = .connecting ∨
        records.task.status = .collecting ∨ records.task.status = .reconnecting))
    (records.withTask { records.task with plannedRestart := some token })

end CameraLogs.Tasks

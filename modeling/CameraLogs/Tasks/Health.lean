import CameraLogs.Tasks.Editing

/-!
# Devices and the tasks that need them

A failed authentication stops the tasks of a device and leaves a marker on them; a
successful one authorises the marker, and the scheduler then gives the task its intent
back. A device that turns out to be another one ends the paused runs of its tasks.

Each transaction goes through the tasks of the device one by one; these are its effects
on one task.
-/

namespace CameraLogs.Tasks

/-- A run that a worker has in hand is judged by what the worker receives. -/
def hasLiveRuntimeOwnership (task : Task) : Prop :=
  task.nodeId ≠ none ∧ task.desiredState = .running ∧
    (task.status = .pending ∨ task.status = .connecting ∨ task.status = .collecting ∨
      task.status = .reconnecting ∨ task.status = .pausing)

instance (task : Task) : Decidable (hasLiveRuntimeOwnership task) :=
  inferInstanceAs (Decidable (_ ∧ _))

/-- Stop a task for its device's sake: with an owner the worker's own run, without one a
task that nobody has. `claimVersion` is that of the snapshot the decision was made on. -/
def stopForResourceHealth (records : Records) (owner : Option Owner) (claimVersion : Nat)
    (identifier : ResourceId) (resource : Resource) (operationId : OperationId) :
    Option Records :=
  let task := records.task
  let owned : Bool := match owner with
    | some owner => decide (ownerFilter owner task)
    | none => decide (task.nodeId = none)
  if resource.deleted = false ∧
      (resource.healthStatus = .authFailed ∨ resource.healthStatus = .offline ∨
        resource.healthStatus = .error) ∧
      task.protocol ≠ .telnetSerial ∧ task.desiredState = .running ∧
      task.controlClaimVersion = claimVersion ∧ owned = true then
    let marker : HealthMarker := ⟨identifier,
      if resource.authRejected = true then .authFailed else resource.healthStatus, .running, false⟩
    let cancelled := records.settle (fun desired => decide (desired ≠ .stopped)) .cancelled
    some ((cancelled.insertOperation
      ⟨operationId, .stopped, .systemResourceHealthStop, .pending⟩).withTask { task with
        desiredState := .stopped
        restartRequested := false
        resourceHealthRecovery := some marker
        controlOperationId := some operationId })
  else none

/-- Only a task that is to run is stopped, and it is marked. -/
theorem stopForResourceHealth_eq_some {records records' : Records} {owner : Option Owner}
    {claimVersion : Nat} {identifier : ResourceId} {resource : Resource}
    {operationId : OperationId}
    (h : stopForResourceHealth records owner claimVersion identifier resource operationId =
      some records') :
    records.task.desiredState = .running ∧
      ∃ marker operations, records' = { records.withTask { records.task with
        desiredState := .stopped
        restartRequested := false
        resourceHealthRecovery := some marker
        controlOperationId := some operationId } with operations } := by
  unfold stopForResourceHealth at h
  extract_lets task owned at h
  split at h
  · rename_i hstop
    cases h
    exact ⟨hstop.2.2.2.1, _, _, rfl⟩
  · cases h

/-- A worker stops a task of its own only. -/
theorem stopForResourceHealth_owner {records records' : Records} {owner : Owner}
    {claimVersion : Nat} {identifier : ResourceId} {resource : Resource}
    {operationId : OperationId}
    (h : stopForResourceHealth records (some owner) claimVersion identifier resource operationId =
      some records') : ownerFilter owner records.task := by
  unfold stopForResourceHealth at h
  extract_lets task owned at h
  split at h
  · rename_i hstop
    simpa [owned] using hstop.2.2.2.2.2
  · cases h

/-- A marker takes over a worse reason and loses its authorisation. -/
def HealthMarker.observe (marker : HealthMarker) (status : HealthStatus) : HealthMarker :=
  { marker with
    reason := if marker.reason = .authFailed ∨ marker.reason = .error then marker.reason else status
    authorized := false }

/-- What a failed authentication with this outcome does to one task of the device;
`resource` is the device as the transaction has just written it. -/
def applyFailure (records : Records) (identifier : ResourceId) (resource : Resource)
    (operationId : OperationId) : Option Records :=
  let task := records.task
  if ¬(task.linked identifier ∧ task.deleted = false ∧ task.protocol ≠ .telnetSerial) then none
  else if task.desiredState = .paused ∨ task.status = .paused ∨ task.status = .waitingDevice then
    none
  else if task.desiredState = .stopped then
    match task.resourceHealthRecovery with
    | none => none
    | some marker =>
      if marker.resourceId = identifier ∧
          (marker.reason ≠ resource.healthStatus ∨ marker.authorized = true) then
        some (records.withTask { task with
          resourceHealthRecovery := some (marker.observe resource.healthStatus) })
      else none
  else if resourceHealthBlocksTask task resource ∧ ¬hasLiveRuntimeOwnership task then
    stopForResourceHealth records none task.controlClaimVersion identifier resource operationId
  else none

/-- A failure rewrites a marker there is, or stops a task that is to run and that nobody has in
hand; it does not reach a task that waits for its device. -/
theorem applyFailure_eq_some {records records' : Records} {identifier : ResourceId}
    {resource : Resource} {operationId : OperationId}
    (h : applyFailure records identifier resource operationId = some records') :
    (∃ marker, records.task.resourceHealthRecovery = some marker ∧
        records' = records.withTask { records.task with
          resourceHealthRecovery := some (marker.observe resource.healthStatus) }) ∨
      stopForResourceHealth records none records.task.controlClaimVersion identifier resource
        operationId = some records' := by
  simp only [applyFailure] at h
  split at h
  · cases h
  split at h
  · cases h
  split at h
  · split at h
    · cases h
    · rename_i marker hmarker
      split at h
      · cases h
        exact .inl ⟨marker, hmarker, rfl⟩
      · cases h
  split at h
  · exact .inr h
  · cases h

/-- Nor does a failure reach a paused task. -/
theorem applyFailure_atWork {records records' : Records} {identifier : ResourceId}
    {resource : Resource} {operationId : OperationId}
    (h : applyFailure records identifier resource operationId = some records') :
    records.task.status ≠ .paused ∧ records.task.status ≠ .waitingDevice := by
  simp only [applyFailure] at h
  split at h
  · cases h
  split at h
  · cases h
  · rename_i hrest
    exact ⟨fun hpaused => hrest (.inr (.inl hpaused)), fun hwaiting => hrest (.inr (.inr hwaiting))⟩

/-- The task carries the marker of this device, whose outcome may be recovered from. -/
def HealthMarker.recovers (marker : HealthMarker) (identifier : ResourceId) : Prop :=
  marker.resourceId = identifier ∧ (marker.reason = .offline ∨ marker.reason = .authFailed)

instance (marker : HealthMarker) (identifier : ResourceId) :
    Decidable (marker.recovers identifier) :=
  inferInstanceAs (Decidable (_ ∧ _))

def HealthMarker.authorize (marker : HealthMarker) : HealthMarker :=
  { marker with authorized := true }

/-- A successful authentication authorises the markers of its own device. -/
def authorizeHealthRecoveries (records : Records) (identifier : ResourceId) : Records :=
  let task := records.task
  match task.resourceHealthRecovery with
  | none => records
  | some marker =>
    if task.linked identifier ∧ task.protocol ≠ .telnetSerial ∧ marker.recovers identifier ∧
        task.desiredState = .stopped then
      records.withTask { task with resourceHealthRecovery := some marker.authorize }
    else records

/-- The run of another device ends with it. -/
def transitionIdentityTask (records : Records) : Records :=
  let task := records.task
  if task.protocol = .telnetSerial then records
  else if task.nodeId ≠ none ∧ task.desiredState = .running then
    records.withTask { task with desiredState := .stopped, restartRequested := true }
  else if task.status = .paused then
    (records.closeRun task.runId).withTask { task with
      desiredState := .paused
      restartRequested := false
      runId := none
      sessionId := none }
  else if task.status = .waitingDevice then
    -- the wait goes on, for the new device and without a run; where the task does not say
    -- what it waits for, nothing is made up that a probe could act on
    (records.closeRun task.runId).withTask { task with
      desiredState := .running
      runId := none
      sessionId := none
      resumeWaiting := task.resumeWaiting.map fun waiting =>
        { waiting with pausedRunId := none, identityChanged := true } }
  else records

/-- A user has stored credentials that the device accepts. -/
def grantAfterUserAuthentication (records : Records) (identifier : ResourceId)
    (identityChanged : Bool) : Records :=
  let task := records.task
  if ¬(task.linked identifier ∧ task.protocol ≠ .telnetSerial) then records
  else
    let moved := if task.resourceId = identifier ∧ identityChanged = true then
      transitionIdentityTask records else records
    match task.resourceHealthRecovery with
    | none => moved
    | some marker =>
      if marker.resourceId = identifier ∧ task.desiredState = .stopped then
        moved.withTask { moved.task with resourceHealthRecovery := some marker.authorize }
      else moved

/-- A resume that waited for the device goes on with the same run, or without one where the
device has been replaced; `timely` where it was asked for before the probe began. -/
def resumeAfterProbe (records : Records) (identifier : ResourceId) (timely : Bool) : Records :=
  let task := records.task
  match task.resumeWaiting with
  | none => records
  | some waiting =>
    if task.resourceId = identifier ∧ task.status = .waitingDevice ∧
        task.desiredState = .running ∧ task.deleted = false ∧ task.protocol ≠ .telnetSerial ∧
        (waiting.pausedRunId = task.runId ∨
          (waiting.identityChanged = true ∧ task.runId = none)) ∧
        waiting.generation = task.generation ∧ timely = true then
      records.withTask { task with status := .paused, resumeWaiting := none }
    else records

/-- What a successful authentication does to one task of the device. -/
def applySuccess (records : Records) (identifier : ResourceId)
    (identityChanged authorizeUserRecovery timely : Bool) : Records :=
  let moved := if identityChanged = true ∧ records.task.linked identifier ∧
    records.task.deleted = false then transitionIdentityTask records else records
  let authorized := authorizeHealthRecoveries moved identifier
  let granted := if authorizeUserRecovery = true then
    grantAfterUserAuthentication authorized identifier false else authorized
  resumeAfterProbe granted identifier timely

/-- The scheduler gives a task its intent back once its marker is authorised and nothing of
the old run is left. -/
def consumeAuthorizedRecovery (records : Records) (identifier : ResourceId)
    (resource : Resource) : Option Records :=
  let task := records.task
  match task.resourceHealthRecovery with
  | none => none
  | some marker =>
    if ¬(resource.deleted = false ∧ resource.healthStatus = .online ∧
        task.desiredState = .stopped ∧ marker.resourceId = identifier ∧
        marker.authorized = true ∧ task.protocol ≠ .telnetSerial ∧ task.nodeId = none ∧
        records.lock = none) then none
    else if task.runId.any (fun runId => (records.runs runId).map Run.ended ≠ some true) = true then
      some (records.withTask { task with status := .blocked })
    else if marker.desiredState = .paused then
      some (records.withTask { task with
        desiredState := .paused
        restartRequested := false
        resourceHealthRecovery := none
        status := .paused
        runId := none
        sessionId := none })
    else
      some (records.withTask { task with
        desiredState := marker.desiredState
        restartRequested := false
        resourceHealthRecovery := none
        status := if task.status = .blocked then .stopped else task.status })

end CameraLogs.Tasks

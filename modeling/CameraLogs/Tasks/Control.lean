import CameraLogs.Tasks.Records
import Mathlib.Data.List.Sort

/-!
# What users ask of a task

`requestControl` is the start, stop, pause and resume of the API, `editTask` its edit
and `deleteTask` its soft deletion. Each is one transaction: it answers with a refusal,
and then nothing has happened, or it commits.

The devices are read inside the transaction; they come in as a function.
-/

namespace CameraLogs.Tasks

/-- The device documents a transaction reads. -/
abbrev Resources := ResourceId → Option Resource

/-- Whether what is known of a device keeps a task from running. -/
def resourceHealthBlocksTask (task : Task) (resource : Resource) : Prop :=
  task.protocol ≠ .telnetSerial ∧
    (resource.healthStatus = .authFailed ∨ resource.healthStatus = .offline ∨
      resource.healthStatus = .error)

instance (task : Task) (resource : Resource) : Decidable (resourceHealthBlocksTask task resource) :=
  inferInstanceAs (Decidable (_ ∧ _))

def guardResource (task : Task) (resources : Resources) (identifier : ResourceId) :
    Except Refusal Unit := do
  match resources identifier with
  | none => .error ⟨404, "设备资源不存在"⟩
  | some resource =>
    refuseIf (resource.deleted = true) 409 "设备资源已删除，仅可查询已有日志"
    refuseIf (resourceHealthBlocksTask task resource) 409 "设备资源认证或连通性异常，暂不能启动采集"

/-- The devices of the task, each once, in order. -/
def Task.resourceIds (task : Task) : List ResourceId :=
  (task.resourceId :: task.serialServerResourceId.toList).dedup.insertionSort (· ≤ ·)

def guardResources (task : Task) (resources : Resources) : Except Refusal Unit := do
  refuseIf (task.deleted = true ∨ task.resourceDeleted = true) 409 "设备资源已删除，仅可查询已有日志"
  task.resourceIds.forM (guardResource task resources)

def validate (task : Task) (desired : DesiredState) (requirePaused : Bool) :
    Except Refusal Unit := do
  refuseIf (requirePaused = true ∧
    (task.status ≠ .paused ∨ task.desiredState ≠ .paused ∨ task.nodeId ≠ none)) 409
    "任务尚未完成SSH暂停"
  refuseIf (task.protocol = .telnetSerial ∧ (requirePaused = true ∨ desired = .paused)) 409
    "串口 Telnet 任务不支持暂停或恢复"
  refuseIf (desired = .paused ∧ task.desiredState ≠ .running ∧ task.desiredState ≠ .paused) 409
    "仅运行中的任务可以暂停"

/-- The goal is reached: judged by what has physically happened. -/
def reached (task : Task) (desired : DesiredState) : Prop :=
  match desired with
  | .running => task.desiredState = .running ∧ task.status = .collecting ∧ task.nodeId ≠ none ∧
      task.runId ≠ none ∧ task.generation ≠ 0 ∧ task.restartRequested = false
  | .stopped => task.status = .stopped ∧ task.nodeId = none
  | .paused => task.status = .paused ∧ task.nodeId = none

instance (task : Task) (desired : DesiredState) : Decidable (reached task desired) := by
  unfold reached
  cases desired <;> exact inferInstance

/-- The operation of an intent already accepted, which a repeated request is answered with. -/
def previousOperation (records : Records) (desired : DesiredState) : Option Operation :=
  if records.task.desiredState ≠ desired then none
  else
    let matching : Operation → Bool :=
      match records.task.controlOperationId with
      | some identifier => fun operation => operation.id = identifier
      | none => fun operation => operation.status = .pending
    (records.operations.find? fun operation =>
      operation.desiredState = desired && matching operation).filter fun previous =>
        previous.status = .pending ∨
          (previous.status = .succeeded ∧ reached records.task desired)

/-- A paused run can only be resumed with its lock and its open run. -/
def validatePausedRun (records : Records) : Except Refusal Unit :=
  if records.task.status ≠ .paused ∨ records.task.nodeId ≠ none then .ok ()
  else
    match records.task.runId with
    | none => refuseIf (records.lock ≠ none) 409 "暂停任务仍有旧运行锁，请先停止并核查"
    | some runId =>
      refuseIf (records.lock.map EndpointLock.runId ≠ some runId ∨
        (records.runs runId).map Run.ended ≠ some false) 409
        "暂停运行或运行锁不完整，请先停止任务再重新启动"

/-- The part of a request that needs no worker, where no node has the task. -/
def localTransition (records : Records) (desired : DesiredState) : Except Refusal Records :=
  let task := records.task
  if task.nodeId ≠ none then .ok records
  else if desired = .stopped ∧ (task.status = .paused ∨ task.status = .waitingDevice) then do
    refuseIf (records.foreignLock task.runId) 409 "暂停任务存在不匹配的运行锁，请先核查旧运行"
    .ok ((records.closeRun task.runId).withTask { task with status := .stopped })
  else if desired = .paused ∧ task.status = .waitingDevice then
    -- the paused run, its lock and its budget stay
    .ok (records.withTask { task with status := .paused })
  else if desired = .paused ∧ (task.status = .stopped ∨ task.status = .pending) then do
    refuseIf (records.lock ≠ none) 409 "任务仍有运行锁，请先确认旧运行已停止"
    refuseIf (task.runId.any (fun runId => (records.runs runId).map Run.ended ≠ some true) = true)
      409 "任务旧运行尚未确认结束，请先停止并核查"
    .ok (records.withTask { task with status := .paused, runId := none, sessionId := none })
  else if desired = .running ∧ task.status = .error then
    .ok (records.withTask { task with status := .stopped })
  else .ok records

/-- The first write of a request; a stop also takes back the right to recover. -/
def claimControl (records : Records) (desired : DesiredState) : Records :=
  records.withTask { records.task with
    controlClaimVersion := records.task.controlClaimVersion + 1
    resourceHealthRecovery :=
      if desired = .stopped then none else records.task.resourceHealthRecovery }

/-- A resume that already waits for its device. -/
def waitingOperation (records : Records) (requirePaused : Bool) : Option Operation :=
  if requirePaused = true ∧ records.task.status = .waitingDevice then
    records.operations.find? fun operation =>
      some operation.id = records.task.controlOperationId ∧
        operation.action = .resumeWaitDevice ∧ operation.status = .pending
  else none

/-- A resume whose device has to be probed first. -/
def waitsForDevice (task : Task) (requirePaused : Bool) (resources : Resources) : Prop :=
  requirePaused = true ∧ (task.protocol = .ssh ∨ task.protocol = .telnetDevice) ∧
    task.status = .paused ∧ task.nodeId = none ∧ task.desiredState = .paused ∧
    (resources task.resourceId).any (fun resource => !resource.deleted && resource.network) = true

instance (task : Task) (requirePaused : Bool) (resources : Resources) :
    Decidable (waitsForDevice task requirePaused resources) :=
  inferInstanceAs (Decidable (_ ∧ _))

def resumeWaitDevice (records : Records) (identifier : OperationId) :
    Except Refusal (Records × Operation) := do
  validatePausedRun records
  let operation : Operation := ⟨identifier, .running, .resumeWaitDevice, .pending⟩
  let cancelled := records.settle (fun _ => true) .cancelled
  .ok ((cancelled.insertOperation operation).withTask { records.task with
    desiredState := .running
    status := .waitingDevice
    controlOperationId := some identifier
    resumeWaiting := some ⟨identifier, records.task.runId, records.task.generation, false⟩ },
    operation)

/-- What the request is called. -/
def controlAction (desired : DesiredState) (requirePaused : Bool) : Action :=
  if requirePaused = true then .resume
  else
    match desired with
    | .running => .start
    | .stopped => .stop
    | .paused => .pause

/-- The task as a new intent leaves it. -/
def Task.withIntent (task : Task) (desired : DesiredState) (identifier : OperationId) : Task :=
  { task with
    desiredState := desired
    controlOperationId := some identifier
    restartRequested := if desired = .stopped then false else task.restartRequested
    resumeWaiting := if desired = .running then task.resumeWaiting else none }

/-- A request that is neither a replay nor a wait: the intent and its operation are written. -/
def commitControl (records : Records) (desired : DesiredState) (requirePaused : Bool)
    (identifier : OperationId) : Except Refusal (Records × Operation) := do
  let moved ← localTransition records desired
  let operation : Operation := ⟨identifier, desired, controlAction desired requirePaused,
    if reached moved.task desired then .succeeded else .pending⟩
  let cancelled := moved.settle (fun other => decide (other ≠ desired)) .cancelled
  refuseIf (desired ≠ .stopped ∧ (moved.task.deleted = true ∨ moved.task.resourceDeleted = true))
    409 "设备资源已删除，仅可查询已有日志"
  .ok ((cancelled.insertOperation operation).withTask (moved.task.withIntent desired identifier),
    operation)

def changeControl (records : Records) (desired : DesiredState) (requirePaused : Bool)
    (identifier : OperationId) (resources : Resources) :
    Except Refusal (Records × Operation) := do
  let task := records.task
  onlyIf (desired ≠ .stopped ∧ ¬(desired = .paused ∧ task.status = .waitingDevice))
    (guardResources task resources)
  let previous := previousOperation records desired
  match previous.filter fun operation => requirePaused = true ∧ operation.action = .resume ∧
      (task.protocol = .ssh ∨ task.protocol = .telnetDevice) with
  | some operation => .ok (records, operation)
  | none =>
    validate task desired requirePaused
    onlyIf (desired ≠ .stopped) (validatePausedRun records)
    match previous with
    | some operation => .ok (records, operation)
    | none => commitControl records desired requirePaused identifier

/-- Start, stop, pause and, with `requirePaused`, resume. -/
def requestControl (records : Records) (desired : DesiredState) (requirePaused : Bool)
    (identifier : OperationId) (resources : Resources) :
    Except Refusal (Records × Operation) := do
  let records := claimControl records desired
  let task := records.task
  refuseIf (task.deleted = true ∧ desired ≠ .stopped) 409 "任务已删除，仅可查询已有日志"
  refuseIf (desired = .running ∧ task.status = .blocked) 409
    "任务阻塞，必须使用重新启动或隔离确认"
  match waitingOperation records requirePaused with
  | some operation => .ok (records, operation)
  | none =>
    if waitsForDevice task requirePaused resources then
      resumeWaitDevice records identifier
    else
      changeControl records desired requirePaused identifier resources

/-- The requests the API makes of it. -/
inductive Request
  | start
  | stop
  | pause
  | resume
  deriving DecidableEq

def Request.desired : Request → DesiredState
  | .start | .resume => .running
  | .stop => .stopped
  | .pause => .paused

def Request.requirePaused (request : Request) : Bool := decide (request = .resume)

/-! ## What a request that is accepted has done -/

/-- A request whose intent is there already, with its operation. -/
def Replayed (records : Records) (request : Request) : Prop :=
  previousOperation (claimControl records request.desired) request.desired ≠ none ∨
    (request = .resume ∧ records.task.status = .waitingDevice)

/-- The documents after a resume that waits for its device. -/
def waitingRecords (records : Records) (identifier : OperationId) : Records :=
  ((records.settle (fun _ => true) .cancelled).insertOperation
    ⟨identifier, .running, .resumeWaitDevice, .pending⟩).withTask { records.task with
      desiredState := .running
      status := .waitingDevice
      controlOperationId := some identifier
      resumeWaiting := some ⟨identifier, records.task.runId, records.task.generation, false⟩ }

/-- The documents after a new intent, where `moved` is what the transition has made of them. -/
def intentRecords (moved : Records) (desired : DesiredState) (identifier : OperationId)
    (operation : Operation) : Records :=
  ((moved.settle (fun other => decide (other ≠ desired)) .cancelled).insertOperation
    operation).withTask (moved.task.withIntent desired identifier)

theorem resumeWaitDevice_eq_ok {records records' : Records} {identifier : OperationId}
    {operation : Operation} (h : resumeWaitDevice records identifier = .ok (records', operation)) :
    validatePausedRun records = .ok () ∧ records' = waitingRecords records identifier := by
  simp only [resumeWaitDevice, bind_eq_ok] at h
  obtain ⟨_, hvalid, h⟩ := h
  cases h
  exact ⟨hvalid, rfl⟩

theorem commitControl_eq_ok {records records' : Records} {desired : DesiredState}
    {requirePaused : Bool} {identifier : OperationId} {operation : Operation}
    (h : commitControl records desired requirePaused identifier = .ok (records', operation)) :
    ∃ moved, localTransition records desired = .ok moved ∧
      records' = intentRecords moved desired identifier operation := by
  simp only [commitControl, bind_eq_ok] at h
  obtain ⟨moved, hmoved, _, _, h⟩ := h
  cases h
  exact ⟨moved, hmoved, rfl⟩

theorem validate_pause {task : Task} {desired : DesiredState} {requirePaused : Bool}
    (h : validate task desired requirePaused = .ok ()) (hdesired : desired = .paused) :
    task.desiredState ≠ .stopped := by
  simp only [validate, bind_eq_ok, refuseIf_eq_ok] at h
  obtain ⟨_, _, _, _, hstate⟩ := h
  intro hstopped
  exact hstate (by simp [hdesired, hstopped])

/-- A change that is accepted replays an operation or writes the intent; a task that is to
stop, or has stopped, is not paused. -/
theorem changeControl_eq_ok {records records' : Records} {desired : DesiredState}
    {requirePaused : Bool} {identifier : OperationId} {resources : Resources}
    {operation : Operation}
    (h : changeControl records desired requirePaused identifier resources =
      .ok (records', operation)) :
    (previousOperation records desired ≠ none ∧ records' = records) ∨
      ((desired = .paused → records.task.desiredState ≠ .stopped) ∧
        (desired ≠ .stopped → validatePausedRun records = .ok ()) ∧
        ∃ moved, localTransition records desired = .ok moved ∧
          records' = intentRecords moved desired identifier operation) := by
  simp only [changeControl, bind_eq_ok] at h
  obtain ⟨_, _, h⟩ := h
  split at h
  · rename_i previous hprevious
    cases h
    refine .inl ⟨fun hnone => ?_, rfl⟩
    rw [hnone] at hprevious
    cases hprevious
  · simp only [bind_eq_ok] at h
    obtain ⟨_, hvalidate, _, hpaused, h⟩ := h
    split at h
    · rename_i previous hprevious
      cases h
      exact .inl ⟨by simp [hprevious], rfl⟩
    · obtain ⟨moved, hmoved, hrecords⟩ := commitControl_eq_ok h
      refine .inr ⟨fun hdesired => ?_, onlyIf_eq_ok.1 hpaused, moved, hmoved, hrecords⟩
      exact validate_pause hvalidate hdesired

/-- What an accepted request has done: it was answered with the operation there is, or the
resume waits for the device, or the intent is written. -/
theorem requestControl_eq_ok {records records' : Records} {request : Request}
    {identifier : OperationId} {resources : Resources} {operation : Operation}
    (h : requestControl records request.desired request.requirePaused identifier resources =
      .ok (records', operation)) :
    (request.desired ≠ .stopped → records.task.deleted = false) ∧
    ((Replayed records request ∧ records' = claimControl records request.desired) ∨
      (request = .resume ∧ records.task.status = .paused ∧ records.task.nodeId = none ∧
        validatePausedRun (claimControl records .running) = .ok () ∧
        records' = waitingRecords (claimControl records .running) identifier) ∨
      ((request.desired = .paused → records.task.desiredState ≠ .stopped) ∧
        (request.desired ≠ .stopped →
          validatePausedRun (claimControl records request.desired) = .ok ()) ∧
        ∃ moved, localTransition (claimControl records request.desired) request.desired =
            .ok moved ∧
          records' = intentRecords moved request.desired identifier operation)) := by
  simp only [requestControl, bind_eq_ok, refuseIf_eq_ok] at h
  obtain ⟨_, hdeleted, _, _, h⟩ := h
  refine ⟨fun hdesired => ?_, ?_⟩
  · simpa [claimControl, hdesired] using hdeleted
  · split at h
    · rename_i previous hprevious
      cases h
      refine .inl ⟨.inr ?_, rfl⟩
      unfold waitingOperation at hprevious
      split at hprevious
      · rename_i hwaiting
        simpa [Request.requirePaused, claimControl] using hwaiting
      · cases hprevious
    · split at h
      · rename_i hwaits
        have hresume : request = .resume := by simpa [Request.requirePaused] using hwaits.1
        subst hresume
        obtain ⟨hvalid, hrecords⟩ := resumeWaitDevice_eq_ok h
        exact .inr (.inl ⟨rfl, hwaits.2.2.1, hwaits.2.2.2.1, hvalid, hrecords⟩)
      · obtain hprevious | hcommitted := changeControl_eq_ok h
        · exact .inl ⟨.inl hprevious.1, hprevious.2⟩
        · exact .inr (.inr hcommitted)

/-- What a request does on its own to a task that no node has. -/
theorem localTransition_eq_ok {records moved : Records} {desired : DesiredState}
    (h : localTransition records desired = .ok moved) :
    (moved = records ∧ (desired = .stopped → records.task.nodeId = none →
        records.task.status ≠ .paused ∧ records.task.status ≠ .waitingDevice)) ∨
      (desired = .stopped ∧ records.task.nodeId = none ∧
        moved = (records.closeRun records.task.runId).withTask
          { records.task with status := .stopped }) ∨
      (desired = .paused ∧ records.task.nodeId = none ∧ records.task.status = .waitingDevice ∧
        moved = records.withTask { records.task with status := .paused }) ∨
      (desired = .paused ∧ records.task.nodeId = none ∧ records.lock = none ∧
        moved = records.withTask
          { records.task with status := .paused, runId := none, sessionId := none }) ∨
      (desired = .running ∧ records.task.nodeId = none ∧ records.task.status = .error ∧
        moved = records.withTask { records.task with status := .stopped }) := by
  simp only [localTransition] at h
  split at h
  · rename_i hnode
    cases h
    exact .inl ⟨rfl, fun _ hnone => absurd hnone hnode⟩
  rename_i hnode
  have hnone : records.task.nodeId = none := not_not.1 hnode
  split at h
  · rename_i hstop
    simp only [bind_eq_ok] at h
    obtain ⟨_, _, h⟩ := h
    cases h
    exact .inr (.inl ⟨hstop.1, hnone, rfl⟩)
  rename_i hstop
  split at h
  · rename_i hpause
    cases h
    exact .inr (.inr (.inl ⟨hpause.1, hnone, hpause.2, rfl⟩))
  split at h
  · rename_i hpause
    simp only [bind_eq_ok, refuseIf_eq_ok, not_not] at h
    obtain ⟨_, hlock, _, _, h⟩ := h
    cases h
    exact .inr (.inr (.inr (.inl ⟨hpause.1, hnone, hlock, rfl⟩)))
  split at h
  · rename_i hstart
    cases h
    exact .inr (.inr (.inr (.inr ⟨hstart.1, hnone, hstart.2, rfl⟩)))
  · cases h
    refine .inl ⟨rfl, fun hdesired _ => ⟨fun hpaused => ?_, fun hwaiting => ?_⟩⟩
    · exact hstop ⟨hdesired, .inl hpaused⟩
    · exact hstop ⟨hdesired, .inr hwaiting⟩

end CameraLogs.Tasks

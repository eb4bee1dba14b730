import CameraLogs.Tasks.Control

/-!
# Edits and deletions

`editTask` commits a new configuration; where it changes what the task does and a node
has the task, it also asks for a stop that restarts. `deleteTask` and
`markResourceDeletion` put the tombstone on a task; what is left of its run is given up
afterwards, by `reconcileTaskDeletion` in the separate writes at the end.
-/

namespace CameraLogs.Tasks

/-- What an edit writes, of what the other components read. -/
structure TaskDocument where
  protocol : Protocol
  ip : String
  port : Nat
  resourceId : ResourceId
  serialServerResourceId : Option ResourceId
  deriving DecidableEq

def Task.withDocument (task : Task) (document : TaskDocument) : Task :=
  { task with
    protocol := document.protocol
    ip := document.ip
    port := document.port
    resourceId := document.resourceId
    serialServerResourceId := document.serialServerResourceId
    version := task.version + 1 }

/-- A task waiting for a node may be changed where it stands: nothing is left of its last run. -/
def confirmQueuedTaskIsIdle (records : Records) : Except Refusal Unit := do
  refuseIf (records.lock ≠ none) 409 "排队任务仍有运行锁，请先停止并核查"
  refuseIf
    (records.task.runId.any (fun runId => (records.runs runId).map Run.ended ≠ some true) = true)
    409 "排队任务存在未确认结束的旧运行，请先停止并核查"

/-- The devices an edit was prepared with have to be as they were then. -/
def guardSnapshots (identifiers : List ResourceId) (resources : Resources)
    (sameIdentity : ResourceId → Bool) : Except Refusal Unit :=
  identifiers.forM fun identifier =>
    match resources identifier with
    | none => .error ⟨404, "设备资源不存在"⟩
    | some resource =>
      refuseIf (resource.deleted = true ∨ sameIdentity identifier = false) 409
        "设备资源已删除，任务不会更新"

/-- The intent of an edit, with `restart` where it changes what the task does. -/
def editIntent (records : Records) (restart : Bool) (identifier : OperationId) :
    Except Refusal Records :=
  if ¬(restart = true ∧ records.task.desiredState = .running) then .ok records
  else if records.task.nodeId = none then do
    confirmQueuedTaskIsIdle records
    .ok (records.withTask { records.task with restartRequested := false })
  else
    let cancelled := records.settle (fun other => decide (other ≠ .stopped)) .cancelled
    .ok ((cancelled.insertOperation ⟨identifier, .stopped, .editStop, .pending⟩).withTask
      { records.task with
        desiredState := .stopped
        restartRequested := true
        controlOperationId := some identifier })

/-- An edit: `behavioral` where it touches more than the name and the description, `clear`
where it clears the password. -/
def editTask (records : Records) (version : Nat) (behavioral clear : Bool)
    (document : TaskDocument) (identifier : OperationId) (identifiers : List ResourceId)
    (resources : Resources) (sameIdentity : ResourceId → Bool) : Except Refusal Records := do
  refuseIf (records.task.version ≠ version ∨ records.task.deleted = true ∨
    records.task.resourceDeleted = true) 409 "配置版本已变化或设备资源已删除，请刷新"
  let records := records.withTask { records.task with
    controlClaimVersion := records.task.controlClaimVersion + 1 }
  let task := records.task
  refuseIf ((task.desiredState = .paused ∨ task.status = .paused ∨ task.status = .pausing) ∧
    (behavioral || clear) = true) 409
    "暂停期间只能修改名称和说明；修改连接或命令前请停止任务"
  guardSnapshots identifiers resources sameIdentity
  let edited ← editIntent records (behavioral || clear) identifier
  .ok (edited.withTask (edited.task.withDocument document))

/-- An edit leaves the intent, or clears the flag of a queued task, or asks a running one to
stop and start again. -/
theorem editIntent_eq_ok {records edited : Records} {restart : Bool} {identifier : OperationId}
    (h : editIntent records restart identifier = .ok edited) :
    edited = records ∨
      (records.task.desiredState = .running ∧
        edited = records.withTask { records.task with restartRequested := false }) ∨
      (records.task.desiredState = .running ∧
        edited = (((records.settle (fun other => decide (other ≠ .stopped))
          .cancelled).insertOperation ⟨identifier, .stopped, .editStop, .pending⟩).withTask
            { records.task with
              desiredState := .stopped
              restartRequested := true
              controlOperationId := some identifier })) := by
  unfold editIntent at h
  split at h
  · cases h
    exact .inl rfl
  rename_i hrestart
  have hrunning := (not_not.1 hrestart).2
  split at h
  · simp only [bind_eq_ok] at h
    obtain ⟨_, _, h⟩ := h
    cases h
    exact .inr (.inl ⟨hrunning, rfl⟩)
  · cases h
    exact .inr (.inr ⟨hrunning, rfl⟩)

/-- It is only a task on a node whose intent an edit changes. -/
theorem editIntent_queued {records edited : Records} {restart : Bool} {identifier : OperationId}
    (h : editIntent records restart identifier = .ok edited) (hnone : records.task.nodeId = none) :
    edited.task.desiredState = records.task.desiredState := by
  unfold editIntent at h
  split at h
  · cases h
    rfl
  · simp only [hnone, bind_eq_ok] at h
    obtain ⟨_, _, h⟩ := h
    cases h
    rfl

theorem editTask_eq_ok {records records' : Records} {version : Nat} {behavioral clear : Bool}
    {document : TaskDocument} {identifier : OperationId} {identifiers : List ResourceId}
    {resources : Resources} {sameIdentity : ResourceId → Bool}
    (h : editTask records version behavioral clear document identifier identifiers resources
      sameIdentity = .ok records') :
    records.task.deleted = false ∧
      ∃ edited, editIntent (records.withTask { records.task with
          controlClaimVersion := records.task.controlClaimVersion + 1 }) (behavioral || clear)
            identifier = .ok edited ∧
        records' = edited.withTask (edited.task.withDocument document) := by
  simp only [editTask, bind_eq_ok, refuseIf_eq_ok] at h
  obtain ⟨_, hthere, _, _, _, _, edited, hedited, h⟩ := h
  cases h
  refine ⟨?_, edited, hedited, rfl⟩
  simpa using (not_or.1 (not_or.1 hthere).2).1

/-- The tombstone of a task. -/
def Task.withTombstone (task : Task) : Task :=
  { task with deleted := true, desiredState := .stopped, restartRequested := false }

def deleteTask (records : Records) (version : Nat) : Except Refusal Records := do
  refuseIf (records.task.version ≠ version ∨ records.task.deleted = true) 409
    "任务版本已变化或已删除，请刷新"
  let cancelled := records.settle (fun other => decide (other ≠ .stopped)) .cancelled
  .ok (cancelled.withTask { records.task.withTombstone with version := records.task.version + 1 })

/-- A device is the task's own or the server its serial line is on. -/
def Task.linked (task : Task) (identifier : ResourceId) : Prop :=
  task.resourceId = identifier ∨ task.serialServerResourceId = some identifier

instance (task : Task) (identifier : ResourceId) : Decidable (task.linked identifier) :=
  inferInstanceAs (Decidable (_ ∨ _))

/-- The deletion of a device reaches the tasks linked to it. -/
def markResourceDeletion (records : Records) (identifier : ResourceId) : Records :=
  let records := { records with gone := identifier :: records.gone }
  if records.task.linked identifier ∧ records.task.deleted = false then
    let cancelled := records.settle (fun other => decide (other ≠ .stopped)) .cancelled
    cancelled.withTask { records.task.withTombstone with resourceDeleted := true }
  else records

/-! ## The sweep of a deletion

Four writes of `reconcileTaskDeletion`, in this order, each on its own; the cancelled
operations are one more, and the deleted lock and the ended run are the last two. -/

/-- The intent again, for tasks deleted by an earlier version. -/
def sweepIntent (records : Records) (resourceDeleted : Bool) : Option Records :=
  updateOne (records.task.deleted = true)
    (records.withTask { records.task with
      desiredState := .stopped
      restartRequested := false
      resourceDeleted := records.task.resourceDeleted || resourceDeleted })

/-- A paused task has no worker that would stop it. -/
def sweepPaused (records : Records) : Option Records :=
  updateOne (records.task.deleted = true ∧ records.task.nodeId = none ∧
      records.task.desiredState = .stopped ∧ records.task.status = .paused)
    (records.withTask { records.task with status := .stopped })

/-- The read that decides whose lock and run the sweep then gives up. -/
def sweepStopped (records : Records) : Option Records :=
  match records.task.runId with
  | none => none
  | some runId =>
    updateOne (records.task.deleted = true ∧ records.task.nodeId = none ∧
        records.task.desiredState = .stopped ∧
        (records.task.status = .paused ∨ records.task.status = .stopped ∨
          records.task.status = .error ∨ records.task.status = .blocked))
      { records with released := runId :: records.released }

end CameraLogs.Tasks

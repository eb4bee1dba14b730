import Mathlib.Data.List.Basic
import Mathlib.Logic.Function.Basic

/-!
# The documents of a task

What the API, the scheduler, the workers and the maintenance loops share about a task is
a handful of documents: the task itself, its endpoint lock, its runs and the control
operations that users and the system have asked for. Everything any of them does is an
update of these documents under a condition.

`Records` are the documents of one task. The lock is an `Option`: the collection has a
unique index on the task. Of the devices they hold which ones are deleted. The last two fields are not stored anywhere; they remember
which runs a worker has begun to give up and who has claimed the task.
-/

namespace CameraLogs.Tasks

abbrev RunId := Nat
abbrev NodeId := Nat
abbrev SessionId := Nat
abbrev OperationId := Nat
abbrev ResourceId := Nat

/-- What the user, or the system on his behalf, wants of the task. -/
inductive DesiredState
  | running
  | stopped
  | paused
  deriving DecidableEq

inductive Status
  | stopped
  | pending
  | connecting
  | collecting
  | reconnecting
  | pausing
  | paused
  | stopping
  | blocked
  | error
  | waitingDevice
  deriving DecidableEq

inductive Protocol
  | ssh
  | telnetDevice
  | telnetSerial
  deriving DecidableEq

inductive HealthStatus
  | online
  | checking
  | authFailed
  | offline
  | error
  deriving DecidableEq

/-- A device: whether it is a network device, and how its last authentication went. -/
structure Resource where
  network : Bool
  healthStatus : HealthStatus
  /-- The last refusal of its credentials has not been followed by a success. -/
  authRejected : Bool
  deleted : Bool
  deriving DecidableEq

/-- Left on a task that the system has stopped for its device's sake. -/
structure HealthMarker where
  resourceId : ResourceId
  reason : HealthStatus
  desiredState : DesiredState
  authorized : Bool
  deriving DecidableEq

/-- Left on a task that waits for its device before it resumes. -/
structure ResumeWaiting where
  operationId : OperationId
  pausedRunId : Option RunId
  generation : Nat
  identityChanged : Bool
  deriving DecidableEq

/-- Proof that a worker has closed the connection of a run. -/
structure ClosedReceipt where
  runId : RunId
  generation : Nat
  nodeId : NodeId
  sessionId : SessionId
  /-- It was closed because its node had lost contact. -/
  fenced : Bool
  deriving DecidableEq

/-- What a deployment has frozen of the run it is about to end. -/
structure DeploymentMarker where
  token : Nat
  runId : RunId
  nodeId : NodeId
  generation : Nat
  sessionId : SessionId
  controlClaimVersion : Nat
  controlOperationId : Option OperationId
  deriving DecidableEq

structure Task where
  protocol : Protocol
  ip : String
  port : Nat
  resourceId : ResourceId
  serialServerResourceId : Option ResourceId
  version : Nat
  desiredState : DesiredState
  status : Status
  nodeId : Option NodeId
  runId : Option RunId
  sessionId : Option SessionId
  generation : Nat
  restartRequested : Bool
  controlOperationId : Option OperationId
  controlClaimVersion : Nat
  deleted : Bool
  resourceDeleted : Bool
  resourceHealthRecovery : Option HealthMarker
  resumeWaiting : Option ResumeWaiting
  closedReceipt : Option ClosedReceipt
  plannedRestart : Option Nat
  deploymentRecovery : Option DeploymentMarker
  deriving DecidableEq

structure EndpointLock where
  endpoint : String × Nat
  runId : RunId
  deriving DecidableEq

structure Run where
  nodeId : NodeId
  generation : Nat
  sessionId : Option SessionId
  ended : Bool
  deploymentRecovery : Option DeploymentMarker
  deriving DecidableEq

/-- What was asked for. -/
inductive Action
  | start
  | stop
  | pause
  | resume
  | resumeWaitDevice
  | editStop
  | systemResourceHealthStop
  | restartBlocked
  deriving DecidableEq

inductive OperationStatus
  | pending
  | succeeded
  | failed
  | cancelled
  deriving DecidableEq

structure Operation where
  id : OperationId
  desiredState : DesiredState
  action : Action
  status : OperationStatus
  deriving DecidableEq

/-- Who may write to a claimed task. -/
structure Owner where
  runId : RunId
  nodeId : NodeId
  generation : Nat
  deriving DecidableEq

/-- The documents of one task. -/
structure Records where
  task : Task
  lock : Option EndpointLock
  runs : RunId → Option Run
  operations : List Operation
  /-- The devices, of this task or another, that have been deleted. -/
  gone : List ResourceId
  /-- Runs that a release, or the sweep of a deletion, has begun to give up. -/
  released : List RunId
  /-- The owners that successful claims have made, the newest first. -/
  claims : List Owner

/-! ## Conditions and updates -/

/-- The filter of every write of a former owner. -/
def ownerFilter (owner : Owner) (task : Task) : Prop :=
  task.runId = some owner.runId ∧ task.nodeId = some owner.nodeId ∧
    task.generation = owner.generation

instance (owner : Owner) (task : Task) : Decidable (ownerFilter owner task) :=
  inferInstanceAs (Decidable (_ ∧ _))

/-- The same for a task that the owner has already let go. -/
def formerOwnerFilter (owner : Owner) (task : Task) : Prop :=
  task.runId = some owner.runId ∧ task.nodeId = none ∧ task.generation = owner.generation

instance (owner : Owner) (task : Task) : Decidable (formerOwnerFilter owner task) :=
  inferInstanceAs (Decidable (_ ∧ _))

/-- A task the scheduler may hand to a node. -/
def Task.Claimable (task : Task) : Prop :=
  task.nodeId = none ∧ task.desiredState = .running ∧ task.deleted = false ∧
    task.resourceDeleted = false ∧
    (task.status = .stopped ∨ task.status = .pending ∨ task.status = .paused)

/-- An update under a condition: nothing happens where the filter does not match. -/
def updateOne (filter : Prop) [Decidable filter] (records : Records) : Option Records :=
  if filter then some records else none

theorem updateOne_eq_some {filter : Prop} [Decidable filter] {records records' : Records} :
    updateOne filter records = some records' ↔ filter ∧ records = records' := by
  unfold updateOne
  split <;> simp [*]

/-- The task changed, the other documents as they are. -/
def Records.withTask (records : Records) (task : Task) : Records := { records with task }

@[simp] theorem Records.withTask_task (records : Records) (task : Task) :
    (records.withTask task).task = task := rfl

@[simp] theorem Records.withTask_lock (records : Records) (task : Task) :
    (records.withTask task).lock = records.lock := rfl

@[simp] theorem Records.withTask_runs (records : Records) (task : Task) :
    (records.withTask task).runs = records.runs := rfl

@[simp] theorem Records.withTask_operations (records : Records) (task : Task) :
    (records.withTask task).operations = records.operations := rfl

@[simp] theorem Records.withTask_released (records : Records) (task : Task) :
    (records.withTask task).released = records.released := rfl

@[simp] theorem Records.withTask_claims (records : Records) (task : Task) :
    (records.withTask task).claims = records.claims := rfl

/-- Delete the lock if it is this run's. -/
def Records.deleteLock (records : Records) (runId : RunId) : Records :=
  { records with lock := records.lock.filter (·.runId ≠ runId) }

/-- End a run. -/
def Run.end (run : Run) : Run := { run with ended := true }

def Records.endRun (records : Records) (runId : RunId) : Records :=
  { records with runs := Function.update records.runs runId ((records.runs runId).map Run.end) }

@[simp] theorem Records.deleteLock_task (records : Records) (runId : RunId) :
    (records.deleteLock runId).task = records.task := rfl

@[simp] theorem Records.endRun_task (records : Records) (runId : RunId) :
    (records.endRun runId).task = records.task := rfl

@[simp] theorem Records.endRun_lock (records : Records) (runId : RunId) :
    (records.endRun runId).lock = records.lock := rfl

@[simp] theorem Records.mem_deleteLock {records : Records} {runId : RunId} {lock : EndpointLock} :
    lock ∈ (records.deleteLock runId).lock ↔ lock ∈ records.lock ∧ lock.runId ≠ runId := by
  simp [Records.deleteLock, Option.mem_def, Option.filter_eq_some_iff]

/-- Delete the lock of a run and end it. -/
def Records.closeRun (records : Records) (runId : Option RunId) : Records :=
  match runId with
  | none => records
  | some runId => (records.deleteLock runId).endRun runId

@[simp] theorem Records.closeRun_task (records : Records) (runId : Option RunId) :
    (records.closeRun runId).task = records.task := by
  cases runId <;> rfl

@[simp] theorem Records.closeRun_released (records : Records) (runId : Option RunId) :
    (records.closeRun runId).released = records.released := by
  cases runId <;> rfl

@[simp] theorem Records.closeRun_gone (records : Records) (runId : Option RunId) :
    (records.closeRun runId).gone = records.gone := by
  cases runId <;> rfl

@[simp] theorem Records.closeRun_claims (records : Records) (runId : Option RunId) :
    (records.closeRun runId).claims = records.claims := by
  cases runId <;> rfl

@[simp] theorem Records.mem_closeRun {records : Records} {runId : Option RunId}
    {lock : EndpointLock} :
    lock ∈ (records.closeRun runId).lock ↔ lock ∈ records.lock ∧ some lock.runId ≠ runId := by
  cases runId with
  | none => simp [Records.closeRun]
  | some runId => simp only [Records.closeRun, endRun_lock, mem_deleteLock, ne_eq, Option.some.injEq]

/-- A lock of another run than this one. -/
def Records.foreignLock (records : Records) (runId : Option RunId) : Prop :=
  ∃ lock ∈ records.lock, some lock.runId ≠ runId

instance (records : Records) (runId : Option RunId) : Decidable (records.foreignLock runId) :=
  decidable_of_iff (∃ lock ∈ records.lock.toList, some lock.runId ≠ runId) (by
    simp [Records.foreignLock])

/-- Settle the pending operations that a filter picks. -/
def Records.settle (records : Records) (picks : DesiredState → Bool) (status : OperationStatus) :
    Records :=
  { records with
    operations := records.operations.map fun operation =>
      if operation.status = .pending ∧ picks operation.desiredState = true then
        { operation with status } else operation }

def Records.insertOperation (records : Records) (operation : Operation) : Records :=
  { records with operations := records.operations ++ [operation] }

/-! Neither touches anything but the operations. -/

@[simp] theorem Records.settle_task (records : Records) (picks : DesiredState → Bool)
    (status : OperationStatus) : (records.settle picks status).task = records.task := rfl

@[simp] theorem Records.settle_lock (records : Records) (picks : DesiredState → Bool)
    (status : OperationStatus) : (records.settle picks status).lock = records.lock := rfl

@[simp] theorem Records.settle_runs (records : Records) (picks : DesiredState → Bool)
    (status : OperationStatus) : (records.settle picks status).runs = records.runs := rfl

@[simp] theorem Records.settle_released (records : Records) (picks : DesiredState → Bool)
    (status : OperationStatus) : (records.settle picks status).released = records.released := rfl

@[simp] theorem Records.settle_claims (records : Records) (picks : DesiredState → Bool)
    (status : OperationStatus) : (records.settle picks status).claims = records.claims := rfl

@[simp] theorem Records.insertOperation_task (records : Records) (operation : Operation) :
    (records.insertOperation operation).task = records.task := rfl

@[simp] theorem Records.insertOperation_lock (records : Records) (operation : Operation) :
    (records.insertOperation operation).lock = records.lock := rfl

@[simp] theorem Records.insertOperation_runs (records : Records) (operation : Operation) :
    (records.insertOperation operation).runs = records.runs := rfl

@[simp] theorem Records.insertOperation_released (records : Records) (operation : Operation) :
    (records.insertOperation operation).released = records.released := rfl

@[simp] theorem Records.insertOperation_claims (records : Records) (operation : Operation) :
    (records.insertOperation operation).claims = records.claims := rfl

/-! ## Refusals -/

/-- A request that is turned down, with the status code and the text of its answer. -/
structure Refusal where
  code : Nat
  detail : String
  deriving DecidableEq

/-- Refuse where a condition holds. -/
def refuseIf (condition : Prop) [Decidable condition] (code : Nat) (detail : String) :
    Except Refusal Unit :=
  if condition then .error ⟨code, detail⟩ else .ok ()

@[simp] theorem refuseIf_eq_ok {condition : Prop} [Decidable condition] {code : Nat}
    {detail : String} {u : Unit} : refuseIf condition code detail = .ok u ↔ ¬condition := by
  unfold refuseIf
  split <;> simp [*]

/-- A check that is made under a condition only. -/
def onlyIf (condition : Prop) [Decidable condition] (check : Except Refusal Unit) :
    Except Refusal Unit :=
  if condition then check else .ok ()

@[simp] theorem onlyIf_eq_ok {condition : Prop} [Decidable condition]
    {check : Except Refusal Unit} {u : Unit} :
    onlyIf condition check = .ok u ↔ (condition → check = .ok u) := by
  unfold onlyIf
  split <;> simp [*]

/-- What a request that succeeds has gone through, one part at a time. -/
theorem bind_eq_ok {α β : Type} {x : Except Refusal α} {f : α → Except Refusal β} {b : β} :
    x >>= f = .ok b ↔ ∃ a, x = .ok a ∧ f a = .ok b := by
  cases x with
  | error e => simp [Bind.bind, Except.bind]
  | ok a => simp [Bind.bind, Except.bind]

theorem toOption_eq_some {α : Type} {x : Except Refusal α} {a : α} :
    x.toOption = some a ↔ x = .ok a := by
  cases x <;> simp [Except.toOption]

end CameraLogs.Tasks

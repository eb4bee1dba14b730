import CameraLogs.Lib.Run
import CameraLogs.Tasks.Records

/-!
# The lease of a device's coredump mount

Several tasks may collect from one device, and one of them at a time looks after the
device's coredump mount. Which one is recorded in the device's document, as a lease that
the tasks' sessions take, renew, hand over and give back. Every session does so by a few
reads and at most two updates, each under its own filter, and the clock is read before the
update that writes it is sent.

A call stands at a stage between two of its reads and updates; `advance` performs the next
one. Other tasks, other calls and the users who edit the device act in between. What the
calls have written of the lease is remembered beside the document.
-/

namespace CameraLogs.Collection

open CameraLogs.Lib
open CameraLogs.Tasks (NodeId ResourceId Protocol Status DesiredState)

abbrev TaskId := Nat

/-- A device-side mount source, such as `server:path`; no source is ever empty. -/
abbrev MountTarget := String

/-- The identity a task was claimed with, which is also how a lease names its owner. -/
structure LeaseOwner where
  taskId : TaskId
  runId : Tasks.RunId
  generation : Option Nat
  nodeId : Option NodeId
  deriving DecidableEq

/-- The task a session has claimed, as its calls hold it. -/
structure SessionTask where
  owner : LeaseOwner
  resourceId : Option ResourceId
  protocol : Protocol
  sshTarget : Option String

/-- A document of the collection `tasks`. -/
structure TaskDocument extends SessionTask where
  status : Status
  desiredState : DesiredState
  resourceDeleted : Bool

structure CoredumpLease where
  owner : LeaseOwner
  leaseUntil : Nat
  deriving DecidableEq

/-- The document of the device. -/
structure ResourceDocument where
  id : ResourceId
  deleted : Bool
  enableCoredumpMonitor : Bool
  coredumpLeaseTarget : Option MountTarget
  coredumpLease : Option CoredumpLease

/-- Clock readings count milliseconds, as the stored times do. -/
def monitorLeaseMillis : Nat := 70000

def cleanupLeaseMillis : Nat := 20000

/-- `supports_resource_monitoring` -/
def SessionTask.supportsResourceMonitoring (task : SessionTask) : Bool :=
  task.protocol = .telnetDevice ∨ task.protocol = .ssh ∧ task.sshTarget.getD "HOST" = "HOST"

/-- `_eligible_coredump_task_query` -/
def TaskDocument.eligibleCoredumpTask (resourceId : Option ResourceId)
    (excludeTaskId : Option TaskId) (document : TaskDocument) : Bool :=
  document.resourceId = resourceId ∧ document.status = .collecting ∧
    document.desiredState = .running ∧ document.resourceDeleted = false ∧
    (document.protocol = .telnetDevice ∨
      document.protocol = .ssh ∧
        (document.sshTarget = none ∨ document.sshTarget = some "HOST")) ∧
    excludeTaskId ≠ some document.owner.taskId

/-! ## The updates -/

inductive LeaseUpdate
  | fixTarget (target : MountTarget)
  | grant (timestamp : Nat)
  | handOver (timestamp : Nat)
  | extend (timestamp : Nat)
  | release (timestamp : Nat)
  deriving DecidableEq

namespace ResourceDocument

/-- The four fields of the lease that name its owner. -/
def leasedTo (owner : LeaseOwner) (resource : ResourceDocument) : Bool :=
  resource.coredumpLease.any fun lease => lease.owner = owner

/-- `lease_owner` of `guard_coredump_cleanup` -/
def ownsCleanup (owner : LeaseOwner) (mountTarget : Option MountTarget) (timestamp : Nat)
    (resource : ResourceDocument) : Bool :=
  (resource.coredumpLease.any fun lease =>
      lease.owner = owner ∧ timestamp < lease.leaseUntil) &&
    (mountTarget.isNone || resource.coredumpLeaseTarget.isNone ||
      resource.coredumpLeaseTarget = mountTarget)

def withLease (owner : LeaseOwner) (leaseUntil : Nat) (resource : ResourceDocument) :
    ResourceDocument :=
  { resource with coredumpLease := some { owner, leaseUntil } }

def withUntil (change : Nat → Nat) (resource : ResourceDocument) : ResourceDocument :=
  { resource with coredumpLease := resource.coredumpLease.map fun lease =>
      { lease with leaseUntil := change lease.leaseUntil } }

end ResourceDocument

namespace LeaseUpdate

variable (owner : LeaseOwner) (mountTarget : Option MountTarget)

/-- The filter of the update, but for the device's id. -/
def admits (resource : ResourceDocument) : LeaseUpdate → Bool
  | fixTarget _ => resource.coredumpLeaseTarget.isNone
  | grant timestamp =>
    resource.deleted = false ∧ resource.enableCoredumpMonitor ∧
      ((resource.coredumpLease.all fun lease => lease.leaseUntil ≤ timestamp) ∨
        resource.leasedTo owner)
  | handOver timestamp => resource.ownsCleanup owner mountTarget timestamp
  | extend timestamp => resource.ownsCleanup owner mountTarget timestamp
  | release _ => resource.leasedTo owner

def write (resource : ResourceDocument) : LeaseUpdate → ResourceDocument
  | fixTarget target => { resource with coredumpLeaseTarget := some target }
  | grant timestamp => resource.withLease owner (timestamp + monitorLeaseMillis)
  | handOver timestamp => resource.withUntil fun _ => timestamp
  | extend timestamp => resource.withUntil fun leaseUntil =>
      max leaseUntil (timestamp + cleanupLeaseMillis)
  | release timestamp => resource.withUntil fun _ => timestamp

end LeaseUpdate

/-! ## The calls -/

/-- Where `guard_coredump_monitor` stands. -/
inductive MonitorStage
  | called
  | owning
  | reading
  | fixing
  | rereading
  | admitted
  | granting (timestamp : Nat)
  | returned (result : Option Bool)
  deriving DecidableEq

/-- Where `guard_coredump_cleanup` stands. -/
inductive CleanupStage
  | called
  | owning
  | reading
  | timing (available : Bool)
  | succeeding (available : Bool) (timestamp : Nat)
  | handingOver (timestamp : Nat)
  | extending (timestamp : Nat)
  | extended (lease : Bool)
  | returned (result : Bool)
  deriving DecidableEq

/-- Where `release_coredump_lease` stands. -/
inductive ReleaseStage
  | called
  | releasing (timestamp : Nat)
  | returned
  deriving DecidableEq

inductive CallStage
  | monitor (stage : MonitorStage)
  | cleanup (stage : CleanupStage)
  | release (stage : ReleaseStage)
  deriving DecidableEq

structure GuardCall where
  task : SessionTask
  mountTarget : Option MountTarget
  stage : CallStage

abbrev CallId := Nat

/-- An update that has met its filter, with the call that has sent it. -/
structure LeaseWrite where
  callId : CallId
  owner : LeaseOwner
  mountTarget : Option MountTarget
  update : LeaseUpdate
  deriving DecidableEq

structure CoredumpState where
  resource : ResourceDocument
  tasks : List TaskDocument
  now : Nat
  calls : CallId → Option GuardCall
  writes : List LeaseWrite

namespace CoredumpState

variable (s : CoredumpState)

/-- `find_one` of the device by the resource of a task. -/
def findResource (task : SessionTask) : Option ResourceDocument :=
  if task.resourceId = some s.resource.id then some s.resource else none

/-- `find_one` of a task by its owner filter and the query of eligible ones. -/
def ownsEligible (task : SessionTask) : Bool :=
  s.tasks.any fun document => document.owner = task.owner ∧
    document.eligibleCoredumpTask task.resourceId none

def ownsTask (task : SessionTask) : Bool :=
  s.tasks.any fun document => document.owner = task.owner

/-- An eligible task of the device other than `task`. -/
def hasSuccessor (task : SessionTask) : Bool :=
  s.tasks.any fun document =>
    document.eligibleCoredumpTask task.resourceId (some task.owner.taskId)

/-- One update of the device as the call `i` sends it: whether its filter was met. -/
def send (i : CallId) (call : GuardCall) (update : LeaseUpdate) : Bool × CoredumpState :=
  if call.task.resourceId = some s.resource.id ∧
      update.admits call.task.owner call.mountTarget s.resource then
    (true, { s with
      resource := update.write call.task.owner s.resource
      writes := ⟨i, call.task.owner, call.mountTarget, update⟩ :: s.writes })
  else (false, s)

end CoredumpState

/-- The check of the source the device has been given, before the lease is asked for. -/
def compareTarget (mountTarget target : Option MountTarget) : MonitorStage :=
  if mountTarget.isSome ∧ target.isSome ∧ target ≠ mountTarget then .returned none else .admitted

/-- `guard_coredump_monitor`, from one await to the next. `active` is what `session_active`
answers. -/
def MonitorStage.next (active : Bool) (i : CallId) (call : GuardCall) (s : CoredumpState) :
    MonitorStage → Option (MonitorStage × CoredumpState)
  | called =>
    if call.task.supportsResourceMonitoring ∧ active then some (owning, s)
    else some (returned (some false), s)
  | owning =>
    if s.ownsEligible call.task ∧ call.task.resourceId.isSome then some (reading, s)
    else some (returned (some false), s)
  | reading =>
    match s.findResource call.task with
    | none => some (returned (some false), s)
    | some resource =>
      if resource.deleted ∨ resource.enableCoredumpMonitor = false then
        some (returned (some false), s)
      else if call.mountTarget.isSome ∧ resource.coredumpLeaseTarget.isNone then some (fixing, s)
      else some (compareTarget call.mountTarget resource.coredumpLeaseTarget, s)
  | fixing =>
    match call.mountTarget with
    | none => none
    | some target => some (rereading, (s.send i call (.fixTarget target)).2)
  | rereading =>
    -- a document that is not found leaves the earlier reading, which had no source
    match s.findResource call.task with
    | none => some (admitted, s)
    | some resource => some (compareTarget call.mountTarget resource.coredumpLeaseTarget, s)
  | admitted => some (granting s.now, s)
  | granting timestamp =>
    match s.send i call (.grant timestamp) with
    | (true, t) => some (returned (some true), t)
    | (false, t) => some (returned none, t)
  | returned _ => none

/-- `guard_coredump_cleanup`, from one await to the next. -/
def CleanupStage.next (active : Bool) (i : CallId) (call : GuardCall) (s : CoredumpState) :
    CleanupStage → Option (CleanupStage × CoredumpState)
  | called =>
    if call.task.supportsResourceMonitoring ∧ active then some (owning, s)
    else some (returned false, s)
  | owning =>
    if s.ownsTask call.task ∧ call.task.resourceId.isSome then some (reading, s)
    else some (returned false, s)
  | reading =>
    match s.findResource call.task with
    | none => some (returned false, s)
    | some resource =>
      some (timing (!resource.deleted && resource.enableCoredumpMonitor), s)
  | timing available => some (succeeding available s.now, s)
  | succeeding available timestamp =>
    if available ∧ s.hasSuccessor call.task then some (handingOver timestamp, s)
    else some (extending timestamp, s)
  | handingOver timestamp =>
    some (returned false, (s.send i call (.handOver timestamp)).2)
  | extending timestamp =>
    let sent := s.send i call (.extend timestamp)
    some (extended sent.1, sent.2)
  | extended lease => some (returned (lease && active), s)
  | returned _ => none

/-- `release_coredump_lease`, from one await to the next. -/
def ReleaseStage.next (i : CallId) (call : GuardCall) (s : CoredumpState) :
    ReleaseStage → Option (ReleaseStage × CoredumpState)
  | called => some (releasing s.now, s)
  | releasing timestamp => some (returned, (s.send i call (.release timestamp)).2)
  | returned => none

def CallStage.next (active : Bool) (i : CallId) (call : GuardCall) (s : CoredumpState) :
    CallStage → Option (CallStage × CoredumpState)
  | monitor stage => (stage.next active i call s).map fun r => (monitor r.1, r.2)
  | cleanup stage => (stage.next active i call s).map fun r => (cleanup r.1, r.2)
  | release stage => (stage.next i call s).map fun r => (release r.1, r.2)

/-- A call as it begins. -/
def CallStage.begins : CallStage → Bool
  | monitor stage => stage = .called
  | cleanup stage => stage = .called
  | release stage => stage = .called

inductive CoredumpAct
  | invoke (i : CallId) (call : GuardCall)
  | advance (i : CallId) (active : Bool)
  | editResource (deleted enableCoredumpMonitor : Bool)
  | changeTasks (tasks : List TaskDocument)
  | tick (millis : Nat)

/-- A call that is never advanced again has died or been cancelled; one whose update is
still under way may yet be. -/
def CoredumpAct.apply (act : CoredumpAct) (s : CoredumpState) : Option CoredumpState :=
  match act with
  | .invoke i call => do
    guard (s.calls i = none ∧ call.stage.begins)
    pure { s with calls := Function.update s.calls i (some call) }
  | .advance i active => do
    let call ← s.calls i
    let (stage, t) ← call.stage.next active i call s
    pure { t with calls := Function.update t.calls i (some { call with stage }) }
  | .editResource deleted enableCoredumpMonitor =>
    some { s with resource := { s.resource with deleted, enableCoredumpMonitor } }
  | .changeTasks tasks => some { s with tasks }
  | .tick millis => some { s with now := s.now + millis }

def CoredumpStep (s t : CoredumpState) : Prop := ∃ act : CoredumpAct, act.apply s = some t

/-- No call has been made; the device may have a lease and a source from earlier times. -/
structure CoredumpStart (s : CoredumpState) : Prop where
  calls : s.calls = fun _ => none
  writes : s.writes = []

abbrev ReachableCoredump : CoredumpState → Prop := Reachable CoredumpStart CoredumpStep

end CameraLogs.Collection

import CameraLogs.Lib.Census
import CameraLogs.Lib.Snapshot
import CameraLogs.Tasks.Assignment
import CameraLogs.Tasks.Ownership

/-!
# Scheduling cycles

Any number of processes run `scheduler_loop`. Whoever finds the lease free, or has it,
takes it under the next fence and runs one cycle: it counts what each node has, a task at a
time while everything else goes on, reads the capacity of the cluster, and claims tasks one
after another, each under what it has counted so far.

A claim is a transaction that also writes the document of the lease and the configuration of
its node. It begins with a snapshot of both and commits only where neither has been written
since; the driver may begin it again. A cycle that is cut off, by its time limit, by a claim
whose outcome it does not learn or with its process, leaves its transaction behind, and that
may still commit.

No two cycles have a fence in common, so they are numbered by it.
-/

namespace CameraLogs.Tasks

open Lib

abbrev Fence := Nat
abbrev SchedulerId := Nat

/-- The document of the lease. -/
structure Leader where
  owner : Option SchedulerId
  expires : Nat
  fence : Fence
  deriving DecidableEq

/-- What an administrator has saved of a node. -/
structure NodeConfig where
  capacity : Option Nat
  accepting : Bool
  deriving DecidableEq

def defaultNodeCapacity : Nat := 100

/-- How long a lease is good for. -/
def leaseSeconds : Nat := 10

/-- What a cycle goes by: the nodes of the tasks it has counted, and the capacity of the
cluster. -/
structure Plan where
  counted : List NodeId
  clusterCapacity : Nat
  deriving DecidableEq

/-- `occupancy` of a node. -/
def Plan.occupancy (plan : Plan) (nodeId : NodeId) : Nat := plan.counted.count nodeId

/-- The sum of `occupancy`. -/
def Plan.active (plan : Plan) : Nat := plan.counted.length

/-- One more task on a node. -/
def Plan.assign (plan : Plan) (nodeId : NodeId) : Plan :=
  { plan with counted := nodeId :: plan.counted }

/-- The arguments of `claim_task`, the task as the cycle has read it. -/
structure ClaimCall where
  taskId : TaskId
  status : Status
  runId : Option RunId
  newRun : RunId
  nodeId : NodeId
  occupied : Nat
  deriving DecidableEq

/-- What the transaction of a claim has read, of what others write. -/
structure ClaimTransaction where
  leader : Versioned Leader
  config : Option (Versioned NodeConfig)
  /-- What the node says of itself. -/
  nodeCapacity : Option Nat

/-- The capacity of the node: as saved, as reported, or as it is by default. -/
def ClaimTransaction.capacity (transaction : ClaimTransaction) : Nat :=
  (transaction.config.bind (·.value.capacity)).getD
    (transaction.nodeCapacity.getD defaultNodeCapacity)

/-- A node without a configuration accepts. -/
def ClaimTransaction.accepting (transaction : ClaimTransaction) : Bool :=
  (transaction.config.map (·.value.accepting)).getD true

inductive Phase
  | finished
  | leading
  | counting (pending : List TaskId) (counted : List NodeId)
  | planning (plan : Plan)
  /-- Inside `claim_task`, and no transaction is open. -/
  | claiming (plan : Plan) (call : ClaimCall)
  | opened (plan : Plan) (call : ClaimCall) (transaction : ClaimTransaction)
  /-- The answer is on its way. -/
  | committed (plan : Plan) (call : ClaimCall) (claimed : Bool)
  /-- Nobody waits for the transaction any more. -/
  | orphaned (plan : Plan) (call : ClaimCall) (transaction : ClaimTransaction)

structure Cycle where
  owner : SchedulerId
  phase : Phase

structure Scheduling where
  tasks : Database
  /-- The tasks there are. -/
  ids : List TaskId
  leader : Versioned Leader
  configs : NodeId → Option (Versioned NodeConfig)
  /-- What an administrator has saved for the cluster. -/
  clusterCapacity : Option Nat
  cycles : Fence → Cycle

/-- The lease is the cycle's and has not run out. -/
def Leader.holds (leader : Leader) (owner : SchedulerId) (fence : Fence) (time : Nat) : Prop :=
  leader.owner = some owner ∧ leader.fence = fence ∧ time < leader.expires

instance (leader : Leader) (owner : SchedulerId) (fence : Fence) (time : Nat) :
    Decidable (leader.holds owner fence time) :=
  inferInstanceAs (Decidable (_ ∧ _))

/-- The capacity of the cluster: what is saved, unless it is nothing or zero. -/
def clusterLimit (saved : Option Nat) (settings : Nat) : Nat :=
  match saved with
  | none | some 0 => settings
  | some capacity => capacity

def Scheduling.phase (state : Scheduling) (fence : Fence) : Phase := (state.cycles fence).phase

def Scheduling.withPhase (state : Scheduling) (fence : Fence) (phase : Phase) : Scheduling :=
  { state with
    cycles := Function.update state.cycles fence { state.cycles fence with phase } }

@[simp] theorem Scheduling.withPhase_phase (state : Scheduling) (fence : Fence) (phase : Phase) :
    (state.withPhase fence phase).phase fence = phase := by
  simp [Scheduling.withPhase, Scheduling.phase]

theorem Scheduling.withPhase_phase_ne (state : Scheduling) {fence other : Fence} (phase : Phase)
    (h : other ≠ fence) : (state.withPhase fence phase).phase other = state.phase other := by
  simp [Scheduling.withPhase, Scheduling.phase, Function.update_of_ne h]

def Scheduling.withTask (state : Scheduling) (taskId : TaskId) (records : Records) : Scheduling :=
  { state with tasks := Function.update state.tasks taskId records }

/-- The documents the transaction writes are as it has read them. -/
def ClaimTransaction.current (transaction : ClaimTransaction) (state : Scheduling)
    (nodeId : NodeId) : Prop :=
  transaction.leader.version = state.leader.version ∧
    match transaction.config with
    | none => True
    | some seen => (state.configs nodeId).map Versioned.version = some seen.version

instance (transaction : ClaimTransaction) (state : Scheduling) (nodeId : NodeId) :
    Decidable (transaction.current state nodeId) := by
  unfold ClaimTransaction.current
  cases transaction.config <;> exact inferInstance

/-- The writes of a claim that touch neither the task nor the cycle. -/
def Scheduling.bump (state : Scheduling) (nodeId : NodeId) : Scheduling :=
  { state with
    leader := state.leader.write state.leader.value
    configs := Function.update state.configs nodeId
      ((state.configs nodeId).map fun config => config.write config.value) }

/-- The transaction commits: the task, its lock and its run are bound, and whoever waits for
the answer learns whether the task is claimed. -/
def Scheduling.commit (state : Scheduling) (fence : Fence) (plan : Plan) (call : ClaimCall)
    (transaction : ClaimTransaction) (resources : Resources) (awaited : Bool) :
    Option Scheduling :=
  if transaction.current state call.nodeId then
    ((Act.claim call.status call.runId call.newRun call.nodeId true resources).apply
      (state.tasks call.taskId)).map fun records =>
        ((state.bump call.nodeId).withTask call.taskId records).withPhase fence
          (if awaited = true then .committed plan call records.task.nodeId.isSome else .finished)
  else none

inductive SchedulingEvent
  -- `scheduler_loop`
  | acquire (owner : SchedulerId) (time : Nat)
  -- `schedule_once`: the tasks are found in any order
  | scan (fence : Fence) (pending : List TaskId)
  | count (fence : Fence)
  | readCapacity (fence : Fence) (settings : Nat)
  -- `claim_task`
  | call (fence : Fence) (taskId : TaskId) (status : Status) (runId : Option RunId)
      (newRun : RunId) (nodeId : NodeId)
  | begin (fence : Fence) (time : Nat) (nodeCapacity : Option Nat)
  | reject (fence : Fence)
  | commit (fence : Fence) (resources : Resources)
  | confirm (fence : Fence)
  | abort (fence : Fence)
  /-- The cycle is cut off. -/
  | lose (fence : Fence)
  -- everything else
  | act (taskId : TaskId) (act : Act)
  | create (taskId : TaskId) (task : Task) (operations : List Operation)
  | configure (nodeId : NodeId) (config : NodeConfig)
  | setClusterCapacity (capacity : Option Nat)

/-- The documents of a task that is created. -/
def createdRecords (task : Task) (operations : List Operation) : Records :=
  ⟨task, none, fun _ => none, operations, [], [], []⟩

def SchedulingEvent.apply (event : SchedulingEvent) (state : Scheduling) : Option Scheduling :=
  match event with
  | .acquire owner time =>
    let leader := state.leader.value
    if leader.owner = some owner ∨ leader.expires < time then
      some { state with
        leader := state.leader.write ⟨some owner, time + leaseSeconds, leader.fence + 1⟩
        cycles := Function.update state.cycles (leader.fence + 1) ⟨owner, .leading⟩ }
    else none
  | .scan fence pending =>
    match state.phase fence with
    | .leading =>
      if ∀ taskId ∈ state.ids, taskId ∈ pending then
        some (state.withPhase fence (.counting pending []))
      else none
    | _ => none
  | .count fence =>
    match state.phase fence with
    | .counting (taskId :: pending) counted =>
      some (state.withPhase fence
        (.counting pending ((state.tasks taskId).task.nodeId.toList ++ counted)))
    | _ => none
  | .readCapacity fence settings =>
    match state.phase fence with
    | .counting [] counted =>
      let capacity := clusterLimit state.clusterCapacity settings
      some (state.withPhase fence
        (if counted.length ≥ capacity then .finished else .planning ⟨counted, capacity⟩))
    | _ => none
  | .call fence taskId status runId newRun nodeId =>
    match state.phase fence with
    | .planning plan =>
      if taskId ∈ state.ids then
        some (state.withPhase fence
          (.claiming plan ⟨taskId, status, runId, newRun, nodeId, plan.occupancy nodeId⟩))
      else none
    | _ => none
  | .begin fence time nodeCapacity =>
    match state.phase fence with
    | .claiming plan claimCall =>
      if state.leader.value.holds (state.cycles fence).owner fence time then
        let transaction : ClaimTransaction :=
          ⟨state.leader, state.configs claimCall.nodeId, nodeCapacity⟩
        if transaction.accepting = false ∨ claimCall.occupied ≥ transaction.capacity then
          some (state.withPhase fence (.planning plan))
        else some (state.withPhase fence (.opened plan claimCall transaction))
      -- the lease is lost, and with it the cycle
      else some (state.withPhase fence .finished)
    | _ => none
  | .reject fence =>
    match state.phase fence with
    | .opened plan _ _ => some (state.withPhase fence (.planning plan))
    | _ => none
  | .commit fence resources =>
    match state.phase fence with
    | .opened plan claimCall transaction =>
      state.commit fence plan claimCall transaction resources true
    | .orphaned plan claimCall transaction =>
      state.commit fence plan claimCall transaction resources false
    | _ => none
  | .confirm fence =>
    match state.phase fence with
    | .committed plan claimCall claimed =>
      let counted := if claimed = true then plan.assign claimCall.nodeId else plan
      some (state.withPhase fence
        (if counted.active ≥ counted.clusterCapacity then .finished else .planning counted))
    | _ => none
  | .abort fence =>
    match state.phase fence with
    | .opened plan claimCall _ => some (state.withPhase fence (.claiming plan claimCall))
    | _ => none
  | .lose fence =>
    match state.phase fence with
    | .opened plan claimCall transaction =>
      some (state.withPhase fence (.orphaned plan claimCall transaction))
    | _ => some (state.withPhase fence .finished)
  | .act taskId taskAct =>
    if taskAct.isClaim = false ∧ taskId ∈ state.ids then
      (taskAct.apply (state.tasks taskId)).map fun records => state.withTask taskId records
    else none
  | .create taskId task operations =>
    if taskId ∉ state.ids ∧ task.nodeId = none then
      some { state.withTask taskId (createdRecords task operations) with
        ids := taskId :: state.ids }
    else none
  | .configure nodeId config =>
    let configured := match state.configs nodeId with
      | none => ⟨config, 0⟩
      | some saved => saved.write config
    some { state with configs := Function.update state.configs nodeId (some configured) }
  | .setClusterCapacity capacity => some { state with clusterCapacity := capacity }

/-- Any documents, before anybody schedules. -/
def SchedulingInitial (state : Scheduling) : Prop :=
  state.ids.Nodup ∧ ∀ fence, state.phase fence = .finished

def SchedulingStep (state state' : Scheduling) : Prop :=
  ∃ event : SchedulingEvent, event.apply state = some state'

/-! ## What is assigned -/

def Records.AssignedTo (nodeId : NodeId) (records : Records) : Prop :=
  records.task.nodeId = some nodeId

instance (nodeId : NodeId) : DecidablePred (Records.AssignedTo nodeId) :=
  fun _ => inferInstanceAs (Decidable (_ = _))

def Records.Assigned (records : Records) : Prop := records.task.nodeId ≠ none

instance : DecidablePred Records.Assigned := fun _ => inferInstanceAs (Decidable (_ ≠ _))

/-- The tasks of a node. -/
def Scheduling.assignedTo (state : Scheduling) (nodeId : NodeId) : Nat :=
  census state.ids state.tasks (Records.AssignedTo nodeId)

/-- The tasks of all nodes. -/
def Scheduling.assigned (state : Scheduling) : Nat := census state.ids state.tasks Records.Assigned

end CameraLogs.Tasks

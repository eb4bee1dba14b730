import CameraLogs.Tasks.System

/-!
# Workers and their connections

What the documents of a task say is one thing, what is connected to its device another.
Here are the processes that connect: the workers, one for each node at a time, with the
runtime each has of the task, and the connections that may be open, as the device would
count them.

A worker decides in `tick` what is to be done about its runtime: `superviseRuntime` and
`superviseTask` are the two times it goes through them. To finish a runtime is to stop it
first, and only a stop that has returned lets the writes follow that give the run up. A
runtime opens a connection for each of its collectors, one after another, and never before
it has written that it is connecting.

An `Event` is one write, one transaction, or one thing that happens inside a process. An
administrator who confirms an isolation is not among them.
-/

namespace CameraLogs.Tasks

abbrev ProcessId := Nat

/-- What is done with a runtime that is to end: the actions of `finish_runtime`, and the
closing that a lost database or a failover asks for. -/
inductive Finish
  | isolate
  | pause
  | release
  | recover
  | fence
  deriving DecidableEq

/-- A `SessionRuntime`, as far as its connections go. -/
structure Runtime where
  owner : Owner
  /-- The session of its collector. -/
  session : Option SessionId
  /-- The collector has announced its connection. -/
  started : Bool
  retired : Bool
  /-- What is being done with it. -/
  finishing : Option Finish
  /-- What has failed to be done with it. -/
  failed : Option Finish
  /-- Its `stop` has returned. -/
  stopped : Bool
  deriving DecidableEq

/-- The process of a node, with what it has of the task. -/
structure Worker where
  process : ProcessId
  active : Option Runtime
  selfFenced : Option Runtime
  /-- It is on its way down. -/
  closing : Bool
  deriving DecidableEq

/-- The runtime it has, or the one it remembers for its receipt. -/
def Worker.runtime (worker : Worker) (fenced : Bool) : Option Runtime :=
  if fenced = true then worker.selfFenced else worker.active

/-- A connection that may be open. -/
structure Connection where
  process : ProcessId
  owner : Owner
  session : SessionId
  deriving DecidableEq

/-! ## What a worker decides -/

/-- The owner that a snapshot of the task names. -/
def Task.owner? (task : Task) : Option Owner := do
  let runId ← task.runId
  let nodeId ← task.nodeId
  some ⟨runId, nodeId, task.generation⟩

/-- The first time through, over the runtimes: `current` is the task if the node still has
it, `isolated` what the node's own document says. -/
def superviseRuntime (runtime : Runtime) (current : Option Task) (isolated : Bool) :
    Option Finish :=
  match current with
  | none => some .isolate
  | some task =>
    if runtime.failed.isSome = true ∧ ownerFilter runtime.owner task ∧ task.status = .blocked ∧
        isolated = false then
      runtime.failed
    else if task.status = .blocked ∧ ownerFilter runtime.owner task ∧
        (task.restartRequested = true ∨ task.desiredState = .stopped) ∧ isolated = false then
      -- a runtime still in hand is closed here, and that is proof enough
      some (if task.restartRequested = true then .recover else .release)
    else if ¬ownerFilter runtime.owner task ∨ task.status = .blocked ∨ isolated = true then
      some .isolate
    else none

/-- What is done about a task of the node. -/
inductive Decision
  | leave
  | finish (action : Finish)
  | finalize
  | pausePending
  | stopPending
  | start
  | lost
  deriving DecidableEq

/-- The second time through, over the tasks: `ended` where the runtime has ended by itself,
`room` where the node takes tasks and has room for one more. -/
def superviseTask (runtime : Option Runtime) (task : Task) (diskFull ended room : Bool) :
    Decision :=
  match runtime with
  | some _ =>
    if task.status = .blocked then .leave
    else if task.desiredState = .paused then .finish .pause
    else if task.desiredState = .stopped ∨ diskFull = true ∨ ended = true then .finish .release
    else .leave
  | none =>
    if task.status = .blocked then .finalize
    else if task.desiredState = .paused ∧ task.status = .pending then .pausePending
    else if task.desiredState = .stopped ∧ task.status = .pending then .stopPending
    else if task.status = .pending ∧ task.desiredState = .running then
      if room = true then .start else .leave
    else if task.status ≠ .stopped then .lost
    else .leave

/-- `shutdown_runtime`: what a worker on its way down does with a runtime. -/
def shutdownAction (runtime : Runtime) (current : Option Task) (allowRelease : Bool) : Finish :=
  match current with
  | none => .isolate
  | some task =>
    if allowRelease = false ∨ task.status = .blocked ∨ runtime.retired = true then .isolate
    else if task.desiredState = .paused then .pause
    else .release

/-- A runtime as `tick` makes it of a task. -/
def Runtime.start (owner : Owner) : Runtime where
  owner := owner
  session := none
  started := false
  retired := false
  finishing := none
  failed := none
  stopped := false

/-- The next collector of a runtime, with a session of its own. -/
def Runtime.collect (runtime : Runtime) (session : SessionId) : Runtime :=
  { runtime with session := some session, started := false }

/-- A runtime that is isolated or fenced must not connect again. -/
def Runtime.begin (runtime : Runtime) (action : Finish) : Runtime :=
  { runtime with
    finishing := some action
    retired := runtime.retired || decide (action = .isolate ∨ action = .fence) }

/-- The action has come to an end without the runtime being done with; `blocked` where the
task could still be marked. -/
def Runtime.fail (runtime : Runtime) (action : Finish) (blocked : Bool) : Runtime :=
  { runtime with
    finishing := none
    failed := if action ≠ .isolate ∧ action ≠ .fence ∧ blocked = true then some action
      else runtime.failed }

/-- The writes that each action makes under the owner of the runtime, once it is stopped: a
pause that finds the task wanted otherwise goes on as a release. -/
def Runtime.permits (runtime : Runtime) (write : OwnerWrite) : Prop :=
  runtime.stopped = true ∧
    match write with
    | .closedReceipt session fenced => runtime.session = some session ∧
        runtime.finishing ≠ none ∧ fenced = decide (runtime.finishing = some .fence)
    | .pause => runtime.finishing = some .pause
    | .closing _ | .detach _ | .restart _ =>
      runtime.finishing = some .pause ∨ runtime.finishing = some .release
    | .fence => runtime.finishing = some .fence
    | _ => False

instance (runtime : Runtime) (write : OwnerWrite) : Decidable (runtime.permits write) := by
  unfold Runtime.permits
  cases write <;> exact inferInstance

/-! ## The cluster -/

/-- The documents of a task, the process of each node, and the connections. -/
structure Cluster where
  records : Records
  workers : NodeId → Option Worker
  connections : List Connection
  /-- What deployments have frozen, each with the process its node had then. -/
  prepared : List (DeploymentMarker × Option ProcessId)
  /-- The processes there have been, and the one that has made each session. -/
  processes : List ProcessId
  constructed : SessionId → Option ProcessId

def Cluster.withRecords (cluster : Cluster) (records : Records) : Cluster :=
  { cluster with records }

def Cluster.withWorker (cluster : Cluster) (nodeId : NodeId) (worker : Option Worker) : Cluster :=
  { cluster with workers := Function.update cluster.workers nodeId worker }

/-- A worker that is found afterwards is the new one of this node, or that of another node. -/
theorem Cluster.withWorker_workers {cluster : Cluster} {nodeId other : NodeId}
    {worker : Option Worker} {found : Worker}
    (h : (cluster.withWorker nodeId worker).workers other = some found) :
    (other = nodeId ∧ worker = some found) ∨
      (other ≠ nodeId ∧ cluster.workers other = some found) := by
  simp only [Cluster.withWorker] at h
  by_cases hsame : other = nodeId
  · rw [hsame, Function.update_self] at h
    exact .inl ⟨hsame, h⟩
  · rw [Function.update_of_ne hsame] at h
    exact .inr ⟨hsame, h⟩

/-- The worker of a node has this runtime now. -/
def Cluster.withRuntime (cluster : Cluster) (nodeId : NodeId) (worker : Worker)
    (runtime : Runtime) : Cluster :=
  cluster.withWorker nodeId (some { worker with active := some runtime })

/-- The connection of a session is closed. -/
def Cluster.close (cluster : Cluster) (process : ProcessId) (session : Option SessionId) :
    Cluster :=
  { cluster with
    connections := cluster.connections.filter fun connection =>
      !(decide (connection.process = process) && decide (session = some connection.session)) }

/-- The acts whose own filters are all they go by: everything but the writes of a worker that
has stopped a runtime, the reports of a collector, deployments and isolations. -/
def Act.unaided : Act → Bool
  | .write update _ =>
    match update with
    | .pausing | .block | .pausePending | .stopPending | .restartPending => true
    | _ => false
  | .isolateTask .. | .isolateNode .. | .complete .. => false
  | _ => true

inductive Event
  -- the documents
  | act (act : Act)
  | prepare (marker : DeploymentMarker)
  | complete (marker : DeploymentMarker)
  -- the processes
  | boot (nodeId : NodeId) (process : ProcessId)
  | exit (nodeId : NodeId)
  | shutdown (nodeId : NodeId)
  -- supervision
  | superviseRuntime (nodeId : NodeId) (current : Option Task) (isolated : Bool)
  | superviseTask (nodeId : NodeId) (task : Task) (diskFull ended room : Bool)
  | shutdownRuntime (nodeId : NodeId) (current : Option Task) (allowRelease : Bool)
  | closeForFailover (nodeId : NodeId) (owner : Owner)
  | selfFence (nodeId : NodeId)
  -- a runtime
  | collect (nodeId : NodeId) (session : SessionId)
  | connect (nodeId : NodeId)
  | report (nodeId : NodeId) (state : RuntimeState)
  | disconnect (nodeId : NodeId)
  | stop (nodeId : NodeId)
  | fail (nodeId : NodeId) (blocked : Bool)
  | write (nodeId : NodeId) (fenced : Bool) (write : OwnerWrite)
  | discard (nodeId : NodeId)

/-- The process of a node still runs. -/
def Cluster.runs (cluster : Cluster) (nodeId : NodeId) (process : ProcessId) : Prop :=
  (cluster.workers nodeId).map Worker.process = some process

instance (cluster : Cluster) (nodeId : NodeId) (process : ProcessId) :
    Decidable (cluster.runs nodeId process) :=
  inferInstanceAs (Decidable (_ = _))

/-- A deployment has frozen this marker, and the process its node had then has stopped. -/
def Cluster.stoppedSince (cluster : Cluster) (marker : DeploymentMarker) : Prop :=
  ∃ frozen ∈ cluster.prepared, frozen.1 = marker ∧
    ∀ process ∈ frozen.2, ¬cluster.runs marker.nodeId process

instance (cluster : Cluster) (marker : DeploymentMarker) :
    Decidable (cluster.stoppedSince marker) :=
  inferInstanceAs (Decidable (∃ frozen ∈ cluster.prepared, _))

/-- A runtime begins to be finished. -/
def Cluster.begin (cluster : Cluster) (nodeId : NodeId) (worker : Worker) (runtime : Runtime)
    (action : Finish) : Option Cluster := do
  guard (runtime.finishing = none)
  some (cluster.withRuntime nodeId worker (runtime.begin action))

def Event.apply (event : Event) (cluster : Cluster) : Option Cluster :=
  match event with
  | .act taskAct => do
    guard (taskAct.unaided = true)
    let records ← taskAct.apply cluster.records
    some (cluster.withRecords records)
  | .prepare marker => do
    let records ← (OwnerWrite.prepare marker).apply ⟨marker.runId, marker.nodeId,
      marker.generation⟩ cluster.records
    some { cluster.withRecords records with
      prepared := (marker, (cluster.workers marker.nodeId).map Worker.process) ::
        cluster.prepared }
  | .complete marker => do
    guard (cluster.stoppedSince marker)
    let records ← completeRun cluster.records marker
    some (cluster.withRecords records)
  -- a node is one instance: the next process comes after the last has ended
  | .boot nodeId process => do
    guard (cluster.workers nodeId = none ∧ process ∉ cluster.processes)
    some { cluster.withWorker nodeId (some ⟨process, none, none, false⟩) with
      processes := process :: cluster.processes }
  | .exit nodeId => do
    let worker ← cluster.workers nodeId
    some { cluster.withWorker nodeId none with
      connections := cluster.connections.filter (·.process ≠ worker.process) }
  | .shutdown nodeId => do
    let worker ← cluster.workers nodeId
    some (cluster.withWorker nodeId (some { worker with closing := true }))
  | .superviseRuntime nodeId current isolated => do
    let worker ← cluster.workers nodeId
    let runtime ← worker.active
    guard (worker.closing = false)
    let action ← Tasks.superviseRuntime runtime current isolated
    cluster.begin nodeId worker runtime action
  | .superviseTask nodeId task diskFull ended room => do
    let worker ← cluster.workers nodeId
    guard (worker.closing = false ∧ task.nodeId = some nodeId)
    match Tasks.superviseTask worker.active task diskFull ended room, worker.active with
    | .finish action, some runtime => cluster.begin nodeId worker runtime action
    | .start, none => do
      let owner ← task.owner?
      some (cluster.withRuntime nodeId worker (.start owner))
    | _, _ => none
  | .shutdownRuntime nodeId current allowRelease => do
    let worker ← cluster.workers nodeId
    let runtime ← worker.active
    guard (worker.closing = true)
    cluster.begin nodeId worker runtime (shutdownAction runtime current allowRelease)
  | .closeForFailover nodeId owner => do
    let worker ← cluster.workers nodeId
    let runtime ← worker.active
    guard (runtime.owner = owner)
    cluster.begin nodeId worker runtime .fence
  | .selfFence nodeId => do
    let worker ← cluster.workers nodeId
    let runtime ← worker.active
    cluster.begin nodeId worker runtime .fence
  -- the loop of a runtime goes on only after its last collector is closed
  | .collect nodeId session => do
    let worker ← cluster.workers nodeId
    let runtime ← worker.active
    guard (runtime.stopped = false ∧ cluster.constructed session = none ∧
      ∀ connection ∈ cluster.connections, connection.process ≠ worker.process)
    some { cluster.withRuntime nodeId worker (runtime.collect session) with
      constructed := Function.update cluster.constructed session (some worker.process) }
  | .connect nodeId => do
    let worker ← cluster.workers nodeId
    let runtime ← worker.active
    let session ← runtime.session
    guard (runtime.started = false ∧ runtime.stopped = false ∧ runtime.retired = false)
    let records ← (OwnerWrite.runtimeState .connecting (some session)).apply runtime.owner
      cluster.records
    some { (cluster.withRuntime nodeId worker { runtime with started := true }).withRecords
        records with
      connections := ⟨worker.process, runtime.owner, session⟩ :: cluster.connections }
  | .report nodeId state => do
    let worker ← cluster.workers nodeId
    let runtime ← worker.active
    let session ← runtime.session
    guard (state ≠ .connecting ∧ runtime.stopped = false ∧ runtime.retired = false)
    let records ← (OwnerWrite.runtimeState state (some session)).apply runtime.owner
      cluster.records
    some (cluster.withRecords records)
  | .disconnect nodeId => do
    let worker ← cluster.workers nodeId
    let runtime ← worker.active
    some (cluster.close worker.process runtime.session)
  | .stop nodeId => do
    let worker ← cluster.workers nodeId
    let runtime ← worker.active
    let action ← runtime.finishing
    let stopped : Runtime := { runtime with stopped := true }
    let closed := cluster.close worker.process runtime.session
    some (if action = .fence then
      -- from now on the runtime is only remembered for its receipt
      closed.withWorker nodeId (some { worker with active := none, selfFenced := some stopped })
    else closed.withRuntime nodeId worker stopped)
  | .fail nodeId blocked => do
    let worker ← cluster.workers nodeId
    let runtime ← worker.active
    let action ← runtime.finishing
    some (cluster.withRuntime nodeId worker (runtime.fail action blocked))
  | .write nodeId fenced update => do
    let worker ← cluster.workers nodeId
    let runtime ← worker.runtime fenced
    guard (runtime.permits update)
    let records ← update.apply runtime.owner cluster.records
    some (cluster.withRecords records)
  | .discard nodeId => do
    let worker ← cluster.workers nodeId
    let runtime ← worker.active
    guard (runtime.stopped = true ∧ runtime.finishing ≠ none)
    some (cluster.withWorker nodeId (some { worker with active := none }))

/-- A new task, no connection, and no process yet. -/
structure ClusterInitial (cluster : Cluster) : Prop where
  records : Initial cluster.records
  sessionId : cluster.records.task.sessionId = none
  closedReceipt : cluster.records.task.closedReceipt = none
  workers : ∀ nodeId, cluster.workers nodeId = none
  connections : cluster.connections = []
  prepared : cluster.prepared = []
  constructed : ∀ session, cluster.constructed session = none

def ClusterStep (cluster cluster' : Cluster) : Prop :=
  ∃ event : Event, event.apply cluster = some cluster'

end CameraLogs.Tasks

import CameraLogs.Lib.Snapshot
import CameraLogs.Tasks.Records

/-!
# Reserving a scheduled command

Before a scheduled command's bytes go to the device, one execution of its budget is taken in
a transaction: the task is claimed under its owner and session, the counter of the run and
the command goes up if it is below the total, and a record of the execution is inserted. The
driver may run the transaction again; when it gives up, the commit may or may not take
effect later, and then nothing is sent.

The dispatcher asks for the reservation when a queued command is about to be written, and
writes only after it has been confirmed.

A transaction sees the documents as they were when it began, and its commit takes effect
only if the task and the budget have not been written since.
-/

namespace CameraLogs.Commands

open CameraLogs.Lib
open CameraLogs.Tasks (RunId NodeId SessionId Status DesiredState)

abbrev TaskId := Nat
abbrev CommandId := Nat
abbrev ExecutionId := Nat
abbrev ItemId := Nat

structure ScheduledCommand where
  id : CommandId
  command : String
  totalExecutions : Nat
  deriving DecidableEq

/-- What a reservation reads of the task's document. -/
structure CommandTask where
  id : TaskId
  runId : Option RunId
  nodeId : Option NodeId
  generation : Nat
  sessionId : Option SessionId
  status : Status
  desiredState : DesiredState
  resourceDeleted : Bool
  scheduledCommands : List ScheduledCommand
  commandClaimVersion : Nat
  deriving DecidableEq

/-- The copy of the task that a worker runs it by. -/
structure OwnedTask where
  id : TaskId
  runId : RunId
  nodeId : Option NodeId
  generation : Nat
  scheduledCommands : List ScheduledCommand
  deriving DecidableEq

/-- A record of the collection `commands`, of the kind `SCHEDULED`. -/
structure Execution where
  id : ExecutionId
  taskId : TaskId
  runId : RunId
  sessionId : SessionId
  commandId : CommandId
  command : String
  totalExecutions : Nat
  attempt : Nat
  deriving DecidableEq

/-- The `_id` of a budget: its run and its command. -/
abbrev BudgetKey := RunId × CommandId

def Execution.key (execution : Execution) : BudgetKey := (execution.runId, execution.commandId)

structure BudgetDb where
  task : Versioned CommandTask
  /-- The counter `attempts`; `none` before the document is there. -/
  budgets : BudgetKey → Versioned (Option Nat)
  executions : List Execution

def BudgetDb.attempts (db : BudgetDb) (key : BudgetKey) : Nat := (db.budgets key).value.getD 0

/-- `_scheduled_command` -/
def scheduledCommand (commands : List ScheduledCommand) (commandId : CommandId) :
    Option ScheduledCommand :=
  commands.find? fun command => command.id = commandId

def ownerFilter (task : OwnedTask) (current : CommandTask) : Bool :=
  current.id = task.id ∧ current.runId = some task.runId ∧ current.nodeId = task.nodeId ∧
  current.generation = task.generation

/-- One call of `reserve_scheduled`: its arguments and the `execution_id` it has fixed. -/
structure ReserveCall where
  executionId : ExecutionId
  task : OwnedTask
  commandId : CommandId
  sessionId : SessionId
  deriving DecidableEq

inductive CallbackResult
  /-- The task is not this worker's any more, or not collecting: nothing is written. -/
  | absent
  /-- `_ReservationRejected`: the transaction is rolled back. -/
  | rejected (reason : String)
  | reserved (execution : Execution)
  deriving DecidableEq

/-- The callback `commit` of `reserve_scheduled`, on the documents the transaction sees. -/
def reserveCallback (db : BudgetDb) (call : ReserveCall) : CallbackResult :=
  let current := db.task.value
  if ownerFilter call.task current = false ∨ current.sessionId ≠ some call.sessionId ∨
      current.status ≠ .collecting ∨ current.desiredState ≠ .running ∨
      current.resourceDeleted = true then
    .absent
  else
    match scheduledCommand current.scheduledCommands call.commandId with
    | none => .rejected "定时命令配置在预留期间被删除"
    | some command =>
      let attempts := db.attempts (call.task.runId, call.commandId)
      if attempts < command.totalExecutions then
        .reserved {
          id := call.executionId, taskId := current.id, runId := call.task.runId,
          sessionId := call.sessionId, commandId := call.commandId, command := command.command,
          totalExecutions := command.totalExecutions, attempt := attempts + 1 }
      else .rejected "定时命令预算已耗尽"

/-- What a commit writes: the claim on the task, the counter and the record. -/
def BudgetDb.insert (db : BudgetDb) (execution : Execution) : BudgetDb :=
  { task := db.task.write { db.task.value with
      commandClaimVersion := db.task.value.commandClaimVersion + 1 }
    budgets := Function.update db.budgets execution.key
      ((db.budgets execution.key).write (some execution.attempt))
    executions := db.executions ++ [execution] }

/-! ## The transaction and its driver -/

inductive TxStatus
  | active
  /-- The commit has been sent; the server has not decided. -/
  | requested
  | committed
  | aborted
  deriving DecidableEq

structure ReservationTx where
  snapshot : BudgetDb
  status : TxStatus

inductive ReservationPhase
  /-- Before an attempt of the transaction, the first one or a repeated one. -/
  | waiting
  | working
  | committing
  /-- The execution has been returned. -/
  | confirmed
  /-- `None` has been returned. -/
  | rejected
  /-- `ReservationUncertain`, or the caller was cancelled. -/
  | uncertain
  deriving DecidableEq

structure Reservation where
  call : ReserveCall
  phase : ReservationPhase
  tx : Option ReservationTx

/-! ## The dispatcher -/

/-- The stages of a queued scheduled command. -/
inductive SendStage
  | queued
  /-- Every check before `before_send` has passed. -/
  | ready
  | reserving (execution : ExecutionId)
  /-- `before_send` has returned `True`. -/
  | authorized (execution : ExecutionId)
  /-- Written, refused, failed or cancelled. -/
  | finished
  deriving DecidableEq

structure SendItem where
  taskId : TaskId
  runId : RunId
  sessionId : SessionId
  commandId : CommandId
  stage : SendStage
  deriving DecidableEq

/-- What `sender_loop` checks around the callback. -/
structure SenderFlags where
  cancelled : Bool
  connected : Bool
  closed : Bool
  accepting : Bool
  stopping : Bool
  commandBlocked : Bool
  recovered : Bool
  deriving DecidableEq

/-- The checks before `before_send`; a scheduled command has no session guard. -/
def SenderFlags.mayAsk (flags : SenderFlags) : Bool :=
  !flags.cancelled && flags.connected && !flags.closed && flags.accepting && !flags.stopping &&
    (!flags.commandBlocked || flags.recovered)

/-- The checks between `before_send` and the write. -/
def SenderFlags.mayWrite (flags : SenderFlags) : Bool := !flags.cancelled && !flags.stopping

/-- What `reserve` of the runtime reads of itself. -/
structure ReserveGuard where
  stopping : Bool
  retired : Bool
  collectorSession : Option SessionId
  task : OwnedTask
  deriving DecidableEq

def ReserveGuard.accepts (guard : ReserveGuard) (item : SendItem) : Bool :=
  !guard.stopping && !guard.retired && guard.collectorSession = some item.sessionId &&
    item.taskId = guard.task.id && item.runId = guard.task.runId &&
    (scheduledCommand guard.task.scheduledCommands item.commandId).isSome

/-! ## The system -/

structure BudgetState where
  db : BudgetDb
  /-- The next identifiers `new_id()` returns for commands, executions and queue items. -/
  nextCommand : CommandId
  nextExecution : ExecutionId
  nextItem : ItemId
  reservations : ExecutionId → Option Reservation
  items : ItemId → Option SendItem
  /-- The writes to the device so far, each with the reservation it was made under. -/
  writes : List (ItemId × ExecutionId)

def BudgetState.setReservation (s : BudgetState) (x : ExecutionId) (r : Reservation) :
    BudgetState :=
  { s with reservations := Function.update s.reservations x (some r) }

def BudgetState.setStage (s : BudgetState) (i : ItemId) (item : SendItem) (stage : SendStage) :
    BudgetState :=
  { s with items := Function.update s.items i (some { item with stage }) }

/-- New identifiers for an edited list of commands. -/
def numberCommands : CommandId → List (String × Nat) → List ScheduledCommand
  | _, [] => []
  | next, (command, totalExecutions) :: rest =>
    { id := next, command, totalExecutions } :: numberCommands (next + 1) rest

inductive BudgetAct
  /-- Another component writes the task's document: its owner, session, status or intent. -/
  | task (doc : CommandTask)
  /-- An edit of the scheduled commands gives all of them new identifiers. -/
  | edit (commands : List (String × Nat))
  | enqueue (taskId : TaskId) (runId : RunId) (sessionId : SessionId) (commandId : CommandId)
  | dispatch (i : ItemId) (flags : SenderFlags)
  | reserve (i : ItemId) (guard : ReserveGuard)
  | begin_ (x : ExecutionId)
  /-- The callback has run to its end. -/
  | finish (x : ExecutionId)
  /-- The server decides a commit it has been sent. -/
  | commit (x : ExecutionId)
  /-- The server aborts: a time-out, a failover, a lost connection. -/
  | abort (x : ExecutionId)
  /-- The driver learns what has become of its commit, or that the attempt is void. -/
  | learn (x : ExecutionId)
  /-- The driver or its caller gives up, at any point. -/
  | giveUp (x : ExecutionId)
  | answer (i : ItemId)
  | write (i : ItemId) (flags : SenderFlags)
  deriving DecidableEq

def beginAct (x : ExecutionId) (s : BudgetState) : Option BudgetState := do
  let r ← s.reservations x
  if r.phase ≠ .waiting then none
  else
    let tx := { snapshot := s.db, status := .active }
    return s.setReservation x { r with phase := .working, tx := some tx }

def finishAct (x : ExecutionId) (s : BudgetState) : Option BudgetState := do
  let r ← s.reservations x
  let tx ← r.tx
  if r.phase ≠ .working ∨ tx.status ≠ .active then none
  else match reserveCallback tx.snapshot r.call with
    | .reserved _ =>
      let tx := { tx with status := .requested }
      return s.setReservation x { r with phase := .committing, tx := some tx }
    | .absent | .rejected _ =>
      let tx := { tx with status := .aborted }
      return s.setReservation x { r with phase := .rejected, tx := some tx }

/-- The documents the transaction writes are as it has read them. -/
def ReservationTx.unwritten (tx : ReservationTx) (db : BudgetDb) (key : BudgetKey) : Bool :=
  tx.snapshot.task.version = db.task.version ∧
  (tx.snapshot.budgets key).version = (db.budgets key).version

def commitAct (x : ExecutionId) (s : BudgetState) : Option BudgetState := do
  let r ← s.reservations x
  let tx ← r.tx
  if tx.status ≠ .requested then none
  else match reserveCallback tx.snapshot r.call with
    | .reserved execution =>
      if tx.unwritten s.db execution.key then
        let tx := { tx with status := .committed }
        let s := s.setReservation x { r with tx := some tx }
        return { s with db := s.db.insert execution }
      else
        let tx := { tx with status := .aborted }
        return s.setReservation x { r with tx := some tx }
    | .absent | .rejected _ => none

def abortAct (x : ExecutionId) (s : BudgetState) : Option BudgetState := do
  let r ← s.reservations x
  let tx ← r.tx
  if tx.status = .active ∨ tx.status = .requested then
    let tx := { tx with status := .aborted }
    return s.setReservation x { r with tx := some tx }
  else none

def learnAct (x : ExecutionId) (s : BudgetState) : Option BudgetState := do
  let r ← s.reservations x
  let tx ← r.tx
  if r.phase ≠ .working ∧ r.phase ≠ .committing then none
  else match tx.status with
    | .committed => return s.setReservation x { r with phase := .confirmed }
    | .aborted => return s.setReservation x { r with phase := .waiting }
    | .active | .requested => none

def giveUpAct (x : ExecutionId) (s : BudgetState) : Option BudgetState := do
  let r ← s.reservations x
  if r.phase = .waiting ∨ r.phase = .working ∨ r.phase = .committing then
    return s.setReservation x { r with phase := .uncertain }
  else none

def dispatchAct (i : ItemId) (flags : SenderFlags) (s : BudgetState) : Option BudgetState := do
  let item ← s.items i
  if item.stage ≠ .queued then none
  else return s.setStage i item (if flags.mayAsk then .ready else .finished)

/-- `reserve` of the runtime and the first lines of `reserve_scheduled`. -/
def reserveAct (i : ItemId) (guard : ReserveGuard) (s : BudgetState) : Option BudgetState := do
  let item ← s.items i
  if item.stage ≠ .ready then none
  else if guard.accepts item then
    let call : ReserveCall := {
      executionId := s.nextExecution
      task := guard.task
      commandId := item.commandId
      sessionId := item.sessionId }
    let s := s.setStage i item (.reserving s.nextExecution)
    let s := s.setReservation s.nextExecution { call, phase := .waiting, tx := none }
    return { s with nextExecution := s.nextExecution + 1 }
  -- `BudgetExhausted`
  else return s.setStage i item .finished

def answerAct (i : ItemId) (s : BudgetState) : Option BudgetState := do
  let item ← s.items i
  match item.stage with
  | .reserving x =>
    let r ← s.reservations x
    match r.phase with
    | .confirmed => return s.setStage i item (.authorized x)
    -- `BudgetExhausted` or the exception
    | .rejected | .uncertain => return s.setStage i item .finished
    | _ => none
  | _ => none

def deviceWriteAct (i : ItemId) (flags : SenderFlags) (s : BudgetState) : Option BudgetState := do
  let item ← s.items i
  match item.stage with
  | .authorized x =>
    if flags.mayWrite then
      let s := s.setStage i item .finished
      return { s with writes := s.writes ++ [(i, x)] }
    else return s.setStage i item .finished
  | _ => none

def BudgetAct.apply : BudgetAct → BudgetState → Option BudgetState
  | .task doc, s =>
    let current := s.db.task.value
    let doc : CommandTask := { doc with
      scheduledCommands := current.scheduledCommands
      commandClaimVersion := current.commandClaimVersion }
    let db : BudgetDb := { s.db with task := s.db.task.write doc }
    some { s with db }
  | .edit commands, s =>
    let doc := { s.db.task.value with scheduledCommands := numberCommands s.nextCommand commands }
    let db : BudgetDb := { s.db with task := s.db.task.write doc }
    some { s with db, nextCommand := s.nextCommand + commands.length }
  | .enqueue taskId runId sessionId commandId, s =>
    let item := { taskId, runId, sessionId, commandId, stage := .queued }
    some { s with
      items := Function.update s.items s.nextItem (some item)
      nextItem := s.nextItem + 1 }
  | .dispatch i flags, s => dispatchAct i flags s
  | .reserve i guard, s => reserveAct i guard s
  | .begin_ x, s => beginAct x s
  | .finish x, s => finishAct x s
  | .commit x, s => commitAct x s
  | .abort x, s => abortAct x s
  | .learn x, s => learnAct x s
  | .giveUp x, s => giveUpAct x s
  | .answer i, s => answerAct i s
  | .write i flags, s => deviceWriteAct i flags s

/-- Before the first reservation: commands with distinct identifiers, and no budget. -/
structure BudgetInitial (s : BudgetState) : Prop where
  commands : ∀ command ∈ s.db.task.value.scheduledCommands, command.id < s.nextCommand
  distinct : (s.db.task.value.scheduledCommands.map ScheduledCommand.id).Nodup
  budgets : ∀ key, (s.db.budgets key).value = none
  executions : s.db.executions = []
  reservations : ∀ x, s.reservations x = none
  items : ∀ i, s.items i = none
  writes : s.writes = []

def BudgetStep (s t : BudgetState) : Prop := ∃ act : BudgetAct, act.apply s = some t

end CameraLogs.Commands

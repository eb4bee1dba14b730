import CameraLogs.Lib.Run
import Mathlib.Data.Fintype.Basic
import Mathlib.Data.List.Sort
import Mathlib.Order.Basic

/-!
# Archiving an ended run in chunks

A run that has ended is summed up and removed by a maintenance that goes round: each round
is one transaction, takes at most `CHUNK_SIZE` commands of the run behind a cursor, deletes
those no idempotency record still refers to, and adds what it deleted to the run's summary.
When no command is left the budgets go the same way, and with the last of them the run.

Between two rounds everything else may change: tasks, locks, operations, references,
commands' states and the records of other runs.
-/

namespace CameraLogs.Common

open CameraLogs.Lib

abbrev TaskId := Nat
abbrev RunId := List Char
abbrev Time := Nat

inductive CommandStatus
  | queued | sending | unknown | sent | failed | cancelled
  deriving DecidableEq

instance : Fintype CommandStatus where
  elems := {.queued, .sending, .unknown, .sent, .failed, .cancelled}
  complete := by
    intro status
    cases status <;> decide

/-- `COMMAND_TERMINALS` -/
def CommandStatus.terminal : CommandStatus → Bool
  | .sent | .failed | .cancelled => true
  | _ => false

inductive OperationStatus
  | pending | succeeded | failed | cancelled
  deriving DecidableEq

/-- `OPERATION_TERMINALS` -/
def OperationStatus.terminal : OperationStatus → Bool
  | .pending => false
  | _ => true

structure Operation where
  taskId : TaskId
  runId : RunId
  status : OperationStatus
  deriving DecidableEq

/-- What the archiving reads and writes of a task. -/
structure ArchivedTask where
  runId : Option RunId
  recordArchiveRevision : Nat
  deriving DecidableEq

/-- The document of a run; its id is the key. -/
structure Run where
  taskId : Option TaskId
  startedAt : Option Time
  endedAt : Option Time
  deriving DecidableEq

inductive ArchiveState
  | archiving | archived
  deriving DecidableEq

/-- The `_id` of a budget starts with its run and a colon. -/
def BudgetOf (runId : RunId) (key : List Char) : Prop := (runId ++ [':']) <+: key

instance (runId : RunId) (key : List Char) : Decidable (BudgetOf runId key) :=
  inferInstanceAs (Decidable ((runId ++ [':']) <+: key))

variable {κ : Type} [LinearOrder κ]

structure Command (κ : Type) where
  id : κ
  taskId : TaskId
  runId : RunId
  status : CommandStatus
  deriving DecidableEq

/-- The filter `base`: the commands of a run of a task. -/
def Command.OfRun (taskId : TaskId) (runId : RunId) (command : Command κ) : Prop :=
  command.taskId = taskId ∧ command.runId = runId

instance (taskId : TaskId) (runId : RunId) (command : Command κ) :
    Decidable (command.OfRun taskId runId) :=
  inferInstanceAs (Decidable (_ ∧ _))

/-- A document of `run_archives`. -/
structure RunArchive (κ : Type) where
  taskId : TaskId
  startedAt : Option Time
  endedAt : Time
  startedArchiveAt : Time
  commandCount : Nat
  budgetCount : Nat
  /-- A status that is not a key of the document counts zero. -/
  commandStatuses : CommandStatus → Nat
  commandCursor : Option κ
  state : ArchiveState
  updatedAt : Option Time
  archivedAt : Option Time

structure RecordStore (κ : Type) where
  /-- `files` with a closing proof whose raw log is not recovered yet. -/
  pendingProof : TaskId → RunId → Bool
  tasks : TaskId → Option ArchivedTask
  endpointLocks : TaskId → RunId → Bool
  commands : List (Command κ)
  operations : List Operation
  /-- Commands an unexpired record of `idempotency` refers to. -/
  pinned : κ → Bool
  archives : RunId → Option (RunArchive κ)
  budgets : List (List Char)
  runs : RunId → Option Run
  /-- The command records the archiving has deleted; nothing reads it. -/
  deleted : List (Command κ)

namespace RecordStore

variable (store : RecordStore κ)

/-- The `$inc` of `recordArchiveRevision`, a write that holds off reservations. -/
def touchTask (taskId : TaskId) : RecordStore κ :=
  { store with
    tasks := fun id =>
      if id = taskId then
        (store.tasks id).map fun task =>
          { task with recordArchiveRevision := task.recordArchiveRevision + 1 }
      else store.tasks id }

def commandsOf (taskId : TaskId) (runId : RunId) : List (Command κ) :=
  store.commands.filter fun command => command.OfRun taskId runId

def cursorOf (runId : RunId) : Option κ := (store.archives runId).bind (·.commandCursor)

/-- `rows`: the next commands behind the cursor, by id. -/
def nextRows (chunkSize : Nat) (taskId : TaskId) (runId : RunId) : List (Command κ) :=
  (((store.commandsOf taskId runId).filter fun command =>
      (store.cursorOf runId).all fun cursor => cursor < command.id).insertionSort
    fun a b => a.id ≤ b.id).take chunkSize

/-- The upsert that only sets the fields of a new summary. -/
def ensureArchive (runId : RunId) (taskId : TaskId) (startedAt : Option Time)
    (endedAt timestamp : Time) : RecordStore κ :=
  { store with
    archives := fun id =>
      if id = runId then
        some ((store.archives id).getD
          { taskId := taskId, startedAt := startedAt, endedAt := endedAt,
            startedArchiveAt := timestamp, commandCount := 0, budgetCount := 0,
            commandStatuses := fun _ => 0, commandCursor := none, state := .archiving,
            updatedAt := none, archivedAt := none })
      else store.archives id }

/-- The commands of the run with these ids. -/
def commandsIn (taskId : TaskId) (runId : RunId) (ids : List κ) : List (Command κ) :=
  store.commands.filter fun command => command.OfRun taskId runId ∧ command.id ∈ ids

/-- `delete_many` of the commands of the run with these ids. -/
def deleteCommands (taskId : TaskId) (runId : RunId) (ids : List κ) : RecordStore κ :=
  { store with
    commands := store.commands.filter fun command =>
      ¬ (command.OfRun taskId runId ∧ command.id ∈ ids)
    deleted := store.deleted ++ store.commandsIn taskId runId ids }

def budgetsOf (runId : RunId) : List (List Char) :=
  store.budgets.filter fun key => BudgetOf runId key

def deleteBudgets (keys : List (List Char)) : RecordStore κ :=
  { store with budgets := store.budgets.filter fun key => key ∉ keys }

/-- The `$inc` and `$set` of the summary at the end of a round. -/
def addToArchive (runId : RunId) (selected : List (Command κ)) (budgetCount : Nat)
    (commandCursor : Option κ) (finished : Bool) (timestamp : Time) : RecordStore κ :=
  { store with
    archives := fun id =>
      if id = runId then
        (store.archives id).map fun archive =>
          { archive with
            commandCount := archive.commandCount + selected.length
            budgetCount := archive.budgetCount + budgetCount
            commandStatuses := fun status =>
              archive.commandStatuses status + (selected.map (·.status)).count status
            commandCursor := commandCursor
            state := if finished then .archived else .archiving
            updatedAt := some timestamp
            archivedAt := if finished then some timestamp else archive.archivedAt }
      else store.archives id }

/-- `delete_one` of the run, while it still ended at this time. -/
def deleteRun (runId : RunId) (endedAt : Time) : RecordStore κ :=
  { store with
    runs := fun id =>
      if id = runId then (store.runs id).filter fun run => run.endedAt ≠ some endedAt
      else store.runs id }

/-- The budgets of a round: none while a command refers to them. -/
def nextBudgets (chunkSize : Nat) (runId : RunId) (remaining : Bool) : List (List Char) :=
  if remaining then [] else (store.budgetsOf runId).take chunkSize

def removeIfFinished (finished : Bool) (runId : RunId) (endedAt : Time) : RecordStore κ :=
  if finished then store.deleteRun runId endedAt else store

/-- The writes of a round of `archive_chunk`, from the summary's upsert on. -/
def archiveRows (chunkSize : Nat) (taskId : TaskId) (runId : RunId) (startedAt : Option Time)
    (endedAt timestamp : Time) (rows selected : List (Command κ)) :
    RecordStore κ × Bool × String :=
  let removed := (store.ensureArchive runId taskId startedAt endedAt timestamp).deleteCommands
    taskId runId (selected.map (·.id))
  let remaining := !(removed.commandsOf taskId runId).isEmpty
  let budgets := removed.nextBudgets chunkSize runId remaining
  let cleared := removed.deleteBudgets budgets
  let finished := !remaining && (cleared.budgetsOf runId).isEmpty
  let added := cleared.addToArchive runId selected budgets.length
    (rows.getLast?.map (·.id)) finished timestamp
  (added.removeIfFinished finished runId endedAt, finished,
    if finished then "已归档" else if selected.isEmpty then "有效幂等引用" else "分段归档")

end RecordStore

/-- `archive_chunk` -/
def archiveChunk (chunkSize : Nat) (store : RecordStore κ) (runId : RunId) (run : Run)
    (timestamp : Time) (dryRun : Bool) : RecordStore κ × Bool × String :=
  match run.taskId, run.endedAt with
  | some taskId, some endedAt =>
    if runId = [] then (store, false, "运行未完整结束")
    else if store.pendingProof taskId runId then (store, false, "部署关闭证明等待原始日志恢复")
    else
      let touched := store.touchTask taskId
      if (touched.tasks taskId).any fun task => task.runId = some runId then
        (touched, false, "任务仍引用运行")
      else if touched.endpointLocks taskId runId then (touched, false, "运行锁仍存在")
      else if (touched.commandsOf taskId runId).any fun command => !command.status.terminal then
        (touched, false, "存在未结算命令")
      else if touched.operations.any fun operation =>
          operation.taskId = taskId ∧ operation.runId = runId ∧ !operation.status.terminal then
        (touched, false, "存在未结算操作")
      else
        let rows := touched.nextRows chunkSize taskId runId
        let selected := rows.filter fun row => !touched.pinned row.id
        if dryRun then (touched, !selected.isEmpty || rows.isEmpty, "预览")
        else
          touched.archiveRows chunkSize taskId runId run.startedAt endedAt timestamp rows selected
  | _, _ => (store, false, "运行未完整结束")

/-- The transaction of `_archive_run`: `fenced` says that the maintainer's lease is still its
own, and the run is the one that ended before `cutoff` now. -/
def archiveRun (chunkSize : Nat) (store : RecordStore κ) (runId : RunId)
    (cutoff timestamp : Time) (fenced dryRun : Bool) : RecordStore κ × Bool × String :=
  if fenced = false then (store, false, "维护租约已失效")
  else
    match (store.runs runId).filter fun run => run.endedAt.any (· < cutoff) with
    | none => (store, false, "候选已变化")
    | some run => archiveChunk chunkSize store runId run timestamp dryRun

inductive Act (κ : Type)
  | archiveRun (chunkSize : Nat) (runId : RunId) (cutoff timestamp : Time) (fenced dryRun : Bool)
  | setProofs (pendingProof : TaskId → RunId → Bool)
  | setTask (taskId : TaskId) (task : Option ArchivedTask)
  | setLocks (endpointLocks : TaskId → RunId → Bool)
  | setOperations (operations : List Operation)
  | setPins (pinned : κ → Bool)
  /-- The worker or a recovery writes a command's status. -/
  | settle (id : κ) (status : CommandStatus)
  /-- A reservation or an admission, under a new id. -/
  | insertCommand (command : Command κ)
  | insertBudget (key : List Char)
  | startRun (runId : RunId) (taskId : TaskId) (startedAt : Time)
  | endRun (runId : RunId) (endedAt : Time)

def Act.apply (act : Act κ) (store : RecordStore κ) : Option (RecordStore κ) :=
  match act with
  | .archiveRun chunkSize runId cutoff timestamp fenced dryRun =>
    some (Common.archiveRun chunkSize store runId cutoff timestamp fenced dryRun).1
  | .setProofs pendingProof => some { store with pendingProof := pendingProof }
  | .setTask taskId task =>
    some { store with tasks := fun id => if id = taskId then task else store.tasks id }
  | .setLocks endpointLocks => some { store with endpointLocks := endpointLocks }
  | .setOperations operations => some { store with operations := operations }
  | .setPins pinned => some { store with pinned := pinned }
  | .settle id status =>
    some { store with
      commands := store.commands.map fun command =>
        if command.id = id then { command with status := status } else command }
  | .insertCommand command => do
    guard (command.id ∉ (store.deleted ++ store.commands).map (·.id))
    guard ((store.runs command.runId).any fun run => run.taskId = some command.taskId)
    return { store with commands := store.commands ++ [command] }
  | .insertBudget key => some { store with budgets := store.budgets ++ [key] }
  | .startRun runId taskId startedAt => do
    guard (store.runs runId = none ∧ ∀ command ∈ store.commands, command.runId ≠ runId)
    return { store with
      runs := fun id =>
        if id = runId then
          some { taskId := some taskId, startedAt := some startedAt, endedAt := none }
        else store.runs id }
  | .endRun runId endedAt =>
    some { store with
      runs := fun id =>
        if id = runId then (store.runs id).map fun run => { run with endedAt := some endedAt }
        else store.runs id }

def Step (store store' : RecordStore κ) : Prop := ∃ act : Act κ, act.apply store = some store'

/-- Nothing has been archived; the commands have ids of their own and belong to the task of
their run. -/
structure Start (store : RecordStore κ) : Prop where
  archives : ∀ runId, store.archives runId = none
  deleted : store.deleted = []
  ids : (store.commands.map (·.id)).Nodup
  owned : ∀ command ∈ store.commands, ∀ run, store.runs command.runId = some run →
    run.taskId = some command.taskId

end CameraLogs.Common

import CameraLogs.Tasks.Rest

/-!
# Cleanups in several writes

`release` and `stop_pending` end a run in several writes: the first one decides whose run
it is, then the lock goes, then the run is ended, and the last writes give the task away.
Here each of these cleanups keeps its place, so the order of its writes is the source's;
anything else may come between two of them, and it may stop after any of them and never go
on.

Everything else that happens to a task is an act, as before. The acts that are writes of
the two cleanups happen in their place only.
-/

namespace CameraLogs.Tasks

/-- What ends a run. -/
inductive Procedure
  | release (failed : Bool)
  | stopPending
  deriving DecidableEq

/-- The write that has to find the task for the rest to happen. -/
def Procedure.first : Procedure → OwnerWrite
  | .release failed => .closing failed
  | .stopPending => .stopPending

/-- The write that starts the task again where an edit has asked for it. -/
def Procedure.last : Procedure → OwnerWrite
  | .release failed => .restart failed
  | .stopPending => .restartPending

/-- How far a cleanup has come. -/
inductive Stage
  | begun
  | unlocked
  | ended
  | detached
  deriving DecidableEq

structure Cleanup where
  procedure : Procedure
  owner : Owner
  stage : Stage
  deriving DecidableEq

/-- The stage after the next write, none after the last one. `stop_pending` has nothing to
detach: its first write has taken the node away. -/
def Cleanup.next (cleanup : Cleanup) : Option Cleanup :=
  match cleanup.stage, cleanup.procedure with
  | .begun, _ => some { cleanup with stage := .unlocked }
  | .unlocked, _ => some { cleanup with stage := .ended }
  | .ended, .release _ => some { cleanup with stage := .detached }
  | .ended, .stopPending => none
  | .detached, _ => none

/-- A write of an owner whose answer nobody looks at. -/
def OwnerWrite.attempt (write : OwnerWrite) (owner : Owner) (records : Records) : Records :=
  (write.apply owner records).getD records

/-- The next write of a cleanup. -/
def Cleanup.write (cleanup : Cleanup) (records : Records) : Records :=
  match cleanup.stage, cleanup.procedure with
  | .begun, _ => records.deleteLock cleanup.owner.runId
  | .unlocked, _ => records.endRun cleanup.owner.runId
  | .ended, .release failed => (OwnerWrite.detach failed).attempt cleanup.owner records
  | .ended, .stopPending => OwnerWrite.restartPending.attempt cleanup.owner records
  | .detached, procedure => procedure.last.attempt cleanup.owner records

/-- The documents of a task, and the cleanups that workers have under way. -/
structure Cleaning where
  records : Records
  cleanups : List Cleanup

inductive CleaningEvent
  | act (act : Act)
  | begin (procedure : Procedure) (owner : Owner)
  | advance (cleanup : Cleanup)
  /-- The worker dies, or an error ends the cleanup. -/
  | crash (cleanup : Cleanup)

/-- The write is one of a cleanup's. -/
def OwnerWrite.cleans : OwnerWrite → Bool
  | .stopPending | .restartPending | .closing _ | .detach _ | .restart _ => true
  | _ => false

def Act.cleans : Act → Bool
  | .write update _ => update.cleans
  | _ => false

def CleaningEvent.apply (event : CleaningEvent) (state : Cleaning) : Option Cleaning :=
  match event with
  | .act taskAct =>
    if taskAct.cleans = true then none
    else (taskAct.apply state.records).map fun records => { state with records }
  | .begin procedure owner =>
    (procedure.first.apply owner state.records).map fun records =>
      ⟨records, ⟨procedure, owner, .begun⟩ :: state.cleanups⟩
  | .advance cleanup =>
    if cleanup ∈ state.cleanups then
      some ⟨cleanup.write state.records,
        cleanup.next.toList ++ state.cleanups.erase cleanup⟩
    else none
  | .crash cleanup => some { state with cleanups := state.cleanups.erase cleanup }

def CleaningInitial (state : Cleaning) : Prop := Initial state.records ∧ state.cleanups = []

/-! ## Left-over locks -/

/-- A task to hand out as a new run: none of its own is kept for it. -/
def Task.ClaimableAsNew (task : Task) : Prop :=
  task.desiredState = .running ∧ task.nodeId = none ∧ task.deleted = false ∧
    (task.status = .stopped ∨ task.status = .pending)

instance (task : Task) : Decidable task.ClaimableAsNew :=
  inferInstanceAs (Decidable (_ ∧ _))

/-- No lock stands in the way of a new run. -/
def Records.Unlocked (records : Records) : Prop :=
  records.task.ClaimableAsNew → records.lock = none

/-- A stopped task that has been taken off its node and whose lock is still there: its
cleanup has not come to the lock, or never will. -/
def Records.HalfStopped (records : Records) : Prop :=
  records.task.nodeId = none ∧ records.task.status = .stopped ∧ records.lock ≠ none

instance (records : Records) : Decidable records.HalfStopped :=
  inferInstanceAs (Decidable (_ ∧ _))

/-- A start does not come between the two writes of a stop, nor after a stop that broke off
there. -/
def CleaningEvent.Patient (event : CleaningEvent) (records : Records) : Prop :=
  match event with
  | .act (.control request _ _) => request.desired = .running → ¬records.HalfStopped
  | _ => True

instance (event : CleaningEvent) (records : Records) : Decidable (event.Patient records) :=
  match event with
  | .act (.control _ _ _) => inferInstanceAs (Decidable (_ → _))
  | .act _ | .begin _ _ | .advance _ | .crash _ => by
    unfold CleaningEvent.Patient
    split <;> infer_instance

/-- A step whose start, if it is one, waits for the lock to be gone. -/
def PatientStep (state state' : Cleaning) : Prop :=
  ∃ event : CleaningEvent, event.Patient state.records ∧ event.apply state = some state'

end CameraLogs.Tasks

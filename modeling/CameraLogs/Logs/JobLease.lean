import CameraLogs.Lib.InFlight
import CameraLogs.Lib.Run
import CameraLogs.Logs.JobSubmission

/-!
# The execution of a job

A job is claimed from the queue with a token that is used once and a lease that its worker
renews. The worker publishes what a search has found so far and completes the job, both
under a filter on the token and the lease; a user cancels the job, and whoever finds a lease
expired records the job as failed. Each of these is one update of the document. A clock
reading is taken before the update is sent, and an update whose outcome is unknown to its
sender may be applied at any later time.

What the workers have written, which of them has published the results and completed the
job, and which terminal statuses have been written, is remembered beside the document.
-/

namespace CameraLogs.Logs

open CameraLogs.Lib

variable {ρ : Type}

abbrev ExecutionToken := Nat

structure JobDocument (ρ : Type) where
  nodeId : String
  status : JobStatus
  executionToken : Option ExecutionToken
  workerInstanceId : Option String
  leaseUntil : Option Nat
  results : List ρ

/-- What a worker holds of a job it has claimed; a job of old times has no token. -/
structure JobHandle where
  executionToken : Option ExecutionToken
  workerInstanceId : Option String
  nodeId : String
  deriving DecidableEq

/-- A worker's write, with the clock reading it was made with. -/
structure JobWrite where
  handle : JobHandle
  now : Nat
  deriving DecidableEq

structure JobStore (ρ : Type) where
  document : JobDocument ρ
  writes : List JobWrite
  publishedBy : Option JobHandle
  completedBy : Option JobHandle
  terminals : List JobStatus

/-- An expired lease as `recover_expired_jobs` has found it. -/
structure ExpiredJob where
  nodeId : String
  executionToken : ExecutionToken
  leaseUntil : Nat
  deriving DecidableEq

/-- What a worker completes a job with. -/
structure Completion (ρ : Type) where
  status : JobStatus
  terminal : status.active = false
  results : Option (List ρ)

inductive JobUpdate (ρ : Type)
  | claim (token : ExecutionToken) (instanceId nodeId : String) (now : Nat)
  | renew (handle : JobHandle) (nodeId : String) (now : Nat)
  | publish (handle : JobHandle) (results : List ρ) (now : Nat)
  | complete (handle : JobHandle) (update : Completion ρ) (now : Nat)
  | cancel
  | recover (job : ExpiredJob)

/-- `JOB_LEASE_SECONDS` -/
def jobLeaseSeconds : Nat := 90

namespace JobDocument

/-- `status: RUNNING`, the token, the node and an unexpired lease. -/
def ownedBy (document : JobDocument ρ) (token : ExecutionToken) (nodeId : String) (now : Nat) :
    Bool :=
  document.status = .running ∧ document.executionToken = some token ∧
    document.nodeId = nodeId ∧ document.leaseUntil.any fun leaseUntil => now < leaseUntil

/-- The filter of `renew_job`. -/
def renewable (document : JobDocument ρ) (handle : JobHandle) (nodeId : String) (now : Nat) :
    Bool :=
  match handle.executionToken, handle.workerInstanceId with
  | some token, some instanceId =>
    document.ownedBy token nodeId now && decide (document.workerInstanceId = some instanceId)
  | _, _ => false

/-- `_running_filter` -/
def publishable (document : JobDocument ρ) (handle : JobHandle) (now : Nat) : Bool :=
  match handle.executionToken with
  | some token => document.ownedBy token handle.nodeId now
  | none => document.status = .running ∧ document.executionToken = none

/-- `_running_execution_filter`, applied to the document it is computed from. -/
def completable (document : JobDocument ρ) (handle : JobHandle) (now : Nat) : Bool :=
  match document.executionToken, handle.executionToken with
  | none, none => document.status = .running
  | some _, some token => document.ownedBy token handle.nodeId now
  | _, _ => false

/-- The condition of `_recover_expired_job`. -/
def recoverable (document : JobDocument ρ) (job : ExpiredJob) : Bool :=
  document.status = .running ∧ document.executionToken = some job.executionToken ∧
    document.nodeId = job.nodeId ∧ document.leaseUntil = some job.leaseUntil

end JobDocument

def JobUpdate.apply : JobUpdate ρ → JobStore ρ → JobStore ρ
  | .claim token instanceId nodeId now, store =>
    if store.document.status = .queued ∧ store.document.nodeId = nodeId then
      { store with document := { store.document with
          status := .running, executionToken := some token, workerInstanceId := some instanceId,
          leaseUntil := some (now + jobLeaseSeconds) } }
    else store
  | .renew handle nodeId now, store =>
    if store.document.renewable handle nodeId now then
      { store with document := { store.document with leaseUntil := some (now + jobLeaseSeconds) } }
    else store
  | .publish handle results now, store =>
    if store.document.publishable handle now then
      { store with
        document := { store.document with results }
        writes := ⟨handle, now⟩ :: store.writes
        publishedBy := some handle }
    else store
  | .complete handle update now, store =>
    if store.document.status = .running ∧ store.document.completable handle now then
      { document := { store.document with
          status := update.status, results := update.results.getD store.document.results }
        writes := ⟨handle, now⟩ :: store.writes
        publishedBy := if update.results.isSome then some handle else store.publishedBy
        completedBy := some handle
        terminals := update.status :: store.terminals }
    else store
  | .cancel, store =>
    if store.document.status.active then
      { store with
        document := { store.document with status := .cancelled }
        terminals := .cancelled :: store.terminals }
    else store
  | .recover job, store =>
    if store.document.recoverable job then
      { store with
        document := { store.document with
          status := .failed, executionToken := none, leaseUntil := none }
        terminals := .failed :: store.terminals }
    else store

structure JobState (ρ : Type) where
  db : InFlight (JobStore ρ) (JobUpdate ρ)
  clock : Nat
  nextToken : ExecutionToken
  /-- What the claims have given to the workers. -/
  handles : List JobHandle
  expired : List ExpiredJob

inductive JobAct (ρ : Type)
  | tick
  | claim (instanceId nodeId : String) (now : Nat) (o : Outcome)
  | renew (handle : JobHandle) (nodeId : String) (now : Nat) (o : Outcome)
  | publish (handle : JobHandle) (results : List ρ) (now : Nat) (o : Outcome)
  | complete (handle : JobHandle) (update : Completion ρ) (now : Nat) (o : Outcome)
  | cancel (o : Outcome)
  | scan (now : Nat)
  | recover (index : Nat) (o : Outcome)
  | land (index : Nat)

namespace JobState

def document (s : JobState ρ) : JobDocument ρ := s.db.store.document

def send (s : JobState ρ) (update : JobUpdate ρ) (o : Outcome) : JobState ρ :=
  { s with db := InFlight.send JobUpdate.apply update o s.db }

/-- A worker acts on a job it has claimed, or on one without a token. -/
def holds (s : JobState ρ) (handle : JobHandle) : Bool :=
  handle.executionToken = none ∨ handle ∈ s.handles

end JobState

/-- `claim_job` with a new token; the worker gets the job if it learns of the claim. -/
def claimJob (instanceId nodeId : String) (now : Nat) (o : Outcome) (s : JobState ρ) :
    Option (JobState ρ) := do
  guard (now ≤ s.clock)
  let token := s.nextToken
  let sent := s.send (.claim token instanceId nodeId now) o
  let matched := s.document.status = .queued ∧ s.document.nodeId = nodeId
  let handle : JobHandle := ⟨some token, some instanceId, nodeId⟩
  let handles := if o = .performed ∧ matched then handle :: s.handles else s.handles
  return { sent with nextToken := token + 1, handles }

/-- An update a worker makes in the name of a handle. -/
def workerAct (handle : JobHandle) (now : Nat) (update : JobUpdate ρ) (o : Outcome)
    (s : JobState ρ) : Option (JobState ρ) := do
  guard (now ≤ s.clock)
  guard (s.holds handle)
  return s.send update o

/-- The query of `recover_expired_jobs`. -/
def scanExpired (now : Nat) (s : JobState ρ) : Option (JobState ρ) := do
  guard (now ≤ s.clock)
  let token ← s.document.executionToken
  let leaseUntil ← s.document.leaseUntil
  guard (s.document.status = .running ∧ leaseUntil ≤ now)
  return { s with expired := ⟨s.document.nodeId, token, leaseUntil⟩ :: s.expired }

def JobAct.apply : JobAct ρ → JobState ρ → Option (JobState ρ)
  | .tick, s => some { s with clock := s.clock + 1 }
  | .claim instanceId nodeId now o, s => claimJob instanceId nodeId now o s
  | .renew handle nodeId now o, s => workerAct handle now (.renew handle nodeId now) o s
  | .publish handle results now o, s =>
    if results.isEmpty then some s else workerAct handle now (.publish handle results now) o s
  | .complete handle update now o, s => workerAct handle now (.complete handle update now) o s
  | .cancel o, s => some (s.send .cancel o)
  | .scan now, s => scanExpired now s
  | .recover index o, s => s.expired[index]?.map fun job => s.send (.recover job) o
  | .land index, s => (InFlight.land JobUpdate.apply index s.db).map fun db => { s with db }

/-- A job that has been submitted and that nobody has claimed. -/
structure JobInitial (s : JobState ρ) : Prop where
  status : s.document.status = .queued
  token : s.document.executionToken = none
  leaseUntil : s.document.leaseUntil = none
  results : s.document.results = []
  late : s.db.late = []
  handles : s.handles = []
  expired : s.expired = []
  writes : s.db.store.writes = []
  publishedBy : s.db.store.publishedBy = none
  completedBy : s.db.store.completedBy = none
  terminals : s.db.store.terminals = []

def JobStep (s t : JobState ρ) : Prop := ∃ act : JobAct ρ, act.apply s = some t

end CameraLogs.Logs

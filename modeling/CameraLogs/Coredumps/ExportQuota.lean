import CameraLogs.Lib.Run
import CameraLogs.Lib.Tally

/-!
# The export jobs of a node

A job to export coredumps is claimed by the node's worker, which declares that it is
writing, takes its share of the node's quota, writes into two directories, releases what it
does not keep, declares that it has finished and completes the job. The worker may die
between any two of these steps, and between the landing of an update and its answer. What
a dead worker has left behind is repaired in two places: when the next worker starts, and by
the maintenance that goes through the claims of the node again and again.

The state is the database and the disk of one node with the worker process that runs there,
if any. `ExportAct` are the single steps of the executions, of the maintenance, of the users
and of the clock.
-/

namespace CameraLogs.Coredumps

open CameraLogs.Lib

abbrev JobId := Nat
abbrev InstanceId := Nat

inductive ExportStatus
  | queued
  | running
  | succeeded
  | failed
  | cancelled
  deriving DecidableEq

/-- What `run_export` completes a job with. -/
inductive ExportResult
  | succeeded
  | failed
  | cancelled
  deriving DecidableEq

def ExportResult.status : ExportResult → ExportStatus
  | succeeded => .succeeded
  | failed => .failed
  | cancelled => .cancelled

inductive ExecutionState
  | writing
  | finished
  deriving DecidableEq

/-- A document of `coredump_exports`. Times are clock readings in seconds. -/
structure ExportDocument where
  status : ExportStatus
  workerInstanceId : Option InstanceId
  executionState : Option ExecutionState
  executionLeaseUntil : Option Nat
  leaseUntil : Option Nat
  expiresAt : Nat
  estimatedBytes : Nat
  sources : Nat
  deriving DecidableEq

inductive ClaimState
  | reserved
  | released
  deriving DecidableEq

/-- A document of `coredump_export_reservation_claims`. -/
structure ExportClaim where
  id : JobId
  bytes : Nat
  state : ClaimState
  deriving DecidableEq

/-- What a claim counts for in the counter of its node. -/
def ExportClaim.counted (claim : ExportClaim) : Nat :=
  if claim.state = .reserved then claim.bytes else 0

/-- The claims of the node and its counter `used`. -/
structure ExportLedger where
  used : Nat
  claims : List ExportClaim
  deriving DecidableEq

def executionLeaseSeconds : Nat := 90

def jobLeaseSeconds : Nat := 90

/-- What an export takes of the quota: the copies twice, and what the ZIP adds. -/
def ExportDocument.amount (document : ExportDocument) : Nat :=
  document.estimatedBytes * 2 + document.sources * 4096 + 65536

namespace ExportLedger

variable (ledger : ExportLedger)

def find (id : JobId) : Option ExportClaim := Dict.lookup ExportClaim.id id ledger.claims

/-- `_reserve`; `none` where it raises. -/
def reserve (quota : Nat) (id : JobId) (amount : Nat) : Option ExportLedger :=
  if quota < amount then none
  else match ledger.find id with
    | some claim => if claim.state = .reserved then some ledger else none
    | none =>
      if ledger.used + amount ≤ quota then
        some { used := ledger.used + amount
               claims := Dict.upsert ExportClaim.id ⟨id, amount, .reserved⟩ ledger.claims }
      else none

/-- `_release`; `none` where it raises. -/
def release (id : JobId) : Option ExportLedger :=
  match ledger.find id with
  | none => some ledger
  | some claim =>
    if claim.state = .reserved then
      if claim.bytes ≤ ledger.used then
        some { used := ledger.used - claim.bytes
               claims := Dict.upsert ExportClaim.id { claim with state := .released }
                 ledger.claims }
      else none
    else some ledger

/-- What the claims that are still reserved add up to. -/
def reservedBytes : Nat :=
  tally ExportClaim.counted ledger.claims

end ExportLedger

/-! ## The execution of a job -/

/-- What `run_export` is about to do. `left` counts the sources still to be frozen or
fetched; `update` is what the job is to be completed with. -/
inductive ExportStage
  | beginning
  | refused
  | releasingRefused
  | reserving
  | makingScratch
  | checkingFreeze (left : Nat)
  | freezing (left : Nat)
  | checkingFetch (left : Nat)
  | fetching (left : Nat)
  | checkingOutput
  | makingOutput
  | writingResult
  | checkingResult
  | digesting
  | removingScratch (update : ExportResult)
  | removingOutput (update : ExportResult)
  | releasing (update : ExportResult)
  | finishing (update : ExportResult)
  | completing (update : ExportResult)
  | withdrawing
  | releasingWithdrawn
  deriving DecidableEq

/-- The execution has declared that it writes, and not yet that it has finished. -/
def ExportStage.writes : ExportStage → Bool
  | beginning | refused | releasingRefused | completing _ | withdrawing | releasingWithdrawn =>
    false
  | _ => true

/-- How a step ends: it is performed, or it raises before it had an effect, or it had its
effect and raises all the same; an exception may be the cancellation of the task. -/
inductive StepEnd
  | done
  | raises (cancelled : Bool)
  | unheard (cancelled : Bool)
  deriving DecidableEq

/-- What the maintenance is about to do for one claim. -/
inductive CleanStage
  | removingScratch
  | removingOutput
  | releasing
  deriving DecidableEq

/-- A running `run_export`: the job as it was claimed, and where it stands. -/
structure ExportExecution where
  job : ExportDocument
  stage : ExportStage
  deriving DecidableEq

structure ExportState where
  quota : Nat
  ledger : ExportLedger
  documents : JobId → Option ExportDocument
  created : List JobId
  scratch : JobId → Bool
  output : JobId → Bool
  now : Nat
  /-- The worker process of the node, if it runs, and all there have been. -/
  worker : Option InstanceId
  started : List InstanceId
  executions : JobId → Option ExportExecution
  cleaning : Option (JobId × CleanStage)

namespace ExportState

variable (s : ExportState)

def setDocument (id : JobId) (document : ExportDocument) : ExportState :=
  { s with documents := Function.update s.documents id (some document) }

def setExecution (id : JobId) (execution : Option ExportExecution) : ExportState :=
  { s with executions := Function.update s.executions id execution }

def withLedger (ledger : ExportLedger) : ExportState := { s with ledger }

def setScratch (id : JobId) (there : Bool) : ExportState :=
  { s with scratch := Function.update s.scratch id there }

def setOutput (id : JobId) (there : Bool) : ExportState :=
  { s with output := Function.update s.output id there }

/-- The document of a job, if the worker is the instance that claimed it. -/
def ownDocument (id : JobId) : Option ExportDocument :=
  (s.documents id).filter fun document => document.workerInstanceId = s.worker

/-- `_begin_execution`: the state after its update, if the filter is met. -/
def beginExecution (id : JobId) : Option ExportState :=
  match s.ownDocument id with
  | some document =>
    if document.status = .running then
      some (s.setDocument id { document with
        executionState := some .writing
        executionLeaseUntil := some (s.now + executionLeaseSeconds) })
    else none
  | none => none

/-- `_cancelled`: the state after its update where the job goes on. -/
def goesOn (id : JobId) : Option ExportState :=
  match s.ownDocument id with
  | some document =>
    if document.status = .running then
      some (s.setDocument id { document with leaseUntil := some (s.now + jobLeaseSeconds) })
    else none
  | none => none

/-- `_finish_execution` -/
def finishExecution (id : JobId) : ExportState :=
  match s.ownDocument id with
  | some document =>
    if document.executionState = some .writing then
      s.setDocument id { document with executionState := some .finished }
    else s
  | none => s

/-- `_renew_execution_lease` -/
def renewExecutionLease (id : JobId) : ExportState :=
  match s.ownDocument id with
  | some document =>
    if document.executionState = some .writing then
      s.setDocument id { document with
        executionLeaseUntil := some (s.now + executionLeaseSeconds)
        leaseUntil := some (s.now + jobLeaseSeconds) }
    else s
  | none => s

/-- `_complete`: the state after the transaction and the status it answers. -/
def complete (id : JobId) (update : ExportResult) : ExportState × ExportStatus :=
  match s.documents id with
  | none => (s, .cancelled)
  | some document =>
    if document.status = .running then
      if document.workerInstanceId = s.worker then
        (s.setDocument id { document with status := update.status }, update.status)
      else (s, .cancelled)
    else (s, document.status)

variable (id : JobId) (job : ExportDocument)

/-- The execution goes on to a stage, or has returned. -/
def goTo (stage : Option ExportStage) : ExportState :=
  s.setExecution id (stage.map fun stage => ⟨job, stage⟩)

/-- A failed step of the `try` block: what is left is to clean up. -/
def abandon (cancelled : Bool) : ExportState :=
  s.goTo id job (some (.removingScratch (if cancelled then .cancelled else .failed)))

/-- One step of the `try` block, with what it goes on to and the state it leaves. -/
def tryStep (stage : ExportStage) (performed : ExportState) : StepEnd → ExportState
  | .done => performed.goTo id job (some stage)
  | .raises cancelled => s.abandon id job cancelled
  | .unheard cancelled => performed.abandon id job cancelled

/-- One step of it that raises by itself. -/
def tryRaise (cancelled : Bool) : StepEnd → ExportState
  | .done => s.abandon id job cancelled
  | .raises cancelled' => s.abandon id job cancelled'
  | .unheard cancelled' => s.abandon id job cancelled'

/-- One step outside it: an exception ends the execution. -/
def plainStep (stage : Option ExportStage) (performed : ExportState) : StepEnd → ExportState
  | .done => performed.goTo id job stage
  | .raises _ => s.goTo id job none
  | .unheard _ => performed.goTo id job none

/-- A check of `_cancelled` before the execution goes on. -/
def checkStep (stage : ExportStage) (e : StepEnd) : ExportState :=
  match s.goesOn id with
  | some t => s.tryStep id job stage t e
  | none => s.tryRaise id job true e

/-- A release outside the `try` block. -/
def releaseStep (stage : Option ExportStage) (e : StepEnd) : ExportState :=
  match s.ledger.release id with
  | some ledger => s.plainStep id job stage (s.withLedger ledger) e
  | none => s.goTo id job none

/-- After the removal of the scratch directory: only what succeeded keeps its output. -/
def afterScratch (update : ExportResult) : ExportStage :=
  if update = .succeeded then .finishing update else .removingOutput update

/-- One step of `run_export`. -/
def advance (e : StepEnd) : ExportStage → ExportState
  | .beginning =>
    match s.beginExecution id with
    | some t => s.plainStep id job (some .reserving) t e
    | none => s.plainStep id job (some .refused) s e
  | .refused =>
    if (s.ownDocument id).any fun document =>
        document.status = .cancelled ∧ document.executionState ≠ some .writing then
      s.plainStep id job (some .releasingRefused) s e
    else s.plainStep id job none s e
  | .releasingRefused => s.releaseStep id job none e
  | .reserving =>
    match s.ledger.reserve s.quota id job.amount with
    | some ledger => s.tryStep id job .makingScratch (s.withLedger ledger) e
    | none => s.tryRaise id job false e
  | .makingScratch => s.tryStep id job (.checkingFreeze job.sources) (s.setScratch id true) e
  | .checkingFreeze 0 => s.tryStep id job (.checkingFetch job.sources) s e
  | .checkingFreeze (left + 1) => s.checkStep id job (.freezing left) e
  | .freezing left => s.tryStep id job (.checkingFreeze left) s e
  | .checkingFetch 0 => s.tryStep id job .checkingOutput s e
  | .checkingFetch (left + 1) => s.checkStep id job (.fetching left) e
  | .fetching left => s.tryStep id job (.checkingFetch left) s e
  | .checkingOutput => s.checkStep id job .makingOutput e
  | .makingOutput => s.tryStep id job .writingResult (s.setOutput id true) e
  | .writingResult => s.tryStep id job .checkingResult s e
  | .checkingResult => s.checkStep id job .digesting e
  | .digesting => s.tryStep id job (.removingScratch .succeeded) s e
  -- the `finally` block: an exception in it ends the execution
  | .removingScratch update =>
    s.plainStep id job (some (afterScratch update)) (s.setScratch id false) e
  | .removingOutput update =>
    s.plainStep id job (some (.releasing update)) (s.setOutput id false) e
  | .releasing update => s.releaseStep id job (some (.finishing update)) e
  | .finishing update =>
    s.plainStep id job (some (.completing update)) (s.finishExecution id) e
  -- the completion is tried until it is answered
  | .completing update =>
    let completed := s.complete id update
    match e with
    | .done => completed.1.goTo id job
        (if update = .succeeded ∧ completed.2 ≠ .succeeded then some .withdrawing else none)
    | .raises cancelled => if cancelled then s.goTo id job none else s
    | .unheard cancelled => if cancelled then completed.1.goTo id job none else completed.1
  | .withdrawing => s.plainStep id job (some .releasingWithdrawn) (s.setOutput id false) e
  | .releasingWithdrawn => s.releaseStep id job none e

/-! ## Repair -/

/-- The condition of `cleanup_expired_exports` under which a claim is left alone. -/
def active : Bool :=
  (s.documents id).any fun document =>
    (document.executionState = some .writing &&
      document.executionLeaseUntil.any fun leaseUntil => s.now < leaseUntil) ||
    document.status = .queued || document.status = .running ||
    (document.status = .succeeded && s.now < document.expiresAt)

/-- The next step of the maintenance for a claim that is not active. -/
def cleanNext : CleanStage → Option ExportState
  | .removingScratch =>
    some { s.setScratch id false with cleaning := some (id, .removingOutput) }
  | .removingOutput => some { s.setOutput id false with cleaning := some (id, .releasing) }
  | .releasing =>
    (s.ledger.release id).map fun ledger => { s.withLedger ledger with cleaning := none }

/-- The update of a starting worker: what has been running is recorded as failed, where its
lease has expired. -/
def failLeftOver (document : ExportDocument) : ExportDocument :=
  if document.status = .running ∧ document.leaseUntil.any fun leaseUntil => leaseUntil < s.now then
    { document with status := .failed }
  else document

end ExportState

inductive ExportAct
  | create (id : JobId) (expiresAt estimatedBytes sources : Nat)
  | cancel (id : JobId)
  /-- The store removes a document that has expired. -/
  | expire (id : JobId)
  | start (worker : InstanceId)
  | crash
  | claim (id : JobId)
  | advance (id : JobId) (e : StepEnd)
  /-- The heartbeat of an execution. -/
  | renew (id : JobId)
  | clean (id : JobId)
  | cleanNext
  /-- The maintenance gives up at an exception. -/
  | cleanFails
  | tick (seconds : Nat)
  deriving DecidableEq

def ExportAct.apply (act : ExportAct) (s : ExportState) : Option ExportState :=
  match act with
  | .create id expiresAt estimatedBytes sources => do
    guard (id ∉ s.created)
    pure { s.setDocument id ⟨.queued, none, none, none, none, expiresAt, estimatedBytes, sources⟩
      with created := id :: s.created }
  | .cancel id => do
    let document ← s.documents id
    guard (document.status = .queued ∨ document.status = .running)
    pure (s.setDocument id { document with status := .cancelled })
  | .expire id => do
    let document ← s.documents id
    guard (document.expiresAt ≤ s.now)
    pure { s with documents := Function.update s.documents id none }
  | .start worker => do
    guard (s.worker = none ∧ worker ∉ s.started)
    pure { s with
      worker := some worker
      started := worker :: s.started
      documents := fun id => (s.documents id).map s.failLeftOver }
  | .crash => some { s with worker := none, executions := fun _ => none, cleaning := none }
  | .claim id => do
    let worker ← s.worker
    let document ← s.documents id
    guard (document.status = .queued)
    let job := { document with
      status := .running
      workerInstanceId := some worker
      leaseUntil := some (s.now + jobLeaseSeconds) }
    pure ((s.setDocument id job).goTo id job (some .beginning))
  | .advance id e => do
    let execution ← s.executions id
    pure (s.advance id execution.job e execution.stage)
  | .renew id => do
    let execution ← s.executions id
    guard (execution.stage.writes ∧ execution.stage ≠ .reserving)
    pure (s.renewExecutionLease id)
  | .clean id => do
    guard (s.worker.isSome ∧ s.cleaning = none ∧ id ∈ s.ledger.claims.map ExportClaim.id ∧
      s.active id = false)
    pure { s with cleaning := some (id, .removingScratch) }
  | .cleanNext => do
    let (id, stage) ← s.cleaning
    s.cleanNext id stage
  | .cleanFails => some { s with cleaning := none }
  | .tick seconds => some { s with now := s.now + seconds }

def ExportQuotaStep (s t : ExportState) : Prop := ∃ act : ExportAct, act.apply s = some t

/-- A node without jobs. -/
structure ExportQuotaStart (s : ExportState) : Prop where
  ledger : s.ledger = ⟨0, []⟩
  documents : s.documents = fun _ => none
  created : s.created = []
  scratch : s.scratch = fun _ => false
  output : s.output = fun _ => false
  worker : s.worker = none
  executions : s.executions = fun _ => none
  cleaning : s.cleaning = none

abbrev ReachableExports : ExportState → Prop := Reachable ExportQuotaStart ExportQuotaStep

end CameraLogs.Coredumps

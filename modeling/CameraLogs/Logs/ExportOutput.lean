import CameraLogs.Logs.JobLease

/-!
# The files of an export

The worker of a download registers itself as the writer of its directory before it creates
any file, and closes that registration when its last file thread has ended. A reader pushes
a lease on the closed export. When the job has ended and expired, a cleaner claims the
export with a token of its own, deletes the directory and records the export as cleaned. An
abandoned claim is taken back when its lease has expired. All of this is on the document of
the job, by conditional updates; besides, a kernel lock on the export is held by its writer
while it writes and by a cleaner while it deletes, and is released when its process dies.

A token is its cleaner and the number of its claim. The export is a download whose job has
any life that `JobUpdate` gives it; who has recorded it as cleaned is remembered.
-/

namespace CameraLogs.Logs

open CameraLogs.Lib

variable {ρ : Type}

abbrev ReaderId := Nat
abbrev WriterId := Nat
abbrev CleanerId := Nat

structure CleanupToken where
  cleaner : CleanerId
  number : Nat
  deriving DecidableEq

inductive WriterState
  | writing
  | closed
  deriving DecidableEq

inductive CleanupState
  | idle
  | cleaning
  | cleaned
  deriving DecidableEq

structure ReaderLease where
  id : ReaderId
  expiresAt : Nat
  deriving DecidableEq

/-- The fields of the document that begin with `output`, and `expiresAt`. -/
structure ExportOutput where
  executionState : Option WriterState
  writerNodeId : Option String
  writerToken : Option ExecutionToken
  lockProtocol : Bool
  cleanupState : Option CleanupState
  cleanupToken : Option CleanupToken
  cleanupLeaseUntil : Option Nat
  readers : List ReaderLease
  expiresAt : Nat
  deriving DecidableEq

structure ExportStore (ρ : Type) where
  job : JobStore ρ
  output : ExportOutput
  cleanedBy : Option CleanupToken

namespace ExportStore

def document (store : ExportStore ρ) : JobDocument ρ := store.job.document

/-- `outputCleanupState: {"$in": ["IDLE", None]}` -/
def uncleaned (store : ExportStore ρ) : Bool :=
  store.output.cleanupState = none ∨ store.output.cleanupState = some .idle

/-- `_writer_filter` -/
def writable (store : ExportStore ρ) (handle : JobHandle) : Bool :=
  store.document.status = .running ∧ store.document.executionToken = handle.executionToken ∧
    (handle.executionToken ≠ none → store.document.nodeId = handle.nodeId)

/-- The filter of `ExportReader.acquire`. -/
def readable (store : ExportStore ρ) (nodeId : String) : Bool :=
  store.document.nodeId = nodeId ∧ store.document.status = .succeeded ∧
    store.output.executionState = some .closed ∧ store.output.writerNodeId = some nodeId ∧
    store.uncleaned

/-- `active` in `cleanup_exports`. -/
def cleanable (store : ExportStore ρ) (nodeId : String) (stamp : Nat) : Bool :=
  store.document.nodeId = nodeId ∧ store.document.status.active = false ∧
    store.output.expiresAt ≤ stamp ∧ store.output.executionState ≠ none ∧
    store.output.writerNodeId = some nodeId ∧ store.output.lockProtocol

/-- `active` and a claim under a token. -/
def claimedBy (store : ExportStore ρ) (nodeId : String) (stamp : Nat) (token : CleanupToken) :
    Bool :=
  store.cleanable nodeId stamp ∧ store.output.cleanupState = some .cleaning ∧
    store.output.cleanupToken = some token

end ExportStore

/-- `{"$pull": {"outputReaders": {"expiresAt": {"$lte": stamp}}}}` -/
def pullExpired (stamp : Nat) (readers : List ReaderLease) : List ReaderLease :=
  readers.filter fun reader => stamp < reader.expiresAt

/-- `outputReaders.$.expiresAt`, of the first reader with the identifier. -/
def extendLease (id : ReaderId) (expiresAt : Nat) : List ReaderLease → List ReaderLease
  | [] => []
  | reader :: readers =>
    if reader.id = id then { reader with expiresAt } :: readers
    else reader :: extendLease id expiresAt readers

/-- `READER_LEASE_SECONDS` -/
def readerLeaseSeconds : Nat := 90

/-- Thirty minutes. -/
def cleanupLeaseSeconds : Nat := 1800

inductive ExportUpdate (ρ : Type)
  | job (update : JobUpdate ρ) (expiresAt : Nat)
  | beginOutput (handle : JobHandle) (nodeId : String)
  | closeOutput (handle : JobHandle) (nodeId : String)
  | pull (stamp : Nat)
  | acquire (reader : ReaderId) (nodeId : String) (stamp : Nat)
  | renew (reader : ReaderId) (nodeId : String) (now : Nat)
  | release (reader : ReaderId) (nodeId : String)
  | recoverClaim (nodeId : String) (stamp : Nat)
  | pullCandidate (nodeId : String) (stamp : Nat)
  | claimCleanup (nodeId : String) (stamp : Nat) (token : CleanupToken)
  | closeWriter (nodeId : String) (stamp : Nat) (token : CleanupToken)
  | finishCleanup (nodeId : String) (stamp : Nat) (token : CleanupToken)
  | dropCleanup (nodeId : String) (stamp : Nat) (token : CleanupToken)

namespace ExportStore

/-- The filter of a cleaner's claim. -/
def claimableBy (store : ExportStore ρ) (nodeId : String) (stamp : Nat) : Bool :=
  store.cleanable nodeId stamp && store.uncleaned &&
    store.output.readers.all fun reader => reader.expiresAt ≤ stamp

/-- The filter under which an abandoned claim is taken back. -/
def abandoned (store : ExportStore ρ) (nodeId : String) (stamp : Nat) : Bool :=
  store.document.nodeId = nodeId ∧ store.document.status.active = false ∧
    store.output.lockProtocol ∧ store.output.cleanupState = some .cleaning ∧
    store.output.cleanupLeaseUntil.all fun leaseUntil => leaseUntil ≤ stamp

/-- The claim is given back. -/
def unclaim (store : ExportStore ρ) : ExportStore ρ :=
  { store with output := { store.output with
      cleanupState := some .idle, cleanupToken := none, cleanupLeaseUntil := none } }

def setReaders (store : ExportStore ρ) (readers : List ReaderLease) : ExportStore ρ :=
  { store with output := { store.output with readers } }

/-- An update of the job; the one that completes a download sets `expiresAt` as well. -/
def updateJob (store : ExportStore ρ) (update : JobUpdate ρ) (expiresAt : Nat) : ExportStore ρ :=
  let job := update.apply store.job
  if job.completedBy.isSome && store.job.completedBy.isNone then
    { store with job, output := { store.output with expiresAt } }
  else { store with job }

end ExportStore

def ExportUpdate.apply : ExportUpdate ρ → ExportStore ρ → ExportStore ρ
  | .job update expiresAt, store => store.updateJob update expiresAt
  | .beginOutput handle nodeId, store =>
    if store.writable handle then
      { store with output := { store.output with
          executionState := some .writing, writerNodeId := some nodeId,
          writerToken := handle.executionToken, lockProtocol := true,
          cleanupState := some .idle, readers := [] } }
    else store
  | .closeOutput handle nodeId, store =>
    if store.output.executionState = some .writing ∧ store.output.writerNodeId = some nodeId ∧
        store.output.writerToken = handle.executionToken then
      { store with output := { store.output with executionState := some .closed } }
    else store
  | .pull stamp, store => store.setReaders (pullExpired stamp store.output.readers)
  | .acquire reader nodeId stamp, store =>
    if store.readable nodeId then
      store.setReaders (store.output.readers ++ [⟨reader, stamp + readerLeaseSeconds⟩])
    else store
  | .renew reader nodeId now, store =>
    if store.document.nodeId = nodeId ∧ store.output.executionState = some .closed ∧
        store.uncleaned then
      store.setReaders (extendLease reader (now + readerLeaseSeconds) store.output.readers)
    else store
  | .release reader nodeId, store =>
    if store.document.nodeId = nodeId then
      store.setReaders (store.output.readers.filter fun lease => lease.id ≠ reader)
    else store
  | .recoverClaim nodeId stamp, store =>
    if store.abandoned nodeId stamp then store.unclaim else store
  | .pullCandidate nodeId stamp, store =>
    if store.cleanable nodeId stamp && store.uncleaned then
      store.setReaders (pullExpired stamp store.output.readers)
    else store
  | .claimCleanup nodeId stamp token, store =>
    if store.claimableBy nodeId stamp then
      { store with output := { store.output with
          cleanupState := some .cleaning, cleanupToken := some token,
          cleanupLeaseUntil := some (stamp + cleanupLeaseSeconds) } }
    else store
  | .closeWriter nodeId stamp token, store =>
    if store.claimedBy nodeId stamp token ∧ store.output.executionState = some .writing then
      { store with output := { store.output with executionState := some .closed } }
    else store
  | .finishCleanup nodeId stamp token, store =>
    if store.claimedBy nodeId stamp token ∧ store.output.executionState = some .closed then
      { store with
        output := { store.output with cleanupState := some .cleaned }
        cleanedBy := some token }
    else store
  | .dropCleanup nodeId stamp token, store =>
    if store.claimedBy nodeId stamp token then store.unclaim else store

/-! ## The processes -/

inductive LockHolder
  | writer (w : WriterId)
  | cleaner (c : CleanerId)
  deriving DecidableEq

inductive WriterStage
  | locked
  | writing
  | closing
  | over
  deriving DecidableEq

structure ExportWriter where
  handle : JobHandle
  nodeId : String
  stage : WriterStage
  deriving DecidableEq

inductive CleanerStage
  | fetched
  | claimed
  | locked
  | removing
  | finishing
  | dropping
  | over
  deriving DecidableEq

/-- A cleaner that has found the export on its page. -/
structure ExportCleaner where
  nodeId : String
  stamp : Nat
  wasWriting : Bool
  number : Nat
  stage : CleanerStage
  deriving DecidableEq

structure ExportState (ρ : Type) where
  db : InFlight (ExportStore ρ) (ExportUpdate ρ)
  clock : Nat
  lock : Option LockHolder
  writers : WriterId → Option ExportWriter
  cleaners : CleanerId → Option ExportCleaner
  files : List String

inductive ExportAct (ρ : Type)
  | tick
  | job (update : JobUpdate ρ) (expiresAt : Nat) (o : Outcome)
  | lockWriter (w : WriterId) (handle : JobHandle) (nodeId : String)
  | beginOutput (w : WriterId) (o : Outcome)
  | write (w : WriterId) (name : String)
  | unlockWriter (w : WriterId)
  | closeOutput (w : WriterId) (o : Outcome)
  | killWriter (w : WriterId)
  | pull (stamp : Nat) (o : Outcome)
  | acquire (reader : ReaderId) (nodeId : String) (stamp : Nat) (o : Outcome)
  | renew (reader : ReaderId) (nodeId : String) (now : Nat) (o : Outcome)
  | release (reader : ReaderId) (nodeId : String) (o : Outcome)
  | recoverClaim (nodeId : String) (stamp : Nat) (o : Outcome)
  | fetch (c : CleanerId) (nodeId : String) (stamp : Nat)
  | pullCandidate (c : CleanerId) (o : Outcome)
  | claimCleanup (c : CleanerId) (o : Outcome)
  | lockCleaner (c : CleanerId)
  | closeWriter (c : CleanerId) (o : Outcome)
  | remove (c : CleanerId) (name : String)
  | unlockCleaner (c : CleanerId)
  | finishCleanup (c : CleanerId) (o : Outcome)
  | fail (c : CleanerId)
  | dropCleanup (c : CleanerId) (o : Outcome)
  | killCleaner (c : CleanerId)
  | land (index : Nat)

namespace ExportState

def send (s : ExportState ρ) (update : ExportUpdate ρ) (o : Outcome) : ExportState ρ :=
  { s with db := InFlight.send ExportUpdate.apply update o s.db }

def setWriter (s : ExportState ρ) (w : WriterId) (writer : ExportWriter) (stage : WriterStage) :
    ExportState ρ :=
  { s with writers := Function.update s.writers w (some { writer with stage }) }

def setCleaner (s : ExportState ρ) (c : CleanerId) (cleaner : ExportCleaner)
    (stage : CleanerStage) : ExportState ρ :=
  { s with cleaners := Function.update s.cleaners c (some { cleaner with stage }) }

/-- The kernel releases the lock of a holder that closes it or dies. -/
def unlock (s : ExportState ρ) (holder : LockHolder) : ExportState ρ :=
  { s with lock := if s.lock = some holder then none else s.lock }

end ExportState

def ExportCleaner.token (cleaner : ExportCleaner) (c : CleanerId) : CleanupToken :=
  ⟨c, cleaner.number⟩

def lockWriterAct (w : WriterId) (handle : JobHandle) (nodeId : String) (s : ExportState ρ) :
    Option (ExportState ρ) := do
  guard (s.writers w = none ∧ s.lock = none)
  let writer : ExportWriter := { handle, nodeId, stage := .locked }
  let s := s.setWriter w writer .locked
  return { s with lock := some (.writer w) }

/-- `_begin_download_output`; a writer that is not registered gives the lock back. -/
def beginOutputAct (w : WriterId) (o : Outcome) (s : ExportState ρ) :
    Option (ExportState ρ) := do
  let writer ← s.writers w
  guard (writer.stage = .locked)
  let sent := s.send (.beginOutput writer.handle writer.nodeId) o
  if o = .performed ∧ s.db.store.writable writer.handle then
    return sent.setWriter w writer .writing
  else return (sent.setWriter w writer .over).unlock (.writer w)

def writeAct (w : WriterId) (name : String) (s : ExportState ρ) : Option (ExportState ρ) := do
  let writer ← s.writers w
  guard (writer.stage = .writing)
  return { s with files := name :: s.files }

def unlockWriterAct (w : WriterId) (s : ExportState ρ) : Option (ExportState ρ) := do
  let writer ← s.writers w
  guard (writer.stage = .writing)
  return (s.setWriter w writer .closing).unlock (.writer w)

def closeOutputAct (w : WriterId) (o : Outcome) (s : ExportState ρ) :
    Option (ExportState ρ) := do
  let writer ← s.writers w
  guard (writer.stage = .closing)
  return (s.send (.closeOutput writer.handle writer.nodeId) o).setWriter w writer .over

def killWriterAct (w : WriterId) (s : ExportState ρ) : Option (ExportState ρ) := do
  let writer ← s.writers w
  return (s.setWriter w writer .over).unlock (.writer w)

/-- The export is on the page a cleaner has read. -/
def fetchExport (c : CleanerId) (nodeId : String) (stamp : Nat) (s : ExportState ρ) :
    Option (ExportState ρ) := do
  guard (s.cleaners c = none ∧ stamp ≤ s.clock)
  guard (s.db.store.cleanable nodeId stamp && s.db.store.uncleaned)
  let wasWriting : Bool := s.db.store.output.executionState = some .writing
  return s.setCleaner c { nodeId, stamp, wasWriting, number := 0, stage := .fetched } .fetched

def pullCandidateAct (c : CleanerId) (o : Outcome) (s : ExportState ρ) :
    Option (ExportState ρ) := do
  let cleaner ← s.cleaners c
  guard (cleaner.stage = .fetched)
  return s.send (.pullCandidate cleaner.nodeId cleaner.stamp) o

/-- The claim, with a new token. -/
def claimCleanupAct (c : CleanerId) (o : Outcome) (s : ExportState ρ) :
    Option (ExportState ρ) := do
  let cleaner ← s.cleaners c
  guard (cleaner.stage = .fetched)
  let cleaner := { cleaner with number := cleaner.number + 1 }
  let matched := s.db.store.claimableBy cleaner.nodeId cleaner.stamp
  let sent := s.send (.claimCleanup cleaner.nodeId cleaner.stamp (cleaner.token c)) o
  return sent.setCleaner c cleaner (if o = .performed ∧ matched then .claimed else .dropping)

/-- The lock is tried once. -/
def lockCleanerAct (c : CleanerId) (s : ExportState ρ) : Option (ExportState ρ) := do
  let cleaner ← s.cleaners c
  guard (cleaner.stage = .claimed)
  if s.lock = none then
    let s := s.setCleaner c cleaner .locked
    return { s with lock := some (.cleaner c) }
  else return s.setCleaner c cleaner .dropping

/-- Under the lock, an export that was being written is closed first. -/
def closeWriterAct (c : CleanerId) (o : Outcome) (s : ExportState ρ) :
    Option (ExportState ρ) := do
  let cleaner ← s.cleaners c
  guard (cleaner.stage = .locked)
  if cleaner.wasWriting then
    let token := cleaner.token c
    let matched := s.db.store.claimedBy cleaner.nodeId cleaner.stamp token ∧
      s.db.store.output.executionState = some .writing
    let sent := s.send (.closeWriter cleaner.nodeId cleaner.stamp token) o
    if o = .performed ∧ matched then return sent.setCleaner c cleaner .removing
    else return (sent.setCleaner c cleaner .dropping).unlock (.cleaner c)
  else return s.setCleaner c cleaner .removing

def removeAct (c : CleanerId) (name : String) (s : ExportState ρ) : Option (ExportState ρ) := do
  let cleaner ← s.cleaners c
  guard (cleaner.stage = .removing)
  return { s with files := s.files.filter fun file => file ≠ name }

def unlockCleanerAct (c : CleanerId) (s : ExportState ρ) : Option (ExportState ρ) := do
  let cleaner ← s.cleaners c
  guard (cleaner.stage = .removing)
  return (s.setCleaner c cleaner .finishing).unlock (.cleaner c)

def finishCleanupAct (c : CleanerId) (o : Outcome) (s : ExportState ρ) :
    Option (ExportState ρ) := do
  let cleaner ← s.cleaners c
  guard (cleaner.stage = .finishing)
  let sent := s.send (.finishCleanup cleaner.nodeId cleaner.stamp (cleaner.token c)) o
  return sent.setCleaner c cleaner (if o = .performed then .over else .dropping)

/-- An exception under the lock. -/
def failCleanerAct (c : CleanerId) (s : ExportState ρ) : Option (ExportState ρ) := do
  let cleaner ← s.cleaners c
  guard (cleaner.stage = .locked ∨ cleaner.stage = .removing)
  return (s.setCleaner c cleaner .dropping).unlock (.cleaner c)

/-- The claim is given back; the other directory of the export may be tried next. -/
def dropCleanupAct (c : CleanerId) (o : Outcome) (s : ExportState ρ) :
    Option (ExportState ρ) := do
  let cleaner ← s.cleaners c
  guard (cleaner.stage = .dropping)
  let sent := s.send (.dropCleanup cleaner.nodeId cleaner.stamp (cleaner.token c)) o
  return sent.setCleaner c cleaner (if o = .performed then .fetched else .over)

def killCleanerAct (c : CleanerId) (s : ExportState ρ) : Option (ExportState ρ) := do
  let cleaner ← s.cleaners c
  return (s.setCleaner c cleaner .over).unlock (.cleaner c)

/-- An update that depends on a reading of the clock. -/
def sendAt (now : Nat) (update : ExportUpdate ρ) (o : Outcome) (s : ExportState ρ) :
    Option (ExportState ρ) := do
  guard (now ≤ s.clock)
  return s.send update o

def ExportAct.apply : ExportAct ρ → ExportState ρ → Option (ExportState ρ)
  | .tick, s => some { s with clock := s.clock + 1 }
  | .job update expiresAt o, s => some (s.send (.job update expiresAt) o)
  | .lockWriter w handle nodeId, s => lockWriterAct w handle nodeId s
  | .beginOutput w o, s => beginOutputAct w o s
  | .write w name, s => writeAct w name s
  | .unlockWriter w, s => unlockWriterAct w s
  | .closeOutput w o, s => closeOutputAct w o s
  | .killWriter w, s => killWriterAct w s
  | .pull stamp o, s => sendAt stamp (.pull stamp) o s
  | .acquire reader nodeId stamp o, s => sendAt stamp (.acquire reader nodeId stamp) o s
  | .renew reader nodeId now o, s => sendAt now (.renew reader nodeId now) o s
  | .release reader nodeId o, s => some (s.send (.release reader nodeId) o)
  | .recoverClaim nodeId stamp o, s => sendAt stamp (.recoverClaim nodeId stamp) o s
  | .fetch c nodeId stamp, s => fetchExport c nodeId stamp s
  | .pullCandidate c o, s => pullCandidateAct c o s
  | .claimCleanup c o, s => claimCleanupAct c o s
  | .lockCleaner c, s => lockCleanerAct c s
  | .closeWriter c o, s => closeWriterAct c o s
  | .remove c name, s => removeAct c name s
  | .unlockCleaner c, s => unlockCleanerAct c s
  | .finishCleanup c o, s => finishCleanupAct c o s
  | .fail c, s => failCleanerAct c s
  | .dropCleanup c o, s => dropCleanupAct c o s
  | .killCleaner c, s => killCleanerAct c s
  | .land index, s => (InFlight.land ExportUpdate.apply index s.db).map fun db => { s with db }

/-- A job that has been submitted, and no process at its export. -/
structure ExportInitial (s : ExportState ρ) : Prop where
  status : s.db.store.document.status = .queued
  cleanupState : s.db.store.output.cleanupState = none
  readers : s.db.store.output.readers = []
  cleanedBy : s.db.store.cleanedBy = none
  late : s.db.late = []
  lock : s.lock = none
  writers : ∀ w, s.writers w = none
  cleaners : ∀ c, s.cleaners c = none

def ExportStep (s t : ExportState ρ) : Prop := ∃ act : ExportAct ρ, act.apply s = some t

end CameraLogs.Logs

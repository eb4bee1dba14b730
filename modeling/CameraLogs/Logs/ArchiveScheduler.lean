import CameraLogs.Lib.Dict
import CameraLogs.Lib.Run
import Mathlib.Data.Finset.Basic
import Mathlib.Data.Finset.Card
import Mathlib.Algebra.GroupWithZero.Nat

/-!
# The scheduler of background archives

Archives are published one at a time by a dispatcher that takes jobs from a queue. A
recoverable archive is scheduled under its identity: it is admitted below a limit, which is
lower for the archives that a writer seals, and its completion callback takes the identity
back out of the books and keeps the failed ones off for a while.

Closing waits for the dispatcher. When that takes too long it stops the dispatcher, and what
is enqueued from then on is completed at once, as cancelled, until the close has returned.

The code between two waits is one step. A dispatcher that is cancelled before its first step
never runs, and never takes its own name out.
-/

namespace CameraLogs.Logs

open CameraLogs.Lib

def MAX_SCHEDULED_ARCHIVES : Nat := 8
def RESERVED_RECOVERY_ARCHIVES : Nat := 2
def ARCHIVE_RETRY_BASE_SECONDS : Nat := 30
def ARCHIVE_RETRY_MAX_SECONDS : Nat := 300
def ARCHIVE_RETRY_MAX_EXPONENT : Nat := 4
def MAX_ARCHIVE_RETRY_ENTRIES : Nat := 1024

inductive ArchiveKind
  | archive | spool
  deriving DecidableEq

variable {π : Type} [DecidableEq π]

/-- A `BackgroundJob` of an archive; `token` is its own. A job that is waited for has no
callback. -/
structure ArchiveJob (π : Type) where
  kind : ArchiveKind
  identity : π
  token : Nat
  admissionLimit : Nat
  callback : Bool
  deriving DecidableEq

inductive ArchiveOutcome
  | succeeded | failed | cancelled
  deriving DecidableEq

/-- The books of the scheduled archives. -/
structure ArchiveBooks (π : Type) where
  scheduledTargets : Finset π
  /-- A future is named by the token of its job. -/
  scheduledFutures : List (π × Nat)
  retryNotBefore : List (π × Nat)
  retryAttempts : List (π × Nat)
  /-- The callbacks that have run; nothing reads it. -/
  completed : List Nat

def without (identity : π) (entries : List (π × Nat)) : List (π × Nat) :=
  entries.filter fun entry => entry.1 ≠ identity

def retryDelay (attempts : Nat) : Nat :=
  min (ARCHIVE_RETRY_BASE_SECONDS * 2 ^ min (attempts - 1) ARCHIVE_RETRY_MAX_EXPONENT)
    ARCHIVE_RETRY_MAX_SECONDS

namespace ArchiveBooks

variable (books : ArchiveBooks π)

def forgetRetry (identity : π) : ArchiveBooks π :=
  { books with
    retryNotBefore := without identity books.retryNotBefore
    retryAttempts := without identity books.retryAttempts }

/-- The failures of an archive, with this one. -/
def attemptsOf (identity : π) : Nat :=
  min (((Dict.lookup Prod.fst identity books.retryAttempts).map Prod.snd).getD 0 + 1)
    (ARCHIVE_RETRY_MAX_EXPONENT + 1)

def countAttempt (identity : π) : ArchiveBooks π :=
  { books with
    retryAttempts := Dict.upsert Prod.fst (identity, books.attemptsOf identity)
      books.retryAttempts }

/-- Where there is no room for a new key, the oldest one is dropped. -/
def makeRoom (identity : π) : ArchiveBooks π :=
  match books.retryNotBefore with
  | oldest :: _ =>
    if identity ∉ books.retryNotBefore.map Prod.fst ∧
        MAX_ARCHIVE_RETRY_ENTRIES ≤ books.retryNotBefore.length then
      books.forgetRetry oldest.1
    else books
  | [] => books

def keepOff (identity : π) (notBefore : Nat) : ArchiveBooks π :=
  { books with
    retryNotBefore := Dict.upsert Prod.fst (identity, notBefore) books.retryNotBefore }

/-- A failure: the archive is kept off until its delay is over. -/
def noteFailure (identity : π) (tick : Nat) : ArchiveBooks π :=
  ((books.countAttempt identity).makeRoom identity).keepOff identity
    (tick + retryDelay (books.attemptsOf identity))

def release (job : ArchiveJob π) : ArchiveBooks π :=
  { books with
    scheduledTargets := books.scheduledTargets.erase job.identity
    scheduledFutures := without job.identity books.scheduledFutures
    completed := books.completed ++ [job.token] }

/-- `complete`, the callback of a scheduled archive. -/
def complete (job : ArchiveJob π) (outcome : ArchiveOutcome) (tick : Nat) : ArchiveBooks π :=
  match outcome with
  | .succeeded => (books.release job).forgetRetry job.identity
  | .cancelled => books.release job
  | .failed => (books.release job).noteFailure job.identity tick

/-- The callback of a job, if it has one. -/
def settle (job : ArchiveJob π) (outcome : ArchiveOutcome) (tick : Nat) : ArchiveBooks π :=
  if job.callback then books.complete job outcome tick else books

/-- The jobs of a queue are given up. -/
def cancelAll (jobs : List (ArchiveJob π)) : ArchiveBooks π :=
  jobs.foldl (fun books job => books.settle job .cancelled 0) books

end ArchiveBooks

/-- What the name of the dispatcher stands for. -/
inductive ArchiveDispatcher
  | absent
  /-- A task that has not taken its first step. -/
  | created
  | started
  /-- A task cancelled before its first step. -/
  | stillborn
  deriving DecidableEq

/-- `_start_dispatcher` -/
def ArchiveDispatcher.start : ArchiveDispatcher → ArchiveDispatcher
  | .absent | .stillborn => .created
  | .created => .created
  | .started => .started

inductive ClosePhase
  | idle
  /-- Waiting for the dispatcher. -/
  | draining
  /-- The wait has timed out: the dispatcher is stopped. -/
  | terminating
  /-- The dispatcher is gone, the pools are being shut down. -/
  | pools
  deriving DecidableEq

structure ArchiveScheduler (π : Type) where
  books : ArchiveBooks π
  archiveJobs : List (ArchiveJob π)
  running : Option (ArchiveJob π)
  dispatcher : ArchiveDispatcher
  closing : Bool
  close : ClosePhase
  nextToken : Nat
  /-- The jobs with a callback that were admitted; nothing reads it. -/
  admitted : List Nat
  /-- The next token when the last close had drained the dispatcher; nothing reads it. -/
  drainedAt : Nat

namespace ArchiveScheduler

variable (s : ArchiveScheduler π)

/-- `_enqueue` -/
def enqueue (job : ArchiveJob π) : ArchiveScheduler π :=
  if s.closing then { s with books := s.books.settle job .cancelled 0 }
  else { s with archiveJobs := s.archiveJobs ++ [job], dispatcher := s.dispatcher.start }

/-- An archive that is there goes on to be enqueued. -/
def Admits (identity : π) (admissionLimit : Nat) (pathExists : Bool) (tick : Nat) : Prop :=
  pathExists = true ∧ identity ∉ s.books.scheduledTargets ∧
  ((Dict.lookup Prod.fst identity s.books.retryNotBefore).map Prod.snd).getD 0 ≤ tick ∧
  s.books.scheduledTargets.card < admissionLimit

instance (identity : π) (admissionLimit : Nat) (pathExists : Bool) (tick : Nat) :
    Decidable (s.Admits identity admissionLimit pathExists tick) :=
  inferInstanceAs (Decidable (_ ∧ _ ∧ _ ∧ _))

def newJob (kind : ArchiveKind) (identity : π) (admissionLimit : Nat) (callback : Bool) :
    ArchiveJob π :=
  { kind, identity, token := s.nextToken, admissionLimit, callback }

/-- `_schedule_archive`, past its checks. -/
def accept (kind : ArchiveKind) (identity : π) (admissionLimit : Nat) : ArchiveScheduler π :=
  let added :=
    { s with
      books := { s.books with scheduledTargets := insert identity s.books.scheduledTargets }
      nextToken := s.nextToken + 1
      admitted := s.admitted ++ [s.nextToken] }
  let enqueued := added.enqueue (s.newJob kind identity admissionLimit true)
  { enqueued with
    books := { enqueued.books with
      scheduledFutures := Dict.upsert Prod.fst (identity, s.nextToken)
        enqueued.books.scheduledFutures } }

/-- `_schedule_archive` -/
def scheduleArchive (kind : ArchiveKind) (identity : π) (admissionLimit : Nat)
    (pathExists : Bool) (tick : Nat) : ArchiveScheduler π :=
  if pathExists = false then { s with books := s.books.forgetRetry identity }
  else if s.Admits identity admissionLimit pathExists tick then s.accept kind identity admissionLimit
  else s

/-- `schedule_pending_archive`, for a writer that seals an archive or for a recovery. -/
def schedulePending (identity : π) (recovery pathExists : Bool) (tick : Nat) :
    ArchiveScheduler π :=
  s.scheduleArchive .spool identity
    (if recovery then MAX_SCHEDULED_ARCHIVES
    else MAX_SCHEDULED_ARCHIVES - RESERVED_RECOVERY_ARCHIVES) pathExists tick

/-- `schedule_recovery_archive` -/
def scheduleRecovery (identity : π) (pathExists : Bool) (tick : Nat) : ArchiveScheduler π :=
  s.scheduleArchive .archive identity MAX_SCHEDULED_ARCHIVES pathExists tick

/-- `compress_hour` and `compress_spool` enqueue a job that they wait for. -/
def compress (kind : ArchiveKind) (identity : π) : ArchiveScheduler π :=
  { s with nextToken := s.nextToken + 1 }.enqueue (s.newJob kind identity 0 false)

/-- The dispatcher takes the next job, or comes to its end. -/
def dispatch : ArchiveScheduler π :=
  match s.archiveJobs with
  | job :: jobs => { s with archiveJobs := jobs, running := some job, dispatcher := .started }
  | [] => { s with dispatcher := .absent }

/-- The job of the dispatcher has an outcome. A cancelled one takes the dispatcher and the
queue with it. -/
def finish (job : ArchiveJob π) (outcome : ArchiveOutcome) (tick : Nat) : ArchiveScheduler π :=
  let settled := { s with books := s.books.settle job outcome tick, running := none }
  match outcome with
  | .cancelled =>
    { settled with
      books := settled.books.cancelAll s.archiveJobs, archiveJobs := [], dispatcher := .absent }
  | .succeeded | .failed => settled

/-- The dispatcher is asked to stop when the close has waited long enough. -/
def timeout : ArchiveScheduler π :=
  { s with
    closing := true
    close := .terminating
    dispatcher := if s.dispatcher = .created then .stillborn else s.dispatcher }

/-- The wait is over; after a time-out `_cancel_queued_jobs` gives up what is queued. -/
def drained : ArchiveScheduler π :=
  if s.close = .terminating then
    { s with
      books := s.books.cancelAll s.archiveJobs, archiveJobs := [], close := .pools
      drainedAt := s.nextToken }
  else { s with close := .pools, drainedAt := s.nextToken }

end ArchiveScheduler

inductive ArchiveAct (π : Type)
  | schedulePending (identity : π) (recovery pathExists : Bool) (tick : Nat)
  | scheduleRecovery (identity : π) (pathExists : Bool) (tick : Nat)
  | compress (kind : ArchiveKind) (identity : π)
  | dispatch
  | finish (outcome : ArchiveOutcome) (tick : Nat)
  /-- `shutdown_compression` and its steps. -/
  | close
  | timeout
  | drained
  | closed
  /-- The close is cancelled or fails: only its `finally` runs. -/
  | abandoned

def ArchiveAct.apply (act : ArchiveAct π) (s : ArchiveScheduler π) :
    Option (ArchiveScheduler π) :=
  match act with
  | .schedulePending identity recovery pathExists tick =>
    some (s.schedulePending identity recovery pathExists tick)
  | .scheduleRecovery identity pathExists tick => some (s.scheduleRecovery identity pathExists tick)
  | .compress kind identity => some (s.compress kind identity)
  | .dispatch => do
    guard (s.running = none ∧ (s.dispatcher = .created ∨ s.dispatcher = .started))
    return s.dispatch
  | .finish outcome tick => do
    let job ← s.running
    return s.finish job outcome tick
  | .close => do
    guard (s.close = .idle)
    return { s with close := .draining }
  | .timeout => do
    guard (s.close = .draining)
    return s.timeout
  | .drained => do
    guard ((s.close = .draining ∨ s.close = .terminating) ∧ s.dispatcher = .absent)
    return s.drained
  | .closed => do
    guard (s.close = .pools)
    return { s with close := .idle, closing := false }
  | .abandoned => do
    guard (s.close ≠ .idle)
    return { s with close := .idle, closing := false }

def ArchiveStart (s : ArchiveScheduler π) : Prop :=
  s = { books := ⟨∅, [], [], [], []⟩, archiveJobs := [], running := none, dispatcher := .absent,
        closing := false, close := .idle, nextToken := 0, admitted := [], drainedAt := 0 }

def ArchiveStep (s t : ArchiveScheduler π) : Prop := ∃ act : ArchiveAct π, act.apply s = some t

/-- The act would admit an archive while a close that has timed out is under way. -/
def AdmitsClosing (s : ArchiveScheduler π) : ArchiveAct π → Prop
  | .schedulePending identity recovery pathExists tick =>
    s.closing = true ∧ s.Admits identity
      (if recovery then MAX_SCHEDULED_ARCHIVES
      else MAX_SCHEDULED_ARCHIVES - RESERVED_RECOVERY_ARCHIVES) pathExists tick
  | .scheduleRecovery identity pathExists tick =>
    s.closing = true ∧ s.Admits identity MAX_SCHEDULED_ARCHIVES pathExists tick
  | _ => False

/-- A step that admits nothing while a close that has timed out is under way. -/
def OpenStep (s t : ArchiveScheduler π) : Prop :=
  ∃ act : ArchiveAct π, act.apply s = some t ∧ ¬ AdmitsClosing s act

end CameraLogs.Logs

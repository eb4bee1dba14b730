import CameraLogs.Lib.Run
import CameraLogs.Lib.Snapshot
import CameraLogs.Tasks.Records

/-!
# Probing a device

The scheduler of every server process lists the devices that are due, claims one after the
other by a lease in the device's document, and authenticates with the credentials it found
there. Users authenticate a device by hand, and they edit it. The answer of the device comes
after any delay; it is then committed in a transaction, under a filter that is meant to let
it through only if it is still about the device as it was read.

A transaction is an `Attempt`: it has read the document at one version and lands only where
the document is still at that version. The driver may run the callback again, and an attempt
of unknown outcome may land late or never, so attempts are never taken back here. The changes of
`healthRevision` are remembered in `history`, the newest first.
-/

namespace CameraLogs.Resources

open CameraLogs.Lib
open CameraLogs.Tasks (HealthStatus)

variable {μ : Type}

abbrev CallId := Nat
abbrev LeaseToken := Nat

structure Credentials where
  username : String
  passwordEncrypted : String
  authType : String
  deriving DecidableEq

/-- The document of a device; `μ` is what the device tells of itself. Times are clock
readings in seconds. -/
structure ResourceDocument (μ : Type) where
  version : Nat
  /-- The kind is `HIKVISION_NETWORK`. -/
  network : Bool
  deleted : Bool
  credentials : Credentials
  metadata : μ
  healthStatus : HealthStatus
  healthFailureCount : Option Nat
  nextHealthCheckAt : Option Nat
  authRejectedAt : Option Nat
  healthRevision : Option Nat
  healthLeaseUntil : Option Nat
  healthLeaseStartedAt : Option Nat
  healthLeaseToken : Option LeaseToken

/-- The document a result is about, as `check_resource` or the request has it. -/
structure HealthSnapshot (μ : Type) extends ResourceDocument μ where
  manualHealthResult : Bool

/-- What a device answered. -/
inductive ProbeResult (μ : Type)
  | success (metadata : μ)
  | authFailed
  | offline
  | error

def healthIntervalSeconds : Nat := 60

def healthLeaseSeconds : Nat := 20

/-- `failure_backoff_seconds` -/
def failureBackoffSeconds (failures : Nat) : Nat :=
  if failures < 10 then 60 else if failures < 22 then 300
  else if failures < 46 then 3600 else 86400

/-! ## Committing a result -/

/-- `_result_filter` -/
def resultFilter (snapshot : HealthSnapshot μ) (document : ResourceDocument μ) : Bool :=
  !document.deleted &&
    if snapshot.manualHealthResult then
      document.version = snapshot.version ∧
        document.credentials.passwordEncrypted = snapshot.credentials.passwordEncrypted ∧
        document.healthRevision = snapshot.healthRevision
    else if snapshot.healthLeaseToken.isSome then
      document.healthRevision = snapshot.healthRevision ∧
        document.healthLeaseToken = snapshot.healthLeaseToken
    else true

/-- `_resume_requested_after_probe`; `waiting` are the times at which the tasks that wait for
the device have asked to be resumed. -/
def resumeRequestedAfterProbe (waiting : List Nat) (snapshot : HealthSnapshot μ)
    (resource : ResourceDocument μ) : Bool :=
  match snapshot.healthLeaseStartedAt, resource.nextHealthCheckAt with
  | some startedAt, some nextCheckAt =>
    resource.nextHealthCheckAt ≠ snapshot.nextHealthCheckAt ∧ startedAt < nextCheckAt ∧
      waiting.any fun requestedAt => startedAt ≤ requestedAt
  | _, _ => false

/-- What a result changes of the document. -/
structure HealthChanges (μ : Type) where
  healthStatus : HealthStatus
  healthFailureCount : Nat
  nextHealthCheckAt : Nat
  authRejectedAt : Option Nat → Option Nat
  metadata : μ → μ

/-- `_commit_health_result`: the document after the commit, if the filter finds it. -/
def commitHealthResult (waiting : List Nat) (snapshot : HealthSnapshot μ)
    (changes : HealthChanges μ) (current : ResourceDocument μ) : Option (ResourceDocument μ) :=
  if resultFilter snapshot current then
    let leased := snapshot.healthLeaseToken.isSome
    some { current with
      healthStatus := changes.healthStatus
      healthFailureCount := some changes.healthFailureCount
      nextHealthCheckAt :=
        if resumeRequestedAfterProbe waiting snapshot current then current.nextHealthCheckAt
        else some changes.nextHealthCheckAt
      authRejectedAt := changes.authRejectedAt current.authRejectedAt
      metadata := changes.metadata current.metadata
      healthRevision := some (current.healthRevision.getD 0 + 1)
      healthLeaseUntil := if leased then none else current.healthLeaseUntil
      healthLeaseStartedAt := if leased then none else current.healthLeaseStartedAt
      healthLeaseToken := if leased then none else current.healthLeaseToken }
  else none

/-- The changes of `_apply_failure_commit`. -/
def failureChanges (timestamp : Nat) (snapshot : HealthSnapshot μ) (status : HealthStatus)
    (advanceFailure : Bool) : HealthChanges μ :=
  let count := snapshot.healthFailureCount.getD 0
  let failures := if advanceFailure then count + 1 else count
  { healthStatus := status
    healthFailureCount := failures
    nextHealthCheckAt :=
      if advanceFailure then timestamp + failureBackoffSeconds failures
      else snapshot.nextHealthCheckAt.getD timestamp
    authRejectedAt := fun rejectedAt => if status = .authFailed then some timestamp else rejectedAt
    metadata := id }

/-- The changes of `_apply_success_commit`. -/
def successChanges (timestamp : Nat) (metadata : μ) : HealthChanges μ where
  healthStatus := .online
  healthFailureCount := 0
  nextHealthCheckAt := timestamp + healthIntervalSeconds
  authRejectedAt := fun _ => none
  metadata := fun _ => metadata

/-- `check_resource` and `apply_manual_result`: a periodic failure advances the count of
failures, one by hand does not. -/
def resultChanges (timestamp : Nat) (snapshot : HealthSnapshot μ) :
    ProbeResult μ → HealthChanges μ
  | .success metadata => successChanges timestamp metadata
  | .authFailed =>
    failureChanges timestamp snapshot .authFailed (!snapshot.manualHealthResult)
  | .offline => failureChanges timestamp snapshot .offline (!snapshot.manualHealthResult)
  | .error => failureChanges timestamp snapshot .error (!snapshot.manualHealthResult)

/-! ## Claiming and editing -/

/-- The filter of the claim in `health_once`. -/
def claimFilter (item : ResourceDocument μ) (claimedAt : Nat) (document : ResourceDocument μ) :
    Bool :=
  !document.deleted &&
    (document.healthRevision = some (item.healthRevision.getD 0) ||
      document.healthRevision.isNone) &&
    document.healthLeaseUntil.all fun leaseUntil => leaseUntil ≤ claimedAt

/-- The document once it is claimed. -/
def claimedDocument (claimedAt : Nat) (token : LeaseToken) (document : ResourceDocument μ) :
    ResourceDocument μ :=
  { document with
    healthLeaseUntil := some (claimedAt + healthLeaseSeconds)
    healthLeaseStartedAt := some claimedAt
    healthLeaseToken := some token
    healthRevision := some (document.healthRevision.getD 0 + 1) }

/-- What the claimer goes on with: the document as it was before the claim, but for the
three fields it sets itself. -/
def claimedSnapshot (item : ResourceDocument μ) (claimedAt : Nat) (token : LeaseToken)
    (document : ResourceDocument μ) : HealthSnapshot μ :=
  { document with
    healthRevision := some (item.healthRevision.getD 0 + 1)
    healthLeaseToken := some token
    healthLeaseStartedAt := some claimedAt
    manualHealthResult := false }

/-- What a user sends to edit a device, with the answer of the device to it. An edit writes
the credentials anew even where they stay the same. -/
structure ResourceEdit (μ : Type) where
  version : Nat
  credentials : Credentials
  metadata : μ

/-- The update of `edit_resource`, if its filter finds the document. -/
def editResource (timestamp : Nat) (edit : ResourceEdit μ) (document : ResourceDocument μ) :
    Option (ResourceDocument μ) :=
  if document.version = edit.version ∧ document.deleted = false then
    if document.network then
      some { document with
        version := document.version + 1
        credentials := edit.credentials
        metadata := edit.metadata
        healthStatus := .online
        healthFailureCount := some 0
        nextHealthCheckAt := some (timestamp + healthIntervalSeconds)
        authRejectedAt := none
        healthRevision := some (document.healthRevision.getD 0 + 1) }
    else some { document with version := document.version + 1 }
  else none

/-! ## The history of one device -/

/-- A committed result: the call it comes from, the token it was claimed with, if any, how
many changes of the revision there had been when its credentials were read, which
credentials it tested, and whether they were accepted. -/
structure Committed where
  callId : CallId
  token : Option LeaseToken
  readAt : Nat
  tested : Credentials
  accepted : Bool
  deriving DecidableEq

inductive HealthEvent
  | claim (token : LeaseToken)
  | result (committed : Committed)
  | edit
  deriving DecidableEq

/-- The periodic failures since the last success or edit. -/
def failuresSince : List HealthEvent → Nat
  | [] => 0
  | .claim _ :: earlier => failuresSince earlier
  | .edit :: _ => 0
  | .result committed :: earlier =>
    if committed.accepted then 0
    else if committed.token.isSome then failuresSince earlier + 1
    else failuresSince earlier

/-- A transaction that has run its callback: it lands on the version it has read. -/
structure Attempt (μ : Type) where
  seen : Versioned (ResourceDocument μ)
  written : ResourceDocument μ
  events : List HealthEvent

inductive HealthCall (μ : Type)
  | listed (item : ResourceDocument μ)
  | claiming (item : ResourceDocument μ) (claimedAt : Nat)
  | testing (snapshot : HealthSnapshot μ) (readAt : Nat)
  | committing (snapshot : HealthSnapshot μ) (readAt : Nat) (result : ProbeResult μ)
  | editing (edit : ResourceEdit μ)
  | returned

structure HealthState (μ : Type) where
  resource : Versioned (ResourceDocument μ)
  waiting : List Nat
  now : Nat
  calls : CallId → Option (HealthCall μ)
  attempts : List (Attempt μ)
  history : List HealthEvent

/-- The claim of a result, for the history: only a periodic result has one. -/
def HealthSnapshot.claim (snapshot : HealthSnapshot μ) : Option LeaseToken :=
  if snapshot.manualHealthResult then none else snapshot.healthLeaseToken

def ProbeResult.accepted : ProbeResult μ → Bool
  | success _ => true
  | _ => false

namespace HealthState

variable (s : HealthState μ)

def setCall (i : CallId) (call : HealthCall μ) : HealthState μ :=
  { s with calls := Function.update s.calls i (some call) }

def withEvent (document : ResourceDocument μ) (events : List HealthEvent) : HealthState μ :=
  { s with resource := s.resource.write document, history := events ++ s.history }

/-- One run of the callback that commits a result. -/
def attemptResult (i : CallId) (snapshot : HealthSnapshot μ) (readAt : Nat)
    (result : ProbeResult μ) : Option (Attempt μ) :=
  (commitHealthResult s.waiting snapshot (resultChanges s.now snapshot result)
    s.resource.value).map fun written =>
      { seen := s.resource, written
        events := [.result
          ⟨i, snapshot.claim, readAt, snapshot.credentials, result.accepted⟩] }

/-- One run of the callback that commits an edit. -/
def attemptEdit (edit : ResourceEdit μ) : Option (Attempt μ) :=
  (editResource s.now edit s.resource.value).map fun written =>
    { seen := s.resource, written, events := if s.resource.value.network then [.edit] else [] }

end HealthState

inductive HealthAct (μ : Type)
  | list (i : CallId)
  | readClock (i : CallId)
  | claim (i : CallId) (token : LeaseToken)
  | readManual (i : CallId)
  | test (i : CallId) (result : ProbeResult μ)
  | readEdit (i : CallId) (edit : ResourceEdit μ)
  | begin_ (i : CallId)
  | commit (k : Nat)
  | write (version : Nat) (deleted : Bool) (nextHealthCheckAt : Option Nat)
  | wait (waiting : List Nat)
  | tick (seconds : Nat)

def HealthAct.apply (act : HealthAct μ) (s : HealthState μ) : Option (HealthState μ) :=
  match act with
  -- `health_once` finds the device due
  | .list i => do
    guard (s.calls i = none ∧ s.resource.value.network ∧ s.resource.value.deleted = false ∧
      s.resource.value.nextHealthCheckAt.all fun checkAt => checkAt ≤ s.now)
    pure (s.setCall i (.listed s.resource.value))
  | .readClock i =>
    match s.calls i with
    | some (.listed item) => some (s.setCall i (.claiming item s.now))
    | _ => none
  | .claim i token =>
    match s.calls i with
    | some (.claiming item claimedAt) => do
      guard (.claim token ∉ s.history)
      if claimFilter item claimedAt s.resource.value then
        let t := s.withEvent (claimedDocument claimedAt token s.resource.value) [.claim token]
        pure (t.setCall i (.testing (claimedSnapshot item claimedAt token s.resource.value)
          t.history.length))
      else pure (s.setCall i .returned)
    | _ => none
  -- `authenticate_existing_resource` without a body
  | .readManual i => do
    guard (s.calls i = none ∧ s.resource.value.network ∧ s.resource.value.deleted = false)
    pure (s.setCall i (.testing { s.resource.value with manualHealthResult := true }
      s.history.length))
  | .test i result =>
    match s.calls i with
    | some (.testing snapshot readAt) => some (s.setCall i (.committing snapshot readAt result))
    | _ => none
  -- `edit_resource`, once the device has answered
  | .readEdit i edit => do
    guard (s.calls i = none ∧ s.resource.value.deleted = false ∧
      s.resource.value.version = edit.version)
    pure (s.setCall i (.editing edit))
  | .begin_ i =>
    match s.calls i with
    | some (.committing snapshot readAt result) =>
      match s.attemptResult i snapshot readAt result with
      | some attempt => some { s with attempts := attempt :: s.attempts }
      | none => some (s.setCall i .returned)
    | some (.editing edit) =>
      match s.attemptEdit edit with
      | some attempt => some { s with attempts := attempt :: s.attempts }
      | none => some (s.setCall i .returned)
    | _ => none
  | .commit k => do
    let attempt ← s.attempts[k]?
    guard (attempt.seen.version = s.resource.version)
    pure (s.withEvent attempt.written attempt.events)
  -- a deletion, a request to resume, and whatever else writes other fields
  | .write version deleted nextHealthCheckAt =>
    some (s.withEvent { s.resource.value with version, deleted, nextHealthCheckAt } [])
  | .wait waiting => some { s with waiting }
  | .tick seconds => some { s with now := s.now + seconds }

def HealthStep (s t : HealthState μ) : Prop := ∃ act : HealthAct μ, act.apply s = some t

/-- A device as it was created. -/
structure HealthStart (s : HealthState μ) : Prop where
  failures : s.resource.value.healthFailureCount.getD 0 = 0
  revision : s.resource.value.healthRevision = none
  calls : s.calls = fun _ => none
  attempts : s.attempts = []
  history : s.history = []

abbrev ReachableHealth : HealthState μ → Prop := Reachable HealthStart HealthStep

end CameraLogs.Resources

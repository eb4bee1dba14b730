import CameraLogs.Lib.InFlight
import Mathlib.Logic.Function.Basic

/-!
# SSH connection slots

A device takes five SSH connections. One document for each endpoint holds the claims on
it, and every worker claims, releases and reconciles by conditional updates of that one
document. The outcome of an update may stay unknown to its sender; the update may then
still be applied at any later moment, or never.

An acquire binds its claim to the endpoint's admission epoch. When its outcome is unknown
no socket may be opened, and the claim is taken back by `reconcile`: first the epoch is
advanced, so that an acquire that is still in flight no longer matches, then the claim is
pulled in case it had been applied before.

`str(ip_address(value.strip()))` is the parameter `ipAddress`: nothing here depends on what
it returns.
-/

namespace CameraLogs.Collection

open CameraLogs.Lib

abbrev Token := Nat

/-- What admission reads of a task, or of the copy of it that a connection is made from. -/
structure SshTask where
  id : Option String
  runId : Option String
  generation : Option Nat
  nodeId : Option String
  ip : String
  port : Option Int
  deriving DecidableEq

/-- The fields of a claim that are fixed before it is sent. -/
structure ClaimOwner where
  taskId : String
  runId : String
  generation : Nat
  nodeId : String
  token : Token
  port : Int
  deriving DecidableEq

structure SlotClaim where
  owner : ClaimOwner
  claimedAt : Nat
  admissionEpoch : Option Nat
  deriving DecidableEq

/-- The document of one endpoint; older documents have no epoch. -/
structure SlotDoc where
  admissionEpoch : Option Nat
  claims : List SlotClaim
  deriving DecidableEq

/-- The collection `ssh_connection_slots`, by `_id`. -/
abbrev Slots := String → Option SlotDoc

def maxSshConnectionsPerDevice : Nat := 5
def initialUpsertRetries : Nat := 3

/-! ## Endpoints and claims -/

section
variable (ipAddress : String → Option String)

def normalizeSshAddress (value : String) : Option String := ipAddress value

/-- The key of an endpoint. Port 22 keeps the key of older versions, the address alone. -/
def normalizeSshEndpoint (value : String) (port : Option Int) : Option String :=
  match normalizeSshAddress ipAddress value with
  | none => none
  | some address =>
    let number := port.getD 22
    if ¬ (1 ≤ number ∧ number ≤ 65535) then none
    else if number = 22 then some address
    else if ':' ∈ address.toList then some ("[" ++ address ++ "]:" ++ toString number)
    else some (address ++ ":" ++ toString number)

def SshTask.endpoint (task : SshTask) : Option String :=
  normalizeSshEndpoint ipAddress task.ip task.port

end

/-- `_owner`, without the time: `none` where a field is missing and the source raises. -/
def claimOwner (task : SshTask) (token : Token) : Option ClaimOwner := do
  let taskId ← task.id
  let runId ← task.runId
  let generation ← task.generation
  let nodeId ← task.nodeId
  return { taskId, runId, generation, nodeId, token, port := task.port.getD 22 }

/-- What an update matches claims by: the owner, and the other fields where they are given. -/
structure ClaimPattern where
  owner : ClaimOwner
  claimedAt : Option Nat
  admissionEpoch : Option Nat
  deriving DecidableEq

def ClaimPattern.matches (pattern : ClaimPattern) (claim : SlotClaim) : Bool :=
  claim.owner = pattern.owner ∧
  (pattern.claimedAt = none ∨ some claim.claimedAt = pattern.claimedAt) ∧
  (pattern.admissionEpoch = none ∨ claim.admissionEpoch = pattern.admissionEpoch)

/-- The whole claim, as `release` gives it. -/
def SlotClaim.whole (claim : SlotClaim) : ClaimPattern :=
  { owner := claim.owner, claimedAt := some claim.claimedAt,
    admissionEpoch := claim.admissionEpoch }

/-! ## The updates of a document -/

/-- `_epoch_filter`: a document without the field counts as epoch 0. -/
def epochFilter (doc : SlotDoc) (admissionEpoch : Nat) : Bool :=
  if admissionEpoch = 0 then doc.admissionEpoch = some 0 ∨ doc.admissionEpoch = none
  else doc.admissionEpoch = some admissionEpoch

/-- The filter of the acquiring update; a missing document is inserted. -/
def admits (slots : Slots) (endpoint : String) (admissionEpoch : Nat) : Bool :=
  match slots endpoint with
  | none => true
  | some doc =>
    epochFilter doc admissionEpoch ∧ doc.claims.length < maxSshConnectionsPerDevice

/-- The owner fields that `release_task_slots` matches by; the node is not one of them. -/
structure RunOwner where
  taskId : String
  runId : String
  generation : Nat
  deriving DecidableEq

def RunOwner.matches (owner : RunOwner) (claim : SlotClaim) : Bool :=
  claim.owner.taskId = owner.taskId ∧ claim.owner.runId = owner.runId ∧
  claim.owner.generation = owner.generation

inductive SlotUpdate
  /-- `acquire`: push the claim if the epoch is still the one read and a slot is free. -/
  | push (endpoint : String) (claim : SlotClaim) (admissionEpoch : Nat)
  /-- `release`: pull the caller's own claim. -/
  | release (endpoint : String) (claim : SlotClaim)
  /-- `reconcile`, first: advance the epoch. -/
  | fence (endpoint : String)
  /-- `reconcile`, second: pull the claim by its owner. -/
  | pull (endpoint : String) (exact : ClaimPattern)
  /-- `release_task_slots`, on one of the documents it goes over. -/
  | releaseTask (endpoint : String) (owner : RunOwner)
  deriving DecidableEq

/-- Pull the claims of a document that a condition matches. -/
def pullClaims (slots : Slots) (endpoint : String) (condition : SlotClaim → Bool) : Slots :=
  match slots endpoint with
  | none => slots
  | some doc =>
    Function.update slots endpoint
      (some { doc with claims := doc.claims.filter fun claim => !condition claim })

def SlotUpdate.apply : SlotUpdate → Slots → Slots
  | .push endpoint claim epoch, slots =>
    if admits slots endpoint epoch then
      match slots endpoint with
      | none =>
        Function.update slots endpoint (some { admissionEpoch := some epoch, claims := [claim] })
      | some doc =>
        Function.update slots endpoint
          (some { admissionEpoch := some epoch, claims := doc.claims ++ [claim] })
    -- the filter excludes the existing document, so the upsert is a duplicate key
    else slots
  | .release endpoint claim, slots => pullClaims slots endpoint claim.whole.matches
  | .fence endpoint, slots =>
    match slots endpoint with
    | none => Function.update slots endpoint (some { admissionEpoch := some 1, claims := [] })
    | some doc =>
      Function.update slots endpoint
        (some { doc with admissionEpoch := some (doc.admissionEpoch.getD 0 + 1) })
  | .pull endpoint exact, slots => pullClaims slots endpoint exact.matches
  | .releaseTask endpoint owner, slots => pullClaims slots endpoint owner.matches

/-! ## The clients -/

/-- How far the acquire of a token has come, and what became of it. -/
inductive AdmissionPhase
  /-- Before the read of the epoch. -/
  | reading
  /-- Before the update. -/
  | writing
  /-- `acquire` has returned the token. -/
  | admitted
  /-- `SshCapacityError`. -/
  | full
  /-- `SshSlotUncertain` with `preconnect`. -/
  | uncertain
  /-- A reconcile has advanced the epoch. -/
  | fenced
  /-- A reconcile has returned. -/
  | reconciled
  deriving DecidableEq

/-- One call of `SshAdmission.acquire` with the state of its instance. -/
structure AdmissionCall where
  /-- The configuration the connection is made from. -/
  task : SshTask
  endpoint : String
  phase : AdmissionPhase
  attempt : Nat
  /-- The local `admission_epoch`, later that of the exception. -/
  admissionEpoch : Option Nat
  claim : SlotClaim
  /-- `self._claim` -/
  held : Option SlotClaim
  deriving DecidableEq

/-- The copy of the task a slave session connects by: the resource's shared extension port
in place of the task's own (`connect_slave`). A host session connects by the task itself. -/
def connectSlaveConfig (task : SshTask) (slaveSshPort : Int) : SshTask :=
  { task with port := some slaveSshPort }

structure AdmissionState where
  db : InFlight Slots SlotUpdate
  calls : Token → Option AdmissionCall
  /-- The token the next `new_id()` returns. -/
  nextToken : Token

def AdmissionState.setCall (s : AdmissionState) (token : Token) (call : AdmissionCall) :
    AdmissionState :=
  { s with calls := Function.update s.calls token (some call) }

def AdmissionState.send (s : AdmissionState) (update : SlotUpdate) (o : Outcome) :
    AdmissionState :=
  { s with db := InFlight.send SlotUpdate.apply update o s.db }

/-- The epoch an acquire reads: 0 for a missing document or field. -/
def epochAt (slots : Slots) (endpoint : String) : Nat :=
  match slots endpoint with
  | none => 0
  | some doc => doc.admissionEpoch.getD 0

def claimsAt (slots : Slots) (endpoint : String) : List SlotClaim :=
  match slots endpoint with
  | none => []
  | some doc => doc.claims

inductive AdmissionAct
  | start (task : SshTask) (now : Nat)
  | read (token : Token) (now : Nat) (o : Outcome)
  | write (token : Token) (o : Outcome)
  | release (token : Token) (o : Outcome)
  /-- A reconcile is given a task and an exception; the exception carries the token. -/
  | fence (token : Token) (task : SshTask) (o : Outcome)
  | pull (token : Token) (task : SshTask) (o : Outcome)
  | releaseTask (endpoint : String) (owner : RunOwner) (o : Outcome)
  /-- The database applies an update whose sender no longer waits for it. -/
  | land (index : Nat)
  deriving DecidableEq

/-- The constructor and the first lines of `acquire`: a new token, the endpoint fixed. -/
def startAct (ipAddress : String → Option String) (task : SshTask) (now : Nat)
    (s : AdmissionState) : Option AdmissionState := do
  let endpoint ← task.endpoint ipAddress
  let owner ← claimOwner task s.nextToken
  let claim := { owner, claimedAt := now, admissionEpoch := none }
  return { s.setCall s.nextToken
      { task, endpoint, phase := .reading, attempt := 0, admissionEpoch := none, claim,
        held := none } with
    nextToken := s.nextToken + 1 }

def readAct (token : Token) (now : Nat) (o : Outcome) (s : AdmissionState) :
    Option AdmissionState := do
  let call ← s.calls token
  if call.phase ≠ .reading then none
  else match o with
    | .performed =>
      let epoch := epochAt s.db.store call.endpoint
      return s.setCall token { call with
        phase := .writing, admissionEpoch := some epoch,
        claim := { call.claim with claimedAt := now, admissionEpoch := some epoch } }
    | .lost => return s.setCall token { call with phase := .uncertain, held := some call.claim }

def writeAct (token : Token) (o : Outcome) (s : AdmissionState) : Option AdmissionState := do
  let call ← s.calls token
  let epoch ← call.admissionEpoch
  if call.phase ≠ .writing then none
  else
    let sent := s.send (.push call.endpoint call.claim epoch) o
    match o with
    | .performed =>
      if admits s.db.store call.endpoint epoch then
        return sent.setCall token { call with phase := .admitted, held := some call.claim }
      else if call.attempt + 1 = initialUpsertRetries then
        return sent.setCall token { call with phase := .full, attempt := call.attempt + 1 }
      else return sent.setCall token { call with phase := .reading, attempt := call.attempt + 1 }
    | .lost => return sent.setCall token { call with phase := .uncertain, held := some call.claim }

/-- `release` returns at once when there is no claim; an unknown outcome keeps the claim. -/
def releaseAct (token : Token) (o : Outcome) (s : AdmissionState) : Option AdmissionState := do
  let call ← s.calls token
  let claim ← call.held
  let sent := s.send (.release call.endpoint claim) o
  match o with
  | .performed => return sent.setCall token { call with held := none }
  | .lost => return sent

/-- Any number of reconciles may be about one token; the phase is that of the furthest. -/
def AdmissionPhase.afterFence : AdmissionPhase → AdmissionPhase
  | .reconciled => .reconciled
  | _ => .fenced

/-- The first update of `reconcile_preconnect_uncertain_slot`, for the exception of `token`. -/
def fenceAct (ipAddress : String → Option String) (token : Token) (task : SshTask) (o : Outcome)
    (s : AdmissionState) : Option AdmissionState := do
  let call ← s.calls token
  let endpoint ← task.endpoint ipAddress
  let _ ← claimOwner task token
  if call.phase ≠ .uncertain ∧ call.phase ≠ .fenced ∧ call.phase ≠ .reconciled then none
  else
    let sent := s.send (.fence endpoint) o
    match o with
    | .performed => return sent.setCall token { call with phase := call.phase.afterFence }
    | .lost => return sent

/-- Its second update. -/
def pullAct (ipAddress : String → Option String) (token : Token) (task : SshTask) (o : Outcome)
    (s : AdmissionState) : Option AdmissionState := do
  let call ← s.calls token
  let endpoint ← task.endpoint ipAddress
  let owner ← claimOwner task token
  if call.phase ≠ .fenced ∧ call.phase ≠ .reconciled then none
  else
    let exact := { owner, claimedAt := none, admissionEpoch := call.admissionEpoch }
    let sent := s.send (.pull endpoint exact) o
    match o with
    | .performed => return sent.setCall token { call with phase := .reconciled }
    | .lost => return sent

def AdmissionAct.apply (ipAddress : String → Option String) :
    AdmissionAct → AdmissionState → Option AdmissionState
  | .start task now, s => startAct ipAddress task now s
  | .read token now o, s => readAct token now o s
  | .write token o, s => writeAct token o s
  | .release token o, s => releaseAct token o s
  | .fence token task o, s => fenceAct ipAddress token task o s
  | .pull token task o, s => pullAct ipAddress token task o s
  | .releaseTask endpoint owner o, s => some (s.send (.releaseTask endpoint owner) o)
  | .land index, s =>
    (InFlight.land SlotUpdate.apply index s.db).map fun db => { s with db }

/-- Before the first call: nothing in flight, and the documents of earlier versions. -/
structure AdmissionInitial (s : AdmissionState) : Prop where
  calls : ∀ token, s.calls token = none
  late : s.db.late = []
  room : ∀ endpoint, (claimsAt s.db.store endpoint).length ≤ maxSshConnectionsPerDevice
  tokens : ∀ endpoint, ∀ claim ∈ claimsAt s.db.store endpoint, claim.owner.token < s.nextToken

def AdmissionStep (ipAddress : String → Option String) (s t : AdmissionState) : Prop :=
  ∃ act : AdmissionAct, act.apply ipAddress s = some t

end CameraLogs.Collection

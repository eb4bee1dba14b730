import CameraLogs.Lib.InFlight
import CameraLogs.Lib.Run
import CameraLogs.Coredumps.Snapshot

/-!
# The procedures that make and remove snapshots

A freeze claims a file under a new token, reserves the quota, copies, renames the copy and
publishes it. A pass of the maintenance takes back the claims whose lease has run out,
retires the snapshots whose time is over, deletes what nobody reads any more, and removes
what no file refers to. Readers hold leases on the file's document.

Every procedure works on what it has read before, sends one update at a time, and may end
at any of them: by an exception, by a cancellation or with its process. An update whose
sender has given up may still be applied later. The passes of the maintenance are taken apart
into what they do for one document, in any order.
-/

namespace CameraLogs.Coredumps

open CameraLogs.Lib

def freezeLeaseSeconds : Nat := 300

def reservationLeaseSeconds : Nat := 900

def readerLeaseSeconds : Nat := 90

/-- What `freeze` is about to do under its token. -/
inductive FreezeStage
  | opening
  | reserving (size : Nat)
  /-- The outcome of the reservation is unknown: its documents are read. -/
  | confirming (size : Nat)
  | copying (size : Nat)
  | replacing (size : Nat)
  | publishing (size : Nat)
  | marking
  | checking
  | unlinking
  | releasing
  -- the handler of an exception
  | removing (reserved : Bool)
  | givingBack
  | confirmingRelease
  | unclaiming
  deriving DecidableEq

/-- A freeze that has claimed its file, with what it knows of the document. -/
structure FreezeCall where
  id : FileId
  version : Nat
  source : Nat
  stage : FreezeStage
  deriving DecidableEq

/-- `_temporary` -/
def FreezeCall.temporary (call : FreezeCall) (token : Token) : CopyPath :=
  ⟨call.id, call.version, token, false⟩

/-- `_final` -/
def FreezeCall.final (call : FreezeCall) (token : Token) : CopyPath :=
  ⟨call.id, call.version, token, true⟩

/-- What the maintenance is about to do for one document or claim. -/
inductive SnapshotTask
  /-- A claim of a file has been taken back: its copies go, and then its quota. -/
  | removeTemporary (temporary : Option CopyPath) (final : CopyPath)
  | removeFinal (final : CopyPath)
  | release (token : Token)
  | confirmPublished (token : Token)
  | retire (id : FileId) (token : Token)
  /-- A snapshot is being deleted: the copy, the quota, and then the document's fields. -/
  | delete (id : FileId) (path : CopyPath)
  | giveBack (id : FileId) (token : Token)
  | confirmRelease (id : FileId) (token : Token)
  | clear (id : FileId) (token : Token)
  /-- No file refers to a claim. -/
  | reclaim (claim : SnapshotClaim)
  | deleteOwned (claim : SnapshotClaim)
  | deleteOwnedFinal (claim : SnapshotClaim)
  deriving DecidableEq

inductive ReaderStage
  | pulling (stamp : Nat)
  | acquiring (stamp : Nat)
  | active
  | invalidated
  deriving DecidableEq

/-- A `SnapshotReader`. -/
structure SnapshotReader where
  file : FileId
  token : Token
  parent : Option ReaderId
  stage : ReaderStage
  deriving DecidableEq

/-- What a procedure meets at its next step: the fate of the update it sends, whether what
it reads or does raises, what it finds out about the source. -/
inductive SnapshotEvent
  | sent (o : Outcome)
  | done (ok : Bool)
  | opened (size : Nat)
  | written
  deriving DecidableEq

structure SnapshotState where
  db : InFlight SnapshotStore SnapshotUpdate
  disk : CopyPath → Bool
  now : Nat
  /-- `coredump_snapshot_max_bytes` and the seconds of `coredump_retention_hours`. -/
  maxBytes : Nat
  retention : Nat
  /-- What has been read of the documents at some time. -/
  files : List (FileId × FileDocument)
  claims : List SnapshotClaim
  freezes : Token → Option FreezeCall
  tasks : List SnapshotTask
  readers : ReaderId → Option SnapshotReader
  readerIds : List ReaderId

namespace SnapshotState

variable (s : SnapshotState)

def store : SnapshotStore := s.db.store

def send (update : SnapshotUpdate) (o : Outcome) : SnapshotState :=
  { s with db := InFlight.send SnapshotUpdate.apply update o s.db }

/-- The sender has been told that its update found something to change. -/
def matched (update : SnapshotUpdate) (o : Outcome) : Bool :=
  o = .performed && (update.run s.store).isSome

def setFreeze (token : Token) (call : Option FreezeCall) : SnapshotState :=
  { s with freezes := Function.update s.freezes token call }

def setReader (reader : ReaderId) (r : Option SnapshotReader) : SnapshotState :=
  { s with readers := Function.update s.readers reader r }

def setDisk (path : CopyPath) (there : Bool) : SnapshotState :=
  { s with disk := Function.update s.disk path there }

/-- The claim of a token counts, and so does the token. -/
def reservationConfirmed (token : Token) : Bool :=
  (s.store.claim? token).any (fun claim => claim.state = .reserved ∨ claim.state = .published) &&
    token ∈ s.store.account.activeTokens

def releaseConfirmed (token : Token) : Bool :=
  (s.store.claim? token).any (fun claim => claim.state = .released) &&
    token ∉ s.store.account.activeTokens

/-! ## The freeze -/

variable (token : Token) (call : FreezeCall)

def freezeTo (stage : FreezeStage) : SnapshotState :=
  s.setFreeze token (some { call with stage })

def freezeEnds : SnapshotState := s.setFreeze token none

/-- An update of a freeze: where it goes on to if the update found something, if not, and
if it raises; `none` is the end of the freeze. -/
def freezeSends (update : SnapshotUpdate) (o : Outcome)
    (matched unmatched raised : Option FreezeStage) : SnapshotState :=
  (s.send update o).setFreeze token
    ((if s.matched update o then matched
      else if o = .performed then unmatched else raised).map fun stage => { call with stage })

/-- One step of `freeze` after its claim. -/
def freezeStep : FreezeStage → SnapshotEvent → Option SnapshotState
  | .opening, .opened size =>
    if 0 < size ∧ size ≤ s.maxBytes then some (s.freezeTo token call (.reserving size))
    else some (s.freezeTo token call (.removing false))
  | .opening, .done _ => some (s.freezeTo token call (.removing false))
  | .reserving size, .sent o =>
    some (s.freezeSends token call
      (.reserve token call.id size call.version (s.now + reservationLeaseSeconds)) o
      (some (.copying size)) (some (.removing false)) (some (.confirming size)))
  | .confirming size, .done ok =>
    if ok && s.reservationConfirmed token then some (s.freezeTo token call (.copying size))
    else some (s.freezeTo token call (.removing false))
  -- while it copies, the temporary file appears and the lease is renewed
  | .copying _, .written => some (s.setDisk (call.temporary token) true)
  | .copying size, .sent o =>
    some (s.freezeSends token call
      (.renewFreeze call.id token (s.now + freezeLeaseSeconds)) o
      (some (.copying size)) (some (.removing true)) (some (.removing true)))
  | .copying size, .done ok =>
    some (s.freezeTo token call (if ok then .replacing size else .removing true))
  | .replacing size, .done ok =>
    if ok && s.disk (call.temporary token) then
      some (((s.setDisk (call.temporary token) false).setDisk (call.final token) true).freezeTo
        token call (.publishing size))
    else some (s.freezeTo token call (.removing true))
  | .publishing size, .sent o =>
    some (s.freezeSends token call
      (.publish call.id token call.source ⟨call.final token, size, token⟩) o
      (some .marking) (some .checking) none)
  | .marking, .sent o =>
    some (s.freezeSends token call (.markPublished token (s.now + s.retention)) o none none none)
  | .checking, .done ok =>
    if ok && !((s.store.documents call.id).any fun document =>
        document.status = .frozen && document.holds token) then
      some (s.freezeTo token call .unlinking)
    else some (s.freezeEnds token)
  | .unlinking, .done ok =>
    if ok then some ((s.setDisk (call.final token) false).freezeTo token call .releasing)
    else some (s.freezeEnds token)
  | .releasing, .sent o => some (s.freezeSends token call (.release token) o none none none)
  -- the handler of an exception
  | .removing reserved, .done ok =>
    if ok then
      some ((s.setDisk (call.temporary token) false).freezeTo token call
        (if reserved then .givingBack else .unclaiming))
    else some (s.freezeEnds token)
  | .givingBack, .sent o =>
    some (s.freezeSends token call (.release token) o (some .unclaiming) none
      (some .confirmingRelease))
  | .confirmingRelease, .done ok =>
    if ok && s.releaseConfirmed token then some (s.freezeTo token call .unclaiming)
    else some (s.freezeEnds token)
  | .unclaiming, .sent o =>
    some (s.freezeSends token call (.unclaim call.id token) o none none none)
  | _, _ => none

/-! ## The maintenance -/

/-- A task is replaced by what is left of it. -/
def taskGoes (i : Nat) (next : Option SnapshotTask) : SnapshotState :=
  { s with tasks := next.toList ++ s.tasks.eraseIdx i }

def taskSends (i : Nat) (update : SnapshotUpdate) (o : Outcome)
    (matched unmatched raised : Option SnapshotTask) : SnapshotState :=
  (s.send update o).taskGoes i
    (if s.matched update o then matched else if o = .performed then unmatched else raised)

/-- `_owned_path`: only a temporary file of the token itself is removed. -/
def removeOwned (temporary : Option CopyPath) (token : Token) : SnapshotState :=
  match temporary with
  | some path => if path.token = token ∧ path.final = false then s.setDisk path false else s
  | none => s

/-- One step of a task. -/
def taskStep (i : Nat) : SnapshotTask → SnapshotEvent → Option SnapshotState
  | _, .done false => some (s.taskGoes i none)
  | .removeTemporary temporary final, .done true =>
    some ((s.removeOwned temporary final.token).taskGoes i (some (.removeFinal final)))
  | .removeFinal final, .done true =>
    some ((s.setDisk final false).taskGoes i (some (.release final.token)))
  | .release token, .sent o => some (s.taskSends i (.release token) o none none none)
  | .confirmPublished token, .sent o =>
    some (s.taskSends i (.confirmPublished token (s.now + s.retention)) o none none none)
  | .retire id token, .sent o => some (s.taskSends i (.retire id token) o none none none)
  | .delete id path, .done true =>
    some ((s.setDisk path false).taskGoes i (some (.giveBack id path.token)))
  | .giveBack id token, .sent o =>
    some (s.taskSends i (.release token) o (some (.clear id token)) none
      (some (.confirmRelease id token)))
  | .confirmRelease id token, .done true =>
    some (s.taskGoes i (if s.releaseConfirmed token then some (.clear id token) else none))
  | .clear id token, .sent o => some (s.taskSends i (.clear id token) o none none none)
  | .reclaim claim, .sent o =>
    some (s.taskSends i (.reclaim claim.id) o (some (.deleteOwned claim)) none none)
  | .deleteOwned claim, .done true =>
    some ((s.setDisk ⟨claim.fileId, claim.version, claim.id, false⟩ false).taskGoes i
      (some (.deleteOwnedFinal claim)))
  | .deleteOwnedFinal claim, .done true =>
    some ((s.setDisk ⟨claim.fileId, claim.version, claim.id, true⟩ false).taskGoes i
      (some (.release claim.id)))
  | _, _ => none

def addTask (task : SnapshotTask) : SnapshotState := { s with tasks := task :: s.tasks }

/-- An update of the maintenance and the tasks it begins where it finds something. -/
def begins (update : SnapshotUpdate) (o : Outcome) (begun : List SnapshotTask) : SnapshotState :=
  if s.matched update o then { s.send update o with tasks := begun ++ s.tasks }
  else s.send update o

/-- The step of `reconcile_snapshots` for a file whose freeze has lost its lease. -/
def expireFreeze (id : FileId) (document : FileDocument) (stamp : Nat) (o : Outcome) :
    Option SnapshotState := do
  let token ← document.freezeToken
  let leaseUntil ← document.freezeLeaseUntil
  guard (document.status = .freezing ∧ leaseUntil ≤ stamp)
  pure (s.begins (.expireFreeze id token leaseUntil) o
    [.removeTemporary document.freezeTemporaryPath ⟨id, document.version, token, true⟩])

/-- Its step for a claim that is still reserved. -/
def checkClaim (claim : SnapshotClaim) (stamp : Nat) : Option SnapshotState := do
  guard (claim.state = .reserved ∧ claim.expiresAt ≤ stamp)
  let document ← s.store.documents claim.fileId
  guard (document.status = .frozen ∧ document.holds claim.id)
  pure (s.addTask (.confirmPublished claim.id))

/-- Its step for a frozen file whose time is over. -/
def checkRetention (id : FileId) (document : FileDocument) (stamp : Nat) : Option SnapshotState := do
  let snapshot ← document.snapshot
  guard (document.status = .frozen)
  let claim ← s.store.claim? snapshot.reservationToken
  guard (claim.state = .published ∧ claim.expiresAt ≤ stamp)
  pure (s.addTask (.retire id snapshot.reservationToken))

/-- The removal of a copy; a path that is not under control raises instead. -/
def deletion (id : FileId) (path : CopyPath) (token : Token) : List SnapshotTask :=
  if path.token = token ∧ path.final = true then [.delete id path] else []

/-- `_finish`, up to the removal of the copy. -/
def finish (id : FileId) (document : FileDocument) (stamp : Nat) (o : Outcome) :
    Option SnapshotState := do
  let snapshot ← document.snapshot
  let token ← document.retireToken
  guard (snapshot.reservationToken = token)
  match document.status with
  | .retiring => do
    guard (document.hasReader stamp = false)
    pure (s.begins (.startDelete id token stamp) o (deletion id snapshot.path token))
  | .deleting => pure { s with tasks := deletion id snapshot.path token ++ s.tasks }
  | _ => none

/-- The step of `reconcile_orphans` for one claim, up to its update. -/
def checkOrphan (claim : SnapshotClaim) (stamp : Nat) : Option SnapshotState := do
  guard (claim.state = .reclaiming ∨
    ((claim.state = .reserved ∨ claim.state = .published) ∧ claim.expiresAt ≤ stamp))
  guard (s.store.references claim.id = false)
  pure (s.addTask (.reclaim claim))

/-! ## Readers -/

variable (reader : ReaderId) (r : SnapshotReader)

/-- One step of `acquire`, or a renewal. -/
def readerStep (o : Outcome) : ReaderStage → Option SnapshotState
  | .pulling stamp =>
    some ((s.send (.pullReaders r.file stamp) o).setReader reader
      (if o = .performed then some { r with stage := .acquiring stamp } else none))
  | .acquiring stamp =>
    let update : SnapshotUpdate :=
      .acquire r.file r.token reader r.parent stamp (stamp + readerLeaseSeconds)
    some ((s.send update o).setReader reader
      (if s.matched update o then some { r with stage := .active } else none))
  | .active =>
    let update : SnapshotUpdate :=
      .renewReader r.file r.token reader (s.now + readerLeaseSeconds)
    some ((s.send update o).setReader reader
      (some { r with stage := if s.matched update o then .active else .invalidated }))
  | .invalidated => none

end SnapshotState

inductive SnapshotAct
  /-- The scanner registers a file. -/
  | discover (id : FileId) (version source : Nat)
  | observe (id : FileId) (source : Nat) (o : Outcome)
  | read (id : FileId)
  | readClaim (token : Token)
  /-- `_claim`, with the document a freeze was called with. -/
  | claim (index : Nat) (token : Token) (o : Outcome)
  | freeze (token : Token) (event : SnapshotEvent)
  | expireFreeze (index stamp : Nat) (o : Outcome)
  | checkClaim (index stamp : Nat)
  | checkRetention (index stamp : Nat)
  | pull (id : FileId) (stamp : Nat) (o : Outcome)
  | finish (index stamp : Nat) (o : Outcome)
  | checkOrphan (index stamp : Nat)
  | task (index : Nat) (event : SnapshotEvent)
  | openReader (reader : ReaderId) (index : Nat) (parent : Option ReaderId)
  | stepReader (reader : ReaderId) (o : Outcome)
  | closeReader (reader : ReaderId) (o : Outcome)
  /-- An update whose sender has given up is applied. -/
  | land (index : Nat)
  /-- A freeze ends, or the whole process. -/
  | drop (token : Token)
  | crash
  | tick (seconds : Nat)
  deriving DecidableEq

def SnapshotAct.apply (act : SnapshotAct) (s : SnapshotState) : Option SnapshotState :=
  match act with
  | .discover id version source => do
    guard (id ∉ s.store.fileIds)
    pure { s with db.store := { s.store with
      fileIds := id :: s.store.fileIds
      documents := Function.update s.store.documents id
        (some ⟨.receiving, version, source, none, none, none, none, none, []⟩) } }
  | .observe id source o => some (s.send (.observe id source) o)
  | .read id => do
    let document ← s.store.documents id
    pure { s with files := (id, document) :: s.files }
  | .readClaim token => do
    let claim ← s.store.claim? token
    pure { s with claims := claim :: s.claims }
  | .claim index token o => do
    let (id, document) ← s.files[index]?
    -- a snapshot that is there is answered as it is
    guard (¬(document.status = .frozen ∧ document.snapshot.isSome))
    guard (token ∉ s.store.issued)
    let update : SnapshotUpdate := .claim id document.source token (s.now + freezeLeaseSeconds)
      ⟨id, document.version, token, false⟩
    let call : FreezeCall := ⟨id, document.version, document.source, .opening⟩
    pure (if s.matched update o then (s.send update o).setFreeze token (some call)
      else s.send update o)
  | .freeze token event => do
    let call ← s.freezes token
    s.freezeStep token call call.stage event
  | .expireFreeze index stamp o => do
    let (id, document) ← s.files[index]?
    guard (stamp ≤ s.now)
    s.expireFreeze id document stamp o
  | .checkClaim index stamp => do
    let claim ← s.claims[index]?
    guard (stamp ≤ s.now)
    s.checkClaim claim stamp
  | .checkRetention index stamp => do
    let (id, document) ← s.files[index]?
    guard (stamp ≤ s.now)
    s.checkRetention id document stamp
  | .pull id stamp o => do
    guard (stamp ≤ s.now)
    pure (s.send (.pullReaders id stamp) o)
  | .finish index stamp o => do
    let (id, document) ← s.files[index]?
    guard (stamp ≤ s.now)
    s.finish id document stamp o
  | .checkOrphan index stamp => do
    let claim ← s.claims[index]?
    guard (stamp ≤ s.now)
    s.checkOrphan claim stamp
  | .task index event => do
    let task ← s.tasks[index]?
    s.taskStep index task event
  | .openReader reader index parent => do
    let (id, document) ← s.files[index]?
    let snapshot ← document.snapshot
    guard (reader ∉ s.readerIds)
    pure { s.setReader reader
        (some ⟨id, snapshot.reservationToken, parent, .pulling s.now⟩) with
      readerIds := reader :: s.readerIds }
  | .stepReader reader o => do
    let r ← s.readers reader
    s.readerStep reader r o r.stage
  | .closeReader reader o => do
    let r ← s.readers reader
    pure ((s.send (.closeReader r.file r.token reader) o).setReader reader none)
  | .land index => do
    let update ← s.db.late[index]?
    guard (update.fresh s.store)
    let db ← InFlight.land SnapshotUpdate.apply index s.db
    pure { s with db }
  | .drop token => some (s.freezeEnds token)
  | .crash => some { s with freezes := fun _ => none, tasks := [], readers := fun _ => none }
  | .tick seconds => some { s with now := s.now + seconds }

def SnapshotStep (s t : SnapshotState) : Prop := ∃ act : SnapshotAct, act.apply s = some t

/-- A node without files. -/
structure SnapshotStart (s : SnapshotState) : Prop where
  late : s.db.late = []
  fileIds : s.store.fileIds = []
  documents : s.store.documents = fun _ => none
  claims : s.store.claims = []
  account : s.store.account = ⟨0, []⟩
  issued : s.store.issued = []
  grants : s.store.grants = fun _ => none
  returned : s.store.returned = []
  files : s.files = []
  claimsRead : s.claims = []
  freezes : s.freezes = fun _ => none
  tasks : s.tasks = []
  readers : s.readers = fun _ => none

abbrev ReachableSnapshots : SnapshotState → Prop := Reachable SnapshotStart SnapshotStep

end CameraLogs.Coredumps

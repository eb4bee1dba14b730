import CameraLogs.Administration.EventCursor
import CameraLogs.Administration.EventPresenter
import CameraLogs.Lib.Run

/-!
# Removing expired records

Audit records, events and operations past their retention are removed in rounds: a round takes
the expired records behind a bookmark, in the order of the database, and removes each in a
transaction of its own unless something still refers to it. With an audit record the same
transaction adds its summary to an archive, in chunks of a hundred for each day, and counts it.

Between two transactions anything else may write; a process may end anywhere.
-/

namespace CameraLogs.Common

open Lib Administration

/-- The collections that only grow. -/
inductive Growth where
  | audit
  | events
  | operations
  deriving DecidableEq

/-- A document of such a collection; `fields` are those but its `_id` and `createdAt`. -/
structure Record where
  id : Identifier
  createdAt : Int
  fields : Document

/-- The document of the record, but for its `_id`. -/
def Record.document (record : Record) : Document :=
  ("createdAt", .date record.createdAt) :: record.fields

def millisecondsOfDay : Int := 86400000

/-- The UTC day of the record. -/
def Record.day (record : Record) : Int := record.createdAt / millisecondsOfDay

/-- What ends a transaction with an error. -/
inductive Raise where
  /-- `TypeError` -/
  | unhashable
  /-- A chunk that cannot be read. -/
  | unreadable
  /-- `"审计摘要超出有界归档大小"` -/
  | archiveSize
  deriving DecidableEq

/-! ## Protected records -/

/-- `TERMINAL_OPERATIONS` -/
def TERMINAL_OPERATIONS : Table := textSet ["SUCCEEDED", "FAILED", "CANCELLED"]

structure PurgeTask where
  controlOperationId : Option String
  nodeId : Option String
  resourceHealthRecovery : Bool
  desiredState : String
  recordArchiveRevision : Nat

/-- What other collections say of an id. -/
structure References where
  /-- An idempotency record of the resource that has not expired. -/
  reserved : String → Bool
  /-- A command that is not at its end. -/
  openCommand : String → Bool
  /-- An operation that is not at its end. -/
  openOperation : String → Bool
  tasks : String → Option PurgeTask
  /-- Whether a run has ended. -/
  runs : String → Option Bool
  openCommandOfRun : String → Bool
  endpointLockOfRun : String → Bool

/-- There is an id, and something is found under it. -/
def found (what : String → Bool) : BsonValue → Bool
  | .string id => id ≠ "" && what id
  | _ => false

def identifierOf (collection : Growth) (record : Record) : BsonValue :=
  match collection with
  | .audit => record.fields.get "targetId"
  | _ => record.fields.get "id"

/-- `find_one_and_update({"id": task_id}, {"$inc": {"recordArchiveRevision": 1}})` -/
def touchTask (refs : References) : BsonValue → Option PurgeTask × References
  | .string id =>
    match if id = "" then none else refs.tasks id with
    | none => (none, refs)
    | some task =>
      let touched := { task with recordArchiveRevision := task.recordArchiveRevision + 1 }
      (some touched,
        { refs with tasks := fun id' => if id' = id then some touched else refs.tasks id' })
  | _ => (none, refs)

/-- `task.get("controlOperationId") == identifier` -/
def isControlOperation (task : PurgeTask) (identifier : BsonValue) : Bool :=
  match task.controlOperationId, identifier with
  | some id, identifier => identifier.isText id
  | none, .null => true
  | none, _ => false

def protectedByTask (collection : Growth) (identifier : BsonValue) (task : PurgeTask) : Bool :=
  collection = .operations && isControlOperation task identifier ||
    task.nodeId.any (· ≠ "") || task.resourceHealthRecovery ||
    task.desiredState = "RUNNING" || task.desiredState = "PAUSED"

def protectedByRun (refs : References) (runId : BsonValue) : Bool :=
  found (fun id => refs.runs id = some false) runId || found refs.openCommandOfRun runId ||
    found refs.endpointLockOfRun runId

/-! ## The archive of audit records -/

/-- How the archive writes its summaries. -/
structure Codec (β : Type) where
  /-- `len(json_util.dumps(summary).encode())` -/
  size : Document → Nat
  /-- `json_util.dumps(records).encode()` -/
  dumps : List Document → β
  loads : β → Option (List Document)
  compress : β → β
  decompress : β → Option β
  /-- `sha256(body).hexdigest()` -/
  sha256 : β → String

variable {β : Type}

structure Chunk (β : Type) where
  createdAt : Int
  expiresAt : Int
  count : Nat
  payload : β
  sha256 : String
  updatedAt : Int

/-- A document of `record_purge_days`. -/
structure PurgeDay where
  deleted : Nat
  updatedAt : Int

def ARCHIVE_DAYS : Int := 365

def ARCHIVE_FIELDS : List String :=
  ["id", "actor", "action", "targetId", "requestId", "outcome", "createdAt"]

/-- `str(document["_id"])` -/
def idText : Identifier → String
  | .objectId id => String.ofList id.text
  | .string text => String.ofList text

/-- `audit_summary` -/
def auditSummary (record : Record) : Option Document :=
  (eventOutcome record.document).map fun outcome =>
    let summary : Document :=
      ARCHIVE_FIELDS.filterMap fun key => (record.document.field key).map (key, ·)
    Document.set (summary.set "sourceId" (.string (idText record.id))) "outcome" (.string outcome)

def archiveBytes : Nat := 16384
def chunkSize : Nat := 100

structure PurgeStore (β : Type) where
  records : Growth → List Record
  references : References
  /-- `record_purge_days`, by collection and day. -/
  days : Growth → Int → Option PurgeDay
  /-- `audit_archive_chunks`, by day and part. -/
  chunks : Int → Nat → Option (Chunk β)

variable (codec : Codec β)

/-- The part of an audit record's protection that asks for the size of its summary. -/
def auditProtected (refs : References) (record : Record) : Except Raise Bool :=
  match auditSummary record with
  | none => .error .unhashable
  | some summary =>
    .ok (archiveBytes < codec.size summary ||
      found refs.openCommand (record.fields.get "targetId") ||
      found refs.openOperation (record.fields.get "targetId"))

/-- What is asked of a record for its collection alone. -/
def collectionProtected (collection : Growth) (refs : References) (record : Record) :
    Except Raise Bool :=
  match collection with
  | .audit =>
    if found refs.reserved (identifierOf .audit record) then .ok true
    else auditProtected codec refs record
  | .events => .ok (found refs.reserved (identifierOf .events record))
  | .operations =>
    match inTable TERMINAL_OPERATIONS (record.fields.get "status") with
    | none => .error .unhashable
    | some terminal => .ok (!terminal || found refs.reserved (identifierOf .operations record))

/-- `_protected`, and the references with the task's new revision. -/
def isProtected (collection : Growth) (refs : References) (record : Record) :
    Except Raise (Bool × References) :=
  match collectionProtected codec collection refs record with
  | .error raise => .error raise
  | .ok true => .ok (true, refs)
  | .ok false =>
    let touched := touchTask refs (record.fields.get "taskId")
    if touched.1.any (protectedByTask collection (identifierOf collection record)) then
      .ok (true, touched.2)
    else .ok (protectedByRun touched.2 (record.fields.get "runId"), touched.2)

/-- The number of records of the day that are removed, as the archive reads it. -/
def deletedOf (s : PurgeStore β) (collection : Growth) (day : Int) : Nat :=
  ((s.days collection day).map PurgeDay.deleted).getD 0

/-- The summaries of a chunk. -/
def readChunk (chunk : Chunk β) : Option (List Document) :=
  (codec.decompress chunk.payload).bind codec.loads

/-- The chunk with these summaries; its times of creation and expiry are set once. -/
def writeChunk (existing : Option (Chunk β)) (records : List Document) (now : Int) : Chunk β where
  createdAt := (existing.map Chunk.createdAt).getD now
  expiresAt := (existing.map Chunk.expiresAt).getD (now + ARCHIVE_DAYS * millisecondsOfDay)
  count := records.length
  payload := codec.compress (codec.dumps records)
  sha256 := codec.sha256 (codec.dumps records)
  updatedAt := now

/-- `archive_audit` -/
def archiveAudit (s : PurgeStore β) (record : Record) (day now : Int) :
    Except Raise (PurgeStore β) :=
  let part := deletedOf s .audit day / chunkSize
  match (s.chunks day part).elim (some []) (readChunk codec), auditSummary record with
  | none, _ => .error .unreadable
  | some _, none => .error .unhashable
  | some records, some summary =>
    if archiveBytes < codec.size summary ∨ chunkSize ≤ records.length then .error .archiveSize
    else
      let written := writeChunk codec (s.chunks day part) (records ++ [summary]) now
      .ok { s with
        chunks := fun day' part' =>
          if day' = day ∧ part' = part then some written else s.chunks day' part' }

/-- The counter of the day goes up by one. -/
def countDeleted (s : PurgeStore β) (collection : Growth) (day now : Int) : PurgeStore β :=
  { s with
    days := fun collection' day' =>
      if collection' = collection ∧ day' = day then some ⟨deletedOf s collection day + 1, now⟩
      else s.days collection' day' }

def deleteRecord (s : PurgeStore β) (collection : Growth) (id : Identifier) : PurgeStore β :=
  { s with
    records := fun collection' =>
      if collection' = collection then (s.records collection).filter (·.id ≠ id)
      else s.records collection' }

/-! ## Rounds -/

/-- The row of a record in a round; a bookmark is the last row of one. -/
structure Candidate where
  createdAt : Int
  id : Identifier
  deriving DecidableEq

def Record.candidate (record : Record) : Candidate := ⟨record.createdAt, record.id⟩

/-- `{"_id": {"$gt": id}}`: the database compares within one type. -/
def idAbove : Identifier → Identifier → Bool
  | .string bound, .string text => bound < text
  | .objectId bound, .objectId id => bound < id
  | _, _ => false

/-- The condition of a bookmark. -/
def behindBookmark (bookmark : Option Candidate) (row : Candidate) : Bool :=
  bookmark.all fun bookmark => bookmark.createdAt < row.createdAt ||
    row.createdAt = bookmark.createdAt && idAbove bookmark.id row.id

/-- The database's order of the rows. -/
def Candidate.key (row : Candidate) : Int ×ₗ (List Char ⊕ₗ ObjectId) :=
  toLex (row.createdAt, row.id.key)

/-- The rows of the expired records, in the order of the database. -/
def expiredRows (records : List Record) (cutoff : Int) : List Candidate :=
  ((records.map Record.candidate).filter (·.createdAt < cutoff)).insertionSort
    fun a b => a.key ≤ b.key

/-- `find(query).sort([("createdAt", 1), ("_id", 1)]).limit(batch_size)` -/
def findRows (records : List Record) (cutoff : Int) (bookmark : Option Candidate)
    (batchSize : Nat) : List Candidate :=
  ((expiredRows records cutoff).filter (behindBookmark bookmark)).take batchSize

/-- `max(1, min(int(batch_size), 100))` -/
def clampBatch (batchSize : Int) : Nat := (max 1 (min batchSize 100)).toNat

/-- A round that is under way. -/
structure PurgeRound where
  collection : Growth
  cutoff : Int
  owner : String
  batchSize : Nat
  dryRun : Bool
  rows : List Candidate
  /-- The rows no transaction has been made for. -/
  todo : List Candidate
  removed : Nat
  kept : Nat

/-- The transaction of a candidate: the store it leaves, and whether the record is removed. -/
def commit (s : PurgeStore β) (round : PurgeRound) (row : Candidate) (fenced : Bool) (now : Int) :
    Except Raise (PurgeStore β × Option Record) :=
  if fenced then
    match (s.records round.collection).find? fun record =>
      record.id = row.id && record.createdAt < round.cutoff with
    | none => .ok (s, none)
    | some record =>
      match isProtected codec round.collection s.references record with
      | .error raise => .error raise
      | .ok (true, refs) => .ok ({ s with references := refs }, none)
      | .ok (false, refs) =>
        let s := { s with references := refs }
        if round.dryRun then .ok (s, some record)
        else
          let deleted := deleteRecord s round.collection record.id
          let archived := if round.collection = .audit then
            archiveAudit codec deleted record record.day now else .ok deleted
          archived.map fun archived =>
            (countDeleted archived round.collection record.day now, some record)
  else .ok (s, none)

end CameraLogs.Common

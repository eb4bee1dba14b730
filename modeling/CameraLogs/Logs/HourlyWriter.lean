import CameraLogs.Lib.Program
import CameraLogs.Logs.Manifest

/-!
# The segment writer

`HourlyWriter` appends received chunks to one log file at a time and keeps an index
row for every piece. A file is sealed and the next one opened when the hour changes,
when a chunk is older than the one before it, and when the file has reached the size
limit it was opened with. Sealed segments wait in `pending` until their manifests are
persisted.

A batch that fits the open file goes in with one write (`appendBatch`). Any other goes
through `writeRotating`, which collects pieces into a group and writes a group whenever
it leaves a file.

What the writer does not decide is in `Storage`: which steps of I/O fail and after how
many bytes, which names are taken, what the limit is each time it is read. A step that
fails raises, and the state keeps what was done before it.
-/

namespace CameraLogs.Logs

open Lib

/-- A local hour. -/
abbrev Hour := Int

/-- A log file of a task: its hour and its part number. -/
structure LogPath where
  hour : Hour
  part : Nat
  deriving DecidableEq

/-- A line of an index file. -/
structure IndexRow where
  sequence : Nat
  offset : Nat
  length : Nat
  receivedAt : Instant
  deriving DecidableEq

/-- A received chunk, with its time of receipt or, failing that, the clock's. -/
structure Chunk where
  data : Bytes
  receivedAt : Instant
  deriving DecidableEq

/-- What is appended in one go: a chunk or a part of it, and which chunk of the batch. -/
structure Piece where
  sourceIndex : Nat
  data : Bytes
  receivedAt : Instant
  deriving DecidableEq

/-- Where a piece of a chunk went. -/
structure ChunkPosition where
  sequence : Nat
  offset : Nat
  length : Nat
  path : LogPath
  rollbackFrom : Option Instant
  sourceIndex : Nat
  sourceOffset : Nat
  deriving DecidableEq

/-- The steps of I/O that can fail. -/
inductive DiskStep
  | openLog
  | appendBody
  | appendIndex
  | sync
  | flush
  | closeHandles
  | closeAfterError
  | unlink
  | prepareArchive
  | persistSpool
  | compress
  deriving DecidableEq

inductive WriterError
  | osError (step : DiskStep)
  | assertion
  deriving DecidableEq

/-- The file being written, and what it and its index hold. -/
structure OpenFile where
  log : LogPath
  hour : Hour
  body : Bytes
  rows : List IndexRow
  deriving DecidableEq

/-- A sealed segment. Behind the source's own fields: what the log and the index hold,
and the limit the file was opened with. The digests are of the bytes and rows listed. -/
structure SealedSegment where
  log : LogPath
  hour : Hour
  size : Nat
  digest : Bytes
  indexDigest : List IndexRow
  first : Option Nat
  last : Option Nat
  firstReceivedAt : Option Instant
  lastReceivedAt : Option Instant
  body : Bytes
  rows : List IndexRow
  maxBytes : Nat
  deriving DecidableEq

/-- The writer. `spool` are the segments whose manifests have been persisted, and
`sealed` all that have been sealed; `steps` counts the steps of I/O. -/
structure Writer where
  file : Option OpenFile
  size : Nat
  sequence : Nat
  durableSize : Nat
  digest : Bytes
  indexDigest : List IndexRow
  firstSequence : Option Nat
  lastSequence : Option Nat
  firstReceivedAt : Option Instant
  lastReceivedAt : Option Instant
  segmentMaxBytes : Nat
  pending : List SealedSegment
  archives : List SealedSegment
  closeError : Option WriterError
  spool : List SealedSegment
  sealed : List SealedSegment
  steps : Nat

/-- The default limit of a log file. -/
def maxLogBytes : Nat := 256 * 1024 * 1024

def Writer.initial : Writer :=
  { file := none, size := 0, sequence := 0, durableSize := 0, digest := [], indexDigest := []
    firstSequence := none, lastSequence := none, firstReceivedAt := none, lastReceivedAt := none
    segmentMaxBytes := maxLogBytes, pending := [], archives := [], closeError := none, spool := []
    sealed := [], steps := 0 }

/-- Everything outside the writer, by the number of the next step. What a directory lists
goes by the writer, whose own files are in it. -/
structure Storage where
  hourOf : Instant → Hour
  /-- The limit read at an opening; none when there is no provider, or it raises. -/
  segmentBytes : Nat → Option Int
  /-- The parts of an hour that have an index file. -/
  indexParts : Writer → Hour → List Nat
  /-- The parts of an hour that cannot be created. -/
  takenParts : Writer → Hour → List Nat
  /-- Whether a step of I/O fails, and after how many bytes. -/
  fails : Nat → DiskStep → Option Nat
  /-- Whether a second has passed since the last sync. -/
  syncDue : Nat → Bool

/-- A program of the writer. -/
abbrev WriterM := Prog Writer WriterError

/-! ## What the steps change -/

/-- One more step of I/O. -/
def Writer.tick (writer : Writer) : Writer := { writer with steps := writer.steps + 1 }

/-- A new file is open. -/
def Writer.opened (writer : Writer) (log : LogPath) (hour : Hour) (segmentMaxBytes : Nat) : Writer :=
  { writer with
    file := some { log, hour, body := [], rows := [] }
    size := 0, durableSize := 0, digest := [], indexDigest := []
    firstSequence := none, lastSequence := none
    firstReceivedAt := none, lastReceivedAt := none, segmentMaxBytes }

/-- The open files hold more. -/
def Writer.extend (writer : Writer) (bytes : Bytes) (rows : List IndexRow) : Writer :=
  { writer with
    file := writer.file.map fun file =>
      { file with body := file.body ++ bytes, rows := file.rows ++ rows } }

/-- What is in the files has been synced. -/
def Writer.synced (writer : Writer) : Writer := { writer with durableSize := writer.size }

/-- The error is kept: nothing is written after it. -/
def Writer.latched (writer : Writer) (error : WriterError) : Writer :=
  { writer with closeError := some error }

/-- No file is open. -/
def Writer.detached (writer : Writer) : Writer := { writer with file := none }

/-- One more sealed segment waits. -/
def Writer.enqueue (writer : Writer) (segment : SealedSegment) : Writer :=
  { writer with
    pending := writer.pending ++ [segment]
    sealed := writer.sealed ++ [segment] }

/-- Nothing waits. -/
def Writer.released (writer : Writer) : Writer := { writer with pending := [] }

/-- The manifests of segments have been persisted. -/
def Writer.persisted (writer : Writer) (segments : List SealedSegment) : Writer :=
  { writer with spool := writer.spool ++ segments }

/-- Archives wait to be fetched. -/
def Writer.announce (writer : Writer) (archives : List SealedSegment) : Writer :=
  { writer with archives := writer.archives ++ archives }

section Writer

variable (storage : Storage)

/-- A step of I/O. -/
def diskStep (step : DiskStep) : WriterM Unit := do
  let writer ← get
  set writer.tick
  match storage.fails writer.steps step with
  | none => return ()
  | some _ => throw (.osError step)

/-! ## Opening -/

/-- The first part number from one on that is not taken. -/
def freePart (taken : List Nat) : Nat → Nat → Nat
  | 0, part => part
  | fuel + 1, part => if part ∈ taken then freePart taken fuel (part + 1) else part

/-- The limit of the next file: what was read if it is a positive number. -/
def segmentLimit : Option Int → Nat
  | none => maxLogBytes
  | some candidate => if 0 < candidate then candidate.toNat else maxLogBytes

/-- Open the next file of an hour. -/
def openSync (hour : Hour) (segmentMaxBytes : Nat) : WriterM Unit := do
  let writer ← get
  let part := (storage.indexParts writer hour).foldl max 0 + 1
  let taken := storage.takenParts writer hour
  let log : LogPath := { hour, part := freePart taken (taken.length + 1) part }
  diskStep storage .openLog
  modify fun writer => writer.opened log hour segmentMaxBytes

/-- Read the limit, then open. -/
def openFile (hour : Hour) : WriterM Unit := do
  let writer ← get
  openSync storage hour (segmentLimit (storage.segmentBytes writer.steps))

/-! ## Appending -/

/-- The index rows of pieces appended one behind the other. -/
def rowsOf : Nat → Nat → List Piece → List IndexRow
  | _, _, [] => []
  | sequence, offset, piece :: pieces =>
    { sequence := sequence + 1, offset, length := piece.data.length, receivedAt := piece.receivedAt }
      :: rowsOf (sequence + 1) (offset + piece.data.length) pieces

/-- Their positions. -/
def positionsOf (path : LogPath) : Nat → Nat → List Piece → List ChunkPosition
  | _, _, [] => []
  | sequence, offset, piece :: pieces =>
    { sequence := sequence + 1, offset, length := piece.data.length, path, rollbackFrom := none
      sourceIndex := piece.sourceIndex, sourceOffset := 0 }
      :: positionsOf path (sequence + 1) (offset + piece.data.length) pieces

/-- The bytes of pieces. -/
def payloadOf (pieces : List Piece) : Bytes := pieces.flatMap Piece.data

/-- Append to the log; a write that fails may have taken some of the bytes. -/
def writeBody (payload : Bytes) : WriterM Unit := do
  let writer ← get
  let accepted := match storage.fails writer.steps .appendBody with
    | none => payload
    | some count => payload.take count
  set (writer.extend accepted [])
  diskStep storage .appendBody

/-- Append to the index. -/
def writeIndex (rows : List IndexRow) : WriterM Unit := do
  diskStep storage .appendIndex
  modify fun writer => writer.extend [] rows

/-- Sync both files. -/
def syncFiles : WriterM Unit := do
  diskStep storage .sync
  modify Writer.synced

/-- What the writer knows after an append that went through. -/
def Writer.advance (writer : Writer) (pieces : List Piece) : Writer :=
  let rows := rowsOf writer.sequence writer.size pieces
  { writer with
    size := writer.size + (payloadOf pieces).length
    sequence := writer.sequence + pieces.length
    lastSequence := some (writer.sequence + pieces.length)
    firstSequence := writer.firstSequence.or (rows.head?.map (·.sequence))
    digest := writer.digest ++ payloadOf pieces
    indexDigest := writer.indexDigest ++ rows
    lastReceivedAt := pieces.getLast?.map (·.receivedAt)
    firstReceivedAt := writer.firstReceivedAt.or (pieces.head?.map (·.receivedAt)) }

/-- Append pieces with one write to the log and one to the index. -/
def appendBatch (pieces : List Piece) : WriterM (List ChunkPosition) := do
  let writer ← get
  match writer.file with
  | none => throw .assertion
  | some file =>
    writeBody storage (payloadOf pieces)
    writeIndex storage (rowsOf writer.sequence writer.size pieces)
    modify fun writer => writer.advance pieces
    let after ← get
    if storage.syncDue after.steps then syncFiles storage
    return positionsOf file.log writer.sequence writer.size pieces

/-! ## Sealing and persisting -/

/-- Flush, sync and close both files. -/
def closeFiles : WriterM Unit := do
  diskStep storage .flush
  syncFiles storage
  diskStep storage .closeHandles

/-- The segment of the open file. -/
def Writer.segment (writer : Writer) (file : OpenFile) : SealedSegment :=
  { log := file.log, hour := file.hour, size := writer.size, digest := writer.digest
    indexDigest := writer.indexDigest, first := writer.firstSequence, last := writer.lastSequence
    firstReceivedAt := writer.firstReceivedAt, lastReceivedAt := writer.lastReceivedAt
    body := file.body, rows := file.rows, maxBytes := writer.segmentMaxBytes }

/-- Close the open file, if there is one; an empty one is removed. -/
def sealLocked : WriterM Unit := do
  let writer ← get
  match writer.closeError with
  | some error => throw error
  | none =>
    match writer.file with
    | none => return ()
    | some file =>
      tryCatch (closeFiles storage) fun error => do
        modify fun writer => writer.latched error
        throw error
      modify Writer.detached
      if writer.size ≠ 0 then modify fun after => after.enqueue (writer.segment file)
      else
        diskStep storage .unlink
        diskStep storage .unlink

/-- Make the manifests and persist them. -/
def persistPending (segments : List SealedSegment) : WriterM Unit := do
  diskStep storage .prepareArchive
  diskStep storage .persistSpool
  modify fun writer => writer.persisted segments

/-- Hand the pending segments over to the archive: they leave `pending` first. -/
def publishPendingLocked (background : Bool) : WriterM (List SealedSegment) := do
  let writer ← get
  if writer.pending = [] then return []
  else
    modify Writer.released
    persistPending storage writer.pending
    if background then return []
    else
      diskStep storage .compress
      return writer.pending

/-! ## Batches that rotate -/

/-- The local variables of a rotating write. -/
structure RotatingBatch where
  positions : List ChunkPosition
  group : List Piece
  identities : List (Nat × Option Instant)
  groupBytes : Nat

def RotatingBatch.empty : RotatingBatch :=
  { positions := [], group := [], identities := [], groupBytes := 0 }

/-- A position with the offset in its chunk and the rollback it marks. -/
def ChunkPosition.identify (position : ChunkPosition) (identity : Nat × Option Instant) :
    ChunkPosition :=
  { position with sourceOffset := identity.1, rollbackFrom := identity.2 }

/-- Write the group. -/
def flushGroup (batch : RotatingBatch) : WriterM RotatingBatch := do
  if batch.group = [] then return batch
  else
    let written ← appendBatch storage batch.group
    return { positions := batch.positions ++
               List.zipWith ChunkPosition.identify written batch.identities
             group := [], identities := [], groupBytes := 0 }

/-- Put a part of a chunk into the group. -/
def RotatingBatch.push (batch : RotatingBatch) (piece : Piece) (consumed count : Nat)
    (rollback : Option Instant) : RotatingBatch :=
  { batch with
    group := batch.group ++ [{ piece with data := (piece.data.drop consumed).take count }]
    identities := batch.identities ++ [(consumed, if consumed = 0 then rollback else none)]
    groupBytes := batch.groupBytes + count }

/-- Cut the rest of a chunk where files are full. Each turn takes at least a byte. -/
def splitChunk (piece : Piece) (hour : Hour) (rollback : Option Instant) :
    Nat → Nat → RotatingBatch → WriterM RotatingBatch
  | 0, _, batch => return batch
  | fuel + 1, consumed, batch => do
    if piece.data.length ≤ consumed then return batch
    else
      let writer ← get
      let remaining := writer.segmentMaxBytes - writer.size - batch.groupBytes
      if remaining = 0 then
        let batch ← flushGroup storage batch
        sealLocked storage
        openFile storage hour
        let writer ← get
        let count := min (writer.segmentMaxBytes - writer.size) (piece.data.length - consumed)
        splitChunk piece hour rollback fuel (consumed + count)
          (batch.push piece consumed count rollback)
      else
        let count := min remaining (piece.data.length - consumed)
        splitChunk piece hour rollback fuel (consumed + count)
          (batch.push piece consumed count rollback)

/-- The time before a chunk: that of the group's last piece, or of the file's. -/
def previousStamp (writer : Writer) (batch : RotatingBatch) : Option Instant :=
  match batch.group.getLast? with
  | some piece => some piece.receivedAt
  | none => writer.lastReceivedAt

/-- One chunk of a rotating write. -/
def writeChunk (batch : RotatingBatch) (piece : Piece) : WriterM RotatingBatch := do
  let writer ← get
  let rollback := (previousStamp writer batch).filter (piece.receivedAt < ·)
  let hour := storage.hourOf piece.receivedAt
  match writer.file with
  | none =>
    openFile storage hour
    splitChunk storage piece hour rollback piece.data.length 0 batch
  | some file =>
    if hour ≠ file.hour ∨ rollback.isSome then
      let batch ← flushGroup storage batch
      sealLocked storage
      let _ ← publishPendingLocked storage true
      openFile storage hour
      splitChunk storage piece hour rollback piece.data.length 0 batch
    else splitChunk storage piece hour rollback piece.data.length 0 batch

/-- A write that may change files. -/
def writeRotating (pieces : List Piece) : WriterM (List ChunkPosition) := do
  let batch ← pieces.foldlM (writeChunk storage) RotatingBatch.empty
  let batch ← flushGroup storage batch
  return batch.positions

/-! ## The operations -/

/-- The chunks that are not empty, with their places in the batch. -/
def normalize : Nat → List Chunk → List Piece
  | _, [] => []
  | sourceIndex, chunk :: chunks =>
    if chunk.data = [] then normalize (sourceIndex + 1) chunks
    else { sourceIndex, data := chunk.data, receivedAt := chunk.receivedAt }
      :: normalize (sourceIndex + 1) chunks

/-- The batch goes into the open file as it is. -/
def Writer.Fits (writer : Writer) (file : OpenFile) (hour : Hour) (pieces : List Piece) : Prop :=
  file.hour = hour ∧ (∀ piece ∈ pieces, storage.hourOf piece.receivedAt = hour) ∧
    pieces.IsChain (fun a b => a.receivedAt ≤ b.receivedAt) ∧
    (∀ last ∈ writer.lastReceivedAt, ∀ piece ∈ pieces.head?, last ≤ piece.receivedAt) ∧
    writer.size + (payloadOf pieces).length ≤ writer.segmentMaxBytes

instance (writer : Writer) (file : OpenFile) (hour : Hour) (pieces : List Piece) :
    Decidable (writer.Fits storage file hour pieces) :=
  inferInstanceAs (Decidable (_ ∧ _))

/-- Write normalized chunks in one go if they fit, else piece by piece. -/
def writePieces : List Piece → WriterM (List ChunkPosition)
  | [] => writeRotating storage []
  | piece :: pieces => do
    let hour := storage.hourOf piece.receivedAt
    let writer ← get
    if writer.file = none then openFile storage hour
    let writer ← get
    match writer.file with
    | none => writeRotating storage (piece :: pieces)
    | some file =>
      if writer.Fits storage file hour (piece :: pieces) then appendBatch storage (piece :: pieces)
      else writeRotating storage (piece :: pieces)

/-- Write a batch. After an error the writer keeps it, and closes the handles. -/
def writeMany (chunks : List Chunk) : WriterM (List ChunkPosition) := do
  let writer ← get
  match writer.closeError with
  | some error => throw error
  | none =>
    tryCatch (writePieces storage (normalize 0 chunks)) fun error => do
      modify fun writer => writer.latched error
      let writer ← get
      if writer.file.isSome then
        tryCatch (diskStep storage .closeAfterError) fun _ => throw error
      throw error

/-- Sync when a second has passed. -/
def syncDue : WriterM Bool := do
  let writer ← get
  match writer.closeError with
  | some error => throw error
  | none =>
    if writer.size ≠ writer.durableSize ∧ storage.syncDue writer.steps then
      syncFiles storage
      return true
    else return false

/-- Keep what is handed back besides the first archive. -/
def keepArchives (archives : List SealedSegment) : WriterM (Option SealedSegment) := do
  modify fun writer => writer.announce archives.tail
  return archives.head?

/-- Seal and publish now, and open the file of another hour if one is given. -/
def rotate (now : Option Instant) : WriterM (Option SealedSegment) := do
  sealLocked storage
  let archives ← publishPendingLocked storage false
  match now with
  | none => keepArchives archives
  | some now => do
    openFile storage (storage.hourOf now)
    keepArchives archives

/-- Seal and publish. -/
def close (defer : Bool) : WriterM (Option SealedSegment) := do
  sealLocked storage
  let archives ← publishPendingLocked storage defer
  keepArchives archives

end Writer

end CameraLogs.Logs

import CameraLogs.Logs.HourlyWriter
import CameraLogs.Logs.Naming

/-!
# Two ways to the manifest of a segment

`segmentManifest` is what a writer says of a segment it has sealed, from what it counted
while it wrote. `rawSegment` is what the recovery of a stopped run finds out from the log
and the index alone: it reads the index row by row, checks that the rows cover the log
without a gap and that their numbers follow one another, and takes the hour from the
directories the log is in.

A local hour is counted from the first hour of 1970 in the zone of the writer. The
directories name its date and its hour of the day, and say nothing about the zone; the
recovery takes them to be those of Shanghai.

A line of an index is text. `Encoding` is what the platform makes of rows and lines; what
a line is read as is a `Record`, where a field that is not an integer is missing.
-/

namespace CameraLogs.Logs

open Lib

/-! ## Manifests -/

/-- Whose segment it is. -/
structure SegmentOwner where
  taskId : String
  runId : String
  sessionId : String
  deriving DecidableEq

/-- The manifest of a segment. Recovery may find any integers for its numbers. -/
structure SegmentManifest (δ : Type) where
  owner : SegmentOwner
  hourStart : Instant
  rawSize : Nat
  sha256 : δ
  firstSequence : Option Int
  lastSequence : Option Int
  logPath : String
  sourceLogName : String
  logName : String
  indexName : String
  indexSha256 : δ
  indexBytes : Nat
  firstReceivedAt : Option Instant
  lastReceivedAt : Option Instant
  deriving DecidableEq

/-- When a local hour starts, by zone. -/
structure Zone where
  start : Hour → Instant

/-- The zone of Shanghai, as it has been since 1992. -/
def shanghai : Zone := { start := fun hour => hour * hourLength - shanghaiOffset }

/-- The number of the day that an hour is in. -/
def ordinalOf (hour : Hour) : Int := hour / 24 + epochOrdinal

/-- The date of an hour, and which hour of the day it is. -/
def dateOf (hour : Hour) : Date := Date.ofOrdinal (ordinalOf hour).toNat

def hourOfDay (hour : Hour) : Nat := (hour % 24).toNat

/-- What the names of a writer's files are made of. -/
structure WriterNames where
  taskRoot : String
  taskName : String
  deviceIp : String

/-- The directory of an hour. -/
def baseOf (names : WriterNames) (hour : Hour) : String :=
  let date := dateOf hour
  names.taskRoot ++ "/" ++ String.ofList (padded 4 date.year) ++ "-" ++
    String.ofList (padded 2 date.month) ++ "-" ++ String.ofList (padded 2 date.day) ++ "/" ++
    String.ofList (padded 2 (hourOfDay hour))

/-- The name of a log, without its extension. -/
def logStem (names : WriterNames) (log : LogPath) : String :=
  names.taskName ++ "-" ++ names.deviceIp ++ "-" ++
    String.ofList (stamp (dateOf log.hour) (hourOfDay log.hour) 0 0) ++ "-" ++
    String.ofList (stamp (dateOf (log.hour + 1)) (hourOfDay (log.hour + 1)) 0 0) ++ "-part-" ++
    String.ofList (padded 6 log.part)

/-- What a line of an index is read as. -/
inductive ReceivedText
  | invalid
  | naive
  | aware (instant : Instant)
  deriving DecidableEq

structure Record where
  sequence : Option Int
  offset : Option Int
  length : Option Int
  receivedAt : ReceivedText
  deriving DecidableEq

/-- The line of a row, and what a line is read as: none when it is not an object. -/
structure Encoding where
  dumps : IndexRow → Bytes
  loads : Bytes → Option Record

/-- A row as it was written. -/
def Record.ofRow (row : IndexRow) : Record :=
  { sequence := some row.sequence, offset := some row.offset, length := some row.length
    receivedAt := .aware row.receivedAt }

section Manifest

variable {δ : Type} (encoding : Encoding) (digest : Bytes → δ) (owner : SegmentOwner)

/-- The text of an index. -/
def Encoding.text (rows : List IndexRow) : Bytes := rows.flatMap encoding.dumps

/-- The manifest of a sealed segment, from what the writer has counted. -/
def segmentManifest (names : WriterNames) (zone : Zone) (segment : SealedSegment) :
    SegmentManifest δ :=
  let stem := logStem names segment.log
  { owner, hourStart := zone.start segment.hour, rawSize := segment.size
    sha256 := digest segment.digest
    firstSequence := segment.first.map Int.ofNat, lastSequence := segment.last.map Int.ofNat
    logPath := baseOf names segment.log.hour ++ "/" ++ stem ++ ".log"
    sourceLogName := stem ++ ".log"
    logName := segmentNameFromSource (stem ++ ".log") segment.firstReceivedAt
      segment.lastReceivedAt
    indexName := stem ++ ".index.jsonl"
    indexSha256 := digest (encoding.text segment.indexDigest)
    indexBytes := (encoding.text segment.indexDigest).length
    firstReceivedAt := segment.firstReceivedAt, lastReceivedAt := segment.lastReceivedAt }

/-! ## Recovery -/

/-- A log on the disk: where it is, what its directories say, and what is in it and in the
index beside it, line by line. -/
structure RawLog where
  directory : String
  stem : String
  date : Option Date
  hour : Option Nat
  body : Bytes
  index : Option (List Bytes)

inductive RawError
  | missing
  | notAnObject
  | invalidPosition
  | invalidTime
  | notAtHead
  | notContinuous
  | sequenceGap
  | notCovered
  | noHour
  deriving DecidableEq

/-- What is known after some rows. -/
structure RawScan where
  offset : Option Int
  previousSequence : Option Int
  firstSequence : Option Int
  lastSequence : Option Int
  firstReceivedAt : Option Instant
  lastReceivedAt : Option Instant
  receivedTimesReliable : Bool

def RawScan.initial : RawScan :=
  { offset := none, previousSequence := none, firstSequence := none, lastSequence := none
    firstReceivedAt := none, lastReceivedAt := none, receivedTimesReliable := true }

/-- One row more. -/
def RawScan.next (scan : RawScan) (sequence offset length : Int) (received : Option Instant) :
    RawScan :=
  { offset := some (offset + length), previousSequence := some sequence
    firstSequence := scan.firstSequence.or (some sequence), lastSequence := some sequence
    firstReceivedAt := scan.firstReceivedAt.or received
    lastReceivedAt := received.or scan.lastReceivedAt
    receivedTimesReliable := scan.receivedTimesReliable && received.isSome }

/-- Read a line. -/
def scanLine (scan : RawScan) (line : Bytes) : Except RawError RawScan :=
  match encoding.loads line with
  | none => throw .notAnObject
  | some record =>
    match record.sequence, record.offset, record.length with
    | some sequence, some offset, some length =>
      if length ≤ 0 ∨ offset < 0 then throw .invalidPosition
      else
        let received := match record.receivedAt with
          | .invalid => none
          | .naive => some none
          | .aware instant => some (some instant)
        match received with
        | none => throw .invalidTime
        | some received =>
          if scan.offset = none ∧ offset ≠ 0 then throw .notAtHead
          else if ∃ stop ∈ scan.offset, offset ≠ stop then throw .notContinuous
          else if ∃ previous ∈ scan.previousSequence, sequence ≠ previous + 1 then
            throw .sequenceGap
          else return scan.next sequence offset length received
    | _, _, _ => throw .invalidPosition

/-- The hour that the directories name, taken as one of Shanghai. -/
def rawHour (log : RawLog) : Except RawError Instant :=
  match log.date, log.hour with
  | some date, some hour =>
    if date.Valid ∧ hour < 24 then
      return shanghai.start ((date.toOrdinal - epochOrdinal) * 24 + hour)
    else throw .noHour
  | _, _ => throw .noHour

/-- Rebuild the manifest of a log from what is on the disk. -/
def rawSegment (log : RawLog) : Except RawError (SegmentManifest δ) :=
  match log.index with
  | none => throw .missing
  | some lines =>
    if log.body = [] then throw .missing
    else do
      let scan ← lines.foldlM (scanLine encoding) RawScan.initial
      if scan.offset ≠ some (log.body.length : Int) ∨ scan.firstSequence = none ∨
          scan.lastSequence = none then throw .notCovered
      else
        let first := if scan.receivedTimesReliable then scan.firstReceivedAt else none
        let last := if scan.receivedTimesReliable then scan.lastReceivedAt else none
        let hourStart ← rawHour log
        return {
          owner, hourStart, rawSize := log.body.length, sha256 := digest log.body
          firstSequence := scan.firstSequence, lastSequence := scan.lastSequence
          logPath := log.directory ++ "/" ++ log.stem ++ ".log"
          sourceLogName := log.stem ++ ".log"
          logName := segmentNameFromSource (log.stem ++ ".log") first last
          indexName := log.stem ++ ".index.jsonl"
          indexSha256 := digest lines.flatten, indexBytes := lines.flatten.length
          firstReceivedAt := first, lastReceivedAt := last }

/-- What a sealed segment has left on the disk. -/
def rawLogOf (names : WriterNames) (segment : SealedSegment) : RawLog :=
  { directory := baseOf names segment.log.hour, stem := logStem names segment.log
    date := some (dateOf segment.log.hour), hour := some (hourOfDay segment.log.hour)
    body := segment.body, index := some (segment.rows.map encoding.dumps) }

end Manifest

end CameraLogs.Logs

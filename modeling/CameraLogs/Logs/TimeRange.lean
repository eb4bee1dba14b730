import CameraLogs.Logs.StreamSearch

/-!
# Reading a time range

`TimeRangeScan.scan` walks the rows of an index and the bytes of a log file in lockstep and
yields the bytes of the rows received in `[start, end)`, in pieces of at most 4096 bytes. A
row must start where the row before it ended. The file may be frozen inside a row: when a
read comes back empty the scan ends without an error.

A read may return less than it was asked for, and the scan may be cancelled before each.
-/

namespace CameraLogs.Logs

/-- What a read returns at most; the pieces are no longer. -/
def maxPieceBytes : Nat := 4096

/-- A file that is read from front to back. How much a read returns is up to the file, but it
is at least a byte while there is one. -/
structure ByteStream where
  content : Bytes
  granted : (position requested : Nat) → Nat
  granted_pos : ∀ position requested, 0 < requested → 0 < granted position requested
  granted_le : ∀ position requested, granted position requested ≤ requested

/-- `stream.read(requested)` at a position. -/
def ByteStream.read (stream : ByteStream) (position requested : Nat) : Bytes :=
  (stream.content.drop position).take (stream.granted position requested)

inductive ScanError
  | valueError (text : String)
  | keyError
  /-- `InterruptedError("job cancelled")` -/
  | interrupted
  deriving DecidableEq

/-- What `datetime.fromisoformat` makes of the text of a row. -/
inductive ReceivedAt
  | zoned (stamp : Instant)
  | naive
  | unparsable
  deriving DecidableEq

/-- What the index gives next: a row, or the error it raises instead. -/
inductive TimeIndexLine
  | row (offset length : Int) (receivedAt : ReceivedAt)
  | raises (error : ScanError)
  deriving DecidableEq

/-- A piece of a block as it is yielded; `data` is its bytes. -/
structure TimePiece where
  fileId : String
  offset : Nat
  length : Nat
  receivedAt : Instant
  data : Bytes
  text : List Char
  deriving DecidableEq

structure TimeRangeScan where
  start : Instant
  stop : Instant

def TimeRangeScan.accepts (scan : TimeRangeScan) (stamp : Instant) : Bool :=
  scan.start ≤ stamp ∧ stamp < scan.stop

/-- The checks of a row at a position: its length and its time, or what is raised. -/
def checkLine (position : Nat) : TimeIndexLine → Except ScanError (Nat × Instant)
  | .raises error => .error error
  | .row offset length receivedAt =>
    if offset ≠ position ∨ length < 0 then .error (.valueError "时间查询索引不连续")
    else
      match receivedAt with
      | .unparsable => .error (.valueError "Invalid isoformat string")
      | .naive => .error (.valueError "时间查询索引缺少时区")
      | .zoned stamp => .ok (length.toNat, stamp)

/-- How the loop over a row's bytes ends. -/
inductive BlockEnd
  | advanced (position : Nat)
  /-- A read came back empty: the scan is over. -/
  | watermark
  | cancelled
  deriving DecidableEq

section

variable (range : TimeRangeScan) (stream : ByteStream) (fileId : String)
  (cancelled : Nat → Bool)

/-- What is yielded for the bytes of a read. -/
def TimeRangeScan.piece (stamp : Instant) (position : Nat) (data : Bytes) : List TimePiece :=
  if range.accepts stamp then
    [{ fileId, offset := position, length := data.length, receivedAt := stamp, data
       text := (decodeReplace data.length data).1 }]
  else []

/-- The loop `while remaining`; a round takes a byte at least, so as many rounds as bytes
are enough. Whether the job is cancelled is asked once at each position. -/
def TimeRangeScan.scanBlock (stamp : Instant) : Nat → Nat → Nat → List TimePiece × BlockEnd
  | 0, position, _ => ([], .advanced position)
  | rounds + 1, position, remaining =>
    if remaining = 0 then ([], .advanced position)
    else if cancelled position then ([], .cancelled)
    else
      let data := stream.read position (min maxPieceBytes remaining)
      if data = [] then ([], .watermark)
      else
        let (pieces, blockEnd) := TimeRangeScan.scanBlock stamp rounds (position + data.length)
          (remaining - data.length)
        (range.piece fileId stamp position data ++ pieces, blockEnd)

/-- The rows from a position on: what is yielded, and what is raised in the end. -/
def TimeRangeScan.scanFrom : Nat → List TimeIndexLine → List TimePiece × Option ScanError
  | position, [] =>
    if stream.read position 1 = [] then ([], none)
    else ([], some (.valueError "时间查询缺少完整接收时间索引"))
  | position, line :: lines =>
    match checkLine position line with
    | .error error => ([], some error)
    | .ok (length, stamp) =>
      match range.scanBlock stream fileId cancelled stamp length position length with
      | (pieces, .cancelled) => (pieces, some .interrupted)
      | (pieces, .watermark) => (pieces, none)
      | (pieces, .advanced position) =>
        let (rest, error) := TimeRangeScan.scanFrom position lines
        (pieces ++ rest, error)

/-- `TimeRangeScan.scan` -/
def TimeRangeScan.scan (index : List TimeIndexLine) : List TimePiece × Option ScanError :=
  range.scanFrom stream fileId cancelled 0 index

end

end CameraLogs.Logs

import CameraLogs.Lib.Spans
import CameraLogs.Logs.StreamSearch
import Mathlib.Algebra.GroupWithZero.Nat

/-!
# The buffer of the live log viewer

`ingest` takes the frames of a subscription. It trims what it has already taken of a
file, puts the rest into the open line, and moves complete lines to the list of visible
lines, whose oldest ones go when the content gets larger than the budget. Of everything
that it knows to be missing it keeps the byte ranges.

Frames here carry a file and an offset, and are not gap notices of the server; so a piece
always has its place in a file. The array slots of lines that were taken out, which the
source empties and later cuts off, are left out.
-/

namespace CameraLogs.Viewer

open Lib Logs

def longLineByteLimit : Nat := 65536

def trackedFileLimit : Nat := 200

def missingRangeLimit : Nat := 200

/-- `Number.MAX_SAFE_INTEGER`. -/
def maxSafeInteger : Nat := 2 ^ 53 - 1

/-- A file, as part of a session. -/
abbrev Source := Option String × String

/-- A frame with its bytes decoded. -/
structure LiveLogFrame where
  data : Bytes
  cursor : Option String
  fileId : String
  offset : Nat
  sessionId : Option String

def LiveLogFrame.source (frame : LiveLogFrame) : Source := (frame.sessionId, frame.fileId)

/-- Bytes and their place. -/
structure BytePiece where
  bytes : Bytes
  source : Source
  start : Nat

def BytePiece.span (piece : BytePiece) : Span Source :=
  { key := piece.source, start := piece.start, stop := piece.start + piece.bytes.length }

/-- `slicePiece`. -/
def BytePiece.slice (piece : BytePiece) (start stop : Nat) : BytePiece :=
  { piece with bytes := (piece.bytes.drop start).take (stop - start), start := piece.start + start }

structure StoredLine where
  text : List Char
  pieces : List (Span Source)
  byteLength : Nat

inductive Reason
  | transport
  | retention
  deriving DecidableEq

structure LiveLogRange where
  id : Nat
  reason : Reason
  span : Span Source
  lines : Option Nat
  deriving DecidableEq

structure LiveLogBuffer where
  visibleLines : List StoredLine
  missingRanges : List LiveLogRange
  omitted : Nat
  gaps : Nat
  droppedRangeCount : Nat
  cursor : Option String
  partialLine : List BytePiece
  partialByteLength : Nat
  sessionId : Option String
  /-- In the order of insertion. -/
  offsets : List (String × Nat)
  retainedByteLength : Nat
  nextRangeId : Nat

def LiveLogBuffer.initial : LiveLogBuffer :=
  { visibleLines := [], missingRanges := [], omitted := 0, gaps := 0, droppedRangeCount := 0
    cursor := none, partialLine := [], partialByteLength := 0, sessionId := none, offsets := []
    retainedByteLength := 0, nextRangeId := 1 }

/-! ## Missing ranges -/

/-- The numbers of lines of two ranges; not known when one of them is not. -/
def addLines : Option Nat → Option Nat → Option Nat
  | some m, some n => some (m + n)
  | _, _ => none

/-- What a range becomes with another one merged into it. -/
def LiveLogRange.absorb (range : LiveLogRange) (span : Span Source) (lines : Option Nat) : LiveLogRange :=
  { range with span := Span.hull range.span span, lines := addLines range.lines lines }

/-- Of the same kind, and next to the span or over it. -/
def LiveLogRange.compatible (reason : Reason) (span : Span Source) (candidate : LiveLogRange) : Bool :=
  decide (candidate.reason = reason ∧ Span.Touches candidate.span span)

namespace LiveLogBuffer

def addRange (reason : Reason) (span : Span Source) (lines : Option Nat) (buffer : LiveLogBuffer) :
    LiveLogBuffer :=
  match buffer.missingRanges.filter (·.compatible reason span) with
  | first :: others =>
    let merged := others.foldl (fun range other => range.absorb other.span other.lines)
      (first.absorb span lines)
    { buffer with
      missingRanges := (buffer.missingRanges.filter fun range => !range.compatible reason span) ++ [merged] }
  | [] =>
    let ranges := buffer.missingRanges ++ [{ id := buffer.nextRangeId, reason, span, lines }]
    if missingRangeLimit < ranges.length then
      { buffer with
        missingRanges := ranges.tail, nextRangeId := buffer.nextRangeId + 1
        droppedRangeCount := buffer.droppedRangeCount + 1 }
    else { buffer with missingRanges := ranges, nextRangeId := buffer.nextRangeId + 1 }

def recordPieces (pieces : List (Span Source)) (reason : Reason) (lines : Option Nat)
    (buffer : LiveLogBuffer) : LiveLogBuffer :=
  let lines := if pieces.length = 1 then lines else none
  pieces.foldl (fun buffer span => buffer.addRange reason span lines) buffer

/-! ## The open line -/

def pushPartial (piece : BytePiece) (buffer : LiveLogBuffer) : LiveLogBuffer :=
  if piece.bytes = [] then buffer
  else
    { buffer with
      partialLine := buffer.partialLine ++ [piece]
      partialByteLength := buffer.partialByteLength + piece.bytes.length }

/-- The first bytes of pieces, and the pieces without them. -/
def splitPieces : Nat → List BytePiece → List BytePiece × List BytePiece
  | 0, pieces => ([], pieces)
  | _, [] => ([], [])
  | remaining, piece :: pieces =>
    if piece.bytes.length ≤ remaining then
      let (taken, left) := splitPieces (remaining - piece.bytes.length) pieces
      (piece.slice 0 piece.bytes.length :: taken, left)
    else ([piece.slice 0 remaining], piece.slice remaining piece.bytes.length :: pieces)

def takePartial (length : Nat) (buffer : LiveLogBuffer) : List BytePiece × LiveLogBuffer :=
  let (taken, left) := splitPieces length buffer.partialLine
  (taken,
    { buffer with
      partialLine := left
      partialByteLength :=
        buffer.partialByteLength - (taken.map (·.bytes.length)).sum })

def discardPartial (reason : Reason) (buffer : LiveLogBuffer) : LiveLogBuffer :=
  let buffer :=
    if buffer.partialByteLength = 0 then buffer
    else buffer.recordPieces (buffer.partialLine.map (·.span)) reason none
  { buffer with partialLine := [], partialByteLength := 0 }

/-! ## Complete lines -/

def joinPieces (pieces : List BytePiece) : Bytes := pieces.flatMap (·.bytes)

/-- `TextDecoder` without the byte order mark, and without the line end. -/
def decodeLine (pieces : List BytePiece) : List Char :=
  let bytes := joinPieces pieces
  let bytes := if [0xEF, 0xBB, 0xBF] <+: bytes then bytes.drop 3 else bytes
  let text := (decodeReplace bytes.length bytes).1
  if text.getLast? = some '\n' then
    if text.dropLast.getLast? = some '\r' then text.dropLast.dropLast else text.dropLast
  else text

/-- A piece goes behind the spans, or into the last one when it follows that in its file. -/
def addPiece (result : List (Span Source)) (piece : BytePiece) : List (Span Source) :=
  match result.getLast? with
  | some previous =>
    if previous.key = piece.source ∧ previous.stop = piece.start then
      result.dropLast ++ [{ previous with stop := piece.span.stop }]
    else result ++ [piece.span]
  | none => [piece.span]

def rangePieces (pieces : List BytePiece) : List (Span Source) := pieces.foldl addPiece []

/-- The length of a string in UTF-16. -/
def utf16Length (text : List Char) : Nat :=
  (text.map fun c => if c.toNat < 0x10000 then 1 else 2).sum

/-- `estimateStoredLineBytes`. -/
def estimateStoredLineBytes (text : List Char) (rangePieceCount : Nat) : Nat :=
  64 + utf16Length text * 2 + rangePieceCount * 48

/-- `enforceContentBudget`: the oldest lines go until the rest fits. -/
def enforceContentBudget (budget : Nat) : List StoredLine → LiveLogBuffer → LiveLogBuffer
  | [], buffer => { buffer with visibleLines := [] }
  | line :: rest, buffer =>
    if budget < buffer.retainedByteLength then
      enforceContentBudget budget rest
        (recordPieces line.pieces .retention (some 1)
          { buffer with
            retainedByteLength := buffer.retainedByteLength - line.byteLength
            omitted := buffer.omitted + 1 })
    else { buffer with visibleLines := line :: rest }

/-- A line goes behind the others; then the budget is enforced. -/
def pushLine (budget : Nat) (line : StoredLine) (buffer : LiveLogBuffer) : LiveLogBuffer :=
  enforceContentBudget budget (buffer.visibleLines ++ [line])
    { buffer with retainedByteLength := buffer.retainedByteLength + line.byteLength }

def emitLine (budget : Nat) (pieces : List BytePiece) (buffer : LiveLogBuffer) : LiveLogBuffer :=
  let text := decodeLine pieces
  let spans := rangePieces pieces
  buffer.pushLine budget
    { text, pieces := spans, byteLength := estimateStoredLineBytes text spans.length }

/-! ## Taking in bytes -/

def utf8Width (byte : UInt8) : Nat :=
  if byte &&& 0x80 = 0 then 1
  else if byte &&& 0xE0 = 0xC0 then 2
  else if byte &&& 0xF0 = 0xE0 then 3
  else if byte &&& 0xF8 = 0xF0 then 4
  else 1

/-- The last of the first bytes that is no continuation byte. -/
def leadBefore (bytes : Bytes) : Nat → Option Nat
  | 0 => none
  | i + 1 => if bytes.getD i 0 &&& 0xC0 = 0x80 then leadBefore bytes i else some i

def safeUtf8PrefixLength (limit : Nat) (buffer : LiveLogBuffer) : Nat :=
  let bytes := joinPieces buffer.partialLine
  let length := min limit bytes.length
  match leadBefore bytes length with
  | none => length
  | some lead => if length - lead < utf8Width (bytes.getD lead 0) then lead else length

/-- Emit the first bytes of the open line. -/
def emitPartial (budget length : Nat) (buffer : LiveLogBuffer) : LiveLogBuffer :=
  let (taken, buffer) := buffer.takePartial length
  buffer.emitLine budget taken

/-- The inner loop of `appendBytes`: a piece with no newline before its end goes into the
open line, which is cut when it gets too long. -/
def fillPartial (budget : Nat) : Nat → BytePiece → LiveLogBuffer → LiveLogBuffer
  | 0, _, buffer => buffer
  | fuel + 1, piece, buffer =>
    if piece.bytes = [] then buffer
    else
      let taken := min piece.bytes.length (longLineByteLimit - buffer.partialByteLength)
      let buffer := buffer.pushPartial (piece.slice 0 taken)
      let rest := piece.slice taken piece.bytes.length
      fillPartial budget fuel rest
        (if buffer.partialByteLength = longLineByteLimit ∧ rest.bytes ≠ [] then
          buffer.emitPartial budget (buffer.safeUtf8PrefixLength longLineByteLimit)
        else buffer)

/-- The last loop of `appendBytes`. -/
def trimPartial (budget : Nat) : Nat → LiveLogBuffer → LiveLogBuffer
  | 0, buffer => buffer
  | fuel + 1, buffer =>
    if longLineByteLimit < buffer.partialByteLength then
      trimPartial budget fuel (buffer.emitPartial budget (buffer.safeUtf8PrefixLength longLineByteLimit))
    else buffer

/-- Up to the next newline, or to the end; whether there is one. -/
def lineEnd (bytes : Bytes) : Nat × Bool :=
  match bytes.findIdx? (· = newline) with
  | some i => (i + 1, true)
  | none => (bytes.length, false)

def appendBytes (budget : Nat) : Nat → BytePiece → LiveLogBuffer → LiveLogBuffer
  | 0, _, buffer => buffer
  | fuel + 1, piece, buffer =>
    if piece.bytes = [] then buffer
    else
      let (stop, ended) := lineEnd piece.bytes
      let buffer := buffer.fillPartial budget (2 * stop + 1) (piece.slice 0 stop)
      let buffer := if ended then buffer.emitPartial budget buffer.partialByteLength else buffer
      let buffer := buffer.trimPartial budget buffer.partialByteLength
      appendBytes budget fuel (piece.slice stop piece.bytes.length) buffer

/-! ## Frames -/

/-- `offsets.get`. -/
def offsetOf (fileId : String) (buffer : LiveLogBuffer) : Option Nat :=
  (buffer.offsets.find? (·.1 = fileId)).map (·.2)

def rememberOffset (fileId : String) (endOffset : Nat) (buffer : LiveLogBuffer) : LiveLogBuffer :=
  let offsets := (buffer.offsets.filter (·.1 ≠ fileId)) ++ [(fileId, endOffset)]
  { buffer with offsets := if trackedFileLimit < offsets.length then offsets.tail else offsets }

def resetSession (sessionId : Option String) (buffer : LiveLogBuffer) : LiveLogBuffer :=
  { discardPartial .transport { buffer with sessionId } with offsets := [] }

/-- The frame moves the cursor when it has one. -/
def moveCursor (frame : LiveLogFrame) (buffer : LiveLogBuffer) : LiveLogBuffer :=
  match frame.cursor with
  | some cursor => { buffer with cursor := some cursor }
  | none => buffer

/-- What was taken of the file before ends at `previous`: a gap behind it is recorded. -/
def recordGap (frame : LiveLogFrame) (previous : Nat) (buffer : LiveLogBuffer) : LiveLogBuffer :=
  if previous < frame.offset then
    discardPartial .transport
      (addRange .transport { key := frame.source, start := previous, stop := frame.offset } none
        { buffer with gaps := buffer.gaps + 1 })
  else buffer

/-- The end of `ingest`: take in the bytes of a frame from a start in the file on. -/
def takeIn (budget : Nat) (frame : LiveLogFrame) (start : Nat) (buffer : LiveLogBuffer) : LiveLogBuffer :=
  let bytes := frame.data.drop (start - frame.offset)
  moveCursor frame
    (appendBytes budget bytes.length { bytes, source := frame.source, start }
      (rememberOffset frame.fileId (frame.offset + frame.data.length) buffer))

/-- The part of `ingest` behind the session: trim, record a gap, take in. -/
def takeFrame (budget : Nat) (frame : LiveLogFrame) (buffer : LiveLogBuffer) : LiveLogBuffer :=
  match buffer.offsetOf frame.fileId with
  | none => buffer.takeIn budget frame frame.offset
  | some previous =>
    if frame.offset + frame.data.length ≤ previous then moveCursor frame buffer
    else (buffer.recordGap frame previous).takeIn budget frame (max frame.offset previous)

inductive FrameError
  | typeError (text : String)
  deriving DecidableEq

def ingest (budget : Nat) (frame : LiveLogFrame) (buffer : LiveLogBuffer) :
    Except FrameError LiveLogBuffer :=
  if frame.data = [] then .ok buffer
  else if maxSafeInteger < frame.offset + frame.data.length then
    .error (.typeError "日志帧 offset 必须是非负安全整数。")
  else
    let buffer :=
      if frame.sessionId ≠ buffer.sessionId then buffer.resetSession frame.sessionId else buffer
    .ok (buffer.takeFrame budget frame)

/-- The frames one after the other; one that is refused changes nothing. -/
def ingestAll (budget : Nat) (frames : List LiveLogFrame) (buffer : LiveLogBuffer) : LiveLogBuffer :=
  frames.foldl (fun buffer frame =>
    match buffer.ingest budget frame with
    | .ok next => next
    | .error _ => buffer) buffer

end LiveLogBuffer

end CameraLogs.Viewer

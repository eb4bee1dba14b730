import CameraLogs.Lib.Occurrence
import CameraLogs.Logs.Manifest
import Mathlib.Algebra.GroupWithZero.Nat

/-!
# Searching log files as one stream

`SearchState` is the matcher of one search job. It reads files in read blocks,
completes a line at every newline and, for every piece of a line, looks for the
keyword in the last `needle.length - 1` bytes of the line so far and the piece.
The first hit received inside the window, or covered by no index row, becomes the
line's match, and a completed line that has one is a result.

A file continues the line of the file before it when both have the same full
identity and the index says that its first block follows the other's last block.
The index rows of a file are consumed as the positions asked for increase.
-/

namespace CameraLogs.Logs

open Lib

/-- The longest line a result can hold. -/
def maxResultTextBytes : Nat := 256 * 1024

/-- One row of a log file's index: a received block. -/
structure IndexEntry where
  offset : Nat
  length : Nat
  receivedAt : Instant
  sequence : Option Nat
  deriving DecidableEq

/-- Whose log a file is; a key may be missing. -/
structure Identity where
  taskId : Option String
  runId : Option String
  sessionId : Option String
  nodeId : Option String
  deriving DecidableEq

/-- Every key is there and not empty. -/
def Identity.all (identity : Identity) : Bool :=
  [identity.taskId, identity.runId, identity.sessionId, identity.nodeId].all fun key =>
    key.any (· ≠ "")

/-- A frozen log file: its identity, the blocks it is read in, and its index, whose
rows stand in order and do not overlap. -/
structure LogFile where
  id : String
  identity : Identity
  chunks : List Bytes
  index : List IndexEntry
  chunks_ne_nil : ∀ chunk ∈ chunks, chunk ≠ []
  index_ordered : index.Pairwise fun e e' => e.offset + e.length ≤ e'.offset

/-- The bytes of a file. -/
def LogFile.content (file : LogFile) : Bytes := file.chunks.flatten

/-! ## The index -/

/-- The index rows consumed so far end with `current`; `pending` is the next one. -/
structure IndexCursor where
  current : Option IndexEntry
  pending : Option IndexEntry
  entries : List IndexEntry

def IndexCursor.start (index : List IndexEntry) : IndexCursor :=
  { current := none, pending := index.head?, entries := index.tail }

/-- Consume the rows that start at or before a position. -/
def IndexCursor.consume (position : Nat) :
    Option IndexEntry → Option IndexEntry → List IndexEntry → IndexCursor
  | current, none, entries => { current, pending := none, entries }
  | current, some next, [] =>
    if next.offset ≤ position then { current := some next, pending := none, entries := [] }
    else { current, pending := some next, entries := [] }
  | current, some next, entry :: rest =>
    if next.offset ≤ position then IndexCursor.consume position (some next) (some entry) rest
    else { current, pending := some next, entries := entry :: rest }

/-- The row that covers a position, if the last row consumed does. -/
def IndexCursor.locate (cursor : IndexCursor) (position : Nat) :
    IndexCursor × Option IndexEntry :=
  let cursor := IndexCursor.consume position cursor.current cursor.pending cursor.entries
  (cursor, cursor.current.filter fun entry => position < entry.offset + entry.length)

/-- Where a byte comes from, and when it was received if an index row covers it. -/
structure Origin where
  fileId : String
  position : Nat
  stamp : Option Instant
  deriving DecidableEq, Inhabited

/-- The index cursor of a file and the row located last. -/
structure OriginCache where
  cursor : IndexCursor
  cached : Option IndexEntry

/-- The origin of a position: the row located last, if the position is before its
end, or the row located now. -/
def OriginCache.origin (fileId : String) (cache : OriginCache) (position : Nat) :
    Origin × OriginCache :=
  match cache.cached with
  | some entry =>
    if position < entry.offset + entry.length then
      ({ fileId, position, stamp := some entry.receivedAt }, cache)
    else
      let (cursor, located) := cache.cursor.locate position
      ({ fileId, position, stamp := located.map (·.receivedAt) }, { cursor, cached := located })
  | none =>
    let (cursor, located) := cache.cursor.locate position
    ({ fileId, position, stamp := located.map (·.receivedAt) }, { cursor, cached := located })

/-- The origins of the positions from one on. -/
def OriginCache.origins (fileId : String) : OriginCache → Nat → Nat → List Origin × OriginCache
  | cache, _, 0 => ([], cache)
  | cache, position, count + 1 =>
    let (origin, cache) := cache.origin fileId position
    let (rest, cache) := OriginCache.origins fileId cache (position + 1) count
    (origin :: rest, cache)

/-! ## The matcher -/

/-- A search: a keyword that is not empty, and a time window. -/
structure Query where
  needle : Bytes
  start : Instant
  stop : Instant
  needle_ne_nil : needle ≠ []

/-- A hit counts when no index row covers it or it was received in the window. -/
def Query.accepts (query : Query) (source : Origin) : Bool :=
  match source.stamp with
  | none => true
  | some stamp => query.start ≤ stamp ∧ stamp < query.stop

/-- A result: the first hit, the start of its line, and the line. -/
structure SearchResult where
  fileId : String
  offset : Nat
  lineStartFileId : String
  lineStartOffset : Nat
  text : List Char
  encodingError : Bool
  deriving DecidableEq

inductive SearchError
  | valueError (text : String)
  deriving DecidableEq

structure SearchState where
  tail : Bytes
  origins : List Origin
  previousIdentity : Option Identity
  previousSequence : Option Nat
  line : Bytes
  lineBytes : Nat
  lineOverflow : Bool
  lineOrigin : Option Origin
  hit : Option Origin

def SearchState.initial : SearchState :=
  { tail := [], origins := [], previousIdentity := none, previousSequence := none, line := []
    lineBytes := 0, lineOverflow := false, lineOrigin := none, hit := none }

/-- Forget the line. -/
def SearchState.clearLine (state : SearchState) : SearchState :=
  { state with
    tail := [], origins := [], line := [], lineBytes := 0, lineOverflow := false
    lineOrigin := none, hit := none }

/-! ## Decoding a line -/

/-- How many bytes a character starting with this byte has, and the range of its
second byte; `none` when no character starts with it. -/
def utf8Shape (b : UInt8) : Option (Nat × UInt8 × UInt8) :=
  if b < 0x80 then some (1, 0x80, 0xBF)
  else if b < 0xC2 then none
  else if b < 0xE0 then some (2, 0x80, 0xBF)
  else if b = 0xE0 then some (3, 0xA0, 0xBF)
  else if b = 0xED then some (3, 0x80, 0x9F)
  else if b < 0xF0 then some (3, 0x80, 0xBF)
  else if b = 0xF0 then some (4, 0x90, 0xBF)
  else if b < 0xF4 then some (4, 0x80, 0xBF)
  else if b = 0xF4 then some (4, 0x80, 0x8F)
  else none

/-- The continuation bytes at the front, at most `count`; the first has its own range. -/
def continuation : Nat → UInt8 → UInt8 → Bytes → Bytes
  | 0, _, _, _ => []
  | _, _, _, [] => []
  | count + 1, low, high, b :: rest =>
    if low ≤ b ∧ b ≤ high then b :: continuation count 0x80 0xBF rest else []

/-- The character of a lead byte and its continuation bytes. -/
def utf8Char (lead : UInt8) (size : Nat) (rest : Bytes) : Char :=
  let leadBits := if size = 1 then lead.toNat else lead.toNat % 2 ^ (7 - size)
  Char.ofNat (rest.foldl (fun value b => value * 64 + b.toNat % 64) leadBits)

/-- Decode with replacement: each maximal piece of a character that does not go on
as one becomes a replacement character. The flag says whether that happened. -/
def decodeReplace : Nat → Bytes → List Char × Bool
  | 0, _ => ([], false)
  | _, [] => ([], false)
  | fuel + 1, b :: rest =>
    match utf8Shape b with
    | none =>
      let (chars, _) := decodeReplace fuel rest
      ('\uFFFD' :: chars, true)
    | some (size, low, high) =>
      let more := continuation (size - 1) low high rest
      let (chars, failed) := decodeReplace fuel (rest.drop more.length)
      if more.length = size - 1 then (utf8Char b size more :: chars, failed)
      else ('\uFFFD' :: chars, true)

/-- The text of a line, without a carriage return at its end. -/
def lineText (line : Bytes) : List Char × Bool :=
  let payload := if line.getLast? = some 13 then line.dropLast else line
  decodeReplace payload.length payload

/-! ## Lines -/

/-- Complete the line: a result if it has a hit, an error if it is too long then. -/
def SearchState.completeLine (state : SearchState) :
    Except SearchError (List SearchResult × SearchState) :=
  match state.hit with
  | none => .ok ([], state.clearLine)
  | some hit =>
    if state.lineOverflow then
      .error (.valueError "命中日志行超过 262144 字节，无法完整保存")
    else
      let (text, encodingError) := lineText state.line
      let start := state.lineOrigin.getD default
      .ok ([{ fileId := hit.fileId, offset := hit.position, lineStartFileId := start.fileId
              lineStartOffset := start.position, text, encodingError }], state.clearLine)

/-- The hits of a piece, one behind the other, until one counts. -/
def searchSegment (query : Query) (fileId : String) (tail : Bytes) (origins : List Origin)
    (segmentOffset : Nat) (data : Bytes) : Nat → Nat → OriginCache → Option Origin × OriginCache
  | 0, _, cache => (none, cache)
  | fuel + 1, start, cache =>
    match find query.needle data start with
    | none => (none, cache)
    | some found =>
      let (source, cache) :=
        if found < tail.length then (origins.getD found default, cache)
        else cache.origin fileId (segmentOffset + found - tail.length)
      if query.accepts source then (some source, cache)
      else searchSegment query fileId tail origins segmentOffset data fuel
        (found + query.needle.length) cache

/-- The origin of the open line: the one it has, or that of its first byte. -/
def lineStart (fileId : String) (segmentOffset : Nat) (state : SearchState)
    (cache : OriginCache) : Origin × OriginCache :=
  match state.lineOrigin with
  | some origin => (origin, cache)
  | none => cache.origin fileId segmentOffset

/-- The line buffer after a piece, and whether the line is too long for it. -/
def bufferLine (segment : Bytes) (state : SearchState) : Bytes × Bool :=
  if state.lineOverflow then (state.line, true)
  else
    let remaining := maxResultTextBytes - state.line.length
    (state.line ++ segment.take remaining, decide (remaining < segment.length))

/-- The hit of the open line after a piece; a line that has one is not searched. -/
def findHit (query : Query) (fileId : String) (segment : Bytes) (segmentOffset : Nat)
    (state : SearchState) (cache : OriginCache) : Option Origin × OriginCache :=
  match state.hit with
  | some hit => (some hit, cache)
  | none =>
    let data := state.tail ++ segment
    searchSegment query fileId state.tail state.origins segmentOffset data (data.length + 1) 0 cache

/-- The last `needle.length - 1` bytes of the open line after a piece, with origins. -/
def keepTail (query : Query) (fileId : String) (segment : Bytes) (segmentOffset : Nat)
    (state : SearchState) (cache : OriginCache) : Bytes × List Origin × OriginCache :=
  let data := state.tail ++ segment
  let keep := min data.length (query.needle.length - 1)
  if keep = 0 then ([], [], cache)
  else
    let retainedFrom := data.length - keep
    let sourceStart := retainedFrom - state.tail.length
    let (origins, cache) := cache.origins fileId (segmentOffset + sourceStart)
      (segment.length - sourceStart)
    (state.tail.drop retainedFrom ++ segment.drop sourceStart,
      state.origins.drop retainedFrom ++ origins, cache)

/-- Take in a piece of the line, without a newline in it. -/
def SearchState.appendSegment (query : Query) (fileId : String) (segment : Bytes) (segmentOffset : Nat)
    (state : SearchState) (cache : OriginCache) : SearchState × OriginCache :=
  if segment = [] then (state, cache)
  else
    let (lineOrigin, cache) := lineStart fileId segmentOffset state cache
    let (line, lineOverflow) := bufferLine segment state
    let (hit, cache) := findHit query fileId segment segmentOffset state cache
    let (tail, origins, cache) := keepTail query fileId segment segmentOffset state cache
    ({ state with
        lineOrigin := some lineOrigin, lineBytes := state.lineBytes + segment.length
        line, lineOverflow, hit, tail, origins }, cache)

/-- The newline byte. -/
def newline : UInt8 := 10

/-- The pieces of a block between its newlines. -/
def linePieces : Bytes → List Bytes
  | [] => [[]]
  | b :: rest =>
    if b = newline then [] :: linePieces rest
    else
      match linePieces rest with
      | [] => [[b]]
      | piece :: pieces => (b :: piece) :: pieces

/-- One read block, by its pieces: a line is completed between each two of them. -/
def scanPieces (query : Query) (fileId : String) :
    Nat → List Bytes → SearchState → OriginCache →
      Except SearchError (List SearchResult × SearchState × OriginCache)
  | _, [], state, cache => .ok ([], state, cache)
  | offset, [piece], state, cache =>
    let (state, cache) := SearchState.appendSegment query fileId piece offset state cache
    .ok ([], state, cache)
  | offset, piece :: next :: pieces, state, cache => do
    let (state, cache) := SearchState.appendSegment query fileId piece offset state cache
    let (results, state) ← state.completeLine
    let (rest, state, cache) ←
      scanPieces query fileId (offset + piece.length + 1) (next :: pieces) state cache
    return (results ++ rest, state, cache)

/-- The read blocks of a file, one after the other. -/
def scanChunks (query : Query) (fileId : String) :
    Nat → List Bytes → SearchState → OriginCache →
      Except SearchError (List SearchResult × SearchState × OriginCache)
  | _, [], state, cache => .ok ([], state, cache)
  | offset, chunk :: chunks, state, cache => do
    let (results, state, cache) ← scanPieces query fileId offset (linePieces chunk) state cache
    let (rest, state, cache) ← scanChunks query fileId (offset + chunk.length) chunks state cache
    return (results ++ rest, state, cache)

/-- The file goes on where the file scanned before it ended. -/
def SearchState.continues (state : SearchState) (file : LogFile) : Bool :=
  file.identity.all && decide (state.previousIdentity = some file.identity) &&
    match file.index.head?, state.previousSequence with
    | some first, some previous => first.offset = 0 ∧ first.sequence = some (previous + 1)
    | _, _ => false

/-- The sequence number of the last block, when the index ends with the file. -/
def endSequence (size : Nat) (cursor : IndexCursor) : Option Nat :=
  if size = 0 then none
  else
    let (cursor, last) := cursor.locate (size - 1)
    match last with
    | none => none
    | some last =>
      if cursor.pending = none ∧ last.offset + last.length = size then last.sequence else none

/-- Scan the read blocks of a file, and remember where it ended. -/
def scanBlocks (query : Query) (file : LogFile) (state : SearchState) :
    Except SearchError (List SearchResult × SearchState) := do
  let cache : OriginCache := { cursor := IndexCursor.start file.index, cached := none }
  let (results, state, cache) ← scanChunks query file.id 0 file.chunks state cache
  return (results,
    { state with
      previousIdentity := some file.identity
      previousSequence := endSequence file.content.length cache.cursor })

/-- Scan one file; the open line goes on only when the file continues the last one. -/
def scan (query : Query) (file : LogFile) (state : SearchState) :
    Except SearchError (List SearchResult × SearchState) := do
  let (completed, state) ← if state.continues file then .ok ([], state) else state.completeLine
  let (results, state) ← scanBlocks query file state
  return (completed ++ results, state)

/-- Scan files one after the other. -/
def scanFiles (query : Query) : List LogFile → SearchState →
    Except SearchError (List SearchResult × SearchState)
  | [], state => .ok ([], state)
  | file :: files, state => do
    let (results, state) ← scan query file state
    let (rest, state) ← scanFiles query files state
    return (results ++ rest, state)

/-- A whole search: scan the files, then complete the last line. -/
def search (query : Query) (files : List LogFile) : Except SearchError (List SearchResult) := do
  let (results, state) ← scanFiles query files SearchState.initial
  let (last, _) ← state.completeLine
  return results ++ last

end CameraLogs.Logs

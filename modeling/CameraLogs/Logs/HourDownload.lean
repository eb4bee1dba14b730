import CameraLogs.Logs.FileOrder
import CameraLogs.Logs.Naming
import CameraLogs.Logs.Source

/-!
# Rewriting an hour for a download

The logs of an hour are written into a new archive, source after source in the order of the
files. Of each source the frozen prefix goes in, cut into members that are not longer than the
cap. A member is named after the times of receipt of its first and last piece, which are read
from the index of the source, if it covers the prefix.

The index is read along with the source: `ReceiptCursor` is at the row that the next member
may begin in.
-/

namespace CameraLogs.Logs

inductive HourError
  | limit
  | missing
  | size
  /-- The index ends before the frozen prefix does. -/
  | exhausted
  | index
  | oversize
  deriving DecidableEq

/-- A line of an index: a row with a time that has an offset, or something else. -/
inductive IndexLine
  | row (offset length : Int) (receivedAt : Instant)
  | malformed
  deriving DecidableEq

/-- The bytes that an index row is for, and when they were received. -/
structure ReceiptRow where
  start : Nat
  stop : Nat
  receivedAt : Instant
  deriving DecidableEq

/-- `_index_entries`: the rows up to a line that is none or does not follow on. -/
def indexEntries : Nat → List IndexLine → List (Option ReceiptRow)
  | _, [] => []
  | _, .malformed :: _ => [none]
  | position, .row offset length receivedAt :: lines =>
    if offset = position ∧ 0 < length then
      some ⟨position, position + length.toNat, receivedAt⟩ ::
        indexEntries (position + length.toNat) lines
    else [none]

/-- The loop of `_index_covers_waterline`. -/
def entriesCover (frozenBytes : Nat) : List (Option ReceiptRow) → Bool
  | [] => false
  | none :: _ => false
  | some row :: entries => frozenBytes ≤ row.stop || entriesCover frozenBytes entries

def indexCoversWaterline (index : Option (List IndexLine)) (frozenBytes : Nat) : Bool :=
  0 < frozenBytes && index.any fun lines => entriesCover frozenBytes (indexEntries 0 lines)

/-- `_ReceiptCursor` -/
structure ReceiptCursor where
  entries : List (Option ReceiptRow)
  current : Option ReceiptRow

/-- Go on to the first row that ends behind a position. -/
def skipRows (start : Nat) : Option ReceiptRow → List (Option ReceiptRow) →
    Except HourError (ReceiptRow × List (Option ReceiptRow))
  | current, [] => match current with
    | some row => if row.stop ≤ start then .error .exhausted else .ok (row, [])
    | none => .error .exhausted
  | current, entry :: entries =>
    if current.all (·.stop ≤ start) then
      match entry with
      | none => .error .index
      | some row => skipRows start (some row) entries
    else match current with
      | some row => .ok (row, entry :: entries)
      | none => .error .exhausted

/-- The first and the last time, once a row has been looked at. -/
def noteRow (start : Nat) (row : ReceiptRow) (times : Option Instant × Option Instant) :
    Option Instant × Option Instant :=
  if start < row.stop then (times.1.or (some row.receivedAt), some row.receivedAt) else times

/-- Go on as long as rows begin before the end, and note the first and the last time. -/
def collectRows (start stop : Nat) : Option Instant × Option Instant → ReceiptRow →
    List (Option ReceiptRow) → Except HourError ((Option Instant × Option Instant) × ReceiptCursor)
  | times, row, [] =>
    if row.start < stop then .ok (noteRow start row times, ⟨[], some row⟩)
    else .ok (times, ⟨[], some row⟩)
  | times, row, entry :: entries =>
    if row.start < stop then
      if stop ≤ row.stop then .ok (noteRow start row times, ⟨entry :: entries, some row⟩)
      else match entry with
        | none => .error .index
        | some next => collectRows start stop (noteRow start row times) next entries
    else .ok (times, ⟨entry :: entries, some row⟩)

/-- `range`: the times of the first and the last row that meet an interval. -/
def ReceiptCursor.range (cursor : ReceiptCursor) (start stop : Nat) :
    Except HourError ((Option Instant × Option Instant) × ReceiptCursor) := do
  let (row, entries) ← skipRows start cursor.current cursor.entries
  collectRows start stop (none, none) row entries

/-- A source of an hour: what the job has frozen of it, its document, its archive and the index
that has been pinned for it. -/
structure HourSource where
  frozenBytes : Option Int
  document : FileDocument
  taskName : Option String
  ip : Option String
  deviceIp : Option String
  archive : Option (List TarMember)
  archiveMember : Option String
  index : Option (List IndexLine)

/-- What goes into the archive as a member, and where it comes from. -/
structure ExportMember where
  sourceId : String
  offset : Nat
  task : String
  device : String
  first : Option Instant
  last : Option Instant
  part : Nat
  content : Bytes
  deriving DecidableEq

/-- `source_member` -/
def sourceMember (source : HourSource) : Option TarMember := do
  let members ← source.archive
  let member ← match source.archiveMember.filter (· ≠ "") with
    | some name => members.reverse.find? fun member => member.name = name
    | none => members.find? fun member => member.name.endsWith ".log"
  if isLogMember member then some member else none

/-- How the members of an archive are called. -/
structure ExportNames where
  taskName : Option String
  deviceIp : Option String

def ExportNames.member (names : ExportNames) (source : HourSource) (part offset : Nat)
    (times : Option Instant × Option Instant) (content : Bytes) : ExportMember where
  sourceId := source.document.id
  offset := offset
  task := names.taskName.getD (((source.taskName.filter (· ≠ "")).or
    (source.document.taskId.filter (· ≠ ""))).getD "task")
  device := names.deviceIp.getD (((source.ip.filter (· ≠ "")).or
    (source.deviceIp.filter (· ≠ ""))).getD "unknown-ip")
  first := times.1
  last := times.2
  part := part
  content := content

/-- The times of a member, if there is a cursor. -/
def memberTimes (receipts : Option ReceiptCursor) (start stop : Nat) :
    Except HourError ((Option Instant × Option Instant) × Option ReceiptCursor) :=
  match receipts with
  | none => .ok ((none, none), none)
  | some cursor => (cursor.range start stop).map fun (times, cursor) => (times, some cursor)

/-- The loop over what remains of a source, for so many members at most. -/
def cutMembers (names : ExportNames) (source : HourSource) (stream : Bytes) (cap : Nat) :
    Nat → Option ReceiptCursor → Nat → Nat → Nat → Except HourError (List ExportMember)
  | 0, _, _, _, _ => .ok []
  | fuel + 1, receipts, offset, remaining, number =>
    if remaining = 0 then .ok []
    else do
      let size := min remaining cap
      let (times, receipts) ← memberTimes receipts offset (offset + size)
      let content := (stream.drop offset).take size
      let rest ← cutMembers names source stream cap fuel receipts (offset + size) (remaining - size)
        (number + 1)
      return names.member source number offset times content :: rest

/-- `_receipt_cursor` -/
def receiptCursor (source : HourSource) (frozenBytes : Nat) : Option ReceiptCursor :=
  if indexCoversWaterline source.index frozenBytes then
    source.index.map fun lines => ⟨indexEntries 0 lines, none⟩
  else none

/-- The members of one source, from a number on. -/
def writeSource (names : ExportNames) (cap : Nat) (number : Nat) (source : HourSource) :
    Except HourError (List ExportMember) := do
  let some member := sourceMember source | throw .missing
  let frozenBytes := source.frozenBytes.getD member.content.length
  if frozenBytes < 0 ∨ member.content.length < frozenBytes then throw .size
  let frozenBytes := frozenBytes.toNat
  if frozenBytes = 0 then return [names.member source number 0 (none, none) []]
  cutMembers names source member.content cap frozenBytes (receiptCursor source frozenBytes) 0
    frozenBytes number

/-- `by_id` -/
def sourceOf (sources : List HourSource) (id : String) : Option HourSource :=
  sources.reverse.find? fun source => source.document.id = id

/-- The loop over the sources in order. -/
def writeSources (names : ExportNames) (cap : Nat) (sources : List HourSource) :
    Nat → List FileDocument → Except HourError (List ExportMember)
  | _, [] => .ok []
  | number, document :: documents => do
    let some source := sourceOf sources document.id | throw .missing
    let members ← writeSource names cap number source
    let rest ← writeSources names cap sources (number + members.length) documents
    return members ++ rest

/-- The members of the archive, whose compressed size must not exceed the limit. -/
def writeHourArchive {τ : Type} [LinearOrder τ] (clock : Clock τ)
    (compressedSize : List ExportMember → Nat) (sources : List HourSource) (names : ExportNames)
    (maxOutputBytes : Option Nat) (maxMemberBytes : Int) : Except HourError (List ExportMember) := do
  if maxMemberBytes ≤ 0 then throw .limit
  let ordered := orderedFiles clock (sources.map HourSource.document)
  let members ← writeSources names maxMemberBytes.toNat sources 1 ordered
  if maxOutputBytes.any (· < compressedSize members) then throw .oversize
  return members

end CameraLogs.Logs

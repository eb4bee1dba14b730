import CameraLogs.Lib.Crash
import CameraLogs.Lib.Dict
import CameraLogs.Logs.Manifest

/-!
# Publishing an hour archive

`publishHourArchive` merges sealed segments into the tar of their hour. A call
reads the pending manifest a previous call may have left, writes the union of
the two as the new pending manifest, rebuilds the tar next to the old one,
verifies it member by member, and only then replaces the tar, the metadata and
the receipt, removes the raw logs and removes the pending manifest. Each of
these is one durable write; the index files stay.

The rebuilt tar holds the old members, copied as they are, and a member for each
segment whose name the old tar lacks. The metadata gets a record for each segment
whose name the old *metadata* lacks. The verification then compares the bytes of
every member with the record of the same name, whichever of the two wrote it.
-/

namespace CameraLogs.Logs

open Lib

/-- An entry of a tar file. -/
structure TarMember where
  name : String
  isfile : Bool
  content : Bytes
  deriving DecidableEq

/-- A file: what it parses to, `none` when it does not, and the signature (inode,
size and modification time) that changes whenever the file is replaced. -/
structure File (α : Type) where
  content : Option α
  signature : Nat
  deriving DecidableEq

/-- The receipt of a verified publication: the file versions it verified. -/
structure Receipt where
  archiveSignature : Nat
  metadataSignature : Nat
  indexSignatures : List (String × Nat)
  deriving DecidableEq

/-- The files of one hour: the archive, its side files, the raw logs by path and
the index files by name. `clock` is the signature the next file gets. -/
structure Dir (δ : Type) where
  clock : Nat
  tar : Option (File (List TarMember))
  metadata : Option (File (List (Member δ)))
  pending : Option (File (List (Segment δ)))
  receipt : Option Receipt
  raw : String → Option Bytes
  index : String → Option (File Bytes)

/-- Why a publication raises. -/
inductive PublishError
  | osError (text : String)
  | fileNotFound (name : String)
  | unreadable (name : String)
  deriving DecidableEq, Repr

namespace Dir

variable {δ : Type}

/-! ## Durable writes -/

def writePending (segments : List (Segment δ)) (dir : Dir δ) : Dir δ :=
  { dir with pending := some ⟨some segments, dir.clock⟩, clock := dir.clock + 1 }

def replaceTar (bundle : List TarMember) (dir : Dir δ) : Dir δ :=
  { dir with tar := some ⟨some bundle, dir.clock⟩, clock := dir.clock + 1 }

def writeMetadata (members : List (Member δ)) (dir : Dir δ) : Dir δ :=
  { dir with metadata := some ⟨some members, dir.clock⟩, clock := dir.clock + 1 }

def writeReceipt (receipt : Receipt) (dir : Dir δ) : Dir δ :=
  { dir with receipt := some receipt }

def unlinkRaw (logPath : String) (dir : Dir δ) : Dir δ :=
  { dir with raw := fun path => if path = logPath then none else dir.raw path }

def unlinkPending (dir : Dir δ) : Dir δ := { dir with pending := none }

/-! ## Reads -/

/-- Parse a file that may be absent; an absent one reads as the empty list. -/
def readList {α : Type} (name : String) : Option (File (List α)) → Except PublishError (List α)
  | none => .ok []
  | some file =>
    match file.content with
    | some content => .ok content
    | none => .error (.unreadable name)

/-- The signature of a file that must exist. -/
def signature {α : Type} (name : String) : Option (File α) → Except PublishError Nat
  | none => .error (.fileNotFound name)
  | some file => .ok file.signature

/-- The bytes of an index file. -/
def readIndex (dir : Dir δ) (name : String) : Except PublishError Bytes :=
  match dir.index name with
  | none => .error (.fileNotFound name)
  | some file =>
    match file.content with
    | some content => .ok content
    | none => .error (.unreadable name)

end Dir

section Publish

variable {δ : Type} [DecidableEq δ] (sha256 : Bytes → δ)

/-- Add a new segment to the pending ones. A known name must come with the same
digest and size, and then keeps its place. -/
def enlistSegment (pendingByName : List (Segment δ)) (segment : Segment δ) :
    Except PublishError (List (Segment δ)) :=
  match Dict.lookup (·.logName) segment.logName pendingByName with
  | some existing =>
    if (existing.sha256, existing.rawSize) ≠ (segment.sha256, segment.rawSize) then
      .error (.osError "待恢复分卷名称与摘要冲突")
    else .ok (Dict.upsert (·.logName) segment pendingByName)
  | none => .ok (Dict.upsert (·.logName) segment pendingByName)

/-- The segments of a call: those still pending from earlier calls, keyed by
name, and then the new ones. -/
def enlist (previousPending newSegments : List (Segment δ)) :
    Except PublishError (List (Segment δ)) :=
  newSegments.foldlM enlistSegment (Dict.upsertAll (·.logName) [] previousPending)

/-- Copy one member of the previous tar. -/
def copyMember (bundle : List TarMember) (member : TarMember) :
    Except PublishError (List TarMember) :=
  if ¬ member.isfile ∨ ¬ IsLogName member.name then
    .error (.osError "已有小时归档包含非日志成员")
  else .ok (bundle ++ [member])

/-- Bring one segment into the rebuilt tar. Its index must match its digest; its
raw log must match too when the tar already has a member of the name, must exist
when it has none, and is copied then. -/
def appendSegment (dir : Dir δ) (bundle : List TarMember) (segment : Segment δ) :
    Except PublishError (List TarMember) := do
  let index ← dir.readIndex segment.indexName
  if (sha256 index, index.length) ≠ (segment.indexSha256, segment.indexBytes) then
    .error (.osError "原始索引摘要校验失败")
  else
    let existing := segment.logName ∈ bundle.map (·.name)
    match dir.raw segment.logPath with
    | some raw =>
      if existing then
        if sha256 raw ≠ segment.sha256 ∨ raw.length ≠ segment.rawSize then
          .error (.osError "原始日志摘要校验失败")
        else .ok bundle
      else .ok (bundle ++ [{ name := segment.logName, isfile := true, content := raw }])
    | none =>
      if existing then .ok bundle else .error (.osError "待恢复原始日志不存在")

/-- The rebuilt tar: the previous members and then the segments it lacks. -/
def rebuildBundle (dir : Dir δ) (allSegments : List (Segment δ)) :
    Except PublishError (List TarMember) := do
  let previous ← Dir.readList "tar" dir.tar
  let bundle ← previous.foldlM copyMember []
  allSegments.foldlM (appendSegment sha256 dir) bundle

/-- The metadata of the rebuilt tar: the old records and then a record for each
segment whose name they lack. -/
def mergeMembers (oldMembers : List (Member δ)) (allSegments : List (Segment δ)) :
    List (Member δ) :=
  oldMembers ++ (allSegments.filter fun segment =>
    segment.logName ∉ oldMembers.map (·.logName)).map (·.member)

/-- Verify one member of the rebuilt tar against the record of its name. -/
def verifyMember (expected : List (Member δ)) (checked : List String) (info : TarMember) :
    Except PublishError (List String) :=
  match Dict.lookup (·.logName) info.name expected with
  | none => .error (.osError "小时归档成员不符合日志合同")
  | some member =>
    if ¬ info.isfile ∨ info.name ∈ checked ∨ ¬ IsLogName info.name then
      .error (.osError "小时归档成员不符合日志合同")
    else if (sha256 info.content, info.content.length) ≠ (member.sha256, member.rawSize) then
      .error (.osError "小时归档正文校验失败")
    else .ok (checked ++ [info.name])

/-- Verify the rebuilt tar: one record a name, every member recorded, matching and
not repeated, every record met. -/
def verifyBundle (members : List (Member δ)) (bundle : List TarMember) :
    Except PublishError Unit := do
  if ¬ (members.map (·.logName)).Nodup then
    .error (.osError "小时归档元数据包含重复成员")
  else
    let checked ← bundle.foldlM (verifyMember sha256 members) []
    if ∀ member ∈ members, member.logName ∈ checked then .ok ()
    else .error (.osError "小时归档成员缺失")

/-- The index versions a receipt binds, by index name. -/
def indexSignatures (dir : Dir δ) (members : List (Member δ)) :
    Except PublishError (List (String × Nat)) :=
  members.foldlM (fun indexes member => do
    let version ← Dir.signature member.indexName (dir.index member.indexName)
    return Dict.upsert Prod.fst (member.indexName, version) indexes) []

/-- Leave the receipt of a verified publication. -/
def persistVerified (members : List (Member δ)) : Durable (Dir δ) PublishError PUnit := do
  let dir ← peek
  let indexes ← attempt (indexSignatures dir members)
  let archiveSignature ← attempt (Dir.signature "tar" dir.tar)
  let metadataSignature ← attempt (Dir.signature "metadata" dir.metadata)
  durable (Dir.writeReceipt
    { archiveSignature, metadataSignature, indexSignatures := indexes })

/-- What a publication does once its segments are in the pending manifest. -/
def publishPending (allSegments : List (Segment δ)) : Durable (Dir δ) PublishError PUnit := do
  let dir ← peek
  let oldMembers ← attempt (Dir.readList "metadata" dir.metadata)
  let bundle ← attempt (rebuildBundle sha256 dir allSegments)
  let members := mergeMembers oldMembers allSegments
  attempt (verifyBundle sha256 members bundle)
  durable (Dir.replaceTar bundle)
  durable (Dir.writeMetadata members)
  persistVerified members
  allSegments.forM fun segment => durable (Dir.unlinkRaw segment.logPath)
  durable Dir.unlinkPending

/-- Merge segments into the hour's archive; the raw logs go once the tar, the
metadata and the receipt are in place. -/
def publishHourArchive (segments : List (Segment δ)) : Durable (Dir δ) PublishError PUnit := do
  let dir ← peek
  let previousPending ← attempt (Dir.readList "pending" dir.pending)
  let allSegments ← attempt (enlist previousPending segments)
  durable (Dir.writePending allSegments)
  publishPending sha256 allSegments

end Publish

end CameraLogs.Logs

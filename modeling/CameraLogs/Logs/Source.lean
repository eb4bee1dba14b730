import CameraLogs.Logs.Archive
import Mathlib.Data.List.DropRight

/-!
# Opening a log

A log is a raw file or a member of an archive. `open_log_source` opens the raw file, if the
path is that of one and it is there; else it opens an archive and looks for the member. A raw
file that has gone is looked up in the metadata of its directory.

Files are seen as they are when they are opened.
-/

namespace CameraLogs.Logs

inductive SourceError
  | missing
  /-- The archive does not parse. -/
  | unreadable
  /-- The size of the member is not that of the metadata. -/
  | size
  /-- The cache has been closed. -/
  | closed
  /-- A read from an open file failed. -/
  | fault
  deriving DecidableEq

/-- What a read has open. -/
structure LogSource where
  content : Bytes
  archive : Bool
  version : Option Nat
  deriving DecidableEq

/-- The files that sources are opened from, by path. -/
structure Disk where
  raw : String → Option Bytes
  archives : String → Option (File (List TarMember))
  /-- What the metadata beside a raw log says of it: the archive, the size and the member. -/
  published : String → Option (String × Nat × String)

/-- `path.suffixes[-2:] == [".tar", ".gz"]`, of a path's last part. -/
def isArchiveName (name : List Char) : Bool := ".tar.gz".toList.isSuffixOf (name.dropWhile (· = '.'))

def isArchivePath (path : String) : Bool := isArchiveName (path.toList.rtakeWhile (· ≠ '/'))

def isLogMember (member : TarMember) : Bool := member.isfile && member.name.endsWith ".log"

/-- The member that is asked for: the first log of that name, or the last member of it. -/
def findMember (members : List TarMember) (name : Option String) (firstMatch : Bool) :
    Option TarMember :=
  match name, firstMatch with
  | some name, false => members.reverse.find? fun member => member.name = name
  | _, _ => members.find? fun member => isLogMember member && (name = none || name = some member.name)

/-- Open a member of an archive. -/
def openArchive (file : Option (File (List TarMember))) (name : Option String)
    (firstMatch : Bool) (expectedSize : Option Nat) : Except SourceError LogSource := do
  let some file := file | throw .missing
  let some members := file.content | throw .unreadable
  let some member := findMember members name firstMatch | throw .missing
  if isLogMember member = false then throw .missing
  if expectedSize.any (· ≠ member.content.length) then throw .size
  return { content := member.content, archive := true, version := some file.signature }

def openLogSource (disk : Disk) (path : String) (name : Option String) (firstMatch : Bool) :
    Except SourceError LogSource :=
  if isArchivePath path then openArchive (disk.archives path) name firstMatch none
  else match disk.raw path with
    | some content => .ok { content, archive := false, version := none }
    | none => do
      if path.endsWith ".log" = false then throw .missing
      let some (archive, size, member) := disk.published path | throw .missing
      openArchive (disk.archives archive) (some member) firstMatch (some size)

end CameraLogs.Logs

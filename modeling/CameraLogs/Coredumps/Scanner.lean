import CameraLogs.Lib.Selection
import CameraLogs.Lib.Sweep
import Mathlib.Data.Prod.Lex

/-!
# Scanning the directories of the devices

A round of the scanner reads the directory of each device, two directories deep at most, and keeps
the first names behind a cursor in a heap of a fixed size: the keys of the heap are the names with
inverted characters, so that its least item is the last of the names. The rounds go through the
devices in the order of their ids, the cursor being the last name that was recorded.

Texts are lists of code points, as names of files may have some that are no characters.
-/

namespace CameraLogs.Coredumps

open Lib

abbrev CodePoint := Fin 0x110000

abbrev CodeText := List CodePoint

def codeText (text : String) : CodeText := text.toList.map fun c => Fin.ofNat _ c.toNat

def snapshotsName : CodeText := codeText ".snapshots"
def flagName : CodeText := codeText "coredump_flag.cdf"
def slash : CodePoint := Fin.ofNat _ '/'.toNat

/-- What a directory has; a directory that cannot be listed, or not to its end, has the entries
that come before. -/
inductive DirectoryEntry where
  /-- A regular file, and whether `regular_unlinked_file` accepts it. -/
  | file (name : CodeText) (unlinked : Bool)
  | directory (name : CodeText) (entries : List DirectoryEntry)
  /-- A link or a special file. -/
  | other (name : CodeText)

/-- `name.lower()`, as far as the name of the flag has letters. -/
def lowerCode (c : CodePoint) : CodePoint :=
  if 'A'.toNat ≤ c.val ∧ c.val ≤ 'Z'.toNat then Fin.ofNat _ (c.val + 32) else c

/-- `"".join(chr(0x10FFFF - ord(char)) for char in relative)` -/
def invertedName (relative : CodeText) : CodeText := relative.map Fin.rev

section Directory

variable (after : CodeText) (limit : Nat)

/-- A file is offered to the heap. -/
def considerFile (relative name : CodeText) (unlinked : Bool) (values : List CodeText) :
    List CodeText :=
  if name.map lowerCode = flagName then values
  else if relative ≤ after then values
  else if unlinked then offer invertedName limit values relative
  else values

/-- One entry of a directory; `enter` reads a directory in it. -/
def visitEntry (enter : CodeText → List DirectoryEntry → List CodeText → List CodeText)
    (parent : CodeText) (values : List CodeText) : DirectoryEntry → List CodeText
  | .other _ => values
  | .directory name entries =>
    if name = snapshotsName then values else enter (parent ++ name ++ [slash]) entries values
  | .file name unlinked =>
    if name = snapshotsName then values
    else considerFile after limit (parent ++ name) name unlinked values

/-- The entries of a directory and of those in it, so many levels deep. -/
def visitEntries : Nat → CodeText → List DirectoryEntry → List CodeText → List CodeText
  | 0, parent, entries, values =>
    -- a directory on the last level is no file
    entries.foldl (visitEntry after limit (fun _ _ values => values) parent) values
  | levels + 1, parent, entries, values =>
    entries.foldl (visitEntry after limit (visitEntries levels) parent) values

/-- `_scan_directory`, for a positive limit. -/
def scanDirectory (entries : List DirectoryEntry) : List CodeText :=
  (visitEntries after limit 2 [] entries []).insertionSort (· ≤ ·)

end Directory

/-! ## Rounds -/

/-- The directory of a device of a resource. -/
structure DeviceDirectory where
  id : CodeText
  entries : List DirectoryEntry

def nul : CodePoint := 0

/-- `_token` -/
def scanToken (resourceId name : CodeText) : CodeText := resourceId ++ nul :: name

/-- `cursor.partition("\x00")`, without the separator. -/
def partitionCursor (cursor : CodeText) : CodeText × CodeText :=
  (cursor.takeWhile (· ≠ nul), (cursor.dropWhile (· ≠ nul)).drop 1)

/-- What the loop over the devices has found, how many files the round may still take, and whether
the device of the cursor has some behind it. -/
structure Found where
  discovered : List (CodeText × CodeText)
  remaining : Nat
  cursorHasEntries : Bool

/-- `cursor_name if cursor_resource == resource["id"] else ""` -/
def afterName (cursor : CodeText × CodeText) (device : DeviceDirectory) : CodeText :=
  if cursor.1 = device.id then cursor.2 else []

/-- The loop over the devices. -/
def scanDevices (cursor : CodeText × CodeText) : List DeviceDirectory → Nat → Found
  | [], remaining => ⟨[], remaining, false⟩
  | device :: devices, remaining =>
    if remaining = 0 then ⟨[], remaining, false⟩
    else
      let entries := scanDirectory (afterName cursor device) remaining device.entries
      let found := scanDevices cursor devices (remaining - entries.length)
      { discovered := entries.map (device.id, ·) ++ found.discovered,
        remaining := found.remaining,
        cursorHasEntries := (device.id = cursor.1 && !entries.isEmpty) || found.cursorHasEntries }

/-- The devices in the order of their ids, from that of the cursor on. -/
def rotation (cursor : CodeText × CodeText) (devices : List DeviceDirectory) :
    List DeviceDirectory :=
  let ordered := devices.insertionSort fun a b => a.id ≤ b.id
  let pivot := (ordered.findIdx? fun device => cursor.1 ≤ device.id).getD 0
  ordered.drop pivot ++ ordered.take pivot

/-- The first files of the device of the cursor, when it has none behind the cursor. -/
def wrapAround (cursor : CodeText × CodeText) (devices : List DeviceDirectory) (found : Found) :
    List (CodeText × CodeText) :=
  if found.remaining ≠ 0 ∧ cursor.1 ≠ [] ∧ found.cursorHasEntries = false then
    match devices.find? (·.id = cursor.1) with
    | none => []
    | some device =>
      ((scanDirectory [] found.remaining device.entries).filter (· ≤ cursor.2)).map (device.id, ·)
  else []

/-- The files a round records. -/
def selectFiles (maximum : Nat) (devices : List DeviceDirectory) (cursorText : CodeText) :
    List (CodeText × CodeText) :=
  let cursor := partitionCursor cursorText
  let found := scanDevices cursor (rotation cursor devices) maximum
  (found.discovered ++ wrapAround cursor devices found).take maximum

structure ScanState where
  cursor : CodeText
  recorded : List (CodeText × CodeText)

def scanOnce (maximum : Nat) (devices : List DeviceDirectory) (s : ScanState) : ScanState :=
  let selected := selectFiles maximum devices s.cursor
  { cursor := match selected.getLast? with
      | none => s.cursor
      | some (id, name) => scanToken id name,
    recorded := s.recorded ++ selected }

/-- So many rounds. -/
def scanRounds (maximum : Nat) (devices : List DeviceDirectory) : Nat → ScanState → ScanState
  | 0, s => s
  | n + 1, s => scanOnce maximum devices (scanRounds maximum devices n s)

/-! ## What there is to find -/

/-- The names of the files in an entry that are to be found. -/
def entryNames (within : CodeText → List DirectoryEntry → List CodeText) (parent : CodeText) :
    DirectoryEntry → List CodeText
  | .other _ => []
  | .directory name entries =>
    if name = snapshotsName then [] else within (parent ++ name ++ [slash]) entries
  | .file name unlinked =>
    if name ≠ snapshotsName ∧ name.map lowerCode ≠ flagName ∧ unlinked = true then
      [parent ++ name]
    else []

def namesWithin : Nat → CodeText → List DirectoryEntry → List CodeText
  | 0, parent, entries => entries.flatMap (entryNames (fun _ _ => []) parent)
  | levels + 1, parent, entries => entries.flatMap (entryNames (namesWithin levels) parent)

/-- The files that are neither links nor flags nor in a directory of snapshots, and two directories
deep at most. -/
def eligibleNames (entries : List DirectoryEntry) : List CodeText := namesWithin 2 [] entries

/-- The eligible names behind a cursor, in order. -/
def namesAfter (entries : List DirectoryEntry) (after : CodeText) : List CodeText :=
  ((eligibleNames entries).filter (after < ·)).insertionSort (· ≤ ·)

/-- The files of all devices in the order of the ids and the names. -/
def devicePairs (devices : List DeviceDirectory) : List (CodeText ×ₗ CodeText) :=
  (devices.flatMap fun device =>
    (eligibleNames device.entries).map fun name => toLex (device.id, name)).insertionSort (· ≤ ·)

/-- The files in cyclic order, from behind a cursor on. -/
def cyclicAfter (devices : List DeviceDirectory) (cursor : CodeText) :
    List (CodeText × CodeText) :=
  let place : CodeText ×ₗ CodeText := toLex (partitionCursor cursor)
  ((devicePairs devices).filter (place < ·) ++ (devicePairs devices).filter (· ≤ place)).map ofLex

/-- The rounds from a state on record the files in cyclic order, none of them left out, and each
file within one round more than the files need. -/
def VisitsInCyclicOrder (maximum : Nat) (devices : List DeviceDirectory) (s : ScanState) : Prop :=
  (∀ n, let before := scanRounds maximum devices n s
    let selected := selectFiles maximum devices before.cursor
    selected <+: cyclicAfter devices before.cursor ∧
      (devicePairs devices ≠ [] → selected ≠ []) ∧
      (scanRounds maximum devices (n + 1) s).recorded = before.recorded ++ selected ∧
      ∀ pair, selected.getLast? = some pair →
        partitionCursor (scanRounds maximum devices (n + 1) s).cursor = pair) ∧
  ∀ pair ∈ devicePairs devices, ofLex pair ∈ (scanRounds maximum devices
    (((devicePairs devices).length + maximum - 1) / maximum + 1) s).recorded

end CameraLogs.Coredumps

import CameraLogs.Lib.Calendar
import CameraLogs.Logs.Manifest
import Mathlib.Data.List.DropRight
import Mathlib.Algebra.GroupWithZero.Nat

/-!
# Names of log segments

A raw log is named after the task, the device and the hour it was opened for. The member
it becomes keeps the task, the device and the part number, and has the times of its first
and last chunk in place of the hour (`segmentNameFromSource`).

Local time is that of Shanghai, eight hours before UTC. Names are lists of characters
here, and the patterns that the source matches are taken apart from the right, where
their pieces have fixed ends.
-/

namespace CameraLogs.Logs

open Lib

/-! ## Local time -/

/-- The microseconds of an hour. -/
def hourLength : Int := 3600 * 1000000

/-- The zone of names and directories is this far ahead of UTC. -/
def shanghaiOffset : Int := 8 * hourLength

/-- The first of January 1970, as a day of the calendar. -/
def epochOrdinal : Int := 719163

/-- The last day of the year 9999. -/
def lastOrdinal : Int := 3652059

/-! ## Text -/

/-- A number in decimal, with zeros in front up to a width. -/
def padded (width number : Nat) : List Char :=
  let digits := Nat.toDigits 10 number
  List.replicate (width - digits.length) '0' ++ digits

/-- Date and time of day, as fourteen digits. -/
def stamp (date : Date) (hour minute second : Nat) : List Char :=
  padded 4 date.year ++ padded 2 date.month ++ padded 2 date.day ++
    padded 2 hour ++ padded 2 minute ++ padded 2 second

/-- The local time of an instant, to the second; none beyond the calendar. -/
def timeComponent (instant : Instant) : Option (List Char) :=
  let seconds := (instant + shanghaiOffset) / 1000000
  let ordinal := seconds / 86400 + epochOrdinal
  let time := (seconds % 86400).toNat
  if 1 ≤ ordinal ∧ ordinal ≤ lastOrdinal then
    some (stamp (Date.ofOrdinal ordinal.toNat) (time / 3600) (time / 60 % 60) (time % 60))
  else none

/-- Where one of the ends is missing the range is not known. -/
def receivedRange (first last : Option Instant) : List Char :=
  match first.bind timeComponent, last.bind timeComponent with
  | some first, some last => first ++ ['-'] ++ last
  | _, _ => "unknown-time".toList

/-- What the platform calls white space. -/
def isSpace (c : Char) : Bool :=
  let code := c.toNat
  (9 ≤ code && code ≤ 13) || (28 ≤ code && code ≤ 32) || code = 133 || code = 160 || code = 5760 ||
    (8192 ≤ code && code ≤ 8202) || code = 8232 || code = 8233 || code = 8239 || code = 8287 ||
    code = 12288

/-- What must not stand in a file name: the nine punctuation marks and control characters. -/
def isUnsafe (c : Char) : Bool :=
  [60, 62, 58, 34, 47, 92, 124, 63, 42].contains c.toNat || c.toNat < 32 || c.toNat = 127

/-- What a name does not begin or end with. -/
def isEdge (c : Char) : Bool := c = ' ' || c = '.' || c = '-'

/-- Every run of such characters becomes one other character. -/
def collapse (p : Char → Bool) (replacement : Char) : Bool → List Char → List Char
  | _, [] => []
  | inRun, c :: rest =>
    if p c then
      if inRun then collapse p replacement true rest
      else replacement :: collapse p replacement true rest
    else c :: collapse p replacement false rest

/-- Take such characters off both ends. -/
def strip (p : Char → Bool) (text : List Char) : List Char := (text.dropWhile p).rdropWhile p

/-- As many whole characters as the bytes allow. -/
def takeUtf8 : Nat → List Char → List Char
  | _, [] => []
  | bytes, c :: rest => if c.utf8Size ≤ bytes then c :: takeUtf8 (bytes - c.utf8Size) rest else []

/-- A text that can be part of a file name. -/
def safeFilenameComponent (value : List Char) (maxUtf8Bytes : Nat) (fallback : List Char) :
    List Char :=
  let text := collapse isUnsafe '-' false (strip isSpace value)
  let text := strip isEdge (collapse isSpace ' ' false text)
  if text = [] ∨ text = ['.'] ∨ text = ['.', '.'] then fallback
  else
    let text := strip isEdge (takeUtf8 maxUtf8Bytes text)
    if text = [] then fallback else text

/-! ## Names of members -/

/-- The name in front of a suffix. -/
def beforeSuffix (suffix name : List Char) : Option (List Char) :=
  if suffix <:+ name then some (name.take (name.length - suffix.length)) else none

/-- The number that digits write. -/
def digitsValue (digits : List Char) : Nat :=
  digits.foldl (fun value c => value * 10 + (c.toNat - '0'.toNat)) 0

/-- A name that ends in digits and `.log`: what is in front of the digits, and their value. -/
def numberedLog (name : List Char) : Option (List Char × Nat) := do
  let stem ← beforeSuffix ".log".toList name
  let digits := stem.rtakeWhile Char.isDigit
  if digits = [] then none else some (stem.rdropWhile Char.isDigit, digitsValue digits)

/-- Two times of fourteen digits, each behind a hyphen. -/
def isRange (text : List Char) : Bool :=
  text.length = 30 && text.take 1 = ['-'] && ((text.drop 1).take 14).all Char.isDigit &&
    (text.drop 15).take 1 = ['-'] && (text.drop 16).all Char.isDigit

/-- What is in front of a range of times. -/
def beforeRange (name : List Char) : Option (List Char) :=
  match beforeSuffix "-unknown-time".toList name with
  | some front => some front
  | none =>
    if isRange (name.drop (name.length - 30)) then some (name.take (name.length - 30)) else none

/-- Task, device and part of a name with a range of times. -/
def rangedName (name : List Char) : Option (List Char × Nat) := do
  let (front, part) ← numberedLog name
  let front ← beforeSuffix "-part-".toList front
  let front ← beforeRange front
  if front = [] ∨ '\n' ∈ front then none else some (front, part)

/-- Task, device and part of a name without one. -/
def plainName (name : List Char) : Option (List Char × Nat) := do
  let (front, part) ← numberedLog ((beforeSuffix ['\n'] name).getD name)
  let front ← beforeSuffix "part-".toList front
  if front = [] ∨ front.getLast? = some '-' then some (front.rdropWhile (· = '-'), part) else none

/-- A name without its last extension. -/
def stemOf (name : List Char) : List Char :=
  let front := (name.rdropWhile (· ≠ '.')).dropLast
  if front = [] ∨ name.getLast? = some '.' then name else front

/-- The last part of a path: a path has no empty parts, and a single dot is none. -/
def pathName (path : List Char) : List Char :=
  (((path.splitOn '/').filter fun part => part ≠ [] ∧ part ≠ ['.']).getLast?).getD []

/-- What a name has in front of its times, and its part number. -/
def sourceParts (name : List Char) : List Char × Nat :=
  ((rangedName name).or (plainName name)).getD (stemOf name, 0)

/-- The name of the member that a log becomes. -/
def segmentNameFromSource (source : String) (first last : Option Instant) : String :=
  let (front, part) := sourceParts (pathName source.toList)
  String.ofList (safeFilenameComponent front 145 "segment".toList ++ ['-'] ++
    receivedRange first last ++ "-part-".toList ++ padded 6 part ++ ".log".toList)

end CameraLogs.Logs

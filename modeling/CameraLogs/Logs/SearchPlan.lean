import CameraLogs.Logs.StreamSearch
import Mathlib.Data.List.Dedup

/-!
# Which frozen files a search has to read

`planCandidateFiles` leaves files out of a search. A file is trusted when the index
knows its size, its first and last bytes, whether it has a newline and whether the
first three characters of the keyword may occur in it; every other file is kept. So
are the files in which those characters may occur, and those over whose boundary
they run: the planner carries the last bytes of the trusted files behind it, each
with the file it comes from. Around every file kept so far it then keeps the
neighbours in both directions, up to the first one that is known to have a newline.

The job scans what is kept, in order, and steps over the rest.
-/

namespace CameraLogs.Logs

open Lib

/-- A file as frozen in a job. -/
structure FrozenFile where
  id : Option String
  status : String
  bytes : Option Nat
  deriving DecidableEq

/-- What the index says about a file; a field is missing when it has another type. -/
structure Evidence where
  bytes : Option Nat
  head : Option Bytes
  tail : Option Bytes
  hasNewline : Option Bool
  mayMatch : Option Bool
  deriving DecidableEq

/-- Evidence that has been checked. -/
structure Checked where
  bytes : Nat
  head : Bytes
  tail : Bytes
  hasNewline : Bool
  mayMatch : Bool
  deriving DecidableEq

/-- A text in UTF-8. -/
def encode (text : List Char) : Bytes := text.flatMap String.utf8EncodeChar

/-- The first three characters of a keyword, unless it is shorter or has a line end. -/
def keywordPrefix (keyword : List Char) : Option Bytes :=
  if '\n' ∈ keyword ∨ '\r' ∈ keyword ∨ '\x00' ∈ keyword then none
  else if (keyword.take 3).length < 3 then none
  else some (encode (keyword.take 3))

/-- Evidence counts for a finished file of the size that it was made for. -/
def checkEvidence (file : FrozenFile) (value : Option Evidence) : Option Checked := do
  let value ← value
  if file.status ≠ "READY" then none
  else
    let frozen ← file.bytes
    let bytes ← value.bytes
    if frozen ≠ bytes then none
    else
      let head ← value.head
      let tail ← value.tail
      let hasNewline ← value.hasNewline
      let mayMatch ← value.mayMatch
      return { bytes, head, tail, hasNewline, mayMatch }

/-- A file by its name, with its checked evidence. -/
abbrev Entry := String × Option Checked

/-- A byte and the file it comes from. -/
abbrev Sourced := UInt8 × String

/-- The files the prefix runs over, at each of its occurrences from a position on that
takes in this file and another one. -/
def boundarySources (keyPrefix : Bytes) (identifier : String) (joined : List Sourced) :
    Nat → Nat → List String
  | 0, _ => []
  | fuel + 1, start =>
    match find keyPrefix (joined.map Prod.fst) start with
    | none => []
    | some start =>
      let sources := ((joined.drop start).take keyPrefix.length).map Prod.snd
      (if identifier ∈ sources ∧ 1 < sources.dedup.length then sources else []) ++
        boundarySources keyPrefix identifier joined fuel (start + 1)

/-- What a file adds to the bytes carried on: all of a small file, else its last ones. -/
def carried (keyPrefix : Bytes) (item : Checked) : Bytes :=
  if item.bytes ≤ keyPrefix.length - 1 then item.head.take keyPrefix.length
  else item.tail.rtake (keyPrefix.length - 1)

/-- The files found at boundaries, from the file before and the bytes carried on. -/
def boundaryCandidates (keyPrefix : Bytes) :
    Option String → List Sourced → List Entry → List String
  | _, _, [] => []
  | previous, _, (identifier, none) :: entries =>
    (match previous with | some other => [other, identifier] | none => []) ++
      boundaryCandidates keyPrefix (some identifier) [] entries
  | _, suffix, (identifier, some item) :: entries =>
    let joined := suffix ++ (item.head.take keyPrefix.length).map fun byte => (byte, identifier)
    let content := (carried keyPrefix item).map fun byte => (byte, identifier)
    boundarySources keyPrefix identifier joined (joined.length + 1) 0 ++
      boundaryCandidates keyPrefix (some identifier)
        ((suffix ++ content).rtake (keyPrefix.length - 1)) entries

/-- Files from one on, up to the first that is known to have a newline. -/
def neighbours : List Entry → List String
  | [] => []
  | (identifier, item) :: entries =>
    identifier :: if item.any (·.hasNewline) then [] else neighbours entries

/-- The neighbours of the seeds among the entries; those before stand nearest first. -/
def expandSeeds (seeds : List String) : List Entry → List Entry → List String
  | _, [] => []
  | before, entry :: after =>
    (if entry.1 ∈ seeds then neighbours before ++ neighbours after else []) ++
      expandSeeds seeds (entry :: before) after

/-- The files in which the prefix may stand, alone or over a boundary. -/
def seedFiles (keyPrefix : Bytes) (entries : List Entry) : List String :=
  (entries.filter fun entry => entry.2.all (·.mayMatch)).map Prod.fst ++
    boundaryCandidates keyPrefix none [] entries

/-- The frozen files that have to be read. -/
def planCandidateFiles (files : List FrozenFile) (evidence : String → Option Evidence)
    (keyword : List Char) : List String :=
  let identifiers := files.filterMap (·.id)
  match keywordPrefix keyword with
  | none => identifiers
  | some keyPrefix =>
    if identifiers.length ≠ files.length then identifiers
    else
      let entries := files.filterMap fun file =>
        file.id.map fun identifier => (identifier, checkEvidence file (evidence identifier))
      let seeds := seedFiles keyPrefix entries
      seeds ++ expandSeeds seeds [] entries

/-! ## The job -/

/-- A file of a search job: what is read, and what was frozen about it. -/
structure JobFile where
  log : LogFile
  status : String
  bytes : Option Nat

def JobFile.frozen (file : JobFile) : FrozenFile :=
  { id := some file.log.id, status := file.status, bytes := file.bytes }

/-- The plan of a job keeps a file. -/
def planKeeps (files : List JobFile) (evidence : String → Option Evidence)
    (keyword : List Char) (log : LogFile) : Bool :=
  log.id ∈ planCandidateFiles (files.map JobFile.frozen) evidence keyword

/-- The files of a job that are scanned. -/
def keptFiles (files : List JobFile) (evidence : String → Option Evidence)
    (keyword : List Char) : List LogFile :=
  (files.map (·.log)).filter (planKeeps files evidence keyword)

/-- How many bytes at both ends of a file the index keeps. -/
def edgeBytes : Nat := 16

/-- Checked evidence that says the truth about the bytes of a file. -/
structure Faithful (keyPrefix content : Bytes) (item : Checked) : Prop where
  bytes : item.bytes = content.length
  head : item.head = content.take edgeBytes
  tail : item.tail = content.rtake edgeBytes
  hasNewline : item.hasNewline = true ↔ newline ∈ content
  mayMatch : keyPrefix <:+: content → item.mayMatch = true

/-- The evidence of an index that looks for exactly the prefix. -/
def Evidence.ofContent (keyPrefix content : Bytes) : Evidence :=
  { bytes := some content.length
    head := some (content.take edgeBytes)
    tail := some (content.rtake edgeBytes)
    hasNewline := some (decide (newline ∈ content))
    mayMatch := some (decide (keyPrefix <:+: content)) }

/-- All evidence that counts says the truth. -/
def FaithfulEvidence (files : List JobFile) (evidence : String → Option Evidence)
    (keyword : List Char) : Prop :=
  ∀ file ∈ files, ∀ item, checkEvidence file.frozen (evidence file.log.id) = some item →
    Faithful (encode (keyword.take 3)) file.log.content item

end CameraLogs.Logs

import CameraLogs.Lib.Pattern
import CameraLogs.Logs.StreamSearch

/-!
# The response of a device's shell between its log records

A device prints log records on the line it answers on, in the middle of a challenge, a prompt or
a banner. `PshResponse` keeps a window of what has come without the records it recognises, and
without the terminal's control sequences. What it does not recognise stays.

`re.sub` and `re.search` are `Pattern.remove` and `Pattern.beforeMatch`.
-/

namespace CameraLogs.Collection

open Logs Lib

/-- The bytes of an ASCII text. -/
def ascii (text : List Char) : Bytes := text.map fun c => UInt8.ofNat c.toNat

def inRange (low high : Nat) (b : UInt8) : Bool := decide (low ≤ b.toNat ∧ b.toNat ≤ high)

def escapeByte : UInt8 := 0x1b

/-- A control sequence of the terminal: `ESC [`, parameters, intermediate bytes, a final byte. -/
def ansi : Pattern UInt8 :=
  .all [.one (· == escapeByte), .one (· == 0x5b), .star (inRange 0x30 0x3f),
    .star (inRange 0x20 0x2f), .one (inRange 0x40 0x7e)]

/-- `\s` -/
def isBlank (b : UInt8) : Bool := inRange 0x09 0x0d b || b == 0x20

/-- `\d` -/
def isDigitByte (b : UInt8) : Bool := inRange 0x30 0x39 b

/-- `[a-zA-Z0-9_-]` -/
def isHost (b : UInt8) : Bool :=
  inRange 0x61 0x7a b || inRange 0x41 0x5a b || inRange 0x30 0x39 b || b == 0x5f || b == 0x2d

def months : List Bytes :=
  [ascii ['J', 'a', 'n'], ascii ['F', 'e', 'b'], ascii ['M', 'a', 'r'], ascii ['A', 'p', 'r'],
    ascii ['M', 'a', 'y'], ascii ['J', 'u', 'n'], ascii ['J', 'u', 'l'], ascii ['A', 'u', 'g'],
    ascii ['S', 'e', 'p'], ascii ['O', 'c', 't'], ascii ['N', 'o', 'v'], ascii ['D', 'e', 'c']]

def levels : List Bytes :=
  [ascii ['e', 'm', 'e', 'r', 'g'], ascii ['a', 'l', 'e', 'r', 't'], ascii ['c', 'r', 'i', 't'],
    ascii ['e', 'r', 'r'], ascii ['e', 'r', 'r', 'o', 'r'], ascii ['w', 'a', 'r', 'n'],
    ascii ['w', 'a', 'r', 'n', 'i', 'n', 'g'], ascii ['n', 'o', 't', 'i', 'c', 'e'],
    ascii ['i', 'n', 'f', 'o'], ascii ['d', 'e', 'b', 'u', 'g']]

/-- `\d{2}` -/
def twoDigits : Pattern UInt8 := .seq (.one isDigitByte) (.one isDigitByte)

/-- The month, day, time, host and level a log record starts with. -/
def syslog : Pattern UInt8 :=
  .all [.anyOf months, .plus isBlank, .one isDigitByte, .opt (.one isDigitByte), .plus isBlank,
    twoDigits, .one (· == 0x3a), twoDigits, .one (· == 0x3a), twoDigits, .plus isBlank,
    .plus isHost, .one (· == 0x2e), .anyOf levels, .plus isBlank]

/-- The size of the window: `128 * 1024`. -/
@[irreducible] def windowSize : Nat := 131072

/-- `data[-128 * 1024:]` -/
def lastBytes (data : Bytes) : Bytes := data.drop (data.length - windowSize)

/-- `_ANSI.sub(b"", data)` -/
def clean (data : Bytes) : Bytes := ansi.remove data

/-- `data.split(b"\n")`: the ended lines, and what follows the last newline. -/
def splitNewlines : Bytes → List Bytes × Bytes
  | [] => ([], [])
  | b :: data =>
    let (parts, last) := splitNewlines data
    if b = newline then ([] :: parts, last)
    else
      match parts with
      | [] => ([], b :: last)
      | part :: parts => ((b :: part) :: parts, last)

structure PshResponse where
  pending : Bytes
  control : Bytes
  droppingLog : Bool
  deriving DecidableEq

namespace PshResponse

def start : PshResponse := { pending := [], control := [], droppingLog := false }

/-- One ended line; the newline of a record belongs to the record. -/
def feedLine (s : PshResponse) (part : Bytes) : PshResponse :=
  if s.droppingLog then { s with droppingLog := false }
  else
    match syslog.beforeMatch (clean part) with
    | some front => { s with control := lastBytes (s.control ++ front) }
    | none => { s with control := lastBytes (s.control ++ (clean part ++ [newline])) }

/-- The line that has not ended: what follows the start of a record is dropped at once. -/
def feedPending (s : PshResponse) : PshResponse :=
  if s.droppingLog then { s with pending := [] }
  else
    match syslog.beforeMatch (clean s.pending) with
    | some front =>
      { pending := [], control := lastBytes (s.control ++ front), droppingLog := true }
    | none => if windowSize < s.pending.length then { s with pending := lastBytes s.pending } else s

def feed (s : PshResponse) (data : Bytes) : PshResponse :=
  let (parts, pending) := splitNewlines (s.pending ++ data)
  (parts.foldl feedLine { s with pending }).feedPending

def data (s : PshResponse) : Bytes := lastBytes (s.control ++ clean s.pending)

/-- The window after some chunks. -/
def feedAll (chunks : List Bytes) : PshResponse := chunks.foldl feed start

end PshResponse

/-! ## What the two patterns describe -/

def isCapital (b : UInt8) : Bool := inRange 0x41 0x5a b

def isLower (b : UInt8) : Bool := inRange 0x61 0x7a b

theorem inRange_iff {low high : Nat} {b : UInt8} :
    inRange low high b = true ↔ low ≤ b.toNat ∧ b.toNat ≤ high :=
  decide_eq_true_iff

end CameraLogs.Collection

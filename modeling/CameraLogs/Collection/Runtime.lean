import Mathlib.Data.List.DropRight
import CameraLogs.Logs.Manifest
import Mathlib.Algebra.GroupWithZero.Nat

/-!
# The frames of a running task

`SessionRuntime` keeps the newest frames of one runtime instance, eight MiB of them at
most. `onLog` numbers a chunk and appends it, `tail` reads what lies behind a cursor.

A cursor is the text `run:number` of a frame. The number counts the frames of the
instance that made it, while the run outlives the instance: a paused task that is
resumed gets a new instance under the same run.
-/

namespace CameraLogs.Collection

open Logs (Bytes)

/-- The identifier of a run. -/
abbrev RunId := Nat

/-- The cursor of a frame. -/
structure Cursor where
  run : RunId
  number : Nat
  deriving DecidableEq

/-- What a client passes as its cursor: nothing, the text of a cursor, or a text that is
none. -/
inductive CursorText
  | empty
  | frame (cursor : Cursor)
  | unreadable
  deriving DecidableEq

/-- A chunk as the writer has stored it. -/
structure LogChunk where
  fileId : String
  sessionId : String
  runId : RunId
  offset : Nat
  data : Bytes
  deriving DecidableEq

structure DataFrame where
  fileId : String
  sessionId : String
  runId : RunId
  offset : Nat
  endOffset : Nat
  cursor : Cursor
  data : Bytes
  size : Nat
  deriving DecidableEq

/-- One runtime instance of a task. -/
structure SessionRuntime where
  runId : RunId
  frames : List DataFrame
  frameBytes : Nat
  frameNumber : Nat
  deriving DecidableEq

/-- A new instance has seen no frame. -/
def SessionRuntime.create (runId : RunId) : SessionRuntime :=
  { runId, frames := [], frameBytes := 0, frameNumber := 0 }

/-- How many bytes of frames are kept. -/
def maxFrameBytes : Nat := 8 * 1024 * 1024

/-- Drop the oldest frames until the rest is small enough. -/
def evict : Nat → List DataFrame → Nat × List DataFrame
  | frameBytes, [] => (frameBytes, [])
  | frameBytes, frame :: frames =>
    if maxFrameBytes < frameBytes then evict (frameBytes - frame.size) frames
    else (frameBytes, frame :: frames)

/-- The frame made of a chunk. -/
def frameOf (runtime : SessionRuntime) (chunk : LogChunk) : DataFrame :=
  { fileId := chunk.fileId, sessionId := chunk.sessionId, runId := chunk.runId
    offset := chunk.offset, endOffset := chunk.offset + chunk.data.length
    cursor := { run := runtime.runId, number := runtime.frameNumber + 1 }
    data := chunk.data, size := chunk.data.length }

/-- A chunk has been stored. -/
def onLog (runtime : SessionRuntime) (chunk : LogChunk) : SessionRuntime :=
  let kept := evict (runtime.frameBytes + chunk.data.length)
    (runtime.frames ++ [frameOf runtime chunk])
  { runtime with
    frames := kept.2, frameBytes := kept.1, frameNumber := runtime.frameNumber + 1 }

/-- The answer to a read. -/
structure Tail where
  frames : List DataFrame
  gap : Bool
  deriving DecidableEq

/-- The number to read on from: a cursor of another run counts from the beginning. -/
def SessionRuntime.numberOf (runtime : SessionRuntime) : CursorText → Nat
  | .frame cursor => if cursor.run = runtime.runId then cursor.number else 0
  | _ => 0

/-- Read behind a cursor; without one, the newest four frames. -/
def SessionRuntime.tail (runtime : SessionRuntime) (cursor : CursorText) : Tail :=
  let number := runtime.numberOf cursor
  let frames := runtime.frames.filter fun frame => number < frame.cursor.number
  if cursor = .empty then { frames := frames.rtake 4, gap := false }
  else
    { frames
      gap := match frames.head? with
        | some frame => decide (number + 1 < frame.cursor.number)
        | none => false }

/-- An instance the worker runs, with its number. -/
structure Instance where
  index : Nat
  /-- How many frames of the task had been received before it. -/
  start : Nat
  runtime : SessionRuntime
  deriving DecidableEq

/-- The internal route: nothing when there was no instance to ask, or when it is no longer
the active one by the time of the answer. -/
def nodeTail (asked : Option Nat) (active : Option Instance) (cursor : CursorText) : Tail :=
  match active with
  | none => { frames := [], gap := false }
  | some inst =>
    if asked = some inst.index then inst.runtime.tail cursor else { frames := [], gap := false }

/-! ## What a chunk does to the frames -/

theorem evict_suffix (frameBytes : Nat) (frames : List DataFrame) :
    (evict frameBytes frames).2 <:+ frames := by
  induction frames generalizing frameBytes with
  | nil => exact List.suffix_refl []
  | cons frame frames ih =>
    unfold evict
    split
    · exact (ih _).trans (List.suffix_cons frame frames)
    · exact List.suffix_refl _

/-- The bytes counted are those of the frames kept. -/
theorem evict_bytes (frames : List DataFrame) :
    (evict (frames.map (·.size)).sum frames).1 =
      ((evict (frames.map (·.size)).sum frames).2.map (·.size)).sum := by
  induction frames with
  | nil => rfl
  | cons frame frames ih =>
    unfold evict
    split
    · have hrest : ((frame :: frames).map (·.size)).sum - frame.size = (frames.map (·.size)).sum := by
        simp
      rw [hrest]
      exact ih
    · rfl

/-- What is kept is within the limit. -/
theorem evict_le (frames : List DataFrame) :
    (evict (frames.map (·.size)).sum frames).1 ≤ maxFrameBytes := by
  induction frames with
  | nil => exact Nat.zero_le _
  | cons frame frames ih =>
    unfold evict
    split
    · have hrest : ((frame :: frames).map (·.size)).sum - frame.size = (frames.map (·.size)).sum := by
        simp
      rw [hrest]
      exact ih
    · omega

end CameraLogs.Collection

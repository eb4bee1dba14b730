import CameraLogs.Logs.WriterRotation
import Mathlib.Data.List.Chain

/-!
# Where a batch is cut does not matter

What a batch leaves is a matter of its chunks, one after the other: `Filling.chunk` is
what one chunk does, and `fill` what a whole batch does. The writer holds chunks back in
a group, or appends all of them with one write, and comes to the same (`ends_writeMany`);
then a batch and its two halves agree because a fold over `xs ++ ys` is a fold over `xs`
and one over `ys` (`batch_split`).

The number of steps of I/O and what has been synced do differ, and are left out of what
is compared: `Writer.contents`. A step that fails ends a write with an error, so that the
statements here are about writes that return; without failures all of them do.
-/

namespace CameraLogs.Logs

open Lib Lib.Prog

/-! ## What is compared -/

/-- The writer without its count of steps and its mark of what has been synced. -/
def Writer.contents (writer : Writer) : Writer := { writer with steps := 0, durableSize := 0 }

/-- A later file gets the limit of the one before it, and what a directory lists goes by what
has been written, not by the number of steps that took. -/
structure Storage.Steady (storage : Storage) (limit : Nat) : Prop where
  limit : ∀ step, segmentLimit (storage.segmentBytes step) = limit
  indexParts : ∀ writer, storage.indexParts writer = storage.indexParts writer.contents
  takenParts : ∀ writer, storage.takenParts writer = storage.takenParts writer.contents

/-- Some step of I/O fails. -/
def Storage.Broken (storage : Storage) : Prop := ∃ count step, storage.fails count step ≠ none

@[simp] theorem contents_contents (writer : Writer) : writer.contents.contents = writer.contents :=
  rfl

@[simp] theorem contents_file (writer : Writer) : writer.contents.file = writer.file := rfl

@[simp] theorem contents_size (writer : Writer) : writer.contents.size = writer.size := rfl

@[simp] theorem contents_segmentMaxBytes (writer : Writer) :
    writer.contents.segmentMaxBytes = writer.segmentMaxBytes := rfl

@[simp] theorem contents_closeError (writer : Writer) :
    writer.contents.closeError = writer.closeError := rfl

@[simp] theorem contents_lastReceivedAt (writer : Writer) :
    writer.contents.lastReceivedAt = writer.lastReceivedAt := rfl

@[simp] theorem contents_tick (writer : Writer) : writer.tick.contents = writer.contents := rfl

@[simp] theorem contents_synced (writer : Writer) : writer.synced.contents = writer.contents := rfl

@[simp] theorem contents_detached (writer : Writer) :
    writer.detached.contents = writer.contents.detached := rfl

@[simp] theorem contents_enqueue (writer : Writer) (segment : SealedSegment) :
    (writer.enqueue segment).contents = writer.contents.enqueue segment := rfl

@[simp] theorem contents_segment (writer : Writer) (file : OpenFile) :
    writer.contents.segment file = writer.segment file := rfl

theorem file_of_contents {writer other : Writer} (h : writer.contents = other) :
    writer.file = other.file := congrArg (fun w => w.file) h

theorem closeError_of_contents {writer other : Writer} (h : writer.contents = other) :
    writer.closeError = other.closeError := congrArg (fun w => w.closeError) h

/-! ## What a chunk does -/

section Filling

variable (storage : Storage) (limit : Nat)

/-- The next file of an hour. -/
def nextLog (writer : Writer) (hour : Hour) : LogPath :=
  let taken := storage.takenParts writer hour
  { hour, part := freePart taken (taken.length + 1)
      ((storage.indexParts writer hour).foldl max 0 + 1) }

/-- The next file is open. -/
def Writer.next (writer : Writer) (hour : Hour) : Writer :=
  writer.opened (nextLog storage writer hour) hour limit

/-- The open file, if there is one, is sealed or, when empty, removed. -/
def Writer.sealNow (writer : Writer) : Writer :=
  match writer.file with
  | none => writer
  | some file =>
    if writer.size ≠ 0 then writer.detached.enqueue (writer.segment file) else writer.detached

/-- What waits has been persisted. -/
def Writer.handOver (writer : Writer) : Writer := writer.released.persisted writer.pending

/-- The positions of pieces appended to the open file. -/
def Writer.positionsNow (writer : Writer) (pieces : List Piece) : List ChunkPosition :=
  match writer.file with
  | none => []
  | some file => positionsOf file.log writer.sequence writer.size pieces

/-- A writer, and the positions handed back so far. -/
structure Filling where
  writer : Writer
  positions : List ChunkPosition

/-- Append one piece. -/
def Filling.put (filling : Filling) (piece : Piece) (identity : Nat × Option Instant) : Filling :=
  { writer := filling.writer.appended [piece]
    positions := filling.positions ++
      (filling.writer.positionsNow [piece]).map (ChunkPosition.identify · identity) }

/-- Go to the next file of the hour if the open one is full. -/
def Filling.room (filling : Filling) (hour : Hour) : Filling :=
  if filling.writer.segmentMaxBytes - filling.writer.size = 0 then
    { filling with writer := filling.writer.sealNow.next storage limit hour }
  else filling

/-- The part of a chunk from an offset on. -/
def partOf (piece : Piece) (consumed count : Nat) : Piece :=
  { piece with data := (piece.data.drop consumed).take count }

/-- Append the rest of a chunk, to as many files as it takes. -/
def Filling.cut (piece : Piece) (hour : Hour) (rollback : Option Instant) :
    Nat → Nat → Filling → Filling
  | 0, _, filling => filling
  | fuel + 1, consumed, filling =>
    if piece.data.length ≤ consumed then filling
    else
      let filling := filling.room storage limit hour
      let count := min (filling.writer.segmentMaxBytes - filling.writer.size)
        (piece.data.length - consumed)
      Filling.cut piece hour rollback fuel (consumed + count)
        (filling.put (partOf piece consumed count)
          (consumed, if consumed = 0 then rollback else none))

/-- Leave the open file if the chunk belongs to another hour or is older than the last one. -/
def Filling.turn (filling : Filling) (hour : Hour) (rollback : Option Instant) : Filling :=
  if filling.writer.file.map (·.hour) ≠ some hour ∨ rollback.isSome then
    { filling with writer := filling.writer.sealNow.handOver.next storage limit hour }
  else filling

/-- Append a chunk. -/
def Filling.chunk (filling : Filling) (piece : Piece) : Filling :=
  let rollback := filling.writer.lastReceivedAt.filter (piece.receivedAt < ·)
  let hour := storage.hourOf piece.receivedAt
  Filling.cut storage limit piece hour rollback piece.data.length 0
    (filling.turn storage limit hour rollback)

/-- A file for the first chunk. -/
def Writer.ready (writer : Writer) : List Piece → Writer
  | [] => writer
  | piece :: _ =>
    if writer.file = none then writer.next storage limit (storage.hourOf piece.receivedAt)
    else writer

/-- Append chunks, one after the other. -/
def fill (pieces : List Piece) (writer : Writer) : Filling :=
  pieces.foldl (Filling.chunk storage limit) ⟨writer.ready storage limit pieces, []⟩

end Filling

/-! ## Appending in several goes -/

section Appending

variable {writer : Writer} {pieces : List Piece}

theorem rowsOf_append (sequence offset : Nat) (xs ys : List Piece) :
    rowsOf sequence offset (xs ++ ys) = rowsOf sequence offset xs ++
      rowsOf (sequence + xs.length) (offset + (payloadOf xs).length) ys := by
  induction xs generalizing sequence offset with
  | nil => rfl
  | cons piece xs ih =>
    show _ :: rowsOf (sequence + 1) (offset + piece.data.length) (xs ++ ys) = _
    rw [ih, payloadOf_cons, List.length_append, List.length_cons]
    rw [Nat.add_assoc, Nat.add_comm 1, ← Nat.add_assoc offset]
    rfl

theorem positionsOf_append (path : LogPath) (sequence offset : Nat) (xs ys : List Piece) :
    positionsOf path sequence offset (xs ++ ys) = positionsOf path sequence offset xs ++
      positionsOf path (sequence + xs.length) (offset + (payloadOf xs).length) ys := by
  induction xs generalizing sequence offset with
  | nil => rfl
  | cons piece xs ih =>
    show _ :: positionsOf path (sequence + 1) (offset + piece.data.length) (xs ++ ys) = _
    rw [ih, payloadOf_cons, List.length_append, List.length_cons]
    rw [Nat.add_assoc, Nat.add_comm 1, ← Nat.add_assoc offset]
    rfl

theorem length_positionsOf (path : LogPath) (sequence offset : Nat) (pieces : List Piece) :
    (positionsOf path sequence offset pieces).length = pieces.length := by
  induction pieces generalizing sequence offset with
  | nil => rfl
  | cons piece pieces ih => exact congrArg (· + 1) (ih _ _)

/-- Two appends are one. -/
theorem appended_appended (writer : Writer) (xs : List Piece) {ys : List Piece} (hys : ys ≠ []) :
    (writer.appended xs).appended ys = writer.appended (xs ++ ys) := by
  obtain ⟨last, hlast⟩ := Option.ne_none_iff_exists'.mp (mt List.getLast?_eq_none_iff.mp hys)
  unfold Writer.appended Writer.advance Writer.extend
  simp [rowsOf_append, List.getLast?_append, hlast, Nat.add_assoc, Function.comp_def, Option.map_or,
    Option.or_assoc]

theorem positionsNow_append (xs ys : List Piece) : writer.positionsNow (xs ++ ys) =
    writer.positionsNow xs ++ (writer.appended xs).positionsNow ys := by
  unfold Writer.positionsNow
  rcases hfile : writer.file with _ | file
  · simp [Writer.appended, Writer.advance, Writer.extend, hfile]
  · simp [Writer.appended, Writer.advance, Writer.extend, hfile, positionsOf_append]

@[simp] theorem appended_size (writer : Writer) (pieces : List Piece) :
    (writer.appended pieces).size = writer.size + (payloadOf pieces).length := rfl

@[simp] theorem appended_segmentMaxBytes (writer : Writer) (pieces : List Piece) :
    (writer.appended pieces).segmentMaxBytes = writer.segmentMaxBytes := rfl

@[simp] theorem appended_closeError (writer : Writer) (pieces : List Piece) :
    (writer.appended pieces).closeError = writer.closeError := rfl

@[simp] theorem appended_lastReceivedAt (writer : Writer) (pieces : List Piece) :
    (writer.appended pieces).lastReceivedAt = pieces.getLast?.map (·.receivedAt) := rfl

@[simp] theorem appended_contents (writer : Writer) (pieces : List Piece) :
    (writer.appended pieces).contents = writer.contents.appended pieces := rfl

theorem appended_file {file : OpenFile} (hfile : writer.file = some file) (pieces : List Piece) :
    (writer.appended pieces).file = some { file with
      body := file.body ++ payloadOf pieces
      rows := file.rows ++ rowsOf writer.sequence writer.size pieces } :=
  congrArg (Option.map _) hfile

/-- The writer when pieces have been appended, if there are any. -/
def Writer.absorb (writer : Writer) (pieces : List Piece) : Writer :=
  if pieces = [] then writer else writer.appended pieces

theorem absorb_of_ne_nil (writer : Writer) (h : pieces ≠ []) :
    writer.absorb pieces = writer.appended pieces := if_neg h

theorem absorb_append (writer : Writer) (xs ys : List Piece) :
    (writer.absorb xs).absorb ys = writer.absorb (xs ++ ys) := by
  by_cases hxs : xs = []
  · rw [hxs]
    rfl
  by_cases hys : ys = []
  · rw [hys, List.append_nil]
    rfl
  · have hne : xs ++ ys ≠ [] := fun h => hxs (List.append_eq_nil_iff.mp h).1
    rw [absorb_of_ne_nil _ hxs, absorb_of_ne_nil _ hys, absorb_of_ne_nil _ hne]
    exact appended_appended writer xs hys

theorem absorb_size (writer : Writer) (pieces : List Piece) :
    (writer.absorb pieces).size = writer.size + (payloadOf pieces).length := by
  unfold Writer.absorb
  split
  next h => rw [h]; rfl
  next => rfl

theorem absorb_segmentMaxBytes (writer : Writer) (pieces : List Piece) :
    (writer.absorb pieces).segmentMaxBytes = writer.segmentMaxBytes := by
  unfold Writer.absorb
  split <;> rfl

theorem absorb_lastReceivedAt (writer : Writer) (pieces : List Piece) :
    (writer.absorb pieces).lastReceivedAt =
      (pieces.getLast?.map (·.receivedAt)).or writer.lastReceivedAt := by
  unfold Writer.absorb
  split
  next h => rw [h]; rfl
  next h =>
    obtain ⟨last, hlast⟩ := Option.ne_none_iff_exists'.mp (mt List.getLast?_eq_none_iff.mp h)
    rw [appended_lastReceivedAt, hlast]
    rfl

theorem absorb_hour (writer : Writer) (pieces : List Piece) :
    (writer.absorb pieces).file.map (·.hour) = writer.file.map (·.hour) := by
  unfold Writer.absorb
  split
  next => rfl
  next =>
    show (writer.file.map _).map _ = _
    rw [Option.map_map]
    rfl

theorem positionsNow_absorb (writer : Writer) (xs ys : List Piece) : writer.positionsNow (xs ++ ys) =
    writer.positionsNow xs ++ (writer.absorb xs).positionsNow ys := by
  unfold Writer.absorb
  split
  next h =>
    rw [h]
    unfold Writer.positionsNow
    split <;> rfl
  next => exact positionsNow_append xs ys

theorem length_positionsNow {file : OpenFile} (hfile : writer.file = some file)
    (pieces : List Piece) : (writer.positionsNow pieces).length = pieces.length := by
  unfold Writer.positionsNow
  rw [hfile]
  exact length_positionsOf _ _ _ _

end Appending

/-! ## The group of a rotating write -/

/-- The group and what goes with it belong together. -/
structure RotatingBatch.Sound (batch : RotatingBatch) : Prop where
  identities : batch.identities.length = batch.group.length
  groupBytes : batch.groupBytes = (payloadOf batch.group).length

/-- What there is once the group has been written. -/
def RotatingBatch.filling (batch : RotatingBatch) (writer : Writer) : Filling :=
  { writer := writer.contents.absorb batch.group
    positions := batch.positions ++
      List.zipWith ChunkPosition.identify (writer.contents.positionsNow batch.group)
        batch.identities }

section Group

variable {writer : Writer} {batch : RotatingBatch} {piece : Piece}

theorem RotatingBatch.Sound.empty : RotatingBatch.empty.Sound := ⟨rfl, rfl⟩

theorem filling_of_nil (h : batch.group = []) (hsound : batch.Sound) (writer : Writer) :
    batch.filling writer = ⟨writer.contents, batch.positions⟩ := by
  have hids : batch.identities = [] := by
    have hlen := hsound.identities
    rw [h] at hlen
    exact List.length_eq_zero_iff.mp hlen
  unfold RotatingBatch.filling
  rw [h, hids, List.zipWith_nil_right, List.append_nil]
  rfl

theorem RotatingBatch.Sound.push (h : batch.Sound) {consumed count : Nat}
    (hcount : count ≤ piece.data.length - consumed) (rollback : Option Instant) :
    (batch.push piece consumed count rollback).Sound := by
  refine ⟨?_, ?_⟩
  · show (batch.identities ++ [_]).length = (batch.group ++ [_]).length
    rw [List.length_append, List.length_append, h.identities]
    rfl
  · show batch.groupBytes + count = (payloadOf (batch.group ++ [_])).length
    rw [payloadOf_append, List.length_append, ← h.groupBytes, payloadOf_cons, payloadOf_nil,
      List.append_nil, List.length_take, List.length_drop, Nat.min_eq_left hcount]

/-- Putting a part into the group is appending it, later. -/
theorem filling_push (h : batch.Sound) (hopen : writer.file ≠ none) (consumed count : Nat)
    (rollback : Option Instant) :
    (batch.push piece consumed count rollback).filling writer =
      (batch.filling writer).put (partOf piece consumed count)
        (consumed, if consumed = 0 then rollback else none) := by
  obtain ⟨file, hfile⟩ := Option.ne_none_iff_exists'.mp hopen
  have hlen : (writer.contents.positionsNow batch.group).length = batch.identities.length := by
    rw [h.identities]
    exact @length_positionsNow writer.contents _ hfile _
  unfold RotatingBatch.filling RotatingBatch.push Filling.put
  dsimp only
  rw [← absorb_append, positionsNow_absorb, List.zipWith_append hlen, List.append_assoc]
  refine congrArg₂ Filling.mk rfl (congrArg _ (congrArg _ ?_))
  rcases hnow : (writer.contents.absorb batch.group).positionsNow [partOf piece consumed count]
    with _ | ⟨position, _ | ⟨position', rest⟩⟩
  · show List.zipWith _ (Writer.positionsNow _ [partOf piece consumed count]) _ = _
    rw [hnow]
    rfl
  · show List.zipWith _ (Writer.positionsNow _ [partOf piece consumed count]) _ = _
    rw [hnow]
    rfl
  · unfold Writer.positionsNow at hnow
    split at hnow
    · cases hnow
    · cases hnow

theorem filling_size (h : batch.Sound) :
    (batch.filling writer).writer.size = writer.size + batch.groupBytes := by
  rw [h.groupBytes]
  exact absorb_size _ _

theorem filling_segmentMaxBytes :
    (batch.filling writer).writer.segmentMaxBytes = writer.segmentMaxBytes :=
  absorb_segmentMaxBytes _ _

theorem filling_hour :
    (batch.filling writer).writer.file.map (·.hour) = writer.file.map (·.hour) := absorb_hour _ _

theorem filling_lastReceivedAt :
    (batch.filling writer).writer.lastReceivedAt = previousStamp writer batch := by
  show (writer.contents.absorb batch.group).lastReceivedAt = _
  rw [absorb_lastReceivedAt]
  unfold previousStamp
  rcases batch.group.getLast? with _ | last
  · rfl
  · rfl

theorem filling_closeError :
    (batch.filling writer).writer.closeError = writer.closeError := by
  show (writer.contents.absorb batch.group).closeError = _
  unfold Writer.absorb
  split <;> rfl

end Group

/-! ## What the steps do -/

section Steps

variable {storage : Storage} {limit : Nat} {writer : Writer} {batch : RotatingBatch}

theorem ends_diskStep (step : DiskStep) {Q : Unit → Writer → Prop} (h : Q () writer.tick) :
    Ends (diskStep storage step) writer Q storage.Broken := by
  unfold diskStep
  refine Ends.get_bind (Ends.set_bind ?_)
  split
  next => exact Ends.pure h
  next count hfails => exact Ends.throw ⟨_, _, by rw [hfails]; exact Option.some_ne_none count⟩

theorem ends_syncFiles {Q : Unit → Writer → Prop} (h : Q () writer.tick.synced) :
    Ends (syncFiles storage) writer Q storage.Broken :=
  Ends.bind (ends_diskStep _ (Ends.modify h))

theorem nextLog_contents (hsteady : storage.Steady limit) (hour : Hour) :
    nextLog storage writer hour = nextLog storage writer.contents hour := by
  unfold nextLog
  rw [hsteady.indexParts, hsteady.takenParts]

theorem ends_openFile (hsteady : storage.Steady limit) (hour : Hour) :
    Ends (openFile storage hour) writer (fun _ writer' =>
      writer'.contents = writer.contents.next storage limit hour) storage.Broken := by
  unfold openFile openSync
  refine Ends.get_bind (Ends.get_bind (Ends.bind (ends_diskStep _ (Ends.modify ?_))))
  unfold Writer.next
  rw [← nextLog_contents hsteady, hsteady.limit]
  rfl

theorem ends_appendBatch (hopen : writer.file ≠ none) (pieces : List Piece) :
    Ends (appendBatch storage pieces) writer (fun positions writer' =>
      positions = writer.contents.positionsNow pieces ∧
        writer'.contents = writer.contents.appended pieces) storage.Broken := by
  obtain ⟨file, hfile⟩ := Option.ne_none_iff_exists'.mp hopen
  have hpositions : positionsOf file.log writer.sequence writer.size pieces =
      writer.contents.positionsNow pieces := by
    unfold Writer.positionsNow
    rw [contents_file, hfile]
    rfl
  unfold appendBatch
  refine Ends.get_bind ?_
  rw [hfile]
  dsimp only
  unfold writeBody writeIndex
  refine Ends.bind (Ends.get_bind (Ends.set_bind ?_))
  rcases hfails : storage.fails writer.steps .appendBody with _ | count
  · dsimp only
    refine ends_diskStep _ (Ends.bind (Ends.bind (ends_diskStep _ (Ends.modify (Ends.bind
      (Ends.modify (Ends.get_bind ?_)))))))
    rw [extend_advance]
    split
    · exact Ends.bind (ends_syncFiles (Ends.pure ⟨hpositions, rfl⟩))
    · exact Ends.pure ⟨hpositions, rfl⟩
  · have hbroken : storage.Broken := ⟨_, _, by rw [hfails]; exact Option.some_ne_none count⟩
    -- the step of the body is the one that fails
    unfold diskStep
    refine Ends.get_bind (Ends.set_bind ?_)
    rw [show (writer.extend (payloadOf pieces |>.take count) []).steps = writer.steps from rfl, hfails]
    exact Ends.throw hbroken

theorem ends_sealLocked (hcalm : writer.closeError = none) :
    Ends (sealLocked storage) writer (fun _ writer' =>
      writer'.contents = writer.contents.sealNow) storage.Broken := by
  unfold sealLocked
  refine Ends.get_bind ?_
  rw [hcalm]
  dsimp only
  unfold Writer.sealNow
  rw [contents_file]
  rcases hfile : writer.file with _ | file
  · exact Ends.pure rfl
  refine Ends.bind (Ends.tryCatch ?_ fun hbroken error after =>
    Ends.bind (Ends.modify (Ends.throw hbroken)))
  refine Ends.bind (ends_diskStep _ (Ends.bind (ends_syncFiles (ends_diskStep _ ?_))))
  refine Ends.bind (Ends.modify ?_)
  dsimp only
  rw [contents_size]
  by_cases hsize : writer.size = 0
  · rw [if_neg (not_not.mpr hsize), if_neg (not_not.mpr hsize)]
    exact Ends.bind (ends_diskStep _ (ends_diskStep _ (by simp)))
  · rw [if_pos hsize, if_pos hsize]
    exact Ends.modify (by simp)

theorem ends_publishPendingLocked :
    Ends (publishPendingLocked storage true) writer (fun _ writer' =>
      writer'.contents = writer.contents.handOver) storage.Broken := by
  unfold publishPendingLocked
  refine Ends.get_bind ?_
  by_cases hpending : writer.pending = []
  · rw [if_pos hpending]
    refine Ends.pure ?_
    unfold Writer.contents Writer.handOver Writer.released Writer.persisted
    simp [hpending]
  · rw [if_neg hpending]
    refine Ends.bind (Ends.modify (Ends.bind ?_))
    unfold persistPending
    exact Ends.bind (ends_diskStep _ (Ends.bind (ends_diskStep _ (Ends.modify (Ends.pure rfl)))))

end Steps

/-! ## The loop -/

/-- A rotating write between two of its steps. -/
structure Held (writer : Writer) (batch : RotatingBatch) : Prop where
  sound : batch.Sound
  calm : writer.closeError = none
  opened : writer.file ≠ none

theorem sealNow_closeError (writer : Writer) : writer.sealNow.closeError = writer.closeError := by
  unfold Writer.sealNow
  split
  next => rfl
  next => split <;> rfl

section Loop

variable {storage : Storage} {limit : Nat} {writer : Writer} {batch : RotatingBatch}

theorem ends_flushGroup (h : Held writer batch) :
    Ends (flushGroup storage batch) writer (fun batch' writer' => Held writer' batch' ∧
      batch'.group = [] ∧ batch'.filling writer' = batch.filling writer) storage.Broken := by
  unfold flushGroup
  by_cases hgroup : batch.group = []
  · rw [if_pos hgroup]
    exact Ends.pure ⟨h, hgroup, rfl⟩
  rw [if_neg hgroup]
  refine Ends.bind ((ends_appendBatch h.opened batch.group).mono ?_)
  intro positions writer' hpost
  obtain ⟨hpositions, hcontents⟩ := hpost
  have hfile : writer'.file = (writer.contents.appended batch.group).file :=
    file_of_contents hcontents
  have hcalm : writer'.closeError = (writer.contents.appended batch.group).closeError :=
    closeError_of_contents hcontents
  refine Ends.pure ⟨⟨⟨rfl, rfl⟩, hcalm.trans h.calm, ?_⟩, rfl, ?_⟩
  · obtain ⟨file, hopen⟩ := Option.ne_none_iff_exists'.mp h.opened
    rw [hfile, @appended_file writer.contents _ hopen]
    exact Option.some_ne_none _
  · rw [filling_of_nil rfl ⟨rfl, rfl⟩]
    unfold RotatingBatch.filling
    rw [absorb_of_ne_nil _ hgroup, hcontents, hpositions]

/-- With an empty group, any steps that leave the file for a new one. -/
theorem Held.next {writer' : Writer} (h : Held writer batch) (hgroup : batch.group = [])
    {closed : Writer} {hour : Hour} (hcalm : closed.closeError = none)
    (hcontents : writer'.contents = closed.next storage limit hour) :
    Held writer' batch ∧
      batch.filling writer' = { batch.filling writer with writer := closed.next storage limit hour } := by
  have hfile : writer'.file = (closed.next storage limit hour).file :=
    file_of_contents hcontents
  have herror : writer'.closeError = (closed.next storage limit hour).closeError :=
    closeError_of_contents hcontents
  refine ⟨⟨h.sound, herror.trans hcalm, ?_⟩, ?_⟩
  · rw [hfile]
    exact Option.some_ne_none _
  · rw [filling_of_nil hgroup h.sound, filling_of_nil hgroup h.sound, hcontents]

/-- Cutting a chunk. The group is written before a file is left, so that what is in it and what
is in the file always make up the filling. -/
theorem ends_splitChunk (hsteady : storage.Steady limit) (h : Held writer batch) (piece : Piece)
    (hour : Hour) (rollback : Option Instant) (fuel consumed : Nat) :
    Ends (splitChunk storage piece hour rollback fuel consumed batch) writer
      (fun batch' writer' => Held writer' batch' ∧ batch'.filling writer' =
        Filling.cut storage limit piece hour rollback fuel consumed (batch.filling writer))
      storage.Broken := by
  induction fuel generalizing consumed writer batch with
  | zero => exact Ends.pure ⟨h, rfl⟩
  | succ fuel ih =>
    unfold splitChunk Filling.cut
    by_cases hend : piece.data.length ≤ consumed
    · rw [if_pos hend, if_pos hend]
      exact Ends.pure ⟨h, rfl⟩
    rw [if_neg hend, if_neg hend]
    -- one part goes into the group of a file with room, and the rest follows
    have hturn : ∀ {w : Writer} {b : RotatingBatch} {count : Nat}, Held w b →
        count = min ((b.filling w).writer.segmentMaxBytes - (b.filling w).writer.size)
          (piece.data.length - consumed) →
        Ends (splitChunk storage piece hour rollback fuel (consumed + count)
            (b.push piece consumed count rollback)) w
          (fun batch' writer' => Held writer' batch' ∧ batch'.filling writer' =
            Filling.cut storage limit piece hour rollback fuel (consumed + count)
              ((b.filling w).put (partOf piece consumed count)
                (consumed, if consumed = 0 then rollback else none))) storage.Broken := by
      intro w b count hheld hcount
      have hle : count ≤ piece.data.length - consumed := hcount ▸ Nat.min_le_right _ _
      rw [← filling_push hheld.sound hheld.opened]
      exact ih ⟨hheld.sound.push hle rollback, hheld.calm, hheld.opened⟩ _
    have hleft : (batch.filling writer).writer.segmentMaxBytes -
        (batch.filling writer).writer.size =
          writer.segmentMaxBytes - writer.size - batch.groupBytes := by
      rw [filling_size h.sound, filling_segmentMaxBytes, Nat.sub_sub]
    refine Ends.get_bind ?_
    unfold Filling.room
    rw [hleft]
    by_cases hfull : writer.segmentMaxBytes - writer.size - batch.groupBytes = 0
    · dsimp only
      rw [if_pos hfull, if_pos hfull]
      refine Ends.bind ((ends_flushGroup h).mono ?_)
      intro b₁ w₁ hflushed
      obtain ⟨hheld, hgroup, hfilling⟩ := hflushed
      refine Ends.bind ((ends_sealLocked hheld.calm).mono ?_)
      intro _ w₂ hsealed
      refine Ends.bind ((ends_openFile hsteady hour).mono ?_)
      intro _ w₃ hopened
      rw [hsealed] at hopened
      have hcalm : w₁.contents.sealNow.closeError = none :=
        (sealNow_closeError _).trans hheld.calm
      obtain ⟨hnext, hmoved⟩ := hheld.next hgroup hcalm hopened
      rw [← hfilling, show (b₁.filling w₁).writer = w₁.contents by
        rw [filling_of_nil hgroup hheld.sound], ← hmoved]
      refine Ends.get_bind ?_
      have hroom : w₃.segmentMaxBytes - w₃.size =
          (b₁.filling w₃).writer.segmentMaxBytes - (b₁.filling w₃).writer.size := by
        rw [filling_of_nil hgroup hnext.sound]
        rfl
      rw [hroom]
      exact hturn hnext rfl
    · dsimp only
      rw [if_neg hfull, if_neg hfull, ← hleft]
      exact hturn h rfl

theorem handOver_closeError (writer : Writer) : writer.handOver.closeError = writer.closeError :=
  rfl

/-- One chunk. A file is open by then, so that the writer's own opening is not taken. -/
theorem ends_writeChunk (hsteady : storage.Steady limit) (h : Held writer batch) (piece : Piece) :
    Ends (writeChunk storage batch piece) writer (fun batch' writer' => Held writer' batch' ∧
      batch'.filling writer' = (batch.filling writer).chunk storage limit piece)
      storage.Broken := by
  obtain ⟨file, hfile⟩ := Option.ne_none_iff_exists'.mp h.opened
  unfold writeChunk Filling.chunk Filling.turn
  refine Ends.get_bind ?_
  rw [filling_lastReceivedAt, filling_hour, hfile]
  dsimp only [Option.map_some]
  have hleaves : ∀ p : Prop, some file.hour ≠ some (storage.hourOf piece.receivedAt) ∨ p ↔
      storage.hourOf piece.receivedAt ≠ file.hour ∨ p := by
    intro p
    rw [ne_eq, Option.some_inj, eq_comm]
  by_cases hleave : storage.hourOf piece.receivedAt ≠ file.hour ∨
      ((previousStamp writer batch).filter (piece.receivedAt < ·)).isSome
  · rw [if_pos hleave, if_pos ((hleaves _).mpr hleave)]
    refine Ends.bind ((ends_flushGroup h).mono ?_)
    intro b₁ w₁ hflushed
    obtain ⟨hheld, hgroup, hfilling⟩ := hflushed
    refine Ends.bind ((ends_sealLocked hheld.calm).mono ?_)
    intro _ w₂ hsealed
    refine Ends.bind (ends_publishPendingLocked.mono ?_)
    intro _ w₃ hpublished
    refine Ends.bind ((ends_openFile hsteady _).mono ?_)
    intro _ w₄ hopened
    rw [hpublished, hsealed] at hopened
    have hcalm : w₁.contents.sealNow.handOver.closeError = none :=
      (sealNow_closeError _).trans hheld.calm
    obtain ⟨hnext, hmoved⟩ := hheld.next hgroup hcalm hopened
    rw [← hfilling, show (b₁.filling w₁).writer = w₁.contents by
      rw [filling_of_nil hgroup hheld.sound], ← hmoved]
    exact ends_splitChunk hsteady hnext piece _ _ _ _
  · rw [if_neg hleave, if_neg (mt (hleaves _).mp hleave)]
    exact ends_splitChunk hsteady h piece _ _ _ _

theorem ends_writeChunks (hsteady : storage.Steady limit) (h : Held writer batch)
    (pieces : List Piece) :
    Ends (pieces.foldlM (writeChunk storage) batch) writer (fun batch' writer' =>
      Held writer' batch' ∧ batch'.filling writer' =
        pieces.foldl (Filling.chunk storage limit) (batch.filling writer)) storage.Broken := by
  induction pieces generalizing writer batch with
  | nil => exact Ends.pure ⟨h, rfl⟩
  | cons piece pieces ih =>
    rw [List.foldlM_cons, List.foldl_cons]
    refine Ends.bind ((ends_writeChunk hsteady h piece).mono ?_)
    intro b₁ w₁ hchunk
    obtain ⟨hheld, hfilling⟩ := hchunk
    rw [← hfilling]
    exact ih hheld

/-- A rotating write to an open file is the chunks, one after the other. -/
theorem ends_writeRotating (hsteady : storage.Steady limit) (hcalm : writer.closeError = none)
    (hopen : writer.file ≠ none) (pieces : List Piece) :
    Ends (writeRotating storage pieces) writer (fun positions writer' =>
      Filling.mk writer'.contents positions =
        pieces.foldl (Filling.chunk storage limit) ⟨writer.contents, []⟩) storage.Broken := by
  have hheld : Held writer RotatingBatch.empty := ⟨RotatingBatch.Sound.empty, hcalm, hopen⟩
  have hfirst : RotatingBatch.empty.filling writer = ⟨writer.contents, []⟩ :=
    filling_of_nil rfl hheld.sound writer
  unfold writeRotating
  refine Ends.bind ((ends_writeChunks hsteady hheld pieces).mono ?_)
  intro b₁ w₁ hwritten
  refine Ends.bind ((ends_flushGroup hwritten.1).mono ?_)
  intro b₂ w₂ hflushed
  obtain ⟨hheld₂, hgroup, hfilling⟩ := hflushed
  rw [← hfirst, ← hwritten.2, ← hfilling, filling_of_nil hgroup hheld₂.sound]
  exact Ends.pure rfl

end Loop

/-! ## The write that fits -/

section Fits

variable {storage : Storage} {limit : Nat} {writer : Writer} {piece : Piece} {pieces : List Piece}

/-- What fits still fits after its first chunk. -/
theorem Writer.Fits.tail {file : OpenFile} {hour : Hour}
    (h : writer.Fits storage file hour (piece :: pieces)) :
    (writer.appended [piece]).Fits storage { file with
      body := file.body ++ payloadOf [piece]
      rows := file.rows ++ rowsOf writer.sequence writer.size [piece] } hour pieces := by
  obtain ⟨hfile, hhours, hchain, -, hroom⟩ := h
  refine ⟨hfile, fun p hp => hhours p (List.mem_cons_of_mem _ hp), hchain.tail, ?_, ?_⟩
  · intro last hlast p hp
    cases hlast
    cases pieces with
    | nil => cases hp
    | cons next pieces =>
      cases hp
      exact (List.isChain_cons_cons.mp hchain).1
  · rw [appended_size, appended_segmentMaxBytes, payloadOf_cons, payloadOf_nil, List.append_nil]
    rw [payloadOf_cons, List.length_append] at hroom
    omega

/-- A chunk that fits is appended whole, and marks nothing. -/
theorem chunk_of_fits {file : OpenFile} {hour : Hour} (hfile : writer.file = some file)
    (hfits : writer.Fits storage file hour (piece :: pieces)) (hne : piece.data ≠ [])
    (positions : List ChunkPosition) :
    Filling.chunk storage limit ⟨writer, positions⟩ piece =
      ⟨writer.appended [piece], positions ++ writer.positionsNow [piece]⟩ := by
  obtain ⟨hhour, hhours, -, hlast, hroom⟩ := hfits
  have hnone : writer.lastReceivedAt.filter (piece.receivedAt < ·) = none := by
    refine Option.filter_eq_none_iff.mpr ?_
    intro last hin
    rw [decide_eq_true_eq]
    exact Int.not_lt.mpr (hlast last hin piece rfl)
  have hpos : 0 < piece.data.length := List.length_pos_iff.mpr hne
  rw [payloadOf_cons, List.length_append] at hroom
  have hsame : file.hour = storage.hourOf piece.receivedAt :=
    hhour.trans (hhours piece List.mem_cons_self).symm
  have hturn : Filling.turn storage limit ⟨writer, positions⟩ (storage.hourOf piece.receivedAt) none =
      ⟨writer, positions⟩ := by
    unfold Filling.turn
    rw [if_neg]
    rw [hfile, Option.map_some, hsame]
    simp
  have hcount : min (writer.segmentMaxBytes - writer.size) (piece.data.length - 0) =
      piece.data.length := by omega
  have hidentity : (writer.positionsNow [piece]).map (ChunkPosition.identify · (0, none)) =
      writer.positionsNow [piece] := by
    unfold Writer.positionsNow
    rw [hfile]
    rfl
  obtain ⟨fuel, hfuel⟩ := Nat.exists_eq_succ_of_ne_zero (Nat.ne_of_gt hpos)
  unfold Filling.chunk
  dsimp only
  rw [hnone, hturn, hfuel]
  unfold Filling.cut Filling.room
  rw [if_neg (Nat.not_le.mpr hpos), if_neg (by dsimp only; omega)]
  dsimp only
  rw [hcount, Nat.zero_add]
  have hpart : partOf piece 0 piece.data.length = piece := by
    unfold partOf
    rw [List.drop_zero, List.take_length]
  have hdone : ∀ filling, Filling.cut storage limit piece (storage.hourOf piece.receivedAt) none fuel
      piece.data.length filling = filling := by
    intro filling
    cases fuel with
    | zero => rfl
    | succ fuel => exact if_pos (Nat.le_refl _)
  rw [hdone, hpart]
  unfold Filling.put
  rw [if_pos rfl, hidentity]

/-- **Appending all at once what fits is appending it chunk by chunk.** -/
theorem chunks_of_fits {file : OpenFile} {hour : Hour} (hfile : writer.file = some file)
    (hfits : writer.Fits storage file hour pieces) (hne : ∀ p ∈ pieces, p.data ≠ [])
    (positions : List ChunkPosition) :
    pieces.foldl (Filling.chunk storage limit) ⟨writer, positions⟩ =
      ⟨writer.absorb pieces, positions ++ writer.positionsNow pieces⟩ := by
  induction pieces generalizing writer file positions with
  | nil =>
    unfold Writer.positionsNow
    rw [hfile]
    exact congrArg (Filling.mk writer) (List.append_nil positions).symm
  | cons piece pieces ih =>
    rw [List.foldl_cons, chunk_of_fits hfile hfits (hne piece List.mem_cons_self),
      ih (appended_file hfile _) hfits.tail (fun p hp => hne p (List.mem_cons_of_mem _ hp)),
      List.append_assoc]
    have hsplit := @positionsNow_append writer [piece] pieces
    rw [List.singleton_append] at hsplit
    rw [← hsplit]
    exact congrArg (Filling.mk · _) (absorb_append writer [piece] pieces)

end Fits

/-! ## Batches -/

/-- The same piece or position in a batch that has `count` more chunks before it. -/
def Piece.shift (count : Nat) (piece : Piece) : Piece :=
  { piece with sourceIndex := piece.sourceIndex + count }

def ChunkPosition.shift (count : Nat) (position : ChunkPosition) : ChunkPosition :=
  { position with sourceIndex := position.sourceIndex + count }

theorem normalize_shift (chunks : List Chunk) (sourceIndex count : Nat) :
    normalize (sourceIndex + count) chunks = (normalize sourceIndex chunks).map (Piece.shift count) := by
  induction chunks generalizing sourceIndex with
  | nil => rfl
  | cons chunk chunks ih =>
    unfold normalize
    have hrest := ih (sourceIndex + 1)
    rw [Nat.add_right_comm] at hrest
    split
    next => exact hrest
    next => exact congrArg (_ :: ·) hrest

theorem normalize_append (xs ys : List Chunk) (sourceIndex : Nat) :
    normalize sourceIndex (xs ++ ys) =
      normalize sourceIndex xs ++ normalize (sourceIndex + xs.length) ys := by
  induction xs generalizing sourceIndex with
  | nil => rfl
  | cons chunk xs ih =>
    have hnext := ih (sourceIndex + 1)
    rw [Nat.add_assoc, Nat.add_comm 1] at hnext
    rw [List.cons_append, List.length_cons]
    simp only [normalize]
    split
    next => exact hnext
    next => exact congrArg (_ :: ·) hnext

/-- The same chunks, later in a batch. -/
structure Moved (before : List ChunkPosition) (count : Nat) (filling later : Filling) : Prop where
  writer : later.writer = filling.writer
  positions : later.positions = before ++ filling.positions.map (ChunkPosition.shift count)

section Moved

variable {storage : Storage} {limit count : Nat} {before : List ChunkPosition}
  {filling later : Filling}

theorem Moved.put (h : Moved before count filling later) (piece : Piece)
    (identity : Nat × Option Instant) :
    Moved before count (filling.put piece identity) (later.put (piece.shift count) identity) := by
  obtain ⟨hwriter, hpositions⟩ := h
  refine ⟨?_, ?_⟩
  · unfold Filling.put
    rw [hwriter]
    rfl
  · unfold Filling.put
    dsimp only
    rw [hpositions, hwriter, List.map_append, List.append_assoc]
    refine congrArg (before ++ ·) (congrArg (filling.positions.map _ ++ ·) ?_)
    unfold Writer.positionsNow
    split <;> rfl

theorem Moved.cut (h : Moved before count filling later) (piece : Piece) (hour : Hour)
    (rollback : Option Instant) (fuel consumed : Nat) :
    Moved before count (Filling.cut storage limit piece hour rollback fuel consumed filling)
      (Filling.cut storage limit (piece.shift count) hour rollback fuel consumed later) := by
  induction fuel generalizing consumed filling later with
  | zero => exact h
  | succ fuel ih =>
    have hroom : Moved before count (filling.room storage limit hour)
        (later.room storage limit hour) := by
      unfold Filling.room
      rw [h.writer]
      split
      next => exact ⟨rfl, h.positions⟩
      next => exact h
    unfold Filling.cut
    by_cases hend : piece.data.length ≤ consumed
    · rw [if_pos hend, if_pos (show (piece.shift count).data.length ≤ consumed from hend)]
      exact h
    · rw [if_neg hend, if_neg (show ¬(piece.shift count).data.length ≤ consumed from hend)]
      dsimp only
      rw [hroom.writer]
      exact ih (hroom.put _ _) _

theorem Moved.turn (h : Moved before count filling later) (hour : Hour)
    (rollback : Option Instant) :
    Moved before count (filling.turn storage limit hour rollback)
      (later.turn storage limit hour rollback) := by
  unfold Filling.turn
  rw [h.writer]
  split
  next => exact ⟨rfl, h.positions⟩
  next => exact h

theorem Moved.chunk (h : Moved before count filling later) (piece : Piece) :
    Moved before count (filling.chunk storage limit piece)
      (later.chunk storage limit (piece.shift count)) := by
  unfold Filling.chunk
  rw [h.writer]
  exact (h.turn _ _).cut _ _ _ _ _

theorem Moved.chunks (h : Moved before count filling later) (pieces : List Piece) :
    Moved before count (pieces.foldl (Filling.chunk storage limit) filling)
      ((pieces.map (Piece.shift count)).foldl (Filling.chunk storage limit) later) := by
  induction pieces generalizing filling later with
  | nil => exact h
  | cons piece pieces ih => exact ih (h.chunk piece)

end Moved

section Batches

variable {storage : Storage} {limit : Nat} {writer : Writer}

theorem ready_cons (writer : Writer) (piece : Piece) (pieces : List Piece) :
    writer.ready storage limit (piece :: pieces) = if writer.file = none then
      writer.next storage limit (storage.hourOf piece.receivedAt) else writer := rfl

/-- Normalized chunks, whichever way they are written. -/
theorem ends_writePieces (hsteady : storage.Steady limit) (hcalm : writer.closeError = none)
    {pieces : List Piece} (hne : ∀ piece ∈ pieces, piece.data ≠ []) :
    Ends (writePieces storage pieces) writer (fun positions writer' =>
      Filling.mk writer'.contents positions = fill storage limit pieces writer.contents)
      storage.Broken := by
  cases pieces with
  | nil => exact Ends.pure rfl
  | cons piece pieces =>
    -- with a file open, the two ways agree
    have hwrite : ∀ {w : Writer} {file : OpenFile}, w.closeError = none → w.file = some file →
        Ends (if w.Fits storage file (storage.hourOf piece.receivedAt) (piece :: pieces) then
            appendBatch storage (piece :: pieces) else writeRotating storage (piece :: pieces)) w
          (fun positions writer' => Filling.mk writer'.contents positions =
            (piece :: pieces).foldl (Filling.chunk storage limit) ⟨w.contents, []⟩)
          storage.Broken := by
      intro w file hcalm hfile
      have hopen : w.file ≠ none := hfile ▸ Option.some_ne_none file
      split
      next hfits =>
        refine (ends_appendBatch hopen (piece :: pieces)).mono ?_
        intro positions w' hpost
        have hchunks := @chunks_of_fits storage limit w.contents _ _ _ hfile hfits hne []
        rw [hchunks, absorb_of_ne_nil _ (List.cons_ne_nil _ _), hpost.1, hpost.2,
          List.nil_append]
      next => exact ends_writeRotating hsteady hcalm hopen _
    unfold writePieces fill
    refine Ends.get_bind ?_
    rw [ready_cons, contents_file]
    rcases hfile : writer.file with _ | file
    · rw [if_pos rfl, if_pos rfl]
      refine Ends.bind ((ends_openFile hsteady _).mono ?_)
      intro _ w₁ hopened
      have hfile₁ : w₁.file = some _ := file_of_contents hopened
      refine Ends.get_bind ?_
      rw [hfile₁, ← hopened]
      exact hwrite ((closeError_of_contents hopened).trans hcalm) hfile₁
    · rw [if_neg (Option.some_ne_none file), if_neg (Option.some_ne_none file)]
      refine Ends.get_bind ?_
      rw [hfile]
      exact hwrite hcalm hfile

/-- The spec of a batch: it leaves its chunks, one after the other. -/
theorem ends_writeMany (hsteady : storage.Steady limit) (hcalm : writer.closeError = none)
    (chunks : List Chunk) :
    Ends (writeMany storage chunks) writer (fun positions writer' =>
      Filling.mk writer'.contents positions =
        fill storage limit (normalize 0 chunks) writer.contents) storage.Broken := by
  unfold writeMany
  refine Ends.get_bind ?_
  rw [hcalm]
  refine Ends.tryCatch (ends_writePieces hsteady hcalm fun _ hp => normalize_ne_nil hp) ?_
  intro hbroken error after
  refine Ends.bind (Ends.modify (Ends.get_bind ?_))
  split
  next =>
    refine Ends.bind (Ends.tryCatch (ends_diskStep _ (Ends.throw hbroken)) ?_)
    exact fun _ _ _ => Ends.throw hbroken
  next => exact Ends.throw hbroken

theorem exec_writeMany_of_closeError {error : WriterError} (h : writer.closeError = some error)
    (chunks : List Chunk) : (writeMany storage chunks).exec writer = (.error error, writer) := by
  unfold writeMany
  rw [exec_bind_of_ok (exec_get writer), h]
  rfl

theorem cut_file {filling : Filling} (h : filling.writer.file ≠ none) (piece : Piece) (hour : Hour)
    (rollback : Option Instant) (fuel consumed : Nat) :
    (Filling.cut storage limit piece hour rollback fuel consumed filling).writer.file ≠ none := by
  induction fuel generalizing consumed filling with
  | zero => exact h
  | succ fuel ih =>
    have hroom : (filling.room storage limit hour).writer.file ≠ none := by
      unfold Filling.room
      split
      next => exact Option.some_ne_none _
      next => exact h
    unfold Filling.cut
    split
    next => exact h
    next =>
      refine ih ?_ _
      obtain ⟨file, hfile⟩ := Option.ne_none_iff_exists'.mp hroom
      unfold Filling.put
      rw [appended_file hfile]
      exact Option.some_ne_none _

theorem cut_closeError (filling : Filling) (piece : Piece) (hour : Hour) (rollback : Option Instant)
    (fuel consumed : Nat) :
    (Filling.cut storage limit piece hour rollback fuel consumed filling).writer.closeError =
      filling.writer.closeError := by
  induction fuel generalizing consumed filling with
  | zero => rfl
  | succ fuel ih =>
    have hroom : (filling.room storage limit hour).writer.closeError =
        filling.writer.closeError := by
      unfold Filling.room
      split
      next => exact sealNow_closeError _
      next => rfl
    unfold Filling.cut
    split
    next => rfl
    next => exact (ih _ _).trans hroom

theorem chunks_closeError (pieces : List Piece) (filling : Filling) :
    (pieces.foldl (Filling.chunk storage limit) filling).writer.closeError =
      filling.writer.closeError := by
  induction pieces generalizing filling with
  | nil => rfl
  | cons piece pieces ih =>
    refine (ih _).trans ((cut_closeError _ _ _ _ _ _).trans ?_)
    unfold Filling.turn
    split
    next => exact sealNow_closeError _
    next => rfl

theorem fill_closeError (pieces : List Piece) (writer : Writer) :
    (fill storage limit pieces writer).writer.closeError = writer.closeError := by
  refine (chunks_closeError _ _).trans ?_
  cases pieces with
  | nil => rfl
  | cons piece pieces =>
    rw [ready_cons]
    split
    next => rfl
    next => rfl

theorem chunk_file (filling : Filling) (piece : Piece) :
    (filling.chunk storage limit piece).writer.file ≠ none := by
  refine cut_file ?_ _ _ _ _ _
  unfold Filling.turn
  split
  next => exact Option.some_ne_none _
  next hstay =>
    intro hnone
    rw [hnone] at hstay
    exact hstay (Or.inl nofun)

/-- A batch that has written something leaves a file open. -/
theorem chunks_file {pieces : List Piece} (h : pieces ≠ []) (filling : Filling) :
    (pieces.foldl (Filling.chunk storage limit) filling).writer.file ≠ none := by
  rcases List.eq_nil_or_concat pieces with hnil | ⟨init, last, hconcat⟩
  · exact absurd hnil h
  · rw [hconcat, List.concat_eq_append, List.foldl_append]
    exact chunk_file _ last

/-- Where chunks are cut in two does not matter. -/
theorem fill_append (xs ys : List Piece) (count : Nat) :
    fill storage limit (xs ++ ys.map (Piece.shift count)) writer =
      { writer := (fill storage limit ys (fill storage limit xs writer).writer).writer
        positions := (fill storage limit xs writer).positions ++
          (fill storage limit ys (fill storage limit xs writer).writer).positions.map
            (ChunkPosition.shift count) } := by
  have hmoved : ∀ (w : Writer) (before : List ChunkPosition),
      Moved before count ⟨w, []⟩ ⟨w, before⟩ := fun w before => ⟨rfl, (List.append_nil before).symm⟩
  have hmk : ∀ {filling later : Filling} {before : List ChunkPosition},
      Moved before count filling later →
        later = ⟨filling.writer, before ++ filling.positions.map (ChunkPosition.shift count)⟩ := by
    intro filling later before h
    rw [← h.writer, ← h.positions]
  cases xs with
  | nil =>
    have hready : writer.ready storage limit (ys.map (Piece.shift count)) =
        writer.ready storage limit ys := by
      cases ys with
      | nil => rfl
      | cons piece ys => rfl
    show fill storage limit (ys.map (Piece.shift count)) writer = ⟨_, [] ++ _⟩
    refine hmk ?_
    unfold fill
    rw [hready]
    exact (hmoved _ []).chunks ys
  | cons piece xs =>
    have hfile := @chunks_file storage limit _ (List.cons_ne_nil piece xs)
      ⟨writer.ready storage limit (piece :: xs), []⟩
    have hready : ∀ ys : List Piece, (fill storage limit (piece :: xs) writer).writer.ready
        storage limit ys = (fill storage limit (piece :: xs) writer).writer := by
      intro ys
      cases ys with
      | nil => rfl
      | cons next ys => exact if_neg hfile
    refine hmk ?_
    show Moved _ count (ys.foldl _ ⟨Writer.ready storage limit _ ys, []⟩)
      (List.foldl _ ⟨writer.ready storage limit (piece :: xs), []⟩ ((piece :: xs) ++ _))
    rw [hready, List.foldl_append]
    exact (hmoved _ _).chunks ys

end Batches

/-- A batch in two calls. -/
def writeTwice (storage : Storage) (xs ys : List Chunk) : WriterM (List ChunkPosition) := do
  let before ← writeMany storage xs
  let after ← writeMany storage ys
  return before ++ after.map (ChunkPosition.shift xs.length)

/-- Two writes that agree: if both return they give the same positions and leave the same
contents, and unless a step of I/O fails they end in the same way. -/
structure Agree (storage : Storage) (m m' : WriterM (List ChunkPosition)) (writer : Writer) :
    Prop where
  returned : ∀ {positions positions' : List ChunkPosition} {after after' : Writer},
    m.exec writer = (.ok positions, after) → m'.exec writer = (.ok positions', after') →
      positions = positions' ∧ after.contents = after'.contents
  ended : ¬storage.Broken → (m.exec writer).1 = (m'.exec writer).1 ∧
    (m.exec writer).2.contents = (m'.exec writer).2.contents

/-- Writes with the same spec agree. -/
theorem agree_of_ends {storage : Storage} {m m' : WriterM (List ChunkPosition)} {writer : Writer}
    {filling : Filling}
    (h : Ends m writer (fun positions after => Filling.mk after.contents positions = filling)
      storage.Broken)
    (h' : Ends m' writer (fun positions after => Filling.mk after.contents positions = filling)
      storage.Broken) : Agree storage m m' writer := by
  have hsame : ∀ {positions positions' : List ChunkPosition} {after after' : Writer},
      m.exec writer = (.ok positions, after) → m'.exec writer = (.ok positions', after') →
        positions = positions' ∧ after.contents = after'.contents := by
    intro positions positions' after after' hm hm'
    have heq := (h.ok hm).trans (h'.ok hm').symm
    exact ⟨congrArg Filling.positions heq, congrArg Filling.writer heq⟩
  refine ⟨hsame, ?_⟩
  intro hsound
  obtain ⟨positions, after, hm, -⟩ := h.returns hsound
  obtain ⟨positions', after', hm', -⟩ := h'.returns hsound
  obtain ⟨hpositions, hcontents⟩ := hsame hm hm'
  rw [hm, hm']
  exact ⟨congrArg Except.ok hpositions, hcontents⟩

/-- **A batch can be split anywhere: whatever the state of the writer, the two halves leave what
the whole leaves, and answer with the same positions. And a batch that fits leaves the same
whether it is appended at once or written chunk by chunk.** -/
theorem batch_split {storage : Storage} {limit : Nat} (hsteady : storage.Steady limit)
    (writer : Writer) :
    (∀ xs ys : List Chunk,
      Agree storage (writeMany storage (xs ++ ys)) (writeTwice storage xs ys) writer) ∧
    (∀ (file : OpenFile) (hour : Hour) (pieces : List Piece), writer.closeError = none →
      writer.file = some file → pieces ≠ [] → (∀ piece ∈ pieces, piece.data ≠ []) →
      writer.Fits storage file hour pieces →
        Agree storage (appendBatch storage pieces) (writeRotating storage pieces) writer) := by
  refine ⟨?_, ?_⟩
  · intro xs ys
    rcases hcalm : writer.closeError with _ | error
    · refine agree_of_ends (ends_writeMany hsteady hcalm (xs ++ ys)) ?_
      unfold writeTwice
      refine Ends.bind ((ends_writeMany hsteady hcalm xs).mono ?_)
      intro before w₁ hbefore
      have hwriter : w₁.contents = _ := congrArg Filling.writer hbefore
      have hcalm₁ : w₁.closeError = none :=
        (closeError_of_contents hwriter).trans ((fill_closeError _ _).trans hcalm)
      refine Ends.bind ((ends_writeMany hsteady hcalm₁ ys).mono ?_)
      intro after w₂ hafter
      have hshift := normalize_shift ys 0 xs.length
      rw [normalize_append, hshift, fill_append, ← hbefore, ← hafter]
      exact Ends.pure rfl
    · have hwhole := @exec_writeMany_of_closeError storage _ _ hcalm (xs ++ ys)
      have hparts : (writeTwice storage xs ys).exec writer = (.error error, writer) :=
        exec_bind_of_error (exec_writeMany_of_closeError hcalm xs)
      refine ⟨?_, fun _ => ?_⟩
      · intro positions positions' after after' hm
        rw [hwhole] at hm
        cases hm
      · rw [hwhole, hparts]
        exact ⟨rfl, rfl⟩
  · intro file hour pieces hcalm hfile hne hdata hfits
    have hopen : writer.file ≠ none := hfile ▸ Option.some_ne_none file
    refine agree_of_ends ?_ (ends_writeRotating hsteady hcalm hopen pieces)
    refine (ends_appendBatch hopen pieces).mono ?_
    intro positions w' hpost
    have hchunks := @chunks_of_fits storage limit writer.contents _ _ _ hfile hfits hdata []
    rw [hchunks, absorb_of_ne_nil _ hne, hpost.1, hpost.2, List.nil_append]

/-- Files of two bytes in a directory that lists what has been sealed. -/
def listingStorage : Storage :=
  { hourOf := fun instant => instant / 10, segmentBytes := fun _ => some 2
    indexParts := fun writer hour =>
      (writer.sealed.filter (·.hour = hour)).map fun segment => segment.log.part
    takenParts := fun _ _ => [], fails := fun _ _ => none, syncDue := fun step => step % 2 = 0 }

theorem listingStorage_steady : listingStorage.Steady 2 :=
  ⟨fun _ => rfl, fun _ => rfl, fun _ => rfl⟩

/-- A cut behind a file that is full, before a chunk that is older. -/
theorem batch_split_rollback :
    Agree listingStorage (writeMany listingStorage ([⟨[1, 2, 3, 4], 14⟩] ++ [⟨[5], 13⟩, ⟨[6], 25⟩]))
      (writeTwice listingStorage [⟨[1, 2, 3, 4], 14⟩] [⟨[5], 13⟩, ⟨[6], 25⟩]) Writer.initial :=
  (batch_split listingStorage_steady Writer.initial).1 _ _

end CameraLogs.Logs

import CameraLogs.Logs.HourlyWriter
import Mathlib.Data.List.Forall2

/-!
# What the writer leaves behind

Without an I/O error, whatever the batches are: the sealed segments hold the received
bytes in order, every segment keeps to one hour, to its limit and to a clock that does
not go back, its index rows tile it, and every position handed back leads to the bytes
of the chunk it names (`writer_layout`).

`WriterOk` is the invariant between two steps, with `FileOk` for the open file. A
rotating write keeps pieces back in its group; `GroupOk` says that they can be appended,
and `RotatingOk` what has been received once they are. `Grows` carries positions over:
what they lead to stays where it is.
-/

namespace CameraLogs.Logs

open Lib Lib.Prog

/-! ## Rows and pieces -/

/-- Rows that cover a stretch of a file one behind the other. -/
def Tiles : Nat → List IndexRow → Nat → Prop
  | start, [], stop => start = stop
  | start, row :: rows, stop =>
    row.offset = start ∧ 0 < row.length ∧ Tiles (start + row.length) rows stop

theorem Tiles.append {start mid stop : Nat} {xs ys : List IndexRow} (hx : Tiles start xs mid)
    (hy : Tiles mid ys stop) : Tiles start (xs ++ ys) stop := by
  induction xs generalizing start with
  | nil =>
    have hstart : start = mid := hx
    rw [hstart]
    exact hy
  | cons row xs ih => exact ⟨hx.1, hx.2.1, ih hx.2.2⟩

theorem Tiles.eq_nil {start : Nat} {rows : List IndexRow} (h : Tiles start rows start) :
    rows = [] := by
  have hle : ∀ {rows : List IndexRow} {start stop : Nat}, Tiles start rows stop → start ≤ stop := by
    intro rows
    induction rows with
    | nil => exact fun h => Nat.le_of_eq h
    | cons row rows ih =>
      intro start stop h
      exact Nat.le_trans (Nat.le_add_right _ _) (ih h.2.2)
  cases rows with
  | nil => rfl
  | cons row rows =>
    have hlong := hle h.2.2
    have hpos := h.2.1
    omega

@[simp] theorem payloadOf_nil : payloadOf [] = [] := rfl

@[simp] theorem payloadOf_cons (piece : Piece) (pieces : List Piece) :
    payloadOf (piece :: pieces) = piece.data ++ payloadOf pieces := rfl

@[simp] theorem payloadOf_append (xs ys : List Piece) :
    payloadOf (xs ++ ys) = payloadOf xs ++ payloadOf ys := List.flatMap_append

theorem tiles_rowsOf {pieces : List Piece} (h : ∀ piece ∈ pieces, piece.data ≠ [])
    (sequence offset : Nat) :
    Tiles offset (rowsOf sequence offset pieces) (offset + (payloadOf pieces).length) := by
  induction pieces generalizing sequence offset with
  | nil => rfl
  | cons piece pieces ih =>
    refine ⟨rfl, List.length_pos_iff.mpr (h piece List.mem_cons_self), ?_⟩
    rw [payloadOf_cons, List.length_append, ← Nat.add_assoc]
    exact ih (fun p hp => h p (List.mem_cons_of_mem _ hp)) _ _

theorem map_sequence_rowsOf (pieces : List Piece) (sequence offset : Nat) :
    (rowsOf sequence offset pieces).map (·.sequence) =
      List.range' (sequence + 1) pieces.length := by
  induction pieces generalizing sequence offset with
  | nil => rfl
  | cons piece pieces ih =>
    rw [List.length_cons, List.range'_succ]
    exact congrArg ((sequence + 1) :: ·) (ih _ _)

theorem length_rowsOf (pieces : List Piece) (sequence offset : Nat) :
    (rowsOf sequence offset pieces).length = pieces.length := by
  induction pieces generalizing sequence offset with
  | nil => rfl
  | cons piece pieces ih => exact congrArg (· + 1) (ih _ _)

theorem map_receivedAt_rowsOf (pieces : List Piece) (sequence offset : Nat) :
    (rowsOf sequence offset pieces).map (·.receivedAt) = pieces.map (·.receivedAt) := by
  induction pieces generalizing sequence offset with
  | nil => rfl
  | cons piece pieces ih => exact congrArg (piece.receivedAt :: ·) (ih _ _)

theorem receivedAt_mem_of_mem_rowsOf {pieces : List Piece} {sequence offset : Nat} {row : IndexRow}
    (h : row ∈ rowsOf sequence offset pieces) :
    ∃ piece ∈ pieces, piece.receivedAt = row.receivedAt := by
  have hmem : row.receivedAt ∈ (rowsOf sequence offset pieces).map (·.receivedAt) :=
    List.mem_map_of_mem h
  rw [map_receivedAt_rowsOf] at hmem
  exact List.mem_map.mp hmem

/-! ## The invariant -/

/-- A sealed segment as it should be. -/
structure SegmentOk (storage : Storage) (segment : SealedSegment) : Prop where
  nonempty : segment.body ≠ []
  size : segment.size = segment.body.length
  limit : segment.size ≤ segment.maxBytes
  read : ∃ step, segment.maxBytes = segmentLimit (storage.segmentBytes step)
  hour : ∀ row ∈ segment.rows, storage.hourOf row.receivedAt = segment.hour
  tiles : Tiles 0 segment.rows segment.size
  sorted : segment.rows.Pairwise fun a b => a.receivedAt ≤ b.receivedAt
  digest : segment.digest = segment.body
  indexDigest : segment.indexDigest = segment.rows
  first : segment.first = segment.rows.head?.map (·.sequence)
  last : segment.last = segment.rows.getLast?.map (·.sequence)
  firstReceivedAt : segment.firstReceivedAt = segment.rows.head?.map (·.receivedAt)
  lastReceivedAt : segment.lastReceivedAt = segment.rows.getLast?.map (·.receivedAt)

/-- The open file and what the writer knows of it. -/
structure FileOk (storage : Storage) (writer : Writer) (file : OpenFile) : Prop where
  size : writer.size = file.body.length
  limit : writer.size ≤ writer.segmentMaxBytes
  read : ∃ step, writer.segmentMaxBytes = segmentLimit (storage.segmentBytes step)
  hour : ∀ row ∈ file.rows, storage.hourOf row.receivedAt = file.hour
  tiles : Tiles 0 file.rows writer.size
  sorted : file.rows.Pairwise fun a b => a.receivedAt ≤ b.receivedAt
  digest : writer.digest = file.body
  indexDigest : writer.indexDigest = file.rows
  first : writer.firstSequence = file.rows.head?.map (·.sequence)
  last : writer.lastSequence = file.rows.getLast?.map (·.sequence)
  firstReceivedAt : writer.firstReceivedAt = file.rows.head?.map (·.receivedAt)
  lastReceivedAt : writer.lastReceivedAt = file.rows.getLast?.map (·.receivedAt)

/-- The bytes of the open file. -/
def Writer.openBody (writer : Writer) : Bytes := (writer.file.map (·.body)).getD []

/-- The rows of the open file. -/
def Writer.openRows (writer : Writer) : List IndexRow := (writer.file.map (·.rows)).getD []

/-- The writer between two steps, when it has received these bytes. -/
structure WriterOk (storage : Storage) (writer : Writer) (received : Bytes) : Prop where
  calm : writer.closeError = none
  kept : writer.sealed.flatMap (·.body) ++ writer.openBody = received
  segments : ∀ segment ∈ writer.sealed, SegmentOk storage segment
  numbered : (writer.sealed.flatMap (·.rows) ++ writer.openRows).map (·.sequence) =
    List.range' 1 writer.sequence
  handed : writer.spool ++ writer.pending = writer.sealed
  file : ∀ file, writer.file = some file → FileOk storage writer file

/-- Pieces that can be appended to the open file. -/
structure GroupOk (storage : Storage) (writer : Writer) (file : OpenFile)
    (group : List Piece) : Prop where
  nonempty : ∀ piece ∈ group, piece.data ≠ []
  hour : ∀ piece ∈ group, storage.hourOf piece.receivedAt = file.hour
  sorted : group.Pairwise fun a b => a.receivedAt ≤ b.receivedAt
  after : ∀ last ∈ writer.lastReceivedAt, ∀ piece ∈ group, last ≤ piece.receivedAt
  fits : writer.size + (payloadOf group).length ≤ writer.segmentMaxBytes

/-! ## Positions -/

/-- A file with its index, open or sealed. -/
structure Volume where
  log : LogPath
  body : Bytes
  rows : List IndexRow

/-- All files written so far. -/
def Writer.volumes (writer : Writer) : List Volume :=
  (writer.sealed.map fun segment => ⟨segment.log, segment.body, segment.rows⟩) ++
    (writer.file.map fun file => (⟨file.log, file.body, file.rows⟩ : Volume)).toList

/-- A part of a chunk: its bytes, where they stand in the chunk, and the rollback that
its position should mark. -/
structure Slice where
  piece : Piece
  offset : Nat
  rollback : Option Instant

/-- The position leads to the slice: it names the part of the chunk, and a file with a row
of its sequence number and the bytes of the slice where the row says. -/
structure Locates (volumes : List Volume) (position : ChunkPosition) (slice : Slice) : Prop where
  sourceIndex : position.sourceIndex = slice.piece.sourceIndex
  sourceOffset : position.sourceOffset = slice.offset
  rollbackFrom : position.rollbackFrom = slice.rollback
  length : position.length = slice.piece.data.length
  bytes : ∃ volume ∈ volumes, volume.log = position.path ∧
    ({ sequence := position.sequence, offset := position.offset, length := position.length
       receivedAt := slice.piece.receivedAt } : IndexRow) ∈ volume.rows ∧
    (volume.body.drop position.offset).take position.length = slice.piece.data

/-- Positions that lead somewhere still do. -/
def Grows (writer writer' : Writer) : Prop :=
  ∀ position slice, Locates writer.volumes position slice → Locates writer'.volumes position slice

theorem Grows.refl (writer : Writer) : Grows writer writer := fun _ _ h => h

theorem Grows.trans {w₁ w₂ w₃ : Writer} (h : Grows w₁ w₂) (h' : Grows w₂ w₃) : Grows w₁ w₃ :=
  fun position slice hl => h' position slice (h position slice hl)

theorem Grows.forall₂ {w₁ w₂ : Writer} (h : Grows w₁ w₂) {positions : List ChunkPosition}
    {slices : List Slice} (hl : List.Forall₂ (Locates w₁.volumes) positions slices) :
    List.Forall₂ (Locates w₂.volumes) positions slices := hl.imp h

@[simp] theorem volumes_tick (writer : Writer) : writer.tick.volumes = writer.volumes := rfl

@[simp] theorem volumes_released (writer : Writer) : writer.released.volumes = writer.volumes := rfl

@[simp] theorem volumes_persisted (writer : Writer) (segments : List SealedSegment) :
    (writer.persisted segments).volumes = writer.volumes := rfl

theorem grows_of_same {writer writer' : Writer} (h : writer'.volumes = writer.volumes) :
    Grows writer writer' := by
  intro position slice hl
  rw [h]
  exact hl

/-- Files may get longer; files without rows may go. -/
theorem grows_of_volumes {writer writer' : Writer}
    (h : ∀ volume ∈ writer.volumes, volume.rows ≠ [] → ∃ volume' ∈ writer'.volumes,
      volume'.log = volume.log ∧ volume.body <+: volume'.body ∧ volume.rows ⊆ volume'.rows) :
    Grows writer writer' := by
  intro position slice hl
  obtain ⟨volume, hvolume, hlog, hrow, hbytes⟩ := hl.bytes
  obtain ⟨volume', hvolume', hlog', hbody, hrows⟩ :=
    h volume hvolume (List.ne_nil_of_mem hrow)
  refine ⟨hl.sourceIndex, hl.sourceOffset, hl.rollbackFrom, hl.length, volume', hvolume',
    hlog'.trans hlog, hrows hrow, ?_⟩
  -- the slice lies within the shorter file
  have hwithin := congrArg List.length hbytes
  rw [List.length_take, List.length_drop, ← hl.length] at hwithin
  obtain ⟨more, hmore⟩ := hbody
  rw [← hbytes, ← hmore]
  by_cases hlen : position.length = 0
  · rw [hlen, List.take_zero, List.take_zero]
  · rw [List.drop_append_of_le_length (by omega), List.take_append_of_le_length (by
      rw [List.length_drop]; omega)]

/-- The slices of pieces that are written as they are identified. -/
def slicesOf (pieces : List Piece) (identities : List (Nat × Option Instant)) : List Slice :=
  List.zipWith (fun piece identity => ⟨piece, identity.1, identity.2⟩) pieces identities

/-- The positions of appended pieces lead to them. -/
theorem locates_positionsOf {volumes : List Volume} {volume : Volume} (hvolume : volume ∈ volumes)
    {pieces : List Piece} {identities : List (Nat × Option Instant)} {sequence : Nat}
    {before : Bytes} (hbody : before ++ payloadOf pieces <+: volume.body)
    (hrows : rowsOf sequence before.length pieces ⊆ volume.rows)
    (hlen : identities.length = pieces.length) :
    List.Forall₂ (Locates volumes)
      (List.zipWith ChunkPosition.identify
        (positionsOf volume.log sequence before.length pieces) identities)
      (slicesOf pieces identities) := by
  induction pieces generalizing identities sequence before with
  | nil =>
    rw [List.length_eq_zero_iff.mp hlen]
    exact List.Forall₂.nil
  | cons piece pieces ih =>
    cases identities with
    | nil => cases hlen
    | cons identity identities =>
      refine List.Forall₂.cons ?_ ?_
      · refine ⟨rfl, rfl, rfl, rfl, volume, hvolume, rfl, hrows List.mem_cons_self, ?_⟩
        obtain ⟨more, hmore⟩ := hbody
        rw [← hmore, payloadOf_cons, List.append_assoc, List.append_assoc]
        show (List.drop before.length _).take piece.data.length = _
        rw [List.drop_left, List.take_left]
      · have hrest := @ih identities (sequence + 1) (before ++ piece.data)
          (by rw [List.append_assoc]; exact hbody)
          (by
            rw [List.length_append]
            exact fun row hrow => hrows (List.mem_cons_of_mem _ hrow))
          (Nat.succ.inj hlen)
        rw [List.length_append] at hrest
        exact hrest

/-! ## The steps -/

section Steps

variable {storage : Storage} {writer : Writer} {received : Bytes} {pieces : List Piece}

theorem FileOk.tick {file : OpenFile} (h : FileOk storage writer file) :
    FileOk storage writer.tick file :=
  ⟨h.size, h.limit, h.read, h.hour, h.tiles, h.sorted, h.digest, h.indexDigest, h.first, h.last,
    h.firstReceivedAt, h.lastReceivedAt⟩

theorem WriterOk.tick (h : WriterOk storage writer received) :
    WriterOk storage writer.tick received :=
  ⟨h.calm, h.kept, h.segments, h.numbered, h.handed, fun file hfile => (h.file file hfile).tick⟩

theorem FileOk.synced {file : OpenFile} (h : FileOk storage writer file) :
    FileOk storage writer.synced file :=
  ⟨h.size, h.limit, h.read, h.hour, h.tiles, h.sorted, h.digest, h.indexDigest, h.first, h.last,
    h.firstReceivedAt, h.lastReceivedAt⟩

theorem WriterOk.synced (h : WriterOk storage writer received) :
    WriterOk storage writer.synced received :=
  ⟨h.calm, h.kept, h.segments, h.numbered, h.handed, fun file hfile => (h.file file hfile).synced⟩

theorem openBody_of_file {file : OpenFile} (h : writer.file = some file) :
    writer.openBody = file.body := by
  unfold Writer.openBody
  rw [h]
  rfl

theorem openRows_of_file {file : OpenFile} (h : writer.file = some file) :
    writer.openRows = file.rows := by
  unfold Writer.openRows
  rw [h]
  rfl

theorem openBody_of_none (h : writer.file = none) : writer.openBody = [] := by
  unfold Writer.openBody
  rw [h]
  rfl

theorem openRows_of_none (h : writer.file = none) : writer.openRows = [] := by
  unfold Writer.openRows
  rw [h]
  rfl

/-- A new file is empty. -/
theorem WriterOk.opened (h : WriterOk storage writer received) (hclosed : writer.file = none)
    (log : LogPath) (hour : Hour) (step : Nat) :
    WriterOk storage (writer.opened log hour (segmentLimit (storage.segmentBytes step)))
      received := by
  have hkept := h.kept
  have hnumbered := h.numbered
  rw [openBody_of_none hclosed] at hkept
  rw [openRows_of_none hclosed] at hnumbered
  refine ⟨h.calm, hkept, h.segments, hnumbered, h.handed, ?_⟩
  intro file hfile
  cases hfile
  exact ⟨rfl, Nat.zero_le _, ⟨step, rfl⟩, fun row hrow => absurd hrow List.not_mem_nil, rfl, List.Pairwise.nil,
    rfl, rfl, rfl, rfl, rfl, rfl⟩

theorem mem_volumes {volume : Volume} : volume ∈ writer.volumes ↔
    (∃ segment ∈ writer.sealed, volume = ⟨segment.log, segment.body, segment.rows⟩) ∨
      ∃ file, writer.file = some file ∧ volume = ⟨file.log, file.body, file.rows⟩ := by
  unfold Writer.volumes
  rw [List.mem_append, List.mem_map]
  refine or_congr ?_ ?_
  · simp only [eq_comm]
  · rcases writer.file with _ | file <;> simp

theorem grows_opened (hclosed : writer.file = none) (log : LogPath) (hour : Hour)
    (segmentMaxBytes : Nat) : Grows writer (writer.opened log hour segmentMaxBytes) := by
  refine grows_of_volumes ?_
  intro volume hvolume _
  refine ⟨volume, mem_volumes.mpr (Or.inl ?_), rfl, List.prefix_refl _, List.Subset.refl _⟩
  rcases mem_volumes.mp hvolume with h | ⟨file, hfile, -⟩
  · exact h
  · rw [hclosed] at hfile
    cases hfile

/-- The segment of an open file that is not empty is as it should be. -/
theorem FileOk.segment {file : OpenFile} (h : FileOk storage writer file) (hsize : writer.size ≠ 0) :
    SegmentOk storage (writer.segment file) := by
  refine ⟨?_, h.size, h.limit, h.read, h.hour, h.tiles, h.sorted, h.digest, h.indexDigest, h.first, h.last,
    h.firstReceivedAt, h.lastReceivedAt⟩
  intro hnil
  exact hsize (h.size.trans (congrArg List.length hnil))

/-- The open file becomes the last sealed segment. -/
theorem WriterOk.enqueue {file : OpenFile} (h : WriterOk storage writer received)
    (hfile : writer.file = some file) {segment : SealedSegment} (hok : SegmentOk storage segment)
    (hbody : segment.body = file.body) (hrows : segment.rows = file.rows) :
    WriterOk storage (writer.detached.enqueue segment) received := by
  have hkept := h.kept
  have hnumbered := h.numbered
  rw [openBody_of_file hfile] at hkept
  rw [openRows_of_file hfile] at hnumbered
  refine ⟨h.calm, ?_, ?_, ?_, ?_, fun f hf => nomatch hf⟩
  · show (writer.sealed ++ [segment]).flatMap (·.body) ++ [] = received
    rw [List.append_nil, List.flatMap_append, List.flatMap_singleton, hbody]
    exact hkept
  · intro s hs
    rcases List.mem_append.mp hs with hin | hin
    · exact h.segments s hin
    · rw [List.mem_singleton.mp hin]
      exact hok
  · show ((writer.sealed ++ [segment]).flatMap SealedSegment.rows ++ []).map IndexRow.sequence = _
    rw [List.append_nil, List.flatMap_append, List.flatMap_singleton, hrows]
    exact hnumbered
  · show writer.spool ++ (writer.pending ++ [segment]) = writer.sealed ++ [segment]
    rw [← List.append_assoc, h.handed]

theorem grows_enqueue {file : OpenFile} (hfile : writer.file = some file)
    {segment : SealedSegment} (hlog : segment.log = file.log) (hbody : segment.body = file.body)
    (hrows : segment.rows = file.rows) : Grows writer (writer.detached.enqueue segment) := by
  refine grows_of_volumes ?_
  intro volume hvolume _
  refine ⟨volume, mem_volumes.mpr (Or.inl ?_), rfl, List.prefix_refl _, List.Subset.refl _⟩
  rcases mem_volumes.mp hvolume with ⟨s, hs, heq⟩ | ⟨f, hf, heq⟩
  · exact ⟨s, List.mem_append_left _ hs, heq⟩
  · rw [hfile] at hf
    cases hf
    exact ⟨segment, List.mem_append_right _ (List.mem_singleton_self _), by
      rw [heq, hlog, hbody, hrows]⟩

/-- An empty file can go. -/
theorem WriterOk.detached_of_empty (h : WriterOk storage writer received) {file : OpenFile}
    (hfile : writer.file = some file) (hsize : writer.size = 0) :
    file.rows = [] ∧ WriterOk storage writer.detached received := by
  have hopen := h.file file hfile
  have hrows : file.rows = [] := by
    have htiles := hopen.tiles
    rw [hsize] at htiles
    exact htiles.eq_nil
  have hbody : file.body = [] := List.length_eq_zero_iff.mp (hopen.size.symm.trans hsize)
  have hkept := h.kept
  have hnumbered := h.numbered
  rw [openBody_of_file hfile, hbody] at hkept
  rw [openRows_of_file hfile, hrows] at hnumbered
  exact ⟨hrows, h.calm, hkept, h.segments, hnumbered, h.handed, fun f hf => nomatch hf⟩

theorem grows_detached_of_empty {file : OpenFile} (hfile : writer.file = some file)
    (hrows : file.rows = []) : Grows writer writer.detached := by
  refine grows_of_volumes ?_
  intro volume hvolume hne
  refine ⟨volume, mem_volumes.mpr (Or.inl ?_), rfl, List.prefix_refl _, List.Subset.refl _⟩
  rcases mem_volumes.mp hvolume with h | ⟨f, hf, heq⟩
  · exact h
  · rw [hfile] at hf
    cases hf
    rw [heq] at hne
    exact absurd hrows hne

@[simp] theorem tick_file (writer : Writer) : writer.tick.file = writer.file := rfl

@[simp] theorem tick_pending (writer : Writer) : writer.tick.pending = writer.pending := rfl

@[simp] theorem released_file (writer : Writer) : writer.released.file = writer.file := rfl

@[simp] theorem released_pending (writer : Writer) : writer.released.pending = [] := rfl

@[simp] theorem persisted_file (writer : Writer) (segments : List SealedSegment) :
    (writer.persisted segments).file = writer.file := rfl

@[simp] theorem persisted_pending (writer : Writer) (segments : List SealedSegment) :
    (writer.persisted segments).pending = writer.pending := rfl

theorem persisted_ticks (writer : Writer) :
    writer.tick.tick.released.persisted writer.tick.tick.pending =
      writer.released.tick.tick.persisted writer.pending := rfl

theorem WriterOk.handedOver (h : WriterOk storage writer received) :
    WriterOk storage (writer.released.persisted writer.pending) received := by
  refine ⟨h.calm, h.kept, h.segments, h.numbered, ?_, ?_⟩
  · show (writer.spool ++ writer.pending) ++ [] = writer.sealed
    rw [List.append_nil, h.handed]
  · intro file hfile
    have ok := h.file file hfile
    exact ⟨ok.size, ok.limit, ok.read, ok.hour, ok.tiles, ok.sorted, ok.digest, ok.indexDigest, ok.first,
      ok.last, ok.firstReceivedAt, ok.lastReceivedAt⟩

/-- The writer after an append that went through. -/
def Writer.appended (writer : Writer) (pieces : List Piece) : Writer :=
  (writer.extend (payloadOf pieces) (rowsOf writer.sequence writer.size pieces)).advance pieces

theorem extend_extend (writer : Writer) (bytes more : Bytes) (rows later : List IndexRow) :
    (writer.extend bytes rows).extend more later = writer.extend (bytes ++ more) (rows ++ later) := by
  unfold Writer.extend
  cases writer.file with
  | none => rfl
  | some file => simp only [Option.map_some, List.append_assoc]

theorem tick_extend (writer : Writer) (bytes : Bytes) (rows : List IndexRow) :
    (writer.extend bytes rows).tick = writer.tick.extend bytes rows := rfl

theorem tick_advance (writer : Writer) (pieces : List Piece) :
    (writer.advance pieces).tick = writer.tick.advance pieces := rfl

/-- The log is written first, and the index after it. -/
theorem extend_advance (writer : Writer) (pieces : List Piece) :
    ((writer.extend (payloadOf pieces) []).tick.tick.extend []
      (rowsOf writer.sequence writer.size pieces)).advance pieces =
        (writer.appended pieces).tick.tick := by
  rw [tick_extend, tick_extend, extend_extend, List.append_nil, List.nil_append, Writer.appended,
    tick_advance, tick_advance, tick_extend, tick_extend]

/-- Rows that are not older than the last one. -/
theorem pairwise_append_of_last {rows more : List IndexRow}
    (hrows : rows.Pairwise fun a b => a.receivedAt ≤ b.receivedAt)
    (hmore : more.Pairwise fun a b => a.receivedAt ≤ b.receivedAt)
    (hlast : ∀ row, rows.getLast? = some row → ∀ b ∈ more, row.receivedAt ≤ b.receivedAt) :
    (rows ++ more).Pairwise fun a b => a.receivedAt ≤ b.receivedAt := by
  refine List.pairwise_append.mpr ⟨hrows, hmore, ?_⟩
  intro a ha b hb
  rcases List.eq_nil_or_concat rows with h | ⟨init, last, h⟩
  · rw [h] at ha
    exact absurd ha List.not_mem_nil
  · rw [List.concat_eq_append] at h
    have hb' := hlast last (by rw [h, List.getLast?_concat]) b hb
    rw [h] at ha hrows
    rcases List.mem_append.mp ha with hin | hin
    · exact Int.le_trans
        ((List.pairwise_append.mp hrows).2.2 a hin last (List.mem_singleton_self _)) hb'
    · rw [List.mem_singleton.mp hin]
      exact hb'

theorem getLast?_map_append {α β : Type} (f : α → β) (xs : List α) {ys : List α} (h : ys ≠ []) :
    (xs ++ ys).getLast?.map f = ys.getLast?.map f := by
  rw [List.getLast?_append_of_ne_nil _ h]

/-- Appending pieces keeps the file as it should be. -/
theorem FileOk.appended {file : OpenFile} (h : FileOk storage writer file)
    (hgroup : GroupOk storage writer file pieces) (hne : pieces ≠ []) :
    FileOk storage (writer.appended pieces)
      { file with
        body := file.body ++ payloadOf pieces
        rows := file.rows ++ rowsOf writer.sequence writer.size pieces } := by
  have hrowsne : rowsOf writer.sequence writer.size pieces ≠ [] := by
    intro hnil
    have hlen := congrArg List.length hnil
    rw [length_rowsOf] at hlen
    exact hne (List.length_eq_zero_iff.mp hlen)
  have hreceived := map_receivedAt_rowsOf pieces writer.sequence writer.size
  refine ⟨?_, hgroup.fits, h.read, ?_, h.tiles.append (tiles_rowsOf hgroup.nonempty _ _), ?_, ?_, ?_, ?_, ?_,
    ?_, ?_⟩
  · show writer.size + (payloadOf pieces).length = (file.body ++ payloadOf pieces).length
    rw [List.length_append, h.size]
  · intro row hrow
    rcases List.mem_append.mp hrow with hin | hin
    · exact h.hour row hin
    · obtain ⟨piece, hpiece, heq⟩ := receivedAt_mem_of_mem_rowsOf hin
      rw [← heq]
      exact hgroup.hour piece hpiece
  · refine pairwise_append_of_last h.sorted ?_ ?_
    · have hsorted := hgroup.sorted
      rw [← List.pairwise_map (f := Piece.receivedAt) (R := (· ≤ ·)), ← hreceived,
        List.pairwise_map] at hsorted
      exact hsorted
    · intro row hrow b hb
      obtain ⟨piece, hpiece, heq⟩ := receivedAt_mem_of_mem_rowsOf hb
      have hlast : row.receivedAt ∈ writer.lastReceivedAt := by
        rw [h.lastReceivedAt, hrow]
        rfl
      rw [← heq]
      exact hgroup.after _ hlast piece hpiece
  · exact congrArg (· ++ payloadOf pieces) h.digest
  · exact congrArg (· ++ rowsOf writer.sequence writer.size pieces) h.indexDigest
  · show writer.firstSequence.or _ = (file.rows ++ _).head?.map _
    rw [List.head?_append, h.first, Option.map_or]
    rfl
  · show some (writer.sequence + pieces.length) = (file.rows ++ _).getLast?.map _
    rw [getLast?_map_append _ _ hrowsne, ← List.getLast?_map, map_sequence_rowsOf,
      List.getLast?_range', if_neg (mt List.length_eq_zero_iff.mp hne)]
    exact congrArg some (by omega)
  · show writer.firstReceivedAt.or _ = (file.rows ++ _).head?.map _
    rw [List.head?_append, h.firstReceivedAt, Option.map_or, ← List.head?_map, ← List.head?_map,
      ← List.head?_map, hreceived]
  · show pieces.getLast?.map _ = (file.rows ++ _).getLast?.map _
    rw [getLast?_map_append _ _ hrowsne, ← List.getLast?_map, ← List.getLast?_map, hreceived]

/-- The bytes of the pieces have been received. -/
theorem WriterOk.appended {file : OpenFile} (h : WriterOk storage writer received)
    (hfile : writer.file = some file) (hgroup : GroupOk storage writer file pieces)
    (hne : pieces ≠ []) :
    WriterOk storage (writer.appended pieces) (received ++ payloadOf pieces) := by
  have hkept := h.kept
  have hnumbered := h.numbered
  rw [openBody_of_file hfile] at hkept
  rw [openRows_of_file hfile] at hnumbered
  have hfile' : (writer.appended pieces).file = some { file with
      body := file.body ++ payloadOf pieces
      rows := file.rows ++ rowsOf writer.sequence writer.size pieces } :=
    congrArg (Option.map _) hfile
  refine ⟨h.calm, ?_, h.segments, ?_, h.handed, ?_⟩
  · rw [openBody_of_file hfile']
    show writer.sealed.flatMap _ ++ (file.body ++ payloadOf pieces) = _
    rw [← List.append_assoc, hkept]
  · rw [openRows_of_file hfile']
    show (writer.sealed.flatMap _ ++ (file.rows ++ _)).map _ =
      List.range' 1 (writer.sequence + pieces.length)
    rw [← List.append_assoc, List.map_append, hnumbered, map_sequence_rowsOf, Nat.add_comm,
      List.range'_append_1]
  · intro f hf
    rw [hfile'] at hf
    cases hf
    exact (h.file file hfile).appended hgroup hne

theorem grows_appended {file : OpenFile} (hfile : writer.file = some file) (pieces : List Piece) :
    Grows writer (writer.appended pieces) := by
  refine grows_of_volumes ?_
  intro volume hvolume _
  rcases mem_volumes.mp hvolume with h | ⟨f, hf, heq⟩
  · exact ⟨volume, mem_volumes.mpr (Or.inl h), rfl, List.prefix_refl _, List.Subset.refl _⟩
  · rw [hfile] at hf
    cases hf
    refine ⟨_, mem_volumes.mpr (Or.inr ⟨_, congrArg (Option.map _) hfile, rfl⟩), ?_, ?_, ?_⟩
    · rw [heq]
    · rw [heq]
      exact List.prefix_append _ _
    · rw [heq]
      exact List.subset_append_left _ _

/-- The positions of appended pieces. -/
theorem locates_appended {file : OpenFile} (h : WriterOk storage writer received)
    (hfile : writer.file = some file) {identities : List (Nat × Option Instant)}
    (hlen : identities.length = pieces.length) :
    List.Forall₂ (Locates (writer.appended pieces).volumes)
      (List.zipWith ChunkPosition.identify
        (positionsOf file.log writer.sequence writer.size pieces) identities)
      (slicesOf pieces identities) := by
  have hvolume : (⟨file.log, file.body ++ payloadOf pieces,
      file.rows ++ rowsOf writer.sequence writer.size pieces⟩ : Volume) ∈
        (writer.appended pieces).volumes :=
    mem_volumes.mpr (Or.inr ⟨_, congrArg (Option.map _) hfile, rfl⟩)
  have hlocates := @locates_positionsOf _ _ hvolume pieces identities writer.sequence file.body
    (List.prefix_refl _) (by
      rw [← (h.file file hfile).size]
      exact List.subset_append_right _ _) hlen
  rw [← (h.file file hfile).size] at hlocates
  exact hlocates

variable (hfine : ∀ count step, storage.fails count step = none)

include hfine

theorem returns_diskStep (step : DiskStep) {Q : Unit → Writer → Prop} (h : Q () writer.tick) :
    Returns (diskStep storage step) writer Q := by
  unfold diskStep
  refine Returns.get_bind (Returns.set_bind ?_)
  rw [hfine]
  exact Returns.pure h

theorem returns_syncFiles {Q : Unit → Writer → Prop} (h : Q () writer.tick.synced) :
    Returns (syncFiles storage) writer Q :=
  Returns.bind (returns_diskStep hfine _ (Returns.modify h))

theorem returns_closeFiles {Q : Unit → Writer → Prop} (h : Q () writer.tick.tick.synced.tick) :
    Returns (closeFiles storage) writer Q :=
  Returns.bind (returns_diskStep hfine _ (Returns.bind (returns_syncFiles hfine
    (returns_diskStep hfine _ h))))

/-- Opening a file. -/
theorem returns_openFile (hok : WriterOk storage writer received) (hclosed : writer.file = none)
    (hour : Hour) : Returns (openFile storage hour) writer fun _ writer' =>
      (WriterOk storage writer' received ∧ Grows writer writer') ∧
        (∃ file, writer'.file = some file ∧ file.hour = hour) ∧ writer'.lastReceivedAt = none ∧
        writer'.size < writer'.segmentMaxBytes := by
  have hlimit : ∀ candidate : Option Int, 0 < segmentLimit candidate := by
    intro candidate
    unfold segmentLimit
    split
    next => decide
    next =>
      split
      next hpos => omega
      next => decide
  unfold openFile openSync
  refine Returns.get_bind (Returns.get_bind (Returns.bind (returns_diskStep hfine _ ?_)))
  refine Returns.modify ⟨⟨hok.tick.opened hclosed _ _ _, ?_⟩, ⟨_, rfl, rfl⟩, rfl, hlimit _⟩
  exact grows_opened (show writer.tick.file = none from hclosed) _ _ _

/-- Sealing the open file. -/
theorem returns_sealLocked (hok : WriterOk storage writer received) :
    Returns (sealLocked storage) writer fun _ writer' =>
      (WriterOk storage writer' received ∧ Grows writer writer') ∧ writer'.file = none := by
  unfold sealLocked
  refine Returns.get_bind ?_
  rw [hok.calm]
  dsimp only
  rcases hfile : writer.file with _ | file
  · exact Returns.pure ⟨⟨hok, Grows.refl _⟩, hfile⟩
  have hclosed : WriterOk storage writer.tick.tick.synced.tick received := hok.tick.tick.synced.tick
  have hfile' : writer.tick.tick.synced.tick.file = some file := hfile
  refine Returns.bind (Returns.tryCatch (returns_closeFiles hfine (Returns.bind (Returns.modify ?_))))
  by_cases hsize : writer.size = 0
  · rw [if_neg (not_not.mpr hsize)]
    obtain ⟨hrows, hdetached⟩ := hclosed.detached_of_empty hfile' hsize
    refine Returns.bind (returns_diskStep hfine _ (returns_diskStep hfine _ ⟨⟨?_, ?_⟩, rfl⟩))
    · exact hdetached.tick.tick
    · exact grows_detached_of_empty hfile' hrows
  · rw [if_pos hsize]
    have hsegment := (hok.file file hfile).segment hsize
    refine Returns.modify ⟨⟨?_, ?_⟩, rfl⟩
    · exact hclosed.enqueue hfile' hsegment rfl rfl
    · exact grows_enqueue hfile' rfl rfl rfl

/-- Handing over what is pending. -/
theorem returns_publishPendingLocked (hok : WriterOk storage writer received) (background : Bool) :
    Returns (publishPendingLocked storage background) writer fun _ writer' =>
      (WriterOk storage writer' received ∧ Grows writer writer') ∧ writer'.file = writer.file ∧
        writer'.pending = [] := by
  unfold publishPendingLocked
  refine Returns.get_bind ?_
  by_cases hpending : writer.pending = []
  · rw [if_pos hpending]
    exact Returns.pure ⟨⟨hok, Grows.refl _⟩, rfl, hpending⟩
  rw [if_neg hpending]
  refine Returns.bind (Returns.modify (Returns.bind ?_))
  unfold persistPending
  refine Returns.bind (returns_diskStep hfine _ (Returns.bind (returns_diskStep hfine _
    (Returns.modify ?_))))
  have hover := hok.tick.tick.handedOver
  -- the steps are counted before the hand-over as well as after it
  rw [← persisted_ticks]
  cases background with
  | true => exact Returns.pure ⟨⟨hover, grows_of_same (by simp)⟩, by simp, by simp⟩
  | false =>
    exact Returns.bind (returns_diskStep hfine _ (Returns.pure ⟨⟨hover.tick, grows_of_same (by simp)⟩,
      by simp, by simp⟩))

/-- Appending a group that can be appended. -/
theorem returns_appendBatch (hok : WriterOk storage writer received) {file : OpenFile}
    (hfile : writer.file = some file) (hgroup : GroupOk storage writer file pieces)
    (hne : pieces ≠ []) :
    Returns (appendBatch storage pieces) writer fun positions writer' =>
      (WriterOk storage writer' (received ++ payloadOf pieces) ∧ Grows writer writer') ∧
        positions = positionsOf file.log writer.sequence writer.size pieces ∧
        (∀ identities : List (Nat × Option Instant), identities.length = pieces.length →
          List.Forall₂ (Locates writer'.volumes)
            (List.zipWith ChunkPosition.identify positions identities)
            (slicesOf pieces identities)) ∧
        (∃ file', writer'.file = some file' ∧ file'.hour = file.hour) ∧
        writer'.lastReceivedAt = pieces.getLast?.map (·.receivedAt) ∧
        writer'.size = writer.size + (payloadOf pieces).length ∧
        writer'.segmentMaxBytes = writer.segmentMaxBytes := by
  have hafter := hok.appended hfile hgroup hne
  have hlocates : ∀ identities : List (Nat × Option Instant),
      identities.length = pieces.length → _ := fun _ hlen => locates_appended hok hfile hlen
  have hfile' : (writer.appended pieces).file = some { file with
      body := file.body ++ payloadOf pieces
      rows := file.rows ++ rowsOf writer.sequence writer.size pieces } :=
    congrArg (Option.map _) hfile
  unfold appendBatch
  refine Returns.get_bind ?_
  rw [hfile]
  dsimp only
  unfold writeBody writeIndex
  refine Returns.bind (Returns.get_bind ?_)
  rw [hfine]
  refine Returns.set_bind (returns_diskStep hfine _ (Returns.bind (Returns.bind
    (returns_diskStep hfine _ (Returns.modify (Returns.bind (Returns.modify
      (Returns.get_bind ?_))))))))
  rw [extend_advance]
  have hsynced : (WriterOk storage (writer.appended pieces).tick.tick.tick.synced
      (received ++ payloadOf pieces)) := hafter.tick.tick.tick.synced
  split
  · refine Returns.bind (returns_syncFiles hfine (Returns.pure ⟨⟨hsynced, ?_⟩, rfl, hlocates,
      ⟨_, hfile', rfl⟩, rfl, rfl, rfl⟩))
    exact grows_appended hfile pieces
  · refine Returns.pure ⟨⟨hafter.tick.tick, ?_⟩, rfl, hlocates, ⟨_, hfile', rfl⟩, rfl, rfl, rfl⟩
    exact grows_appended hfile pieces

end Steps

end CameraLogs.Logs

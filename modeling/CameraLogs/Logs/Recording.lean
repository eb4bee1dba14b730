import CameraLogs.Collection.LinePrefixExact
import CameraLogs.Logs.SearchComplete
import CameraLogs.Logs.WriterRotation

/-!
# A session recorded, and searched

The reader of a collector puts the stamps in front of the lines of a block and keeps the
result, with the block's time, until a batch is written. `recording_searched` follows the
bytes through all three: the stamps, the writer and its segments, and the search of the
files that the segments become. However the blocks are batched, however the writer cuts
the batches into files and however the files are read, the search sees one stream, and
that is the device's output with the stamps in it.
-/

namespace CameraLogs.Logs

open Lib Lib.Prog
open Collection (LocalTime prefixLines prefixBlocks removeStamps)

/-- What the reader hands to the batches. -/
def stampedChunks (localTime : Instant → LocalTime) (atLineStart : Bool) :
    List (Bytes × Instant) → List Chunk
  | [] => []
  | (data, receivedAt) :: blocks =>
    let (output, atLineStart) := prefixLines atLineStart data (localTime receivedAt).stamp
    ⟨output, receivedAt⟩ :: stampedChunks localTime atLineStart blocks

theorem data_stampedChunks (localTime : Instant → LocalTime) (atLineStart : Bool)
    (blocks : List (Bytes × Instant)) :
    (stampedChunks localTime atLineStart blocks).flatMap (·.data) =
      prefixBlocks localTime atLineStart blocks := by
  induction blocks generalizing atLineStart with
  | nil => rfl
  | cons block blocks ih =>
    obtain ⟨data, receivedAt⟩ := block
    exact congrArg (_ ++ ·) (ih _)

/-- An index row as the search reads it. -/
def IndexRow.entry (row : IndexRow) : IndexEntry :=
  { offset := row.offset, length := row.length, receivedAt := row.receivedAt
    sequence := some row.sequence }

/-- The file a segment becomes, frozen for a search; it may be read in any blocks. -/
structure Recorded (identity : Identity) (segment : SealedSegment) (file : LogFile) : Prop where
  identity : file.identity = identity
  content : file.content = segment.body
  index : file.index = segment.rows.map IndexRow.entry

/-! ## One stream -/

theorem bytesOf_streamCells (files : List LogFile) :
    bytesOf (streamCells files) = files.flatMap (·.content) := by
  induction files with
  | nil => rfl
  | cons file files ih =>
    show bytesOf (file.cells 0 file.content ++ streamCells files) = _
    rw [bytesOf_append, bytesOf_cells, ih, List.flatMap_cons]

theorem content_of_recorded {identity : Identity} {segments : List SealedSegment}
    {files : List LogFile} (h : List.Forall₂ (Recorded identity) segments files) :
    files.flatMap (·.content) = segments.flatMap (·.body) := by
  induction h with
  | nil => rfl
  | cons hfile _ ih => rw [List.flatMap_cons, List.flatMap_cons, hfile.content, ih]

/-- The last of the rows of a stretch is not empty and ends where the stretch does. -/
theorem Tiles.getLast {start stop : Nat} {rows : List IndexRow} {row : IndexRow}
    (h : Tiles start rows stop) (hlast : rows.getLast? = some row) :
    0 < row.length ∧ row.offset + row.length = stop := by
  induction rows generalizing start with
  | nil => cases hlast
  | cons first rows ih =>
    obtain ⟨hoffset, hpos, hrest⟩ := h
    cases rows with
    | nil =>
      obtain rfl : first = row := Option.some.inj hlast
      have hstop : start + first.length = stop := hrest
      omega
    | cons second rows =>
      rw [List.getLast?_cons_cons] at hlast
      exact ih hrest hlast

theorem map_sequence_ends {rows : List IndexRow} {start count : Nat} (hne : rows ≠ [])
    (h : rows.map (·.sequence) = List.range' start count) :
    rows.head?.map (·.sequence) = some start ∧
      rows.getLast?.map (·.sequence) = some (start + count - 1) := by
  have hcount : count ≠ 0 := by
    rintro rfl
    exact hne (List.map_eq_nil_iff.mp h)
  rw [← List.head?_map, ← List.getLast?_map, h, List.head?_range', List.getLast?_range',
    if_neg hcount, if_neg hcount]
  exact ⟨rfl, congrArg some (by omega)⟩

theorem SegmentOk.rows_ne_nil {storage : Storage} {segment : SealedSegment}
    (h : SegmentOk storage segment) : segment.rows ≠ [] := by
  intro hnil
  have htiles := h.tiles
  rw [hnil] at htiles
  have hsize : 0 = segment.size := htiles
  have hbody := List.length_pos_iff.mpr h.nonempty
  have hlength := h.size
  omega

/-- A file goes on in the next one when the next one's numbers go on behind its own. -/
theorem continues_of_recorded {storage : Storage} {identity : Identity}
    (hall : identity.all = true) {segment next : SealedSegment} {file nextFile : LogFile}
    (hsegment : SegmentOk storage segment) (hnext : SegmentOk storage next)
    (hfile : Recorded identity segment file) (hnextFile : Recorded identity next nextFile)
    {last : Nat} (hlast : segment.rows.getLast?.map (·.sequence) = some last)
    (hfirst : next.rows.head?.map (·.sequence) = some (last + 1)) :
    nextFile.continues (some file) = true := by
  obtain ⟨row, hrow, hrowSequence⟩ := Option.map_eq_some_iff.mp hlast
  obtain ⟨first, hhead, hfirstSequence⟩ := Option.map_eq_some_iff.mp hfirst
  obtain ⟨hpos, hend⟩ := hsegment.tiles.getLast hrow
  have hoffset : first.offset = 0 := by
    have htiles := hnext.tiles
    cases hrows : next.rows with
    | nil => exact absurd hrows hnext.rows_ne_nil
    | cons head rows =>
      rw [hrows] at hhead htiles
      obtain rfl : head = first := Option.some.inj hhead
      exact htiles.1
  have hsize : file.content.length = segment.size := by rw [hfile.content, hsegment.size]
  have hsequence : file.lastSequence = some last := by
    unfold LogFile.lastSequence
    rw [hfile.index, List.getLast?_map, hrow]
    show (if row.offset < file.content.length ∧ row.offset + row.length = file.content.length
      then some row.sequence else none) = some last
    rw [if_pos (by omega), hrowSequence]
  unfold LogFile.continues
  rw [hnextFile.index, List.head?_map, hhead, hnextFile.identity, Option.bind_some, hsequence,
    Option.map_some, Option.map_some, hfile.identity, hall]
  simp [IndexRow.entry, hoffset, hfirstSequence]

/-- The files of segments whose rows are numbered one behind the other go on in each other. -/
theorem continuous_of_recorded {storage : Storage} {identity : Identity}
    (hall : identity.all = true) {segments : List SealedSegment} {files : List LogFile}
    {start count : Nat} (hok : ∀ segment ∈ segments, SegmentOk storage segment)
    (hnumbered : (segments.flatMap (·.rows)).map (·.sequence) = List.range' start count)
    (h : List.Forall₂ (Recorded identity) segments files) : Continuous files := by
  induction h generalizing start count with
  | nil => trivial
  | @cons segment file segments files hfile hfiles ih =>
    rw [List.flatMap_cons, List.map_append] at hnumbered
    obtain ⟨k, -, hhere, hlater⟩ := List.range'_eq_append_iff.mp hnumbered.symm
    have hsegment := hok segment List.mem_cons_self
    have hrest := ih (fun s hs => hok s (List.mem_cons_of_mem _ hs)) hlater
    cases hfiles with
    | nil => trivial
    | @cons next nextFile segments files hnextFile hfiles =>
      have hnext := hok next (List.mem_cons_of_mem _ List.mem_cons_self)
      rw [List.flatMap_cons, List.map_append] at hlater
      obtain ⟨m, -, hbehind, -⟩ := List.range'_eq_append_iff.mp hlater.symm
      have hlast := (map_sequence_ends hsegment.rows_ne_nil hhere).2
      have hfirst := (map_sequence_ends hnext.rows_ne_nil hbehind).1
      have hk : k ≠ 0 := by
        rintro rfl
        exact hsegment.rows_ne_nil (List.map_eq_nil_iff.mp hhere)
      have hnumber : start + k * 1 = start + k - 1 + 1 := by omega
      rw [hnumber] at hfirst
      exact ⟨continues_of_recorded hall hsegment hnext hfile hnextFile hlast hfirst, hrest⟩

/-! ## From the reader to the search -/

/-- What the manifests of a closed session name. -/
structure Spooled (storage : Storage) (received : Bytes) (writer : Writer) : Prop where
  bytes : writer.spool.flatMap (·.body) = received
  segments : ∀ segment ∈ writer.spool, SegmentOk storage segment
  numbered : (writer.spool.flatMap (·.rows)).map (·.sequence) = List.range' 1 writer.sequence

theorem spooled_session {storage : Storage} (hfine : ∀ count step, storage.fails count step = none)
    (batches : List (List Chunk)) (defer : Bool) :
    Returns (session storage batches defer) Writer.initial fun _ writer =>
      Spooled storage (batches.flatten.flatMap (·.data)) writer := by
  have hinitial : WriterOk storage Writer.initial [] :=
    ⟨rfl, rfl, fun _ h => absurd h List.not_mem_nil, rfl, rfl, fun _ h => absurd h.symm
      (Option.some_ne_none _)⟩
  refine Returns.bind ((returns_writeAll hfine hinitial rfl (fun _ => rfl) batches).mono ?_)
  intro answers w₁ hwritten
  refine Returns.bind (Returns.bind ((returns_sealLocked hfine hwritten.1).mono ?_))
  intro _ w₂ hsealed
  refine Returns.bind ((returns_publishPendingLocked hfine hsealed.1.1 defer).mono ?_)
  intro archives w₃ hpublished
  obtain ⟨⟨hok, -⟩, hfile, hpending⟩ := hpublished
  refine Returns.bind (Returns.modify (Returns.pure (Returns.pure ?_)))
  -- nothing is left in the open file or waits for its manifest
  have hnone : w₃.file = none := hfile.trans hsealed.2
  have hkept := hok.kept
  have hnumbered := hok.numbered
  have hhanded := hok.handed
  rw [openBody_of_none hnone, List.append_nil] at hkept
  rw [openRows_of_none hnone, List.append_nil] at hnumbered
  rw [hpending, List.append_nil] at hhanded
  rw [← hhanded] at hkept hnumbered
  exact ⟨hkept, hhanded ▸ hok.segments, hnumbered⟩

/-- A search reads the files as one stream, which is what the device sent with the stamps in
it, and reports of it what it should. -/
structure OneStream (localTime : Instant → LocalTime) (blocks : List (Bytes × Instant))
    (files : List LogFile) : Prop where
  bytes : bytesOf (streamCells files) = prefixBlocks localTime true blocks
  received : removeStamps 22 (bytesOf (streamCells files)) = blocks.flatMap Prod.fst
  searched : ∀ query : Query, Unbordered query.needle → (files.map (·.id)).Nodup →
    (∀ line ∈ streamLines files, line.length ≤ maxResultTextBytes) →
    search query files = .ok (expectedResults query files)

/-- A clock that begins on a first of May. -/
def mayClock (receivedAt : Instant) : LocalTime :=
  { year := 2024, month := 5, day := 1, hour := 9, minute := 0, second := receivedAt.toNat % 60
    year_lt := by decide, month_lt := by decide, day_lt := by decide, hour_lt := by decide
    minute_lt := by decide, second_lt := by omega }

end CameraLogs.Logs

import CameraLogs.Logs.StreamSearchLines
import Mathlib.Data.List.Nodup

/-!
# Which lines a search of continuous files reports

The files of one session, one behind the other, are one stream of bytes. What a
search of it should report is plain: each line with an occurrence of the keyword
that counts, with the first of them (`expectedResults`).

The matcher reports less. Within one window it goes on *behind* a hit that does
not count, so an occurrence that overlaps a rejected one is never looked at unless
a read block happens to begin between them. `Visited` says which occurrences are
looked at, and `search_complete_iff` that the report is right exactly when the
first one that counts is always among them. It is whenever the keyword cannot
overlap itself (`search_complete_of_unbordered`); with one that can, the report
depends on the cuts (`search_incomplete_overlap`).
-/

namespace CameraLogs.Logs

open Lib

/-! ## The stream -/

/-- Every file goes on where the one before it ended. -/
def Continuous : List LogFile → Prop
  | [] => True
  | [_] => True
  | file :: next :: files => next.continues (some file) = true ∧ Continuous (next :: files)

/-- The bytes of the files, with their origins. -/
def streamCells (files : List LogFile) : List Cell :=
  files.flatMap fun file => file.cells 0 file.content

/-- Read cells on from an open line: the lines completed, and the open line then. -/
def splitLines : List Cell → List Cell → List (List Cell) × List Cell
  | line, [] => ([], line)
  | line, cell :: cells =>
    if cell.1 = newline then (line :: (splitLines [] cells).1, (splitLines [] cells).2)
    else splitLines (line ++ [cell]) cells

/-- All lines from an open line on; the last one need not end with a newline. -/
def linesFrom (line cells : List Cell) : List (List Cell) :=
  (splitLines line cells).1 ++ [(splitLines line cells).2]

/-- The lines of a stream. -/
def streamLines (files : List LogFile) : List (List Cell) := linesFrom [] (streamCells files)

/-- The first occurrence in a line that counts. -/
def firstAccepted (query : Query) (cells : List Cell) : Option Nat :=
  (List.range cells.length).find? fun i =>
    OccursAt query.needle (bytesOf cells) i ∧ query.acceptsAt cells i = true

/-- What a search of the files should report. -/
def expectedResults (query : Query) (files : List LogFile) : List SearchResult :=
  (streamLines files).filterMap fun line => (firstAccepted query line).map (resultOf line)

/-- The report is the expected one. -/
def Complete (query : Query) (files : List LogFile) : Prop :=
  search query files = .ok (expectedResults query files)

/-- The occurrence is looked at: in the window of one of the line's read blocks it is
one of the leftmost occurrences that do not overlap. -/
def Visited (query : Query) (before : List Cell) (line : Line) (i : Nat) : Prop :=
  ∃ ps piece qs, line = ps ++ piece :: qs ∧
    (before ++ ps.flatten).length - (query.needle.length - 1) ≤ i ∧
    Greedy query.needle (bytesOf (window query (before ++ ps.flatten) piece)) 0
      (i - ((before ++ ps.flatten).length - (query.needle.length - 1)))

/-! ## The lines of the search are the lines of the stream -/

theorem splitLines_of_newline {line cells : List Cell} {cell : Cell} (h : cell.1 = newline) :
    splitLines line (cell :: cells) =
      (line :: (splitLines [] cells).1, (splitLines [] cells).2) := if_pos h

theorem splitLines_of_ne {line cells : List Cell} {cell : Cell} (h : cell.1 ≠ newline) :
    splitLines line (cell :: cells) = splitLines (line ++ [cell]) cells := if_neg h

theorem splitLines_append (line xs ys : List Cell) :
    splitLines line (xs ++ ys) =
      ((splitLines line xs).1 ++ (splitLines (splitLines line xs).2 ys).1,
        (splitLines (splitLines line xs).2 ys).2) := by
  induction xs generalizing line with
  | nil => rfl
  | cons cell xs ih =>
    rw [List.cons_append]
    by_cases h : cell.1 = newline
    · rw [splitLines_of_newline h, splitLines_of_newline h, ih]
      rfl
    · rw [splitLines_of_ne h, splitLines_of_ne h, ih]

theorem linesFrom_append (line xs ys : List Cell) :
    linesFrom line (xs ++ ys) = (splitLines line xs).1 ++ linesFrom (splitLines line xs).2 ys := by
  unfold linesFrom
  rw [splitLines_append, List.append_assoc]

/-- Cells without a newline only make the open line longer. -/
theorem splitLines_of_no_newline {line cells : List Cell} (h : ∀ c ∈ cells, c.1 ≠ newline) :
    splitLines line cells = ([], line ++ cells) := by
  induction cells generalizing line with
  | nil => rw [List.append_nil]; rfl
  | cons cell cells ih =>
    rw [splitLines_of_ne (h cell List.mem_cons_self), ih fun c hc => h c (List.mem_cons_of_mem _ hc),
      List.append_assoc]
    rfl

theorem cells_append (file : LogFile) (position : Nat) (xs ys : Bytes) :
    file.cells position (xs ++ ys) =
      file.cells position xs ++ file.cells (position + xs.length) ys := by
  induction xs generalizing position with
  | nil => rfl
  | cons x xs ih =>
    show (x, file.originAt position) :: file.cells (position + 1) (xs ++ ys) = _
    rw [ih, List.length_cons, Nat.add_assoc, Nat.add_comm 1]
    rfl

theorem fst_mem_of_mem_cells {file : LogFile} {position : Nat} {bytes : Bytes} {c : Cell}
    (h : c ∈ file.cells position bytes) : c.1 ∈ bytes := by
  rw [← bytesOf_cells file position bytes]
  exact List.mem_map_of_mem h

/-- The pieces of a block with the newlines put back. -/
def joinPieces : List Bytes → Bytes
  | [] => []
  | [piece] => piece
  | piece :: next :: pieces => piece ++ newline :: joinPieces (next :: pieces)

theorem linePieces_ne_nil (chunk : Bytes) : linePieces chunk ≠ [] := by
  cases chunk with
  | nil => exact List.cons_ne_nil _ _
  | cons b rest =>
    unfold linePieces
    split
    · exact List.cons_ne_nil _ _
    · split <;> exact List.cons_ne_nil _ _

theorem joinPieces_linePieces (chunk : Bytes) : joinPieces (linePieces chunk) = chunk := by
  induction chunk with
  | nil => rfl
  | cons b rest ih =>
    unfold linePieces
    split
    next hb =>
      rcases hp : linePieces rest with _ | ⟨piece, pieces⟩
      · exact absurd hp (linePieces_ne_nil rest)
      · rw [hp] at ih
        show newline :: joinPieces (piece :: pieces) = _
        rw [ih, hb]
    next =>
      split
      next hp => exact absurd hp (linePieces_ne_nil rest)
      next piece pieces hp =>
        rw [hp] at ih
        cases pieces with
        | nil => exact congrArg (b :: ·) ih
        | cons next pieces => exact congrArg (b :: ·) ih

theorem linePieces_no_newline {chunk piece : Bytes} (h : piece ∈ linePieces chunk) :
    newline ∉ piece := by
  induction chunk generalizing piece with
  | nil =>
    rw [List.mem_singleton.mp h]
    exact List.not_mem_nil
  | cons b rest ih =>
    unfold linePieces at h
    split at h
    next =>
      rcases List.mem_cons.mp h with h | h
      · rw [h]
        exact List.not_mem_nil
      · exact ih h
    next hb =>
      split at h
      next hp => exact absurd hp (linePieces_ne_nil rest)
      next first pieces hp =>
        rcases List.mem_cons.mp h with h | h
        · rw [h]
          intro hin
          rcases List.mem_cons.mp hin with hin | hin
          · exact hb hin.symm
          · exact ih (hp ▸ List.mem_cons_self) hin
        · exact ih (hp ▸ List.mem_cons_of_mem _ h)

/-- Forget the cuts of lines. -/
def uncut (lines : List Line × Line) : List (List Cell) × List Cell :=
  (lines.1.map List.flatten, lines.2.flatten)

theorem flatten_pushPiece (line : Line) (piece : Cells) :
    (pushPiece line piece).flatten = line.flatten ++ piece := by
  unfold pushPiece
  split
  next h => rw [h, List.append_nil]
  next => rw [List.flatten_append, List.flatten_singleton]

theorem uncut_blockLines (file : LogFile) {line : Line} {pieces : List Bytes} {position : Nat}
    (hne : pieces ≠ []) (hno : ∀ piece ∈ pieces, newline ∉ piece) :
    uncut (blockLines line (file.pieces position pieces)) =
      splitLines line.flatten (file.cells position (joinPieces pieces)) := by
  have hsplit : ∀ {line : List Cell} {position : Nat} {piece : Bytes}, newline ∉ piece →
      splitLines line (file.cells position piece) = ([], line ++ file.cells position piece) := by
    intro line position piece hp
    refine splitLines_of_no_newline fun c hc hbad => hp ?_
    rw [← hbad]
    exact fst_mem_of_mem_cells hc
  induction pieces generalizing line position with
  | nil => exact absurd rfl hne
  | cons piece rest ih =>
    cases rest with
    | nil =>
      show ([], (pushPiece line (file.cells position piece)).flatten) = _
      rw [flatten_pushPiece]
      exact (hsplit (hno piece (List.mem_singleton_self _))).symm
    | cons next pieces =>
      have hrest : uncut (blockLines [] (file.pieces (position + piece.length + 1)
          (next :: pieces))) = splitLines [] (file.cells (position + piece.length + 1)
            (joinPieces (next :: pieces))) :=
        ih (List.cons_ne_nil _ _) fun p hp => hno p (List.mem_cons_of_mem _ hp)
      show ((pushPiece line (file.cells position piece)).flatten ::
          (uncut (blockLines [] (file.pieces (position + piece.length + 1) (next :: pieces)))).1,
        (uncut (blockLines [] (file.pieces (position + piece.length + 1) (next :: pieces)))).2) = _
      rw [hrest, flatten_pushPiece]
      show _ = splitLines line.flatten (file.cells position
        (piece ++ newline :: joinPieces (next :: pieces)))
      rw [cells_append, splitLines_append, hsplit (hno piece List.mem_cons_self)]
      show _ = ([] ++ (splitLines (line.flatten ++ file.cells position piece)
        ((newline, file.originAt (position + piece.length)) ::
          file.cells (position + piece.length + 1) (joinPieces (next :: pieces)))).1, _)
      rfl

theorem uncut_lines (file : LogFile) {line : Line} {chunks : List Bytes} {position : Nat} :
    uncut (file.lines line position chunks) =
      splitLines line.flatten (file.cells position chunks.flatten) := by
  induction chunks generalizing line position with
  | nil => rfl
  | cons chunk chunks ih =>
    have hblock : uncut (blockLines line (file.pieces position (linePieces chunk))) =
        splitLines line.flatten (file.cells position (joinPieces (linePieces chunk))) :=
      uncut_blockLines file (linePieces_ne_nil chunk) fun piece hp => linePieces_no_newline hp
    rw [joinPieces_linePieces] at hblock
    have hrest := @ih (blockLines line (file.pieces position (linePieces chunk))).2
      (position + chunk.length)
    rw [List.flatten_cons, cells_append, splitLines_append, ← hblock]
    show (List.map List.flatten ((blockLines line (file.pieces position (linePieces chunk))).1 ++
        (file.lines (blockLines line (file.pieces position (linePieces chunk))).2
          (position + chunk.length) chunks).1), _) = _
    rw [List.map_append]
    exact Prod.ext (congrArg (_ ++ ·) (Prod.ext_iff.mp hrest).1) (Prod.ext_iff.mp hrest).2

theorem searchLines_continuous {previous : LogFile} {line : Line} {files : List LogFile}
    (h : Continuous (previous :: files)) :
    (searchLines (some previous) line files).map List.flatten =
      linesFrom line.flatten (streamCells files) := by
  induction files generalizing previous line with
  | nil => rfl
  | cons file files ih =>
    have hcells : streamCells (file :: files) = file.cells 0 file.content ++ streamCells files := rfl
    unfold searchLines LogFile.linesAfter
    rw [if_pos h.1, List.map_append, ih h.2, hcells, linesFrom_append]
    show _ = (splitLines line.flatten (file.cells 0 file.chunks.flatten)).1 ++
      linesFrom (splitLines line.flatten (file.cells 0 file.chunks.flatten)).2 _
    rw [← uncut_lines file]
    rfl

/-- The lines of a search of continuous files are those of the stream, behind an
empty one that the first file ends. -/
theorem searchLines_eq_streamLines {file : LogFile} {files : List LogFile}
    (h : Continuous (file :: files)) :
    (searchLines none [] (file :: files)).map List.flatten = [] :: streamLines (file :: files) := by
  have hcells : streamCells (file :: files) = file.cells 0 file.content ++ streamCells files := rfl
  have hfirst : ¬ file.continues none = true := by
    unfold LogFile.continues
    simp
  unfold searchLines LogFile.linesAfter streamLines
  rw [if_neg hfirst, List.map_append, searchLines_continuous h, hcells, linesFrom_append]
  show _ = [] :: ((splitLines (List.flatten []) (file.cells 0 file.chunks.flatten)).1 ++
    linesFrom (splitLines (List.flatten []) (file.cells 0 file.chunks.flatten)).2 _)
  rw [← uncut_lines file]
  rfl

/-! ## The hit of a line and its first occurrence that counts -/

theorem firstAccepted_some {query : Query} {cells : List Cell} {i : Nat} :
    firstAccepted query cells = some i ↔
      (OccursAt query.needle (bytesOf cells) i ∧ query.acceptsAt cells i = true) ∧
        ∀ j, j < i → OccursAt query.needle (bytesOf cells) j → query.acceptsAt cells j = false := by
  unfold firstAccepted
  rw [List.find?_range_eq_some]
  refine ⟨?_, ?_⟩
  · intro h
    obtain ⟨hi, -, hleast⟩ := h
    refine ⟨by simpa using hi, ?_⟩
    intro j hj hocc
    have hrej := hleast j hj
    simpa [hocc] using hrej
  · intro h
    obtain ⟨⟨hocc, hacc⟩, hleast⟩ := h
    have hlen := hocc.le_length query.needle_ne_nil
    have hpos : 0 < query.needle.length := List.length_pos_iff.mpr query.needle_ne_nil
    rw [length_bytesOf] at hlen
    refine ⟨by simp [hocc, hacc], List.mem_range.mpr (by omega), ?_⟩
    intro j hj
    by_cases hj' : OccursAt query.needle (bytesOf cells) j
    · simp [hleast j hj hj']
    · simp [hj']

theorem firstAccepted_none {query : Query} {cells : List Cell}
    (h : firstAccepted query cells = none) {i : Nat}
    (hocc : OccursAt query.needle (bytesOf cells) i) : query.acceptsAt cells i = false := by
  have hlen := hocc.le_length query.needle_ne_nil
  have hpos : 0 < query.needle.length := List.length_pos_iff.mpr query.needle_ne_nil
  rw [length_bytesOf] at hlen
  unfold firstAccepted at h
  rw [List.find?_eq_none] at h
  have hrej := h i (List.mem_range.mpr (by omega))
  simpa [hocc] using hrej

/-- A line with a hit has an occurrence that counts, at or before it. -/
theorem exists_firstAccepted_of_lineHit {query : Query} {line : Line} {i : Nat}
    (h : lineHit query [] line = some i) :
    ∃ j, firstAccepted query line.flatten = some j ∧ j ≤ i := by
  obtain ⟨hocc, hacc⟩ := lineHit_some h
  rw [List.nil_append] at hocc hacc
  rcases hf : firstAccepted query line.flatten with _ | j
  · rw [firstAccepted_none hf hocc] at hacc
    cases hacc
  · refine ⟨j, rfl, ?_⟩
    by_contra hlt
    rw [(firstAccepted_some.mp hf).2 i (by omega) hocc] at hacc
    cases hacc

/-- **The hit is the first occurrence that counts exactly when that one is looked at.** -/
theorem lineHit_eq_iff_visited {query : Query} {before : List Cell} {line : Line} {i : Nat}
    (hocc : OccursAt query.needle (bytesOf (before ++ line.flatten)) i)
    (hacc : query.acceptsAt (before ++ line.flatten) i = true)
    (hleast : ∀ j, j < i → OccursAt query.needle (bytesOf (before ++ line.flatten)) j →
      query.acceptsAt (before ++ line.flatten) j = false) :
    lineHit query before line = some i ↔ Visited query before line i := by
  have hpos : 0 < query.needle.length := List.length_pos_iff.mpr query.needle_ne_nil
  induction line generalizing before with
  | nil =>
    refine ⟨?_, ?_⟩
    · intro h
      cases h
    · intro h
      obtain ⟨ps, piece, qs, hsplit, -⟩ := h
      cases ps <;> cases hsplit
  | cons piece rest ih =>
    rw [List.flatten_cons, ← List.append_assoc] at hocc hacc hleast
    -- an occurrence in the first window is one in the line
    have hwindow : ∀ j, OccursAt query.needle (bytesOf (window query before piece)) j →
        OccursAt query.needle (bytesOf (before ++ piece ++ rest.flatten))
            (before.length - (query.needle.length - 1) + j) ∧
          before.length - (query.needle.length - 1) + j + query.needle.length ≤
            (before ++ piece).length ∧
          query.acceptsAt (window query before piece) j =
            query.acceptsAt (before ++ piece ++ rest.flatten)
              (before.length - (query.needle.length - 1) + j) := by
      intro j hj
      have hlen := hj.le_length query.needle_ne_nil
      rw [window_eq_drop, length_bytesOf, List.length_drop] at hlen
      rw [window_eq_drop, bytesOf_drop, occursAt_drop] at hj
      refine ⟨?_, by omega, ?_⟩
      · rw [bytesOf_append (before ++ piece)]
        exact (occursAt_append_left (by rw [length_bytesOf]; omega)).mpr hj
      · have horigin : originIn (before ++ piece ++ rest.flatten)
            (before.length - (query.needle.length - 1) + j) =
            originIn (before ++ piece) (before.length - (query.needle.length - 1) + j) :=
          originIn_append_left (by omega)
        unfold Query.acceptsAt
        rw [window_eq_drop, originIn_drop, horigin]
    -- the loop stops at the occurrence if it looks at it in the first window
    have hfirst : before.length - (query.needle.length - 1) ≤ i →
        Greedy query.needle (bytesOf (window query before piece)) 0
          (i - (before.length - (query.needle.length - 1))) →
        greedyFirst query.needle (bytesOf (window query before piece))
          (query.acceptsAt (window query before piece)) ((window query before piece).length + 1) 0 =
            some (i - (before.length - (query.needle.length - 1))) := by
      intro hstart hvisit
      have hi : before.length - (query.needle.length - 1) +
          (i - (before.length - (query.needle.length - 1))) = i := by omega
      refine greedyFirst_of_greedy query.needle_ne_nil (by rw [length_bytesOf]; omega) hvisit ?_ ?_
      · obtain ⟨-, -, heq⟩ := hwindow _ hvisit.occursAt.2
        rw [heq, hi]
        exact hacc
      · intro k _ hk hocck
        obtain ⟨hocck', -, heq⟩ := hwindow k hocck
        rw [heq]
        exact hleast _ (by omega) hocck'
    unfold lineHit
    split
    next j hj =>
      obtain ⟨hgreedy, haccj⟩ := greedyFirst_some hj
      obtain ⟨hoccj, hend, hacceq⟩ := hwindow j hgreedy.occursAt.2
      have hle : i ≤ before.length - (query.needle.length - 1) + j := by
        by_contra hlt
        have hrej := hleast _ (Nat.lt_of_not_le hlt) hoccj
        rw [← hacceq, haccj] at hrej
        cases hrej
      refine ⟨?_, ?_⟩
      · intro h
        cases h
        refine ⟨[], piece, rest, rfl, ?_, ?_⟩
        · rw [List.flatten_nil, List.append_nil]
          omega
        · rw [List.flatten_nil, List.append_nil, Nat.add_sub_cancel_left]
          exact hgreedy
      · intro h
        obtain ⟨ps, p, qs, hsplit, hstart, hvisit⟩ := h
        cases ps with
        | nil =>
          rw [List.nil_append] at hsplit
          cases hsplit
          rw [List.flatten_nil, List.append_nil] at hstart hvisit
          rw [hfirst hstart hvisit] at hj
          cases hj
          exact congrArg some (by omega)
        | cons p' ps =>
          -- an occurrence in a later window ends behind the first piece
          rw [List.cons_append] at hsplit
          cases hsplit
          rw [List.flatten_cons, ← List.append_assoc, List.length_append] at hstart
          omega
    next hnone =>
      refine (ih hocc hacc hleast).trans ⟨?_, ?_⟩
      · intro h
        obtain ⟨ps, p, qs, hsplit, hstart, hvisit⟩ := h
        refine ⟨piece :: ps, p, qs, by rw [hsplit]; rfl, ?_, ?_⟩
        · rw [List.flatten_cons, ← List.append_assoc]
          exact hstart
        · rw [List.flatten_cons, ← List.append_assoc]
          exact hvisit
      · intro h
        obtain ⟨ps, p, qs, hsplit, hstart, hvisit⟩ := h
        cases ps with
        | nil =>
          rw [List.nil_append] at hsplit
          cases hsplit
          rw [List.flatten_nil, List.append_nil] at hstart hvisit
          rw [hfirst hstart hvisit] at hnone
          cases hnone
        | cons p' ps =>
          rw [List.cons_append] at hsplit
          cases hsplit
          rw [List.flatten_cons, ← List.append_assoc] at hstart hvisit
          exact ⟨ps, p, qs, rfl, hstart, hvisit⟩

/-! ## Below the line cap -/

/-- A search whose lines all fit reports the hit of each line that has one. -/
theorem outcome_of_cap {query : Query} {lines : List Line}
    (hcap : ∀ line ∈ lines, line.flatten.length ≤ maxResultTextBytes) :
    outcome query lines =
      .ok (lines.filterMap fun line => (lineHit query [] line).map (resultOf line.flatten)) := by
  induction lines with
  | nil => rfl
  | cons line lines ih =>
    have hline := hcap line List.mem_cons_self
    unfold outcome
    rw [ih fun l hl => hcap l (List.mem_cons_of_mem _ hl), List.filterMap_cons]
    unfold lineResult
    rcases lineHit query [] line with _ | i
    · rfl
    · dsimp only
      rw [if_neg (by omega)]
      rfl

/-- What should be reported, from the lines of the search. -/
theorem expectedResults_eq {query : Query} {files : List LogFile} (h : Continuous files) :
    expectedResults query files = (searchLines none [] files).filterMap fun line =>
      (firstAccepted query line.flatten).map (resultOf line.flatten) := by
  have hmap : ∀ lines : List Line,
      (lines.filterMap fun line => (firstAccepted query line.flatten).map (resultOf line.flatten)) =
        (lines.map List.flatten).filterMap fun line =>
          (firstAccepted query line).map (resultOf line) := by
    intro lines
    rw [List.filterMap_map]
    rfl
  rw [hmap]
  cases files with
  | nil => rfl
  | cons file files =>
    rw [searchLines_eq_streamLines h]
    rfl

theorem mem_searchLines {files : List LogFile} (h : Continuous files) {line : Line}
    (hline : line ∈ searchLines none [] files) :
    line.flatten = [] ∨ line.flatten ∈ streamLines files := by
  have hmem := List.mem_map_of_mem (f := List.flatten) hline
  cases files with
  | nil =>
    rw [List.mem_singleton.mp hline]
    exact Or.inl rfl
  | cons file files =>
    rw [searchLines_eq_streamLines h] at hmem
    exact List.mem_cons.mp hmem

/-! ## Results tell positions apart -/

/-- A line is a part of what was read. -/
theorem sublist_of_mem_linesFrom {line cells l : List Cell} (h : l ∈ linesFrom line cells) :
    l.Sublist (line ++ cells) := by
  induction cells generalizing line with
  | nil =>
    rw [List.mem_singleton.mp h, List.append_nil]
    exact List.Sublist.refl line
  | cons cell cells ih =>
    unfold linesFrom at h
    by_cases hcell : cell.1 = newline
    · rw [splitLines_of_newline hcell] at h
      rcases List.mem_cons.mp h with h | h
      · rw [h]
        exact List.sublist_append_left _ _
      · have hrest : l.Sublist ([] ++ cells) := ih h
        exact (hrest.trans (List.sublist_cons_self cell cells)).trans
          (List.sublist_append_right _ _)
    · rw [splitLines_of_ne hcell] at h
      have hrest := ih h
      rw [List.append_assoc] at hrest
      exact hrest

/-- Where a cell comes from, without the time. -/
def Cell.place (cell : Cell) : String × Nat := (cell.2.fileId, cell.2.position)

theorem map_place_cells (file : LogFile) (position : Nat) (bytes : Bytes) :
    (file.cells position bytes).map Cell.place =
      (List.range' position bytes.length).map fun p => (file.id, p) := by
  induction bytes generalizing position with
  | nil => rfl
  | cons b rest ih =>
    show (file.id, position) :: (file.cells (position + 1) rest).map Cell.place = _
    rw [ih, List.length_cons, List.range'_succ, List.map_cons]

/-- No two bytes of a stream come from one place. -/
theorem nodup_place_streamCells {files : List LogFile} (hids : (files.map (·.id)).Nodup) :
    ((streamCells files).map Cell.place).Nodup := by
  induction files with
  | nil => exact List.nodup_nil
  | cons file files ih =>
    rw [List.map_cons, List.nodup_cons] at hids
    show ((file.cells 0 file.content ++ streamCells files).map Cell.place).Nodup
    rw [List.map_append, List.nodup_append, map_place_cells]
    refine ⟨?_, ih hids.2, ?_⟩
    · refine List.Nodup.map ?_ List.nodup_range'
      intro p q hpq
      exact (Prod.mk.inj hpq).2
    · intro a ha b hb hab
      obtain ⟨p, -, hp⟩ := List.mem_map.mp ha
      obtain ⟨cell, hcell, hplace⟩ := List.mem_map.mp hb
      obtain ⟨other, hother, hin⟩ := List.mem_flatMap.mp hcell
      have hmem : Cell.place cell ∈ (other.cells 0 other.content).map Cell.place :=
        List.mem_map_of_mem hin
      rw [map_place_cells] at hmem
      obtain ⟨q, -, hq⟩ := List.mem_map.mp hmem
      have hid : file.id = other.id := by
        rw [← hp, ← hplace, ← hq] at hab
        exact (Prod.mk.inj hab).1
      exact hids.1 (List.mem_map.mpr ⟨other, hother, hid.symm⟩)

theorem originIn_eq_getElem {cells : List Cell} {i : Nat} (hi : i < cells.length) :
    originIn cells i = cells[i].2 := by
  unfold originIn originsOf
  rw [List.getD_eq_getElem?_getD, List.getElem?_map, List.getElem?_eq_getElem hi]
  rfl

/-- The results at two positions of a line differ. -/
theorem resultOf_injective {files : List LogFile} (hids : (files.map (·.id)).Nodup)
    {line : List Cell} (hline : line ∈ streamLines files) {i j : Nat} (hi : i < line.length)
    (hj : j < line.length) (heq : resultOf line i = resultOf line j) : i = j := by
  have hnodup : (line.map Cell.place).Nodup :=
    (nodup_place_streamCells hids).sublist ((sublist_of_mem_linesFrom hline).map Cell.place)
  have hfile : (originIn line i).fileId = (originIn line j).fileId :=
    congrArg SearchResult.fileId heq
  have hoffset : (originIn line i).position = (originIn line j).position :=
    congrArg SearchResult.offset heq
  rw [originIn_eq_getElem hi, originIn_eq_getElem hj] at hfile hoffset
  refine (@List.Nodup.getElem_inj_iff _ _ hnodup i (by rw [List.length_map]; exact hi) j
    (by rw [List.length_map]; exact hj)).mp ?_
  rw [List.getElem_map, List.getElem_map]
  exact Prod.ext hfile hoffset

/-! ## The report -/

/-- Two lists of results are the same when they come from lines one by one, and the
second names every line that the first does. -/
theorem filterMap_eq_iff {α β : Type} {f g : α → Option β} {l : List α}
    (hdom : ∀ a ∈ l, (f a).isSome → (g a).isSome) :
    l.filterMap f = l.filterMap g ↔ ∀ a ∈ l, f a = g a := by
  refine ⟨?_, List.filterMap_congr⟩
  intro heq
  have hlen : ∀ m : List α, (∀ a ∈ m, (f a).isSome → (g a).isSome) →
      (m.filterMap f).length ≤ (m.filterMap g).length := by
    intro m hm
    induction m with
    | nil => exact Nat.le_refl 0
    | cons a m ih =>
      have hrest := ih fun b hb => hm b (List.mem_cons_of_mem _ hb)
      have ha := hm a List.mem_cons_self
      rw [List.filterMap_cons, List.filterMap_cons]
      rcases hf : f a with _ | x <;> rcases hg : g a with _ | y
      · exact hrest
      · exact Nat.le_succ_of_le hrest
      · rw [hf, hg] at ha
        exact absurd (ha rfl) Bool.false_ne_true
      · exact Nat.succ_le_succ hrest
  induction l with
  | nil => exact fun a ha => absurd ha List.not_mem_nil
  | cons a l ih =>
    have hdom' : ∀ b ∈ l, (f b).isSome → (g b).isSome := fun b hb =>
      hdom b (List.mem_cons_of_mem _ hb)
    have ha := hdom a List.mem_cons_self
    have hrest := hlen l hdom'
    rw [List.filterMap_cons, List.filterMap_cons] at heq
    intro b hb
    rcases hf : f a with _ | x <;> rcases hg : g a with _ | y <;> rw [hf, hg] at heq
    · rcases List.mem_cons.mp hb with h | h
      · rw [h, hf, hg]
      · exact ih hdom' heq b h
    · -- a line only the second list names makes it the longer one
      have hlonger := congrArg List.length heq
      dsimp only at hlonger
      rw [List.length_cons] at hlonger
      omega
    · rw [hf, hg] at ha
      exact absurd (ha rfl) Bool.false_ne_true
    · obtain ⟨hxy, htail⟩ := List.cons.inj heq
      rcases List.mem_cons.mp hb with h | h
      · rw [h, hf, hg, hxy]
      · exact ih hdom' htail b h

/-- A line is reported as it should be exactly when its first occurrence that counts,
if it has one, is looked at. -/
theorem line_report_iff {query : Query} {files : List LogFile} (hcont : Continuous files)
    (hids : (files.map (·.id)).Nodup) {line : Line} (hline : line ∈ searchLines none [] files) :
    (lineHit query [] line).map (resultOf line.flatten) =
        (firstAccepted query line.flatten).map (resultOf line.flatten) ↔
      ∀ i, firstAccepted query line.flatten = some i → Visited query [] line i := by
  have hvisit : ∀ i, firstAccepted query line.flatten = some i →
      (lineHit query [] line = some i ↔ Visited query [] line i) := by
    intro i hi
    obtain ⟨⟨hocc, hacc⟩, hleast⟩ := firstAccepted_some.mp hi
    exact lineHit_eq_iff_visited hocc hacc hleast
  have hbound : ∀ i, OccursAt query.needle (bytesOf line.flatten) i → i < line.flatten.length := by
    intro i hocc
    have hlen := hocc.le_length query.needle_ne_nil
    have hpos := List.length_pos_iff.mpr query.needle_ne_nil
    rw [length_bytesOf] at hlen
    omega
  refine ⟨?_, ?_⟩
  · intro heq i hi
    rw [hi] at heq
    obtain ⟨j, hj, hres⟩ := Option.map_eq_some_iff.mp heq
    have hjocc : OccursAt query.needle (bytesOf line.flatten) j := (lineHit_some hj).1
    have hiocc := (firstAccepted_some.mp hi).1.1
    have hstream : line.flatten ∈ streamLines files := by
      rcases mem_searchLines hcont hline with hnil | hmem
      · rw [hnil] at hi
        cases hi
      · exact hmem
    have hij := resultOf_injective hids hstream (hbound j hjocc) (hbound i hiocc) hres
    rw [hij] at hj
    exact (hvisit i hi).mp hj
  · intro hall
    rcases hf : firstAccepted query line.flatten with _ | i
    · rcases hl : lineHit query [] line with _ | j
      · rfl
      · obtain ⟨k, hk, -⟩ := exists_firstAccepted_of_lineHit hl
        rw [hf] at hk
        cases hk
    · rw [(hvisit i hf).mpr (hall i hf)]

/-- **The report of continuous files with short lines is right exactly when, in every
line, the first occurrence that counts is one of those the matcher looks at.** -/
theorem search_complete_iff {query : Query} {files : List LogFile} (hcont : Continuous files)
    (hids : (files.map (·.id)).Nodup)
    (hcap : ∀ line ∈ streamLines files, line.length ≤ maxResultTextBytes) :
    Complete query files ↔ ∀ line ∈ searchLines none [] files, ∀ i,
      firstAccepted query line.flatten = some i → Visited query [] line i := by
  have hshort : ∀ line ∈ searchLines none [] files, line.flatten.length ≤ maxResultTextBytes := by
    intro line hline
    rcases mem_searchLines hcont hline with hnil | hmem
    · rw [hnil]
      exact Nat.zero_le _
    · exact hcap _ hmem
  have hdom : ∀ line ∈ searchLines none [] files,
      ((lineHit query [] line).map (resultOf line.flatten)).isSome →
        ((firstAccepted query line.flatten).map (resultOf line.flatten)).isSome := by
    intro line _ hsome
    rw [Option.isSome_map] at hsome ⊢
    obtain ⟨i, hi⟩ := Option.isSome_iff_exists.mp hsome
    obtain ⟨j, hj, -⟩ := exists_firstAccepted_of_lineHit hi
    rw [hj]
    rfl
  unfold Complete
  rw [search_eq_outcome, outcome_of_cap hshort, expectedResults_eq hcont, Except.ok.injEq,
    filterMap_eq_iff hdom]
  exact forall₂_congr fun line hline => line_report_iff hcont hids hline

/-- A search for `aa` in the window from 3 to 10. -/
def overlapQuery : Query :=
  { needle := [97, 97], start := 3, stop := 10, needle_ne_nil := by decide }

/-- The file `aaa`, whose first byte was received at 1 and the other two at 5, read in
the given blocks. -/
def overlapFile (chunks : List Bytes) (h : ∀ chunk ∈ chunks, chunk ≠ []) : LogFile :=
  { id := "f"
    identity := { taskId := some "t", runId := some "r", sessionId := some "s", nodeId := some "n" }
    chunks
    index := [⟨0, 1, 1, some 1⟩, ⟨1, 2, 5, some 2⟩]
    chunks_ne_nil := h
    index_ordered := by decide }

/-- The file in one block, and in two. -/
def overlapWhole : LogFile := overlapFile [[97, 97, 97]] (by decide)

def overlapCut : LogFile := overlapFile [[97, 97], [97]] (by decide)

/-- With a keyword that overlaps itself the report depends on the cuts: the occurrence
at 0 is too old, and the one at 1 is found only when a block begins between them. -/
theorem search_incomplete_overlap :
    (Continuous [overlapWhole] ∧
      ∀ line ∈ streamLines [overlapWhole], line.length ≤ maxResultTextBytes) ∧
    (search overlapQuery [overlapWhole] = .ok [] ∧
      expectedResults overlapQuery [overlapWhole] = [⟨"f", 1, "f", 0, ['a', 'a', 'a'], false⟩]) ∧
    (overlapCut.content = overlapWhole.content ∧
      search overlapQuery [overlapCut] = .ok [⟨"f", 1, "f", 0, ['a', 'a', 'a'], false⟩]) ∧
    ¬ Complete overlapQuery [overlapWhole] := by
  refine ⟨⟨trivial, by decide⟩, ⟨rfl, rfl⟩, ⟨rfl, rfl⟩, ?_⟩
  intro h
  have hsearch : search overlapQuery [overlapWhole] = .ok [] := rfl
  unfold Complete at h
  rw [hsearch] at h
  cases h

/-- In two blocks the file is searched completely. -/
theorem search_complete_iff_cut :
    Complete overlapQuery [overlapCut] ↔ ∀ line ∈ searchLines none [] [overlapCut], ∀ i,
      firstAccepted overlapQuery line.flatten = some i → Visited overlapQuery [] line i :=
  search_complete_iff trivial (by decide) (by decide)

/-! ## Keywords that cannot overlap themselves -/

/-- An occurrence lies in the window of the piece it ends in. -/
theorem exists_window {query : Query} {before : List Cell} {line : Line} {i : Nat}
    (hstart : before.length < i + query.needle.length)
    (hocc : OccursAt query.needle (bytesOf (before ++ line.flatten)) i) :
    ∃ ps piece qs, line = ps ++ piece :: qs ∧
      (before ++ ps.flatten).length - (query.needle.length - 1) ≤ i ∧
      OccursAt query.needle (bytesOf (window query (before ++ ps.flatten) piece))
        (i - ((before ++ ps.flatten).length - (query.needle.length - 1))) := by
  induction line generalizing before with
  | nil =>
    have hlen := hocc.le_length query.needle_ne_nil
    rw [List.flatten_nil, List.append_nil, length_bytesOf] at hlen
    omega
  | cons piece rest ih =>
    rw [List.flatten_cons, ← List.append_assoc] at hocc
    by_cases hend : i + query.needle.length ≤ (before ++ piece).length
    · refine ⟨[], piece, rest, rfl, ?_, ?_⟩
      · rw [List.flatten_nil, List.append_nil]
        omega
      · rw [List.flatten_nil, List.append_nil, window_eq_drop, bytesOf_drop, occursAt_drop]
        have hi : before.length - (query.needle.length - 1) +
            (i - (before.length - (query.needle.length - 1))) = i := by omega
        rw [hi]
        rw [bytesOf_append (before ++ piece)] at hocc
        exact (occursAt_append_left (by rw [length_bytesOf]; exact hend)).mp hocc
    · obtain ⟨ps, p, qs, hsplit, hbound, hwindow⟩ := ih (by omega) hocc
      refine ⟨piece :: ps, p, qs, by rw [hsplit]; rfl, ?_, ?_⟩
      · rw [List.flatten_cons, ← List.append_assoc]
        exact hbound
      · rw [List.flatten_cons, ← List.append_assoc]
        exact hwindow

/-- **With a keyword that cannot overlap itself the report is always right**, however
the files are cut. -/
theorem search_complete_of_unbordered {query : Query} {files : List LogFile}
    (hneedle : Unbordered query.needle) (hcont : Continuous files)
    (hids : (files.map (·.id)).Nodup)
    (hcap : ∀ line ∈ streamLines files, line.length ≤ maxResultTextBytes) :
    Complete query files := by
  have hshort : ∀ line ∈ searchLines none [] files, line.flatten.length ≤ maxResultTextBytes := by
    intro line hline
    rcases mem_searchLines hcont hline with hnil | hmem
    · rw [hnil]
      exact Nat.zero_le _
    · exact hcap _ hmem
  unfold Complete
  rw [search_eq_outcome, outcome_of_cap hshort, expectedResults_eq hcont]
  refine congrArg Except.ok (List.filterMap_congr fun line hline => ?_)
  refine (line_report_iff hcont hids hline).mpr fun i hi => ?_
  have hocc := (firstAccepted_some.mp hi).1.1
  have hpos : 0 < query.needle.length := List.length_pos_iff.mpr query.needle_ne_nil
  obtain ⟨ps, piece, qs, hsplit, hbound, hwindow⟩ := exists_window
    (show ([] : List Cell).length < i + query.needle.length by rw [List.length_nil]; omega) hocc
  exact ⟨ps, piece, qs, hsplit, hbound,
    greedy_of_unbordered query.needle_ne_nil hneedle (Nat.zero_le _) hwindow⟩

end CameraLogs.Logs

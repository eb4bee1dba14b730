import CameraLogs.Logs.StreamSearchIndex

/-!
# A search, line by line

The matcher carries tails, offsets, a line buffer and a cursor over a sequence of
read blocks. What comes out depends on much less. A byte together with its origin
is a `Cell`; a line is the list of pieces it arrived in, one piece for each read
block it crosses; and `lineHit` finds a line's match from its pieces alone. A
search is the results of its lines, one after the other (`search_eq_outcome`).

The bridge is `Represents`, what the matcher's state says about the pieces of the
open line, and its step lemma `appendSegment_represents`. After it nothing refers
to the state any more.
-/

namespace CameraLogs.Logs

open Lib

/-- A byte and where it comes from. -/
abbrev Cell := UInt8 × Origin

/-- A piece of a line: what one read block holds of it. -/
abbrev Cells := List Cell

def bytesOf (cells : List Cell) : Bytes := cells.map Prod.fst

def originsOf (cells : List Cell) : List Origin := cells.map Prod.snd

@[simp] theorem length_bytesOf (cells : List Cell) : (bytesOf cells).length = cells.length :=
  List.length_map _

@[simp] theorem length_originsOf (cells : List Cell) : (originsOf cells).length = cells.length :=
  List.length_map _

theorem bytesOf_append (xs ys : List Cell) : bytesOf (xs ++ ys) = bytesOf xs ++ bytesOf ys :=
  List.map_append

theorem originsOf_append (xs ys : List Cell) :
    originsOf (xs ++ ys) = originsOf xs ++ originsOf ys := List.map_append

theorem bytesOf_drop (d : Nat) (xs : List Cell) : bytesOf (xs.drop d) = (bytesOf xs).drop d :=
  List.map_drop

theorem originsOf_drop (d : Nat) (xs : List Cell) :
    originsOf (xs.drop d) = (originsOf xs).drop d := List.map_drop

theorem bytesOf_rtake (k : Nat) (xs : List Cell) : bytesOf (xs.rtake k) = (bytesOf xs).rtake k := by
  unfold List.rtake
  rw [bytesOf_drop, length_bytesOf]

theorem originsOf_rtake (k : Nat) (xs : List Cell) :
    originsOf (xs.rtake k) = (originsOf xs).rtake k := by
  unfold List.rtake
  rw [originsOf_drop, length_originsOf]

/-- The origin of the cell at a position of a line. -/
def originIn (cells : List Cell) (i : Nat) : Origin := (originsOf cells).getD i default

/-- The bytes of a stretch of a file, with their origins. -/
def LogFile.cells (file : LogFile) : Nat → Bytes → List Cell
  | _, [] => []
  | position, b :: rest => (b, file.originAt position) :: file.cells (position + 1) rest

theorem bytesOf_cells (file : LogFile) (position : Nat) (bytes : Bytes) :
    bytesOf (file.cells position bytes) = bytes := by
  induction bytes generalizing position with
  | nil => rfl
  | cons b rest ih =>
    show b :: bytesOf (file.cells (position + 1) rest) = b :: rest
    rw [ih]

theorem originsOf_cells (file : LogFile) (position : Nat) (bytes : Bytes) :
    originsOf (file.cells position bytes) =
      (List.range' position bytes.length).map file.originAt := by
  induction bytes generalizing position with
  | nil => rfl
  | cons b rest ih =>
    show file.originAt position :: originsOf (file.cells (position + 1) rest) = _
    rw [ih, List.length_cons, List.range'_succ, List.map_cons]

@[simp] theorem length_cells (file : LogFile) (position : Nat) (bytes : Bytes) :
    (file.cells position bytes).length = bytes.length := by
  rw [← length_bytesOf, bytesOf_cells]

/-! ## The hit of a line -/

/-- The bytes before a piece that a hit ending in the piece may reach back to, and
the piece. -/
def window (query : Query) (before : List Cell) (piece : Cells) : List Cell :=
  before.rtake (query.needle.length - 1) ++ piece

/-- A hit at a position of a line counts. -/
def Query.acceptsAt (query : Query) (cells : List Cell) (i : Nat) : Bool :=
  query.accepts (originIn cells i)

/-- The position in the line of its hit: the windows are searched one after the
other, each from its start, going on behind every hit that does not count. -/
def lineHit (query : Query) : List Cell → List Cells → Option Nat
  | _, [] => none
  | before, piece :: pieces =>
    match greedyFirst query.needle (bytesOf (window query before piece))
        (query.acceptsAt (window query before piece)) ((window query before piece).length + 1) 0 with
    | some i => some (before.length - (query.needle.length - 1) + i)
    | none => lineHit query (before ++ piece) pieces

theorem window_eq_drop (query : Query) (before : List Cell) (piece : Cells) :
    window query before piece =
      (before ++ piece).drop (before.length - (query.needle.length - 1)) := rtake_append _ _ _

theorem originIn_drop (cells : List Cell) (d i : Nat) :
    originIn (cells.drop d) i = originIn cells (d + i) := by
  unfold originIn
  rw [originsOf_drop, List.getD_eq_getElem?_getD, List.getElem?_drop, List.getD_eq_getElem?_getD]

theorem originIn_append_left {cells more : List Cell} {i : Nat} (hi : i < cells.length) :
    originIn (cells ++ more) i = originIn cells i := by
  unfold originIn
  rw [originsOf_append, List.getD_eq_getElem?_getD, List.getD_eq_getElem?_getD,
    List.getElem?_append_left (by rw [length_originsOf]; exact hi)]

/-- One more piece: the hit of the line so far, or the first of the new window. -/
theorem lineHit_append (query : Query) (before : List Cell) (pieces : List Cells) (piece : Cells) :
    lineHit query before (pieces ++ [piece]) =
      (lineHit query before pieces).or
        (lineHit query (before ++ pieces.flatten) [piece]) := by
  induction pieces generalizing before with
  | nil =>
    rw [List.nil_append, List.flatten_nil, List.append_nil]
    rfl
  | cons p ps ih =>
    rw [List.cons_append]
    show (match greedyFirst _ _ _ _ _ with
      | some i => some (before.length - (query.needle.length - 1) + i)
      | none => lineHit query (before ++ p) (ps ++ [piece])) =
      (match greedyFirst _ _ _ _ _ with
      | some i => some (before.length - (query.needle.length - 1) + i)
      | none => lineHit query (before ++ p) ps).or _
    split
    next => rfl
    next => rw [ih, List.flatten_cons, List.append_assoc]

/-- A hit of the line is an occurrence that counts. -/
theorem lineHit_some {query : Query} {before : List Cell} {pieces : List Cells} {i : Nat}
    (h : lineHit query before pieces = some i) :
    OccursAt query.needle (bytesOf (before ++ pieces.flatten)) i ∧
      query.acceptsAt (before ++ pieces.flatten) i = true := by
  induction pieces generalizing before with
  | nil => cases h
  | cons piece pieces ih =>
    unfold lineHit at h
    split at h
    next j hj =>
      cases h
      obtain ⟨hgreedy, hacc⟩ := greedyFirst_some hj
      have hocc := hgreedy.occursAt.2
      have hlen := hocc.le_length query.needle_ne_nil
      have hpos : 0 < query.needle.length := List.length_pos_iff.mpr query.needle_ne_nil
      rw [window_eq_drop, bytesOf_drop, occursAt_drop] at hocc
      rw [window_eq_drop, length_bytesOf, List.length_drop] at hlen
      rw [List.flatten_cons, ← List.append_assoc]
      refine ⟨?_, ?_⟩
      · rw [bytesOf_append]
        refine (occursAt_append_left ?_).mpr hocc
        rw [length_bytesOf]
        omega
      · unfold Query.acceptsAt at hacc ⊢
        rw [window_eq_drop, originIn_drop] at hacc
        rw [originIn_append_left (by omega)]
        exact hacc
    next =>
      have hrest := ih h
      rw [List.flatten_cons, ← List.append_assoc]
      exact hrest

/-! ## The matcher's state and the pieces of the open line -/

/-- What the matcher's state says about the pieces of the open line. -/
structure Represents (query : Query) (pieces : List Cells) (state : SearchState) : Prop where
  tail : state.tail = (bytesOf pieces.flatten).rtake (query.needle.length - 1)
  origins : state.origins = (originsOf pieces.flatten).rtake (query.needle.length - 1)
  line : state.line = (bytesOf pieces.flatten).take maxResultTextBytes
  lineBytes : state.lineBytes = pieces.flatten.length
  lineOverflow : state.lineOverflow = decide (maxResultTextBytes < pieces.flatten.length)
  lineOrigin : state.lineOrigin = (originsOf pieces.flatten).head?
  hit : state.hit = (lineHit query [] pieces).map (originIn pieces.flatten)

theorem represents_clearLine (query : Query) (state : SearchState) :
    Represents query [] state.clearLine := by
  exact ⟨(List.rtake_nil _).symm, (List.rtake_nil _).symm, rfl, rfl, rfl, rfl, rfl⟩

/-- The origins in a stretch of a file that follows a tail. -/
theorem originIn_cells {file : LogFile} {tail : List Cell} {position : Nat} {bytes : Bytes} {i : Nat}
    (hle : tail.length ≤ i) (hlt : i < tail.length + bytes.length) :
    originIn (tail ++ file.cells position bytes) i = file.originAt (position + (i - tail.length)) := by
  unfold originIn
  rw [originsOf_append, List.getD_eq_getElem?_getD,
    List.getElem?_append_right (by rw [length_originsOf]; exact hle), length_originsOf,
    originsOf_cells, List.getElem?_map, List.getElem?_range' (by omega)]
  simp

/-- Searching a piece: the loop is the greedy one on the window, and the positions
it asks for stay before `bound`. -/
theorem searchSegment_spec {query : Query} {file : LogFile} {tail : List Cell}
    {segment : Bytes} {segmentOffset fuel start b bound : Nat} {cache : OriginCache}
    (hcache : CacheOk file.index cache b)
    (hb : b ≤ segmentOffset + (start - tail.length) + 1) (hb' : b ≤ bound)
    (hbound : ∀ i, OccursAt query.needle (bytesOf (tail ++ file.cells segmentOffset segment)) i →
      tail.length ≤ i → segmentOffset + (i - tail.length) + 1 ≤ bound) :
    (searchSegment query file.id (bytesOf tail) (originsOf tail) segmentOffset
        (bytesOf (tail ++ file.cells segmentOffset segment)) fuel start cache).1 =
      (greedyFirst query.needle (bytesOf (tail ++ file.cells segmentOffset segment))
        (query.acceptsAt (tail ++ file.cells segmentOffset segment)) fuel start).map
        (originIn (tail ++ file.cells segmentOffset segment)) ∧
    CacheOk file.index
      (searchSegment query file.id (bytesOf tail) (originsOf tail) segmentOffset
        (bytesOf (tail ++ file.cells segmentOffset segment)) fuel start cache).2 bound := by
  induction fuel generalizing start b cache with
  | zero => exact ⟨rfl, hcache.mono hb'⟩
  | succ fuel ih =>
    unfold searchSegment greedyFirst
    rcases hf : find query.needle (bytesOf (tail ++ file.cells segmentOffset segment)) start
      with _ | found
    · exact ⟨rfl, hcache.mono hb'⟩
    obtain ⟨hstart, hocc, -⟩ := find_some hf
    have hlen := hocc.le_length query.needle_ne_nil
    have hpos : 0 < query.needle.length := List.length_pos_iff.mpr query.needle_ne_nil
    rw [length_bytesOf, List.length_append, length_cells] at hlen
    dsimp only
    by_cases htail : found < tail.length
    · -- the hit starts in the tail, whose origins are kept
      rw [length_bytesOf, if_pos htail]
      have horigin : (originsOf tail).getD found default =
          originIn (tail ++ file.cells segmentOffset segment) found :=
        (originIn_append_left htail).symm
      rw [horigin]
      dsimp only
      unfold Query.acceptsAt
      by_cases hacc : query.accepts (originIn (tail ++ file.cells segmentOffset segment) found) = true
      · rw [if_pos hacc, if_pos hacc]
        exact ⟨rfl, hcache.mono hb'⟩
      · rw [if_neg hacc, if_neg hacc]
        exact ih hcache (by omega) hb'
    · rw [length_bytesOf, if_neg htail]
      have hle : tail.length ≤ found := by omega
      have hposition : segmentOffset + found - tail.length =
          segmentOffset + (found - tail.length) := by omega
      rw [hposition]
      obtain ⟨horigin, hok⟩ := origin_spec hcache
        (show b ≤ segmentOffset + (found - tail.length) + 1 by omega)
      rcases hc : cache.origin file.id (segmentOffset + (found - tail.length)) with ⟨source, cache'⟩
      rw [hc] at horigin hok
      have hsource : source = originIn (tail ++ file.cells segmentOffset segment) found := by
        rw [originIn_cells hle (by omega)]
        exact horigin
      have hbnd := hbound found hocc hle
      rw [hsource]
      dsimp only
      unfold Query.acceptsAt
      by_cases hacc : query.accepts (originIn (tail ++ file.cells segmentOffset segment) found) = true
      · rw [if_pos hacc, if_pos hacc]
        exact ⟨rfl, hok.mono hbnd⟩
      · rw [if_neg hacc, if_neg hacc]
        exact ih hok (by omega) hbnd

section Append

variable {query : Query} {file : LogFile} {pieces : List Cells} {state : SearchState}
  {segment : Bytes} {segmentOffset b : Nat} {cache : OriginCache}

theorem lineStart_spec (h : Represents query pieces state) (hcache : CacheOk file.index cache b)
    (hb : b ≤ segmentOffset) (hseg : segment ≠ []) :
    some (lineStart file.id segmentOffset state cache).1 =
        (originsOf (pieces.flatten ++ file.cells segmentOffset segment)).head? ∧
      CacheOk file.index (lineStart file.id segmentOffset state cache).2 (segmentOffset + 1) := by
  unfold lineStart
  rw [h.lineOrigin]
  rcases hl : pieces.flatten with _ | ⟨cell, cells⟩
  · obtain ⟨horigin, hok⟩ := origin_spec hcache (show b ≤ segmentOffset + 1 by omega)
    refine ⟨?_, hok⟩
    show some (cache.origin file.id segmentOffset).1 = _
    rw [horigin]
    cases segment with
    | nil => exact absurd rfl hseg
    | cons => rfl
  · exact ⟨rfl, hcache.mono (by omega)⟩

theorem bufferLine_spec (h : Represents query pieces state) (piece : Cells) :
    bufferLine (bytesOf piece) state =
      ((bytesOf (pieces.flatten ++ piece)).take maxResultTextBytes,
        decide (maxResultTextBytes < (pieces.flatten ++ piece).length)) := by
  unfold bufferLine
  rw [h.lineOverflow, h.line, bytesOf_append, List.length_append, List.take_append,
    length_bytesOf, length_bytesOf, List.length_take, length_bytesOf]
  by_cases hover : maxResultTextBytes < pieces.flatten.length
  · rw [if_pos (decide_eq_true hover)]
    have hzero : maxResultTextBytes - pieces.flatten.length = 0 := by omega
    rw [hzero, List.take_zero, List.append_nil]
    exact Prod.ext rfl (decide_eq_true (by omega)).symm
  · rw [if_neg (by rw [decide_eq_true_eq]; exact hover)]
    have hmin : min maxResultTextBytes pieces.flatten.length = pieces.flatten.length := by omega
    dsimp only
    rw [hmin]
    refine Prod.ext rfl ?_
    show decide _ = decide _
    rw [decide_eq_decide]
    omega

/-- The tail is the end of the open line, cell by cell. -/
theorem Represents.tail_cells (h : Represents query pieces state) :
    state.tail = bytesOf (pieces.flatten.rtake (query.needle.length - 1)) ∧
      state.origins = originsOf (pieces.flatten.rtake (query.needle.length - 1)) := by
  rw [bytesOf_rtake, originsOf_rtake]
  exact ⟨h.tail, h.origins⟩

/-- What is searched when a piece comes in is the window of the piece. -/
theorem Represents.data (h : Represents query pieces state) :
    state.tail ++ segment =
      bytesOf (window query pieces.flatten (file.cells segmentOffset segment)) := by
  unfold window
  rw [bytesOf_append, bytesOf_cells, h.tail_cells.1]

theorem findHit_spec (h : Represents query pieces state) (hcache : CacheOk file.index cache b)
    (hb : b ≤ segmentOffset + 1) {bound : Nat} (hb' : b ≤ bound)
    (hbound : segmentOffset + ((state.tail ++ segment).length - (query.needle.length - 1) -
      state.tail.length) ≤ bound) :
    (findHit query file.id segment segmentOffset state cache).1 =
        (lineHit query [] (pieces ++ [file.cells segmentOffset segment])).map
          (originIn (pieces.flatten ++ file.cells segmentOffset segment)) ∧
      CacheOk file.index (findHit query file.id segment segmentOffset state cache).2 bound := by
  have hpos : 0 < query.needle.length := List.length_pos_iff.mpr query.needle_ne_nil
  have hdata : state.tail ++ segment =
      bytesOf (window query pieces.flatten (file.cells segmentOffset segment)) := h.data
  unfold findHit
  rw [h.hit, lineHit_append, List.nil_append]
  rcases hl : lineHit query [] pieces with _ | i
  · have hreach : ∀ i, OccursAt query.needle (bytesOf (pieces.flatten.rtake
        (query.needle.length - 1) ++ file.cells segmentOffset segment)) i →
        (pieces.flatten.rtake (query.needle.length - 1)).length ≤ i →
        segmentOffset + (i - (pieces.flatten.rtake (query.needle.length - 1)).length) + 1 ≤
          bound := by
      intro i hocc hle
      have hlen := hocc.le_length query.needle_ne_nil
      have hwindow : (state.tail ++ segment).length = (bytesOf (pieces.flatten.rtake
          (query.needle.length - 1) ++ file.cells segmentOffset segment)).length :=
        congrArg List.length hdata
      have htail : state.tail.length =
          (pieces.flatten.rtake (query.needle.length - 1)).length := by
        rw [h.tail_cells.1, length_bytesOf]
      omega
    obtain ⟨hhit, hok⟩ := @searchSegment_spec query file
      (pieces.flatten.rtake (query.needle.length - 1)) segment segmentOffset
      ((window query pieces.flatten (file.cells segmentOffset segment)).length + 1) 0 b bound cache
      hcache (by omega) hb' hreach
    rw [Option.none_or, Option.map_none]
    dsimp only
    rw [hdata, h.tail_cells.1, h.tail_cells.2, length_bytesOf]
    refine ⟨hhit.trans ?_, hok⟩
    unfold lineHit
    show Option.map _ (greedyFirst _ (bytesOf (window query pieces.flatten _)) _ _ _) = _
    rcases hg : greedyFirst query.needle
      (bytesOf (window query pieces.flatten (file.cells segmentOffset segment)))
      (query.acceptsAt (window query pieces.flatten (file.cells segmentOffset segment)))
      ((window query pieces.flatten (file.cells segmentOffset segment)).length + 1) 0 with _ | i
    · rw [show pieces.flatten.rtake (query.needle.length - 1) ++ file.cells segmentOffset segment =
        window query pieces.flatten (file.cells segmentOffset segment) from rfl, hg]
      rfl
    · rw [show pieces.flatten.rtake (query.needle.length - 1) ++ file.cells segmentOffset segment =
        window query pieces.flatten (file.cells segmentOffset segment) from rfl, hg]
      rw [Option.map_some, Option.map_some, window_eq_drop, originIn_drop]
  · refine ⟨?_, hcache.mono hb'⟩
    obtain ⟨hocc, -⟩ := lineHit_some hl
    have hlen := hocc.le_length query.needle_ne_nil
    rw [List.nil_append, length_bytesOf] at hlen
    rw [Option.some_or, Option.map_some, Option.map_some, originIn_append_left (by omega)]

theorem cells_drop (file : LogFile) (position d : Nat) (bytes : Bytes) :
    (file.cells position bytes).drop d = file.cells (position + d) (bytes.drop d) := by
  induction d generalizing position bytes with
  | zero => rfl
  | succ d ih =>
    cases bytes with
    | nil => rfl
    | cons x rest =>
      show (file.cells (position + 1) rest).drop d = file.cells (position + (d + 1)) (rest.drop d)
      rw [ih, Nat.add_assoc, Nat.add_comm 1 d]

theorem keepTail_spec (h : Represents query pieces state) (hcache : CacheOk file.index cache b)
    (hseg : segment ≠ [])
    (hb : b ≤ segmentOffset + ((state.tail ++ segment).length - (query.needle.length - 1) -
      state.tail.length) + 1)
    (hb' : b ≤ segmentOffset + segment.length) :
    (keepTail query file.id segment segmentOffset state cache).1 =
        (bytesOf (pieces.flatten ++ file.cells segmentOffset segment)).rtake
          (query.needle.length - 1) ∧
      (keepTail query file.id segment segmentOffset state cache).2.1 =
        (originsOf (pieces.flatten ++ file.cells segmentOffset segment)).rtake
          (query.needle.length - 1) ∧
      CacheOk file.index (keepTail query file.id segment segmentOffset state cache).2.2
        (segmentOffset + segment.length) := by
  have hpos : 0 < segment.length := List.length_pos_iff.mpr hseg
  have hlen : (state.tail ++ segment).length = state.tail.length + segment.length :=
    List.length_append
  have horiginsLen : state.origins.length = state.tail.length := by
    rw [h.tail_cells.1, h.tail_cells.2, length_bytesOf, length_originsOf]
  unfold keepTail
  dsimp only
  by_cases hkeep : min (state.tail ++ segment).length (query.needle.length - 1) = 0
  · rw [if_pos hkeep]
    have hzero : query.needle.length - 1 = 0 := by omega
    rw [hzero, List.rtake_zero, List.rtake_zero]
    exact ⟨rfl, rfl, hcache.mono hb'⟩
  rw [if_neg hkeep]
  have hretained : (state.tail ++ segment).length -
      min (state.tail ++ segment).length (query.needle.length - 1) =
      (state.tail ++ segment).length - (query.needle.length - 1) := by omega
  rw [hretained]
  have hb'' : b ≤ segmentOffset + ((state.tail ++ segment).length - (query.needle.length - 1) -
      state.tail.length) + (segment.length - ((state.tail ++ segment).length -
        (query.needle.length - 1) - state.tail.length)) := by omega
  obtain ⟨horigins, hok⟩ := origins_spec hcache hb hb''
  refine ⟨?_, ?_, ?_⟩
  · show state.tail.drop _ ++ segment.drop _ = _
    rw [← List.drop_append, bytesOf_append, bytesOf_cells, ← rtake_rtake_append, ← h.tail]
    rfl
  · show state.origins.drop _ ++ (cache.origins _ _ _).1 = _
    rw [horigins, originsOf_append, ← rtake_rtake_append, ← h.origins]
    have hcells : (List.range' (segmentOffset + ((state.tail ++ segment).length -
        (query.needle.length - 1) - state.tail.length)) (segment.length -
        ((state.tail ++ segment).length - (query.needle.length - 1) -
          state.tail.length))).map file.originAt =
        (originsOf (file.cells segmentOffset segment)).drop
          ((state.tail ++ segment).length - (query.needle.length - 1) - state.tail.length) := by
      rw [← originsOf_drop, cells_drop, originsOf_cells, List.length_drop]
    have hcellsLen : (state.origins ++ originsOf (file.cells segmentOffset segment)).length =
        (state.tail ++ segment).length := by
      rw [List.length_append, length_originsOf, length_cells, horiginsLen, hlen]
    rw [hcells, ← horiginsLen, ← List.drop_append]
    unfold List.rtake
    rw [hcellsLen]
  · have heq : segmentOffset + segment.length = segmentOffset +
        ((state.tail ++ segment).length - (query.needle.length - 1) - state.tail.length) +
        (segment.length - ((state.tail ++ segment).length - (query.needle.length - 1) -
          state.tail.length)) := by omega
    rw [heq]
    exact hok

/-- **Taking in a piece adds the piece to the open line.** -/
theorem appendSegment_represents (h : Represents query pieces state)
    (hcache : CacheOk file.index cache b) (hb : b ≤ segmentOffset) (hseg : segment ≠ []) :
    Represents query (pieces ++ [file.cells segmentOffset segment])
        (SearchState.appendSegment query file.id segment segmentOffset state cache).1 ∧
      CacheOk file.index (SearchState.appendSegment query file.id segment segmentOffset state cache).2
        (segmentOffset + segment.length) := by
  have hpos : 0 < segment.length := List.length_pos_iff.mpr hseg
  have hlen : (state.tail ++ segment).length = state.tail.length + segment.length :=
    List.length_append
  have hflat : (pieces ++ [file.cells segmentOffset segment]).flatten =
      pieces.flatten ++ file.cells segmentOffset segment := by
    rw [List.flatten_append, List.flatten_singleton]
  obtain ⟨hstart, hok₁⟩ := lineStart_spec h hcache hb hseg
  have hbuffer := bufferLine_spec h (file.cells segmentOffset segment)
  rw [bytesOf_cells] at hbuffer
  -- the positions asked for before the tail is kept stay before the tail
  have hbound : ∃ bound, segmentOffset + 1 ≤ bound ∧
      segmentOffset + ((state.tail ++ segment).length - (query.needle.length - 1) -
        state.tail.length) ≤ bound ∧
      bound ≤ segmentOffset + ((state.tail ++ segment).length - (query.needle.length - 1) -
        state.tail.length) + 1 ∧
      bound ≤ segmentOffset + segment.length :=
    ⟨max (segmentOffset + 1) (segmentOffset + ((state.tail ++ segment).length -
      (query.needle.length - 1) - state.tail.length)), by omega, by omega, by omega, by omega⟩
  obtain ⟨bound, hb₁, hb₂, hb₃, hb₄⟩ := hbound
  obtain ⟨hhit, hok₂⟩ := findHit_spec h hok₁ (Nat.le_refl _) hb₁ hb₂
  obtain ⟨htail, horigins, hok₃⟩ := keepTail_spec h hok₂ hseg hb₃ hb₄
  unfold SearchState.appendSegment
  rw [if_neg hseg]
  refine ⟨?_, hok₃⟩
  refine ⟨?_, ?_, ?_, ?_, ?_, ?_, ?_⟩
  · rw [hflat]
    exact htail
  · rw [hflat]
    exact horigins
  · rw [hflat]
    exact congrArg Prod.fst hbuffer
  · rw [hflat, List.length_append, length_cells, ← h.lineBytes]
  · rw [hflat]
    exact congrArg Prod.snd hbuffer
  · rw [hflat]
    exact hstart
  · rw [hflat]
    exact hhit

/-- Neither the file scanned last nor its last block is touched by a piece. -/
theorem appendSegment_previous :
    (SearchState.appendSegment query file.id segment segmentOffset state cache).1.previousIdentity =
        state.previousIdentity ∧
      (SearchState.appendSegment query file.id segment segmentOffset state cache).1.previousSequence =
        state.previousSequence := by
  unfold SearchState.appendSegment
  split
  · exact ⟨rfl, rfl⟩
  · exact ⟨rfl, rfl⟩

end Append

/-! ## Lines and their results -/

/-- A line: the pieces it arrived in. -/
abbrev Line := List Cells

/-- The result of a line with a hit at a position of it. -/
def resultOf (cells : List Cell) (i : Nat) : SearchResult :=
  { fileId := (originIn cells i).fileId
    offset := (originIn cells i).position
    lineStartFileId := (originIn cells 0).fileId
    lineStartOffset := (originIn cells 0).position
    text := (lineText (bytesOf cells)).1
    encodingError := (lineText (bytesOf cells)).2 }

/-- The results of a line: one if it has a hit, an error if it is too long then. -/
def lineResult (query : Query) (line : Line) : Except SearchError (List SearchResult) :=
  match lineHit query [] line with
  | none => .ok []
  | some i =>
    if maxResultTextBytes < line.flatten.length then
      .error (.valueError "命中日志行超过 262144 字节，无法完整保存")
    else .ok [resultOf line.flatten i]

/-- The results of lines, up to the first error. -/
def outcome (query : Query) : List Line → Except SearchError (List SearchResult)
  | [] => .ok []
  | line :: lines => do
    let results ← lineResult query line
    let rest ← outcome query lines
    return results ++ rest

theorem outcome_append (query : Query) (lines more : List Line) :
    outcome query (lines ++ more) = do
      let results ← outcome query lines
      let rest ← outcome query more
      return results ++ rest := by
  induction lines with
  | nil =>
    show outcome query more = (outcome query more >>= fun rest => .ok ([] ++ rest))
    rcases outcome query more with e | rest <;> rfl
  | cons line lines ih =>
    show (lineResult query line >>= fun results =>
      outcome query (lines ++ more) >>= fun rest => .ok (results ++ rest)) = _
    rw [ih]
    show _ = ((lineResult query line >>= fun results =>
      outcome query lines >>= fun rest => .ok (results ++ rest)) >>= fun results =>
        outcome query more >>= fun rest => .ok (results ++ rest))
    rcases lineResult query line with e | results
    · rfl
    rcases outcome query lines with e | rest
    · rfl
    rcases outcome query more with e | rest'
    · rfl
    · show Except.ok (results ++ (rest ++ rest')) = Except.ok (results ++ rest ++ rest')
      rw [List.append_assoc]

/-- Completing the open line gives its results. -/
theorem completeLine_spec {query : Query} {line : Line} {state : SearchState}
    (h : Represents query line state) :
    state.completeLine = (lineResult query line).map fun results => (results, state.clearLine) := by
  unfold SearchState.completeLine lineResult
  rw [h.hit]
  rcases hl : lineHit query [] line with _ | i
  · rfl
  · rw [Option.map_some]
    dsimp only
    rw [h.lineOverflow]
    by_cases hover : maxResultTextBytes < line.flatten.length
    · rw [if_pos (decide_eq_true hover), if_pos hover]
      rfl
    · have hwhole : state.line = bytesOf line.flatten := by
        rw [h.line]
        exact List.take_of_length_le (by rw [length_bytesOf]; omega)
      have hstart : state.lineOrigin.getD default = originIn line.flatten 0 := by
        rw [h.lineOrigin]
        unfold originIn
        rw [List.head?_eq_getElem?, List.getD_eq_getElem?_getD]
      rw [if_neg (by rw [decide_eq_true_eq]; exact hover), if_neg hover, hwhole, hstart]
      rfl

/-! ## The lines of a file -/

/-- The pieces of a block, with origins. -/
def LogFile.pieces (file : LogFile) : Nat → List Bytes → List Cells
  | _, [] => []
  | position, piece :: rest =>
    file.cells position piece :: file.pieces (position + piece.length + 1) rest

/-- A piece of an open line; nothing is no piece. -/
def pushPiece (line : Line) (piece : Cells) : Line := if piece = [] then line else line ++ [piece]

/-- The lines a block completes, and the line it leaves open. -/
def blockLines : Line → List Cells → List Line × Line
  | line, [] => ([], line)
  | line, [piece] => ([], pushPiece line piece)
  | line, piece :: next :: pieces =>
    let (lines, last) := blockLines [] (next :: pieces)
    (pushPiece line piece :: lines, last)

/-- The lines a file completes, and the line it leaves open. -/
def LogFile.lines (file : LogFile) : Line → Nat → List Bytes → List Line × Line
  | line, _, [] => ([], line)
  | line, position, chunk :: chunks =>
    let (lines, next) := blockLines line (file.pieces position (linePieces chunk))
    let (more, last) := file.lines next (position + chunk.length) chunks
    (lines ++ more, last)

/-- A file goes on where another one ended, as the matcher decides it. -/
def LogFile.continues (previous : Option LogFile) (file : LogFile) : Bool :=
  file.identity.all && decide (previous.map (·.identity) = some file.identity) &&
    match file.index.head?, previous.bind (·.lastSequence) with
    | some first, some sequence => first.offset = 0 ∧ first.sequence = some (sequence + 1)
    | _, _ => false

/-- The lines a file completes behind an open line, which it ends first unless it
goes on where the last file ended; and the line it leaves open. -/
def LogFile.linesAfter (file : LogFile) (previous : Option LogFile) (line : Line) :
    List Line × Line :=
  if file.continues previous then file.lines line 0 file.chunks
  else (line :: (file.lines [] 0 file.chunks).1, (file.lines [] 0 file.chunks).2)

/-- The lines of a search, from a file scanned last and an open line on. -/
def searchLines : Option LogFile → Line → List LogFile → List Line
  | _, line, [] => [line]
  | previous, line, file :: files =>
    (file.linesAfter previous line).1 ++
      searchLines (some file) (file.linesAfter previous line).2 files

/-- The matcher after a part of a file: it represents the open line, has not lost
track of the index, and remembers the file before. -/
structure Scanning (query : Query) (file : LogFile) (line : Line) (bound : Nat)
    (before state : SearchState) (cache : OriginCache) : Prop where
  line : Represents query line state
  cache : CacheOk file.index cache bound
  previousIdentity : state.previousIdentity = before.previousIdentity
  previousSequence : state.previousSequence = before.previousSequence

theorem appendSegment_scanning {query : Query} {file : LogFile} {line : Line} {bound stop : Nat}
    {before state : SearchState} {cache : OriginCache} {piece : Bytes} {position : Nat}
    (h : Scanning query file line bound before state cache) (hb : bound ≤ position)
    (hstop : position + piece.length ≤ stop) :
    Scanning query file (pushPiece line (file.cells position piece)) stop before
      (SearchState.appendSegment query file.id piece position state cache).1
      (SearchState.appendSegment query file.id piece position state cache).2 := by
  by_cases hpiece : piece = []
  · subst hpiece
    show Scanning query file (pushPiece line []) stop before state cache
    exact ⟨h.line, h.cache.mono (by omega), h.previousIdentity, h.previousSequence⟩
  · have hne : file.cells position piece ≠ [] := by
      intro hnil
      have := congrArg List.length hnil
      rw [length_cells] at this
      exact hpiece (List.length_eq_zero_iff.mp this)
    obtain ⟨hline, hcache⟩ := appendSegment_represents h.line h.cache hb hpiece
    unfold pushPiece
    rw [if_neg hne]
    exact ⟨hline, hcache.mono hstop, appendSegment_previous.1.trans h.previousIdentity,
      appendSegment_previous.2.trans h.previousSequence⟩

/-- Scanning a block completes the lines of the block. -/
theorem scanPieces_spec {query : Query} {file : LogFile} {line : Line} {bound stop : Nat}
    {before state : SearchState} {cache : OriginCache} {pieces : List Bytes} {position : Nat}
    (h : Scanning query file line bound before state cache) (hb : bound ≤ position)
    (hb' : bound ≤ stop)
    (hstop : position + (pieces.map (·.length + 1)).sum ≤ stop + 1) :
    ∃ state' cache', Scanning query file (blockLines line (file.pieces position pieces)).2 stop
        before state' cache' ∧
      scanPieces query file.id position pieces state cache =
        (outcome query (blockLines line (file.pieces position pieces)).1).map
          fun results => (results, state', cache') := by
  induction pieces generalizing line bound state cache position with
  | nil =>
    exact ⟨state, cache, ⟨h.line, h.cache.mono hb', h.previousIdentity, h.previousSequence⟩, rfl⟩
  | cons piece rest ih =>
    rw [List.map_cons, List.sum_cons] at hstop
    cases rest with
    | nil =>
      refine ⟨_, _, appendSegment_scanning h hb ?_, rfl⟩
      simp only [List.map_nil, List.sum_nil] at hstop
      omega
    | cons next pieces =>
      have hpiece := appendSegment_scanning h hb (Nat.le_refl (position + piece.length))
      rcases ha : SearchState.appendSegment query file.id piece position state cache with ⟨state₁, cache₁⟩
      rw [ha] at hpiece
      have hcleared : Scanning query file [] (position + piece.length) before state₁.clearLine
          cache₁ :=
        ⟨represents_clearLine query state₁, hpiece.cache, hpiece.previousIdentity,
          hpiece.previousSequence⟩
      have hpos : position + piece.length ≤ stop := by
        rw [List.map_cons, List.sum_cons] at hstop
        omega
      obtain ⟨state', cache', hscan, heq⟩ := ih hcleared
        (show position + piece.length ≤ position + piece.length + 1 by omega) hpos (by omega)
      refine ⟨state', cache', hscan, ?_⟩
      have hstep : scanPieces query file.id position (piece :: next :: pieces) state cache =
          ((SearchState.appendSegment query file.id piece position state cache).1.completeLine >>= fun done =>
            scanPieces query file.id (position + piece.length + 1) (next :: pieces) done.2
              (SearchState.appendSegment query file.id piece position state cache).2 >>= fun more =>
                .ok (done.1 ++ more.1, more.2)) := rfl
      rw [hstep, ha, completeLine_spec hpiece.line]
      show _ = (lineResult query (pushPiece line (file.cells position piece)) >>= fun results =>
        outcome query (blockLines [] (file.pieces (position + piece.length + 1)
          (next :: pieces))).1 >>= fun rest => .ok (results ++ rest)).map _
      rcases lineResult query (pushPiece line (file.cells position piece)) with e | results
      · rfl
      show (scanPieces query file.id (position + piece.length + 1) (next :: pieces)
        state₁.clearLine cache₁ >>= _) = _
      rw [heq]
      rcases outcome query (blockLines [] (file.pieces (position + piece.length + 1)
          (next :: pieces))).1 with e | more <;> rfl

/-- The pieces of a block and the newlines between them make up the block. -/
theorem sum_linePieces (chunk : Bytes) :
    ((linePieces chunk).map (·.length + 1)).sum = chunk.length + 1 := by
  induction chunk with
  | nil => rfl
  | cons b rest ih =>
    unfold linePieces
    split
    next => rw [List.map_cons, List.sum_cons, ih, List.length_nil, List.length_cons]; omega
    next =>
      split
      next hnil =>
        rw [hnil] at ih
        cases ih
      next piece pieces hcons =>
        rw [hcons, List.map_cons, List.sum_cons] at ih
        rw [List.map_cons, List.sum_cons, List.length_cons, List.length_cons]
        omega

/-- Scanning the blocks of a file completes the lines of the file. -/
theorem scanChunks_spec {query : Query} {file : LogFile} {line : Line} {bound stop : Nat}
    {before state : SearchState} {cache : OriginCache} {chunks : List Bytes} {position : Nat}
    (h : Scanning query file line bound before state cache) (hb : bound ≤ position)
    (hstop : position + chunks.flatten.length = stop) :
    ∃ state' cache', Scanning query file (file.lines line position chunks).2 stop before state'
        cache' ∧
      scanChunks query file.id position chunks state cache =
        (outcome query (file.lines line position chunks).1).map
          fun results => (results, state', cache') := by
  induction chunks generalizing line bound state cache position with
  | nil =>
    rw [List.flatten_nil, List.length_nil] at hstop
    exact ⟨state, cache, ⟨h.line, h.cache.mono (by omega), h.previousIdentity,
      h.previousSequence⟩, rfl⟩
  | cons chunk chunks ih =>
    rw [List.flatten_cons, List.length_append] at hstop
    obtain ⟨state₁, cache₁, hblock, heq₁⟩ := scanPieces_spec h hb
      (show bound ≤ position + chunk.length by omega)
      (show position + ((linePieces chunk).map (·.length + 1)).sum ≤ position + chunk.length + 1 by
        rw [sum_linePieces]; omega)
    obtain ⟨state', cache', hscan, heq⟩ := ih hblock (Nat.le_refl _) (by omega)
    refine ⟨state', cache', hscan, ?_⟩
    have hstep : scanChunks query file.id position (chunk :: chunks) state cache =
        (scanPieces query file.id position (linePieces chunk) state cache >>= fun done =>
          scanChunks query file.id (position + chunk.length) chunks done.2.1 done.2.2 >>=
            fun more => .ok (done.1 ++ more.1, more.2)) := rfl
    rw [hstep, heq₁]
    show _ = (outcome query ((blockLines line (file.pieces position (linePieces chunk))).1 ++
      (file.lines (blockLines line (file.pieces position (linePieces chunk))).2
        (position + chunk.length) chunks).1)).map _
    rw [outcome_append]
    rcases outcome query (blockLines line (file.pieces position (linePieces chunk))).1 with
      e | results
    · rfl
    show (scanChunks query file.id (position + chunk.length) chunks state₁ cache₁ >>= _) = _
    rw [heq]
    rcases outcome query (file.lines (blockLines line (file.pieces position
      (linePieces chunk))).2 (position + chunk.length) chunks).1 with e | more <;> rfl

/-- The matcher between two files: it represents the open line and remembers the
file scanned last. -/
structure Between (query : Query) (line : Line) (previous : Option LogFile)
    (state : SearchState) : Prop where
  line : Represents query line state
  previousIdentity : state.previousIdentity = previous.map (·.identity)
  previousSequence : state.previousSequence = previous.bind (·.lastSequence)

/-- Scanning the blocks of a file from its start. -/
theorem scanBlocks_spec {query : Query} {line : Line} {state : SearchState}
    (h : Represents query line state) (file : LogFile) :
    ∃ state', Between query (file.lines line 0 file.chunks).2 (some file) state' ∧
      scanBlocks query file state =
        (outcome query (file.lines line 0 file.chunks).1).map fun results => (results, state') := by
  obtain ⟨state', cache', hscan, heq⟩ := scanChunks_spec
    ⟨h, cacheOk_start file.index, rfl, rfl⟩ (Nat.le_refl 0)
    (show 0 + file.chunks.flatten.length = file.content.length from Nat.zero_add _)
  refine ⟨{ state' with
      previousIdentity := some file.identity
      previousSequence := endSequence file.content.length cache'.cursor }, ?_, ?_⟩
  · refine ⟨?_, rfl, ?_⟩
    · exact ⟨hscan.line.tail, hscan.line.origins, hscan.line.line, hscan.line.lineBytes,
        hscan.line.lineOverflow, hscan.line.lineOrigin, hscan.line.hit⟩
    · show endSequence file.content.length cache'.cursor = file.lastSequence
      exact endSequence_spec hscan.cache.cursor
  · unfold scanBlocks
    dsimp only
    rw [heq]
    rcases outcome query (file.lines line 0 file.chunks).1 with e | results <;> rfl

theorem continues_spec {query : Query} {line : Line} {previous : Option LogFile}
    {state : SearchState} (h : Between query line previous state) (file : LogFile) :
    state.continues file = file.continues previous := by
  unfold SearchState.continues
  rw [h.previousIdentity, h.previousSequence]
  rfl

/-- Scanning a file completes the open line, if the file does not go on with it, and
then the lines of the file. -/
theorem scan_spec {query : Query} {line : Line} {previous : Option LogFile} {state : SearchState}
    (h : Between query line previous state) (file : LogFile) :
    ∃ state', Between query (file.linesAfter previous line).2 (some file) state' ∧
      scan query file state =
        (outcome query (file.linesAfter previous line).1).map fun results => (results, state') := by
  unfold scan LogFile.linesAfter
  rw [continues_spec h file]
  by_cases hcont : file.continues previous = true
  · rw [if_pos hcont, if_pos hcont]
    obtain ⟨state', hbetween, heq⟩ := scanBlocks_spec h.line file
    refine ⟨state', hbetween, ?_⟩
    show (scanBlocks query file state >>= fun done => .ok ([] ++ done.1, done.2)) = _
    rw [heq]
    rcases outcome query (file.lines line 0 file.chunks).1 with e | results <;> rfl
  · rw [if_neg hcont, if_neg hcont]
    obtain ⟨state', hbetween, heq⟩ :=
      scanBlocks_spec (represents_clearLine query state) file
    refine ⟨state', hbetween, ?_⟩
    show (state.completeLine >>= fun done => scanBlocks query file done.2 >>= fun more =>
      .ok (done.1 ++ more.1, more.2)) =
      (lineResult query line >>= fun results => outcome query (file.lines [] 0 file.chunks).1 >>=
        fun rest => .ok (results ++ rest)).map _
    rw [completeLine_spec h.line]
    rcases lineResult query line with e | results
    · rfl
    show (scanBlocks query file state.clearLine >>= fun more => .ok (results ++ more.1, more.2)) = _
    rw [heq]
    rcases outcome query (file.lines [] 0 file.chunks).1 with e | more <;> rfl

/-- Scanning files and completing the last line gives the results of the lines. -/
theorem scanFiles_spec {query : Query} {line : Line} {previous : Option LogFile}
    {state : SearchState} {files : List LogFile} (h : Between query line previous state) :
    (scanFiles query files state >>= fun done => done.2.completeLine >>= fun last =>
        .ok (done.1 ++ last.1)) = outcome query (searchLines previous line files) := by
  induction files generalizing line previous state with
  | nil =>
    show (state.completeLine >>= fun last => .ok ([] ++ last.1)) =
      (lineResult query line >>= fun results => outcome query [] >>= fun rest =>
        .ok (results ++ rest))
    rw [completeLine_spec h.line]
    rcases lineResult query line with e | results
    · rfl
    · show Except.ok ([] ++ results) = Except.ok (results ++ [])
      rw [List.append_nil, List.nil_append]
  | cons file files ih =>
    obtain ⟨state', hbetween, heq⟩ := scan_spec h file
    have hfiles : scanFiles query (file :: files) state = (scan query file state >>= fun scanned =>
        scanFiles query files scanned.2 >>= fun done => .ok (scanned.1 ++ done.1, done.2)) := rfl
    unfold searchLines
    rw [outcome_append, ← ih hbetween, hfiles, heq]
    rcases outcome query (file.linesAfter previous line).1 with e | results
    · rfl
    show ((scanFiles query files state' >>= fun done => .ok (results ++ done.1, done.2)) >>= _) =
      ((scanFiles query files state' >>= _) >>= _)
    rcases scanFiles query files state' with e | ⟨done, state₂⟩
    · rfl
    show (state₂.completeLine >>= _) = ((state₂.completeLine >>= _) >>= _)
    rcases state₂.completeLine with e | ⟨last, -⟩
    · rfl
    · show Except.ok (results ++ done ++ last) = Except.ok (results ++ (done ++ last))
      rw [List.append_assoc]

/-- **A search is the results of its lines.** -/
theorem search_eq_outcome (query : Query) (files : List LogFile) :
    search query files = outcome query (searchLines none [] files) :=
  scanFiles_spec ⟨represents_clearLine query SearchState.initial, rfl, rfl⟩

end CameraLogs.Logs

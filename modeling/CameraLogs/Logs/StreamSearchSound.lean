import CameraLogs.Lib.Generator
import CameraLogs.Logs.SearchComplete
import CameraLogs.Logs.Utf8Valid

/-!
# What a search reports is there

A search is a generator: a result is reported when its line is complete, and stays reported when
a later line that is too long makes the search fail. `yieldSearch` is that search, the lines are
those of the matcher, and each of them reports for itself (`yieldSearch_eq`).

A reported line is one of the stream that continuous files make up. Files that do not go on where
the last one ended begin a stream of their own (`continuousRuns`).
-/

namespace CameraLogs.Logs

open Lib

/-! ## The search as a generator -/

abbrev Yielding := Generated SearchResult SearchError

/-- `_complete_line` -/
def SearchState.yieldLine (state : SearchState) : Yielding SearchState :=
  .ofExcept state.completeLine

/-- One read block, by its pieces. -/
def yieldPieces (query : Query) (fileId : String) :
    Nat → List Bytes → SearchState → OriginCache → Yielding (SearchState × OriginCache)
  | _, [], state, cache => pure (state, cache)
  | offset, [piece], state, cache =>
    pure (SearchState.appendSegment query fileId piece offset state cache)
  | offset, piece :: next :: pieces, state, cache => do
    let (state, cache) := SearchState.appendSegment query fileId piece offset state cache
    let state ← state.yieldLine
    yieldPieces query fileId (offset + piece.length + 1) (next :: pieces) state cache

def yieldChunks (query : Query) (fileId : String) :
    Nat → List Bytes → SearchState → OriginCache → Yielding (SearchState × OriginCache)
  | _, [], state, cache => pure (state, cache)
  | offset, chunk :: chunks, state, cache => do
    let (state, cache) ← yieldPieces query fileId offset (linePieces chunk) state cache
    yieldChunks query fileId (offset + chunk.length) chunks state cache

def yieldBlocks (query : Query) (file : LogFile) (state : SearchState) : Yielding SearchState := do
  let cache : OriginCache := { cursor := IndexCursor.start file.index, cached := none }
  let (state, cache) ← yieldChunks query file.id 0 file.chunks state cache
  return { state with
    previousIdentity := some file.identity
    previousSequence := endSequence file.content.length cache.cursor }

/-- `scan` -/
def yieldScan (query : Query) (file : LogFile) (state : SearchState) : Yielding SearchState :=
  (if state.continues file then pure state else state.yieldLine) >>= yieldBlocks query file

def yieldFiles (query : Query) : List LogFile → SearchState → Yielding SearchState
  | [], state => pure state
  | file :: files, state => do
    let state ← yieldScan query file state
    yieldFiles query files state

/-- Scan the files, then `finish`. -/
def yieldSearch (query : Query) (files : List LogFile) : Yielding SearchState := do
  let state ← yieldFiles query files SearchState.initial
  state.yieldLine

/-! ## Each line reports for itself -/

/-- What a line reports. -/
def lineReport (query : Query) (line : Line) : Yielding PUnit :=
  .ofExcept ((lineResult query line).map fun results => (results, ⟨⟩))

def reports (query : Query) (lines : List Line) : Yielding PUnit := lines.forM (lineReport query)

theorem reports_cons (query : Query) (line : Line) (lines : List Line) :
    reports query (line :: lines) = lineReport query line >>= fun _ => reports query lines := rfl

theorem reports_append (query : Query) (lines more : List Line) :
    reports query (lines ++ more) = reports query lines >>= fun _ => reports query more := by
  induction lines with
  | nil =>
    show reports query more = (pure PUnit.unit : Yielding PUnit) >>= fun _ => reports query more
    rw [pure_bind]
  | cons line lines ih => rw [List.cons_append, reports_cons, ih, reports_cons, bind_assoc]

theorem yieldLine_spec {query : Query} {line : Line} {state : SearchState}
    (h : Represents query line state) :
    state.yieldLine = lineReport query line >>= fun _ => pure state.clearLine := by
  unfold SearchState.yieldLine lineReport
  rw [completeLine_spec h]
  cases lineResult query line with
  | error e => rfl
  | ok results =>
    show (⟨results, .ok state.clearLine⟩ : Yielding SearchState) = ⟨results ++ [], _⟩
    rw [List.append_nil]
    rfl

theorem yieldPieces_spec {query : Query} {file : LogFile} {line : Line} {bound stop : Nat}
    {before state : SearchState} {cache : OriginCache} {pieces : List Bytes} {position : Nat}
    (h : Scanning query file line bound before state cache) (hb : bound ≤ position)
    (hb' : bound ≤ stop)
    (hstop : position + (pieces.map (·.length + 1)).sum ≤ stop + 1) :
    ∃ state' cache', Scanning query file (blockLines line (file.pieces position pieces)).2 stop
        before state' cache' ∧
      yieldPieces query file.id position pieces state cache =
        reports query (blockLines line (file.pieces position pieces)).1 >>=
          fun _ => pure (state', cache') := by
  induction pieces generalizing line bound state cache position with
  | nil =>
    exact ⟨state, cache, ⟨h.line, h.cache.mono hb', h.previousIdentity, h.previousSequence⟩, rfl⟩
  | cons piece rest ih =>
    rw [List.map_cons, List.sum_cons] at hstop
    cases rest with
    | nil =>
      refine ⟨_, _, appendSegment_scanning h hb ?_, rfl⟩
      simp only [List.map_nil, List.sum_nil] at hstop
      omega
    | cons next pieces =>
      have hpiece := appendSegment_scanning h hb (Nat.le_refl (position + piece.length))
      have hcleared : Scanning query file [] (position + piece.length) before
          (SearchState.appendSegment query file.id piece position state cache).1.clearLine
          (SearchState.appendSegment query file.id piece position state cache).2 :=
        ⟨represents_clearLine query _, hpiece.cache, hpiece.previousIdentity,
          hpiece.previousSequence⟩
      have hpos : position + piece.length ≤ stop := by
        rw [List.map_cons, List.sum_cons] at hstop
        omega
      obtain ⟨state', cache', hscan, heq⟩ := ih hcleared
        (show position + piece.length ≤ position + piece.length + 1 by omega) hpos (by omega)
      refine ⟨state', cache', hscan, ?_⟩
      have hstep : yieldPieces query file.id position (piece :: next :: pieces) state cache =
          (SearchState.appendSegment query file.id piece position state cache).1.yieldLine >>=
            fun done => yieldPieces query file.id (position + piece.length + 1) (next :: pieces) done
              (SearchState.appendSegment query file.id piece position state cache).2 := rfl
      have hlines : (blockLines line (file.pieces position (piece :: next :: pieces))).1 =
          pushPiece line (file.cells position piece) :: (blockLines [] (file.pieces
            (position + piece.length + 1) (next :: pieces))).1 := rfl
      rw [hstep, hlines]
      rw [yieldLine_spec hpiece.line, bind_assoc, reports_cons, bind_assoc]
      refine congrArg (lineReport query _ >>= ·) (funext fun _ => ?_)
      rw [pure_bind, heq]

theorem yieldChunks_spec {query : Query} {file : LogFile} {line : Line} {bound stop : Nat}
    {before state : SearchState} {cache : OriginCache} {chunks : List Bytes} {position : Nat}
    (h : Scanning query file line bound before state cache) (hb : bound ≤ position)
    (hstop : position + chunks.flatten.length = stop) :
    ∃ state' cache', Scanning query file (file.lines line position chunks).2 stop before state'
        cache' ∧
      yieldChunks query file.id position chunks state cache =
        reports query (file.lines line position chunks).1 >>= fun _ => pure (state', cache') := by
  induction chunks generalizing line bound state cache position with
  | nil =>
    rw [List.flatten_nil, List.length_nil] at hstop
    exact ⟨state, cache, ⟨h.line, h.cache.mono (by omega), h.previousIdentity,
      h.previousSequence⟩, rfl⟩
  | cons chunk chunks ih =>
    rw [List.flatten_cons, List.length_append] at hstop
    obtain ⟨state₁, cache₁, hblock, heq₁⟩ := yieldPieces_spec h hb
      (show bound ≤ position + chunk.length by omega)
      (show position + ((linePieces chunk).map (·.length + 1)).sum ≤ position + chunk.length + 1 by
        rw [sum_linePieces]; omega)
    obtain ⟨state', cache', hscan, heq⟩ := ih hblock (Nat.le_refl _) (by omega)
    refine ⟨state', cache', hscan, ?_⟩
    show (yieldPieces query file.id position (linePieces chunk) state cache >>= fun done =>
      yieldChunks query file.id (position + chunk.length) chunks done.1 done.2) =
      (reports query ((blockLines line (file.pieces position (linePieces chunk))).1 ++
        (file.lines (blockLines line (file.pieces position (linePieces chunk))).2
          (position + chunk.length) chunks).1) >>= _)
    rw [heq₁, reports_append, bind_assoc, bind_assoc]
    refine congrArg (reports query _ >>= ·) (funext fun _ => ?_)
    rw [pure_bind, heq]

theorem yieldBlocks_spec {query : Query} {line : Line} {state : SearchState}
    (h : Represents query line state) (file : LogFile) :
    ∃ state', Between query (file.lines line 0 file.chunks).2 (some file) state' ∧
      yieldBlocks query file state =
        reports query (file.lines line 0 file.chunks).1 >>= fun _ => pure state' := by
  obtain ⟨state', cache', hscan, heq⟩ := yieldChunks_spec
    ⟨h, cacheOk_start file.index, rfl, rfl⟩ (Nat.le_refl 0)
    (show 0 + file.chunks.flatten.length = file.content.length from Nat.zero_add _)
  refine ⟨{ state' with
      previousIdentity := some file.identity
      previousSequence := endSequence file.content.length cache'.cursor }, ?_, ?_⟩
  · refine ⟨?_, rfl, ?_⟩
    · exact { hscan.line with }
    · show endSequence file.content.length cache'.cursor = file.lastSequence
      exact endSequence_spec hscan.cache.cursor
  · unfold yieldBlocks
    dsimp only
    rw [heq, bind_assoc]
    refine congrArg (reports query _ >>= ·) (funext fun _ => ?_)
    rw [pure_bind]

theorem yieldScan_spec {query : Query} {line : Line} {previous : Option LogFile}
    {state : SearchState} (h : Between query line previous state) (file : LogFile) :
    ∃ state', Between query (file.linesAfter previous line).2 (some file) state' ∧
      yieldScan query file state =
        reports query (file.linesAfter previous line).1 >>= fun _ => pure state' := by
  unfold yieldScan LogFile.linesAfter
  rw [continues_spec h file]
  by_cases hcont : file.continues previous = true
  · rw [if_pos hcont, if_pos hcont, pure_bind]
    exact yieldBlocks_spec h.line file
  · rw [if_neg hcont, if_neg hcont]
    obtain ⟨state', hbetween, heq⟩ := yieldBlocks_spec (represents_clearLine query state) file
    refine ⟨state', hbetween, ?_⟩
    rw [yieldLine_spec h.line, bind_assoc, reports_cons, bind_assoc]
    refine congrArg (lineReport query _ >>= ·) (funext fun _ => ?_)
    rw [pure_bind, heq]

theorem yieldFiles_spec {query : Query} {line : Line} {previous : Option LogFile}
    {state : SearchState} {files : List LogFile} (h : Between query line previous state) :
    ∃ state', (yieldFiles query files state >>= SearchState.yieldLine) =
      reports query (searchLines previous line files) >>= fun _ => pure state' := by
  induction files generalizing line previous state with
  | nil =>
    refine ⟨state.clearLine, ?_⟩
    have hone : reports query (searchLines previous line []) =
        lineReport query line >>= fun _ => (pure PUnit.unit : Yielding PUnit) := rfl
    rw [hone, bind_assoc]
    show (pure state >>= SearchState.yieldLine) = _
    rw [pure_bind, yieldLine_spec h.line]
    refine congrArg (lineReport query _ >>= ·) (funext fun _ => ?_)
    rw [pure_bind]
  | cons file files ih =>
    obtain ⟨state', hbetween, heq⟩ := yieldScan_spec h file
    obtain ⟨last, hlast⟩ := ih hbetween
    refine ⟨last, ?_⟩
    unfold yieldFiles searchLines
    rw [heq, reports_append, bind_assoc, bind_assoc, bind_assoc]
    refine congrArg (reports query _ >>= ·) (funext fun _ => ?_)
    rw [pure_bind, hlast]

/-- **A search is the reports of its lines.** -/
theorem yieldSearch_eq (query : Query) (files : List LogFile) : ∃ state,
    yieldSearch query files = reports query (searchLines none [] files) >>= fun _ => pure state :=
  yieldFiles_spec ⟨represents_clearLine query SearchState.initial, rfl, rfl⟩

/-! ## The streams that the files make up -/

/-- The files from one on: those that go on with it, and the streams that begin later. -/
def splitRuns : LogFile → List LogFile → List LogFile × List (List LogFile)
  | file, [] => ([file], [])
  | file, next :: files =>
    let (run, runs) := splitRuns next files
    if next.continues (some file) then (file :: run, runs) else ([file], run :: runs)

def continuousRuns : List LogFile → List (List LogFile)
  | [] => []
  | file :: files => (splitRuns file files).1 :: (splitRuns file files).2

theorem splitRuns_cons {file next : LogFile} {files : List LogFile} :
    splitRuns file (next :: files) =
      if next.continues (some file) then (file :: (splitRuns next files).1, (splitRuns next files).2)
      else ([file], (splitRuns next files).1 :: (splitRuns next files).2) := rfl

/-- The first stream begins with the first file. -/
theorem splitRuns_head (file : LogFile) (files : List LogFile) :
    (splitRuns file files).1 = file :: (splitRuns file files).1.tail := by
  cases files with
  | nil => rfl
  | cons next files =>
    rw [splitRuns_cons]
    split <;> rfl

theorem streamCells_cons (file : LogFile) (files : List LogFile) :
    streamCells (file :: files) = file.cells 0 file.content ++ streamCells files := rfl

/-- The lines from an open line on are those of the rest of its stream and of the streams
behind it. -/
theorem searchLines_runs (file : LogFile) (line : Line) (files : List LogFile) :
    (searchLines (some file) line files).map List.flatten =
      linesFrom line.flatten (streamCells (splitRuns file files).1.tail) ++
        (splitRuns file files).2.flatMap streamLines := by
  induction files generalizing file line with
  | nil => rfl
  | cons next files ih =>
    unfold searchLines LogFile.linesAfter
    rw [splitRuns_cons]
    by_cases hcont : next.continues (some file) = true
    · rw [if_pos hcont, if_pos hcont, List.map_append, ih, List.tail_cons, splitRuns_head next files,
        streamCells_cons, linesFrom_append, List.tail_cons]
      show _ = (splitLines line.flatten (next.cells 0 next.chunks.flatten)).1 ++
        linesFrom (splitLines line.flatten (next.cells 0 next.chunks.flatten)).2 _ ++ _
      rw [← uncut_lines next, List.append_assoc]
      rfl
    · rw [if_neg hcont, if_neg hcont, List.map_append, ih, List.flatMap_cons]
      unfold streamLines
      rw [splitRuns_head next files, streamCells_cons, linesFrom_append, List.tail_cons]
      show _ = [line.flatten] ++ ((splitLines (List.flatten []) (next.cells 0 next.chunks.flatten)).1 ++
        linesFrom (splitLines (List.flatten []) (next.cells 0 next.chunks.flatten)).2 _ ++ _)
      rw [← uncut_lines next, List.append_assoc]
      rfl

/-- **The lines of a search are those of the streams**, behind an empty one. -/
theorem searchLines_eq (files : List LogFile) :
    (searchLines none [] files).map List.flatten =
      [] :: (continuousRuns files).flatMap streamLines := by
  cases files with
  | nil => rfl
  | cons file files =>
    have hfirst : ¬ file.continues none = true := by
      unfold LogFile.continues
      simp
    unfold searchLines LogFile.linesAfter continuousRuns
    rw [if_neg hfirst, List.map_append, searchLines_runs, List.flatMap_cons]
    unfold streamLines
    rw [splitRuns_head file files, streamCells_cons, linesFrom_append, List.tail_cons]
    show _ = [] :: ((splitLines (List.flatten []) (file.cells 0 file.chunks.flatten)).1 ++
      linesFrom (splitLines (List.flatten []) (file.cells 0 file.chunks.flatten)).2 _ ++ _)
    rw [← uncut_lines file, List.append_assoc]
    rfl

/-! ## What is reported -/

/-- A line of a stream, between what is before it and behind it. -/
structure LineOf (stream before line after : List Cell) : Prop where
  split : stream = before ++ line ++ after
  noNewline : ∀ cell ∈ line, cell.1 ≠ newline
  opens : before = [] ∨ ∃ cells cell, before = cells ++ [cell] ∧ cell.1 = newline
  closes : after = [] ∨ ∃ cell cells, after = cell :: cells ∧ cell.1 = newline

theorem lineOf_linesFrom {line cells l : List Cell} (hline : ∀ cell ∈ line, cell.1 ≠ newline)
    (h : l ∈ linesFrom line cells) : ∃ before after, LineOf (line ++ cells) before l after := by
  induction cells generalizing line with
  | nil =>
    have hl : l = line := List.mem_singleton.mp h
    rw [hl]
    exact ⟨[], [], by simp, hline, Or.inl rfl, Or.inl rfl⟩
  | cons cell cells ih =>
    by_cases hcell : cell.1 = newline
    · unfold linesFrom at h
      rw [splitLines_of_newline hcell] at h
      obtain rfl | h := List.mem_cons.mp h
      · exact ⟨[], cell :: cells, by simp, hline, Or.inl rfl, Or.inr ⟨cell, cells, rfl, hcell⟩⟩
      · obtain ⟨before, after, hof⟩ := ih (fun _ hc => absurd hc List.not_mem_nil) h
        refine ⟨line ++ cell :: before, after, ?_, hof.noNewline, Or.inr ?_, hof.closes⟩
        · rw [← List.nil_append cells, hof.split]
          simp
        · rcases hof.opens with rfl | ⟨front, last, rfl, hlast⟩
          · exact ⟨line, cell, rfl, hcell⟩
          · exact ⟨line ++ cell :: front, last, by simp, hlast⟩
    · unfold linesFrom at h
      rw [splitLines_of_ne hcell] at h
      obtain ⟨before, after, hof⟩ := ih (fun c hc => by
        obtain hc | hc := List.mem_append.mp hc
        · exact hline c hc
        · exact List.mem_singleton.mp hc ▸ hcell) h
      refine ⟨before, after, ?_, hof.noNewline, hof.opens, hof.closes⟩
      rw [← hof.split, List.append_assoc]
      rfl

/-- The bytes of a line without a carriage return at its end. -/
def streamPayload (line : List Cell) : Bytes :=
  if (bytesOf line).getLast? = some 13 then (bytesOf line).dropLast else bytesOf line

/-- A result says what there is: its offset is that of the first byte of an occurrence that
counts, in a line of a stream of continuous files; the start of its line is that of the line; and
its text is the text of the whole line, which is not too long. -/
structure Genuine (query : Query) (result : SearchResult) (stream before line after : List Cell)
    (i : Nat) : Prop where
  ofStream : LineOf stream before line after
  occurs : OccursAt query.needle (bytesOf stream) (before.length + i)
  inside : i + query.needle.length ≤ line.length
  accepted : query.acceptsAt line i = true
  offset : stream[before.length + i]?.map Cell.place = some (result.fileId, result.offset)
  lineStart : stream[before.length]?.map Cell.place =
    some (result.lineStartFileId, result.lineStartOffset)
  text : result.text = (decodeReplace (streamPayload line).length (streamPayload line)).1
  whole : line.length ≤ maxResultTextBytes
  /-- The text is flagged exactly when the line is not UTF-8, and else is what it is written as. -/
  flagged : result.encodingError = false ↔ ∃ chars, streamPayload line = encode chars
  unflagged : result.encodingError = false → streamPayload line = encode result.text

theorem getElem?_place {cells : List Cell} {i : Nat} (hi : i < cells.length) :
    cells[i]?.map Cell.place = some ((originIn cells i).fileId, (originIn cells i).position) := by
  rw [List.getElem?_eq_getElem hi, originIn_eq_getElem hi]
  rfl

theorem genuine_resultOf {query : Query} {stream before line after : List Cell} {i : Nat}
    (hof : LineOf stream before line after) (hocc : OccursAt query.needle (bytesOf line) i)
    (hacc : query.acceptsAt line i = true) (hwhole : line.length ≤ maxResultTextBytes) :
    Genuine query (resultOf line i) stream before line after i := by
  have hinside := hocc.le_length query.needle_ne_nil
  rw [length_bytesOf] at hinside
  have hpos : 0 < query.needle.length := List.length_pos_iff.mpr query.needle_ne_nil
  have hat : ∀ j, j < line.length → stream[before.length + j]?.map Cell.place =
      some ((originIn line j).fileId, (originIn line j).position) := by
    intro j hj
    rw [hof.split, List.append_assoc, List.getElem?_append_right (Nat.le_add_right _ _),
      Nat.add_sub_cancel_left, List.getElem?_append_left hj]
    exact getElem?_place hj
  have hflag : (resultOf line i).encodingError =
      (decodeReplace (streamPayload line).length (streamPayload line)).2 := rfl
  refine ⟨hof, ?_, hinside, hacc, hat i (by omega), hat 0 (by omega), rfl, hwhole, ?_, ?_⟩
  · rw [hof.split, List.append_assoc, bytesOf_append, bytesOf_append]
    have hdrop : (bytesOf before ++ (bytesOf line ++ bytesOf after)).drop before.length =
        bytesOf line ++ bytesOf after := by
      rw [← length_bytesOf before, List.drop_left]
    rw [← occursAt_drop, hdrop]
    exact (occursAt_append_left (by rw [length_bytesOf]; exact hinside)).mpr hocc
  · rw [hflag]
    exact decodeReplace_eq_false_iff _
  · intro h
    exact decodeReplace_valid (Nat.le_refl _) (hflag ▸ h)

/-- The result of a line that has a hit. -/
def hitResult (query : Query) (line : Line) : Option SearchResult :=
  (lineHit query [] line).map (resultOf line.flatten)

/-- A line that has a hit and is too long to be reported. -/
def AboveResultLimit (query : Query) (line : Line) : Prop :=
  lineHit query [] line ≠ none ∧ maxResultTextBytes < line.flatten.length

theorem lineReport_ok {query : Query} {line : Line} (h : (lineReport query line).ended = .ok ⟨⟩) :
    (lineReport query line).yielded = (hitResult query line).toList ∧ ¬ AboveResultLimit query line := by
  unfold lineReport lineResult AboveResultLimit hitResult at *
  cases hhit : lineHit query [] line with
  | none => exact ⟨rfl, fun hlong => hlong.1 rfl⟩
  | some i =>
    simp only [hhit] at h ⊢
    by_cases hlong : maxResultTextBytes < line.flatten.length
    · rw [if_pos hlong] at h
      cases h
    · rw [if_neg hlong]
      exact ⟨rfl, fun hboth => hlong hboth.2⟩

theorem lineReport_error {query : Query} {line : Line} {error : SearchError}
    (h : (lineReport query line).ended = .error error) :
    (lineReport query line).yielded = [] ∧ AboveResultLimit query line ∧
      error = .valueError "命中日志行超过 262144 字节，无法完整保存" := by
  unfold lineReport lineResult AboveResultLimit at *
  cases hhit : lineHit query [] line with
  | none =>
    simp only [hhit] at h
    cases h
  | some i =>
    simp only [hhit] at h ⊢
    by_cases hlong : maxResultTextBytes < line.flatten.length
    · rw [if_pos hlong] at h ⊢
      cases h
      exact ⟨rfl, ⟨Option.some_ne_none _, hlong⟩, rfl⟩
    · rw [if_neg hlong] at h
      cases h

/-- Whatever files are searched, however they are cut into blocks, every result that is reported
is a genuine one. The lines are those of the streams of continuous files; they are reported in
order, each that has a hit with one result and each other with none, up to the first that has a
hit and is too long, which is an error; and without such a line there is none. -/
theorem stream_search_sound (query : Query) (files : List LogFile) :
    (∀ result ∈ (yieldSearch query files).yielded, ∃ run ∈ continuousRuns files,
      ∃ before line after i, Genuine query result (streamCells run) before line after i) ∧
    ((searchLines none [] files).map List.flatten =
      [] :: (continuousRuns files).flatMap streamLines) ∧
    ∃ done rest, searchLines none [] files = done ++ rest ∧
      (yieldSearch query files).yielded = done.filterMap (hitResult query) ∧
      (∀ line ∈ done, ¬ AboveResultLimit query line) ∧
      ((rest = [] ∧ ∃ state, (yieldSearch query files).ended = .ok state) ∨
        ∃ line more, rest = line :: more ∧ AboveResultLimit query line ∧
          (yieldSearch query files).ended =
            .error (.valueError "命中日志行超过 262144 字节，无法完整保存")) := by
  obtain ⟨state, hsearch⟩ := yieldSearch_eq query files
  obtain ⟨done, rest, hsplit, hdone, hend⟩ :=
    Generated.forM_ended (lineReport query) (searchLines none [] files)
  have hyielded : ∀ lines : List Line, (∀ line ∈ lines, (lineReport query line).ended = .ok ⟨⟩) →
      (lines.flatMap fun line => (lineReport query line).yielded) =
        lines.filterMap (hitResult query) := by
    intro lines hlines
    induction lines with
    | nil => rfl
    | cons line lines ih =>
      rw [List.flatMap_cons, (lineReport_ok (hlines line List.mem_cons_self)).1,
        ih fun l hl => hlines l (List.mem_cons_of_mem _ hl), List.filterMap_cons]
      cases hitResult query line <;> rfl
  have hends : (yieldSearch query files).yielded = done.filterMap (hitResult query) ∧
      ((rest = [] ∧ ∃ state, (yieldSearch query files).ended = .ok state) ∨
        ∃ line more, rest = line :: more ∧ AboveResultLimit query line ∧
          (yieldSearch query files).ended =
            .error (.valueError "命中日志行超过 262144 字节，无法完整保存")) := by
    rw [hsearch]
    unfold reports
    cases hall : (searchLines none [] files).forM (lineReport query) with
    | mk results ended =>
    rw [hall] at hend
    rcases hend with ⟨hrest, hended, hout⟩ | ⟨line, more, error, hrest, hline, hended, hout⟩
    · subst hended hout
      rw [hyielded done hdone, Generated.bind_ok]
      exact ⟨List.append_nil _, Or.inl ⟨hrest, state, rfl⟩⟩
    · subst hended hout
      obtain ⟨hnone, hlong, rfl⟩ := lineReport_error hline
      rw [hyielded done hdone, hnone, Generated.bind_error, List.append_nil]
      exact ⟨rfl, Or.inr ⟨line, more, hrest, hlong, rfl⟩⟩
  refine ⟨fun result hresult => ?_, searchLines_eq files, done, rest, hsplit, hends.1,
    fun line hline => (lineReport_ok (hdone line hline)).2, hends.2⟩
  rw [hends.1] at hresult
  obtain ⟨line, hline, hhit⟩ := List.mem_filterMap.mp hresult
  obtain ⟨i, hi, rfl⟩ := Option.map_eq_some_iff.mp hhit
  obtain ⟨hocc, hacc⟩ := lineHit_some hi
  rw [List.nil_append] at hocc hacc
  have hshort : line.flatten.length ≤ maxResultTextBytes := by
    by_contra hlong
    exact (lineReport_ok (hdone line hline)).2
      ⟨hi ▸ Option.some_ne_none i, Nat.lt_of_not_le hlong⟩
  have hmem : line.flatten ∈ [] :: (continuousRuns files).flatMap streamLines := by
    rw [← searchLines_eq, hsplit]
    exact List.mem_map_of_mem (List.mem_append_left _ hline)
  obtain hnil | hmem := List.mem_cons.mp hmem
  · -- an empty line has no hit
    have hlen := hocc.le_length query.needle_ne_nil
    have hpos : 0 < query.needle.length := List.length_pos_iff.mpr query.needle_ne_nil
    rw [hnil, length_bytesOf, List.length_nil] at hlen
    omega
  · obtain ⟨run, hrun, hin⟩ := List.mem_flatMap.mp hmem
    obtain ⟨before, after, hof⟩ := lineOf_linesFrom (fun _ h => absurd h List.not_mem_nil) hin
    exact ⟨run, hrun, before, line.flatten, after, i, genuine_resultOf hof hocc hacc hshort⟩

end CameraLogs.Logs

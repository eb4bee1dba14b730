import CameraLogs.Logs.SearchComplete
import CameraLogs.Logs.SearchPlanSound

/-!
# A planned search and a full one

The plan steps over files, and the matcher does not know: it compares the next file it
is given with the last one it saw. When two kept files of one session stand around
files of others, their block numbers may follow each other, and the matcher joins the
open line of the first with the head of the second, though the full search ends the
line in between (`bridgedLines`).

Otherwise nothing changes. A line with the keyword has all its files kept, and both
searches see it alike; the lines of the two differ only where the keyword does not
stand. So the planned search reports what the full one does, and besides it the bridged
lines that have a hit (`planned_search_eq_iff`).
-/

namespace CameraLogs.Logs

open Lib

/-- The line has a hit. -/
def Query.hits (query : Query) (line : Line) : Bool := (lineHit query [] line).isSome

/-- The lines of a planned search that go on over files left out: at every kept file
behind a gap that continues the last kept one, the line that is open there. -/
def bridgedLines (kept : LogFile → Bool) :
    Option LogFile → Line → Bool → List LogFile → List Line
  | _, _, _, [] => []
  | previous, line, gap, file :: files =>
    if kept file then
      (if gap && file.continues previous then
        (searchLines previous line ((file :: files).filter kept)).take 1 else []) ++
        bridgedLines kept (some file) (file.linesAfter previous line).2 false files
    else bridgedLines kept previous line true files

/-! ## The lines of one file, from any open line -/

theorem pushPiece_eq (line : Line) (piece : Cells) :
    pushPiece line piece = line ++ pushPiece [] piece := by
  unfold pushPiece
  split
  next => rw [List.append_nil]
  next => rfl

/-- The open line at the start of a block only stands in front of the first line. -/
theorem blockLines_shape (pieces : List Cells) :
    ∃ part, (∀ line, blockLines line pieces = ([], line ++ part)) ∨
      ∃ lines last, ∀ line, blockLines line pieces = ((line ++ part) :: lines, last) := by
  cases pieces with
  | nil => exact ⟨[], Or.inl fun line => by rw [List.append_nil]; rfl⟩
  | cons piece rest =>
    refine ⟨pushPiece [] piece, ?_⟩
    cases rest with
    | nil => exact Or.inl fun line => congrArg (([] : List Line), ·) (pushPiece_eq line piece)
    | cons next pieces =>
      refine Or.inr ⟨(blockLines [] (next :: pieces)).1, (blockLines [] (next :: pieces)).2, ?_⟩
      intro line
      rw [← pushPiece_eq]
      rfl

theorem lines_shape (file : LogFile) (chunks : List Bytes) (position : Nat) :
    ∃ part, (∀ line, file.lines line position chunks = ([], line ++ part)) ∨
      ∃ lines last, ∀ line, file.lines line position chunks = ((line ++ part) :: lines, last) := by
  induction chunks generalizing position with
  | nil => exact ⟨[], Or.inl fun line => by rw [List.append_nil]; rfl⟩
  | cons chunk chunks ih =>
    have hstep : ∀ line, file.lines line position (chunk :: chunks) =
        ((blockLines line (file.pieces position (linePieces chunk))).1 ++
          (file.lines (blockLines line (file.pieces position (linePieces chunk))).2
            (position + chunk.length) chunks).1,
          (file.lines (blockLines line (file.pieces position (linePieces chunk))).2
            (position + chunk.length) chunks).2) := fun _ => rfl
    obtain ⟨part, hpart | ⟨lines, last, hpart⟩⟩ :=
      blockLines_shape (file.pieces position (linePieces chunk))
    · obtain ⟨more, hmore | ⟨lines, last, hmore⟩⟩ := ih (position + chunk.length)
      · refine ⟨part ++ more, Or.inl ?_⟩
        intro line
        rw [hstep, hpart, hmore, List.append_assoc]
        rfl
      · refine ⟨part ++ more, Or.inr ⟨lines, last, ?_⟩⟩
        intro line
        rw [hstep, hpart, hmore, List.append_assoc]
        rfl
    · refine ⟨part, Or.inr ⟨lines ++ (file.lines last (position + chunk.length) chunks).1,
        (file.lines last (position + chunk.length) chunks).2, ?_⟩⟩
      intro line
      rw [hstep, hpart]
      rfl

theorem splitLines_none {line cells : List Cell} (h : (splitLines line cells).1 = []) :
    (splitLines line cells).2 = line ++ cells ∧ newline ∉ bytesOf cells := by
  induction cells generalizing line with
  | nil => exact ⟨(List.append_nil line).symm, List.not_mem_nil⟩
  | cons cell cells ih =>
    by_cases hcell : cell.1 = newline
    · rw [splitLines_of_newline hcell] at h
      cases h
    · rw [splitLines_of_ne hcell] at h ⊢
      obtain ⟨hlast, hno⟩ := ih h
      refine ⟨by rw [hlast, List.append_assoc]; rfl, ?_⟩
      intro hin
      rcases List.mem_cons.mp hin with hin | hin
      · exact hcell hin.symm
      · exact hno hin

/-- The first line completed is made of what comes before the first newline. -/
theorem splitLines_first {line cells l : List Cell} {lines : List (List Cell)}
    (h : (splitLines line cells).1 = l :: lines) :
    ∃ part rest, cells = part ++ rest ∧ l = line ++ part ∧ newline ∉ bytesOf part := by
  induction cells generalizing line with
  | nil => cases h
  | cons cell cells ih =>
    by_cases hcell : cell.1 = newline
    · rw [splitLines_of_newline hcell] at h
      cases h
      exact ⟨[], cell :: cells, rfl, (List.append_nil _).symm, List.not_mem_nil⟩
    · rw [splitLines_of_ne hcell] at h
      obtain ⟨part, rest, hcells, hl, hno⟩ := ih h
      refine ⟨cell :: part, rest, by rw [hcells]; rfl, by rw [hl, List.append_assoc]; rfl, ?_⟩
      intro hin
      rcases List.mem_cons.mp hin with hin | hin
      · exact hcell hin.symm
      · exact hno hin

theorem mem_splitLines {line cells l : List Cell} (h : l ∈ (splitLines line cells).1) :
    l <:+: line ++ cells := by
  induction cells generalizing line with
  | nil => exact absurd h List.not_mem_nil
  | cons cell cells ih =>
    by_cases hcell : cell.1 = newline
    · rw [splitLines_of_newline hcell] at h
      rcases List.mem_cons.mp h with h | h
      · rw [h]
        exact (List.prefix_append _ _).isInfix
      · have hrest : l <:+: [] ++ cells := ih h
        exact (hrest.trans (List.suffix_cons cell cells).isInfix).trans
          (List.suffix_append _ _).isInfix
    · rw [splitLines_of_ne hcell] at h
      have hrest := ih h
      rw [List.append_assoc] at hrest
      exact hrest

/-- The open line at the end is what comes behind the last newline. -/
theorem splitLines_last {line cells : List Cell} (hline : newline ∉ bytesOf line) :
    newline ∉ bytesOf (splitLines line cells).2 ∧ (splitLines line cells).2 <:+ line ++ cells := by
  induction cells generalizing line with
  | nil => exact ⟨hline, by rw [List.append_nil]; exact List.suffix_refl _⟩
  | cons cell cells ih =>
    by_cases hcell : cell.1 = newline
    · rw [splitLines_of_newline hcell]
      obtain ⟨hno, hsuffix⟩ := ih (show newline ∉ bytesOf [] from List.not_mem_nil)
      refine ⟨hno, (hsuffix.trans ?_).trans (List.suffix_append _ _)⟩
      exact List.suffix_cons cell cells
    · rw [splitLines_of_ne hcell]
      have hline' : newline ∉ bytesOf (line ++ [cell]) := by
        rw [bytesOf_append]
        intro hin
        rcases List.mem_append.mp hin with hin | hin
        · exact hline hin
        · exact hcell (List.mem_singleton.mp hin).symm
      obtain ⟨hno, hsuffix⟩ := ih hline'
      rw [List.append_assoc] at hsuffix
      exact ⟨hno, hsuffix⟩

theorem bytesOf_isInfix {xs ys : List Cell} (h : xs <:+: ys) : bytesOf xs <:+: bytesOf ys := h.map _

/-- A file without a newline goes into the open line as a whole. One with a newline ends
the open line; what it completes besides, and leaves open, lies within it. -/
theorem file_lines_cases (file : LogFile) : ∃ part : Line,
    ((∀ line, file.lines line 0 file.chunks = ([], line ++ part)) ∧
      newline ∉ bytesOf part.flatten ∧ bytesOf part.flatten = file.content) ∨
    ∃ lines last, (∀ line, file.lines line 0 file.chunks = ((line ++ part) :: lines, last)) ∧
      (newline ∉ bytesOf part.flatten ∧ bytesOf part.flatten <+: file.content) ∧
      (∀ l ∈ lines, bytesOf l.flatten <:+: file.content) ∧
      newline ∉ bytesOf last.flatten ∧ bytesOf last.flatten <:+ file.content := by
  have huncut : uncut (file.lines [] 0 file.chunks) = splitLines [] (file.cells 0 file.content) :=
    uncut_lines file
  have hbytes := bytesOf_cells file 0 file.content
  obtain ⟨part, hshape | ⟨lines, last, hshape⟩⟩ := lines_shape file file.chunks 0
  · have hfirst := congrArg Prod.fst huncut
    have hopen := congrArg Prod.snd huncut
    rw [hshape] at hfirst hopen
    obtain ⟨hlast, hno⟩ := splitLines_none hfirst.symm
    have hpart : part.flatten = file.cells 0 file.content := hopen.trans hlast
    rw [hbytes] at hno
    exact ⟨part, Or.inl ⟨hshape, by rw [hpart, hbytes]; exact hno, by rw [hpart, hbytes]⟩⟩
  · have hfirst := congrArg Prod.fst huncut
    have hopen := congrArg Prod.snd huncut
    rw [hshape] at hfirst hopen
    obtain ⟨cells, rest, hcells, hl, hno⟩ := splitLines_first hfirst.symm
    obtain ⟨hlast, hsuffix⟩ := @splitLines_last [] (file.cells 0 file.content) List.not_mem_nil
    have hpart : part.flatten = cells := hl
    refine ⟨part, Or.inr ⟨lines, last, hshape, ⟨?_, ?_⟩, ?_, ?_, ?_⟩⟩
    · rw [hpart]
      exact hno
    · rw [hpart, ← hbytes, hcells, bytesOf_append]
      exact List.prefix_append _ _
    · intro l hl'
      have hmem : l.flatten ∈ (splitLines [] (file.cells 0 file.content)).1 := by
        rw [← hfirst]
        exact List.mem_cons_of_mem _ (List.mem_map_of_mem hl')
      rw [← hbytes]
      exact bytesOf_isInfix (mem_splitLines hmem)
    · rw [← hopen] at hlast
      exact hlast
    · rw [← hopen] at hsuffix
      rw [← hbytes]
      exact hsuffix.map _

/-! ## Lines without the keyword -/

/-- The keyword does not stand in the line. -/
def Clear (query : Query) (line : Line) : Prop := ¬ query.needle <:+: bytesOf line.flatten

theorem Clear.hits {query : Query} {line : Line} (h : Clear query line) :
    query.hits line = false := by
  unfold Query.hits
  rcases hl : lineHit query [] line with _ | i
  · rfl
  · obtain ⟨hocc, -⟩ := lineHit_some hl
    exact absurd (hocc.isInfix.trans (List.drop_suffix _ _).isInfix) h

theorem Clear.of_infix {query : Query} {line part : Line} (h : Clear query line)
    (hpart : part <:+: line) : Clear query part := by
  intro hin
  obtain ⟨xs, ys, heq⟩ := hpart
  refine h (hin.trans (bytesOf_isInfix ⟨xs.flatten, ys.flatten, ?_⟩))
  rw [← heq, List.flatten_append, List.flatten_append]

/-- The line that is open now will not have the keyword when it is completed. -/
def ClearFirst (query : Query) (previous : Option LogFile) (line : Line)
    (files : List LogFile) : Prop :=
  ∀ first rest, searchLines previous line files = first :: rest → Clear query first

/-- The first line completed from here on: the open line, and what the next files add. -/
theorem searchLines_first (previous : Option LogFile) (line : Line) (files : List LogFile) :
    ∃ part rest, searchLines previous line files = (line ++ part) :: rest ∧
      newline ∉ bytesOf part.flatten ∧ bytesOf part.flatten <+: contentOf files := by
  induction files generalizing previous line with
  | nil => exact ⟨[], [], by rw [List.append_nil]; rfl, List.not_mem_nil, List.nil_prefix⟩
  | cons file files ih =>
    unfold searchLines LogFile.linesAfter
    rw [contentOf_cons]
    by_cases hcont : file.continues previous = true
    · rw [if_pos hcont]
      obtain ⟨part, ⟨hlines, hno, hbytes⟩ | ⟨lines, last, hlines, ⟨hno, hbytes⟩, -⟩⟩ :=
        file_lines_cases file
      · obtain ⟨more, rest, heq, hno', hpre⟩ := ih (some file) (line ++ part)
        rw [hlines]
        refine ⟨part ++ more, rest, by rw [heq, List.append_assoc]; rfl, ?_, ?_⟩
        · rw [List.flatten_append, bytesOf_append]
          intro hin
          rcases List.mem_append.mp hin with hin | hin
          · exact hno hin
          · exact hno' hin
        · rw [List.flatten_append, bytesOf_append, hbytes]
          exact (List.prefix_append_right_inj _).mpr hpre
      · rw [hlines]
        exact ⟨part, _, rfl, hno, hbytes.trans (List.prefix_append _ _)⟩
    · rw [if_neg hcont]
      exact ⟨[], _, by rw [List.append_nil]; rfl, List.not_mem_nil, List.nil_prefix⟩

section Simulation

variable {query : Query} {kept : LogFile → Bool} {files : List LogFile}

/-- What the open line is made of: it ends the bytes read so far. -/
structure OpenLine (before : List LogFile) (line : Line) : Prop where
  no_newline : newline ∉ bytesOf line.flatten
  suffix : bytesOf line.flatten <:+ contentOf before

/-- At the edge of a file left out, the open line does not get the keyword. -/
theorem clearFirst_of_skipped (hcov : CoversHits query.needle (kept · = true) files)
    {before after : List LogFile} (hfiles : files = before ++ after) {previous : Option LogFile}
    {line : Line} (hopen : OpenLine before line)
    (hskip : (∃ file, before.getLast? = some file ∧ kept file = false) ∨
      ∃ file, after.head? = some file ∧ kept file = false) :
    ClearFirst query previous line after := by
  intro first rest heq hin
  obtain ⟨part, rest', heq', hno, hpre⟩ := searchLines_first previous line after
  rw [heq'] at heq
  cases heq
  rw [List.flatten_append, bytesOf_append] at hin
  obtain ⟨hlast, hhead⟩ := hcov.edges hfiles hopen.no_newline hno hopen.suffix hpre hin
  rcases hskip with ⟨file, hfile, hkept⟩ | ⟨file, hfile, hkept⟩
  · rw [hlast file hfile] at hkept
    cases hkept
  · rw [hhead file hfile] at hkept
    cases hkept

theorem openLine_linesAfter {before : List LogFile} {line : Line} (hopen : OpenLine before line)
    (previous : Option LogFile) (file : LogFile) :
    OpenLine (before ++ [file]) (file.linesAfter previous line).2 := by
  have hcontent : contentOf (before ++ [file]) = contentOf before ++ file.content := by
    rw [contentOf_append, contentOf_cons]
    exact congrArg _ (List.append_nil _)
  unfold LogFile.linesAfter
  obtain ⟨part, ⟨hlines, hno, hbytes⟩ | ⟨lines, last, hlines, -, -, hno, hsuffix⟩⟩ :=
    file_lines_cases file
  · split
    · rw [hlines]
      refine ⟨?_, ?_⟩
      · rw [List.flatten_append, bytesOf_append]
        intro hin
        rcases List.mem_append.mp hin with hin | hin
        · exact hopen.no_newline hin
        · exact hno hin
      · rw [List.flatten_append, bytesOf_append, hbytes, hcontent]
        obtain ⟨outside, houtside⟩ := hopen.suffix
        exact ⟨outside, by rw [← List.append_assoc, houtside]⟩
    · rw [hlines, List.nil_append]
      exact ⟨hno, by rw [hbytes, hcontent]; exact List.suffix_append _ _⟩
  · have hwithin : OpenLine (before ++ [file]) last :=
      ⟨hno, by rw [hcontent]; exact hsuffix.trans (List.suffix_append _ _)⟩
    split <;> rw [hlines] <;> exact hwithin

/-- A file left out completes no line with the keyword. -/
theorem clear_of_skipped_file (hcov : CoversHits query.needle (kept · = true) files)
    {file : LogFile} (hfile : file ∈ files) (hkept : kept file = false) {line : Line}
    (hline : bytesOf line.flatten <:+: file.content) : Clear query line := by
  intro hin
  rw [hcov.inside file hfile (hin.trans hline)] at hkept
  cases hkept

theorem clear_linesAfter_of_skipped (hcov : CoversHits query.needle (kept · = true) files)
    {before after : List LogFile} {file : LogFile} (hfiles : files = before ++ file :: after)
    (hkept : kept file = false) {previous : Option LogFile} {line : Line}
    (hopen : OpenLine before line) : ∀ l ∈ (file.linesAfter previous line).1, Clear query l := by
  have hmem : file ∈ files := by
    rw [hfiles]
    exact List.mem_append_right _ List.mem_cons_self
  have hfirst : ClearFirst query previous line (file :: after) :=
    clearFirst_of_skipped hcov hfiles hopen (Or.inr ⟨file, rfl, hkept⟩)
  unfold ClearFirst searchLines at hfirst
  obtain ⟨part, ⟨hlines, -, hbytes⟩ | ⟨lines, last, hlines, ⟨-, hpre⟩, hinner, -⟩⟩ :=
    file_lines_cases file
  · unfold LogFile.linesAfter at hfirst ⊢
    split
    · rw [hlines]
      exact fun l hl => absurd hl List.not_mem_nil
    next hcont =>
      rw [if_neg hcont] at hfirst
      rw [hlines]
      intro l hl
      rw [List.mem_singleton.mp hl]
      exact hfirst _ _ rfl
  · unfold LogFile.linesAfter at hfirst ⊢
    split
    next hcont =>
      rw [if_pos hcont, hlines] at hfirst
      rw [hlines]
      intro l hl
      rcases List.mem_cons.mp hl with hl | hl
      · rw [hl]
        exact hfirst _ _ rfl
      · exact clear_of_skipped_file hcov hmem hkept (hinner l hl)
    next hcont =>
      rw [if_neg hcont] at hfirst
      rw [hlines]
      intro l hl
      rcases List.mem_cons.mp hl with hl | hl
      · rw [hl]
        exact hfirst _ _ rfl
      rcases List.mem_cons.mp hl with hl | hl
      · rw [hl, List.nil_append]
        exact clear_of_skipped_file hcov hmem hkept hpre.isInfix
      · exact clear_of_skipped_file hcov hmem hkept (hinner l hl)

/-! ## Comparing two lists of lines -/

/-- The planned lines have the hits of the full ones, and besides those of the bridged
lines. -/
structure Differ (query : Query) (full planned bridged : List Line) : Prop where
  sublist : (full.filter query.hits).Sublist (planned.filter query.hits)
  same_iff : planned.filter query.hits = full.filter query.hits ↔
    ∀ line ∈ bridged, query.hits line = false

theorem Differ.refl (lines : List Line) : Differ query lines lines [] :=
  ⟨List.Sublist.refl _, ⟨fun _ _ h => absurd h List.not_mem_nil, fun _ => rfl⟩⟩

theorem Differ.append {xs ys full planned bridged : List Line}
    (hsame : xs.filter query.hits = ys.filter query.hits) (h : Differ query full planned bridged) :
    Differ query (xs ++ full) (ys ++ planned) bridged := by
  refine ⟨?_, ?_⟩
  · rw [List.filter_append, List.filter_append, hsame]
    exact h.sublist.append_left _
  · rw [List.filter_append, List.filter_append, hsame, List.append_cancel_left_eq]
    exact h.same_iff

theorem Differ.append_left {full planned bridged : List Line} (lines : List Line)
    (h : Differ query full planned bridged) :
    Differ query (lines ++ full) (lines ++ planned) bridged := h.append rfl

theorem filter_hits_of_clear {lines : List Line} (h : ∀ line ∈ lines, Clear query line) :
    lines.filter query.hits = [] := by
  refine List.filter_eq_nil_iff.mpr ?_
  intro line hline
  rw [(h line hline).hits]
  exact Bool.false_ne_true

/-- Lines that neither search has a hit in. -/
theorem Differ.append_clear {xs ys full planned bridged : List Line}
    (hxs : ∀ line ∈ xs, Clear query line) (hys : ∀ line ∈ ys, Clear query line)
    (h : Differ query full planned bridged) :
    Differ query (xs ++ full) (ys ++ planned) bridged :=
  h.append (by rw [filter_hits_of_clear hxs, filter_hits_of_clear hys])

/-- A bridged line, where the full search has lines without a hit. -/
theorem Differ.bridge {xs full planned bridged : List Line} {line : Line}
    (hxs : ∀ l ∈ xs, Clear query l) (h : Differ query full planned bridged) :
    Differ query (xs ++ full) (line :: planned) (line :: bridged) := by
  rcases hline : query.hits line with _ | _
  · have hboth : xs.filter query.hits = [line].filter query.hits := by
      rw [filter_hits_of_clear hxs, List.filter_cons, hline]
      rfl
    have hsame := h.append hboth
    refine ⟨hsame.sublist, hsame.same_iff.trans ?_⟩
    rw [List.forall_mem_cons]
    exact (and_iff_right hline).symm
  · have hplanned : (line :: planned).filter query.hits = line :: planned.filter query.hits := by
      rw [List.filter_cons, hline]
      rfl
    have hfull : (xs ++ full).filter query.hits = full.filter query.hits := by
      rw [List.filter_append, filter_hits_of_clear hxs, List.nil_append]
    refine ⟨?_, ?_⟩
    · rw [hplanned, hfull]
      exact h.sublist.trans (List.sublist_cons_self _ _)
    · rw [hplanned, hfull]
      refine ⟨?_, ?_⟩
      · -- the planned search has a hit more
        intro heq
        have hlonger := congrArg List.length heq
        have hle := h.sublist.length_le
        rw [List.length_cons] at hlonger
        omega
      · intro hall
        rw [hall line List.mem_cons_self] at hline
        cases hline

theorem Differ.of_mem_iff {full planned bridged bridged' : List Line}
    (h : Differ query full planned bridged) (hmem : ∀ line, line ∈ bridged' ↔ line ∈ bridged) :
    Differ query full planned bridged' := by
  refine ⟨h.sublist, h.same_iff.trans ?_⟩
  exact forall_congr' fun line => imp_congr_left (hmem line).symm

/-- The first line of a planned search, where the full search has lines without a hit:
it has none either, unless it is a bridged line that is counted already. -/
theorem Differ.lead {xs full planned bridged : List Line} {line : Line} {recorded : Bool}
    (hxs : ∀ l ∈ xs, Clear query l) (hline : recorded = false → Clear query line)
    (h : Differ query full planned bridged) :
    Differ query (xs ++ full) (line :: planned) ((if recorded then [line] else []) ++ bridged) := by
  cases recorded with
  | true => exact h.bridge hxs
  | false =>
    have hboth : xs.filter query.hits = [line].filter query.hits := by
      rw [filter_hits_of_clear hxs, filter_hits_of_clear]
      intro l hl
      rw [List.mem_singleton.mp hl]
      exact hline rfl
    exact h.append hboth

/-! ## The two searches in lockstep -/

/-- How the planned search stands to the full one between two files. Either they agree;
or the line that is open in the full one does not get the keyword, and neither does the
one that is open in the planned one, unless it is a bridged line (`recorded`). With a
gap the last file was left out. -/
inductive Tracks (query : Query) (kept : LogFile → Bool) (before after : List LogFile) :
    Bool → Option LogFile → Line → Option LogFile → Line → Bool → Prop
  | same {previous : Option LogFile} {line : Line} :
      Tracks query kept before after false previous line previous line false
  | split {recorded : Bool} {previous : Option LogFile} {line line' : Line}
      (hclear : ClearFirst query previous line after)
      (hpart : recorded = false → ∃ front, line = front ++ line') :
      Tracks query kept before after recorded previous line previous line' false
  | skipped {recorded : Bool} {previous previous' : Option LogFile} {line line' : Line}
      (hclear : ClearFirst query previous line after)
      (hlast : ∃ file, before.getLast? = some file ∧ kept file = false)
      (hline : recorded = false → Clear query line') :
      Tracks query kept before after recorded previous line previous' line' true

/-- What a file does to an open line, by whether the file continues it. -/
theorem linesAfter_cases (file : LogFile) : ∃ part : Line,
    (newline ∉ bytesOf part.flatten ∧ bytesOf part.flatten <+: file.content) ∧
    ((bytesOf part.flatten = file.content ∧ ∀ previous line, file.linesAfter previous line =
        if file.continues previous then ([], line ++ part) else ([line], part)) ∨
      ∃ lines last, ∀ previous line, file.linesAfter previous line =
        if file.continues previous then ((line ++ part) :: lines, last)
        else (line :: part :: lines, last)) := by
  obtain ⟨part, ⟨hlines, hno, hbytes⟩ | ⟨lines, last, hlines, hpart, -⟩⟩ := file_lines_cases file
  · refine ⟨part, ⟨hno, hbytes ▸ List.prefix_refl _⟩, Or.inl ⟨hbytes, ?_⟩⟩
    intro previous line
    unfold LogFile.linesAfter
    rw [hlines, hlines]
    rfl
  · refine ⟨part, hpart, Or.inr ⟨lines, last, ?_⟩⟩
    intro previous line
    unfold LogFile.linesAfter
    rw [hlines, hlines]
    rfl

/-- Behind a file left out, the head of the next one does not get the keyword. -/
theorem clear_head_of_skipped (hcov : CoversHits query.needle (kept · = true) files)
    {before after : List LogFile} {file : LogFile} (hfiles : files = before ++ file :: after)
    (hlast : ∃ f, before.getLast? = some f ∧ kept f = false) {part : Line}
    (hno : newline ∉ bytesOf part.flatten)
    (hpre : bytesOf part.flatten <+: file.content ++ contentOf after) : Clear query part := by
  intro hin
  obtain ⟨f, hf, hkept⟩ := hlast
  have hside := (hcov.edges hfiles (show newline ∉ ([] : Bytes) from List.not_mem_nil) hno
    List.nil_suffix hpre hin).1 f hf
  rw [hside] at hkept
  cases hkept

/-- A file left out: the full search completes lines without the keyword. -/
theorem tracks_skip (hcov : CoversHits query.needle (kept · = true) files)
    {before after : List LogFile} {file : LogFile} (hfiles : files = before ++ file :: after)
    (hkept : kept file = false) {recorded gap : Bool} {previous previous' : Option LogFile}
    {line line' : Line} (hopen : OpenLine before line)
    (h : Tracks query kept before (file :: after) recorded previous line previous' line' gap) :
    Tracks query kept (before ++ [file]) after recorded (some file)
      (file.linesAfter previous line).2 previous' line' true := by
  have hfirst : ClearFirst query previous line (file :: after) :=
    clearFirst_of_skipped hcov hfiles hopen (Or.inr ⟨file, rfl, hkept⟩)
  have hlast : (before ++ [file]).getLast? = some file := List.getLast?_concat
  have hfiles' : files = (before ++ [file]) ++ after := by
    rw [hfiles, List.append_assoc]
    rfl
  refine Tracks.skipped ?_ ⟨file, hlast, hkept⟩ ?_
  · exact clearFirst_of_skipped hcov hfiles' (openLine_linesAfter hopen previous file)
      (Or.inl ⟨file, hlast, hkept⟩)
  · intro hrec
    obtain ⟨more, rest, heq, -⟩ := searchLines_first previous line (file :: after)
    have hclear := hfirst _ _ heq
    cases h with
    | same => exact hclear.of_infix (List.prefix_append _ _).isInfix
    | split _ hpart =>
      obtain ⟨front, hfront⟩ := hpart hrec
      rw [hfront] at hclear
      exact hclear.of_infix ⟨front, more, rfl⟩
    | skipped _ _ hline => exact hline hrec

/-- What is left of both searches differs in bridged lines only. -/
def Agrees (query : Query) (kept : LogFile → Bool) (after : List LogFile) (recorded : Bool)
    (previous : Option LogFile) (line : Line) (previous' : Option LogFile) (line' : Line)
    (gap : Bool) : Prop :=
  Differ query (searchLines previous line after) (searchLines previous' line' (after.filter kept))
    ((if recorded then (searchLines previous' line' (after.filter kept)).take 1 else []) ++
      bridgedLines kept previous' line' gap after)

section Step

variable {before after : List LogFile} {file : LogFile} {recorded gap : Bool}
  {previous previous' : Option LogFile} {line line' : Line}

theorem agrees_skipped_iff (hkept : kept file = false) :
    Agrees query kept (file :: after) recorded previous line previous' line' gap ↔
      Differ query ((file.linesAfter previous line).1 ++
          searchLines (some file) (file.linesAfter previous line).2 after)
        (searchLines previous' line' (after.filter kept))
        ((if recorded then (searchLines previous' line' (after.filter kept)).take 1 else []) ++
          bridgedLines kept previous' line' true after) := by
  have hbridged : bridgedLines kept previous' line' gap (file :: after) =
      bridgedLines kept previous' line' true after := by
    show (if kept file = true then _ else _) = _
    rw [hkept]
    rfl
  unfold Agrees
  rw [hbridged, List.filter_cons_of_neg (by rw [hkept]; exact Bool.false_ne_true)]
  rfl

theorem agrees_kept_iff (hkept : kept file = true) :
    Agrees query kept (file :: after) recorded previous line previous' line' gap ↔
      Differ query ((file.linesAfter previous line).1 ++
          searchLines (some file) (file.linesAfter previous line).2 after)
        ((file.linesAfter previous' line').1 ++
          searchLines (some file) (file.linesAfter previous' line').2 (after.filter kept))
        ((if recorded then ((file.linesAfter previous' line').1 ++ searchLines (some file)
            (file.linesAfter previous' line').2 (after.filter kept)).take 1 else []) ++
          ((if gap && file.continues previous' then ((file.linesAfter previous' line').1 ++
              searchLines (some file) (file.linesAfter previous' line').2
                (after.filter kept)).take 1 else []) ++
            bridgedLines kept (some file) (file.linesAfter previous' line').2 false after)) := by
  have hfilter : (file :: after).filter kept = file :: after.filter kept :=
    List.filter_cons_of_pos hkept
  have hbridged : bridgedLines kept previous' line' gap (file :: after) =
      (if gap && file.continues previous' then
        (searchLines previous' line' ((file :: after).filter kept)).take 1 else []) ++
        bridgedLines kept (some file) (file.linesAfter previous' line').2 false after :=
    if_pos hkept
  unfold Agrees
  rw [hbridged, hfilter]
  rfl

theorem clear_singleton (h : Clear query line) : ∀ l ∈ [line], Clear query l := by
  intro l hl
  rw [List.mem_singleton.mp hl]
  exact h

/-- A kept file behind a kept one: both searches agree whether it goes on. -/
theorem agrees_split_kept (hkept : kept file = true)
    (hclear : ClearFirst query previous line (file :: after))
    (hpart : recorded = false → ∃ front, line = front ++ line')
    (ih : ∀ {recorded : Bool} {line' : Line}, Tracks query kept (before ++ [file]) after recorded
      (some file) (file.linesAfter previous line).2 (some file) line' false →
      Agrees query kept after recorded (some file) (file.linesAfter previous line).2 (some file)
        line' false) :
    Agrees query kept (file :: after) recorded previous line previous line' false := by
  rw [agrees_kept_iff hkept]
  unfold ClearFirst searchLines at hclear
  have hsuffix : ∀ {more : Line}, Clear query (line ++ more) → recorded = false →
      Clear query (line' ++ more) := by
    intro more h hrec
    obtain ⟨front, hfront⟩ := hpart hrec
    rw [hfront, List.append_assoc] at h
    exact h.of_infix (List.suffix_append _ _).isInfix
  have hsuffix' : Clear query line → recorded = false → Clear query line' := by
    intro h hrec
    obtain ⟨front, hfront⟩ := hpart hrec
    rw [hfront] at h
    exact h.of_infix (List.suffix_append _ _).isInfix
  obtain ⟨part, -, ⟨-, hshape⟩ | ⟨lines, last, hshape⟩⟩ := linesAfter_cases file
  · rw [hshape] at hclear ih ⊢
    rw [hshape]
    by_cases hcont : file.continues previous = true
    · -- the line stays open
      rw [if_pos hcont] at hclear ih ⊢
      rw [if_pos hcont]
      refine ih (Tracks.split hclear ?_)
      intro hrec
      obtain ⟨front, hfront⟩ := hpart hrec
      exact ⟨front, by rw [hfront, List.append_assoc]⟩
    · rw [if_neg hcont] at hclear ih ⊢
      rw [if_neg hcont]
      have hline := hclear _ _ rfl
      exact (ih Tracks.same).lead (clear_singleton hline) (hsuffix' hline)
  · rw [hshape] at hclear ih ⊢
    rw [hshape]
    by_cases hcont : file.continues previous = true
    · rw [if_pos hcont] at hclear ih ⊢
      rw [if_pos hcont]
      have hline := hclear _ _ rfl
      have hrest := (ih Tracks.same).append_left lines
      show Differ query ([line ++ part] ++ (lines ++ _)) _ _
      exact hrest.lead (clear_singleton hline) (hsuffix hline)
    · rw [if_neg hcont] at hclear ih ⊢
      rw [if_neg hcont]
      have hline := hclear _ _ rfl
      have hrest := (ih Tracks.same).append_left (part :: lines)
      show Differ query ([line] ++ (part :: lines ++ _)) _ _
      exact hrest.lead (clear_singleton hline) (hsuffix' hline)

/-- A kept file behind a gap. The full search ends lines without the keyword; the planned
one may go on with the line it left open, and that is a bridged line. -/
theorem agrees_gap_kept (hcov : CoversHits query.needle (kept · = true) files)
    (hfiles : files = before ++ file :: after) (hkept : kept file = true)
    (hclear : ClearFirst query previous line (file :: after))
    (hlast : ∃ f, before.getLast? = some f ∧ kept f = false)
    (hline' : recorded = false → Clear query line')
    (ih : ∀ {recorded : Bool} {line' : Line}, Tracks query kept (before ++ [file]) after recorded
      (some file) (file.linesAfter previous line).2 (some file) line' false →
      Agrees query kept after recorded (some file) (file.linesAfter previous line).2 (some file)
        line' false) :
    Agrees query kept (file :: after) recorded previous line previous' line' true := by
  rw [agrees_kept_iff hkept, Bool.true_and]
  unfold ClearFirst searchLines at hclear
  obtain ⟨part, ⟨hno, hpre⟩, hshape⟩ := linesAfter_cases file
  have hhead : Clear query part := clear_head_of_skipped hcov hfiles hlast hno
    (hpre.trans (List.prefix_append _ _))
  -- a bridged line counted twice counts once
  have hcount : ∀ first bridged : List Line, ∀ l,
      l ∈ (if recorded then first else []) ++ (first ++ bridged) ↔ l ∈ first ++ bridged := by
    intro first bridged l
    cases recorded with
    | true =>
      show l ∈ first ++ (first ++ bridged) ↔ _
      rw [List.mem_append]
      exact or_iff_right_of_imp fun h => List.mem_append_left _ h
    | false => exact Iff.rfl
  rcases hshape with ⟨hbytes, hshape⟩ | ⟨lines, last, hshape⟩
  · -- the file has no newline: what is open behind it does not get the keyword
    have hwhole : ClearFirst query (some file) part after := by
      intro first rest heq
      obtain ⟨more, rest', heq', hno', hpre'⟩ := searchLines_first (some file) part after
      rw [heq'] at heq
      cases heq
      refine clear_head_of_skipped hcov hfiles hlast ?_ ?_
      · rw [List.flatten_append, bytesOf_append]
        intro hin
        rcases List.mem_append.mp hin with hin | hin
        · exact hno hin
        · exact hno' hin
      · rw [List.flatten_append, bytesOf_append, hbytes]
        exact (List.prefix_append_right_inj _).mpr hpre'
    have hfull : ∃ xs front, file.linesAfter previous line = (xs, front ++ part) ∧
        (∀ l ∈ xs, Clear query l) ∧ ClearFirst query (some file) (front ++ part) after := by
      rw [hshape] at hclear ⊢
      by_cases hcont : file.continues previous = true
      · rw [if_pos hcont] at hclear ⊢
        exact ⟨[], line, rfl, fun l hl => absurd hl List.not_mem_nil, hclear⟩
      · rw [if_neg hcont] at hclear ⊢
        exact ⟨[line], [], rfl, clear_singleton (hclear _ _ rfl), hwhole⟩
    obtain ⟨xs, front, hxs, hclearxs, hclear'⟩ := hfull
    rw [hxs] at ih ⊢
    rw [hshape]
    by_cases hcont' : file.continues previous' = true
    · rw [if_pos hcont', if_pos hcont']
      have htracks : Tracks query kept (before ++ [file]) after true (some file) (front ++ part)
          (some file) (line' ++ part) false := Tracks.split hclear' fun h => Bool.noConfusion h
      have hrest := ih htracks
      refine Differ.of_mem_iff ?_ (hcount _ _)
      exact hrest.append_clear hclearxs fun l hl => absurd hl List.not_mem_nil
    · rw [if_neg hcont', if_neg hcont']
      have htracks : Tracks query kept (before ++ [file]) after false (some file) (front ++ part)
          (some file) part false := Tracks.split hclear' fun _ => ⟨front, rfl⟩
      exact (ih htracks).lead hclearxs hline'
  · have hfull : ∃ xs, file.linesAfter previous line = (xs ++ lines, last) ∧
        ∀ l ∈ xs, Clear query l := by
      rw [hshape] at hclear ⊢
      by_cases hcont : file.continues previous = true
      · rw [if_pos hcont] at hclear ⊢
        exact ⟨[line ++ part], rfl, clear_singleton (hclear _ _ rfl)⟩
      · rw [if_neg hcont] at hclear ⊢
        refine ⟨[line, part], rfl, ?_⟩
        intro l hl
        rcases List.mem_cons.mp hl with hl | hl
        · rw [hl]
          exact hclear _ _ rfl
        · exact clear_singleton hhead l hl
    obtain ⟨xs, hxs, hclearxs⟩ := hfull
    rw [hxs] at ih ⊢
    rw [hshape, List.append_assoc]
    have hrest := (ih Tracks.same).append_left lines
    by_cases hcont' : file.continues previous' = true
    · rw [if_pos hcont', if_pos hcont']
      refine Differ.of_mem_iff ?_ (hcount _ _)
      exact hrest.bridge hclearxs
    · rw [if_neg hcont', if_neg hcont']
      have hpart : Differ query ([] ++ (lines ++ searchLines (some file) last after))
          ([part] ++ (lines ++ searchLines (some file) last (after.filter kept))) _ :=
        hrest.append_clear (fun l hl => absurd hl List.not_mem_nil) (clear_singleton hhead)
      exact hpart.lead hclearxs hline'

end Step

/-- **Both searches in lockstep.** -/
theorem tracks_agrees (hcov : CoversHits query.needle (kept · = true) files)
    {before after : List LogFile} (hfiles : files = before ++ after) {recorded gap : Bool}
    {previous previous' : Option LogFile} {line line' : Line} (hopen : OpenLine before line)
    (h : Tracks query kept before after recorded previous line previous' line' gap) :
    Agrees query kept after recorded previous line previous' line' gap := by
  induction after generalizing before recorded gap previous previous' line line' with
  | nil =>
    have hend : Differ query ([line] ++ []) [line']
        ((if recorded then [line'] else []) ++ []) → Agrees query kept [] recorded previous line
          previous' line' gap := id
    cases h with
    | same => exact Differ.refl _
    | split hclear hpart =>
      have hline := hclear line [] rfl
      refine hend ((Differ.refl []).lead (clear_singleton hline) ?_)
      intro hrec
      obtain ⟨front, hfront⟩ := hpart hrec
      rw [hfront] at hline
      exact hline.of_infix (List.suffix_append _ _).isInfix
    | skipped hclear _ hline' =>
      exact hend ((Differ.refl []).lead (clear_singleton (hclear line [] rfl)) hline')
  | cons file after ih =>
    have hfiles' : files = (before ++ [file]) ++ after := by
      rw [hfiles, List.append_assoc]
      rfl
    have hopen' := openLine_linesAfter hopen previous file
    rcases hkept : kept file with _ | _
    · -- the file is left out
      rw [agrees_skipped_iff hkept]
      have hrest := ih hfiles' hopen' (tracks_skip hcov hfiles hkept hopen h)
      exact hrest.append_clear (clear_linesAfter_of_skipped hcov hfiles hkept hopen)
        fun l hl => absurd hl List.not_mem_nil
    · cases h with
      | same =>
        rw [agrees_kept_iff hkept]
        exact (ih hfiles' hopen' Tracks.same).append_left _
      | split hclear hpart => exact agrees_split_kept hkept hclear hpart (ih hfiles' hopen')
      | skipped hclear hlast hline' =>
        exact agrees_gap_kept hcov hfiles hkept hclear hlast hline' (ih hfiles' hopen')

/-! ## What the searches report -/

/-- A line that has a hit and is too long to be reported. -/
def TooLong (query : Query) (line : Line) : Prop :=
  query.hits line = true ∧ maxResultTextBytes < line.flatten.length

theorem outcome_eq_of_filter {lines lines' : List Line}
    (h : lines.filter query.hits = lines'.filter query.hits) :
    outcome query lines = outcome query lines' := by
  have hfilter : ∀ ls : List Line, outcome query ls = outcome query (ls.filter query.hits) := by
    intro ls
    induction ls with
    | nil => rfl
    | cons l ls ih =>
      rcases hl : query.hits l with _ | _
      · rw [List.filter_cons_of_neg (by rw [hl]; exact Bool.false_ne_true), ← ih]
        have hnone : lineResult query l = .ok [] := by
          unfold Query.hits at hl
          unfold lineResult
          rw [Option.isSome_eq_false_iff, Option.isNone_iff_eq_none] at hl
          rw [hl]
        show (lineResult query l >>= fun results => outcome query ls >>= fun rest =>
          .ok (results ++ rest)) = _
        rw [hnone]
        rcases outcome query ls with e | rest <;> rfl
      · rw [List.filter_cons_of_pos hl]
        unfold outcome
        rw [ih]
  rw [hfilter lines, hfilter lines', h]

/-- Without a line that is too long there is a result for each line with a hit. -/
theorem length_outcome {lines : List Line} (h : ∀ line ∈ lines, ¬ TooLong query line) :
    ∃ results, outcome query lines = .ok results ∧
      results.length = (lines.filter query.hits).length := by
  induction lines with
  | nil => exact ⟨[], rfl, rfl⟩
  | cons line lines ih =>
    obtain ⟨rest, hrest, hlen⟩ := ih fun l hl => h l (List.mem_cons_of_mem _ hl)
    have hline := h line List.mem_cons_self
    unfold outcome lineResult
    rw [hrest]
    rcases hl : lineHit query [] line with _ | i
    · have hhits : query.hits line = false := by
        unfold Query.hits
        rw [hl]
        rfl
      refine ⟨rest, rfl, ?_⟩
      rw [List.filter_cons_of_neg (by rw [hhits]; exact Bool.false_ne_true), hlen]
    · have hhits : query.hits line = true := by
        unfold Query.hits
        rw [hl]
        rfl
      have hshort : ¬ maxResultTextBytes < line.flatten.length := fun hlong => hline ⟨hhits, hlong⟩
      refine ⟨resultOf line.flatten i :: rest, ?_, ?_⟩
      · dsimp only
        rw [if_neg hshort]
        rfl
      · rw [List.filter_cons_of_pos hhits, List.length_cons, List.length_cons, hlen]

/-- With one, the search fails, whatever the other lines are. -/
theorem outcome_of_tooLong {lines : List Line} (h : ∃ line ∈ lines, TooLong query line) :
    outcome query lines = .error (.valueError "命中日志行超过 262144 字节，无法完整保存") := by
  induction lines with
  | nil =>
    obtain ⟨line, hline, -⟩ := h
    exact absurd hline List.not_mem_nil
  | cons line lines ih =>
    unfold outcome lineResult
    rcases hl : lineHit query [] line with _ | i
    · have hrest : ∃ l ∈ lines, TooLong query l := by
        obtain ⟨l, hmem, hlong⟩ := h
        rcases List.mem_cons.mp hmem with heq | hmem
        · have hhits := hlong.1
          unfold Query.hits at hhits
          rw [heq, hl] at hhits
          cases hhits
        · exact ⟨l, hmem, hlong⟩
      rw [ih hrest]
      rfl
    · dsimp only
      by_cases hlong : maxResultTextBytes < line.flatten.length
      · rw [if_pos hlong]
        rfl
      · have hrest : ∃ l ∈ lines, TooLong query l := by
          obtain ⟨l, hmem, hl'⟩ := h
          rcases List.mem_cons.mp hmem with heq | hmem
          · rw [heq] at hl'
            exact absurd hl'.2 hlong
          · exact ⟨l, hmem, hl'⟩
        rw [if_neg hlong, ih hrest]
        rfl

theorem outcome_eq_iff {full planned bridged : List Line} (h : Differ query full planned bridged) :
    outcome query planned = outcome query full ↔
      (∃ line ∈ full, TooLong query line) ∨ ∀ line ∈ bridged, query.hits line = false := by
  by_cases hlong : ∃ line ∈ full, TooLong query line
  · have hplanned : ∃ line ∈ planned, TooLong query line := by
      obtain ⟨line, hline, htoo⟩ := hlong
      have hin := h.sublist.subset (List.mem_filter.mpr ⟨hline, htoo.1⟩)
      exact ⟨line, (List.mem_filter.mp hin).1, htoo⟩
    rw [outcome_of_tooLong hlong, outcome_of_tooLong hplanned]
    exact iff_of_true rfl (Or.inl hlong)
  · rw [or_iff_right hlong, ← h.same_iff]
    refine ⟨?_, fun heq => outcome_eq_of_filter heq⟩
    intro heq
    have hshort : ∀ line ∈ full, ¬ TooLong query line := fun line hline htoo =>
      hlong ⟨line, hline, htoo⟩
    obtain ⟨results, hfull, hlen⟩ := length_outcome hshort
    rw [hfull] at heq
    by_cases hplanned : ∃ line ∈ planned, TooLong query line
    · rw [outcome_of_tooLong hplanned] at heq
      cases heq
    · obtain ⟨results', hplanned', hlen'⟩ := @length_outcome query planned
        fun line hline htoo => hplanned ⟨line, hline, htoo⟩
      rw [hplanned'] at heq
      cases heq
      exact (h.sublist.eq_of_length (hlen.symm.trans hlen')).symm

end Simulation

/-- **The planned search reports what the full one does exactly when no bridged line has
a hit**, or a line is too long to be reported, and both fail. -/
theorem planned_search_eq_iff {files : List JobFile} {evidence : String → Option Evidence}
    {keyword : List Char} {query : Query} (hneedle : query.needle = encode keyword)
    (hids : (files.map (·.log.id)).Nodup) (hfaithful : FaithfulEvidence files evidence keyword) :
    search query (keptFiles files evidence keyword) = search query (files.map (·.log)) ↔
      (∃ line ∈ searchLines none [] (files.map (·.log)), TooLong query line) ∨
        ∀ line ∈ bridgedLines (planKeeps files evidence keyword) none [] false
          (files.map (·.log)), query.hits line = false := by
  have hplan := plan_covers_hits hids hfaithful
  have hcov : CoversHits query.needle (planKeeps files evidence keyword · = true)
      (files.map (·.log)) := by
    have hkeeps : ∀ log : LogFile, planKeeps files evidence keyword log = true ↔
        log.id ∈ planCandidateFiles (files.map JobFile.frozen) evidence keyword :=
      fun log => decide_eq_true_iff
    rw [hneedle]
    simp only [hkeeps]
    exact hplan
  have hopen : OpenLine [] [] := ⟨List.not_mem_nil, List.nil_suffix⟩
  have hagrees := tracks_agrees hcov (List.nil_append _).symm hopen
    (@Tracks.same query (planKeeps files evidence keyword) [] (files.map (·.log)) none [])
  rw [search_eq_outcome, search_eq_outcome]
  exact outcome_eq_iff hagrees

/-! ## A bridged line with a hit -/

/-- A finished file of one block, of a session. -/
def bridgeFile (id session : String) (content : Bytes) (sequence : Nat) (h : content ≠ []) :
    JobFile :=
  { log :=
      { id
        identity :=
          { taskId := some "t", runId := some "r", sessionId := some session, nodeId := some "n" }
        chunks := [content]
        index := [⟨0, content.length, 5, some sequence⟩]
        chunks_ne_nil := by
          intro chunk hchunk
          rw [List.mem_singleton.mp hchunk]
          exact h
        index_ordered := List.pairwise_singleton _ _ }
    status := "READY"
    bytes := some content.length }

/-- `x⏎fo` and `o⏎y` of one session, with `zz⏎` of another one between them, and a line
`foo⏎` on either side. -/
def bridgeFiles : List JobFile :=
  [bridgeFile "s" "1" [102, 111, 111, 10] 0 (by decide),
    bridgeFile "a" "2" [120, 10, 102, 111] 1 (by decide),
    bridgeFile "b" "3" [122, 122, 10] 7 (by decide),
    bridgeFile "c" "2" [111, 10, 121] 2 (by decide),
    bridgeFile "z" "4" [102, 111, 111, 10] 0 (by decide)]

def bridgeEvidence (identifier : String) : Option Evidence :=
  (bridgeFiles.find? (·.log.id = identifier)).map fun file =>
    Evidence.ofContent (encode ['f', 'o', 'o']) file.log.content

def bridgeQuery : Query :=
  { needle := encode ['f', 'o', 'o'], start := 0, stop := 10, needle_ne_nil := by decide }

theorem bridgeEvidence_faithful :
    FaithfulEvidence bridgeFiles bridgeEvidence ['f', 'o', 'o'] := by
  intro file hfile item hitem
  have hevidence : ∀ file ∈ bridgeFiles, bridgeEvidence file.log.id =
      some (Evidence.ofContent (encode ['f', 'o', 'o']) file.log.content) := by
    simp only [bridgeFiles, List.forall_mem_cons]
    exact ⟨rfl, rfl, rfl, rfl, rfl, fun _ h => absurd h List.not_mem_nil⟩
  rw [hevidence file hfile] at hitem
  exact faithful_ofContent hitem

/-- The plan leaves `zz⏎` out, and the search finds a `foo` that stands in no line. -/
theorem planned_search_bridges :
    ((bridgeFiles.map (·.log.id)).Nodup ∧
      FaithfulEvidence bridgeFiles bridgeEvidence ['f', 'o', 'o']) ∧
    search bridgeQuery (bridgeFiles.map (·.log)) =
      .ok [⟨"s", 0, "s", 0, ['f', 'o', 'o'], false⟩, ⟨"z", 0, "z", 0, ['f', 'o', 'o'], false⟩] ∧
    search bridgeQuery (keptFiles bridgeFiles bridgeEvidence ['f', 'o', 'o']) =
      .ok [⟨"s", 0, "s", 0, ['f', 'o', 'o'], false⟩, ⟨"a", 2, "a", 2, ['f', 'o', 'o'], false⟩,
        ⟨"z", 0, "z", 0, ['f', 'o', 'o'], false⟩] ∧
    search bridgeQuery (keptFiles bridgeFiles bridgeEvidence ['f', 'o', 'o']) ≠
      search bridgeQuery (bridgeFiles.map (·.log)) := by
  have hfull : search bridgeQuery (bridgeFiles.map (·.log)) =
      .ok [⟨"s", 0, "s", 0, ['f', 'o', 'o'], false⟩,
        ⟨"z", 0, "z", 0, ['f', 'o', 'o'], false⟩] := rfl
  have hkept : search bridgeQuery (keptFiles bridgeFiles bridgeEvidence ['f', 'o', 'o']) =
      .ok [⟨"s", 0, "s", 0, ['f', 'o', 'o'], false⟩, ⟨"a", 2, "a", 2, ['f', 'o', 'o'], false⟩,
        ⟨"z", 0, "z", 0, ['f', 'o', 'o'], false⟩] := rfl
  refine ⟨⟨by decide, bridgeEvidence_faithful⟩, hfull, hkept, ?_⟩
  rw [hfull, hkept]
  decide

theorem planned_search_eq_iff_bridge :
    search bridgeQuery (keptFiles bridgeFiles bridgeEvidence ['f', 'o', 'o']) =
        search bridgeQuery (bridgeFiles.map (·.log)) ↔
      (∃ line ∈ searchLines none [] (bridgeFiles.map (·.log)), TooLong bridgeQuery line) ∨
        ∀ line ∈ bridgedLines (planKeeps bridgeFiles bridgeEvidence ['f', 'o', 'o']) none [] false
          (bridgeFiles.map (·.log)), bridgeQuery.hits line = false :=
  planned_search_eq_iff rfl (by decide) bridgeEvidence_faithful

end CameraLogs.Logs

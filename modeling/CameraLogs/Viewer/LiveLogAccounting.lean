import CameraLogs.Viewer.LiveLogBuffer

/-!
# Where the bytes of the live log are

A byte that was taken in is in the open line, in a visible line or in a missing range.
Every operation of the buffer moves spans between these (`Keeps`): a line is cut off the
open one, the oldest lines go to the ranges, ranges that touch merge. As long as no
range is dropped and no byte was in two places, each byte stays in one.
-/

namespace CameraLogs.Viewer

open Lib Logs
open LiveLogBuffer

variable {budget : Nat} {buffer next last : LiveLogBuffer}

/-- All spans the buffer knows of. -/
def LiveLogBuffer.places (buffer : LiveLogBuffer) : List (Span Source) :=
  buffer.visibleLines.flatMap (·.pieces) ++ buffer.partialLine.map (·.span) ++
    buffer.missingRanges.map (·.span)

/-- An operation that adds some spans, and else only moves what is there. -/
structure Keeps (buffer next : LiveLogBuffer) (added : List (Span Source)) : Prop where
  dropped : buffer.droppedRangeCount ≤ next.droppedRangeCount
  sessionId : next.sessionId = buffer.sessionId
  offsets : next.offsets = buffer.offsets
  covered : next.droppedRangeCount = 0 →
    (∀ source i, Span.covered buffer.places source i + Span.covered added source i ≤ 1) →
    ∀ source i, Span.covered next.places source i
      = Span.covered buffer.places source i + Span.covered added source i

theorem keeps_refl (buffer : LiveLogBuffer) : Keeps buffer buffer [] where
  dropped := Nat.le_refl _
  sessionId := rfl
  offsets := rfl
  covered := fun _ _ _ _ => rfl

theorem Keeps.trans {first second : List (Span Source)} (h : Keeps buffer next first)
    (h' : Keeps next last second) : Keeps buffer last (first ++ second) where
  dropped := Nat.le_trans h.dropped h'.dropped
  sessionId := h'.sessionId.trans h.sessionId
  offsets := h'.offsets.trans h.offsets
  covered := fun hdropped honce source i => by
    have hfirst : ∀ source i, Span.covered next.places source i
        = Span.covered buffer.places source i + Span.covered first source i := by
      refine h.covered (by have hle := h'.dropped; omega) fun source i => ?_
      have hall := honce source i
      rw [Span.covered_append] at hall
      omega
    have hsecond := h'.covered hdropped (fun source i => by
      have hall := honce source i
      rw [Span.covered_append] at hall
      rw [hfirst]
      omega) source i
    rw [hsecond, hfirst, Span.covered_append]
    omega

/-- What was added may be counted by other spans that cover the same. -/
theorem Keeps.congr {added other : List (Span Source)} (h : Keeps buffer next added)
    (heq : ∀ source i, Span.covered other source i = Span.covered added source i) :
    Keeps buffer next other where
  dropped := h.dropped
  sessionId := h.sessionId
  offsets := h.offsets
  covered := fun hdropped honce source i => by
    rw [heq]
    refine h.covered hdropped (fun source i => ?_) source i
    have hall := honce source i
    rw [heq] at hall
    exact hall

/-! ## Missing ranges -/

theorem span_foldl_absorb (range : LiveLogRange) (others : List LiveLogRange) :
    (others.foldl (fun range other => range.absorb other.span other.lines) range).span
      = (others.map (·.span)).foldl Span.hull range.span := by
  induction others generalizing range with
  | nil => rfl
  | cons other others ih =>
    rw [List.foldl_cons, ih]
    rfl

/-- A range that is merged or added covers its span as well, unless one is dropped. -/
theorem addRange_covered {reason : Reason} {span : Span Source} {lines : Option Nat} {source : Source}
    {i : Nat} (hdropped : (buffer.addRange reason span lines).droppedRangeCount = 0)
    (honce : Span.covered (buffer.missingRanges.map (·.span)) source i + span.cover source i ≤ 1) :
    Span.covered ((buffer.addRange reason span lines).missingRanges.map (·.span)) source i
      = Span.covered (buffer.missingRanges.map (·.span)) source i + span.cover source i := by
  have hfilter := Span.covered_filter (·.span) (LiveLogRange.compatible reason span)
    buffer.missingRanges source i
  unfold addRange at hdropped ⊢
  split
  next first others hcompatible =>
    have htouch : ∀ t ∈ first.span :: others.map (·.span), Span.Touches t span := by
      intro t ht
      rw [← List.map_cons, ← hcompatible] at ht
      obtain ⟨range, hrange, rfl⟩ := List.mem_map.mp ht
      exact (of_decide_eq_true (List.mem_filter.mp hrange).2).2
    rw [hcompatible, List.map_cons] at hfilter
    have hmerge := Span.cover_merge htouch source i (by omega)
    rw [List.map_append, Span.covered_append, List.map_singleton, Span.covered_cons, Span.covered_nil,
      span_foldl_absorb]
    show _ + ((others.map (·.span)).foldl Span.hull (Span.hull first.span span)).cover source i + 0 = _
    omega
  next hcompatible =>
    rw [hcompatible] at hdropped
    dsimp only at hdropped ⊢
    split
    next hfull =>
      rw [if_pos hfull] at hdropped
      cases hdropped
    next =>
      rw [List.map_append, Span.covered_append, List.map_singleton, Span.covered_cons,
        Span.covered_nil]
      rfl

/-- Only the ranges change. -/
def OnlyRanges (buffer next : LiveLogBuffer) : Prop :=
  ∃ ranges id dropped, buffer.droppedRangeCount ≤ dropped ∧
    next = { buffer with missingRanges := ranges, nextRangeId := id, droppedRangeCount := dropped }

theorem onlyRanges_addRange (reason : Reason) (span : Span Source) (lines : Option Nat)
    (buffer : LiveLogBuffer) : OnlyRanges buffer (buffer.addRange reason span lines) := by
  unfold addRange
  split
  next => exact ⟨_, _, _, Nat.le_refl _, rfl⟩
  next =>
    dsimp only
    split
    next => exact ⟨_, _, _, Nat.le_succ _, rfl⟩
    next => exact ⟨_, _, _, Nat.le_refl _, rfl⟩

theorem OnlyRanges.trans (h : OnlyRanges buffer next) (h' : OnlyRanges next last) :
    OnlyRanges buffer last := by
  obtain ⟨_, _, _, hle, rfl⟩ := h
  obtain ⟨_, _, _, hle', rfl⟩ := h'
  exact ⟨_, _, _, Nat.le_trans hle hle', rfl⟩

theorem OnlyRanges.dropped (h : OnlyRanges buffer next) :
    buffer.droppedRangeCount ≤ next.droppedRangeCount := by
  obtain ⟨_, _, _, hle, rfl⟩ := h
  exact hle

/-- An operation on the ranges that adds some spans to them. -/
structure AddsRanges (buffer next : LiveLogBuffer) (added : List (Span Source)) : Prop where
  only : OnlyRanges buffer next
  covered : next.droppedRangeCount = 0 → ∀ source i,
    Span.covered (buffer.missingRanges.map (·.span)) source i + Span.covered added source i ≤ 1 →
    Span.covered (next.missingRanges.map (·.span)) source i
      = Span.covered (buffer.missingRanges.map (·.span)) source i + Span.covered added source i

theorem AddsRanges.trans {first second : List (Span Source)} (h : AddsRanges buffer next first)
    (h' : AddsRanges next last second) : AddsRanges buffer last (first ++ second) where
  only := h.only.trans h'.only
  covered := fun hdropped source i honce => by
    rw [Span.covered_append] at honce ⊢
    have hnone : next.droppedRangeCount = 0 := by
      have hle := h'.only.dropped
      omega
    have hfirst := h.covered hnone source i (by omega)
    rw [h'.covered hdropped source i (by omega), hfirst]
    omega

theorem AddsRanges.keeps {added : List (Span Source)} (h : AddsRanges buffer next added) :
    Keeps buffer next added := by
  have hcovered := h.covered
  obtain ⟨ranges, id, dropped, hle, rfl⟩ := h.only
  refine ⟨hle, rfl, rfl, fun hdropped honce source i => ?_⟩
  have hall := honce source i
  unfold LiveLogBuffer.places at hall ⊢
  rw [Span.covered_append] at hall ⊢
  rw [hcovered hdropped source i (by omega), Span.covered_append (buffer.visibleLines.flatMap _ ++ _)]
  exact (Nat.add_assoc _ _ _).symm

theorem addRange_adds (reason : Reason) (span : Span Source) (lines : Option Nat)
    (buffer : LiveLogBuffer) : AddsRanges buffer (buffer.addRange reason span lines) [span] where
  only := onlyRanges_addRange reason span lines buffer
  covered := fun hdropped source i honce => by
    rw [Span.covered_cons, Span.covered_nil, Nat.add_zero] at honce ⊢
    exact addRange_covered hdropped honce

theorem recordPieces_adds (spans : List (Span Source)) (reason : Reason) (lines : Option Nat)
    (buffer : LiveLogBuffer) : AddsRanges buffer (buffer.recordPieces spans reason lines) spans := by
  unfold recordPieces
  dsimp only
  generalize (if spans.length = 1 then lines else none) = lines
  induction spans generalizing buffer with
  | nil => exact ⟨⟨_, _, _, Nat.le_refl _, rfl⟩, fun _ _ _ _ => rfl⟩
  | cons span spans ih => exact (addRange_adds reason span lines buffer).trans (ih _)

/-! ## Pieces -/

/-- The bytes of pieces. -/
def pieceBytes (pieces : List BytePiece) : Nat := (pieces.map (·.bytes.length)).sum

theorem pieceBytes_cons (piece : BytePiece) (pieces : List BytePiece) :
    pieceBytes (piece :: pieces) = piece.bytes.length + pieceBytes pieces := by
  unfold pieceBytes
  rw [List.map_cons, List.sum_cons]

theorem pieceBytes_append (xs ys : List BytePiece) :
    pieceBytes (xs ++ ys) = pieceBytes xs + pieceBytes ys := by
  unfold pieceBytes
  rw [List.map_append, List.sum_append]

theorem length_joinPieces (pieces : List BytePiece) : (LiveLogBuffer.joinPieces pieces).length = pieceBytes pieces := by
  unfold LiveLogBuffer.joinPieces pieceBytes
  rw [List.length_flatMap]

theorem slice_all (piece : BytePiece) : piece.slice 0 piece.bytes.length = piece := by
  unfold BytePiece.slice
  rw [List.drop_zero, Nat.sub_zero, List.take_length, Nat.add_zero]

theorem length_slice (piece : BytePiece) (start stop : Nat) :
    (piece.slice start stop).bytes.length = min (stop - start) (piece.bytes.length - start) := by
  show ((piece.bytes.drop start).take (stop - start)).length = _
  rw [List.length_take, List.length_drop]

/-- A piece that is cut in two covers what it did. -/
theorem cover_slice (piece : BytePiece) {at' : Nat} (h : at' ≤ piece.bytes.length) (source : Source)
    (i : Nat) :
    piece.span.cover source i = (piece.slice 0 at').span.cover source i
      + (piece.slice at' piece.bytes.length).span.cover source i := by
  have hfirst : (piece.slice 0 at').span
      = { key := piece.source, start := piece.start, stop := piece.start + at' } := by
    unfold BytePiece.span
    rw [length_slice, Nat.min_eq_left (by omega)]
    rfl
  have hsecond : (piece.slice at' piece.bytes.length).span
      = { key := piece.source, start := piece.start + at', stop := piece.start + piece.bytes.length } := by
    unfold BytePiece.span
    rw [length_slice, Nat.min_self]
    show Span.mk piece.source (piece.start + at') (piece.start + at' + (piece.bytes.length - at')) = _
    congr 1
    omega
  rw [hfirst, hsecond]
  exact Span.cover_split _ _ _ _ _ (by omega) (by omega)

theorem cover_piece_nil {piece : BytePiece} (h : piece.bytes = []) (source : Source) (i : Nat) :
    piece.span.cover source i = 0 := by
  refine Span.cover_empty ?_ source i
  show piece.start + piece.bytes.length ≤ piece.start
  rw [h]
  exact Nat.le_refl _

theorem splitPieces_cons (n : Nat) (piece : BytePiece) (pieces : List BytePiece) :
    splitPieces (n + 1) (piece :: pieces) =
      if piece.bytes.length ≤ n + 1 then
        (piece.slice 0 piece.bytes.length :: (splitPieces (n + 1 - piece.bytes.length) pieces).1,
          (splitPieces (n + 1 - piece.bytes.length) pieces).2)
      else ([piece.slice 0 (n + 1)], piece.slice (n + 1) piece.bytes.length :: pieces) := rfl

/-- Cutting pieces: what is taken and what is left is what there was. -/
theorem splitPieces_spec (remaining : Nat) (pieces : List BytePiece) :
    pieceBytes (splitPieces remaining pieces).1 = min remaining (pieceBytes pieces) ∧
    pieceBytes (splitPieces remaining pieces).2 = pieceBytes pieces - remaining ∧
    ∀ source i, Span.covered (pieces.map (·.span)) source i
      = Span.covered ((splitPieces remaining pieces).1.map (·.span)) source i
        + Span.covered ((splitPieces remaining pieces).2.map (·.span)) source i := by
  induction pieces generalizing remaining with
  | nil =>
    cases remaining with
    | zero => exact ⟨rfl, rfl, fun _ _ => rfl⟩
    | succ n => exact ⟨(Nat.min_zero _).symm, (Nat.zero_sub _).symm, fun _ _ => rfl⟩
  | cons piece pieces ih =>
    cases remaining with
    | zero =>
      refine ⟨(Nat.zero_min _).symm, rfl, fun source i => ?_⟩
      exact (Nat.zero_add _).symm
    | succ n =>
      rw [splitPieces_cons]
      by_cases hle : piece.bytes.length ≤ n + 1
      · rw [if_pos hle]
        obtain ⟨htaken, hleft, hcovered⟩ := ih (n + 1 - piece.bytes.length)
        dsimp only
        rw [slice_all, pieceBytes_cons, pieceBytes_cons, htaken, hleft]
        refine ⟨by omega, by omega, fun source i => ?_⟩
        rw [List.map_cons, List.map_cons, Span.covered_cons, Span.covered_cons, hcovered]
        exact (Nat.add_assoc _ _ _).symm
      · rw [if_neg hle]
        dsimp only
        rw [pieceBytes_cons, pieceBytes_cons, pieceBytes_cons, length_slice, length_slice]
        refine ⟨?_, ?_, fun source i => ?_⟩
        · show min (n + 1 - 0) (piece.bytes.length - 0) + 0 = _
          omega
        · omega
        · rw [List.map_cons, List.map_cons, List.map_cons, Span.covered_cons, Span.covered_cons,
            Span.covered_cons, cover_slice piece (Nat.le_of_not_le hle)]
          show _ = _ + 0 + _
          omega

theorem addPiece_covered {result : List (Span Source)} (hresult : ∀ span ∈ result, span.start ≤ span.stop)
    (piece : BytePiece) :
    (∀ span ∈ addPiece result piece, span.start ≤ span.stop) ∧
    ∀ source i, Span.covered (addPiece result piece) source i
      = Span.covered result source i + piece.span.cover source i := by
  have hpiece : piece.span.start ≤ piece.span.stop := Nat.le_add_right _ _
  have hbehind : (∀ span ∈ result ++ [piece.span], span.start ≤ span.stop) ∧
      ∀ source i, Span.covered (result ++ [piece.span]) source i
        = Span.covered result source i + piece.span.cover source i := by
    refine ⟨fun span hspan => ?_, fun source i => ?_⟩
    · rcases List.mem_append.mp hspan with hold | hnew
      · exact hresult span hold
      · rw [List.mem_singleton.mp hnew]
        exact hpiece
    · rw [Span.covered_append, Span.covered_cons, Span.covered_nil, Nat.add_zero]
  unfold addPiece
  split
  next previous hlast =>
    split
    next hfollows =>
      have hsplit : result = result.dropLast ++ [previous] :=
        (List.dropLast_append_getLast? previous hlast).symm
      have hprevious := hresult previous (List.mem_of_getLast? hlast)
      refine ⟨fun span hspan => ?_, fun source i => ?_⟩
      · rcases List.mem_append.mp hspan with hold | hnew
        · exact hresult span (List.mem_of_mem_dropLast hold)
        · rw [List.mem_singleton.mp hnew]
          exact Nat.le_trans hprevious (hfollows.2 ▸ hpiece)
      · conv_rhs => rw [hsplit]
        rw [Span.covered_append, Span.covered_append, Span.covered_cons, Span.covered_cons,
          Span.covered_nil]
        have hcut := Span.cover_split previous.start piece.span.stop previous.key source i
          hprevious (hfollows.2 ▸ hpiece)
        have hspan : ({ key := previous.key, start := previous.stop, stop := piece.span.stop } : Span Source)
            = piece.span := by
          rw [hfollows.1, hfollows.2]
          rfl
        rw [hspan] at hcut
        show _ + (Span.cover { key := previous.key, start := previous.start, stop := piece.span.stop } source i
          + 0) = _
        rw [hcut]
        show _ + (previous.cover source i + _ + 0) = _
        omega
    next => exact hbehind
  next hnone =>
    rw [List.getLast?_eq_none_iff.mp hnone] at hbehind ⊢
    exact hbehind

/-- The spans of a line cover what its pieces do. -/
theorem rangePieces_covered (pieces : List BytePiece) (source : Source) (i : Nat) :
    Span.covered (rangePieces pieces) source i = Span.covered (pieces.map (·.span)) source i := by
  have hfold : ∀ result : List (Span Source), (∀ span ∈ result, span.start ≤ span.stop) →
      Span.covered (pieces.foldl addPiece result) source i
        = Span.covered result source i + Span.covered (pieces.map (·.span)) source i := by
    induction pieces with
    | nil => exact fun _ _ => rfl
    | cons piece pieces ih =>
      intro result hresult
      obtain ⟨hnext, hcovered⟩ := addPiece_covered hresult piece
      rw [List.foldl_cons, ih _ hnext, hcovered, List.map_cons, Span.covered_cons]
      omega
  have hall := hfold [] fun _ hspan => absurd hspan List.not_mem_nil
  rw [Span.covered_nil, Nat.zero_add] at hall
  exact hall

/-! ## Lines -/

/-- The lines and the open line fit their counters and bounds. -/
structure Fits (budget : Nat) (buffer : LiveLogBuffer) : Prop where
  retained : buffer.retainedByteLength = (buffer.visibleLines.map (·.byteLength)).sum
  within : buffer.retainedByteLength ≤ budget
  partialBytes : buffer.partialByteLength = pieceBytes buffer.partialLine
  partialLimit : buffer.partialByteLength ≤ longLineByteLimit

/-- The spans of lines. -/
def lineSpans (lines : List StoredLine) : List (Span Source) := lines.flatMap (·.pieces)

theorem lineSpans_cons (line : StoredLine) (lines : List StoredLine) :
    lineSpans (line :: lines) = line.pieces ++ lineSpans lines := List.flatMap_cons

theorem LiveLogBuffer.places_eq (buffer : LiveLogBuffer) : buffer.places =
    lineSpans buffer.visibleLines ++ buffer.partialLine.map (·.span)
      ++ buffer.missingRanges.map (·.span) := rfl

/-- A line that is evicted moves to the ranges. -/
theorem evict_keeps {line : StoredLine} (rest : List StoredLine) {retained omitted : Nat}
    (h : AddsRanges { buffer with retainedByteLength := retained, omitted } next line.pieces) :
    Keeps { buffer with visibleLines := line :: rest } { next with visibleLines := rest } [] := by
  have hcovered := h.covered
  obtain ⟨ranges, id, dropped, hle, rfl⟩ := h.only
  refine ⟨hle, rfl, rfl, fun hdropped honce source i => ?_⟩
  have hall := honce source i
  rw [LiveLogBuffer.places_eq, lineSpans_cons] at hall
  simp only [Span.covered_append, Span.covered_nil] at hall
  have hranges := hcovered hdropped source i
    (by show Span.covered (buffer.missingRanges.map _) source i + _ ≤ 1; omega)
  rw [LiveLogBuffer.places_eq, LiveLogBuffer.places_eq, lineSpans_cons]
  simp only [Span.covered_append, Span.covered_nil]
  dsimp only at hranges ⊢
  omega

/-- Evicting lines, from the lines that are left: they move to the ranges, and what stays
fits the budget. -/
theorem enforceContentBudget_spec (lines : List StoredLine) (buffer : LiveLogBuffer)
    (hretained : buffer.retainedByteLength = (lines.map (·.byteLength)).sum) :
    Keeps { buffer with visibleLines := lines } (enforceContentBudget budget lines buffer) [] ∧
      (enforceContentBudget budget lines buffer).retainedByteLength
        = ((enforceContentBudget budget lines buffer).visibleLines.map (·.byteLength)).sum ∧
      (enforceContentBudget budget lines buffer).retainedByteLength ≤ budget ∧
      (enforceContentBudget budget lines buffer).partialLine = buffer.partialLine ∧
      (enforceContentBudget budget lines buffer).partialByteLength = buffer.partialByteLength := by
  induction lines generalizing buffer with
  | nil =>
    refine ⟨keeps_refl _, hretained, ?_, rfl, rfl⟩
    show buffer.retainedByteLength ≤ budget
    rw [hretained]
    exact Nat.zero_le _
  | cons line rest ih =>
    unfold enforceContentBudget
    by_cases hover : budget < buffer.retainedByteLength
    · rw [if_pos hover]
      have hadds := recordPieces_adds line.pieces .retention (some 1)
        { buffer with
          retainedByteLength := buffer.retainedByteLength - line.byteLength
          omitted := buffer.omitted + 1 }
      have hkeeps := evict_keeps rest hadds
      generalize recordPieces line.pieces .retention (some 1) _ = recorded at hadds hkeeps ⊢
      obtain ⟨ranges, id, dropped, hle, rfl⟩ := hadds.only
      obtain ⟨hrest, hlast⟩ := ih
        { buffer with
          retainedByteLength := buffer.retainedByteLength - line.byteLength
          omitted := buffer.omitted + 1, missingRanges := ranges, nextRangeId := id
          droppedRangeCount := dropped }
        (by
          show buffer.retainedByteLength - line.byteLength = _
          rw [hretained, List.map_cons, List.sum_cons]
          omega)
      exact ⟨hkeeps.trans hrest, hlast⟩
    · rw [if_neg hover]
      exact ⟨keeps_refl _, hretained, Nat.not_lt.mp hover, rfl, rfl⟩

theorem pushLine_spec (line : StoredLine) (hfits : Fits budget buffer) :
    Keeps buffer (buffer.pushLine budget line) line.pieces ∧
      Fits budget (buffer.pushLine budget line) ∧
      (buffer.pushLine budget line).partialByteLength = buffer.partialByteLength := by
  obtain ⟨hkeeps, hretained, hwithin, hpartial, hlength⟩ := @enforceContentBudget_spec budget
    (buffer.visibleLines ++ [line])
    { buffer with retainedByteLength := buffer.retainedByteLength + line.byteLength }
    (by
      show buffer.retainedByteLength + line.byteLength = _
      rw [hfits.retained, List.map_append, List.sum_append]
      rfl)
  have hpush : Keeps buffer
      { buffer with
        retainedByteLength := buffer.retainedByteLength + line.byteLength
        visibleLines := buffer.visibleLines ++ [line] } line.pieces := by
    refine ⟨Nat.le_refl _, rfl, rfl, fun _ _ source i => ?_⟩
    have hspans : lineSpans (buffer.visibleLines ++ [line])
        = lineSpans buffer.visibleLines ++ line.pieces := by
      unfold lineSpans
      rw [List.flatMap_append, List.flatMap_singleton]
    rw [LiveLogBuffer.places_eq, LiveLogBuffer.places_eq]
    simp only [hspans, Span.covered_append]
    omega
  have hall := hpush.trans hkeeps
  rw [List.append_nil] at hall
  refine ⟨hall, ⟨hretained, hwithin, ?_, ?_⟩, hlength⟩
  · exact hlength.trans (hfits.partialBytes.trans (congrArg pieceBytes hpartial.symm))
  · exact Nat.le_trans (Nat.le_of_eq hlength) hfits.partialLimit

/-- A line with the spans of some pieces. -/
theorem emitLine_spec (pieces : List BytePiece) (hfits : Fits budget buffer) :
    Keeps buffer (buffer.emitLine budget pieces) (pieces.map (·.span)) ∧
      Fits budget (buffer.emitLine budget pieces) ∧
      (buffer.emitLine budget pieces).partialByteLength = buffer.partialByteLength := by
  obtain ⟨hkeeps, hrest⟩ := pushLine_spec
    { text := decodeLine pieces, pieces := rangePieces pieces
      byteLength := estimateStoredLineBytes (decodeLine pieces) (rangePieces pieces).length } hfits
  exact ⟨hkeeps.congr fun source i => (rangePieces_covered pieces source i).symm, hrest⟩

/-- The first bytes of the open line become a line. -/
theorem emitPartial_spec (length : Nat) (hfits : Fits budget buffer) :
    Keeps buffer (buffer.emitPartial budget length) [] ∧
      Fits budget (buffer.emitPartial budget length) ∧
      (buffer.emitPartial budget length).partialByteLength = buffer.partialByteLength - length := by
  obtain ⟨htaken, hleft, hcovered⟩ := splitPieces_spec length buffer.partialLine
  unfold emitPartial takePartial
  dsimp only
  have hbytes := hfits.partialBytes
  have hlimit := hfits.partialLimit
  have hsum : ((splitPieces length buffer.partialLine).1.map (·.bytes.length)).sum
      = min length (pieceBytes buffer.partialLine) := htaken
  rw [hsum]
  have hshort : Fits budget
      { buffer with
        partialLine := (splitPieces length buffer.partialLine).2
        partialByteLength := buffer.partialByteLength - min length (pieceBytes buffer.partialLine) } := by
    refine ⟨hfits.retained, hfits.within, ?_, ?_⟩
    · show buffer.partialByteLength - _ = pieceBytes (splitPieces length buffer.partialLine).2
      omega
    · show buffer.partialByteLength - _ ≤ _
      omega
  obtain ⟨hkeeps, hlast, hlength⟩ := emitLine_spec (splitPieces length buffer.partialLine).1 hshort
  refine ⟨⟨hkeeps.dropped, hkeeps.sessionId, hkeeps.offsets, fun hdropped honce source i => ?_⟩, hlast, ?_⟩
  · have hplaces : ∀ source i, Span.covered buffer.places source i
        = Span.covered (LiveLogBuffer.places
            { buffer with
              partialLine := (splitPieces length buffer.partialLine).2
              partialByteLength := buffer.partialByteLength - min length (pieceBytes buffer.partialLine) })
            source i
          + Span.covered ((splitPieces length buffer.partialLine).1.map (·.span)) source i := by
      intro source i
      rw [LiveLogBuffer.places_eq, LiveLogBuffer.places_eq]
      simp only [Span.covered_append, hcovered source i]
      omega
    have hnew := hkeeps.covered hdropped (fun source i => by
      have hall := honce source i
      rw [hplaces, Span.covered_nil] at hall
      omega) source i
    rw [hnew, hplaces, Span.covered_nil]
    omega
  · rw [hlength]
    show buffer.partialByteLength - _ = _
    omega

/-! ## The open line -/

/-- Nothing is added by a piece without bytes. -/
theorem keeps_nil_piece {piece : BytePiece} (h : piece.bytes = []) (buffer : LiveLogBuffer) :
    Keeps buffer buffer [piece.span] := by
  refine (keeps_refl buffer).congr fun source i => ?_
  rw [Span.covered_cons, cover_piece_nil h, Nat.zero_add]

theorem pushPartial_spec {piece : BytePiece} (hfits : Fits budget buffer)
    (hlen : buffer.partialByteLength + piece.bytes.length ≤ longLineByteLimit) :
    Keeps buffer (buffer.pushPartial piece) [piece.span] ∧ Fits budget (buffer.pushPartial piece) ∧
      (buffer.pushPartial piece).partialByteLength = buffer.partialByteLength + piece.bytes.length := by
  unfold pushPartial
  by_cases hnil : piece.bytes = []
  · rw [if_pos hnil]
    refine ⟨keeps_nil_piece hnil buffer, hfits, ?_⟩
    rw [hnil]
    rfl
  · rw [if_neg hnil]
    refine ⟨⟨Nat.le_refl _, rfl, rfl, fun _ _ source i => ?_⟩, ⟨hfits.retained, hfits.within, ?_, hlen⟩, rfl⟩
    · rw [LiveLogBuffer.places_eq, LiveLogBuffer.places_eq]
      simp only [List.map_append, List.map_singleton, Span.covered_append]
      omega
    · show buffer.partialByteLength + piece.bytes.length = _
      rw [pieceBytes_append, hfits.partialBytes]
      rfl

theorem utf8Width_le (byte : UInt8) : utf8Width byte ≤ 4 := by
  unfold utf8Width
  repeat' split
  all_goals decide

/-- A full line is cut behind at least one byte. -/
theorem safeUtf8PrefixLength_pos (hfits : Fits budget buffer)
    (hfull : buffer.partialByteLength = longLineByteLimit) :
    0 < buffer.safeUtf8PrefixLength longLineByteLimit := by
  have hbytes := length_joinPieces buffer.partialLine
  rw [← hfits.partialBytes, hfull] at hbytes
  have hmin : min longLineByteLimit (LiveLogBuffer.joinPieces buffer.partialLine).length = longLineByteLimit := by
    rw [hbytes, Nat.min_self]
  have hlimit : 4 < longLineByteLimit := by decide
  unfold safeUtf8PrefixLength
  dsimp only
  rw [hmin]
  split
  next => omega
  next lead hlead =>
    have hwidth := utf8Width_le ((LiveLogBuffer.joinPieces buffer.partialLine).getD lead 0)
    split
    next => omega
    next => omega

/-- A piece goes into the open line whole, with lines cut off on the way. -/
theorem fillPartial_spec {fuel : Nat} {piece : BytePiece} (hfits : Fits budget buffer)
    (hfuel : 2 * piece.bytes.length + (if buffer.partialByteLength = longLineByteLimit then 1 else 0) ≤ fuel) :
    Keeps buffer (buffer.fillPartial budget fuel piece) [piece.span] ∧
      Fits budget (buffer.fillPartial budget fuel piece) := by
  induction fuel generalizing piece buffer with
  | zero => exact ⟨keeps_nil_piece (List.length_eq_zero_iff.mp (by omega)) buffer, hfits⟩
  | succ fuel ih =>
    unfold fillPartial
    by_cases hnil : piece.bytes = []
    · rw [if_pos hnil]
      exact ⟨keeps_nil_piece hnil buffer, hfits⟩
    · rw [if_neg hnil]
      dsimp only
      have hpos : 0 < piece.bytes.length := List.length_pos_iff.mpr hnil
      have hlimit := hfits.partialLimit
      generalize htaken : min piece.bytes.length (longLineByteLimit - buffer.partialByteLength) = taken
      have hslice : (piece.slice 0 taken).bytes.length = taken := by
        rw [length_slice]
        omega
      have hrest : (piece.slice taken piece.bytes.length).bytes.length = piece.bytes.length - taken := by
        rw [length_slice, Nat.min_self]
      obtain ⟨hpush, hpushFits, hpushLength⟩ := @pushPartial_spec budget buffer (piece.slice 0 taken) hfits
        (by omega)
      rw [hslice] at hpushLength
      have hcut : ∀ source i, Span.covered [piece.span] source i
          = Span.covered ([(piece.slice 0 taken).span]
            ++ [(piece.slice taken piece.bytes.length).span]) source i := by
        intro source i
        rw [Span.covered_append, Span.covered_cons, Span.covered_cons, Span.covered_cons, Span.covered_nil,
          cover_slice piece (show taken ≤ piece.bytes.length by omega)]
        omega
      by_cases hfull : (buffer.pushPartial (piece.slice 0 taken)).partialByteLength = longLineByteLimit ∧
          (piece.slice taken piece.bytes.length).bytes ≠ []
      · rw [if_pos hfull]
        -- cutting a line off makes room, so the next turn takes some bytes
        have hsafe := safeUtf8PrefixLength_pos hpushFits hfull.1
        have hsome : 0 < longLineByteLimit := by decide
        obtain ⟨hemit, hemitFits, hemitLength⟩ := emitPartial_spec
          ((buffer.pushPartial (piece.slice 0 taken)).safeUtf8PrefixLength longLineByteLimit) hpushFits
        have hroom : (if ((buffer.pushPartial (piece.slice 0 taken)).emitPartial budget
            ((buffer.pushPartial (piece.slice 0 taken)).safeUtf8PrefixLength longLineByteLimit)).partialByteLength
              = longLineByteLimit then 1 else 0) = 0 := if_neg (by omega)
        have hmeasure : 2 * (piece.bytes.length - taken) ≤ fuel := by
          by_cases hzero : taken = 0
          · rw [if_pos (by omega)] at hfuel
            omega
          · omega
        obtain ⟨hkeeps, hlast⟩ := ih hemitFits (by rw [hroom, hrest]; exact hmeasure)
        exact ⟨((hpush.trans hemit).trans hkeeps).congr hcut, hlast⟩
      · rw [if_neg hfull]
        have hmeasure : 2 * (piece.slice taken piece.bytes.length).bytes.length
            + (if (buffer.pushPartial (piece.slice 0 taken)).partialByteLength = longLineByteLimit then 1 else 0)
              ≤ fuel := by
          rw [hrest]
          by_cases hend : (piece.slice taken piece.bytes.length).bytes = []
          · have hzero : piece.bytes.length - taken = 0 := by
              rw [← hrest, hend]
              rfl
            split <;> omega
          · rw [if_neg (fun hbad => hfull ⟨hbad, hend⟩)]
            have hroom : (buffer.pushPartial (piece.slice 0 taken)).partialByteLength ≠ longLineByteLimit :=
              fun hbad => hfull ⟨hbad, hend⟩
            omega
        obtain ⟨hkeeps, hlast⟩ := ih hpushFits hmeasure
        exact ⟨(hpush.trans hkeeps).congr hcut, hlast⟩

/-- The open line is never longer than the limit, so there is nothing to trim. -/
theorem trimPartial_eq (fuel : Nat) (hfits : Fits budget buffer) :
    buffer.trimPartial budget fuel = buffer := by
  cases fuel with
  | zero => rfl
  | succ fuel => exact if_neg (Nat.not_lt.mpr hfits.partialLimit)

theorem lineEnd_bounds {bytes : Bytes} (hne : bytes ≠ []) :
    1 ≤ (lineEnd bytes).1 ∧ (lineEnd bytes).1 ≤ bytes.length := by
  have hpos : 0 < bytes.length := List.length_pos_iff.mpr hne
  unfold lineEnd
  split
  next i hi =>
    have hlt := (List.findIdx?_eq_some_iff_findIdx_eq.mp hi).1
    exact ⟨Nat.succ_le_succ (Nat.zero_le i), hlt⟩
  next => exact ⟨hpos, Nat.le_refl _⟩

/-- All bytes of a piece are taken in. -/
theorem appendBytes_spec {fuel : Nat} {piece : BytePiece} (hfits : Fits budget buffer)
    (hfuel : piece.bytes.length ≤ fuel) :
    Keeps buffer (buffer.appendBytes budget fuel piece) [piece.span] ∧
      Fits budget (buffer.appendBytes budget fuel piece) := by
  induction fuel generalizing piece buffer with
  | zero => exact ⟨keeps_nil_piece (List.length_eq_zero_iff.mp (Nat.le_zero.mp hfuel)) buffer, hfits⟩
  | succ fuel ih =>
    unfold appendBytes
    by_cases hnil : piece.bytes = []
    · rw [if_pos hnil]
      exact ⟨keeps_nil_piece hnil buffer, hfits⟩
    · rw [if_neg hnil]
      obtain ⟨hstart, hstop⟩ := lineEnd_bounds hnil
      generalize hend : lineEnd piece.bytes = lineStop at hstart hstop
      obtain ⟨stop, ended⟩ := lineStop
      dsimp only at hstart hstop ⊢
      have hslice : (piece.slice 0 stop).bytes.length = stop := by
        rw [length_slice]
        omega
      have hrest : (piece.slice stop piece.bytes.length).bytes.length = piece.bytes.length - stop := by
        rw [length_slice, Nat.min_self]
      obtain ⟨hfill, hfillFits⟩ := @fillPartial_spec budget buffer (2 * stop + 1) (piece.slice 0 stop) hfits
        (by rw [hslice]; split <;> omega)
      generalize buffer.fillPartial budget (2 * stop + 1) (piece.slice 0 stop) = filled at hfill hfillFits ⊢
      have hline : Keeps filled (if ended then filled.emitPartial budget filled.partialByteLength else filled) [] ∧
          Fits budget (if ended then filled.emitPartial budget filled.partialByteLength else filled) := by
        split
        next =>
          obtain ⟨hkeeps, hfits, _⟩ := emitPartial_spec filled.partialByteLength hfillFits
          exact ⟨hkeeps, hfits⟩
        next => exact ⟨keeps_refl _, hfillFits⟩
      rw [trimPartial_eq _ hline.2]
      obtain ⟨hkeeps, hlast⟩ := @ih _ (piece.slice stop piece.bytes.length) hline.2 (by omega)
      refine ⟨((hfill.trans hline.1).trans hkeeps).congr fun source i => ?_, hlast⟩
      show _ = Span.covered ([(piece.slice 0 stop).span] ++ [] ++ [(piece.slice stop _).span]) source i
      rw [List.append_nil, Span.covered_append, Span.covered_cons, Span.covered_cons, Span.covered_cons,
        Span.covered_nil, cover_slice piece hstop]
      omega

/-- Pieces without bytes cover nothing. -/
theorem covered_of_pieceBytes {pieces : List BytePiece} (h : pieceBytes pieces = 0) (source : Source)
    (i : Nat) : Span.covered (pieces.map (·.span)) source i = 0 := by
  induction pieces with
  | nil => rfl
  | cons piece pieces ih =>
    rw [pieceBytes_cons] at h
    rw [List.map_cons, Span.covered_cons, ih (by omega),
      cover_piece_nil (List.length_eq_zero_iff.mp (by omega))]

/-- The open line is dropped: its bytes are missing from then on. -/
theorem discardPartial_spec (reason : Reason) (hfits : Fits budget buffer) :
    Keeps buffer (buffer.discardPartial reason) [] ∧ Fits budget (buffer.discardPartial reason) := by
  have hzero : (0 : Nat) ≤ longLineByteLimit := Nat.zero_le _
  unfold discardPartial
  by_cases hempty : buffer.partialByteLength = 0
  · rw [if_pos hempty]
    refine ⟨⟨Nat.le_refl _, rfl, rfl, fun _ _ source i => ?_⟩, ⟨hfits.retained, hfits.within, rfl, hzero⟩⟩
    have hnone := covered_of_pieceBytes (hfits.partialBytes.symm.trans hempty) source i
    rw [LiveLogBuffer.places_eq, LiveLogBuffer.places_eq]
    simp only [Span.covered_append, hnone]
    rfl
  · rw [if_neg hempty]
    have hadds := recordPieces_adds (buffer.partialLine.map (·.span)) reason none buffer
    generalize buffer.recordPieces (buffer.partialLine.map (·.span)) reason none = recorded at hadds ⊢
    have hcovered := hadds.covered
    obtain ⟨ranges, id, dropped, hle, rfl⟩ := hadds.only
    refine ⟨⟨hle, rfl, rfl, fun hdropped honce source i => ?_⟩,
      ⟨hfits.retained, hfits.within, rfl, hzero⟩⟩
    have hall := honce source i
    rw [LiveLogBuffer.places_eq] at hall
    simp only [Span.covered_append, Span.covered_nil] at hall
    have hranges := hcovered hdropped source i (by omega)
    rw [LiveLogBuffer.places_eq, LiveLogBuffer.places_eq]
    simp only [Span.covered_append, Span.covered_nil, List.map_nil]
    dsimp only at hranges ⊢
    omega

end CameraLogs.Viewer

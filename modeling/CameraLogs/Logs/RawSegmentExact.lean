import CameraLogs.Logs.RawSegment
import CameraLogs.Logs.WriterPersistence
import CameraLogs.Logs.WriterRotation

/-!
# The two manifests agree

`WriterReachable.ok` is the run lemma: without an I/O error every state of every run is
as `WriterOk` says, whatever the calls are. So the rows of a sealed segment tile its log
and are numbered one after the other, and reading them back finds what the writer counted
(`raw_segment_agrees`), but for the hour, which the directories name without its zone.

The other way round, whatever the files are: what `rawSegment` accepts is a log that its
index tiles, with numbers that follow one another (`RawTiles`).
-/

namespace CameraLogs.Logs

open Lib Lib.Prog

/-! ## Runs without a failure -/

section Runs

variable {storage : Storage} {writer : Writer} {received : Bytes}

theorem WriterOk.announce (hok : WriterOk storage writer received) (archives : List SealedSegment) :
    WriterOk storage (writer.announce archives) received := by
  refine ⟨hok.calm, hok.kept, hok.segments, hok.numbered, hok.handed, ?_⟩
  intro file hfile
  have ok := hok.file file hfile
  exact ⟨ok.size, ok.limit, ok.read, ok.hour, ok.tiles, ok.sorted, ok.digest, ok.indexDigest,
    ok.first, ok.last, ok.firstReceivedAt, ok.lastReceivedAt⟩

variable (hfine : ∀ count step, storage.fails count step = none)

include hfine

/-- A batch, also for a writer whose file has been closed. -/
theorem returns_writeMany_ok (hok : WriterOk storage writer received) (chunks : List Chunk) :
    Returns (writeMany storage chunks) writer fun _ writer' =>
      WriterOk storage writer' (received ++ chunks.flatMap (·.data)) := by
  have hne : ∀ piece ∈ normalize 0 chunks, piece.data ≠ [] := fun _ hp => normalize_ne_nil hp
  unfold writeMany
  refine Returns.get_bind ?_
  rw [hok.calm]
  refine Returns.tryCatch ?_
  rw [← payloadOf_normalize 0 chunks]
  rcases hpieces : normalize 0 chunks with _ | ⟨piece, pieces⟩
  · rw [payloadOf_nil, List.append_nil]
    exact Returns.pure hok
  rw [hpieces] at hne
  rcases hfile : writer.file with _ | file
  · exact (returns_writeFirst hfine hok hfile hne).mono fun _ _ hpost => hpost.ok
  · have hstart : writer.file = none → writer.lastReceivedAt = none := by
      intro hnone
      rw [hfile] at hnone
      cases hnone
    exact (returns_writePieces hfine hok hne rfl hstart).mono fun _ _ hpost => hpost.ok

theorem returns_syncDue_ok (hok : WriterOk storage writer received) :
    Returns (syncDue storage) writer fun _ writer' => WriterOk storage writer' received := by
  unfold CameraLogs.Logs.syncDue
  refine Returns.get_bind ?_
  rw [hok.calm]
  dsimp only
  split
  next => exact Returns.bind (returns_syncFiles hfine (Returns.pure hok.tick.synced))
  next => exact Returns.pure hok

theorem returns_rotate_ok (hok : WriterOk storage writer received) (now : Option Instant) :
    Returns (rotate storage now) writer fun _ writer' => WriterOk storage writer' received := by
  unfold rotate
  refine Returns.bind ((returns_sealLocked hfine hok).mono ?_)
  intro _ w₁ hsealed
  refine Returns.bind ((returns_publishPendingLocked hfine hsealed.1.1 false).mono ?_)
  intro archives w₂ hpublished
  obtain ⟨⟨hok₂, -⟩, hfile, -⟩ := hpublished
  cases now with
  | none => exact Returns.bind (Returns.modify (Returns.pure (hok₂.announce _)))
  | some now =>
    refine Returns.bind ((returns_openFile hfine hok₂ (hfile.trans hsealed.2) _).mono ?_)
    intro _ w₃ hopened
    exact Returns.bind (Returns.modify (Returns.pure (hopened.1.1.announce _)))

theorem returns_close_ok (hok : WriterOk storage writer received) (defer : Bool) :
    Returns (close storage defer) writer fun _ writer' => WriterOk storage writer' received := by
  unfold close
  refine Returns.bind ((returns_sealLocked hfine hok).mono ?_)
  intro _ w₁ hsealed
  refine Returns.bind ((returns_publishPendingLocked hfine hsealed.1.1 defer).mono ?_)
  intro archives w₂ hpublished
  exact Returns.bind (Returns.modify (Returns.pure (hpublished.1.1.announce _)))

/-- A call. -/
theorem WriterCall.run_ok (hok : WriterOk storage writer received) (call : WriterCall) :
    ∃ received', WriterOk storage (call.run storage writer) received' := by
  have hstate : ∀ {α : Type} {m : WriterM α} {received' : Bytes},
      Returns m writer (fun _ writer' => WriterOk storage writer' received') →
        WriterOk storage (m.exec writer).2 received' := by
    intro α m received' h
    obtain ⟨a, after, hexec, hafter⟩ := h
    rw [hexec]
    exact hafter
  cases call with
  | writeMany chunks => exact ⟨_, hstate (returns_writeMany_ok hfine hok chunks)⟩
  | syncDue => exact ⟨_, hstate (returns_syncDue_ok hfine hok)⟩
  | rotate now => exact ⟨_, hstate (returns_rotate_ok hfine hok now)⟩
  | close defer => exact ⟨_, hstate (returns_close_ok hfine hok defer)⟩

/-- The run lemma: every state of every run is as it should be. -/
theorem WriterReachable.ok (h : WriterReachable storage writer) :
    ∃ received, WriterOk storage writer received := by
  refine Reachable.invariant (I := fun w => ∃ received, WriterOk storage w received) ?_ ?_ h
  · intro s hs
    subst hs
    exact ⟨[], rfl, rfl, fun _ h => absurd h List.not_mem_nil, rfl, rfl, fun _ h => nomatch h⟩
  · intro s t hst hs
    obtain ⟨call, rfl⟩ := hst
    obtain ⟨received, hok⟩ := hs
    exact call.run_ok hfine hok

end Runs

/-- Every file is in the directory of its hour. -/
structure InPlace (writer : Writer) : Prop where
  sealed : ∀ segment ∈ writer.sealed, segment.log.hour = segment.hour
  file : ∀ file, writer.file = some file → file.log.hour = file.hour

theorem inPlace_stable : Stable InPlace where
  frame h hfile _ hsealed _ := by
    refine ⟨?_, ?_⟩
    · rw [hsealed]
      exact h.sealed
    · rw [hfile]
      exact h.file
  opened log segmentMaxBytes h := by
    refine ⟨h.sealed, ?_⟩
    intro file hfile
    cases hfile
    rfl
  extend bytes rows h := by
    refine ⟨h.sealed, ?_⟩
    intro file hfile
    obtain ⟨old, hold, heq⟩ := Option.map_eq_some_iff.mp hfile
    rw [← heq]
    exact h.file old hold
  detached h := ⟨h.sealed, fun _ hfile => nomatch hfile⟩
  enqueue h hopen h' := by
    refine ⟨?_, h'.file⟩
    intro segment hin
    rcases List.mem_append.mp hin with hin | hin
    · exact h'.sealed segment hin
    · rw [List.mem_singleton.mp hin]
      exact h.file _ hopen
  persisted h hfile _ hsealed _ := by
    refine ⟨?_, ?_⟩
    · rw [hsealed]
      exact h.sealed
    · rw [hfile]
      exact h.file

theorem WriterReachable.inPlace {storage : Storage} {writer : Writer}
    (hpersists : storage.Persists) (h : WriterReachable storage writer) : InPlace writer := by
  refine Reachable.invariant (I := InPlace) ?_ ?_ h
  · intro s hs
    subst hs
    exact ⟨fun _ hin => absurd hin List.not_mem_nil, fun _ hfile => nomatch hfile⟩
  · intro s t hst hs
    obtain ⟨call, rfl⟩ := hst
    exact call.run_preserves hpersists inPlace_stable hs

/-! ## Reading back what was written -/

section Reading

variable {encoding : Encoding} {scan scan' : RawScan}

theorem scanLine_row {row : IndexRow} (hjson : encoding.loads (encoding.dumps row) = some (.ofRow row))
    (hlength : 0 < row.length) (hhead : scan.offset = none → row.offset = 0)
    (hoffset : ∀ stop ∈ scan.offset, (row.offset : Int) = stop)
    (hsequence : ∀ previous ∈ scan.previousSequence, (row.sequence : Int) = previous + 1) :
    scanLine encoding scan (encoding.dumps row) =
      .ok (scan.next row.sequence row.offset row.length (some row.receivedAt)) := by
  unfold scanLine
  rw [hjson]
  dsimp only [Record.ofRow]
  rw [if_neg (by omega), if_neg, if_neg, if_neg]
  · rfl
  · intro hbad
    obtain ⟨previous, hin, hne⟩ := hbad
    exact hne (hsequence previous hin)
  · intro hbad
    obtain ⟨stop, hin, hne⟩ := hbad
    exact hne (hoffset stop hin)
  · intro hbad
    have hzero := hhead hbad.1
    exact hbad.2 (by omega)

/-- What a scan knows after rows it has accepted. -/
structure ScannedRows (scan scan' : RawScan) (rows : List IndexRow) (stop : Nat) : Prop where
  offset : rows ≠ [] → scan'.offset = some (stop : Int)
  firstSequence : scan'.firstSequence =
    scan.firstSequence.or (rows.head?.map fun row => (row.sequence : Int))
  lastSequence : scan'.lastSequence =
    (rows.getLast?.map fun row => (row.sequence : Int)).or scan.lastSequence
  firstReceivedAt : scan'.firstReceivedAt =
    scan.firstReceivedAt.or (rows.head?.map (·.receivedAt))
  lastReceivedAt : scan'.lastReceivedAt =
    (rows.getLast?.map (·.receivedAt)).or scan.lastReceivedAt
  reliable : scan'.receivedTimesReliable = scan.receivedTimesReliable

/-- By induction on the rows: the next one starts where the last one stops, and has the next
number. -/
theorem scan_rows {rows : List IndexRow}
    (hjson : ∀ row ∈ rows, encoding.loads (encoding.dumps row) = some (.ofRow row))
    {start stop first : Nat} (htiles : Tiles start rows stop)
    (hnumbers : rows.map (·.sequence) = List.range' first rows.length)
    (hoffset : scan.offset = none ∧ start = 0 ∨ scan.offset = some (start : Int))
    (hprevious : ∀ previous ∈ scan.previousSequence, (first : Int) = previous + 1) :
    ∃ scan', (rows.map encoding.dumps).foldlM (scanLine encoding) scan = .ok scan' ∧
      ScannedRows scan scan' rows stop := by
  induction rows generalizing scan start first with
  | nil => exact ⟨scan, rfl, fun h => absurd rfl h, (Option.or_none).symm, rfl, (Option.or_none).symm,
      rfl, rfl⟩
  | cons row rows ih =>
    obtain ⟨hstart, hlength, hrest⟩ := htiles
    rw [List.map_cons, List.length_cons, List.range'_succ] at hnumbers
    obtain ⟨hsequence, hnumbers'⟩ := List.cons.inj hnumbers
    have hline : scanLine encoding scan (encoding.dumps row) =
        .ok (scan.next row.sequence row.offset row.length (some row.receivedAt)) := by
      refine scanLine_row (hjson row List.mem_cons_self) hlength ?_ ?_ ?_
      · intro hnone
        rcases hoffset with h | h
        · exact hstart.trans h.2
        · rw [hnone] at h
          cases h
      · intro stop' hstop
        rcases hoffset with h | h
        · rw [h.1] at hstop
          cases hstop
        · rw [h] at hstop
          cases hstop
          rw [hstart]
      · intro previous hin
        rw [hsequence]
        exact hprevious previous hin
    have hnext : (scan.next row.sequence row.offset row.length (some row.receivedAt)).offset =
        some ((start + row.length : Nat) : Int) := by
      show some ((row.offset : Int) + row.length) = _
      rw [hstart]
      rfl
    obtain ⟨scan', hscan, hrows⟩ := ih (fun r hr => hjson r (List.mem_cons_of_mem _ hr)) hrest hnumbers'
      (Or.inr hnext) (by
        intro previous hin
        cases hin
        rw [hsequence]
        rfl)
    refine ⟨scan', ?_, ?_, ?_, ?_, ?_, ?_, ?_⟩
    · rw [List.map_cons, List.foldlM_cons, hline]
      exact hscan
    · intro _
      rcases rows with _ | ⟨next, rows⟩
      · have hlast : start + row.length = stop := hrest
        have hsame : scan' = scan.next row.sequence row.offset row.length (some row.receivedAt) :=
          (Except.ok.inj hscan).symm
        rw [hsame, hnext, hlast]
      · exact hrows.offset (List.cons_ne_nil _ _)
    · rw [hrows.firstSequence]
      rcases hfirst : scan.firstSequence with _ | x <;> simp [RawScan.next, hfirst]
    · rw [hrows.lastSequence, List.getLast?_cons]
      rcases rows.getLast? with _ | last <;> simp [RawScan.next]
    · rw [hrows.firstReceivedAt]
      rcases hfirst : scan.firstReceivedAt with _ | x <;> simp [RawScan.next, hfirst]
    · rw [hrows.lastReceivedAt, List.getLast?_cons]
      rcases rows.getLast? with _ | last <;> simp [RawScan.next]
    · rw [hrows.reliable]
      exact Bool.and_true _

/-- The directories of an hour in the calendar name it. -/
theorem rawHour_rawLogOf (names : WriterNames) {segment : SealedSegment}
    (hcalendar : 1 ≤ ordinalOf segment.log.hour) :
    rawHour (rawLogOf encoding names segment) = .ok (shanghai.start segment.log.hour) := by
  have hvalid : (dateOf segment.log.hour).Valid := Date.valid_ofOrdinal _
  have hday : hourOfDay segment.log.hour < 24 := by
    unfold hourOfDay
    omega
  have hordinal : ((dateOf segment.log.hour).toOrdinal : Int) = ordinalOf segment.log.hour := by
    unfold dateOf
    rw [Date.toOrdinal_ofOrdinal (by omega)]
    omega
  have hhour : ((dateOf segment.log.hour).toOrdinal - epochOrdinal) * 24 +
      (hourOfDay segment.log.hour : Int) = segment.log.hour := by
    rw [hordinal]
    unfold ordinalOf hourOfDay
    omega
  show (if (dateOf segment.log.hour).Valid ∧ hourOfDay segment.log.hour < 24 then _ else _) = _
  rw [if_pos ⟨hvalid, hday⟩, hhour]
  rfl

end Reading

/-- The numbers of a segment's rows follow one another. -/
theorem numbers_of_sealed {storage : Storage} {writer : Writer} {received : Bytes}
    (hok : WriterOk storage writer received) {segment : SealedSegment}
    (hin : segment ∈ writer.sealed) :
    ∃ first, segment.rows.map (·.sequence) = List.range' first segment.rows.length := by
  obtain ⟨before, after, hsplit⟩ := List.append_of_mem hin
  have hnumbered := hok.numbered
  rw [hsplit, List.flatMap_append, List.flatMap_cons, List.append_assoc, List.map_append] at hnumbered
  obtain ⟨k, -, -, hrest⟩ := List.range'_eq_append_iff.mp hnumbered.symm
  rw [List.append_assoc, List.map_append] at hrest
  obtain ⟨l, -, hrows, -⟩ := List.range'_eq_append_iff.mp hrest.symm
  have hlength := congrArg List.length hrows
  rw [List.length_map, List.length_range'] at hlength
  exact ⟨_, by rw [hlength]; exact hrows⟩

section Agreement

variable {δ : Type} {encoding : Encoding} {digest : Bytes → δ} {owner : SegmentOwner}
  {names : WriterNames} {storage : Storage}

/-- Recovery finds the manifest of a segment, with the hour of its directories. -/
theorem rawSegment_of_segmentOk {segment : SealedSegment} (hsegment : SegmentOk storage segment)
    {first : Nat} (hnumbers : segment.rows.map (·.sequence) = List.range' first segment.rows.length)
    (hplace : segment.log.hour = segment.hour) (hcalendar : 1 ≤ ordinalOf segment.hour)
    (hjson : ∀ row ∈ segment.rows, encoding.loads (encoding.dumps row) = some (.ofRow row))
    (zone : Zone) :
    rawSegment encoding digest owner (rawLogOf encoding names segment) =
      .ok { segmentManifest encoding digest owner names zone segment with
        hourStart := shanghai.start segment.hour } := by
  obtain ⟨scan, hscan, hrows⟩ := @scan_rows encoding RawScan.initial segment.rows hjson _ _ _
    hsegment.tiles hnumbers (Or.inl ⟨rfl, rfl⟩) (fun _ hin => nomatch hin)
  have hne : segment.rows ≠ [] := by
    intro hnil
    have hzero : 0 = segment.size := by
      have htiles := hsegment.tiles
      rw [hnil] at htiles
      exact htiles
    rw [hsegment.size] at hzero
    exact hsegment.nonempty (List.length_eq_zero_iff.mp hzero.symm)
  have hoffset : scan.offset = some (segment.body.length : Int) := by
    rw [hrows.offset hne, hsegment.size]
  have hfirst : scan.firstSequence = segment.first.map Int.ofNat := by
    rw [hrows.firstSequence, hsegment.first, Option.map_map]
    rfl
  have hlast : scan.lastSequence = segment.last.map Int.ofNat := by
    rw [hrows.lastSequence, hsegment.last, Option.map_map]
    exact Option.or_none
  have hfirstAt : scan.firstReceivedAt = segment.firstReceivedAt := by
    rw [hrows.firstReceivedAt, hsegment.firstReceivedAt]
    rfl
  have hlastAt : scan.lastReceivedAt = segment.lastReceivedAt := by
    rw [hrows.lastReceivedAt, hsegment.lastReceivedAt]
    exact Option.or_none
  have hreliable : scan.receivedTimesReliable = true := hrows.reliable
  obtain ⟨row, rows, hcons⟩ := List.exists_cons_of_ne_nil hne
  have hsome : segment.first = some row.sequence := by rw [hsegment.first, hcons]; rfl
  have hlastne : segment.last ≠ none := by
    rw [hsegment.last, Ne, Option.map_eq_none_iff, List.getLast?_eq_none_iff]
    exact hne
  have hcovered : ¬(scan.offset ≠ some (segment.body.length : Int) ∨ scan.firstSequence = none ∨
      scan.lastSequence = none) := by
    rw [hoffset, hfirst, hlast, hsome]
    intro hbad
    rcases hbad with hbad | hbad | hbad
    · exact hbad rfl
    · cases hbad
    · exact hlastne (Option.map_eq_none_iff.mp hbad)
  have htext : (segment.rows.map encoding.dumps).flatten = encoding.text segment.indexDigest := by
    rw [hsegment.indexDigest]
    exact (List.flatMap_def ..).symm
  have hhour := @rawHour_rawLogOf encoding names segment (hplace ▸ hcalendar)
  rw [hplace] at hhour
  unfold rawSegment rawLogOf
  dsimp only
  rw [if_neg hsegment.nonempty, hscan]
  show (if _ then _ else _) = _
  rw [if_neg hcovered]
  unfold rawLogOf at hhour
  rw [hreliable, hfirst, hlast, hfirstAt, hlastAt, htext, hhour]
  unfold segmentManifest
  rw [hsegment.digest, hsegment.size]
  rfl

/-! ## What is accepted -/

/-- Lines of an index that cover a stretch of a log one behind the other, the first of them
with this number and each other with the next. -/
def RawTiles (encoding : Encoding) : Int → Nat → List Bytes → Nat → Prop
  | _, start, [], stop => start = stop
  | sequence, start, line :: lines, stop => ∃ (length : Nat) (receivedAt : ReceivedText),
      0 < length ∧
      encoding.loads line = some ⟨some sequence, some start, some length, receivedAt⟩ ∧
      RawTiles encoding (sequence + 1) (start + length) lines stop

/-- What a line says that has been accepted. -/
theorem scanLine_ok {scan scan' : RawScan} {line : Bytes}
    (h : scanLine encoding scan line = .ok scan') :
    ∃ (sequence : Int) (start length : Nat) (receivedAt : ReceivedText) (received : Option Instant),
      encoding.loads line = some ⟨some sequence, some start, some length, receivedAt⟩ ∧ 0 < length ∧
      (scan.offset = none → start = 0) ∧ (∀ stop ∈ scan.offset, (start : Int) = stop) ∧
      (∀ previous ∈ scan.previousSequence, sequence = previous + 1) ∧
      scan' = scan.next sequence start length received := by
  unfold scanLine at h
  split at h
  next => cases h
  next record hloads =>
    split at h
    next sequence offset length hsequence hoffset hlength =>
      split at h
      next => cases h
      next hposition =>
        obtain ⟨start, hstart⟩ := Int.eq_ofNat_of_zero_le (show 0 ≤ offset by omega)
        obtain ⟨count, hcount⟩ := Int.eq_ofNat_of_zero_le (show 0 ≤ length by omega)
        rw [hstart] at h hoffset
        rw [hcount] at h hlength
        dsimp only at h
        split at h
        next => cases h
        next received hreceived =>
          split at h
          next => cases h
          next hhead =>
            split at h
            next => cases h
            next hcontinuous =>
              split at h
              next => cases h
              next hnumber =>
                refine ⟨sequence, start, count, record.receivedAt, received, ?_, by omega, ?_, ?_, ?_,
                  (Except.ok.inj h).symm⟩
                · rw [hloads, ← hsequence, ← hoffset, ← hlength]
                · intro hnone
                  by_contra hne
                  exact hhead ⟨hnone, by omega⟩
                · intro stop hstop
                  by_contra hne
                  exact hcontinuous ⟨stop, hstop, hne⟩
                · intro previous hin
                  by_contra hne
                  exact hnumber ⟨previous, hin, hne⟩
    next => cases h

/-- By induction on the lines: where the next one starts and which number it has is fixed. -/
theorem rawTiles_of_scan {lines : List Bytes} {scan scan' : RawScan}
    (h : lines.foldlM (scanLine encoding) scan = .ok scan') {sequence : Int} {start : Nat}
    (hoffset : scan.offset = some (start : Int))
    (hprevious : scan.previousSequence = some (sequence - 1)) {first : Int}
    (hfirst : scan.firstSequence = some first) {stop : Nat}
    (hstop : scan'.offset = some (stop : Int)) :
    RawTiles encoding sequence start lines stop ∧ scan'.firstSequence = some first := by
  induction lines generalizing scan sequence start with
  | nil =>
    have hsame : scan = scan' := Except.ok.inj h
    rw [hsame, hstop] at hoffset
    have heq : (stop : Int) = start := Option.some_inj.mp hoffset
    rw [hsame] at hfirst
    exact ⟨show start = stop by omega, hfirst⟩
  | cons line lines ih =>
    rw [List.foldlM_cons] at h
    rcases hline : scanLine encoding scan line with error | next
    · rw [hline] at h
      cases h
    rw [hline] at h
    obtain ⟨number, offset, length, receivedAt, received, hloads, hlength, -, hcontinuous, hnumber,
      hnext⟩ := scanLine_ok hline
    have hstart : (offset : Int) = start := hcontinuous _ hoffset
    have hsequence : number = sequence - 1 + 1 := hnumber _ hprevious
    have hsame : number = sequence := by omega
    have hat : offset = start := by omega
    rw [hsame, hat] at hloads
    rw [hsame, hat] at hnext
    have hrest := @ih next h (sequence + 1) (start + length) (by
      rw [hnext]
      exact congrArg some (Int.natCast_add start length).symm) (by
      rw [hnext]
      exact congrArg some (by omega)) (by
      rw [hnext]
      show scan.firstSequence.or _ = _
      rw [hfirst]
      rfl)
    exact ⟨⟨length, receivedAt, hlength, hloads, hrest.1⟩, hrest.2⟩

/-- Recovery accepts only a log that its index tiles. -/
theorem rawTiles_of_rawSegment {log : RawLog} {manifest : SegmentManifest δ}
    (h : rawSegment encoding digest owner log = .ok manifest) :
    ∃ lines first, log.index = some lines ∧ lines ≠ [] ∧ manifest.firstSequence = some first ∧
      manifest.rawSize = log.body.length ∧
      RawTiles encoding first 0 lines log.body.length := by
  unfold rawSegment at h
  split at h
  next => cases h
  next lines hindex =>
    split at h
    next => cases h
    next =>
      rcases hscan : lines.foldlM (scanLine encoding) RawScan.initial with error | scan
      · rw [hscan] at h
        cases h
      rw [hscan] at h
      change (if _ then _ else _) = _ at h
      split at h
      next => cases h
      next hcovered =>
        have hoffset : scan.offset = some (log.body.length : Int) := by
          by_contra hne
          exact hcovered (Or.inl hne)
        rcases hhour : rawHour log with error | hourStart
        · rw [hhour] at h
          cases h
        rw [hhour] at h
        have hmanifest := Except.ok.inj h
        rcases lines with _ | ⟨line, lines⟩
        · have hsame : RawScan.initial = scan := Except.ok.inj hscan
          rw [← hsame] at hoffset
          cases hoffset
        rw [List.foldlM_cons] at hscan
        rcases hline : scanLine encoding RawScan.initial line with error | next
        · rw [hline] at hscan
          cases hscan
        rw [hline] at hscan
        obtain ⟨first, start, length, receivedAt, received, hloads, hlength, hhead, -, -, hnext⟩ :=
          scanLine_ok hline
        rw [hhead rfl] at hloads hnext
        obtain ⟨htiles, hfirst⟩ := @rawTiles_of_scan encoding lines next scan hscan (first + 1) length
          (by
            rw [hnext]
            exact congrArg some (Int.zero_add _))
          (by
            rw [hnext]
            exact congrArg some (by omega)) first (by rw [hnext]; rfl) _ hoffset
        refine ⟨line :: lines, first, hindex, List.cons_ne_nil _ _, ?_, ?_, length, receivedAt,
          hlength, hloads, ?_⟩
        · rw [← hmanifest]
          exact hfirst
        · rw [← hmanifest]
        · rw [Nat.zero_add]
          exact htiles

/-- In a zone where the hour starts at another instant, recovery finds another manifest. -/
theorem rawSegment_ne_of_start_ne {segment : SealedSegment} {zone : Zone}
    (hraw : rawSegment encoding digest owner (rawLogOf encoding names segment) =
      .ok { segmentManifest encoding digest owner names zone segment with
        hourStart := shanghai.start segment.hour })
    (hne : zone.start segment.hour ≠ shanghai.start segment.hour) :
    rawSegment encoding digest owner (rawLogOf encoding names segment) ≠
      .ok (segmentManifest encoding digest owner names zone segment) := by
  intro heq
  have hsame := congrArg SegmentManifest.hourStart (Except.ok.inj (hraw.symm.trans heq))
  exact hne hsame.symm

end Agreement

/-- A disk that does not fail, for a writer in a zone so far ahead of UTC. -/
def zonedStorage (ahead : Int) : Storage :=
  { hourOf := fun instant => (instant + ahead) / hourLength, segmentBytes := fun _ => none
    indexParts := fun _ _ => [], takenParts := fun _ _ => [], fails := fun _ _ => none
    syncDue := fun _ => false }

/-- One byte received at half past midnight UTC on the first of January 2026, and a close. -/
def oneByteRun (ahead : Int) : Writer :=
  WriterCall.run (zonedStorage ahead) (WriterCall.run (zonedStorage ahead) Writer.initial
    (.writeMany [⟨[7], 1767227400000000⟩])) (.close true)

theorem oneByteRun_reachable (ahead : Int) :
    WriterReachable (zonedStorage ahead) (oneByteRun ahead) :=
  (WriterReachable.initial.call _).call _

/-- The row of that byte, and its line in an index by zone. -/
def oneByteRow : IndexRow := ⟨1, 0, 1, 1767227400000000⟩

def shanghaiLine : String :=
  "\x7b\"sequence\":1,\"offset\":0,\"length\":1,\"receivedAt\":\"2026-01-01T08:30:00+08:00\"\x7d\n"

def utcLine : String :=
  "\x7b\"sequence\":1,\"offset\":0,\"length\":1,\"receivedAt\":\"2026-01-01T00:30:00+00:00\"\x7d\n"

def oneLineEncoding (line : String) : Encoding :=
  { dumps := fun _ => line.toUTF8.toList
    loads := fun text => if text = line.toUTF8.toList then some (.ofRow oneByteRow) else none }

def runOwner : SegmentOwner := ⟨"task", "run", "session"⟩

def runNames : WriterNames := ⟨"/logs/device/task", "task", "192.0.2.1"⟩

/-- The zone of UTC. -/
def utc : Zone := { start := fun hour => hour * hourLength }

/-- An hour of UTC holds the instants from its start on. -/
theorem utc_contains (instant : Int) : utc.start (instant / hourLength) ≤ instant ∧
    instant < utc.start (instant / hourLength) + hourLength := by
  have hdiv := Int.mul_ediv_add_emod instant hourLength
  have hlow := Int.emod_nonneg instant (show hourLength ≠ 0 by decide)
  have hhigh := Int.emod_lt_of_pos instant (show 0 < hourLength by decide)
  show (instant / hourLength * hourLength : Int) ≤ instant ∧
    instant < instant / hourLength * hourLength + hourLength
  rw [Int.mul_comm]
  omega

/-- What the run leaves, when its hour has this number. -/
def oneByteSegment (hour : Hour) : SealedSegment :=
  { log := ⟨hour, 1⟩, hour, size := 1, digest := [7], indexDigest := [oneByteRow], first := some 1
    last := some 1, firstReceivedAt := some 1767227400000000
    lastReceivedAt := some 1767227400000000, body := [7], rows := [oneByteRow]
    maxBytes := maxLogBytes }

theorem oneLineEncoding_reads (line : String) (hour : Hour) :
    ∀ row ∈ (oneByteSegment hour).rows,
      (oneLineEncoding line).loads ((oneLineEncoding line).dumps row) = some (.ofRow row) := by
  intro row hrow
  rw [List.mem_singleton.mp hrow]
  exact if_pos rfl

/-- **Without an I/O error, what recovery makes of the files of a sealed segment is the
writer's own manifest, but for the start of the hour: that is the one of the directories'
date and hour in Shanghai, and so the writer's own when that is its zone. And recovery
accepts no log but one that its index tiles, with numbers that follow one another.** -/
theorem raw_segment_agrees {δ : Type} (encoding : Encoding) (digest : Bytes → δ)
    (owner : SegmentOwner) (names : WriterNames) {storage : Storage}
    (hfine : ∀ count step, storage.fails count step = none) :
    (∀ writer, WriterReachable storage writer → ∀ segment ∈ writer.sealed,
      1 ≤ ordinalOf segment.hour →
      (∀ row ∈ segment.rows, encoding.loads (encoding.dumps row) = some (.ofRow row)) →
      (∀ zone, rawSegment encoding digest owner (rawLogOf encoding names segment) =
        .ok { segmentManifest encoding digest owner names zone segment with
          hourStart := shanghai.start segment.hour }) ∧
      rawSegment encoding digest owner (rawLogOf encoding names segment) =
        .ok (segmentManifest encoding digest owner names shanghai segment)) ∧
    (∀ log manifest, rawSegment encoding digest owner log = .ok manifest →
      ∃ lines first, log.index = some lines ∧ lines ≠ [] ∧ manifest.firstSequence = some first ∧
        manifest.rawSize = log.body.length ∧
        RawTiles encoding first 0 lines log.body.length) := by
  refine ⟨?_, fun log manifest h => rawTiles_of_rawSegment h⟩
  intro writer hreachable segment hin hcalendar hjson
  obtain ⟨received, hok⟩ := hreachable.ok hfine
  obtain ⟨first, hnumbers⟩ := numbers_of_sealed hok hin
  have hpersists : storage.Persists := fun count => ⟨hfine count _, hfine count _⟩
  have hplace := (hreachable.inPlace hpersists).sealed segment hin
  have hraw := fun zone => @rawSegment_of_segmentOk δ encoding digest owner names storage segment
    (hok.segments segment hin) first hnumbers hplace hcalendar hjson zone
  exact ⟨hraw, hraw shanghai⟩

/-- A writer in Shanghai, where half past midnight UTC is in the hour from eight. -/
theorem raw_segment_agrees_shanghai :
    rawSegment (oneLineEncoding shanghaiLine) List.length runOwner
        (rawLogOf (oneLineEncoding shanghaiLine) runNames (oneByteSegment 490904)) =
      .ok (segmentManifest (oneLineEncoding shanghaiLine) List.length runOwner runNames shanghai
        (oneByteSegment 490904)) :=
  ((raw_segment_agrees (oneLineEncoding shanghaiLine) List.length runOwner runNames
    (fun _ _ => rfl)).1 (oneByteRun shanghaiOffset) (oneByteRun_reachable _) (oneByteSegment 490904)
      (List.mem_singleton_self _) (by decide) (oneLineEncoding_reads _ _)).2

/-- A writer whose zone is UTC: the hour of the directories is eight hours earlier when it is
taken for one of Shanghai, and the manifests differ. -/
theorem raw_segment_hour_of_zone :
    ∃ (storage : Storage) (zone : Zone) (writer : Writer) (segment : SealedSegment),
      (∀ count step, storage.fails count step = none) ∧
      (∀ instant, zone.start (storage.hourOf instant) ≤ instant ∧
        instant < zone.start (storage.hourOf instant) + hourLength) ∧
      WriterReachable storage writer ∧ segment ∈ writer.sealed ∧
      (∀ row ∈ segment.rows, (oneLineEncoding utcLine).loads ((oneLineEncoding utcLine).dumps row) =
        some (.ofRow row)) ∧
      rawSegment (oneLineEncoding utcLine) List.length runOwner
          (rawLogOf (oneLineEncoding utcLine) runNames segment) ≠
        .ok (segmentManifest (oneLineEncoding utcLine) List.length runOwner runNames zone segment) := by
  have hreachable := oneByteRun_reachable 0
  have hfine : ∀ count step, (zonedStorage 0).fails count step = none := fun _ _ => rfl
  have hin : oneByteSegment 490896 ∈ (oneByteRun 0).sealed := List.mem_singleton_self _
  obtain ⟨received, hok⟩ := hreachable.ok hfine
  obtain ⟨first, hnumbers⟩ := numbers_of_sealed hok hin
  refine ⟨zonedStorage 0, utc, oneByteRun 0, oneByteSegment 490896, hfine, ?_, hreachable, hin,
    oneLineEncoding_reads _ _, ?_⟩
  · intro instant
    have hhour : (zonedStorage 0).hourOf instant = instant / hourLength :=
      congrArg (· / hourLength) (Int.add_zero instant)
    rw [hhour]
    exact utc_contains instant
  · refine rawSegment_ne_of_start_ne (rawSegment_of_segmentOk (hok.segments _ hin) hnumbers rfl
      (by decide) (oneLineEncoding_reads _ _) utc) ?_
    decide

end CameraLogs.Logs

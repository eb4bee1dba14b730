import CameraLogs.Logs.HourDownload

/-!
# A rewritten hour is exact

The members of a rewritten hour are what the sources have frozen, in order and cut (`writeSource_spec`
for one source, `hour_exact` for the hour). The rows of an index follow one another
(`RowsFrom`), and the cursor has only left rows behind that end before the next member begins
(`ReceiptCursor.Serves`): the rows that meet a member are therefore among those it still has,
and the times it notes are those of the first and the last of them (`ReceiptCursor.Serves.range_spec`).
-/

namespace CameraLogs.Logs

variable {rows before : List ReceiptRow} {row : ReceiptRow} {entries : List (Option ReceiptRow)}
  {start stop position : Nat}

/-! ## The rows of an index -/

/-- The rows in front of the first line that is none. -/
def validRows : List (Option ReceiptRow) → List ReceiptRow
  | some row :: entries => row :: validRows entries
  | _ => []

/-- Rows that follow one another from a position on. -/
def RowsFrom : Nat → List ReceiptRow → Prop
  | _, [] => True
  | position, row :: rows => row.start = position ∧ position < row.stop ∧ RowsFrom row.stop rows

theorem rowsFrom_indexEntries (position : Nat) (lines : List IndexLine) :
    RowsFrom position (validRows (indexEntries position lines)) := by
  induction lines generalizing position with
  | nil => trivial
  | cons line lines ih =>
    cases line with
    | malformed => trivial
    | row offset length receivedAt =>
      unfold indexEntries
      split
      · rename_i hrow
        refine ⟨rfl, ?_, ih _⟩
        dsimp only
        omega
      · trivial

theorem entriesCover_spec {frozenBytes : Nat} (h : entriesCover frozenBytes entries = true) :
    ∃ row ∈ validRows entries, frozenBytes ≤ row.stop := by
  induction entries with
  | nil => cases h
  | cons entry entries ih =>
    cases entry with
    | none => cases h
    | some row =>
      simp only [entriesCover, Bool.or_eq_true, decide_eq_true_eq] at h
      obtain hrow | hlater := h
      · exact ⟨row, List.mem_cons_self, hrow⟩
      · obtain ⟨other, hmem, hle⟩ := ih hlater
        exact ⟨other, List.mem_cons_of_mem _ hmem, hle⟩

/-- Rows that follow on begin where the first one does, or later. -/
theorem RowsFrom.le (h : RowsFrom position rows) (hrow : row ∈ rows) :
    position ≤ row.start ∧ row.start < row.stop := by
  induction rows generalizing position with
  | nil => cases hrow
  | cons first rows ih =>
    obtain ⟨hstart, hlt, hrest⟩ := h
    obtain rfl | hrow := List.mem_cons.1 hrow
    · exact ⟨le_of_eq hstart.symm, hstart ▸ hlt⟩
    · obtain ⟨hle, hstop⟩ := ih hrest hrow
      exact ⟨(Nat.le_of_lt hlt).trans hle, hstop⟩

/-- Behind rows that end before a position the next one begins before it. -/
theorem RowsFrom.next {lower : Nat} (h : RowsFrom lower (before ++ row :: rows))
    (hfrom : lower ≤ position) (hbefore : ∀ row ∈ before, row.stop ≤ position) :
    row.start ≤ position ∧ RowsFrom row.start (row :: rows) := by
  induction before generalizing lower with
  | nil =>
    obtain ⟨hstart, hlt, hrest⟩ := h
    exact ⟨hstart ▸ hfrom, rfl, hstart ▸ hlt, hrest⟩
  | cons first before ih =>
    exact ih h.2.2 (hbefore first List.mem_cons_self) fun row hrow =>
      hbefore row (List.mem_cons_of_mem _ hrow)

/-- The rows that meet an interval. -/
def meeting (start stop : Nat) (rows : List ReceiptRow) : List ReceiptRow :=
  rows.filter fun row => start < row.stop ∧ row.start < stop

theorem meeting_append_of_before (hbefore : ∀ row ∈ before, row.stop ≤ start) :
    meeting start stop (before ++ rows) = meeting start stop rows := by
  unfold meeting
  rw [List.filter_append, List.filter_eq_nil_iff.2, List.nil_append]
  intro row hrow
  have hle := hbefore row hrow
  simp only [decide_eq_true_eq, not_and]
  omega

theorem meeting_of_behind (h : RowsFrom position rows) (hstop : stop ≤ position) :
    meeting start stop rows = [] := by
  refine List.filter_eq_nil_iff.2 fun row hrow => ?_
  have hle := (h.le hrow).1
  simp only [decide_eq_true_eq, not_and]
  omega

/-- The times of the first and the last row. -/
def endTimes (rows : List ReceiptRow) : Option Instant × Option Instant :=
  (rows.head?.map ReceiptRow.receivedAt, rows.getLast?.map ReceiptRow.receivedAt)

/-! ## The cursor -/

/-- What a cursor still has of the rows; those behind it end before a position. -/
def ReceiptCursor.Serves (cursor : ReceiptCursor) (all : List ReceiptRow) (position : Nat) : Prop :=
  ∃ before, all = before ++ (cursor.current.toList ++ validRows cursor.entries) ∧
    ∀ row ∈ before, row.stop ≤ position

theorem skipRows_spec {current : Option ReceiptRow}
    (hmore : ∃ row ∈ current.toList ++ validRows entries, start < row.stop) :
    ∃ before row later, skipRows start current entries = .ok (row, later) ∧ start < row.stop ∧
      current.toList ++ validRows entries = before ++ row :: validRows later ∧
      ∀ row ∈ before, row.stop ≤ start := by
  induction entries generalizing current with
  | nil =>
    obtain ⟨row, hrow, hlt⟩ := hmore
    cases current with
    | none => cases hrow
    | some current =>
      cases List.mem_singleton.1 hrow
      refine ⟨[], row, [], ?_, hlt, rfl, nofun⟩
      exact if_neg (Nat.not_le_of_lt hlt)
  | cons entry entries ih =>
    unfold skipRows
    split
    · rename_i hpassed
      have hcurrent : ∀ row ∈ current.toList, row.stop ≤ start := by
        intro row hrow
        cases current with
        | none => cases hrow
        | some current =>
          cases List.mem_singleton.1 hrow
          simpa using hpassed
      obtain ⟨row, hrow, hlt⟩ := hmore
      have hlater := (List.mem_append.1 hrow).resolve_left fun h =>
        absurd (hcurrent row h) (Nat.not_le_of_lt hlt)
      cases entry with
      | none => cases hlater
      | some next =>
        obtain ⟨before, first, later, hskip, hfirst, hsplit, hbefore⟩ :=
          @ih (some next) ⟨row, hlater, hlt⟩
        refine ⟨current.toList ++ before, first, later, hskip, hfirst, ?_, fun row hrow => ?_⟩
        · rw [List.append_assoc, ← hsplit]
          rfl
        · obtain hrow | hrow := List.mem_append.1 hrow
          · exact hcurrent row hrow
          · exact hbefore row hrow
    · rename_i hends
      cases current with
      | none => exact absurd rfl hends
      | some current =>
        refine ⟨[], current, entry :: entries, rfl, ?_, rfl, nofun⟩
        simpa using hends

/-- From a row that meets the interval on, the times of all that do are noted. -/
theorem collectRows_spec {times : Option Instant × Option Instant}
    (hrows : RowsFrom row.start (row :: validRows entries)) (hstart : start < row.stop)
    (hstop : row.start < stop) (hcover : ∃ other ∈ row :: validRows entries, stop ≤ other.stop) :
    ∃ before cursor, collectRows start stop times row entries =
        .ok ((times.1.or (endTimes (meeting start stop (row :: validRows entries))).1,
          (endTimes (meeting start stop (row :: validRows entries))).2), cursor) ∧
      row :: validRows entries = before ++ (cursor.current.toList ++ validRows cursor.entries) ∧
      ∀ row ∈ before, row.stop ≤ stop := by
  induction entries generalizing times row with
  | nil =>
    refine ⟨[], ⟨[], some row⟩, ?_, rfl, nofun⟩
    simp [collectRows, noteRow, meeting, endTimes, validRows, hstart, hstop]
  | cons entry entries ih =>
    unfold collectRows
    rw [if_pos hstop]
    have hnote : noteRow start row times = (times.1.or (some row.receivedAt), some row.receivedAt) :=
      if_pos hstart
    split
    · rename_i hends
      refine ⟨[], ⟨entry :: entries, some row⟩, ?_, rfl, nofun⟩
      have hlater : meeting start stop (validRows (entry :: entries)) = [] :=
        meeting_of_behind hrows.2.2 hends
      have hmeeting : meeting start stop (row :: validRows (entry :: entries)) = [row] := by
        unfold meeting at hlater ⊢
        rw [List.filter_cons_of_pos (by simp [hstart, hstop]), hlater]
      rw [hmeeting, hnote]
      rfl
    · rename_i hgoes
      obtain ⟨other, hother, hcovers⟩ := hcover
      have hother := (List.mem_cons.1 hother).resolve_left fun h => hgoes (h ▸ hcovers)
      cases entry with
      | none => cases hother
      | some next =>
        obtain ⟨-, -, hnext, hlt, hrest⟩ := hrows
        have hfrom : RowsFrom next.start (next :: validRows entries) := ⟨rfl, hnext ▸ hlt, hrest⟩
        obtain ⟨before, cursor, hcollect, hsplit, hbefore⟩ :=
          @ih next (noteRow start row times) hfrom (by omega) (by omega) ⟨other, hother, hcovers⟩
        refine ⟨row :: before, cursor, ?_, congrArg (row :: ·) hsplit, fun row' hrow => ?_⟩
        · dsimp only
          rw [hcollect, hnote]
          have hmeeting : meeting start stop (row :: validRows (some next :: entries)) =
              row :: meeting start stop (next :: validRows entries) :=
            List.filter_cons_of_pos (by simp [hstart, hstop])
          have hfirst : meeting start stop (next :: validRows entries) =
              next :: meeting start stop (validRows entries) :=
            List.filter_cons_of_pos (by simp only [decide_eq_true_eq]; omega)
          rw [hmeeting]
          unfold endTimes
          rw [hfirst, List.getLast?_cons_cons]
          cases times.1 <;> rfl
        · obtain rfl | hrow := List.mem_cons.1 hrow
          · omega
          · exact hbefore row' hrow

/-- The times of an interval that the rows cover are those of the first and the last row that
meet it. -/
theorem ReceiptCursor.Serves.range_spec {cursor : ReceiptCursor} {all : List ReceiptRow}
    (hserves : cursor.Serves all start) (hrows : RowsFrom 0 all) (hinterval : start < stop)
    (hcover : ∃ row ∈ all, stop ≤ row.stop) :
    ∃ after, cursor.range start stop = .ok (endTimes (meeting start stop all), after) ∧
      after.Serves all stop ∧ meeting start stop all ≠ [] := by
  obtain ⟨behind, rfl, hbehind⟩ := hserves
  obtain ⟨last, hlast, hcovers⟩ := hcover
  have hahead := (List.mem_append.1 hlast).resolve_left fun h => by
    have hle := hbehind last h
    omega
  obtain ⟨before, row, later, hskip, hstart, hsplit, hbefore⟩ :=
    skipRows_spec ⟨last, hahead, Nat.lt_of_lt_of_le hinterval hcovers⟩
  rw [hsplit, ← List.append_assoc] at hrows ⊢
  have hpassed : ∀ row ∈ behind ++ before, row.stop ≤ start := by
    intro row hrow
    obtain hrow | hrow := List.mem_append.1 hrow
    · exact hbehind row hrow
    · exact hbefore row hrow
  obtain ⟨hfirst, hfrom⟩ := hrows.next (Nat.zero_le _) hpassed
  have hmore : ∃ other ∈ row :: validRows later, stop ≤ other.stop := by
    rw [hsplit] at hahead
    refine ⟨last, (List.mem_append.1 hahead).resolve_left fun h => ?_, hcovers⟩
    have hle := hbefore last h
    omega
  obtain ⟨noted, after, hcollect, hrest, hnoted⟩ :=
    @collectRows_spec _ _ start stop (none, none) hfrom hstart (by omega) hmore
  refine ⟨after, ?_, ⟨behind ++ before ++ noted, ?_, fun row hrow => ?_⟩, ?_⟩
  · unfold ReceiptCursor.range
    rw [hskip, meeting_append_of_before hpassed]
    exact hcollect
  · rw [hrest]
    simp only [List.append_assoc]
  · obtain hrow | hrow := List.mem_append.1 hrow
    · exact (hpassed row hrow).trans (Nat.le_of_lt hinterval)
    · exact hnoted row hrow
  · rw [meeting_append_of_before hpassed]
    exact List.ne_nil_of_mem (List.mem_filter.2 ⟨List.mem_cons_self, by
      simp only [decide_eq_true_eq]
      omega⟩)

/-! ## The members of a source -/

variable {names : ExportNames} {source : HourSource} {stream : Bytes} {cap number : Nat}
  {member : ExportMember}

/-- The rows of the index of a source. -/
def HourSource.receiptRows (source : HourSource) : List ReceiptRow :=
  (source.index.map fun lines => validRows (indexEntries 0 lines)).getD []

/-- What the job has frozen of a source, if it is there. -/
def HourSource.frozenPrefix (source : HourSource) : Option Bytes := do
  let member ← sourceMember source
  let frozenBytes := source.frozenBytes.getD member.content.length
  if frozenBytes < 0 ∨ member.content.length < frozenBytes then none
  else some (member.content.take frozenBytes.toNat)

/-- The interval of a member in its source. -/
def ExportMember.interval (member : ExportMember) (rows : List ReceiptRow) : List ReceiptRow :=
  meeting member.offset (member.offset + member.content.length) rows

/-- Named after the first and the last row that meet it, where the index covers the source. -/
def ExportMember.Timed (member : ExportMember) (covered : Bool) (rows : List ReceiptRow) : Prop :=
  if covered then member.interval rows ≠ [] ∧ (member.first, member.last) = endTimes (member.interval rows)
  else member.first = none ∧ member.last = none

/-- A piece of a source, not longer than the cap. -/
structure ExportMember.Cut (member : ExportMember) (source : HourSource) (bytes : Bytes)
    (cap : Nat) : Prop where
  sourceId : member.sourceId = source.document.id
  content : member.content = (bytes.drop member.offset).take member.content.length
  bounded : member.content.length ≤ cap
  times : member.Timed (indexCoversWaterline source.index bytes.length) source.receiptRows

/-- The cursor of a source is at a position, if its index covers the source. -/
def CursorAt (receipts : Option ReceiptCursor) (covered : Bool) (rows : List ReceiptRow)
    (position : Nat) : Prop :=
  match receipts with
  | none => covered = false
  | some cursor => covered = true ∧ cursor.Serves rows position

theorem memberTimes_spec {receipts : Option ReceiptCursor} {covered : Bool}
    (hcursor : CursorAt receipts covered rows start) (hrows : RowsFrom 0 rows)
    (hinterval : start < stop) (hcover : covered = true → ∃ row ∈ rows, stop ≤ row.stop) :
    ∃ times after, memberTimes receipts start stop = .ok (times, after) ∧
      CursorAt after covered rows stop ∧
      if covered then meeting start stop rows ≠ [] ∧ times = endTimes (meeting start stop rows)
      else times = (none, none) := by
  cases receipts with
  | none =>
    have hcovered : covered = false := hcursor
    refine ⟨_, _, rfl, hcovered, ?_⟩
    rw [hcovered]
    rfl
  | some cursor =>
    obtain ⟨hcovered, hserves⟩ := hcursor
    obtain ⟨after, hrange, hafter, hmeets⟩ := hserves.range_spec hrows hinterval (hcover hcovered)
    refine ⟨endTimes (meeting start stop rows), some after, ?_, ⟨hcovered, hafter⟩, ?_⟩
    · show (cursor.range start stop).map _ = _
      rw [hrange]
      rfl
    · rw [hcovered]
      exact ⟨hmeets, rfl⟩

/-- What is left of a source is cut into members that follow one another. -/
theorem cutMembers_spec {receipts : Option ReceiptCursor} {covered : Bool} {fuel offset remaining : Nat}
    (hcap : 0 < cap) (hfuel : remaining ≤ fuel) (hlength : offset + remaining ≤ stream.length)
    (hcursor : CursorAt receipts covered rows offset) (hrows : RowsFrom 0 rows)
    (hcover : covered = true → ∃ row ∈ rows, offset + remaining ≤ row.stop) :
    ∃ members, cutMembers names source stream cap fuel receipts offset remaining number = .ok members ∧
      (members.map ExportMember.content).flatten = (stream.drop offset).take remaining ∧
      members.map ExportMember.part = List.range' number members.length ∧
      ∀ member ∈ members, member.sourceId = source.document.id ∧
        member.offset + member.content.length ≤ offset + remaining ∧
        member.content = (stream.drop member.offset).take member.content.length ∧
        member.content.length ≤ cap ∧ member.Timed covered rows := by
  induction fuel generalizing receipts offset remaining number with
  | zero =>
    refine ⟨[], rfl, ?_, rfl, nofun⟩
    rw [Nat.le_zero.1 hfuel]
    rfl
  | succ fuel ih =>
    unfold cutMembers
    split
    · rename_i hnone
      refine ⟨[], rfl, ?_, rfl, nofun⟩
      rw [hnone]
      rfl
    rename_i hremaining
    generalize hsize : min remaining cap = size
    have hinterval : offset < offset + size := by omega
    obtain ⟨times, after, htimes, hafter, hnoted⟩ :=
      memberTimes_spec hcursor hrows hinterval fun hcovered => by
        obtain ⟨row, hrow, hle⟩ := hcover hcovered
        exact ⟨row, hrow, by omega⟩
    obtain ⟨members, hmembers, hcontent, hparts, hall⟩ :=
      @ih (number + 1) after (offset + size) (remaining - size) (by omega) (by omega) hafter
        fun hcovered => by
          obtain ⟨row, hrow, hle⟩ := hcover hcovered
          exact ⟨row, hrow, by omega⟩
    simp only [bind, Except.bind, htimes, hmembers, pure, Except.pure]
    refine ⟨_, rfl, ?_, ?_, fun member hmember => ?_⟩
    · rw [List.map_cons, List.flatten_cons, hcontent, ← List.drop_drop]
      show (stream.drop offset).take size ++ _ = _
      rw [← List.take_add]
      congr 1
      omega
    · rw [List.map_cons, hparts, List.length_cons, List.range'_succ]
      rfl
    · have hwritten : ((stream.drop offset).take size).length = size := by
        rw [List.length_take, List.length_drop]
        omega
      obtain rfl | hmember := List.mem_cons.1 hmember
      · refine ⟨rfl, ?_, ?_, ?_, ?_⟩
        · show offset + ((stream.drop offset).take size).length ≤ _
          omega
        · show (stream.drop offset).take size =
            (stream.drop offset).take ((stream.drop offset).take size).length
          rw [hwritten]
        · show ((stream.drop offset).take size).length ≤ cap
          omega
        · cases covered with
          | true =>
            show meeting offset (offset + ((stream.drop offset).take size).length) rows ≠ [] ∧
              times = endTimes (meeting offset (offset + ((stream.drop offset).take size).length) rows)
            rw [hwritten]
            exact hnoted
          | false =>
            have hnone : times = (none, none) := hnoted
            rw [hnone]
            exact ⟨rfl, rfl⟩
      · obtain ⟨hid, hbound, hrest⟩ := hall member hmember
        exact ⟨hid, by omega, hrest⟩

/-- The cursor of a source begins before its first row. -/
theorem receiptCursor_at (frozenBytes : Nat) :
    CursorAt (receiptCursor source frozenBytes) (indexCoversWaterline source.index frozenBytes)
      source.receiptRows 0 ∧ RowsFrom 0 source.receiptRows ∧
      (indexCoversWaterline source.index frozenBytes = true →
        ∃ row ∈ source.receiptRows, frozenBytes ≤ row.stop) := by
  unfold receiptCursor HourSource.receiptRows
  cases hindex : source.index with
  | none =>
    have hnot : indexCoversWaterline none frozenBytes = false := by simp [indexCoversWaterline]
    rw [hnot]
    exact ⟨rfl, trivial, nofun⟩
  | some lines =>
    have hrows := rowsFrom_indexEntries 0 lines
    cases hcovers : indexCoversWaterline (some lines) frozenBytes with
    | false => exact ⟨rfl, hrows, nofun⟩
    | true =>
      refine ⟨⟨rfl, [], rfl, nofun⟩, hrows, fun _ => ?_⟩
      simp only [indexCoversWaterline, Option.any_some, Bool.and_eq_true] at hcovers
      exact entriesCover_spec hcovers.2

/-- The members of a source are its frozen prefix, cut. -/
theorem writeSource_spec {bytes : Bytes} (hcap : 0 < cap) (hfrozen : source.frozenPrefix = some bytes) :
    ∃ members, writeSource names cap number source = .ok members ∧
      (members.map ExportMember.content).flatten = bytes ∧
      members.map ExportMember.part = List.range' number members.length ∧
      ∀ member ∈ members, member.Cut source bytes cap := by
  simp only [HourSource.frozenPrefix, bind, Option.bind_eq_some_iff] at hfrozen
  obtain ⟨found, hfound, hfrozen⟩ := hfrozen
  split at hfrozen
  · cases hfrozen
  rename_i hbounds
  generalize hfrozenBytes : (source.frozenBytes.getD found.content.length).toNat = frozenBytes
    at hfrozen
  have hle : frozenBytes ≤ found.content.length := by omega
  cases hfrozen
  have hlength : (found.content.take frozenBytes).length = frozenBytes := by
    rw [List.length_take]
    omega
  obtain ⟨hcursor, hrows, hcover⟩ := @receiptCursor_at source frozenBytes
  unfold writeSource
  simp only [hfound, bind, Except.bind, pure, Except.pure]
  rw [if_neg hbounds]
  simp only [hfrozenBytes]
  split
  · rename_i hnone
    refine ⟨_, rfl, ?_, rfl, fun member hmember => ?_⟩
    · rw [hnone]
      rfl
    · cases List.mem_singleton.1 hmember
      refine ⟨rfl, rfl, Nat.zero_le _, ?_⟩
      rw [hlength, hnone]
      exact ⟨rfl, rfl⟩
  · obtain ⟨members, hmembers, hcontent, hparts, hall⟩ :=
      @cutMembers_spec source.receiptRows names source found.content cap number _ _ frozenBytes 0
        frozenBytes hcap (Nat.le_refl _) (by omega) hcursor hrows fun hcovered => by
          obtain ⟨row, hrow, hle⟩ := hcover hcovered
          exact ⟨row, hrow, by omega⟩
    refine ⟨members, hmembers, hcontent, hparts, fun member hmember => ?_⟩
    obtain ⟨hid, hbound, hpiece, hcapped, htimed⟩ := hall member hmember
    refine ⟨hid, ?_, hcapped, hlength.symm ▸ htimed⟩
    rw [List.drop_take, List.take_take, Nat.min_eq_left (by omega)]
    exact hpiece

/-! ## The hour -/

/-- With distinct identifiers a source is found by its own. -/
theorem sourceOf_mem {sources : List HourSource} (hids : (sources.map fun s => s.document.id).Nodup)
    (hsource : source ∈ sources) : sourceOf sources source.document.id = some source := by
  unfold sourceOf
  cases hfound : sources.reverse.find? fun other => other.document.id = source.document.id with
  | none =>
    have hnot := List.find?_eq_none.1 hfound source (List.mem_reverse.2 hsource)
    exact absurd (decide_eq_true rfl) hnot
  | some other =>
    have hid : other.document.id = source.document.id := by simpa using List.find?_some hfound
    have hmem := List.mem_reverse.1 (List.mem_of_find?_eq_some hfound)
    rw [List.inj_on_of_nodup_map hids hmem hsource hid]

/-- What is frozen of the source of a document. -/
def frozenContent (sources : List HourSource) (document : FileDocument) : Bytes :=
  ((sourceOf sources document.id).bind HourSource.frozenPrefix).getD []

theorem writeSources_spec {sources : List HourSource} {documents : List FileDocument} (hcap : 0 < cap)
    (hready : ∀ document ∈ documents, ∃ source ∈ sources, source.document.id = document.id ∧
      sourceOf sources document.id = some source ∧ source.frozenPrefix ≠ none) :
    ∃ members, writeSources names cap sources number documents = .ok members ∧
      (members.map ExportMember.content).flatten =
        (documents.map (frozenContent sources)).flatten ∧
      members.map ExportMember.part = List.range' number members.length ∧
      ∀ member ∈ members, ∃ source ∈ sources, ∃ bytes, source.frozenPrefix = some bytes ∧
        member.Cut source bytes cap := by
  induction documents generalizing number with
  | nil => exact ⟨[], rfl, rfl, rfl, nofun⟩
  | cons document documents ih =>
    obtain ⟨source, hsource, hid, hfound, hfrozen⟩ := hready document List.mem_cons_self
    obtain ⟨bytes, hbytes⟩ := Option.ne_none_iff_exists'.1 hfrozen
    obtain ⟨members, hmembers, hcontent, hparts, hall⟩ :=
      @writeSource_spec names source cap number bytes hcap hbytes
    obtain ⟨rest, hrest, hrestContent, hrestParts, hrestAll⟩ :=
      @ih (number + members.length) fun other hother => hready other (List.mem_cons_of_mem _ hother)
    refine ⟨members ++ rest, ?_, ?_, ?_, fun member hmember => ?_⟩
    · unfold writeSources
      simp only [hfound, bind, Except.bind, hmembers, hrest, pure, Except.pure]
    · rw [List.map_append, List.flatten_append, hcontent, hrestContent, List.map_cons,
        List.flatten_cons]
      unfold frozenContent
      rw [hfound, Option.bind_some, hbytes]
      rfl
    · rw [List.map_append, hparts, hrestParts, List.length_append, List.range'_append_1]
    · obtain hmember | hmember := List.mem_append.1 hmember
      · exact ⟨source, hsource, bytes, hbytes, hall member hmember⟩
      · exact hrestAll member hmember

/-- The sources in the order of the files. -/
theorem writeSources_ordered {τ : Type} [LinearOrder τ] (clock : Clock τ) (names : ExportNames)
    {sources : List HourSource} {cap : Nat} (hcap : 0 < cap)
    (hids : (sources.map fun source => source.document.id).Nodup)
    (hfrozen : ∀ source ∈ sources, source.frozenPrefix ≠ none) :
    (orderedFiles clock (sources.map HourSource.document)).Perm (sources.map HourSource.document) ∧
    ∃ members,
      writeSources names cap sources 1 (orderedFiles clock (sources.map HourSource.document)) =
        .ok members ∧
      (members.map ExportMember.content).flatten =
        ((orderedFiles clock (sources.map HourSource.document)).map (frozenContent sources)).flatten ∧
      members.map ExportMember.part = List.range' 1 members.length ∧
      ∀ member ∈ members, ∃ source ∈ sources, ∃ bytes, source.frozenPrefix = some bytes ∧
        member.Cut source bytes cap := by
  have hids' : ((sources.map HourSource.document).map FileDocument.id).Nodup := by
    rw [List.map_map]
    exact hids
  obtain ⟨hperm, -⟩ := @orderedFiles_merged _ _ clock _ hids'
  refine ⟨hperm, writeSources_spec hcap fun document hdocument => ?_⟩
  obtain ⟨source, hsource, rfl⟩ := List.mem_map.1 (hperm.mem_iff.1 hdocument)
  exact ⟨source, hsource, rfl, sourceOf_mem hids hsource, hfrozen source hsource⟩

/-- A rewritten hour has the frozen prefixes of its sources in the order of the files; its
members are numbered from one and not longer than the cap; each is a piece of a source, and named
after the times of the first and the last row of the index that meet it, if the index covers what
is frozen; and it is written unless it is larger than the limit. -/
theorem hour_exact {τ : Type} [LinearOrder τ] (clock : Clock τ)
    (compressedSize : List ExportMember → Nat) (sources : List HourSource) (names : ExportNames)
    (maxOutputBytes : Option Nat) (maxMemberBytes : Int) (hcap : 1 ≤ maxMemberBytes)
    (hids : (sources.map fun source => source.document.id).Nodup)
    (hfrozen : ∀ source ∈ sources, source.frozenPrefix ≠ none) :
    ∃ members,
      writeHourArchive clock compressedSize sources names maxOutputBytes maxMemberBytes =
        (if maxOutputBytes.any (· < compressedSize members) then .error .oversize else .ok members) ∧
      (members.map ExportMember.content).flatten =
        ((orderedFiles clock (sources.map HourSource.document)).map (frozenContent sources)).flatten ∧
      (∀ member ∈ members, (member.content.length : Int) ≤ maxMemberBytes) ∧
      members.map ExportMember.part = List.range' 1 members.length ∧
      ∀ member ∈ members, ∃ source ∈ sources, ∃ bytes, source.frozenPrefix = some bytes ∧
        member.Cut source bytes maxMemberBytes.toNat := by
  obtain ⟨-, members, hmembers, hcontent, hparts, hall⟩ :=
    @writeSources_ordered _ _ clock names sources maxMemberBytes.toNat (by omega) hids hfrozen
  refine ⟨members, ?_, hcontent, fun member hmember => ?_, hparts, hall⟩
  · unfold writeHourArchive
    rw [if_neg (by omega)]
    simp only [bind, Except.bind, hmembers, pure, Except.pure]
    split
    · rfl
    · rfl
  · obtain ⟨source, -, bytes, -, hcut⟩ := hall member hmember
    have hle := hcut.bounded
    omega

/-- Five bytes under two rows, the first of which is in two members. -/
def twoRowSource : HourSource where
  frozenBytes := some 5
  document := nodeSegment "a" "n" 1 10
  taskName := none
  ip := none
  deviceIp := none
  archive := some [⟨"part.log", true, [1, 2, 3, 4, 5, 6]⟩]
  archiveMember := some "part.log"
  index := some [.row 0 3 100, .row 3 2 200, .malformed]

theorem hour_exact_twoRows : ∃ members,
    writeHourArchive epochClock List.length [twoRowSource] ⟨none, none⟩ none 2 = .ok members ∧
    members.map (fun member => (member.part, member.content, member.first, member.last)) =
      [(1, [1, 2], some 100, some 100), (2, [3, 4], some 100, some 200), (3, [5], some 200, some 200)] ∧
    members.map ExportMember.part = List.range' 1 members.length := by
  obtain ⟨members, hmembers, -, -, hparts, -⟩ := hour_exact epochClock List.length [twoRowSource]
    ⟨none, none⟩ none 2 (by decide) (by decide) (by decide +kernel)
  refine ⟨members, hmembers, ?_, hparts⟩
  have hwritten : writeHourArchive epochClock List.length [twoRowSource] ⟨none, none⟩ none 2 =
      .ok members := hmembers
  have hknown : (writeHourArchive epochClock List.length [twoRowSource] ⟨none, none⟩ none 2).map
      (List.map fun member => (member.part, member.content, member.first, member.last)) =
      .ok [(1, [1, 2], some 100, some 100), (2, [3, 4], some 100, some 200),
        (3, [5], some 200, some 200)] := by decide +kernel
  rw [hwritten] at hknown
  exact Except.ok.inj hknown

end CameraLogs.Logs

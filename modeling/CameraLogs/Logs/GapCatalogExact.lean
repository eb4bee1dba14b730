import CameraLogs.Lib.Paging
import CameraLogs.Logs.GapFragments

/-!
# The pages of a gap

The pages go on in the list of fragments that the first of them has frozen: a cursor is read back
as it was written where it is not too long (`readGapCursor_gapCursor`), and a page of it is the
next of that list (`catalogCursorPage_gapCursor`).
-/

namespace CameraLogs.Logs

open Lib

variable {τ : Type} [LinearOrder τ] {clock : Clock τ} {files ordered : List GapFile}
  {before after : GapAnchor} {beforeIndex afterIndex : Nat}
  {hmac : List UInt8 → List UInt8 → List Char} {signingKey : List UInt8} {value : Json}

/-! ## Cursors -/

theorem splitDot_append {payload : List Char} (h : '.' ∉ payload) (signature : List Char) :
    splitDot (payload ++ '.' :: signature) = some (payload, signature) := by
  have hall : ∀ c ∈ payload, (decide (c ≠ '.')) = true := by
    intro c hc
    exact decide_eq_true fun heq => h (heq ▸ hc)
  have hdrop : (payload ++ '.' :: signature).dropWhile (· ≠ '.') = '.' :: signature := by
    rw [List.dropWhile_append_of_pos hall]
    rfl
  have htake : (payload ++ '.' :: signature).takeWhile (· ≠ '.') = payload := by
    rw [List.takeWhile_append_of_pos hall]
    exact List.append_nil _
  rw [splitDot, hdrop]
  simp only [htake]

theorem encodeGapCursor_ne_nil : encodeGapCursor hmac signingKey value ≠ [] := by
  unfold encodeGapCursor
  exact List.append_ne_nil_of_right_ne_nil _ (List.cons_ne_nil _ _)

theorem readGapCursor_some {cursor : List Char} (hne : cursor ≠ []) :
    readGapCursor hmac signingKey (some cursor) =
      match (gapCursorParts cursor).bind fun (payload, signature) =>
          if signature = hmac signingKey (encodeUtf8 payload) then
            (decodeText payload).filter fun result =>
              ((result.get "position".toList).bind jsonInt).isSome
          else none with
      | none => .error invalidGapCursor
      | some result => .ok (some result) := by
  have hfilter : (some cursor).filter (· ≠ []) = some cursor := by
    rw [Option.filter_some, if_pos (decide_eq_true hne)]
  unfold readGapCursor
  rw [hfilter]
  rfl

/-- A cursor that is not too long is read back as the value it was made of. -/
theorem readGapCursor_encode (hsorted : value.sortKeys = value)
    (hposition : ((value.get "position".toList).bind jsonInt).isSome)
    (hfits : (encodeGapCursor hmac signingKey value).length ≤ maxCursorLength) :
    readGapCursor hmac signingKey (some (encodeGapCursor hmac signingKey value)) =
      .ok (some value) := by
  have hsplit : splitDot (encodeGapCursor hmac signingKey value) =
      some (encodeText value, hmac signingKey (encodeUtf8 (encodeText value))) :=
    splitDot_append (dot_not_mem_encodeText value) _
  have hvalue : decodeText (encodeText value) = some value := by
    rw [decodeText_encodeText, hsorted]
  rw [readGapCursor_some encodeGapCursor_ne_nil, gapCursorParts, if_neg (Nat.not_lt.mpr hfits),
    hsplit, Option.bind_some]
  dsimp only
  rw [if_pos rfl, hvalue, Option.filter_some, if_pos hposition]

/-- A cursor that is too long is refused. -/
theorem readGapCursor_long {cursor : List Char} (h : maxCursorLength < cursor.length) :
    readGapCursor hmac signingKey (some cursor) = .error invalidGapCursor := by
  have hne : cursor ≠ [] := by
    rintro rfl
    exact absurd h (Nat.not_lt_zero _)
  rw [readGapCursor_some hne, gapCursorParts, if_pos h, Option.bind_none]

theorem sortKeys_anchorsJson (before after : GapAnchor) :
    (anchorsJson before after).sortKeys = anchorsJson before after := by rfl

theorem sortKeys_json (fragment : GapFragment) : fragment.json.sortKeys = fragment.json := by
  obtain ⟨fileId, sessionId, start, stop⟩ := fragment
  cases sessionId with
  | none => rfl
  | some sessionId => rfl

theorem sortKeys_issues {issues : List Json} (h : ∀ issue ∈ issues, ∃ id, issue = unavailableFile id) :
    (Json.arr issues).sortKeys = .arr issues := by
  refine Json.sortKeys_arr fun issue hissue => ?_
  obtain ⟨id, rfl⟩ := h issue hissue
  rfl

/-- The value of the cursor at a position of the fragments. -/
def gapValue (before after : GapAnchor) (gap : List GapFragment × List Json) (position : Nat) :
    Json :=
  cursorValue (anchorsJson before after) position (gap.1.map GapFragment.json) (.arr gap.2)

def gapCursor (hmac : List UInt8 → List UInt8 → List Char) (signingKey : List UInt8)
    (before after : GapAnchor) (gap : List GapFragment × List Json) (position : Nat) : List Char :=
  encodeGapCursor hmac signingKey (gapValue before after gap position)

theorem gapBetween_issues {issue : Json}
    (h : issue ∈ (gapBetween ordered before after beforeIndex afterIndex).2) :
    ∃ id, issue = unavailableFile id := by
  rw [gapBetween, gapFragments_eq] at h
  obtain ⟨file, -, rfl⟩ := List.mem_map.mp h
  exact ⟨file.document.id, rfl⟩

variable {gap : List GapFragment × List Json} {position : Nat}

theorem sortKeys_gapValue (hissues : ∀ issue ∈ gap.2, ∃ id, issue = unavailableFile id) :
    (gapValue before after gap position).sortKeys = gapValue before after gap position := by
  have hitems : (Json.arr (gap.1.map GapFragment.json)).sortKeys =
      .arr (gap.1.map GapFragment.json) := by
    refine Json.sortKeys_arr fun item hitem => ?_
    obtain ⟨fragment, -, rfl⟩ := List.mem_map.mp hitem
    exact sortKeys_json fragment
  have hsorted (snapshot issues : Json) :
      (Json.obj [("anchors".toList, anchorsJson before after), ("position".toList, .int position),
        ("snapshot".toList, snapshot), ("unrecoverable".toList, issues)]).sortKeys =
      .obj [("anchors".toList, anchorsJson before after), ("position".toList, .int position),
        ("snapshot".toList, snapshot.sortKeys), ("unrecoverable".toList, issues.sortKeys)] := rfl
  rw [gapValue, cursorValue, hsorted, hitems, sortKeys_issues hissues]

theorem get_gapValue : (gapValue before after gap position).get "anchors".toList =
      some (anchorsJson before after) ∧
    (gapValue before after gap position).get "position".toList = some (.int position) ∧
    (gapValue before after gap position).get "snapshot".toList =
      some (.arr (gap.1.map GapFragment.json)) ∧
    (gapValue before after gap position).get "unrecoverable".toList = some (.arr gap.2) :=
  ⟨rfl, rfl, rfl, rfl⟩

theorem isFragment_json {fragment : GapFragment} (h : fragment.start < fragment.stop) :
    isFragment fragment.json = true := by
  have hfields : isFragment fragment.json =
      (decide (0 ≤ (fragment.start : Int)) && decide ((fragment.start : Int) < fragment.stop)) := rfl
  rw [hfields, Bool.and_eq_true, decide_eq_true_eq, decide_eq_true_eq]
  omega

theorem anchorKey_injective {anchor anchor' : GapAnchor} (h : anchorKey anchor = anchorKey anchor') :
    anchor = anchor' := by
  obtain ⟨fileId, offset, sessionId⟩ := anchor
  obtain ⟨fileId', offset', sessionId'⟩ := anchor'
  simp only [anchorKey, jsonString, Json.obj.injEq, List.cons.injEq, Prod.mk.injEq, true_and,
    and_true, Json.str.injEq, Json.int.injEq, String.toList_inj] at h
  obtain ⟨rfl, hoffset, rfl⟩ := h
  rw [Int.ofNat_inj.mp hoffset]

theorem anchorsJson_injective {before' after' : GapAnchor}
    (h : anchorsJson before after = anchorsJson before' after') :
    before = before' ∧ after = after' := by
  simp only [anchorsJson, Json.obj.injEq, List.cons.injEq, Prod.mk.injEq, true_and, and_true] at h
  exact ⟨anchorKey_injective h.2, anchorKey_injective h.1⟩

theorem dumps_anchorsJson {before' after' : GapAnchor} :
    (anchorsJson before after).dumps true = (anchorsJson before' after').dumps true ↔
      before = before' ∧ after = after' := by
  constructor
  · intro h
    have hsame := Json.render_injective true h
    rw [sortKeys_anchorsJson, sortKeys_anchorsJson] at hsame
    exact anchorsJson_injective hsame
  · rintro ⟨rfl, rfl⟩
    rfl

/-! ## Pages -/

theorem readGapCursor_gapCursor (hissues : ∀ issue ∈ gap.2, ∃ id, issue = unavailableFile id)
    (hfits : (gapCursor hmac signingKey before after gap position).length ≤ maxCursorLength) :
    readGapCursor hmac signingKey (some (gapCursor hmac signingKey before after gap position)) =
      .ok (some (gapValue before after gap position)) := by
  refine readGapCursor_encode (sortKeys_gapValue hissues) ?_ hfits
  rw [get_gapValue.2.1]
  rfl

/-- The page of the fragments from a position on. -/
def gapPageAt (hmac : List UInt8 → List UInt8 → List Char) (signingKey : List UInt8)
    (before after : GapAnchor) (gap : List GapFragment × List Json) (position limit : Nat) :
    GapPage :=
  { items := ((gap.1.map GapFragment.json).drop position).take limit
    nextCursor :=
      if position + limit < (gap.1.map GapFragment.json).length then
        some (gapCursor hmac signingKey before after gap (position + limit))
      else none
    unrecoverable := .arr gap.2 }

/-- A page of the snapshot in a cursor. -/
theorem catalogCursorPage_gapCursor (hissues : ∀ issue ∈ gap.2, ∃ id, issue = unavailableFile id)
    (hfragments : ∀ fragment ∈ gap.1, fragment.start < fragment.stop)
    (hfits : (gapCursor hmac signingKey before after gap position).length ≤ maxCursorLength)
    (hposition : position ≤ gap.1.length) (limit : Nat) :
    catalogCursorPage hmac signingKey (some (gapCursor hmac signingKey before after gap position))
        (anchorsJson before after) limit =
      .ok (some (gapPageAt hmac signingKey before after gap position limit)) := by
  obtain ⟨hanchors, hat, hsnapshot, hunrecoverable⟩ :=
    @get_gapValue before after gap position
  have hall : (gap.1.map GapFragment.json).all isFragment = true := by
    refine List.all_eq_true.mpr fun item hitem => ?_
    obtain ⟨fragment, hfragment, rfl⟩ := List.mem_map.mp hitem
    exact isFragment_json (hfragments fragment hfragment)
  have hplace : (((some (Json.int position)).bind jsonInt).getD 0) = (position : Int) := rfl
  have hvalid : ¬ ((position : Int) < 0 ∨ ((gap.1.map GapFragment.json).length : Int) < position ∨
      ¬ (gap.1.map GapFragment.json).all isFragment = true) := by
    rw [hall, List.length_map]
    simp only [not_true_eq_false, or_false]
    omega
  have hsame : ¬ ((anchorsJson before after).dumps true ≠ (anchorsJson before after).dumps true) :=
    fun hne => hne rfl
  rw [catalogCursorPage, readGapCursor_gapCursor hissues hfits]
  simp only [savedPage, hanchors, hsnapshot, if_neg hsame, hat, hunrecoverable, hplace,
    Option.getD_some, snapshotPage, if_neg hvalid, Int.toNat_natCast]
  rfl

/-- A cursor is refused for other anchors. -/
theorem catalogCursorPage_other (hissues : ∀ issue ∈ gap.2, ∃ id, issue = unavailableFile id)
    (hfits : (gapCursor hmac signingKey before after gap position).length ≤ maxCursorLength)
    {before' after' : GapAnchor} (hother : ¬ (before = before' ∧ after = after')) (limit : Nat) :
    catalogCursorPage hmac signingKey (some (gapCursor hmac signingKey before after gap position))
        (anchorsJson before' after') limit =
      .error otherAnchors := by
  obtain ⟨hanchors, -, hsnapshot, -⟩ := @get_gapValue before after gap position
  have hdiffer : (anchorsJson before after).dumps true ≠ (anchorsJson before' after').dumps true :=
    fun hsame => hother (dumps_anchorsJson.mp hsame)
  rw [catalogCursorPage, readGapCursor_gapCursor hissues hfits]
  simp only [savedPage, hanchors, hsnapshot, if_pos hdiffer]
  rfl

variable (hmac signingKey) in
theorem firstGapPage_located
    (h : Located (orderedGapFiles clock files) before after beforeIndex afterIndex)
    (hgap : gapBetween (orderedGapFiles clock files) before after beforeIndex afterIndex = gap)
    (hbound : gap.1.length ≤ 200) (limit : Nat) :
    firstGapPage hmac signingKey clock files before after limit =
      gapPageAt hmac signingKey before after gap 0 limit := by
  obtain ⟨hbefore, hafter, hle, ⟨file, bytes, hfile, hbytes, hoffset⟩,
    ⟨file', bytes', hfile', hbytes', hoffset'⟩, hsame⟩ := h
  have hready : ¬ (bytes < before.offset ∨ bytes' < after.offset ∨
      beforeIndex = afterIndex ∧ after.offset < before.offset) := by
    omega
  subst hgap
  rw [gapPageAt, Nat.zero_add, List.drop_zero]
  simp only [firstGapPage, hbefore, hafter, if_neg (Nat.not_lt.mpr hle), hfile, hfile',
    Option.bind_some, hbytes, hbytes', if_neg hready]
  exact if_neg (Nat.not_lt.mpr hbound)

/-- A page of the catalog as a listing of items, the cursor of the next request with it. -/
def gapPage (hmac : List UInt8 → List UInt8 → List Char) (signingKey : List UInt8)
    (clock : Clock τ) (files : List GapFile) (before after : GapAnchor) (limit : Nat)
    (cursor : Option (List Char)) :
    Except Unprocessable (List Json × Option (Option (List Char))) :=
  (catalogGapFragments hmac signingKey clock files before after limit cursor).map
    fun page => (page.items, page.nextCursor.map some)

variable (hmac signingKey) in
theorem catalogGapFragments_none
    (h : Located (orderedGapFiles clock files) before after beforeIndex afterIndex)
    (hgap : gapBetween (orderedGapFiles clock files) before after beforeIndex afterIndex = gap)
    (hbound : gap.1.length ≤ 200) (limit : Nat) :
    catalogGapFragments hmac signingKey clock files before after limit none =
      .ok (gapPageAt hmac signingKey before after gap 0 limit) :=
  congrArg Except.ok (firstGapPage_located hmac signingKey h hgap hbound limit)

theorem catalogGapFragments_error {cursor : Option (List Char)} {refused : Unprocessable}
    {limit : Nat}
    (h : catalogCursorPage hmac signingKey cursor (anchorsJson before after) limit =
      .error refused) :
    catalogGapFragments hmac signingKey clock files before after limit cursor =
      .error refused := by
  rw [catalogGapFragments, h]

/-- The cursor of a request for the fragments from a position on; the first request has none. -/
def cursorAt (hmac : List UInt8 → List UInt8 → List Char) (signingKey : List UInt8)
    (before after : GapAnchor) (gap : List GapFragment × List Json) (position : Nat) :
    Option (List Char) :=
  if position = 0 then none else some (gapCursor hmac signingKey before after gap position)

theorem gapPage_cursorAt
    (h : Located (orderedGapFiles clock files) before after beforeIndex afterIndex)
    (hgap : gapBetween (orderedGapFiles clock files) before after beforeIndex afterIndex = gap)
    (hbound : gap.1.length ≤ 200)
    (hfits : ∀ position, 0 < position → position < gap.1.length →
      (gapCursor hmac signingKey before after gap position).length ≤ maxCursorLength)
    {limit : Nat} (hlimit : 0 < limit) (position : Nat)
    (hposition : position = 0 ∨ position < (gap.1.map GapFragment.json).length) :
    gapPage hmac signingKey clock files before after limit
        (cursorAt hmac signingKey before after gap position) =
      .ok (((gap.1.map GapFragment.json).drop position).take limit,
        if position + limit < (gap.1.map GapFragment.json).length then
          some (cursorAt hmac signingKey before after gap (position + limit))
        else none) := by
  have hnext : ∀ next, 0 < next → cursorAt hmac signingKey before after gap next =
      some (gapCursor hmac signingKey before after gap next) :=
    fun next hnext => if_neg (Nat.pos_iff_ne_zero.mp hnext)
  have hissues : ∀ issue ∈ gap.2, ∃ id, issue = unavailableFile id := by
    rw [← hgap]
    exact fun issue hissue => gapBetween_issues hissue
  have hfragments : ∀ fragment ∈ gap.1, fragment.start < fragment.stop := by
    rw [← hgap]
    exact fun fragment hfragment => fragments_start_lt hfragment
  have hat : catalogGapFragments hmac signingKey clock files before after limit
      (cursorAt hmac signingKey before after gap position) =
        .ok (gapPageAt hmac signingKey before after gap position limit) := by
    by_cases hzero : position = 0
    · subst hzero
      exact catalogGapFragments_none hmac signingKey h hgap hbound limit
    · have hpos := Nat.pos_of_ne_zero hzero
      have hlt := hposition.resolve_left hzero
      rw [List.length_map] at hlt
      rw [hnext position hpos, catalogGapFragments,
        catalogCursorPage_gapCursor hissues hfragments (hfits position hpos hlt) (Nat.le_of_lt hlt)]
  rw [gapPage, hat, hnext (position + limit) (Nat.add_pos_right _ hlimit), gapPageAt]
  by_cases hmore : position + limit < (gap.1.map GapFragment.json).length
  · rw [if_pos hmore, if_pos hmore]
    rfl
  · rw [if_neg hmore, if_neg hmore]
    rfl

/-- The fragments between two anchors are in the order of the catalog, at most one of a file, and
they have exactly the catalogued bytes between the anchors, without those of the files that are
reported. Pages of any sizes list them, each going on at the cursor of the one before, and a
cursor reads back as it was written and is refused for other anchors: all this where the cursors
are not too long, and one that is too long is refused. -/
theorem gap_pages_exact (hmac : List UInt8 → List UInt8 → List Char) (signingKey : List UInt8)
    (clock : Clock τ) (files : List GapFile) (before after : GapAnchor)
    (beforeIndex afterIndex : Nat) (hids : (files.map (·.document.id)).Nodup)
    (hlocated : Located (orderedGapFiles clock files) before after beforeIndex afterIndex)
    (hbound : (gapBetween (orderedGapFiles clock files) before after beforeIndex
      afterIndex).1.length ≤ 200) :
    let ordered := orderedGapFiles clock files
    let gap := gapBetween ordered before after beforeIndex afterIndex
    let cursor := gapCursor hmac signingKey before after gap
    (ordered.Perm files ∧ ordered.Pairwise fun x y =>
      streamKey x.document = streamKey y.document →
        segmentRank x.document < segmentRank y.document) ∧
    ((gap.1.map GapFragment.fileId).Sublist (ordered.map (·.document.id)) ∧
      (gap.1.map GapFragment.fileId).Nodup ∧
      ∀ fragment ∈ gap.1, fragment.start < fragment.stop) ∧
    (∀ index file offset, ordered[index]? = some file →
      ((∃ fragment ∈ gap.1, fragment.fileId = file.document.id ∧ fragment.start ≤ offset ∧
          offset < fragment.stop) ↔
        file.unavailable = false ∧ (∃ bytes, file.watermark = some bytes ∧ offset < bytes) ∧
          toLex (beforeIndex, before.offset) ≤ toLex (index, offset) ∧
          toLex (index, offset) < toLex (afterIndex, after.offset))) ∧
    gap.2 = ((selectedFiles ordered beforeIndex afterIndex).filter (·.unavailable)).map
      (fun file => unavailableFile file.document.id) ∧
    (∀ limit, gap.1.length ≤ limit →
      catalogGapFragments hmac signingKey clock files before after limit none =
        .ok { items := gap.1.map GapFragment.json, nextCursor := none,
              unrecoverable := .arr gap.2 }) ∧
    ((∀ position, 0 < position → position < gap.1.length →
        (cursor position).length ≤ maxCursorLength) →
      ∀ limit limits, (∀ n ∈ limit :: limits, 0 < n) →
        ∃ next, walkPages (gapPage hmac signingKey clock files before after) limit limits none =
            .ok ((gap.1.map GapFragment.json).take (limit + limits.sum), next) ∧
          (next = none ↔ gap.1.length ≤ limit + limits.sum)) ∧
    (∀ position, (cursor position).length ≤ maxCursorLength →
      readGapCursor hmac signingKey (some (cursor position)) =
          .ok (some (gapValue before after gap position)) ∧
        ∀ files' before' after' limit, ¬ (before = before' ∧ after = after') →
          catalogGapFragments hmac signingKey clock files' before' after' limit
            (some (cursor position)) = .error otherAnchors) ∧
    ∀ position, maxCursorLength < (cursor position).length →
      ∀ files' before' after' limit,
        catalogGapFragments hmac signingKey clock files' before' after' limit
          (some (cursor position)) = .error invalidGapCursor := by
  intro ordered gap cursor
  have hordered : (ordered.map (·.document.id)).Nodup := orderedGapFiles_ids hids
  have hsub : (gap.1.map GapFragment.fileId).Sublist (ordered.map (·.document.id)) :=
    (fragments_sublist _ _ _).trans (selectedFiles_sublist.map _)
  have hissues : ∀ issue ∈ gap.2, ∃ id, issue = unavailableFile id :=
    fun issue hissue => gapBetween_issues hissue
  refine ⟨⟨orderedGapFiles_perm hids, orderedGapFiles_ranked hids⟩,
    ⟨hsub, hordered.sublist hsub, fun fragment hfragment => fragments_start_lt hfragment⟩,
    fun index file offset hfile => covered_iff hordered hlocated hfile offset, ?_,
    fun limit hlimit => ?_, fun hfits limit limits hlimits => ?_, fun position hfits => ⟨?_, ?_⟩,
    fun position hlong files' before' after' limit => ?_⟩
  · exact congrArg Prod.snd (gapFragments_eq _ _ _)
  · have hlast : ¬ 0 + limit < (gap.1.map GapFragment.json).length := by
      rw [List.length_map]
      omega
    have hall : (gap.1.map GapFragment.json).length ≤ limit := by rwa [List.length_map]
    rw [catalogGapFragments_none hmac signingKey hlocated rfl hbound, gapPageAt, if_neg hlast,
      List.drop_zero, List.take_of_length_le hall]
  · have hpage : ∀ limit > 0, ∀ position,
        position = 0 ∨ position < (gap.1.map GapFragment.json).length → _ :=
      fun limit hlimit position hposition =>
        gapPage_cursorAt hlocated rfl hbound hfits hlimit position hposition
    have hwalk := walkPages_offset hpage limits hlimits (.inl rfl)
    rwa [List.drop_zero, List.length_map, Nat.zero_add] at hwalk
  · exact readGapCursor_gapCursor hissues hfits
  · exact fun files' before' after' limit hother =>
      catalogGapFragments_error (catalogCursorPage_other hissues hfits hother limit)
  · refine catalogGapFragments_error ?_
    rw [catalogCursorPage, readGapCursor_long hlong]

def gapFile (id sessionId : String) (number : Int) (status : Option String) : GapFile :=
  { document :=
      { id, taskId := some "t", nodeId := some "n", runId := none, sessionId := some sessionId,
        hour := some "h", segmentNumber := some number, firstSequence := none,
        firstReceivedAt := some (.datetime (.aware number)), sessionStartedAt := none,
        runStartedAt := none }
    status, bytes := some 10 }

/-- The second of four files is deleted. -/
def fourFiles : List GapFile :=
  [gapFile "a" "s" 1 none, gapFile "b" "s" 2 (some "DELETED"), gapFile "c" "s" 3 none,
    gapFile "d" "s" 4 none]

theorem gap_pages_exact_deleted :
    let files := fourFiles
    let page := gapPage (fun _ _ => []) [] epochClock files ⟨"a", 4, "s"⟩ ⟨"d", 6, "s"⟩
    let fragments : List GapFragment :=
      [⟨"a", some "s", 4, 10⟩, ⟨"c", some "s", 0, 10⟩, ⟨"d", some "s", 0, 6⟩]
    ∃ next, walkPages page 2 [1] none = .ok (fragments.map GapFragment.json, next) ∧
      next = none := by
  have hlocated : Located (orderedGapFiles epochClock fourFiles) ⟨"a", 4, "s"⟩ ⟨"d", 6, "s"⟩ 0 3 :=
    { beforeAt := by decide +kernel
      afterAt := by decide +kernel
      le := by decide
      beforeBytes := ⟨gapFile "a" "s" 1 none, 10, by decide +kernel, by decide +kernel, by decide⟩
      afterBytes := ⟨gapFile "d" "s" 4 none, 10, by decide +kernel, by decide +kernel, by decide⟩
      same := nofun }
  obtain ⟨-, -, -, -, -, hwalk, -, -⟩ :=
    gap_pages_exact (fun _ _ => []) [] epochClock fourFiles ⟨"a", 4, "s"⟩ ⟨"d", 6, "s"⟩ 0 3
      (by decide +kernel) hlocated (by decide +kernel)
  have hfits : ∀ position < 3, 0 < position →
      (gapCursor (fun _ _ => []) [] ⟨"a", 4, "s"⟩ ⟨"d", 6, "s"⟩
        (gapBetween (orderedGapFiles epochClock fourFiles) ⟨"a", 4, "s"⟩ ⟨"d", 6, "s"⟩ 0 3)
        position).length ≤ maxCursorLength := by
    decide +kernel
  have hcount : (gapBetween (orderedGapFiles epochClock fourFiles) ⟨"a", 4, "s"⟩ ⟨"d", 6, "s"⟩
      0 3).1 = [⟨"a", some "s", 4, 10⟩, ⟨"c", some "s", 0, 10⟩, ⟨"d", some "s", 0, 6⟩] := by
    decide +kernel
  obtain ⟨next, hpages, hnext⟩ := hwalk
    (fun position hpos hlt => hfits position (by rwa [hcount] at hlt) hpos) 2 [1] (by decide)
  rw [hcount] at hpages hnext
  exact ⟨next, hpages, hnext.mpr (by decide)⟩

theorem gapCursor_long (hlong : maxCursorLength < before.sessionId.toList.length)
    (hissues : ∀ issue ∈ gap.2, ∃ id, issue = unavailableFile id) :
    maxCursorLength < (gapCursor hmac signingKey before after gap position).length := by
  have htext := length_encodeText (gapValue before after gap position)
  rw [sortKeys_gapValue hissues] at htext
  have hcharacters : before.sessionId.toList.length ≤
      (gapValue before after gap position).characters := by
    simp only [gapValue, cursorValue, anchorsJson, anchorKey, jsonString, Json.characters,
      Json.memberCharacters]
    omega
  rw [gapCursor, encodeGapCursor, List.length_append]
  omega

def sessionFiles (sessionId : String) : List GapFile :=
  [gapFile "a" sessionId 1 none, gapFile "b" sessionId 2 none]

theorem sessionFiles_ordered (sessionId : String) :
    orderedGapFiles epochClock (sessionFiles sessionId) = sessionFiles sessionId := rfl

theorem sessionFiles_located (sessionId : String) :
    Located (orderedGapFiles epochClock (sessionFiles sessionId)) ⟨"a", 0, sessionId⟩
      ⟨"b", 10, sessionId⟩ 0 1 := by
  rw [sessionFiles_ordered]
  exact ⟨rfl, rfl, Nat.zero_le _, ⟨gapFile "a" sessionId 1 none, 10, rfl, rfl, Nat.zero_le _⟩,
    ⟨gapFile "b" sessionId 2 none, 10, rfl, rfl, Nat.le_refl _⟩, nofun⟩

theorem sessionFiles_gap (sessionId : String) :
    gapBetween (orderedGapFiles epochClock (sessionFiles sessionId)) ⟨"a", 0, sessionId⟩
      ⟨"b", 10, sessionId⟩ 0 1 =
      ([⟨"a", some sessionId, 0, 10⟩, ⟨"b", some sessionId, 0, 10⟩], []) := by
  rw [sessionFiles_ordered]
  rfl

/-- Of two fragments in a session of a long identifier, the first page comes with a cursor that
is refused. -/
theorem sessionFiles_refused {sessionId : String}
    (hlong : maxCursorLength < sessionId.toList.length) :
    let page := gapPage (fun _ _ => []) [] epochClock (sessionFiles sessionId) ⟨"a", 0, sessionId⟩
      ⟨"b", 10, sessionId⟩
    ∃ cursor, page 1 none = .ok ([(GapFragment.mk "a" (some sessionId) 0 10).json],
      some (some cursor)) ∧ page 1 (some cursor) = .error invalidGapCursor := by
  have hissues : ∀ issue ∈ ([] : List Json), ∃ id, issue = unavailableFile id := nofun
  refine ⟨gapCursor (fun _ _ => []) [] ⟨"a", 0, sessionId⟩ ⟨"b", 10, sessionId⟩
    ([⟨"a", some sessionId, 0, 10⟩, ⟨"b", some sessionId, 0, 10⟩], []) 1, ?_, ?_⟩
  · rw [gapPage, catalogGapFragments_none (fun _ _ => []) [] (sessionFiles_located sessionId)
      (sessionFiles_gap sessionId) (Nat.le_of_ble_eq_true rfl)]
    rfl
  · rw [gapPage, catalogGapFragments_error]
    · rfl
    · rw [catalogCursorPage, readGapCursor_long (gapCursor_long hlong hissues)]

/-- A session identifier of so many characters. -/
def sessionOf (count : Nat) : String := String.ofList (List.replicate count 's')

theorem length_sessionOf (count : Nat) : (sessionOf count).toList.length = count := by
  rw [sessionOf, String.toList_ofList, List.length_replicate]

theorem own_cursor_refused :
    let files := sessionFiles (sessionOf 300000)
    let page := gapPage (fun _ _ => []) [] epochClock files ⟨"a", 0, sessionOf 300000⟩
      ⟨"b", 10, sessionOf 300000⟩
    Located (orderedGapFiles epochClock files) ⟨"a", 0, sessionOf 300000⟩
      ⟨"b", 10, sessionOf 300000⟩ 0 1 ∧
    ∃ cursor, page 1 none = .ok ([(GapFragment.mk "a" (some (sessionOf 300000)) 0 10).json],
      some (some cursor)) ∧ page 1 (some cursor) = .error invalidGapCursor := by
  have hlong : maxCursorLength < (sessionOf 300000).toList.length := by
    rw [length_sessionOf]
    unfold maxCursorLength
    omega
  exact ⟨sessionFiles_located _, sessionFiles_refused hlong⟩

end CameraLogs.Logs

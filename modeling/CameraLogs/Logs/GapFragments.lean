import CameraLogs.Logs.GapCatalog

/-!
# The fragments of a gap are its catalogued bytes

A byte of the catalog is at a place of the stream: the place of its file in the order, and its
offset there. The fragments are the bytes from the place of the first anchor to before that of
the last one, without those of files that are reported (`covered_iff`), and file by file in the
order of the stream.
-/

namespace CameraLogs.Logs

open Lib

variable {τ : Type} [LinearOrder τ] {clock : Clock τ} {files ordered selected : List GapFile}
  {file : GapFile} {before after : GapAnchor} {beforeIndex afterIndex : Nat}

/-! ## The order of the catalog -/

theorem file_of_id (hids : (files.map (·.document.id)).Nodup) {file' : GapFile}
    (hfile : file ∈ files) (hfile' : file' ∈ files) (h : file.document.id = file'.document.id) :
    file = file' :=
  List.inj_on_of_nodup_map hids hfile hfile' h

theorem find_document (hids : (files.map (·.document.id)).Nodup) (hfile : file ∈ files) :
    files.find? (·.document.id = file.document.id) = some file := by
  have hsome : (files.find? (·.document.id = file.document.id)).isSome :=
    List.find?_isSome.mpr ⟨file, hfile, decide_eq_true rfl⟩
  obtain ⟨found, hfound⟩ := Option.isSome_iff_exists.mp hsome
  have hid := List.find?_some hfound
  rw [hfound, file_of_id hids (List.mem_of_find?_eq_some hfound) hfile (of_decide_eq_true hid)]

theorem orderedGapFiles_documents (hids : (files.map (·.document.id)).Nodup) :
    (orderedGapFiles clock files).map GapFile.document =
      orderedFiles clock (files.map GapFile.document) := by
  have hids' : ((files.map GapFile.document).map FileDocument.id).Nodup := by
    rwa [List.map_map]
  have hmem (document : FileDocument) :=
    (@orderedFiles_merged _ _ clock _ hids').1.mem_iff (a := document)
  unfold orderedGapFiles
  generalize orderedFiles clock (files.map GapFile.document) = documents at hmem
  have hsub : ∀ document ∈ documents, document ∈ files.map GapFile.document :=
    fun document h => (hmem document).mp h
  clear hmem
  induction documents with
  | nil => rfl
  | cons document documents ih =>
    obtain ⟨hdocument, hrest⟩ := List.forall_mem_cons.mp hsub
    obtain ⟨file, hfile, rfl⟩ := List.mem_map.mp hdocument
    rw [List.filterMap_cons, find_document hids hfile, List.map_cons, ih hrest]

theorem orderedGapFiles_ids (hids : (files.map (·.document.id)).Nodup) :
    ((orderedGapFiles clock files).map (·.document.id)).Nodup := by
  have hids' : ((files.map GapFile.document).map FileDocument.id).Nodup := by
    rwa [List.map_map]
  have hperm := ((@orderedFiles_merged _ _ clock _ hids').1.map FileDocument.id).nodup_iff
  rw [← orderedGapFiles_documents hids, List.map_map] at hperm
  exact hperm.mpr hids'

theorem mem_orderedGapFiles (hids : (files.map (·.document.id)).Nodup) :
    file ∈ orderedGapFiles clock files ↔ file ∈ files := by
  have hids' : ((files.map GapFile.document).map FileDocument.id).Nodup := by
    rwa [List.map_map]
  have hsub {file : GapFile} (h : file ∈ orderedGapFiles clock files) : file ∈ files := by
    obtain ⟨document, -, hfind⟩ := List.mem_filterMap.mp h
    exact List.mem_of_find?_eq_some hfind
  refine ⟨hsub, fun hfile => ?_⟩
  have hdocument : file.document ∈ (orderedGapFiles clock files).map GapFile.document := by
    rw [orderedGapFiles_documents hids, (@orderedFiles_merged _ _ clock _ hids').1.mem_iff]
    exact List.mem_map_of_mem hfile
  obtain ⟨file', hfile', hsame⟩ := List.mem_map.mp hdocument
  rwa [← file_of_id hids (hsub hfile') hfile (congrArg FileDocument.id hsame)]

theorem orderedGapFiles_perm (hids : (files.map (·.document.id)).Nodup) :
    (orderedGapFiles clock files).Perm files :=
  (List.perm_ext_iff_of_nodup (List.Nodup.of_map _ (orderedGapFiles_ids hids))
    (List.Nodup.of_map _ hids)).mpr fun _ => mem_orderedGapFiles hids

theorem orderedGapFiles_ranked (hids : (files.map (·.document.id)).Nodup) :
    (orderedGapFiles clock files).Pairwise fun x y => streamKey x.document = streamKey y.document →
      segmentRank x.document < segmentRank y.document := by
  have hids' : ((files.map GapFile.document).map FileDocument.id).Nodup := by
    rwa [List.map_map]
  have hranked := orderedFiles_ranked clock hids'
  rw [← orderedGapFiles_documents hids] at hranked
  exact List.pairwise_map.mp hranked

/-! ## Fragments -/

/-- The fragment of a file at its place among so many, if it has one. -/
def fragmentOf (beforeOffset afterOffset count : Nat) (x : GapFile × Nat) : Option GapFragment :=
  if x.1.unavailable then none
  else
    let fragment := x.1.fragment (if x.2 = 0 then beforeOffset else 0)
      (if x.2 = count - 1 then some afterOffset else none)
    if fragment.start < fragment.stop then some fragment else none

theorem gapFragments_eq (beforeOffset afterOffset : Nat) (selected : List GapFile) :
    gapFragments beforeOffset afterOffset selected =
      (selected.zipIdx.filterMap (fragmentOf beforeOffset afterOffset selected.length),
        (selected.filter (·.unavailable)).map fun file => unavailableFile file.document.id) := by
  have hfold (count : Nat) (xs : List (GapFile × Nat)) (acc : List GapFragment × List Json) :
      xs.foldl (fun page x =>
        if x.1.unavailable then (page.1, page.2 ++ [unavailableFile x.1.document.id])
        else
          let fragment := x.1.fragment (if x.2 = 0 then beforeOffset else 0)
            (if x.2 = count - 1 then some afterOffset else none)
          if fragment.start < fragment.stop then (page.1 ++ [fragment], page.2)
          else (page.1, page.2)) acc =
      (acc.1 ++ xs.filterMap (fragmentOf beforeOffset afterOffset count),
        acc.2 ++ ((xs.map Prod.fst).filter (·.unavailable)).map
          fun file => unavailableFile file.document.id) := by
    induction xs generalizing acc with
    | nil => simp
    | cons x xs ih =>
      obtain ⟨file, relative⟩ := x
      rw [List.foldl_cons, ih, List.filterMap_cons, List.map_cons, List.filter_cons]
      by_cases hunavailable : file.unavailable = true
      · simp [fragmentOf, hunavailable]
      · by_cases hbytes : (file.fragment (if relative = 0 then beforeOffset else 0)
            (if relative = count - 1 then some afterOffset else none)).start <
            (file.fragment (if relative = 0 then beforeOffset else 0)
              (if relative = count - 1 then some afterOffset else none)).stop
        · simp [fragmentOf, hunavailable, hbytes]
        · simp [fragmentOf, hunavailable, hbytes]
  refine (hfold selected.length selected.zipIdx ([], [])).trans ?_
  rw [List.zipIdx_map_fst]
  rfl

theorem fragmentOf_some {beforeOffset afterOffset count relative : Nat} {fragment : GapFragment}
    (h : fragmentOf beforeOffset afterOffset count (file, relative) = some fragment) :
    file.unavailable = false ∧ fragment.start < fragment.stop ∧
      fragment = file.fragment (if relative = 0 then beforeOffset else 0)
        (if relative = count - 1 then some afterOffset else none) := by
  unfold fragmentOf at h
  by_cases hunavailable : file.unavailable = true
  · rw [if_pos hunavailable] at h
    cases h
  · rw [if_neg hunavailable] at h
    obtain ⟨hbytes, hsame⟩ := Option.ite_none_right_eq_some.mp h
    obtain rfl := Option.some.inj hsame
    exact ⟨Bool.eq_false_iff.mpr hunavailable, hbytes, rfl⟩

theorem fragmentOf_fileId {beforeOffset afterOffset count : Nat} {x : GapFile × Nat}
    {fragment : GapFragment} (h : fragmentOf beforeOffset afterOffset count x = some fragment) :
    fragment.fileId = x.1.document.id := by
  obtain ⟨-, -, rfl⟩ := @fragmentOf_some x.1 _ _ _ x.2 _ h
  rfl

/-- The files of the fragments stand in the order of the files they are taken from. -/
theorem fragments_sublist (beforeOffset afterOffset : Nat) (selected : List GapFile) :
    ((gapFragments beforeOffset afterOffset selected).1.map GapFragment.fileId).Sublist
      (selected.map (·.document.id)) := by
  have hids : selected.map (·.document.id) = selected.zipIdx.map (·.1.document.id) := by
    rw [← List.zipIdx_map_fst 0 selected, List.map_map, List.zipIdx_map_fst]
    rfl
  rw [gapFragments_eq, hids]
  show ((selected.zipIdx.filterMap _).map GapFragment.fileId).Sublist _
  generalize selected.zipIdx = xs
  induction xs with
  | nil => exact .slnil
  | cons x xs ih =>
    rw [List.filterMap_cons]
    split
    · exact ih.cons _
    · rename_i fragment hfragment
      rw [List.map_cons, List.map_cons, fragmentOf_fileId hfragment]
      exact ih.cons_cons _

theorem fragments_start_lt {beforeOffset afterOffset : Nat} {fragment : GapFragment}
    (h : fragment ∈ (gapFragments beforeOffset afterOffset selected).1) :
    fragment.start < fragment.stop := by
  rw [gapFragments_eq] at h
  obtain ⟨x, -, hx⟩ := List.mem_filterMap.mp h
  exact (@fragmentOf_some x.1 _ _ _ x.2 _ hx).2.1

/-- The bytes of a selected file that are in a fragment. -/
theorem covered_selected (hids : (selected.map (·.document.id)).Nodup) {index : Nat}
    (hfile : selected[index]? = some file) (beforeOffset afterOffset offset : Nat) :
    (∃ fragment ∈ (gapFragments beforeOffset afterOffset selected).1,
      fragment.fileId = file.document.id ∧ fragment.start ≤ offset ∧ offset < fragment.stop) ↔
    file.unavailable = false ∧ (index = 0 → beforeOffset ≤ offset) ∧
      offset < (if index = selected.length - 1 then afterOffset else file.watermark.getD 0) := by
  rw [gapFragments_eq]
  have hstop (start : Nat) : offset < (file.fragment start
      (if index = selected.length - 1 then some afterOffset else none)).stop ↔
        offset < if index = selected.length - 1 then afterOffset else file.watermark.getD 0 := by
    by_cases hlast : index = selected.length - 1
    · rw [if_pos hlast, if_pos hlast]
      exact Iff.rfl
    · rw [if_neg hlast, if_neg hlast]
      exact Iff.rfl
  have hstart : (if index = 0 then beforeOffset else 0) ≤ offset ↔
      (index = 0 → beforeOffset ≤ offset) := by
    split
    · rename_i hzero
      exact ⟨fun h _ => h, fun h => h hzero⟩
    · rename_i hzero
      exact ⟨fun _ h => absurd h hzero, fun _ => Nat.zero_le _⟩
  constructor
  · rintro ⟨fragment, hmem, hid, hlow, hhigh⟩
    obtain ⟨⟨file', index'⟩, hx, hfragment⟩ := List.mem_filterMap.mp hmem
    have hat : selected[index']? = some file' := by simpa using List.mem_zipIdx_iff_getElem?.mp hx
    have hsame : file'.document.id = file.document.id :=
      (fragmentOf_fileId hfragment).symm.trans hid
    -- files of one identifier are at one place
    have hindex : index' = index := by
      have hget' : (selected.map (·.document.id))[index']? = some file.document.id := by
        rw [List.getElem?_map, hat, ← hsame]
        rfl
      have hget : (selected.map (·.document.id))[index]? = some file.document.id := by
        rw [List.getElem?_map, hfile]
        rfl
      have hlt := (List.getElem?_eq_some_iff.mp hget').1
      exact (List.getElem?_inj hlt hids).mp (hget'.trans hget.symm)
    subst hindex
    obtain rfl := Option.some.inj (hat.symm.trans hfile)
    obtain ⟨havailable, -, rfl⟩ := fragmentOf_some hfragment
    exact ⟨havailable, hstart.mp hlow, (hstop _).mp hhigh⟩
  · rintro ⟨havailable, hlow, hhigh⟩
    have hbytes : (file.fragment (if index = 0 then beforeOffset else 0)
        (if index = selected.length - 1 then some afterOffset else none)).start <
        (file.fragment (if index = 0 then beforeOffset else 0)
          (if index = selected.length - 1 then some afterOffset else none)).stop :=
      Nat.lt_of_le_of_lt (hstart.mpr hlow) ((hstop _).mpr hhigh)
    refine ⟨file.fragment (if index = 0 then beforeOffset else 0)
      (if index = selected.length - 1 then some afterOffset else none), ?_, rfl, hstart.mpr hlow,
      (hstop _).mpr hhigh⟩
    refine List.mem_filterMap.mpr ⟨(file, index), ?_, ?_⟩
    · exact List.mem_zipIdx_iff_getElem?.mpr hfile
    · simp only [fragmentOf, havailable, Bool.false_eq_true, if_false, hbytes, if_true]

/-! ## Anchors -/

/-- The anchors are found in the order, one not behind the other, within the watermarks. -/
structure Located (ordered : List GapFile) (before after : GapAnchor)
    (beforeIndex afterIndex : Nat) : Prop where
  beforeAt : positionOf ordered before.fileId = some beforeIndex
  afterAt : positionOf ordered after.fileId = some afterIndex
  le : beforeIndex ≤ afterIndex
  beforeBytes : ∃ file bytes, ordered[beforeIndex]? = some file ∧ file.watermark = some bytes ∧
    before.offset ≤ bytes
  afterBytes : ∃ file bytes, ordered[afterIndex]? = some file ∧ file.watermark = some bytes ∧
    after.offset ≤ bytes
  same : beforeIndex = afterIndex → before.offset ≤ after.offset

/-- The files from one anchor to the other. -/
def selectedFiles (ordered : List GapFile) (beforeIndex afterIndex : Nat) : List GapFile :=
  (ordered.take (afterIndex + 1)).drop beforeIndex

/-- The fragments and the issues between two anchors. -/
def gapBetween (ordered : List GapFile) (before after : GapAnchor)
    (beforeIndex afterIndex : Nat) : List GapFragment × List Json :=
  gapFragments before.offset after.offset (selectedFiles ordered beforeIndex afterIndex)

theorem selectedFiles_sublist :
    (selectedFiles ordered beforeIndex afterIndex).Sublist ordered :=
  (List.drop_sublist _ _).trans (List.take_sublist _ _)

theorem getElem?_selectedFiles {index : Nat} (h : beforeIndex + index ≤ afterIndex) :
    (selectedFiles ordered beforeIndex afterIndex)[index]? = ordered[beforeIndex + index]? := by
  rw [selectedFiles, List.getElem?_drop, List.getElem?_take_of_lt (Nat.lt_succ_of_le h)]

theorem length_selectedFiles (h : Located ordered before after beforeIndex afterIndex) :
    (selectedFiles ordered beforeIndex afterIndex).length = afterIndex + 1 - beforeIndex := by
  obtain ⟨file, -, hfile, -⟩ := h.afterBytes
  have hlt := (List.getElem?_eq_some_iff.mp hfile).1
  rw [selectedFiles, List.length_drop, List.length_take, Nat.min_eq_left hlt]

/-- The bytes in the fragments are those of the stream from the place of the first anchor to
before that of the last one, without those of files that are reported. -/
theorem covered_iff (hids : (ordered.map (·.document.id)).Nodup)
    (h : Located ordered before after beforeIndex afterIndex) {index : Nat}
    (hfile : ordered[index]? = some file) (offset : Nat) :
    (∃ fragment ∈ (gapBetween ordered before after beforeIndex afterIndex).1,
      fragment.fileId = file.document.id ∧ fragment.start ≤ offset ∧ offset < fragment.stop) ↔
    file.unavailable = false ∧ (∃ bytes, file.watermark = some bytes ∧ offset < bytes) ∧
      toLex (beforeIndex, before.offset) ≤ toLex (index, offset) ∧
      toLex (index, offset) < toLex (afterIndex, after.offset) := by
  have hselected : ((selectedFiles ordered beforeIndex afterIndex).map (·.document.id)).Nodup :=
    hids.sublist (selectedFiles_sublist.map _)
  have hle := h.le
  rw [Prod.Lex.toLex_le_toLex, Prod.Lex.toLex_lt_toLex]
  by_cases hin : beforeIndex ≤ index ∧ index ≤ afterIndex
  · obtain ⟨hlow, hhigh⟩ := hin
    have hplace : beforeIndex + (index - beforeIndex) = index := Nat.add_sub_cancel' hlow
    have hat : (selectedFiles ordered beforeIndex afterIndex)[index - beforeIndex]? =
        some file := by
      rw [getElem?_selectedFiles (by rwa [hplace]), hplace, hfile]
    rw [gapBetween, covered_selected hselected hat, length_selectedFiles h]
    have hlast : index - beforeIndex = afterIndex + 1 - beforeIndex - 1 ↔ index = afterIndex := by
      omega
    simp only [hlast]
    refine and_congr_right fun havailable => ?_
    have hbytes : ∃ bytes, file.watermark = some bytes := by
      simp only [GapFile.unavailable, Bool.or_eq_false_iff] at havailable
      exact Option.isSome_iff_exists.mp (by simpa using havailable.2)
    obtain ⟨bytes, hbytes⟩ := hbytes
    simp only [hbytes, Option.getD_some, Option.some.injEq, exists_eq_left']
    by_cases hend : index = afterIndex
    · -- the last file has its bytes up to the anchor
      obtain ⟨last, lastBytes, hlastFile, hlastBytes, hafter⟩ := h.afterBytes
      subst hend
      obtain rfl := Option.some.inj (hlastFile.symm.trans hfile)
      obtain rfl := Option.some.inj (hlastBytes.symm.trans hbytes)
      rw [if_pos rfl]
      omega
    · rw [if_neg hend]
      omega
  · -- a file beyond the anchors has no fragment
    constructor
    · rintro ⟨fragment, hmem, hid, -⟩
      have hsub := fragments_sublist before.offset after.offset
        (selectedFiles ordered beforeIndex afterIndex)
      obtain ⟨file', hfile', hsame⟩ :=
        List.mem_map.mp (hsub.mem (List.mem_map_of_mem hmem))
      obtain ⟨index', hindex'⟩ := List.mem_iff_getElem?.mp hfile'
      have hlt := (List.getElem?_eq_some_iff.mp hindex').1
      rw [length_selectedFiles h] at hlt
      rw [getElem?_selectedFiles (by omega)] at hindex'
      have hget' : (ordered.map (·.document.id))[beforeIndex + index']? =
          some file.document.id := by
        rw [List.getElem?_map, hindex', ← hid, ← hsame]
        rfl
      have hget : (ordered.map (·.document.id))[index]? = some file.document.id := by
        rw [List.getElem?_map, hfile]
        rfl
      have hlen := (List.getElem?_eq_some_iff.mp hget').1
      have hindex := (List.getElem?_inj hlen hids).mp (hget'.trans hget.symm)
      omega
    · rintro ⟨-, -, hlow, hhigh⟩
      omega

end CameraLogs.Logs

import CameraLogs.Lib.Dict
import CameraLogs.Lib.StreamMerge
import Mathlib.Data.List.Sort
import Mathlib.Data.Prod.Lex
import Mathlib.Data.String.Basic

/-!
# The order of log files

Catalog, search and export list log files in one order. The files of an hour on a node, or
of a session where there are no segment numbers, are a stream, in the order of their numbers;
the streams are merged by time with a heap of their first files.

A time is compared as what `timestamp()` makes of it; which texts are times is the
platform's to say. Both are a `Clock`.
-/

namespace CameraLogs.Logs

open CameraLogs.Lib

/-- A datetime, with an offset from UTC or without. -/
inductive Datetime
  | aware (instant : Int)
  | naive (wall : Int)
  deriving DecidableEq

/-- What a document has in a time's place: a datetime, or something else as a text. -/
inductive TimeValue
  | datetime (value : Datetime)
  | text (value : String)
  deriving DecidableEq

/-- The platform's times. -/
structure Clock (τ : Type) where
  fromisoformat : String → Option Datetime
  /-- `timestamp()` of a datetime that has an offset. -/
  timestamp : Int → τ
  zero : τ

/-- What the order reads of a file's document. -/
structure FileDocument where
  id : String
  taskId : Option String
  nodeId : Option String
  runId : Option String
  sessionId : Option String
  hour : Option String
  segmentNumber : Option Int
  firstSequence : Option Int
  firstReceivedAt : Option TimeValue
  sessionStartedAt : Option TimeValue
  runStartedAt : Option TimeValue
  deriving DecidableEq

variable {τ : Type}

/-- The time of a value; a time without an offset is one of UTC. -/
def Clock.read (clock : Clock τ) (value : TimeValue) : Option τ :=
  let instant := match value with
    | .datetime value => some value
    | .text value => clock.fromisoformat value
  instant.map fun
    | .aware instant => clock.timestamp instant
    | .naive wall => clock.timestamp wall

/-- `_time_key`: the first of the times that there is and that can be read. -/
def timeKey (clock : Clock τ) (file : FileDocument) : τ :=
  let values := [file.firstReceivedAt, file.sessionStartedAt, file.runStartedAt,
    file.hour.map TimeValue.text]
  (values.findSome? fun value => value.bind clock.read).getD clock.zero

inductive StreamKey
  | hour (taskId nodeId hour : Option String)
  | session (taskId nodeId runId : Option String) (sessionId : String)
  | file (id : String)
  deriving DecidableEq

def streamKey (file : FileDocument) : StreamKey :=
  if 0 < file.segmentNumber.getD 0 then .hour file.taskId file.nodeId file.hour
  else match file.sessionId with
    | none => .file file.id
    | some sessionId =>
      if sessionId = "" then .file file.id
      else .session file.taskId file.nodeId file.runId sessionId

/-- The order in a stream. -/
def segmentRank (file : FileDocument) : Int ×ₗ Int ×ₗ String :=
  toLex (file.segmentNumber.getD 0, toLex (file.firstSequence.getD 0, file.id))

/-- The order of the first files of the streams. -/
def mergeKey (clock : Clock τ) (file : FileDocument) : τ ×ₗ Int ×ₗ String :=
  toLex (timeKey clock file, toLex (file.firstSequence.getD 0, file.id))

theorem segmentRank_id {x y : FileDocument} (h : segmentRank x = segmentRank y) : x.id = y.id :=
  congrArg (fun rank => (ofLex (ofLex rank).2).2) h

theorem mergeKey_id {clock : Clock τ} {x y : FileDocument}
    (h : mergeKey clock x = mergeKey clock y) : x.id = y.id :=
  congrArg (fun key => (ofLex (ofLex key).2).2) h

abbrev FileGroup := StreamKey × List FileDocument

/-- `groups.setdefault(key, []).append(file)` -/
def groupFile (groups : List FileGroup) (file : FileDocument) : List FileGroup :=
  let key := streamKey file
  Dict.upsert Prod.fst (key, (Dict.lookup Prod.fst key groups).elim [] Prod.snd ++ [file]) groups

/-- The streams, each in its order. -/
def fileStreams (files : List FileDocument) : List (List FileDocument) :=
  (files.foldl groupFile []).map fun entry =>
    entry.2.insertionSort fun file other => segmentRank file ≤ segmentRank other

variable [LinearOrder τ]

/-- An entry of the heap: the key of a file, its stream, and its place there. -/
abbrev HeapEntry (τ : Type) := (τ ×ₗ Int ×ₗ String) ×ₗ Nat ×ₗ Nat

def HeapEntry.group (entry : HeapEntry τ) : Nat := entry.2.1
def HeapEntry.position (entry : HeapEntry τ) : Nat := entry.2.2

def streamFile (streams : List (List FileDocument)) (group position : Nat) : Option FileDocument :=
  streams[group]?.bind fun stream => stream[position]?

def heapPush (clock : Clock τ) (streams : List (List FileDocument)) (group position : Nat)
    (heap : List (HeapEntry τ)) : List (HeapEntry τ) :=
  match streamFile streams group position with
  | none => heap
  | some file =>
    heap.orderedInsert (· ≤ ·) (toLex (mergeKey clock file, toLex (group, position)))

/-- The loop over the heap, for so many files. -/
def mergeHeap (clock : Clock τ) (streams : List (List FileDocument)) :
    Nat → List (HeapEntry τ) → List FileDocument
  | 0, _ => []
  | _, [] => []
  | fuel + 1, entry :: heap =>
    match streamFile streams entry.group entry.position with
    | none => []
    | some file =>
      file :: mergeHeap clock streams fuel
        (heapPush clock streams entry.group (entry.position + 1) heap)

def orderedFiles (clock : Clock τ) (files : List FileDocument) : List FileDocument :=
  let streams := fileStreams files
  let heap := (List.range streams.length).foldl
    (fun heap group => heapPush clock streams group 0 heap) []
  mergeHeap clock streams files.length heap

/-! ## The streams -/

/-- The groups so far hold the files so far, each under its key. -/
structure GroupsOk (files : List FileDocument) (groups : List FileGroup) : Prop where
  keys : (groups.map Prod.fst).Nodup
  same : ∀ entry ∈ groups, ∀ file ∈ entry.2, streamKey file = entry.1
  perm : (groups.flatMap Prod.snd).Perm files

theorem upsert_append_perm (key : StreamKey) (file : FileDocument) (groups : List FileGroup) :
    ((Dict.upsert Prod.fst (key, (Dict.lookup Prod.fst key groups).elim [] Prod.snd ++ [file])
      groups).flatMap Prod.snd).Perm (file :: groups.flatMap Prod.snd) := by
  induction groups with
  | nil => simp [Dict.upsert, Dict.lookup]
  | cons entry groups ih =>
    by_cases hkey : entry.1 = key
    · have hlookup : Dict.lookup Prod.fst key (entry :: groups) = some entry := by
        simp [Dict.lookup, hkey]
      simp only [Dict.upsert, hlookup, hkey, if_true, Option.elim_some, List.flatMap_cons]
      rw [List.append_assoc, List.singleton_append]
      exact List.perm_middle
    · have hlookup : Dict.lookup Prod.fst key (entry :: groups) = Dict.lookup Prod.fst key groups := by
        simp [Dict.lookup, hkey]
      simp only [Dict.upsert, hlookup, hkey, if_false, List.flatMap_cons]
      exact (ih.append_left entry.2).trans List.perm_middle

theorem GroupsOk.groupFile {files : List FileDocument} {groups : List FileGroup}
    (h : GroupsOk files groups) (file : FileDocument) :
    GroupsOk (file :: files) (groupFile groups file) where
  keys := Dict.nodup_upsert h.keys
  same := by
    intro entry hentry other hother
    obtain rfl | hentry := Dict.mem_upsert hentry
    · obtain hother | hother := List.mem_append.1 hother
      · cases hlookup : Dict.lookup Prod.fst (streamKey file) groups with
        | none =>
          rw [hlookup] at hother
          cases hother
        | some found =>
          obtain ⟨hfound, hkey⟩ := Dict.lookup_some hlookup
          rw [hlookup] at hother
          exact (h.same found hfound other hother).trans hkey
      · rw [List.mem_singleton.1 hother]
    · exact h.same entry hentry other hother
  perm := (upsert_append_perm _ file groups).trans (h.perm.cons file)

theorem groupsOk (files : List FileDocument) {seen : List FileDocument} {groups : List FileGroup}
    (h : GroupsOk seen groups) :
    ∃ all, all.Perm (files ++ seen) ∧ GroupsOk all (files.foldl groupFile groups) := by
  induction files generalizing seen groups with
  | nil => exact ⟨seen, .refl _, h⟩
  | cons file files ih =>
    obtain ⟨all, hall, hok⟩ := ih (h.groupFile file)
    exact ⟨all, hall.trans List.perm_middle, hok⟩

/-- The files of a stream. -/
def streamAt (streams : List (List FileDocument)) (group : Nat) : List FileDocument :=
  (streams[group]?).getD []

/-- The streams hold the files, each stream those of one key in their order. -/
structure StreamsOk (files : List FileDocument) (streams : List (List FileDocument)) : Prop where
  perm : streams.flatten.Perm files
  ordered : ∀ group, (streamAt streams group).Pairwise fun x y => segmentRank x < segmentRank y
  key : ∀ i j, ∀ x ∈ streamAt streams i, ∀ y ∈ streamAt streams j,
    streamKey x = streamKey y ↔ i = j

/-- Distinct files that are in order are strictly in order. -/
theorem pairwise_rank {files : List FileDocument} (hids : (files.map FileDocument.id).Nodup)
    (h : files.Pairwise fun x y => segmentRank x ≤ segmentRank y) :
    files.Pairwise fun x y => segmentRank x < segmentRank y := by
  have hne : files.Pairwise fun x y => x.id ≠ y.id := List.pairwise_map.1 hids
  exact (h.and hne).imp fun hboth => lt_of_le_of_ne hboth.1 fun hsame =>
    hboth.2 (segmentRank_id hsame)

theorem streamsOk {files : List FileDocument} (hids : (files.map FileDocument.id).Nodup) :
    StreamsOk files (fileStreams files) := by
  obtain ⟨all, hall, hok⟩ := @groupsOk files [] []
    ⟨List.nodup_nil, fun _ h => absurd h List.not_mem_nil, .nil⟩
  rw [List.append_nil] at hall
  generalize hgroups : files.foldl groupFile [] = groups at hok
  have hperm := hok.perm.trans hall
  have hat : ∀ group, streamAt (fileStreams files) group = [] ∨
      ∃ entry, groups[group]? = some entry ∧ streamAt (fileStreams files) group =
        entry.2.insertionSort fun file other => segmentRank file ≤ segmentRank other := by
    intro group
    unfold streamAt fileStreams
    rw [hgroups, List.getElem?_map]
    cases hentry : groups[group]? with
    | none => exact .inl rfl
    | some entry => exact .inr ⟨entry, rfl, rfl⟩
  refine ⟨?_, fun group => ?_, fun i j x hx y hy => ?_⟩
  · refine List.Perm.trans ?_ hperm
    unfold fileStreams
    rw [hgroups]
    exact List.Perm.flatMap_left _ fun entry _ => List.perm_insertionSort _ _
  · obtain hnone | ⟨entry, hentry, hsome⟩ := hat group
    · rw [hnone]
      exact .nil
    · rw [hsome]
      refine pairwise_rank ?_ (List.pairwise_insertionSort _ _)
      have hsub : entry.2.Sublist (groups.flatMap Prod.snd) :=
        List.sublist_flatten_of_mem (List.mem_map_of_mem (List.mem_of_getElem? hentry))
      have hnodup := ((hperm.map FileDocument.id).nodup_iff).2 hids
      exact (((List.perm_insertionSort _ _).map FileDocument.id).nodup_iff).2
        (hnodup.sublist (hsub.map _))
  · obtain hnone | ⟨entry, hi, hsome⟩ := hat i
    · rw [hnone] at hx
      cases hx
    obtain hnone | ⟨other, hj, hsome'⟩ := hat j
    · rw [hnone] at hy
      cases hy
    rw [hsome, List.mem_insertionSort] at hx
    rw [hsome', List.mem_insertionSort] at hy
    rw [hok.same entry (List.mem_of_getElem? hi) x hx, hok.same other (List.mem_of_getElem? hj) y hy]
    refine ⟨fun hkey => ?_, fun hij => ?_⟩
    · -- no two groups have one key
      have hlt : i < (groups.map Prod.fst).length := by
        rw [List.length_map]
        exact (List.getElem?_eq_some_iff.1 hi).1
      refine (List.getElem?_inj hlt hok.keys).1 ?_
      rw [List.getElem?_map, List.getElem?_map, hi, hj]
      exact congrArg some hkey
    · subst hij
      cases hi.symm.trans hj
      rfl

/-! ## The heap -/

variable {clock : Clock τ} {files : List FileDocument} {streams : List (List FileDocument)}
  {heap : List (HeapEntry τ)} {entry : HeapEntry τ} {group position : Nat} {file : FileDocument}

/-- What an entry stands for: its file and those behind it in the stream. -/
def HeapEntry.rest (streams : List (List FileDocument)) (entry : HeapEntry τ) : List FileDocument :=
  (streamAt streams entry.group).drop entry.position

/-- The heap is sorted, and has an entry at most of each stream, under the key of its file. -/
structure HeapOk (clock : Clock τ) (streams : List (List FileDocument))
    (heap : List (HeapEntry τ)) : Prop where
  sorted : heap.Pairwise (· ≤ ·)
  groups : (heap.map HeapEntry.group).Nodup
  keys : ∀ entry ∈ heap, ∃ file, streamFile streams entry.group entry.position = some file ∧
    entry.1 = mergeKey clock file

theorem streamFile_drop : (streamAt streams group).drop position =
    match streamFile streams group position with
    | none => []
    | some file => file :: (streamAt streams group).drop (position + 1) := by
  unfold streamFile streamAt
  cases streams[group]? with
  | none => simp
  | some stream =>
    simp only [Option.bind_some, Option.getD_some]
    cases hfile : stream[position]? with
    | none => simpa using hfile
    | some file =>
      obtain ⟨hlt, rfl⟩ := List.getElem?_eq_some_iff.1 hfile
      exact List.drop_eq_getElem_cons hlt

theorem heapPush_perm : ((heapPush clock streams group position heap).flatMap
    (HeapEntry.rest streams)).Perm
      ((streamAt streams group).drop position ++ heap.flatMap (HeapEntry.rest streams)) := by
  unfold heapPush
  split
  · rename_i hnone
    rw [streamFile_drop, hnone]
    exact .refl _
  · exact (List.perm_orderedInsert _ _ _).flatMap_right _

theorem mem_heapPush (h : entry ∈ heapPush clock streams group position heap) :
    entry ∈ heap ∨ entry.group = group := by
  unfold heapPush at h
  split at h
  · exact .inl h
  · obtain rfl | h := List.mem_orderedInsert _ |>.1 h
    · exact .inr rfl
    · exact .inl h

theorem HeapOk.push (h : HeapOk clock streams heap) (hgroup : group ∉ heap.map HeapEntry.group) :
    HeapOk clock streams (heapPush clock streams group position heap) := by
  unfold heapPush
  split
  · exact h
  · rename_i file hfile
    refine ⟨h.sorted.orderedInsert _ _, ?_, ?_⟩
    · have hperm := List.perm_orderedInsert (· ≤ ·)
        (toLex (mergeKey clock file, toLex (group, position)) : HeapEntry τ) heap
      rw [(hperm.map HeapEntry.group).nodup_iff]
      exact List.nodup_cons.2 ⟨hgroup, h.groups⟩
    · intro entry hentry
      obtain rfl | hentry := List.mem_orderedInsert _ |>.1 hentry
      · exact ⟨file, hfile, rfl⟩
      · exact h.keys entry hentry

omit [LinearOrder τ] in
theorem restOf_of_file (hfile : streamFile streams entry.group entry.position = some file) :
    entry.rest streams = file :: (streamAt streams entry.group).drop (entry.position + 1) := by
  unfold HeapEntry.rest
  rw [streamFile_drop, hfile]

omit [LinearOrder τ] in
theorem mem_streamAt (h : file ∈ entry.rest streams) : file ∈ streamAt streams entry.group :=
  List.mem_of_mem_drop h

omit [LinearOrder τ] in
/-- What an entry stands for is behind its file. -/
theorem StreamsOk.before (h : StreamsOk files streams)
    (hfile : streamFile streams entry.group entry.position = some file) {later : FileDocument}
    (hlater : later ∈ (streamAt streams entry.group).drop (entry.position + 1)) :
    Before streamKey segmentRank file later := by
  have hrest := restOf_of_file hfile
  unfold HeapEntry.rest at hrest
  have hordered := List.Pairwise.sublist (List.drop_sublist entry.position _) (h.ordered entry.group)
  rw [hrest] at hordered
  refine ⟨?_, (List.pairwise_cons.1 hordered).1 later hlater⟩
  have hmem : file ∈ streamAt streams entry.group :=
    List.mem_of_mem_drop (hrest ▸ List.mem_cons_self)
  exact (h.key entry.group entry.group file hmem later (List.mem_of_mem_drop hlater)).2 rfl

omit [LinearOrder τ] in
theorem StreamsOk.mem (h : StreamsOk files streams) (hfile : file ∈ entry.rest streams) :
    file ∈ files := by
  have hmem := mem_streamAt hfile
  unfold streamAt at hmem
  cases hstream : streams[entry.group]? with
  | none =>
    rw [hstream] at hmem
    cases hmem
  | some stream =>
    rw [hstream] at hmem
    exact h.perm.mem_iff.1 (List.mem_flatten_of_mem (List.mem_of_getElem? hstream) hmem)

/-- What the entries of the heap stand for is merged. -/
theorem mergeHeap_merged (hids : (files.map FileDocument.id).Nodup)
    (hstreams : StreamsOk files streams) {fuel : Nat} (hheap : HeapOk clock streams heap)
    (hfuel : (heap.flatMap (HeapEntry.rest streams)).length ≤ fuel) :
    (mergeHeap clock streams fuel heap).Perm (heap.flatMap (HeapEntry.rest streams)) ∧
      Merged streamKey segmentRank (mergeKey clock) (mergeHeap clock streams fuel heap) := by
  induction fuel generalizing heap with
  | zero =>
    rw [List.length_eq_zero_iff.1 (Nat.le_zero.1 hfuel)]
    exact ⟨.refl _, trivial⟩
  | succ fuel ih =>
    cases heap with
    | nil => exact ⟨.refl _, trivial⟩
    | cons entry heap =>
      obtain ⟨file, hfile, hkey⟩ := hheap.keys entry List.mem_cons_self
      have hrest := restOf_of_file hfile
      have hgroup := (List.nodup_cons.1 hheap.groups).1
      have htail : HeapOk clock streams heap := ⟨(List.pairwise_cons.1 hheap.sorted).2,
        (List.nodup_cons.1 hheap.groups).2, fun other h => hheap.keys other (List.mem_cons_of_mem _ h)⟩
      have hperm := @heapPush_perm _ _ clock streams heap entry.group (entry.position + 1)
      rw [List.flatMap_cons, hrest, List.cons_append, List.length_cons, ← hperm.length_eq] at hfuel
      obtain ⟨hout, hmerged⟩ := ih (htail.push hgroup) (Nat.le_of_succ_le_succ hfuel)
      have hstep : mergeHeap clock streams (fuel + 1) (entry :: heap) = file ::
          mergeHeap clock streams fuel
            (heapPush clock streams entry.group (entry.position + 1) heap) := by
        rw [mergeHeap, hfile]
      rw [hstep, List.flatMap_cons, hrest]
      generalize mergeHeap clock streams fuel _ = out at hout hmerged ⊢
      have hall := hout.trans hperm
      have hfirst : file ∈ entry.rest streams := hrest ▸ List.mem_cons_self
      -- the other entries are of other streams
      have hother : ∀ other ∈ heap, ∀ y ∈ other.rest streams, streamKey file ≠ streamKey y := by
        intro other hmem y hy hsame
        have hgroups := (hstreams.key _ _ file (mem_streamAt hfirst) y (mem_streamAt hy)).1 hsame
        exact hgroup (hgroups ▸ List.mem_map_of_mem hmem)
      refine ⟨hall.cons file, fun y hy hbefore => ?_, fun y hy havailable => ?_, hmerged⟩
      · obtain hy | hy := List.mem_append.1 (hall.mem_iff.1 hy)
        · exact lt_asymm hbefore.2 (hstreams.before hfile hy).2
        · obtain ⟨other, hmem, hy⟩ := List.mem_flatMap.1 hy
          exact hother other hmem y hy hbefore.1.symm
      · obtain hy | hy := List.mem_append.1 (hall.mem_iff.1 hy)
        · exact absurd (hstreams.before hfile hy) (havailable file List.mem_cons_self)
        · obtain ⟨other, hmem, hy⟩ := List.mem_flatMap.1 hy
          obtain ⟨first, hfirst', hkey'⟩ := hheap.keys other (List.mem_cons_of_mem _ hmem)
          have hrest' := restOf_of_file hfirst'
          have hmem' : first ∈ other.rest streams := hrest' ▸ List.mem_cons_self
          -- it is the first of its stream, for that one comes before it otherwise
          have hsame : y = first := by
            obtain rfl | hlater := List.mem_cons.1 (hrest' ▸ hy)
            · rfl
            · refine absurd (hstreams.before hfirst' hlater) (havailable first ?_)
              refine List.mem_cons_of_mem _ (hall.mem_iff.2 (List.mem_append_right _ ?_))
              exact List.mem_flatMap.2 ⟨other, hmem, hmem'⟩
          subst hsame
          have hle : entry ≤ other := (List.pairwise_cons.1 hheap.sorted).1 other hmem
          have hkeys : mergeKey clock file ≤ mergeKey clock y := by
            rw [← hkey, ← hkey']
            exact Prod.Lex.monotone_fst _ _ hle
          refine lt_of_le_of_ne hkeys fun heq => hother other hmem y hy ?_
          rw [List.inj_on_of_nodup_map hids (hstreams.mem hfirst) (hstreams.mem hy) (mergeKey_id heq)]

/-! ## All the files -/

/-- The heap begins with the first files of the streams so far. -/
theorem heapStart (count : Nat) :
    let heap := (List.range count).foldl (fun heap group => heapPush clock streams group 0 heap) []
    HeapOk clock streams heap ∧ (∀ entry ∈ heap, entry.group < count) ∧
      (heap.flatMap (HeapEntry.rest streams)).Perm
        ((List.range count).flatMap (streamAt streams)) := by
  induction count with
  | zero => exact ⟨⟨.nil, List.nodup_nil, nofun⟩, nofun, .nil⟩
  | succ count ih =>
    obtain ⟨hok, hbelow, hperm⟩ := ih
    rw [List.range_succ, List.foldl_append, List.flatMap_append]
    generalize (List.range count).foldl _ [] = heap at hok hbelow hperm
    have hnew : count ∉ heap.map HeapEntry.group := fun hmem => by
      obtain ⟨entry, hentry, hsame⟩ := List.mem_map.1 hmem
      exact absurd (hbelow entry hentry) (hsame ▸ Nat.lt_irrefl _)
    refine ⟨hok.push hnew, fun entry hentry => ?_, ?_⟩
    · obtain hentry | hsame := mem_heapPush hentry
      · exact Nat.lt_succ_of_lt (hbelow entry hentry)
      · exact hsame ▸ Nat.lt_succ_self count
    · refine heapPush_perm.trans ?_
      rw [List.flatMap_singleton]
      exact List.perm_append_comm.trans (hperm.append_right _)

theorem range_streamAt : (List.range streams.length).flatMap (streamAt streams) = streams.flatten := by
  rw [List.flatMap_def]
  congr 1
  refine List.ext_getElem (by simp) fun i hi hj => ?_
  simp [streamAt, List.getElem?_eq_getElem hj]

/-- The files in order are a merge of them. -/
theorem orderedFiles_merged (hids : (files.map FileDocument.id).Nodup) :
    (orderedFiles clock files).Perm files ∧
      Merged streamKey segmentRank (mergeKey clock) (orderedFiles clock files) := by
  have hstreams := streamsOk hids
  obtain ⟨hok, -, hperm⟩ := @heapStart _ _ clock (fileStreams files) (fileStreams files).length
  rw [range_streamAt] at hperm
  have hall := hperm.trans hstreams.perm
  obtain ⟨hout, hmerged⟩ := mergeHeap_merged hids hstreams hok (le_of_eq hall.length_eq)
  exact ⟨hout.trans hall, hmerged⟩

theorem timeKey_le {x y : FileDocument} (h : mergeKey clock x < mergeKey clock y) :
    timeKey clock x ≤ timeKey clock y := Prod.Lex.monotone_fst _ _ h.le

/-- The files of a stream stand in its order. -/
theorem orderedFiles_ranked (clock : Clock τ) {files : List FileDocument}
    (hids : (files.map FileDocument.id).Nodup) :
    (orderedFiles clock files).Pairwise fun x y =>
      streamKey x = streamKey y → segmentRank x < segmentRank y := by
  obtain ⟨hperm, hmerged⟩ := @orderedFiles_merged _ _ clock _ hids
  have hne : (orderedFiles clock files).Pairwise fun x y => x.id ≠ y.id :=
    List.pairwise_map.1 (((hperm.map FileDocument.id).nodup_iff).2 hids)
  refine (hmerged.pairwise.and hne).imp fun hboth hsame => ?_
  have hle := le_of_not_gt fun hlt => hboth.1 ⟨hsame.symm, hlt⟩
  exact lt_of_le_of_ne hle fun heq => hboth.2 (segmentRank_id heq)

/-- The files in order are the given ones; those of a stream stand in the order of segment
number, first sequence and identifier; they are sorted by time if each stream is; and it does
not matter in which order they are given. -/
theorem orderedFiles_exact (clock : Clock τ) (files : List FileDocument)
    (hids : (files.map FileDocument.id).Nodup) :
    (orderedFiles clock files).Perm files ∧
    ((orderedFiles clock files).Pairwise fun x y =>
      streamKey x = streamKey y → segmentRank x < segmentRank y) ∧
    ((∀ x ∈ files, ∀ y ∈ files, Before streamKey segmentRank x y →
        timeKey clock x ≤ timeKey clock y) →
      (orderedFiles clock files).Pairwise fun x y => timeKey clock x ≤ timeKey clock y) ∧
    ∀ others : List FileDocument, others.Perm files →
      orderedFiles clock others = orderedFiles clock files := by
  obtain ⟨hperm, hmerged⟩ := @orderedFiles_merged _ _ clock _ hids
  refine ⟨hperm, orderedFiles_ranked clock hids, fun hstreams => ?_, fun others hothers => ?_⟩
  · exact hmerged.sorted (fun _ _ => timeKey_le) fun x hx y hy =>
      hstreams x (hperm.mem_iff.1 hx) y (hperm.mem_iff.1 hy)
  · have hids' := ((hothers.map FileDocument.id).nodup_iff).2 hids
    obtain ⟨hperm', hmerged'⟩ := @orderedFiles_merged _ _ clock _ hids'
    exact hmerged'.unique (hperm'.trans (hothers.trans hperm.symm)) hmerged

def epochClock : Clock Int := ⟨fun _ => none, id, 0⟩

def nodeSegment (id nodeId : String) (number time : Int) : FileDocument :=
  { id, taskId := some "t", nodeId := some nodeId, runId := none, sessionId := none,
    hour := some "h", segmentNumber := some number, firstSequence := none,
    firstReceivedAt := some (.datetime (.aware time)), sessionStartedAt := none,
    runStartedAt := none }

/-- The clock of a node went back between its segments. -/
def twoNodes : List FileDocument :=
  [nodeSegment "a2" "a" 2 10, nodeSegment "b1" "b" 1 20, nodeSegment "a1" "a" 1 30]

theorem orderedFiles_exact_twoNodes :
    (orderedFiles epochClock twoNodes).Perm twoNodes ∧
    orderedFiles epochClock twoNodes.reverse = orderedFiles epochClock twoNodes := by
  obtain ⟨hperm, -, -, hgiven⟩ := orderedFiles_exact epochClock twoNodes (by decide)
  exact ⟨hperm, hgiven _ (List.reverse_perm _)⟩

example : (orderedFiles epochClock twoNodes).map FileDocument.id = ["b1", "a1", "a2"] := by decide

end CameraLogs.Logs

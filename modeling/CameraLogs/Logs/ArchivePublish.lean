import CameraLogs.Logs.ArchiveChecks

/-!
# What a publication returns, and what it may destroy

`publishHourArchive_spec` is the specification of a call on an arbitrary
directory: it returns exactly when the directory and the arguments are
`Publishable`, the tar is then the old members and the missing segments, and a
call that raises has touched neither a raw log nor an index.

The verification compares the rebuilt tar with the *records*, and a segment whose
name the metadata already has gets no record of its own. So a call that returns
has archived the bytes of a segment exactly when the old record of its name, if
there is one, agrees with it (`keepsBytes_iff`); when it does not, the call still
returns and removes a raw log that is archived nowhere.
-/

namespace CameraLogs.Logs

open Lib

variable {δ : Type} {sha256 : Bytes → δ}

/-- A file that is absent or parses. -/
def Readable {α : Type} (file : Option (File α)) : Prop := ∀ f, file = some f → f.content ≠ none

/-- The list in a file; an absent one holds nothing. -/
def contents {α : Type} (file : Option (File (List α))) : List α :=
  (file.bind (·.content)).getD []

theorem readList_eq_ok {α : Type} {name : String} {file : Option (File (List α))} {xs : List α} :
    Dir.readList name file = .ok xs ↔ Readable file ∧ xs = contents file := by
  rcases file with _ | ⟨_ | content, signature⟩
  · constructor
    · intro h
      cases h
      exact ⟨by simp [Readable], rfl⟩
    · rintro ⟨-, rfl⟩
      rfl
  · constructor
    · intro h
      cases h
    · rintro ⟨h, -⟩
      exact absurd rfl (h _ rfl)
  · constructor
    · intro h
      cases h
      exact ⟨by simp [Readable], rfl⟩
    · rintro ⟨-, rfl⟩
      rfl

/-! ## The outcome of a call -/

/-- The segments a call works on. -/
def callSegments (d : Dir δ) (segments : List (Segment δ)) : List (Segment δ) :=
  pendingUnion (contents d.pending) segments

/-- The tar a call rebuilds. -/
def rebuilt (d : Dir δ) (segments : List (Segment δ)) : List TarMember :=
  contents d.tar ++ freshMembers d (contents d.tar) (callSegments d segments)

/-- The records a call verifies it with. -/
def records (d : Dir δ) (segments : List (Segment δ)) : List (Member δ) :=
  mergeMembers (contents d.metadata) (callSegments d segments)

/-- A directory and segments on which a call meets no error: the files parse, the
manifest agrees with the segments, the old tar holds raw logs, every segment is
ready, tar and records match, and the indexes of the old members are there. -/
structure Publishable (sha256 : Bytes → δ) (d : Dir δ) (segments : List (Segment δ)) : Prop where
  pendingReadable : Readable d.pending
  agrees : PendingAgrees (contents d.pending) segments
  metadataReadable : Readable d.metadata
  tarReadable : Readable d.tar
  tarLogs : ∀ m ∈ contents d.tar, m.IsLog
  ready : ∀ s ∈ callSegments d segments, SegmentReady sha256 d (contents d.tar) s
  matched : Matches sha256 (records d segments) (rebuilt d segments)
  indexes : ∀ member ∈ contents d.metadata, d.index member.indexName ≠ none

theorem mem_mergeMembers {oldMembers : List (Member δ)} {segments : List (Segment δ)}
    {m : Member δ} : m ∈ mergeMembers oldMembers segments ↔
      m ∈ oldMembers ∨ ∃ s ∈ segments, s.logName ∉ oldMembers.map (·.logName) ∧ s.member = m := by
  unfold mergeMembers
  rw [List.mem_append, List.mem_map]
  simp only [List.mem_filter, decide_eq_true_eq, and_assoc]

/-- Every member of a publishable call has its index file. -/
theorem Publishable.index_ne_none {d : Dir δ} {segments : List (Segment δ)}
    (h : Publishable sha256 d segments) : ∀ m ∈ records d segments, d.index m.indexName ≠ none := by
  intro m hm
  rcases mem_mergeMembers.mp hm with hm | ⟨s, hs, -, rfl⟩
  · exact h.indexes m hm
  · obtain ⟨bytes, hread, -⟩ := (h.ready s hs).index
    intro hnone
    unfold Dir.readIndex at hread
    rw [hnone] at hread
    cases hread

variable {k : Prop} {d : Dir δ}

/-- The record a publishable call verifies a passed segment's name with: the old
one, or one that agrees with the segment. -/
theorem Publishable.record_of_name {segments : List (Segment δ)}
    (h : Publishable sha256 d segments) {s : Segment δ} (hs : s ∈ segments) {m : Member δ}
    (hm : m ∈ records d segments) (hname : m.logName = s.logName) :
    m ∈ contents d.metadata ∨ m.SameContent s.member := by
  rcases mem_mergeMembers.mp hm with hm | ⟨u, hu, -, rfl⟩
  · exact Or.inl hm
  · exact Or.inr (h.agrees s hs u (seen_of_mem_pendingUnion hu) hname)

/-- Some record bears the name of every passed segment. -/
theorem exists_record {segments : List (Segment δ)} {s : Segment δ} (hs : s ∈ segments) :
    ∃ m ∈ records d segments, m.logName = s.logName := by
  have hin : s.logName ∈ (callSegments d segments).map (·.logName) :=
    mem_map_pendingUnion.mpr (List.mem_map_of_mem (List.mem_append_right _ hs))
  obtain ⟨u, hu, hname⟩ := List.mem_map.mp hin
  by_cases hold : u.logName ∈ (contents d.metadata).map (·.logName)
  · obtain ⟨m, hm, hmname⟩ := List.mem_map.mp hold
    exact ⟨m, mem_mergeMembers.mpr (Or.inl hm), hmname.trans hname⟩
  · exact ⟨u.member, mem_mergeMembers.mpr (Or.inr ⟨u, hu, hold, rfl⟩), hname⟩

/-- In a publishable call the tar member of a segment's name holds the segment's
bytes when the old record of the name, if any, agrees with it. -/
theorem Publishable.describes {segments : List (Segment δ)} (h : Publishable sha256 d segments)
    {s : Segment δ} (hs : s ∈ segments)
    (hagree : ∀ m ∈ contents d.metadata, m.logName = s.logName → m.SameContent s.member)
    {info : TarMember} (hinfo : info ∈ rebuilt d segments) (hname : info.name = s.logName) :
    s.member.Describes sha256 info.content := by
  obtain ⟨m, hm, hmname, hdesc⟩ := h.matched.recorded info hinfo
  have hsame : m.SameContent s.member := by
    rcases h.record_of_name hs hm (hmname.trans hname) with hold | hsame
    · exact hagree m hold (hmname.trans hname)
    · exact hsame
  exact ⟨hdesc.1.trans hsame.1, hdesc.2.trans hsame.2⟩

/-- The receipt is written when the archive, the metadata and every index are
there, and is all that is written. -/
theorem persistVerified_spec {members : List (Member δ)} {C : Dir δ → Prop} (hC : C d)
    (htar : d.tar ≠ none) (hmetadata : d.metadata ≠ none) :
    CrashTriple k (· = d) (persistVerified members)
      (fun _ t => (∀ m ∈ members, d.index m.indexName ≠ none) ∧ ∃ receipt,
        t = d.writeReceipt receipt) C
      (fun _ t => (¬ ∀ m ∈ members, d.index m.indexName ≠ none) ∧ t = d) := by
  refine CrashTriple.peek_bind ?_
  rintro d rfl
  refine CrashTriple.bind
    (Q := fun _ t => (∀ m ∈ members, d.index m.indexName ≠ none) ∧ t = d) ?_ fun indexes => ?_
  · refine CrashTriple.attempt ?_ ?_
    · rintro indexes _ hok rfl
      exact ⟨indexSignatures_isOk.mp ⟨indexes, hok⟩, rfl⟩
    · rintro e _ herr rfl
      refine ⟨fun hall => ?_, rfl⟩
      obtain ⟨indexes, hok⟩ := indexSignatures_isOk.mpr hall
      rw [herr] at hok
      cases hok
  obtain ⟨tar, ht⟩ := Option.ne_none_iff_exists'.mp htar
  obtain ⟨metadata, hm⟩ := Option.ne_none_iff_exists'.mp hmetadata
  rw [ht, hm]
  refine CrashTriple.bind (CrashTriple.attempt (fun _ _ _ h => h) fun _ _ h _ => by cases h)
    fun _ => ?_
  refine CrashTriple.bind (CrashTriple.attempt (fun _ _ _ h => h) fun _ _ h _ => by cases h)
    fun _ => ?_
  refine CrashTriple.durable (fun _ h => h.2 ▸ hC) ?_
  rintro _ ⟨hall, rfl⟩
  exact ⟨hall, _, rfl⟩

variable [DecidableEq δ]

theorem rebuildBundle_eq_ok_contents {segments : List (Segment δ)}
    (hnd : (segments.map (·.logName)).Nodup) (bundle : List TarMember) :
    rebuildBundle sha256 d segments = .ok bundle ↔
      (Readable d.tar ∧ (∀ m ∈ contents d.tar, m.IsLog) ∧
        ∀ s ∈ segments, SegmentReady sha256 d (contents d.tar) s) ∧
      bundle = contents d.tar ++ freshMembers d (contents d.tar) segments := by
  rw [rebuildBundle_eq_ok hnd]
  constructor
  · rintro ⟨previous, hprev, hlogs, hready, rfl⟩
    obtain ⟨hread, rfl⟩ := readList_eq_ok.mp hprev
    exact ⟨⟨hread, hlogs, hready⟩, rfl⟩
  · rintro ⟨⟨hread, hlogs, hready⟩, rfl⟩
    exact ⟨_, readList_eq_ok.mpr ⟨hread, rfl⟩, hlogs, hready, rfl⟩

/-- The rebuild does not look at the pending manifest. -/
theorem rebuildBundle_writePending (pending segments : List (Segment δ)) :
    rebuildBundle sha256 (d.writePending pending) segments = rebuildBundle sha256 d segments := rfl

/-- **What a call does on an arbitrary directory.** It returns when the call is
publishable, with the rebuilt tar in place; else it raises, and no raw log and no
index has been touched. -/
theorem publishHourArchive_spec (segments : List (Segment δ)) :
    CrashTriple k (· = d) (publishHourArchive sha256 segments)
      (fun _ t => Publishable sha256 d segments ∧ contents t.tar = rebuilt d segments ∧
        t.index = d.index)
      (fun _ => True)
      (fun _ t => ¬ Publishable sha256 d segments ∧ t.raw = d.raw ∧ t.index = d.index) := by
  refine CrashTriple.peek_bind ?_
  rintro d rfl
  refine CrashTriple.attempt_bind (fun _ => readList_eq_ok)
    (fun hbad _ _ ht => ⟨fun h => hbad h.pendingReadable, ht ▸ rfl, ht ▸ rfl⟩) fun hpending => ?_
  refine CrashTriple.attempt_bind (fun _ => enlist_eq_ok)
    (fun hbad _ _ ht => ⟨fun h => hbad h.agrees, ht ▸ rfl, ht ▸ rfl⟩) fun hagrees => ?_
  -- from here on the directory differs from `d` in the pending manifest
  refine CrashTriple.bind (CrashTriple.durable_eq trivial) fun _ => ?_
  refine CrashTriple.peek_bind ?_
  rintro _ rfl
  simp only [rebuildBundle_writePending]
  refine CrashTriple.attempt_bind (c := Readable d.metadata) (v := contents d.metadata)
    (fun _ => readList_eq_ok)
    (fun hbad _ _ ht => ⟨fun h => hbad h.metadataReadable, ht ▸ rfl, ht ▸ rfl⟩) fun hmetadata => ?_
  refine CrashTriple.attempt_bind (v := rebuilt d segments)
    (rebuildBundle_eq_ok_contents (pendingUnion_nodup _ _))
    (fun hbad _ _ ht => ⟨fun h => hbad ⟨h.tarReadable, h.tarLogs, h.ready⟩, ht ▸ rfl, ht ▸ rfl⟩)
    fun hrebuild => ?_
  refine CrashTriple.attempt_bind (v := ())
    (c := Matches sha256 (records d segments) (rebuilt d segments))
    (fun _ => verifyBundle_eq_ok.trans ⟨fun h => ⟨h, rfl⟩, fun h => h.1⟩)
    (fun hbad _ _ ht => ⟨fun h => hbad h.matched, ht ▸ rfl, ht ▸ rfl⟩) fun hmatched => ?_
  refine CrashTriple.bind (CrashTriple.durable_eq trivial) fun _ => ?_
  refine CrashTriple.bind (CrashTriple.durable_eq trivial) fun _ => ?_
  refine CrashTriple.bind (CrashTriple.conseq
    (persistVerified_spec trivial (by simp [Dir.writeMetadata,
      Dir.replaceTar]) (by simp [Dir.writeMetadata])) (fun _ h => h) (fun _ _ h => h)
    (fun _ h => h) ?_) fun _ => ?_
  · rintro _ _ ⟨hbad, rfl⟩
    exact ⟨fun h => hbad h.index_ne_none, rfl, rfl⟩
  -- the raw logs go one by one, and then the manifest; tar and indexes stay
  refine CrashTriple.bind (CrashTriple.conseq
    (CrashTriple.forM (I := fun _ (t : Dir δ) => (∀ m ∈ records d segments, d.index m.indexName ≠ none) ∧
      contents t.tar = rebuilt d segments ∧ t.index = d.index) fun _ _ _ _ =>
        CrashTriple.durable (fun _ _ => trivial) fun _ ht => ht)
    (by rintro _ ⟨hindexes, receipt, rfl⟩; exact ⟨hindexes, rfl, rfl⟩) (fun _ _ h => h)
    (fun _ h => h) (fun _ _ h => h))
    fun _ => CrashTriple.durable (fun _ _ => trivial) ?_
  rintro t ⟨hindexes, htar, hindex⟩
  refine ⟨⟨hpending, hagrees, hmetadata, hrebuild.1, hrebuild.2.1, hrebuild.2.2, hmatched, ?_⟩,
    htar, hindex⟩
  intro m hm
  exact hindexes m (mem_mergeMembers.mpr (Or.inl hm))

/-- **A call returns exactly when it is publishable.** -/
theorem publishHourArchive_returns_iff (segments : List (Segment δ)) :
    (∃ t, (publishHourArchive sha256 segments).exec ⟨d, none⟩ = (.ok ⟨⟩, t)) ↔
      Publishable sha256 d segments := by
  rcases CrashTriple.undisturbed (publishHourArchive_spec segments)
    (rfl : d = d) with ⟨_, t, hret, hpub, -⟩ | ⟨e, t, hraise, hnot, -⟩
  · exact ⟨fun _ => hpub, fun _ => ⟨_, hret⟩⟩
  · constructor
    · rintro ⟨t', hret⟩
      rw [hraise] at hret
      cases hret
    · exact fun h => absurd h hnot

/-! ## The bytes a call may destroy -/

/-- The archive holds the bytes of a segment under its name. -/
def Archived (sha256 : Bytes → δ) (d : Dir δ) (s : Segment δ) : Prop :=
  s.logName ∈ tarNames (contents d.tar) ∧
    ∀ m ∈ contents d.tar, m.name = s.logName → s.member.Describes sha256 m.content

/-- The segment's name is archived with other bytes, by the tar or by the metadata. -/
def ConflictsArchive (sha256 : Bytes → δ) (d : Dir δ) (s : Segment δ) : Prop :=
  (∃ m ∈ contents d.tar, m.name = s.logName ∧ ¬ s.member.Describes sha256 m.content) ∨
    ∃ m ∈ contents d.metadata, m.logName = s.logName ∧ ¬ m.SameContent s.member

/-- A call destroys no bytes it has not archived: if it returns, every segment is
archived; if a segment's name is archived with other bytes, it raises and leaves
the segment's raw log and index. -/
structure KeepsBytes (sha256 : Bytes → δ) (d : Dir δ) (segments : List (Segment δ)) : Prop where
  archived : ∀ t, (publishHourArchive sha256 segments).exec ⟨d, none⟩ = (.ok ⟨⟩, t) →
    ∀ s ∈ segments, Archived sha256 t.state s
  refused : ∀ s ∈ segments, ConflictsArchive sha256 d s →
    ∃ e t, (publishHourArchive sha256 segments).exec ⟨d, none⟩ = (.error (.raised e), t) ∧
      t.state.raw s.logPath = d.raw s.logPath ∧ t.state.index s.indexName = d.index s.indexName

/-- **When a call destroys nothing it has not archived**: exactly when no segment
disagrees with the old record of its name, or another check stops the call. -/
theorem keepsBytes_iff {segments : List (Segment δ)} :
    KeepsBytes sha256 d segments ↔
      (Publishable sha256 d segments → ∀ s ∈ segments, ∀ m ∈ contents d.metadata,
        m.logName = s.logName → m.SameContent s.member) := by
  have hrun := CrashTriple.undisturbed (@publishHourArchive_spec δ sha256 False d _ segments)
    (rfl : d = d)
  constructor
  · intro h hpub s hs m hm hname
    obtain ⟨t, hret⟩ := (publishHourArchive_returns_iff segments).mpr hpub
    rcases hrun with ⟨_, t', hret', -, htar, -⟩ | ⟨e, t', hraise, -⟩
    · have harch := h.archived _ hret' s hs
      have hrec : m ∈ records d segments := mem_mergeMembers.mpr (Or.inl hm)
      obtain ⟨info, hinfo, hiname⟩ := List.mem_map.mp (h.archived _ hret' s hs).1
      have hin : info ∈ rebuilt d segments := htar ▸ hinfo
      obtain ⟨m', hm', hname', hdesc⟩ := hpub.matched.recorded info hin
      have heq : m' = m := List.inj_on_of_nodup_map hpub.matched.recordsNodup hm' hrec
        (hname'.trans (hiname.trans hname.symm))
      rw [heq] at hdesc
      exact hdesc.sameContent (harch.2 info hinfo hiname)
    · rw [hret] at hraise
      cases hraise
  · intro h
    rcases hrun with ⟨_, t, hret, hpub, htar, -⟩ | ⟨e, t, hraise, hnot, hraw, hindex⟩
    · refine ⟨?_, ?_⟩
      · intro t' hret' s hs
        rw [hret] at hret'
        cases hret'
        refine ⟨?_, ?_⟩
        · obtain ⟨m, hm, hname⟩ := exists_record (d := d) hs
          show s.logName ∈ tarNames (contents t.tar)
          rw [htar, ← hname]
          exact hpub.matched.complete m hm
        · intro info hinfo hname
          have hin : info ∈ rebuilt d segments := htar ▸ hinfo
          exact hpub.describes hs (h hpub s hs) hin hname
      · rintro s hs (⟨info, hinfo, hname, hbad⟩ | ⟨m, hm, hname, hbad⟩)
        · exact absurd (hpub.describes hs (h hpub s hs) (List.mem_append_left _ hinfo) hname) hbad
        · exact absurd (h hpub s hs m hm hname) hbad
    · refine ⟨?_, ?_⟩
      · intro t' hret
        rw [hraise] at hret
        cases hret
      · intro s _ _
        exact ⟨e, t, hraise, by rw [hraw], by rw [hindex]⟩

/-- A segment of two bytes, under the name of an archived one of one byte. -/
def clashingSegment : Segment Bytes :=
  { taskId := "t", runId := "r", sessionId := "s", hourStart := 0, rawSize := 2
    sha256 := [2, 2], firstSequence := some 1, lastSequence := some 1, sourceLogName := "a.log"
    logName := "a.log", indexName := "a.index.jsonl", indexSha256 := [], indexBytes := 0
    firstReceivedAt := none, lastReceivedAt := none, logPath := "hour/a.log" }

/-- The hour it is published into: one archived byte, and its own two on disk. -/
def clashingDir : Dir Bytes :=
  { clock := 2
    tar := some ⟨some [{ name := "a.log", isfile := true, content := [1] }], 0⟩
    metadata := some ⟨some [{ clashingSegment.member with rawSize := 1, sha256 := [1] }], 1⟩
    pending := none
    receipt := none
    raw := fun path => if path = "hour/a.log" then some [2, 2] else none
    index := fun name => if name = "a.index.jsonl" then some ⟨some [], 0⟩ else none }

/-- The call returns, has removed the two bytes, and the tar still holds the one. -/
theorem not_keepsBytes_clashing : ¬ KeepsBytes id clashingDir [clashingSegment] := by
  intro h
  have harch := h.archived _ rfl clashingSegment (List.mem_singleton_self _)
  have hdesc := harch.2 { name := "a.log", isfile := true, content := [1] }
    (List.mem_singleton_self _) rfl
  exact absurd hdesc.2 (by decide)

end CameraLogs.Logs

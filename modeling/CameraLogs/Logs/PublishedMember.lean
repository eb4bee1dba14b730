import CameraLogs.Logs.ArchiveReuse

/-!
# Opening a log while its hour is published

A log is opened in three looks: at the raw file; if it has gone, at the metadata in its directory,
for the archive and the member that the raw file has become; and at that archive. The hour may be
published into between them, any number of times. Each look finds what the one before it has made
sure of, because of the order in which a publication writes, and because archives only grow.
-/

namespace CameraLogs.Logs

open Lib
open Relation (ReflTransGen)

variable {δ : Type}

/-- `Path.name` -/
def lastPart (path : String) : String := String.ofList (path.toList.rtakeWhile (· ≠ '/'))

/-- A name without a directory, of a log. -/
def IsPlainLogName (name : String) : Prop := lastPart name = name ∧ IsLogName name

instance (name : String) : Decidable (IsPlainLogName name) := inferInstanceAs (Decidable (_ ∧ _))

/-- The members of a metadata file that a raw log has become: the archive, the size and the name. -/
def memberMatches (logName : String) (metadata : String × Option (List (Member δ))) :
    Option (List (String × Nat × String)) := do
  let members ← metadata.2
  guard (∀ member ∈ members, IsPlainLogName member.sourceLogName ∧ IsPlainLogName member.logName)
  return (members.filter fun member => member.sourceLogName = logName).map fun member =>
    (metadata.1, member.rawSize, member.logName)

/-- `_published_member`, of the metadata files of a directory, each with its archive. -/
def publishedMember (metadatas : List (String × Option (List (Member δ)))) (path : String) :
    Option (String × Nat × String) := do
  let found ← metadatas.mapM (memberMatches (lastPart path))
  match found.flatten with
  | [publishedAs] => some publishedAs
  | _ => none

/-! ## The names of logs -/

theorem IsLogName.endsWith {name : String} (h : IsLogName name) : name.endsWith ".log" = true := by
  show name.toSlice.endsWith ".log" = true
  rw [String.Slice.endsWith_string_iff, String.copy_toSlice]
  exact h

/-- The last part of a path ends as the path does. -/
theorem lastPart_suffix (path : String) : (lastPart path).toList <:+ path.toList := by
  unfold lastPart
  rw [String.toList_ofList]
  exact List.rtakeWhile_suffix _ _

/-- The path of a log is not that of an archive. -/
theorem isArchivePath_of_log {path : String} (h : IsLogName (lastPart path)) :
    isArchivePath path = false := by
  unfold isArchivePath isArchiveName
  rw [Bool.eq_false_iff]
  intro harchive
  have hsuffix := List.isSuffixOf_iff_suffix.mp harchive
  obtain ⟨front, hfront⟩ := hsuffix.trans (List.dropWhile_suffix _)
  obtain ⟨front', hfront'⟩ := h
  simp only [lastPart, String.toList_ofList] at hfront'
  have hlast := congrArg List.getLast? (hfront.trans hfront'.symm)
  simp [List.getLast?_append] at hlast

/-! ## The metadata has the log once -/

/-- Members that are all named as logs are. -/
def PlainMembers (members : List (Member δ)) : Prop :=
  ∀ member ∈ members, IsPlainLogName member.sourceLogName ∧ IsPlainLogName member.logName

theorem memberMatches_plain {logName archive : String} {members : List (Member δ)}
    (h : PlainMembers members) : memberMatches logName (archive, some members) =
      some ((members.filter fun member => member.sourceLogName = logName).map fun member =>
        (archive, member.rawSize, member.logName)) := by
  unfold memberMatches
  simp only [bind, Option.bind_some]
  rw [show guard (∀ member ∈ members, IsPlainLogName member.sourceLogName ∧
    IsPlainLogName member.logName) = some () from if_pos h]
  rfl

theorem mapM_memberMatches {logName : String} {others : List (String × List (Member δ))}
    (hplain : ∀ other ∈ others, PlainMembers other.2)
    (hnone : ∀ other ∈ others, ∀ member ∈ other.2, member.sourceLogName ≠ logName) :
    (others.map fun other => (other.1, some other.2)).mapM (memberMatches logName) =
      some (others.map fun _ => []) := by
  induction others with
  | nil => rfl
  | cons other others ih =>
    have hempty : other.2.filter (fun member => member.sourceLogName = logName) = [] :=
      List.filter_eq_nil_iff.mpr fun member hmember => by
        simpa using hnone other List.mem_cons_self member hmember
    rw [List.map_cons, List.mapM_cons, memberMatches_plain (hplain other List.mem_cons_self), hempty,
      ih (fun o ho => hplain o (List.mem_cons_of_mem _ ho))
        fun o ho => hnone o (List.mem_cons_of_mem _ ho)]
    rfl

/-- The one member that a raw log has become is found. -/
theorem publishedMember_eq_some {path archive : String} {members : List (Member δ)}
    {member : Member δ} {before after : List (String × List (Member δ))}
    (hplain : ∀ other ∈ before ++ after, PlainMembers other.2)
    (hnone : ∀ other ∈ before ++ after, ∀ m ∈ other.2, m.sourceLogName ≠ lastPart path)
    (hmembers : PlainMembers members)
    (hone : members.filter (fun m => m.sourceLogName = lastPart path) = [member]) :
    publishedMember (before.map (fun other => (other.1, some other.2)) ++
        (archive, some members) :: after.map fun other => (other.1, some other.2)) path =
      some (archive, member.rawSize, member.logName) := by
  have hbefore := mapM_memberMatches
    (fun other hother => hplain other (List.mem_append_left _ hother))
    fun other hother => hnone other (List.mem_append_left _ hother)
  have hafter := mapM_memberMatches
    (fun other hother => hplain other (List.mem_append_right _ hother))
    fun other hother => hnone other (List.mem_append_right _ hother)
  unfold publishedMember
  rw [List.mapM_append, hbefore, List.mapM_cons, memberMatches_plain hmembers, hone, hafter]
  simp [bind, pure, List.flatten_append]

/-! ## The three looks -/

/-- The files of a directory at three looks. The archive of the hour is at one path, and other
archives that nothing happens to may be in the directory. -/
structure Lookout (δ : Type) where
  archive : String
  before : List (String × List (Member δ))
  after : List (String × List (Member δ))

def Lookout.disk (lookout : Lookout δ) (atRaw atMetadata atArchive : Dir δ) : Disk where
  raw := atRaw.raw
  archives := fun path => if path = lookout.archive then atArchive.tar else none
  published := publishedMember (lookout.before.map (fun other => (other.1, some other.2)) ++
    atMetadata.metadata.toList.map (fun file => (lookout.archive, file.content)) ++
    lookout.after.map fun other => (other.1, some other.2))

variable {sha256 : Bytes → δ}

/-- A segment is named as the writer names it: after its raw log, which is in the directory. -/
structure SourceNamed (s : Sealed sha256) : Prop where
  source : lastPart s.segment.logPath = s.segment.sourceLogName
  plain : IsPlainLogName s.segment.sourceLogName
  member : IsPlainLogName s.segment.logName

section Looks

variable [DecidableEq δ] {w₀ w₁ w₂ : HourWork sha256}

omit [DecidableEq δ] in
/-- What is looked for is found, if nothing else is like it. -/
theorem find_only {α : Type} {xs : List α} {x : α} {p : α → Bool} (hx : x ∈ xs)
    (hp : ∀ y ∈ xs, p y = true ↔ y = x) : xs.find? p = some x := by
  cases hfound : xs.find? p with
  | none => exact absurd ((hp x hx).mpr rfl) (by simpa using List.find?_eq_none.mp hfound x hx)
  | some y => rw [(hp y (List.mem_of_find?_eq_some hfound)).mp (List.find?_some hfound)]

omit [DecidableEq δ] in
/-- An archive in which the member of a segment is found. -/
theorem openArchive_member {d : Dir δ} {sealed handed : List (Sealed sha256)}
    (h : DirInv sealed handed d) {s : Sealed sha256} (hs : s ∈ sealed)
    (hin : s.segment.logName ∈ tarNames (contents d.tar)) (firstMatch : Bool) :
    ∃ version, openArchive d.tar (some s.segment.logName) firstMatch (some s.segment.rawSize) =
      .ok { content := s.body, archive := true, version := version } := by
  have hmem := h.tarMember_mem hs hin
  cases htar : d.tar with
  | none =>
    rw [htar] at hmem
    exact absurd hmem List.not_mem_nil
  | some file =>
    obtain ⟨bundle, hbundle⟩ := Option.ne_none_iff_exists'.mp (h.tarReadable file htar)
    have hcontents : contents d.tar = bundle := by
      unfold contents
      rw [htar, Option.bind_some, hbundle, Option.getD_some]
    rw [hcontents] at hmem
    have hnodup : (tarNames bundle).Nodup := hcontents ▸ h.tarNodup
    have hlog : isLogMember s.tarMember = true := isLogMember_of_isLog ⟨rfl, s.isLog⟩
    have hfound : findMember bundle (some s.segment.logName) firstMatch = some s.tarMember := by
      cases firstMatch with
      | false => exact find_member hnodup hmem
      | true =>
        refine find_only hmem fun m hm => ?_
        obtain ⟨t, -, rfl⟩ := h.tarHanded m (hcontents ▸ hm)
        rw [Bool.and_eq_true, isLogMember_of_isLog ⟨rfl, t.isLog⟩]
        constructor
        · intro hname
          have hname' : s.segment.logName = t.tarMember.name := by simpa using hname.2
          exact List.inj_on_of_nodup_map hnodup hm hmem hname'.symm
        · intro heq
          rw [heq]
          simp [Sealed.tarMember]
    refine ⟨some file.signature, ?_⟩
    have hsize : s.segment.rawSize = s.tarMember.content.length := s.describes.2.symm
    unfold openArchive
    simp only [hbundle, hfound, hlog, bind, Except.bind, pure, Except.pure]
    rw [if_neg (by decide), if_neg (by simp [hsize])]
    rfl

omit [DecidableEq δ] in
/-- The records of a directory are named as the segments are. -/
theorem DirInv.plainMembers {d : Dir δ} {sealed handed : List (Sealed sha256)}
    (h : DirInv sealed handed d) (hnamed : ∀ t ∈ sealed, SourceNamed t) :
    PlainMembers (contents d.metadata) := by
  intro m hm
  obtain ⟨t, ht, rfl⟩ := h.metadataHanded m hm
  have hnamed' := hnamed t (h.handedSealed t ht)
  exact ⟨hnamed'.plain, hnamed'.member⟩

omit [DecidableEq δ] in
/-- The record of a segment is the only one under its source name. -/
theorem DirInv.filter_source {d : Dir δ} {sealed handed : List (Sealed sha256)}
    (h : DirInv sealed handed d) {s : Sealed sha256} (hs : s ∈ sealed)
    (hin : s.segment.logName ∈ (contents d.metadata).map (·.logName))
    (hunique : ∀ t ∈ sealed, t.segment.sourceLogName = s.segment.sourceLogName → t = s) :
    ((contents d.metadata).filter fun m => m.sourceLogName = s.segment.sourceLogName) =
      [s.segment.member] := by
  obtain ⟨m, hm, hname⟩ := List.mem_map.mp hin
  obtain ⟨t, ht, rfl⟩ := h.metadataHanded m hm
  have hts := h.logNames t (h.handedSealed t ht) s hs hname
  rw [hts] at hm
  have hnodup : (contents d.metadata).Nodup := h.metadataNodup.of_map _
  refine List.perm_singleton.mp ((List.perm_ext_iff_of_nodup (hnodup.filter _)
    (List.nodup_singleton _)).mpr fun m' => ?_)
  rw [List.mem_filter, List.mem_singleton, decide_eq_true_eq]
  constructor
  · rintro ⟨hm', hsource⟩
    obtain ⟨u, hu, rfl⟩ := h.metadataHanded m' hm'
    rw [hunique u (h.handedSealed u hu) hsource]
  · rintro rfl
    exact ⟨hm, rfl⟩

/-- A sealed segment is opened at any three looks, one after the other, while its hour is being
published into: the open does not fail, and what it gives is all of the segment. -/
theorem open_published (lookout : Lookout δ) (reached : ReachableWork w₀)
    (toMetadata : ReflTransGen WorkStep w₀ w₁) (toArchive : ReflTransGen WorkStep w₁ w₂)
    {s : Sealed sha256} (hs : s ∈ w₀.sealed) (named : ∀ t ∈ w₁.sealed, SourceNamed t)
    (unique : ∀ t ∈ w₁.sealed, t.segment.sourceLogName = s.segment.sourceLogName → t = s)
    (others : ∀ other ∈ lookout.before ++ lookout.after, PlainMembers other.2 ∧
      ∀ member ∈ other.2, member.sourceLogName ≠ s.segment.sourceLogName)
    (name : Option String) (firstMatch : Bool) :
    ∃ source, openLogSource (lookout.disk w₀.dir w₁.dir w₂.dir) s.segment.logPath name firstMatch =
        .ok source ∧
      source.content = s.body ∧ source.content.length = s.segment.rawSize := by
  have hinv₀ := reached.inv
  obtain ⟨hinv₁, hlater₁, hsealed₁⟩ := work_run toMetadata hinv₀
  obtain ⟨hinv₂, hlater₂, hsealed₂⟩ := work_run toArchive hinv₁
  have hnamed := named s (hsealed₁ s hs)
  have hlog : IsLogName (lastPart s.segment.logPath) := hnamed.source ▸ hnamed.plain.2
  have hsize : s.body.length = s.segment.rawSize := s.describes.2
  unfold openLogSource
  rw [isArchivePath_of_log hlog, if_neg (by decide)]
  rcases hinv₀.dir.raw s hs with hraw | ⟨hnone, -⟩
  · refine ⟨{ content := s.body, archive := false, version := none }, ?_, rfl, hsize⟩
    rw [show (lookout.disk w₀.dir w₁.dir w₂.dir).raw s.segment.logPath = some s.body from hraw]
  · -- the raw log has gone, so that the metadata and the archive have the segment from now on
    have hrecorded := hlater₁.metadataKept _ (hinv₀.gone s hs hnone)
    obtain ⟨m, hm, hname⟩ := List.mem_map.mp hrecorded
    have hin := hlater₂.tarKept _ (hname ▸ hinv₁.dir.metadataInTar m hm)
    obtain ⟨version, hopen⟩ :=
      openArchive_member hinv₂.dir (hsealed₂ s (hsealed₁ s hs)) hin firstMatch
    have hpublished : (lookout.disk w₀.dir w₁.dir w₂.dir).published s.segment.logPath =
        some (lookout.archive, s.segment.rawSize, s.segment.logName) := by
      have hfilter := hinv₁.dir.filter_source (hsealed₁ s hs) hrecorded unique
      cases hmetadata : w₁.dir.metadata with
      | none =>
        rw [hmetadata] at hm
        exact absurd hm List.not_mem_nil
      | some file =>
        obtain ⟨members, hmembers⟩ :=
          Option.ne_none_iff_exists'.mp (hinv₁.dir.metadataReadable file hmetadata)
        have hcontents : contents w₁.dir.metadata = members := by
          unfold contents
          rw [hmetadata, Option.bind_some, hmembers, Option.getD_some]
        rw [hcontents, ← hnamed.source] at hfilter
        have hfound := @publishedMember_eq_some _ s.segment.logPath lookout.archive members
          s.segment.member lookout.before lookout.after (fun other hother => (others other hother).1)
          (fun other hother => hnamed.source ▸ (others other hother).2)
          (hcontents ▸ hinv₁.dir.plainMembers named) hfilter
        show publishedMember _ _ = _
        rw [hmetadata, Option.toList_some, List.map_singleton, hmembers, List.append_assoc]
        exact hfound
    have hends : s.segment.logPath.endsWith ".log" = true :=
      IsLogName.endsWith (hlog.trans (lastPart_suffix _))
    refine ⟨{ content := s.body, archive := true, version := version }, ?_, rfl, hsize⟩
    rw [show (lookout.disk w₀.dir w₁.dir w₂.dir).raw s.segment.logPath = none from hnone]
    simp only [hends, hpublished, bind, Except.bind]
    rw [if_neg (by decide)]
    show openArchive (if lookout.archive = lookout.archive then w₂.dir.tar else none) _ _ _ = _
    rw [if_pos rfl]
    exact hopen

end Looks

theorem namedSegment_named : SourceNamed namedSegment :=
  ⟨by decide +kernel, by decide +kernel, by decide +kernel⟩

/-- A raw log that has been removed is read from the archive. -/
theorem open_published_removed : publishedHour.dir.raw "hour/a.log" = none ∧
    ∃ source, openLogSource ((⟨"hour/hour.tar.gz", [], []⟩ : Lookout Bytes).disk publishedHour.dir
        publishedHour.dir publishedHour.dir) "hour/a.log" none true = .ok source ∧
      source.content = [1, 2] := by
  obtain ⟨source, hopen, hcontent, -⟩ := @open_published _ _ _ _ _ _
    (⟨"hour/hour.tar.gz", [], []⟩ : Lookout Bytes) publishedHour_reachable .refl .refl namedSegment
    (List.mem_singleton_self _)
    (fun t ht => by rw [List.mem_singleton.mp ht]; exact namedSegment_named)
    (fun t ht _ => List.mem_singleton.mp ht) (fun _ h => absurd h List.not_mem_nil) none true
  exact ⟨by decide +kernel, source, hopen, hcontent⟩

end CameraLogs.Logs

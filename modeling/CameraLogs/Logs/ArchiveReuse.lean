import CameraLogs.Logs.ArchiveSteps
import CameraLogs.Logs.HourDownloadExact

/-!
# Handing out an hour as it is archived

An hour is downloaded without being rewritten when all of its archive is selected. The archive is
not read for that: its metadata is compared with the selection, and the versions of both are
compared before and after, with the version that the job has pinned.

What the comparison says of the archive itself rests on the publisher, which writes no metadata
that it has not verified the archive with. `ReuseRun` has the looks taken while an hour is being
published into.
-/

namespace CameraLogs.Logs

open Lib
open Relation (ReflTransGen)

/-- `MAX_METADATA_BYTES` -/
@[irreducible] def maxMetadataBytes : Nat := 1024 * 1024

/-- A source, with what the job and the catalog say of the archive that it is in. -/
structure ReuseSource (δ : Type) extends HourSource where
  status : Option String
  frozenSha256 : Option δ
  sha256 : Option δ
  archiveGroupId : Option String
  /-- Where the archive is published. -/
  path : Option String
  /-- Where the job reads it. -/
  pinnedPath : String
  temporary : Bool

/-- What the looks at the archive, at the pinned archive and at the metadata find. -/
structure ReuseLooks (δ : Type) where
  canonicalBefore : Option Nat
  pinnedBefore : Option Nat
  metadataBefore : Option Nat
  metadataBytes : Nat
  metadata : Option (File (List (Member δ)))
  metadataAfter : Option Nat
  canonicalAfter : Option Nat

variable {δ : Type}

def ReuseSource.member (source : ReuseSource δ) : String := source.archiveMember.getD ""

def ReuseSource.group (source : ReuseSource δ) : String := source.archiveGroupId.getD ""

def ReuseSource.canonicalPath (source : ReuseSource δ) : String := source.path.getD ""

def ReuseSource.expectedHash (source : ReuseSource δ) : Option δ :=
  source.sha256.or source.frozenSha256

/-- All sources are members of one published archive. -/
def SameArchive (first : ReuseSource δ) (sources : List (ReuseSource δ)) : Prop :=
  (∀ source ∈ sources, source.temporary = false ∧ source.pinnedPath = first.pinnedPath ∧
    source.group = first.group ∧ source.status = some "READY" ∧ source.member ≠ "" ∧
    source.canonicalPath = first.canonicalPath) ∧ first.group ≠ "" ∧ first.canonicalPath ≠ ""

instance (first : ReuseSource δ) (sources : List (ReuseSource δ)) :
    Decidable (SameArchive first sources) :=
  inferInstanceAs (Decidable (_ ∧ _))

/-- The records of the metadata, if neither it nor the archive has been replaced meanwhile. -/
def ReuseLooks.members (looks : ReuseLooks δ) : Option (List (Member δ)) := do
  let canonical ← looks.canonicalBefore
  let pinned ← looks.pinnedBefore
  guard (canonical = pinned)
  let metadataBefore ← looks.metadataBefore
  guard (looks.metadataBytes ≤ maxMetadataBytes ∧ canonical ≤ metadataBefore)
  let members ← looks.metadata >>= File.content
  let metadataAfter ← looks.metadataAfter
  guard (metadataAfter = metadataBefore)
  let canonicalAfter ← looks.canonicalAfter
  guard (canonicalAfter = canonical)
  return members

section Reuse

variable [DecidableEq δ]

/-- The record of a source's member is one of a log that is named after its times, and has the
size and the digest that are expected. -/
def ReuseSource.Agrees (source : ReuseSource δ) (members : List (Member δ)) (maxMemberBytes : Int) :
    Prop :=
  (Dict.lookup (·.logName) source.member members).any fun member =>
    member.logName = segmentNameFromSource member.sourceLogName member.firstReceivedAt
      member.lastReceivedAt ∧ IsLogName member.logName ∧
    (member.rawSize : Int) = source.frozenBytes.getD (-1) ∧ (member.rawSize : Int) ≤ maxMemberBytes ∧
    source.expectedHash = some member.sha256

instance (source : ReuseSource δ) (members : List (Member δ)) (maxMemberBytes : Int) :
    Decidable (source.Agrees members maxMemberBytes) :=
  inferInstanceAs (Decidable (_ = true))

/-- The selection and the records are of the same members. -/
def Selects (sources : List (ReuseSource δ)) (members : List (Member δ)) (maxMemberBytes : Int) :
    Prop :=
  members ≠ [] ∧ (members.map (·.logName)).Nodup ∧ (sources.map ReuseSource.member).Nodup ∧
    (∀ source ∈ sources, source.member ∈ members.map (·.logName)) ∧
    (∀ member ∈ members, member.logName ∈ sources.map ReuseSource.member) ∧
    ∀ source ∈ sources, source.Agrees members maxMemberBytes

instance (sources : List (ReuseSource δ)) (members : List (Member δ)) (maxMemberBytes : Int) :
    Decidable (Selects sources members maxMemberBytes) :=
  inferInstanceAs (Decidable (_ ∧ _))

/-- The pinned archive, if it can be handed out. -/
def reusableHourArchive (look : String → String → ReuseLooks δ) (sources : List (ReuseSource δ))
    (maxMemberBytes : Int) : Option String := do
  guard (0 < maxMemberBytes)
  let first ← sources.head?
  guard (SameArchive first sources)
  let members ← (look first.canonicalPath first.pinnedPath).members
  guard (Selects sources members maxMemberBytes)
  return first.pinnedPath

/-! ## What the comparison says -/

/-- An archive has the members that are selected and no others, each with the size and the digest
that are expected, and a rewrite would take all of it. -/
structure Delivers (sha256 : Bytes → δ) (sources : List (ReuseSource δ))
    (bundle : List TarMember) : Prop where
  names : (tarNames bundle).Perm (sources.map ReuseSource.member)
  each : ∀ source ∈ sources, ∃ m ∈ bundle, source.member = m.name ∧
    source.frozenBytes = some (m.content.length : Int) ∧
    source.expectedHash = some (sha256 m.content) ∧ source.frozenPrefix = some m.content

theorem ReuseSource.Agrees.record {source : ReuseSource δ} {members : List (Member δ)}
    {maxMemberBytes : Int} (h : source.Agrees members maxMemberBytes) :
    ∃ member ∈ members, member.logName = source.member ∧ IsLogName member.logName ∧
      source.frozenBytes = some (member.rawSize : Int) ∧
      source.expectedHash = some member.sha256 := by
  unfold ReuseSource.Agrees at h
  obtain ⟨member, hlookup, hmember⟩ := (Option.any_eq_true _ _).mp h
  obtain ⟨hmem, hname⟩ := Dict.lookup_some hlookup
  obtain ⟨-, hlog, hsize, -, hhash⟩ := of_decide_eq_true hmember
  refine ⟨member, hmem, hname, hlog, ?_, hhash⟩
  cases hfrozen : source.frozenBytes with
  | none =>
    rw [hfrozen] at hsize
    simp only [Option.getD_none] at hsize
    omega
  | some bytes =>
    rw [hfrozen] at hsize
    exact congrArg some hsize.symm

omit [DecidableEq δ] in
theorem isLogMember_of_isLog {m : TarMember} (h : m.IsLog) : isLogMember m = true := by
  have hsuffix : m.name.endsWith ".log" = true := by
    show m.name.toSlice.endsWith ".log" = true
    rw [String.Slice.endsWith_string_iff, String.copy_toSlice]
    exact h.2
  unfold isLogMember
  rw [h.1, hsuffix]
  rfl

omit [DecidableEq δ] in
/-- The member of a name is found, if no two have it. -/
theorem find_member {bundle : List TarMember} (hnodup : (tarNames bundle).Nodup) {m : TarMember}
    (hm : m ∈ bundle) : (bundle.reverse.find? fun member => member.name = m.name) = some m := by
  have hfound := @Dict.lookup_eq_some _ _ _ (fun member : TarMember => member.name) bundle.reverse
    (by rw [List.map_reverse]; exact List.nodup_reverse.mpr hnodup) m (List.mem_reverse.mpr hm)
  exact hfound

/-- **Records that match the archive and the selection make the archive that of the selection.** -/
theorem Selects.delivers {sha256 : Bytes → δ} {sources : List (ReuseSource δ)}
    {members : List (Member δ)} {bundle : List TarMember} {maxMemberBytes : Int}
    (h : Selects sources members maxMemberBytes) (hmatch : Matches sha256 members bundle)
    (harchive : ∀ source ∈ sources, source.archive = some bundle)
    (hnamed : ∀ source ∈ sources, source.member ≠ "") : Delivers sha256 sources bundle := by
  obtain ⟨-, hmembers, hselected, hsub, hsup, hagrees⟩ := h
  refine ⟨?_, fun source hsource => ?_⟩
  · refine (List.perm_ext_iff_of_nodup hmatch.membersNodup hselected).mpr fun name => ?_
    constructor
    · intro hname
      obtain ⟨info, hinfo, rfl⟩ := List.mem_map.mp hname
      obtain ⟨member, hmember, hmname, -⟩ := hmatch.recorded info hinfo
      exact hmname ▸ hsup member hmember
    · intro hname
      obtain ⟨source, hsource, rfl⟩ := List.mem_map.mp hname
      obtain ⟨member, hmember, hmname⟩ := List.mem_map.mp (hsub source hsource)
      exact hmname ▸ hmatch.complete member hmember
  · obtain ⟨member, hmember, hmname, hlog, hfrozen, hhash⟩ := (hagrees source hsource).record
    obtain ⟨info, hinfo, hiname⟩ := List.mem_map.mp (hmatch.complete member hmember)
    obtain ⟨member', hmember', hmname', hdescribes⟩ := hmatch.recorded info hinfo
    have hsame : member' = member :=
      List.inj_on_of_nodup_map hmembers hmember' hmember (hmname'.trans hiname)
    rw [hsame] at hdescribes
    have hname : source.member = info.name := hmname.symm.trans hiname.symm
    have hsize : source.frozenBytes = some (info.content.length : Int) := by
      rw [hfrozen, hdescribes.2]
    have hfound : sourceMember source.toHourSource = some info := by
      have hnone := hnamed source hsource
      unfold ReuseSource.member at hnone hname
      cases harchiveMember : source.archiveMember with
      | none =>
        rw [harchiveMember] at hnone
        exact absurd rfl hnone
      | some name =>
        rw [harchiveMember, Option.getD_some] at hnone hname
        unfold sourceMember
        rw [harchive source hsource, harchiveMember, Option.filter_some, if_pos (by simpa using hnone),
          hname]
        simp only [bind, Option.bind_some, find_member hmatch.membersNodup hinfo,
          isLogMember_of_isLog (hmatch.isLog info hinfo), if_true]
    refine ⟨info, hinfo, hname, hsize, by rw [hhash, hdescribes.1], ?_⟩
    unfold HourSource.frozenPrefix
    simp only [bind, hfound, Option.bind_some, hsize, Option.getD_some]
    rw [if_neg (by omega), Int.toNat_natCast, List.take_length]

omit [DecidableEq δ] in
/-- What is delivered is, apart from the order, what is frozen of the sources. -/
theorem Delivers.contents {sha256 : Bytes → δ} {sources : List (ReuseSource δ)}
    {bundle : List TarMember} (h : Delivers sha256 sources bundle)
    (hnodup : (tarNames bundle).Nodup) :
    (bundle.map (·.content)).Perm (sources.map fun source => source.frozenPrefix.getD []) := by
  let contentOf := fun name : String =>
    ((bundle.reverse.find? fun member => member.name = name).map (·.content)).getD []
  have hbundle : bundle.map (·.content) = (tarNames bundle).map contentOf := by
    unfold tarNames
    rw [List.map_map]
    refine List.map_congr_left fun m hm => ?_
    show m.content = contentOf m.name
    simp only [contentOf, find_member hnodup hm, Option.map_some, Option.getD_some]
  have hsources : (sources.map fun source => source.frozenPrefix.getD []) =
      (sources.map ReuseSource.member).map contentOf := by
    rw [List.map_map]
    refine List.map_congr_left fun source hsource => ?_
    obtain ⟨m, hm, hname, -, -, hfrozen⟩ := h.each source hsource
    show source.frozenPrefix.getD [] = contentOf source.member
    simp only [contentOf, hname, hfrozen, find_member hnodup hm, Option.map_some, Option.getD_some]
  rw [hbundle, hsources]
  exact h.names.map contentOf

/-! ## Looking while an hour is published into -/

/-- A job that has pinned the archive of an hour, and the hour at its looks. -/
structure ReuseRun (sha256 : Bytes → δ) where
  atPin : HourWork sha256
  atCanonical : HourWork sha256
  atMetadata : HourWork sha256
  atOpen : HourWork sha256
  atMetadataAgain : HourWork sha256
  atCanonicalAgain : HourWork sha256
  archive : File (List TarMember)
  reachable : ReachableWork atPin
  linked : atPin.dir.tar = some archive
  toCanonical : ReflTransGen WorkStep atPin atCanonical
  toMetadata : ReflTransGen WorkStep atCanonical atMetadata
  toOpen : ReflTransGen WorkStep atMetadata atOpen
  toMetadataAgain : ReflTransGen WorkStep atOpen atMetadataAgain
  toCanonicalAgain : ReflTransGen WorkStep atMetadataAgain atCanonicalAgain

def ReuseRun.looks {sha256 : Bytes → δ} (run : ReuseRun sha256) (metadataBytes : Nat) :
    ReuseLooks δ where
  canonicalBefore := run.atCanonical.dir.tar.map (·.signature)
  pinnedBefore := some run.archive.signature
  metadataBefore := run.atMetadata.dir.metadata.map (·.signature)
  metadataBytes := metadataBytes
  metadata := run.atOpen.dir.metadata
  metadataAfter := run.atMetadataAgain.dir.metadata.map (·.signature)
  canonicalAfter := run.atCanonicalAgain.dir.tar.map (·.signature)

omit [DecidableEq δ] in
/-- Looks that give records were all at files of the same versions. -/
theorem ReuseLooks.members_eq_some {looks : ReuseLooks δ} {members : List (Member δ)}
    (h : looks.members = some members) : ∃ canonical metadata,
      looks.canonicalBefore = some canonical ∧ looks.pinnedBefore = some canonical ∧
      looks.metadataBefore = some metadata ∧ canonical ≤ metadata ∧
      (looks.metadata >>= File.content) = some members ∧ looks.metadataAfter = some metadata ∧
      looks.canonicalAfter = some canonical := by
  simp only [ReuseLooks.members, bind, Option.bind_eq_some_iff] at h
  obtain ⟨canonical, hcanonical, pinned, hpinned, _, hsame, metadata, hmetadata, _, hbounds, found,
    hfound, after, hafter, _, hsteady, again, hagain, _, hunmoved, hret⟩ := h
  have hsame := of_guard hsame
  have hsteady := of_guard hsteady
  have hunmoved := of_guard hunmoved
  have hret := Option.some.inj hret
  subst hsame hsteady hunmoved hret
  exact ⟨_, _, hcanonical, hpinned, hmetadata, (of_guard hbounds).2,
    Option.bind_eq_some_iff.mpr hfound, hafter, hagain⟩

omit [DecidableEq δ] in
/-- A file that has one version before and after has it in between. -/
theorem file_between {α : Type} {x y z : Option (File α)} {f g : File α} {m n : Nat}
    (hxy : y = x ∨ ∃ f, y = some f ∧ m ≤ f.signature)
    (hyz : z = y ∨ ∃ f, z = some f ∧ n ≤ f.signature) (hmn : m ≤ n) (hf : x = some f)
    (hold : f.signature < m) (hg : z = some g) (heq : f.signature = g.signature) :
    y = some f := by
  obtain rfl | ⟨g', hg', hle⟩ := hyz
  · rw [hg, file_eq_of_version hxy hf hg hold heq]
  · rw [hg] at hg'
    cases hg'
    omega

omit [DecidableEq δ] in
/-- Metadata that names all of the tar matches it. -/
theorem DirInv.matches {sha256 : Bytes → δ} {sealed handed : List (Sealed sha256)} {d : Dir δ}
    (h : DirInv sealed handed d)
    (hrecorded : ∀ name ∈ tarNames (contents d.tar), name ∈ (contents d.metadata).map (·.logName)) :
    Matches sha256 (contents d.metadata) (contents d.tar) where
  recordsNodup := h.metadataNodup
  membersNodup := h.tarNodup
  isLog := fun info hinfo => by
    obtain ⟨s, -, rfl⟩ := h.tarHanded info hinfo
    exact ⟨rfl, s.isLog⟩
  recorded := fun info hinfo => by
    obtain ⟨m, hm, hname⟩ := List.mem_map.mp (hrecorded _ (List.mem_map_of_mem hinfo))
    obtain ⟨s, hs, rfl⟩ := h.tarHanded info hinfo
    obtain ⟨t, ht, rfl⟩ := h.metadataHanded m hm
    have hst : t = s := h.logNames t (h.handedSealed t ht) s (h.handedSealed s hs) hname
    exact ⟨t.segment.member, hm, hname, hst ▸ s.describes⟩
  complete := h.metadataInTar

variable {sha256 : Bytes → δ}

/-- **The records that the looks give are those of the pinned archive.** -/
theorem ReuseRun.members_match (run : ReuseRun sha256) {metadataBytes : Nat}
    {members : List (Member δ)} (h : (run.looks metadataBytes).members = some members) :
    ∃ bundle, run.archive.content = some bundle ∧ Matches sha256 members bundle := by
  obtain ⟨canonical, metadata, hcanonical, hpinned, hmetadata, hle, hfound, hafter, hagain⟩ :=
    ReuseLooks.members_eq_some h
  obtain ⟨tar₁, htar₁, hsig₁⟩ := Option.map_eq_some_iff.mp hcanonical
  obtain ⟨meta₂, hmeta₂, hsig₂⟩ := Option.map_eq_some_iff.mp hmetadata
  obtain ⟨meta₄, hmeta₄, hsig₄⟩ := Option.map_eq_some_iff.mp hafter
  obtain ⟨tar₅, htar₅, hsig₅⟩ := Option.map_eq_some_iff.mp hagain
  have hpinned : run.archive.signature = canonical := Option.some.inj hpinned
  have hinv₀ := run.reachable.inv
  obtain ⟨hinv₁, hlater₁, -⟩ := work_run run.toCanonical hinv₀
  obtain ⟨hinv₂, hlater₂, -⟩ := work_run run.toMetadata hinv₁
  obtain ⟨hinv₃, hlater₃, -⟩ := work_run run.toOpen hinv₂
  obtain ⟨hinv₄, hlater₄, -⟩ := work_run run.toMetadataAgain hinv₃
  obtain ⟨hinv₅, hlater₅, -⟩ := work_run run.toCanonicalAgain hinv₄
  -- the tar is the pinned one when the version of the metadata is looked at
  have hsame : run.archive = tar₁ := file_eq_of_version hlater₁.tar run.linked htar₁
    (hinv₀.tarVersion _ run.linked) (hpinned.trans hsig₁.symm)
  have htar₂ : run.atMetadata.dir.tar = some tar₁ :=
    file_between hlater₂.tar ((hlater₃.trans hlater₄).trans hlater₅).tar hlater₂.clock htar₁
      (hinv₁.tarVersion _ htar₁) htar₅ (hsig₁.trans hsig₅.symm)
  -- and the metadata is still that one when it is read
  have hmeta₃ : run.atOpen.dir.metadata = some meta₂ :=
    file_between hlater₃.metadata hlater₄.metadata hlater₃.clock hmeta₂
      (hinv₂.metadataVersion _ hmeta₂) hmeta₄ (hsig₂.trans hsig₄.symm)
  have hmembers : meta₂.content = some members := by
    have hread : (run.atOpen.dir.metadata >>= File.content) = some members := hfound
    rw [hmeta₃] at hread
    exact hread
  have hmatch := hinv₂.dir.matches
    (hinv₂.current tar₁ meta₂ htar₂ hmeta₂ (by rw [hsig₁, hsig₂]; exact hle))
  obtain ⟨bundle, hbundle⟩ := Option.ne_none_iff_exists'.mp (hinv₂.dir.tarReadable tar₁ htar₂)
  have hcontents : contents run.atMetadata.dir.tar = bundle := by
    unfold contents
    rw [htar₂, Option.bind_some, hbundle, Option.getD_some]
  have hrecords : contents run.atMetadata.dir.metadata = members := by
    unfold contents
    rw [hmeta₂, Option.bind_some, hmembers, Option.getD_some]
  rw [hcontents, hrecords] at hmatch
  exact ⟨bundle, by rw [hsame, hbundle], hmatch⟩

/-- What a path that is returned has passed. -/
theorem reusableHourArchive_eq_some {look : String → String → ReuseLooks δ}
    {sources : List (ReuseSource δ)} {maxMemberBytes : Int} {path : String}
    (h : reusableHourArchive look sources maxMemberBytes = some path) :
    0 < maxMemberBytes ∧ ∃ first ∈ sources, SameArchive first sources ∧
      path = first.pinnedPath ∧
      ∃ members, (look first.canonicalPath first.pinnedPath).members = some members ∧
        Selects sources members maxMemberBytes := by
  simp only [reusableHourArchive, bind, Option.bind_eq_some_iff] at h
  obtain ⟨_, hcap, first, hfirst, _, hsame, members, hmembers, _, hselects, hret⟩ := h
  exact ⟨of_guard hcap, first, List.mem_of_head? hfirst, of_guard hsame, (Option.some.inj hret).symm,
    members, hmembers, of_guard hselects⟩

/-- An archive that is handed out while its hour is being published into has exactly the members
that are selected, with the sizes and digests that are expected; and but for the order its
contents are those that a rewrite of the selection consists of. -/
theorem reusable_exact {τ : Type} [LinearOrder τ] (clock : Clock τ)
    (compressedSize : List ExportMember → Nat) (names : ExportNames) (run : ReuseRun sha256)
    (metadataBytes : Nat) (look : String → String → ReuseLooks δ) (sources : List (ReuseSource δ))
    (maxMemberBytes : Int) (path : String)
    (hlook : ∀ source ∈ sources,
      look source.canonicalPath source.pinnedPath = run.looks metadataBytes)
    (harchive : ∀ source ∈ sources, source.archive = run.archive.content)
    (hids : (sources.map fun source => source.document.id).Nodup)
    (hret : reusableHourArchive look sources maxMemberBytes = some path) :
    ∃ bundle, run.archive.content = some bundle ∧ Delivers sha256 sources bundle ∧
      ∃ parts : List Bytes, parts.Perm (bundle.map (·.content)) ∧
        ∃ members, writeHourArchive clock compressedSize (sources.map (·.toHourSource)) names none
            maxMemberBytes = .ok members ∧
          (members.map ExportMember.content).flatten = parts.flatten := by
  obtain ⟨hcap, first, hfirst, hsame, -, members, hmembers, hselects⟩ :=
    reusableHourArchive_eq_some hret
  rw [hlook first hfirst] at hmembers
  obtain ⟨bundle, hbundle, hmatch⟩ := run.members_match hmembers
  have hdelivers := hselects.delivers hmatch (fun source hsource =>
    (harchive source hsource).trans hbundle) fun source hsource => (hsame.1 source hsource).2.2.2.2.1
  refine ⟨bundle, hbundle, hdelivers, ?_⟩
  have hids' : ((sources.map (·.toHourSource)).map fun source => source.document.id).Nodup := by
    rw [List.map_map]
    exact hids
  have hfrozen : ∀ source ∈ sources.map (·.toHourSource), source.frozenPrefix ≠ none := by
    intro source hsource
    obtain ⟨selected, hselected, rfl⟩ := List.mem_map.mp hsource
    obtain ⟨m, -, -, -, -, hbeginning⟩ := hdelivers.each selected hselected
    rw [hbeginning]
    exact Option.some_ne_none _
  obtain ⟨hperm, written, hwritten, hcontent, -⟩ :=
    @writeSources_ordered _ _ clock names (sources.map (·.toHourSource)) maxMemberBytes.toNat
      (by omega) hids' hfrozen
  refine ⟨_, ?_, written, ?_, hcontent⟩
  · refine (hperm.map _).trans ((List.Perm.of_eq ?_).trans
      (hdelivers.contents hmatch.membersNodup).symm)
    rw [List.map_map, List.map_map]
    refine List.map_congr_left fun source hsource => ?_
    show frozenContent _ source.document = source.frozenPrefix.getD []
    unfold frozenContent
    rw [sourceOf_mem hids' (List.mem_map_of_mem hsource), Option.bind_some]
  · unfold writeHourArchive
    rw [if_neg (by omega)]
    simp only [bind, Except.bind, hwritten, pure, Except.pure]
    rfl

end Reuse

/-- A sealed segment of two bytes, under the name of its member. -/
def namedSegment : Sealed (id : Bytes → Bytes) where
  segment :=
    { taskId := "t", runId := "r", sessionId := "s", hourStart := 0, rawSize := 2
      sha256 := [1, 2], firstSequence := some 1, lastSequence := some 1
      sourceLogName := "a.log", logName := "a-unknown-time-part-000000.log"
      indexName := "a.index.jsonl", indexSha256 := [3], indexBytes := 1, firstReceivedAt := none
      lastReceivedAt := none, logPath := "hour/a.log" }
  body := [1, 2]
  rows := [3]
  describes := ⟨rfl, rfl⟩
  indexDescribes := ⟨rfl, rfl⟩
  isLog := by decide

/-- A job that selects it, where an archive is pinned. -/
def namedSource (bundle : List TarMember) : ReuseSource Bytes where
  frozenBytes := some 2
  document := nodeSegment "a" "n" 1 10
  taskName := none
  ip := none
  deviceIp := none
  archive := some bundle
  archiveMember := some "a-unknown-time-part-000000.log"
  index := none
  status := some "READY"
  frozenSha256 := none
  sha256 := some [1, 2]
  archiveGroupId := some "g"
  path := some "hour.tar.gz"
  pinnedPath := "pinned.tar.gz"
  temporary := false

/-- Metadata that is newer than an archive, and does not say what is in it. -/
def foreignLooks : ReuseLooks Bytes where
  canonicalBefore := some 1
  pinnedBefore := some 1
  metadataBefore := some 2
  metadataBytes := 100
  metadata := some ⟨some [namedSegment.segment.member], 2⟩
  metadataAfter := some 2
  canonicalAfter := some 1

/-- The archive is not looked into: one with another member and other bytes is handed out. -/
theorem reusable_foreign :
    reusableHourArchive (fun _ _ => foreignLooks)
        [namedSource [⟨"a-unknown-time-part-000000.log", true, [9]⟩, ⟨"b.log", true, [8]⟩]] 100 =
      some "pinned.tar.gz" ∧
    ¬ Delivers id [namedSource [⟨"a-unknown-time-part-000000.log", true, [9]⟩, ⟨"b.log", true, [8]⟩]]
      [⟨"a-unknown-time-part-000000.log", true, [9]⟩, ⟨"b.log", true, [8]⟩] := by
  refine ⟨by decide +kernel, fun h => ?_⟩
  have hlength := h.names.length_eq
  exact absurd hlength (by decide)

/-- An hour that has been published. -/
def publishedHour : HourRun (id : Bytes → Bytes) where
  dir := ((publishHourArchive id (manifests [namedSegment])).exec
    ⟨(emptyHour : HourRun (id : Bytes → Bytes)).dir.seal namedSegment, none⟩).2.state
  sealed := [namedSegment]
  handed := [namedSegment]

theorem publishedHour_reachable : ReachableWork
    (⟨publishedHour.dir, publishedHour.sealed, publishedHour.handed, none⟩ :
      HourWork (id : Bytes → Bytes)) := by
  have hfresh : Fresh (emptyHour : HourRun (id : Bytes → Bytes)).sealed namedSegment :=
    ⟨by simp [emptyHour], by simp [emptyHour], by simp [emptyHour]⟩
  have hidle : ReachableWork (idleHour : HourWork (id : Bytes → Bytes)) := Reachable.initial rfl
  have hsealed := hidle.tail (WorkStep.sealed hfresh)
  obtain ⟨w, hw, hrun⟩ := hsealed
  have hpublished : HourStep
      { (emptyHour : HourRun (id : Bytes → Bytes)) with
        dir := (emptyHour : HourRun (id : Bytes → Bytes)).dir.seal namedSegment
        sealed := [namedSegment] }
      publishedHour :=
    HourStep.published (fun _ hs => hs) (by decide : (none : Option Nat) ≠ some 0)
  exact ⟨w, hw, hrun.trans (publishHourArchive_steps hpublished (dirInv_empty.seal hfresh))⟩

/-- Looks at it, while nothing happens. -/
def publishedRun : ReuseRun (id : Bytes → Bytes) where
  atPin := ⟨publishedHour.dir, publishedHour.sealed, publishedHour.handed, none⟩
  atCanonical := ⟨publishedHour.dir, publishedHour.sealed, publishedHour.handed, none⟩
  atMetadata := ⟨publishedHour.dir, publishedHour.sealed, publishedHour.handed, none⟩
  atOpen := ⟨publishedHour.dir, publishedHour.sealed, publishedHour.handed, none⟩
  atMetadataAgain := ⟨publishedHour.dir, publishedHour.sealed, publishedHour.handed, none⟩
  atCanonicalAgain := ⟨publishedHour.dir, publishedHour.sealed, publishedHour.handed, none⟩
  archive := ⟨some [namedSegment.tarMember], 2⟩
  reachable := publishedHour_reachable
  linked := by decide +kernel
  toCanonical := .refl
  toMetadata := .refl
  toOpen := .refl
  toMetadataAgain := .refl
  toCanonicalAgain := .refl

theorem reusable_exact_published :
    reusableHourArchive (fun _ _ => publishedRun.looks 100) [namedSource [namedSegment.tarMember]]
      100 = some "pinned.tar.gz" ∧
    ∃ bundle, publishedRun.archive.content = some bundle ∧
      Delivers id [namedSource [namedSegment.tarMember]] bundle := by
  have hret : reusableHourArchive (fun _ _ => publishedRun.looks 100)
      [namedSource [namedSegment.tarMember]] 100 = some "pinned.tar.gz" := by decide +kernel
  obtain ⟨bundle, hbundle, hdelivers, -⟩ := reusable_exact epochClock List.length ⟨none, none⟩
    publishedRun 100 (fun _ _ => publishedRun.looks 100) [namedSource [namedSegment.tarMember]] 100
    "pinned.tar.gz" (fun _ _ => rfl) (by simp [namedSource, publishedRun]) (by simp [namedSource]) hret
  exact ⟨hret, bundle, hbundle, hdelivers⟩

end CameraLogs.Logs

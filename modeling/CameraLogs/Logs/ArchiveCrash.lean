import CameraLogs.Lib.Run
import CameraLogs.Logs.ArchivePublish

/-!
# Publication survives a kill after any durable write

The system is one hour directory. A writer seals segments into it, each with a
raw log, an index and a manifest under names no other segment uses; publications
take sealed segments and run to their end or are killed after any of their
durable writes. `DirInv` says what such a directory looks like:

* the tar and the metadata hold handed segments only, once each, the tar their
  true bytes; whatever the metadata names, the tar has;
* whatever the tar has, the metadata or the pending manifest names, and so does
  one of them every segment ever handed in;
* a raw log is either there, whole, or gone with its bytes in the tar.

The middle clause is what makes a retry work: a killed publication is always
found again through the manifest, so the next call verifies the tar against
records it can still produce. The last clause is what the raw logs are removed
under: by then tar and metadata agree (`publishPending_crash`).
-/

namespace CameraLogs.Logs

open Lib

variable {δ : Type} {sha256 : Bytes → δ}

/-- A sealed segment: its manifest and the bytes of its two files, which the
manifest describes. -/
structure Sealed (sha256 : Bytes → δ) where
  segment : Segment δ
  body : Bytes
  rows : Bytes
  describes : segment.member.Describes sha256 body
  indexDescribes : sha256 rows = segment.indexSha256 ∧ rows.length = segment.indexBytes
  isLog : IsLogName segment.logName

/-- The member a sealed segment has in the tar. -/
def Sealed.tarMember (s : Sealed sha256) : TarMember :=
  { name := s.segment.logName, isfile := true, content := s.body }

/-- The manifests a publication is handed. -/
abbrev manifests (segments : List (Sealed sha256)) : List (Segment δ) := segments.map (·.segment)

/-- An hour: its directory, the segments sealed into it, and those handed to a
publication so far. -/
structure HourRun (sha256 : Bytes → δ) where
  dir : Dir δ
  sealed : List (Sealed sha256)
  handed : List (Sealed sha256)

/-- Leave the two files of a sealed segment in the directory. -/
def Dir.seal (s : Sealed sha256) (dir : Dir δ) : Dir δ :=
  { dir with
    raw := fun path => if path = s.segment.logPath then some s.body else dir.raw path
    index := fun name =>
      if name = s.segment.indexName then some ⟨some s.rows, dir.clock⟩ else dir.index name
    clock := dir.clock + 1 }

/-- No name of the segment is used by another one. -/
structure Fresh (sealed : List (Sealed sha256)) (s : Sealed sha256) : Prop where
  logName : ∀ t ∈ sealed, t.segment.logName ≠ s.segment.logName
  logPath : ∀ t ∈ sealed, t.segment.logPath ≠ s.segment.logPath
  indexName : ∀ t ∈ sealed, t.segment.indexName ≠ s.segment.indexName

/-- An hour before anything happened in it. -/
def emptyHour : HourRun sha256 :=
  { dir :=
      { clock := 0, tar := none, metadata := none, pending := none, receipt := none
        raw := fun _ => none, index := fun _ => none }
    sealed := []
    handed := [] }

/-- What happens in an hour: a segment is sealed, or sealed segments are handed to
a publication that is killed after some number of durable writes, or not at all. -/
inductive HourStep [DecidableEq δ] : HourRun sha256 → HourRun sha256 → Prop
  | sealed {h : HourRun sha256} {s : Sealed sha256} (fresh : Fresh h.sealed s) :
      HourStep h { h with dir := h.dir.seal s, sealed := h.sealed ++ [s] }
  | published {h : HourRun sha256} {segments : List (Sealed sha256)} {left : Option Nat}
      (known : ∀ s ∈ segments, s ∈ h.sealed) (started : left ≠ some 0) :
      HourStep h
        { h with
          dir := ((publishHourArchive sha256 (manifests segments)).exec
            ⟨h.dir, left⟩).2.state
          handed := h.handed ++ segments }

/-! ## The invariant -/

/-- The state of a directory in which `sealed` were sealed and `handed` handed in. -/
structure DirInv (sealed handed : List (Sealed sha256)) (d : Dir δ) : Prop where
  logNames : ∀ s ∈ sealed, ∀ t ∈ sealed, s.segment.logName = t.segment.logName → s = t
  logPaths : ∀ s ∈ sealed, ∀ t ∈ sealed, s.segment.logPath = t.segment.logPath → s = t
  handedSealed : ∀ s ∈ handed, s ∈ sealed
  index : ∀ s ∈ sealed, ∃ v, d.index s.segment.indexName = some ⟨some s.rows, v⟩
  pendingReadable : Readable d.pending
  pendingHanded : ∀ p ∈ contents d.pending, ∃ s ∈ handed, s.segment = p
  metadataReadable : Readable d.metadata
  metadataHanded : ∀ m ∈ contents d.metadata, ∃ s ∈ handed, s.segment.member = m
  metadataNodup : ((contents d.metadata).map (·.logName)).Nodup
  tarReadable : Readable d.tar
  tarHanded : ∀ m ∈ contents d.tar, ∃ s ∈ handed, s.tarMember = m
  tarNodup : (tarNames (contents d.tar)).Nodup
  metadataInTar : ∀ m ∈ contents d.metadata, m.logName ∈ tarNames (contents d.tar)
  tarKnown : ∀ name ∈ tarNames (contents d.tar),
    name ∈ (contents d.metadata).map (·.logName) ∨ name ∈ (contents d.pending).map (·.logName)
  handedKnown : ∀ s ∈ handed, s.segment.logName ∈ (contents d.metadata).map (·.logName) ∨
    s.segment.logName ∈ (contents d.pending).map (·.logName)
  raw : ∀ s ∈ sealed, d.raw s.segment.logPath = some s.body ∨
    d.raw s.segment.logPath = none ∧ s.segment.logName ∈ tarNames (contents d.tar)

theorem dirInv_empty : DirInv ([] : List (Sealed sha256)) [] (emptyHour : HourRun sha256).dir where
  logNames := by simp
  logPaths := by simp
  handedSealed := by simp
  index := by simp
  pendingReadable := by simp [Readable, emptyHour]
  pendingHanded := by simp [contents, emptyHour]
  metadataReadable := by simp [Readable, emptyHour]
  metadataHanded := by simp [contents, emptyHour]
  metadataNodup := List.nodup_nil
  tarReadable := by simp [Readable, emptyHour]
  tarHanded := by simp [contents, emptyHour]
  tarNodup := List.nodup_nil
  metadataInTar := by simp [contents, emptyHour]
  tarKnown := by simp [contents, emptyHour]
  handedKnown := by simp
  raw := by simp

variable {sealed handed : List (Sealed sha256)} {d : Dir δ}

/-- Sealing a segment under fresh names. -/
theorem DirInv.seal (h : DirInv sealed handed d) {s : Sealed sha256} (hs : Fresh sealed s) :
    DirInv (sealed ++ [s]) handed (d.seal s) := by
  have hcases : ∀ {P : Sealed sha256 → Prop}, (∀ t ∈ sealed, P t) → P s →
      ∀ t ∈ sealed ++ [s], P t := by
    intro P hold hnew t ht
    rcases List.mem_append.mp ht with ht | ht
    · exact hold t ht
    · exact List.mem_singleton.mp ht ▸ hnew
  refine { h with logNames := ?_, logPaths := ?_, handedSealed := ?_, index := ?_, raw := ?_ }
  · refine hcases (fun t ht => hcases (h.logNames t ht) fun he => absurd he (hs.logName t ht)) ?_
    exact hcases (fun t ht he => absurd he.symm (hs.logName t ht)) fun _ => rfl
  · refine hcases (fun t ht => hcases (h.logPaths t ht) fun he => absurd he (hs.logPath t ht)) ?_
    exact hcases (fun t ht he => absurd he.symm (hs.logPath t ht)) fun _ => rfl
  · exact fun t ht => List.mem_append_left _ (h.handedSealed t ht)
  · refine hcases (fun t ht => ?_) ⟨d.clock, if_pos rfl⟩
    obtain ⟨v, hv⟩ := h.index t ht
    exact ⟨v, (if_neg (hs.indexName t ht)).trans hv⟩
  · refine hcases (fun t ht => ?_) (Or.inl (if_pos rfl))
    have hne : (d.seal s).raw t.segment.logPath = d.raw t.segment.logPath :=
      if_neg (hs.logPath t ht)
    rw [hne]
    exact h.raw t ht

/-! ## A call on such a directory meets no error -/

section Call

variable {segments : List (Sealed sha256)}

/-- The segments a call works on are handed or being handed. -/
theorem DirInv.callSegments_handed (h : DirInv sealed handed d) {p : Segment δ}
    (hp : p ∈ callSegments d (manifests segments)) :
    ∃ s ∈ handed ++ segments, s.segment = p := by
  rcases mem_pendingUnion hp with hp | hp
  · obtain ⟨s, hs, rfl⟩ := h.pendingHanded p hp
    exact ⟨s, List.mem_append_left _ hs, rfl⟩
  · obtain ⟨s, hs, rfl⟩ := List.mem_map.mp hp
    exact ⟨s, List.mem_append_right _ hs, rfl⟩

/-- Everything handed in is named by the metadata or by the call's segments. -/
theorem DirInv.handed_known (h : DirInv sealed handed d) {s : Sealed sha256}
    (hs : s ∈ handed ++ segments) :
    s.segment.logName ∈ (contents d.metadata).map (·.logName) ∨
      s.segment.logName ∈ (callSegments d (manifests segments)).map (·.logName) := by
  unfold callSegments
  rw [mem_map_pendingUnion, List.map_append, List.mem_append]
  rcases List.mem_append.mp hs with hs | hs
  · rcases h.handedKnown s hs with hm | hp
    · exact Or.inl hm
    · exact Or.inr (Or.inl hp)
  · exact Or.inr (Or.inr (List.mem_map_of_mem (List.mem_map_of_mem hs)))

/-- A name in the old tar is in the metadata or among the call's segments. -/
theorem DirInv.tar_known (h : DirInv sealed handed d) {name : String}
    (hname : name ∈ tarNames (contents d.tar)) :
    name ∈ (contents d.metadata).map (·.logName) ∨
      name ∈ (callSegments d (manifests segments)).map (·.logName) := by
  unfold callSegments
  rw [mem_map_pendingUnion, List.map_append, List.mem_append]
  rcases h.tarKnown name hname with hm | hp
  · exact Or.inl hm
  · exact Or.inr (Or.inl hp)

/-- The records of a call are those of handed segments. -/
theorem DirInv.records_handed (h : DirInv sealed handed d) {m : Member δ}
    (hm : m ∈ records d (manifests segments)) :
    ∃ s ∈ handed ++ segments, s.segment.member = m := by
  rcases mem_mergeMembers.mp hm with hm | ⟨p, hp, -, rfl⟩
  · obtain ⟨s, hs, rfl⟩ := h.metadataHanded m hm
    exact ⟨s, List.mem_append_left _ hs, rfl⟩
  · obtain ⟨s, hs, rfl⟩ := h.callSegments_handed hp
    exact ⟨s, hs, rfl⟩

/-- A name is recorded when the metadata or the call's segments have it. -/
theorem mem_map_records {xs : List (Segment δ)} {name : String} :
    name ∈ (records d xs).map (·.logName) ↔
      name ∈ (contents d.metadata).map (·.logName) ∨ name ∈ (callSegments d xs).map (·.logName) := by
  constructor
  · intro h
    obtain ⟨m, hm, rfl⟩ := List.mem_map.mp h
    rcases mem_mergeMembers.mp hm with hm | ⟨p, hp, -, rfl⟩
    · exact Or.inl (List.mem_map_of_mem hm)
    · exact Or.inr (List.mem_map_of_mem hp)
  · intro h
    by_cases hold : name ∈ (contents d.metadata).map (·.logName)
    · obtain ⟨m, hm, rfl⟩ := List.mem_map.mp hold
      exact List.mem_map_of_mem (mem_mergeMembers.mpr (Or.inl hm))
    · obtain ⟨p, hp, rfl⟩ := List.mem_map.mp (h.resolve_left hold)
      exact List.mem_map.mpr ⟨p.member, mem_mergeMembers.mpr (Or.inr ⟨p, hp, hold, rfl⟩), rfl⟩

/-- The names of the rebuilt tar: the old ones and those of the call's segments. -/
theorem mem_tarNames_rebuilt_call {xs : List (Segment δ)} {name : String} :
    name ∈ tarNames (rebuilt d xs) ↔
      name ∈ tarNames (contents d.tar) ∨ name ∈ (callSegments d xs).map (·.logName) := by
  unfold rebuilt
  rw [mem_tarNames_rebuilt]
  exact or_congr Iff.rfl List.mem_map.symm

/-- The rebuilt tar holds true bytes: a segment the old tar lacks still has its raw log. -/
theorem DirInv.rebuilt_handed (h : DirInv sealed handed d) (hseg : ∀ s ∈ segments, s ∈ sealed)
    {m : TarMember} (hm : m ∈ rebuilt d (manifests segments)) :
    ∃ s ∈ handed ++ segments, s.tarMember = m := by
  rcases List.mem_append.mp hm with hm | hm
  · obtain ⟨s, hs, rfl⟩ := h.tarHanded m hm
    exact ⟨s, List.mem_append_left _ hs, rfl⟩
  · obtain ⟨p, hp, hnew, rfl⟩ := mem_freshMembers.mp hm
    obtain ⟨s, hs, rfl⟩ := h.callSegments_handed hp
    have hsealed : s ∈ sealed := by
      rcases List.mem_append.mp hs with hs | hs
      · exact h.handedSealed s hs
      · exact hseg s hs
    refine ⟨s, hs, ?_⟩
    rcases h.raw s hsealed with hraw | ⟨-, hin⟩
    · unfold freshMember
      rw [hraw]
      rfl
    · exact absurd hin hnew

/-- The rebuilt tar repeats no name. -/
theorem DirInv.rebuilt_nodup (h : DirInv sealed handed d) {xs : List (Segment δ)} :
    (tarNames (rebuilt d xs)).Nodup := by
  have hfresh : tarNames (freshMembers d (contents d.tar) (callSegments d xs)) =
      ((callSegments d xs).map (·.logName)).filter fun name => name ∉ tarNames (contents d.tar) := by
    unfold tarNames freshMembers
    rw [List.map_map, List.filter_map]
    rfl
  unfold tarNames at hfresh
  unfold rebuilt tarNames
  rw [List.map_append, List.nodup_append, hfresh]
  refine ⟨h.tarNodup, (pendingUnion_nodup _ _).filter _, ?_⟩
  rintro name hold name' hnew rfl
  exact absurd hold (by simpa using (List.mem_filter.mp hnew).2)

/-- The records of a call repeat no name. -/
theorem DirInv.records_nodup (h : DirInv sealed handed d) {xs : List (Segment δ)} :
    ((records d xs).map (·.logName)).Nodup := by
  have hadded : (((callSegments d xs).filter fun p =>
      p.logName ∉ (contents d.metadata).map (·.logName)).map (·.member)).map (·.logName) =
      ((callSegments d xs).map (·.logName)).filter fun name =>
        name ∉ (contents d.metadata).map (·.logName) := by
    rw [List.map_map, List.filter_map]
    rfl
  unfold records mergeMembers
  rw [List.map_append, List.nodup_append, hadded]
  refine ⟨h.metadataNodup, (pendingUnion_nodup _ _).filter _, ?_⟩
  rintro name hold name' hnew rfl
  exact absurd hold (by simpa using (List.mem_filter.mp hnew).2)

/-- **A call on sealed segments meets no error.** -/
theorem DirInv.publishable (h : DirInv sealed handed d) (hseg : ∀ s ∈ segments, s ∈ sealed) :
    Publishable sha256 d (manifests segments) := by
  have hsealed : ∀ s ∈ handed ++ segments, s ∈ sealed := by
    intro s hs
    rcases List.mem_append.mp hs with hs | hs
    · exact h.handedSealed s hs
    · exact hseg s hs
  refine
    { pendingReadable := h.pendingReadable, agrees := ?_, metadataReadable := h.metadataReadable
      tarReadable := h.tarReadable, tarLogs := ?_, ready := ?_, matched := ?_, indexes := ?_ }
  · intro p hp e he hname
    obtain ⟨s, hs, rfl⟩ := List.mem_map.mp hp
    have he' : e ∈ contents d.pending ∨ e ∈ segments.map (·.segment) := by
      rcases he with he | he
      · exact Or.inl ((mem_pendingUnion he).resolve_right List.not_mem_nil)
      · exact Or.inr he
    have hhanded : ∃ t ∈ sealed, t.segment = e := by
      rcases he' with he | he
      · obtain ⟨t, ht, rfl⟩ := h.pendingHanded e he
        exact ⟨t, h.handedSealed t ht, rfl⟩
      · obtain ⟨t, ht, rfl⟩ := List.mem_map.mp he
        exact ⟨t, hseg t ht, rfl⟩
    obtain ⟨t, ht, rfl⟩ := hhanded
    rw [h.logNames t ht s (hseg s hs) hname]
    exact ⟨rfl, rfl⟩
  · intro m hm
    obtain ⟨s, -, rfl⟩ := h.tarHanded m hm
    exact ⟨rfl, s.isLog⟩
  · intro p hp
    obtain ⟨s, hs, rfl⟩ := h.callSegments_handed hp
    obtain ⟨v, hindex⟩ := h.index s (hsealed s hs)
    refine ⟨⟨s.rows, ?_, s.indexDescribes⟩, ?_, ?_⟩
    · unfold Dir.readIndex
      rw [hindex]
    · intro hnone
      rcases h.raw s (hsealed s hs) with hraw | ⟨-, hin⟩
      · rw [hnone] at hraw
        cases hraw
      · exact hin
    · intro raw hraw _
      rcases h.raw s (hsealed s hs) with hbody | ⟨hnone, -⟩
      · rw [hraw] at hbody
        cases hbody
        exact s.describes
      · rw [hraw] at hnone
        cases hnone
  · refine ⟨h.records_nodup, h.rebuilt_nodup, ?_, ?_, ?_⟩
    · intro m hm
      obtain ⟨s, -, rfl⟩ := h.rebuilt_handed hseg hm
      exact ⟨rfl, s.isLog⟩
    · intro info hinfo
      obtain ⟨s, hs, rfl⟩ := h.rebuilt_handed hseg hinfo
      obtain ⟨m, hm, hname⟩ := List.mem_map.mp (mem_map_records.mpr (h.handed_known hs))
      obtain ⟨t, ht, rfl⟩ := h.records_handed hm
      rw [h.logNames t (hsealed t ht) s (hsealed s hs) hname] at hm
      exact ⟨s.segment.member, hm, rfl, s.describes⟩
    · intro m hm
      rw [mem_tarNames_rebuilt_call]
      rcases mem_map_records.mp (List.mem_map_of_mem hm) with hold | hnew
      · obtain ⟨m', hm', hname⟩ := List.mem_map.mp hold
        exact Or.inl (hname ▸ h.metadataInTar m' hm')
      · exact Or.inr hnew
  · intro m hm
    obtain ⟨s, hs, rfl⟩ := h.metadataHanded m hm
    obtain ⟨v, hindex⟩ := h.index s (h.handedSealed s hs)
    rw [hindex]
    simp

/-! ## One durable write after the other -/

/-- The pending manifest now names everything handed in. -/
theorem DirInv.writePending (h : DirInv sealed handed d) (hseg : ∀ s ∈ segments, s ∈ sealed) :
    DirInv sealed (handed ++ segments)
      (d.writePending (callSegments d (manifests segments))) := by
  refine
    { h with
      handedSealed := ?_, pendingReadable := by simp [Readable, Dir.writePending]
      pendingHanded := fun p hp => h.callSegments_handed hp
      metadataHanded := ?_, tarHanded := ?_
      tarKnown := fun name hname => h.tar_known hname
      handedKnown := fun s hs => h.handed_known hs }
  · intro s hs
    rcases List.mem_append.mp hs with hs | hs
    · exact h.handedSealed s hs
    · exact hseg s hs
  · intro m hm
    obtain ⟨s, hs, rfl⟩ := h.metadataHanded m hm
    exact ⟨s, List.mem_append_left _ hs, rfl⟩
  · intro m hm
    obtain ⟨s, hs, rfl⟩ := h.tarHanded m hm
    exact ⟨s, List.mem_append_left _ hs, rfl⟩

/-- The tar now has every name handed in. -/
theorem DirInv.replaceTar (h : DirInv sealed handed d) (hseg : ∀ s ∈ segments, s ∈ sealed) :
    DirInv sealed (handed ++ segments)
      ((d.writePending (callSegments d (manifests segments))).replaceTar
        (rebuilt d (manifests segments))) := by
  refine
    { h.writePending hseg with
      tarReadable := by simp [Readable, Dir.replaceTar]
      tarHanded := fun m hm => h.rebuilt_handed hseg hm
      tarNodup := h.rebuilt_nodup
      metadataInTar := ?_, tarKnown := ?_, raw := ?_ }
  · intro m hm
    exact mem_tarNames_rebuilt_call.mpr (Or.inl (h.metadataInTar m hm))
  · intro name hname
    rcases mem_tarNames_rebuilt_call.mp hname with hold | hnew
    · exact h.tar_known hold
    · exact Or.inr hnew
  · intro s hs
    rcases h.raw s hs with hraw | ⟨hnone, hin⟩
    · exact Or.inl hraw
    · exact Or.inr ⟨hnone, mem_tarNames_rebuilt_call.mpr (Or.inl hin)⟩

/-- Tar and metadata name everything: what the raw logs are removed under. -/
structure Settled (handed : List (Sealed sha256)) (d : Dir δ) : Prop where
  tarRecorded : ∀ name ∈ tarNames (contents d.tar), name ∈ (contents d.metadata).map (·.logName)
  handedRecorded : ∀ s ∈ handed, s.segment.logName ∈ (contents d.metadata).map (·.logName)

/-- The metadata now agrees with the tar. -/
theorem DirInv.writeMetadata (h : DirInv sealed handed d) (hseg : ∀ s ∈ segments, s ∈ sealed) :
    DirInv sealed (handed ++ segments)
        (((d.writePending (callSegments d (manifests segments))).replaceTar
          (rebuilt d (manifests segments))).writeMetadata
            (records d (manifests segments))) ∧
      Settled (handed ++ segments)
        (((d.writePending (callSegments d (manifests segments))).replaceTar
          (rebuilt d (manifests segments))).writeMetadata
            (records d (manifests segments))) := by
  have hrecorded : ∀ name ∈ tarNames (rebuilt d (manifests segments)),
      name ∈ (records d (manifests segments)).map (·.logName) := by
    intro name hname
    rw [mem_map_records]
    rcases mem_tarNames_rebuilt_call.mp hname with hold | hnew
    · exact h.tar_known hold
    · exact Or.inr hnew
  refine ⟨{ h.replaceTar hseg with
      metadataReadable := by simp [Readable, Dir.writeMetadata]
      metadataHanded := fun m hm => h.records_handed hm
      metadataNodup := h.records_nodup
      metadataInTar := fun m hm => (h.publishable hseg).matched.complete m hm
      tarKnown := fun name hname => Or.inl (hrecorded name hname)
      handedKnown := fun s hs => Or.inl (mem_map_records.mpr (h.handed_known hs)) }, ?_⟩
  exact ⟨hrecorded, fun s hs => mem_map_records.mpr (h.handed_known hs)⟩

end Call

theorem DirInv.writeReceipt (h : DirInv sealed handed d) (receipt : Receipt) :
    DirInv sealed handed (d.writeReceipt receipt) := { h with }

/-- A raw log may go when its bytes are in the tar. -/
theorem DirInv.unlinkRaw (h : DirInv sealed handed d) {s : Sealed sha256} (hs : s ∈ sealed)
    (hin : s.segment.logName ∈ tarNames (contents d.tar)) :
    DirInv sealed handed (d.unlinkRaw s.segment.logPath) := by
  refine { h with raw := ?_ }
  intro t ht
  by_cases hpath : t.segment.logPath = s.segment.logPath
  · rw [h.logPaths t ht s hs hpath]
    exact Or.inr ⟨if_pos rfl, hin⟩
  · have hne : (d.unlinkRaw s.segment.logPath).raw t.segment.logPath =
        d.raw t.segment.logPath := if_neg hpath
    rw [hne]
    exact h.raw t ht

/-- The manifest may go when the metadata names everything. -/
theorem DirInv.unlinkPending (h : DirInv sealed handed d) (hs : Settled handed d) :
    DirInv sealed handed d.unlinkPending :=
  { h with
    pendingReadable := by simp [Readable, Dir.unlinkPending]
    pendingHanded := by simp [contents, Dir.unlinkPending]
    tarKnown := fun name hname => Or.inl (hs.tarRecorded name hname)
    handedKnown := fun s hs' => Or.inl (hs.handedRecorded s hs') }

/-! ## What the invariant says of one segment -/

/-- A segment is exactly once in the tar, with its bytes, and exactly once in the
metadata, as its manifest says. -/
structure PublishedOnce (d : Dir δ) (s : Sealed sha256) : Prop where
  inTar : (tarNames (contents d.tar)).count s.segment.logName = 1
  tarBytes : s.tarMember ∈ contents d.tar
  inMetadata : ((contents d.metadata).map (·.logName)).count s.segment.logName = 1
  record : s.segment.member ∈ contents d.metadata

/-- The bytes of a segment are in its raw log, or in the tar under its name and
with the digest and size of its manifest. -/
def BytesKept (d : Dir δ) (s : Sealed sha256) : Prop :=
  d.raw s.segment.logPath = some s.body ∨
    ∃ m ∈ contents d.tar, m.name = s.segment.logName ∧ m.content = s.body ∧
      s.segment.member.Describes sha256 m.content

/-- The tar has a sealed segment's own bytes under its name. -/
theorem DirInv.tarMember_mem (h : DirInv sealed handed d) {s : Sealed sha256} (hs : s ∈ sealed)
    (hin : s.segment.logName ∈ tarNames (contents d.tar)) : s.tarMember ∈ contents d.tar := by
  obtain ⟨m, hm, hname⟩ := List.mem_map.mp hin
  obtain ⟨t, ht, rfl⟩ := h.tarHanded m hm
  rw [← h.logNames t (h.handedSealed t ht) s hs hname]
  exact hm

theorem DirInv.bytesKept (h : DirInv sealed handed d) {s : Sealed sha256} (hs : s ∈ sealed) :
    BytesKept d s := by
  rcases h.raw s hs with hraw | ⟨-, hin⟩
  · exact Or.inl hraw
  · exact Or.inr ⟨s.tarMember, h.tarMember_mem hs hin, rfl, rfl, s.describes⟩

theorem DirInv.publishedOnce (h : DirInv sealed handed d) (hsettled : Settled handed d)
    {s : Sealed sha256} (hs : s ∈ handed) : PublishedOnce d s := by
  have hrecorded := hsettled.handedRecorded s hs
  obtain ⟨m, hm, hname⟩ := List.mem_map.mp hrecorded
  have hin : s.segment.logName ∈ tarNames (contents d.tar) := hname ▸ h.metadataInTar m hm
  refine ⟨List.count_eq_one_of_mem h.tarNodup hin, h.tarMember_mem (h.handedSealed s hs) hin,
    List.count_eq_one_of_mem h.metadataNodup hrecorded, ?_⟩
  obtain ⟨t, ht, rfl⟩ := h.metadataHanded m hm
  rw [← h.logNames t (h.handedSealed t ht) s (h.handedSealed s hs) hname]
  exact hm

/-! ## Whole calls and whole runs -/

section Runs

variable [DecidableEq δ] {segments : List (Sealed sha256)} {k : Prop}

/-- **A publication that has written its manifest.** Killed anywhere, it leaves the
invariant; it meets no error; and when it returns, the metadata names everything
and the manifest is gone. -/
theorem publishPending_crash (h : DirInv sealed handed d) (hseg : ∀ s ∈ segments, s ∈ sealed) :
    CrashTriple k (· = d.writePending (callSegments d (manifests segments)))
      (publishPending sha256 (callSegments d (manifests segments)))
      (fun _ t => DirInv sealed (handed ++ segments) t ∧ Settled (handed ++ segments) t ∧
        t.pending = none)
      (DirInv sealed (handed ++ segments)) (fun _ _ => False) := by
  have hpub := h.publishable hseg
  have hwritten := h.writeMetadata hseg
  refine CrashTriple.peek_bind ?_
  rintro _ rfl
  rw [rebuildBundle_writePending]
  refine CrashTriple.attempt_bind (c := Readable d.metadata) (v := contents d.metadata)
    (fun _ => readList_eq_ok) (fun hbad => absurd hpub.metadataReadable hbad) fun _ => ?_
  refine CrashTriple.attempt_bind (v := rebuilt d (manifests segments))
    (rebuildBundle_eq_ok_contents (pendingUnion_nodup _ _))
    (fun hbad => absurd ⟨hpub.tarReadable, hpub.tarLogs, hpub.ready⟩ hbad) fun _ => ?_
  refine CrashTriple.attempt_bind (v := ())
    (c := Matches sha256 (records d (manifests segments))
      (rebuilt d (manifests segments)))
    (fun _ => verifyBundle_eq_ok.trans ⟨fun h => ⟨h, rfl⟩, fun h => h.1⟩)
    (fun hbad => absurd hpub.matched hbad) fun _ => ?_
  refine CrashTriple.bind (CrashTriple.durable_eq (h.writePending hseg)) fun _ => ?_
  refine CrashTriple.bind (CrashTriple.durable_eq (h.replaceTar hseg)) fun _ => ?_
  refine CrashTriple.bind (CrashTriple.conseq
    (persistVerified_spec (C := DirInv sealed (handed ++ segments)) hwritten.1
      (by simp [Dir.writeMetadata, Dir.replaceTar]) (by simp [Dir.writeMetadata]))
    (fun _ ht => ht) (fun _ _ ht => ht) (fun _ ht => ht)
    (fun _ _ ht => ht.1 hpub.index_ne_none)) fun _ => ?_
  -- the raw logs go one by one, each with its bytes in the tar
  refine CrashTriple.bind (CrashTriple.conseq
    (CrashTriple.forM (I := fun _ (t : Dir δ) => DirInv sealed (handed ++ segments) t ∧
      Settled (handed ++ segments) t) fun done p rest hsplit =>
        CrashTriple.durable (fun t ht => ht.1) ?_) ?_ (fun _ _ ht => ht) (fun _ ht => ht)
      (fun _ _ ht => ht)) fun _ => ?_
  · rintro t ⟨hinv, hsettled⟩
    have hp : p ∈ callSegments d (manifests segments) := by rw [hsplit]; simp
    obtain ⟨s, hs, rfl⟩ := h.callSegments_handed hp
    obtain ⟨m, hm, hname⟩ := List.mem_map.mp (hsettled.handedRecorded s hs)
    exact ⟨hinv.unlinkRaw (hinv.handedSealed s hs) (hname ▸ hinv.metadataInTar m hm),
      ⟨hsettled.tarRecorded, hsettled.handedRecorded⟩⟩
  · rintro _ ⟨-, receipt, rfl⟩
    exact ⟨hwritten.1.writeReceipt receipt,
      ⟨hwritten.2.tarRecorded, hwritten.2.handedRecorded⟩⟩
  · refine CrashTriple.durable (fun t ht => ht.1) ?_
    rintro t ⟨hinv, hsettled⟩
    exact ⟨hinv.unlinkPending hsettled, ⟨hsettled.tarRecorded, hsettled.handedRecorded⟩, rfl⟩

/-- A call that gets to its first durable write goes on from the manifest written. -/
theorem publishHourArchive_exec (h : DirInv sealed handed d) (hseg : ∀ s ∈ segments, s ∈ sealed)
    {left : Option Nat} (hleft : left ≠ some 0) :
    (publishHourArchive sha256 (manifests segments)).exec ⟨d, left⟩ =
      (publishPending sha256 (callSegments d (manifests segments))).exec
        ⟨d.writePending (callSegments d (manifests segments)), left.map (· - 1)⟩ := by
  have hpub := h.publishable hseg
  have hread : Dir.readList "pending" d.pending = .ok (contents d.pending) :=
    readList_eq_ok.mpr ⟨hpub.pendingReadable, rfl⟩
  have hmerge : enlist (contents d.pending) (manifests segments) =
      .ok (callSegments d (manifests segments)) :=
    enlist_eq_ok.mpr ⟨hpub.agrees, rfl⟩
  have hdurable : (durable (Dir.writePending (callSegments d (manifests segments))) :
      Durable (Dir δ) PublishError PUnit).exec ⟨d, left⟩ = (.ok ⟨⟩,
        ⟨d.writePending (callSegments d (manifests segments)), left.map (· - 1)⟩) := by
    rcases left with _ | _ | n
    · rfl
    · exact absurd rfl hleft
    · rfl
  unfold publishHourArchive
  rw [Prog.exec_bind_of_ok (show (peek : Durable (Dir δ) PublishError (Dir δ)).exec ⟨d, left⟩ =
    (.ok d, ⟨d, left⟩) from rfl)]
  rw [hread]
  rw [Prog.exec_bind_of_ok (show (attempt (.ok (contents d.pending)) :
    Durable (Dir δ) PublishError _).exec ⟨d, left⟩ = (.ok (contents d.pending), ⟨d, left⟩) from rfl)]
  rw [hmerge]
  rw [Prog.exec_bind_of_ok (show (attempt (.ok (callSegments d (manifests segments))) :
    Durable (Dir δ) PublishError _).exec ⟨d, left⟩ = (.ok _, ⟨d, left⟩) from rfl)]
  exact Prog.exec_bind_of_ok hdurable

/-- What every run of the system keeps. -/
theorem hourStep_inv {h h' : HourRun sha256} (hst : HourStep h h')
    (hinv : DirInv h.sealed h.handed h.dir) : DirInv h'.sealed h'.handed h'.dir := by
  cases hst with
  | sealed fresh => exact hinv.seal fresh
  | published known started =>
    show DirInv _ _ _
    rw [publishHourArchive_exec hinv known started]
    refine CrashTriple.final (CrashTriple.conseq (publishPending_crash hinv known)
      (fun _ ht => ht) (fun _ _ ht => ht.1) (fun _ ht => ht) (fun _ _ ht => ht.elim)) rfl _

/-- The states an hour can be in. -/
def ReachableHour (h : HourRun sha256) : Prop := Reachable (· = emptyHour) HourStep h

theorem ReachableHour.inv {h : HourRun sha256} (hr : ReachableHour h) :
    DirInv h.sealed h.handed h.dir :=
  Reachable.invariant (I := fun h : HourRun sha256 => DirInv h.sealed h.handed h.dir)
    (fun _ he => by rw [he]; exact dirInv_empty) (fun _ _ => hourStep_inv) hr

/-- **Publication is crash-safe.** Whatever calls were made and wherever they were
killed, the bytes of every segment handed in are in its raw log or in the tar; and
one undisturbed call, with any sealed segments, ends with everything handed in
archived once and no manifest left. -/
theorem publish_crash_safe {h : HourRun sha256} (hr : ReachableHour h) :
    (∀ s ∈ h.handed, BytesKept h.dir s) ∧
      ∀ segments : List (Sealed sha256), (∀ s ∈ segments, s ∈ h.sealed) →
        ∃ d, (publishHourArchive sha256 (manifests segments)).exec ⟨h.dir, none⟩ =
            (.ok ⟨⟩, ⟨d, none⟩) ∧
          (∀ s ∈ h.handed ++ segments, PublishedOnce d s) ∧ d.pending = none := by
  have hinv := hr.inv
  refine ⟨fun s hs => hinv.bytesKept (hinv.handedSealed s hs), ?_⟩
  intro segments hseg
  rw [publishHourArchive_exec hinv hseg (by simp)]
  rcases CrashTriple.undisturbed (publishPending_crash hinv hseg) rfl with
    ⟨_, d, hret, hdinv, hsettled, hnone⟩ | ⟨_, _, _, hfalse⟩
  · exact ⟨d, hret, fun s hs => hdinv.publishedOnce hsettled hs, hnone⟩
  · exact hfalse.elim

/-- A sealed segment of two bytes with a one-byte index. -/
def twoByteSegment : Sealed (id : Bytes → Bytes) :=
  { segment :=
      { taskId := "t", runId := "r", sessionId := "s", hourStart := 0, rawSize := 2
        sha256 := [1, 2], firstSequence := some 1, lastSequence := some 1
        sourceLogName := "a.log", logName := "a.log", indexName := "a.index.jsonl"
        indexSha256 := [3], indexBytes := 1, firstReceivedAt := none, lastReceivedAt := none
        logPath := "hour/a.log" }
    body := [1, 2]
    rows := [3]
    describes := ⟨rfl, rfl⟩
    indexDescribes := ⟨rfl, rfl⟩
    isLog := by decide }

/-- The hour after a publication of it was killed between the tar and the metadata. -/
def interruptedHour : HourRun (id : Bytes → Bytes) :=
  { dir := ((publishHourArchive id (manifests [twoByteSegment])).exec
      ⟨(emptyHour : HourRun (id : Bytes → Bytes)).dir.seal twoByteSegment, some 2⟩).2.state
    sealed := [twoByteSegment]
    handed := [twoByteSegment] }

theorem interruptedHour_reachable : ReachableHour interruptedHour := by
  have hempty : ReachableHour (emptyHour : HourRun (id : Bytes → Bytes)) := Reachable.initial rfl
  have hfresh : Fresh (emptyHour : HourRun (id : Bytes → Bytes)).sealed twoByteSegment :=
    ⟨by simp [emptyHour], by simp [emptyHour], by simp [emptyHour]⟩
  have hknown : ∀ s ∈ [twoByteSegment], s ∈ [] ++ [twoByteSegment] := fun _ hs => hs
  have hstarted : (some 2 : Option Nat) ≠ some 0 := by decide
  exact Reachable.tail (hempty.tail (HourStep.sealed hfresh))
    (HourStep.published hknown hstarted)

theorem publish_crash_safe_interrupted :
    (∀ s ∈ interruptedHour.handed, BytesKept interruptedHour.dir s) ∧
      ∃ d, (publishHourArchive id (manifests [twoByteSegment])).exec ⟨interruptedHour.dir, none⟩ =
          (.ok ⟨⟩, ⟨d, none⟩) ∧
        (∀ s ∈ interruptedHour.handed ++ [twoByteSegment], PublishedOnce d s) ∧ d.pending = none :=
  ⟨(publish_crash_safe interruptedHour_reachable).1,
    (publish_crash_safe interruptedHour_reachable).2 [twoByteSegment] fun _ hs => hs⟩

end Runs

end CameraLogs.Logs

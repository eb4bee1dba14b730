import CameraLogs.Logs.ArchiveCrash

/-!
# An hour directory while it is being published into

A reader does not wait for a publication: it may look at the directory between any two of
its durable writes. `Publishing` is what a publication has still to do, and a step of an hour
is one write of it, its death, a call, or a segment that is sealed meanwhile. The directories
that `publishHourArchive` leaves behind, wherever it is killed, are among the states of these
steps (`publishHourArchive_steps`).

`WorkInv` adds to `DirInv` what a reader in between relies on: a raw log that has gone is in the
metadata, and metadata that is not older than the tar names all of the tar. `Later` is how a
directory may change between two looks.
-/

namespace CameraLogs.Logs

open Lib
open Relation (ReflTransGen)

variable {δ : Type}

/-- What a publication has still to do. -/
inductive Publishing (δ : Type)
  | checking (segments : List (Segment δ))
  | replacing (segments : List (Segment δ)) (bundle : List TarMember) (members : List (Member δ))
  | recording (segments : List (Segment δ)) (members : List (Member δ))
  | receipting (segments : List (Segment δ)) (members : List (Member δ))
  | removing (segments : List (Segment δ))

/-- The receipt of `persistVerified`. -/
def receiptFor (members : List (Member δ)) (dir : Dir δ) : Except PublishError Receipt := do
  let indexes ← indexSignatures dir members
  let archiveSignature ← Dir.signature "tar" dir.tar
  let metadataSignature ← Dir.signature "metadata" dir.metadata
  return { archiveSignature, metadataSignature, indexSignatures := indexes }

section Steps

variable [DecidableEq δ] (sha256 : Bytes → δ)

/-- The rebuilt tar and its records, once they have passed the checks. -/
def prepare (segments : List (Segment δ)) (dir : Dir δ) :
    Except PublishError (List TarMember × List (Member δ)) := do
  let oldMembers ← Dir.readList "metadata" dir.metadata
  let bundle ← rebuildBundle sha256 dir segments
  let members := mergeMembers oldMembers segments
  verifyBundle sha256 members bundle
  return (bundle, members)

/-- One durable write of a publication, or its checks. -/
def Publishing.next : Publishing δ → Dir δ → Dir δ × Option (Publishing δ)
  | .checking segments, dir =>
    match prepare sha256 segments dir with
    | .ok (bundle, members) => (dir, some (.replacing segments bundle members))
    | .error _ => (dir, none)
  | .replacing segments bundle members, dir =>
    (dir.replaceTar bundle, some (.recording segments members))
  | .recording segments members, dir =>
    (dir.writeMetadata members, some (.receipting segments members))
  | .receipting segments members, dir =>
    match receiptFor members dir with
    | .ok receipt => (dir.writeReceipt receipt, some (.removing segments))
    | .error _ => (dir, none)
  | .removing (segment :: segments), dir =>
    (dir.unlinkRaw segment.logPath, some (.removing segments))
  | .removing [], dir => (dir.unlinkPending, none)

/-- From a directory and a publication in it to those after one write. -/
inductive PublishStep : Dir δ × Option (Publishing δ) → Dir δ × Option (Publishing δ) → Prop
  | next (dir : Dir δ) (publishing : Publishing δ) :
      PublishStep (dir, some publishing) (publishing.next sha256 dir)

/-- A publication gets from one point of its work to another. -/
abbrev Publishes (start : Dir δ × Option (Publishing δ)) (dir : Dir δ)
    (publishing : Option (Publishing δ)) : Prop :=
  ReflTransGen (PublishStep sha256) start (dir, publishing)

variable {sha256} {start : Dir δ × Option (Publishing δ)} {dir : Dir δ}

theorem Publishes.next {publishing : Publishing δ} {after : Dir δ} {rest : Option (Publishing δ)}
    (h : Publishes sha256 start dir (some publishing))
    (heq : publishing.next sha256 dir = (after, rest)) : Publishes sha256 start after rest := by
  have hstep : PublishStep sha256 (dir, some publishing) (publishing.next sha256 dir) :=
    .next dir publishing
  rw [heq] at hstep
  exact h.tail hstep

/-- Wherever a call is killed that has written its manifest, its steps lead there. -/
theorem publishPending_steps (segments : List (Segment δ)) :
    CrashTriple True (· = dir) (publishPending sha256 segments)
      (fun _ t => Publishes sha256 (dir, some (.checking segments)) t none)
      (fun t => ∃ rest, Publishes sha256 (dir, some (.checking segments)) t rest)
      (fun _ t => ∃ rest, Publishes sha256 (dir, some (.checking segments)) t rest) := by
  have hstart : Publishes sha256 (dir, some (.checking segments)) dir (some (.checking segments)) :=
    ReflTransGen.refl
  refine CrashTriple.peek_bind ?_
  rintro dir rfl
  have hat : ∀ t, t = dir →
      ∃ rest, Publishes sha256 (dir, some (.checking segments)) t rest := by
    rintro t rfl
    exact ⟨_, hstart⟩
  refine CrashTriple.bind (CrashTriple.attempt
    (Q := fun old t => Dir.readList "metadata" dir.metadata = .ok old ∧ t = dir)
    (fun _ _ hok ht => ⟨hok, ht⟩) fun _ _ _ ht => hat _ ht) fun old => ?_
  refine CrashTriple.bind (CrashTriple.attempt
    (Q := fun bundle t => (Dir.readList "metadata" dir.metadata = .ok old ∧
      rebuildBundle sha256 dir segments = .ok bundle) ∧ t = dir)
    (fun _ _ hok ht => ⟨⟨ht.1, hok⟩, ht.2⟩) fun _ _ _ ht => hat _ ht.2) fun bundle => ?_
  refine CrashTriple.bind (CrashTriple.attempt
    (Q := fun _ t => Publishes sha256 (dir, some (.checking segments)) t
      (some (.replacing segments bundle (mergeMembers old segments))))
    ?_ fun _ _ _ ht => hat _ ht.2) fun _ => ?_
  · rintro _ _ hverified ⟨⟨hold, hbundle⟩, rfl⟩
    refine hstart.next ?_
    unfold Publishing.next prepare
    simp only [hold, hbundle, hverified, bind, Except.bind, pure, Except.pure]
  refine CrashTriple.bind
    (Q := fun _ t => Publishes sha256 (dir, some (.checking segments)) t
      (some (.recording segments (mergeMembers old segments))))
    (CrashTriple.durable (fun _ ht => ⟨_, ht⟩) fun _ ht => ht.next rfl) fun _ => ?_
  refine CrashTriple.bind
    (Q := fun _ t => Publishes sha256 (dir, some (.checking segments)) t
      (some (.receipting segments (mergeMembers old segments))))
    (CrashTriple.durable (fun _ ht => ⟨_, ht⟩) fun _ ht => ht.next rfl) fun _ => ?_
  refine CrashTriple.bind
    (Q := fun _ t => Publishes sha256 (dir, some (.checking segments)) t (some (.removing segments)))
    ?_ fun _ => ?_
  · refine CrashTriple.peek_bind ?_
    intro dir' hdir'
    have hat' : ∀ t, t = dir' →
        ∃ rest, Publishes sha256 (dir, some (.checking segments)) t rest := by
      rintro t rfl
      exact ⟨_, hdir'⟩
    refine CrashTriple.bind (CrashTriple.attempt
      (Q := fun indexes t => indexSignatures dir' (mergeMembers old segments) = .ok indexes ∧ t = dir')
      (fun _ _ hok ht => ⟨hok, ht⟩) fun _ _ _ ht => hat' _ ht) fun indexes => ?_
    refine CrashTriple.bind (CrashTriple.attempt
      (Q := fun archive t => (indexSignatures dir' (mergeMembers old segments) = .ok indexes ∧
        Dir.signature "tar" dir'.tar = .ok archive) ∧ t = dir')
      (fun _ _ hok ht => ⟨⟨ht.1, hok⟩, ht.2⟩) fun _ _ _ ht => hat' _ ht.2) fun archive => ?_
    refine CrashTriple.bind (CrashTriple.attempt
      (Q := fun metadata t => ((indexSignatures dir' (mergeMembers old segments) = .ok indexes ∧
        Dir.signature "tar" dir'.tar = .ok archive) ∧
        Dir.signature "metadata" dir'.metadata = .ok metadata) ∧ t = dir')
      (fun _ _ hok ht => ⟨⟨ht.1, hok⟩, ht.2⟩) fun _ _ _ ht => hat' _ ht.2) fun metadata => ?_
    refine CrashTriple.durable (fun _ ht => hat' _ ht.2) ?_
    rintro _ ⟨⟨⟨hindexes, harchive⟩, hmetadata⟩, rfl⟩
    refine hdir'.next ?_
    unfold Publishing.next receiptFor
    simp only [hindexes, harchive, hmetadata, bind, Except.bind, pure, Except.pure]
  refine CrashTriple.bind (CrashTriple.conseq (CrashTriple.forM
    (I := fun done t => Publishes sha256 (dir, some (.checking segments)) t
      (some (.removing (segments.drop done.length)))) fun done segment rest hsplit =>
        CrashTriple.durable (fun _ ht => ⟨_, ht⟩) fun t ht => ?_)
    (fun _ ht => ht) (fun _ _ ht => ht) (fun _ ht => ht) fun _ _ ht => ht) fun _ =>
      CrashTriple.durable (fun _ ht => ⟨_, ht⟩) fun t ht => ?_
  · have hnow : segments.drop done.length = segment :: rest := by
      rw [hsplit, List.drop_left]
    have hafter : segments.drop (done ++ [segment]).length = rest := by
      rw [hsplit]
      simp
    rw [hnow] at ht
    rw [hafter]
    exact ht.next rfl
  · rw [List.drop_length] at ht
    exact ht.next rfl

end Steps

/-! ## An hour with a publication in it -/

/-- An hour, and what a publication has still to do in it. -/
structure HourWork (sha256 : Bytes → δ) where
  dir : Dir δ
  sealed : List (Sealed sha256)
  handed : List (Sealed sha256)
  publishing : Option (Publishing δ)

def idleHour {sha256 : Bytes → δ} : HourWork sha256 :=
  { dir := (emptyHour : HourRun sha256).dir, sealed := [], handed := [], publishing := none }

section Work

variable [DecidableEq δ] {sha256 : Bytes → δ}

/-- A segment is sealed; a call that merges sealed segments into the manifest begins; a
publication makes a step, or dies. -/
inductive WorkStep : HourWork sha256 → HourWork sha256 → Prop
  | sealed {w : HourWork sha256} {s : Sealed sha256} (fresh : Fresh w.sealed s) :
      WorkStep w { w with dir := w.dir.seal s, sealed := w.sealed ++ [s] }
  | called {w : HourWork sha256} {segments : List (Sealed sha256)}
      {previous all : List (Segment δ)} (idle : w.publishing = none)
      (known : ∀ s ∈ segments, s ∈ w.sealed)
      (read : Dir.readList "pending" w.dir.pending = .ok previous)
      (merged : enlist previous (manifests segments) = .ok all) :
      WorkStep w
        { w with
          dir := w.dir.writePending all, handed := w.handed ++ segments
          publishing := some (.checking all) }
  | wrote {w : HourWork sha256} {publishing : Publishing δ}
      (busy : w.publishing = some publishing) :
      WorkStep w
        { w with
          dir := (publishing.next sha256 w.dir).1
          publishing := (publishing.next sha256 w.dir).2 }
  | died {w : HourWork sha256} : WorkStep w { w with publishing := none }

/-- The states an hour at work can be in. -/
def ReachableWork (w : HourWork sha256) : Prop := Reachable (· = idleHour) WorkStep w

theorem Publishes.work {sealed handed : List (Sealed sha256)}
    {start finish : Dir δ × Option (Publishing δ)}
    (h : ReflTransGen (PublishStep sha256) start finish) :
    ReflTransGen WorkStep (⟨start.1, sealed, handed, start.2⟩ : HourWork sha256)
      ⟨finish.1, sealed, handed, finish.2⟩ := by
  induction h with
  | refl => exact ReflTransGen.refl
  | tail _ hstep ih =>
    obtain ⟨dir, publishing⟩ := hstep
    exact ih.tail (WorkStep.wrote rfl)

/-- **A call's directories are among those of its steps**, wherever it is killed. -/
theorem publishHourArchive_steps {h h' : HourRun sha256} (hst : HourStep h h')
    (hinv : DirInv h.sealed h.handed h.dir) :
    ReflTransGen WorkStep (⟨h.dir, h.sealed, h.handed, none⟩ : HourWork sha256)
      ⟨h'.dir, h'.sealed, h'.handed, none⟩ := by
  cases hst with
  | sealed fresh => exact ReflTransGen.single (WorkStep.sealed fresh)
  | @published segments left known started =>
    have hpub := hinv.publishable known
    rw [publishHourArchive_exec hinv known started]
    have hcalled : WorkStep (⟨h.dir, h.sealed, h.handed, none⟩ : HourWork sha256)
        ⟨h.dir.writePending (callSegments h.dir (manifests segments)), h.sealed,
          h.handed ++ segments, some (.checking (callSegments h.dir (manifests segments)))⟩ :=
      .called rfl known (readList_eq_ok.mpr ⟨hpub.pendingReadable, rfl⟩)
        (enlist_eq_ok.mpr ⟨hpub.agrees, rfl⟩)
    have hsteps := @publishPending_steps δ _ sha256
      (h.dir.writePending (callSegments h.dir (manifests segments)))
      (callSegments h.dir (manifests segments))
    have hrun := CrashTriple.final (CrashTriple.conseq hsteps (fun _ ht => ht)
      (fun _ _ ht => ⟨_, ht⟩) (fun _ ht => ht) fun _ _ ht => ht) rfl (left.map (· - 1))
    obtain ⟨rest, hrest⟩ := hrun
    exact (ReflTransGen.head hcalled (Publishes.work hrest)).tail .died

/-! ## What holds between two writes -/

/-- A rebuilt tar and its records, ready to replace those of the directory. -/
structure Prepared (handed : List (Sealed sha256)) (d : Dir δ) (all : List (Segment δ))
    (bundle : List TarMember) (members : List (Member δ)) : Prop where
  matched : Matches sha256 members bundle
  bundleHanded : ∀ m ∈ bundle, ∃ s ∈ handed, s.tarMember = m
  membersHanded : ∀ m ∈ members, ∃ s ∈ handed, s.segment.member = m
  kept : ∀ name ∈ tarNames (contents d.tar), name ∈ tarNames bundle
  names : ∀ name, name ∈ members.map (·.logName) ↔
    name ∈ (contents d.metadata).map (·.logName) ∨ name ∈ all.map (·.logName)

/-- What a publication knows of the directory. -/
def PublishingInv (handed : List (Sealed sha256)) (d : Dir δ) : Publishing δ → Prop
  | .checking all => contents d.pending = all ∧ (all.map (·.logName)).Nodup
  | .replacing all bundle members => contents d.pending = all ∧ Prepared handed d all bundle members
  | .recording all members =>
    contents d.pending = all ∧ Prepared handed d all (contents d.tar) members
  | .receipting all _ => Settled handed d ∧ ∀ p ∈ all, ∃ s ∈ handed, s.segment = p
  | .removing all => Settled handed d ∧ ∀ p ∈ all, ∃ s ∈ handed, s.segment = p

structure WorkInv (w : HourWork sha256) : Prop where
  dir : DirInv w.sealed w.handed w.dir
  gone : ∀ s ∈ w.sealed, w.dir.raw s.segment.logPath = none →
    s.segment.logName ∈ (contents w.dir.metadata).map (·.logName)
  tarVersion : ∀ f, w.dir.tar = some f → f.signature < w.dir.clock
  metadataVersion : ∀ f, w.dir.metadata = some f → f.signature < w.dir.clock
  /-- Metadata that is not older than the tar. -/
  current : ∀ f g, w.dir.tar = some f → w.dir.metadata = some g → f.signature ≤ g.signature →
    ∀ name ∈ tarNames (contents w.dir.tar), name ∈ (contents w.dir.metadata).map (·.logName)
  publishing : ∀ p, w.publishing = some p → PublishingInv w.handed w.dir p

omit [DecidableEq δ] in
theorem workInv_idle : WorkInv (idleHour : HourWork sha256) where
  dir := dirInv_empty
  gone := by simp [idleHour]
  tarVersion := by simp [idleHour, emptyHour]
  metadataVersion := by simp [idleHour, emptyHour]
  current := by simp [idleHour, emptyHour]
  publishing := by simp [idleHour]

variable {sealed handed : List (Sealed sha256)} {d : Dir δ}

omit [DecidableEq δ] in
/-- A manifest that is merged with nothing. -/
theorem callSegments_nil (h : ((contents d.pending).map (·.logName)).Nodup) :
    callSegments d [] = contents d.pending := by
  unfold callSegments pendingUnion
  rw [List.append_nil]
  exact Dict.upsertAll_append h

/-- What has passed the checks is ready to replace the tar and the metadata. -/
theorem prepare_prepared (h : DirInv sealed handed d) {all : List (Segment δ)}
    (hpending : contents d.pending = all) (hnodup : (all.map (·.logName)).Nodup)
    {bundle : List TarMember} {members : List (Member δ)}
    (hok : prepare sha256 all d = .ok (bundle, members)) :
    Prepared handed d all bundle members := by
  have hall : callSegments d [] = all := by
    rw [callSegments_nil (hpending ▸ hnodup), hpending]
  unfold prepare at hok
  cases hold : Dir.readList "metadata" d.metadata with
  | error e => simp [hold, bind, Except.bind] at hok
  | ok old =>
  cases hbundle : rebuildBundle sha256 d all with
  | error e => simp [hold, hbundle, bind, Except.bind] at hok
  | ok bundle' =>
  cases hverified : verifyBundle sha256 (mergeMembers old all) bundle' with
  | error e => simp [hold, hbundle, hverified, bind, Except.bind] at hok
  | ok u =>
  simp only [hold, hbundle, hverified, bind, Except.bind, pure, Except.pure, Except.ok.injEq,
    Prod.mk.injEq] at hok
  obtain ⟨rfl, rfl⟩ := hok
  obtain ⟨-, rfl⟩ := readList_eq_ok.mp hold
  obtain ⟨-, hbundle'⟩ := (rebuildBundle_eq_ok_contents hnodup _).mp hbundle
  have hrebuilt : bundle' = rebuilt d [] := by
    unfold rebuilt
    rw [hall, hbundle']
  have hrecords : mergeMembers (contents d.metadata) all = records d [] := by
    unfold records
    rw [hall]
  refine ⟨verifyBundle_eq_ok.mp hverified, fun m hm => ?_, fun m hm => ?_, fun name hname => ?_,
    fun name => ?_⟩
  · obtain ⟨s, hs, hsm⟩ := @DirInv.rebuilt_handed _ _ _ _ _ [] h (by simp) m (hrebuilt ▸ hm)
    exact ⟨s, by simpa using hs, hsm⟩
  · obtain ⟨s, hs, hsm⟩ := @DirInv.records_handed _ _ _ _ _ [] h m (hrecords ▸ hm)
    exact ⟨s, by simpa using hs, hsm⟩
  · rw [hrebuilt]
    exact mem_tarNames_rebuilt_call.mpr (Or.inl hname)
  · rw [hrecords, mem_map_records, hall]

/-! ## What a step keeps -/

omit [DecidableEq δ] in
theorem Prepared.replaceTar {all : List (Segment δ)} {bundle : List TarMember}
    {members : List (Member δ)} (hp : Prepared handed d all bundle members)
    (h : DirInv sealed handed d) (hpending : contents d.pending = all) :
    DirInv sealed handed (d.replaceTar bundle) := by
  refine
    { h with
      tarReadable := by simp [Readable, Dir.replaceTar]
      tarHanded := hp.bundleHanded
      tarNodup := hp.matched.membersNodup
      metadataInTar := fun m hm => hp.kept _ (h.metadataInTar m hm)
      tarKnown := fun name hname => ?_
      raw := fun s hs => ?_ }
  · obtain ⟨info, hinfo, rfl⟩ := List.mem_map.mp hname
    obtain ⟨m, hm, hmname, -⟩ := hp.matched.recorded info hinfo
    have hname' := (hp.names m.logName).mp (List.mem_map_of_mem hm)
    rw [hmname, ← hpending] at hname'
    exact hname'
  · rcases h.raw s hs with hraw | ⟨hnone, hin⟩
    · exact Or.inl hraw
    · exact Or.inr ⟨hnone, hp.kept _ hin⟩

omit [DecidableEq δ] in
/-- Everything that the tar or a call has is recorded. -/
theorem Prepared.settled {all : List (Segment δ)} {members : List (Member δ)}
    (hp : Prepared handed d all (contents d.tar) members) (h : DirInv sealed handed d)
    (hpending : contents d.pending = all) : Settled handed (d.writeMetadata members) where
  tarRecorded := fun name hname => by
    obtain ⟨info, hinfo, rfl⟩ := List.mem_map.mp hname
    obtain ⟨m, hm, hmname, -⟩ := hp.matched.recorded info hinfo
    exact hmname ▸ List.mem_map_of_mem hm
  handedRecorded := fun s hs => by
    have hknown := h.handedKnown s hs
    rw [hpending] at hknown
    exact (hp.names _).mpr hknown

omit [DecidableEq δ] in
theorem Prepared.writeMetadata {all : List (Segment δ)} {members : List (Member δ)}
    (hp : Prepared handed d all (contents d.tar) members) (h : DirInv sealed handed d)
    (hpending : contents d.pending = all) : DirInv sealed handed (d.writeMetadata members) :=
  have hsettled := hp.settled h hpending
  { h with
    metadataReadable := by simp [Readable, Dir.writeMetadata]
    metadataHanded := hp.membersHanded
    metadataNodup := hp.matched.recordsNodup
    metadataInTar := hp.matched.complete
    tarKnown := fun name hname => Or.inl (hsettled.tarRecorded name hname)
    handedKnown := fun s hs => Or.inl (hsettled.handedRecorded s hs) }

omit [DecidableEq δ] in
/-- What a publication knows of a directory stays true when a segment is sealed. -/
theorem PublishingInv.seal {s : Sealed sha256} {p : Publishing δ}
    (h : PublishingInv handed d p) : PublishingInv handed (d.seal s) p := by
  cases p with
  | checking all => exact h
  | replacing all bundle members => exact ⟨h.1, { h.2 with }⟩
  | recording all members => exact ⟨h.1, { h.2 with }⟩
  | receipting all members => exact ⟨{ h.1 with }, h.2⟩
  | removing all => exact ⟨{ h.1 with }, h.2⟩

omit [DecidableEq δ] in
theorem WorkInv.seal {w : HourWork sha256} (h : WorkInv w) {s : Sealed sha256}
    (fresh : Fresh w.sealed s) :
    WorkInv { w with dir := w.dir.seal s, sealed := w.sealed ++ [s] } where
  dir := h.dir.seal fresh
  gone := fun t ht hnone => by
    obtain ht | ht := List.mem_append.mp ht
    · have hsame : (w.dir.seal s).raw t.segment.logPath = w.dir.raw t.segment.logPath :=
        if_neg (fresh.logPath t ht)
      exact h.gone t ht (hsame ▸ hnone)
    · rw [List.mem_singleton.mp ht] at hnone
      unfold Dir.seal at hnone
      dsimp only at hnone
      rw [if_pos rfl] at hnone
      cases hnone
  tarVersion := fun f hf => Nat.lt_succ_of_lt (h.tarVersion f hf)
  metadataVersion := fun f hf => Nat.lt_succ_of_lt (h.metadataVersion f hf)
  current := h.current
  publishing := fun p hp => (h.publishing p hp).seal

theorem WorkInv.call {w : HourWork sha256} (h : WorkInv w) {segments : List (Sealed sha256)}
    {previous all : List (Segment δ)} (known : ∀ s ∈ segments, s ∈ w.sealed)
    (read : Dir.readList "pending" w.dir.pending = .ok previous)
    (merged : enlist previous (manifests segments) = .ok all) :
    WorkInv { w with
      dir := w.dir.writePending all, handed := w.handed ++ segments
      publishing := some (.checking all) } := by
  obtain ⟨-, rfl⟩ := readList_eq_ok.mp read
  obtain ⟨-, rfl⟩ := enlist_eq_ok.mp merged
  refine
    { dir := h.dir.writePending known, gone := h.gone
      tarVersion := fun f hf => Nat.lt_succ_of_lt (h.tarVersion f hf)
      metadataVersion := fun f hf => Nat.lt_succ_of_lt (h.metadataVersion f hf)
      current := h.current, publishing := fun p hp => ?_ }
  cases hp
  exact ⟨rfl, pendingUnion_nodup _ _⟩

theorem WorkInv.next {w : HourWork sha256} (h : WorkInv w) {p : Publishing δ}
    (busy : w.publishing = some p) :
    WorkInv { w with
      dir := (p.next sha256 w.dir).1, publishing := (p.next sha256 w.dir).2 } := by
  have hp := h.publishing p busy
  cases p with
  | checking all =>
    obtain ⟨hpending, hnodup⟩ := hp
    cases hok : prepare sha256 all w.dir with
    | ok result =>
      obtain ⟨bundle, members⟩ := result
      have hnext : (Publishing.checking all).next sha256 w.dir =
          (w.dir, some (.replacing all bundle members)) := by
        simp only [Publishing.next, hok]
      rw [hnext]
      refine { h with publishing := fun p hp => ?_ }
      cases hp
      exact ⟨hpending, prepare_prepared h.dir hpending hnodup hok⟩
    | error e =>
      have hnext : (Publishing.checking all).next sha256 w.dir = (w.dir, none) := by
        simp only [Publishing.next, hok]
      rw [hnext]
      exact { h with publishing := fun p hp => by cases hp }
  | replacing all bundle members =>
    obtain ⟨hpending, hprepared⟩ := hp
    refine
      { dir := hprepared.replaceTar h.dir hpending, gone := h.gone, tarVersion := ?_
        metadataVersion := fun f hf => Nat.lt_succ_of_lt (h.metadataVersion f hf)
        current := ?_, publishing := ?_ }
    · intro f hf
      cases hf
      exact Nat.lt_succ_self _
    · intro f g hf hg hle
      cases hf
      exact absurd (h.metadataVersion g hg) (Nat.not_lt.mpr hle)
    · intro p hp
      cases hp
      exact ⟨hpending, { hprepared with kept := fun _ hname => hname }⟩
  | recording all members =>
    obtain ⟨hpending, hprepared⟩ := hp
    have hsettled := hprepared.settled h.dir hpending
    refine
      { dir := hprepared.writeMetadata h.dir hpending, gone := fun s hs hnone => ?_
        tarVersion := fun f hf => Nat.lt_succ_of_lt (h.tarVersion f hf), metadataVersion := ?_
        current := fun _ _ _ _ _ => hsettled.tarRecorded, publishing := ?_ }
    · exact (hprepared.names _).mpr (Or.inl (h.gone s hs hnone))
    · intro f hf
      cases hf
      exact Nat.lt_succ_self _
    · intro p hp
      cases hp
      refine ⟨hsettled, fun p hp => ?_⟩
      exact h.dir.pendingHanded p (hpending ▸ hp)
  | receipting all members =>
    obtain ⟨hsettled, hall⟩ := hp
    cases hok : receiptFor members w.dir with
    | ok receipt =>
      have hnext : (Publishing.receipting all members).next sha256 w.dir =
          (w.dir.writeReceipt receipt, some (.removing all)) := by
        simp only [Publishing.next, hok]
      rw [hnext]
      refine { h with dir := h.dir.writeReceipt receipt, publishing := fun p hp => ?_ }
      cases hp
      exact ⟨{ hsettled with }, hall⟩
    | error e =>
      have hnext : (Publishing.receipting all members).next sha256 w.dir = (w.dir, none) := by
        simp only [Publishing.next, hok]
      rw [hnext]
      exact { h with publishing := fun p hp => by cases hp }
  | removing all =>
    obtain ⟨hsettled, hall⟩ := hp
    cases all with
    | nil =>
      exact { h with
        dir := h.dir.unlinkPending hsettled, publishing := fun p hp => by cases hp }
    | cons segment rest =>
      obtain ⟨s, hs, rfl⟩ := hall segment List.mem_cons_self
      have hrecorded := hsettled.handedRecorded s hs
      obtain ⟨m, hm, hname⟩ := List.mem_map.mp hrecorded
      have hin : s.segment.logName ∈ tarNames (contents w.dir.tar) :=
        hname ▸ h.dir.metadataInTar m hm
      refine { h with
        dir := h.dir.unlinkRaw (h.dir.handedSealed s hs) hin, gone := fun t ht hnone => ?_
        publishing := fun p hp => ?_ }
      · by_cases hpath : t.segment.logPath = s.segment.logPath
        · rw [h.dir.logPaths t ht s (h.dir.handedSealed s hs) hpath]
          exact hrecorded
        · have hsame : (w.dir.unlinkRaw s.segment.logPath).raw t.segment.logPath =
              w.dir.raw t.segment.logPath := if_neg hpath
          exact h.gone t ht (hsame ▸ hnone)
      · cases hp
        exact ⟨{ hsettled with }, fun p hp => hall p (List.mem_cons_of_mem _ hp)⟩

theorem workStep_inv {w w' : HourWork sha256} (hst : WorkStep w w') (h : WorkInv w) :
    WorkInv w' := by
  cases hst with
  | sealed fresh => exact h.seal fresh
  | called idle known read merged => exact h.call known read merged
  | wrote busy => exact h.next busy
  | died => exact { h with publishing := fun p hp => by cases hp }

theorem ReachableWork.inv {w : HourWork sha256} (hr : ReachableWork w) : WorkInv w :=
  Reachable.invariant (I := WorkInv) (fun _ he => by rw [he]; exact workInv_idle)
    (fun _ _ => workStep_inv) hr

/-! ## What may change between two looks -/

/-- A directory and what it has become: the tar and the metadata are the same files or newer
ones, which have at least the old names. -/
structure Later (d d' : Dir δ) : Prop where
  clock : d.clock ≤ d'.clock
  tar : d'.tar = d.tar ∨ ∃ f, d'.tar = some f ∧ d.clock ≤ f.signature
  metadata : d'.metadata = d.metadata ∨ ∃ f, d'.metadata = some f ∧ d.clock ≤ f.signature
  tarKept : ∀ name ∈ tarNames (contents d.tar), name ∈ tarNames (contents d'.tar)
  metadataKept : ∀ name ∈ (contents d.metadata).map (·.logName),
    name ∈ (contents d'.metadata).map (·.logName)

omit [DecidableEq δ] in
/-- Tar and metadata are left alone. -/
theorem Later.of_eq {d d' : Dir δ} (hclock : d.clock ≤ d'.clock) (htar : d'.tar = d.tar)
    (hmetadata : d'.metadata = d.metadata) : Later d d' where
  clock := hclock
  tar := Or.inl htar
  metadata := Or.inl hmetadata
  tarKept := fun _ hname => htar ▸ hname
  metadataKept := fun _ hname => hmetadata ▸ hname

omit [DecidableEq δ] in
theorem Later.refl (d : Dir δ) : Later d d := .of_eq (Nat.le_refl _) rfl rfl

omit [DecidableEq δ] in
/-- A file that is the same or newer, twice. -/
theorem newer_trans {α : Type} {x y z : Option (File α)} {m n : Nat} (hmn : m ≤ n)
    (hxy : y = x ∨ ∃ f, y = some f ∧ m ≤ f.signature)
    (hyz : z = y ∨ ∃ f, z = some f ∧ n ≤ f.signature) :
    z = x ∨ ∃ f, z = some f ∧ m ≤ f.signature := by
  obtain rfl | ⟨f, hf, hle⟩ := hyz
  · exact hxy
  · exact Or.inr ⟨f, hf, Nat.le_trans hmn hle⟩

omit [DecidableEq δ] in
theorem Later.trans {d d' d'' : Dir δ} (h : Later d d') (h' : Later d' d'') : Later d d'' where
  clock := Nat.le_trans h.clock h'.clock
  tar := newer_trans h.clock h.tar h'.tar
  metadata := newer_trans h.clock h.metadata h'.metadata
  tarKept := fun name hname => h'.tarKept name (h.tarKept name hname)
  metadataKept := fun name hname => h'.metadataKept name (h.metadataKept name hname)

omit [DecidableEq δ] in
/-- A file of the same version is the same file. -/
theorem file_eq_of_version {α : Type} {x y : Option (File α)} {f g : File α} {m : Nat}
    (h : y = x ∨ ∃ f, y = some f ∧ m ≤ f.signature) (hf : x = some f) (hg : y = some g)
    (hold : f.signature < m) (heq : f.signature = g.signature) : f = g := by
  obtain rfl | ⟨g', hg', hle⟩ := h
  · exact Option.some.inj (hf.symm.trans hg)
  · have hgg : g' = g := Option.some.inj (hg'.symm.trans hg)
    rw [hgg] at hle
    omega

theorem workStep_later {w w' : HourWork sha256} (hst : WorkStep w w') (h : WorkInv w) :
    Later w.dir w'.dir := by
  cases hst with
  | sealed fresh => exact .of_eq (Nat.le_succ _) rfl rfl
  | called idle known read merged => exact .of_eq (Nat.le_succ _) rfl rfl
  | died => exact .refl _
  | @wrote p busy =>
    have hp := h.publishing p busy
    cases p with
    | checking all =>
      have hsame : ((Publishing.checking all).next sha256 w.dir).1 = w.dir := by
        cases hok : prepare sha256 all w.dir <;> simp only [Publishing.next, hok]
      exact .of_eq (Nat.le_of_eq (by rw [hsame])) (by rw [hsame]) (by rw [hsame])
    | replacing all bundle members =>
      exact
        { clock := Nat.le_succ _, tar := Or.inr ⟨_, rfl, Nat.le_refl _⟩, metadata := Or.inl rfl
          tarKept := hp.2.kept, metadataKept := fun _ hname => hname }
    | recording all members =>
      exact
        { clock := Nat.le_succ _, tar := Or.inl rfl, metadata := Or.inr ⟨_, rfl, Nat.le_refl _⟩
          tarKept := fun _ hname => hname
          metadataKept := fun name hname => (hp.2.names name).mpr (Or.inl hname) }
    | receipting all members =>
      cases hok : receiptFor members w.dir with
      | ok receipt =>
        simp only [Publishing.next, hok]
        exact .of_eq (Nat.le_refl _) rfl rfl
      | error e =>
        simp only [Publishing.next, hok]
        exact .refl _
    | removing all =>
      cases all with
      | nil => exact .of_eq (Nat.le_refl _) rfl rfl
      | cons segment rest => exact .of_eq (Nat.le_refl _) rfl rfl

theorem workStep_sealed {w w' : HourWork sha256} (hst : WorkStep w w') {s : Sealed sha256}
    (hs : s ∈ w.sealed) : s ∈ w'.sealed := by
  cases hst with
  | sealed fresh => exact List.mem_append_left _ hs
  | called idle known read merged => exact hs
  | wrote busy => exact hs
  | died => exact hs

/-- **What a run of an hour at work keeps and how it may change the directory.** -/
theorem work_run {w w' : HourWork sha256} (hrun : ReflTransGen WorkStep w w') (h : WorkInv w) :
    WorkInv w' ∧ Later w.dir w'.dir ∧ ∀ s ∈ w.sealed, s ∈ w'.sealed := by
  induction hrun with
  | refl => exact ⟨h, .refl _, fun _ hs => hs⟩
  | tail _ hst ih =>
    obtain ⟨hinv, hlater, hsealed⟩ := ih
    exact ⟨workStep_inv hst hinv, hlater.trans (workStep_later hst hinv),
      fun s hs => workStep_sealed hst (hsealed s hs)⟩

end Work

end CameraLogs.Logs

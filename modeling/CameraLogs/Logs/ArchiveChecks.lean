import CameraLogs.Logs.Archive

/-!
# When a publication passes its checks

The checks of a publication are spread over four folds: merging the pending
manifest, copying the old tar, bringing in the segments, verifying the result.
Each gets one lemma here that says exactly when it returns and what it returns,
in terms of the directory and the arguments alone: `enlist_eq_ok`,
`rebuildBundle_eq_ok`, `verifyBundle_eq_ok`, `indexSignatures_isOk`. `Publishable`
collects the conditions, and later files never look into a fold again.
-/

namespace CameraLogs.Logs

open Lib

variable {δ : Type}

/-- Two records describe the same bytes: digest and size agree. -/
def Member.SameContent (m n : Member δ) : Prop := m.sha256 = n.sha256 ∧ m.rawSize = n.rawSize

theorem Member.SameContent.symm {m n : Member δ} (h : m.SameContent n) : n.SameContent m :=
  ⟨h.1.symm, h.2.symm⟩

theorem Member.SameContent.trans {m n o : Member δ} (h : m.SameContent n)
    (h' : n.SameContent o) : m.SameContent o :=
  ⟨h.1.trans h'.1, h.2.trans h'.2⟩

/-- The bytes are the ones a record describes. -/
def Member.Describes (sha256 : Bytes → δ) (m : Member δ) (bytes : Bytes) : Prop :=
  sha256 bytes = m.sha256 ∧ bytes.length = m.rawSize

/-- Two records that describe the same bytes agree. -/
theorem Member.Describes.sameContent {sha256 : Bytes → δ} {m n : Member δ} {bytes : Bytes}
    (hm : m.Describes sha256 bytes) (hn : n.Describes sha256 bytes) : m.SameContent n :=
  ⟨hm.1.symm.trans hn.1, hm.2.symm.trans hn.2⟩

/-- The names of the members of a tar. -/
abbrev tarNames (bundle : List TarMember) : List String := bundle.map (·.name)

/-- A regular file with the suffix of a raw log. -/
def TarMember.IsLog (m : TarMember) : Prop := m.isfile = true ∧ IsLogName m.name

/-! ## Merging the pending manifest -/

/-- The segments of a call, once their names are known not to conflict. -/
def pendingUnion (previousPending newSegments : List (Segment δ)) : List (Segment δ) :=
  Dict.upsertAll (·.logName) [] (previousPending ++ newSegments)

theorem pendingUnion_nodup (previousPending newSegments : List (Segment δ)) :
    ((pendingUnion previousPending newSegments).map (·.logName)).Nodup :=
  Dict.nodup_upsertAll List.nodup_nil

theorem pendingUnion_snoc {previousPending xs : List (Segment δ)} {s : Segment δ} :
    pendingUnion previousPending (xs ++ [s]) =
      Dict.upsert (·.logName) s (pendingUnion previousPending xs) := by
  unfold pendingUnion Dict.upsertAll
  rw [← List.append_assoc, List.foldl_append]
  rfl

theorem mem_pendingUnion {previousPending newSegments : List (Segment δ)} {s : Segment δ}
    (h : s ∈ pendingUnion previousPending newSegments) :
    s ∈ previousPending ∨ s ∈ newSegments := by
  rcases Dict.mem_upsertAll h with hs | hs
  · exact absurd hs List.not_mem_nil
  · exact List.mem_append.mp hs

/-- The union keeps every name it has seen. -/
theorem mem_map_pendingUnion {previousPending newSegments : List (Segment δ)} {name : String} :
    name ∈ (pendingUnion previousPending newSegments).map (·.logName) ↔
      name ∈ (previousPending ++ newSegments).map (·.logName) := by
  unfold pendingUnion
  rw [Dict.mem_map_upsertAll]
  simp

/-- No segment handed in disagrees with the pending manifest or with another one. -/
def PendingAgrees (previousPending newSegments : List (Segment δ)) : Prop :=
  ∀ s ∈ newSegments, ∀ e, (e ∈ pendingUnion previousPending [] ∨ e ∈ newSegments) →
    e.logName = s.logName → e.member.SameContent s.member

/-- What the union holds is the last of the pending manifest's, or a new one. -/
theorem seen_of_mem_pendingUnion {previousPending xs : List (Segment δ)} {e : Segment δ}
    (h : e ∈ pendingUnion previousPending xs) : e ∈ pendingUnion previousPending [] ∨ e ∈ xs := by
  have h' : e ∈ Dict.upsertAll (·.logName) (pendingUnion previousPending []) xs := by
    unfold pendingUnion Dict.upsertAll at h ⊢
    rw [List.append_nil]
    rwa [List.foldl_append] at h
  exact Dict.mem_upsertAll h'

section Merge

variable [DecidableEq δ]

theorem enlistSegment_eq_ok {pendingByName all : List (Segment δ)} {s : Segment δ} :
    enlistSegment pendingByName s = .ok all ↔
      (∀ e, Dict.lookup (·.logName) s.logName pendingByName = some e →
        e.member.SameContent s.member) ∧ all = Dict.upsert (·.logName) s pendingByName := by
  unfold enlistSegment
  split
  next e hl =>
    rw [hl]
    by_cases hc : (e.sha256, e.rawSize) ≠ (s.sha256, s.rawSize)
    · rw [if_pos hc]
      constructor
      · intro h
        cases h
      · rintro ⟨h, -⟩
        exact absurd (Prod.ext (h e rfl).1 (h e rfl).2) hc
    · rw [if_neg hc]
      push Not at hc
      constructor
      · intro h
        cases h
        refine ⟨?_, rfl⟩
        intro e' he'
        cases he'
        exact ⟨congrArg Prod.fst hc, congrArg Prod.snd hc⟩
      · rintro ⟨-, rfl⟩
        rfl
  next hl =>
    rw [hl]
    constructor
    · intro h
      cases h
      refine ⟨?_, rfl⟩
      intro e he
      cases he
    · rintro ⟨-, rfl⟩
      rfl

/-- A merge that returns has compared everything it has seen with what the union
holds under the same name. -/
theorem pendingAgrees_of_enlist {previousPending newSegments all : List (Segment δ)}
    (h : enlist previousPending newSegments = .ok all) :
    PendingAgrees previousPending newSegments ∧
      all = pendingUnion previousPending newSegments := by
  have hstart : Dict.upsertAll (·.logName) [] previousPending =
      pendingUnion previousPending [] := by
    unfold pendingUnion
    rw [List.append_nil]
  unfold enlist at h
  rw [hstart] at h
  have hinv : all = pendingUnion previousPending newSegments ∧
      ∀ x, (x ∈ pendingUnion previousPending [] ∨ x ∈ newSegments) → ∀ e ∈ all,
        x.logName = e.logName → x.member.SameContent e.member := by
    refine foldlM_inv
      (I := fun done acc => acc = pendingUnion previousPending done ∧
        ∀ x, (x ∈ pendingUnion previousPending [] ∨ x ∈ done) → ∀ e ∈ acc,
          x.logName = e.logName → x.member.SameContent e.member)
      h ⟨rfl, ?_⟩ ?_
    · rintro x (hx | hx) e he hname
      · rw [List.inj_on_of_nodup_map (pendingUnion_nodup previousPending []) hx he hname]
        exact ⟨rfl, rfl⟩
      · exact absurd hx List.not_mem_nil
    · rintro done s rest acc acc' - hturn ⟨rfl, hseen⟩
      obtain ⟨hfound, rfl⟩ := enlistSegment_eq_ok.mp hturn
      have hheld : ∀ e ∈ pendingUnion previousPending done, e.logName = s.logName →
          e.member.SameContent s.member := by
        intro e he hname
        apply hfound
        rw [← hname]
        exact Dict.lookup_eq_some (pendingUnion_nodup previousPending done) he
      refine ⟨pendingUnion_snoc.symm, ?_⟩
      intro x hx e he hname
      have hx' : (x ∈ pendingUnion previousPending [] ∨ x ∈ done) ∨ x = s := by
        rcases hx with hx | hx
        · exact Or.inl (Or.inl hx)
        · rcases List.mem_append.mp hx with hx | hx
          · exact Or.inl (Or.inr hx)
          · exact Or.inr (List.mem_singleton.mp hx)
      rcases hx' with hold | rfl
      · rcases Dict.mem_upsert he with rfl | he
        · -- the union already holds something under this name
          have hin : x.logName ∈ (pendingUnion previousPending done).map (·.logName) := by
            rw [mem_map_pendingUnion, List.map_append, List.mem_append]
            rcases hold with hold | hold
            · have := mem_map_pendingUnion.mp (List.mem_map_of_mem (f := (·.logName)) hold)
              rw [List.append_nil] at this
              exact Or.inl this
            · exact Or.inr (List.mem_map_of_mem hold)
          obtain ⟨held, hmem, hheldName⟩ := List.mem_map.mp hin
          exact (hseen x hold held hmem hheldName.symm).trans
            (hheld held hmem (hheldName.trans hname))
        · exact hseen x hold e he hname
      · rcases Dict.mem_upsert he with rfl | he
        · exact ⟨rfl, rfl⟩
        · exact (hheld e he hname.symm).symm
  obtain ⟨rfl, hagree⟩ := hinv
  refine ⟨?_, rfl⟩
  intro s hs e he hname
  have hin : s.logName ∈ (pendingUnion previousPending newSegments).map (·.logName) := by
    rw [mem_map_pendingUnion]
    exact List.mem_map_of_mem (List.mem_append_right _ hs)
  obtain ⟨held, hheld, hheldName⟩ := List.mem_map.mp hin
  exact (hagree e he held hheld (hname.trans hheldName.symm)).trans
    (hagree s (Or.inr hs) held hheld hheldName.symm).symm

theorem enlist_of_pendingAgrees {previousPending newSegments : List (Segment δ)}
    (h : PendingAgrees previousPending newSegments) :
    enlist previousPending newSegments = .ok (pendingUnion previousPending newSegments) := by
  have hfold : ∃ acc, enlist previousPending newSegments = .ok acc ∧
      acc = pendingUnion previousPending newSegments := by
    refine foldlM_ok (I := fun done acc => acc = pendingUnion previousPending done) ?_ ?_
    · unfold pendingUnion
      rw [List.append_nil]
    · rintro done s rest acc hsplit rfl
      refine ⟨_, enlistSegment_eq_ok.mpr ⟨?_, rfl⟩, pendingUnion_snoc.symm⟩
      intro e he
      obtain ⟨hmem, hname⟩ := Dict.lookup_some he
      have hs : s ∈ newSegments := by simp [hsplit]
      refine h s hs e ?_ hname
      rcases seen_of_mem_pendingUnion hmem with he | he
      · exact Or.inl he
      · exact Or.inr (by simp [hsplit, he])
  obtain ⟨acc, hok, rfl⟩ := hfold
  exact hok

/-- **The pending manifest is merged exactly when nothing disagrees.** -/
theorem enlist_eq_ok {previousPending newSegments all : List (Segment δ)} :
    enlist previousPending newSegments = .ok all ↔
      PendingAgrees previousPending newSegments ∧
        all = pendingUnion previousPending newSegments := by
  constructor
  · exact pendingAgrees_of_enlist
  · rintro ⟨h, rfl⟩
    exact enlist_of_pendingAgrees h

end Merge

/-! ## Rebuilding the tar -/

section Rebuild

variable {sha256 : Bytes → δ} {dir : Dir δ}

theorem copyMember_eq_ok {bundle copied : List TarMember} {m : TarMember} :
    copyMember bundle m = .ok copied ↔ m.IsLog ∧ copied = bundle ++ [m] := by
  unfold copyMember TarMember.IsLog
  split
  next hbad =>
    constructor
    · intro h
      cases h
    · rintro ⟨⟨hfile, hlog⟩, -⟩
      exact absurd hbad (by simp [hfile, hlog])
  next hgood =>
    push Not at hgood
    constructor
    · intro h
      cases h
      exact ⟨hgood, rfl⟩
    · rintro ⟨-, rfl⟩
      rfl

/-- The old tar is copied as it is, provided all of it is raw logs. -/
theorem copyMembers_eq_ok {previous bundle : List TarMember} :
    previous.foldlM copyMember [] = .ok bundle ↔
      (∀ m ∈ previous, m.IsLog) ∧ bundle = previous := by
  constructor
  · intro h
    refine foldlM_inv (I := fun done acc => (∀ m ∈ done, m.IsLog) ∧ acc = done) h
      ⟨by simp, rfl⟩ ?_
    rintro done m rest acc acc' - hturn ⟨hlogs, rfl⟩
    obtain ⟨hm, rfl⟩ := copyMember_eq_ok.mp hturn
    refine ⟨?_, rfl⟩
    intro m' hm'
    rcases List.mem_append.mp hm' with hm' | hm'
    · exact hlogs m' hm'
    · exact List.mem_singleton.mp hm' ▸ hm
  · rintro ⟨hlogs, rfl⟩
    have hfold : ∃ acc, bundle.foldlM copyMember [] = .ok acc ∧ acc = bundle := by
      refine foldlM_ok (I := fun done acc => acc = done) rfl ?_
      rintro done m rest acc hsplit rfl
      exact ⟨_, copyMember_eq_ok.mpr ⟨hlogs m (by simp [hsplit]), rfl⟩, rfl⟩
    obtain ⟨acc, hok, rfl⟩ := hfold
    exact hok

/-- What the rebuild asks of a segment: its index matches; its raw log is there
unless the old tar has a member of the name, and matches when both are there. -/
structure SegmentReady (sha256 : Bytes → δ) (dir : Dir δ) (previous : List TarMember)
    (s : Segment δ) : Prop where
  index : ∃ bytes, dir.readIndex s.indexName = .ok bytes ∧
    sha256 bytes = s.indexSha256 ∧ bytes.length = s.indexBytes
  present : dir.raw s.logPath = none → s.logName ∈ tarNames previous
  matching : ∀ raw, dir.raw s.logPath = some raw → s.logName ∈ tarNames previous →
    s.member.Describes sha256 raw

/-- The member a segment adds to the tar, when the tar lacks its name. -/
def freshMember (dir : Dir δ) (s : Segment δ) : TarMember :=
  { name := s.logName, isfile := true, content := (dir.raw s.logPath).getD [] }

/-- The members the segments add to the old tar. -/
def freshMembers (dir : Dir δ) (previous : List TarMember) (segments : List (Segment δ)) :
    List TarMember :=
  (segments.filter fun s => s.logName ∉ tarNames previous).map (freshMember dir)

theorem freshMembers_snoc {previous : List TarMember} {done : List (Segment δ)}
    {s : Segment δ} :
    freshMembers dir previous (done ++ [s]) = freshMembers dir previous done ++
      if s.logName ∈ tarNames previous then [] else [freshMember dir s] := by
  unfold freshMembers
  rw [List.filter_append, List.map_append]
  by_cases hin : s.logName ∈ tarNames previous
  · rw [if_pos hin, List.filter_singleton, decide_eq_false (not_not_intro hin)]
    rfl
  · rw [if_neg hin, List.filter_singleton, decide_eq_true hin]
    rfl

theorem mem_freshMembers {previous : List TarMember} {segments : List (Segment δ)}
    {m : TarMember} : m ∈ freshMembers dir previous segments ↔
      ∃ s ∈ segments, s.logName ∉ tarNames previous ∧ freshMember dir s = m := by
  unfold freshMembers
  simp [and_assoc]

/-- The names a tar has after some of the segments are in. -/
theorem mem_tarNames_rebuilt {previous : List TarMember} {done : List (Segment δ)}
    {name : String} : name ∈ tarNames (previous ++ freshMembers dir previous done) ↔
      name ∈ tarNames previous ∨ ∃ s ∈ done, s.logName = name := by
  unfold tarNames
  rw [List.map_append, List.mem_append]
  constructor
  · rintro (h | h)
    · exact Or.inl h
    · obtain ⟨m, hm, rfl⟩ := List.mem_map.mp h
      obtain ⟨s, hs, -, rfl⟩ := mem_freshMembers.mp hm
      exact Or.inr ⟨s, hs, rfl⟩
  · rintro (h | ⟨s, hs, rfl⟩)
    · exact Or.inl h
    · by_cases hin : s.logName ∈ previous.map (·.name)
      · exact Or.inl hin
      · exact Or.inr (List.mem_map.mpr
          ⟨freshMember dir s, mem_freshMembers.mpr ⟨s, hs, hin, rfl⟩, rfl⟩)

variable [DecidableEq δ]

/-- One segment, on a tar whose member of its name can only be an old one. -/
theorem appendSegment_eq_ok {previous : List TarMember} {done : List (Segment δ)}
    {s : Segment δ} {bundle : List TarMember} (hnew : s.logName ∉ done.map (·.logName)) :
    appendSegment sha256 dir (previous ++ freshMembers dir previous done) s = .ok bundle ↔
      SegmentReady sha256 dir previous s ∧
        bundle = previous ++ freshMembers dir previous (done ++ [s]) := by
  have hexisting : s.logName ∈ tarNames (previous ++ freshMembers dir previous done) ↔
      s.logName ∈ tarNames previous := by
    rw [mem_tarNames_rebuilt]
    constructor
    · rintro (h | ⟨t, ht, hname⟩)
      · exact h
      · exact absurd (hname ▸ List.mem_map_of_mem ht) hnew
    · exact Or.inl
  unfold appendSegment
  rcases hi : dir.readIndex s.indexName with e | index
  · constructor
    · intro h
      cases h
    · rintro ⟨hs, -⟩
      obtain ⟨bytes, hb, -⟩ := hs.index
      rw [hi] at hb
      cases hb
  · show (if _ then _ else _) = _ ↔ _
    by_cases hd : (sha256 index, index.length) ≠ (s.indexSha256, s.indexBytes)
    · rw [if_pos hd]
      constructor
      · intro h
        cases h
      · rintro ⟨hs, -⟩
        obtain ⟨bytes, hb, hdigest, hlength⟩ := hs.index
        rw [hi] at hb
        cases hb
        exact absurd (Prod.ext hdigest hlength) hd
    · rw [if_neg hd]
      push Not at hd
      have hindex : ∃ bytes, dir.readIndex s.indexName = .ok bytes ∧
          sha256 bytes = s.indexSha256 ∧ bytes.length = s.indexBytes :=
        ⟨index, hi, congrArg Prod.fst hd, congrArg Prod.snd hd⟩
      rw [freshMembers_snoc, ← List.append_assoc]
      simp only [hexisting]
      rcases hr : dir.raw s.logPath with _ | raw
      · by_cases hin : s.logName ∈ tarNames previous
        · rw [if_pos hin, if_pos hin, List.append_nil]
          constructor
          · intro h
            cases h
            refine ⟨⟨hindex, fun _ => hin, ?_⟩, rfl⟩
            intro raw hr'
            rw [hr] at hr'
            cases hr'
          · rintro ⟨-, rfl⟩
            rfl
        · rw [if_neg hin]
          constructor
          · intro h
            cases h
          · rintro ⟨hs, -⟩
            exact absurd (hs.present hr) hin
      · dsimp only
        by_cases hin : s.logName ∈ tarNames previous
        · rw [if_pos hin, if_pos hin, List.append_nil]
          by_cases hm : sha256 raw ≠ s.sha256 ∨ raw.length ≠ s.rawSize
          · rw [if_pos hm]
            constructor
            · intro h
              cases h
            · rintro ⟨hs, -⟩
              obtain ⟨hdigest, hlength⟩ := hs.matching raw hr hin
              rcases hm with hm | hm
              · exact absurd hdigest hm
              · exact absurd hlength hm
          · rw [if_neg hm]
            push Not at hm
            constructor
            · intro h
              cases h
              refine ⟨⟨hindex, fun _ => hin, ?_⟩, rfl⟩
              intro raw' hr' _
              rw [hr] at hr'
              cases hr'
              exact hm
            · rintro ⟨-, rfl⟩
              rfl
        · rw [if_neg hin, if_neg hin]
          unfold freshMember
          rw [hr]
          constructor
          · intro h
            cases h
            refine ⟨⟨hindex, ?_, fun _ _ h => absurd h hin⟩, rfl⟩
            intro hr'
            rw [hr] at hr'
            cases hr'
          · rintro ⟨-, rfl⟩
            rfl

/-- **The rebuild returns exactly when the old tar holds raw logs only and every
segment is ready**, and then holds the old members and the missing segments. -/
theorem rebuildBundle_eq_ok {segments : List (Segment δ)} {bundle : List TarMember}
    (hnd : (segments.map (·.logName)).Nodup) :
    rebuildBundle sha256 dir segments = .ok bundle ↔
      ∃ previous, Dir.readList "tar" dir.tar = .ok previous ∧ (∀ m ∈ previous, m.IsLog) ∧
        (∀ s ∈ segments, SegmentReady sha256 dir previous s) ∧
        bundle = previous ++ freshMembers dir previous segments := by
  have hfresh : ∀ done s rest, segments = done ++ s :: rest →
      s.logName ∉ done.map (·.logName) := by
    intro done s rest hsplit hin
    rw [hsplit, List.map_append, List.nodup_append] at hnd
    exact hnd.2.2 _ hin _ (by simp) rfl
  unfold rebuildBundle
  rcases hp : Dir.readList "tar" dir.tar with e | previous
  · constructor
    · intro h
      cases h
    · rintro ⟨previous, h, -⟩
      cases h
  constructor
  · intro h
    have h' : (previous.foldlM copyMember [] >>= fun bundle =>
        segments.foldlM (appendSegment sha256 dir) bundle) = .ok bundle := h
    rcases hc : previous.foldlM copyMember [] with e | copied
    · rw [hc] at h'
      cases h'
    · rw [hc] at h'
      obtain ⟨hlogs, rfl⟩ := copyMembers_eq_ok.mp hc
      have hinv := foldlM_inv (I := fun done acc =>
          (∀ s ∈ done, SegmentReady sha256 dir copied s) ∧
            acc = copied ++ freshMembers dir copied done) h'
        ⟨by simp, by simp [freshMembers]⟩ ?_
      · exact ⟨copied, rfl, hlogs, hinv⟩
      · rintro done s rest acc acc' hsplit hturn ⟨hready, rfl⟩
        obtain ⟨hs, rfl⟩ := (appendSegment_eq_ok (hfresh done s rest hsplit)).mp hturn
        refine ⟨?_, rfl⟩
        intro t ht
        rcases List.mem_append.mp ht with ht | ht
        · exact hready t ht
        · exact List.mem_singleton.mp ht ▸ hs
  · rintro ⟨previous', hp', hlogs, hready, rfl⟩
    cases hp'
    have hfold : ∃ acc, segments.foldlM (appendSegment sha256 dir) previous = .ok acc ∧
        acc = previous ++ freshMembers dir previous segments := by
      refine foldlM_ok (I := fun done acc => acc = previous ++ freshMembers dir previous done)
        (by simp [freshMembers]) ?_
      rintro done s rest acc hsplit rfl
      exact ⟨_, (appendSegment_eq_ok (hfresh done s rest hsplit)).mpr
        ⟨hready s (by simp [hsplit]), rfl⟩, rfl⟩
    obtain ⟨acc, hok, rfl⟩ := hfold
    show (previous.foldlM copyMember [] >>= fun bundle =>
      segments.foldlM (appendSegment sha256 dir) bundle) = _
    rw [copyMembers_eq_ok.mpr ⟨hlogs, rfl⟩]
    exact hok

end Rebuild

/-! ## Verifying the rebuilt tar -/

section Verify

variable {sha256 : Bytes → δ} [DecidableEq δ]

theorem verifyMember_eq_ok {members : List (Member δ)} {checked checked' : List String}
    {info : TarMember} :
    verifyMember sha256 members checked info = .ok checked' ↔
      info.IsLog ∧ info.name ∉ checked ∧
        (∃ member, Dict.lookup (·.logName) info.name members = some member ∧
          member.Describes sha256 info.content) ∧
        checked' = checked ++ [info.name] := by
  unfold verifyMember
  split
  next hl =>
    rw [hl]
    constructor
    · intro h
      cases h
    · rintro ⟨-, -, ⟨member, hm, -⟩, -⟩
      cases hm
  next member hl =>
    rw [hl]
    by_cases hc : ¬ info.isfile ∨ info.name ∈ checked ∨ ¬ IsLogName info.name
    · rw [if_pos hc]
      constructor
      · intro h
        cases h
      · rintro ⟨⟨hfile, hlog⟩, hnew, -⟩
        exact absurd hc (by simp [hfile, hlog, hnew])
    · rw [if_neg hc]
      push Not at hc
      by_cases hd : (sha256 info.content, info.content.length) ≠ (member.sha256, member.rawSize)
      · rw [if_pos hd]
        constructor
        · intro h
          cases h
        · rintro ⟨-, -, ⟨member', hm, hdesc⟩, -⟩
          cases hm
          exact absurd (Prod.ext hdesc.1 hdesc.2) hd
      · rw [if_neg hd]
        push Not at hd
        constructor
        · intro h
          cases h
          exact ⟨⟨hc.1, hc.2.2⟩, hc.2.1,
            ⟨member, rfl, congrArg Prod.fst hd, congrArg Prod.snd hd⟩, rfl⟩
        · rintro ⟨-, -, -, rfl⟩
          rfl

/-- A tar and a list of records that name the same members, each once, each member
matching its record. -/
structure Matches (sha256 : Bytes → δ) (members : List (Member δ)) (bundle : List TarMember) :
    Prop where
  recordsNodup : (members.map (·.logName)).Nodup
  membersNodup : (tarNames bundle).Nodup
  isLog : ∀ info ∈ bundle, info.IsLog
  recorded : ∀ info ∈ bundle, ∃ member ∈ members, member.logName = info.name ∧
    member.Describes sha256 info.content
  complete : ∀ member ∈ members, member.logName ∈ tarNames bundle

/-- A fold of `verifyMember` that returns has met each member once. -/
theorem verifyMembers_of_ok {members : List (Member δ)} {bundle : List TarMember}
    {checked : List String} (h : bundle.foldlM (verifyMember sha256 members) [] = .ok checked) :
    checked = tarNames bundle ∧ (tarNames bundle).Nodup ∧ ∀ info ∈ bundle, info.IsLog ∧
      ∃ member ∈ members, member.logName = info.name ∧ member.Describes sha256 info.content := by
  refine foldlM_inv (I := fun done acc => acc = tarNames done ∧ (tarNames done).Nodup ∧
    ∀ info ∈ done, info.IsLog ∧ ∃ member ∈ members, member.logName = info.name ∧
      member.Describes sha256 info.content) h ⟨rfl, List.nodup_nil, by simp⟩ ?_
  rintro done info rest acc acc' - hturn ⟨rfl, hnd, hdone⟩
  obtain ⟨hlog, hnew, ⟨member, hl, hdesc⟩, rfl⟩ := verifyMember_eq_ok.mp hturn
  obtain ⟨hmem, hname⟩ := Dict.lookup_some hl
  refine ⟨by simp [tarNames], ?_, ?_⟩
  · unfold tarNames at hnd hnew ⊢
    rw [List.map_append, List.nodup_append]
    refine ⟨hnd, by simp, ?_⟩
    intro a ha b hb hab
    have hb' : b = info.name := by simpa using hb
    exact hnew (hb' ▸ hab ▸ ha)
  · intro info' hinfo
    rcases List.mem_append.mp hinfo with hin | hin
    · exact hdone info' hin
    · rw [List.mem_singleton.mp hin]
      exact ⟨hlog, member, hmem, hname, hdesc⟩

theorem verifyMembers_ok {members : List (Member δ)} {bundle : List TarMember}
    (h : Matches sha256 members bundle) :
    bundle.foldlM (verifyMember sha256 members) [] = .ok (tarNames bundle) := by
  have hfold : ∃ acc, bundle.foldlM (verifyMember sha256 members) [] = .ok acc ∧
      acc = tarNames bundle := by
    refine foldlM_ok (I := fun done acc => acc = tarNames done) rfl ?_
    rintro done info rest acc hsplit rfl
    have hin : info ∈ bundle := by simp [hsplit]
    obtain ⟨member, hmem, hname, hdesc⟩ := h.recorded info hin
    refine ⟨_, verifyMember_eq_ok.mpr ⟨h.isLog info hin, ?_, ⟨member, ?_, hdesc⟩, rfl⟩, ?_⟩
    · have hnd := h.membersNodup
      rw [hsplit] at hnd
      unfold tarNames at hnd ⊢
      rw [List.map_append, List.nodup_append] at hnd
      intro hbad
      exact hnd.2.2 _ hbad _ (by simp) rfl
    · rw [← hname]
      exact Dict.lookup_eq_some h.recordsNodup hmem
    · simp [tarNames]
  obtain ⟨acc, hok, rfl⟩ := hfold
  exact hok

/-- **The verification passes exactly when records and tar match.** -/
theorem verifyBundle_eq_ok {members : List (Member δ)} {bundle : List TarMember} :
    verifyBundle sha256 members bundle = .ok () ↔ Matches sha256 members bundle := by
  unfold verifyBundle
  by_cases hnd : ¬ (members.map (·.logName)).Nodup
  · rw [if_pos hnd]
    constructor
    · intro h
      cases h
    · intro h
      exact absurd h.recordsNodup hnd
  rw [if_neg hnd]
  rw [not_not] at hnd
  constructor
  · intro h
    rcases hf : bundle.foldlM (verifyMember sha256 members) [] with e | checked
    · rw [hf] at h
      cases h
    · rw [hf] at h
      have h' : (if ∀ member ∈ members, member.logName ∈ checked then
          (.ok () : Except PublishError Unit)
        else .error (.osError "小时归档成员缺失")) = .ok () := h
      obtain ⟨rfl, hnames, hall⟩ := verifyMembers_of_ok hf
      by_cases hcomplete : ∀ member ∈ members, member.logName ∈ tarNames bundle
      · exact ⟨hnd, hnames, fun info hi => (hall info hi).1, fun info hi => (hall info hi).2,
          hcomplete⟩
      · rw [if_neg hcomplete] at h'
        cases h'
  · intro h
    rw [verifyMembers_ok h]
    exact if_pos h.complete

end Verify

/-- The receipt can be written when every member's index is there. -/
theorem indexSignatures_isOk {dir : Dir δ} {members : List (Member δ)} :
    (∃ indexes, indexSignatures dir members = .ok indexes) ↔
      ∀ member ∈ members, dir.index member.indexName ≠ none := by
  constructor
  · rintro ⟨indexes, h⟩
    refine foldlM_inv (I := fun done _ => ∀ member ∈ done, dir.index member.indexName ≠ none) h
      (by simp) ?_
    rintro done member rest acc acc' - hturn hdone m hm
    rcases List.mem_append.mp hm with hm | hm
    · exact hdone m hm
    · rw [List.mem_singleton.mp hm]
      intro hnone
      rw [hnone] at hturn
      cases hturn
  · intro h
    have hfold : ∃ acc, indexSignatures dir members = .ok acc ∧ True := by
      refine foldlM_ok (I := fun _ _ => True) trivial ?_
      rintro done member rest acc hsplit -
      rcases hi : dir.index member.indexName with _ | file
      · exact absurd hi (h member (by simp [hsplit]))
      · exact ⟨_, rfl, trivial⟩
    exact ⟨_, hfold.choose_spec.1⟩

end CameraLogs.Logs

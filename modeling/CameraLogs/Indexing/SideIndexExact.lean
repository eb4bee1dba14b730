import CameraLogs.Indexing.SideIndex
import CameraLogs.Logs.SearchPlanSound

/-!
# What the side index answers is the truth

Every document of the revision is one of the source (`chunkDoc`), whatever run wrote it:
a run reads the source from its start, so the last bytes before a block and the digest
do not depend on where sending goes on (`PassOk`). A count that is right therefore finds
all of them, and in the text of a block every word of at most `overlap + 1` bytes that
ends in it is there. A manifest comes from a run whose count was right; as documents may
go after it, `evidence` counts again.
-/

namespace CameraLogs.Indexing

open Lib Logs
open Relation (ReflTransGen)

/-! ## The documents of a source -/

/-- A block of the source. -/
def blockAt (content : Bytes) (k : Nat) : Bytes := (content.drop (k * chunkBytes)).take chunkBytes

/-- The document of a block. -/
def chunkDoc (content : Bytes) (k : Nat) : ChunkDoc :=
  { offset := k * chunkBytes, length := (blockAt content k).length
    text := chunkText ((content.take (k * chunkBytes)).rtake overlap) (blockAt content k) }

/-- A document of the source. -/
def IsChunk (content : Bytes) (doc : ChunkDoc) : Prop :=
  ∃ k, k * chunkBytes < content.length ∧ doc = chunkDoc content k

/-- All documents of the source are there. -/
def Complete (content : Bytes) (docs : List ChunkDoc) : Prop :=
  ∀ k, k * chunkBytes < content.length → chunkDoc content k ∈ docs

/-- The manifest of a source with this many blocks. -/
def manifestOf (content : Bytes) (chunks : Nat) : Manifest :=
  { bytes := content.length, chunks, head := content.take overlap, tail := content.rtake overlap
    hasNewline := decide (newline ∈ content) }

/-- The source has this many blocks. -/
def Counts (content : Bytes) (chunks : Nat) : Prop :=
  ∀ k, k * chunkBytes < content.length ↔ k < chunks

variable {content : Bytes}

theorem chunkBytes_pos : 0 < chunkBytes := by decide

theorem IsChunk.eq_of_offset {first second : ChunkDoc} (hfirst : IsChunk content first)
    (hsecond : IsChunk content second) (h : first.offset = second.offset) : first = second := by
  obtain ⟨i, _, rfl⟩ := hfirst
  obtain ⟨j, _, rfl⟩ := hsecond
  have hij : i = j := Nat.eq_of_mul_eq_mul_right chunkBytes_pos h
  rw [hij]

/-- As many documents as the source has blocks are all of them. -/
theorem complete_of_length {docs : List ChunkDoc} {chunks : Nat}
    (hnodup : (docs.map (·.offset)).Nodup) (hdocs : ∀ doc ∈ docs, IsChunk content doc)
    (hcounts : Counts content chunks) (hlen : docs.length = chunks) : Complete content docs := by
  have hsub : docs.map (·.offset) ⊆ (List.range chunks).map (· * chunkBytes) := by
    intro offset hmem
    obtain ⟨doc, hdoc, heq⟩ := List.mem_map.mp hmem
    obtain ⟨k, hk, hchunk⟩ := hdocs doc hdoc
    refine List.mem_map.mpr ⟨k, List.mem_range.mpr ((hcounts k).mp hk), ?_⟩
    rw [← heq, hchunk]
    rfl
  have hperm : List.Perm (docs.map (·.offset)) ((List.range chunks).map (· * chunkBytes)) := by
    refine (hnodup.subperm hsub).perm_of_length_le ?_
    rw [List.length_map, List.length_map, List.length_range]
    omega
  intro k hk
  have hmem : k * chunkBytes ∈ docs.map (·.offset) :=
    hperm.mem_iff.mpr (List.mem_map.mpr ⟨k, List.mem_range.mpr ((hcounts k).mp hk), rfl⟩)
  obtain ⟨doc, hdoc, heq⟩ := List.mem_map.mp hmem
  have hsame := (hdocs doc hdoc).eq_of_offset ⟨k, hk, rfl⟩ heq
  rw [← hsame]
  exact hdoc

theorem chunkDoc_offset (content : Bytes) (k : Nat) :
    (chunkDoc content k).offset = k * chunkBytes := rfl

theorem chunkDoc_length (content : Bytes) (k : Nat) :
    (chunkDoc content k).length = (blockAt content k).length := rfl

theorem chunkDoc_text (content : Bytes) (k : Nat) : (chunkDoc content k).text =
    chunkText ((content.take (k * chunkBytes)).rtake overlap) (blockAt content k) := by
  simp only [chunkDoc]

theorem chunkText_inside {before block : Bytes} {chars : List Char}
    (h : encode chars <:+: before ++ block) : chars <:+: chunkText before block := by
  unfold chunkText
  exact decodeReplace_inside (Nat.le_refl _) h

/-- The block of a byte. -/
theorem exists_block (last : Nat) :
    ∃ k, k * chunkBytes ≤ last ∧ last < k * chunkBytes + chunkBytes :=
  ⟨last / chunkBytes, Nat.div_mul_le_self _ _, Nat.lt_div_mul_add chunkBytes_pos⟩

/-- Where a word lies whose last byte is in a block. -/
theorem within_block {start block size p n before : Nat} (hn : 0 < n) (hstart : start ≤ p + n - 1)
    (hblock : p + n - 1 < start + block) (hend : p + n ≤ size) (hlen : n ≤ before + 1) :
    start < size ∧ start ≤ p + before ∧ p + n ≤ start + min block (size - start) ∧
      p + n ≤ min (start + block) size ∧
      min start size - before + (p - (min start size - before)) = p := by
  omega

/-- The text of a block has every word that ends in the block and is short enough not to
begin before what the text begins with. -/
theorem exists_chunk {word : List Char} {p : Nat} (hne : word ≠ [])
    (hlen : (encode word).length ≤ overlap + 1) (h : OccursAt (encode word) content p) :
    ∃ k, k * chunkBytes < content.length ∧ (chunkDoc content k).offset ≤ p + overlap ∧
      p + (encode word).length ≤ (chunkDoc content k).offset + (chunkDoc content k).length ∧
      word <:+: (chunkDoc content k).text := by
  have hpos := length_encode_pos hne
  have hend := h.le_length (List.length_pos_iff.mp hpos)
  -- the block of the last byte
  obtain ⟨k, hk, hk'⟩ := exists_block (p + (encode word).length - 1)
  have hblock : (blockAt content k).length = min chunkBytes (content.length - k * chunkBytes) := by
    unfold blockAt
    rw [List.length_take, List.length_drop]
  obtain ⟨hsize, hstart, hlast, hwithin, hdrop⟩ := within_block hpos hk hk' hend hlen
  refine ⟨k, hsize, ?_, ?_, ?_⟩
  · rw [chunkDoc_offset]
    exact hstart
  · rw [chunkDoc_offset, chunkDoc_length, hblock]
    exact hlast
  · rw [chunkDoc_text]
    refine chunkText_inside ?_
    -- the window is the part of the source from `overlap` before the block on
    have hwindow : (content.take (k * chunkBytes)).rtake overlap ++ blockAt content k
        = (content.take (k * chunkBytes + chunkBytes)).drop (min (k * chunkBytes) content.length - overlap) := by
      rw [rtake_append, List.length_take]
      unfold blockAt
      rw [← List.take_add]
    rw [hwindow]
    have htake : OccursAt (encode word) (content.take (k * chunkBytes + chunkBytes)) p := by
      have hlen' : p + (encode word).length ≤ (content.take (k * chunkBytes + chunkBytes)).length := by
        rw [List.length_take]
        exact hwithin
      rw [← List.take_append_drop (k * chunkBytes + chunkBytes) content] at h
      exact (occursAt_append_left hlen').mp h
    rw [← hdrop] at htake
    exact (occursAt_drop.mpr htake).isInfix.trans (List.drop_suffix _ _).isInfix

/-! ## A run -/

/-- What a run knows is what the source has up to where it is. -/
structure PassOk (content : Bytes) (pass : Pass) : Prop where
  offset : pass.offset = min (pass.chunks * chunkBytes) content.length
  started : ∀ k, k < pass.chunks → k * chunkBytes < content.length
  digest : pass.digest = content.take pass.offset
  head : pass.head = (content.take pass.offset).take overlap
  tail : pass.tail = (content.take pass.offset).rtake overlap
  newline : pass.newline = decide (newline ∈ content.take pass.offset)
  batch : ∀ doc ∈ pass.batch, IsChunk content doc

theorem passOk_initial (content : Bytes) (state : Position) : PassOk content (Pass.initial state) where
  offset := by
    show 0 = min (0 * chunkBytes) content.length
    omega
  started := fun k hk => absurd hk (Nat.not_lt_zero k)
  digest := rfl
  head := rfl
  tail := rfl
  newline := rfl
  batch := fun _ hdoc => absurd hdoc List.not_mem_nil

/-- A run that is not at the end stands before a block. -/
theorem PassOk.offset_eq {pass : Pass} (h : PassOk content pass) (hlt : pass.offset < content.length) :
    pass.offset = pass.chunks * chunkBytes := by
  have hoff := h.offset
  omega

theorem PassOk.take {pass : Pass} (h : PassOk content pass) (hlt : pass.offset < content.length) :
    PassOk content (pass.take ((content.drop pass.offset).take chunkBytes)) := by
  have hoff := h.offset_eq hlt
  have hlen : ((content.drop pass.offset).take chunkBytes).length
      = min chunkBytes (content.length - pass.offset) := by
    rw [List.length_take, List.length_drop]
  have htake : content.take (pass.offset + ((content.drop pass.offset).take chunkBytes).length)
      = content.take pass.offset ++ (content.drop pass.offset).take chunkBytes := by
    rw [List.take_add, hlen]
    congr 1
    rcases Nat.le_total chunkBytes (content.length - pass.offset) with hle | hle
    · rw [Nat.min_eq_left hle]
    · rw [Nat.min_eq_right hle, List.take_of_length_le (Nat.le_of_eq List.length_drop),
        List.take_of_length_le (by rw [List.length_drop]; exact hle)]
  constructor
  · show pass.offset + _ = min ((pass.chunks + 1) * chunkBytes) _
    rw [hlen, Nat.add_mul]
    omega
  · intro k hk
    rcases Nat.lt_or_ge k pass.chunks with hold | hnew
    · exact h.started k hold
    · have hkc : k = pass.chunks := by
        have hk' : k < pass.chunks + 1 := hk
        omega
      rw [hkc, ← hoff]
      exact hlt
  · show pass.digest ++ _ = content.take (pass.offset + _)
    rw [htake, h.digest]
  · show (if pass.offset = 0 then _ else _) = (content.take (pass.offset + _)).take overlap
    rw [htake]
    by_cases hzero : pass.offset = 0
    · rw [if_pos hzero, hzero, List.take_zero, List.nil_append]
    · have hlong : overlap ≤ (content.take pass.offset).length := by
        rw [List.length_take]
        have hpos : pass.chunks ≠ 0 := by
          intro hnone
          rw [hoff, hnone, Nat.zero_mul] at hzero
          exact hzero rfl
        have hge : chunkBytes ≤ pass.chunks * chunkBytes :=
          Nat.le_mul_of_pos_left chunkBytes (Nat.pos_of_ne_zero hpos)
        have hover : overlap ≤ chunkBytes := by decide
        omega
      rw [if_neg hzero, h.head, List.take_append_of_le_length hlong]
  · show (pass.tail ++ _).rtake overlap = (content.take (pass.offset + _)).rtake overlap
    rw [htake, h.tail]
    exact rtake_rtake_append overlap _ _
  · show (pass.newline || _) = decide (_ ∈ content.take (pass.offset + _))
    rw [htake, h.newline, ← Bool.decide_or]
    exact decide_eq_decide.mpr List.mem_append.symm
  · intro doc hdoc
    have hdoc' : doc ∈ if pass.state.offset ≤ pass.offset then pass.batch ++ [_] else pass.batch := hdoc
    split at hdoc'
    next =>
      rcases List.mem_append.mp hdoc' with hold | hnew
      · exact h.batch doc hold
      · refine ⟨pass.chunks, hoff ▸ hlt, ?_⟩
        rw [List.mem_singleton.mp hnew]
        unfold chunkDoc blockAt
        rw [h.tail, ← hoff]
    next => exact h.batch doc hdoc'

/-- At the end a run has seen the whole source. -/
theorem PassOk.proof_eq {pass : Pass} (h : PassOk content pass) (hend : pass.offset = content.length) :
    pass.proof = manifestOf content pass.chunks ∧ pass.digest = content ∧
      Counts content pass.chunks := by
  have hall : content.take pass.offset = content := by
    rw [hend, List.take_length]
  refine ⟨?_, ?_, ?_⟩
  · unfold Pass.proof manifestOf
    rw [h.head, h.tail, h.newline, hall, hend]
  · rw [h.digest, hall]
  · intro k
    refine ⟨fun hk => ?_, h.started k⟩
    have hoff := h.offset
    by_contra hge
    have hmul : pass.chunks * chunkBytes ≤ k * chunkBytes :=
      Nat.mul_le_mul_right chunkBytes (Nat.not_lt.mp hge)
    omega

/-! ## Every history -/

/-- The run, where there is one. -/
def Phase.pass : Phase → Option Pass
  | .idle => none
  | .reading pass | .sending pass _ | .saving pass _ | .checking pass | .proving pass
  | .closing pass => some pass

/-- The run has read the source to its end. -/
def Phase.whole : Phase → Bool
  | .idle | .reading _ => false
  | .sending _ last | .saving _ last => last
  | .checking _ | .proving _ | .closing _ => true

/-- The run has checked the digest and the count. -/
def Phase.verified : Phase → Bool
  | .proving _ | .closing _ => true
  | _ => false

section system

variable {sha256 : Bytes → String} {batchChunks : Nat} {source : Source}

/-- The source is what the catalog says. -/
def Matches (sha256 : Bytes → String) (source : Source) : Prop :=
  source.bytes = source.content.length ∧ source.sha256 = some (sha256 source.content)

/-- A manifest that tells the truth. -/
def Truthful (sha256 : Bytes → String) (source : Source) (proof : Manifest) : Prop :=
  ∃ chunks, proof = manifestOf source.content chunks ∧ Counts source.content chunks ∧
    Matches sha256 source

structure PhaseOk (sha256 : Bytes → String) (source : Source) (phase : Phase) : Prop where
  pass : ∀ pass, phase.pass = some pass → PassOk source.content pass
  whole : ∀ pass, phase.pass = some pass → phase.whole = true → pass.offset = source.content.length
  verified : phase.verified = true → Matches sha256 source

/-- What holds between any two acts. -/
structure WorldOk (sha256 : Bytes → String) (source : Source) (world : World) : Prop where
  nodup : (world.docs.map (·.offset)).Nodup
  docs : ∀ doc ∈ world.docs, IsChunk source.content doc
  lateDocs : ∀ doc ∈ world.lateDocs, IsChunk source.content doc
  manifest : ∀ proof, world.manifest = some proof → Truthful sha256 source proof
  lateProofs : ∀ proof ∈ world.lateProofs, Truthful sha256 source proof
  phase : PhaseOk sha256 source world.phase

theorem phaseOk_idle : PhaseOk sha256 source .idle where
  pass := fun _ h => by cases h
  whole := fun _ h => by cases h
  verified := fun h => by cases h

theorem worldOk_initial : WorldOk sha256 source World.initial where
  nodup := List.nodup_nil
  docs := fun _ h => absurd h List.not_mem_nil
  lateDocs := fun _ h => absurd h List.not_mem_nil
  manifest := fun _ h => by cases h
  lateProofs := fun _ h => absurd h List.not_mem_nil
  phase := phaseOk_idle

/-- A phase in which the digest is not yet checked. -/
theorem phaseOk_of {phase : Phase} {pass : Pass} (hphase : phase.pass = some pass)
    (hpass : PassOk source.content pass)
    (hwhole : phase.whole = true → pass.offset = source.content.length)
    (hverified : phase.verified = false) : PhaseOk sha256 source phase where
  pass := fun other hother => by
    rw [hphase] at hother
    cases hother
    exact hpass
  whole := fun other hother h => by
    rw [hphase] at hother
    cases hother
    exact hwhole h
  verified := fun h => by
    rw [hverified] at h
    cases h

theorem readBlock_ok {pass : Pass} (h : PassOk source.content pass) :
    PhaseOk sha256 source (readBlock batchChunks source pass) := by
  unfold readBlock
  by_cases hdata : (source.content.drop pass.offset).take chunkBytes = []
  · have hend : pass.offset = source.content.length := by
      have hoff := h.offset
      rcases List.take_eq_nil_iff.mp hdata with hzero | hnil
      · exact absurd hzero (by decide)
      · have hle := List.drop_eq_nil_iff.mp hnil
        omega
    simp only [if_pos hdata]
    split
    next => exact phaseOk_of rfl h (fun _ => hend) rfl
    next => exact phaseOk_of rfl h (fun _ => hend) rfl
  · have hlt : pass.offset < source.content.length := by
      by_contra hge
      exact hdata (by rw [List.drop_eq_nil_of_le (Nat.not_lt.mp hge), List.take_nil])
    simp only [if_neg hdata]
    split
    next => exact phaseOk_of rfl (h.take hlt) (fun hbad => Bool.noConfusion hbad) rfl
    next => exact phaseOk_of rfl (h.take hlt) (fun hbad => Bool.noConfusion hbad) rfl

/-- Documents that are written keep what holds of documents. -/
theorem WorldOk.write {world : World} (h : WorldOk sha256 source world) {written late : List ChunkDoc}
    (hwritten : ∀ doc ∈ written, IsChunk source.content doc)
    (hlate : ∀ doc ∈ late, IsChunk source.content doc) {phase : Phase}
    (hphase : PhaseOk sha256 source phase) :
    WorldOk sha256 source
      { world with
        docs := Dict.upsertAll (·.offset) world.docs written, lateDocs := late, phase } where
  nodup := Dict.nodup_upsertAll h.nodup
  docs := fun doc hdoc => by
    rcases Dict.mem_upsertAll hdoc with hold | hnew
    · exact h.docs doc hold
    · exact hwritten doc hnew
  lateDocs := hlate
  manifest := h.manifest
  lateProofs := h.lateProofs
  phase := hphase

theorem WorldOk.setPhase {world : World} (h : WorldOk sha256 source world) {phase : Phase}
    (hphase : PhaseOk sha256 source phase) : WorldOk sha256 source { world with phase } :=
  { h with phase := hphase }

theorem WorldOk.verify {world next : World} (h : WorldOk sha256 source world)
    (hact : act sha256 batchChunks source world .verify = some next) :
    WorldOk sha256 source next := by
  simp only [act] at hact
  split at hact
  next pass hphase =>
    have hpass := h.phase.pass pass (by rw [hphase]; rfl)
    have hend := h.phase.whole pass (by rw [hphase]; rfl) (by rw [hphase]; rfl)
    have hproof := hpass.proof_eq hend
    split at hact
    next =>
      cases hact
      exact h.setPhase phaseOk_idle
    next hchecks =>
      cases hact
      refine h.setPhase ⟨?_, ?_, fun _ => ⟨?_, ?_⟩⟩
      · intro other hother
        cases hother
        exact hpass
      · intro other hother _
        cases hother
        exact hend
      · rw [← hend]
        exact (Decidable.not_not.mp fun hne => hchecks (Or.inl hne)).symm
      · rw [← hproof.2.1]
        exact Decidable.not_not.mp fun hne => hchecks (Or.inr (Or.inl hne))
  next => cases hact

theorem WorldOk.prove {world next : World} {applied : Bool} (h : WorldOk sha256 source world)
    (hact : act sha256 batchChunks source world (.prove applied) = some next) :
    WorldOk sha256 source next := by
  simp only [act] at hact
  split at hact
  next pass hphase =>
    have hpass := h.phase.pass pass (by rw [hphase]; rfl)
    have hend := h.phase.whole pass (by rw [hphase]; rfl) (by rw [hphase]; rfl)
    have hmatches := h.phase.verified (by rw [hphase]; rfl)
    have hproof := hpass.proof_eq hend
    have htruth : Truthful sha256 source pass.proof := ⟨pass.chunks, hproof.1, hproof.2.2, hmatches⟩
    split at hact
    next =>
      cases hact
      refine ⟨h.nodup, h.docs, h.lateDocs, ?_, h.lateProofs, ?_⟩
      · intro proof hproof
        cases hproof
        exact htruth
      · refine ⟨?_, ?_, fun _ => hmatches⟩
        · intro other hother
          cases hother
          exact hpass
        · intro other hother _
          cases hother
          exact hend
    next =>
      cases hact
      refine ⟨h.nodup, h.docs, h.lateDocs, h.manifest, ?_, phaseOk_idle⟩
      intro proof hproof
      rcases List.mem_cons.mp hproof with hnew | hold
      · rw [hnew]
        exact htruth
      · exact h.lateProofs proof hold
  next => cases hact

theorem WorldOk.bulk {world next : World} {applied : ChunkDoc → Bool}
    (h : WorldOk sha256 source world)
    (hact : act sha256 batchChunks source world (.bulk applied) = some next) :
    WorldOk sha256 source next := by
  simp only [act] at hact
  split at hact
  next pass last hphase =>
    have hpass := h.phase.pass pass (by rw [hphase]; rfl)
    have hend := h.phase.whole pass (by rw [hphase]; rfl)
    cases hact
    refine h.write ?_ ?_ ?_
    · exact fun doc hdoc => hpass.batch doc (List.mem_of_mem_filter hdoc)
    · intro doc hdoc
      rcases List.mem_append.mp hdoc with hnew | hold
      · exact hpass.batch doc (List.mem_of_mem_filter hnew)
      · exact h.lateDocs doc hold
    · split
      next =>
        refine phaseOk_of rfl hpass (fun hlast => hend ?_) rfl
        rw [hphase]
        exact hlast
      next => exact phaseOk_idle
  next => cases hact

theorem WorldOk.save {world next : World} (h : WorldOk sha256 source world)
    (hact : act sha256 batchChunks source world .save = some next) :
    WorldOk sha256 source next := by
  simp only [act] at hact
  split at hact
  next pass last hphase =>
    have hpass := h.phase.pass pass (by rw [hphase]; rfl)
    have hend := h.phase.whole pass (by rw [hphase]; rfl)
    cases hact
    refine ⟨h.nodup, h.docs, h.lateDocs, h.manifest, h.lateProofs, ?_⟩
    cases last with
    | true => exact phaseOk_of rfl hpass (fun _ => hend (by rw [hphase]; rfl)) rfl
    | false =>
      have hempty : PassOk source.content { pass with batch := [] } :=
        { hpass with batch := fun _ hdoc => absurd hdoc List.not_mem_nil }
      exact phaseOk_of rfl hempty (fun hbad => Bool.noConfusion hbad) rfl
  next => cases hact

theorem worldOk_act {world next : World} {event : Act} (h : WorldOk sha256 source world)
    (hact : act sha256 batchChunks source world event = some next) :
    WorldOk sha256 source next := by
  cases event with
  | start =>
    simp only [act] at hact
    split at hact
    next =>
      split at hact
      next =>
        cases hact
        exact h
      next =>
        cases hact
        exact h.setPhase (phaseOk_of rfl (passOk_initial _ _) (fun hbad => Bool.noConfusion hbad) rfl)
    next => cases hact
  | read =>
    simp only [act] at hact
    split at hact
    next pass hphase =>
      cases hact
      exact h.setPhase (readBlock_ok (h.phase.pass pass (by rw [hphase]; rfl)))
    next => cases hact
  | bulk applied => exact h.bulk hact
  | save => exact h.save hact
  | verify => exact h.verify hact
  | prove applied => exact h.prove hact
  | finish =>
    simp only [act] at hact
    split at hact
    next =>
      cases hact
      exact ⟨h.nodup, h.docs, h.lateDocs, h.manifest, h.lateProofs, phaseOk_idle⟩
    next => cases hact
  | crash =>
    cases hact
    exact h.setPhase phaseOk_idle
  | arrive doc =>
    simp only [act] at hact
    split at hact
    next hlate =>
      cases hact
      refine ⟨Dict.nodup_upsert h.nodup, ?_, h.lateDocs, h.manifest, h.lateProofs, h.phase⟩
      intro other hother
      rcases Dict.mem_upsert hother with hnew | hold
      · rw [hnew]
        exact h.lateDocs doc hlate
      · exact h.docs other hold
    next => cases hact
  | arriveProof proof =>
    simp only [act] at hact
    split at hact
    next hlate =>
      cases hact
      refine ⟨h.nodup, h.docs, h.lateDocs, ?_, h.lateProofs, h.phase⟩
      intro other hother
      cases hother
      exact h.lateProofs proof hlate
    next => cases hact
  | remove keep keepManifest =>
    cases hact
    refine ⟨h.nodup.sublist (List.filter_sublist.map _), ?_, h.lateDocs, ?_, h.lateProofs, h.phase⟩
    · exact fun doc hdoc => h.docs doc (List.mem_of_mem_filter hdoc)
    · intro proof hproof
      cases keepManifest with
      | true => exact h.manifest proof hproof
      | false => cases hproof
  | prune =>
    cases hact
    exact ⟨h.nodup, h.docs, h.lateDocs, h.manifest, h.lateProofs, h.phase⟩

/-- The histories of the source. -/
def Reached (sha256 : Bytes → String) (batchChunks : Nat) (source : Source) (world : World) : Prop :=
  Reachable (· = World.initial) (Step sha256 batchChunks source) world

theorem Reached.ok {world : World} (h : Reached sha256 batchChunks source world) :
    WorldOk sha256 source world := by
  refine Reachable.invariant ?_ ?_ h
  · intro first hfirst
    rw [hfirst]
    exact worldOk_initial
  · intro first next hstep hfirst
    obtain ⟨event, hact⟩ := hstep
    exact worldOk_act hfirst hact

/-! ## Where a manifest comes from -/

/-- Earlier in the history the run of this manifest had counted, and all documents were
there. -/
def Audited (sha256 : Bytes → String) (batchChunks : Nat) (source : Source) (world : World)
    (proof : Manifest) : Prop :=
  ∃ counted pass, Reached sha256 batchChunks source counted ∧
    ReflTransGen (Step sha256 batchChunks source) counted world ∧
    counted.phase = .proving pass ∧ pass.proof = proof ∧ Complete source.content counted.docs

structure AuditedOk (sha256 : Bytes → String) (batchChunks : Nat) (source : Source)
    (world : World) : Prop where
  manifest : ∀ proof, world.manifest = some proof → Audited sha256 batchChunks source world proof
  lateProofs : ∀ proof ∈ world.lateProofs, Audited sha256 batchChunks source world proof
  phase : ∀ pass, world.phase = .proving pass → Audited sha256 batchChunks source world pass.proof

theorem Audited.tail {world next : World} {proof : Manifest}
    (h : Audited sha256 batchChunks source world proof) (hstep : Step sha256 batchChunks source world next) :
    Audited sha256 batchChunks source next proof := by
  obtain ⟨counted, pass, hreach, hsteps, hrest⟩ := h
  exact ⟨counted, pass, hreach, hsteps.tail hstep, hrest⟩

/-- Only a count that finds as many documents as there are blocks lets a manifest be put. -/
theorem proving_of_act {world next : World} {event : Act} {pass : Pass}
    (hact : act sha256 batchChunks source world event = some next) (hphase : next.phase = .proving pass) :
    world.phase = .proving pass ∨
      (world.phase = .checking pass ∧ next.docs = world.docs ∧ world.docs.length = pass.chunks) := by
  cases event with
  | start =>
    simp only [act] at hact
    split at hact
    next =>
      split at hact <;> cases hact
      · exact Or.inl hphase
      · cases hphase
    next => cases hact
  | read =>
    simp only [act] at hact
    split at hact
    next =>
      cases hact
      have hread : readBlock batchChunks source _ = Phase.proving pass := hphase
      unfold readBlock at hread
      dsimp only at hread
      split at hread <;> split at hread <;> cases hread
    next => cases hact
  | bulk applied =>
    simp only [act] at hact
    split at hact
    next =>
      cases hact
      dsimp only at hphase
      split at hphase <;> cases hphase
    next => cases hact
  | save =>
    simp only [act] at hact
    split at hact
    next =>
      cases hact
      dsimp only at hphase
      split at hphase <;> cases hphase
    next => cases hact
  | verify =>
    simp only [act] at hact
    split at hact
    next hchecking =>
      split at hact
      next =>
        cases hact
        cases hphase
      next hchecks =>
        cases hact
        cases hphase
        refine Or.inr ⟨hchecking, rfl, ?_⟩
        exact Decidable.not_not.mp fun hne => hchecks (Or.inr (Or.inr hne))
    next => cases hact
  | prove applied =>
    simp only [act] at hact
    split at hact
    next =>
      split at hact <;> cases hact <;> cases hphase
    next => cases hact
  | finish =>
    simp only [act] at hact
    split at hact
    next =>
      cases hact
      cases hphase
    next => cases hact
  | crash =>
    cases hact
    cases hphase
  | arrive doc =>
    simp only [act] at hact
    split at hact
    next =>
      cases hact
      exact Or.inl hphase
    next => cases hact
  | arriveProof proof =>
    simp only [act] at hact
    split at hact
    next =>
      cases hact
      exact Or.inl hphase
    next => cases hact
  | remove keep keepManifest =>
    cases hact
    exact Or.inl hphase
  | prune =>
    cases hact
    exact Or.inl hphase

/-- A manifest that is there, or may still come, was before or is put by a run that may. -/
theorem proof_of_act {world next : World} {event : Act} {proof : Manifest}
    (hact : act sha256 batchChunks source world event = some next)
    (hproof : next.manifest = some proof ∨ proof ∈ next.lateProofs) :
    (world.manifest = some proof ∨ proof ∈ world.lateProofs) ∨
      ∃ pass, world.phase = .proving pass ∧ pass.proof = proof := by
  cases event with
  | start =>
    simp only [act] at hact
    split at hact
    next => split at hact <;> cases hact <;> exact Or.inl hproof
    next => cases hact
  | prove applied =>
    simp only [act] at hact
    split at hact
    next pass hphase =>
      split at hact
      next =>
        cases hact
        rcases hproof with hput | hlate
        · cases hput
          exact Or.inr ⟨pass, hphase, rfl⟩
        · exact Or.inl (Or.inr hlate)
      next =>
        cases hact
        rcases hproof with hold | hlate
        · exact Or.inl (Or.inl hold)
        · rcases List.mem_cons.mp hlate with hnew | hold
          · exact Or.inr ⟨pass, hphase, hnew.symm⟩
          · exact Or.inl (Or.inr hold)
    next => cases hact
  | verify =>
    simp only [act] at hact
    split at hact
    next => split at hact <;> cases hact <;> exact Or.inl hproof
    next => cases hact
  | read | bulk | save | finish =>
    simp only [act] at hact
    split at hact
    next =>
      cases hact
      exact Or.inl hproof
    next => cases hact
  | crash | prune =>
    cases hact
    exact Or.inl hproof
  | arrive doc =>
    simp only [act] at hact
    split at hact
    next =>
      cases hact
      exact Or.inl hproof
    next => cases hact
  | arriveProof other =>
    simp only [act] at hact
    split at hact
    next hlate =>
      cases hact
      rcases hproof with hput | hold
      · cases hput
        exact Or.inl (Or.inr hlate)
      · exact Or.inl (Or.inr hold)
    next => cases hact
  | remove keep keepManifest =>
    cases hact
    cases keepManifest with
    | true => exact Or.inl hproof
    | false =>
      rcases hproof with hput | hold
      · cases hput
      · exact Or.inl (Or.inr hold)

theorem Reached.audited {world : World} (h : Reached sha256 batchChunks source world) :
    AuditedOk sha256 batchChunks source world := by
  refine Reachable.invariant_of (J := Reached sha256 batchChunks source) (fun _ hreach => hreach) ?_ ?_ h
  · intro first hfirst
    rw [hfirst]
    exact ⟨fun _ hnone => (by cases hnone), fun _ hmem => absurd hmem List.not_mem_nil,
      fun _ hphase => (by cases hphase)⟩
  · intro first next hreach hstep hfirst
    have hnext := hreach.tail hstep
    obtain ⟨event, hact⟩ := hstep
    have hproof : ∀ proof, next.manifest = some proof ∨ proof ∈ next.lateProofs →
        Audited sha256 batchChunks source next proof := by
      intro proof hmem
      refine Audited.tail ?_ ⟨event, hact⟩
      rcases proof_of_act hact hmem with (hput | hlate) | ⟨pass, hphase, heq⟩
      · exact hfirst.manifest proof hput
      · exact hfirst.lateProofs proof hlate
      · rw [← heq]
        exact hfirst.phase pass hphase
    refine ⟨fun proof hput => hproof proof (Or.inl hput),
      fun proof hlate => hproof proof (Or.inr hlate), ?_⟩
    intro pass hphase
    rcases proving_of_act hact hphase with hold | ⟨hchecking, hdocs, hlen⟩
    · exact (hfirst.phase pass hold).tail ⟨event, hact⟩
    · have hok := Reached.ok hreach
      have hpass := hok.phase.pass pass (by rw [hchecking]; rfl)
      have hend := hok.phase.whole pass (by rw [hchecking]; rfl) (by rw [hchecking]; rfl)
      have hcounts := (hpass.proof_eq hend).2.2
      refine ⟨next, pass, hnext, ReflTransGen.refl, hphase, rfl, ?_⟩
      rw [hdocs]
      exact complete_of_length hok.nodup hok.docs hcounts hlen

/-! ## The answer -/

/-- A wildcard pattern of some characters finds every text that has them. -/
def WildcardLookup (matchesPattern : List Char → List Char → Bool) : Prop :=
  ∀ keyword text : List Char, keyword.take 3 <:+: text → matchesPattern (wildcard keyword) text = true

/-- Three characters are at most twelve bytes. -/
theorem take_three_bounds {keyword : List Char} (hlen : 3 ≤ keyword.length) :
    keyword.take 3 ≠ [] ∧ (encode (keyword.take 3)).length ≤ overlap + 1 := by
  have hthree : (keyword.take 3).length = 3 := by
    rw [List.length_take]
    omega
  refine ⟨fun hnil => ?_, ?_⟩
  · rw [hnil] at hthree
    cases hthree
  · have hfour := length_encode_le (keyword.take 3)
    have hover : overlap = 16 := rfl
    omega

theorem evidence_faithful {world : World} (h : WorldOk sha256 source world)
    {matchesPattern : List Char → List Char → Bool} (hlookup : WildcardLookup matchesPattern)
    {keyword : List Char} (hlen : 3 ≤ keyword.length) {item : Checked}
    (hevidence : evidence matchesPattern source (some keyword) world = some item) :
    Faithful (encode (keyword.take 3)) source.content item := by
  unfold evidence at hevidence
  split at hevidence
  next => cases hevidence
  next proof hproof =>
    split at hevidence
    next => cases hevidence
    next hchecks =>
      cases hevidence
      obtain ⟨chunks, hmanifest, hcounts, _⟩ := h.manifest proof hproof
      have hcount : world.docs.length = chunks := by
        have hsame : world.docs.length = proof.chunks :=
          Decidable.not_not.mp fun hne => hchecks (Or.inr hne)
        rw [hsame, hmanifest]
        rfl
      rw [hmanifest]
      refine ⟨rfl, rfl, rfl, decide_eq_true_iff, ?_⟩
      intro hin
      obtain ⟨before, after, heq⟩ := hin
      obtain ⟨hne, hshort⟩ := take_three_bounds hlen
      have hoccurs : OccursAt (encode (keyword.take 3)) source.content before.length := by
        unfold OccursAt
        rw [← heq, List.append_assoc, List.drop_left]
        exact List.prefix_append _ _
      obtain ⟨k, hk, _, _, htext⟩ := exists_chunk hne hshort hoccurs
      have hdoc := complete_of_length h.nodup h.docs hcounts hcount k hk
      refine decide_eq_true (List.length_pos_of_mem (List.mem_filter.mpr ⟨hdoc, ?_⟩))
      exact hlookup keyword _ htext

/-- In every history a manifest tells the truth about the source that the catalog
describes, and comes from a run that found all documents at its count; a document is one
of the source; the first three characters of a keyword lie inside the text of a document
wherever they stand; and what the index answers about the source is the truth. -/
theorem side_index_sound (matchesPattern : List Char → List Char → Bool)
    (hlookup : WildcardLookup matchesPattern) (world : World)
    (h : Reached sha256 batchChunks source world) :
    (∀ proof, world.manifest = some proof →
      Truthful sha256 source proof ∧ Audited sha256 batchChunks source world proof) ∧
    (∀ doc ∈ world.docs, IsChunk source.content doc) ∧
    ∀ keyword : List Char, 3 ≤ keyword.length →
      (∀ p, OccursAt (encode (keyword.take 3)) source.content p →
        ∃ doc, IsChunk source.content doc ∧ doc.offset ≤ p + overlap ∧
          p + (encode (keyword.take 3)).length ≤ doc.offset + doc.length ∧
          keyword.take 3 <:+: doc.text) ∧
      ∀ item, evidence matchesPattern source (some keyword) world = some item →
        Faithful (encode (keyword.take 3)) source.content item := by
  have hok := h.ok
  refine ⟨fun proof hproof => ⟨hok.manifest proof hproof, h.audited.manifest proof hproof⟩, hok.docs, ?_⟩
  intro keyword hlen
  refine ⟨?_, fun item hevidence => evidence_faithful hok hlookup hlen hevidence⟩
  intro p hoccurs
  obtain ⟨hne, hshort⟩ := take_three_bounds hlen
  obtain ⟨k, hk, hbefore, hbehind, htext⟩ := exists_chunk hne hshort hoccurs
  exact ⟨chunkDoc source.content k, ⟨k, hk, rfl⟩, hbefore, hbehind, htext⟩

/-- Reached by a list of acts. -/
theorem reached_of_acts {world : World} {events : List Act}
    (h : runActs (fun event world => act sha256 batchChunks source world event) events World.initial
      = some world) : Reached sha256 batchChunks source world :=
  ⟨World.initial, rfl, runActs_steps h⟩

end system

theorem looksUp_wildcard : WildcardLookup (looksUp '\\') :=
  fun _ _ hin => looksUp_escape (List.mem_cons_of_mem _ (List.mem_cons_of_mem _ List.mem_cons_self)) hin

/-- A source of three bytes. -/
def shortSource : Source := { content := [97, 98, 99], size := 3, bytes := 3, sha256 := some "d" }

def shortDigest : Bytes → String := fun _ => "d"

/-- A run that puts a manifest. -/
def wholeRun : List Act :=
  [.start, .read, .read, .bulk (fun _ => true), .save, .verify, .prove true]

theorem side_index_sound_short : ∃ world, world.manifest.isSome = true ∧
    ∀ item, evidence (looksUp '\\') shortSource (some ['a', 'b', 'c']) world = some item →
      Faithful (encode ['a', 'b', 'c']) shortSource.content item := by
  have hreached := @reached_of_acts shortDigest 8 shortSource _ wholeRun rfl
  refine ⟨_, ?_, ((side_index_sound (looksUp '\\') looksUp_wildcard _ hreached).2.2
    ['a', 'b', 'c'] (by decide)).2⟩
  decide

/-- The documents may go between the count and the manifest. -/
theorem manifest_without_documents : ∃ world next,
    Reached shortDigest 8 shortSource world ∧ Step shortDigest 8 shortSource world next ∧
      world.manifest = none ∧ next.manifest.isSome = true ∧ ¬ Complete shortSource.content next.docs := by
  let events : List Act :=
    [.start, .read, .read, .bulk (fun _ => true), .save, .verify, .remove (fun _ => false) true]
  refine ⟨_, _, @reached_of_acts shortDigest 8 shortSource _ events rfl, ⟨.prove true, rfl⟩, rfl, rfl, ?_⟩
  intro hcomplete
  exact absurd (hcomplete 0 (by decide)) List.not_mem_nil

end CameraLogs.Indexing

import CameraLogs.Viewer.LiveLogAccounting
import Mathlib.Data.List.Dedup
import Mathlib.Data.List.Perm.Subperm

/-!
# What the live log buffer shows

Of each file of a session the buffer has taken the bytes from the first offset that came
up to the largest end (`extent`): each of them is in one place, and no other byte is in
any (`Accounts`). A byte before the first offset that comes later is taken for a
duplicate and is in no place.
-/

namespace CameraLogs.Viewer

open Lib Logs
open LiveLogBuffer

variable {budget : Nat} {buffer next : LiveLogBuffer} {frames : List LiveLogFrame}

/-- A frame that `ingest` takes in: it has bytes, and its end is a safe integer. -/
def LiveLogFrame.Taken (frame : LiveLogFrame) : Prop :=
  frame.data ≠ [] ∧ frame.offset + frame.data.length ≤ maxSafeInteger

instance (frame : LiveLogFrame) : Decidable frame.Taken := inferInstanceAs (Decidable (_ ∧ _))

def LiveLogFrame.stop (frame : LiveLogFrame) : Nat := frame.offset + frame.data.length

/-- What a frame makes of the extent of its file. -/
def extend (frame : LiveLogFrame) : Option (Nat × Nat) → Nat × Nat
  | none => (frame.offset, frame.stop)
  | some (first, high) => (first, max high frame.stop)

/-- From the first offset that came of a file to the largest end. -/
def extent (frames : List LiveLogFrame) (source : Source) : Option (Nat × Nat) :=
  frames.foldl (fun known frame =>
    if frame.Taken ∧ frame.source = source then some (extend frame known) else known) none

/-- Whether a position is within an extent. -/
def within (known : Option (Nat × Nat)) (i : Nat) : Nat :=
  match known with
  | none => 0
  | some (first, high) => if first ≤ i ∧ i < high then 1 else 0

/-- The files of a session. -/
def filesOf (frames : List LiveLogFrame) (sessionId : Option String) : List String :=
  ((frames.filter fun frame => frame.sessionId = sessionId).map (·.fileId)).dedup

/-- No return to an earlier session. -/
def Contiguous (frames : List LiveLogFrame) : Prop :=
  ∀ a b c, List.Sublist [a, b, c] frames → a.sessionId = c.sessionId → b.sessionId = c.sessionId

theorem extent_append (frames : List LiveLogFrame) (frame : LiveLogFrame) (source : Source) :
    extent (frames ++ [frame]) source =
      if frame.Taken ∧ frame.source = source then some (extend frame (extent frames source))
      else extent frames source := by
  unfold extent
  rw [List.foldl_append]
  rfl

theorem extent_append_not {frame : LiveLogFrame} (h : ¬ frame.Taken) (frames : List LiveLogFrame)
    (source : Source) : extent (frames ++ [frame]) source = extent frames source := by
  rw [extent_append, if_neg (fun hbad => h hbad.1)]

theorem extent_le {source : Source} {first high : Nat} (h : extent frames source = some (first, high)) :
    first ≤ high := by
  induction frames using List.reverseRecOn generalizing first high with
  | nil => cases h
  | append_singleton frames frame ih =>
    rw [extent_append] at h
    split at h
    next =>
      rcases hold : extent frames source with _ | ⟨first', high'⟩
      · rw [hold] at h
        cases h
        exact Nat.le_add_right _ _
      · rw [hold] at h
        cases h
        exact Nat.le_trans (ih hold) (Nat.le_max_left _ _)
    next => exact ih h

theorem extent_eq_none {source : Source}
    (h : ∀ frame ∈ frames, frame.Taken → frame.source ≠ source) : extent frames source = none := by
  induction frames using List.reverseRecOn with
  | nil => rfl
  | append_singleton frames frame ih =>
    rw [extent_append, if_neg, ih fun other hother => h other (List.mem_append_left _ hother)]
    rintro ⟨htaken, hsource⟩
    exact h frame (List.mem_append_right _ List.mem_cons_self) htaken hsource

/-- The extent begins with the first frame that was taken of the file. -/
theorem extent_first {source : Source} {first : LiveLogFrame}
    (h : frames.find? (fun frame => frame.Taken ∧ frame.source = source) = some first) :
    ∃ high, extent frames source = some (first.offset, high) := by
  induction frames using List.reverseRecOn with
  | nil => cases h
  | append_singleton frames frame ih =>
    rw [List.find?_append] at h
    rw [extent_append]
    rcases hold : frames.find? (fun frame => frame.Taken ∧ frame.source = source) with _ | other
    · rw [hold, Option.none_or, List.find?_singleton] at h
      have hnone : extent frames source = none := by
        refine extent_eq_none fun other hother htaken hsource => ?_
        exact List.find?_eq_none.mp hold other hother (decide_eq_true ⟨htaken, hsource⟩)
      split at h
      next htest =>
        cases h
        rw [if_pos (of_decide_eq_true htest), hnone]
        exact ⟨_, rfl⟩
      next => cases h
    · rw [hold, Option.some_or] at h
      cases h
      obtain ⟨high, hextent⟩ := ih hold
      rw [hextent]
      split
      next => exact ⟨_, rfl⟩
      next => exact ⟨_, rfl⟩

/-- A frame that was taken is within the extent, from its start on. -/
theorem extent_stop {frame : LiveLogFrame} (hmem : frame ∈ frames) (htaken : frame.Taken) :
    ∃ first high, extent frames frame.source = some (first, high) ∧ frame.stop ≤ high := by
  induction frames using List.reverseRecOn with
  | nil => cases hmem
  | append_singleton frames other ih =>
    rw [extent_append]
    rcases List.mem_append.mp hmem with hold | hnew
    · obtain ⟨first, high, hextent, hle⟩ := ih hold
      rw [hextent]
      split
      next => exact ⟨first, _, rfl, Nat.le_trans hle (Nat.le_max_left _ _)⟩
      next => exact ⟨first, high, rfl, hle⟩
    · rw [← List.mem_singleton.mp hnew, if_pos ⟨htaken, rfl⟩]
      rcases extent frames frame.source with _ | ⟨first, high⟩
      · exact ⟨_, _, rfl, Nat.le_refl _⟩
      · exact ⟨_, _, rfl, Nat.le_max_right _ _⟩

/-! ## One frame -/

/-- The names and ends of the files of this session, and where the bytes are. -/
structure Accounts (budget : Nat) (all frames : List LiveLogFrame) (buffer : LiveLogBuffer) : Prop where
  fits : Fits budget buffer
  offsets : ∀ file, buffer.offsetOf file = (extent frames (buffer.sessionId, file)).map (·.2)
  names : (buffer.offsets.map (·.1)).Nodup
  files : ∀ file ∈ buffer.offsets.map (·.1), file ∈ filesOf all buffer.sessionId
  covered : buffer.droppedRangeCount = 0 →
    ∀ source i, Span.covered buffer.places source i = within (extent frames source) i

theorem within_le (known : Option (Nat × Nat)) (i : Nat) : within known i ≤ 1 := by
  unfold within
  split
  next => exact Nat.zero_le _
  next => split <;> omega

/-- What a frame adds: the gap before it, and its bytes that are new. -/
def addedSpans (frame : LiveLogFrame) : Option Nat → List (Span Source)
  | none => [{ key := frame.source, start := frame.offset, stop := frame.stop }]
  | some previous =>
    (if previous < frame.offset then [{ key := frame.source, start := previous, stop := frame.offset }]
      else []) ++ [{ key := frame.source, start := max frame.offset previous, stop := frame.stop }]

theorem within_added {frame : LiveLogFrame} {known : Option (Nat × Nat)}
    (hknown : ∀ first high, known = some (first, high) → first ≤ high ∧ high < frame.stop) (i : Nat) :
    within (some (extend frame known)) i
      = within known i + Span.covered (addedSpans frame (known.map (·.2))) frame.source i := by
  have hlen : frame.offset ≤ frame.stop := Nat.le_add_right _ _
  rcases known with _ | ⟨first, high⟩
  · show (if _ then 1 else 0) = 0 + ((if _ then 1 else 0) + 0)
    simp only [true_and]
    omega
  · obtain ⟨hfirst, hhigh⟩ := hknown first high rfl
    have hmax : max high frame.stop = frame.stop := Nat.max_eq_right (Nat.le_of_lt hhigh)
    unfold extend within addedSpans
    dsimp only [Option.map_some]
    rw [hmax, Span.covered_append, Span.covered_cons, Span.covered_nil]
    unfold Span.cover
    dsimp only
    simp only [true_and]
    by_cases hgap : high < frame.offset
    · rw [if_pos hgap, Span.covered_cons, Span.covered_nil]
      unfold Span.cover
      simp only [true_and]
      split <;> split <;> split <;> split <;> omega
    · rw [if_neg hgap, Span.covered_nil]
      split <;> split <;> split <;> omega

theorem covered_other {frame : LiveLogFrame} {previous : Option Nat} {source : Source}
    (h : frame.source ≠ source) (i : Nat) : Span.covered (addedSpans frame previous) source i = 0 := by
  have hcover : ∀ start stop, ({ key := frame.source, start, stop } : Span Source).cover source i = 0 :=
    fun _ _ => if_neg fun hbad => h hbad.1
  cases previous with
  | none => exact hcover _ _
  | some previous =>
    unfold addedSpans
    rw [Span.covered_append, Span.covered_cons, hcover, Span.covered_nil]
    split
    next => rw [Span.covered_cons, hcover, Span.covered_nil]
    next => rfl

theorem recordGap_spec (frame : LiveLogFrame) (previous : Nat) (hfits : Fits budget buffer) :
    Keeps buffer (buffer.recordGap frame previous)
      (if previous < frame.offset then [{ key := frame.source, start := previous, stop := frame.offset }]
        else []) ∧ Fits budget (buffer.recordGap frame previous) := by
  unfold recordGap
  split
  next =>
    have hadds := addRange_adds .transport
      { key := frame.source, start := previous, stop := frame.offset } none
      { buffer with gaps := buffer.gaps + 1 }
    have hkeeps := hadds.keeps
    generalize LiveLogBuffer.addRange .transport _ none _ = added at hadds hkeeps ⊢
    have haddedFits : Fits budget added := by
      obtain ⟨_, _, _, _, rfl⟩ := hadds.only
      exact ⟨hfits.retained, hfits.within, hfits.partialBytes, hfits.partialLimit⟩
    obtain ⟨hdiscard, hlast⟩ := discardPartial_spec .transport haddedFits
    have hcounted : Keeps buffer added
        [{ key := frame.source, start := previous, stop := frame.offset }] :=
      ⟨hkeeps.dropped, hkeeps.sessionId, hkeeps.offsets, hkeeps.covered⟩
    exact ⟨hcounted.trans hdiscard, hlast⟩
  next => exact ⟨keeps_refl buffer, hfits⟩

theorem moveCursor_spec (frame : LiveLogFrame) (hfits : Fits budget buffer) :
    Keeps buffer (moveCursor frame buffer) [] ∧ Fits budget (moveCursor frame buffer) := by
  unfold moveCursor
  split
  next =>
    exact ⟨⟨Nat.le_refl _, rfl, rfl, fun _ _ _ _ => rfl⟩,
      ⟨hfits.retained, hfits.within, hfits.partialBytes, hfits.partialLimit⟩⟩
  next => exact ⟨keeps_refl buffer, hfits⟩

theorem takeIn_spec (frame : LiveLogFrame) {start : Nat} (hstart : frame.offset ≤ start)
    (hstop : start ≤ frame.stop) (hfits : Fits budget buffer) :
    Keeps (buffer.rememberOffset frame.fileId frame.stop) (buffer.takeIn budget frame start)
      [{ key := frame.source, start, stop := frame.stop }] ∧
      Fits budget (buffer.takeIn budget frame start) := by
  have hremembered : Fits budget (buffer.rememberOffset frame.fileId frame.stop) :=
    ⟨hfits.retained, hfits.within, hfits.partialBytes, hfits.partialLimit⟩
  unfold takeIn
  obtain ⟨hkeeps, hnext⟩ := @appendBytes_spec budget (buffer.rememberOffset frame.fileId frame.stop)
    (frame.data.drop (start - frame.offset)).length
    { bytes := frame.data.drop (start - frame.offset), source := frame.source, start } hremembered
    (Nat.le_refl _)
  have hspan : BytePiece.span
      { bytes := frame.data.drop (start - frame.offset), source := frame.source, start }
        = { key := frame.source, start, stop := frame.stop } := by
    unfold BytePiece.span LiveLogFrame.stop at *
    dsimp only
    rw [List.length_drop]
    congr 1
    omega
  rw [hspan] at hkeeps
  obtain ⟨hcursor, hlast⟩ := moveCursor_spec frame hnext
  have hall := hkeeps.trans hcursor
  rw [List.append_nil] at hall
  exact ⟨hall, hlast⟩

/-! ## The files of a session -/

section offsets

variable {all : List LiveLogFrame} {fileId : String} {stop : Nat}

theorem remember_names (hnames : (buffer.offsets.map (·.1)).Nodup)
    (hfiles : ∀ file ∈ buffer.offsets.map (·.1), file ∈ filesOf all buffer.sessionId)
    (hfile : fileId ∈ filesOf all buffer.sessionId)
    (hfew : (filesOf all buffer.sessionId).length ≤ trackedFileLimit) :
    (buffer.rememberOffset fileId stop).offsets
        = buffer.offsets.filter (·.1 ≠ fileId) ++ [(fileId, stop)] ∧
      ((buffer.rememberOffset fileId stop).offsets.map (·.1)).Nodup ∧
      ∀ file ∈ (buffer.rememberOffset fileId stop).offsets.map (·.1),
        file ∈ filesOf all buffer.sessionId := by
  have hnodup : ((buffer.offsets.filter (·.1 ≠ fileId) ++ [(fileId, stop)]).map (·.1)).Nodup := by
    rw [List.map_append]
    refine List.nodup_append.mpr ⟨hnames.sublist (List.filter_sublist.map _), List.nodup_singleton _, ?_⟩
    intro file hmem other hother heq
    obtain ⟨entry, hentry, rfl⟩ := List.mem_map.mp hmem
    rw [List.map_singleton, List.mem_singleton] at hother
    exact (of_decide_eq_true (List.mem_filter.mp hentry).2) (heq.trans hother)
  have hsub : ∀ file ∈ (buffer.offsets.filter (·.1 ≠ fileId) ++ [(fileId, stop)]).map (·.1),
      file ∈ filesOf all buffer.sessionId := by
    intro file hmem
    rw [List.map_append] at hmem
    rcases List.mem_append.mp hmem with hold | hnew
    · exact hfiles file ((List.filter_sublist.map _).subset hold)
    · rw [List.map_singleton, List.mem_singleton] at hnew
      rw [hnew]
      exact hfile
  have hlen := (hnodup.subperm hsub).length_le
  rw [List.length_map] at hlen
  have heq : (buffer.rememberOffset fileId stop).offsets
      = buffer.offsets.filter (·.1 ≠ fileId) ++ [(fileId, stop)] :=
    if_neg (Nat.not_lt.mpr (Nat.le_trans hlen hfew))
  rw [heq]
  exact ⟨rfl, hnodup, hsub⟩

theorem offsetOf_append (hoffsets : next.offsets = buffer.offsets.filter (·.1 ≠ fileId) ++ [(fileId, stop)])
    (file : String) :
    next.offsetOf file = if file = fileId then some stop else buffer.offsetOf file := by
  unfold offsetOf
  rw [hoffsets, List.find?_append]
  by_cases hfile : file = fileId
  · have hnone : (buffer.offsets.filter (·.1 ≠ fileId)).find? (·.1 = file) = none := by
      refine List.find?_eq_none.mpr fun entry hentry htest => ?_
      exact (of_decide_eq_true (List.mem_filter.mp hentry).2) ((of_decide_eq_true htest).trans hfile)
    rw [hnone, Option.none_or, List.find?_singleton, if_pos hfile, if_pos (decide_eq_true hfile.symm)]
    rfl
  · have hkeep : (buffer.offsets.filter (·.1 ≠ fileId)).find? (·.1 = file)
        = buffer.offsets.find? (·.1 = file) := by
      rw [List.find?_filter]
      refine congrArg (fun test => buffer.offsets.find? test) (funext fun entry => ?_)
      by_cases hentry : entry.1 = file
      · simp [hentry, hfile]
      · simp [hentry]
    rw [hkeep, if_neg hfile, List.find?_singleton,
      if_neg (fun hbad => hfile (of_decide_eq_true hbad).symm), Option.or_none]

end offsets

/-! ## Every sequence of frames -/

section run

variable {all : List LiveLogFrame} {frame : LiveLogFrame}

theorem mem_filesOf (h : frame ∈ all) : frame.fileId ∈ filesOf all frame.sessionId :=
  List.mem_dedup.mpr (List.mem_map.mpr ⟨frame, List.mem_filter.mpr ⟨h, decide_eq_true rfl⟩, rfl⟩)

/-- Where nothing is added and no extent changes, the accounts stay. -/
theorem Accounts.of_keeps {later : List LiveLogFrame} (h : Accounts budget all frames buffer)
    (hkeeps : Keeps buffer next []) (hfits : Fits budget next)
    (hextent : ∀ source, extent later source = extent frames source) :
    Accounts budget all later next where
  fits := hfits
  offsets := fun file => by
    unfold LiveLogBuffer.offsetOf
    rw [hkeeps.offsets, hkeeps.sessionId, hextent]
    exact h.offsets file
  names := hkeeps.offsets ▸ h.names
  files := by
    rw [hkeeps.offsets, hkeeps.sessionId]
    exact h.files
  covered := fun hdropped source i => by
    have hcovered := h.covered (by have hle := hkeeps.dropped; omega)
    rw [hkeeps.covered hdropped (fun source i => by
      rw [hcovered]
      exact within_le _ _), hcovered, hextent]
    rfl

/-- A frame of the current session is taken in, from what is known of its file. -/
theorem Accounts.append (h : Accounts budget all frames buffer) (hsession : frame.sessionId = buffer.sessionId)
    (htaken : frame.Taken) (hmem : frame ∈ all)
    (hfew : (filesOf all buffer.sessionId).length ≤ trackedFileLimit)
    {gapped : LiveLogBuffer} {gap : List (Span Source)} {start : Nat} (hgap : Keeps buffer gapped gap)
    (hgapFits : Fits budget gapped) (hstart : frame.offset ≤ start) (hstop : start ≤ frame.stop)
    (hspans : gap ++ [{ key := frame.source, start, stop := frame.stop }]
      = addedSpans frame ((extent frames frame.source).map (·.2)))
    (hknown : ∀ first high, extent frames frame.source = some (first, high) → high < frame.stop) :
    Accounts budget all (frames ++ [frame]) (gapped.takeIn budget frame start) ∧
      (gapped.takeIn budget frame start).sessionId = buffer.sessionId := by
  obtain ⟨htake, hfits⟩ := takeIn_spec frame hstart hstop hgapFits
  have hoffsets : gapped.offsets = buffer.offsets := hgap.offsets
  have hsame : gapped.sessionId = buffer.sessionId := hgap.sessionId
  have hfile : frame.fileId ∈ filesOf all buffer.sessionId := hsession ▸ mem_filesOf hmem
  obtain ⟨heq, hnodup, hsub⟩ := @remember_names gapped all frame.fileId frame.stop
    (hoffsets ▸ h.names) (by rw [hoffsets, hsame]; exact h.files) (by rw [hsame]; exact hfile)
    (by rw [hsame]; exact hfew)
  have hlast : (gapped.takeIn budget frame start).sessionId = buffer.sessionId :=
    htake.sessionId.trans hsame
  refine ⟨⟨hfits, ?_, ?_, ?_, ?_⟩, hlast⟩
  · intro file
    rw [offsetOf_append (htake.offsets.trans heq), hlast, extent_append]
    by_cases hnew : file = frame.fileId
    · have hsource : frame.source = (buffer.sessionId, file) := by
        rw [hnew, ← hsession]
        rfl
      rw [if_pos hnew, if_pos ⟨htaken, hsource⟩, ← hsource]
      rcases hold : extent frames frame.source with _ | ⟨first, high⟩
      · rfl
      · show some frame.stop = some (max high frame.stop)
        rw [Nat.max_eq_right (Nat.le_of_lt (hknown first high hold))]
    · have hother : ¬ (frame.Taken ∧ frame.source = (buffer.sessionId, file)) := by
        rintro ⟨_, hbad⟩
        exact hnew (congrArg Prod.snd hbad).symm
      rw [if_neg hnew, if_neg hother]
      show (gapped.offsets.find? _).map _ = _
      rw [hoffsets]
      exact h.offsets file
  · rw [htake.offsets]
    exact hnodup
  · rw [htake.offsets, hlast]
    rw [hsame] at hsub
    exact hsub
  · intro hdropped source i
    have hplaces : (gapped.rememberOffset frame.fileId frame.stop).places = gapped.places := rfl
    have hnone : gapped.droppedRangeCount = 0 := by
      have hle : gapped.droppedRangeCount ≤ _ := htake.dropped
      omega
    have hfirst : buffer.droppedRangeCount = 0 := by
      have hle := hgap.dropped
      omega
    have hadded : ∀ source i, within (extent (frames ++ [frame]) source) i
        = Span.covered buffer.places source i
          + Span.covered (gap ++ [{ key := frame.source, start, stop := frame.stop }]) source i := by
      intro source i
      rw [h.covered hfirst, hspans, extent_append]
      by_cases hsource : frame.source = source
      · rw [if_pos ⟨htaken, hsource⟩, ← hsource]
        exact within_added (fun first high hold => ⟨extent_le hold, hknown first high hold⟩) i
      · rw [if_neg (fun hbad => hsource hbad.2), covered_other hsource]
        rfl
    have honce : ∀ source i, Span.covered buffer.places source i
        + Span.covered (gap ++ [{ key := frame.source, start, stop := frame.stop }]) source i ≤ 1 := by
      intro source i
      rw [← hadded]
      exact within_le _ _
    have hgapped := hgap.covered hnone fun source i => by
      have hall := honce source i
      rw [Span.covered_append] at hall
      omega
    rw [htake.covered hdropped (fun source i => by
      have hall := honce source i
      rw [Span.covered_append] at hall
      rw [hplaces, hgapped]
      omega), hplaces, hgapped, hadded, Span.covered_append]
    omega

theorem Accounts.takeFrame (h : Accounts budget all frames buffer)
    (hsession : frame.sessionId = buffer.sessionId) (htaken : frame.Taken) (hmem : frame ∈ all)
    (hfew : (filesOf all buffer.sessionId).length ≤ trackedFileLimit) :
    Accounts budget all (frames ++ [frame]) (buffer.takeFrame budget frame) ∧
      (buffer.takeFrame budget frame).sessionId = buffer.sessionId := by
  have hsource : frame.source = (buffer.sessionId, frame.fileId) := by
    rw [← hsession]
    rfl
  have hoffset := h.offsets frame.fileId
  rw [← hsource] at hoffset
  have hbounds : frame.offset ≤ frame.stop := Nat.le_add_right _ _
  unfold LiveLogBuffer.takeFrame
  rcases hknown : extent frames frame.source with _ | ⟨first, high⟩
  · rw [hknown] at hoffset
    rw [hoffset]
    refine h.append hsession htaken hmem hfew (keeps_refl buffer) h.fits (Nat.le_refl _) hbounds ?_ ?_
    · rw [hknown]
      rfl
    · intro _ _ hbad
      rw [hknown] at hbad
      cases hbad
  · rw [hknown] at hoffset
    rw [hoffset]
    dsimp only [Option.map_some]
    by_cases hle : frame.offset + frame.data.length ≤ high
    · rw [if_pos hle]
      obtain ⟨hkeeps, hfits⟩ := moveCursor_spec frame h.fits
      refine ⟨h.of_keeps hkeeps hfits fun source => ?_, hkeeps.sessionId⟩
      rw [extent_append]
      split
      next hsame =>
        rw [← hsame.2, hknown]
        show some (first, max high frame.stop) = _
        rw [Nat.max_eq_left (show frame.stop ≤ high from hle)]
      next => rfl
    · rw [if_neg hle]
      obtain ⟨hgap, hgapFits⟩ := recordGap_spec frame high h.fits
      have hlt : high < frame.stop := Nat.not_le.mp hle
      refine h.append hsession htaken hmem hfew hgap hgapFits (Nat.le_max_left _ _)
        (Nat.max_le.mpr ⟨hbounds, Nat.le_of_lt hlt⟩) ?_ ?_
      · rw [hknown]
        rfl
      · intro _ _ heq
        rw [hknown] at heq
        cases heq
        exact hlt

/-- A new session: what is known of the files is forgotten, and none of its files is. -/
theorem Accounts.reset (h : Accounts budget all frames buffer) {sessionId : Option String}
    (hnew : ∀ other ∈ frames, other.Taken → other.sessionId ≠ sessionId) :
    Accounts budget all frames (buffer.resetSession sessionId) ∧
      (buffer.resetSession sessionId).sessionId = sessionId := by
  have hfits : Fits budget { buffer with sessionId } :=
    ⟨h.fits.retained, h.fits.within, h.fits.partialBytes, h.fits.partialLimit⟩
  obtain ⟨hkeeps, hnext⟩ := discardPartial_spec .transport hfits
  refine ⟨⟨⟨hnext.retained, hnext.within, hnext.partialBytes, hnext.partialLimit⟩, ?_, List.nodup_nil,
    fun _ hmem => absurd hmem List.not_mem_nil, ?_⟩, hkeeps.sessionId⟩
  · intro file
    have hsession : (buffer.resetSession sessionId).sessionId = sessionId := hkeeps.sessionId
    rw [hsession, extent_eq_none]
    · rfl
    · intro other hother htaken hsource
      exact hnew other hother htaken (congrArg Prod.fst hsource)
  · intro hdropped source i
    have hcovered := h.covered (by
      have hle : buffer.droppedRangeCount ≤ _ := hkeeps.dropped
      exact Nat.le_zero.mp (Nat.le_trans hle (Nat.le_of_eq hdropped)))
    have hplaces := hkeeps.covered hdropped (fun source i => by
      show Span.covered buffer.places source i + 0 ≤ 1
      rw [hcovered]
      exact within_le _ _) source i
    show Span.covered (LiveLogBuffer.places (discardPartial _ _)) source i = _
    rw [hplaces]
    exact hcovered source i

/-- The accounts, and which sessions lie behind. -/
structure Follows (budget : Nat) (all frames : List LiveLogFrame) (buffer : LiveLogBuffer) : Prop where
  accounts : Accounts budget all frames buffer
  sessions : ∀ a ∈ frames, a.Taken → a.sessionId = buffer.sessionId ∨
    ∃ b, List.Sublist [a, b] frames ∧ b.sessionId = buffer.sessionId

/-- The buffer after a frame, whether it was refused or not. -/
def LiveLogBuffer.after (budget : Nat) (frame : LiveLogFrame) (buffer : LiveLogBuffer) : LiveLogBuffer :=
  match buffer.ingest budget frame with
  | .ok next => next
  | .error _ => buffer

theorem after_of_taken (htaken : frame.Taken) : buffer.after budget frame =
    (if frame.sessionId ≠ buffer.sessionId then buffer.resetSession frame.sessionId
      else buffer).takeFrame budget frame := by
  unfold LiveLogBuffer.after LiveLogBuffer.ingest
  rw [if_neg htaken.1, if_neg (Nat.not_lt.mpr htaken.2)]

theorem after_of_not (htaken : ¬ frame.Taken) : buffer.after budget frame = buffer := by
  unfold LiveLogBuffer.after LiveLogBuffer.ingest
  by_cases hdata : frame.data = []
  · rw [if_pos hdata]
  · rw [if_neg hdata, if_pos (Nat.not_le.mp fun hle => htaken ⟨hdata, hle⟩)]

theorem Follows.step (h : Follows budget all frames buffer)
    (hcontiguous : Contiguous (frames ++ [frame])) (hmem : frame ∈ all)
    (hfew : ∀ sessionId, (filesOf all sessionId).length ≤ trackedFileLimit) :
    Follows budget all (frames ++ [frame]) (buffer.after budget frame) := by
  by_cases htaken : frame.Taken
  · rw [after_of_taken htaken]
    have hready : Accounts budget all frames
        (if frame.sessionId ≠ buffer.sessionId then buffer.resetSession frame.sessionId else buffer) ∧
        LiveLogBuffer.sessionId
          (if frame.sessionId ≠ buffer.sessionId then buffer.resetSession frame.sessionId else buffer)
            = frame.sessionId := by
      split
      next hchange =>
        refine h.accounts.reset fun other hother hotherTaken hsame => ?_
        -- an earlier frame of this session, and one of another session behind it
        rcases h.sessions other hother hotherTaken with hcurrent | ⟨b, hsub, hb⟩
        · exact hchange (hsame.symm.trans hcurrent)
        · have hthree : List.Sublist [other, b, frame] (frames ++ [frame]) :=
            hsub.append (List.Sublist.refl [frame])
          exact hchange ((hcontiguous other b frame hthree hsame).symm.trans hb)
      next hsame => exact ⟨h.accounts, (Decidable.not_not.mp hsame).symm⟩
    generalize (if frame.sessionId ≠ buffer.sessionId then buffer.resetSession frame.sessionId
      else buffer) = ready at hready ⊢
    obtain ⟨haccounts, hsession⟩ := hready.1.takeFrame hready.2.symm htaken hmem (hfew _)
    refine ⟨haccounts, fun a ha hataken => ?_⟩
    rw [hsession, hready.2]
    rcases List.mem_append.mp ha with hold | hnew
    · refine Or.inr ⟨frame, ?_, rfl⟩
      exact (List.singleton_sublist.mpr hold).append (List.Sublist.refl [frame])
    · rw [List.mem_singleton.mp hnew]
      exact Or.inl rfl
  · rw [after_of_not htaken]
    refine ⟨h.accounts.of_keeps (keeps_refl buffer) h.accounts.fits
      (extent_append_not htaken frames), fun a ha hataken => ?_⟩
    rcases List.mem_append.mp ha with hold | hnew
    · rcases h.sessions a hold hataken with hcurrent | ⟨b, hsub, hb⟩
      · exact Or.inl hcurrent
      · exact Or.inr ⟨b, hsub.trans (List.sublist_append_left _ _), hb⟩
    · rw [List.mem_singleton.mp hnew] at hataken
      exact absurd hataken htaken

theorem follows_ingestAll (hfew : ∀ sessionId, (filesOf all sessionId).length ≤ trackedFileLimit)
    (hall : ∀ frame ∈ frames, frame ∈ all) (hcontiguous : Contiguous frames) :
    Follows budget all frames (LiveLogBuffer.initial.ingestAll budget frames) := by
  induction frames using List.reverseRecOn with
  | nil =>
    refine ⟨⟨⟨rfl, Nat.zero_le _, rfl, Nat.zero_le _⟩, fun _ => rfl, List.nodup_nil,
      fun _ hmem => absurd hmem List.not_mem_nil, fun _ _ _ => rfl⟩,
      fun _ hmem => absurd hmem List.not_mem_nil⟩
  | append_singleton frames frame ih =>
    have hbefore : Contiguous frames := fun a b c hsub =>
      hcontiguous a b c (hsub.trans (List.sublist_append_left _ _))
    have hfollows := ih (fun other hother => hall other (List.mem_append_left _ hother)) hbefore
    have hlast : LiveLogBuffer.initial.ingestAll budget (frames ++ [frame])
        = (LiveLogBuffer.initial.ingestAll budget frames).after budget frame := by
      unfold LiveLogBuffer.ingestAll
      rw [List.foldl_append]
      rfl
    rw [hlast]
    exact hfollows.step hcontiguous (hall frame (List.mem_append_right _ List.mem_cons_self)) hfew

end run

/-- After every sequence of frames without a return to an earlier session, and within the
caps: the content size is that of the visible lines and within the budget; no byte of a
file of a session is in two places; and each byte that a frame brought, from the first
offset that came of its file on, is in a visible line, in the open line or in a missing
range. -/
theorem viewer_accounts (budget : Nat) (frames : List LiveLogFrame) (hcontiguous : Contiguous frames)
    (hfew : ∀ sessionId, (filesOf frames sessionId).length ≤ trackedFileLimit) :
    (LiveLogBuffer.initial.ingestAll budget frames).retainedByteLength
        = ((LiveLogBuffer.initial.ingestAll budget frames).visibleLines.map (·.byteLength)).sum ∧
    (LiveLogBuffer.initial.ingestAll budget frames).retainedByteLength ≤ budget ∧
    ((LiveLogBuffer.initial.ingestAll budget frames).droppedRangeCount = 0 →
      (∀ source i,
        Span.covered (LiveLogBuffer.initial.ingestAll budget frames).places source i ≤ 1) ∧
      ∀ frame ∈ frames, frame.Taken → ∀ first,
        frames.find? (fun other => other.Taken ∧ other.source = frame.source) = some first →
        ∀ i, first.offset ≤ i → frame.offset ≤ i → i < frame.stop →
          Span.covered (LiveLogBuffer.initial.ingestAll budget frames).places frame.source i = 1) := by
  obtain ⟨haccounts, _⟩ := @follows_ingestAll budget frames frames hfew (fun _ hmem => hmem) hcontiguous
  refine ⟨haccounts.fits.retained, haccounts.fits.within, fun hdropped => ⟨fun source i => ?_, ?_⟩⟩
  · rw [haccounts.covered hdropped]
    exact within_le _ _
  · intro frame hmem htaken first hfirst i hbehind _ hbefore
    obtain ⟨high, hextent⟩ := extent_first hfirst
    obtain ⟨_, _, hextent', hstop⟩ := extent_stop hmem htaken
    rw [hextent] at hextent'
    cases hextent'
    rw [haccounts.covered hdropped, hextent]
    exact if_pos ⟨hbehind, Nat.lt_of_lt_of_le hbefore hstop⟩

/-- A frame, and one behind it with what lies before. -/
def lateFrames : List LiveLogFrame :=
  [{ data := [97, 10], cursor := none, fileId := "a", offset := 2, sessionId := some "s" },
    { data := [98, 10], cursor := none, fileId := "a", offset := 0, sessionId := some "s" }]

theorem lateFrames_contiguous : Contiguous lateFrames := by
  intro a b c hsub
  have hlen := hsub.length_le
  exact absurd hlen (show ¬ 3 ≤ 2 by decide)

theorem viewer_accounts_late :
    Span.covered (LiveLogBuffer.initial.ingestAll 100 lateFrames).places (some "s", "a") 3 = 1 := by
  have hfew : ∀ sessionId, (filesOf lateFrames sessionId).length ≤ trackedFileLimit := by
    intro sessionId
    refine Nat.le_trans (List.dedup_sublist _).length_le ?_
    rw [List.length_map]
    exact Nat.le_trans (List.length_filter_le _ _) (by decide)
  obtain ⟨_, _, hplaces⟩ := viewer_accounts 100 lateFrames lateFrames_contiguous hfew
  exact (hplaces (by decide)).2 _ List.mem_cons_self (by decide) _ rfl 3 (by decide) (by decide) (by decide)

/-- The bytes of a frame that comes late are nowhere. -/
theorem late_frame_lost : Contiguous lateFrames ∧ ∃ frame ∈ lateFrames, frame.Taken ∧ frame.offset = 0 ∧
    (LiveLogBuffer.initial.ingestAll 100 lateFrames).droppedRangeCount = 0 ∧
    Span.covered (LiveLogBuffer.initial.ingestAll 100 lateFrames).places frame.source 0 = 0 :=
  ⟨lateFrames_contiguous, _, List.mem_cons_of_mem _ List.mem_cons_self, by decide, rfl, by decide,
    by decide⟩

end CameraLogs.Viewer

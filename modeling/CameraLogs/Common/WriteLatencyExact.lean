import CameraLogs.Common.WriteLatency
import Mathlib.Data.List.Induction
import Mathlib.Data.List.Perm.Basic

/-!
# The latency histogram is conservative

Whatever the calls are, no key is ever missing when a bucket is taken from the histogram, so that
the histogram stays the sum of the buckets, and both are what the retained samples come to.
-/

namespace CameraLogs.Common

open Lib WriteLatency

variable {s : WriteLatency} {kept : List WriteSample} {o : Observed} {calls : List LatencyCall}

/-! ## What is kept -/

/-- The samples of a second. -/
def ofSecond (kept : List WriteSample) (second : ℤ) : List WriteSample :=
  kept.filter fun x => x.second = second

def bounds (kept : List WriteSample) : List ℕ := kept.map WriteSample.bound

/-- The samples without those of a second. -/
def withoutSecond (kept : List WriteSample) (second : ℤ) : List WriteSample :=
  kept.filter fun x => x.second ≠ second

/-- Buckets and histogram count the samples that are kept. -/
structure Kept (s : WriteLatency) (kept : List WriteSample) : Prop where
  seconds : (s.buckets.map Prod.fst).Nodup
  bucket : ∀ entry ∈ s.buckets,
    entry.2.Is fun bound => ((bounds (ofSecond kept entry.1)).count bound : ℤ)
  there : ∀ second, second ∈ s.buckets.map Prod.fst ↔ ∃ x ∈ kept, x.second = second
  histogram : s.histogram.Is fun bound => ((bounds kept).count bound : ℤ)
  samples : s.samples = kept.length

theorem kept_initial : Kept .initial [] where
  seconds := List.nodup_nil
  bucket := fun _ hentry => absurd hentry List.not_mem_nil
  there := by
    intro second
    unfold WriteLatency.initial
    simp
  histogram := Counts.is_nil.congr fun _ => rfl
  samples := rfl

/-- Samples of a second and the others are all of them. -/
theorem count_split (kept : List WriteSample) (second : ℤ) (bound : ℕ) :
    (bounds (ofSecond kept second)).count bound + (bounds (withoutSecond kept second)).count bound =
      (bounds kept).count bound := by
  have hperm := List.filter_append_perm (fun x : WriteSample => decide (x.second = second)) kept
  have hcount := (hperm.map WriteSample.bound).count_eq bound
  rw [List.map_append, List.count_append] at hcount
  unfold bounds ofSecond withoutSecond
  rw [← hcount]
  simp only [decide_not]

theorem length_split (kept : List WriteSample) (second : ℤ) :
    (ofSecond kept second).length + (withoutSecond kept second).length = kept.length := by
  have hperm := List.filter_append_perm (fun x : WriteSample => decide (x.second = second)) kept
  have hlength := hperm.length_eq
  rw [List.length_append] at hlength
  unfold ofSecond withoutSecond
  rw [← hlength]
  simp only [decide_not]

theorem ofSecond_withoutSecond {second other : ℤ} (h : other ≠ second) :
    ofSecond (withoutSecond kept second) other = ofSecond kept other := by
  unfold ofSecond withoutSecond
  rw [List.filter_filter]
  refine List.filter_congr fun x _ => ?_
  by_cases hx : x.second = other
  · simp [hx, h]
  · simp [hx]

/-- A bucket is dropped with all of its samples, and none of its keys is missing. -/
theorem Kept.dropBucket (h : Kept s kept) {entry : ℤ × Counts ℕ} (hentry : entry ∈ s.buckets) :
    ∃ t, s.dropBucket entry = some t ∧ Kept t (withoutSecond kept entry.1) ∧
      t.buckets = s.buckets.filter (fun other => other.1 ≠ entry.1) ∧ t.pending = s.pending := by
  have hbucket := h.bucket entry hentry
  have hthere : ∀ bound ∈ entry.2.map Prod.fst, ((bounds kept).count bound : ℤ) ≠ 0 := by
    intro bound hbound
    have hcount := (hbucket.mem bound).mp hbound
    have hsplit := count_split kept entry.1 bound
    omega
  obtain ⟨left, hremove, hleft⟩ := h.histogram.removeAll hbucket.nodup hthere
  unfold WriteLatency.dropBucket
  rw [hremove]
  refine ⟨_, rfl, ⟨?_, ?_, ?_, ?_, ?_⟩, rfl, rfl⟩
  · exact h.seconds.sublist (List.filter_sublist.map Prod.fst)
  · intro other hother
    obtain ⟨hmem, hne⟩ := List.mem_filter.mp hother
    rw [ofSecond_withoutSecond (of_decide_eq_true hne)]
    exact h.bucket other hmem
  · intro second
    have hfilter : second ∈ (s.buckets.filter fun other => other.1 ≠ entry.1).map Prod.fst ↔
        second ∈ s.buckets.map Prod.fst ∧ second ≠ entry.1 := by
      simp only [List.mem_map, List.mem_filter, decide_eq_true_eq]
      refine ⟨?_, ?_⟩
      · rintro ⟨other, ⟨hmem, hne⟩, rfl⟩
        exact ⟨⟨other, hmem, rfl⟩, hne⟩
      · rintro ⟨⟨other, hmem, rfl⟩, hne⟩
        exact ⟨other, ⟨hmem, hne⟩, rfl⟩
    rw [hfilter, h.there]
    unfold withoutSecond
    simp only [List.mem_filter, decide_eq_true_eq]
    refine ⟨?_, ?_⟩
    · rintro ⟨⟨x, hx, rfl⟩, hne⟩
      exact ⟨x, ⟨hx, hne⟩, rfl⟩
    · rintro ⟨x, ⟨hx, hne⟩, rfl⟩
      exact ⟨⟨x, hx, rfl⟩, hne⟩
  · refine hleft.congr fun bound => ?_
    have hsplit := count_split kept entry.1 bound
    rw [hbucket.count bound]
    omega
  · have htotal := hbucket.total
    have hlength := length_split kept entry.1
    unfold bounds at htotal
    rw [List.length_map] at htotal
    show s.samples - entry.2.total = _
    rw [h.samples, htotal]
    omega

theorem mem_seconds_cons {entry : ℤ × Counts ℕ} {entries : List (ℤ × Counts ℕ)} {second : ℤ}
    (h : second ≠ entry.1) :
    second ∈ (entry :: entries).map Prod.fst ↔ second ∈ entries.map Prod.fst := by
  rw [List.map_cons, List.mem_cons]
  exact or_iff_right h

/-- Expiry drops the samples of the seconds that have expired, of those gone through. -/
theorem Kept.expireAll (h : Kept s kept) (cutoff : ℚ) {entries : List (ℤ × Counts ℕ)}
    (hnodup : (entries.map Prod.fst).Nodup) (hmem : ∀ entry ∈ entries, entry ∈ s.buckets) :
    ∃ t, WriteLatency.expireAll cutoff entries s = some t ∧
      Kept t (kept.filter fun x => cutoff < x.second + 1 ∨ x.second ∉ entries.map Prod.fst) ∧
      t.pending = s.pending := by
  induction entries generalizing s kept with
  | nil =>
    refine ⟨s, rfl, ?_, rfl⟩
    simpa using h
  | cons entry entries ih =>
    rw [List.map_cons, List.nodup_cons] at hnodup
    unfold WriteLatency.expireAll
    split
    next hlive =>
      obtain ⟨t, ht, hkept, hpending⟩ := ih h hnodup.2 fun other hother =>
        hmem other (List.mem_cons_of_mem _ hother)
      refine ⟨t, ht, ?_, hpending⟩
      -- the samples of this second are live
      have hsame : (kept.filter fun x =>
          cutoff < x.second + 1 ∨ x.second ∉ (entry :: entries).map Prod.fst) =
          kept.filter fun x => cutoff < x.second + 1 ∨ x.second ∉ entries.map Prod.fst := by
        refine List.filter_congr fun x _ => ?_
        by_cases hx : x.second = entry.1
        · simp [hx, hlive]
        · simp only [mem_seconds_cons hx]
      rw [hsame]
      exact hkept
    next hlive =>
      obtain ⟨dropped, hdropped, hkept, hbuckets, hsame⟩ := h.dropBucket (hmem entry List.mem_cons_self)
      obtain ⟨t, ht, hfinal, hpending⟩ := ih hkept hnodup.2 fun other hother => by
        rw [hbuckets]
        refine List.mem_filter.mpr ⟨hmem other (List.mem_cons_of_mem _ hother), decide_eq_true ?_⟩
        rintro heq
        exact hnodup.1 (heq ▸ List.mem_map_of_mem hother)
      refine ⟨t, ?_, ?_, hpending.trans hsame⟩
      · rw [hdropped]
        exact ht
      · have hsplit : (kept.filter fun x =>
            cutoff < x.second + 1 ∨ x.second ∉ (entry :: entries).map Prod.fst) =
            (withoutSecond kept entry.1).filter fun x =>
              cutoff < x.second + 1 ∨ x.second ∉ entries.map Prod.fst := by
          unfold withoutSecond
          rw [List.filter_filter]
          refine List.filter_congr fun x _ => ?_
          by_cases hx : x.second = entry.1
          · simp [hx, hlive]
          · simp only [mem_seconds_cons hx, hx, ne_eq, not_false_iff, decide_true, Bool.and_true]
        rw [hsplit]
        exact hfinal

theorem Kept.expire (h : Kept s kept) (instant : ℚ) :
    ∃ t, s.expire instant = some t ∧
      Kept t (kept.filter fun x => instant - latencyWindow < x.second + 1) ∧
      t.pending = s.pending := by
  obtain ⟨t, ht, hkept, hpending⟩ := h.expireAll (instant - latencyWindow) h.seconds
    fun entry hentry => hentry
  refine ⟨t, ht, ?_, hpending⟩
  have hsame : (kept.filter fun x =>
      instant - latencyWindow < x.second + 1 ∨ x.second ∉ s.buckets.map Prod.fst) =
      kept.filter fun x => instant - latencyWindow < x.second + 1 := by
    refine List.filter_congr fun x hx => ?_
    have hthere := (h.there x.second).mpr ⟨x, hx, rfl⟩
    simp [hthere]
  rw [← hsame]
  exact hkept

theorem count_bounds_append (x : WriteSample) (bound : ℕ) :
    ((bounds (kept ++ [x])).count bound : ℤ) =
      Function.update (fun bound => ((bounds kept).count bound : ℤ)) x.bound
        ((bounds kept).count x.bound + 1) bound := by
  unfold bounds
  rw [List.map_append, List.count_append]
  by_cases h : bound = x.bound
  · subst h
    simp
  · rw [Function.update_of_ne h]
    simp [Ne.symm h]

theorem ofSecond_append (x : WriteSample) (second : ℤ) :
    ofSecond (kept ++ [x]) second =
      if x.second = second then ofSecond kept second ++ [x] else ofSecond kept second := by
  unfold ofSecond
  rw [List.filter_append]
  by_cases h : x.second = second
  · simp [h]
  · simp [h]

/-- A sample is counted in its second and in the histogram. -/
theorem Kept.record (h : Kept s kept) (x : WriteSample) :
    Kept (s.record x.second x.bound) (kept ++ [x]) := by
  have hpos (xs : List WriteSample) : ((bounds xs).count x.bound : ℤ) + 1 ≠ 0 := by omega
  -- the bucket there is, or an empty one
  have hbucket : (((Dict.lookup Prod.fst x.second s.buckets).map Prod.snd).getD []).Is
      fun bound => ((bounds (ofSecond kept x.second)).count bound : ℤ) := by
    cases hfind : Dict.lookup Prod.fst x.second s.buckets with
    | some entry =>
      obtain ⟨hmem, hsecond⟩ := Dict.lookup_some hfind
      rw [← hsecond]
      exact h.bucket entry hmem
    | none =>
      have hnone : ofSecond kept x.second = [] := by
        unfold ofSecond
        rw [List.filter_eq_nil_iff]
        intro y hy hsame
        exact Dict.lookup_none.mp hfind ((h.there x.second).mpr ⟨y, hy, of_decide_eq_true hsame⟩)
      rw [hnone]
      exact Counts.is_nil.congr fun _ => rfl
  refine ⟨?_, ?_, ?_, ?_, ?_⟩
  · exact Dict.nodup_upsert h.seconds
  · intro entry hentry
    rw [ofSecond_append]
    have hnodup : ((s.record x.second x.bound).buckets.map Prod.fst).Nodup :=
      Dict.nodup_upsert h.seconds
    have hlookup := Dict.lookup_eq_some hnodup hentry
    unfold WriteLatency.record at hlookup
    rw [Dict.lookup_upsert] at hlookup
    by_cases hsecond : x.second = entry.1
    · rw [if_pos hsecond] at hlookup ⊢
      cases hlookup
      exact (hbucket.add (hpos _)).congr fun bound => (count_bounds_append x bound).symm
    · rw [if_neg hsecond] at hlookup ⊢
      exact h.bucket entry (Dict.lookup_some hlookup).1
  · intro second
    unfold WriteLatency.record
    rw [Dict.mem_map_upsert, h.there]
    simp only [List.mem_append, List.mem_singleton]
    refine ⟨?_, ?_⟩
    · rintro (rfl | ⟨y, hy, hsecond⟩)
      · exact ⟨x, .inr rfl, rfl⟩
      · exact ⟨y, .inl hy, hsecond⟩
    · rintro ⟨y, hy | rfl, hsecond⟩
      · exact .inr ⟨y, hy, hsecond⟩
      · exact .inl hsecond.symm
  · exact (h.histogram.add (hpos _)).congr fun bound => (count_bounds_append x bound).symm
  · show s.samples + 1 = _
    rw [h.samples, List.length_append, List.length_singleton]
    exact (Nat.cast_add _ _).symm

theorem Kept.of_pending {pending : Option ℚ} (h : Kept s kept) : Kept { s with pending } kept :=
  ⟨h.seconds, h.bucket, h.there, h.histogram, h.samples⟩

/-! ## Calls -/

/-- When a call reads the clock. -/
def LatencyCall.instant : LatencyCall → Option ℚ
  | .start instant => some instant
  | .finish instant => some instant
  | .abort => none
  | .snapshot instant => some instant

/-- A clock that does not go back. -/
def Monotonic (calls : List LatencyCall) : Prop :=
  (calls.filterMap LatencyCall.instant).Pairwise (· ≤ ·)

instance : Decidable (Monotonic calls) := inferInstanceAs (Decidable (List.Pairwise _ _))

/-- The state and what has been observed, up to an instant. -/
structure Agrees (s : WriteLatency) (o : Observed) : Prop where
  kept : Kept s o.retained
  pending : s.pending = o.pending
  last : ∀ x ∈ o.finished, ∀ last ∈ o.expiredAt, x.instant ≤ last

/-- Nothing observed is later than an instant. -/
structure Observed.UpTo (o : Observed) (instant : ℚ) : Prop where
  pending : ∀ since ∈ o.pending, since ≤ instant
  finished : ∀ x ∈ o.finished, x.instant ≤ instant
  expiredAt : ∀ last ∈ o.expiredAt, last ≤ instant
  expired : o.finished ≠ [] → o.expiredAt ≠ none

/-- What is retained after one more expiry. -/
theorem retained_expired {instant : ℚ} (h : ∀ last ∈ o.expiredAt, last ≤ instant) :
    (o.retained.filter fun x => instant - latencyWindow < x.second + 1) =
      o.finished.filter fun x => instant - latencyWindow < x.second + 1 := by
  unfold Observed.retained
  rw [List.filter_filter]
  refine List.filter_congr fun x _ => ?_
  by_cases hx : instant - latencyWindow < x.second + 1
  · have hearlier : o.expiredAt.all
        (fun last => decide (last - latencyWindow < x.second + 1)) = true := by
      rw [Option.all_eq_true]
      intro last hlast
      have hle := h last hlast
      exact decide_eq_true (by linarith)
    simp [hx, hearlier]
  · simp [hx]

theorem second_live (x : WriteSample) : x.instant - latencyWindow < x.second + 1 := by
  have hfloor := Int.lt_floor_add_one x.instant
  unfold WriteSample.second latencyWindow
  linarith

theorem Agrees.snapshot (h : Agrees s o) {instant : ℚ} (hup : o.UpTo instant) :
    ∃ t result, s.snapshot instant = some (t, result) ∧ Agrees t (o.observe (.snapshot instant)) ∧
      s.expire instant = some t := by
  obtain ⟨t, ht, hkept, hpending⟩ := h.kept.expire instant
  rw [retained_expired hup.expiredAt] at hkept
  unfold WriteLatency.snapshot
  rw [ht]
  refine ⟨t, _, rfl, ⟨hkept, hpending.trans h.pending, fun x hx last hlast => ?_⟩, rfl⟩
  cases hlast
  exact hup.finished x hx

theorem Agrees.finish (h : Agrees s o) {instant : ℚ} (hup : o.UpTo instant) :
    ∃ t, s.finish instant = some t ∧ Agrees t (o.observe (.finish instant)) := by
  unfold WriteLatency.finish Observed.observe
  dsimp only
  rw [← h.pending]
  cases hpending : s.pending with
  | none => exact ⟨s, rfl, h⟩
  | some since =>
    obtain ⟨t, ht, hkept, -⟩ := h.kept.expire instant
    rw [retained_expired hup.expiredAt] at hkept
    refine ⟨t.record ⌊instant⌋ (upperBound (max 0 (instant - since) * 1000)), ?_, ?_, rfl, ?_⟩
    · show (s.expire instant).map _ = _
      rw [ht]
      rfl
    · have hrecord := hkept.record ⟨instant, max 0 (instant - since) * 1000⟩
      have hlive := second_live ⟨instant, max 0 (instant - since) * 1000⟩
      have hretained : Observed.retained
          { pending := none
            finished := o.finished ++ [⟨instant, max 0 (instant - since) * 1000⟩]
            expiredAt := some instant } =
          (o.finished.filter fun x => instant - latencyWindow < x.second + 1) ++
            [⟨instant, max 0 (instant - since) * 1000⟩] := by
        unfold Observed.retained
        rw [List.filter_append, List.filter_singleton]
        simp only [Option.all_some]
        have hlive' : decide (instant - latencyWindow <
            ((⟨instant, max 0 (instant - since) * 1000⟩ : WriteSample).second : ℚ) + 1) = true :=
          decide_eq_true hlive
        rw [hlive']
        rfl
      rw [hretained]
      exact hrecord
    · intro x hx last hlast
      cases hlast
      obtain hold | hnew := List.mem_append.mp hx
      · exact hup.finished x hold
      · rw [List.mem_singleton.mp hnew]

theorem Agrees.apply (h : Agrees s o) {call : LatencyCall}
    (hup : ∀ instant ∈ call.instant, o.UpTo instant) :
    ∃ t, s.apply call = some t ∧ Agrees t (o.observe call) := by
  cases call with
  | start instant =>
    refine ⟨s.start instant, rfl, h.kept.of_pending, ?_, h.last⟩
    show s.pending.or (some instant) = o.pending.or (some instant)
    rw [h.pending]
  | finish instant => exact h.finish (hup instant rfl)
  | abort => exact ⟨s.abort, rfl, h.kept.of_pending, rfl, h.last⟩
  | snapshot instant =>
    obtain ⟨t, result, hsnapshot, hagrees, -⟩ := h.snapshot (hup instant rfl)
    refine ⟨t, ?_, hagrees⟩
    show (s.snapshot instant).map Prod.fst = _
    rw [hsnapshot]
    rfl

theorem Observed.UpTo.observe {instant : ℚ} (h : o.UpTo instant) {call : LatencyCall}
    (hcall : ∀ now ∈ call.instant, now ≤ instant) : (o.observe call).UpTo instant := by
  cases call with
  | start now =>
    refine ⟨fun since hsince => ?_, h.finished, h.expiredAt, h.expired⟩
    have hor : o.pending.or (some now) = some since := hsince
    obtain hold | ⟨-, hnew⟩ := Option.or_eq_some_iff.mp hor
    · exact h.pending since hold
    · cases hnew
      exact hcall now rfl
  | abort => exact ⟨fun since hsince => (by cases hsince), h.finished, h.expiredAt, h.expired⟩
  | snapshot now =>
    refine ⟨h.pending, h.finished, fun last hlast => ?_, fun _ => Option.some_ne_none now⟩
    cases hlast
    exact hcall now rfl
  | finish now =>
    unfold Observed.observe
    dsimp only
    split
    next => exact h
    next since hsince =>
      refine ⟨fun since hsince => (by cases hsince), fun x hx => ?_, fun last hlast => ?_,
        fun _ => Option.some_ne_none now⟩
      · obtain hold | hnew := List.mem_append.mp hx
        · exact h.finished x hold
        · rw [List.mem_singleton.mp hnew]
          exact hcall now rfl
      · cases hlast
        exact hcall now rfl

theorem observed_append (calls : List LatencyCall) (call : LatencyCall) :
    observed (calls ++ [call]) = (observed calls).observe call := by
  unfold observed
  rw [List.foldl_append]
  rfl

theorem latency_run_append (calls : List LatencyCall) (call : LatencyCall) :
    WriteLatency.run (calls ++ [call]) = (WriteLatency.run calls).bind (WriteLatency.apply · call) := by
  unfold WriteLatency.run
  rw [List.foldlM_append]
  cases List.foldlM WriteLatency.apply .initial calls with
  | none => rfl
  | some s =>
    show (s.apply call).bind some = s.apply call
    exact Option.bind_fun_some _

/-- Nothing observed is later than any instant at or after the last. -/
theorem upTo_observed {instant : ℚ}
    (hlater : ∀ now ∈ calls.filterMap LatencyCall.instant, now ≤ instant) :
    (observed calls).UpTo instant := by
  induction calls using List.reverseRecOn with
  | nil =>
    exact ⟨fun since hsince => (by cases hsince), fun x hx => absurd hx List.not_mem_nil,
      fun last hlast => (by cases hlast), fun hne => absurd rfl hne⟩
  | append_singleton calls call ih =>
    rw [List.filterMap_append] at hlater
    rw [observed_append]
    refine (ih fun now hnow => hlater now (List.mem_append_left _ hnow)).observe fun now hnow => ?_
    refine hlater now (List.mem_append_right _ (List.mem_filterMap.mpr ⟨call, ?_, hnow⟩))
    exact List.mem_singleton_self call

theorem agrees_run (hclock : Monotonic calls) :
    ∃ s, WriteLatency.run calls = some s ∧ Agrees s (observed calls) := by
  induction calls using List.reverseRecOn with
  | nil => exact ⟨.initial, rfl, kept_initial, rfl, fun x hx => absurd hx List.not_mem_nil⟩
  | append_singleton calls call ih =>
    unfold Monotonic at hclock
    rw [List.filterMap_append] at hclock
    obtain ⟨hbefore, -, hacross⟩ := List.pairwise_append.mp hclock
    obtain ⟨s, hs, hagrees⟩ := ih hbefore
    have hup : ∀ instant ∈ call.instant, (observed calls).UpTo instant :=
      fun instant hinstant => upTo_observed fun now hnow => hacross now hnow instant
        (List.mem_filterMap.mpr ⟨call, List.mem_singleton_self call, hinstant⟩)
    obtain ⟨t, ht, hnext⟩ := hagrees.apply hup
    rw [observed_append, latency_run_append, hs]
    exact ⟨t, ht, hnext⟩

/-! ## What is reported -/

/-- The histogram is the sum of the buckets. -/
theorem Kept.histogram_sum (h : Kept s kept) (bound : ℕ) :
    s.histogram.count bound = (s.buckets.map fun entry => entry.2.count bound).sum := by
  -- the seconds of the samples with the bound
  let seconds := (kept.filter fun x => x.bound = bound).map WriteSample.second
  have hbucket : ∀ entry ∈ s.buckets, entry.2.count bound = (seconds.count entry.1 : ℤ) := by
    intro entry hentry
    rw [(h.bucket entry hentry).count]
    unfold bounds ofSecond
    simp only [seconds, List.count_eq_countP, List.countP_map, List.countP_filter]
    refine congrArg _ (List.countP_congr fun x _ => ?_)
    simp [and_comm]
  have hall : seconds.countP (· ∈ s.buckets.map Prod.fst) = seconds.length := by
    rw [List.countP_eq_length]
    intro second hsecond
    obtain ⟨x, hx, hsame⟩ := List.mem_map.mp hsecond
    exact decide_eq_true ((h.there second).mpr ⟨x, List.mem_of_mem_filter hx, hsame⟩)
  have hlength : (bounds kept).count bound = seconds.length := by
    unfold bounds
    simp only [seconds, List.length_map, List.count_eq_countP, List.countP_map]
    rw [List.countP_eq_length_filter]
    refine congrArg List.length (List.filter_congr fun x _ => ?_)
    exact Bool.eq_iff_iff.mpr (by simp)
  rw [h.histogram.count, List.map_congr_left hbucket, hlength, ← hall,
    ← Counts.sum_count h.seconds, List.map_map]
  rfl

/-- The seconds with a bucket are those of one window. -/
theorem Agrees.buckets_length (h : Agrees s o) (hexpired : o.finished ≠ [] → o.expiredAt ≠ none) :
    s.buckets.length ≤ 61 := by
  cases hlast : o.expiredAt with
  | none =>
    have hnone : o.retained = [] := by
      have hfinished : o.finished = [] := by
        by_contra hne
        exact hexpired hne hlast
      unfold Observed.retained
      rw [hfinished]
      rfl
    have hempty : s.buckets = [] := by
      by_contra hne
      obtain ⟨entry, hentry⟩ := List.exists_mem_of_ne_nil _ hne
      obtain ⟨x, hx, -⟩ := (h.kept.there entry.1).mp (List.mem_map_of_mem hentry)
      rw [hnone] at hx
      cases hx
    rw [hempty]
    exact Nat.zero_le _
  | some last =>
    have hrange : (s.buckets.map Prod.fst).toFinset ⊆ Finset.Icc (⌊last⌋ - 60) ⌊last⌋ := by
      intro second hsecond
      obtain ⟨x, hx, rfl⟩ := (h.kept.there second).mp (List.mem_toFinset.mp hsecond)
      obtain ⟨hfinished, hlive⟩ := List.mem_filter.mp hx
      rw [hlast, Option.all_some] at hlive
      have hcutoff : last - latencyWindow < x.second + 1 := of_decide_eq_true hlive
      unfold latencyWindow at hcutoff
      have hupto : x.second ≤ ⌊last⌋ := Int.floor_le_floor (h.last x hfinished last hlast)
      have hfloor := Int.floor_le last
      have hfrom : ((⌊last⌋ - 61 : ℤ) : ℚ) < (x.second : ℚ) := by
        push_cast
        linarith
      have hfrom' : ⌊last⌋ - 61 < x.second := by exact_mod_cast hfrom
      exact Finset.mem_Icc.mpr ⟨by omega, hupto⟩
    have hcard := Finset.card_le_card hrange
    rw [List.toFinset_card_of_nodup h.kept.seconds, List.length_map, Int.card_Icc] at hcard
    omega

/-- The rank that is reported. -/
def rankOf (samples : ℕ) : ℕ := (⌈(samples : ℚ) * 99 / 100⌉).toNat

theorem rankOf_bounds {samples : ℕ} (h : 0 < samples) :
    1 ≤ rankOf samples ∧ rankOf samples ≤ samples ∧
      ((rankOf samples : ℕ) : ℤ) = ⌈(samples : ℚ) * 99 / 100⌉ := by
  have hpos : (0 : ℚ) < samples := Nat.cast_pos.mpr h
  have hlow : 0 < ⌈(samples : ℚ) * 99 / 100⌉ := Int.ceil_pos.mpr (by linarith)
  have hhigh : ⌈(samples : ℚ) * 99 / 100⌉ ≤ samples :=
    Int.ceil_le.mpr (by push_cast; linarith)
  unfold rankOf
  omega

/-- The reported percentile is the bound of the delay of the rank. -/
theorem Kept.p99 (h : Kept s kept) (hne : kept ≠ []) :
    ∃ delay, nearestRank (rankOf kept.length) (kept.map WriteSample.delay) = some delay ∧
      s.histogram.reach ⌈(s.samples : ℚ) * 99 / 100⌉ 0
        ((s.histogram.map Prod.fst).insertionSort (· ≤ ·)) = some (upperBound delay) := by
  obtain ⟨hlow, hhigh, hrank⟩ := rankOf_bounds (List.length_pos_iff.mpr hne)
  have hlength : rankOf kept.length ≤ (kept.map WriteSample.delay).length := by
    rwa [List.length_map]
  obtain ⟨delay, hdelay⟩ := nearestRank_isSome hlow hlength
  refine ⟨delay, hdelay, ?_⟩
  have hsamples : ⌈(s.samples : ℚ) * 99 / 100⌉ = rankOf kept.length := by
    have hcast : (((kept.length : ℕ) : ℤ) : ℚ) = (kept.length : ℚ) := Int.cast_natCast _
    rw [hrank, ← hcast, ← h.samples]
  have hbounds : bounds kept = (kept.map WriteSample.delay).map upperBound := by
    rw [List.map_map]
    rfl
  have hreach := reach_eq_nearestRank h.histogram hlow (by
    rw [hbounds, List.length_map]
    exact hlength)
  rw [hsamples, hreach, hbounds, nearestRank_map upperBound_mono hlow hlength, hdelay]
  rfl

theorem delay_nonneg (calls : List LatencyCall) : ∀ x ∈ (observed calls).finished, 0 ≤ x.delay := by
  induction calls using List.reverseRecOn with
  | nil => exact fun x hx => absurd hx List.not_mem_nil
  | append_singleton calls call ih =>
    rw [observed_append]
    cases call with
    | finish instant =>
      unfold Observed.observe
      dsimp only
      split
      next => exact ih
      next since hsince =>
        intro x hx
        obtain hold | hnew := List.mem_append.mp hx
        · exact ih x hold
        · rw [List.mem_singleton.mp hnew]
          exact mul_nonneg (le_max_left _ _) (by norm_num)
    | start instant => exact ih
    | abort => exact ih
    | snapshot instant => exact ih

end CameraLogs.Common

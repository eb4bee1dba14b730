import CameraLogs.Lib.Paging
import CameraLogs.Resources.MetricStore
import Mathlib.Data.List.Induction
import Mathlib.Data.List.Perm.Subperm

/-!
# What the metric store keeps

What is stored of a minute is the latest of the samples saved for it, to the millisecond,
and among equals the one whose save took effect last: `latest` says so of a list of samples,
and the invariant that each minute's entry is the `latest` of the saves that have returned.

A bucket holds distinct minutes of one hour, so it never holds more than sixty and a minute
that is new to it finds room. The pages of a history are keyset pages of the range.
-/

namespace CameraLogs.Resources

open CameraLogs.Lib

variable {ν : Type}

/-! ## Hours, minutes and milliseconds -/

section Instants

variable {t t' : Int}

theorem bucketStart_storedTime : bucketStart (storedTime t) = bucketStart t := by
  simp only [bucketStart, storedTime, HOUR_MICROS]
  omega

theorem minuteKey_storedTime : minuteKey (storedTime t) = minuteKey t := by
  simp only [minuteKey, storedTime, MINUTE_MICROS]
  omega

theorem storedTime_storedTime : storedTime (storedTime t) = storedTime t := by
  simp only [storedTime]
  omega

theorem storedTime_le : storedTime t ≤ t := by
  simp only [storedTime]
  omega

theorem le_storedTime (hstored : storedTime t = t) (hle : t ≤ t') : t ≤ storedTime t' := by
  simp only [storedTime] at hstored ⊢
  omega

theorem storedTime_lt (hlt : t < storedTime t') : storedTime t < storedTime t' :=
  lt_of_le_of_lt storedTime_le hlt

theorem bucketStart_mono (hle : t ≤ t') : bucketStart t ≤ bucketStart t' := by
  simp only [bucketStart, HOUR_MICROS]
  omega

theorem lt_of_bucketStart_lt (hlt : bucketStart t < bucketStart t') : t < t' := by
  simp only [bucketStart, HOUR_MICROS] at hlt
  omega

/-- The hour of a minute: both truncations agree. -/
theorem bucketStart_eq : bucketStart t = minuteKey t / 60 * HOUR_MICROS := by
  simp only [bucketStart, minuteKey, HOUR_MICROS, MINUTE_MICROS]
  omega

end Instants

/-! ## The latest of a list of samples -/

/-- A save on top of what is stored of its minute. -/
def latestStep (stored : Option (MetricEntry ν)) (sample : MetricSample ν) :
    Option (MetricEntry ν) :=
  if stored.any fun existing => sample.sampledAt < existing.sampledAt then stored
  else some sample.entry

def latest (samples : List (MetricSample ν)) : Option (MetricEntry ν) :=
  samples.foldl latestStep none

theorem latest_append (samples : List (MetricSample ν)) (sample : MetricSample ν) :
    latest (samples ++ [sample]) = latestStep (latest samples) sample := by
  simp [latest]

/-- The last of the greatest: nothing before it is later, and all after it are earlier. -/
def LastGreatest (sample : MetricSample ν) (samples : List (MetricSample ν)) : Prop :=
  ∃ pre post, samples = pre ++ sample :: post ∧
    (∀ other ∈ pre, storedTime other.sampledAt ≤ storedTime sample.sampledAt) ∧
    ∀ other ∈ post, storedTime other.sampledAt < storedTime sample.sampledAt

theorem latest_eq_none {samples : List (MetricSample ν)} : latest samples = none ↔ samples = [] := by
  constructor
  · intro h
    cases samples using List.reverseRecOn with
    | nil => rfl
    | append_singleton init sample _ =>
      rw [latest_append, latestStep] at h
      split at h
      · rename_i hnewer
        rw [h] at hnewer
        cases hnewer
      · cases h
  · intro h
    rw [h]
    rfl

/-- What is kept of a list of samples is the last of its greatest ones. -/
theorem latest_lastGreatest {samples : List (MetricSample ν)} {entry : MetricEntry ν}
    (h : latest samples = some entry) :
    ∃ sample, entry = sample.entry ∧ LastGreatest sample samples := by
  induction samples using List.reverseRecOn generalizing entry with
  | nil => cases h
  | append_singleton init sample ih =>
    rw [latest_append, latestStep] at h
    split at h
    · rename_i hnewer
      rw [h, Option.any_some, decide_eq_true_eq] at hnewer
      obtain ⟨kept, rfl, pre, post, rfl, hpre, hpost⟩ := ih h
      refine ⟨kept, rfl, pre, post ++ [sample], by simp, hpre, ?_⟩
      intro other hother
      obtain hin | hlast := List.mem_append.mp hother
      · exact hpost other hin
      · rw [List.mem_singleton.mp hlast]
        exact storedTime_lt hnewer
    · rename_i hnotNewer
      cases h
      refine ⟨sample, rfl, init, [], rfl, ?_, nofun⟩
      intro other hother
      obtain ⟨kept, hkept⟩ : ∃ kept, latest init = some kept := by
        cases hinit : latest init with
        | some kept => exact ⟨kept, rfl⟩
        | none =>
          rw [latest_eq_none.mp hinit] at hother
          cases hother
      obtain ⟨greatest, rfl, pre, post, rfl, hpre, hpost⟩ := ih hkept
      have hle : storedTime greatest.sampledAt ≤ storedTime sample.sampledAt := by
        rw [hkept, Option.any_some, decide_eq_true_eq, not_lt] at hnotNewer
        exact le_storedTime storedTime_storedTime hnotNewer
      obtain hin | hrest := List.mem_append.mp hother
      · exact (hpre other hin).trans hle
      · obtain rfl | hin := List.mem_cons.mp hrest
        · exact hle
        · exact (hpost other hin).le.trans hle

/-- No two different samples of the list are stored under one instant. -/
def Apart (samples : List (MetricSample ν)) : Prop :=
  ∀ a ∈ samples, ∀ b ∈ samples, storedTime a.sampledAt = storedTime b.sampledAt → a = b

theorem LastGreatest.mem {sample : MetricSample ν} {samples : List (MetricSample ν)}
    (h : LastGreatest sample samples) : sample ∈ samples := by
  obtain ⟨pre, post, rfl, -, -⟩ := h
  simp

theorem LastGreatest.le {sample other : MetricSample ν} {samples : List (MetricSample ν)}
    (h : LastGreatest sample samples) (hother : other ∈ samples) :
    storedTime other.sampledAt ≤ storedTime sample.sampledAt := by
  obtain ⟨pre, post, rfl, hpre, hpost⟩ := h
  obtain hin | hrest := List.mem_append.mp hother
  · exact hpre other hin
  · obtain rfl | hin := List.mem_cons.mp hrest
    · exact le_rfl
    · exact (hpost other hin).le

/-- Without ties the order of the samples does not matter. -/
theorem latest_perm {samples samples' : List (MetricSample ν)} (hperm : samples.Perm samples')
    (hapart : Apart samples) : latest samples = latest samples' := by
  cases h : latest samples with
  | none =>
    rw [latest_eq_none] at h
    subst h
    rw [List.nil_perm.mp hperm]
    rfl
  | some entry =>
    cases h' : latest samples' with
    | none =>
      rw [latest_eq_none] at h'
      subst h'
      rw [List.perm_nil.mp hperm] at h
      cases h
    | some entry' =>
      obtain ⟨sample, rfl, hsample⟩ := latest_lastGreatest h
      obtain ⟨sample', rfl, hsample'⟩ := latest_lastGreatest h'
      have hmem' := hperm.mem_iff.mpr hsample'.mem
      have hle := hsample'.le (hperm.mem_iff.mp hsample.mem)
      rw [hapart sample hsample.mem sample' hmem' (le_antisymm hle (hsample.le hmem'))]

/-! ## A bucket -/

/-- The entry is of the hour that starts at `start`, under its own minute. -/
structure EntryOk (start : Int) (entry : MetricEntry ν) : Prop where
  hour : bucketStart entry.sampledAt = start
  minute : entry.minute = minuteKey entry.sampledAt
  stored : storedTime entry.sampledAt = entry.sampledAt

structure BucketOk (bucket : MetricBucket ν) : Prop where
  entries : ∀ entry ∈ bucket.samples, EntryOk bucket.bucketStart entry
  minutes : (bucket.samples.map (·.minute)).Nodup

theorem entryOk_entry (sample : MetricSample ν) :
    EntryOk (bucketStart sample.sampledAt) sample.entry where
  hour := bucketStart_storedTime
  minute := minuteKey_storedTime.symm
  stored := storedTime_storedTime

/-- The minutes of an hour. -/
def minutesOf (start : Int) : List Int :=
  (List.range 60).map fun offset : Nat => start / MINUTE_MICROS + offset

theorem EntryOk.mem_minutesOf {start : Int} {entry : MetricEntry ν} (h : EntryOk start entry) :
    entry.minute ∈ minutesOf start := by
  have hstart := h.hour
  rw [h.minute]
  simp only [minuteKey, bucketStart, HOUR_MICROS, MINUTE_MICROS] at hstart ⊢
  have hlow : start / 60000000 ≤ entry.sampledAt / 60000000 := by omega
  have hhigh : entry.sampledAt / 60000000 - start / 60000000 < 60 := by omega
  refine List.mem_map.mpr ⟨(entry.sampledAt / 60000000 - start / 60000000).toNat, ?_, ?_⟩
  · rw [List.mem_range]
    omega
  · simp only [MINUTE_MICROS]
    omega

theorem length_minutesOf (start : Int) : (minutesOf start).length = 60 := by simp [minutesOf]

/-- Distinct minutes of one hour: at most sixty, and fewer while a minute is missing. -/
theorem BucketOk.length_le {bucket : MetricBucket ν} (h : BucketOk bucket) :
    bucket.samples.length ≤ 60 := by
  have hsub : (bucket.samples.map (·.minute)).Subperm (minutesOf bucket.bucketStart) := by
    refine List.subperm_of_subset h.minutes fun minute hminute => ?_
    obtain ⟨entry, hentry, rfl⟩ := List.mem_map.mp hminute
    exact (h.entries entry hentry).mem_minutesOf
  have := hsub.length_le
  rwa [List.length_map, length_minutesOf] at this

theorem BucketOk.length_lt {bucket : MetricBucket ν} (h : BucketOk bucket)
    {sample : MetricSample ν} (hhour : bucketStart sample.sampledAt = bucket.bucketStart)
    (hnew : Dict.lookup MetricEntry.minute (minuteKey sample.sampledAt) bucket.samples = none) :
    bucket.samples.length < 60 := by
  have hbigger : BucketOk { bucket with samples := sample.entry :: bucket.samples } := by
    refine ⟨?_, List.nodup_cons.mpr ⟨Dict.lookup_none.mp hnew, h.minutes⟩⟩
    intro entry hentry
    obtain rfl | hold := List.mem_cons.mp hentry
    · exact hhour ▸ entryOk_entry sample
    · exact h.entries entry hold
  have := hbigger.length_le
  rw [List.length_cons] at this
  omega

/-- There is always room for a sample, so what a save of its hour finds is a later entry of
its minute, or the list to write. -/
theorem placeSample_cases {bucket : MetricBucket ν} {sample : MetricSample ν} (h : BucketOk bucket)
    (hhour : bucketStart sample.sampledAt = bucket.bucketStart) :
    (placeSample bucket.samples sample = .newer ∧ ∃ existing,
      Dict.lookup MetricEntry.minute (minuteKey sample.sampledAt) bucket.samples = some existing ∧
      sample.sampledAt < existing.sampledAt) ∨
    (placeSample bucket.samples sample =
        .samples (Dict.upsert MetricEntry.minute sample.entry bucket.samples) ∧
      ∀ existing,
        Dict.lookup MetricEntry.minute (minuteKey sample.sampledAt) bucket.samples =
          some existing → ¬ sample.sampledAt < existing.sampledAt) := by
  cases hlookup : Dict.lookup MetricEntry.minute (minuteKey sample.sampledAt) bucket.samples with
  | none =>
    have hroom := Nat.not_le.mpr (h.length_lt hhour hlookup)
    exact .inr ⟨by simp [placeSample, hlookup, hroom], nofun⟩
  | some existing =>
    by_cases hnewer : sample.sampledAt < existing.sampledAt
    · exact .inl ⟨by simp [placeSample, hlookup, hnewer], existing, rfl, hnewer⟩
    · refine .inr ⟨by simp [placeSample, hlookup, hnewer], fun other hother => ?_⟩
      rwa [← Option.some.inj hother]

theorem BucketOk.upsert {bucket : MetricBucket ν} (h : BucketOk bucket) {sample : MetricSample ν}
    {revision : Nat} (hhour : bucketStart sample.sampledAt = bucket.bucketStart) :
    BucketOk { bucket with
      samples := Dict.upsert MetricEntry.minute sample.entry bucket.samples
      revision := revision } := by
  refine ⟨fun entry hentry => ?_, Dict.nodup_upsert h.minutes⟩
  obtain rfl | hold := Dict.mem_upsert hentry
  · exact hhour ▸ entryOk_entry sample
  · exact h.entries entry hold

/-! ## The invariant -/

/-- What is stored of a minute of a resource. -/
def entryAt (hours : List (MetricBucket ν)) (resourceId : Nat) (minute : Int) :
    Option (MetricEntry ν) :=
  (Dict.lookup MetricBucket.id (resourceId, minute / 60 * HOUR_MICROS) hours).bind fun bucket =>
    Dict.lookup MetricEntry.minute minute bucket.samples

/-- The samples of a minute of a resource whose saves have returned, in order. -/
def savedAt (saved : List (Nat × MetricSample ν)) (resourceId : Nat) (minute : Int) :
    List (MetricSample ν) :=
  (saved.filter fun save => save.1 = resourceId ∧ minuteKey save.2.sampledAt = minute).map (·.2)

/-- A save that is about to write has read its document, which may have been written since;
while it has not been, the list to write is the one that the save would work out now. -/
def PhaseOk (hours : List (MetricBucket ν)) (call : SaveCall ν) : Prop :=
  match call.phase with
  | .update revision samples => ∃ bucket,
      Dict.lookup MetricBucket.id call.bucketId hours = some bucket ∧ revision ≤ bucket.revision ∧
      (revision = bucket.revision → placeSample bucket.samples call.sample = .samples samples)
  | .raised error => error = "资源监控样本并发写入冲突"
  | _ => True

structure MetricInv (store : MetricStore ν) : Prop where
  ids : (store.resourceMetricHours.map MetricBucket.id).Nodup
  buckets : ∀ bucket ∈ store.resourceMetricHours, BucketOk bucket
  calls : ∀ call ∈ store.calls, PhaseOk store.resourceMetricHours call
  content : ∀ resourceId minute, entryAt store.resourceMetricHours resourceId minute =
    latest (savedAt store.saved resourceId minute)

theorem savedAt_append {saved : List (Nat × MetricSample ν)} {resourceId id : Nat}
    {minute : Int} {sample : MetricSample ν} :
    savedAt (saved ++ [(id, sample)]) resourceId minute =
      if id = resourceId ∧ minuteKey sample.sampledAt = minute then
        savedAt saved resourceId minute ++ [sample]
      else savedAt saved resourceId minute := by
  by_cases hof : id = resourceId ∧ minuteKey sample.sampledAt = minute
  · simp [savedAt, List.filter_append, hof]
  · simp [savedAt, List.filter_append, hof]

theorem bucketId_eq {call : SaveCall ν} :
    call.bucketId = (call.resourceId, minuteKey call.sample.sampledAt / 60 * HOUR_MICROS) := by
  rw [SaveCall.bucketId, bucketStart_eq]

section

variable {store : MetricStore ν} {k : Nat} {call : SaveCall ν}

/-- The entry of a call's own minute is in the bucket the call asks for. -/
theorem entryAt_call :
    entryAt store.resourceMetricHours call.resourceId (minuteKey call.sample.sampledAt) =
      (store.findBucket call.bucketId).bind fun bucket =>
        Dict.lookup MetricEntry.minute (minuteKey call.sample.sampledAt) bucket.samples := by
  rw [entryAt, bucketId_eq]
  rfl

namespace MetricInv

theorem setCall (h : MetricInv store) {next : SaveCall ν}
    (hnext : PhaseOk store.resourceMetricHours next) :
    MetricInv { store with calls := store.calls.set k next } := by
  refine ⟨h.ids, h.buckets, fun other hother => ?_, h.content⟩
  obtain hold | rfl := List.mem_or_eq_of_mem_set hother
  · exact h.calls other hold
  · exact hnext

theorem again (h : MetricInv store) : MetricInv (store.again k call) := h.setCall trivial

/-- A save that finds a later sample of its minute leaves the latest as it is. -/
theorem returned_newer (h : MetricInv store) {existing : MetricEntry ν}
    (hexisting : entryAt store.resourceMetricHours call.resourceId
      (minuteKey call.sample.sampledAt) = some existing)
    (hnewer : call.sample.sampledAt < existing.sampledAt) :
    MetricInv (store.returned k call) := by
  have hset : MetricInv (store.setPhase k call .returned) := h.setCall trivial
  refine ⟨hset.ids, hset.buckets, hset.calls, fun resourceId minute => ?_⟩
  show entryAt store.resourceMetricHours resourceId minute =
    latest (savedAt (store.saved ++ [(call.resourceId, call.sample)]) resourceId minute)
  rw [savedAt_append]
  split
  · rename_i hof
    obtain ⟨rfl, rfl⟩ := hof
    rw [latest_append, ← h.content, hexisting, latestStep, if_pos (by simpa using hnewer)]
  · exact h.content resourceId minute

/-- A write of the bucket that a call asks for, by which its own minute becomes its sample and
the other minutes stay. -/
theorem written (h : MetricInv store) {bucket : MetricBucket ν} (hid : bucket.id = call.bucketId)
    (hbucket : BucketOk bucket)
    (hrevision : ∀ old, store.findBucket call.bucketId = some old → old.revision < bucket.revision)
    (hsamples : ∀ minute, Dict.lookup MetricEntry.minute minute bucket.samples =
      if minuteKey call.sample.sampledAt = minute then some call.sample.entry
      else (store.findBucket call.bucketId).bind fun old =>
        Dict.lookup MetricEntry.minute minute old.samples)
    (hlatest : ∀ existing, entryAt store.resourceMetricHours call.resourceId
      (minuteKey call.sample.sampledAt) = some existing →
        ¬ call.sample.sampledAt < existing.sampledAt) :
    MetricInv ((store.writeBucket bucket).returned k call) := by
  have hwritten : ∀ id, Dict.lookup MetricBucket.id id
      (Dict.upsert MetricBucket.id bucket store.resourceMetricHours) =
      if call.bucketId = id then some bucket
      else Dict.lookup MetricBucket.id id store.resourceMetricHours := by
    intro id
    rw [Dict.lookup_upsert, hid]
  have hcalls : ∀ other ∈ store.calls,
      PhaseOk (Dict.upsert MetricBucket.id bucket store.resourceMetricHours) other := by
    intro other hother
    have hold := h.calls other hother
    cases hphase : other.phase with
    | find | insert | returned => simp only [PhaseOk, hphase]
    | raised error =>
      simp only [PhaseOk, hphase] at hold ⊢
      exact hold
    | update revision samples =>
      simp only [PhaseOk, hphase] at hold ⊢
      obtain ⟨old, hfound, hle, hplace⟩ := hold
      rw [hwritten]
      by_cases hsame : call.bucketId = other.bucketId
      · -- the bucket has moved on, and the swap of the other save will fail
        rw [← hsame] at hfound
        have hlt := hrevision old hfound
        refine ⟨bucket, if_pos hsame, (hle.trans_lt hlt).le, fun heq => ?_⟩
        omega
      · exact ⟨old, (if_neg hsame).trans hfound, hle, hplace⟩
  refine ⟨Dict.nodup_upsert h.ids, ?_, ?_, ?_⟩
  · intro other hother
    obtain rfl | hold := Dict.mem_upsert hother
    · exact hbucket
    · exact h.buckets other hold
  · intro other hother
    obtain hold | rfl := List.mem_or_eq_of_mem_set hother
    · exact hcalls other hold
    · exact trivial
  · intro resourceId minute
    show entryAt (Dict.upsert MetricBucket.id bucket store.resourceMetricHours) resourceId minute =
      latest (savedAt (store.saved ++ [(call.resourceId, call.sample)]) resourceId minute)
    rw [savedAt_append, entryAt, hwritten]
    by_cases hof : call.resourceId = resourceId ∧ minuteKey call.sample.sampledAt = minute
    · obtain ⟨rfl, rfl⟩ := hof
      rw [if_pos bucketId_eq, if_pos ⟨rfl, rfl⟩, Option.bind_some, hsamples, if_pos rfl,
        latest_append, ← h.content, latestStep]
      cases hexisting : entryAt store.resourceMetricHours call.resourceId
          (minuteKey call.sample.sampledAt) with
      | none => rfl
      | some existing => exact (if_neg (by simpa using hlatest existing hexisting)).symm
    · rw [if_neg hof, ← h.content, entryAt]
      split
      · rename_i hbucketId
        have hresource : call.resourceId = resourceId := by
          rw [bucketId_eq] at hbucketId
          exact congrArg Prod.fst hbucketId
        rw [Option.bind_some, hsamples, if_neg fun hminute => hof ⟨hresource, hminute⟩,
          ← hbucketId]
        rfl
      · rfl

theorem readBucket (h : MetricInv store) : MetricInv (store.readBucket k call) := by
  simp only [MetricStore.readBucket]
  split
  · exact h.setCall rfl
  · cases hfound : store.findBucket call.bucketId with
    | none => exact h.setCall trivial
    | some row =>
      have ⟨hmem, hid⟩ := Dict.lookup_some hfound
      have hhour : bucketStart call.sample.sampledAt = row.bucketStart :=
        (congrArg Prod.snd hid).symm
      obtain ⟨hplace, existing, hlookup, hnewer⟩ | ⟨hplace, hlatest⟩ :=
        placeSample_cases (h.buckets row hmem) hhour
      · simp only [hplace]
        refine h.returned_newer ?_ hnewer
        rw [entryAt_call, hfound]
        exact hlookup
      · simp only [hplace]
        exact h.setCall ⟨row, hfound, Nat.le_refl _, fun _ => hplace⟩

theorem insertBucket (h : MetricInv store) : MetricInv (store.insertBucket k call) := by
  simp only [MetricStore.insertBucket]
  cases hfound : store.findBucket call.bucketId with
  | some bucket => exact h.again
  | none =>
    refine h.written rfl ?_ ?_ ?_ ?_
    · refine ⟨fun entry hentry => ?_, List.nodup_singleton _⟩
      rw [List.mem_singleton.mp hentry]
      exact entryOk_entry call.sample
    · intro old hold
      rw [hfound] at hold
      cases hold
    · intro minute
      rw [hfound]
      by_cases hminute : minuteKey call.sample.sampledAt = minute
      · simp [Dict.lookup, MetricSample.entry, hminute]
      · simp [Dict.lookup, MetricSample.entry, hminute]
    · intro existing hexisting
      rw [entryAt_call, hfound] at hexisting
      cases hexisting

theorem updateBucket (h : MetricInv store) {revision : Nat} {samples : List (MetricEntry ν)}
    (hok : PhaseOk store.resourceMetricHours { call with phase := .update revision samples }) :
    MetricInv (store.updateBucket k call revision samples) := by
  obtain ⟨bucket, hfound, -, hplace⟩ := hok
  simp only [MetricStore.updateBucket]
  have hfound' : store.findBucket call.bucketId = some bucket := hfound
  rw [hfound']
  by_cases hrevision : bucket.revision = revision
  · have ⟨hmem, hid⟩ := Dict.lookup_some hfound'
    have hhour : bucketStart call.sample.sampledAt = bucket.bucketStart :=
      (congrArg Prod.snd hid).symm
    obtain ⟨hnewer, _⟩ | ⟨hsamples, hlatest⟩ := placeSample_cases (h.buckets bucket hmem) hhour
    · rw [hplace hrevision.symm] at hnewer
      cases hnewer
    · rw [hplace hrevision.symm] at hsamples
      cases hsamples
      simp only [hrevision, if_true]
      refine h.written hid ((h.buckets bucket hmem).upsert hhour) ?_ ?_ ?_
      · intro old hold
        rw [hfound'] at hold
        cases hold
        rw [hrevision]
        exact Nat.lt_succ_self _
      · intro minute
        rw [Dict.lookup_upsert, hfound']
        rfl
      · intro existing hexisting
        rw [entryAt_call, hfound'] at hexisting
        exact hlatest existing hexisting
  · simp only [hrevision, if_false]
    exact h.again

theorem step {store' : MetricStore ν} (h : MetricInv store) (hstep : MetricStep store store') :
    MetricInv store' := by
  obtain ⟨act, hact⟩ := hstep
  cases act with
  | save resourceId sample retentionDays =>
    cases hact
    refine ⟨h.ids, h.buckets, fun call hcall => ?_, h.content⟩
    obtain hold | hnew := List.mem_append.mp hcall
    · exact h.calls call hold
    · rw [List.mem_singleton.mp hnew]
      exact trivial
  | advance k =>
    simp only [MetricAct.apply] at hact
    split at hact
    · cases hact
    · rename_i call hcall
      split at hact
      · cases hact
        exact h.readBucket
      · cases hact
        exact h.insertBucket
      · rename_i revision samples hphase
        cases hact
        have hok := h.calls call (List.mem_of_getElem? hcall)
        refine h.updateBucket ?_
        rwa [← hphase]
      · cases hact
      · cases hact

end MetricInv

end

theorem metricInv {store : MetricStore ν} (h : Reachable MetricStart MetricStep store) :
    MetricInv store := by
  refine Reachable.invariant (fun _ hstart => ?_) (fun _ _ hst hs => hs.step hst) h
  rw [hstart]
  exact ⟨List.nodup_nil, nofun, nofun, fun _ _ => rfl⟩

end CameraLogs.Resources

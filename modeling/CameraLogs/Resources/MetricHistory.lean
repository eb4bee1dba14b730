import CameraLogs.Resources.MetricStoreExact

/-!
# The pages of a metric history

The items of a page before its limit, `flatItems`, are strictly in descending order of their
instants, since each bucket holds instants of its own hour; and whatever the cursor, they are
the entries of the range behind it, as a bucket left out by the query has none of them. So a
page is a keyset page of the range, and the pages list it.

With that the results of the store are put together in `metrics_kept`.
-/

namespace CameraLogs.Resources

open CameraLogs.Lib

variable {ν : Type} {store : MetricStore ν} {resourceId : Nat} {start finish now : Int}
  {after : Option Int} {limit : Nat}

/-- What the loops of `history` would collect without a limit. -/
def flatItems (store : MetricStore ν) (resourceId : Nat) (start finish now : Int)
    (after : Option Int) : List (HistoryItem ν) :=
  (store.historyRows resourceId start finish now after).flatMap (historyItems start finish after)

/-- An item of the range: an entry of a document of the resource. -/
def InRange (store : MetricStore ν) (resourceId : Nat) (start finish : Int)
    (item : HistoryItem ν) : Prop :=
  ∃ bucket ∈ store.resourceMetricHours, bucket.resourceId = resourceId ∧
    ∃ entry ∈ bucket.samples, entry.item = item ∧ start ≤ entry.sampledAt ∧
      entry.sampledAt < finish

/-- No document of the range has expired. -/
def Unexpired (store : MetricStore ν) (resourceId : Nat) (start finish now : Int) : Prop :=
  ∀ bucket ∈ store.resourceMetricHours, bucket.resourceId = resourceId →
    bucketStart start ≤ bucket.bucketStart → bucket.bucketStart ≤ bucketStart finish →
      now < bucket.expiresAt

theorem mem_historyRows {bucket : MetricBucket ν} :
    bucket ∈ store.historyRows resourceId start finish now after ↔
      bucket ∈ store.resourceMetricHours ∧ bucket.resourceId = resourceId ∧
      bucketStart start ≤ bucket.bucketStart ∧
      bucket.bucketStart ≤ bucketStart (after.getD finish) ∧ now < bucket.expiresAt := by
  simp [MetricStore.historyRows]

theorem mem_historyItems {bucket : MetricBucket ν} {item : HistoryItem ν} :
    item ∈ historyItems start finish after bucket ↔
      ∃ entry ∈ bucket.samples, entry.item = item ∧ start ≤ entry.sampledAt ∧
        entry.sampledAt < finish ∧ after.all (fun after => entry.sampledAt < after) = true := by
  simp only [historyItems, List.mem_map, List.mem_filter, List.mem_insertionSort,
    decide_eq_true_eq]
  constructor
  · intro ⟨entry, ⟨hmem, hstart, hfinish, hafter⟩, hitem⟩
    exact ⟨entry, hmem, hitem, hstart, hfinish, hafter⟩
  · intro ⟨entry, hmem, hitem, hstart, hfinish, hafter⟩
    exact ⟨entry, ⟨hmem, hstart, hfinish, hafter⟩, hitem⟩

/-- The query leaves out no document with an item of the page, and takes in no other item. -/
theorem mem_flatItems (hinv : MetricInv store)
    (hunexpired : Unexpired store resourceId start finish now) {item : HistoryItem ν} :
    item ∈ flatItems store resourceId start finish now after ↔
      InRange store resourceId start finish item ∧
        after.all (fun after => item.sampledAt < after) = true := by
  simp only [flatItems, List.mem_flatMap, mem_historyRows, mem_historyItems]
  constructor
  · intro ⟨bucket, ⟨hmem, hresource, _⟩, entry, hentry, hitem, hstart, hfinish, hafter⟩
    refine ⟨⟨bucket, hmem, hresource, entry, hentry, hitem, hstart, hfinish⟩, ?_⟩
    rwa [← hitem]
  · intro ⟨⟨bucket, hmem, hresource, entry, hentry, hitem, hstart, hfinish⟩, hafter⟩
    have hhour := ((hinv.buckets bucket hmem).entries entry hentry).hour
    rw [← hitem] at hafter
    have hlow : bucketStart start ≤ bucket.bucketStart := hhour ▸ bucketStart_mono hstart
    have hhigh : bucket.bucketStart ≤ bucketStart finish := hhour ▸ bucketStart_mono hfinish.le
    have hcursor : bucket.bucketStart ≤ bucketStart (after.getD finish) := by
      cases after with
      | none => exact hhigh
      | some after =>
        have hlt : entry.sampledAt < after := of_decide_eq_true hafter
        exact hhour ▸ bucketStart_mono hlt.le
    exact ⟨bucket, ⟨hmem, hresource, hlow, hcursor, hunexpired bucket hmem hresource hlow hhigh⟩,
      entry, hentry, hitem, hstart, hfinish, hafter⟩

/-- The instants of a bucket are distinct, as its minutes are. -/
theorem BucketOk.instants {bucket : MetricBucket ν} (h : BucketOk bucket) :
    (bucket.samples.map (·.sampledAt)).Nodup := by
  have hminutes : bucket.samples.map (·.minute) =
      (bucket.samples.map (·.sampledAt)).map minuteKey := by
    rw [List.map_map]
    exact List.map_congr_left fun entry hentry => (h.entries entry hentry).minute
  have := h.minutes
  rw [hminutes] at this
  exact List.Nodup.of_map _ this

theorem pairwise_historyItems {bucket : MetricBucket ν} (h : BucketOk bucket) :
    (historyItems start finish after bucket).Pairwise fun a b => a.sampledAt > b.sampledAt := by
  refine List.pairwise_map.mpr ?_
  exact (sorted_desc h.instants).filter _

theorem pairwise_flatItems (hinv : MetricInv store) :
    (flatItems store resourceId start finish now after).Pairwise
      fun a b => a.sampledAt > b.sampledAt := by
  refine List.pairwise_flatMap.mpr ⟨fun bucket hbucket => ?_, ?_⟩
  · exact pairwise_historyItems (hinv.buckets bucket (mem_historyRows.mp hbucket).1)
  · have hstarts : ((store.resourceMetricHours.filter fun bucket =>
        bucket.resourceId = resourceId ∧ bucketStart start ≤ bucket.bucketStart ∧
        bucket.bucketStart ≤ bucketStart (after.getD finish) ∧ now < bucket.expiresAt).map
        (·.bucketStart)).Nodup := by
      refine List.Nodup.map_on ?_ ((List.Nodup.of_map _ hinv.ids).filter _)
      intro bucket hbucket other hother heq
      have ⟨hmem, hof⟩ := List.mem_filter.mp hbucket
      have ⟨hmem', hof'⟩ := List.mem_filter.mp hother
      have hresource := (of_decide_eq_true hof).1.trans (of_decide_eq_true hof').1.symm
      exact List.inj_on_of_nodup_map hinv.ids hmem hmem' (Prod.ext hresource heq)
    refine (sorted_desc hstarts).imp_of_mem fun hbucket hother hlt => ?_
    intro item hitem item' hitem'
    obtain ⟨entry, hentry, rfl, -⟩ := mem_historyItems.mp hitem
    obtain ⟨entry', hentry', rfl, -⟩ := mem_historyItems.mp hitem'
    have hhour := ((hinv.buckets _ (mem_historyRows.mp hbucket).1).entries entry hentry).hour
    have hhour' := ((hinv.buckets _ (mem_historyRows.mp hother).1).entries entry' hentry').hour
    have hearlier : bucketStart entry'.sampledAt < bucketStart entry.sampledAt := by
      rw [hhour, hhour']
      exact hlt
    exact lt_of_bucketStart_lt hearlier

/-- A page of the history is a keyset page of the range. -/
theorem history_eq_keysetPage (hinv : MetricInv store)
    (hunexpired : Unexpired store resourceId start finish now) :
    store.history resourceId start finish now limit after =
      keysetPage HistoryItem.sampledAt (· > ·) limit
        (flatItems store resourceId start finish now none) after := by
  have hbehind : behind HistoryItem.sampledAt (· > ·)
      (flatItems store resourceId start finish now none) after =
      flatItems store resourceId start finish now after := by
    refine eq_of_strict ((pairwise_flatItems hinv).filter _) (pairwise_flatItems hinv) fun item => ?_
    rw [behind, List.mem_filter, mem_flatItems hinv hunexpired, mem_flatItems hinv hunexpired]
    simp [gt_iff_lt]
  have htake : ((flatItems store resourceId start finish now after).take (limit + 1)).take limit =
      (flatItems store resourceId start finish now after).take limit := by
    rw [List.take_take, Nat.min_eq_left (Nat.le_succ limit)]
  have hmore : limit < ((flatItems store resourceId start finish now after).take
      (limit + 1)).length ↔ limit < (flatItems store resourceId start finish now after).length := by
    rw [List.length_take]
    omega
  rw [keysetPage, hbehind, ← htake]
  simp only [← hmore]
  rfl

/-- The pages of a range list each of its items once, the latest first. -/
theorem history_listed (hinv : MetricInv store) (hlimit : 0 < limit)
    (hunexpired : Unexpired store resourceId start finish now) :
    ∃ items, (∀ l, Listed (store.history resourceId start finish now limit) none l ↔ l = items) ∧
      items.Pairwise (fun a b => a.sampledAt > b.sampledAt) ∧
      ∀ item, item ∈ items ↔ InRange store resourceId start finish item := by
  have hpages : store.history resourceId start finish now limit =
      keysetPage HistoryItem.sampledAt (· > ·) limit
        (flatItems store resourceId start finish now none) :=
    funext fun _ => history_eq_keysetPage hinv hunexpired
  have hsorted : (flatItems store resourceId start finish now none).Pairwise
      fun a b => a.sampledAt > b.sampledAt := pairwise_flatItems hinv
  have hlisted := listed_keyset hlimit hsorted
  rw [← hpages] at hlisted
  refine ⟨_, fun l => ⟨fun hl => hl.unique hlisted, fun hl => hl ▸ hlisted⟩,
    pairwise_flatItems hinv, fun item => ?_⟩
  rw [mem_flatItems hinv hunexpired]
  simp

/-! ## The store -/

/-- An entry of a bucket is what is stored of its minute. -/
theorem entryAt_of_mem (hinv : MetricInv store) {bucket : MetricBucket ν}
    (hbucket : bucket ∈ store.resourceMetricHours) {entry : MetricEntry ν}
    (hentry : entry ∈ bucket.samples) :
    entryAt store.resourceMetricHours bucket.resourceId entry.minute = some entry := by
  have hok := hinv.buckets bucket hbucket
  have hentryOk := hok.entries entry hentry
  have hid : (bucket.resourceId, entry.minute / 60 * HOUR_MICROS) = bucket.id := by
    rw [hentryOk.minute, ← bucketStart_eq, hentryOk.hour]
    rfl
  rw [entryAt, hid, Dict.lookup_eq_some hinv.ids hbucket]
  exact Dict.lookup_eq_some hok.minutes hentry

theorem savedAt_perm {saved saved' : List (Nat × MetricSample ν)} (h : saved.Perm saved')
    (resourceId : Nat) (minute : Int) :
    (savedAt saved resourceId minute).Perm (savedAt saved' resourceId minute) :=
  (h.filter _).map _

/-- In every state that saves reach, however they interleave: a bucket holds at most sixty
entries, of distinct minutes of its hour; what is stored of a minute is the last of the
greatest samples saved for it, to the millisecond; without ties it depends on what was saved
alone; no save finds the bucket full; and the pages of a range list it. -/
theorem metrics_kept (h : Reachable MetricStart MetricStep store) :
    (store.resourceMetricHours.map MetricBucket.id).Nodup ∧
    (∀ bucket ∈ store.resourceMetricHours, bucket.samples.length ≤ 60 ∧
      (bucket.samples.map (·.minute)).Nodup ∧
      ∀ entry ∈ bucket.samples, bucketStart entry.sampledAt = bucket.bucketStart ∧
        entry.minute = minuteKey entry.sampledAt ∧
        ∃ sample, entry = sample.entry ∧
          LastGreatest sample (savedAt store.saved bucket.resourceId entry.minute)) ∧
    (∀ resourceId minute, entryAt store.resourceMetricHours resourceId minute = none ↔
      savedAt store.saved resourceId minute = []) ∧
    (∀ store' : MetricStore ν, Reachable MetricStart MetricStep store' →
      store.saved.Perm store'.saved →
      (∀ resourceId minute, Apart (savedAt store.saved resourceId minute)) →
      ∀ resourceId minute, entryAt store.resourceMetricHours resourceId minute =
        entryAt store'.resourceMetricHours resourceId minute) ∧
    (∀ call ∈ store.calls, ∀ error, call.phase = .raised error →
      error ≠ "资源监控小时桶已达到60个样本上限") ∧
    ∀ resourceId start finish now limit, 0 < limit →
      Unexpired store resourceId start finish now →
      ∃ items,
        (∀ l, Listed (store.history resourceId start finish now limit) none l ↔ l = items) ∧
        items.Pairwise (fun a b => a.sampledAt > b.sampledAt) ∧
        ∀ item, item ∈ items ↔ InRange store resourceId start finish item := by
  have hinv := metricInv h
  refine ⟨hinv.ids, ?_, ?_, ?_, ?_, ?_⟩
  · intro bucket hbucket
    have hok := hinv.buckets bucket hbucket
    refine ⟨hok.length_le, hok.minutes, fun entry hentry => ?_⟩
    have hentryOk := hok.entries entry hentry
    have hstored := entryAt_of_mem hinv hbucket hentry
    rw [hinv.content] at hstored
    exact ⟨hentryOk.hour, hentryOk.minute, latest_lastGreatest hstored⟩
  · intro resourceId minute
    rw [hinv.content, latest_eq_none]
  · intro store' h' hperm hapart resourceId minute
    rw [hinv.content, (metricInv h').content]
    exact latest_perm (savedAt_perm hperm resourceId minute) (hapart resourceId minute)
  · intro call hcall error hphase heq
    have hok := hinv.calls call hcall
    simp only [PhaseOk, hphase] at hok
    rw [hok] at heq
    exact absurd heq (by decide)
  · intro resourceId start finish now limit hlimit hunexpired
    exact history_listed hinv hlimit hunexpired

/-- One save after the other, each read and written before the next. -/
def saveActs (samples : List (MetricSample Nat)) : List (MetricAct Nat) :=
  samples.zipIdx.flatMap fun (sample, k) => [.save 1 sample 30, .advance k, .advance k]

def emptyStore : MetricStore Nat := { resourceMetricHours := [], calls := [], saved := [] }

def storeAfter (acts : List (MetricAct Nat)) : MetricStore Nat :=
  (runActs MetricAct.apply acts emptyStore).getD emptyStore

theorem storeAfter_reachable {acts : List (MetricAct Nat)}
    (h : (runActs MetricAct.apply acts emptyStore).isSome = true) :
    Reachable MetricStart MetricStep (storeAfter acts) :=
  ⟨emptyStore, rfl, runActs_steps (eq_some_getD h emptyStore)⟩

/-- Two samples of a minute, the earlier one late, and one of the next minute between them. -/
def lateSample : List (MetricAct Nat) :=
  saveActs [⟨70000000, []⟩, ⟨130000000, []⟩] ++ [.save 1 ⟨60000000, []⟩ 30, .advance 2]

/-- The late sample is not kept, and the pages of one list what is. -/
theorem metrics_kept_late :
    entryAt (storeAfter lateSample).resourceMetricHours 1 1 = some ⟨1, 70000000, []⟩ ∧
    ∃ items,
      (∀ l, Listed ((storeAfter lateSample).history 1 0 200000000 0 1) none l ↔ l = items) ∧
      items.Pairwise fun a b => a.sampledAt > b.sampledAt := by
  have hreach : Reachable MetricStart MetricStep (storeAfter lateSample) :=
    storeAfter_reachable (by decide +kernel)
  have hunexpired : Unexpired (storeAfter lateSample) 1 0 200000000 0 := by
    unfold Unexpired
    decide +kernel
  obtain ⟨-, -, -, -, -, hhistory⟩ := metrics_kept hreach
  obtain ⟨items, hlisted, hsorted, -⟩ := hhistory 1 0 200000000 0 1 Nat.one_pos hunexpired
  exact ⟨by decide +kernel, items, hlisted, hsorted⟩

/-- Two samples of one instant. -/
def twins : List (MetricSample Nat) := [⟨90000000, [("values", 1)]⟩, ⟨90000000, [("values", 2)]⟩]

/-- Which of two samples of one instant is kept depends on the order of their saves. -/
theorem twins_depend_on_order :
    ∃ store store' : MetricStore Nat, Reachable MetricStart MetricStep store ∧
      Reachable MetricStart MetricStep store' ∧ store.saved.Perm store'.saved ∧
      entryAt store.resourceMetricHours 1 1 ≠ entryAt store'.resourceMetricHours 1 1 := by
  have hreach : Reachable MetricStart MetricStep (storeAfter (saveActs twins)) :=
    storeAfter_reachable (by decide +kernel)
  have hreach' : Reachable MetricStart MetricStep (storeAfter (saveActs twins.reverse)) :=
    storeAfter_reachable (by decide +kernel)
  exact ⟨_, _, hreach, hreach', by decide +kernel, by decide +kernel⟩

end CameraLogs.Resources

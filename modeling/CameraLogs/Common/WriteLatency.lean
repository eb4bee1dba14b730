import CameraLogs.Lib.Counts
import Mathlib.Data.Nat.Size
import Mathlib.Data.Rat.Floor
import Mathlib.Order.Interval.Finset.Defs
import Mathlib.Order.Interval.Finset.Basic
import Mathlib.Data.Int.Interval
import Mathlib.Tactic.Linarith

/-!
# The latency of writes

`WriteLatency` keeps a histogram of the delays of the last minute twice: for every second, and as
a whole. Seconds expire as a whole, and what was in their buckets is taken from the histogram;
`none` is the `KeyError` of taking what is not there.

`Observed` says what the histogram is for: which writes have finished when and after what delay.
`Kept` connects the two, and is preserved by dropping a bucket, by expiry, and by a new sample.
Instants are seconds of one clock, delays milliseconds.
-/

namespace CameraLogs.Common

open Lib

def latencyWindow : ℚ := 60

/-- `_upper_bound` -/
def upperBound (delay : ℚ) : ℕ :=
  let rounded := ⌈delay⌉.toNat
  if rounded ≤ 1000 then rounded
  else if rounded ≤ 60000 then (rounded + 99) / 100 * 100
  else 2 ^ (rounded - 1).size

structure WriteLatency where
  /-- `_buckets`: a histogram for a second. -/
  buckets : List (ℤ × Counts ℕ)
  histogram : Counts ℕ
  samples : ℤ
  pending : Option ℚ

structure LatencySnapshot where
  p99Ms : ℕ
  samples : ℤ
  pendingMs : ℚ
  windowSeconds : ℚ

namespace WriteLatency

def initial : WriteLatency := { buckets := [], histogram := [], samples := 0, pending := none }

variable (s : WriteLatency)

/-- A bucket is deleted, and what was in it is taken from the histogram. -/
def dropBucket (entry : ℤ × Counts ℕ) : Option WriteLatency :=
  (s.histogram.removeAll entry.2).map fun histogram =>
    { s with
      buckets := s.buckets.filter fun other => other.1 ≠ entry.1
      histogram
      samples := s.samples - entry.2.total }

/-- The loop of `_expire`. -/
def expireAll (cutoff : ℚ) : List (ℤ × Counts ℕ) → WriteLatency → Option WriteLatency
  | [], s => some s
  | entry :: entries, s =>
    if cutoff < entry.1 + 1 then expireAll cutoff entries s
    else (s.dropBucket entry).bind (expireAll cutoff entries)

def expire (instant : ℚ) : Option WriteLatency := expireAll (instant - latencyWindow) s.buckets s

def start (instant : ℚ) : WriteLatency := { s with pending := s.pending.or (some instant) }

/-- A sample with the bound `bound` in the second `second`. -/
def record (second : ℤ) (bound : ℕ) : WriteLatency :=
  let bucket := ((Dict.lookup Prod.fst second s.buckets).map Prod.snd).getD []
  { buckets := Dict.upsert Prod.fst (second, bucket.add bound 1) s.buckets
    histogram := s.histogram.add bound 1
    samples := s.samples + 1
    pending := none }

def finish (instant : ℚ) : Option WriteLatency :=
  match s.pending with
  | none => some s
  | some since =>
    (s.expire instant).map fun s => s.record ⌊instant⌋ (upperBound (max 0 (instant - since) * 1000))

def abort : WriteLatency := { s with pending := none }

def snapshot (instant : ℚ) : Option (WriteLatency × LatencySnapshot) :=
  (s.expire instant).map fun s =>
    let rank := ⌈(s.samples : ℚ) * 99 / 100⌉
    (s, { p99Ms :=
            (s.histogram.reach rank 0 ((s.histogram.map Prod.fst).insertionSort (· ≤ ·))).getD 0
          samples := s.samples
          pendingMs := (s.pending.map fun since => max 0 (instant - since) * 1000).getD 0
          windowSeconds := latencyWindow })

end WriteLatency

/-- A call, with what the clock says. -/
inductive LatencyCall
  | start (instant : ℚ)
  | finish (instant : ℚ)
  | abort
  | snapshot (instant : ℚ)

def WriteLatency.apply (s : WriteLatency) : LatencyCall → Option WriteLatency
  | .start instant => some (s.start instant)
  | .finish instant => s.finish instant
  | .abort => some s.abort
  | .snapshot instant => (s.snapshot instant).map Prod.fst

/-- The state after a sequence of calls. -/
def WriteLatency.run (calls : List LatencyCall) : Option WriteLatency :=
  calls.foldlM WriteLatency.apply .initial

/-! ## What there is to observe -/

/-- A write that has finished. -/
structure WriteSample where
  instant : ℚ
  delay : ℚ
  deriving DecidableEq

def WriteSample.second (x : WriteSample) : ℤ := ⌊x.instant⌋

def WriteSample.bound (x : WriteSample) : ℕ := upperBound x.delay

/-- The writes that have finished, and when something expired last. -/
structure Observed where
  pending : Option ℚ
  finished : List WriteSample
  expiredAt : Option ℚ

def Observed.initial : Observed := { pending := none, finished := [], expiredAt := none }

def Observed.observe (o : Observed) : LatencyCall → Observed
  | .start instant => { o with pending := o.pending.or (some instant) }
  | .finish instant =>
    match o.pending with
    | none => o
    | some since =>
      { pending := none
        finished := o.finished ++ [⟨instant, max 0 (instant - since) * 1000⟩]
        expiredAt := some instant }
  | .abort => { o with pending := none }
  | .snapshot instant => { o with expiredAt := some instant }

def observed (calls : List LatencyCall) : Observed := calls.foldl Observed.observe .initial

/-- The samples of seconds that are not over for a minute. -/
def Observed.retained (o : Observed) : List WriteSample :=
  o.finished.filter fun x => o.expiredAt.all fun instant => instant - latencyWindow < x.second + 1

/-! ## Bounds of a delay -/

theorem upperBound_cases (delay : ℚ) :
    (⌈delay⌉.toNat ≤ 1000 ∧ upperBound delay = ⌈delay⌉.toNat) ∨
    (1000 < ⌈delay⌉.toNat ∧ ⌈delay⌉.toNat ≤ 60000 ∧
      upperBound delay = (⌈delay⌉.toNat + 99) / 100 * 100) ∨
    (60000 < ⌈delay⌉.toNat ∧ upperBound delay = 2 ^ (⌈delay⌉.toNat - 1).size) := by
  unfold upperBound
  dsimp only
  split
  next h => exact .inl ⟨h, rfl⟩
  next h =>
    split
    next h' => exact .inr (.inl ⟨not_le.mp h, h', rfl⟩)
    next h' => exact .inr (.inr ⟨not_le.mp h', rfl⟩)

/-- The power that bounds a number from above. -/
theorem le_two_pow_size (n : ℕ) : n ≤ 2 ^ (n - 1).size := by
  have hlt := Nat.lt_size_self (n - 1)
  omega

theorem le_upperBound (delay : ℚ) : delay ≤ upperBound delay := by
  have hceil : ⌈delay⌉.toNat ≤ upperBound delay := by
    obtain ⟨-, h⟩ | ⟨-, -, h⟩ | ⟨-, h⟩ := upperBound_cases delay
    · rw [h]
    · rw [h]
      omega
    · rw [h]
      exact le_two_pow_size _
  have hdelay : delay ≤ (⌈delay⌉.toNat : ℚ) := by
    have hle := Int.le_ceil delay
    have hnat : (⌈delay⌉ : ℚ) ≤ (⌈delay⌉.toNat : ℚ) := by
      exact_mod_cast Int.self_le_toNat ⌈delay⌉
    linarith
  have hcast : (⌈delay⌉.toNat : ℚ) ≤ upperBound delay := Nat.cast_le.mpr hceil
  linarith

theorem upperBound_mono : Monotone upperBound := by
  intro a b hab
  have hceil : ⌈a⌉.toNat ≤ ⌈b⌉.toNat := Int.toNat_le_toNat (Int.ceil_le_ceil hab)
  obtain ⟨ha, hbound⟩ | ⟨ha, ha', hbound⟩ | ⟨ha, hbound⟩ := upperBound_cases a
  · obtain ⟨hb, hbound'⟩ | ⟨hb, -, hbound'⟩ | ⟨hb, hbound'⟩ := upperBound_cases b
    · rw [hbound, hbound']
      exact hceil
    · rw [hbound, hbound']
      omega
    · rw [hbound, hbound']
      exact hceil.trans (le_two_pow_size _)
  · obtain ⟨hb, -⟩ | ⟨hb, hb', hbound'⟩ | ⟨hb, hbound'⟩ := upperBound_cases b
    · omega
    · rw [hbound, hbound']
      omega
    · rw [hbound, hbound']
      have hle := le_two_pow_size ⌈b⌉.toNat
      omega
  · obtain ⟨hb, -⟩ | ⟨-, hb, -⟩ | ⟨hb, hbound'⟩ := upperBound_cases b
    · omega
    · omega
    · rw [hbound, hbound']
      exact Nat.pow_le_pow_right Nat.two_pos (Nat.size_le_size (Nat.sub_le_sub_right hceil 1))

/-- Up to a minute, a bound is at most one step of rounding above the delay. -/
theorem upperBound_lt {delay : ℚ} (hpos : 0 ≤ delay) (h : delay ≤ 60000) :
    (upperBound delay : ℚ) < delay + 100 + 1 := by
  have hceil : (⌈delay⌉.toNat : ℚ) < delay + 1 := by
    have hlt := Int.ceil_lt_add_one delay
    have hnat : (⌈delay⌉.toNat : ℤ) = ⌈delay⌉ := Int.toNat_of_nonneg (Int.ceil_nonneg hpos)
    have hcast : (⌈delay⌉.toNat : ℚ) = (⌈delay⌉ : ℚ) := by exact_mod_cast hnat
    rw [hcast]
    exact hlt
  have hmost : ⌈delay⌉.toNat ≤ 60000 := by
    have hle : ⌈delay⌉ ≤ 60000 := Int.ceil_le.mpr (by exact_mod_cast h)
    omega
  have hstep : upperBound delay ≤ ⌈delay⌉.toNat + 99 := by
    obtain ⟨-, hbound⟩ | ⟨-, -, hbound⟩ | ⟨hmore, -⟩ := upperBound_cases delay
    · omega
    · omega
    · omega
  have hcast : (upperBound delay : ℚ) ≤ (⌈delay⌉.toNat : ℚ) + 99 := by exact_mod_cast hstep
  linarith

end CameraLogs.Common

import CameraLogs.Lib.Dict
import Mathlib.Algebra.BigOperators.Group.List.Basic
import Mathlib.Algebra.Order.Ring.Int
import Mathlib.Data.List.Count
import Mathlib.Data.List.Sort

/-!
# Counts and ranks

A counting dictionary has a number under each key that has been counted; a key whose number
becomes zero is deleted, and taking from a key that is not there fails. `Counts.Is` says which
function of the key a dictionary is. `nearestRank` is the value of a rank in increasing order;
running through the keys in order until their numbers add up to the rank finds it
(`reach_eq_nearestRank`).
-/

namespace CameraLogs.Lib

/-! ## Ranks -/

section Rank

variable {α β : Type} [LinearOrder α] [LinearOrder β] {xs l : List α} {rank : ℕ} {v : α}

/-- The value of a rank, counted from 1, in increasing order. -/
def nearestRank (rank : ℕ) (xs : List α) : Option α := (xs.insertionSort (· ≤ ·))[rank - 1]?

theorem countP_lt_sorted (h : l.Pairwise (· ≤ ·)) {i : ℕ} (hi : i < l.length) :
    l.countP (· < l[i]) ≤ i := by
  have hsplit := h
  rw [← List.take_append_drop i l, List.pairwise_append] at hsplit
  have hlater : (l.drop i).countP (· < l[i]) = 0 := by
    rw [List.countP_eq_zero]
    intro x hx
    rw [List.drop_eq_getElem_cons hi] at hx hsplit
    obtain rfl | hrest := List.mem_cons.mp hx
    · simp
    · simpa using (List.pairwise_cons.mp hsplit.2.1).1 x hrest
  calc l.countP (· < l[i])
      = (l.take i).countP (· < l[i]) + (l.drop i).countP (· < l[i]) := by
        rw [← List.countP_append, List.take_append_drop]
    _ ≤ (l.take i).length := by
        rw [hlater, Nat.add_zero]
        exact List.countP_le_length
    _ ≤ i := List.length_take_le i l

theorem lt_countP_le_sorted (h : l.Pairwise (· ≤ ·)) {i : ℕ} (hi : i < l.length) :
    i < l.countP (· ≤ l[i]) := by
  have hsplit := h
  rw [← List.take_append_drop (i + 1) l, List.pairwise_append] at hsplit
  have hfront : (l.take (i + 1)).countP (· ≤ l[i]) = (l.take (i + 1)).length := by
    rw [List.countP_eq_length]
    intro x hx
    rw [List.take_succ_eq_append_getElem hi] at hx hsplit
    obtain hbefore | hlast := List.mem_append.mp hx
    · exact decide_eq_true ((List.pairwise_append.mp hsplit.1).2.2 x hbefore l[i]
        (List.mem_singleton_self _))
    · simp [List.mem_singleton.mp hlast]
  have hlength : (l.take (i + 1)).length = i + 1 := by
    rw [List.length_take]
    omega
  have hmost : (l.take (i + 1)).countP (· ≤ l[i]) ≤ l.countP (· ≤ l[i]) :=
    (List.take_sublist _ _).countP_le
  rw [hfront, hlength] at hmost
  exact hmost

/-- The value of a rank is the one with fewer values below it, and enough of them up to it. -/
theorem nearestRank_iff (hpos : 1 ≤ rank) (hle : rank ≤ xs.length) :
    nearestRank rank xs = some v ↔
      v ∈ xs ∧ xs.countP (· < v) < rank ∧ rank ≤ xs.countP (· ≤ v) := by
  have hperm : (xs.insertionSort (· ≤ ·)).Perm xs := List.perm_insertionSort _ xs
  have hsorted : (xs.insertionSort (· ≤ ·)).Pairwise (· ≤ ·) :=
    List.pairwise_insertionSort (· ≤ ·) xs
  have hi : rank - 1 < (xs.insertionSort (· ≤ ·)).length := by
    rw [List.length_insertionSort]
    omega
  have hbelow := countP_lt_sorted hsorted hi
  have hupto := lt_countP_le_sorted hsorted hi
  rw [hperm.countP_eq] at hbelow hupto
  unfold nearestRank
  rw [List.getElem?_eq_getElem hi, Option.some.injEq]
  generalize hw : (xs.insertionSort (· ≤ ·))[rank - 1] = w at hbelow hupto
  have hmem : w ∈ xs := by
    rw [← hw]
    exact hperm.mem_iff.mp (List.getElem_mem hi)
  refine ⟨?_, ?_⟩
  · rintro rfl
    exact ⟨hmem, by omega, by omega⟩
  · rintro ⟨-, hless, henough⟩
    -- of two values with the property neither is below the other
    have hmono {a b : α} (hab : a < b) : xs.countP (· ≤ a) ≤ xs.countP (· < b) := by
      refine List.countP_mono_left fun x _ hx => ?_
      exact decide_eq_true (lt_of_le_of_lt (of_decide_eq_true hx) hab)
    rcases lt_trichotomy w v with hlt | heq | hgt
    · have hcount := hmono hlt
      omega
    · exact heq
    · have hcount := hmono hgt
      omega

theorem nearestRank_isSome (hpos : 1 ≤ rank) (hle : rank ≤ xs.length) :
    ∃ v, nearestRank rank xs = some v := by
  refine Option.isSome_iff_exists.mp ?_
  unfold nearestRank
  rw [List.getElem?_eq_getElem (by rw [List.length_insertionSort]; omega)]
  rfl

/-- A monotone function of the values is one of the value of the rank. -/
theorem nearestRank_map {f : α → β} (hf : Monotone f) (hpos : 1 ≤ rank) (hle : rank ≤ xs.length) :
    nearestRank rank (xs.map f) = (nearestRank rank xs).map f := by
  obtain ⟨v, hv⟩ := nearestRank_isSome hpos hle
  obtain ⟨hmem, hless, henough⟩ := (nearestRank_iff hpos hle).mp hv
  rw [hv, Option.map_some]
  refine (nearestRank_iff hpos (by rwa [List.length_map])).mpr ⟨List.mem_map_of_mem hmem, ?_, ?_⟩
  · rw [List.countP_map]
    refine lt_of_le_of_lt (List.countP_mono_left fun x _ hx => ?_) hless
    exact decide_eq_true (hf.reflect_lt (of_decide_eq_true hx))
  · rw [List.countP_map]
    refine le_trans henough (List.countP_mono_left fun x _ hx => ?_)
    exact decide_eq_true (hf (of_decide_eq_true hx))

end Rank

/-! ## Counting dictionaries -/

/-- A number under each key. -/
abbrev Counts (κ : Type) := List (κ × ℤ)

namespace Counts

variable {κ : Type} [DecidableEq κ] {counts : Counts κ} {f : κ → ℤ} {k : κ} {n : ℤ}

/-- The number under a key, or zero. -/
def count (counts : Counts κ) (k : κ) : ℤ := ((Dict.lookup Prod.fst k counts).map Prod.snd).getD 0

def add (counts : Counts κ) (k : κ) (n : ℤ) : Counts κ :=
  Dict.upsert Prod.fst (k, counts.count k + n) counts

/-- Take from the number under a key; nothing where the key is not there. -/
def remove (counts : Counts κ) (k : κ) (n : ℤ) : Option (Counts κ) :=
  (Dict.lookup Prod.fst k counts).map fun entry =>
    if entry.2 - n ≠ 0 then Dict.upsert Prod.fst (k, entry.2 - n) counts
    else counts.filter fun entry => entry.1 ≠ k

/-- Take the numbers of one dictionary from another. -/
def removeAll (counts : Counts κ) : Counts κ → Option (Counts κ)
  | [] => some counts
  | (k, n) :: taken => (counts.remove k n).bind (removeAll · taken)

def total (counts : Counts κ) : ℤ := (counts.map Prod.snd).sum

/-- The numbers are those of a function, and the keys those where it is not zero. -/
structure Is (counts : Counts κ) (f : κ → ℤ) : Prop where
  nodup : (counts.map Prod.fst).Nodup
  count : ∀ k, counts.count k = f k
  mem : ∀ k, k ∈ counts.map Prod.fst ↔ f k ≠ 0

theorem is_nil : Is ([] : Counts κ) fun _ => 0 where
  nodup := List.nodup_nil
  count := fun _ => rfl
  mem := by simp

theorem Is.congr {g : κ → ℤ} (h : counts.Is f) (hfg : ∀ k, f k = g k) : counts.Is g where
  nodup := h.nodup
  count := fun k => (h.count k).trans (hfg k)
  mem := fun k => by rw [h.mem k, hfg k]

theorem count_upsert {other : κ} :
    count (Dict.upsert Prod.fst (k, n) counts) other = if k = other then n else counts.count other := by
  unfold count
  rw [Dict.lookup_upsert]
  by_cases hk : k = other
  · simp [hk]
  · simp [hk]

/-- Writing a number that is not zero. -/
theorem Is.upsert (h : counts.Is f) (hn : n ≠ 0) :
    Is (Dict.upsert Prod.fst (k, n) counts) (Function.update f k n) where
  nodup := Dict.nodup_upsert h.nodup
  count := fun other => by
    rw [count_upsert, h.count]
    by_cases hk : other = k
    · subst hk
      simp
    · rw [Function.update_of_ne hk, if_neg (Ne.symm hk)]
  mem := fun other => by
    rw [Dict.mem_map_upsert, h.mem]
    by_cases hk : other = k
    · subst hk
      simp [hn]
    · simp [hk]

theorem Is.add (h : counts.Is f) (hn : f k + n ≠ 0) :
    (counts.add k n).Is (Function.update f k (f k + n)) := by
  unfold Counts.add
  rw [h.count]
  exact h.upsert hn

theorem Is.lookup (h : counts.Is f) (hk : f k ≠ 0) : Dict.lookup Prod.fst k counts = some (k, f k) := by
  cases hfind : Dict.lookup Prod.fst k counts with
  | none => exact absurd ((h.mem k).mpr hk) (Dict.lookup_none.mp hfind)
  | some entry =>
    have hcount := h.count k
    unfold Counts.count at hcount
    rw [hfind] at hcount
    obtain ⟨-, hkey⟩ := Dict.lookup_some hfind
    obtain ⟨key, number⟩ := entry
    rw [← hcount, ← hkey]
    rfl

theorem Is.remove (h : counts.Is f) (hk : f k ≠ 0) :
    ∃ left, counts.remove k n = some left ∧ left.Is (Function.update f k (f k - n)) := by
  unfold Counts.remove
  rw [h.lookup hk]
  refine ⟨_, rfl, ?_⟩
  dsimp only
  split
  next hleft => exact h.upsert hleft
  next hnone =>
    have hzero : f k - n = 0 := not_not.mp hnone
    rw [hzero]
    refine ⟨h.nodup.sublist (List.filter_sublist.map Prod.fst), fun other => ?_, fun other => ?_⟩
    · unfold Counts.count
      rw [Dict.lookup_filter h.nodup]
      by_cases hother : f other = 0
      · have habsent : Dict.lookup Prod.fst other counts = none :=
          Dict.lookup_none.mpr fun hmem => (h.mem other).mp hmem hother
        rw [habsent]
        by_cases hsame : other = k
        · simp [hsame]
        · simp [Function.update_of_ne hsame, hother]
      · rw [h.lookup hother]
        by_cases hsame : other = k
        · rw [Option.filter_some_neg (by simpa using hsame), hsame, Function.update_self]
          rfl
        · rw [Option.filter_some_pos (by simpa using hsame), Function.update_of_ne hsame]
          rfl
    · by_cases hsame : other = k
      · simp [hsame]
      · rw [Function.update_of_ne hsame, ← h.mem other]
        simp [hsame]

/-- Taking a whole dictionary takes, key by key, what is in it. -/
theorem Is.removeAll {taken : Counts κ} (h : counts.Is f) (hnodup : (taken.map Prod.fst).Nodup)
    (hthere : ∀ k ∈ taken.map Prod.fst, f k ≠ 0) :
    ∃ left, counts.removeAll taken = some left ∧ left.Is fun k => f k - taken.count k := by
  induction taken generalizing counts f with
  | nil => exact ⟨counts, rfl, h.congr fun k => (sub_zero (f k)).symm⟩
  | cons entry taken ih =>
    obtain ⟨k, n⟩ := entry
    rw [List.map_cons, List.nodup_cons] at hnodup
    obtain ⟨left, hremove, hleft⟩ := h.remove (n := n) (hthere k List.mem_cons_self)
    have hrest : ∀ other ∈ taken.map Prod.fst, Function.update f k (f k - n) other ≠ 0 := by
      intro other hother
      rw [Function.update_of_ne (ne_of_mem_of_not_mem hother hnodup.1)]
      exact hthere other (List.mem_cons_of_mem _ hother)
    obtain ⟨final, hfinal, his⟩ := ih hleft hnodup.2 hrest
    refine ⟨final, ?_, his.congr fun other => ?_⟩
    · unfold Counts.removeAll
      rw [hremove]
      exact hfinal
    · have hcount : Counts.count ((k, n) :: taken) other =
          if k = other then n else Counts.count taken other := by
        unfold Counts.count Dict.lookup
        by_cases hk : k = other
        · simp [hk]
        · simp [hk]
      rw [hcount]
      by_cases hk : other = k
      · subst hk
        have habsent : Counts.count taken other = 0 := by
          unfold Counts.count
          rw [Dict.lookup_none.mpr hnodup.1]
          rfl
        simp [habsent]
      · rw [Function.update_of_ne hk, if_neg (Ne.symm hk)]

/-! ## Counts of a list -/

variable {xs : List κ}

/-- How often keys occur, for keys that differ. -/
theorem sum_count {keys : List κ} (hnodup : keys.Nodup) :
    (keys.map fun k => (xs.count k : ℤ)).sum = xs.countP (· ∈ keys) := by
  induction keys with
  | nil => simp
  | cons k keys ih =>
    rw [List.nodup_cons] at hnodup
    rw [List.map_cons, List.sum_cons, ih hnodup.2]
    have hadd : xs.countP (· ∈ k :: keys) = xs.count k + xs.countP (· ∈ keys) := by
      clear ih
      induction xs with
      | nil => rfl
      | cons x xs ih =>
        rw [List.countP_cons, List.countP_cons, List.count_cons, ih]
        by_cases hx : x = k
        · subst hx
          simp [hnodup.1]
          omega
        · by_cases hmem : x ∈ keys
          · simp [hx, hmem]
            omega
          · simp [hx, hmem]
    rw [hadd]
    exact (Nat.cast_add _ _).symm

theorem Is.total (h : counts.Is fun k => (xs.count k : ℤ)) : counts.total = xs.length := by
  have hnumbers : counts.map Prod.snd = (counts.map Prod.fst).map fun k => (xs.count k : ℤ) := by
    rw [List.map_map]
    refine List.map_congr_left fun entry hentry => ?_
    have hfind := Dict.lookup_eq_some h.nodup hentry
    have hcount := h.count entry.1
    unfold Counts.count at hcount
    rw [hfind] at hcount
    exact hcount
  have hall : xs.countP (· ∈ counts.map Prod.fst) = xs.length := by
    rw [List.countP_eq_length]
    intro x hx
    refine decide_eq_true ((h.mem x).mpr ?_)
    have hpos := List.count_pos_iff.mpr hx
    omega
  unfold Counts.total
  rw [hnumbers, sum_count h.nodup, hall]

/-- Run through keys until their numbers, with those before, add up to the rank. -/
def reach (counts : Counts κ) (rank : ℤ) : ℤ → List κ → Option κ
  | _, [] => none
  | sum, k :: keys =>
    if rank ≤ sum + counts.count k then some k else reach counts rank (sum + counts.count k) keys

end Counts

section Reach

variable {κ : Type} [LinearOrder κ] {counts : Counts κ} {xs : List κ} {rank : ℕ}

theorem reach_spec {before keys : List κ} (h : counts.Is fun k => (xs.count k : ℤ))
    (hsorted : (before ++ keys).Pairwise (· < ·)) (hall : ∀ x ∈ xs, x ∈ before ++ keys)
    (hthere : ∀ k ∈ keys, k ∈ xs)
    (hless : xs.countP (· ∈ before) < rank) (hle : rank ≤ xs.length) :
    ∃ v, counts.reach rank (xs.countP (· ∈ before)) keys = some v ∧ v ∈ xs ∧
      xs.countP (· < v) < rank ∧ rank ≤ xs.countP (· ≤ v) := by
  induction keys generalizing before with
  | nil =>
    have hlength : xs.countP (· ∈ before) = xs.length := by
      rw [List.countP_eq_length]
      intro x hx
      exact decide_eq_true (by simpa using hall x hx)
    omega
  | cons k keys ih =>
    obtain ⟨hbefore, hkeys, hacross⟩ := List.pairwise_append.mp hsorted
    have hnot : k ∉ before := fun hk => lt_irrefl k (hacross k hk k List.mem_cons_self)
    -- the keys before are the values below
    have hbelow : ∀ x ∈ xs, x ∈ before ↔ x < k := by
      intro x hx
      refine ⟨fun hmem => hacross x hmem k List.mem_cons_self, fun hlt => ?_⟩
      obtain hmem | hmem := List.mem_append.mp (hall x hx)
      · exact hmem
      · obtain rfl | hmem := List.mem_cons.mp hmem
        · exact absurd hlt (lt_irrefl x)
        · exact absurd hlt (lt_asymm ((List.pairwise_cons.mp hkeys).1 x hmem))
    have hcount : xs.countP (· ∈ before) = xs.countP (· < k) :=
      List.countP_congr fun x hx => by simpa using hbelow x hx
    have hupto : (xs.countP (· ∈ before) : ℤ) + xs.count k = xs.countP (· ∈ before ++ [k]) := by
      have hnodup : (before ++ [k]).Nodup := by
        refine List.nodup_append.mpr ⟨hbefore.imp fun h => ne_of_lt h, List.nodup_singleton k, ?_⟩
        intro x hx y hy
        rw [List.mem_singleton.mp hy]
        exact fun heq => hnot (heq ▸ hx)
      have hsum : ((before ++ [k]).map fun key => (xs.count key : ℤ)).sum =
          xs.countP (· ∈ before ++ [k]) := Counts.sum_count hnodup
      rw [List.map_append, List.sum_append, Counts.sum_count (hbefore.imp fun h => ne_of_lt h)] at hsum
      simpa using hsum
    have hle' : xs.countP (· ∈ before ++ [k]) = xs.countP (· ≤ k) := by
      refine List.countP_congr fun x hx => ?_
      simp only [List.mem_append, List.mem_singleton, decide_eq_true_eq]
      rw [hbelow x hx]
      exact le_iff_lt_or_eq.symm
    unfold Counts.reach
    rw [h.count, hupto]
    split
    next hreached =>
      refine ⟨k, rfl, hthere k List.mem_cons_self, hcount ▸ hless, ?_⟩
      rw [← hle']
      exact Int.ofNat_le.mp hreached
    next hnotReached =>
      refine ih ?_ ?_ (fun other hother => hthere other (List.mem_cons_of_mem _ hother)) ?_
      · rw [List.append_assoc]
        exact hsorted
      · intro x hx
        rw [List.append_assoc]
        exact hall x hx
      · exact Int.ofNat_lt.mp (not_le.mp hnotReached)

/-- The keys in order, until their numbers add up to a rank, give the value of the rank. -/
theorem reach_eq_nearestRank (h : counts.Is fun k => (xs.count k : ℤ)) (hpos : 1 ≤ rank)
    (hle : rank ≤ xs.length) :
    counts.reach rank 0 ((counts.map Prod.fst).insertionSort (· ≤ ·)) = nearestRank rank xs := by
  have hperm : ((counts.map Prod.fst).insertionSort (· ≤ ·)).Perm (counts.map Prod.fst) :=
    List.perm_insertionSort _ _
  have hmem : ∀ k, k ∈ (counts.map Prod.fst).insertionSort (· ≤ ·) ↔ k ∈ xs := by
    intro k
    rw [hperm.mem_iff, h.mem, ← List.count_pos_iff]
    omega
  have hsorted : ((counts.map Prod.fst).insertionSort (· ≤ ·)).Pairwise (· < ·) := by
    have hle := List.pairwise_insertionSort (· ≤ ·) (counts.map Prod.fst)
    have hne : ((counts.map Prod.fst).insertionSort (· ≤ ·)).Nodup := hperm.nodup_iff.mpr h.nodup
    exact hle.imp₂ (fun _ _ hle hne => lt_of_le_of_ne hle hne) hne
  obtain ⟨v, hreach, hv⟩ := @reach_spec _ _ counts xs rank []
    ((counts.map Prod.fst).insertionSort (· ≤ ·)) h hsorted (fun x hx => (hmem x).mpr hx)
    (fun k hk => (hmem k).mp hk) (by simpa using Nat.lt_of_lt_of_le Nat.one_pos hpos) hle
  have hzero : xs.countP (· ∈ ([] : List κ)) = 0 := by simp
  rw [hzero] at hreach
  rw [(nearestRank_iff hpos hle).mpr hv]
  exact hreach

end Reach

end CameraLogs.Lib

import Mathlib.Data.List.Sort
import Mathlib.Data.Nat.ModEq
import Mathlib.Data.List.TakeDrop

/-!
# Sweeping a list round by round

A sweep goes through a list in cyclic order, each round from behind the item the one before ended
with. A round takes so many items; it may also end where the block of the items around its start
began, one cycle later. One round more than the items need is then enough (`sweep_covers`): a
round that ends early leaves the next one at a place where only a whole cycle ends early.

The items behind a place in a sorted list are a last part of it (`filter_lt_eq_drop`).
-/

namespace CameraLogs.Lib

/-! ## Places in a sorted list -/

section Sorted

variable {α : Type} [LinearOrder α] {l : List α}

/-- How many items are not behind a place. -/
def position (l : List α) (place : α) : Nat := l.countP (· ≤ place)

/-- The list in cyclic order, from a position on. -/
def cyclicFrom (l : List α) (x : Nat) : List α := l.drop x ++ l.take x

theorem position_le_length (place : α) : position l place ≤ l.length := List.countP_le_length

theorem filter_le_eq_take (hl : l.Pairwise (· < ·)) (place : α) :
    l.filter (· ≤ place) = l.take (position l place) ∧
      l.filter (place < ·) = l.drop (position l place) := by
  induction l with
  | nil => exact ⟨rfl, rfl⟩
  | cons a l ih =>
    have ⟨ha, hl⟩ := List.pairwise_cons.mp hl
    by_cases hle : a ≤ place
    · have hposition : position (a :: l) place = position l place + 1 := by simp [position, hle]
      rw [hposition]
      simp [hle, not_lt.mpr hle, ih hl]
    · have hnone : ∀ b ∈ l, place < b := fun b hb => (not_le.mp hle).trans (ha b hb)
      have hposition : position (a :: l) place = 0 := by
        refine List.countP_eq_zero.mpr fun b hb => ?_
        obtain rfl | hb := List.mem_cons.mp hb
        · simpa using hle
        · simpa using hnone b hb
      rw [hposition, List.take_zero, List.drop_zero]
      refine ⟨List.filter_eq_nil_iff.mpr fun b hb => ?_, List.filter_eq_self.mpr fun b hb => ?_⟩
      · obtain rfl | hb := List.mem_cons.mp hb
        · simpa using hle
        · simpa using hnone b hb
      · obtain rfl | hb := List.mem_cons.mp hb
        · simpa using hle
        · simpa using hnone b hb

/-- The position behind an item of the list. -/
theorem position_getElem (hl : l.Pairwise (· < ·)) {i : Nat} (hi : i < l.length) :
    position l l[i] = i + 1 := by
  have hstrict {j : Nat} (hj : j < l.length) : l[j] ≤ l[i] ↔ j ≤ i := by
    constructor
    · intro hle
      by_contra hlt
      exact absurd hle (not_le.mpr (List.pairwise_iff_getElem.mp hl i j hi hj (by omega)))
    · intro hle
      obtain hlt | rfl := Nat.lt_or_eq_of_le hle
      · exact (List.pairwise_iff_getElem.mp hl j i hj hi hlt).le
      · exact le_refl _
  have hsplit := List.take_append_drop (i + 1) l
  have htake : (l.take (i + 1)).countP (· ≤ l[i]) = (l.take (i + 1)).length := by
    refine List.countP_eq_length.mpr fun a ha => ?_
    obtain ⟨j, hj, rfl⟩ := List.mem_iff_getElem.mp ha
    rw [List.length_take] at hj
    rw [List.getElem_take]
    exact decide_eq_true ((hstrict _).mpr (by omega))
  have hdrop : (l.drop (i + 1)).countP (· ≤ l[i]) = 0 := by
    refine List.countP_eq_zero.mpr fun a ha => ?_
    obtain ⟨j, hj, rfl⟩ := List.mem_iff_getElem.mp ha
    rw [List.length_drop] at hj
    rw [List.getElem_drop]
    simp only [decide_eq_true_eq]
    exact fun hle => absurd ((hstrict (by omega)).mp hle) (by omega)
  calc position l l[i] = (l.take (i + 1) ++ l.drop (i + 1)).countP (· ≤ l[i]) := by
        rw [hsplit, position]
    _ = i + 1 := by
        rw [List.countP_append, htake, hdrop, List.length_take]
        omega

end Sorted

theorem length_cyclicFrom {α : Type} (l : List α) (x : Nat) : (cyclicFrom l x).length = l.length := by
  rw [cyclicFrom, List.length_append, List.length_drop, List.length_take]
  omega

/-- The items in cyclic order are those of the list at the positions in cyclic order. -/
theorem getElem_cyclicFrom {α : Type} {l : List α} {x j : Nat} (hx : x ≤ l.length)
    (hj : j < l.length) :
    (cyclicFrom l x)[j]? = l[(x + j) % l.length]? := by
  rw [cyclicFrom, List.getElem?_append, List.length_drop]
  split
  next hlt =>
    rw [List.getElem?_drop, Nat.mod_eq_of_lt (by omega)]
  next hge =>
    have hmod : (x + j) % l.length = j - (l.length - x) := by
      have hsum : x + j = j - (l.length - x) + l.length := by omega
      rw [hsum, Nat.add_mod_right, Nat.mod_eq_of_lt (by omega)]
    rw [hmod, List.getElem?_take_of_lt (by omega)]

/-! ## Rounds -/

section Rounds

variable {size limit : Nat} {x len : Nat → Nat}

/-- The position behind so many items, of those of one cycle. -/
def wrapped (size y : Nat) : Nat := (y - 1) % size + 1

theorem wrapped_of_le {y : Nat} (hpos : 0 < y) (hle : y ≤ size) : wrapped size y = y := by
  rw [wrapped, Nat.mod_eq_of_lt (by omega)]
  omega

theorem wrapped_of_gt {y : Nat} (hgt : size < y) (hle : y ≤ 2 * size) :
    wrapped size y = y - size := by
  have hsum : y - 1 = y - size - 1 + size := by omega
  rw [wrapped, hsum, Nat.add_mod_right, Nat.mod_eq_of_lt (by omega)]
  omega

/-- How far the rounds have come before so many of them. -/
def reached (x len : Nat → Nat) (t : Nat) : Nat := x 0 + ((List.range t).map len).sum

theorem reached_succ (t : Nat) : reached x len (t + 1) = reached x len t + len t := by
  rw [reached, reached, List.range_succ, List.map_append, List.sum_append, Nat.add_assoc]
  simp

/-- A round of a sweep: it takes all it may, or ends where its block began, a cycle later. -/
def RoundLength (size limit x len : Nat) : Prop :=
  len = min limit size ∨ ∃ start ≤ x, x < size ∧ len = min limit (size - (x - start))

theorem RoundLength.le {x len : Nat} (h : RoundLength size limit x len) : len ≤ size := by
  obtain rfl | ⟨start, hstart, hlt, rfl⟩ := h <;> omega

theorem RoundLength.pos {x len : Nat} (h : RoundLength size limit x len) (hlimit : 0 < limit)
    (hsize : 0 < size) : 0 < len := by
  obtain rfl | ⟨start, hstart, hlt, rfl⟩ := h <;> omega

/-- How far a sweep that is not through has come: all its rounds were full, or one of them has
ended early, and the cycle was at its end. -/
def OnTheWay (size limit x0 t x y : Nat) : Prop :=
  (x = y ∨ x + size = y) ∧
    (x0 + t * limit ≤ y ∨ size ≤ y ∧ x0 + t * limit ≤ y + limit)

theorem onTheWay_step {x0 t x x' y len : Nat} (hlimit : 0 < limit) (hsize : 0 < size)
    (hx0 : x0 ≤ size) (hx : x ≤ size) (h : OnTheWay size limit x0 t x y)
    (hnext : x' = wrapped size (x + len)) (hlen : RoundLength size limit x len) :
    x0 + size ≤ y + len ∨ OnTheWay size limit x0 (t + 1) x' (y + len) := by
  by_cases hthrough : x0 + size ≤ y + len
  · exact .inl hthrough
  · obtain ⟨hplace, hfar⟩ := h
    have hsucc : (t + 1) * limit = t * limit + limit := Nat.succ_mul t limit
    have hpos : 0 < x + len := by
      obtain rfl | ⟨start, hstart, hlt, rfl⟩ := hlen <;> omega
    have hplace' : x' = y + len ∨ x' + size = y + len := by
      by_cases hle : x + len ≤ size
      · rw [hnext, wrapped_of_le hpos hle]
        omega
      · rw [hnext, wrapped_of_gt (by omega) (by omega)]
        omega
    refine .inr ⟨hplace', ?_⟩
    rw [hsucc]
    obtain hfull | ⟨start, hstart, hlt, hearly⟩ := hlen
    · omega
    · omega

/-- So many rounds and one more go through the list. -/
theorem reached_all (hlimit : 0 < limit) (hsize : 0 < size) (hx0 : x 0 ≤ size)
    (hnext : ∀ t, x (t + 1) = wrapped size (x t + len t))
    (hlen : ∀ t, RoundLength size limit (x t) (len t)) :
    x 0 + size ≤ reached x len ((size + limit - 1) / limit + 1) := by
  have hx (t : Nat) : x t ≤ size := by
    cases t with
    | zero => exact hx0
    | succ t =>
      rw [hnext, wrapped]
      exact Nat.mod_lt _ hsize
  have hway (t : Nat) : x 0 + size ≤ reached x len t ∨
      OnTheWay size limit (x 0) t (x t) (reached x len t) := by
    induction t with
    | zero => exact .inr ⟨.inl rfl, .inl (by simp [reached])⟩
    | succ t ih =>
      rw [reached_succ]
      obtain hthrough | honway := ih
      · exact .inl (by omega)
      · exact onTheWay_step hlimit hsize hx0 (hx t) honway (hnext t) (hlen t)
  have hrounds : size ≤ (size + limit - 1) / limit * limit := by
    have := Nat.lt_div_mul_add (a := size + limit - 1) hlimit
    omega
  obtain hthrough | ⟨-, hfar⟩ := hway ((size + limit - 1) / limit + 1)
  · exact hthrough
  · rw [Nat.succ_mul] at hfar
    omega

theorem reached_modEq (hnext : ∀ t, x (t + 1) = wrapped size (x t + len t))
    (hpos : ∀ t, 0 < x t + len t) (t : Nat) : x t ≡ reached x len t [MOD size] := by
  induction t with
  | zero => simp [reached, Nat.ModEq]
  | succ t ih =>
    rw [hnext, reached_succ, wrapped]
    have hmod : (x t + len t - 1) % size + 1 ≡ x t + len t - 1 + 1 [MOD size] :=
      (Nat.mod_modEq _ _).add_right 1
    rw [Nat.sub_add_cancel (hpos t)] at hmod
    exact hmod.trans (ih.add_right _)

/-- Every position is one that a round takes. -/
theorem sweep_covers (hlimit : 0 < limit) (hsize : 0 < size) (hx0 : x 0 ≤ size)
    (hnext : ∀ t, x (t + 1) = wrapped size (x t + len t))
    (hlen : ∀ t, RoundLength size limit (x t) (len t)) {k : Nat} (hk : k < size) :
    ∃ t < (size + limit - 1) / limit + 1, ∃ j < len t, (x t + j) % size = k := by
  have hall := reached_all hlimit hsize hx0 hnext hlen
  have hpos (t : Nat) : 0 < x t + len t := by
    obtain h | ⟨start, hstart, hlt, h⟩ := hlen t <;> omega
  -- the position is some way ahead of the first one
  obtain ⟨y, hlow, hhigh, hy⟩ : ∃ y, x 0 ≤ y ∧ y < x 0 + size ∧ y % size = k := by
    by_cases hle : x 0 ≤ k
    · exact ⟨k, hle, by omega, Nat.mod_eq_of_lt hk⟩
    · refine ⟨k + size, by omega, by omega, ?_⟩
      rw [Nat.add_mod_right, Nat.mod_eq_of_lt hk]
  have hround : ∀ n, y < reached x len n → ∃ t < n, reached x len t ≤ y ∧
      y < reached x len t + len t := by
    intro n
    induction n with
    | zero =>
      intro hlt
      simp only [reached, List.range_zero, List.map_nil, List.sum_nil] at hlt
      omega
    | succ n ih =>
      intro hlt
      by_cases hbefore : y < reached x len n
      · obtain ⟨t, ht, hround⟩ := ih hbefore
        exact ⟨t, by omega, hround⟩
      · rw [reached_succ] at hlt
        exact ⟨n, by omega, by omega, hlt⟩
  obtain ⟨t, ht, hfrom, hto⟩ := hround _ (by omega : y < reached x len ((size + limit - 1) / limit + 1))
  refine ⟨t, ht, y - reached x len t, by omega, ?_⟩
  have hmod := (reached_modEq hnext hpos t).add_right (y - reached x len t)
  rw [Nat.add_sub_cancel' hfrom] at hmod
  exact Eq.trans hmod hy

end Rounds

end CameraLogs.Lib

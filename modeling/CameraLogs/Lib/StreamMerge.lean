import Mathlib.Data.List.Perm.Basic
import Mathlib.Data.Set.Finite.Lemmas
import Mathlib.Data.Set.Finite.List

/-!
# Merging ordered streams

Values come in streams, each with an order of its own: `Before` is that one value comes
before another in their stream. A merge takes, again and again, the value with the least key
among those that nothing left comes before; it is a list that is `Merged`.

There is one merge of given values at most, in whatever order they are given
(`Merged.unique`). It keeps the order of each stream (`Merged.pairwise`), and it is sorted by
time wherever each stream is (`Merged.sorted`).
-/

namespace CameraLogs.Lib

variable {α κ ρ τ : Type} {stream : α → κ} {rank : α → ρ} {key : α → τ} [LinearOrder ρ]
  {xs ys : List α} {x y : α}

/-- Of one stream, and earlier in it. -/
def Before (stream : α → κ) (rank : α → ρ) (x y : α) : Prop := stream x = stream y ∧ rank x < rank y

theorem Before.irrefl : ¬Before stream rank x x := fun h => lt_irrefl _ h.2

/-- Nothing of the list comes before it. -/
def Available (stream : α → κ) (rank : α → ρ) (xs : List α) (x : α) : Prop :=
  ∀ y ∈ xs, ¬Before stream rank y x

theorem Available.perm (hperm : xs.Perm ys) (h : Available stream rank xs x) :
    Available stream rank ys x := fun y hy => h y (hperm.mem_iff.2 hy)

/-- Something of the stream of a value is available, and not later than it. -/
theorem exists_available (hx : x ∈ xs) : ∃ y ∈ xs, Available stream rank xs y ∧
    (y = x ∨ Before stream rank y x) := by
  have hfinite : {y | y ∈ xs ∧ stream y = stream x}.Finite :=
    xs.finite_toSet.subset fun y hy => hy.1
  obtain ⟨y, ⟨hy, hstream⟩, hleast⟩ := Set.exists_min_image _ rank hfinite ⟨x, hx, rfl⟩
  by_cases hlt : rank y < rank x
  · refine ⟨y, hy, fun z hz hbefore => ?_, .inr ⟨hstream, hlt⟩⟩
    exact absurd (hleast z ⟨hz, hbefore.1.trans hstream⟩) (not_le_of_gt hbefore.2)
  · refine ⟨x, hx, fun z hz hbefore => ?_, .inl rfl⟩
    have hle := hleast z ⟨hz, hbefore.1⟩
    exact hlt (lt_of_le_of_lt hle hbefore.2)

/-- At each place stands the available value with the least key. -/
def Merged [LT τ] (stream : α → κ) (rank : α → ρ) (key : α → τ) : List α → Prop
  | [] => True
  | x :: xs => Available stream rank xs x ∧
      (∀ y ∈ xs, Available stream rank (x :: xs) y → key x < key y) ∧
      Merged stream rank key xs

/-- The order of each stream is kept. -/
theorem Merged.pairwise [LT τ] (h : Merged stream rank key xs) :
    xs.Pairwise fun x y => ¬Before stream rank y x := by
  induction xs with
  | nil => exact .nil
  | cons x xs ih => exact .cons h.1 (ih h.2.2)

/-- A merge is sorted by a time that its keys and its streams respect. -/
theorem Merged.sorted {σ : Type} [Preorder σ] [LT τ] {time : α → σ}
    (hkey : ∀ x y, key x < key y → time x ≤ time y)
    (hstreams : ∀ x ∈ xs, ∀ y ∈ xs, Before stream rank x y → time x ≤ time y)
    (h : Merged stream rank key xs) : xs.Pairwise fun x y => time x ≤ time y := by
  induction xs with
  | nil => exact .nil
  | cons x xs ih =>
    refine .cons (fun y hy => ?_) (ih (fun a ha b hb =>
      hstreams a (List.mem_cons_of_mem _ ha) b (List.mem_cons_of_mem _ hb)) h.2.2)
    -- what is available of its stream lies between
    obtain ⟨z, hz, havailable, hle⟩ :=
      @exists_available _ _ _ stream rank _ _ _ (List.mem_cons_of_mem x hy)
    have hzy : time z ≤ time y := by
      obtain rfl | hbefore := hle
      · exact le_refl _
      · exact hstreams z hz y (List.mem_cons_of_mem _ hy) hbefore
    obtain rfl | hz := List.mem_cons.1 hz
    · exact hzy
    · exact (hkey x z (h.2.1 z hz havailable)).trans hzy

/-- There is one merge. -/
theorem Merged.unique [Preorder τ] (hperm : xs.Perm ys) (hx : Merged stream rank key xs)
    (hy : Merged stream rank key ys) : xs = ys := by
  induction xs generalizing ys with
  | nil => exact hperm.nil_eq
  | cons x xs ih =>
    cases ys with
    | nil => cases hperm.eq_nil
    | cons y ys =>
      have hself : ∀ {a : α} {as : List α}, Available stream rank as a →
          Available stream rank (a :: as) a := fun h b hb => by
        obtain rfl | hb := List.mem_cons.1 hb
        · exact Before.irrefl
        · exact h b hb
      -- each head would have the lesser key
      have hsame : x = y := by
        by_contra hne
        have hmemy : y ∈ xs :=
          List.mem_of_ne_of_mem (Ne.symm hne) (hperm.mem_iff.2 List.mem_cons_self)
        have hmemx : x ∈ ys := List.mem_of_ne_of_mem hne (hperm.mem_iff.1 List.mem_cons_self)
        have hlt := hx.2.1 y hmemy ((hself hy.1).perm hperm.symm)
        exact lt_asymm hlt (hy.2.1 x hmemx ((hself hx.1).perm hperm))
      subst hsame
      rw [ih (List.perm_cons x |>.1 hperm) hx.2.2 hy.2.2]

end CameraLogs.Lib

import Mathlib.Algebra.BigOperators.Group.List.Basic
import Mathlib.Data.List.Basic
import Mathlib.Algebra.Ring.Int.Defs

/-!
# A shared account

Several holders share an account; what is taken from it is what they hold together.
One lemma says how the total moves with one holder.
-/

namespace CameraLogs.Lib

variable {α : Type} (held : α → Int)

/-- What the holders have together. -/
def total (holders : List α) : Int := (holders.map held).sum

@[simp] theorem total_nil : total held [] = 0 := rfl

theorem total_cons (x : α) (xs : List α) : total held (x :: xs) = held x + total held xs := by
  unfold total
  rw [List.map_cons, List.sum_cons]

theorem total_append (xs ys : List α) : total held (xs ++ ys) = total held xs + total held ys := by
  unfold total
  rw [List.map_append, List.sum_append]

/-- The total moves as the one holder does that changes. -/
theorem total_set {xs : List α} {i : Nat} {x : α} (h : xs[i]? = some x) (y : α) :
    total held (xs.set i y) = total held xs + (held y - held x) := by
  induction xs generalizing i with
  | nil => cases h
  | cons z xs ih =>
    cases i with
    | zero =>
      cases h
      rw [List.set_cons_zero, total_cons, total_cons]
      omega
    | succ i =>
      rw [List.set_cons_succ, total_cons, total_cons, ih h]
      omega

theorem total_nonneg {xs : List α} (h : ∀ x ∈ xs, 0 ≤ held x) : 0 ≤ total held xs := by
  induction xs with
  | nil => exact Int.le_refl 0
  | cons x xs ih =>
    have hx := h x List.mem_cons_self
    have hxs := ih fun z hz => h z (List.mem_cons_of_mem _ hz)
    rw [total_cons]
    omega

/-- Nobody holds more than all together. -/
theorem held_le_total {xs : List α} (h : ∀ x ∈ xs, 0 ≤ held x) {x : α} (hx : x ∈ xs) :
    held x ≤ total held xs := by
  obtain ⟨before, after, heq⟩ := List.append_of_mem hx
  have hbefore := total_nonneg held fun z hz => h z (heq ▸ List.mem_append_left _ hz)
  have hafter := total_nonneg held fun z hz =>
    h z (heq ▸ List.mem_append_right _ (List.mem_cons_of_mem _ hz))
  rw [heq, total_append, total_cons]
  omega

end CameraLogs.Lib

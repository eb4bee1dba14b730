import Mathlib.Data.List.Basic
import Mathlib.Tactic.Ring

/-!
# A list in blocks

A list that only grows at its end is kept in blocks of a fixed size, numbered from the front.
Appending touches the block whose number is the length divided by the size, and no other
(`block_append_self`, `block_append_other`); the blocks one after the other are the list
(`flatMap_block`).
-/

namespace CameraLogs.Lib

variable {α : Type} {size number : Nat} {l : List α}

/-- The block of that number. -/
def block (size : Nat) (l : List α) (number : Nat) : List α := (l.drop (size * number)).take size

theorem length_block_le : (block size l number).length ≤ size := List.length_take_le _ _

theorem block_eq_nil_iff (hsize : 0 < size) : block size l number = [] ↔ l.length ≤ size * number := by
  rw [block, List.take_eq_nil_iff, List.drop_eq_nil_iff]
  exact or_iff_right hsize.ne'

/-- The block that is not full yet. -/
theorem block_last (size : Nat) (l : List α) (hsize : 0 < size) :
    block size l (l.length / size) = l.drop (size * (l.length / size)) ∧
      (block size l (l.length / size)).length = l.length % size := by
  have hmod := Nat.div_add_mod l.length size
  have hlt := Nat.mod_lt l.length hsize
  have hlength : (l.drop (size * (l.length / size))).length = l.length % size := by
    rw [List.length_drop]
    omega
  have hblock : block size l (l.length / size) = l.drop (size * (l.length / size)) := by
    refine List.take_of_length_le ?_
    omega
  exact ⟨hblock, by rw [hblock, hlength]⟩

theorem block_append_self (hsize : 0 < size) (x : α) :
    block size (l ++ [x]) (l.length / size) = block size l (l.length / size) ++ [x] := by
  obtain ⟨hblock, hlength⟩ := block_last size l hsize
  have hlt := Nat.mod_lt l.length hsize
  have hle : size * (l.length / size) ≤ l.length := Nat.mul_div_le _ _
  rw [block, List.drop_append_of_le_length hle, ← hblock]
  refine List.take_of_length_le ?_
  rw [List.length_append, hlength, List.length_singleton]
  omega

theorem block_append_other (hsize : 0 < size) (x : α) (hother : number ≠ l.length / size) :
    block size (l ++ [x]) number = block size l number := by
  have hmod := Nat.div_add_mod l.length size
  have hlt := Nat.mod_lt l.length hsize
  obtain hbefore | hbehind := Nat.lt_or_gt_of_ne hother
  · -- a full block
    have hle : size * (number + 1) ≤ size * (l.length / size) := Nat.mul_le_mul_left size hbefore
    rw [Nat.mul_succ] at hle
    rw [block, block, List.drop_append_of_le_length (by omega), List.take_append_of_le_length]
    rw [List.length_drop]
    omega
  · have hle : size * (l.length / size + 1) ≤ size * number := Nat.mul_le_mul_left size hbehind
    rw [Nat.mul_succ] at hle
    have hnone : block size (l ++ [x]) number = [] := by
      rw [block_eq_nil_iff hsize, List.length_append, List.length_singleton]
      omega
    rw [hnone, eq_comm, block_eq_nil_iff hsize]
    omega

/-- The blocks one after the other. -/
theorem flatMap_block (size : Nat) (l : List α) (count : Nat) :
    (List.range count).flatMap (block size l) = l.take (size * count) := by
  induction count with
  | zero => simp
  | succ count ih =>
    rw [List.range_succ, List.flatMap_append, ih, List.flatMap_singleton, block, Nat.mul_succ,
      List.take_add]

end CameraLogs.Lib

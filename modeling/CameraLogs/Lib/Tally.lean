import Mathlib.Algebra.Order.BigOperators.Group.List
import Mathlib.Algebra.Order.Group.Nat
import CameraLogs.Lib.Dict
import Mathlib.Algebra.GroupWithZero.Nat

/-!
# Adding up a dictionary

`tally` is the sum of an amount over the values of a dictionary. A write under a new key
adds what it writes; a write under a key that exists moves the sum by the difference. The
sum of a dictionary is therefore kept by whoever books each write beside it.
-/

namespace CameraLogs.Lib

variable {α κ : Type} [DecidableEq κ] {key : α → κ} {amount : α → Nat} {x y : α} {xs : List α}

def tally (amount : α → Nat) (xs : List α) : Nat := (xs.map amount).sum

@[simp] theorem tally_nil : tally amount [] = 0 := rfl

@[simp] theorem tally_cons : tally amount (x :: xs) = amount x + tally amount xs := by
  simp [tally]

theorem tally_upsert_new (h : key x ∉ xs.map key) :
    tally amount (Dict.upsert key x xs) = tally amount xs + amount x := by
  induction xs with
  | nil => simp [Dict.upsert]
  | cons z zs ih =>
    rw [List.map_cons, List.mem_cons, not_or] at h
    unfold Dict.upsert
    rw [if_neg (fun hz => h.1 hz.symm), tally_cons, tally_cons, ih h.2]
    omega

/-- What was there under the key comes out, and what is written goes in. -/
theorem tally_upsert (h : Dict.lookup key (key x) xs = some y) :
    tally amount (Dict.upsert key x xs) + amount y = tally amount xs + amount x := by
  induction xs with
  | nil => cases h
  | cons z zs ih =>
    unfold Dict.lookup at h ih
    unfold Dict.upsert
    rw [List.find?_cons] at h
    split
    next hz =>
      have hzy : z = y := by simpa [hz] using h
      rw [hzy, tally_cons, tally_cons]
      omega
    next hz =>
      have hrest := ih (by simpa [hz] using h)
      rw [tally_cons, tally_cons]
      omega

/-- What is found under a key is part of the sum. -/
theorem le_tally {k : κ} (h : Dict.lookup key k xs = some y) : amount y ≤ tally amount xs := by
  obtain ⟨hmem, -⟩ := Dict.lookup_some h
  exact List.le_sum_of_mem (List.mem_map_of_mem hmem)

end CameraLogs.Lib

import Mathlib.Data.List.Count
import Mathlib.Data.List.Nodup
import Mathlib.Logic.Function.Basic

/-!
# Counting by a property that changes

`census` counts the keys whose value in a map has a property. One update of the map raises
it by one at most, and not at all where the new value has the property only if the old one
had it.

A count that takes time visits the keys one by one while the map goes on changing.
`census_visit` is one visit: the keys visited so far, and with them their census, grow by
one key.
-/

namespace CameraLogs.Lib

variable {κ α : Type} {keys : List κ} {map : κ → α} {key : κ} {value : α}
  {p : α → Prop} [DecidablePred p]

/-- How many of the keys have a value with the property. -/
def census (keys : List κ) (map : κ → α) (p : α → Prop) [DecidablePred p] : Nat :=
  keys.countP fun key => p (map key)

/-- What satisfies one of two properties is counted by one of them. -/
theorem countP_le_add {f g h : κ → Bool} (keys : List κ)
    (himp : ∀ key ∈ keys, f key = true → g key = true ∨ h key = true) :
    keys.countP f ≤ keys.countP g + keys.countP h := by
  induction keys with
  | nil => simp
  | cons key keys ih =>
    have hrest := ih fun other hmem => himp other (List.mem_cons_of_mem _ hmem)
    have hkey := himp key List.mem_cons_self
    rw [List.countP_cons, List.countP_cons, List.countP_cons]
    cases hf : f key with
    | false =>
      simp only [Bool.false_eq_true, if_false]
      omega
    | true =>
      obtain hg | hh := hkey hf
      · simp only [hg, if_true]
        omega
      · simp only [hh, if_true]
        omega

/-- A new key without the property counts for none. -/
theorem census_cons_of_not (hnot : ¬p (map key)) :
    census (key :: keys) map p = census keys map p := by
  unfold census
  rw [List.countP_cons]
  simp [hnot]

variable [DecidableEq κ]

theorem countP_eq_le_one (hkeys : keys.Nodup) (key : κ) :
    keys.countP (fun other => decide (other = key)) ≤ 1 := by
  have hcount := List.nodup_iff_count_le_one.1 hkeys key
  rw [List.count_eq_countP] at hcount
  refine Nat.le_trans (List.countP_mono_left fun other _ hother => ?_) hcount
  exact beq_iff_eq.2 (of_decide_eq_true hother)

/-- A value that newly has the property counts for one. -/
theorem census_update_le_succ (hkeys : keys.Nodup) :
    census keys (Function.update map key value) p ≤ census keys map p + 1 := by
  have hadd := countP_le_add (f := fun other => decide (p (Function.update map key value other)))
    (g := fun other => decide (p (map other))) (h := fun other => decide (other = key)) keys (by
      intro other _ hother
      by_cases hsame : other = key
      · exact .inr (decide_eq_true hsame)
      · rw [Function.update_of_ne hsame] at hother
        exact .inl hother)
  have hone := countP_eq_le_one hkeys key
  unfold census
  omega

/-- A value that has the property only if the old one had it counts for none. -/
theorem census_update_le (himp : p value → p (map key)) :
    census keys (Function.update map key value) p ≤ census keys map p := by
  refine List.countP_mono_left fun other _ hother => ?_
  by_cases hsame : other = key
  · subst hsame
    rw [Function.update_self] at hother
    exact decide_eq_true (himp (of_decide_eq_true hother))
  · rwa [Function.update_of_ne hsame] at hother

/-! ## Keys that are still to be visited -/

/-- The keys that a count has been through. -/
def visited (keys pending : List κ) : List κ := keys.filter fun key => key ∉ pending

theorem visited_nil : visited keys [] = keys := by simp [visited]

theorem visited_of_subset {pending : List κ} (h : ∀ key ∈ keys, key ∈ pending) :
    visited keys pending = [] := by
  simp only [visited, List.filter_eq_nil_iff]
  exact fun key hmem => by simpa using h key hmem

/-- One key is visited: what it has now is what it counts for. -/
theorem census_visit {pending : List κ} (hkeys : keys.Nodup) :
    census (visited keys pending) map p ≤
      census (visited keys (key :: pending)) map p + if p (map key) then 1 else 0 := by
  unfold census visited
  rw [List.countP_filter, List.countP_filter]
  split
  · have hadd := countP_le_add
      (f := fun other => decide (p (map other)) && decide (other ∉ pending))
      (g := fun other => decide (p (map other)) && decide (other ∉ key :: pending))
      (h := fun other => decide (other = key)) keys (by
        intro other _ hother
        by_cases hsame : other = key
        · exact .inr (decide_eq_true hsame)
        · refine .inl ?_
          simpa [hsame] using hother)
    have hone := countP_eq_le_one hkeys key
    omega
  · rename_i hnot
    refine List.countP_mono_left fun other _ hother => ?_
    have hne : other ≠ key := by
      rintro rfl
      simp [hnot] at hother
    simpa [hne] using hother

end CameraLogs.Lib

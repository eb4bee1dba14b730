import Mathlib.Data.List.Perm.Basic
import Mathlib.Tactic.Basic

/-!
# Updates whose outcome is unknown

A client sends an update to a store. Either the store applies it and the client
learns of it, or the client learns nothing: then the update stays in flight, and
the store may apply it at any later moment, once, or never.

`InFlight` is a store with the updates that are still in flight. `send` is one
update with the outcome its client sees, `land` the store applying one of those in
flight. A proof about either needs no more than what it does to the store and which
updates are in flight after it: `send_store`, `mem_late_send` and `land_cases`.
-/

namespace CameraLogs.Lib

variable {σ υ : Type}

structure InFlight (σ υ : Type) where
  store : σ
  late : List υ

/-- What the client learns of an update it has sent. -/
inductive Outcome
  | performed
  | lost
  deriving DecidableEq

namespace InFlight

variable {apply : υ → σ → σ} {u : υ} {n n' : InFlight σ υ} {o : Outcome} {i : Nat}

def send (apply : υ → σ → σ) (u : υ) : Outcome → InFlight σ υ → InFlight σ υ
  | .performed, n => { n with store := apply u n.store }
  | .lost, n => { n with late := u :: n.late }

def land (apply : υ → σ → σ) (i : Nat) (n : InFlight σ υ) : Option (InFlight σ υ) :=
  n.late[i]?.map fun u => { store := apply u n.store, late := n.late.eraseIdx i }

/-- The store after a sent update is the old one or the updated one. -/
theorem send_store (apply : υ → σ → σ) (u : υ) (n : InFlight σ υ) (o : Outcome) :
    (send apply u o n).store = n.store ∨ (send apply u o n).store = apply u n.store := by
  cases o with
  | performed => exact Or.inr rfl
  | lost => exact Or.inl rfl

theorem mem_late_send {v : υ} (h : v ∈ (send apply u o n).late) : v = u ∨ v ∈ n.late := by
  cases o with
  | performed => exact Or.inr h
  | lost => exact List.mem_cons.mp h

theorem land_eq_some : land apply i n = some n' ↔
    ∃ u, n.late[i]? = some u ∧ n' = { store := apply u n.store, late := n.late.eraseIdx i } := by
  unfold land
  rw [Option.map_eq_some_iff]
  simp only [eq_comm]

/-- A landing update was in flight, and no new one appears. -/
theorem land_cases (h : land apply i n = some n') :
    ∃ u ∈ n.late, n'.store = apply u n.store ∧ ∀ v ∈ n'.late, v ∈ n.late := by
  obtain ⟨u, hu, rfl⟩ := land_eq_some.mp h
  exact ⟨u, List.mem_of_getElem? hu, rfl, fun v hv => List.mem_of_mem_eraseIdx hv⟩

/-- What is in flight, with the update that lands in front. -/
theorem late_perm (h : n.late[i]? = some u) : (u :: n.late.eraseIdx i).Perm n.late := by
  obtain ⟨hi, rfl⟩ := List.getElem?_eq_some_iff.mp h
  exact List.getElem_cons_eraseIdx_perm hi

/-- A key that is in flight once is not in flight any more after its update has landed. -/
theorem late_once {κ : Type} {key : υ → Option κ} {k : κ} (h : n.late[i]? = some u)
    (hnodup : (n.late.filterMap key).Nodup) :
    ((n.late.eraseIdx i).filterMap key).Nodup ∧
      (key u = some k → ∀ v ∈ n.late.eraseIdx i, key v ≠ some k) := by
  have hperm : ((u :: n.late.eraseIdx i).filterMap key).Nodup :=
    ((late_perm h).filterMap key).nodup_iff.mpr hnodup
  cases hu : key u with
  | none =>
    rw [List.filterMap_cons_none hu] at hperm
    exact ⟨hperm, fun hk => by cases hk⟩
  | some x =>
    rw [List.filterMap_cons_some hu] at hperm
    obtain ⟨hnot, hrest⟩ := List.nodup_cons.mp hperm
    refine ⟨hrest, fun hk v hv hkey => hnot ?_⟩
    cases hk
    exact List.mem_filterMap.mpr ⟨v, hv, hkey⟩

end InFlight

end CameraLogs.Lib

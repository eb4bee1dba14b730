import Mathlib.Data.List.Nodup
import Mathlib.Data.List.Basic

/-!
# Histories

A history is the list of the events so far, the newest first. It is `Historic` when what was
there before each event allowed it; so what an event forbids does not come later
(`Historic.not_mem_later`), and what every event has only once is there once (`Historic.nodup`).
-/

namespace CameraLogs.Lib

variable {ε κ : Type} {allowed : List ε → ε → Prop} {later earlier history : List ε} {event : ε}

/-- Each event was allowed after the ones before it. -/
def Historic (allowed : List ε → ε → Prop) : List ε → Prop
  | [] => True
  | event :: earlier => allowed earlier event ∧ Historic allowed earlier

theorem Historic.split (h : Historic allowed (later ++ event :: earlier)) :
    allowed earlier event := by
  induction later with
  | nil => exact h.1
  | cons last later ih => exact ih h.2

theorem Historic.of_append (h : Historic allowed (later ++ earlier)) : Historic allowed earlier := by
  induction later with
  | nil => exact h
  | cons last later ih => exact ih h.2

/-- What is not allowed once an event has been there does not come behind it. -/
theorem Historic.not_mem_later (h : Historic allowed (later ++ event :: earlier)) {event' : ε}
    (hforbidden : ∀ before, event ∈ before → earlier.Sublist before → ¬ allowed before event') :
    event' ∉ later := by
  intro hmem
  obtain ⟨last, first, rfl⟩ := List.append_of_mem hmem
  rw [List.append_assoc, List.cons_append] at h
  refine hforbidden _ ?_ ?_ h.split
  · exact List.mem_append_right _ List.mem_cons_self
  · exact ((List.sublist_cons_self _ _).trans (List.sublist_append_right _ _))

/-- A key that no event repeats is there once. -/
theorem Historic.nodup {key : ε → Option κ}
    (hfresh : ∀ before event, allowed before event →
      ∀ k, key event = some k → ∀ other ∈ before, key other ≠ some k)
    (h : Historic allowed history) : (history.filterMap key).Nodup := by
  induction history with
  | nil => exact List.nodup_nil
  | cons event history ih =>
    rw [List.filterMap_cons]
    cases hkey : key event with
    | none => exact ih h.2
    | some k =>
      refine List.nodup_cons.mpr ⟨fun hmem => ?_, ih h.2⟩
      obtain ⟨other, hother, hsame⟩ := List.mem_filterMap.mp hmem
      exact hfresh _ _ h.1 k hkey other hother hsame

end CameraLogs.Lib

import Mathlib.Data.List.Sort
import Mathlib.Data.List.Lex
import Mathlib.Data.List.Perm.Subperm
import Mathlib.Order.RelClasses
import Mathlib.Order.Monotone.Basic

/-!
# The greatest of a list, in bounded space

A heap of a fixed size keeps the items with the greatest keys of those it is offered
(`foldl_offer`): an item replaces the least of a full heap if its key is greater. The heap is a
list in the order of the keys.

What it keeps are the first items of a list exactly if their keys are above those of the rest
(`Keeps.perm_take_iff`).

Texts are in the reverse order of their inverted texts where none begins with another
(`map_lt_map_iff`); a text that begins with another one is the greater by the inverted texts too.
-/

namespace CameraLogs.Lib

variable {α κ : Type} [LinearOrder κ] (key : α → κ)

/-- A heap that takes an item, and gives up the least when it is full. -/
def offer (limit : Nat) (heap : List α) (x : α) : List α :=
  if heap.length < limit then heap.orderedInsert (fun a b => key a ≤ key b) x
  else
    match heap with
    | [] => []
    | least :: others =>
      if key least < key x then others.orderedInsert (fun a b => key a ≤ key b) x
      else least :: others

variable {key} {limit : Nat} {heap dropped xs : List α} {x : α}

/-- What the heap holds of the items it was offered, and what it has given up. -/
structure Keeps (key : α → κ) (limit : Nat) (offered heap dropped : List α) : Prop where
  perm : (heap ++ dropped).Perm offered
  sorted : heap.Pairwise fun a b => key a ≤ key b
  above : ∀ a ∈ heap, ∀ b ∈ dropped, key b ≤ key a
  size : heap.length ≤ limit
  full : dropped ≠ [] → heap.length = limit

theorem sorted_orderedInsert (h : heap.Pairwise fun a b => key a ≤ key b) (x : α) :
    (heap.orderedInsert (fun a b => key a ≤ key b) x).Pairwise fun a b => key a ≤ key b := by
  have : Std.Total fun a b : α => key a ≤ key b := ⟨fun a b => le_total (key a) (key b)⟩
  have : IsTrans α fun a b : α => key a ≤ key b := ⟨fun _ _ _ hab hbc => hab.trans hbc⟩
  exact h.orderedInsert x heap

theorem Keeps.offer (h : Keeps key limit xs heap dropped) (hlimit : 0 < limit) (x : α) :
    ∃ dropped', Keeps key limit (x :: xs) (offer key limit heap x) dropped' := by
  unfold Lib.offer
  split
  next hroom =>
    have hnone : dropped = [] := by
      by_contra hne
      have := h.full hne
      omega
    subst hnone
    refine ⟨[], ?_, sorted_orderedInsert h.sorted x, nofun, ?_, nofun⟩
    · rw [List.append_nil]
      have hperm := h.perm
      rw [List.append_nil] at hperm
      exact (List.perm_orderedInsert _ x heap).trans (hperm.cons x)
    · rw [List.orderedInsert_length]
      omega
  next hfull =>
    cases heap with
    | nil =>
      rw [List.length_nil] at hfull
      omega
    | cons least others =>
      have hsize := h.size
      rw [List.length_cons] at hfull hsize
      have ⟨hleast, hothers⟩ := List.pairwise_cons.mp h.sorted
      dsimp only
      split
      next hgreater =>
        -- the least goes, and nothing that went before is above what stays
        refine ⟨least :: dropped, ?_, sorted_orderedInsert hothers x, ?_, ?_, fun _ => ?_⟩
        · have hinsert := (List.perm_orderedInsert (fun a b : α => key a ≤ key b) x
            others).append_right (least :: dropped)
          exact hinsert.trans ((List.perm_middle.cons x).trans (h.perm.cons x))
        · intro a ha b hb
          have hab : key least ≤ key a := by
            obtain rfl | ha := (List.mem_orderedInsert _).mp ha
            · exact hgreater.le
            · exact hleast a ha
          obtain rfl | hb := List.mem_cons.mp hb
          · exact hab
          · exact (h.above least List.mem_cons_self b hb).trans hab
        · rw [List.orderedInsert_length]
          omega
        · rw [List.orderedInsert_length]
          omega
      next hsmaller =>
        refine ⟨x :: dropped, ?_, h.sorted, ?_, hsize, fun _ => by rw [List.length_cons]; omega⟩
        · exact List.perm_middle.trans (h.perm.cons x)
        · intro a ha b hb
          obtain rfl | hb := List.mem_cons.mp hb
          · obtain rfl | ha := List.mem_cons.mp ha
            · exact not_lt.mp hsmaller
            · exact (not_lt.mp hsmaller).trans (hleast a ha)
          · exact h.above a ha b hb

/-- Of the items it was offered the heap holds the greatest. -/
theorem foldl_offer (hlimit : 0 < limit) (xs : List α) :
    ∃ dropped, Keeps key limit xs (xs.foldl (offer key limit) []) dropped := by
  have hrun : ∀ ys heap dropped, Keeps key limit ys heap dropped →
      ∃ dropped', Keeps key limit (xs ++ ys) (xs.foldl (offer key limit) heap) dropped' := by
    induction xs with
    | nil => exact fun ys heap dropped h => ⟨dropped, h⟩
    | cons x xs ih =>
      intro ys heap dropped h
      obtain ⟨dropped', h'⟩ := h.offer hlimit x
      obtain ⟨dropped'', h''⟩ := ih (x :: ys) _ dropped' h'
      exact ⟨dropped'', { h'' with perm := h''.perm.trans List.perm_middle }⟩
  obtain ⟨dropped, h⟩ := hrun [] [] [] ⟨.refl _, .nil, nofun, Nat.zero_le _, nofun⟩
  rw [List.append_nil] at h
  exact ⟨dropped, h⟩

/-- What the heap holds is the first part of a list exactly if the keys of the first part are all
above those of the rest. -/
theorem Keeps.perm_take_iff (h : Keeps key limit xs heap dropped) (hnodup : xs.Nodup)
    (hkey : ∀ a ∈ xs, ∀ b ∈ xs, key a = key b → a = b) :
    heap.Perm (xs.take limit) ↔
      ∀ a ∈ xs.take limit, ∀ b ∈ xs.drop limit, key b < key a := by
  have hsplit := List.take_append_drop limit xs
  have hboth : (xs.take limit ++ xs.drop limit).Nodup := by rwa [hsplit]
  have hmem {b : α} (hb : b ∈ dropped) : b ∈ xs := h.perm.subset (List.mem_append_right _ hb)
  have hdisjoint := List.disjoint_of_nodup_append ((h.perm.nodup_iff).mpr hnodup)
  have habove : ∀ a ∈ heap, ∀ b ∈ dropped, key b < key a := by
    intro a ha b hb
    refine lt_of_le_of_ne (h.above a ha b hb) fun heq => ?_
    obtain rfl := hkey b (hmem hb) a (h.perm.subset (List.mem_append_left _ ha)) heq
    exact hdisjoint ha hb
  constructor
  · intro hperm a ha b hb
    have hdropped : dropped.Perm (xs.drop limit) := by
      have := (hperm.append_right dropped).symm.trans (h.perm.trans (.of_eq hsplit.symm))
      exact (List.perm_append_left_iff _).mp this
    exact habove a (hperm.symm.subset ha) b (hdropped.symm.subset hb)
  · intro hfirst
    have hlength : heap.length = (xs.take limit).length := by
      have hsum := h.perm.length_eq
      rw [List.length_append] at hsum
      have hsize := h.size
      rw [List.length_take]
      by_cases hnone : dropped = []
      · rw [hnone, List.length_nil] at hsum
        omega
      · have := h.full hnone
        omega
    have htake : (xs.take limit).Nodup := hboth.of_append_left
    -- an item of the first part that is not in the heap would be below one that is
    have hsubset : xs.take limit ⊆ heap := by
      intro a ha
      by_contra hnot
      have hdropped : a ∈ dropped := by
        have := h.perm.symm.subset (List.mem_of_mem_take ha)
        exact (List.mem_append.mp this).resolve_left hnot
      have hother : ∃ b ∈ heap, b ∉ xs.take limit := by
        by_contra hall
        push Not at hall
        have hnodup : heap.Nodup := ((h.perm.nodup_iff).mpr hnodup).of_append_left
        have hperm := (List.subperm_of_subset hnodup hall).perm_of_length_le hlength.ge
        exact hnot (hperm.symm.subset ha)
      obtain ⟨b, hb, hnotb⟩ := hother
      have hrest : b ∈ xs.drop limit := by
        have := h.perm.subset (List.mem_append_left dropped hb)
        rw [← hsplit] at this
        exact (List.mem_append.mp this).resolve_left hnotb
      exact lt_asymm (hfirst a ha b hrest) (habove b hb a hdropped)
    exact ((List.subperm_of_subset htake hsubset).perm_of_length_le hlength.le).symm

/-! ## Inverted texts -/

variable {β γ : Type} [LinearOrder β] [LinearOrder γ] {f : β → γ}

/-- Inverting the characters reverses the order of two texts, unless one begins with the other. -/
theorem map_lt_map_iff (hf : StrictAnti f) {a b : List β} (h : a < b) :
    b.map f < a.map f ↔ ¬ a <+: b := by
  induction a generalizing b with
  | nil => simp [List.nil_prefix]
  | cons x a ih =>
    cases b with
    | nil => exact absurd h (List.not_lt_nil _)
    | cons y b =>
      rw [List.map_cons, List.map_cons, List.cons_lt_cons_iff, List.cons_prefix_cons]
      obtain hlt | ⟨rfl, hlt⟩ := List.cons_lt_cons_iff.mp h
      · simp [hf hlt, hlt.ne]
      · simp [ih hlt]

end CameraLogs.Lib

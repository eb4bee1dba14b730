import Mathlib.Data.List.Basic
import Mathlib.Data.List.Nodup
import Mathlib.Tactic.Basic

/-!
# Insertion-ordered dictionaries

The dictionaries of the modelled language keep insertion order and overwrite in
place: writing an existing key keeps its position. Here such a dictionary is the
list of its values, keyed by a function of the value; `upsert` is one write and
`upsertAll` a sequence of them, and `lookup` finds the value of a key.
-/

namespace CameraLogs.Lib

variable {α κ : Type} [DecidableEq κ] {key : α → κ}

namespace Dict

/-- Write one value under its key: in place when the key exists, else at the end. -/
def upsert (key : α → κ) (x : α) : List α → List α
  | [] => [x]
  | y :: ys => if key y = key x then x :: ys else y :: upsert key x ys

/-- Write the values one after the other. -/
def upsertAll (key : α → κ) (entries xs : List α) : List α :=
  xs.foldl (fun entries x => upsert key x entries) entries

/-- The value of a key. -/
def lookup (key : α → κ) (k : κ) (xs : List α) : Option α := xs.find? fun x => key x = k

attribute [local simp] upsert

theorem mem_upsert {x z : α} {xs : List α} (h : z ∈ upsert key x xs) : z = x ∨ z ∈ xs := by
  induction xs with
  | nil => exact Or.inl (List.mem_singleton.mp h)
  | cons y ys ih =>
    unfold upsert at h
    split at h
    · rcases List.mem_cons.mp h with rfl | hz
      · exact Or.inl rfl
      · exact Or.inr (List.mem_cons_of_mem _ hz)
    · rcases List.mem_cons.mp h with rfl | hz
      · exact Or.inr List.mem_cons_self
      · rcases ih hz with rfl | hz'
        · exact Or.inl rfl
        · exact Or.inr (List.mem_cons_of_mem _ hz')

/-- The keys after a write: the old ones and the new one. -/
theorem mem_map_upsert {x : α} {xs : List α} {k : κ} :
    k ∈ (upsert key x xs).map key ↔ k = key x ∨ k ∈ xs.map key := by
  induction xs with
  | nil => simp [upsert]
  | cons y ys ih =>
    unfold upsert
    split
    next hk => simp [hk]
    next hk =>
      simp only [List.map_cons, List.mem_cons, ih]
      tauto

/-- A write under a key that exists leaves the keys as they are. -/
theorem map_upsert_of_mem {x : α} {xs : List α} (h : key x ∈ xs.map key) :
    (upsert key x xs).map key = xs.map key := by
  induction xs with
  | nil => cases h
  | cons y ys ih =>
    unfold upsert
    split
    next hk => rw [List.map_cons, List.map_cons, hk]
    next hk =>
      have hrest : key x ∈ ys.map key := by
        obtain hx | hx := List.mem_cons.1 h
        · exact absurd hx.symm hk
        · exact hx
      rw [List.map_cons, List.map_cons, ih hrest]

/-- A write under a new key goes to the end. -/
theorem upsert_of_not_mem {x : α} {xs : List α} (h : key x ∉ xs.map key) :
    upsert key x xs = xs ++ [x] := by
  induction xs with
  | nil => rfl
  | cons y ys ih =>
    have hne : key y ≠ key x := fun hy => h (hy ▸ List.mem_cons_self)
    have hrest : key x ∉ ys.map key := fun hx => h (List.mem_cons_of_mem _ hx)
    rw [upsert, if_neg hne, ih hrest, List.cons_append]

theorem nodup_upsert {x : α} {xs : List α} (h : (xs.map key).Nodup) :
    ((upsert key x xs).map key).Nodup := by
  induction xs with
  | nil => simp [upsert]
  | cons y ys ih =>
    rw [List.map_cons, List.nodup_cons] at h
    unfold upsert
    split
    next hk =>
      rw [List.map_cons, List.nodup_cons, ← hk]
      exact h
    next hk =>
      rw [List.map_cons, List.nodup_cons, mem_map_upsert]
      refine ⟨?_, ih h.2⟩
      rintro (hxy | hy)
      · exact hk hxy
      · exact h.1 hy

/-- A written value stays unless its key is written again. -/
theorem mem_upsert_self (x : α) (xs : List α) : x ∈ upsert key x xs := by
  induction xs with
  | nil => exact List.mem_singleton_self x
  | cons y ys ih =>
    unfold upsert
    split
    · exact List.mem_cons_self
    · exact List.mem_cons_of_mem _ ih

theorem mem_upsert_of_mem {x z : α} {xs : List α} (hz : z ∈ xs) (hne : key z ≠ key x) :
    z ∈ upsert key x xs := by
  induction xs with
  | nil => exact absurd hz List.not_mem_nil
  | cons y ys ih =>
    unfold upsert
    split
    next hk =>
      rcases List.mem_cons.mp hz with rfl | hz'
      · exact absurd hk hne
      · exact List.mem_cons_of_mem _ hz'
    next hk =>
      rcases List.mem_cons.mp hz with rfl | hz'
      · exact List.mem_cons_self
      · exact List.mem_cons_of_mem _ (ih hz')

/-! ## Sequences of writes -/

theorem upsertAll_cons {entries : List α} {x : α} {xs : List α} :
    upsertAll key entries (x :: xs) = upsertAll key (upsert key x entries) xs := rfl

theorem nodup_upsertAll {entries xs : List α} (h : (entries.map key).Nodup) :
    ((upsertAll key entries xs).map key).Nodup := by
  induction xs generalizing entries with
  | nil => exact h
  | cons x xs ih => exact ih (nodup_upsert h)

theorem mem_upsertAll {entries xs : List α} {z : α} (h : z ∈ upsertAll key entries xs) :
    z ∈ entries ∨ z ∈ xs := by
  induction xs generalizing entries with
  | nil => exact Or.inl h
  | cons x xs ih =>
    rcases ih h with hz | hz
    · rcases mem_upsert hz with rfl | hz
      · exact Or.inr List.mem_cons_self
      · exact Or.inl hz
    · exact Or.inr (List.mem_cons_of_mem _ hz)

theorem mem_map_upsertAll {entries xs : List α} {k : κ} :
    k ∈ (upsertAll key entries xs).map key ↔ k ∈ entries.map key ∨ k ∈ xs.map key := by
  induction xs generalizing entries with
  | nil => simp [upsertAll]
  | cons x xs ih =>
    rw [upsertAll_cons, ih, mem_map_upsert, List.map_cons, List.mem_cons]
    tauto

/-- A dictionary that repeats no key is written as it is. -/
theorem upsertAll_append {entries xs : List α} (h : ((entries ++ xs).map key).Nodup) :
    upsertAll key entries xs = entries ++ xs := by
  induction xs generalizing entries with
  | nil => exact (List.append_nil entries).symm
  | cons x xs ih =>
    have hx : key x ∉ entries.map key := by
      rw [List.map_append, List.nodup_append] at h
      intro hin
      exact h.2.2 _ hin _ (List.mem_map_of_mem List.mem_cons_self) rfl
    rw [upsertAll_cons, upsert_of_not_mem hx, ih (by rw [List.append_assoc]; exact h),
      List.append_assoc, List.singleton_append]

/-- Changing the values, and not their keys, goes with writing them. -/
theorem map_upsert {β : Type} {key' : β → κ} {f : α → β} (hf : ∀ x, key' (f x) = key x) (x : α)
    (xs : List α) : (upsert key x xs).map f = upsert key' (f x) (xs.map f) := by
  induction xs with
  | nil => rfl
  | cons y ys ih =>
    rw [upsert, List.map_cons, upsert, hf, hf]
    split
    next => rfl
    next => rw [List.map_cons, ih]

theorem map_upsertAll {β : Type} {key' : β → κ} {f : α → β} (hf : ∀ x, key' (f x) = key x)
    (entries xs : List α) :
    (upsertAll key entries xs).map f = upsertAll key' (entries.map f) (xs.map f) := by
  induction xs generalizing entries with
  | nil => rfl
  | cons x xs ih => rw [upsertAll_cons, ih, map_upsert hf, List.map_cons, upsertAll_cons]

/-! ## Looking up a key -/

theorem lookup_some {xs : List α} {k : κ} {x : α} (h : lookup key k xs = some x) :
    x ∈ xs ∧ key x = k := by
  unfold lookup at h
  exact ⟨List.mem_of_find?_eq_some h, by simpa using List.find?_some h⟩

theorem lookup_none {xs : List α} {k : κ} : lookup key k xs = none ↔ k ∉ xs.map key := by
  simp [lookup, List.find?_eq_none]

theorem lookup_upsert {x : α} {xs : List α} {k : κ} :
    lookup key k (upsert key x xs) = if key x = k then some x else lookup key k xs := by
  induction xs with
  | nil => by_cases hx : key x = k <;> simp [lookup, upsert, hx]
  | cons y ys ih =>
    unfold lookup at ih ⊢
    unfold upsert
    split
    next hk =>
      by_cases hx : key x = k
      · simp [hx]
      · simp [hx, hk]
    next hk =>
      by_cases hy : key y = k
      · have hx : key x ≠ k := fun hx => hk (hy.trans hx.symm)
        simp [hy, hx]
      · simp [hy, ih]

/-- With one value a key, membership and lookup agree. -/
theorem lookup_eq_some {xs : List α} (hnd : (xs.map key).Nodup) {x : α} (hx : x ∈ xs) :
    lookup key (key x) xs = some x := by
  rcases hl : lookup key (key x) xs with _ | y
  · exact absurd (List.mem_map_of_mem hx) (lookup_none.mp hl)
  · obtain ⟨hy, hk⟩ := lookup_some hl
    rw [List.inj_on_of_nodup_map hnd hy hx hk]

/-- Removing values leaves what is found under a key, or removes it. -/
theorem lookup_filter {xs : List α} (hnd : (xs.map key).Nodup) (p : α → Bool) (k : κ) :
    lookup key k (xs.filter p) = (lookup key k xs).filter p := by
  cases hl : lookup key k xs with
  | none =>
    rw [Option.filter_none, lookup_none]
    intro hk
    obtain ⟨x, hx, he⟩ := List.mem_map.mp hk
    exact lookup_none.mp hl (he ▸ List.mem_map_of_mem (List.mem_of_mem_filter hx))
  | some x =>
    obtain ⟨hx, hk⟩ := lookup_some hl
    have hnd' : ((xs.filter p).map key).Nodup := hnd.sublist (List.filter_sublist.map key)
    cases hp : p x with
    | true =>
      rw [Option.filter_some_pos hp, ← hk]
      exact lookup_eq_some hnd' (List.mem_filter.mpr ⟨hx, hp⟩)
    | false =>
      rw [Option.filter_some_neg (by simp [hp]), lookup_none]
      intro hmem
      obtain ⟨y, hy, he⟩ := List.mem_map.mp hmem
      obtain ⟨hy, hpy⟩ := List.mem_filter.mp hy
      have hsame : y = x := List.inj_on_of_nodup_map hnd hy hx (he.trans hk.symm)
      rw [hsame, hp] at hpy
      cases hpy

end Dict

end CameraLogs.Lib

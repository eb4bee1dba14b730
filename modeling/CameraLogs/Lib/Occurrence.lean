import Mathlib.Data.List.DropRight
import Mathlib.Data.List.Infix
import Mathlib.Tactic.Basic

/-!
# Occurrences of a word in a text

`find` is the usual substring search from a start position, and `greedyFirst` the
loop built on it: look for the next occurrence, stop if it is accepted, else go
on behind it. The loop visits the leftmost occurrences that do not overlap
(`Greedy`), not all of them, so it finds the first accepted occurrence when that
one is among them (`greedyFirst_of_greedy`).

A text that arrives piece by piece is searched window by window: the last
`word.length - 1` symbols so far, and the new piece. `occursAt_drop` and
`occursAt_append_left` move an occurrence between a window and the text.
-/

namespace CameraLogs.Lib

variable {α : Type} {word text : List α}

/-- The word stands at a position of the text. -/
def OccursAt (word text : List α) (i : Nat) : Prop := word <+: text.drop i

theorem OccursAt.le_length {i : Nat} (hw : word ≠ []) (h : OccursAt word text i) :
    i + word.length ≤ text.length := by
  have hpos : 0 < word.length := List.length_pos_iff.mpr hw
  have hlen := List.IsPrefix.length_le h
  rw [List.length_drop] at hlen
  omega

/-- No occurrence of the word overlaps another one. -/
def Unbordered (word : List α) : Prop :=
  ∀ k, 0 < k → k < word.length → ¬ word.drop k <+: word

theorem Unbordered.add_length_le {i j : Nat} (hword : Unbordered word)
    (hi : OccursAt word text i) (hj : OccursAt word text j) (hlt : i < j) :
    i + word.length ≤ j := by
  by_contra hshort
  have hsuffix : word.drop (j - i) <+: text.drop j := by
    have hdrop := hi.drop (j - i)
    rw [List.drop_drop, Nat.add_sub_cancel' (by omega)] at hdrop
    exact hdrop
  refine hword (j - i) (by omega) (by omega) ?_
  exact List.prefix_of_prefix_length_le hsuffix hj (by rw [List.length_drop]; omega)

/-! ## Windows -/

theorem rtake_append (k : Nat) (xs ys : List α) :
    xs.rtake k ++ ys = (xs ++ ys).drop (xs.length - k) := by
  unfold List.rtake
  rw [List.drop_append_of_le_length (by omega)]

/-- The last symbols of a text that grows, from the last symbols it had. -/
theorem rtake_rtake_append (k : Nat) (xs ys : List α) :
    (xs.rtake k ++ ys).rtake k = (xs ++ ys).rtake k := by
  rw [rtake_append]
  unfold List.rtake
  rw [List.length_drop, List.length_append, List.drop_drop]
  congr 1
  omega

/-- An occurrence in a window of the text is one in the text. -/
theorem occursAt_drop {d i : Nat} : OccursAt word (text.drop d) i ↔ OccursAt word text (d + i) := by
  unfold OccursAt
  rw [List.drop_drop]

/-- An occurrence that ends within the first part does not depend on the rest. -/
theorem occursAt_append_left {ys : List α} {i : Nat} (hi : i + word.length ≤ text.length) :
    OccursAt word (text ++ ys) i ↔ OccursAt word text i := by
  unfold OccursAt
  rw [List.drop_append_of_le_length (by omega)]
  constructor
  · intro h
    exact List.prefix_of_prefix_length_le h (List.prefix_append _ _)
      (by rw [List.length_drop]; omega)
  · intro h
    exact h.trans (List.prefix_append _ _)

variable [DecidableEq α]

instance (word text : List α) (i : Nat) : Decidable (OccursAt word text i) :=
  inferInstanceAs (Decidable (_ <+: _))

/-- The first position of a word in a text. -/
def findFirst (word : List α) : List α → Option Nat
  | [] => none
  | x :: xs => if word <+: x :: xs then some 0 else (findFirst word xs).map (· + 1)

/-- The first position of a (non-empty) word at or behind a start position. -/
def find (word text : List α) (start : Nat) : Option Nat :=
  (findFirst word (text.drop start)).map (· + start)

/-- Look for the next occurrence; stop if it is accepted, else go on behind it. -/
def greedyFirst (word text : List α) (accept : Nat → Bool) : Nat → Nat → Option Nat
  | 0, _ => none
  | fuel + 1, start =>
    match find word text start with
    | none => none
    | some i => if accept i then some i else greedyFirst word text accept fuel (i + word.length)

/-- The occurrences the loop visits from a start position: the leftmost ones that
do not overlap. -/
inductive Greedy (word text : List α) : Nat → Nat → Prop
  | here {start i : Nat} (h : find word text start = some i) : Greedy word text start i
  | next {start j i : Nat} (h : find word text start = some j)
      (hrest : Greedy word text (j + word.length) i) : Greedy word text start i

/-! ## Finding -/

theorem findFirst_some {i : Nat} (h : findFirst word text = some i) :
    OccursAt word text i ∧ ∀ j, j < i → ¬ OccursAt word text j := by
  induction text generalizing i with
  | nil => cases h
  | cons x xs ih =>
    unfold findFirst at h
    split at h
    next hhere =>
      cases h
      exact ⟨hhere, fun j hj => absurd hj (Nat.not_lt_zero j)⟩
    next hhere =>
      obtain ⟨i', hi', hii⟩ := Option.map_eq_some_iff.mp h
      obtain ⟨hocc, hleast⟩ := ih hi'
      subst hii
      refine ⟨hocc, ?_⟩
      intro j hj
      cases j with
      | zero => exact hhere
      | succ j => exact hleast j (by omega)

theorem findFirst_none (hw : word ≠ []) (h : findFirst word text = none) (j : Nat) :
    ¬ OccursAt word text j := by
  induction text generalizing j with
  | nil =>
    intro hocc
    unfold OccursAt at hocc
    rw [List.drop_nil] at hocc
    exact hw (List.prefix_nil.mp hocc)
  | cons x xs ih =>
    unfold findFirst at h
    split at h
    next => cases h
    next hhere =>
      rw [Option.map_eq_none_iff] at h
      cases j with
      | zero => exact hhere
      | succ j => exact ih h j

theorem find_some {start i : Nat} (h : find word text start = some i) :
    start ≤ i ∧ OccursAt word text i ∧ ∀ j, start ≤ j → j < i → ¬ OccursAt word text j := by
  unfold find at h
  obtain ⟨i', hi', hii⟩ := Option.map_eq_some_iff.mp h
  obtain ⟨hocc, hleast⟩ := findFirst_some hi'
  unfold OccursAt at hocc hleast
  subst hii
  refine ⟨by omega, ?_, ?_⟩
  · unfold OccursAt
    rw [List.drop_drop] at hocc
    rw [Nat.add_comm]
    exact hocc
  · intro j hj hlt hbad
    refine hleast (j - start) (by omega) ?_
    rw [List.drop_drop, Nat.add_sub_cancel' hj]
    exact hbad

theorem find_none {start : Nat} (hw : word ≠ []) (h : find word text start = none) {j : Nat}
    (hj : start ≤ j) : ¬ OccursAt word text j := by
  unfold find at h
  rw [Option.map_eq_none_iff] at h
  intro hbad
  refine findFirst_none hw h (j - start) ?_
  unfold OccursAt at hbad ⊢
  rw [List.drop_drop, Nat.add_sub_cancel' hj]
  exact hbad

theorem find_isSome_of_occursAt (hw : word ≠ []) {start j : Nat} (hj : start ≤ j)
    (h : OccursAt word text j) : ∃ i, find word text start = some i ∧ i ≤ j := by
  rcases hf : find word text start with _ | i
  · exact absurd h (find_none hw hf hj)
  · refine ⟨i, rfl, ?_⟩
    by_contra hlt
    exact (find_some hf).2.2 j hj (by omega) h

/-! ## The greedy loop -/

theorem Greedy.occursAt {start i : Nat} (h : Greedy word text start i) :
    start ≤ i ∧ OccursAt word text i := by
  induction h with
  | here h => exact ⟨(find_some h).1, (find_some h).2.1⟩
  | next h _ ih =>
    have hle := (find_some h).1
    exact ⟨by omega, ih.2⟩

/-- When occurrences do not overlap, all of them are visited. -/
theorem greedy_of_unbordered (hw : word ≠ []) (hword : Unbordered word) {start i : Nat}
    (hi : start ≤ i) (h : OccursAt word text i) : Greedy word text start i := by
  have hpos : 0 < word.length := List.length_pos_iff.mpr hw
  induction hd : i - start using Nat.strong_induction_on generalizing start with
  | _ d ih =>
    obtain ⟨j, hj, hji⟩ := find_isSome_of_occursAt hw hi h
    have hocc := find_some hj
    by_cases heq : j = i
    · rw [heq] at hj
      exact Greedy.here hj
    · have hle := hword.add_length_le hocc.2.1 h (by omega)
      exact Greedy.next hj (ih _ (by omega) hle rfl)

/-- What the loop returns it has visited and accepted. -/
theorem greedyFirst_some {accept : Nat → Bool} {fuel start i : Nat}
    (h : greedyFirst word text accept fuel start = some i) :
    Greedy word text start i ∧ accept i = true := by
  induction fuel generalizing start with
  | zero => cases h
  | succ fuel ih =>
    unfold greedyFirst at h
    split at h
    next => cases h
    next j hj =>
      split at h
      next hacc =>
        cases h
        exact ⟨Greedy.here hj, hacc⟩
      next =>
        obtain ⟨hrest, hacc⟩ := ih h
        exact ⟨Greedy.next hj hrest, hacc⟩

/-- The loop returns the first accepted occurrence when it visits it; fuel for one
symbol more than is left is enough. -/
theorem greedyFirst_of_greedy (hw : word ≠ []) {accept : Nat → Bool} {fuel start i : Nat}
    (hfuel : text.length < start + fuel) (hi : Greedy word text start i) (hacc : accept i = true)
    (hleast : ∀ j, start ≤ j → j < i → OccursAt word text j → accept j = false) :
    greedyFirst word text accept fuel start = some i := by
  have hpos : 0 < word.length := List.length_pos_iff.mpr hw
  induction fuel generalizing start with
  | zero =>
    have hst := hi.occursAt.1
    have hle := hi.occursAt.2.le_length hw
    omega
  | succ fuel ih =>
    unfold greedyFirst
    cases hi with
    | here hf =>
      rw [hf]
      exact if_pos hacc
    | next hf hrest =>
      rename_i j
      rw [hf]
      have hj := find_some hf
      have hji := hrest.occursAt.1
      have hrej : accept j = false := hleast j hj.1 (by omega) hj.2.1
      show (if accept j = true then some j else _) = some i
      rw [if_neg (by rw [hrej]; exact Bool.false_ne_true)]
      refine ih (by omega) hrest ?_
      intro k hk hki hocc
      exact hleast k (by omega) hki hocc

end CameraLogs.Lib

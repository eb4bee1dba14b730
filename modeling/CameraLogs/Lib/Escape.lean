import Mathlib.Data.List.Basic
import Mathlib.Data.List.Infix

/-!
# Escaped texts

`escape` puts a mark in front of every special symbol of a text, and `unescape` takes
the marks off again. The mark itself is special, so nothing is lost.
-/

namespace CameraLogs.Lib

variable {α : Type} [DecidableEq α]

/-- The text with a mark in front of each special symbol. -/
def escape (mark : α) (special : List α) (text : List α) : List α :=
  text.flatMap fun x => if x ∈ special then [mark, x] else [x]

/-- The text without the marks. -/
def unescape (mark : α) : List α → List α
  | [] => []
  | [x] => [x]
  | x :: y :: rest => if x = mark then y :: unescape mark rest else x :: unescape mark (y :: rest)

theorem unescape_cons {mark x : α} (hx : x ≠ mark) (rest : List α) :
    unescape mark (x :: rest) = x :: unescape mark rest := by
  cases rest with
  | nil => rfl
  | cons y rest => exact if_neg hx

theorem unescape_mark (mark x : α) (rest : List α) :
    unescape mark (mark :: x :: rest) = x :: unescape mark rest :=
  if_pos rfl

theorem unescape_escape {mark : α} {special : List α} (hmark : mark ∈ special) (text : List α) :
    unescape mark (escape mark special text) = text := by
  unfold escape
  induction text with
  | nil => rfl
  | cons x text ih =>
    rw [List.flatMap_cons]
    by_cases hx : x ∈ special
    · rw [if_pos hx, List.cons_append, List.singleton_append, unescape_mark, ih]
    · rw [if_neg hx, List.singleton_append, unescape_cons (ne_of_mem_of_not_mem hmark hx).symm, ih]

/-- A lookup of an escaped text between two symbols, in the rows that have it. -/
def looksUp (mark : α) (pattern row : List α) : Bool :=
  decide (unescape mark (pattern.drop 1).dropLast <:+: row)

theorem looksUp_escape {mark first last : α} {special text row : List α} (hmark : mark ∈ special)
    (h : text <:+: row) : looksUp mark (first :: escape mark special text ++ [last]) row = true := by
  refine decide_eq_true ?_
  rw [List.cons_append, List.drop_succ_cons, List.drop_zero, List.dropLast_concat,
    unescape_escape hmark]
  exact h

end CameraLogs.Lib

import Mathlib.Algebra.BigOperators.Group.List.Basic
import Mathlib.Data.List.Basic
import Mathlib.Data.Nat.Basic
import Mathlib.Algebra.GroupWithZero.Nat

/-!
# Spans of named streams

A span is a range of positions of a stream that a key names. `covered` counts how many
spans of a list a position is in, so that spans that are moved, split or merged can be
followed by one number. Spans that touch merge into their hull: where no position is in
two of them, the hull has each of their positions once and no other.
-/

namespace CameraLogs.Lib

/-- The positions of a stream from a start up to a stop. -/
structure Span (κ : Type) where
  key : κ
  start : Nat
  stop : Nat
  deriving DecidableEq

variable {κ : Type} [DecidableEq κ]

namespace Span

/-- How often a position is in a span: once or not. -/
def cover (span : Span κ) (key : κ) (i : Nat) : Nat :=
  if span.key = key ∧ span.start ≤ i ∧ i < span.stop then 1 else 0

/-- How many spans a position is in. -/
def covered (spans : List (Span κ)) (key : κ) (i : Nat) : Nat :=
  (spans.map fun span => span.cover key i).sum

@[simp] theorem covered_nil (key : κ) (i : Nat) : covered [] key i = 0 := rfl

theorem covered_cons (span : Span κ) (spans : List (Span κ)) (key : κ) (i : Nat) :
    covered (span :: spans) key i = span.cover key i + covered spans key i := by
  unfold covered
  rw [List.map_cons, List.sum_cons]

theorem covered_append (xs ys : List (Span κ)) (key : κ) (i : Nat) :
    covered (xs ++ ys) key i = covered xs key i + covered ys key i := by
  unfold covered
  rw [List.map_append, List.sum_append]

/-- The spans of items that pass a test, and of those that do not. -/
theorem covered_filter {α : Type} (f : α → Span κ) (p : α → Bool) (xs : List α) (key : κ) (i : Nat) :
    covered (xs.map f) key i
      = covered ((xs.filter p).map f) key i + covered ((xs.filter fun x => !p x).map f) key i := by
  induction xs with
  | nil => rfl
  | cons x xs ih =>
    rw [List.map_cons, covered_cons]
    cases hp : p x with
    | true =>
      rw [List.filter_cons_of_pos hp, List.filter_cons_of_neg (by rw [hp]; decide), List.map_cons,
        covered_cons]
      omega
    | false =>
      rw [List.filter_cons_of_neg (by rw [hp]; decide), List.filter_cons_of_pos (by rw [hp]; rfl),
        List.map_cons, covered_cons]
      omega

/-- A span without positions covers none. -/
theorem cover_empty {span : Span κ} (h : span.stop ≤ span.start) (key : κ) (i : Nat) :
    span.cover key i = 0 := by
  unfold cover
  rw [if_neg]
  rintro ⟨_, hstart, hstop⟩
  omega

/-- A span that is cut in two. -/
theorem cover_split (start : Nat) {mid : Nat} (stop : Nat) (key key' : κ) (i : Nat) (hstart : start ≤ mid)
    (hstop : mid ≤ stop) :
    ({ key, start, stop } : Span κ).cover key' i
      = ({ key, start, stop := mid } : Span κ).cover key' i
        + ({ key, start := mid, stop } : Span κ).cover key' i := by
  unfold cover
  dsimp only
  by_cases hkey : key = key'
  · simp only [hkey, true_and]
    split <;> split <;> split <;> omega
  · simp only [hkey, false_and, if_false]

/-! ## Merging -/

/-- Spans of one stream with no position between them. -/
def Touches (s t : Span κ) : Prop := s.key = t.key ∧ s.start ≤ t.stop ∧ t.start ≤ s.stop

instance (s t : Span κ) : Decidable (Touches s t) := inferInstanceAs (Decidable (_ ∧ _ ∧ _))

/-- From the first start to the last stop. -/
def hull (s t : Span κ) : Span κ :=
  { s with start := min s.start t.start, stop := max s.stop t.stop }

theorem cover_hull {s t : Span κ} (htouch : Touches s t) {key : κ} {i : Nat}
    (honce : s.cover key i + t.cover key i ≤ 1) :
    (hull s t).cover key i = s.cover key i + t.cover key i := by
  obtain ⟨hkey, hst, hts⟩ := htouch
  unfold cover hull at *
  dsimp only
  rw [hkey] at honce ⊢
  by_cases hk : t.key = key
  · simp only [hk, true_and] at honce ⊢
    split <;> split at honce <;> split at honce <;> grind
  · simp only [hk, false_and, if_false]

/-- The hull of spans that all touch one span, which is within the first. -/
theorem cover_foldl_hull {acc span : Span κ} {spans : List (Span κ)} (hkey : acc.key = span.key)
    (hstart : acc.start ≤ span.start) (hstop : span.stop ≤ acc.stop)
    (htouch : ∀ t ∈ spans, Touches t span) {key : κ} {i : Nat}
    (honce : acc.cover key i + covered spans key i ≤ 1) :
    (spans.foldl hull acc).cover key i = acc.cover key i + covered spans key i := by
  induction spans generalizing acc with
  | nil => rfl
  | cons t spans ih =>
    rw [covered_cons] at honce
    obtain ⟨htkey, htstart, htstop⟩ := htouch t List.mem_cons_self
    have hacc : Touches acc t :=
      ⟨hkey.trans htkey.symm, Nat.le_trans hstart htstop, Nat.le_trans htstart hstop⟩
    have hhull : (hull acc t).cover key i = acc.cover key i + t.cover key i :=
      cover_hull hacc (by omega)
    have hrest := @ih (hull acc t) hkey (Nat.le_trans (Nat.min_le_left _ _) hstart)
      (Nat.le_trans hstop (Nat.le_max_left _ _))
      (fun u hu => htouch u (List.mem_cons_of_mem _ hu)) (by omega)
    rw [List.foldl_cons, hrest, hhull, covered_cons]
    omega

/-- A span merged with all that touch it. -/
theorem cover_merge {first span : Span κ} {others : List (Span κ)}
    (htouch : ∀ t ∈ first :: others, Touches t span) (key : κ) (i : Nat)
    (honce : covered (first :: others) key i + span.cover key i ≤ 1) :
    (others.foldl hull (hull first span)).cover key i
      = covered (first :: others) key i + span.cover key i := by
  rw [covered_cons] at honce ⊢
  have hfirst := htouch first List.mem_cons_self
  have hhull : (hull first span).cover key i = first.cover key i + span.cover key i :=
    cover_hull hfirst (by omega)
  have hrest := @cover_foldl_hull _ _ (hull first span) span others hfirst.1 (Nat.min_le_right _ _)
    (Nat.le_max_right _ _) (fun t ht => htouch t (List.mem_cons_of_mem _ ht)) key i (by omega)
  rw [hrest, hhull]
  omega

end Span

end CameraLogs.Lib

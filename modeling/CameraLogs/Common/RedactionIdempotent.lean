import CameraLogs.Common.RedactionSteps

/-!
# Redacting twice

A text is settled where, read from the left, every secret with a name has a value in quotes and no
`bearer` stands outside of such a value (`settled`). Redacting a settled text once more changes
nothing; of any other text the first bare value grows by a bracket each time
(`redactText_again_iff`).
-/

namespace CameraLogs.Common

open Lib

variable {W : WordClass} {before : Option Char} {c : Char} {l rest label taken out : List Char}

/-! ## Settled texts -/

/-- The rest of a text is settled, the first `n` symbols of it being the rest of what was found. -/
def settledFrom (W : WordClass) : Nat → Option Char → List Char → Bool
  | _, _, [] => true
  | n + 1, _, c :: l => settledFrom W n (some c) l
  | 0, before, c :: l =>
    match findSecret W before (c :: l) with
    | some (value, rest) =>
      keepsQuotes (value.take (value.length - rest.length)) &&
        settledFrom W (l.length - rest.length) (some c) l
    | none => (findBearer W before (c :: l)).isNone && settledFrom W 0 (some c) l

/-- Every secret of the text has its value in quotes, and no `bearer` is outside of one. -/
def settled (W : WordClass) (value : List Char) : Bool := settledFrom W 0 none value

theorem settledFrom_append (x rest : List Char) :
    settledFrom W x.length before (x ++ rest) = settledFrom W 0 (lastOf before x) rest := by
  induction x generalizing before with
  | nil => rfl
  | cons a x ih =>
    rw [lastOf_cons]
    exact ih

theorem settledFrom_none (h : findSecret W before (c :: l) = none) :
    settledFrom W 0 before (c :: l) =
      ((findBearer W before (c :: l)).isNone && settledFrom W 0 (some c) l) := by
  simp only [settledFrom, h]

theorem settledFrom_hit (hne : taken ≠ [])
    (h : findSecret W before (label ++ (taken ++ rest)) = some (taken ++ rest, rest)) :
    settledFrom W 0 before (label ++ (taken ++ rest)) =
      (keepsQuotes taken && settledFrom W 0 (lastOf before (label ++ taken)) rest) := by
  obtain ⟨a, w, hw⟩ : ∃ a w, label ++ taken = a :: w :=
    List.exists_cons_of_ne_nil fun hnil => hne (List.append_eq_nil_iff.mp hnil).2
  have hl : label ++ (taken ++ rest) = a :: (w ++ rest) := by
    rw [← List.append_assoc, hw, List.cons_append]
  have htaken : (taken ++ rest).length - rest.length = taken.length := by
    rw [List.length_append, Nat.add_sub_cancel]
  have hskip : (w ++ rest).length - rest.length = w.length := by
    rw [List.length_append, Nat.add_sub_cancel]
  rw [hl] at h
  rw [hl]
  simp only [settledFrom, h]
  rw [htaken, hskip, settledFrom_append, List.take_left, hw, lastOf_cons]

/-! ## Texts -/

/-- A text that begins with a bracket and goes on as its own redaction would have no end. -/
theorem ne_close (out : List Char) : out ≠ ']' :: redactFrom W (some ']') out := by
  induction out with
  | nil => exact nofun
  | cons a out ih =>
    intro heq
    obtain ⟨rfl, htail⟩ := List.cons_eq_cons.mp heq
    rw [redactFrom_close] at htail
    exact ih htail

/-- What follows a bare value is not the same the second time. -/
theorem bare_again_ne {x : List Char}
    (h : redactFrom W before x = label ++ (redacted ++ out))
    (hagain : redactFrom W before (label ++ (redacted ++ out)) =
      label ++ (redacted ++ ']' :: redactFrom W (some ']') out)) :
    redactFrom W before (redactFrom W before x) ≠ redactFrom W before x := by
  rw [h, hagain]
  intro heq
  exact ne_close out (List.append_cancel_left (List.append_cancel_left heq)).symm

theorem redactFrom_again_iff (before : Option Char) (l : List Char) :
    redactFrom W before (redactFrom W before l) = redactFrom W before l ↔
      settledFrom W 0 before l = true := by
  induction hn : l.length using Nat.strongRecOn generalizing before l with
  | ind n ih =>
    cases l with
    | nil => exact ⟨fun _ => rfl, fun _ => rfl⟩
    | cons c l =>
      cases hsecret : findSecret W before (c :: l) with
      | none =>
        rw [settledFrom_none hsecret]
        cases hbearer : findBearer W before (c :: l) with
        | none =>
          rw [redactFrom_none hsecret hbearer, redactFrom_none_again hsecret hbearer,
            List.cons_inj_right, ih l.length (hn ▸ Nat.lt_succ_self _) (some c) l rfl]
          rfl
        | some found =>
          obtain ⟨hopens, ⟨label, heq, hlabel⟩, hv⟩ := findBearer_some hbearer
          obtain ⟨out, hout⟩ :=
            redactFrom_bearer hopens hlabel (Option.isSome_of_eq_some hv)
          rw [← heq] at hout
          exact iff_of_false (bare_again_ne hout (redactFrom_bearer_again hopens hlabel out))
            nofun
      | some found =>
        obtain ⟨v, rest⟩ := found
        obtain ⟨hopens, ⟨label, heq, hlabel⟩, hv⟩ := findSecret_some hsecret
        dsimp only at heq hv
        rw [heq] at hsecret hn ⊢
        have hlabelne : label ≠ [] := (secretLabel_marked hlabel W).1
        have hlt : rest.length < n := by
          have hpos := List.length_pos_iff.mpr hlabelne
          obtain ⟨a, t, rfl, -⟩ := secretValue_some hv
          simp only [List.length_append, List.length_cons] at hn
          omega
        -- a value in quotes and a lone quote go the same way
        have hkept : ∀ q taken, v = taken ++ rest → taken ≠ [] → keepsQuotes taken = true →
            lastOf before (label ++ taken) = some q → isQuote q = true →
            redactFrom W before (label ++ v) =
              label ++ q :: (redacted ++ q :: redactFrom W (some q) rest) →
            (redactFrom W before (redactFrom W before (label ++ v)) =
              redactFrom W before (label ++ v) ↔
                settledFrom W 0 before (label ++ v) = true) := by
          rintro q taken rfl hne hkeeps hlast hq hout
          rw [hout, redactFrom_quoted_again hopens hlabel hq, settledFrom_hit hne hsecret, hkeeps,
            Bool.true_and, hlast, ← ih rest.length hlt (some q) rest rfl,
            List.append_right_inj, List.cons_inj_right, List.append_right_inj,
            List.cons_inj_right]
        obtain ⟨q, inner, hq, hinner, hveq⟩ | ⟨q, hq, hrest, hveq, hends⟩ | hbare :=
          secretValue_cases hv
        · refine hkept q (q :: (inner ++ [q])) (by rw [hveq]; simp) (List.cons_ne_nil _ _)
            (keepsQuotes_wrapped hq inner) ?_ hq ?_
          · rw [lastOf_append, ← List.cons_append, lastOf_append, lastOf_cons, lastOf_nil]
          · rw [hveq]
            exact redactFrom_quoted hopens hlabel hq hinner rest
        · refine hkept q [q] hveq (List.cons_ne_nil _ _) (keepsQuotes_single hq) ?_ hq ?_
          · rw [lastOf_append, lastOf_cons, lastOf_nil]
          · rw [hveq]
            exact redactFrom_lone hopens hlabel hq hrest hends
        · obtain ⟨out, hout⟩ := redactFrom_bare (W := W) hopens hlabel hbare
          refine iff_of_false (bare_again_ne hout (redactFrom_bare_again hopens hlabel out)) ?_
          obtain ⟨taken, rest', hveq, hne, hv', hkeeps⟩ := secretValue_bare hbare
          obtain rfl : rest = rest' := Option.some.inj (hv.symm.trans hv')
          rw [hveq] at hsecret ⊢
          rw [settledFrom_hit hne hsecret, hkeeps]
          exact nofun

theorem redactText_again_iff (s : List Char) :
    redactText W (redactText W s) = redactText W s ↔ settled W s = true :=
  redactFrom_again_iff none s

end CameraLogs.Common

import Mathlib.Data.List.Basic

/-!
# Substituting what a search finds

A search looks at a place of a text, with the symbol before it, and finds there a label and a value
behind it, or nothing. `substitute` goes through a text from its front, keeps the labels, replaces
the values and goes on behind them (`substitute_none`, `substitute_hit`).

A search that stops at a symbol finds nothing that goes over it: the parts of the text before and
behind the symbol are then substituted each for itself (`substitute_stops`). Where what is put in
begins with a mark that no label has, substituting behind a place brings about no find at the place
(`Labelled.find_none_of_substitute`).
-/

namespace CameraLogs.Lib

variable {α : Type}

/-- What is found at the front of a text behind a symbol: the text from the value on, and what is
behind the value. -/
abbrev Finder (α : Type) := Option α → List α → Option (List α × List α)

/-- The text with the values replaced, the first `n` symbols being the rest of what was found. -/
def substituteFrom (find : Finder α) (replace : List α → List α) :
    Nat → Option α → List α → List α
  | _, _, [] => []
  | n + 1, _, a :: l => substituteFrom find replace n (some a) l
  | 0, before, a :: l =>
    match find before (a :: l) with
    | some (value, rest) =>
      (a :: l).take (l.length + 1 - value.length) ++
        (replace (value.take (value.length - rest.length)) ++
          substituteFrom find replace (l.length - rest.length) (some a) l)
    | none => a :: substituteFrom find replace 0 (some a) l

def substitute (find : Finder α) (replace : List α → List α) (before : Option α) (l : List α) :
    List α :=
  substituteFrom find replace 0 before l

/-- The symbol before what follows a text. -/
def lastOf (before : Option α) (l : List α) : Option α := l.getLast?.or before

variable {find : Finder α} {replace : List α → List α} {before : Option α} {a c : α}
  {l x y label taken rest : List α}

@[simp] theorem lastOf_nil : lastOf before [] = before := rfl

@[simp] theorem lastOf_cons : lastOf before (a :: l) = lastOf (some a) l := by
  cases l with
  | nil => rfl
  | cons b l =>
    rw [lastOf, lastOf, List.getLast?_cons_cons, List.getLast?_cons, Option.some_or, Option.some_or]

@[simp] theorem lastOf_append : lastOf before (x ++ y) = lastOf (lastOf before x) y := by
  induction x generalizing before with
  | nil => rfl
  | cons a x ih => rw [List.cons_append, lastOf_cons, ih, lastOf_cons]

theorem substituteFrom_append (x rest : List α) :
    substituteFrom find replace x.length before (x ++ rest) =
      substitute find replace (lastOf before x) rest := by
  induction x generalizing before with
  | nil => rfl
  | cons a x ih =>
    rw [lastOf_cons]
    exact ih

/-- Where nothing is found the symbol stays. -/
theorem substitute_none (h : find before (a :: l) = none) :
    substitute find replace before (a :: l) = a :: substitute find replace (some a) l := by
  simp only [substitute, substituteFrom, h]

/-- What is found keeps its label, and its value is replaced. -/
theorem substitute_hit (hne : taken ≠ [])
    (h : find before (label ++ (taken ++ rest)) = some (taken ++ rest, rest)) :
    substitute find replace before (label ++ (taken ++ rest)) =
      label ++ (replace taken ++
        substitute find replace (lastOf before (label ++ taken)) rest) := by
  obtain ⟨a, w, hw⟩ : ∃ a w, label ++ taken = a :: w :=
    List.exists_cons_of_ne_nil fun hnil => hne (List.append_eq_nil_iff.mp hnil).2
  have hl : label ++ (taken ++ rest) = a :: (w ++ rest) := by
    rw [← List.append_assoc, hw, List.cons_append]
  have hlength : w.length + 1 = label.length + taken.length := by
    rw [← List.length_append, hw, List.length_cons]
  have hlabel : (w ++ rest).length + 1 - (taken ++ rest).length = label.length := by
    rw [List.length_append, List.length_append]
    omega
  have htaken : (taken ++ rest).length - rest.length = taken.length := by
    rw [List.length_append]
    omega
  have hskip : (w ++ rest).length - rest.length = w.length := by
    rw [List.length_append]
    omega
  rw [hl] at h
  rw [hl, substitute]
  simp only [substituteFrom, h]
  rw [hlabel, htaken, hskip, substituteFrom_append, hw, lastOf_cons, ← hl, List.take_left,
    List.take_left]

/-- A text in which nothing is found stays, whatever comes behind it. -/
theorem substitute_skip
    (h : ∀ x c y, label = x ++ c :: y → find (lastOf before x) (c :: (y ++ l)) = none) :
    substitute find replace before (label ++ l) =
      label ++ substitute find replace (lastOf before label) l := by
  induction label generalizing before with
  | nil => rfl
  | cons a label ih =>
    have hlabel : ∀ x c y, label = x ++ c :: y →
        find (lastOf (some a) x) (c :: (y ++ l)) = none := by
      intro x c y heq
      rw [← lastOf_cons]
      exact h (a :: x) c y (congrArg (a :: ·) heq)
    have hhere : find before (a :: (label ++ l)) = none := h [] a label rfl
    rw [List.cons_append, substitute_none hhere, ih hlabel, lastOf_cons, List.cons_append]

/-! ## Substitution as a relation -/

/-- What is found stands behind a label, and there is something of it. -/
def Sound (find : Finder α) : Prop :=
  ∀ before l value rest, find before l = some (value, rest) →
    ∃ label taken, l = label ++ (taken ++ rest) ∧ value = taken ++ rest ∧ taken ≠ []

/-- The second text is the first one with its values replaced. -/
inductive Substituted (find : Finder α) (replace : List α → List α) :
    Option α → List α → List α → Prop
  | nil {before : Option α} : Substituted find replace before [] []
  | keep {before : Option α} {a : α} {l out : List α} (hnone : find before (a :: l) = none)
      (hrest : Substituted find replace (some a) l out) :
      Substituted find replace before (a :: l) (a :: out)
  | cut {before : Option α} {label taken rest out : List α} (hne : taken ≠ [])
      (hfind : find before (label ++ (taken ++ rest)) = some (taken ++ rest, rest))
      (hrest : Substituted find replace (lastOf before (label ++ taken)) rest out) :
      Substituted find replace before (label ++ (taken ++ rest)) (label ++ (replace taken ++ out))

theorem substituted_substitute (hsound : Sound find) (before : Option α) (l : List α) :
    Substituted find replace before l (substitute find replace before l) := by
  induction hn : l.length using Nat.strongRecOn generalizing before l with
  | ind n ih =>
    cases l with
    | nil => exact .nil
    | cons a l =>
      cases hfind : find before (a :: l) with
      | none =>
        rw [substitute_none hfind]
        exact .keep hfind (ih l.length (hn ▸ Nat.lt_succ_self _) (some a) l rfl)
      | some found =>
        obtain ⟨value, rest⟩ := found
        obtain ⟨label, taken, heq, rfl, hne⟩ := hsound _ _ _ _ hfind
        rw [heq] at hfind hn ⊢
        have hlt : rest.length < n := by
          have htaken := List.length_pos_iff.mpr hne
          simp only [List.length_append] at hn
          omega
        rw [substitute_hit hne hfind]
        exact .cut hne hfind (ih rest.length hlt _ rest rfl)

/-- A symbol of the outcome is one of the text or of what is put in. -/
theorem Substituted.forall_mem {p : α → Prop} {out : List α}
    (h : Substituted find replace before l out) (hreplace : ∀ taken, ∀ a ∈ replace taken, p a)
    (hl : ∀ a ∈ l, p a) : ∀ a ∈ out, p a := by
  induction h with
  | nil => exact hl
  | keep hnone hrest ih =>
    obtain ⟨ha, hl⟩ := List.forall_mem_cons.mp hl
    exact List.forall_mem_cons.mpr ⟨ha, ih hl⟩
  | cut hne hfind hrest ih =>
    obtain ⟨hlabel, hl⟩ := List.forall_mem_append.mp hl
    exact List.forall_mem_append.mpr ⟨hlabel, List.forall_mem_append.mpr
      ⟨hreplace _, ih (List.forall_mem_append.mp hl).2⟩⟩

/-! ## Symbols that a search stops at -/

/-- Nothing is found at the symbol, and nothing that is found goes over it. -/
structure StopsAt (find : Finder α) (c : α) : Prop where
  here : ∀ before y, find before (c :: y) = none
  across : ∀ before a x y, find before (a :: x ++ c :: y) =
    (find before (a :: x)).map fun found => (found.1 ++ c :: y, found.2 ++ c :: y)

theorem substituteFrom_stops (h : StopsAt find c) (x y : List α) {n : Nat} (hn : n ≤ x.length)
    (before : Option α) :
    substituteFrom find replace n before (x ++ c :: y) =
      substituteFrom find replace n before x ++ c :: substitute find replace (some c) y := by
  induction x generalizing n before with
  | nil =>
    obtain rfl := Nat.le_zero.mp hn
    exact substitute_none (h.here before y)
  | cons a x ih =>
    cases n with
    | succ n => exact ih (Nat.le_of_succ_le_succ hn) (some a)
    | zero =>
      have hover := h.across before a x y
      rw [List.cons_append] at hover ⊢
      simp only [substituteFrom, hover]
      cases hfind : find before (a :: x) with
      | none => simp only [Option.map_none, ih (Nat.zero_le _), List.cons_append]
      | some found =>
        obtain ⟨value, rest⟩ := found
        have hlabel : (x ++ c :: y).length + 1 - (value ++ c :: y).length =
            x.length + 1 - value.length := by
          rw [List.length_append, List.length_append]
          omega
        have htaken : (value ++ c :: y).length - (rest ++ c :: y).length =
            value.length - rest.length := by
          rw [List.length_append, List.length_append]
          omega
        have hskip : (x ++ c :: y).length - (rest ++ c :: y).length = x.length - rest.length := by
          rw [List.length_append, List.length_append]
          omega
        have hlabelle : x.length + 1 - value.length ≤ (a :: x).length := by
          rw [List.length_cons]
          omega
        simp only [Option.map_some, hlabel, htaken, hskip]
        rw [ih (Nat.sub_le _ _), ← List.cons_append, List.take_append_of_le_length hlabelle,
          List.take_append_of_le_length (Nat.sub_le _ _)]
        simp only [List.append_assoc]

/-- The parts around the symbol are substituted each for itself. -/
theorem substitute_stops (h : StopsAt find c) (x y : List α) :
    substitute find replace before (x ++ c :: y) =
      substitute find replace before x ++ c :: substitute find replace (some c) y :=
  substituteFrom_stops h x y (Nat.zero_le _) before

/-! ## Searches for a label with a value behind it -/

/-- The search finds the labels that stand behind a symbol they may stand behind, with a value
behind them. -/
structure Labelled (find : Finder α) (opens : Option α → Prop) (IsLabel : List α → Prop)
    (value : List α → Option (List α)) : Prop where
  find_iff : ∀ before l v rest, find before l = some (v, rest) ↔
    opens before ∧ (∃ label, l = label ++ v ∧ IsLabel label) ∧ value v = some rest
  value_some : ∀ v rest, value v = some rest → ∃ taken, v = taken ++ rest ∧ taken ≠ []

namespace Labelled

variable {opens : Option α → Prop} {IsLabel : List α → Prop} {value : List α → Option (List α)}
  {v : List α}

theorem sound (h : Labelled find opens IsLabel value) : Sound find := by
  intro before l v rest hfind
  obtain ⟨-, ⟨label, rfl, -⟩, hv⟩ := (h.find_iff _ _ _ _).mp hfind
  obtain ⟨taken, rfl, hne⟩ := h.value_some _ _ hv
  exact ⟨label, taken, rfl, rfl, hne⟩

theorem hit (h : Labelled find opens IsLabel value) (hopens : opens before) (hlabel : IsLabel label)
    (hne : taken ≠ []) (hv : value (taken ++ rest) = some rest) :
    substitute find replace before (label ++ (taken ++ rest)) =
      label ++ (replace taken ++
        substitute find replace (lastOf before (label ++ taken)) rest) :=
  substitute_hit hne ((h.find_iff _ _ _ _).mpr ⟨hopens, ⟨label, rfl, hlabel⟩, hv⟩)

/-- The first symbol of a text is kept, as labels are not empty. -/
theorem head? (h : Labelled find opens IsLabel value) (hlabel : ∀ label, IsLabel label → label ≠ [])
    (before : Option α) (l : List α) : (substitute find replace before l).head? = l.head? := by
  cases l with
  | nil => rfl
  | cons a l =>
    cases hfind : find before (a :: l) with
    | none => rw [substitute_none hfind, List.head?_cons, List.head?_cons]
    | some found =>
      obtain ⟨v, rest⟩ := found
      obtain ⟨-, ⟨label, heq, hl⟩, hv⟩ := (h.find_iff _ _ _ _).mp hfind
      obtain ⟨taken, rfl, hne⟩ := h.value_some _ _ hv
      obtain ⟨b, label, rfl⟩ := List.exists_cons_of_ne_nil (hlabel label hl)
      rw [heq] at hfind ⊢
      rw [substitute_hit hne hfind]
      rfl

/-- A symbol that is in no label and ends every value. -/
theorem stopsAt (h : Labelled find opens IsLabel value) (hlabel : ∀ label, IsLabel label → c ∉ label)
    (hvalue : ∀ x y, value (x ++ c :: y) = (value x).map (· ++ c :: y)) : StopsAt find c := by
  -- the search before the symbol and the search over it find the same
  have hover : ∀ before x y, find before (x ++ c :: y) =
      (find before x).map fun found => (found.1 ++ c :: y, found.2 ++ c :: y) := by
    intro before x y
    apply Option.ext
    rintro ⟨v, rest⟩
    rw [h.find_iff, Option.map_eq_some_iff]
    constructor
    · rintro ⟨hopens, ⟨label, heq, hl⟩, hv⟩
      obtain ⟨m, rfl, rfl⟩ : ∃ m, x = label ++ m ∧ v = m ++ c :: y := by
        obtain ⟨m, hx, hv⟩ | ⟨m, hlab, hv⟩ := List.append_eq_append_iff.mp heq
        · cases m with
          | nil => exact ⟨[], by rw [hx, List.append_nil, List.append_nil], hv.symm⟩
          | cons b m =>
            obtain ⟨rfl, -⟩ := List.cons_eq_cons.mp hv
            exact absurd (hx ▸ List.mem_append_right _ List.mem_cons_self) (hlabel label hl)
        · exact ⟨m, hlab, hv⟩
      obtain ⟨rest', hrest, rfl⟩ := Option.map_eq_some_iff.mp (hvalue m y ▸ hv)
      exact ⟨(m, rest'), (h.find_iff _ _ _ _).mpr ⟨hopens, ⟨label, rfl, hl⟩, hrest⟩, rfl⟩
    · rintro ⟨⟨m, rest'⟩, hfound, heq⟩
      obtain ⟨rfl, rfl⟩ := Prod.mk.inj heq
      obtain ⟨hopens, ⟨label, rfl, hl⟩, hrest⟩ := (h.find_iff _ _ _ _).mp hfound
      exact ⟨hopens, ⟨label, List.append_assoc _ _ _, hl⟩, by rw [hvalue, hrest, Option.map_some]⟩
  refine ⟨?_, fun before a x y => hover before (a :: x) y⟩
  intro before y
  have hnil : find before [] = none := by
    cases hfind : find before [] with
    | none => rfl
    | some found =>
      obtain ⟨label, taken, heq, -, hne⟩ := h.sound _ _ _ _ hfind
      exact absurd (List.append_eq_nil_iff.mp (List.append_eq_nil_iff.mp heq.symm).2).1 hne
  rw [← List.nil_append (c :: y), hover, hnil, Option.map_none]

end Labelled

/-- What is put in begins with a mark, or with a symbol the value begins with and a mark. -/
def Marks (replace : List α → List α) (mark : α) (wraps : α → Prop) : Prop :=
  ∀ taken, taken ≠ [] → (∃ t, replace taken = mark :: t) ∨
    ∃ a t t', wraps a ∧ taken = a :: t' ∧ replace taken = a :: mark :: t

/-- A front without a mark is one of the text itself; the symbol behind it is the text's own or the
mark put in for a value. -/
theorem Substituted.front {mark : α} {wraps : α → Prop} {out t : List α}
    (h : Substituted find replace before l out) (hmarks : Marks replace mark wraps)
    (heq : out = x ++ a :: t) (hx : mark ∉ x) (hlast : ∀ b, x.getLast? = some b → ¬ wraps b) :
    ∃ b t', l = x ++ b :: t' ∧ (a = b ∨ a = mark ∧
      ∃ before u label rest, x = u ++ label ∧
        find before (label ++ b :: t') = some (b :: t', rest)) := by
  induction h generalizing x with
  | nil => exact absurd heq.symm (by simp)
  | keep hnone hrest ih =>
    rename_i before c l out
    cases x with
    | nil =>
      obtain ⟨rfl, -⟩ := List.cons_eq_cons.mp heq
      exact ⟨c, l, rfl, .inl rfl⟩
    | cons d x =>
      obtain ⟨rfl, rfl⟩ := List.cons_eq_cons.mp heq
      have hlast' : ∀ b, x.getLast? = some b → ¬ wraps b := by
        intro b hb
        refine hlast b ?_
        rw [List.getLast?_cons, hb, Option.getD_some]
      obtain ⟨b, t', rfl, hb⟩ := ih rfl (fun hin => hx (List.mem_cons_of_mem _ hin)) hlast'
      refine ⟨b, t', rfl, hb.imp_right ?_⟩
      rintro ⟨rfl, before', u, label, rest, rfl, hfind⟩
      exact ⟨rfl, before', c :: u, label, rest, rfl, hfind⟩
  | cut hne hfind hrest ih =>
    rename_i before label taken rest out
    obtain ⟨b, taken, rfl⟩ := List.exists_cons_of_ne_nil hne
    -- the front ends where the label ends: the symbol behind it is the first one put in
    have hhere : x = label → ∃ b' t', label ++ (b :: taken ++ rest) = x ++ b' :: t' ∧ (a = b' ∨
        a = mark ∧ ∃ before u label rest, x = u ++ label ∧
          find before (label ++ b' :: t') = some (b' :: t', rest)) := by
      rintro rfl
      refine ⟨b, taken ++ rest, rfl, ?_⟩
      obtain hput := List.append_cancel_left heq
      obtain ⟨w, hw⟩ | ⟨d, w, w', hd, htaken, hw⟩ := hmarks _ hne
      · rw [hw] at hput
        obtain ⟨rfl, -⟩ := List.cons_eq_cons.mp hput
        exact .inr ⟨rfl, before, [], x, rest, rfl, hfind⟩
      · rw [hw] at hput
        obtain ⟨rfl, -⟩ := List.cons_eq_cons.mp hput
        exact .inl (List.cons_eq_cons.mp htaken).1.symm
    obtain ⟨m, hxeq, hput⟩ | ⟨m, hlab, hput⟩ := List.append_eq_append_iff.mp heq
    · cases m with
      | nil => exact hhere (hxeq.trans (List.append_nil _))
      | cons d m =>
        -- the front goes over what is put in, and so has a mark or ends with a wrap
        exfalso
        obtain ⟨w, hw⟩ | ⟨e, w, w', he, htaken, hw⟩ := hmarks _ hne
        · rw [hw] at hput
          obtain ⟨rfl, -⟩ := List.cons_eq_cons.mp hput
          exact hx (hxeq ▸ List.mem_append_right _ List.mem_cons_self)
        · rw [hw] at hput
          obtain ⟨hd, hput⟩ := List.cons_eq_cons.mp hput
          cases m with
          | nil =>
            refine hlast e ?_ he
            rw [hxeq, hd, List.getLast?_append, List.getLast?_singleton, Option.some_or]
          | cons f m =>
            have hf := (List.cons_eq_cons.mp hput).1
            refine hx ?_
            rw [hxeq, hf]
            exact List.mem_append_right _ (List.mem_cons_of_mem _ List.mem_cons_self)
    · cases m with
      | nil => exact hhere (hlab.trans (List.append_nil _)).symm
      | cons d m =>
        obtain ⟨rfl, -⟩ := List.cons_eq_cons.mp hput
        exact ⟨a, m ++ (b :: taken ++ rest),
          by rw [hlab, List.append_assoc, List.cons_append], .inl rfl⟩

/-- Substituting behind a place brings about no find at the place, where labels have no mark and
whether there is a value behind one is seen by its first symbol. -/
theorem Labelled.find_none_of_substitute {find' : Finder α} {opens opens' : Option α → Prop}
    {IsLabel IsLabel' : List α → Prop} {value value' : List α → Option (List α)} {mark : α}
    {wraps : α → Prop} (h : Labelled find opens IsLabel value)
    (h' : Labelled find' opens' IsLabel' value') (hmarks : Marks replace mark wraps)
    (hlabel : ∀ label, IsLabel label → label ≠ [] ∧ mark ∉ label ∧
      ∀ b, label.getLast? = some b → ¬ wraps b)
    (hvalue : ∀ a t t', (value (a :: t)).isSome → (value (a :: t')).isSome)
    (hboth : ∀ u label b t, IsLabel (u ++ label) → IsLabel' label → (value' (b :: t)).isSome →
      (value (b :: t)).isSome)
    (hnone : find before (c :: l) = none) :
    find before (c :: substitute find' replace (some c) l) = none := by
  cases hfind : find before (c :: substitute find' replace (some c) l) with
  | none => rfl
  | some found =>
    exfalso
    obtain ⟨v, rest⟩ := found
    obtain ⟨hopens, ⟨label, heq, hl⟩, hv⟩ := (h.find_iff _ _ _ _).mp hfind
    obtain ⟨hne, hmark, hlast⟩ := hlabel label hl
    obtain ⟨d, x, rfl⟩ := List.exists_cons_of_ne_nil hne
    obtain ⟨taken, rfl, htaken⟩ := h.value_some _ _ hv
    obtain ⟨a, t, rfl⟩ := List.exists_cons_of_ne_nil htaken
    obtain ⟨rfl, hfront⟩ := List.cons_eq_cons.mp heq
    have hlast' : ∀ b, x.getLast? = some b → ¬ wraps b := by
      intro b hb
      refine hlast b ?_
      rw [List.getLast?_cons, hb, Option.getD_some]
    obtain ⟨b, t', rfl, hb⟩ := (substituted_substitute h'.sound (some c) l).front hmarks
      hfront (fun hin => hmark (List.mem_cons_of_mem _ hin)) hlast'
    have hsome : (value (b :: t')).isSome := by
      obtain rfl | ⟨rfl, before', u, label, rest', rfl, hfind'⟩ := hb
      · exact hvalue a (t ++ rest) t' (Option.isSome_of_eq_some hv)
      · obtain ⟨-, ⟨label', heq', hl'⟩, hv'⟩ := (h'.find_iff _ _ _ _).mp hfind'
        obtain rfl := List.append_cancel_right heq'
        exact hboth (c :: u) label b t' hl hl' (Option.isSome_of_eq_some hv')
    obtain ⟨rest', hrest'⟩ := Option.isSome_iff_exists.mp hsome
    have hfound := (h.find_iff before (c :: (x ++ b :: t')) (b :: t') rest').mpr
      ⟨hopens, ⟨c :: x, rfl, hl⟩, hrest'⟩
    rw [hnone] at hfound
    cases hfound

end CameraLogs.Lib

import Mathlib.Data.List.Infix

/-!
# Patterns: a backtracking matcher, the first match of a text, removing what matches

`Fits` says which words a pattern describes, `run` matches the front of a text the way a
backtracking engine does, with the rest of the work as a continuation. `FirstMatch` and `Removed`
say what searching and removing come to; `beforeMatch` and `remove` compute them.

A text that grows at its end keeps its first match where no match contains another one further
in (`FirstMatch.append`). What has been removed from it stays removed where no match is a part
of a longer one: only a last piece, of which a match may still be made, is undecided
(`Removed.append`).
-/

namespace CameraLogs.Lib

variable {α β : Type}

/-- A pattern over symbols: a class, a repeated class, sequences and alternatives. -/
inductive Pattern (α : Type) where
  | empty
  | one (p : α → Bool)
  | star (p : α → Bool)
  | seq (r s : Pattern α)
  | alt (r s : Pattern α)

namespace Pattern

variable {r s : Pattern α} {p : α → Bool} {a : α} {l w x out out' front : List α}

/-- One symbol of a class or more. -/
def plus (p : α → Bool) : Pattern α := seq (one p) (star p)

/-- A pattern, or nothing. -/
def opt (r : Pattern α) : Pattern α := alt r empty

/-- A given word. -/
def word [BEq α] : List α → Pattern α
  | [] => empty
  | a :: w => seq (one (· == a)) (word w)

/-- One of some words. -/
def anyOf [BEq α] : List (List α) → Pattern α
  | [] => one fun _ => false
  | w :: ws => alt (word w) (anyOf ws)

/-- The first of some patterns that leads on. -/
def oneOf : List (Pattern α) → Pattern α
  | [] => one fun _ => false
  | r :: rs => alt r (oneOf rs)

/-- The patterns one after the other. -/
def all : List (Pattern α) → Pattern α
  | [] => empty
  | r :: rs => seq r (all rs)

/-- The pattern describes the word. -/
def Fits : Pattern α → List α → Prop
  | empty, w => w = []
  | one p, w => ∃ a, w = [a] ∧ p a
  | star p, w => ∀ a ∈ w, p a
  | seq r s, w => ∃ u v, w = u ++ v ∧ Fits r u ∧ Fits s v
  | alt r s, w => Fits r w ∨ Fits s w

/-- As many symbols of the class as possible first, then fewer. -/
def starRun (p : α → Bool) (k : List α → Option β) : List α → Option β
  | [] => k []
  | a :: l => if p a then (starRun p k l).or (k (a :: l)) else k (a :: l)

/-- Match the front of a text and go on with the rest, the first alternative first. -/
def run : Pattern α → (List α → Option β) → List α → Option β
  | empty, k, l => k l
  | one _, _, [] => none
  | one p, k, a :: l => if p a then k l else none
  | star p, k, l => starRun p k l
  | seq r s, k, l => r.run (s.run k) l
  | alt r s, k, l => (r.run k l).or (s.run k l)

/-- The text behind a match at its front. -/
def matchRest (r : Pattern α) (l : List α) : Option (List α) := r.run some l

/-- The text before its first match. -/
def beforeMatch (r : Pattern α) : List α → Option (List α)
  | [] => if (r.matchRest []).isSome then some [] else none
  | a :: l =>
    if (r.matchRest (a :: l)).isSome then some [] else (beforeMatch r l).map (a :: ·)

/-- The text without its matches, the first `n` symbols being the rest of one. -/
def removeFrom (r : Pattern α) : Nat → List α → List α
  | _, [] => []
  | n + 1, _ :: l => removeFrom r n l
  | 0, a :: l =>
    match r.matchRest (a :: l) with
    | some rest => removeFrom r (l.length - rest.length) l
    | none => a :: removeFrom r 0 l

/-- The text without its matches; the pattern does not fit the empty word. -/
def remove (r : Pattern α) (l : List α) : List α := r.removeFrom 0 l

/-! ## The words of a pattern -/

@[simp] theorem fits_word [BEq α] [LawfulBEq α] {u : List α} : (word w).Fits u ↔ u = w := by
  induction w generalizing u with
  | nil => exact Iff.rfl
  | cons a w ih =>
    constructor
    · rintro ⟨_, v, rfl, ⟨b, rfl, hb⟩, hv⟩
      rw [ih.mp hv, eq_of_beq hb]
      rfl
    · intro hu
      exact ⟨[a], w, hu, ⟨a, rfl, beq_self_eq_true a⟩, ih.mpr rfl⟩

@[simp] theorem fits_anyOf [BEq α] [LawfulBEq α] {ws : List (List α)} {u : List α} :
    (anyOf ws).Fits u ↔ u ∈ ws := by
  induction ws with
  | nil => exact ⟨fun ⟨_, _, h⟩ => absurd h (by simp), nofun⟩
  | cons w ws ih =>
    show (word w).Fits u ∨ (anyOf ws).Fits u ↔ _
    rw [fits_word, ih, List.mem_cons]

theorem Fits.plus (h : (plus p).Fits w) : (∀ b ∈ w, p b) ∧ w ≠ [] := by
  obtain ⟨_, v, rfl, ⟨b, rfl, hb⟩, hv⟩ := h
  exact ⟨fun c hc => (List.mem_cons.mp hc).elim (· ▸ hb) (hv c), List.cons_ne_nil _ _⟩

/-- How every word of a pattern begins. -/
def Begins (P : α → Prop) (r : Pattern α) : Prop := ∀ w, r.Fits w → ∃ a l, w = a :: l ∧ P a

/-- How every word of a pattern ends. -/
def Ends (P : α → Prop) (r : Pattern α) : Prop := ∀ w, r.Fits w → ∃ l a, w = l ++ [a] ∧ P a

/-- What every word of a pattern is made of. -/
def Within (P : α → Prop) (r : Pattern α) : Prop := ∀ w, r.Fits w → ∀ a ∈ w, P a

section
variable {P : α → Prop} {rs : List (Pattern α)}

theorem begins_one (h : ∀ a, p a → P a) : Begins P (one p) := by
  intro w hw
  obtain ⟨a, rfl, ha⟩ := hw
  exact ⟨a, [], rfl, h a ha⟩

theorem begins_plus (h : ∀ a, p a → P a) : Begins P (plus p) := by
  intro w hw
  obtain ⟨_, v, rfl, ⟨a, rfl, ha⟩, -⟩ := hw
  exact ⟨a, v, rfl, h a ha⟩

theorem begins_all_cons (h : Begins P r) : Begins P (all (r :: rs)) := by
  intro w hw
  obtain ⟨u, v, rfl, hu, -⟩ := hw
  obtain ⟨a, l, rfl, ha⟩ := h u hu
  exact ⟨a, l ++ v, rfl, ha⟩

theorem begins_oneOf (h : ∀ r ∈ rs, Begins P r) : Begins P (oneOf rs) := by
  induction rs with
  | nil => exact begins_one nofun
  | cons r rs ih =>
    obtain ⟨hr, hrs⟩ := List.forall_mem_cons.mp h
    exact fun w hw => hw.elim (hr w) (ih hrs w)

theorem ends_one (h : ∀ a, p a → P a) : Ends P (one p) := by
  intro w hw
  obtain ⟨a, rfl, ha⟩ := hw
  exact ⟨[], a, rfl, h a ha⟩

theorem ends_all_one (h : Ends P r) : Ends P (all [r]) := by
  intro w hw
  obtain ⟨u, v, rfl, hu, rfl⟩ := hw
  rw [List.append_nil]
  exact h u hu

theorem ends_all_cons (h : Ends P (all rs)) : Ends P (all (r :: rs)) := by
  intro w hw
  obtain ⟨u, v, rfl, -, hv⟩ := hw
  obtain ⟨l, a, rfl, ha⟩ := h v hv
  exact ⟨u ++ l, a, (List.append_assoc _ _ _).symm, ha⟩

theorem ends_oneOf (h : ∀ r ∈ rs, Ends P r) : Ends P (oneOf rs) := by
  induction rs with
  | nil => exact ends_one nofun
  | cons r rs ih =>
    obtain ⟨hr, hrs⟩ := List.forall_mem_cons.mp h
    exact fun w hw => hw.elim (hr w) (ih hrs w)

theorem within_empty : Within P empty := by
  intro w hw a ha
  cases hw
  cases ha

theorem within_one (h : ∀ a, p a → P a) : Within P (one p) := by
  intro w hw a ha
  obtain ⟨b, rfl, hb⟩ := hw
  exact List.mem_singleton.mp ha ▸ h b hb

theorem within_opt (h : Within P r) : Within P (opt r) :=
  fun w hw => hw.elim (h w) (within_empty w)

theorem within_all (h : ∀ r ∈ rs, Within P r) : Within P (all rs) := by
  induction rs with
  | nil => exact within_empty
  | cons r rs ih =>
    obtain ⟨hr, hrs⟩ := List.forall_mem_cons.mp h
    intro w hw
    obtain ⟨u, v, rfl, hu, hv⟩ := hw
    exact List.forall_mem_append.mpr ⟨hr u hu, ih hrs v hv⟩

theorem within_oneOf (h : ∀ r ∈ rs, Within P r) : Within P (oneOf rs) := by
  induction rs with
  | nil => exact within_one nofun
  | cons r rs ih =>
    obtain ⟨hr, hrs⟩ := List.forall_mem_cons.mp h
    exact fun w hw => hw.elim (hr w) (ih hrs w)

end

/-- A text is in one way only a run of a class and something that does not begin with the class. -/
theorem run_unique {w' x' : List α} (heq : w ++ x = w' ++ x') (hw : ∀ a ∈ w, p a)
    (hw' : ∀ a ∈ w', p a) (hx : ∀ a, x.head? = some a → ¬ p a)
    (hx' : ∀ a, x'.head? = some a → ¬ p a) : w = w' ∧ x = x' := by
  have htake : ∀ u y : List α, (∀ a ∈ u, p a) → (∀ a, y.head? = some a → ¬ p a) →
      (u ++ y).takeWhile p = u := by
    intro u y hu hy
    rw [List.takeWhile_append_of_pos hu]
    cases y with
    | nil => rw [List.takeWhile_nil, List.append_nil]
    | cons b y => rw [List.takeWhile_cons_of_neg (hy b rfl), List.append_nil]
  have hww : w = w' := by rw [← htake w x hw hx, heq, htake w' x' hw' hx']
  subst hww
  exact ⟨rfl, List.append_cancel_left heq⟩

/-! ## The matcher -/

theorem starRun_some {k : List α → Option β} {b : β} (h : starRun p k l = some b) :
    ∃ w rest, l = w ++ rest ∧ (∀ a ∈ w, p a) ∧ k rest = some b := by
  induction l with
  | nil => exact ⟨[], [], rfl, nofun, h⟩
  | cons a l ih =>
    have hhere : k (a :: l) = some b → ∃ w rest, a :: l = w ++ rest ∧ (∀ a ∈ w, p a) ∧
        k rest = some b := fun hk => ⟨[], a :: l, rfl, nofun, hk⟩
    rw [starRun] at h
    split at h
    · rename_i ha
      obtain hmore | ⟨-, hk⟩ := Option.or_eq_some_iff.mp h
      · obtain ⟨w, rest, rfl, hw, hk⟩ := ih hmore
        exact ⟨a :: w, rest, rfl, List.forall_mem_cons.mpr ⟨ha, hw⟩, hk⟩
      · exact hhere hk
    · exact hhere h

/-- What the matcher finds is a word of the pattern, and what is left is the rest. -/
theorem run_some {k : List α → Option β} {b : β} (h : r.run k l = some b) :
    ∃ w rest, l = w ++ rest ∧ r.Fits w ∧ k rest = some b := by
  induction r generalizing l b β with
  | empty => exact ⟨[], l, rfl, rfl, h⟩
  | one p =>
    cases l with
    | nil => exact nomatch h
    | cons a l =>
      rw [run] at h
      split at h
      · rename_i ha
        exact ⟨[a], l, rfl, ⟨a, rfl, ha⟩, h⟩
      · exact nomatch h
  | star p => exact starRun_some h
  | seq r s ihr ihs =>
    obtain ⟨u, _, rfl, hu, hs⟩ := ihr h
    obtain ⟨v, rest, rfl, hv, hk⟩ := ihs hs
    exact ⟨u ++ v, rest, (List.append_assoc _ _ _).symm, ⟨u, v, rfl, hu, hv⟩, hk⟩
  | alt r s ihr ihs =>
    obtain hr | ⟨-, hs⟩ := Option.or_eq_some_iff.mp h
    · obtain ⟨w, rest, hl, hw, hk⟩ := ihr hr
      exact ⟨w, rest, hl, .inl hw, hk⟩
    · obtain ⟨w, rest, hl, hw, hk⟩ := ihs hs
      exact ⟨w, rest, hl, .inr hw, hk⟩

theorem starRun_isSome {k : List α → Option β} {rest : List α} (hw : ∀ a ∈ w, p a)
    (hk : (k rest).isSome) : (starRun p k (w ++ rest)).isSome := by
  induction w with
  | nil =>
    cases rest with
    | nil => exact hk
    | cons a rest =>
      show (starRun p k (a :: rest)).isSome
      rw [starRun]
      split
      · rw [Option.isSome_or, hk, Bool.or_true]
      · exact hk
  | cons a w ih =>
    obtain ⟨ha, hw⟩ := List.forall_mem_cons.mp hw
    show (starRun p k (a :: (w ++ rest))).isSome
    rw [starRun, if_pos ha, Option.isSome_or, ih hw, Bool.true_or]

/-- The matcher misses no word the rest of the work can go on from. -/
theorem run_isSome {k : List α → Option β} {rest : List α} (h : r.Fits w)
    (hk : (k rest).isSome) : (r.run k (w ++ rest)).isSome := by
  induction r generalizing w rest β with
  | empty =>
    cases h
    exact hk
  | one p =>
    obtain ⟨a, rfl, ha⟩ := h
    show (if p a then k rest else none).isSome
    rwa [if_pos ha]
  | star p => exact starRun_isSome h hk
  | seq r s ihr ihs =>
    obtain ⟨u, v, rfl, hu, hv⟩ := h
    rw [List.append_assoc]
    exact ihr hu (ihs hv hk)
  | alt r s ihr ihs =>
    show ((r.run k (w ++ rest)).or (s.run k (w ++ rest))).isSome
    rw [Option.isSome_or, Bool.or_eq_true]
    exact h.imp (fun h => ihr h hk) (fun h => ihs h hk)

theorem matchRest_some {rest : List α} (h : r.matchRest l = some rest) :
    ∃ w, l = w ++ rest ∧ r.Fits w := by
  obtain ⟨w, _, hl, hw, hrest⟩ := run_some h
  cases hrest
  exact ⟨w, hl, hw⟩

/-- The longest run of a class is taken first. -/
theorem starRun_of_isSome {k : List α → Option β} (hk : (k (l.dropWhile p)).isSome) :
    starRun p k l = k (l.dropWhile p) := by
  induction l with
  | nil => rfl
  | cons a l ih =>
    rw [starRun]
    by_cases ha : p a
    · rw [List.dropWhile_cons_of_pos ha] at hk ⊢
      rw [if_pos ha, ih hk]
      obtain ⟨b, hb⟩ := Option.isSome_iff_exists.mp hk
      rw [hb, Option.some_or]
    · rw [if_neg ha, List.dropWhile_cons_of_neg ha]

theorem matchRest_plus (l : List α) :
    (plus p).matchRest l = if l.head?.any p then some (l.dropWhile p) else none := by
  cases l with
  | nil => rfl
  | cons a l =>
    show (if p a then starRun p some l else none) = _
    rw [starRun_of_isSome rfl, List.head?_cons, Option.any_some]
    by_cases ha : p a
    · rw [if_pos ha, if_pos ha, List.dropWhile_cons_of_pos ha]
    · rw [if_neg ha, if_neg ha]

/-- A run of a class ends at a symbol that is not of the class. -/
theorem matchRest_plus_append {c : α} (hc : p c = false) (x y : List α) :
    (plus p).matchRest (x ++ c :: y) = ((plus p).matchRest x).map (· ++ c :: y) := by
  rw [matchRest_plus, matchRest_plus]
  cases x with
  | nil =>
    rw [List.nil_append, List.head?_cons, Option.any_some, hc]
    rfl
  | cons a x =>
    have hdrop : ∀ x : List α, (x ++ c :: y).dropWhile p = x.dropWhile p ++ c :: y := by
      intro x
      induction x with
      | nil => exact List.dropWhile_cons_of_neg (by rw [hc]; exact nofun)
      | cons b x ih =>
        by_cases hb : p b
        · rw [List.cons_append, List.dropWhile_cons_of_pos hb, List.dropWhile_cons_of_pos hb, ih]
        · rw [List.cons_append, List.dropWhile_cons_of_neg hb, List.dropWhile_cons_of_neg hb,
            List.cons_append]
    rw [hdrop, List.cons_append, List.head?_cons, List.head?_cons]
    split
    next => rfl
    next => rfl

theorem matchRest_isSome : (r.matchRest l).isSome ↔ ∃ w, w <+: l ∧ r.Fits w := by
  constructor
  · intro h
    obtain ⟨rest, hrest⟩ := Option.isSome_iff_exists.mp h
    obtain ⟨w, rfl, hw⟩ := matchRest_some hrest
    exact ⟨w, List.prefix_append _ _, hw⟩
  · rintro ⟨w, ⟨rest, rfl⟩, hw⟩
    exact run_isSome hw rfl

theorem matchRest_none (h : r.matchRest l = none) : ∀ w, w <+: l → ¬ r.Fits w := by
  intro w hpre hw
  have hsome := matchRest_isSome.mpr ⟨w, hpre, hw⟩
  rw [h] at hsome
  cases hsome

/-! ## The first match -/

/-- `front` is what stands before the first match of the text. -/
def FirstMatch (r : Pattern α) (l front : List α) : Prop :=
  (∃ w rest, l = front ++ (w ++ rest) ∧ r.Fits w) ∧
    ∀ front' w' rest', l = front' ++ (w' ++ rest') → r.Fits w' → front.length ≤ front'.length

/-- The text has no match. -/
def NoMatch (r : Pattern α) (l : List α) : Prop :=
  ∀ front w rest, l = front ++ (w ++ rest) → ¬ r.Fits w

theorem firstMatch_cons (hnone : ∀ w, w <+: a :: l → ¬ r.Fits w) (h : FirstMatch r l front) :
    FirstMatch r (a :: l) (a :: front) := by
  obtain ⟨⟨w, rest, rfl, hw⟩, hfirst⟩ := h
  refine ⟨⟨w, rest, rfl, hw⟩, ?_⟩
  intro front' w' rest' heq hw'
  cases front' with
  | nil => exact absurd hw' (hnone w' ⟨rest', heq.symm⟩)
  | cons b front' =>
    obtain ⟨-, heq⟩ := List.cons_eq_cons.mp heq
    exact Nat.succ_le_succ (hfirst front' w' rest' heq hw')

theorem noMatch_cons (hnone : ∀ w, w <+: a :: l → ¬ r.Fits w) (h : NoMatch r l) :
    NoMatch r (a :: l) := by
  intro front w rest heq hw
  cases front with
  | nil => exact hnone w ⟨rest, heq.symm⟩ hw
  | cons b front => exact h front w rest (List.cons_eq_cons.mp heq).2 hw

theorem firstMatch_nil (h : (r.matchRest l).isSome) : FirstMatch r l [] := by
  obtain ⟨w, ⟨rest, hl⟩, hw⟩ := matchRest_isSome.mp h
  exact ⟨⟨w, rest, hl.symm, hw⟩, fun _ _ _ _ _ => Nat.zero_le _⟩

theorem prefixes_of_not_isSome (h : ¬ (r.matchRest l).isSome) : ∀ w, w <+: l → ¬ r.Fits w :=
  matchRest_none (Option.not_isSome_iff_eq_none.mp h)

theorem beforeMatch_some (h : r.beforeMatch l = some front) : FirstMatch r l front := by
  induction l generalizing front with
  | nil =>
    rw [beforeMatch] at h
    split at h
    · rename_i hm
      cases h
      exact firstMatch_nil hm
    · exact nomatch h
  | cons a l ih =>
    rw [beforeMatch] at h
    split at h
    · rename_i hm
      cases h
      exact firstMatch_nil hm
    · rename_i hm
      obtain ⟨front, hfront, rfl⟩ := Option.map_eq_some_iff.mp h
      exact firstMatch_cons (prefixes_of_not_isSome hm) (ih hfront)

theorem beforeMatch_none (h : r.beforeMatch l = none) : NoMatch r l := by
  induction l with
  | nil =>
    rw [beforeMatch] at h
    split at h
    · exact nomatch h
    · rename_i hm
      intro front w rest heq
      obtain ⟨-, hrest⟩ := List.append_eq_nil_iff.mp heq.symm
      exact prefixes_of_not_isSome hm w ⟨rest, hrest⟩
  | cons a l ih =>
    rw [beforeMatch] at h
    split at h
    · exact nomatch h
    · rename_i hm
      exact noMatch_cons (prefixes_of_not_isSome hm) (ih (Option.map_eq_none_iff.mp h))

theorem FirstMatch.not_noMatch (h : FirstMatch r l front) : ¬ NoMatch r l := by
  obtain ⟨⟨w, rest, hl, hw⟩, -⟩ := h
  exact fun hnone => hnone front w rest hl hw

theorem FirstMatch.unique {front' : List α} (h : FirstMatch r l front)
    (h' : FirstMatch r l front') : front = front' := by
  obtain ⟨⟨w, rest, hl, hw⟩, hfirst⟩ := h
  obtain ⟨⟨w', rest', hl', hw'⟩, hfirst'⟩ := h'
  have hlen : front.length = front'.length :=
    Nat.le_antisymm (hfirst front' w' rest' hl' hw') (hfirst' front w rest hl hw)
  exact List.append_inj_left (hl.symm.trans hl') hlen

theorem FirstMatch.beforeMatch (h : FirstMatch r l front) : r.beforeMatch l = some front := by
  cases hb : r.beforeMatch l with
  | none => exact absurd (beforeMatch_none hb) h.not_noMatch
  | some front' => rw [(beforeMatch_some hb).unique h]

theorem NoMatch.beforeMatch (h : NoMatch r l) : r.beforeMatch l = none := by
  cases hb : r.beforeMatch l with
  | none => rfl
  | some front => exact absurd h (beforeMatch_some hb).not_noMatch

theorem FirstMatch.length_le (h : FirstMatch r l front) : front.length ≤ l.length := by
  obtain ⟨⟨w, rest, rfl, -⟩, -⟩ := h
  rw [List.length_append]
  exact Nat.le_add_right _ _

/-- Of two ways to cut a text the shorter front is the beginning of the longer one. -/
theorem exists_between {u v u' v' : List α} (h : u ++ v = u' ++ v') (hlen : u.length ≤ u'.length) :
    ∃ m, u' = u ++ m ∧ v = m ++ v' := by
  obtain ⟨m, rfl⟩ : u <+: u' :=
    List.prefix_of_prefix_length_le (List.prefix_append u v) (h ▸ List.prefix_append u' v') hlen
  exact ⟨m, rfl, List.append_cancel_left (h.trans (List.append_assoc _ _ _))⟩

/-- No word of the pattern has another one in it, other than at its front. -/
def NoInner (r : Pattern α) : Prop := ∀ u w v, r.Fits w → r.Fits (u ++ (w ++ v)) → u = []

/-- The first match of a text stays its first match when the text grows. -/
theorem FirstMatch.append (hinner : NoInner r) (h : FirstMatch r l front) (x : List α) :
    FirstMatch r (l ++ x) front := by
  obtain ⟨⟨w, rest, rfl, hw⟩, hfirst⟩ := h
  refine ⟨⟨w, rest ++ x, by simp only [List.append_assoc], hw⟩, ?_⟩
  intro front' w' rest' heq hw'
  rcases Nat.lt_or_ge front'.length front.length with hlt | hge
  · -- a match that starts earlier ends in `x`, and so has the first one inside it
    by_cases hend : (front' ++ w').length ≤ (front ++ (w ++ rest)).length
    · rw [← List.append_assoc front'] at heq
      obtain ⟨m, hm, -⟩ := exists_between heq.symm hend
      exact hfirst front' w' m (hm.trans (List.append_assoc _ _ _)) hw'
    · simp only [List.append_assoc] at heq
      obtain ⟨u, rfl, htail⟩ := exists_between heq.symm (Nat.le_of_lt hlt)
      rw [← List.append_assoc u] at htail
      have hle : (u ++ w).length ≤ w'.length := by
        simp only [List.length_append] at hend ⊢
        omega
      obtain ⟨v, rfl, -⟩ := exists_between htail.symm hle
      rw [List.append_assoc] at hw'
      rw [hinner u w v hw hw', List.append_nil]
  · exact hge

/-- A match that cannot reach the end of a text is a match of what stands before the end. -/
theorem FirstMatch.of_append {e : α} (hstart : ∀ b ∈ e :: x, ∀ w, ¬ r.Fits (b :: w))
    (hnil : ¬ r.Fits []) (hmem : ∀ w, r.Fits w → e ∉ w) (h : FirstMatch r (l ++ e :: x) front) :
    FirstMatch r l front := by
  obtain ⟨⟨w, rest, heq, hw⟩, hfirst⟩ := h
  have hbefore : (front ++ w).length ≤ l.length := by
    by_contra hlt
    rcases Nat.lt_or_ge front.length l.length with hfront | hfront
    · obtain ⟨m, rfl, hm⟩ := exists_between heq.symm (Nat.le_of_lt hfront)
      have hlen : m.length < w.length := by
        simp only [List.length_append] at hlt
        omega
      obtain ⟨n, rfl, hn⟩ := exists_between hm.symm (Nat.le_of_lt hlen)
      cases n with
      | nil => exact absurd hlen (by simp)
      | cons b n =>
        obtain ⟨rfl, -⟩ := List.cons_eq_cons.mp hn
        exact hmem _ hw (List.mem_append_right _ List.mem_cons_self)
    · obtain ⟨m, rfl, hm⟩ := exists_between heq hfront
      cases w with
      | nil => exact hnil hw
      | cons b w =>
        refine hstart b ?_ w hw
        rw [hm]
        exact List.mem_append_right _ List.mem_cons_self
  rw [← List.append_assoc] at heq
  obtain ⟨m, rfl, -⟩ := exists_between heq.symm hbefore
  refine ⟨⟨w, m, List.append_assoc _ _ _, hw⟩, ?_⟩
  intro front' w' rest' heq' hw'
  refine hfirst front' w' (rest' ++ e :: x) ?_ hw'
  rw [heq']
  simp only [List.append_assoc]

/-! ## What removing leaves -/

/-- `out` is the text without its matches, taken from the left. -/
inductive Removed (r : Pattern α) : List α → List α → Prop
  | nil : Removed r [] []
  | keep {a : α} {l out : List α} (hnone : ∀ w, w <+: a :: l → ¬ r.Fits w)
      (hrest : Removed r l out) : Removed r (a :: l) (a :: out)
  | cut {w l out : List α} (hw : r.Fits w) (hne : w ≠ []) (hrest : Removed r l out) :
      Removed r (w ++ l) out

/-- No word of the pattern is the beginning of another one. -/
def PrefixFree (r : Pattern α) : Prop := ∀ w x, r.Fits w → r.Fits (w ++ x) → x = []

theorem removed_removeFrom (hnil : ¬ r.Fits []) (n : Nat) :
    Removed r (l.drop n) (r.removeFrom n l) := by
  induction l generalizing n with
  | nil =>
    rw [List.drop_nil]
    cases n <;> exact .nil
  | cons a l ih =>
    cases n with
    | succ n => exact ih n
    | zero =>
      show Removed r (a :: l) _
      rw [removeFrom]
      split
      · rename_i rest hrest
        obtain ⟨w, heq, hw⟩ := matchRest_some hrest
        cases w with
        | nil => exact absurd hw hnil
        | cons b w =>
          obtain ⟨rfl, rfl⟩ := List.cons_eq_cons.mp heq
          show Removed r (a :: w ++ rest) (r.removeFrom ((w ++ rest).length - rest.length) _)
          rw [List.length_append, Nat.add_sub_cancel]
          refine .cut hw (List.cons_ne_nil _ _) ?_
          have hcut : Removed r ((w ++ rest).drop w.length) _ := ih w.length
          rwa [List.drop_left] at hcut
      · rename_i hnone
        exact .keep (matchRest_none hnone) (ih 0)

theorem removed_remove (hnil : ¬ r.Fits []) (l : List α) : Removed r l (r.remove l) :=
  removed_removeFrom hnil 0

/-- Two words at the front of one text are the same. -/
theorem PrefixFree.eq (hfree : PrefixFree r) {w' l' : List α} (heq : w ++ l = w' ++ l')
    (hw : r.Fits w) (hw' : r.Fits w') : w = w' := by
  rcases Nat.le_total w.length w'.length with hle | hle
  · obtain ⟨m, rfl, -⟩ := exists_between heq hle
    rw [hfree w m hw hw', List.append_nil]
  · obtain ⟨m, rfl, -⟩ := exists_between heq.symm hle
    rw [hfree w' m hw' hw, List.append_nil]

theorem Removed.unique (hfree : PrefixFree r) (h : Removed r l out) (h' : Removed r l out') :
    out = out' := by
  induction h generalizing out' with
  | nil =>
    generalize hl : ([] : List α) = l at h'
    cases h' with
    | nil => rfl
    | keep => cases hl
    | cut hw hne => exact absurd (List.append_eq_nil_iff.mp hl.symm).1 hne
  | keep hnone hrest ih =>
    rename_i a l out
    generalize hl : a :: l = l' at h'
    cases h' with
    | nil => cases hl
    | keep hnone' hrest' =>
      cases hl
      rw [ih hrest']
    | cut hw hne => exact absurd hw (hnone _ ⟨_, hl.symm⟩)
  | cut hw hne hrest ih =>
    rename_i w l out
    generalize hl : w ++ l = l' at h'
    cases h' with
    | nil => exact absurd (List.append_eq_nil_iff.mp hl).1 hne
    | keep hnone' => exact absurd hw (hnone' _ ⟨_, hl⟩)
    | cut hw' hne' hrest' =>
      have hsame := hfree.eq hl hw hw'
      subst hsame
      exact ih (List.append_cancel_left hl ▸ hrest')

theorem Removed.length_le (h : Removed r l out) : out.length ≤ l.length := by
  induction h with
  | nil => exact Nat.le_refl _
  | keep hnone hrest ih => exact Nat.succ_le_succ ih
  | cut hw hne hrest ih =>
    rw [List.length_append]
    omega

/-- The end of a text of which a match may still be made. -/
def Held (r : Pattern α) (l : List α) : Prop := l = [] ∨ ∃ y, y ≠ [] ∧ r.Fits (l ++ y)

/-- A text without its matches is decided up to a piece at its end of which a match may still be
made: what comes later only decides that piece. -/
theorem Removed.append (h : Removed r l out) :
    ∃ first held done, l = first ++ held ∧ Held r held ∧
      ∀ x rest, Removed r (held ++ x) rest → Removed r (l ++ x) (done ++ rest) := by
  induction h with
  | nil => exact ⟨[], [], [], rfl, .inl rfl, fun x rest hrest => hrest⟩
  | keep hnone hrest ih =>
    rename_i a l out
    by_cases hheld : ∃ y, y ≠ [] ∧ r.Fits (a :: l ++ y)
    · exact ⟨[], a :: l, [], rfl, .inr hheld, fun x rest hrest => hrest⟩
    · obtain ⟨first, held, done, heq, hheld', hdone⟩ := ih
      refine ⟨a :: first, held, a :: done, congrArg (a :: ·) heq, hheld', ?_⟩
      intro x rest hx
      refine .keep ?_ (hdone x rest hx)
      intro w hpre hw
      have hpre' : w <+: (a :: l) ++ x := hpre
      obtain hin | ⟨y, rfl⟩ := List.prefix_or_prefix_of_prefix hpre' (List.prefix_append (a :: l) x)
      · exact hnone w hin hw
      · cases y with
        | nil => exact hnone (a :: l) (List.prefix_refl _) (List.append_nil (a :: l) ▸ hw)
        | cons b y => exact hheld ⟨b :: y, List.cons_ne_nil _ _, hw⟩
  | cut hw hne hrest ih =>
    rename_i w l out
    obtain ⟨first, held, done, heq, hheld, hdone⟩ := ih
    refine ⟨w ++ first, held, done, ?_, hheld, ?_⟩
    · rw [heq, List.append_assoc]
    · intro x rest hx
      rw [List.append_assoc]
      exact .cut hw hne (hdone x rest hx)

theorem NoMatch.of_append {u v : List α} (h : NoMatch r (u ++ (l ++ v))) : NoMatch r l := by
  rintro front w rest rfl
  exact h (u ++ front) w (rest ++ v) (by simp only [List.append_assoc])

/-- A text without matches is left as it is. -/
theorem NoMatch.removed (h : NoMatch r l) : Removed r l l := by
  induction l with
  | nil => exact .nil
  | cons a l ih =>
    refine .keep ?_ (ih fun front w rest heq => h (a :: front) w rest (congrArg (a :: ·) heq))
    rintro w ⟨rest, heq⟩
    exact h [] w rest heq.symm

/-- A text none of whose symbols starts a match is left as it is. -/
theorem removed_self (h : ∀ a ∈ l, ∀ w, ¬ r.Fits (a :: w)) (hnil : ¬ r.Fits []) :
    Removed r l l := by
  induction l with
  | nil => exact .nil
  | cons a l ih =>
    obtain ⟨ha, hl⟩ := List.forall_mem_cons.mp h
    refine .keep ?_ (ih hl)
    intro w hpre hw
    cases w with
    | nil => exact hnil hw
    | cons b w =>
      obtain ⟨rest, heq⟩ := hpre
      obtain ⟨rfl, -⟩ := List.cons_eq_cons.mp heq
      exact ha w hw

end Pattern

end CameraLogs.Lib

import CameraLogs.Common.RedactionLabels

/-!
# What one redaction does

`redactFrom` is taken apart along a text: a symbol where neither of the two searches finds anything
stays (`redactFrom_none`), a value in quotes is replaced in its quotes (`redactFrom_quoted`,
`redactFrom_lone`), and what was put in for a bare value gets another `]` the next time
(`redactFrom_bare_again`, `redactFrom_bearer_again`).
-/

namespace CameraLogs.Common

open Lib Lib.Pattern
open Logs (isSpace)

variable {W : WordClass} {before : Option Char} {c q : Char}
  {l v rest inner label taken : List Char}

/-! ## Labels of the one search and labels of the other one -/

/-- No name of a secret begins inside `bearer` and what follows it. -/
theorem secrets_skip_bearer (hlabel : IsBearerLabel label) (before : Option Char) (l : List Char) :
    redactSecrets W before (label ++ l) = label ++ redactSecrets W (lastOf before label) l := by
  refine substitute_skip ?_
  obtain ⟨word, space, rfl, hword, ⟨t, e, rfl, he⟩, -, hspace, hne⟩ := bearerLabel_parts hlabel W
  intro x c y heq
  obtain ⟨m, rfl, hspaces⟩ | ⟨m, hwordeq, htail⟩ := List.append_eq_append_iff.mp heq
  · -- in the white space
    refine findSecret_at_stop (W.space c ?_) _ _
    rw [hspaces] at hspace
    exact hspace c (List.mem_append_right _ List.mem_cons_self)
  · cases m with
    | nil =>
      obtain rfl : space = c :: y := htail.symm
      exact findSecret_at_stop (W.space c (hspace c List.mem_cons_self)) _ _
    | cons d m =>
      obtain ⟨rfl, rfl⟩ := List.cons_eq_cons.mp htail
      rcases List.eq_nil_or_concat x with rfl | ⟨x, b, rfl⟩
      · -- at the front: the name would be `bearer`
        refine Option.eq_none_iff_forall_ne_some.mpr ?_
        intro found h
        obtain ⟨-, ⟨_, hl, key, gap, rfl, hkey, hgap⟩, -⟩ := findSecret_some h
        rw [List.nil_append] at hwordeq
        have hl' : (t ++ [e]) ++ (space ++ l) = key ++ (gap ++ found.1) := by
          rw [hwordeq, ← List.append_assoc]
          exact hl.trans (List.append_assoc _ _ _)
        obtain ⟨hkeyeq, -⟩ := @run_unique _ (fun a => W.isWord a || a == '-') _ _ _ _ hl'
          (fun a ha => by rw [hword a ha, Bool.true_or]) (within_secretKey key hkey)
          (space_stops hspace hne l) (gap_stops hgap found.1)
        exact key_ne hkey he W hkeyeq.symm
      · -- further on, where a letter is before
        rw [List.concat_eq_append, lastOf_append, lastOf_cons, lastOf_nil]
        refine findSecret_behind_word (hword b ?_) _
        rw [hwordeq, List.concat_eq_append]
        exact List.mem_append_left _ (List.mem_append_right _ List.mem_cons_self)

/-- No `bearer` begins inside the label of a secret and what follows it. -/
theorem bearers_skip_secret (hlabel : IsSecretLabel label) (before : Option Char)
    (l : List Char) :
    redactBearers W before (label ++ l) = label ++ redactBearers W (lastOf before label) l := by
  refine substitute_skip ?_
  obtain ⟨key, gap, rfl, hkey, hgap⟩ := hlabel
  have hnone : ∀ {c y before}, c ∈ gap → findBearer W before (c :: (y ++ l)) = none :=
    fun hc => findBearer_at (.inl (isWord_gap hgap _ hc)) _ _
  intro x c y heq
  obtain ⟨m, rfl, hgapeq⟩ | ⟨m, hkeyeq, htail⟩ := List.append_eq_append_iff.mp heq
  · exact hnone (hgapeq ▸ List.mem_append_right _ List.mem_cons_self)
  · cases m with
    | nil =>
      obtain rfl : gap = c :: y := htail.symm
      exact hnone List.mem_cons_self
    | cons d m =>
      obtain ⟨rfl, rfl⟩ := List.cons_eq_cons.mp htail
      -- the name would end with `bearer`
      refine Option.eq_none_iff_forall_ne_some.mpr ?_
      intro found h
      obtain ⟨-, ⟨_, hl, hbearer⟩, -⟩ := findBearer_some h
      obtain ⟨word, space, rfl, hword, ⟨t, e, rfl, he⟩, -, hspace, hne⟩ :=
        bearerLabel_parts hbearer W
      have hl' : (c :: m) ++ (gap ++ l) = (t ++ [e]) ++ (space ++ found.1) := by
        rw [← List.append_assoc, ← List.append_assoc (t ++ [e])]
        exact hl
      obtain ⟨hwordeq, -⟩ := @run_unique _ (fun a => W.isWord a || a == '-') _ _ _ _ hl'
        (fun a ha => within_secretKey key hkey a (hkeyeq ▸ List.mem_append_right _ ha))
        (fun a ha => by rw [hword a ha, Bool.true_or]) (gap_stops hgap l)
        (space_stops hspace hne found.1)
      refine @key_ne key hkey (x ++ t) e he W (hkeyeq.trans ?_)
      rw [hwordeq, List.append_assoc]

/-! ## What is put in -/

/-- Symbols behind a letter stay up to the next one that is no letter. -/
theorem substitute_word {find : Finder Char} {replace : List Char → List Char}
    (hfind : ∀ a l, W.isWord a = true → find (some a) l = none) {a : Char}
    (ha : W.isWord a = true) {w : List Char} (hw : ∀ b ∈ w, W.isWord b = true) (l : List Char) :
    substitute find replace (some a) (w ++ l) =
      w ++ substitute find replace (lastOf (some a) w) l := by
  refine substitute_skip ?_
  rintro x c y rfl
  rcases List.eq_nil_or_concat x with rfl | ⟨x, b, rfl⟩
  · exact hfind a _ ha
  · rw [List.concat_eq_append, lastOf_append, lastOf_cons, lastOf_nil]
    refine hfind b _ (hw b ?_)
    rw [List.concat_eq_append]
    exact List.mem_append_left _ (List.mem_append_right _ List.mem_cons_self)

theorem isWord_redacted : ∀ a ∈ 'R' :: "EDACTED".toList, W.isWord a = true := by
  have hupper : ('R' :: "EDACTED".toList).all (fun a => 'A' ≤ a ∧ a ≤ 'Z') = true := by decide
  exact fun a ha => isWord_upper (of_decide_eq_true (List.all_eq_true.mp hupper a ha))

theorem isQuote_redacted : ∀ a ∈ redacted, isQuote a = false := by
  have hnone : redacted.all (fun a => !isQuote a) = true := by decide
  exact fun a ha => Bool.not_eq_true' _ ▸ List.all_eq_true.mp hnone a ha

theorem redacted_eq : redacted = '[' :: 'R' :: ("EDACTED".toList ++ [']']) := by decide

/-- A search that finds nothing at a bracket, at its letter and behind letters leaves what is put
in for a value. -/
theorem substitute_redacted {find : Finder Char} {replace : List Char → List Char}
    (hfind : ∀ a l, W.isWord a = true → find (some a) l = none)
    (hstop : ∀ before a l, W.isWord a = false → find before (a :: l) = none)
    (hletter : ∀ before l, find before ('R' :: l) = none) (before : Option Char) (l : List Char) :
    substitute find replace before (redacted ++ l) =
      redacted ++ substitute find replace (some ']') l := by
  have hopen : W.isWord '[' = false := W.ascii _ (by decide)
  have hclose : W.isWord ']' = false := W.ascii _ (by decide)
  have hword : ∀ a ∈ "EDACTED".toList, W.isWord a = true :=
    fun a ha => isWord_redacted a (List.mem_cons_of_mem _ ha)
  rw [redacted_eq, List.cons_append, List.cons_append, List.append_assoc,
    substitute_none (hstop before '[' _ hopen), substitute_none (hletter _ _),
    substitute_word hfind (isWord_redacted 'R' List.mem_cons_self) hword, List.singleton_append,
    substitute_none (hstop _ ']' l hclose), List.cons_append, List.cons_append, List.append_assoc,
    List.singleton_append]

theorem secrets_redacted (before : Option Char) (l : List Char) :
    redactSecrets W before (redacted ++ l) = redacted ++ redactSecrets W (some ']') l :=
  substitute_redacted (fun _ l ha => findSecret_behind_word ha l)
    (fun before _ l ha => findSecret_at_stop ha before l)
    (fun before l => findSecret_at (fun h => absurd h.2 (by decide)) before l) before l

theorem bearers_redacted (before : Option Char) (l : List Char) :
    redactBearers W before (redacted ++ l) = redacted ++ redactBearers W (some ']') l :=
  substitute_redacted (fun _ l ha => findBearer_behind_word ha l)
    (fun before _ l ha => findBearer_at (.inl ha) before l)
    (fun before l => findBearer_at (.inr (by decide)) before l) before l

/-! ## `bearer` and quotes -/

theorem stopsAt_quote (hq : isQuote q = true) : StopsAt (findBearer W) q := by
  refine (labelled_bearer W).stopsAt ?_ ?_
  · intro label hlabel hin
    obtain ⟨word, space, rfl, hword, -, -, hspace, -⟩ := bearerLabel_parts hlabel W
    obtain hin | hin := List.mem_append.mp hin
    · have := hword q hin
      rw [isWord_quote hq] at this
      cases this
    · have := isSpace_of_endsSecret (endsSecret_quote hq)
      rw [hspace q hin] at this
      cases this
  · refine matchRest_plus_append ?_
    rw [endsBearer, hq, Bool.or_true, Bool.not_true]

theorem bearers_quote (hq : isQuote q = true) (before : Option Char) (l v : List Char) :
    redactBearers W before (l ++ q :: v) =
      redactBearers W before l ++ q :: redactBearers W (some q) v :=
  substitute_stops (stopsAt_quote hq) l v

theorem bearerLabel_ne_nil (hlabel : IsBearerLabel label) (W : WordClass) : label ≠ [] := by
  obtain ⟨word, space, rfl, -, -, ⟨a, t, rfl, -⟩, -⟩ := bearerLabel_parts hlabel W
  exact List.cons_ne_nil _ _

theorem bearers_head (before : Option Char) (l : List Char) :
    (redactBearers W before l).head? = l.head? :=
  (labelled_bearer W).head? (fun _ h => bearerLabel_ne_nil h W) before l

theorem mem_bearers_quote (hq : isQuote q = true) (before : Option Char) :
    q ∈ redactBearers W before l ↔ q ∈ l := by
  constructor
  · intro hin
    by_contra hl
    have hsubst : Substituted (findBearer W) (fun _ => redacted) before l _ :=
      substituted_substitute (labelled_bearer W).sound before l
    refine hsubst.forall_mem (p := fun a => a ≠ q) (fun _ a ha => ?_) (fun a ha => ?_) q hin rfl
    · rintro rfl
      rw [isQuote_redacted a ha] at hq
      cases hq
    · rintro rfl
      exact hl ha
  · intro hin
    obtain ⟨x, y, rfl⟩ := List.append_of_mem hin
    rw [bearers_quote hq]
    exact List.mem_append_right _ List.mem_cons_self

/-! ## Values of secrets -/

/-- A value that does not keep quotes: it begins with none, or goes on behind one that does not
come again. -/
def IsBare (v : List Char) : Prop :=
  ∃ a t, v = a :: t ∧ endsSecret a = false ∧
    (isQuote a = true → a ∉ t ∧ ∃ b u, t = b :: u ∧ endsSecret b = false)

theorem quoted_some (h : (quoted q).matchRest v = some rest) :
    ∃ inner, v = q :: (inner ++ q :: rest) ∧ q ∉ inner := by
  obtain ⟨_, rfl, _, _, rfl, ⟨a, rfl, ha⟩, inner, _, rfl, hinner, _, _, rfl, ⟨b, rfl, hb⟩, rfl⟩ :=
    matchRest_some h
  obtain rfl := eq_of_beq ha
  obtain rfl := eq_of_beq hb
  refine ⟨inner, by simp, ?_⟩
  exact fun hin => absurd (hinner b hin) (by simp)

theorem quoted_matchRest (hinner : q ∉ inner) (rest : List Char) :
    (quoted q).matchRest (q :: (inner ++ q :: rest)) = some rest := by
  have hsome : ((quoted q).matchRest (q :: (inner ++ q :: rest))).isSome := by
    refine matchRest_isSome.mpr ⟨q :: (inner ++ [q]), ⟨rest, by simp⟩, [q], inner ++ [q], rfl,
      ⟨q, rfl, beq_self_eq_true q⟩, inner, [q], rfl, ?_, [q], [], rfl,
      ⟨q, rfl, beq_self_eq_true q⟩, rfl⟩
    exact fun a ha => bne_iff_ne.mpr fun heq => hinner (heq ▸ ha)
  obtain ⟨rest', hrest⟩ := Option.isSome_iff_exists.mp hsome
  obtain ⟨inner', heq, hinner'⟩ := quoted_some hrest
  obtain ⟨-, heq⟩ := List.cons_eq_cons.mp heq
  have hstop : ∀ {rest : List Char} (a : Char), (q :: rest).head? = some a → ¬ (a != q) = true := by
    intro rest a ha
    obtain rfl : q = a := Option.some.inj ha
    rw [bne_self_eq_false]
    exact nofun
  have hnot : ∀ {inner : List Char}, q ∉ inner → ∀ a ∈ inner, (a != q) = true :=
    fun h a ha => bne_iff_ne.mpr fun heq => h (heq ▸ ha)
  obtain ⟨-, htail⟩ := @run_unique _ (· != q) _ _ _ _ heq (hnot hinner) (hnot hinner') hstop hstop
  rw [hrest, (List.cons_eq_cons.mp htail).2]

theorem quoted_none (h : q ∉ v) (a : Char) : (quoted q).matchRest (a :: v) = none := by
  refine Option.eq_none_iff_forall_ne_some.mpr ?_
  intro rest hrest
  obtain ⟨inner, heq, -⟩ := quoted_some hrest
  obtain ⟨-, rfl⟩ := List.cons_eq_cons.mp heq
  exact h (List.mem_append_right _ List.mem_cons_self)

theorem quoted_none_head {a : Char} (h : a ≠ q) (v : List Char) :
    (quoted q).matchRest (a :: v) = none := by
  refine Option.eq_none_iff_forall_ne_some.mpr ?_
  intro rest hrest
  obtain ⟨inner, heq, -⟩ := quoted_some hrest
  exact h (List.cons_eq_cons.mp heq).1

/-- A value in one of the quotes is tried before a bare one. -/
theorem secretValue_eq (v : List Char) : secretValue.matchRest v =
    ((quoted '"').matchRest v).or (((quoted '\'').matchRest v).or
      ((plus fun c => !endsSecret c).matchRest v)) := by
  have hlast : (one fun _ : Char => false).matchRest v = none := by
    cases v <;> rfl
  show Option.or _ (Option.or _ (Option.or _ ((one fun _ => false).matchRest v))) = _
  rw [hlast, Option.or_none]
  rfl

theorem secretValue_quoted (hq : isQuote q = true) (hinner : q ∉ inner) (rest : List Char) :
    secretValue.matchRest (q :: (inner ++ q :: rest)) = some rest := by
  rw [secretValue_eq]
  rw [isQuote, Bool.or_eq_true, beq_iff_eq, beq_iff_eq] at hq
  obtain rfl | rfl := hq
  · rw [quoted_matchRest hinner, Option.some_or]
  · rw [quoted_none_head (by decide), quoted_matchRest hinner, Option.none_or, Option.some_or]

/-- A quote that does not come again does not make a value a quoted one. -/
theorem secretValue_open {a : Char} {t : List Char} (ha : endsSecret a = false)
    (ht : isQuote a = true → a ∉ t) :
    secretValue.matchRest (a :: t) = some (t.dropWhile fun c => !endsSecret c) := by
  have hnone : ∀ q, isQuote q = true → (quoted q).matchRest (a :: t) = none := by
    intro q hq
    by_cases haq : a = q
    · exact quoted_none (haq ▸ ht (haq ▸ hq)) a
    · exact quoted_none_head haq t
  have hbare : (!endsSecret a) = true := by rw [ha, Bool.not_false]
  rw [secretValue_eq, hnone '"' rfl, hnone '\'' rfl, Option.none_or, Option.none_or,
    matchRest_plus, List.head?_cons, Option.any_some, if_pos hbare]
  exact congrArg some (List.dropWhile_cons_of_pos hbare)

/-- A value is one in quotes, a lone quote, or bare. -/
theorem secretValue_cases (h : secretValue.matchRest v = some rest) :
    (∃ q inner, isQuote q = true ∧ q ∉ inner ∧ v = q :: (inner ++ q :: rest)) ∨
      (∃ q, isQuote q = true ∧ q ∉ rest ∧ v = q :: rest ∧
        ∀ b, rest.head? = some b → endsSecret b = true) ∨ IsBare v := by
  obtain ⟨a, t, rfl, ha⟩ := secretValue_some h
  by_cases hin : isQuote a = true ∧ a ∈ t ++ rest
  · obtain ⟨hq, hin⟩ := hin
    obtain ⟨inner, rest', heq, hinner⟩ := List.eq_append_cons_of_mem hin
    rw [heq, secretValue_quoted hq hinner] at h
    cases h
    exact .inl ⟨a, inner, hq, hinner, congrArg (a :: ·) heq⟩
  · rw [not_and] at hin
    rw [secretValue_open ha hin] at h
    by_cases hlone : isQuote a = true ∧ ∀ b, (t ++ rest).head? = some b → endsSecret b = true
    · obtain ⟨hq, hends⟩ := hlone
      refine .inr (.inl ?_)
      have hrest : t ++ rest = rest := by
        refine Eq.trans ?_ (Option.some.inj h)
        cases htail : t ++ rest with
        | nil => rfl
        | cons b u =>
          have hb := hends b (by rw [htail]; rfl)
          rw [List.dropWhile_cons_of_neg (by rw [hb]; exact nofun)]
      rw [hrest] at hin hends ⊢
      exact ⟨a, hq, hin hq, rfl, hends⟩
    · refine .inr (.inr ⟨a, t ++ rest, rfl, ha, fun hq => ⟨hin hq, ?_⟩⟩)
      rw [not_and, not_forall] at hlone
      obtain ⟨b, hb⟩ := hlone hq
      rw [Classical.not_imp, Bool.not_eq_true] at hb
      obtain ⟨u, hu⟩ := List.head?_eq_some_iff.mp hb.1
      exact ⟨b, u, hu, hb.2⟩

/-- A bare value is replaced by the text alone. -/
theorem secretValue_bare (h : IsBare v) : ∃ taken rest, v = taken ++ rest ∧ taken ≠ [] ∧
    secretValue.matchRest v = some rest ∧ keepsQuotes taken = false := by
  obtain ⟨a, t, rfl, ha, hquote⟩ := h
  have hval := secretValue_open ha fun hq => (hquote hq).1
  refine ⟨a :: t.takeWhile fun c => !endsSecret c, _, ?_, List.cons_ne_nil _ _, hval, ?_⟩
  · rw [List.cons_append, List.takeWhile_append_dropWhile]
  · rw [keepsQuotes, List.head?_cons, Option.any_some, Bool.and_eq_false_iff]
    cases hq : isQuote a with
    | false => exact .inl rfl
    | true =>
      -- what follows the quote is not empty, and has no other one
      obtain ⟨hnot, b, u, rfl, hb⟩ := hquote hq
      have hbare : (!endsSecret b) = true := by rw [hb, Bool.not_false]
      refine .inr (beq_eq_false_iff_ne.mpr ?_)
      have htake : (b :: u).takeWhile (fun c => !endsSecret c) =
          b :: u.takeWhile fun c => !endsSecret c := List.takeWhile_cons_of_pos hbare
      intro hlast
      rw [htake, List.getLast?_cons_cons, ← htake] at hlast
      exact hnot ((List.takeWhile_prefix _).subset (List.mem_of_getLast? hlast))

/-! ## Substituting brings about no label in front of it -/

theorem isAssign_ne_bracket (h : isAssign c = true) : c ≠ '[' := by
  rintro rfl
  cases h

theorem secretLabel_marked (h : IsSecretLabel label) (W : WordClass) :
    label ≠ [] ∧ '[' ∉ label ∧ ∀ b, label.getLast? = some b → ¬ isQuote b = true := by
  obtain ⟨key, gap, rfl, hkey, hgap⟩ := h
  obtain ⟨a, t, hkeyeq, -⟩ := key_head (W := W) hkey
  obtain ⟨lead, d, tail, rfl, hlead, hd, htail⟩ := separator_parts hgap
  refine ⟨by rw [hkeyeq]; exact List.cons_ne_nil _ _, ?_, ?_⟩
  · intro hin
    obtain hin | hin := List.mem_append.mp hin
    · have hpart : KeyPart W '[' := within_secretKey key hkey _ hin
      rw [KeyPart, W.ascii '[' (by decide)] at hpart
      cases hpart
    · obtain hin | hin := List.mem_append.mp hin
      · exact absurd (hlead _ hin) (by decide)
      · obtain hin | hin := List.mem_cons.mp hin
        · exact isAssign_ne_bracket hd hin.symm
        · exact absurd (htail _ hin) (by decide)
  · intro b hb hq
    have hin : b ∈ d :: tail := by
      rw [List.getLast?_append, List.getLast?_append] at hb
      rw [List.getLast?_cons, Option.some_or, Option.some_or, ← List.getLast?_cons] at hb
      exact List.mem_of_getLast? hb
    obtain rfl | hin := List.mem_cons.mp hin
    · rw [isQuote, Bool.or_eq_true, beq_iff_eq, beq_iff_eq] at hq
      obtain rfl | rfl := hq <;> cases hd
    · have hspace := isSpace_of_endsSecret (endsSecret_quote hq)
      rw [htail b hin] at hspace
      cases hspace

theorem mem_bearerLabel (h : IsBearerLabel label) (W : WordClass) {a : Char} (ha : a ∈ label) :
    W.isWord a = true ∨ isSpace a = true := by
  obtain ⟨word, space, rfl, hword, -, -, hspace, -⟩ := bearerLabel_parts h W
  exact (List.mem_append.mp ha).imp (hword a) (hspace a)

theorem bearerLabel_marked (h : IsBearerLabel label) (W : WordClass) :
    label ≠ [] ∧ '[' ∉ label ∧ ∀ b, label.getLast? = some b → ¬ isQuote b = true := by
  refine ⟨bearerLabel_ne_nil h W, ?_, ?_⟩
  · intro hin
    obtain hword | hspace := mem_bearerLabel h W hin
    · rw [W.ascii '[' (by decide)] at hword
      cases hword
    · cases hspace
  · intro b hb hq
    obtain hword | hspace := mem_bearerLabel h W (List.mem_of_getLast? hb)
    · rw [isWord_quote hq] at hword
      cases hword
    · rw [isSpace_of_endsSecret (endsSecret_quote hq)] at hspace
      cases hspace

theorem marks_bearer : Marks (fun _ => redacted) '[' (isQuote · = true) :=
  fun _ _ => .inl ⟨_, redacted_eq⟩

theorem marks_secret : Marks replaceSecret '[' (isQuote · = true) := by
  intro taken hne
  obtain ⟨a, t, rfl⟩ := List.exists_cons_of_ne_nil hne
  rw [replaceSecret]
  split
  next hkeeps =>
    rw [keepsQuotes, List.head?_cons, Option.any_some, Bool.and_eq_true] at hkeeps
    exact .inr ⟨a, _, t, hkeeps.1, rfl, rfl⟩
  next => exact .inl ⟨_, redacted_eq⟩

theorem secretValue_head (a : Char) (t t' : List Char)
    (h : (secretValue.matchRest (a :: t)).isSome) : (secretValue.matchRest (a :: t')).isSome := by
  obtain ⟨b, u, heq, hb⟩ := secretValue_isSome.mp h
  obtain ⟨rfl, -⟩ := List.cons_eq_cons.mp heq
  exact secretValue_isSome.mpr ⟨a, t', rfl, hb⟩

theorem bearerValue_head (a : Char) (t t' : List Char)
    (h : (bearerValue.matchRest (a :: t)).isSome) : (bearerValue.matchRest (a :: t')).isSome := by
  obtain ⟨b, u, heq, hb⟩ := bearerValue_isSome.mp h
  obtain ⟨rfl, -⟩ := List.cons_eq_cons.mp heq
  exact bearerValue_isSome.mpr ⟨a, t', rfl, hb⟩

theorem secretValue_of_bearerValue (h : (bearerValue.matchRest v).isSome) :
    (secretValue.matchRest v).isSome := by
  obtain ⟨a, t, rfl, ha⟩ := bearerValue_isSome.mp h
  exact secretValue_isSome.mpr ⟨a, t, rfl, (Bool.or_eq_false_iff.mp ha).1⟩

/-- A label of a secret has a `:` or `=`, and a `bearer` none. -/
theorem bearerLabel_not_secret {u : List Char} (h : IsBearerLabel (u ++ label))
    (h' : IsSecretLabel label) (W : WordClass) : False := by
  obtain ⟨key, gap, rfl, -, hgap⟩ := h'
  obtain ⟨lead, d, tail, rfl, -, hd, -⟩ := separator_parts hgap
  have hin : d ∈ u ++ (key ++ (lead ++ d :: tail)) := by simp
  obtain hword | hspace := mem_bearerLabel h W hin
  · rw [isWord_assign hd] at hword
    cases hword
  · rw [isAssign, Bool.or_eq_true, beq_iff_eq, beq_iff_eq] at hd
    obtain rfl | rfl := hd <;> cases hspace

theorem findSecret_none_bearers (h : findSecret W before (c :: l) = none) :
    findSecret W before (c :: redactBearers W (some c) l) = none :=
  (labelled_secret W).find_none_of_substitute (labelled_bearer W) marks_bearer
    (fun _ h => secretLabel_marked h W) secretValue_head
    (fun _ _ _ _ _ _ h => secretValue_of_bearerValue h) h

theorem findSecret_none_secrets (h : findSecret W before (c :: l) = none) :
    findSecret W before (c :: redactSecrets W (some c) l) = none :=
  (labelled_secret W).find_none_of_substitute (labelled_secret W) marks_secret
    (fun _ h => secretLabel_marked h W) secretValue_head (fun _ _ _ _ _ _ h => h) h

theorem findBearer_none_bearers (h : findBearer W before (c :: l) = none) :
    findBearer W before (c :: redactBearers W (some c) l) = none :=
  (labelled_bearer W).find_none_of_substitute (labelled_bearer W) marks_bearer
    (fun _ h => bearerLabel_marked h W) bearerValue_head (fun _ _ _ _ _ _ h => h) h

theorem findBearer_none_secrets (h : findBearer W before (c :: l) = none) :
    findBearer W before (c :: redactSecrets W (some c) l) = none :=
  (labelled_bearer W).find_none_of_substitute (labelled_secret W) marks_secret
    (fun _ h => bearerLabel_marked h W) bearerValue_head
    (fun _ _ _ _ h h' _ => (bearerLabel_not_secret h h' W).elim) h

/-! ## One redaction, piece by piece -/

theorem secrets_hit (hopens : OpensLabel W before) (hlabel : IsSecretLabel label) (hne : taken ≠ [])
    (hv : secretValue.matchRest (taken ++ rest) = some rest) :
    redactSecrets W before (label ++ (taken ++ rest)) =
      label ++ (replaceSecret taken ++ redactSecrets W (lastOf before (label ++ taken)) rest) :=
  (labelled_secret W).hit hopens hlabel hne hv

theorem bearers_hit (hopens : OpensLabel W before) (hlabel : IsBearerLabel label) (hne : taken ≠ [])
    (hv : bearerValue.matchRest (taken ++ rest) = some rest) :
    redactBearers W before (label ++ (taken ++ rest)) =
      label ++ (redacted ++ redactBearers W (lastOf before (label ++ taken)) rest) :=
  (labelled_bearer W).hit hopens hlabel hne hv

/-- A symbol where nothing is found stays. -/
theorem redactFrom_none (hsecret : findSecret W before (c :: l) = none)
    (hbearer : findBearer W before (c :: l) = none) :
    redactFrom W before (c :: l) = c :: redactFrom W (some c) l := by
  have hbearers : redactBearers W before (c :: l) = c :: redactBearers W (some c) l :=
    substitute_none hbearer
  rw [redactFrom, hbearers]
  exact substitute_none (findSecret_none_bearers hsecret)

/-- Nothing is found there the next time either. -/
theorem redactFrom_none_again (hsecret : findSecret W before (c :: l) = none)
    (hbearer : findBearer W before (c :: l) = none) :
    redactFrom W before (c :: redactFrom W (some c) l) =
      c :: redactFrom W (some c) (redactFrom W (some c) l) :=
  redactFrom_none (findSecret_none_secrets (findSecret_none_bearers hsecret))
    (findBearer_none_secrets (findBearer_none_bearers hbearer))

theorem bearers_open (hq : isQuote q = true) (before : Option Char) (v : List Char) :
    redactBearers W before (q :: v) = q :: redactBearers W (some q) v :=
  bearers_quote hq before [] v

theorem keepsQuotes_wrapped (hq : isQuote q = true) (inner : List Char) :
    keepsQuotes (q :: (inner ++ [q])) = true := by
  rw [keepsQuotes, List.head?_cons, Option.any_some, hq, Bool.true_and, beq_iff_eq,
    ← List.cons_append, List.getLast?_append, List.getLast?_singleton, Option.some_or]

theorem keepsQuotes_single (hq : isQuote q = true) : keepsQuotes [q] = true := by
  rw [keepsQuotes, List.head?_cons, Option.any_some, hq, List.getLast?_singleton,
    beq_self_eq_true, Bool.and_true]

/-- A value in quotes is replaced in its quotes. -/
theorem secrets_quoted (hopens : OpensLabel W before) (hlabel : IsSecretLabel label)
    (hq : isQuote q = true) (hinner : q ∉ inner) (rest : List Char) :
    redactSecrets W before (label ++ q :: (inner ++ q :: rest)) =
      label ++ q :: (redacted ++ q :: redactSecrets W (some q) rest) := by
  have htaken : q :: (inner ++ q :: rest) = q :: (inner ++ [q]) ++ rest := by simp
  have hv := secretValue_quoted hq hinner rest
  rw [htaken] at hv ⊢
  rw [secrets_hit hopens hlabel (List.cons_ne_nil _ _) hv, replaceSecret,
    if_pos (keepsQuotes_wrapped hq inner), lastOf_append, ← List.cons_append, lastOf_append,
    lastOf_cons, lastOf_nil]
  simp

theorem redactFrom_quoted (hopens : OpensLabel W before) (hlabel : IsSecretLabel label)
    (hq : isQuote q = true) (hinner : q ∉ inner) (rest : List Char) :
    redactFrom W before (label ++ q :: (inner ++ q :: rest)) =
      label ++ q :: (redacted ++ q :: redactFrom W (some q) rest) := by
  have hnot : q ∉ redactBearers W (some q) inner := mt (mem_bearers_quote hq _).mp hinner
  rw [redactFrom, bearers_skip_secret hlabel, bearers_open hq, bearers_quote hq,
    secrets_quoted hopens hlabel hq hnot]
  rfl

/-- A value that has been replaced is replaced by itself. -/
theorem redactFrom_quoted_again (hopens : OpensLabel W before) (hlabel : IsSecretLabel label)
    (hq : isQuote q = true) (rest : List Char) :
    redactFrom W before (label ++ q :: (redacted ++ q :: rest)) =
      label ++ q :: (redacted ++ q :: redactFrom W (some q) rest) := by
  refine redactFrom_quoted hopens hlabel hq ?_ rest
  intro hin
  rw [isQuote_redacted q hin] at hq
  cases hq

/-- A lone quote is replaced like a value in quotes. -/
theorem redactFrom_lone (hopens : OpensLabel W before) (hlabel : IsSecretLabel label)
    (hq : isQuote q = true) (hrest : q ∉ rest)
    (hends : ∀ b, rest.head? = some b → endsSecret b = true) :
    redactFrom W before (label ++ q :: rest) =
      label ++ q :: (redacted ++ q :: redactFrom W (some q) rest) := by
  have hnot : q ∉ redactBearers W (some q) rest := mt (mem_bearers_quote hq _).mp hrest
  have hhead := bearers_head (W := W) (some q) rest
  rw [redactFrom, bearers_skip_secret hlabel, bearers_open hq]
  have hunfold : redactFrom W (some q) rest =
      redactSecrets W (some q) (redactBearers W (some q) rest) := rfl
  rw [hunfold]
  generalize redactBearers W (some q) rest = out at hnot hhead ⊢
  have hdrop : out.dropWhile (fun c => !endsSecret c) = out := by
    cases out with
    | nil => rfl
    | cons b u =>
      have hb := hends b hhead.symm
      exact List.dropWhile_cons_of_neg (by rw [hb]; exact nofun)
  have hv : secretValue.matchRest ([q] ++ out) = some out :=
    (secretValue_open (endsSecret_quote hq) fun _ => hnot).trans (congrArg some hdrop)
  have hhit := secrets_hit hopens hlabel (List.cons_ne_nil q []) hv
  rw [replaceSecret, if_pos (keepsQuotes_single hq), lastOf_append, lastOf_cons,
    lastOf_nil] at hhit
  refine hhit.trans ?_
  simp

/-- A bare value behind a label stays bare. -/
theorem isBare_bearers (h : IsBare v) (before : Option Char) :
    IsBare (redactBearers W before v) := by
  obtain ⟨a, t, rfl, ha, hquote⟩ := h
  cases hq : isQuote a with
  | true =>
    obtain ⟨hnot, b, u, rfl, hb⟩ := hquote hq
    rw [bearers_open hq]
    refine ⟨a, _, rfl, ha, fun _ => ⟨mt (mem_bearers_quote hq _).mp hnot, ?_⟩⟩
    have hhead := bearers_head (W := W) (some a) (b :: u)
    obtain ⟨u', hu⟩ := List.head?_eq_some_iff.mp hhead
    exact ⟨b, u', hu, hb⟩
  | false =>
    have hhead := bearers_head (W := W) before (a :: t)
    obtain ⟨u, hu⟩ := List.head?_eq_some_iff.mp hhead
    rw [hu]
    exact ⟨a, u, rfl, ha, fun h => by rw [hq] at h; cases h⟩

/-- A bare value is replaced by the text alone. -/
theorem redactFrom_bare (hopens : OpensLabel W before) (hlabel : IsSecretLabel label)
    (hv : IsBare v) : ∃ out, redactFrom W before (label ++ v) = label ++ (redacted ++ out) := by
  obtain ⟨taken, rest, heq, hne, hvalue, hkeeps⟩ :=
    secretValue_bare (isBare_bearers (W := W) hv (lastOf before label))
  rw [redactFrom, bearers_skip_secret hlabel, heq]
  rw [heq] at hvalue
  rw [secrets_hit hopens hlabel hne hvalue, replaceSecret, if_neg (by rw [hkeeps]; exact nofun)]
  exact ⟨_, rfl⟩

/-- What was put in, up to the bracket that ends a bare value. -/
theorem redacted_append (rest : List Char) :
    redacted ++ rest = '[' :: "REDACTED".toList ++ ']' :: rest := by
  have heq : redacted = '[' :: "REDACTED".toList ++ [']'] := by decide
  rw [heq, List.append_assoc, List.singleton_append]

/-- A run of symbols that goes up to the bracket. -/
theorem matchRest_redacted {p : Char → Bool} (hp : ('[' :: "REDACTED".toList).all p = true)
    (hclose : p ']' = false) (rest : List Char) :
    (plus p).matchRest ('[' :: "REDACTED".toList ++ ']' :: rest) = some (']' :: rest) := by
  have hall := List.all_eq_true.mp hp
  rw [matchRest_plus_append hclose, matchRest_plus, List.head?_cons, Option.any_some,
    if_pos (hall _ List.mem_cons_self), Option.map_some, List.dropWhile_eq_nil_iff.mpr hall,
    List.nil_append]

theorem secrets_close (before : Option Char) (l : List Char) :
    redactSecrets W before (']' :: l) = ']' :: redactSecrets W (some ']') l :=
  substitute_none (findSecret_at_stop (W.ascii _ (by decide)) before l)

theorem bearers_close (before : Option Char) (l : List Char) :
    redactBearers W before (']' :: l) = ']' :: redactBearers W (some ']') l :=
  substitute_none (findBearer_at (.inl (W.ascii _ (by decide))) before l)

theorem redactFrom_close (before : Option Char) (l : List Char) :
    redactFrom W before (']' :: l) = ']' :: redactFrom W (some ']') l := by
  rw [redactFrom, bearers_close, secrets_close]
  rfl

/-- What was put in for a bare value is read as a bare value without its last symbol. -/
theorem redactFrom_bare_again (hopens : OpensLabel W before) (hlabel : IsSecretLabel label)
    (rest : List Char) : redactFrom W before (label ++ (redacted ++ rest)) =
      label ++ (redacted ++ ']' :: redactFrom W (some ']') rest) := by
  have hvalue : ∀ rest, secretValue.matchRest ('[' :: "REDACTED".toList ++ ']' :: rest) =
      some (']' :: rest) := by
    intro rest
    rw [secretValue_eq, List.cons_append, quoted_none_head (by decide),
      quoted_none_head (by decide), Option.none_or, Option.none_or, ← List.cons_append]
    exact matchRest_redacted (by decide) (by decide) rest
  have hkeeps : keepsQuotes ('[' :: "REDACTED".toList) = false := by decide
  rw [redactFrom, bearers_skip_secret hlabel, bearers_redacted, redacted_append,
    secrets_hit hopens hlabel (List.cons_ne_nil _ _) (hvalue _), replaceSecret, hkeeps,
    secrets_close]
  rfl

/-- What stands behind `bearer` is replaced. -/
theorem redactFrom_bearer (hopens : OpensLabel W before) (hlabel : IsBearerLabel label)
    (hv : (bearerValue.matchRest v).isSome) :
    ∃ out, redactFrom W before (label ++ v) = label ++ (redacted ++ out) := by
  obtain ⟨rest, hrest⟩ := Option.isSome_iff_exists.mp hv
  obtain ⟨taken, rfl, hne⟩ := (labelled_bearer W).value_some _ _ hrest
  rw [redactFrom, bearers_hit hopens hlabel hne hrest, secrets_skip_bearer hlabel,
    secrets_redacted]
  exact ⟨_, rfl⟩

theorem redactFrom_bearer_again (hopens : OpensLabel W before) (hlabel : IsBearerLabel label)
    (rest : List Char) : redactFrom W before (label ++ (redacted ++ rest)) =
      label ++ (redacted ++ ']' :: redactFrom W (some ']') rest) := by
  have hvalue : ∀ rest, bearerValue.matchRest ('[' :: "REDACTED".toList ++ ']' :: rest) =
      some (']' :: rest) := matchRest_redacted (by decide) (by decide)
  rw [redactFrom, redacted_append, bearers_hit hopens hlabel (List.cons_ne_nil _ _) (hvalue rest),
    bearers_close, secrets_skip_bearer hlabel, secrets_redacted, secrets_close]
  rfl

end CameraLogs.Common

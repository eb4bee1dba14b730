import CameraLogs.Common.Redaction

/-!
# What the patterns of the redaction find

A place where `findSecret` finds something is a label, a name of a secret with what may stand between
it and a value, and a value behind it (`labelled_secret`); for `findBearer` it is `bearer` with
white space (`labelled_bearer`). There is one way only to read a label at the front of a text.

No label of one of the two begins inside a label of the other one, and none begins inside of what is
put in for a value.
-/

namespace CameraLogs.Common

open Lib Lib.Pattern
open Logs (isSpace)

variable {W : WordClass} {before : Option Char} {c q : Char} {l v v' rest key gap label label' : List Char}

/-- What may stand before a label. -/
def OpensLabel (W : WordClass) (before : Option Char) : Prop := before.any W.isWord = false

/-- The name of a secret and what is between it and the value. -/
def IsSecretLabel (label : List Char) : Prop :=
  ∃ key gap, label = key ++ gap ∧ secretKeyPattern.Fits key ∧ separator.Fits gap

def IsBearerLabel (label : List Char) : Prop := bearerLabel.Fits label

/-! ## Characters -/

theorem isWord_quote (h : isQuote c = true) : W.isWord c = false := by
  rw [isQuote, Bool.or_eq_true, beq_iff_eq, beq_iff_eq] at h
  obtain rfl | rfl := h
  · exact W.ascii _ (by decide)
  · exact W.ascii _ (by decide)

theorem isWord_assign (h : isAssign c = true) : W.isWord c = false := by
  rw [isAssign, Bool.or_eq_true, beq_iff_eq, beq_iff_eq] at h
  obtain rfl | rfl := h
  · exact W.ascii _ (by decide)
  · exact W.ascii _ (by decide)

theorem isSpace_of_isWord (h : W.isWord c = true) : isSpace c = false := by
  cases hspace : isSpace c with
  | false => rfl
  | true => rw [W.space c hspace] at h; cases h

theorem endsSecret_quote (h : isQuote c = true) : endsSecret c = false := by
  rw [isQuote, Bool.or_eq_true, beq_iff_eq, beq_iff_eq] at h
  obtain rfl | rfl := h <;> decide

theorem isSpace_of_endsSecret (h : endsSecret c = false) : isSpace c = false := by
  rw [endsSecret, Bool.or_eq_false_iff, Bool.or_eq_false_iff, Bool.or_eq_false_iff] at h
  exact h.1.1.1

/-! ## The parts of a label -/

/-- Between a name and its value there are quotes and white space, a `:` or `=`, and white space. -/
theorem separator_parts (h : separator.Fits gap) : ∃ lead d tail, gap = lead ++ d :: tail ∧
    (∀ a ∈ lead, (isQuote a || isSpace a) = true) ∧ isAssign d = true ∧
    ∀ a ∈ tail, isSpace a = true := by
  obtain ⟨q, _, rfl, hq, space, _, rfl, hspace, _, _, rfl, ⟨d, rfl, hd⟩, tail, _, rfl, htail, rfl⟩ :=
    h
  refine ⟨q ++ space, d, tail, by simp, ?_, hd, htail⟩
  refine List.forall_mem_append.mpr ⟨?_, fun a ha => by rw [hspace a ha, Bool.or_true]⟩
  obtain ⟨a, rfl, ha⟩ | rfl := hq
  · exact fun b hb => by rw [List.mem_singleton.mp hb, ha, Bool.true_or]
  · exact nofun

theorem isWord_lead {a : Char} (h : (isQuote a || isSpace a) = true) : W.isWord a = false :=
  (Bool.or_eq_true_iff.mp h).elim isWord_quote (W.space a)

theorem separator_head (h : separator.Fits gap) (v : List Char) :
    ∃ a t, gap ++ v = a :: t ∧ W.isWord a = false ∧ a ≠ '-' := by
  obtain ⟨lead, d, tail, rfl, hlead, hd, -⟩ := separator_parts h
  cases lead with
  | nil => exact ⟨d, tail ++ v, rfl, isWord_assign hd, by rintro rfl; cases hd⟩
  | cons a lead =>
    have ha := hlead a List.mem_cons_self
    exact ⟨a, _, rfl, isWord_lead ha, by rintro rfl; revert ha; decide⟩

theorem key_head (h : secretKeyPattern.Fits key) : ∃ a t, key = a :: t ∧ KeyEdge W a :=
  begins_secretKey key h

/-- The name goes up to the separator. -/
theorem gap_stops (hgap : separator.Fits gap) (v : List Char) (a : Char)
    (ha : (gap ++ v).head? = some a) : ¬ (W.isWord a || a == '-') = true := by
  obtain ⟨b, t, hb, hword, hjoint⟩ := separator_head (W := W) hgap v
  rw [hb] at ha
  obtain rfl : b = a := Option.some.inj ha
  rw [hword, Bool.false_or, beq_iff_eq]
  exact hjoint

theorem space_stops {space : List Char} (hspace : ∀ a ∈ space, isSpace a = true)
    (hne : space ≠ []) (v : List Char) (a : Char) (ha : (space ++ v).head? = some a) :
    ¬ (W.isWord a || a == '-') = true := by
  obtain ⟨s, space, rfl⟩ := List.exists_cons_of_ne_nil hne
  obtain rfl : s = a := Option.some.inj ha
  have hs := hspace s List.mem_cons_self
  rw [W.space s hs, Bool.false_or, beq_iff_eq]
  rintro rfl
  revert hs
  decide

/-- A label is read in one way. -/
theorem secretLabel_unique (h : IsSecretLabel label) (h' : IsSecretLabel label')
    (heq : label ++ v = label' ++ v') (hv : ∀ a, v.head? = some a → isSpace a = false)
    (hv' : ∀ a, v'.head? = some a → isSpace a = false) (W : WordClass) : label = label' := by
  obtain ⟨key, gap, rfl, hkey, hgap⟩ := h
  obtain ⟨key', gap', rfl, hkey', hgap'⟩ := h'
  rw [List.append_assoc, List.append_assoc] at heq
  obtain ⟨rfl, hgaps⟩ := run_unique heq (@within_secretKey W key hkey)
    (within_secretKey key' hkey') (gap_stops hgap v) (gap_stops hgap' v')
  obtain ⟨lead, d, tail, rfl, hlead, hd, htail⟩ := separator_parts hgap
  obtain ⟨lead', d', tail', rfl, hlead', hd', htail'⟩ := separator_parts hgap'
  have hassign : ∀ {d : Char} {l : List Char}, isAssign d = true → ∀ a, (d :: l).head? = some a →
      ¬ (isQuote a || isSpace a) = true := by
    intro d l hd a ha
    cases ha
    rw [isAssign, Bool.or_eq_true, beq_iff_eq, beq_iff_eq] at hd
    obtain rfl | rfl := hd <;> decide
  rw [List.append_assoc, List.append_assoc, List.cons_append, List.cons_append] at hgaps
  obtain ⟨rfl, hassigns⟩ := run_unique hgaps hlead hlead' (hassign hd) (hassign hd')
  obtain ⟨rfl, htails⟩ := List.cons_eq_cons.mp hassigns
  obtain ⟨rfl, -⟩ := run_unique htails htail htail' (fun a ha => by rw [hv a ha]; exact nofun)
    (fun a ha => by rw [hv' a ha]; exact nofun)
  rfl

/-! ## Values -/

theorem begins_secretValue : Begins (fun a => endsSecret a = false) secretValue := by
  refine begins_oneOf ?_
  simp only [List.forall_mem_cons]
  refine ⟨begins_all_cons (begins_one ?_), begins_all_cons (begins_one ?_),
    begins_plus ?_, nofun⟩
  · exact fun a ha => eq_of_beq ha ▸ by decide
  · exact fun a ha => eq_of_beq ha ▸ by decide
  · exact fun a ha => Bool.not_eq_true' _ ▸ ha

theorem secretValue_some (h : secretValue.matchRest v = some rest) :
    ∃ a t, v = a :: (t ++ rest) ∧ endsSecret a = false := by
  obtain ⟨w, rfl, hw⟩ := matchRest_some h
  obtain ⟨a, t, rfl, ha⟩ := begins_secretValue w hw
  exact ⟨a, t, rfl, ha⟩

/-- A value is there where no symbol is that ends values. -/
theorem secretValue_isSome : (secretValue.matchRest v).isSome ↔
    ∃ a t, v = a :: t ∧ endsSecret a = false := by
  constructor
  · intro h
    obtain ⟨rest, hrest⟩ := Option.isSome_iff_exists.mp h
    obtain ⟨a, t, rfl, ha⟩ := secretValue_some hrest
    exact ⟨a, t ++ rest, rfl, ha⟩
  · rintro ⟨a, t, rfl, ha⟩
    refine matchRest_isSome.mpr ⟨[a], List.prefix_append [a] t, .inr (.inr (.inl ?_))⟩
    have hbare : (!endsSecret a) = true := by rw [ha, Bool.not_false]
    exact ⟨[a], [], rfl, ⟨a, rfl, hbare⟩, nofun⟩

theorem bearerValue_isSome : (bearerValue.matchRest v).isSome ↔
    ∃ a t, v = a :: t ∧ endsBearer a = false := by
  rw [bearerValue, matchRest_plus]
  cases v with
  | nil => exact ⟨nofun, fun ⟨_, _, h, _⟩ => nomatch h⟩
  | cons a t =>
    rw [List.head?_cons, Option.any_some]
    cases ha : endsBearer a with
    | true =>
      refine ⟨nofun, ?_⟩
      rintro ⟨b, _, heq, hb⟩
      obtain ⟨rfl, -⟩ := List.cons_eq_cons.mp heq
      rw [ha] at hb
      cases hb
    | false => exact ⟨fun _ => ⟨a, t, rfl, ha⟩, fun _ => rfl⟩

theorem bearerValue_some (h : bearerValue.matchRest v = some rest) :
    ∃ a t, v = a :: (t ++ rest) ∧ endsBearer a = false := by
  obtain ⟨w, rfl, hw⟩ := matchRest_some h
  obtain ⟨a, t, rfl, ha⟩ := begins_plus (fun a ha => Bool.not_eq_true' _ ▸ ha) w hw
  exact ⟨a, t, rfl, ha⟩

/-! ## What is found -/

theorem lastOf_key (hkey : secretKeyPattern.Fits key) (W : WordClass) :
    (lastOf before key).any W.isWord = true := by
  obtain ⟨t, a, rfl, ha⟩ := @ends_secretKey W key hkey
  rw [lastOf_append, lastOf_cons, lastOf_nil, Option.any_some]
  exact ha.1

theorem take_front (x y : List Char) : (x ++ y).take ((x ++ y).length - y.length) = x := by
  rw [List.length_append, Nat.add_sub_cancel, List.take_left]

theorem findSecret_some {found : List Char × List Char} (h : findSecret W before l = some found) :
    OpensLabel W before ∧ (∃ label, l = label ++ found.1 ∧ IsSecretLabel label) ∧
      secretValue.matchRest found.1 = some found.2 := by
  rw [findSecret] at h
  split at h
  next hopens =>
    obtain ⟨key, gap, rfl, hkey, hgap⟩ := run_some h
    split at hgap
    next hmiddle =>
      obtain ⟨sep, value, rfl, hsep, hvalue⟩ := run_some hgap
      obtain ⟨rest, hrest, rfl⟩ := Option.map_eq_some_iff.mp hvalue
      obtain ⟨a, t, rfl, ha⟩ := key_head (W := W) hkey
      refine ⟨?_, ⟨_, (List.append_assoc _ _ _).symm, _, _, rfl, hkey, hsep⟩, hrest⟩
      rw [isBoundary, List.cons_append, List.head?_cons, Option.any_some, ha.1, bne_iff_ne] at hopens
      exact Bool.eq_false_iff.mpr hopens
    next => cases hgap
  next => cases h

theorem labelled_secret (W : WordClass) :
    Labelled (findSecret W) (OpensLabel W) IsSecretLabel secretValue.matchRest where
  find_iff := by
    intro before l v rest
    constructor
    · exact findSecret_some
    · rintro ⟨hopens, ⟨label, rfl, hlabel⟩, hv⟩
      have hlabel' := hlabel
      obtain ⟨key, gap, rfl, hkey, hgap⟩ := hlabel
      obtain ⟨a, t, hkeyeq, ha⟩ := key_head (W := W) hkey
      obtain ⟨b, u, hgapeq, hb, -⟩ := separator_head (W := W) hgap v
      have hsome : (findSecret W before (key ++ gap ++ v)).isSome := by
        rw [findSecret, if_pos]
        · rw [List.append_assoc]
          refine run_isSome hkey ?_
          rw [take_front, if_pos]
          · exact run_isSome hgap (by rw [hv]; rfl)
          · rw [isBoundary, lastOf_key hkey, hgapeq, List.head?_cons, Option.any_some, hb]
            rfl
        · rw [isBoundary, hkeyeq, hopens, List.cons_append, List.cons_append, List.head?_cons,
            Option.any_some, ha.1]
          rfl
      obtain ⟨⟨v', rest'⟩, hfound⟩ := Option.isSome_iff_exists.mp hsome
      obtain ⟨-, ⟨label', heq, hl'⟩, hv'⟩ := findSecret_some hfound
      have hhead : ∀ {v rest : List Char}, secretValue.matchRest v = some rest →
          ∀ a, v.head? = some a → isSpace a = false := by
        intro v rest h a hhead
        obtain ⟨b, t, rfl, hb⟩ := secretValue_some h
        cases hhead
        exact isSpace_of_endsSecret hb
      obtain rfl := secretLabel_unique hlabel' hl' heq (hhead hv) (hhead hv') W
      obtain rfl := List.append_cancel_left heq
      have hrest := hv.symm.trans hv'
      cases hrest
      exact hfound
  value_some := by
    intro v rest h
    obtain ⟨a, t, rfl, -⟩ := secretValue_some h
    exact ⟨a :: t, rfl, List.cons_ne_nil _ _⟩

/-- `bearer` in any case, and white space. -/
theorem bearerLabel_parts (h : IsBearerLabel label) (W : WordClass) : ∃ word space,
    label = word ++ space ∧ (∀ a ∈ word, W.isWord a = true) ∧
      (∃ t a, word = t ++ [a] ∧ foldChar a = 'r') ∧ (∃ a t, word = a :: t ∧ foldChar a = 'b') ∧
      (∀ a ∈ space, isSpace a = true) ∧ space ≠ [] := by
  obtain ⟨word, _, rfl, hword, space, _, rfl, hspace, rfl⟩ := h
  obtain ⟨hspaces, hne⟩ := Fits.plus hspace
  exact ⟨word, space, by rw [List.append_nil], within_spelled (by decide) word hword,
    ends_letter (by decide) word hword, begins_letter (by decide) word hword, hspaces, hne⟩

theorem bearerLabel_unique (h : IsBearerLabel label) (h' : IsBearerLabel label')
    (heq : label ++ v = label' ++ v') (hv : ∀ a, v.head? = some a → isSpace a = false)
    (hv' : ∀ a, v'.head? = some a → isSpace a = false) (W : WordClass) : label = label' := by
  obtain ⟨word, space, rfl, hword, -, -, hspace, hne⟩ := bearerLabel_parts h W
  obtain ⟨word', space', rfl, hword', -, -, hspace', hne'⟩ := bearerLabel_parts h' W
  have hnot : ∀ {word : List Char}, (∀ a ∈ word, W.isWord a = true) →
      ∀ a ∈ word, (!isSpace a) = true := by
    intro word hword a ha
    rw [isSpace_of_isWord (hword a ha), Bool.not_false]
  have hstop : ∀ {space v : List Char}, (∀ a ∈ space, isSpace a = true) → space ≠ [] →
      ∀ a, (space ++ v).head? = some a → ¬ (!isSpace a) = true := by
    intro space v hspace hne a ha
    obtain ⟨b, t, rfl⟩ := List.exists_cons_of_ne_nil hne
    obtain rfl : b = a := Option.some.inj ha
    rw [hspace b List.mem_cons_self]
    exact nofun
  rw [List.append_assoc, List.append_assoc] at heq
  obtain ⟨rfl, hspaces⟩ := run_unique heq (hnot hword) (hnot hword') (hstop hspace hne)
    (hstop hspace' hne')
  obtain ⟨rfl, -⟩ := run_unique hspaces hspace hspace' (fun a ha => by rw [hv a ha]; exact nofun)
    (fun a ha => by rw [hv' a ha]; exact nofun)
  rfl

theorem findBearer_some {found : List Char × List Char} (h : findBearer W before l = some found) :
    OpensLabel W before ∧ (∃ label, l = label ++ found.1 ∧ IsBearerLabel label) ∧
      bearerValue.matchRest found.1 = some found.2 := by
  rw [findBearer] at h
  split at h
  next hopens =>
    obtain ⟨label, value, rfl, hlabel, hvalue⟩ := run_some h
    obtain ⟨rest, hrest, rfl⟩ := Option.map_eq_some_iff.mp hvalue
    refine ⟨?_, ⟨label, rfl, hlabel⟩, hrest⟩
    obtain ⟨word, space, rfl, hword, -, ⟨a, t, rfl, -⟩, -⟩ := bearerLabel_parts hlabel W
    rw [isBoundary, List.cons_append, List.cons_append, List.head?_cons, Option.any_some,
      hword a List.mem_cons_self, bne_iff_ne] at hopens
    exact Bool.eq_false_iff.mpr hopens
  next => cases h

theorem labelled_bearer (W : WordClass) :
    Labelled (findBearer W) (OpensLabel W) IsBearerLabel bearerValue.matchRest where
  find_iff := by
    intro before l v rest
    constructor
    · exact findBearer_some
    · rintro ⟨hopens, ⟨label, rfl, hlabel⟩, hv⟩
      have hsome : (findBearer W before (label ++ v)).isSome := by
        rw [findBearer, if_pos]
        · exact run_isSome hlabel (by rw [hv]; rfl)
        · obtain ⟨word, space, rfl, hword, -, ⟨a, t, rfl, -⟩, -⟩ := bearerLabel_parts hlabel W
          rw [isBoundary, hopens, List.cons_append, List.cons_append, List.head?_cons,
            Option.any_some, hword a List.mem_cons_self]
          rfl
      obtain ⟨⟨v', rest'⟩, hfound⟩ := Option.isSome_iff_exists.mp hsome
      obtain ⟨-, ⟨label', heq, hl'⟩, hv'⟩ := findBearer_some hfound
      have hhead : ∀ {v rest : List Char}, bearerValue.matchRest v = some rest →
          ∀ a, v.head? = some a → isSpace a = false := by
        intro v rest h a hhead
        obtain ⟨b, t, rfl, hb⟩ := bearerValue_some h
        cases hhead
        exact isSpace_of_endsSecret (Bool.or_eq_false_iff.mp hb).1
      obtain rfl := bearerLabel_unique hlabel hl' heq (hhead hv) (hhead hv') W
      obtain rfl := List.append_cancel_left heq
      have hrest := hv.symm.trans hv'
      cases hrest
      exact hfound
  value_some := by
    intro v rest h
    obtain ⟨a, t, rfl, -⟩ := bearerValue_some h
    exact ⟨a :: t, rfl, List.cons_ne_nil _ _⟩

/-! ## Places where nothing is found -/

theorem findSecret_behind_word {a : Char} (ha : W.isWord a = true) (l : List Char) :
    findSecret W (some a) l = none := by
  refine Option.eq_none_iff_forall_ne_some.mpr ?_
  intro found h
  have hopens : W.isWord a = false := (findSecret_some h).1
  rw [ha] at hopens
  cases hopens

theorem findBearer_behind_word {a : Char} (ha : W.isWord a = true) (l : List Char) :
    findBearer W (some a) l = none := by
  refine Option.eq_none_iff_forall_ne_some.mpr ?_
  intro found h
  have hopens : W.isWord a = false := (findBearer_some h).1
  rw [ha] at hopens
  cases hopens

theorem findSecret_at {a : Char} (ha : ¬ KeyEdge W a) (before : Option Char) (l : List Char) :
    findSecret W before (a :: l) = none := by
  refine Option.eq_none_iff_forall_ne_some.mpr ?_
  intro found h
  obtain ⟨-, ⟨label, heq, key, gap, rfl, hkey, -⟩, -⟩ := findSecret_some h
  obtain ⟨b, t, rfl, hb⟩ := key_head (W := W) hkey
  obtain ⟨rfl, -⟩ := List.cons_eq_cons.mp heq
  exact ha hb

theorem findBearer_at {a : Char} (ha : W.isWord a = false ∨ foldChar a ≠ 'b')
    (before : Option Char) (l : List Char) : findBearer W before (a :: l) = none := by
  refine Option.eq_none_iff_forall_ne_some.mpr ?_
  intro found h
  obtain ⟨-, ⟨label, heq, hlabel⟩, -⟩ := findBearer_some h
  obtain ⟨word, space, rfl, hword, -, ⟨b, t, rfl, hb⟩, -⟩ := bearerLabel_parts hlabel W
  obtain ⟨rfl, -⟩ := List.cons_eq_cons.mp heq
  obtain ha | ha := ha
  · rw [hword a List.mem_cons_self] at ha
    cases ha
  · exact ha hb

theorem findSecret_at_stop {a : Char} (ha : W.isWord a = false) (before : Option Char)
    (l : List Char) : findSecret W before (a :: l) = none :=
  findSecret_at (fun h => by rw [h.1] at ha; cases ha) before l

/-- No name of a secret ends like `bearer`. -/
theorem key_ne (hkey : secretKeyPattern.Fits key) {t : List Char} {e : Char}
    (he : foldChar e = 'r') (W : WordClass) : key ≠ t ++ [e] := by
  intro heq
  obtain ⟨u, b, hends, hb⟩ := @ends_secretKey W key hkey
  obtain ⟨-, hlast⟩ := List.append_inj' (heq.symm.trans hends) rfl
  obtain rfl : e = b := (List.cons_eq_cons.mp hlast).1
  exact hb.2 he

theorem isWord_gap (hgap : separator.Fits gap) : ∀ a ∈ gap, W.isWord a = false := by
  obtain ⟨lead, d, tail, rfl, hlead, hd, htail⟩ := separator_parts hgap
  refine List.forall_mem_append.mpr ⟨fun a ha => isWord_lead (hlead a ha), ?_⟩
  exact List.forall_mem_cons.mpr ⟨isWord_assign hd, fun a ha => W.space a (htail a ha)⟩

end CameraLogs.Common

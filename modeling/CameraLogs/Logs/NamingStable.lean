import CameraLogs.Logs.Naming
import Mathlib.Data.List.Chain

/-!
# Names are stable

What `safeFilenameComponent` gives is a `Component`: no step of it undoes what an earlier one
established, since each of them leaves a piece of its input. A component is left as it is, so
that the filter is idempotent wherever its fallback is a component.

The name of a segment is taken apart from the right: the part number and the times have fixed
ends, and what is in front of them is a component. The name is therefore read back as it was
written (`sourceParts_segmentName`).
-/

namespace CameraLogs.Logs

open Lib

/-! ## Runs -/

section Collapse

variable {p : Char → Bool} {replacement : Char}

/-- Such characters are all the one that replaces them, and no two are side by side. -/
structure Collapsed (p : Char → Bool) (replacement : Char) (text : List Char) : Prop where
  only : ∀ c ∈ text, p c = true → c = replacement
  apart : text.IsChain fun a b => ¬ (p a = true ∧ p b = true)

theorem Collapsed.infix {text part : List Char} (h : Collapsed p replacement text)
    (hpart : part <:+: text) : Collapsed p replacement part :=
  ⟨fun c hc => h.only c (hpart.subset hc), h.apart.infix hpart⟩

theorem collapsed_of_none {text : List Char} (h : ∀ c ∈ text, p c = false) :
    Collapsed p replacement text := by
  refine ⟨fun c hc hp => absurd hp (by simp [h c hc]), ?_⟩
  induction text with
  | nil => exact .nil
  | cons c text ih =>
    refine List.isChain_cons.mpr ⟨fun d hd hboth => ?_, ih fun d hd => h d (List.mem_cons_of_mem c hd)⟩
    exact absurd hboth.1 (by simp [h c List.mem_cons_self])

theorem collapse_collapsed (hreplacement : p replacement = true) (inRun : Bool) (text : List Char) :
    Collapsed p replacement (collapse p replacement inRun text) ∧
      (inRun = true → ∀ c ∈ (collapse p replacement inRun text).head?, p c = false) := by
  induction text generalizing inRun with
  | nil => exact ⟨⟨fun c hc => absurd hc List.not_mem_nil, .nil⟩, fun _ c hc => (by cases hc)⟩
  | cons c text ih =>
    unfold collapse
    by_cases hc : p c = true
    · rw [if_pos hc]
      obtain ⟨hrest, hhead⟩ := ih true
      cases inRun with
      | true => exact ⟨hrest, hhead⟩
      | false =>
        refine ⟨⟨?_, ?_⟩, fun h => (by cases h)⟩
        · intro d hd hp
          obtain rfl | hd := List.mem_cons.mp hd
          · rfl
          · exact hrest.only d hd hp
        · refine List.isChain_cons.mpr ⟨fun d hd hboth => ?_, hrest.apart⟩
          exact absurd hboth.2 (by simp [hhead rfl d hd])
    · rw [if_neg hc]
      obtain ⟨hrest, -⟩ := ih false
      refine ⟨⟨?_, ?_⟩, fun _ d hd => ?_⟩
      · intro d hd hp
        obtain rfl | hd := List.mem_cons.mp hd
        · exact absurd hp hc
        · exact hrest.only d hd hp
      · exact List.isChain_cons.mpr ⟨fun d _ hboth => hc hboth.1, hrest.apart⟩
      · cases hd
        exact Bool.eq_false_iff.mpr hc

/-- A replacement that is not to be replaced leaves none of them. -/
theorem not_of_mem_collapse (hreplacement : p replacement = false) (inRun : Bool)
    {text : List Char} {c : Char} (h : c ∈ collapse p replacement inRun text) : p c = false := by
  induction text generalizing inRun with
  | nil => cases h
  | cons d text ih =>
    unfold collapse at h
    split at h
    next hd =>
      split at h
      next => exact ih true h
      next =>
        obtain rfl | h := List.mem_cons.mp h
        · exact hreplacement
        · exact ih true h
    next hd =>
      obtain rfl | h := List.mem_cons.mp h
      · exact Bool.eq_false_iff.mpr hd
      · exact ih false h

theorem mem_collapse (inRun : Bool) {text : List Char} {c : Char}
    (h : c ∈ collapse p replacement inRun text) : c = replacement ∨ c ∈ text := by
  induction text generalizing inRun with
  | nil => cases h
  | cons d text ih =>
    have hmore : ∀ b, c ∈ collapse p replacement b text → c = replacement ∨ c ∈ d :: text :=
      fun b hc => (ih b hc).imp_right (List.mem_cons_of_mem d)
    unfold collapse at h
    split at h
    next =>
      split at h
      next => exact hmore true h
      next =>
        obtain rfl | h := List.mem_cons.mp h
        · exact .inl rfl
        · exact hmore true h
    next =>
      obtain rfl | h := List.mem_cons.mp h
      · exact .inr List.mem_cons_self
      · exact hmore false h

theorem Collapsed.collapse_eq {text : List Char} (h : Collapsed p replacement text) (inRun : Bool)
    (hhead : inRun = true → ∀ c ∈ text.head?, p c = false) :
    collapse p replacement inRun text = text := by
  induction text generalizing inRun with
  | nil => rfl
  | cons c text ih =>
    obtain ⟨hnext, -⟩ := List.isChain_cons.mp h.apart
    have htail := h.infix (List.suffix_cons c text).isInfix
    unfold collapse
    by_cases hc : p c = true
    · cases inRun with
      | true => exact absurd hc (by simp [hhead rfl c rfl])
      | false =>
        rw [if_pos hc, if_neg Bool.false_ne_true, ih htail true fun _ d hd => ?_,
          h.only c List.mem_cons_self hc]
        exact Bool.eq_false_iff.mpr fun hd' => hnext d hd ⟨hc, hd'⟩
    · rw [if_neg hc, ih htail false fun h => (by cases h)]

end Collapse

/-! ## Ends -/

section Strip

variable {p : Char → Bool} {text : List Char}

theorem infix_strip (p : Char → Bool) (text : List Char) : strip p text <:+: text :=
  (List.rdropWhile_prefix p _).isInfix.trans (List.dropWhile_suffix p).isInfix

theorem last_strip : ∀ c ∈ (strip p text).getLast?, p c = false := by
  intro c hc
  have hne : strip p text ≠ [] := fun hnil => by
    rw [hnil] at hc
    cases hc
  rw [List.getLast?_eq_some_getLast hne] at hc
  cases hc
  exact Bool.eq_false_iff.mpr (List.rdropWhile_last_not p _ hne)

theorem head_strip : ∀ c ∈ (strip p text).head?, p c = false := by
  intro c hc
  -- what is taken off at the end leaves the first character
  have hprefix : strip p text <+: text.dropWhile p := List.rdropWhile_prefix p _
  cases hstrip : strip p text with
  | nil =>
    rw [hstrip] at hc
    cases hc
  | cons d rest =>
    rw [hstrip] at hc hprefix
    cases hc
    obtain ⟨more, hmore⟩ := hprefix
    have hhead := List.head?_dropWhile_not p text
    rw [← hmore, List.cons_append, List.head?_cons] at hhead
    simpa using hhead

theorem strip_eq (hfirst : ∀ c ∈ text.head?, p c = false)
    (hlast : ∀ c ∈ text.getLast?, p c = false) : strip p text = text := by
  have hdrop : text.dropWhile p = text := by
    cases text with
    | nil => rfl
    | cons c rest => exact List.dropWhile_cons_of_neg (by simp [hfirst c rfl])
  unfold strip
  rw [hdrop, List.rdropWhile_eq_self_iff]
  intro hne hp
  exact absurd hp (by simp [hlast _ (List.getLast?_eq_some_getLast hne)])

end Strip

/-! ## Bytes -/

/-- How many bytes a text takes. -/
def utf8Length (text : List Char) : Nat := (text.map Char.utf8Size).sum

theorem utf8Length_cons (c : Char) (text : List Char) :
    utf8Length (c :: text) = c.utf8Size + utf8Length text := rfl

theorem utf8Length_append (front back : List Char) :
    utf8Length (front ++ back) = utf8Length front + utf8Length back := by
  unfold utf8Length
  rw [List.map_append, List.sum_append]

theorem utf8Length_mono {text part : List Char} (h : part <:+: text) :
    utf8Length part ≤ utf8Length text := by
  obtain ⟨front, back, rfl⟩ := h
  rw [utf8Length_append, utf8Length_append]
  omega

theorem prefix_takeUtf8 (bytes : Nat) (text : List Char) : takeUtf8 bytes text <+: text := by
  induction text generalizing bytes with
  | nil => exact List.prefix_refl []
  | cons c text ih =>
    unfold takeUtf8
    split
    next => exact (List.prefix_cons_inj c).mpr (ih _)
    next => exact List.nil_prefix

theorem utf8Length_takeUtf8_le (bytes : Nat) (text : List Char) :
    utf8Length (takeUtf8 bytes text) ≤ bytes := by
  induction text generalizing bytes with
  | nil => exact Nat.zero_le bytes
  | cons c text ih =>
    unfold takeUtf8
    split
    next hc =>
      have hrest := ih (bytes - c.utf8Size)
      rw [utf8Length_cons]
      omega
    next => exact Nat.zero_le bytes

theorem takeUtf8_eq {bytes : Nat} {text : List Char} (h : utf8Length text ≤ bytes) :
    takeUtf8 bytes text = text := by
  induction text generalizing bytes with
  | nil => rfl
  | cons c text ih =>
    rw [utf8Length_cons] at h
    unfold takeUtf8
    rw [if_pos (by omega), ih (by omega)]

/-! ## Components -/

/-- A text that is part of a file name as it is. -/
structure Component (maxUtf8Bytes : Nat) (text : List Char) : Prop where
  nonempty : text ≠ []
  safe : ∀ c ∈ text, isUnsafe c = false
  folded : Collapsed isSpace ' ' text
  first : ∀ c ∈ text.head?, isEdge c = false
  last : ∀ c ∈ text.getLast?, isEdge c = false
  bytes : utf8Length text ≤ maxUtf8Bytes

theorem isSpace_blank : isSpace ' ' = true := by decide

theorem isUnsafe_dash : isUnsafe '-' = false := by decide

theorem isUnsafe_blank : isUnsafe ' ' = false := by decide

theorem isEdge_blank : isEdge ' ' = true := by decide

variable {maxUtf8Bytes : Nat} {text : List Char}

/-- Where white space is a blank, an end that is no blank is no white space. -/
theorem Component.not_space (h : Component maxUtf8Bytes text) {c : Char} (hmem : c ∈ text)
    (hedge : isEdge c = false) : isSpace c = false := by
  refine Bool.eq_false_iff.mpr fun hspace => ?_
  rw [h.folded.only c hmem hspace, isEdge_blank] at hedge
  cases hedge

/-- A component stays as it is. -/
theorem Component.safe_eq (h : Component maxUtf8Bytes text) (fallback : List Char) :
    safeFilenameComponent text maxUtf8Bytes fallback = text := by
  have hblank : strip isSpace text = text :=
    strip_eq (fun c hc => h.not_space (List.mem_of_mem_head? hc) (h.first c hc))
      fun c hc => h.not_space (List.mem_of_mem_getLast? hc) (h.last c hc)
  have hunsafe : collapse isUnsafe '-' false text = text :=
    (collapsed_of_none h.safe).collapse_eq false fun hrun => (by cases hrun)
  have hspace : collapse isSpace ' ' false text = text :=
    h.folded.collapse_eq false fun hrun => (by cases hrun)
  have hedge : strip isEdge text = text := strip_eq h.first h.last
  have hdots : ¬ (text = [] ∨ text = ['.'] ∨ text = ['.', '.']) := by
    rintro (hnil | hdot | hdots)
    · exact h.nonempty hnil
    · exact absurd (h.first '.' (by rw [hdot]; rfl)) (by decide)
    · exact absurd (h.first '.' (by rw [hdots]; rfl)) (by decide)
  unfold safeFilenameComponent
  dsimp only
  rw [hblank, hunsafe, hspace, hedge, if_neg hdots, takeUtf8_eq h.bytes, hedge, if_neg h.nonempty]

/-- What the filter gives is the fallback or a component. -/
theorem safeFilenameComponent_component (value : List Char) (maxUtf8Bytes : Nat)
    (fallback : List Char) :
    safeFilenameComponent value maxUtf8Bytes fallback = fallback ∨
      Component maxUtf8Bytes (safeFilenameComponent value maxUtf8Bytes fallback) := by
  unfold safeFilenameComponent
  dsimp only
  split
  next => exact .inl rfl
  next =>
    split
    next => exact .inl rfl
    next hne =>
      right
      generalize hclean : collapse isUnsafe '-' false (strip isSpace value) = clean at *
      generalize hfold : collapse isSpace ' ' false clean = folded at *
      have hpart : strip isEdge (takeUtf8 maxUtf8Bytes (strip isEdge folded)) <:+: folded :=
        ((infix_strip _ _).trans (prefix_takeUtf8 _ _).isInfix).trans (infix_strip _ _)
      refine ⟨hne, ?_, ?_, head_strip, last_strip, ?_⟩
      · intro c hc
        have hmem := hpart.subset hc
        rw [← hfold] at hmem
        obtain rfl | hmem := mem_collapse false hmem
        · exact isUnsafe_blank
        · rw [← hclean] at hmem
          exact not_of_mem_collapse isUnsafe_dash false hmem
      · have hcollapsed := (collapse_collapsed isSpace_blank false clean).1
        rw [hfold] at hcollapsed
        exact hcollapsed.infix hpart
      · exact (utf8Length_mono (infix_strip _ _)).trans (utf8Length_takeUtf8_le _ _)

theorem safe_of_component {fallback : List Char} (h : Component maxUtf8Bytes fallback)
    (value : List Char) :
    Component maxUtf8Bytes (safeFilenameComponent value maxUtf8Bytes fallback) := by
  obtain hfallback | hcomponent := safeFilenameComponent_component value maxUtf8Bytes fallback
  · rw [hfallback]
    exact h
  · exact hcomponent

/-! ## Numbers -/

theorem digitsValue_eq (digits : List Char) : digitsValue digits = Nat.ofDigitChars 10 digits 0 := by
  unfold digitsValue Nat.ofDigitChars
  simp only [Nat.mul_comm]

theorem digitsValue_padded (width number : Nat) : digitsValue (padded width number) = number := by
  unfold padded
  rw [digitsValue_eq, Nat.ofDigitChars_append, Nat.ofDigitChars_replicate_zero,
    Nat.mul_zero, Nat.ofDigitChars_ten_toDigits]

theorem isDigit_of_mem_padded {width number : Nat} {c : Char} (h : c ∈ padded width number) :
    c.isDigit = true := by
  obtain hzero | hdigit := List.mem_append.mp h
  · rw [(List.mem_replicate.mp hzero).2]
    rfl
  · exact Nat.isDigit_of_mem_toDigits (by decide) (by decide) hdigit

theorem padded_ne_nil (width number : Nat) : padded width number ≠ [] := by
  refine List.append_ne_nil_of_right_ne_nil _ ?_
  exact Nat.toDigits_ne_nil

theorem length_padded {width number : Nat} (hwidth : 0 < width) (h : number < 10 ^ width) :
    (padded width number).length = width := by
  have hle := (Nat.length_toDigits_le_iff (by decide) hwidth).mpr h
  unfold padded
  rw [List.length_append, List.length_replicate]
  omega

/-! ## Times -/

/-- Fourteen digits. -/
def IsStamp (text : List Char) : Prop := text.length = 14 ∧ ∀ c ∈ text, c.isDigit = true

theorem isStamp_stamp {date : Date} {hour minute second : Nat} (hdate : date.Valid)
    (hyear : date.year < 10 ^ 4) (hhour : hour < 24) (hminute : minute < 60)
    (hsecond : second < 60) : IsStamp (stamp date hour minute second) := by
  have hday := Date.day_le hdate
  have hmonth := hdate.2.2.1
  refine ⟨?_, fun c hc => ?_⟩
  · unfold stamp
    simp only [List.length_append]
    rw [length_padded (by decide) hyear, length_padded (by decide) (by omega : date.month < 10 ^ 2),
      length_padded (by decide) (by omega : date.day < 10 ^ 2),
      length_padded (by decide) (by omega : hour < 10 ^ 2),
      length_padded (by decide) (by omega : minute < 10 ^ 2),
      length_padded (by decide) (by omega : second < 10 ^ 2)]
  · unfold stamp at hc
    simp only [List.mem_append] at hc
    obtain ((((hc | hc) | hc) | hc) | hc) | hc := hc
    all_goals exact isDigit_of_mem_padded hc

theorem year_lt {ordinal : Nat} (h : ordinal ≤ 3652059) : (Date.ofOrdinal ordinal).year < 10 ^ 4 := by
  unfold Date.ofOrdinal Date.yearDay
  dsimp only
  split
  next => dsimp only; omega
  next => dsimp only; omega

theorem isStamp_timeComponent {instant : Instant} {text : List Char}
    (h : timeComponent instant = some text) : IsStamp text := by
  unfold timeComponent at h
  dsimp only at h
  split at h
  next hordinal =>
    cases h
    unfold lastOrdinal at hordinal
    have hupto : ((instant + shanghaiOffset) / 1000000 / 86400 + epochOrdinal).toNat ≤ 3652059 :=
      Int.toNat_le.mpr hordinal.2
    exact isStamp_stamp (Date.valid_ofOrdinal _) (year_lt hupto) (by omega) (by omega) (by omega)
  next => cases h

/-- A range is two stamps, or not known. -/
theorem receivedRange_cases (first last : Option Instant) :
    (∃ since upto, IsStamp since ∧ IsStamp upto ∧
      receivedRange first last = since ++ ['-'] ++ upto) ∨
    receivedRange first last = "unknown-time".toList := by
  unfold receivedRange
  split
  next since upto hsince hupto =>
    obtain ⟨instant, -, hinstant⟩ := Option.bind_eq_some_iff.mp hsince
    obtain ⟨later, -, hlater⟩ := Option.bind_eq_some_iff.mp hupto
    exact .inl ⟨since, upto, isStamp_timeComponent hinstant, isStamp_timeComponent hlater, rfl⟩
  next => exact .inr rfl

/-! ## Reading a name from the right -/

theorem beforeSuffix_append (front suffix : List Char) :
    beforeSuffix suffix (front ++ suffix) = some front := by
  unfold beforeSuffix
  rw [if_pos (List.suffix_append front suffix), List.length_append, Nat.add_sub_cancel,
    List.take_left]

theorem beforeSuffix_eq_none {suffix name : List Char} (h : suffix.getLast? ≠ name.getLast?)
    (hsuffix : suffix ≠ []) : beforeSuffix suffix name = none := by
  unfold beforeSuffix
  refine if_neg fun hend => h ?_
  obtain ⟨front, rfl⟩ := hend
  rw [List.getLast?_append_of_ne_nil _ hsuffix]

/-- The digits at the end, where none is in front of them. -/
theorem ends_append {front digits : List Char} (hfront : ∀ c ∈ front.getLast?, c.isDigit = false)
    (hdigits : ∀ c ∈ digits, c.isDigit = true) :
    (front ++ digits).rtakeWhile Char.isDigit = digits ∧
      (front ++ digits).rdropWhile Char.isDigit = front := by
  induction digits using List.reverseRecOn with
  | nil =>
    rw [List.append_nil, List.rtakeWhile_eq_nil_iff, List.rdropWhile_eq_self_iff]
    have hlast : ∀ hne : front ≠ [], ¬ (front.getLast hne).isDigit = true := fun hne => by
      rw [hfront _ (List.getLast?_eq_some_getLast hne)]
      exact Bool.false_ne_true
    exact ⟨hlast, hlast⟩
  | append_singleton digits c ih =>
    have hc : c.isDigit = true := hdigits c (by simp)
    obtain ⟨htake, hdrop⟩ := ih fun d hd => hdigits d (List.mem_append_left _ hd)
    rw [← List.append_assoc, List.rtakeWhile_concat_pos _ _ _ hc, List.rdropWhile_concat_pos _ _ _ hc,
      htake, hdrop]
    exact ⟨rfl, rfl⟩

theorem numberedLog_append {front digits : List Char}
    (hfront : ∀ c ∈ front.getLast?, c.isDigit = false) (hdigits : ∀ c ∈ digits, c.isDigit = true)
    (hne : digits ≠ []) :
    numberedLog (front ++ digits ++ ".log".toList) = some (front, digitsValue digits) := by
  obtain ⟨htake, hdrop⟩ := ends_append hfront hdigits
  unfold numberedLog
  rw [beforeSuffix_append]
  show (if _ = [] then _ else _) = _
  rw [htake, hdrop, if_neg hne]

/-- In front of a part number is no digit. -/
theorem part_ends (front : List Char) :
    ∀ c ∈ (front ++ "-part-".toList).getLast?, c.isDigit = false := by
  rw [List.getLast?_append_of_ne_nil _ (by decide)]
  intro c hc
  rw [show "-part-".toList.getLast? = some '-' from by decide] at hc
  cases hc
  rfl

theorem isRange_stamps {since upto : List Char} (hsince : IsStamp since) (hupto : IsStamp upto) :
    isRange ('-' :: (since ++ ['-'] ++ upto)) = true := by
  have hdrop : (since ++ ['-'] ++ upto).drop 14 = '-' :: upto := by
    rw [List.append_assoc, ← hsince.1, List.drop_left]
    rfl
  have htake : (since ++ ['-'] ++ upto).take 14 = since := by
    rw [List.append_assoc, ← hsince.1, List.take_left]
  have hrest : (since ++ ['-'] ++ upto).drop 15 = upto := by
    rw [← List.drop_drop (i := 1) (j := 14), hdrop]
    rfl
  unfold isRange
  simp only [List.length_cons, List.length_append, hsince.1, hupto.1, List.drop_succ_cons,
    List.drop_zero, htake, hdrop, hrest, List.take_succ_cons, List.take_zero,
    List.all_eq_true.mpr hsince.2, List.all_eq_true.mpr hupto.2]
  rfl

/-- What is in front of the times is found again. -/
theorem beforeRange_append (front : List Char) (first last : Option Instant) :
    beforeRange (front ++ ['-'] ++ receivedRange first last) = some front := by
  obtain ⟨since, upto, hsince, hupto, hrange⟩ | hrange := receivedRange_cases first last
  · rw [hrange]
    have hlength : ('-' :: (since ++ ['-'] ++ upto)).length = 30 := by
      simp [hsince.1, hupto.1]
    have hname : front ++ ['-'] ++ (since ++ ['-'] ++ upto) =
        front ++ '-' :: (since ++ ['-'] ++ upto) := by
      rw [List.append_assoc]
      rfl
    have hpos : upto ≠ [] := fun hnil => by
      have hupto' := hupto.1
      rw [hnil] at hupto'
      cases hupto'
    -- a digit at the end is not the end of an unknown time
    have hknown : beforeSuffix "-unknown-time".toList
        (front ++ '-' :: (since ++ ['-'] ++ upto)) = none := by
      refine beforeSuffix_eq_none ?_ (by decide)
      have hend : (front ++ '-' :: (since ++ ['-'] ++ upto)).getLast? = upto.getLast? := by
        rw [show front ++ '-' :: (since ++ ['-'] ++ upto) =
          (front ++ '-' :: (since ++ ['-'])) ++ upto from by simp,
          List.getLast?_append_of_ne_nil _ hpos]
      rw [hend, List.getLast?_eq_some_getLast hpos]
      intro heq
      have hdigit := hupto.2 _ (List.getLast_mem hpos)
      rw [show "-unknown-time".toList.getLast? = some 'e' from by decide] at heq
      rw [← Option.some.inj heq] at hdigit
      exact absurd hdigit (by decide)
    unfold beforeRange
    rw [hname, hknown]
    dsimp only
    rw [List.length_append, hlength, Nat.add_sub_cancel, List.drop_left,
      if_pos (isRange_stamps hsince hupto), List.take_left]
  · rw [hrange]
    have hname : front ++ ['-'] ++ "unknown-time".toList = front ++ "-unknown-time".toList := by
      rw [List.append_assoc]
      rfl
    unfold beforeRange
    rw [hname, beforeSuffix_append]

/-- The name of a segment, as its parts are written. -/
def segmentName (front : List Char) (first last : Option Instant) (part : Nat) : List Char :=
  front ++ ['-'] ++ receivedRange first last ++ "-part-".toList ++ padded 6 part ++ ".log".toList

theorem rangedName_segmentName {front : List Char} (hne : front ≠ []) (hline : '\n' ∉ front)
    (first last : Option Instant) (part : Nat) :
    rangedName (segmentName front first last part) = some (front, part) := by
  unfold rangedName segmentName
  rw [numberedLog_append (part_ends _) (fun c hc => isDigit_of_mem_padded hc) (padded_ne_nil 6 part),
    digitsValue_padded, Option.bind_eq_bind, Option.bind_some]
  dsimp only
  rw [beforeSuffix_append, Option.bind_eq_bind, Option.bind_some, beforeRange_append,
    Option.bind_some, if_neg (not_or.mpr ⟨hne, hline⟩)]

theorem proper_of_length {part : List Char} (h : 2 ≤ part.length) : part ≠ [] ∧ part ≠ ['.'] := by
  refine ⟨fun hnil => ?_, fun hdot => ?_⟩
  · rw [hnil] at h
    cases h
  · rw [hdot] at h
    exact absurd h (by decide)

/-- The end of a path without a separator is the end of its name. -/
theorem pathName_append (front : List Char) {tail : List Char} (hslash : '/' ∉ tail)
    (hlength : 2 ≤ tail.length) : ∃ back, pathName (front ++ tail) = back ++ tail := by
  have hparts : ∃ parts back, (front ++ tail).splitOn '/' = parts ++ [back ++ tail] := by
    induction front with
    | nil => exact ⟨[], [], List.splitOn_eq_singleton hslash⟩
    | cons c front ih =>
      obtain ⟨parts, back, hparts⟩ := ih
      rw [List.cons_append, List.splitOn_cons_eq_if_modifyHead, hparts]
      split
      next => exact ⟨[] :: parts, back, rfl⟩
      next =>
        cases parts with
        | nil => exact ⟨[], c :: back, rfl⟩
        | cons part parts => exact ⟨(c :: part) :: parts, back, rfl⟩
  obtain ⟨parts, back, hparts⟩ := hparts
  have hkept := proper_of_length (by
    rw [List.length_append]
    omega : 2 ≤ (back ++ tail).length)
  refine ⟨back, ?_⟩
  unfold pathName
  rw [hparts, List.filter_append, List.filter_singleton, decide_eq_true hkept, cond_true,
    List.getLast?_concat, Option.getD_some]

theorem pathName_of_not_mem {path : List Char} (hslash : '/' ∉ path) (hlength : 2 ≤ path.length) :
    pathName path = path := by
  unfold pathName
  rw [List.splitOn_eq_singleton hslash, List.filter_singleton,
    decide_eq_true (proper_of_length hlength)]
  rfl

/-- The number at the end of a name is its part number, whatever is in front. -/
theorem sourceParts_part (front : List Char) {digits : List Char} (hne : digits ≠ [])
    (hdigits : ∀ c ∈ digits, c.isDigit = true) :
    (sourceParts (front ++ "-part-".toList ++ digits ++ ".log".toList)).2 = digitsValue digits := by
  have hnumbered := numberedLog_append (part_ends front) hdigits hne
  generalize hname : front ++ "-part-".toList ++ digits ++ ".log".toList = name at hnumbered ⊢
  unfold sourceParts
  cases hranged : rangedName name with
  | some parts =>
    obtain ⟨before, part⟩ := parts
    unfold rangedName at hranged
    rw [hnumbered, Option.bind_eq_bind, Option.bind_some] at hranged
    dsimp only at hranged
    obtain ⟨rest, -, hranged⟩ := Option.bind_eq_some_iff.mp hranged
    obtain ⟨rest, -, hranged⟩ := Option.bind_eq_some_iff.mp hranged
    split at hranged
    next => cases hranged
    next =>
      cases hranged
      rfl
  | none =>
    have hline : beforeSuffix ['\n'] name = none := by
      refine beforeSuffix_eq_none ?_ (by decide)
      rw [← hname, List.getLast?_append_of_ne_nil _ (by decide)]
      decide
    have hpart : beforeSuffix "part-".toList (front ++ "-part-".toList) = some (front ++ ['-']) := by
      rw [show front ++ "-part-".toList = front ++ ['-'] ++ "part-".toList from by
        rw [List.append_assoc]; rfl]
      exact beforeSuffix_append _ _
    have hplain : plainName name = some ((front ++ ['-']).rdropWhile (· = '-'), digitsValue digits) := by
      unfold plainName
      rw [hline, Option.getD_none, hnumbered, Option.bind_eq_bind, Option.bind_some]
      dsimp only
      rw [hpart, Option.bind_eq_bind, Option.bind_some,
        if_pos (.inr (by rw [List.getLast?_concat]))]
    rw [hplain]
    rfl

/-! ## Names of segments -/

theorem collapsed_of_all {text : List Char} (h : text.all (fun c => !isSpace c) = true) :
    Collapsed isSpace ' ' text := by
  refine collapsed_of_none fun c hc => ?_
  have hnot := List.all_eq_true.mp h c hc
  exact Bool.not_eq_true' _ ▸ hnot

theorem component_unknown : Component 64 "unknown".toList := by
  refine ⟨by decide, ?_, collapsed_of_all (by decide), ?_, ?_, by decide⟩
  · exact fun c hc => by simpa using List.all_eq_true.mp (by decide :
      "unknown".toList.all (fun c => !isUnsafe c) = true) c hc
  · intro c hc
    cases hc
    decide
  · intro c hc
    cases hc
    decide

theorem component_segment : Component 145 "segment".toList := by
  refine ⟨by decide, ?_, collapsed_of_all (by decide), ?_, ?_, by decide⟩
  · exact fun c hc => by simpa using List.all_eq_true.mp (by decide :
      "segment".toList.all (fun c => !isUnsafe c) = true) c hc
  · intro c hc
    cases hc
    decide
  · intro c hc
    cases hc
    decide

theorem Component.mono {text : List Char} {bytes more : Nat} (h : Component bytes text)
    (hle : bytes ≤ more) : Component more text :=
  ⟨h.nonempty, h.safe, h.folded, h.first, h.last, h.bytes.trans hle⟩

theorem segmentName_slash {front : List Char} (hslash : '/' ∉ front) (first last : Option Instant)
    (part : Nat) : '/' ∉ segmentName front first last part := by
  have hdigits : ∀ {text : List Char}, (∀ c ∈ text, c.isDigit = true) → '/' ∉ text :=
    fun h hmem => absurd (h _ hmem) (by decide)
  have hrange : '/' ∉ receivedRange first last := by
    obtain ⟨since, upto, hsince, hupto, hrange⟩ | hrange := receivedRange_cases first last
    · rw [hrange, List.mem_append, List.mem_append]
      rintro ((hmem | hmem) | hmem)
      · exact hdigits hsince.2 hmem
      · exact absurd hmem (by decide)
      · exact hdigits hupto.2 hmem
    · rw [hrange]
      decide
  unfold segmentName
  simp only [List.mem_append, not_or]
  exact ⟨⟨⟨⟨⟨hslash, by decide⟩, hrange⟩, by decide⟩,
    hdigits fun c hc => isDigit_of_mem_padded hc⟩, by decide⟩

theorem segmentNameFromSource_eq (source : String) (first last : Option Instant) :
    (segmentNameFromSource source first last).toList =
      segmentName (safeFilenameComponent (sourceParts (pathName source.toList)).1 145
        "segment".toList) first last (sourceParts (pathName source.toList)).2 := by
  unfold segmentNameFromSource segmentName
  exact String.toList_ofList

/-- A name that was written is read back. -/
theorem sourceParts_segmentName {front : List Char} (h : Component 145 front)
    (first last : Option Instant) (part : Nat) :
    sourceParts (pathName (segmentName front first last part)) = (front, part) := by
  have hslash : '/' ∉ front := fun hmem => absurd (h.safe _ hmem) (by decide)
  have hline : '\n' ∉ front := fun hmem => absurd (h.safe _ hmem) (by decide)
  have hlength : 2 ≤ (segmentName front first last part).length := by
    unfold segmentName
    rw [List.length_append]
    exact Nat.le_add_left_of_le (by decide)
  rw [pathName_of_not_mem (segmentName_slash hslash first last part) hlength]
  unfold sourceParts
  rw [rangedName_segmentName h.nonempty hline]
  rfl

/-- The filter gives its fallback or a text that fits and has nothing in it that does not belong
in a file name, and is idempotent just if it leaves its fallback as it is, as it does with every
fallback that is used. The name of a segment stays the same for the same times, and
names of different part numbers differ, however they come about. -/
theorem names_stable :
    (∀ value maxUtf8Bytes fallback,
      safeFilenameComponent value maxUtf8Bytes fallback = fallback ∨
        Component maxUtf8Bytes (safeFilenameComponent value maxUtf8Bytes fallback)) ∧
    (∀ maxUtf8Bytes fallback,
      (∀ value, safeFilenameComponent (safeFilenameComponent value maxUtf8Bytes fallback)
        maxUtf8Bytes fallback = safeFilenameComponent value maxUtf8Bytes fallback) ↔
      safeFilenameComponent fallback maxUtf8Bytes fallback = fallback) ∧
    (∀ value, ∀ used ∈ [(80, "unknown"), (64, "unknown"), (145, "segment")],
      Component used.1 (safeFilenameComponent value used.1 used.2.toList) ∧
      safeFilenameComponent (safeFilenameComponent value used.1 used.2.toList) used.1
        used.2.toList = safeFilenameComponent value used.1 used.2.toList) ∧
    (∀ source first last,
      segmentNameFromSource (segmentNameFromSource source first last) first last =
        segmentNameFromSource source first last) ∧
    (∀ source first last other since upto,
      (sourceParts (pathName source.toList)).2 ≠ (sourceParts (pathName other.toList)).2 →
      segmentNameFromSource source first last ≠ segmentNameFromSource other since upto) ∧
    (∀ path digits, digits ≠ [] → (∀ c ∈ digits, c.isDigit = true) →
      (sourceParts (pathName (path ++ "-part-".toList ++ digits ++ ".log".toList))).2 =
        digitsValue digits) := by
  refine ⟨safeFilenameComponent_component, ?_, ?_, ?_, ?_, ?_⟩
  · intro maxUtf8Bytes fallback
    refine ⟨fun h => ?_, fun h value => ?_⟩
    · -- an empty text becomes the fallback
      have hempty : safeFilenameComponent [] maxUtf8Bytes fallback = fallback := rfl
      have hagain := h []
      rwa [hempty] at hagain
    · obtain hfallback | hcomponent := safeFilenameComponent_component value maxUtf8Bytes fallback
      · rw [hfallback, h]
      · exact hcomponent.safe_eq fallback
  · intro value used hused
    have hused' : Component used.1 used.2.toList := by
      obtain rfl | rfl | rfl : used = (80, "unknown") ∨ used = (64, "unknown") ∨
        used = (145, "segment") := by simpa using hused
      · exact component_unknown.mono (by decide)
      · exact component_unknown
      · exact component_segment
    have hcomponent := safe_of_component hused' value
    exact ⟨hcomponent, hcomponent.safe_eq _⟩
  · intro source first last
    have hcomponent := safe_of_component component_segment (sourceParts (pathName source.toList)).1
    refine String.toList_inj.mp ?_
    rw [segmentNameFromSource_eq (segmentNameFromSource source first last),
      segmentNameFromSource_eq source, sourceParts_segmentName hcomponent,
      hcomponent.safe_eq]
  · intro source first last other since upto hparts heq
    have hsource := safe_of_component component_segment (sourceParts (pathName source.toList)).1
    have hother := safe_of_component component_segment (sourceParts (pathName other.toList)).1
    have hread := congrArg (fun name : String => sourceParts (pathName name.toList)) heq
    rw [segmentNameFromSource_eq, segmentNameFromSource_eq, sourceParts_segmentName hsource,
      sourceParts_segmentName hother] at hread
    exact hparts (Prod.mk.inj hread).2
  · intro path digits hne hdigits
    have hslash : '/' ∉ "-part-".toList ++ digits ++ ".log".toList := by
      simp only [List.mem_append, not_or]
      exact ⟨⟨by decide, fun hmem => absurd (hdigits _ hmem) (by decide)⟩, by decide⟩
    have hlength : 2 ≤ ("-part-".toList ++ digits ++ ".log".toList).length := by
      rw [List.length_append]
      exact Nat.le_add_left_of_le (by decide)
    obtain ⟨back, hback⟩ := pathName_append path hslash hlength
    rw [← List.append_assoc, ← List.append_assoc] at hback
    rw [hback, ← List.append_assoc, ← List.append_assoc]
    exact sourceParts_part back hne hdigits

end CameraLogs.Logs

import CameraLogs.Logs.SearchPlan
import CameraLogs.Lib.Overlap

/-!
# Decoding goes on behind what it cannot read

A decoder that meets bytes which are no character leaves the longest piece that began
like one and goes on behind it. Such a piece holds only continuation bytes behind its
first byte, and the first byte of a character is none: so wherever a character stands
in the bytes, the decoder reads it, whatever stands before it (`Drains.reads_inside`,
`decodeReplace_inside`). The incremental decoder holds back a character that the bytes
so far end within, and gives the text of all of them for every way to cut the bytes
into pieces (`Drains.append`).
-/

namespace CameraLogs.Logs

open Lib

/-! ## The bytes of one character -/

theorem utf8Shape_one {b : UInt8} (h : b.toNat < 0x80) : utf8Shape b = some (1, 0x80, 0xBF) := by
  unfold utf8Shape
  rw [if_pos (UInt8.lt_iff_toNat_lt.mpr h)]

theorem utf8Shape_two {b : UInt8} (hlo : 0xC2 ≤ b.toNat) (hhi : b.toNat < 0xE0) :
    utf8Shape b = some (2, 0x80, 0xBF) := by
  simp [utf8Shape, UInt8.lt_iff_toNat_lt]
  grind

theorem utf8Shape_three {b : UInt8} (hlo : 0xE0 ≤ b.toNat) (hhi : b.toNat < 0xF0) :
    utf8Shape b = some (3, if b.toNat = 0xE0 then 0xA0 else 0x80,
      if b.toNat = 0xED then 0x9F else 0xBF) := by
  simp [utf8Shape, UInt8.lt_iff_toNat_lt, ← UInt8.toNat_inj]
  grind

theorem utf8Shape_four {b : UInt8} (hlo : 0xF0 ≤ b.toNat) (hhi : b.toNat < 0xF5) :
    utf8Shape b = some (4, if b.toNat = 0xF0 then 0x90 else 0x80,
      if b.toNat = 0xF4 then 0x8F else 0xBF) := by
  simp [utf8Shape, UInt8.lt_iff_toNat_lt, ← UInt8.toNat_inj]
  grind

theorem continuation_cons {n : Nat} {low high b : UInt8} {rest : Bytes}
    (hlo : low.toNat ≤ b.toNat) (hhi : b.toNat ≤ high.toNat) :
    continuation (n + 1) low high (b :: rest) = b :: continuation n 0x80 0xBF rest := by
  show (if low ≤ b ∧ b ≤ high then _ else _) = _
  rw [if_pos ⟨UInt8.le_iff_toNat_le.mpr hlo, UInt8.le_iff_toNat_le.mpr hhi⟩]

theorem continuation_cons_of_not {n : Nat} {low high b : UInt8} {rest : Bytes}
    (h : ¬ (low ≤ b ∧ b ≤ high)) : continuation n low high (b :: rest) = [] := by
  cases n with
  | zero => rfl
  | succ n => exact if_neg h

theorem length_continuation_le (n : Nat) (low high : UInt8) (rest : Bytes) :
    (continuation n low high rest).length ≤ n ∧
      (continuation n low high rest).length ≤ rest.length := by
  induction n generalizing low high rest with
  | zero => exact ⟨Nat.le_refl 0, Nat.zero_le _⟩
  | succ n ih =>
    cases rest with
    | nil => exact ⟨Nat.zero_le _, Nat.le_refl 0⟩
    | cons b rest =>
      by_cases hb : low ≤ b ∧ b ≤ high
      · have htail := ih 0x80 0xBF rest
        have heq : continuation (n + 1) low high (b :: rest) = b :: continuation n 0x80 0xBF rest :=
          if_pos hb
        rw [heq, List.length_cons, List.length_cons]
        omega
      · rw [continuation_cons_of_not hb]
        exact ⟨Nat.zero_le _, Nat.zero_le _⟩

/-- Continuation bytes that end within what there is stay the same with more behind it. -/
theorem continuation_append {n : Nat} {low high : UInt8} {rest : Bytes} (more : Bytes)
    (h : (continuation n low high rest).length = n ∨
      (continuation n low high rest).length < rest.length) :
    continuation n low high (rest ++ more) = continuation n low high rest := by
  induction n generalizing low high rest with
  | zero => rfl
  | succ n ih =>
    cases rest with
    | nil =>
      rcases h with h | h
      · exact absurd h (Nat.succ_ne_zero n).symm
      · exact absurd h (Nat.not_lt_zero _)
    | cons b rest =>
      rw [List.cons_append]
      by_cases hb : low ≤ b ∧ b ≤ high
      · have heq : ∀ tail, continuation (n + 1) low high (b :: tail)
            = b :: continuation n 0x80 0xBF tail := fun tail => if_pos hb
        rw [heq, List.length_cons, List.length_cons] at h
        rw [heq, heq, ih (by omega)]
      · rw [continuation_cons_of_not hb, continuation_cons_of_not hb]

/-- No continuation byte. -/
def startsCharacter (b : UInt8) : Prop := ¬ (0x80 ≤ b ∧ b ≤ 0xBF)

/-- The range of a second byte is one of continuation bytes. -/
theorem utf8Shape_range {b low high : UInt8} {size : Nat}
    (h : utf8Shape b = some (size, low, high)) :
    1 ≤ size ∧ 0x80 ≤ low ∧ high ≤ 0xBF := by
  unfold utf8Shape at h
  repeat' split at h
  all_goals cases h
  all_goals decide

/-- Continuation bytes end before the first byte of a character. -/
theorem continuation_append_start {n : Nat} {low high : UInt8} {rest more : Bytes} {b : UInt8}
    (hlow : 0x80 ≤ low) (hhigh : high ≤ 0xBF) (hb : startsCharacter b) :
    continuation n low high (rest ++ b :: more) = continuation n low high rest := by
  induction n generalizing low high rest with
  | zero => rfl
  | succ n ih =>
    cases rest with
    | nil =>
      show continuation (n + 1) low high (b :: more) = []
      exact continuation_cons_of_not fun hin =>
        hb ⟨UInt8.le_trans hlow hin.1, UInt8.le_trans hin.2 hhigh⟩
    | cons x rest =>
      rw [List.cons_append]
      by_cases hx : low ≤ x ∧ x ≤ high
      · have heq : ∀ tail, continuation (n + 1) low high (x :: tail)
            = x :: continuation n 0x80 0xBF tail := fun tail => if_pos hx
        rw [heq, heq, ih (UInt8.le_refl _) (UInt8.le_refl _)]
      · rw [continuation_cons_of_not hx, continuation_cons_of_not hx]

theorem toNat_ofNat {n : Nat} (h : n < 256) : (UInt8.ofNat n).toNat = n := by
  rw [UInt8.toNat_ofNat']
  omega

/-- The bytes of a character, as they are read back. -/
structure Reads (c : Char) (lead : UInt8) (rest : Bytes) (size : Nat) : Prop where
  encode : String.utf8EncodeChar c = lead :: rest
  length : rest.length = size - 1
  shape : ∃ low high, utf8Shape lead = some (size, low, high) ∧
    ∀ more, continuation (size - 1) low high (rest ++ more) = rest
  char : utf8Char lead size rest = c

section characters

variable {c : Char} {v : Nat}

/-- A byte for the six bits at a place of the value. -/
theorem sixBits_toNat (n : Nat) : (UInt8.ofNat (n % 64 + 0x80)).toNat = n % 64 + 0x80 :=
  toNat_ofNat (by omega)

theorem continuation_sixBits (k n : Nat) (rest : Bytes) :
    continuation (k + 1) 0x80 0xBF (UInt8.ofNat (n % 64 + 0x80) :: rest)
      = UInt8.ofNat (n % 64 + 0x80) :: continuation k 0x80 0xBF rest := by
  refine continuation_cons ?_ ?_
  · show 0x80 ≤ _
    rw [sixBits_toNat]
    omega
  · show _ ≤ 0xBF
    rw [sixBits_toNat]
    omega

theorem reads_one (hn : c.val.toNat = v) (hchar : Char.ofNat v = c) (h1 : v ≤ 0x7F) :
    Reads c (UInt8.ofNat v) [] 1 := by
  have hlead : (UInt8.ofNat v).toNat = v := toNat_ofNat (by omega)
  refine ⟨?_, rfl, ⟨_, _, utf8Shape_one (by omega), fun _ => rfl⟩, ?_⟩
  · unfold String.utf8EncodeChar
    simp only [hn, if_pos h1]
  · show Char.ofNat (UInt8.ofNat v).toNat = c
    rw [hlead, hchar]

theorem reads_two (hn : c.val.toNat = v) (hchar : Char.ofNat v = c) (h1 : ¬ v ≤ 0x7F)
    (h2 : v ≤ 0x7FF) :
    Reads c (UInt8.ofNat (v / 64 % 0x20 + 0xC0)) [UInt8.ofNat (v % 64 + 0x80)] 2 := by
  have hlead : (UInt8.ofNat (v / 64 % 0x20 + 0xC0)).toNat = v / 64 % 0x20 + 0xC0 :=
    toNat_ofNat (by omega)
  refine ⟨?_, rfl, ⟨_, _, utf8Shape_two (by omega) (by omega), ?_⟩, ?_⟩
  · unfold String.utf8EncodeChar
    simp only [hn, if_neg h1, if_pos h2]
  · intro more
    exact continuation_sixBits 0 v more
  · show Char.ofNat ((UInt8.ofNat (v / 64 % 0x20 + 0xC0)).toNat % 2 ^ 5 * 64
      + (UInt8.ofNat (v % 64 + 0x80)).toNat % 64) = c
    rw [hlead, sixBits_toNat, ← hchar]
    congr 1
    omega

theorem reads_three (hn : c.val.toNat = v) (hchar : Char.ofNat v = c)
    (hv : v < 0xD800 ∨ 0xDFFF < v) (h2 : ¬ v ≤ 0x7FF) (h3 : v ≤ 0xFFFF) :
    Reads c (UInt8.ofNat (v / 4096 % 0x10 + 0xE0))
      [UInt8.ofNat (v / 64 % 64 + 0x80), UInt8.ofNat (v % 64 + 0x80)] 3 := by
  have hlead : (UInt8.ofNat (v / 4096 % 0x10 + 0xE0)).toNat = v / 4096 % 0x10 + 0xE0 :=
    toNat_ofNat (by omega)
  refine ⟨?_, rfl, ⟨_, _, utf8Shape_three (by omega) (by omega), ?_⟩, ?_⟩
  · unfold String.utf8EncodeChar
    simp only [hn, if_neg (show ¬ v ≤ 0x7F by omega), if_neg h2, if_pos h3]
  · intro more
    show continuation 2 _ _ (_ :: _ :: more) = _
    -- the range of the second byte leaves out overlong forms and surrogates
    rw [continuation_cons, continuation_sixBits]
    · rfl
    · rw [apply_ite UInt8.toNat, hlead, sixBits_toNat]
      show (if _ then 0xA0 else 0x80) ≤ _
      split <;> omega
    · rw [apply_ite UInt8.toNat, hlead, sixBits_toNat]
      show _ ≤ if _ then 0x9F else 0xBF
      split <;> omega
  · show Char.ofNat (((UInt8.ofNat (v / 4096 % 0x10 + 0xE0)).toNat % 2 ^ 4 * 64
      + (UInt8.ofNat (v / 64 % 64 + 0x80)).toNat % 64) * 64
      + (UInt8.ofNat (v % 64 + 0x80)).toNat % 64) = c
    rw [hlead, sixBits_toNat, sixBits_toNat, ← hchar]
    congr 1
    omega

theorem reads_four (hn : c.val.toNat = v) (hchar : Char.ofNat v = c) (hv : v < 0x110000)
    (h3 : ¬ v ≤ 0xFFFF) :
    Reads c (UInt8.ofNat (v / 262144 % 0x08 + 0xF0)) [UInt8.ofNat (v / 4096 % 64 + 0x80),
      UInt8.ofNat (v / 64 % 64 + 0x80), UInt8.ofNat (v % 64 + 0x80)] 4 := by
  have hlead : (UInt8.ofNat (v / 262144 % 0x08 + 0xF0)).toNat = v / 262144 % 0x08 + 0xF0 :=
    toNat_ofNat (by omega)
  refine ⟨?_, rfl, ⟨_, _, utf8Shape_four (by omega) (by omega), ?_⟩, ?_⟩
  · unfold String.utf8EncodeChar
    simp only [hn, if_neg (show ¬ v ≤ 0x7F by omega), if_neg (show ¬ v ≤ 0x7FF by omega), if_neg h3]
  · intro more
    show continuation 3 _ _ (_ :: _ :: _ :: more) = _
    rw [continuation_cons, continuation_sixBits, continuation_sixBits]
    · rfl
    · rw [apply_ite UInt8.toNat, hlead, sixBits_toNat]
      show (if _ then 0x90 else 0x80) ≤ _
      split <;> omega
    · rw [apply_ite UInt8.toNat, hlead, sixBits_toNat]
      show _ ≤ if _ then 0x8F else 0xBF
      split <;> omega
  · show Char.ofNat ((((UInt8.ofNat (v / 262144 % 0x08 + 0xF0)).toNat % 2 ^ 3 * 64
      + (UInt8.ofNat (v / 4096 % 64 + 0x80)).toNat % 64) * 64
      + (UInt8.ofNat (v / 64 % 64 + 0x80)).toNat % 64) * 64
      + (UInt8.ofNat (v % 64 + 0x80)).toNat % 64) = c
    rw [hlead, sixBits_toNat, sixBits_toNat, sixBits_toNat, ← hchar]
    congr 1
    omega

theorem exists_reads (c : Char) : ∃ lead rest size, Reads c lead rest size := by
  have hv : c.val.toNat < 0xD800 ∨ (0xDFFF < c.val.toNat ∧ c.val.toNat < 0x110000) := c.valid
  have hchar : Char.ofNat c.val.toNat = c := Char.ofNat_toNat c
  by_cases h1 : c.val.toNat ≤ 0x7F
  · exact ⟨_, _, _, reads_one rfl hchar h1⟩
  · by_cases h2 : c.val.toNat ≤ 0x7FF
    · exact ⟨_, _, _, reads_two rfl hchar h1 h2⟩
    · by_cases h3 : c.val.toNat ≤ 0xFFFF
      · exact ⟨_, _, _, reads_three rfl hchar (by omega) h2 h3⟩
      · exact ⟨_, _, _, reads_four rfl hchar (by omega) h3⟩

end characters

/-- The first byte of a character is no continuation byte. -/
theorem Reads.starts {c : Char} {lead : UInt8} {rest : Bytes} {size : Nat}
    (h : Reads c lead rest size) : startsCharacter lead := by
  obtain ⟨low, high, hshape, _⟩ := h.shape
  intro hin
  unfold utf8Shape at hshape
  rw [UInt8.le_iff_toNat_le, UInt8.le_iff_toNat_le] at hin
  rw [if_neg (by rw [UInt8.lt_iff_toNat_lt]; exact Nat.not_lt.mpr hin.1),
    if_pos (by rw [UInt8.lt_iff_toNat_lt]; exact Nat.lt_of_le_of_lt hin.2 (by decide))] at hshape
  cases hshape

/-! ## The incremental decoder -/

/-- One step of the decoder that leaves out errors: the characters, and how many bytes
they took; `none` when the bytes end before that can be told. -/
def decodeStep (final : Bool) : Bytes → Option (List Char × Nat)
  | [] => none
  | b :: rest =>
    match utf8Shape b with
    | none => some ([], 1)
    | some (size, low, high) =>
      let more := continuation (size - 1) low high rest
      if more.length = size - 1 then some ([utf8Char b size more], size)
      else if more.length = rest.length ∧ final = false then none
      else some ([], 1 + more.length)

/-- Decode what can be told: the text, and the bytes held back. -/
def drain (final : Bool) : Nat → Bytes → List Char × Bytes
  | 0, buffer => ([], buffer)
  | fuel + 1, buffer =>
    match decodeStep final buffer with
    | none => ([], buffer)
    | some (chars, size) =>
      let (text, held) := drain final fuel (buffer.drop size)
      (chars ++ text, held)

/-- `decode` of an incremental decoder with what it holds in front. -/
def decodeIgnore (final : Bool) (buffer : Bytes) : List Char × Bytes :=
  drain final buffer.length buffer

/-- The bytes give the text, and hold the rest back. -/
inductive Drains : Bytes → List Char → Bytes → Prop
  | held {buffer : Bytes} (h : decodeStep false buffer = none) : Drains buffer [] buffer
  | step {buffer held : Bytes} {chars text : List Char} {size : Nat}
      (h : decodeStep false buffer = some (chars, size)) (hrest : Drains (buffer.drop size) text held) :
      Drains buffer (chars ++ text) held

/-- The step over a byte that starts a character. -/
theorem decodeStep_shape {final : Bool} {b low high : UInt8} {rest : Bytes} {size : Nat}
    (h : utf8Shape b = some (size, low, high)) :
    decodeStep final (b :: rest) =
      if (continuation (size - 1) low high rest).length = size - 1 then
        some ([utf8Char b size (continuation (size - 1) low high rest)], size)
      else if (continuation (size - 1) low high rest).length = rest.length ∧ final = false then none
      else some ([], 1 + (continuation (size - 1) low high rest).length) := by
  simp only [decodeStep, h]

theorem decodeStep_none {final : Bool} {b : UInt8} {rest : Bytes} (h : utf8Shape b = none) :
    decodeStep final (b :: rest) = some ([], 1) := by
  simp only [decodeStep, h]

/-- A step takes a byte at least, and no more than there are. -/
theorem decodeStep_size {final : Bool} {buffer : Bytes} {chars : List Char} {size : Nat}
    (h : decodeStep final buffer = some (chars, size)) : 1 ≤ size ∧ size ≤ buffer.length := by
  cases buffer with
  | nil => cases h
  | cons b rest =>
    rw [List.length_cons]
    rcases hshape : utf8Shape b with _ | ⟨count, low, high⟩
    · rw [decodeStep_none hshape] at h
      cases h
      omega
    · have hlen := length_continuation_le (count - 1) low high rest
      have hcount := (utf8Shape_range hshape).1
      rw [decodeStep_shape hshape] at h
      split at h
      next =>
        cases h
        omega
      next =>
        split at h
        next => cases h
        next =>
          cases h
          omega

/-- What a step could tell does not depend on the bytes behind. -/
theorem decodeStep_append {buffer : Bytes} {chars : List Char} {size : Nat} (more : Bytes)
    (h : decodeStep false buffer = some (chars, size)) :
    decodeStep false (buffer ++ more) = some (chars, size) := by
  cases buffer with
  | nil => cases h
  | cons b rest =>
    rw [List.cons_append]
    rcases hshape : utf8Shape b with _ | ⟨count, low, high⟩
    · rw [decodeStep_none hshape] at h ⊢
      exact h
    · have hlen := length_continuation_le (count - 1) low high rest
      rw [decodeStep_shape hshape] at h ⊢
      split at h
      next hdone =>
        rw [continuation_append more (Or.inl hdone), if_pos hdone]
        exact h
      next hdone =>
        split at h
        next => cases h
        next hwait =>
          have hlt : (continuation (count - 1) low high rest).length < rest.length := by
            have hne : (continuation (count - 1) low high rest).length ≠ rest.length :=
              fun heq => hwait ⟨heq, rfl⟩
            omega
          rw [continuation_append more (Or.inr hlt), if_neg hdone, if_neg]
          · exact h
          · rw [List.length_append]
            omega

theorem drain_drains {fuel : Nat} {buffer : Bytes} (h : buffer.length ≤ fuel) :
    Drains buffer (drain false fuel buffer).1 (drain false fuel buffer).2 := by
  induction fuel generalizing buffer with
  | zero =>
    have hnil : buffer = [] := List.length_eq_zero_iff.mp (Nat.le_zero.mp h)
    rw [hnil]
    exact Drains.held rfl
  | succ fuel ih =>
    unfold drain
    split
    next hstep => exact Drains.held hstep
    next chars size hstep =>
      have hsize := decodeStep_size hstep
      refine Drains.step hstep (ih ?_)
      rw [List.length_drop]
      omega

theorem decodeIgnore_drains (buffer : Bytes) :
    Drains buffer (decodeIgnore false buffer).1 (decodeIgnore false buffer).2 :=
  drain_drains (Nat.le_refl _)

/-- Bytes that come in two pieces give the text of the pieces. -/
theorem Drains.append {buffer held more last : Bytes} {text rest : List Char}
    (h : Drains buffer text held) (hmore : Drains (held ++ more) rest last) :
    Drains (buffer ++ more) (text ++ rest) last := by
  induction h with
  | held _ => exact hmore
  | step hstep _ ih =>
    have hsize := (decodeStep_size hstep).2
    rw [List.append_assoc]
    refine Drains.step (decodeStep_append more hstep) ?_
    rw [List.drop_append_of_le_length hsize]
    exact ih hmore

theorem Drains.held_stuck {buffer held : Bytes} {text : List Char} (h : Drains buffer text held) :
    decodeStep false held = none := by
  induction h with
  | held h => exact h
  | step _ _ ih => exact ih

theorem drain_nil (final : Bool) (fuel : Nat) : drain final fuel [] = ([], []) := by
  cases fuel with
  | zero => rfl
  | succ fuel => rfl

/-- Bytes held back are what a character begins with, and nothing else. -/
theorem decodeStep_final {b : UInt8} {rest : Bytes} (h : decodeStep false (b :: rest) = none) :
    decodeStep true (b :: rest) = some ([], (b :: rest).length) := by
  rcases hshape : utf8Shape b with _ | ⟨count, low, high⟩
  · rw [decodeStep_none hshape] at h
    cases h
  · rw [decodeStep_shape hshape] at h ⊢
    split at h
    next => cases h
    next hdone =>
      split at h
      next hwait =>
        rw [if_neg hdone, if_neg (fun hf => Bool.noConfusion hf.2), hwait.1, List.length_cons,
          Nat.add_comm]
      next => cases h

/-- What is held back at the end gives no more text. -/
theorem decodeIgnore_final {held : Bytes} (h : decodeStep false held = none) :
    (decodeIgnore true held).1 = [] := by
  cases held with
  | nil => rfl
  | cons b rest =>
    unfold decodeIgnore
    rw [List.length_cons]
    simp only [drain, decodeStep_final h]
    rw [List.drop_length, drain_nil]
    rfl

/-! ## Characters are read wherever they stand -/

theorem Reads.decodeStep {c : Char} {lead : UInt8} {rest : Bytes} {size : Nat}
    (h : Reads c lead rest size) (more : Bytes) :
    decodeStep false (lead :: rest ++ more) = some ([c], size) := by
  obtain ⟨low, high, hshape, hcont⟩ := h.shape
  rw [List.cons_append, decodeStep_shape hshape, hcont more, if_pos h.length, h.char]

theorem Reads.drop {c : Char} {lead : UInt8} {rest : Bytes} {size : Nat}
    (h : Reads c lead rest size) (more : Bytes) : (lead :: rest ++ more).drop size = more := by
  obtain ⟨low, high, hshape, _⟩ := h.shape
  have hsize := (utf8Shape_range hshape).1
  have hlen : (lead :: rest).length = size := by
    rw [List.length_cons, h.length]
    omega
  exact List.drop_left' hlen

/-- Characters at the front of the bytes stand at the front of the text. -/
theorem Drains.reads_front {chars text : List Char} {more held : Bytes}
    (h : Drains (encode chars ++ more) text held) : chars <+: text := by
  induction chars generalizing text with
  | nil => exact List.nil_prefix
  | cons c chars ih =>
    obtain ⟨lead, rest, size, hc⟩ := exists_reads c
    have hbytes : encode (c :: chars) ++ more = lead :: rest ++ (encode chars ++ more) := by
      unfold encode
      rw [List.flatMap_cons, hc.encode, List.append_assoc]
    rw [hbytes] at h
    have hstep := hc.decodeStep (encode chars ++ more)
    cases h with
    | held hnone =>
      rw [hstep] at hnone
      cases hnone
    | step hsome hrest =>
      rw [hstep] at hsome
      cases hsome
      rw [hc.drop] at hrest
      exact List.cons_prefix_cons.mpr ⟨rfl, ih hrest⟩

/-- A step that starts before a character ends before it. -/
theorem decodeStep_before {front : Bytes} {lead : UInt8} (more : Bytes)
    (hlead : startsCharacter lead) (hne : front ≠ []) :
    ∃ chars size, decodeStep false (front ++ lead :: more) = some (chars, size) ∧
      1 ≤ size ∧ size ≤ front.length := by
  cases front with
  | nil => exact absurd rfl hne
  | cons b rest =>
    rw [List.cons_append, List.length_cons]
    rcases hshape : utf8Shape b with _ | ⟨count, low, high⟩
    · exact ⟨[], 1, decodeStep_none hshape, Nat.le_refl 1, by omega⟩
    · have hrange := utf8Shape_range hshape
      have hlen := length_continuation_le (count - 1) low high rest
      rw [decodeStep_shape hshape, continuation_append_start hrange.2.1 hrange.2.2 hlead]
      by_cases hdone : (continuation (count - 1) low high rest).length = count - 1
      · rw [if_pos hdone]
        exact ⟨_, count, rfl, hrange.1, by omega⟩
      · rw [if_neg hdone, if_neg]
        · exact ⟨[], _, rfl, by omega, by omega⟩
        · rw [List.length_append, List.length_cons]
          omega

/-- The decoder stops before the first byte of a character, wherever it began. -/
theorem drain_resync {buffer front tail held : Bytes} {lead : UInt8} {text : List Char}
    (h : Drains buffer text held) (hlead : startsCharacter lead) (heq : buffer = front ++ lead :: tail) :
    ∃ skipped rest, text = skipped ++ rest ∧ Drains (lead :: tail) rest held := by
  induction h generalizing front with
  | held hnone =>
    by_cases hfront : front = []
    · rw [hfront, List.nil_append] at heq
      exact ⟨[], [], rfl, heq ▸ Drains.held (heq ▸ hnone)⟩
    · obtain ⟨_, _, hstep, _⟩ := decodeStep_before tail hlead hfront
      rw [heq, hstep] at hnone
      cases hnone
  | @step _ _ chars _ size hsome hrest ih =>
    by_cases hfront : front = []
    · rw [hfront, List.nil_append] at heq
      exact ⟨[], _, rfl, heq ▸ Drains.step hsome hrest⟩
    · obtain ⟨_, _, hstep, _, hsize⟩ := decodeStep_before tail hlead hfront
      rw [heq, hstep] at hsome
      cases hsome
      obtain ⟨skipped, rest, htext, hdrains⟩ := @ih (front.drop size)
        (by rw [heq, List.drop_append_of_le_length hsize])
      exact ⟨chars ++ skipped, rest, by rw [htext, List.append_assoc], hdrains⟩

theorem encode_cons (c : Char) (chars : List Char) :
    encode (c :: chars) = String.utf8EncodeChar c ++ encode chars := List.flatMap_cons

/-- Characters that stand in the bytes stand in the text. -/
theorem Drains.reads_inside {buffer held : Bytes} {chars text : List Char} (h : Drains buffer text held)
    (hin : encode chars <:+: buffer) : chars <:+: text := by
  cases chars with
  | nil => exact List.nil_infix
  | cons c chars =>
    obtain ⟨lead, rest, size, hc⟩ := exists_reads c
    obtain ⟨front, more, heq⟩ := hin
    have hbytes : encode (c :: chars) ++ more = lead :: (rest ++ (encode chars ++ more)) := by
      rw [encode_cons, hc.encode, List.append_assoc, List.cons_append]
    rw [List.append_assoc, hbytes] at heq
    obtain ⟨skipped, found, htext, hdrains⟩ := drain_resync h hc.starts heq.symm
    rw [← hbytes] at hdrains
    rw [htext]
    exact hdrains.reads_front.isInfix.trans (List.suffix_append skipped found).isInfix

/-! ## Decoding with replacement -/

theorem decodeReplace_shape (fuel : Nat) {b low high : UInt8} (rest : Bytes) {size : Nat}
    (h : utf8Shape b = some (size, low, high)) :
    ∃ c, (decodeReplace (fuel + 1) (b :: rest)).1 =
      c :: (decodeReplace fuel (rest.drop (continuation (size - 1) low high rest).length)).1 ∧
      ((continuation (size - 1) low high rest).length = size - 1 →
        c = utf8Char b size (continuation (size - 1) low high rest)) := by
  simp only [decodeReplace, h]
  by_cases hdone : (continuation (size - 1) low high rest).length = size - 1
  · rw [if_pos hdone]
    exact ⟨_, rfl, fun _ => rfl⟩
  · rw [if_neg hdone]
    exact ⟨_, rfl, fun hbad => absurd hbad hdone⟩

theorem decodeReplace_none {fuel : Nat} {b : UInt8} {rest : Bytes} (h : utf8Shape b = none) :
    (decodeReplace (fuel + 1) (b :: rest)).1 = '\uFFFD' :: (decodeReplace fuel rest).1 := by
  simp only [decodeReplace, h]

theorem decodeReplace_front {chars : List Char} {more : Bytes} {fuel : Nat}
    (h : (encode chars ++ more).length ≤ fuel) :
    chars <+: (decodeReplace fuel (encode chars ++ more)).1 := by
  induction chars generalizing fuel with
  | nil => exact List.nil_prefix
  | cons c chars ih =>
    obtain ⟨lead, rest, size, hc⟩ := exists_reads c
    obtain ⟨low, high, hshape, hcont⟩ := hc.shape
    rw [encode_cons, hc.encode, List.append_assoc, List.cons_append, List.length_cons] at h
    rw [encode_cons, hc.encode, List.append_assoc, List.cons_append]
    cases fuel with
    | zero => exact absurd h (by omega)
    | succ fuel =>
      obtain ⟨c', heq, hchar⟩ := decodeReplace_shape fuel (rest ++ (encode chars ++ more)) hshape
      rw [hcont, List.drop_left] at heq
      rw [hcont] at hchar
      rw [heq, hchar hc.length, hc.char]
      refine List.cons_prefix_cons.mpr ⟨rfl, ih ?_⟩
      rw [List.length_append] at h
      omega

/-- Characters that stand in the bytes stand in the text that is decoded with
replacement, whatever stands before them. -/
theorem decodeReplace_inside {bytes : Bytes} {chars : List Char} {fuel : Nat}
    (hfuel : bytes.length ≤ fuel) (hin : encode chars <:+: bytes) :
    chars <:+: (decodeReplace fuel bytes).1 := by
  cases chars with
  | nil => exact List.nil_infix
  | cons c chars =>
    obtain ⟨lead, rest, size, hc⟩ := exists_reads c
    obtain ⟨front, more, heq⟩ := hin
    rw [List.append_assoc] at heq
    subst heq
    induction fuel generalizing front with
    | zero =>
      rw [encode_cons, hc.encode] at hfuel
      simp at hfuel
    | succ fuel ih =>
      cases front with
      | nil => exact (decodeReplace_front hfuel).isInfix
      | cons b front =>
        have hbytes : encode (c :: chars) ++ more = lead :: (rest ++ (encode chars ++ more)) := by
          rw [encode_cons, hc.encode, List.append_assoc, List.cons_append]
        rw [List.cons_append, List.length_cons] at hfuel
        rw [List.cons_append]
        rcases hshape : utf8Shape b with _ | ⟨count, low, high⟩
        · rw [decodeReplace_none hshape]
          exact (ih front (by omega)).trans (List.suffix_cons _ _).isInfix
        · -- what follows the broken piece still has the characters in it
          have hrange := utf8Shape_range hshape
          have hlen := length_continuation_le (count - 1) low high front
          obtain ⟨c', heq, _⟩ := decodeReplace_shape fuel
            (front ++ (encode (c :: chars) ++ more)) hshape
          rw [heq]
          have hcont : continuation (count - 1) low high (front ++ (encode (c :: chars) ++ more))
              = continuation (count - 1) low high front := by
            rw [hbytes]
            exact continuation_append_start hrange.2.1 hrange.2.2 hc.starts
          rw [hcont, List.drop_append_of_le_length hlen.2]
          refine (ih _ ?_).trans (List.suffix_cons _ _).isInfix
          rw [List.length_append, List.length_drop]
          rw [List.length_append] at hfuel
          omega

end CameraLogs.Logs

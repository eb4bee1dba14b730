import CameraLogs.Logs.Utf8Text

/-!
# What is decoded without a replacement

A decoder that has replaced nothing has read characters one behind the other, and the bytes are
what these are written as: a first byte and continuation bytes in its range are the bytes of the
character that is made of them (`reads_of_shape`).
-/

namespace CameraLogs.Logs

open Lib

/-- A byte is given by its value. -/
theorem ofNat_eq {n : Nat} {b : UInt8} (h : n = b.toNat) : UInt8.ofNat n = b := by
  rw [h, UInt8.ofNat_toNat]

/-- The character of a value that is one. -/
theorem val_ofNat {v : Nat} (h : v < 0xD800 ∨ (0xDFFF < v ∧ v < 0x110000)) :
    (Char.ofNat v).val.toNat = v := by
  have hvalid : v.isValidChar := h
  unfold Char.ofNat
  rw [dif_pos hvalid]
  rfl

/-- Continuation bytes that are all there start with one in the range of the second byte. -/
theorem continuation_full {n : Nat} {low high : UInt8} {rest : Bytes}
    (h : (continuation (n + 1) low high rest).length = n + 1) :
    ∃ x tail, rest = x :: tail ∧ low.toNat ≤ x.toNat ∧ x.toNat ≤ high.toNat ∧
      continuation (n + 1) low high rest = x :: continuation n 0x80 0xBF tail ∧
      (continuation n 0x80 0xBF tail).length = n := by
  cases rest with
  | nil => exact absurd h (Nat.succ_ne_zero n).symm
  | cons x tail =>
    by_cases hx : low ≤ x ∧ x ≤ high
    · have heq : continuation (n + 1) low high (x :: tail) = x :: continuation n 0x80 0xBF tail :=
        if_pos hx
      rw [heq, List.length_cons] at h
      exact ⟨x, tail, rfl, UInt8.le_iff_toNat_le.mp hx.1, UInt8.le_iff_toNat_le.mp hx.2, heq,
        Nat.succ.inj h⟩
    · rw [continuation_cons_of_not hx] at h
      exact absurd h (Nat.succ_ne_zero n).symm

theorem continuation_append_drop (n : Nat) (low high : UInt8) (rest : Bytes) :
    continuation n low high rest ++ rest.drop (continuation n low high rest).length = rest := by
  induction n generalizing low high rest with
  | zero => rfl
  | succ n ih =>
    cases rest with
    | nil => rfl
    | cons x tail =>
      by_cases hx : low ≤ x ∧ x ≤ high
      · have heq : continuation (n + 1) low high (x :: tail) = x :: continuation n 0x80 0xBF tail :=
          if_pos hx
        rw [heq, List.length_cons, List.drop_succ_cons, List.cons_append, ih]
      · rw [continuation_cons_of_not hx]
        rfl

/-- The four kinds of first bytes. -/
theorem utf8Shape_cases {b : UInt8} {shape : Nat × UInt8 × UInt8} (h : utf8Shape b = some shape) :
    (b.toNat < 0x80 ∧ shape = (1, 0x80, 0xBF)) ∨
    (0xC2 ≤ b.toNat ∧ b.toNat < 0xE0 ∧ shape = (2, 0x80, 0xBF)) ∨
    (0xE0 ≤ b.toNat ∧ b.toNat < 0xF0 ∧
      shape = (3, if b.toNat = 0xE0 then 0xA0 else 0x80, if b.toNat = 0xED then 0x9F else 0xBF)) ∨
    (0xF0 ≤ b.toNat ∧ b.toNat < 0xF5 ∧
      shape = (4, if b.toNat = 0xF0 then 0x90 else 0x80, if b.toNat = 0xF4 then 0x8F else 0xBF)) := by
  by_cases h1 : b.toNat < 0x80
  · rw [utf8Shape_one h1] at h
    exact Or.inl ⟨h1, (Option.some.inj h).symm⟩
  by_cases h2 : b.toNat < 0xC2
  · simp [utf8Shape, UInt8.lt_iff_toNat_lt, ← UInt8.toNat_inj] at h
    grind
  by_cases h3 : b.toNat < 0xE0
  · rw [utf8Shape_two (by omega) h3] at h
    exact Or.inr (Or.inl ⟨by omega, h3, (Option.some.inj h).symm⟩)
  by_cases h4 : b.toNat < 0xF0
  · rw [utf8Shape_three (by omega) h4] at h
    exact Or.inr (Or.inr (Or.inl ⟨by omega, h4, (Option.some.inj h).symm⟩))
  by_cases h5 : b.toNat < 0xF5
  · rw [utf8Shape_four (by omega) h5] at h
    exact Or.inr (Or.inr (Or.inr ⟨by omega, h5, (Option.some.inj h).symm⟩))
  · simp [utf8Shape, UInt8.lt_iff_toNat_lt, ← UInt8.toNat_inj] at h
    grind

/-- **A first byte and its continuation bytes are those of the character made of them.** -/
theorem reads_of_shape {b low high : UInt8} {size : Nat} {rest : Bytes}
    (hshape : utf8Shape b = some (size, low, high))
    (hfull : (continuation (size - 1) low high rest).length = size - 1) :
    Reads (utf8Char b size (continuation (size - 1) low high rest)) b
      (continuation (size - 1) low high rest) size := by
  rcases utf8Shape_cases hshape with ⟨h1, heq⟩ | ⟨hlo, hhi, heq⟩ | ⟨hlo, hhi, heq⟩ | ⟨hlo, hhi, heq⟩
  · obtain ⟨rfl, rfl, rfl⟩ : size = 1 ∧ low = 0x80 ∧ high = 0xBF := by simpa using heq
    show Reads (Char.ofNat b.toNat) b [] 1
    have hreads := @reads_one (Char.ofNat b.toNat) b.toNat (val_ofNat (Or.inl (by omega))) rfl
      (by omega)
    rwa [UInt8.ofNat_toNat] at hreads
  · obtain ⟨rfl, rfl, rfl⟩ : size = 2 ∧ low = 0x80 ∧ high = 0xBF := by simpa using heq
    obtain ⟨x, tail, -, hx, hx', hcont, -⟩ := continuation_full hfull
    have hb : (0x80 : UInt8).toNat = 0x80 := rfl
    have hb' : (0xBF : UInt8).toNat = 0xBF := rfl
    rw [hb] at hx
    rw [hb'] at hx'
    show Reads (utf8Char b 2 (continuation 1 _ _ rest)) b (continuation 1 _ _ rest) 2
    rw [hcont]
    show Reads (Char.ofNat (b.toNat % 2 ^ 5 * 64 + x.toNat % 64)) b [x] 2
    have hreads := @reads_two (Char.ofNat (b.toNat % 2 ^ 5 * 64 + x.toNat % 64))
      (b.toNat % 2 ^ 5 * 64 + x.toNat % 64) (val_ofNat (Or.inl (by omega))) rfl (by omega) (by omega)
    rw [@ofNat_eq _ b (by omega), @ofNat_eq _ x (by omega)] at hreads
    exact hreads
  · obtain ⟨rfl, hlow, hhigh⟩ : size = 3 ∧ low = (if b.toNat = 0xE0 then 0xA0 else 0x80) ∧
        high = (if b.toNat = 0xED then 0x9F else 0xBF) := by simpa using heq
    obtain ⟨x, tail, -, hx, hx', hcont, htail⟩ := continuation_full hfull
    obtain ⟨y, tail', -, hy, hy', hcont', -⟩ := continuation_full htail
    have hlow' : low.toNat = if b.toNat = 0xE0 then 0xA0 else 0x80 := by
      rw [hlow, apply_ite UInt8.toNat]
      rfl
    have hhigh' : high.toNat = if b.toNat = 0xED then 0x9F else 0xBF := by
      rw [hhigh, apply_ite UInt8.toNat]
      rfl
    rw [hlow'] at hx
    rw [hhigh'] at hx'
    rw [show (0x80 : UInt8).toNat = 0x80 from rfl] at hy
    rw [show (0xBF : UInt8).toNat = 0xBF from rfl] at hy'
    show Reads (utf8Char b 3 (continuation 2 _ _ rest)) b (continuation 2 _ _ rest) 3
    rw [hcont, hcont']
    show Reads (Char.ofNat ((b.toNat % 2 ^ 4 * 64 + x.toNat % 64) * 64 + y.toNat % 64)) b [x, y] 3
    -- the second byte keeps the value from being one of two bytes or a surrogate
    have hv : 0x7FF < (b.toNat % 2 ^ 4 * 64 + x.toNat % 64) * 64 + y.toNat % 64 ∧
        ((b.toNat % 2 ^ 4 * 64 + x.toNat % 64) * 64 + y.toNat % 64 < 0xD800 ∨
          0xDFFF < (b.toNat % 2 ^ 4 * 64 + x.toNat % 64) * 64 + y.toNat % 64) := by
      split at hx <;> split at hx' <;> omega
    have hx80 : 0x80 ≤ x.toNat ∧ x.toNat ≤ 0xBF := by
      split at hx <;> split at hx' <;> omega
    have hreads := @reads_three
      (Char.ofNat ((b.toNat % 2 ^ 4 * 64 + x.toNat % 64) * 64 + y.toNat % 64))
      ((b.toNat % 2 ^ 4 * 64 + x.toNat % 64) * 64 + y.toNat % 64) (val_ofNat (by omega)) rfl hv.2
      (by omega) (by omega)
    rw [@ofNat_eq _ b (by omega), @ofNat_eq _ x (by omega), @ofNat_eq _ y (by omega)] at hreads
    exact hreads
  · obtain ⟨rfl, hlow, hhigh⟩ : size = 4 ∧ low = (if b.toNat = 0xF0 then 0x90 else 0x80) ∧
        high = (if b.toNat = 0xF4 then 0x8F else 0xBF) := by simpa using heq
    obtain ⟨x, tail, -, hx, hx', hcont, htail⟩ := continuation_full hfull
    obtain ⟨y, tail', -, hy, hy', hcont', htail'⟩ := continuation_full htail
    obtain ⟨z, tail'', -, hz, hz', hcont'', -⟩ := continuation_full htail'
    have hlow' : low.toNat = if b.toNat = 0xF0 then 0x90 else 0x80 := by
      rw [hlow, apply_ite UInt8.toNat]
      rfl
    have hhigh' : high.toNat = if b.toNat = 0xF4 then 0x8F else 0xBF := by
      rw [hhigh, apply_ite UInt8.toNat]
      rfl
    rw [hlow'] at hx
    rw [hhigh'] at hx'
    rw [show (0x80 : UInt8).toNat = 0x80 from rfl] at hy hz
    rw [show (0xBF : UInt8).toNat = 0xBF from rfl] at hy' hz'
    show Reads (utf8Char b 4 (continuation 3 _ _ rest)) b (continuation 3 _ _ rest) 4
    rw [hcont, hcont', hcont'']
    show Reads (Char.ofNat (((b.toNat % 2 ^ 3 * 64 + x.toNat % 64) * 64 + y.toNat % 64) * 64 +
      z.toNat % 64)) b [x, y, z] 4
    have hx80 : 0x80 ≤ x.toNat ∧ x.toNat ≤ 0xBF := by
      split at hx <;> split at hx' <;> omega
    have hv : 0xFFFF < ((b.toNat % 2 ^ 3 * 64 + x.toNat % 64) * 64 + y.toNat % 64) * 64 +
        z.toNat % 64 ∧ ((b.toNat % 2 ^ 3 * 64 + x.toNat % 64) * 64 + y.toNat % 64) * 64 +
          z.toNat % 64 < 0x110000 := by
      split at hx <;> split at hx' <;> omega
    have hreads := @reads_four
      (Char.ofNat (((b.toNat % 2 ^ 3 * 64 + x.toNat % 64) * 64 + y.toNat % 64) * 64 + z.toNat % 64))
      (((b.toNat % 2 ^ 3 * 64 + x.toNat % 64) * 64 + y.toNat % 64) * 64 + z.toNat % 64)
      (val_ofNat (by omega)) rfl hv.2 (by omega)
    rw [@ofNat_eq _ b (by omega), @ofNat_eq _ x (by omega), @ofNat_eq _ y (by omega),
      @ofNat_eq _ z (by omega)] at hreads
    exact hreads

/-- What is written in UTF-8 is decoded as it is. -/
theorem decodeReplace_encode {chars : List Char} {fuel : Nat} (h : (encode chars).length ≤ fuel) :
    decodeReplace fuel (encode chars) = (chars, false) := by
  induction chars generalizing fuel with
  | nil =>
    show decodeReplace fuel [] = ([], false)
    cases fuel <;> rfl
  | cons c chars ih =>
    obtain ⟨lead, rest, size, hc⟩ := exists_reads c
    obtain ⟨low, high, hshape, hcont⟩ := hc.shape
    rw [encode_cons, hc.encode, List.cons_append] at h ⊢
    rw [List.length_cons, List.length_append] at h
    cases fuel with
    | zero => exact absurd h (Nat.not_succ_le_zero _)
    | succ fuel =>
      simp only [decodeReplace, hshape, hcont, List.drop_left, ih (show _ ≤ fuel by omega)]
      rw [if_pos hc.length, hc.char]

/-- What is decoded without a replacement is what its text is written as. -/
theorem decodeReplace_valid {fuel : Nat} {bytes : Bytes} (hfuel : bytes.length ≤ fuel)
    (h : (decodeReplace fuel bytes).2 = false) : bytes = encode (decodeReplace fuel bytes).1 := by
  induction fuel generalizing bytes with
  | zero => exact List.length_eq_zero_iff.mp (Nat.le_zero.mp hfuel)
  | succ fuel ih =>
    cases bytes with
    | nil => rfl
    | cons b rest =>
      rw [List.length_cons] at hfuel
      cases hshape : utf8Shape b with
      | none => simp [decodeReplace, hshape] at h
      | some shape =>
        obtain ⟨size, low, high⟩ := shape
        simp only [decodeReplace, hshape] at h ⊢
        by_cases hfull : (continuation (size - 1) low high rest).length = size - 1
        · rw [if_pos hfull] at h ⊢
          have hreads := reads_of_shape hshape hfull
          rw [encode_cons, hreads.encode, List.cons_append, ← ih (by
            rw [List.length_drop]
            omega) h, continuation_append_drop]
        · rw [if_neg hfull] at h
          cases h

/-- **Nothing is replaced exactly in what is UTF-8.** -/
theorem decodeReplace_eq_false_iff (bytes : Bytes) :
    (decodeReplace bytes.length bytes).2 = false ↔ ∃ chars, bytes = encode chars := by
  constructor
  · intro h
    exact ⟨_, decodeReplace_valid (Nat.le_refl _) h⟩
  · rintro ⟨chars, rfl⟩
    rw [decodeReplace_encode (Nat.le_refl _)]

end CameraLogs.Logs

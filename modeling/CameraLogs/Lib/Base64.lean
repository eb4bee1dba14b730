import Mathlib.Data.List.DropRight

/-!
# Base64 in the URL-safe alphabet

`encode` writes three bytes as four characters and fills the last four with `=`. `decode` is the
lenient decoder: it reads both alphabets, passes over other characters, and stops at the `=` that
completes four characters.

Cursors are written without the `=` and get them back from their length (`decode_repad`).
-/

namespace CameraLogs.Lib.Base64

variable {n : Nat} {c : Char} {l : List UInt8}

def alphabet : List Char :=
  ['A', 'B', 'C', 'D', 'E', 'F', 'G', 'H', 'I', 'J', 'K', 'L', 'M', 'N', 'O', 'P', 'Q', 'R', 'S',
    'T', 'U', 'V', 'W', 'X', 'Y', 'Z', 'a', 'b', 'c', 'd', 'e', 'f', 'g', 'h', 'i', 'j', 'k', 'l',
    'm', 'n', 'o', 'p', 'q', 'r', 's', 't', 'u', 'v', 'w', 'x', 'y', 'z', '0', '1', '2', '3', '4',
    '5', '6', '7', '8', '9', '-', '_']

def encodeChar (n : Nat) : Char := alphabet.getD n 'A'

/-- The value of a character of either alphabet. -/
def decodeChar (c : Char) : Option Nat :=
  if c = '+' then some 62 else if c = '/' then some 63 else alphabet.findIdx? (· == c)

def encode : List UInt8 → List Char
  | [] => []
  | [a] => [encodeChar (a.toNat / 4), encodeChar (a.toNat % 4 * 16), '=', '=']
  | [a, b] =>
    [encodeChar (a.toNat / 4), encodeChar (a.toNat % 4 * 16 + b.toNat / 16),
      encodeChar (b.toNat % 16 * 4), '=']
  | a :: b :: c :: l =>
    encodeChar (a.toNat / 4) :: encodeChar (a.toNat % 4 * 16 + b.toNat / 16) ::
      encodeChar (b.toNat % 16 * 4 + c.toNat / 64) :: encodeChar (c.toNat % 64) :: encode l

/-- The decoder inside four characters: how many it has of them, the bits left of the last one,
and the `=` seen since. -/
def decodeFrom (quad left pads : Nat) : List Char → Option (List UInt8)
  | [] => if quad = 0 then some [] else none
  | c :: text =>
    if c = '=' then
      if 2 ≤ quad ∧ 4 ≤ quad + (pads + 1) then some []
      else decodeFrom quad left (if 2 ≤ quad then pads + 1 else pads) text
    else
      match decodeChar c with
      | none => decodeFrom quad left pads text
      | some n =>
        match quad with
        | 0 => decodeFrom 1 n 0 text
        | 1 => (decodeFrom 2 (n % 16) 0 text).map (UInt8.ofNat (left * 4 + n / 16) :: ·)
        | 2 => (decodeFrom 3 (n % 4) 0 text).map (UInt8.ofNat (left * 16 + n / 4) :: ·)
        | _ => (decodeFrom 0 0 0 text).map (UInt8.ofNat (left * 64 + n) :: ·)

def decode (text : List Char) : Option (List UInt8) := decodeFrom 0 0 0 text

/-- `text.rstrip("=")` -/
def unpad (text : List Char) : List Char := text.rdropWhile (· = '=')

/-- `text + "=" * (-len(text) % 4)` -/
def repad (text : List Char) : List Char :=
  text ++ List.replicate ((4 - text.length % 4) % 4) '='

theorem encodeChar_table : ∀ n < 64, decodeChar (encodeChar n) = some n ∧ encodeChar n ≠ '=' ∧
    encodeChar n ≠ '.' := by decide

theorem decodeChar_encodeChar (h : n < 64) : decodeChar (encodeChar n) = some n :=
  (encodeChar_table n h).1

theorem encodeChar_ne_pad (h : n < 64) : encodeChar n ≠ '=' := (encodeChar_table n h).2.1

/-- One character of the alphabet takes the decoder one place on. -/
theorem decodeFrom_encodeChar (quad left pads : Nat) (h : n < 64) (text : List Char) :
    decodeFrom quad left pads (encodeChar n :: text) =
      match quad with
      | 0 => decodeFrom 1 n 0 text
      | 1 => (decodeFrom 2 (n % 16) 0 text).map (UInt8.ofNat (left * 4 + n / 16) :: ·)
      | 2 => (decodeFrom 3 (n % 4) 0 text).map (UInt8.ofNat (left * 16 + n / 4) :: ·)
      | _ => (decodeFrom 0 0 0 text).map (UInt8.ofNat (left * 64 + n) :: ·) := by
  rw [decodeFrom, if_neg (encodeChar_ne_pad h), decodeChar_encodeChar h]

theorem ofNat_eq (a : UInt8) (h : n = a.toNat) : UInt8.ofNat n = a := by
  rw [h, UInt8.ofNat_toNat]

theorem decode_encode (l : List UInt8) : decode (encode l) = some l := by
  unfold decode
  induction l using encode.induct with
  | case1 => rfl
  | case2 a =>
    have ha := a.toNat_lt
    rw [encode, decodeFrom_encodeChar _ _ _ (by omega)]
    show decodeFrom 1 _ 0 _ = _
    rw [decodeFrom_encodeChar _ _ _ (by omega)]
    show Option.map _ (some []) = _
    rw [Option.map_some, ofNat_eq a (by omega)]
  | case3 a b =>
    have ha := a.toNat_lt
    have hb := b.toNat_lt
    rw [encode, decodeFrom_encodeChar _ _ _ (by omega)]
    show decodeFrom 1 _ 0 _ = _
    rw [decodeFrom_encodeChar _ _ _ (by omega)]
    show Option.map _ (decodeFrom 2 _ 0 _) = _
    rw [decodeFrom_encodeChar _ _ _ (by omega)]
    show Option.map _ (Option.map _ (some [])) = _
    rw [Option.map_some, Option.map_some, ofNat_eq a (by omega), ofNat_eq b (by omega)]
  | case4 a b c l ih =>
    have ha := a.toNat_lt
    have hb := b.toNat_lt
    have hc := c.toNat_lt
    rw [encode, decodeFrom_encodeChar _ _ _ (by omega)]
    show decodeFrom 1 _ 0 _ = _
    rw [decodeFrom_encodeChar _ _ _ (by omega)]
    show Option.map _ (decodeFrom 2 _ 0 _) = _
    rw [decodeFrom_encodeChar _ _ _ (by omega)]
    show Option.map _ (Option.map _ (decodeFrom 3 _ 0 _)) = _
    rw [decodeFrom_encodeChar _ _ _ (by omega)]
    show Option.map _ (Option.map _ (Option.map _ (decodeFrom 0 0 0 (encode l)))) = _
    rw [ih, Option.map_some, Option.map_some, Option.map_some, ofNat_eq a (by omega),
      ofNat_eq b (by omega), ofNat_eq c (by omega)]

/-- An encoding is a text of the alphabet and at most two `=` that make its length one of fours. -/
theorem encode_shape (l : List UInt8) : ∃ body k, encode l = body ++ List.replicate k '=' ∧
    (∀ c ∈ body, c ≠ '=' ∧ c ≠ '.') ∧ k < 4 ∧ (body.length + k) % 4 = 0 ∧
      l.length * 4 ≤ body.length * 3 ∧ body.length * 3 ≤ l.length * 4 + 2 := by
  have hchar {n : Nat} (h : n < 64) : encodeChar n ≠ '=' ∧ encodeChar n ≠ '.' :=
    (encodeChar_table n h).2
  induction l using encode.induct with
  | case1 => exact ⟨[], 0, rfl, nofun, by decide, rfl, by decide, by decide⟩
  | case2 a =>
    have ha := a.toNat_lt
    refine ⟨[encodeChar (a.toNat / 4), encodeChar (a.toNat % 4 * 16)], 2, rfl, ?_, by decide, by simp,
      by simp, by simp⟩
    simp only [List.forall_mem_cons]
    exact ⟨hchar (by omega), hchar (by omega), nofun⟩
  | case3 a b =>
    have ha := a.toNat_lt
    have hb := b.toNat_lt
    refine ⟨[encodeChar (a.toNat / 4), encodeChar (a.toNat % 4 * 16 + b.toNat / 16),
      encodeChar (b.toNat % 16 * 4)], 1, rfl, ?_, by decide, by simp,
      by simp, by simp⟩
    simp only [List.forall_mem_cons]
    exact ⟨hchar (by omega), hchar (by omega), hchar (by omega), nofun⟩
  | case4 a b c l ih =>
    have ha := a.toNat_lt
    have hb := b.toNat_lt
    have hc := c.toNat_lt
    obtain ⟨body, k, hencode, hbody, hk, hlen, hlow, hbound⟩ := ih
    refine ⟨encodeChar (a.toNat / 4) :: encodeChar (a.toNat % 4 * 16 + b.toNat / 16) ::
      encodeChar (b.toNat % 16 * 4 + c.toNat / 64) :: encodeChar (c.toNat % 64) :: body, k,
      ?_, ?_, hk, ?_, ?_, ?_⟩
    · rw [encode, hencode]
      rfl
    · simp only [List.forall_mem_cons]
      exact ⟨hchar (by omega), hchar (by omega), hchar (by omega), hchar (by omega), hbody⟩
    · simp only [List.length_cons]
      omega
    · simp only [List.length_cons]
      omega
    · simp only [List.length_cons]
      omega

theorem unpad_append {body : List Char} (h : ∀ c ∈ body, c ≠ '=') (k : Nat) :
    unpad (body ++ List.replicate k '=') = body := by
  unfold unpad
  induction k with
  | zero =>
    rw [List.replicate_zero, List.append_nil, List.rdropWhile_eq_self_iff]
    intro hne
    simpa using h _ (List.getLast_mem hne)
  | succ k ih =>
    rw [List.replicate_succ', ← List.append_assoc, List.rdropWhile_concat_pos _ _ _ (by simp), ih]

/-- A text without its `=` gets them back. -/
theorem repad_unpad (l : List UInt8) : repad (unpad (encode l)) = encode l := by
  obtain ⟨body, k, hencode, hbody, hk, hlen, -⟩ := encode_shape l
  rw [hencode, unpad_append fun c hc => (hbody c hc).1]
  have hpads : (4 - body.length % 4) % 4 = k := by omega
  rw [repad, hpads]

theorem decode_repad (l : List UInt8) : decode (repad (unpad (encode l))) = some l := by
  rw [repad_unpad, decode_encode]

theorem dot_not_mem_unpad (l : List UInt8) : '.' ∉ unpad (encode l) := by
  obtain ⟨body, k, hencode, hbody, -⟩ := encode_shape l
  rw [hencode, unpad_append fun c hc => (hbody c hc).1]
  exact fun h => (hbody _ h).2 rfl

/-- Four characters for three bytes. -/
theorem length_unpad (l : List UInt8) : l.length * 4 ≤ (unpad (encode l)).length * 3 ∧
    (unpad (encode l)).length * 3 ≤ l.length * 4 + 2 := by
  obtain ⟨body, k, hencode, hbody, -, -, hbound⟩ := encode_shape l
  rwa [hencode, unpad_append fun c hc => (hbody c hc).1]

end CameraLogs.Lib.Base64

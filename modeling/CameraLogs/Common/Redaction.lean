import CameraLogs.Lib.Pattern
import CameraLogs.Lib.Substitution
import CameraLogs.Logs.Naming

/-!
# Redaction of texts

`redactText` replaces what stands behind `bearer` first, and then the values of what looks like a
member with a secret name: a name, a `:` or `=`, and a value in quotes or a bare one. Both are
substitutions by patterns, and `labelled_secret` and `labelled_bearer` say what they find: a label
behind something that is no letter, with a value behind it.

Which characters are letters is a parameter, `WordClass`; what is needed of it is only how ASCII
characters, white space and the four other characters that count as ASCII letters are classed.
-/

namespace CameraLogs.Common

open Lib Lib.Pattern
open Logs (isSpace)

/-! ## Characters -/

/-- The letter that a character is compared by where case is ignored; beyond ASCII four characters
count as letters. -/
def foldChar (c : Char) : Char :=
  if 'A' ≤ c ∧ c ≤ 'Z' then Char.ofNat (c.toNat + 32)
  else if c.toNat = 0x17f then 's'
  else if c.toNat = 0x212a then 'k'
  else if c.toNat = 0x130 ∨ c.toNat = 0x131 then 'i'
  else c

/-- What `\w` matches. -/
structure WordClass where
  isWord : Char → Bool
  ascii : ∀ c, c.toNat < 128 → isWord c = (c.isAlphanum || c == '_')
  folded : ∀ c, c.toNat ∈ [0x17f, 0x212a, 0x130, 0x131] → isWord c = true
  space : ∀ c, isSpace c = true → isWord c = false

/-- `\b` between what is before and what follows. -/
def isBoundary (W : WordClass) (before : Option Char) (l : List Char) : Bool :=
  before.any W.isWord != l.head?.any W.isWord

def isQuote (c : Char) : Bool := c == '"' || c == '\''

/-! ## The patterns -/

/-- A word in any case. -/
def spelled (word : String) : Pattern Char :=
  all (word.toList.map fun a => one (foldChar · == a))

/-- `[_-]?` -/
def joint : Pattern Char := opt (one fun c => c == '_' || c == '-')

def secretKeyPattern : Pattern Char := oneOf [
  all [spelled "password", joint, oneOf [spelled "encrypted", spelled "hash"]],
  all [oneOf [spelled "current", spelled "new", spelled "admin"], joint, spelled "password"],
  all [oneOf [spelled "bootstrap", spelled "internal"], joint, spelled "token"],
  all [spelled "token", joint, oneOf [spelled "encrypted", spelled "hash"]],
  all [spelled "encryption", joint, spelled "key"],
  all [spelled "set", joint, spelled "cookie"],
  spelled "cookie", spelled "password", spelled "token", spelled "authorization"]

def isAssign (c : Char) : Bool := c == ':' || c == '='

/-- `["']?\s*[:=]\s*` -/
def separator : Pattern Char := all [opt (one isQuote), star isSpace, one isAssign, star isSpace]

/-- What a bare value does not go over. -/
def endsSecret (c : Char) : Bool := isSpace c || c == ',' || c == '}' || c == ']'

def quoted (q : Char) : Pattern Char := all [one (· == q), star (· != q), one (· == q)]

def secretValue : Pattern Char := oneOf [quoted '"', quoted '\'', plus fun c => !endsSecret c]

/-- `_SECRET_TEXT` at a place. -/
def findSecret (W : WordClass) : Finder Char := fun before l =>
  if isBoundary W before l then
    secretKeyPattern.run (fun gap =>
      if isBoundary W (lastOf before (l.take (l.length - gap.length))) gap then
        separator.run (fun value => (secretValue.matchRest value).map (value, ·)) gap
      else none) l
  else none

def endsBearer (c : Char) : Bool := endsSecret c || isQuote c

def bearerLabel : Pattern Char := all [spelled "bearer", plus isSpace]

def bearerValue : Pattern Char := plus fun c => !endsBearer c

/-- `_BEARER_TEXT` at a place. -/
def findBearer (W : WordClass) : Finder Char := fun before l =>
  if isBoundary W before l then
    bearerLabel.run (fun value => (bearerValue.matchRest value).map (value, ·)) l
  else none

/-! ## Redaction -/

def redacted : List Char := "[REDACTED]".toList

/-- The value begins and ends with the same quote. -/
def keepsQuotes (secret : List Char) : Bool :=
  secret.head?.any isQuote && secret.getLast? == secret.head?

/-- A value in quotes stays one. -/
def replaceSecret (secret : List Char) : List Char :=
  if keepsQuotes secret then secret.take 1 ++ (redacted ++ secret.take 1) else redacted

def redactBearers (W : WordClass) (before : Option Char) (value : List Char) : List Char :=
  substitute (findBearer W) (fun _ => redacted) before value

def redactSecrets (W : WordClass) (before : Option Char) (value : List Char) : List Char :=
  substitute (findSecret W) replaceSecret before value

/-- Both substitutions, behind a symbol. -/
def redactFrom (W : WordClass) (before : Option Char) (value : List Char) : List Char :=
  redactSecrets W before (redactBearers W before value)

def redactText (W : WordClass) (value : List Char) : List Char := redactFrom W none value

variable {W : WordClass} {c : Char}

/-! ## Letters -/

theorem isWord_upper (h : 'A' ≤ c ∧ c ≤ 'Z') : W.isWord c = true := by
  obtain ⟨hlow, hhigh⟩ := h
  have hcode : c.toNat ≤ 90 := hhigh
  have hupper : c.isUpper = true := decide_eq_true ⟨hlow, hhigh⟩
  rw [W.ascii c (by omega)]
  show (((c.isUpper || c.isLower) || c.isDigit) || c == '_') = true
  rw [hupper]
  rfl

theorem isWord_lower (h : 'a' ≤ c ∧ c ≤ 'z') : W.isWord c = true := by
  obtain ⟨hlow, hhigh⟩ := h
  have hcode : c.toNat ≤ 122 := hhigh
  have hlower : c.isLower = true :=
    Bool.and_eq_true_iff.mpr ⟨decide_eq_true hlow, decide_eq_true hhigh⟩
  rw [W.ascii c (by omega)]
  show (((c.isUpper || c.isLower) || c.isDigit) || c == '_') = true
  rw [hlower, Bool.or_true]
  rfl

theorem isWord_of_letter (h : 'a' ≤ foldChar c ∧ foldChar c ≤ 'z') : W.isWord c = true := by
  unfold foldChar at h
  split at h
  next hupper => exact isWord_upper hupper
  next =>
    split at h
    next hcode => exact W.folded c (by simp [hcode])
    next =>
      split at h
      next hcode => exact W.folded c (by simp [hcode])
      next =>
        split at h
        next hcode => exact W.folded c (by rcases hcode with hcode | hcode <;> simp [hcode])
        next => exact isWord_lower h

/-- What a name of a secret is made of. -/
def KeyPart (W : WordClass) (c : Char) : Prop := (W.isWord c || c == '-') = true

def isLetter (a : Char) : Bool := 'a' ≤ a && a ≤ 'z'

theorem isWord_spelled {a : Char} (ha : isLetter a = true) (hc : (foldChar c == a) = true) :
    W.isWord c = true := by
  refine isWord_of_letter ?_
  rw [eq_of_beq hc]
  rw [isLetter, Bool.and_eq_true, decide_eq_true_eq, decide_eq_true_eq] at ha
  exact ha

theorem within_spelled {word : String} (h : word.toList.all isLetter = true) :
    Within (fun c => W.isWord c = true) (spelled word) := by
  refine within_all ?_
  intro r hr
  obtain ⟨a, ha, rfl⟩ := List.mem_map.mp hr
  exact within_one fun c hc => isWord_spelled (List.all_eq_true.mp h a ha) hc

theorem begins_letter {word : String} {a : Char} (h : word.toList.head? = some a) :
    Begins (foldChar · = a) (spelled word) := by
  unfold spelled
  cases hword : word.toList with
  | nil =>
    rw [hword] at h
    cases h
  | cons b letters =>
    rw [hword] at h
    cases h
    exact begins_all_cons (begins_one fun c hc => eq_of_beq hc)

theorem ends_letters {letters : List Char} {a : Char} (h : letters.getLast? = some a) :
    Ends (foldChar · = a) (all (letters.map fun a => one (foldChar · == a))) := by
  induction letters with
  | nil => cases h
  | cons b letters ih =>
    cases letters with
    | nil =>
      cases h
      exact ends_all_one (ends_one fun c hc => eq_of_beq hc)
    | cons b letters =>
      rw [List.getLast?_cons_cons] at h
      exact ends_all_cons (ih h)

theorem ends_letter {word : String} {a : Char} (h : word.toList.getLast? = some a) :
    Ends (foldChar · = a) (spelled word) := ends_letters h

/-- What a name of a secret begins and ends with; `bearer` ends with another letter, and what is
put in for a value begins with it. -/
def KeyEdge (W : WordClass) (c : Char) : Prop := W.isWord c = true ∧ foldChar c ≠ 'r'

theorem keyEdge_letter {a : Char} (ha : (isLetter a && a != 'r') = true) (hc : foldChar c = a) :
    KeyEdge W c := by
  obtain ⟨hletter, hr⟩ := Bool.and_eq_true_iff.mp ha
  exact ⟨isWord_spelled hletter (beq_iff_eq.mpr hc), hc ▸ bne_iff_ne.mp hr⟩

theorem begins_spelled {word : String}
    (h : word.toList.head?.any (fun a => isLetter a && a != 'r') = true) :
    Begins (KeyEdge W) (spelled word) := by
  obtain ⟨a, ha, hletter⟩ := (Option.any_eq_true _ _).mp h
  intro w hw
  obtain ⟨c, t, rfl, hc⟩ := begins_letter ha w hw
  exact ⟨c, t, rfl, keyEdge_letter hletter hc⟩

theorem ends_spelled {word : String}
    (h : word.toList.getLast?.any (fun a => isLetter a && a != 'r') = true) :
    Ends (KeyEdge W) (spelled word) := by
  obtain ⟨a, ha, hletter⟩ := (Option.any_eq_true _ _).mp h
  intro w hw
  obtain ⟨t, c, rfl, hc⟩ := ends_letter ha w hw
  exact ⟨t, c, rfl, keyEdge_letter hletter hc⟩

/-! ## Names -/

theorem begins_secretKey : Begins (KeyEdge W) secretKeyPattern := by
  refine begins_oneOf ?_
  simp only [List.forall_mem_cons]
  refine ⟨begins_all_cons (begins_spelled (by decide)), begins_all_cons (begins_oneOf ?_),
    begins_all_cons (begins_oneOf ?_), begins_all_cons (begins_spelled (by decide)),
    begins_all_cons (begins_spelled (by decide)), begins_all_cons (begins_spelled (by decide)),
    begins_spelled (by decide), begins_spelled (by decide), begins_spelled (by decide),
    begins_spelled (by decide), nofun⟩
  · simp only [List.forall_mem_cons]
    exact ⟨begins_spelled (by decide), begins_spelled (by decide), begins_spelled (by decide),
      nofun⟩
  · simp only [List.forall_mem_cons]
    exact ⟨begins_spelled (by decide), begins_spelled (by decide), nofun⟩

theorem ends_encrypted_hash : Ends (KeyEdge W) (oneOf [spelled "encrypted", spelled "hash"]) := by
  refine ends_oneOf ?_
  simp only [List.forall_mem_cons]
  exact ⟨ends_spelled (by decide), ends_spelled (by decide), nofun⟩

theorem ends_third {r s t : Pattern Char} {P : Char → Prop} (h : Ends P t) :
    Ends P (all [r, s, t]) := ends_all_cons (ends_all_cons (ends_all_one h))

theorem ends_secretKey : Ends (KeyEdge W) secretKeyPattern := by
  refine ends_oneOf ?_
  simp only [List.forall_mem_cons]
  exact ⟨ends_third ends_encrypted_hash, ends_third (ends_spelled (by decide)),
    ends_third (ends_spelled (by decide)), ends_third ends_encrypted_hash,
    ends_third (ends_spelled (by decide)), ends_third (ends_spelled (by decide)),
    ends_spelled (by decide), ends_spelled (by decide), ends_spelled (by decide),
    ends_spelled (by decide), nofun⟩

theorem within_part {word : String} (h : word.toList.all isLetter = true) :
    Within (KeyPart W) (spelled word) := fun w hw a ha => by
  rw [KeyPart, within_spelled h w hw a ha, Bool.true_or]

theorem within_joint : Within (KeyPart W) joint := by
  refine within_opt (within_one ?_)
  intro c hc
  rw [Bool.or_eq_true, beq_iff_eq, beq_iff_eq] at hc
  obtain rfl | rfl := hc
  · rw [KeyPart, W.ascii '_' (by decide)]
    rfl
  · rw [KeyPart, beq_self_eq_true, Bool.or_true]

theorem within_three {r s t : Pattern Char} {P : Char → Prop} (hr : Within P r) (hs : Within P s)
    (ht : Within P t) : Within P (all [r, s, t]) := by
  refine within_all ?_
  simp only [List.forall_mem_cons]
  exact ⟨hr, hs, ht, nofun⟩

theorem within_words {words : List String} (h : words.all (·.toList.all isLetter) = true) :
    Within (KeyPart W) (oneOf (words.map spelled)) := by
  refine within_oneOf ?_
  intro r hr
  obtain ⟨word, hword, rfl⟩ := List.mem_map.mp hr
  exact within_part (List.all_eq_true.mp h word hword)

theorem within_secretKey : Within (KeyPart W) secretKeyPattern := by
  refine within_oneOf ?_
  simp only [List.forall_mem_cons]
  have hhash : Within (KeyPart W) (oneOf [spelled "encrypted", spelled "hash"]) :=
    @within_words W ["encrypted", "hash"] (by decide)
  exact ⟨within_three (within_part (by decide)) within_joint hhash,
    within_three (@within_words W ["current", "new", "admin"] (by decide)) within_joint
      (within_part (by decide)),
    within_three (@within_words W ["bootstrap", "internal"] (by decide)) within_joint
      (within_part (by decide)),
    within_three (within_part (by decide)) within_joint hhash,
    within_three (within_part (by decide)) within_joint (within_part (by decide)),
    within_three (within_part (by decide)) within_joint (within_part (by decide)),
    within_part (by decide), within_part (by decide), within_part (by decide),
    within_part (by decide), nofun⟩

end CameraLogs.Common

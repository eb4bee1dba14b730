import Mathlib.Data.List.Sort
import Mathlib.Data.List.TakeWhile
import Mathlib.Data.Char
import Mathlib.Data.List.Lex

/-!
# JSON texts

`render` writes a value without blanks, with or without characters outside ASCII, and `loads`
reads a text. What has been written is read back as it was (`loads_render`), so that two
values with one text are the same (`render_injective`).

Members stay in the order of the text; `sortKeys` orders them, and `get` finds the one that a
dictionary made of them has.
-/

namespace CameraLogs.Lib

variable {c : Char} {l rest text : List Char} {n : Nat} {ascii : Bool}

/-! ## Numbers -/

def isNumberChar (c : Char) : Bool :=
  c.isDigit || c = '-' || c = '+' || c = '.' || c = 'e' || c = 'E'

/-- The value of a decimal without zeros in front. -/
def natOf (text : List Char) : Option Nat :=
  if text.all Char.isDigit ∧ text ≠ [] ∧ (text.head? = some '0' → text.length = 1) then
    some (Nat.ofDigitChars 10 text 0)
  else none

def intOf : List Char → Option Int
  | '-' :: digits => (natOf digits).map fun n => -Int.ofNat n
  | digits => (natOf digits).map Int.ofNat

/-- `(\.\d+)?([eE][-+]?\d+)?`, not empty. -/
def isFloatTail (text : List Char) : Bool :=
  let isDigits (digits : List Char) : Bool := digits ≠ [] && digits.all Char.isDigit
  let isExponent : List Char → Bool
    | e :: '-' :: digits | e :: '+' :: digits => (e = 'e' || e = 'E') && isDigits digits
    | e :: digits => (e = 'e' || e = 'E') && isDigits digits
    | [] => false
  match text with
  | '.' :: text =>
    text.takeWhile Char.isDigit ≠ [] &&
      (text.dropWhile Char.isDigit = [] || isExponent (text.dropWhile Char.isDigit))
  | text => isExponent text

/-- The text is a number with a fraction or an exponent. -/
def isFloat (text : List Char) : Bool :=
  let unsigned := if text.head? = some '-' then text.tail else text
  (natOf (unsigned.takeWhile Char.isDigit)).isSome && isFloatTail (unsigned.dropWhile Char.isDigit)
    && text.all isNumberChar && intOf text = none

/-- A number that is no integer, by its text. -/
structure FloatText where
  text : List Char
  isFloat : isFloat text = true
  deriving DecidableEq

/-- `str(n)` -/
def intText (n : Int) : List Char :=
  if n < 0 then '-' :: Nat.toDigits 10 n.natAbs else Nat.toDigits 10 n.natAbs

/-! ## Strings -/

def hexChar (n : Nat) : Char :=
  ['0', '1', '2', '3', '4', '5', '6', '7', '8', '9', 'a', 'b', 'c', 'd', 'e', 'f'].getD n '0'

def hexValue (c : Char) : Option Nat :=
  if '0' ≤ c ∧ c ≤ '9' then some (c.toNat - '0'.toNat)
  else if 'a' ≤ c ∧ c ≤ 'f' then some (c.toNat - 'a'.toNat + 10)
  else if 'A' ≤ c ∧ c ≤ 'F' then some (c.toNat - 'A'.toNat + 10)
  else none

/-- Four hexadecimal digits. -/
def hexDigits (n : Nat) : List Char :=
  [hexChar (n / 4096 % 16), hexChar (n / 256 % 16), hexChar (n / 16 % 16), hexChar (n % 16)]

def unicodeEscape (n : Nat) : List Char := '\\' :: 'u' :: hexDigits n

/-- A character above the first 65536 is written as a pair of surrogates. -/
def escapeChar (n : Nat) : List Char :=
  if n < 0x10000 then unicodeEscape n
  else unicodeEscape (0xd800 + (n - 0x10000) / 1024) ++ unicodeEscape (0xdc00 + (n - 0x10000) % 1024)

def renderChar (ascii : Bool) (c : Char) : List Char :=
  if c = '"' then ['\\', '"']
  else if c = '\\' then ['\\', '\\']
  else if c = '\n' then ['\\', 'n']
  else if c = '\r' then ['\\', 'r']
  else if c = '\t' then ['\\', 't']
  else if c = Char.ofNat 8 then ['\\', 'b']
  else if c = Char.ofNat 12 then ['\\', 'f']
  else if c.toNat < 32 ∨ ascii = true ∧ 126 < c.toNat then escapeChar c.toNat
  else [c]

def renderString (ascii : Bool) (s : List Char) : List Char :=
  '"' :: (s.flatMap (renderChar ascii) ++ ['"'])

def hex4 : List Char → Option (Nat × List Char)
  | a :: b :: c :: d :: l => do
    let a ← hexValue a
    let b ← hexValue b
    let c ← hexValue c
    let d ← hexValue d
    some (a * 4096 + b * 256 + c * 16 + d, l)
  | _ => none

/-- The second of a pair of surrogates. -/
def lowSurrogate : List Char → Option (Nat × List Char)
  | '\\' :: 'u' :: l => (hex4 l).filter fun (low, _) => 0xdc00 ≤ low && low < 0xe000
  | _ => none

/-- What follows `\u`; a surrogate without the other one is no character. -/
def scanUnicode (l : List Char) : Option (Char × List Char) := do
  let (high, l) ← hex4 l
  if 0xd800 ≤ high ∧ high < 0xdc00 then
    (lowSurrogate l).map fun (low, l) =>
      (Char.ofNat (0x10000 + (high - 0xd800) * 1024 + (low - 0xdc00)), l)
  else if 0xdc00 ≤ high ∧ high < 0xe000 then none
  else some (Char.ofNat high, l)

def simpleEscape (c : Char) : Option Char :=
  if c = '"' ∨ c = '\\' ∨ c = '/' then some c
  else if c = 'n' then some '\n'
  else if c = 'r' then some '\r'
  else if c = 't' then some '\t'
  else if c = 'b' then some (Char.ofNat 8)
  else if c = 'f' then some (Char.ofNat 12)
  else none

def scanEscape : List Char → Option (Char × List Char)
  | [] => none
  | c :: l => if c = 'u' then scanUnicode l else (simpleEscape c).map (·, l)

/-- The next character of a string. -/
def scanChar : List Char → Option (Char × List Char)
  | [] => none
  | c :: l => if c = '\\' then scanEscape l else if c.toNat < 32 then none else some (c, l)

/-- The string up to its closing quote, of at most so many characters. -/
def scanString : Nat → List Char → Option (List Char × List Char)
  | 0, _ => none
  | n + 1, l =>
    if l.head? = some '"' then some ([], l.tail)
    else do
      let (c, l) ← scanChar l
      let (s, l) ← scanString n l
      some (c :: s, l)

/-! ## Values -/

inductive Json where
  | null
  | bool (value : Bool)
  | int (value : Int)
  | float (value : FloatText)
  | str (value : List Char)
  | arr (items : List Json)
  | obj (members : List (List Char × Json))

namespace Json

mutual

/-- `json.dumps(value, separators=(",", ":"))` -/
def render (ascii : Bool) : Json → List Char
  | .null => ['n', 'u', 'l', 'l']
  | .bool true => ['t', 'r', 'u', 'e']
  | .bool false => ['f', 'a', 'l', 's', 'e']
  | .int value => intText value
  | .float value => value.text
  | .str value => renderString ascii value
  | .arr [] => ['[', ']']
  | .arr (x :: xs) => '[' :: (render ascii x ++ renderItems ascii xs)
  | .obj [] => ['{', '}']
  | .obj ((key, x) :: xs) =>
    '{' :: (renderString ascii key ++ ':' :: (render ascii x ++ renderMembers ascii xs))

/-- The other items of a list, and its end. -/
def renderItems (ascii : Bool) : List Json → List Char
  | [] => [']']
  | x :: xs => ',' :: (render ascii x ++ renderItems ascii xs)

/-- The other members of an object, and its end. -/
def renderMembers (ascii : Bool) : List (List Char × Json) → List Char
  | [] => ['}']
  | (key, x) :: xs =>
    ',' :: (renderString ascii key ++ ':' :: (render ascii x ++ renderMembers ascii xs))

end

def isBlank (c : Char) : Bool := c = ' ' || c = '\t' || c = '\n' || c = '\r'

/-- The text behind a character, which blanks may stand in front of. -/
def token (c : Char) (l : List Char) : Option (List Char) :=
  if (l.dropWhile isBlank).head? = some c then some (l.dropWhile isBlank).tail else none

def parseNumber (l : List Char) : Option (Json × List Char) :=
  let text := l.takeWhile isNumberChar
  let rest := l.dropWhile isNumberChar
  match intOf text with
  | some value => some (.int value, rest)
  | none => if h : isFloat text = true then some (.float ⟨text, h⟩, rest) else none

def keyword (word : List Char) (value : Json) (l : List Char) : Option (Json × List Char) :=
  if word.isPrefixOf l then some (value, l.drop word.length) else none

/-- A value of one piece. -/
def parseAtom (l : List Char) : Option (Json × List Char) :=
  if l.head? = some '"' then (scanString l.length l.tail).map fun (s, l) => (.str s, l)
  else if l.head? = some 'n' then keyword ['n', 'u', 'l', 'l'] .null l
  else if l.head? = some 't' then keyword ['t', 'r', 'u', 'e'] (.bool true) l
  else if l.head? = some 'f' then keyword ['f', 'a', 'l', 's', 'e'] (.bool false) l
  else parseNumber l

/-- The name of a member, and what follows its colon. -/
def parseKey (l : List Char) : Option (List Char × List Char) := do
  let l ← token '"' l
  let (key, l) ← scanString (l.length + 1) l
  (token ':' l).map (key, ·)

mutual

def parse : Nat → List Char → Option (Json × List Char)
  | 0, _ => none
  | n + 1, l =>
    match token '[' l with
    | some l =>
      match token ']' l with
      | some l => some (.arr [], l)
      | none => do
        let (x, l) ← parse n l
        let (xs, l) ← parseItems n l
        some (.arr (x :: xs), l)
    | none =>
      match token '{' l with
      | some l =>
        match token '}' l with
        | some l => some (.obj [], l)
        | none => do
          let (key, l) ← parseKey l
          let (x, l) ← parse n l
          let (xs, l) ← parseMembers n l
          some (.obj ((key, x) :: xs), l)
      | none => parseAtom (l.dropWhile isBlank)

def parseItems : Nat → List Char → Option (List Json × List Char)
  | 0, _ => none
  | n + 1, l =>
    match token ',' l with
    | some l => do
      let (x, l) ← parse n l
      let (xs, l) ← parseItems n l
      some (x :: xs, l)
    | none => (token ']' l).map ([], ·)

def parseMembers : Nat → List Char → Option (List (List Char × Json) × List Char)
  | 0, _ => none
  | n + 1, l =>
    match token ',' l with
    | some l => do
      let (key, l) ← parseKey l
      let (x, l) ← parse n l
      let (xs, l) ← parseMembers n l
      some ((key, x) :: xs, l)
    | none => (token '}' l).map ([], ·)

end

/-- `json.loads(text)` -/
def loads (text : List Char) : Option Json :=
  match parse text.length text with
  | some (value, rest) => if rest.all isBlank then some value else none
  | none => none

/-- `value.get(key)` of a dictionary: of two members of one name the later one. -/
def get (key : List Char) : Json → Option Json
  | .obj members => (members.reverse.find? (·.1 = key)).map Prod.snd
  | _ => none

mutual

/-- The value with the members of its objects in the order of their names. -/
def sortKeys : Json → Json
  | .arr items => .arr (sortItems items)
  | .obj members =>
    .obj ((sortMembers members).insertionSort fun x y => x.1 ≤ y.1)
  | value => value

def sortItems : List Json → List Json
  | [] => []
  | x :: xs => sortKeys x :: sortItems xs

def sortMembers : List (List Char × Json) → List (List Char × Json)
  | [] => []
  | (key, x) :: xs => (key, sortKeys x) :: sortMembers xs

end

/-- `json.dumps(value, separators=(",", ":"), sort_keys=True)` -/
def dumps (ascii : Bool) (value : Json) : List Char := value.sortKeys.render ascii

end Json

/-! ## Strings are read back -/

theorem hexValue_hexChar : ∀ n < 16, hexValue (hexChar n) = some n := by decide

theorem hex4_hexDigits (h : n < 0x10000) (l : List Char) : hex4 (hexDigits n ++ l) = some (n, l) := by
  have hdigit (m : Nat) : hexValue (hexChar (m % 16)) = some (m % 16) :=
    hexValue_hexChar _ (Nat.mod_lt _ (by decide))
  simp only [hexDigits, List.cons_append, hex4, hdigit, Option.bind_eq_bind, Option.bind_some]
  have hn : n / 4096 % 16 * 4096 + n / 256 % 16 * 256 + n / 16 % 16 * 16 + n % 16 = n := by omega
  rw [hn, List.nil_append]

theorem lowSurrogate_escape (h : n < 1024) (l : List Char) :
    lowSurrogate (unicodeEscape (0xdc00 + n) ++ l) = some (0xdc00 + n, l) := by
  show Option.filter _ (hex4 (hexDigits (0xdc00 + n) ++ l)) = _
  rw [hex4_hexDigits (by omega), Option.filter_some, if_pos]
  simp only [Bool.and_eq_true, decide_eq_true_eq]
  omega

theorem scanChar_unicodeEscape (n : Nat) (l : List Char) :
    scanChar (unicodeEscape n ++ l) = scanUnicode (hexDigits n ++ l) := rfl

theorem scanUnicode_pair {high low : Nat} (hhigh : high < 1024) (hlow : low < 1024)
    (l : List Char) :
    scanUnicode (hexDigits (0xd800 + high) ++ (unicodeEscape (0xdc00 + low) ++ l)) =
      some (Char.ofNat (0x10000 + high * 1024 + low), l) := by
  have hbound : 0xd800 + high < 0x10000 := by omega
  have hrange : 0xd800 ≤ 0xd800 + high ∧ 0xd800 + high < 0xdc00 := by omega
  rw [scanUnicode, hex4_hexDigits hbound]
  simp only [Option.bind_eq_bind, Option.bind_some, if_pos hrange, lowSurrogate_escape hlow,
    Option.map_some, Nat.add_sub_cancel_left]

/-- A character is read back from its escape. -/
theorem scanChar_escape (c : Char) (l : List Char) :
    scanChar (escapeChar c.toNat ++ l) = some (c, l) := by
  have hvalid : c.toNat < 0xd800 ∨ 0xdfff < c.toNat ∧ c.toNat < 0x110000 := c.valid
  unfold escapeChar
  split
  · rename_i hsmall
    rw [scanChar_unicodeEscape, scanUnicode, hex4_hexDigits hsmall]
    simp only [Option.bind_eq_bind, Option.bind_some]
    rw [if_neg (by omega), if_neg (by omega), Char.ofNat_toNat]
  · rename_i hbig
    have hhigh : (c.toNat - 0x10000) / 1024 < 1024 := by omega
    have hlow : (c.toNat - 0x10000) % 1024 < 1024 := Nat.mod_lt _ (by decide)
    have hpair : 0x10000 + (c.toNat - 0x10000) / 1024 * 1024 + (c.toNat - 0x10000) % 1024 =
        c.toNat := by omega
    rw [List.append_assoc, scanChar_unicodeEscape, scanUnicode_pair hhigh hlow, hpair,
      Char.ofNat_toNat]

theorem scanChar_renderChar (ascii : Bool) (c : Char) (l : List Char) :
    scanChar (renderChar ascii c ++ l) = some (c, l) := by
  unfold renderChar
  by_cases hquote : c = '"'
  · rw [if_pos hquote, hquote]; rfl
  by_cases hslash : c = '\\'
  · rw [if_neg hquote, if_pos hslash, hslash]; rfl
  rw [if_neg hquote, if_neg hslash]
  split
  · rename_i h; rw [h]; rfl
  split
  · rename_i h; rw [h]; rfl
  split
  · rename_i h; rw [h]; rfl
  split
  · rename_i h; rw [h]; rfl
  split
  · rename_i h; rw [h]; rfl
  split
  · exact scanChar_escape c l
  · rename_i hplain
    show scanChar (c :: l) = _
    rw [scanChar, if_neg hslash, if_neg fun hlow => hplain (.inl hlow)]

theorem escapeChar_cons (n : Nat) : ∃ l, escapeChar n = '\\' :: l := by
  unfold escapeChar
  split
  · exact ⟨_, rfl⟩
  · exact ⟨_, rfl⟩

theorem renderChar_cons (ascii : Bool) (c : Char) :
    ∃ d l, renderChar ascii c = d :: l ∧ d ≠ '"' := by
  unfold renderChar
  by_cases hquote : c = '"'
  · exact ⟨'\\', ['"'], if_pos hquote, by decide⟩
  rw [if_neg hquote]
  have hslash : ('\\' : Char) ≠ '"' := by decide
  split
  · exact ⟨_, _, rfl, hslash⟩
  split
  · exact ⟨_, _, rfl, hslash⟩
  split
  · exact ⟨_, _, rfl, hslash⟩
  split
  · exact ⟨_, _, rfl, hslash⟩
  split
  · exact ⟨_, _, rfl, hslash⟩
  split
  · exact ⟨_, _, rfl, hslash⟩
  split
  · obtain ⟨l, hl⟩ := escapeChar_cons c.toNat
    exact ⟨_, l, hl, hslash⟩
  · exact ⟨c, [], rfl, hquote⟩

theorem length_le_flatMap_renderChar (ascii : Bool) (s : List Char) :
    s.length ≤ (s.flatMap (renderChar ascii)).length := by
  induction s with
  | nil => exact Nat.le_refl _
  | cons c s ih =>
    obtain ⟨d, l, hd, -⟩ := renderChar_cons ascii c
    rw [List.flatMap_cons, hd, List.length_append, List.length_cons, List.length_cons]
    omega

theorem scanString_render (s : List Char) (l : List Char) (h : s.length < n) :
    scanString n (s.flatMap (renderChar ascii) ++ '"' :: l) = some (s, l) := by
  induction s generalizing n with
  | nil =>
    cases n with
    | zero => cases h
    | succ n => rfl
  | cons c s ih =>
    cases n with
    | zero => cases h
    | succ n =>
      have hhead : (renderChar ascii c ++ (s.flatMap (renderChar ascii) ++ '"' :: l)).head? ≠
          some '"' := by
        obtain ⟨d, m, hd, hne⟩ := renderChar_cons ascii c
        rw [hd]
        exact fun heq => hne (Option.some.inj heq)
      rw [List.flatMap_cons, List.append_assoc, scanString, if_neg hhead, scanChar_renderChar]
      simp only [Option.bind_eq_bind, Option.bind_some]
      rw [ih (Nat.lt_of_succ_lt_succ h)]
      rfl

/-! ## Numbers are read back -/

theorem head_toDigits (h : 0 < n) : (Nat.toDigits 10 n).head? ≠ some '0' := by
  induction n using Nat.strongRecOn with
  | ind n ih =>
    rcases Nat.lt_or_ge n 10 with hlt | hge
    · rw [Nat.toDigits_of_lt_base hlt]
      have htable : ∀ m < 10, 0 < m → [m.digitChar].head? ≠ some '0' := by decide
      exact htable n hlt h
    · rw [Nat.toDigits_of_base_le (by decide) hge, List.head?_append_of_ne_nil _ Nat.toDigits_ne_nil]
      exact ih (n / 10) (by omega) (by omega)

theorem natOf_toDigits (n : Nat) : natOf (Nat.toDigits 10 n) = some n := by
  unfold natOf
  rw [if_pos, Nat.ofDigitChars_ten_toDigits]
  refine ⟨?_, Nat.toDigits_ne_nil, ?_⟩
  · rw [List.all_eq_true]
    exact fun c hc => Nat.isDigit_of_mem_toDigits (by decide) (by decide) hc
  · intro hzero
    cases n with
    | zero => rfl
    | succ n => exact absurd hzero (head_toDigits (Nat.succ_pos n))

theorem isNumberChar_of_isDigit (h : c.isDigit) : isNumberChar c := by
  simp [isNumberChar, h]

theorem isDigit_minus : ('-' : Char).isDigit = false := by decide

theorem intOf_toDigits (n : Nat) : intOf (Nat.toDigits 10 n) = some (n : Int) := by
  have hdigits : ∀ c ∈ Nat.toDigits 10 n, c.isDigit := fun c hc =>
    Nat.isDigit_of_mem_toDigits (by decide) (by decide) hc
  have hnat := natOf_toDigits n
  unfold intOf
  split
  · rename_i digits heq
    have hminus := hdigits '-' (by rw [heq]; exact List.mem_cons_self)
    rw [isDigit_minus] at hminus
    cases hminus
  · rw [hnat]
    rfl

theorem intOf_intText (value : Int) : intOf (intText value) = some value := by
  unfold intText
  split
  · rename_i hneg
    rw [intOf, natOf_toDigits, Option.map_some, Int.ofNat_eq_natCast]
    congr 1
    omega
  · rename_i hpos
    rw [intOf_toDigits]
    congr 1
    omega

theorem intText_chars (value : Int) : ∀ c ∈ intText value, isNumberChar c := by
  have hdigits : ∀ c ∈ Nat.toDigits 10 value.natAbs, isNumberChar c := fun c hc =>
    isNumberChar_of_isDigit (Nat.isDigit_of_mem_toDigits (by decide) (by decide) hc)
  unfold intText
  split
  · exact List.forall_mem_cons.mpr ⟨by decide, hdigits⟩
  · exact hdigits

theorem intText_ne_nil (value : Int) : intText value ≠ [] := by
  unfold intText
  split
  · exact List.cons_ne_nil _ _
  · exact Nat.toDigits_ne_nil

theorem FloatText.chars (value : FloatText) : ∀ c ∈ value.text, isNumberChar c := by
  have h := value.isFloat
  simp only [CameraLogs.Lib.isFloat, Bool.and_eq_true, List.all_eq_true] at h
  exact h.1.2

theorem FloatText.intOf (value : FloatText) : intOf value.text = none := by
  have h := value.isFloat
  simp only [CameraLogs.Lib.isFloat, Bool.and_eq_true, decide_eq_true_eq] at h
  exact h.2

theorem FloatText.ne_nil (value : FloatText) : value.text ≠ [] := by
  intro hnil
  have h := value.isFloat
  rw [hnil] at h
  exact absurd h (by decide)

/-! ## Values are read back -/

namespace Json

theorem token_self (h : isBlank c = false) (l : List Char) : token c (c :: l) = some l := by
  simp [token, h]

theorem token_none {d : Char} (h : isBlank c = false) (hne : c ≠ d) (l : List Char) :
    token d (c :: l) = none := by
  simp [token, h, hne]

theorem number_ne (h : isNumberChar c) : isBlank c = false ∧ c ≠ '"' ∧ c ≠ '[' ∧ c ≠ '{' ∧
    c ≠ ']' ∧ c ≠ 'n' ∧ c ≠ 't' ∧ c ≠ 'f' := by
  have hne {d : Char} (hd : isNumberChar d = false) : c ≠ d := by
    rintro rfl
    rw [h] at hd
    cases hd
  refine ⟨?_, hne rfl, hne rfl, hne rfl, hne rfl, hne rfl, hne rfl, hne rfl⟩
  have hspace : c ≠ ' ' := hne rfl
  have htab : c ≠ '\t' := hne rfl
  have hnewline : c ≠ '\n' := hne rfl
  have hreturn : c ≠ '\r' := hne rfl
  simp [isBlank, hspace, htab, hnewline, hreturn]

/-- No number goes on in the text. -/
def NumberEnd (rest : List Char) : Prop := ∀ c ∈ rest.head?, isNumberChar c = false

theorem numberEnd_cons (h : isNumberChar c = false) (l : List Char) : NumberEnd (c :: l) := by
  rintro d hd
  cases hd
  exact h

theorem number_append (htext : ∀ c ∈ text, isNumberChar c) (hrest : NumberEnd rest) :
    (text ++ rest).takeWhile isNumberChar = text ∧
      (text ++ rest).dropWhile isNumberChar = rest := by
  rw [List.takeWhile_append_of_pos htext, List.dropWhile_append_of_pos htext]
  cases rest with
  | nil => exact ⟨List.append_nil _, rfl⟩
  | cons c rest =>
    have hc : ¬ isNumberChar c = true := by simp [hrest c rfl]
    rw [List.takeWhile_cons_of_neg hc, List.dropWhile_cons_of_neg hc]
    exact ⟨List.append_nil _, rfl⟩

theorem parseNumber_int (value : Int) (hrest : NumberEnd rest) :
    parseNumber (intText value ++ rest) = some (.int value, rest) := by
  obtain ⟨htake, hdrop⟩ := number_append (intText_chars value) hrest
  simp only [parseNumber, htake, hdrop, intOf_intText]

theorem parseNumber_float (value : FloatText) (hrest : NumberEnd rest) :
    parseNumber (value.text ++ rest) = some (.float value, rest) := by
  obtain ⟨htake, hdrop⟩ := number_append value.chars hrest
  simp only [parseNumber, htake, hdrop, value.intOf, value.isFloat, dif_pos]

theorem parseAtom_number (h : isNumberChar c) (l : List Char) :
    parseAtom (c :: l) = parseNumber (c :: l) := by
  obtain ⟨-, hquote, -, -, -, hn, ht, hf⟩ := number_ne h
  simp [parseAtom, hquote, hn, ht, hf]

theorem parse_atom (hblank : isBlank c = false) (hlist : c ≠ '[') (hobject : c ≠ '{')
    (l : List Char) : parse (n + 1) (c :: l) = parseAtom (c :: l) := by
  have hdrop : (c :: l).dropWhile isBlank = c :: l := by simp [hblank]
  rw [parse, token_none hblank hlist, token_none hblank hobject]
  simp only [hdrop]

/-- A number is read by `parseNumber`. -/
theorem parse_number (htext : ∀ c ∈ text, isNumberChar c) (hne : text ≠ []) (rest : List Char) :
    parse (n + 1) (text ++ rest) = parseNumber (text ++ rest) := by
  cases text with
  | nil => exact absurd rfl hne
  | cons c text =>
    have hc := htext c List.mem_cons_self
    obtain ⟨hblank, -, hlist, hobject, -⟩ := number_ne hc
    rw [List.cons_append, parse_atom hblank hlist hobject, parseAtom_number hc]

theorem scanString_renderString (s : List Char) (rest : List Char)
    (h : (s.flatMap (renderChar ascii) ++ '"' :: rest).length ≤ n) :
    scanString n (s.flatMap (renderChar ascii) ++ '"' :: rest) = some (s, rest) := by
  refine scanString_render s rest ?_
  have hlen := length_le_flatMap_renderChar ascii s
  rw [List.length_append, List.length_cons] at h
  omega

theorem renderString_append (s : List Char) (rest : List Char) :
    renderString ascii s ++ rest = '"' :: (s.flatMap (renderChar ascii) ++ '"' :: rest) := by
  simp [renderString]

theorem parseAtom_string (s : List Char) (rest : List Char) :
    parseAtom (renderString ascii s ++ rest) = some (.str s, rest) := by
  rw [renderString_append, parseAtom, List.head?_cons, if_pos rfl, List.tail_cons,
    scanString_renderString s rest (by rw [List.length_cons]; omega)]
  rfl

theorem parseKey_render (key : List Char) (rest : List Char) :
    parseKey (renderString ascii key ++ ':' :: rest) = some (key, rest) := by
  rw [renderString_append, parseKey, token_self rfl]
  simp only [Option.bind_eq_bind, Option.bind_some]
  rw [scanString_renderString key _ (by omega)]
  simp only [Option.bind_some, token_self (c := ':') rfl, Option.map_some]

/-- A value starts with a character that is no blank and does not end a list. -/
theorem render_cons (ascii : Bool) (value : Json) :
    ∃ c l, value.render ascii = c :: l ∧ isBlank c = false ∧ c ≠ ']' := by
  have hnumber {text : List Char} (htext : ∀ c ∈ text, isNumberChar c) (hne : text ≠ []) :
      ∃ c l, text = c :: l ∧ isBlank c = false ∧ c ≠ ']' := by
    cases text with
    | nil => exact absurd rfl hne
    | cons c l =>
      obtain ⟨hblank, -, -, -, hlist, -⟩ := number_ne (htext c List.mem_cons_self)
      exact ⟨c, l, rfl, hblank, hlist⟩
  match value with
  | .null => exact ⟨_, _, rfl, rfl, by decide⟩
  | .bool true => exact ⟨_, _, rfl, rfl, by decide⟩
  | .bool false => exact ⟨_, _, rfl, rfl, by decide⟩
  | .int value => exact hnumber (intText_chars value) (intText_ne_nil value)
  | .float value => exact hnumber value.chars value.ne_nil
  | .str value => exact ⟨_, _, rfl, rfl, by decide⟩
  | .arr [] => exact ⟨_, _, rfl, rfl, by decide⟩
  | .arr (_ :: _) => exact ⟨_, _, rfl, rfl, by decide⟩
  | .obj [] => exact ⟨_, _, rfl, rfl, by decide⟩
  | .obj (_ :: _) => exact ⟨_, _, rfl, rfl, by decide⟩

theorem renderItems_end (xs : List Json) (rest : List Char) :
    NumberEnd (renderItems ascii xs ++ rest) := by
  cases xs with
  | nil => exact numberEnd_cons rfl _
  | cons x xs => exact numberEnd_cons rfl _

theorem renderMembers_end (xs : List (List Char × Json)) (rest : List Char) :
    NumberEnd (renderMembers ascii xs ++ rest) := by
  cases xs with
  | nil => exact numberEnd_cons rfl _
  | cons x xs => exact numberEnd_cons rfl _

mutual

/-- A value is read back, with as much fuel as its text is long. -/
theorem parse_render : ∀ (value : Json) (n : Nat) (rest : List Char),
    (value.render ascii).length ≤ n → NumberEnd rest →
      parse n (value.render ascii ++ rest) = some (value, rest)
  | .null, n + 1, rest, _, _ => parse_atom rfl (by decide) (by decide) _
  | .bool true, n + 1, rest, _, _ => parse_atom rfl (by decide) (by decide) _
  | .bool false, n + 1, rest, _, _ => parse_atom rfl (by decide) (by decide) _
  | .int value, n + 1, rest, _, hrest => by
    rw [render, parse_number (intText_chars value) (intText_ne_nil value), parseNumber_int _ hrest]
  | .float value, n + 1, rest, _, hrest => by
    rw [render, parse_number value.chars value.ne_nil, parseNumber_float _ hrest]
  | .str value, n + 1, rest, _, _ => by
    rw [render, ← parseAtom_string value rest, renderString_append]
    exact parse_atom rfl (by decide) (by decide) _
  | .arr [], n + 1, rest, _, _ => rfl
  | .arr (x :: xs), n + 1, rest, hn, _ => by
    rw [render, List.length_cons, List.length_append] at hn
    obtain ⟨c, l, hc, hblank, hlist⟩ := render_cons ascii x
    have hopen : token ']' (x.render ascii ++ (renderItems ascii xs ++ rest)) = none := by
      rw [hc]
      exact token_none hblank hlist _
    rw [render, List.cons_append, List.append_assoc, parse, token_self rfl]
    simp only [hopen, Option.bind_eq_bind]
    rw [parse_render x n _ (by omega) (renderItems_end xs rest)]
    simp only [Option.bind_some]
    rw [parseItems_render xs n rest (by omega)]
    rfl
  | .obj [], n + 1, rest, _, _ => rfl
  | .obj ((key, x) :: xs), n + 1, rest, hn, _ => by
    rw [render, List.length_cons, List.length_append, List.length_cons, List.length_append] at hn
    rw [render]
    simp only [List.cons_append, List.append_assoc]
    have hopen : token '}' (renderString ascii key ++
        ':' :: (x.render ascii ++ (renderMembers ascii xs ++ rest))) = none := by
      rw [renderString_append]
      exact token_none rfl (by decide) _
    rw [parse, token_none rfl (by decide), token_self rfl]
    simp only [hopen, parseKey_render, Option.bind_eq_bind, Option.bind_some]
    rw [parse_render x n _ (by omega) (renderMembers_end xs rest)]
    simp only [Option.bind_some]
    rw [parseMembers_render xs n rest (by omega)]
    rfl
  | .null, 0, _, hn, _ => absurd hn (by simp [render])
  | .bool true, 0, _, hn, _ => absurd hn (by simp [render])
  | .bool false, 0, _, hn, _ => absurd hn (by simp [render])
  | .int value, 0, _, hn, _ => absurd hn (by simp [render, intText_ne_nil])
  | .float value, 0, _, hn, _ => absurd hn (by simp [render, value.ne_nil])
  | .str value, 0, _, hn, _ => absurd hn (by simp [render, renderString])
  | .arr [], 0, _, hn, _ => absurd hn (by simp [render])
  | .arr (_ :: _), 0, _, hn, _ => absurd hn (by simp [render])
  | .obj [], 0, _, hn, _ => absurd hn (by simp [render])
  | .obj (_ :: _), 0, _, hn, _ => absurd hn (by simp [render])

theorem parseItems_render : ∀ (xs : List Json) (n : Nat) (rest : List Char),
    (renderItems ascii xs).length ≤ n →
      parseItems n (renderItems ascii xs ++ rest) = some (xs, rest)
  | [], n + 1, rest, _ => rfl
  | x :: xs, n + 1, rest, hn => by
    rw [renderItems, List.length_cons, List.length_append] at hn
    rw [renderItems, List.cons_append, List.append_assoc, parseItems, token_self rfl]
    simp only [Option.bind_eq_bind]
    rw [parse_render x n _ (by omega) (renderItems_end xs rest)]
    simp only [Option.bind_some]
    rw [parseItems_render xs n rest (by omega)]
    rfl
  | [], 0, _, hn => absurd hn (by simp [renderItems])
  | _ :: _, 0, _, hn => absurd hn (by simp [renderItems])

theorem parseMembers_render : ∀ (xs : List (List Char × Json)) (n : Nat) (rest : List Char),
    (renderMembers ascii xs).length ≤ n →
      parseMembers n (renderMembers ascii xs ++ rest) = some (xs, rest)
  | [], n + 1, rest, _ => rfl
  | (key, x) :: xs, n + 1, rest, hn => by
    rw [renderMembers, List.length_cons, List.length_append, List.length_cons,
      List.length_append] at hn
    rw [renderMembers]
    simp only [List.cons_append, List.append_assoc]
    rw [parseMembers, token_self rfl]
    simp only [parseKey_render, Option.bind_eq_bind, Option.bind_some]
    rw [parse_render x n _ (by omega) (renderMembers_end xs rest)]
    simp only [Option.bind_some]
    rw [parseMembers_render xs n rest (by omega)]
    rfl
  | [], 0, _, hn => absurd hn (by simp [renderMembers])
  | _ :: _, 0, _, hn => absurd hn (by simp [renderMembers])

end

theorem loads_render (ascii : Bool) (value : Json) : loads (value.render ascii) = some value := by
  have hparse := @parse_render ascii value (value.render ascii).length [] (Nat.le_refl _) nofun
  rw [List.append_nil] at hparse
  rw [loads, hparse]
  rfl

theorem render_injective (ascii : Bool) {value value' : Json}
    (h : value.render ascii = value'.render ascii) : value = value' := by
  have hread := loads_render ascii value
  rw [h, loads_render] at hread
  exact (Option.some.inj hread).symm

theorem loads_dumps (ascii : Bool) (value : Json) :
    loads (value.dumps ascii) = some value.sortKeys := loads_render ascii _

/-- Values whose members are in order stay as they are. -/
theorem sortItems_eq {xs : List Json} (h : ∀ x ∈ xs, x.sortKeys = x) : sortItems xs = xs := by
  induction xs with
  | nil => rfl
  | cons x xs ih =>
    obtain ⟨hx, hxs⟩ := List.forall_mem_cons.mp h
    rw [sortItems, hx, ih hxs]

theorem sortKeys_arr {xs : List Json} (h : ∀ x ∈ xs, x.sortKeys = x) :
    (Json.arr xs).sortKeys = .arr xs := by
  rw [sortKeys, sortItems_eq h]

/-! ## The length of a text -/

mutual

/-- The characters of the strings of a value. -/
def characters : Json → Nat
  | .str value => value.length
  | .arr items => itemCharacters items
  | .obj members => memberCharacters members
  | _ => 0

def itemCharacters : List Json → Nat
  | [] => 0
  | x :: xs => x.characters + itemCharacters xs

def memberCharacters : List (List Char × Json) → Nat
  | [] => 0
  | (_, x) :: xs => x.characters + memberCharacters xs

end

theorem length_le_renderString (ascii : Bool) (s : List Char) :
    s.length ≤ (renderString ascii s).length := by
  have hlen := length_le_flatMap_renderChar ascii s
  simp only [renderString, List.length_cons, List.length_append]
  omega

mutual

/-- A text is at least as long as the strings of its value are together. -/
theorem characters_le_render (ascii : Bool) : ∀ value : Json,
    value.characters ≤ (value.render ascii).length
  | .null => Nat.zero_le _
  | .bool _ => Nat.zero_le _
  | .int _ => Nat.zero_le _
  | .float _ => Nat.zero_le _
  | .str value => length_le_renderString ascii value
  | .arr [] => Nat.zero_le _
  | .arr (x :: xs) => by
    have hx := characters_le_render ascii x
    have hxs := itemCharacters_le_render ascii xs
    simp only [characters, itemCharacters, render, List.length_cons, List.length_append]
    omega
  | .obj [] => Nat.zero_le _
  | .obj ((key, x) :: xs) => by
    have hx := characters_le_render ascii x
    have hxs := memberCharacters_le_render ascii xs
    simp only [characters, memberCharacters, render, List.length_cons, List.length_append]
    omega

theorem itemCharacters_le_render (ascii : Bool) : ∀ xs : List Json,
    itemCharacters xs ≤ (renderItems ascii xs).length
  | [] => Nat.zero_le _
  | x :: xs => by
    have hx := characters_le_render ascii x
    have hxs := itemCharacters_le_render ascii xs
    simp only [itemCharacters, renderItems, List.length_cons, List.length_append]
    omega

theorem memberCharacters_le_render (ascii : Bool) : ∀ xs : List (List Char × Json),
    memberCharacters xs ≤ (renderMembers ascii xs).length
  | [] => Nat.zero_le _
  | (key, x) :: xs => by
    have hx := characters_le_render ascii x
    have hxs := memberCharacters_le_render ascii xs
    simp only [memberCharacters, renderMembers, List.length_cons, List.length_append]
    omega

end

end Json

end CameraLogs.Lib

import CameraLogs.Common.Redaction
import CameraLogs.Logs.NamingStable
import CameraLogs.Logs.Utf8Text
import Mathlib.Algebra.Order.BigOperators.Group.List
import Mathlib.Algebra.Order.Ring.Nat

/-!
# The text of an exception in the log

A trace comes in fragments, of which the first bytes and the last ones are kept
(`boundedExceptionText`). The head takes whole characters up to its half of the bytes; what does
not fit goes to the tail in pieces, and the tail gives up its oldest pieces again when it has too
many bytes.

The loop over a fragment takes a character at least, or ends the head. What is kept of the
fragments so far is a front and an end of them, with what was given up in between (`Keeps`).
-/

namespace CameraLogs.Common

open Logs (Bytes encode decodeIgnore utf8Length)

/-! ## The model -/

def maxExceptionTextBytes : Nat := 32 * 1024

def maxExceptionFragmentBytes : Nat := 4096

def truncationMarker : List Char := "\n[异常追踪已截断，保留首尾]\n".toList

/-- What stands for a fragment that is too long. -/
def omittedFragment : List Char := "[异常文本片段超过 4096 字节，已省略]\n".toList

def headLimit : Nat := maxExceptionTextBytes / 2

def tailLimit : Nat := maxExceptionTextBytes - headLimit - (encode truncationMarker).length

/-- `_take_utf8`: the bytes are cut, and a character that is cut is left out. -/
def takeUtf8 (value : List Char) (limit : Nat) : List Char × List Char :=
  let encoded := encode value
  if encoded.length ≤ limit then (value, [])
  else
    let front := (decodeIgnore true (encoded.take limit)).1
    (front, value.drop front.length)

structure ExceptionText where
  head : List (List Char)
  headBytes : Nat
  /-- The pieces of the end, the oldest first, with their bytes. -/
  tail : List (List Char × Nat)
  tailBytes : Nat
  truncated : Bool

namespace ExceptionText

def initial : ExceptionText :=
  { head := [], headBytes := 0, tail := [], tailBytes := 0, truncated := false }

/-- The oldest pieces are given up while there are too many bytes; none if there is no piece. -/
def evict (limit : Nat) : List (List Char × Nat) → Nat → Option (List (List Char × Nat) × Nat)
  | [], bytes => if limit < bytes then none else some ([], bytes)
  | (piece, size) :: tail, bytes =>
    if limit < bytes then evict limit tail (bytes - size) else some ((piece, size) :: tail, bytes)

/-- A round of the loop over a fragment, and what is left of the fragment. -/
def take (s : ExceptionText) (fragment : List Char) : Option (ExceptionText × List Char) :=
  if s.headBytes < headLimit then
    let (front, rest) := takeUtf8 fragment (headLimit - s.headBytes)
    let headBytes := s.headBytes + (encode front).length
    let s := { s with head := s.head ++ [front], headBytes }
    if rest = [] then some (s, rest)
    -- a character may not fit into the bytes that are left
    else some ({ s with truncated := true, headBytes := headLimit }, rest)
  else
    let (front, rest) := takeUtf8 fragment maxExceptionFragmentBytes
    let size := (encode front).length
    (evict tailLimit (s.tail ++ [(front, size)]) (s.tailBytes + size)).map fun (tail, tailBytes) =>
      ({ s with tail, tailBytes, truncated := true }, rest)

/-- The loop over a fragment, for so many rounds at most. -/
def takeAll : Nat → ExceptionText → List Char → Option ExceptionText
  | _, s, [] => some s
  | 0, _, _ :: _ => none
  | fuel + 1, s, c :: fragment => (s.take (c :: fragment)).bind fun (s, rest) => takeAll fuel s rest

/-- A fragment that is too long is left out, and others are redacted. -/
def absorb (W : WordClass) (fuel : Nat) (s : ExceptionText) (fragment : List Char) :
    Option ExceptionText :=
  if maxExceptionFragmentBytes < (encode fragment).length then
    takeAll fuel { s with truncated := true } omittedFragment
  else takeAll fuel s (redactText W fragment)

def text (s : ExceptionText) : List Char :=
  if s.truncated then s.head.flatten ++ truncationMarker ++ (s.tail.map Prod.fst).flatten
  else s.head.flatten

end ExceptionText

/-- `_bounded_exception_text` of the fragments of a trace, with so many rounds for each. -/
def boundedExceptionText (W : WordClass) (fuel : Nat) (fragments : List (List Char)) :
    Option (List Char) :=
  (fragments.foldlM (ExceptionText.absorb W fuel) .initial).map ExceptionText.text

/-! ## What is taken -/

theorem length_encode (text : List Char) : (encode text).length = utf8Length text := by
  unfold encode utf8Length
  rw [List.length_flatMap]
  congr 1
  exact List.map_congr_left fun c _ => String.length_utf8EncodeChar c

/-- Bytes that end within a character give no text. -/
theorem decodeIgnore_cut {c : Char} {cut : Bytes} (hcut : cut <+: String.utf8EncodeChar c)
    (hlength : cut.length < c.utf8Size) : (decodeIgnore true cut).1 = [] := by
  refine Logs.decodeIgnore_final ?_
  obtain ⟨lead, rest, size, hreads⟩ := Logs.exists_reads c
  obtain ⟨low, high, hshape, hcont⟩ := hreads.shape
  have hsize : c.utf8Size = rest.length + 1 := by
    rw [← String.length_utf8EncodeChar, hreads.encode, List.length_cons]
  obtain ⟨more, hmore⟩ := hcut
  rw [hreads.encode] at hmore
  cases cut with
  | nil => rfl
  | cons b front =>
    rw [List.cons_append] at hmore
    obtain ⟨rfl, hfront⟩ := List.cons.inj hmore
    rw [List.length_cons] at hlength
    have hle := (Logs.length_continuation_le (size - 1) low high front).2
    have hrest := hreads.length
    -- all of what is there belongs to the character
    have hall : (Logs.continuation (size - 1) low high front).length = front.length := by
      by_contra hne
      have hshort : (Logs.continuation (size - 1) low high front).length < front.length := by omega
      have hsame := Logs.continuation_append more (Or.inr hshort)
      have hfull := hcont []
      rw [List.append_nil, ← hfront, hsame] at hfull
      have hlen := congrArg List.length hfull
      rw [List.length_append] at hlen
      omega
    rw [Logs.decodeStep_shape hshape, hall, if_neg (by omega), if_pos ⟨rfl, rfl⟩]

theorem drain_reads {c : Char} {lead : UInt8} {rest : Bytes} {size : Nat}
    (h : Logs.Reads c lead rest size) (fuel : Nat) (more : Bytes) :
    (Logs.drain true (fuel + 1) (lead :: rest ++ more)).1 = c :: (Logs.drain true fuel more).1 := by
  obtain ⟨low, high, hshape, hcont⟩ := h.shape
  have hstep : Logs.decodeStep true (lead :: rest ++ more) = some ([c], size) := by
    rw [List.cons_append, Logs.decodeStep_shape hshape, hcont more, if_pos h.length, h.char]
  rw [Logs.drain, hstep]
  dsimp only
  rw [h.drop]
  rfl

/-- Fuel for each byte is enough. -/
theorem drain_fuel {bytes : Bytes} {fuel : Nat} (h : bytes.length ≤ fuel) :
    Logs.drain true fuel bytes = decodeIgnore true bytes := by
  suffices hsame : ∀ count (bytes : Bytes) fuel more, bytes.length ≤ count → bytes.length ≤ fuel →
      bytes.length ≤ more → Logs.drain true fuel bytes = Logs.drain true more bytes from
    hsame _ bytes fuel _ (le_refl _) h (le_refl _)
  intro count
  induction count with
  | zero =>
    intro bytes fuel more hcount hfuel hmore
    rw [List.length_eq_zero_iff.mp (Nat.le_zero.mp hcount), Logs.drain_nil, Logs.drain_nil]
  | succ count ih =>
    intro bytes fuel more hcount hfuel hmore
    cases bytes with
    | nil => rw [Logs.drain_nil, Logs.drain_nil]
    | cons b rest =>
      rw [List.length_cons] at hcount hfuel hmore
      obtain ⟨fuel, rfl⟩ := Nat.exists_eq_add_of_le' (Nat.one_le_of_lt hfuel)
      obtain ⟨more, rfl⟩ := Nat.exists_eq_add_of_le' (Nat.one_le_of_lt hmore)
      cases hstep : Logs.decodeStep true (b :: rest) with
      | none => simp only [Logs.drain, hstep]
      | some step =>
        obtain ⟨chars, size⟩ := step
        have hsize := Logs.decodeStep_size hstep
        have hdrop : ((b :: rest).drop size).length ≤ rest.length := by
          rw [List.length_drop, List.length_cons]
          omega
        simp only [Logs.drain, hstep]
        rw [ih ((b :: rest).drop size) fuel more (by omega) (by omega) (by omega)]

/-- Of bytes that are cut the whole characters are read. -/
theorem decodeIgnore_take (value : List Char) (limit : Nat) :
    (decodeIgnore true ((encode value).take limit)).1 = Logs.takeUtf8 limit value := by
  induction value generalizing limit with
  | nil =>
    rw [show encode [] = [] from rfl, List.take_nil]
    rfl
  | cons c value ih =>
    obtain ⟨lead, rest, size, hreads⟩ := Logs.exists_reads c
    have hlength := String.length_utf8EncodeChar c
    unfold Logs.takeUtf8
    rw [Logs.encode_cons]
    by_cases hfits : c.utf8Size ≤ limit
    · rw [if_pos hfits, List.take_append, List.take_of_length_le (by omega), hlength, ← ih]
      generalize (encode value).take (limit - c.utf8Size) = more
      have hround : (lead :: rest ++ more).length ≤ rest.length + more.length + 1 := by
        rw [List.length_append, List.length_cons]
        omega
      rw [hreads.encode, ← drain_fuel hround, drain_reads hreads, drain_fuel (Nat.le_add_left _ _)]
    · rw [if_neg hfits, List.take_append_of_le_length (by omega)]
      exact decodeIgnore_cut (List.take_prefix _ _) (by rw [List.length_take]; omega)

/-- What is taken are the first characters that fit, and the rest is left. -/
theorem takeUtf8_append (value : List Char) (limit : Nat) :
    (takeUtf8 value limit).1 ++ (takeUtf8 value limit).2 = value := by
  unfold takeUtf8
  dsimp only
  split
  next => exact List.append_nil value
  next =>
    rw [decodeIgnore_take]
    obtain ⟨rest, hrest⟩ := Logs.prefix_takeUtf8 limit value
    generalize Logs.takeUtf8 limit value = front at hrest ⊢
    rw [← hrest, List.drop_left]

theorem utf8Length_taken (value : List Char) (limit : Nat) :
    utf8Length (takeUtf8 value limit).1 ≤ limit := by
  unfold takeUtf8
  dsimp only
  split
  next hfits =>
    rw [length_encode] at hfits
    exact hfits
  next =>
    rw [decodeIgnore_take]
    exact Logs.utf8Length_takeUtf8_le limit value

/-- Something is left only of what has too many bytes. -/
theorem utf8Length_of_left {value : List Char} {limit : Nat} (h : (takeUtf8 value limit).2 ≠ []) :
    limit < utf8Length value := by
  unfold takeUtf8 at h
  dsimp only at h
  split at h
  next => exact absurd rfl h
  next hmore =>
    rw [length_encode] at hmore
    omega

/-- Where a character fits, one is taken. -/
theorem takeUtf8_shorter {value : List Char} {limit : Nat} (hvalue : value ≠ []) (hlimit : 4 ≤ limit) :
    (takeUtf8 value limit).2.length < value.length := by
  cases value with
  | nil => exact absurd rfl hvalue
  | cons c value =>
    have hc := c.utf8Size_le_four
    have hlength := congrArg List.length (takeUtf8_append (c :: value) limit)
    rw [List.length_append] at hlength
    suffices htaken : (takeUtf8 (c :: value) limit).1 ≠ [] by
      have hpos := List.length_pos_iff.mpr htaken
      omega
    unfold takeUtf8
    dsimp only
    split
    next => exact List.cons_ne_nil c value
    next =>
      rw [decodeIgnore_take]
      unfold Logs.takeUtf8
      rw [if_pos (by omega)]
      exact List.cons_ne_nil c _

/-! ## What is kept -/

theorem length_truncationMarker : (encode truncationMarker).length = 40 := by decide

theorem tailLimit_eq : tailLimit = 16344 := by
  unfold tailLimit headLimit maxExceptionTextBytes
  rw [length_truncationMarker]

namespace ExceptionText

/-- The bytes of the pieces of a tail. -/
def tailTotal (tail : List (List Char × Nat)) : Nat := (tail.map Prod.snd).sum

/-- Of what has come, `done`, with `rest` still to come of a fragment, a front and an end are kept.
The head is all of it while it is open, and as long as nothing is said to be missing; that is said
only where there is a reason. -/
structure Keeps (s : ExceptionText) (omitted : Prop) (done rest : List Char) : Prop where
  parts : ∃ middle, done = s.head.flatten ++ middle ++ (s.tail.map Prod.fst).flatten
  opened : s.headBytes < headLimit → done = s.head.flatten ∧ utf8Length done = s.headBytes
  whole : s.truncated = false → done = s.head.flatten ∧ utf8Length done = s.headBytes
  head : utf8Length s.head.flatten ≤ headLimit ∧ s.headBytes ≤ headLimit
  sizes : ∀ piece ∈ s.tail, piece.2 = utf8Length piece.1
  tail : s.tailBytes = tailTotal s.tail ∧ s.tailBytes ≤ tailLimit
  reason : s.truncated = true → omitted ∨ headLimit < utf8Length (done ++ rest)
  omits : omitted → s.truncated = true

theorem keeps_initial : Keeps .initial False [] [] := by
  refine ⟨⟨[], rfl⟩, fun _ => ⟨rfl, rfl⟩, fun _ => ⟨rfl, rfl⟩, ⟨Nat.zero_le _, Nat.zero_le _⟩,
    fun piece hpiece => absurd hpiece List.not_mem_nil, ⟨rfl, Nat.zero_le _⟩, fun h => ?_, False.elim⟩
  cases h

variable {s : ExceptionText} {omitted : Prop} {done rest : List Char}

/-- Another fragment is to come. -/
theorem Keeps.more (h : Keeps s omitted done []) (rest : List Char) : Keeps s omitted done rest := by
  refine { h with reason := fun htruncated => (h.reason htruncated).imp_right fun hlt => ?_ }
  rw [Logs.utf8Length_append] at hlt ⊢
  exact hlt.trans_le (Nat.add_le_add_left (Nat.zero_le _) _)

/-- A fragment has been left out. -/
theorem Keeps.omit_fragment (h : Keeps s omitted done rest) :
    Keeps { s with truncated := true } True done rest :=
  { h with
    whole := fun hfalse => by cases hfalse
    reason := fun _ => .inl trivial
    omits := fun _ => rfl }

/-- Pieces are given up from the old end until the bytes are within the limit. -/
theorem evict_suffix {limit bytes : Nat} {tail : List (List Char × Nat)} (hbytes : bytes = tailTotal tail) :
    ∃ given kept, evict limit tail bytes = some (kept, tailTotal kept) ∧ tail = given ++ kept ∧
      tailTotal kept ≤ limit := by
  subst hbytes
  induction tail with
  | nil => exact ⟨[], [], rfl, rfl, Nat.zero_le limit⟩
  | cons entry tail ih =>
    obtain ⟨piece, size⟩ := entry
    have htotal : tailTotal ((piece, size) :: tail) = size + tailTotal tail := by
      unfold tailTotal
      rw [List.map_cons, List.sum_cons]
    unfold evict
    by_cases hlimit : limit < tailTotal ((piece, size) :: tail)
    · obtain ⟨given, kept, hevict, htail, hkept⟩ := ih
      rw [if_pos hlimit, htotal, Nat.add_sub_cancel_left, hevict]
      exact ⟨(piece, size) :: given, kept, rfl, by rw [htail]; rfl, hkept⟩
    · rw [if_neg hlimit]
      exact ⟨[], _, rfl, rfl, by omega⟩

/-- An upper bound for the rounds that a fragment takes. -/
def rounds (s : ExceptionText) (fragment : List Char) : Nat :=
  fragment.length + if s.headBytes < headLimit then 1 else 0

/-- A round in which the head is open. -/
theorem Keeps.take_head {fragment : List Char} (h : Keeps s omitted done fragment)
    (hne : fragment ≠ []) (hopen : s.headBytes < headLimit) :
    ∃ t front left, s.take fragment = some (t, left) ∧ fragment = front ++ left ∧
      Keeps t omitted (done ++ front) left ∧ t.rounds left < s.rounds fragment := by
  obtain ⟨hdone, hbytes⟩ := h.opened hopen
  have hpos := List.length_pos_iff.mpr hne
  have hsplit := takeUtf8_append fragment (headLimit - s.headBytes)
  have hfits := utf8Length_taken fragment (headLimit - s.headBytes)
  have hleft := @utf8Length_of_left fragment (headLimit - s.headBytes)
  unfold take
  rw [if_pos hopen]
  generalize takeUtf8 fragment (headLimit - s.headBytes) = taken at hsplit hfits hleft ⊢
  obtain ⟨front, left⟩ := taken
  dsimp only at hsplit hfits hleft ⊢
  have hhead : (s.head ++ [front]).flatten = done ++ front := by
    rw [List.flatten_append, ← hdone, List.flatten_singleton]
  have htail : (s.tail.map Prod.fst).flatten = [] := by
    obtain ⟨middle, hparts⟩ := h.parts
    rw [← hdone, List.append_assoc] at hparts
    exact (List.append_eq_nil_iff.mp (List.self_eq_append_right.mp hparts)).2
  have hparts : ∃ middle, done ++ front =
      (s.head ++ [front]).flatten ++ middle ++ (s.tail.map Prod.fst).flatten :=
    ⟨[], by rw [hhead, htail, List.append_nil, List.append_nil]⟩
  have hgrown : utf8Length (done ++ front) = s.headBytes + (encode front).length := by
    rw [Logs.utf8Length_append, length_encode, hbytes]
  have hlimit : s.headBytes + (encode front).length ≤ headLimit := by
    rw [length_encode]
    omega
  have hhead' : utf8Length (s.head ++ [front]).flatten ≤ headLimit := by
    rw [hhead, hgrown]
    exact hlimit
  split
  next hnil =>
    subst hnil
    refine ⟨_, front, [], rfl, hsplit.symm, ?_, ?_⟩
    · refine ⟨hparts, fun _ => ⟨hhead.symm, hgrown⟩, fun hfalse => ⟨hhead.symm, hgrown⟩,
        ⟨hhead', hlimit⟩, h.sizes, h.tail, fun htruncated => ?_, h.omits⟩
      rw [List.append_assoc, hsplit]
      exact h.reason htruncated
    · unfold rounds
      rw [if_pos hopen, List.length_nil]
      split <;> omega
  next hnil =>
    refine ⟨_, front, left, rfl, hsplit.symm, ?_, ?_⟩
    · refine ⟨hparts, fun hlt => absurd hlt (lt_irrefl headLimit), fun hfalse => (by cases hfalse),
        ⟨hhead', le_refl _⟩, h.sizes, h.tail, fun _ => .inr ?_, fun _ => rfl⟩
      have hover := hleft hnil
      rw [List.append_assoc, hsplit, Logs.utf8Length_append, hbytes]
      omega
    · have hlength := congrArg List.length hsplit
      rw [List.length_append] at hlength
      unfold rounds
      rw [if_pos hopen, if_neg (lt_irrefl headLimit)]
      omega

/-- A round behind the head. -/
theorem Keeps.take_tail {fragment : List Char} (h : Keeps s omitted done fragment)
    (hne : fragment ≠ []) (hclosed : ¬ s.headBytes < headLimit) :
    ∃ t front left, s.take fragment = some (t, left) ∧ fragment = front ++ left ∧
      Keeps t omitted (done ++ front) left ∧ t.rounds left < s.rounds fragment := by
  have hsplit := takeUtf8_append fragment maxExceptionFragmentBytes
  have hshorter := takeUtf8_shorter hne (by decide : 4 ≤ maxExceptionFragmentBytes)
  unfold take
  rw [if_neg hclosed]
  generalize takeUtf8 fragment maxExceptionFragmentBytes = taken at hsplit hshorter ⊢
  obtain ⟨front, left⟩ := taken
  dsimp only at hsplit hshorter ⊢
  have htotal : s.tailBytes + (encode front).length =
      tailTotal (s.tail ++ [(front, (encode front).length)]) := by
    unfold tailTotal
    rw [List.map_append, List.sum_append, h.tail.1]
    rfl
  obtain ⟨given, kept, hevict, hgiven, hkept⟩ := @evict_suffix tailLimit _ _ htotal
  rw [hevict]
  refine ⟨_, front, left, rfl, hsplit.symm, ?_, ?_⟩
  · refine ⟨?_, fun hlt => absurd hlt hclosed, fun hfalse => (by cases hfalse), h.head, ?_,
      ⟨rfl, hkept⟩, fun _ => ?_, fun _ => rfl⟩
    · obtain ⟨middle, hparts⟩ := h.parts
      have hpieces := congrArg (fun tail => (tail.map Prod.fst).flatten) hgiven
      simp only [List.map_append, List.flatten_append, List.map_cons, List.map_nil,
        List.flatten_singleton] at hpieces
      refine ⟨middle ++ (given.map Prod.fst).flatten, ?_⟩
      rw [hparts, List.append_assoc _ _ front, hpieces]
      simp only [List.append_assoc]
    · intro piece hpiece
      have hmem : piece ∈ s.tail ++ [(front, (encode front).length)] := by
        rw [hgiven]
        exact List.mem_append_right _ hpiece
      obtain hold | hnew := List.mem_append.mp hmem
      · exact h.sizes piece hold
      · rw [List.mem_singleton.mp hnew]
        exact length_encode front
    · rw [List.append_assoc, hsplit]
      cases htruncated : s.truncated with
      | true => exact h.reason htruncated
      | false =>
        -- the head is full, and there is more
        obtain ⟨-, hbytes⟩ := h.whole htruncated
        have hpos : 0 < utf8Length fragment := by
          cases fragment with
          | nil => exact absurd rfl hne
          | cons c fragment =>
            rw [Logs.utf8Length_cons]
            exact Nat.add_pos_left c.utf8Size_pos _
        right
        rw [Logs.utf8Length_append]
        omega
  · unfold rounds
    rw [if_neg hclosed]
    exact Nat.add_lt_add_right hshorter 0

/-- The loop over a fragment ends. -/
theorem Keeps.takeAll {fragment : List Char} {fuel : Nat} (h : Keeps s omitted done fragment)
    (hfuel : s.rounds fragment ≤ fuel) :
    ∃ t, ExceptionText.takeAll fuel s fragment = some t ∧ Keeps t omitted (done ++ fragment) [] := by
  induction fuel generalizing s done fragment with
  | zero =>
    unfold rounds at hfuel
    have hnil : fragment = [] := List.length_eq_zero_iff.mp (by omega)
    subst hnil
    exact ⟨s, rfl, by rw [List.append_nil]; exact h⟩
  | succ fuel ih =>
    cases fragment with
    | nil => exact ⟨s, rfl, by rw [List.append_nil]; exact h⟩
    | cons c fragment =>
      have hround : ∃ t front left, s.take (c :: fragment) = some (t, left) ∧
          c :: fragment = front ++ left ∧ Keeps t omitted (done ++ front) left ∧
          t.rounds left < s.rounds (c :: fragment) := by
        by_cases hopen : s.headBytes < headLimit
        · exact h.take_head (List.cons_ne_nil c fragment) hopen
        · exact h.take_tail (List.cons_ne_nil c fragment) hopen
      obtain ⟨t, front, left, htake, hsplit, hnext, hless⟩ := hround
      obtain ⟨u, hu, hfinal⟩ := ih hnext (by omega)
      refine ⟨u, ?_, ?_⟩
      · unfold ExceptionText.takeAll
        rw [htake]
        exact hu
      · rw [hsplit, ← List.append_assoc]
        exact hfinal

end ExceptionText

/-! ## The whole text -/

/-- What stands for a fragment. -/
def shownFragment (W : WordClass) (fragment : List Char) : List Char :=
  if maxExceptionFragmentBytes < (encode fragment).length then omittedFragment
  else redactText W fragment

variable {W : WordClass}

namespace ExceptionText

/-- All that is there of a fragment is taken. -/
theorem Keeps.absorb {s : ExceptionText} {omitted : Prop} {done fragment : List Char} {fuel : Nat}
    (h : Keeps s omitted done []) (hfuel : (shownFragment W fragment).length + 1 ≤ fuel) :
    ∃ t, ExceptionText.absorb W fuel s fragment = some t ∧
      Keeps t (omitted ∨ maxExceptionFragmentBytes < (encode fragment).length)
        (done ++ shownFragment W fragment) [] := by
  have hrounds : ∀ (u : ExceptionText) (text : List Char), u.rounds text ≤ text.length + 1 := by
    intro u text
    unfold rounds
    split <;> omega
  unfold ExceptionText.absorb shownFragment at *
  by_cases hlong : maxExceptionFragmentBytes < (encode fragment).length
  · rw [if_pos hlong] at hfuel ⊢
    rw [if_pos hlong]
    have hsaid : Keeps { s with truncated := true }
        (omitted ∨ maxExceptionFragmentBytes < (encode fragment).length) done omittedFragment := by
      have hall := (h.more omittedFragment).omit_fragment
      exact { hall with reason := fun _ => .inl (.inr hlong), omits := fun _ => rfl }
    exact hsaid.takeAll ((hrounds _ _).trans hfuel)
  · rw [if_neg hlong] at hfuel ⊢
    rw [if_neg hlong, or_iff_left hlong]
    exact (h.more _).takeAll ((hrounds _ _).trans hfuel)

/-- All fragments are gone through. -/
theorem keeps_fold {fragments : List (List Char)} {fuel : Nat}
    (hfuel : ∀ fragment ∈ fragments, (shownFragment W fragment).length + 1 ≤ fuel) :
    ∃ t, fragments.foldlM (ExceptionText.absorb W fuel) .initial = some t ∧
      Keeps t (∃ fragment ∈ fragments, maxExceptionFragmentBytes < (encode fragment).length)
        (fragments.flatMap (shownFragment W)) [] := by
  induction fragments using List.reverseRecOn with
  | nil =>
    refine ⟨.initial, rfl, ?_⟩
    have hnone : (∃ fragment ∈ ([] : List (List Char)),
        maxExceptionFragmentBytes < (encode fragment).length) ↔ False := by simp
    rw [hnone]
    exact keeps_initial
  | append_singleton fragments fragment ih =>
    obtain ⟨s, hs, hkeeps⟩ := ih fun other hother => hfuel other (List.mem_append_left _ hother)
    obtain ⟨t, ht, hnext⟩ := hkeeps.absorb
      (hfuel fragment (List.mem_append_right _ (List.mem_singleton_self _)))
    refine ⟨t, ?_, ?_⟩
    · rw [List.foldlM_append, hs]
      show (List.foldlM (ExceptionText.absorb W fuel) s [fragment]) = some t
      rw [List.foldlM_cons, ht]
      rfl
    · have hsome : (∃ other ∈ fragments ++ [fragment],
          maxExceptionFragmentBytes < (encode other).length) ↔
          (∃ other ∈ fragments, maxExceptionFragmentBytes < (encode other).length) ∨
            maxExceptionFragmentBytes < (encode fragment).length := by
        simp only [List.mem_append, List.mem_singleton, or_and_right, exists_or, exists_eq_left]
      rw [hsome, List.flatMap_append, List.flatMap_singleton]
      exact hnext

theorem takeAll_mono {s t : ExceptionText} {fragment : List Char} {fuel more : Nat}
    (h : takeAll fuel s fragment = some t) (hle : fuel ≤ more) : takeAll more s fragment = some t := by
  induction fuel generalizing s fragment more with
  | zero =>
    cases fragment with
    | nil => cases more <;> exact h
    | cons c fragment => cases h
  | succ fuel ih =>
    obtain ⟨more, rfl⟩ := Nat.exists_eq_add_of_le' (Nat.one_le_of_lt hle)
    cases fragment with
    | nil => exact h
    | cons c fragment =>
      unfold takeAll at h ⊢
      obtain ⟨next, hnext, hrest⟩ := Option.bind_eq_some_iff.mp h
      rw [hnext]
      exact ih hrest (Nat.le_of_succ_le_succ hle)

theorem absorb_mono {s t : ExceptionText} {fragment : List Char} {fuel more : Nat}
    (h : absorb W fuel s fragment = some t) (hle : fuel ≤ more) : absorb W more s fragment = some t := by
  unfold absorb at h ⊢
  split at h
  next hlong =>
    rw [if_pos hlong]
    exact takeAll_mono h hle
  next hlong =>
    rw [if_neg hlong]
    exact takeAll_mono h hle

theorem fold_mono {s t : ExceptionText} {fragments : List (List Char)} {fuel more : Nat}
    (h : fragments.foldlM (absorb W fuel) s = some t) (hle : fuel ≤ more) :
    fragments.foldlM (absorb W more) s = some t := by
  induction fragments generalizing s with
  | nil => exact h
  | cons fragment fragments ih =>
    rw [List.foldlM_cons] at h ⊢
    obtain ⟨next, hnext, hrest⟩ := Option.bind_eq_some_iff.mp h
    rw [absorb_mono hnext hle]
    exact ih hrest

theorem utf8Length_pieces {tail : List (List Char × Nat)}
    (h : ∀ piece ∈ tail, piece.2 = utf8Length piece.1) :
    utf8Length (tail.map Prod.fst).flatten = tailTotal tail := by
  induction tail with
  | nil => rfl
  | cons piece tail ih =>
    unfold tailTotal at *
    rw [List.map_cons, List.flatten_cons, Logs.utf8Length_append, List.map_cons, List.sum_cons,
      h piece List.mem_cons_self, ih fun other hother => h other (List.mem_cons_of_mem _ hother)]

end ExceptionText

/-- With enough rounds the loop ends, and its text has at most 32768 bytes. It is all of the
redacted fragments where none has more than 4096 bytes and they have no more than 16384;
otherwise it is a front of what there is of them, the marker, and an end of what follows. -/
theorem exception_text_bounded (W : WordClass) (fragments : List (List Char)) :
    ∃ enough text,
      (∀ fuel, enough ≤ fuel → boundedExceptionText W fuel fragments = some text) ∧
      (encode text).length ≤ 32768 ∧
      if (∀ fragment ∈ fragments, (encode fragment).length ≤ 4096) ∧
        (encode (fragments.flatMap (redactText W))).length ≤ 16384 then
        text = fragments.flatMap (redactText W)
      else ∃ front middle back, fragments.flatMap (shownFragment W) = front ++ (middle ++ back) ∧
        text = front ++ truncationMarker ++ back := by
  have henough : ∀ fragment ∈ fragments, (shownFragment W fragment).length + 1 ≤
      (fragments.map fun fragment => (shownFragment W fragment).length + 1).sum :=
    fun fragment hfragment =>
      List.single_le_sum (fun _ _ => Nat.zero_le _) _ (List.mem_map_of_mem hfragment)
  obtain ⟨t, ht, hkeeps⟩ := ExceptionText.keeps_fold henough
  refine ⟨(fragments.map fun fragment => (shownFragment W fragment).length + 1).sum, t.text,
    fun fuel hfuel => ?_, ?_, ?_⟩
  · unfold boundedExceptionText
    rw [ExceptionText.fold_mono ht hfuel]
    rfl
  · have hhead := hkeeps.head.1
    have htail := hkeeps.tail
    rw [← ExceptionText.utf8Length_pieces hkeeps.sizes, tailLimit_eq] at htail
    have hmarker := length_truncationMarker
    rw [length_encode] at hmarker ⊢
    unfold headLimit maxExceptionTextBytes at hhead
    unfold ExceptionText.text
    split
    next =>
      rw [Logs.utf8Length_append, Logs.utf8Length_append]
      omega
    next => omega
  · -- without a fragment that is left out, what is shown is what is redacted
    have hsame : (∀ fragment ∈ fragments, (encode fragment).length ≤ 4096) →
        fragments.flatMap (shownFragment W) = fragments.flatMap (redactText W) := fun hshort =>
      List.flatMap_congr fun fragment hfragment => if_neg (Nat.not_lt.mpr (hshort fragment hfragment))
    unfold ExceptionText.text
    cases htruncated : t.truncated with
    | false =>
      obtain ⟨hdone, hbytes⟩ := hkeeps.whole htruncated
      have hshort : ∀ fragment ∈ fragments, (encode fragment).length ≤ 4096 := by
        intro fragment hfragment
        by_contra hlong
        have hsaid := hkeeps.omits ⟨fragment, hfragment, Nat.not_le.mp hlong⟩
        rw [htruncated] at hsaid
        cases hsaid
      rw [hsame hshort] at hdone hbytes
      have hlimit := hkeeps.head.2
      unfold headLimit maxExceptionTextBytes at hlimit
      rw [if_pos ⟨hshort, by rw [length_encode]; omega⟩, hdone]
      rfl
    | true =>
      have hreason := hkeeps.reason htruncated
      rw [if_neg]
      · obtain ⟨middle, hparts⟩ := hkeeps.parts
        exact ⟨t.head.flatten, middle, (t.tail.map Prod.fst).flatten,
          by rw [hparts, List.append_assoc], rfl⟩
      · rintro ⟨hshort, htotal⟩
        obtain ⟨fragment, hfragment, hlong⟩ | hlong := hreason
        · exact absurd (hshort fragment hfragment) (Nat.not_le.mpr hlong)
        · rw [List.append_nil, hsame hshort] at hlong
          rw [length_encode] at htotal
          unfold headLimit maxExceptionTextBytes at hlong
          omega

end CameraLogs.Common

import CameraLogs.Common.RedactionIdempotent
import CameraLogs.Lib.Dict
import Mathlib.Data.Char
import Mathlib.Data.List.Lex
import Mathlib.Data.List.Sort

/-!
# Redacting nested values

`redact` goes through what is logged. Under a secret key it leaves nothing of a value, whatever
that is; all other texts go through `redactText`. A second time it changes nothing exactly when the
texts that are left of the value are settled (`redact_again_iff`).
-/

namespace CameraLogs.Common

open Lib

/-- What is logged: texts, mappings by the texts of their keys, sequences, sets, exceptions with
their formatted texts, and other objects. -/
inductive LogValue (β : Type) where
  | text (s : List Char)
  | mapping (members : List (List Char × LogValue β))
  | tuple (items : List (LogValue β))
  | list (items : List (LogValue β))
  | set (items : List (LogValue β))
  | exception (formatted : List Char)
  | other (object : β)

variable {β : Type} {W : WordClass} {reprOf : LogValue β → List Char} {s : List Char} {v : LogValue β}

def secretKeys : List (List Char) :=
  ["password", "token", "authorization", "passwordencrypted", "currentpassword", "newpassword",
    "adminpassword", "passwordhash", "tokenhash", "tokenencrypted", "bootstraptoken",
    "internaltoken", "encryptionkey", "cookie", "setcookie"].map String.toList

/-- `lower()`; beyond ASCII the Kelvin sign only has a letter of a secret key. -/
def lowerChar (c : Char) : Char :=
  if 'A' ≤ c ∧ c ≤ 'Z' then Char.ofNat (c.toNat + 32)
  else if c.toNat = 0x212a then 'k'
  else c

def secretKey (key : List Char) : Bool :=
  let normalized := ((key.filter (· != '_')).filter (· != '-')).map lowerChar
  secretKeys.contains normalized

/-- A set in the order of its items' texts. -/
def sorted (reprOf : LogValue β → List Char) (items : List (LogValue β)) : List (LogValue β) :=
  items.insertionSort fun a b => reprOf a ≤ reprOf b

theorem mem_sorted {items : List (LogValue β)} : v ∈ sorted reprOf items ↔ v ∈ items :=
  List.mem_insertionSort _

theorem sizeOf_item {items : List (LogValue β)} (h : v ∈ items) : sizeOf v < sizeOf items :=
  List.sizeOf_lt_of_mem h

/-- A dictionary of the members, of which the later ones write over the earlier ones. -/
def members {γ : Type} (entries : List (List Char × γ)) : List (List Char × γ) :=
  Dict.upsertAll Prod.fst [] entries

def redact (W : WordClass) (reprOf : LogValue β → List Char) : LogValue β → LogValue β
  | .mapping entries =>
    .mapping (members (entries.attach.map fun entry =>
      (entry.1.1, if secretKey entry.1.1 then .text redacted else redact W reprOf entry.1.2)))
  | .tuple items => .list (items.attach.map fun item => redact W reprOf item.1)
  | .list items => .list (items.attach.map fun item => redact W reprOf item.1)
  | .set items => .list ((sorted reprOf items).attach.map fun item => redact W reprOf item.1)
  | .exception formatted => .text (redactText W formatted)
  | .text s => .text (redactText W s)
  | .other object => .other object
termination_by v => sizeOf v
decreasing_by
  · have hentry := List.sizeOf_lt_of_mem entry.2
    have hitem : sizeOf entry.1.2 < sizeOf entry.1 := by
      obtain ⟨⟨key, item⟩, -⟩ := entry
      simp only [Prod.mk.sizeOf_spec]
      omega
    simp only [LogValue.mapping.sizeOf_spec]
    omega
  · have hitem := List.sizeOf_lt_of_mem item.2
    simp only [LogValue.tuple.sizeOf_spec]
    omega
  · have hitem := List.sizeOf_lt_of_mem item.2
    simp only [LogValue.list.sizeOf_spec]
    omega
  · have hitem := List.sizeOf_lt_of_mem (mem_sorted.mp item.2)
    simp only [LogValue.set.sizeOf_spec]
    omega

/-! ## What is left of a value -/

/-- A text that is left of a value to be redacted: not one under a secret key, nor one that a later
member of the same key writes over. -/
inductive Reaches : LogValue β → List Char → Prop
  | text {s : List Char} : Reaches (.text s) s
  | exception {s : List Char} : Reaches (.exception s) s
  | tuple {items : List (LogValue β)} {v : LogValue β} {s : List Char} (hv : v ∈ items)
      (h : Reaches v s) : Reaches (.tuple items) s
  | list {items : List (LogValue β)} {v : LogValue β} {s : List Char} (hv : v ∈ items)
      (h : Reaches v s) : Reaches (.list items) s
  | set {items : List (LogValue β)} {v : LogValue β} {s : List Char} (hv : v ∈ items)
      (h : Reaches v s) : Reaches (.set items) s
  | mapping {entries : List (List Char × LogValue β)} {key : List Char} {v : LogValue β}
      {s : List Char} (hv : (key, v) ∈ members entries) (hkey : secretKey key = false)
      (h : Reaches v s) : Reaches (.mapping entries) s

/-- A member of a mapping. -/
def redactMember (W : WordClass) (reprOf : LogValue β → List Char)
    (entry : List Char × LogValue β) : List Char × LogValue β :=
  (entry.1, if secretKey entry.1 then .text redacted else redact W reprOf entry.2)

attribute [local simp] redact

theorem redact_mapping (entries : List (List Char × LogValue β)) :
    redact W reprOf (.mapping entries) =
      .mapping ((members entries).map (redactMember W reprOf)) := by
  have hmap : (members entries).map (redactMember W reprOf) =
      members (entries.map (redactMember W reprOf)) :=
    @Dict.map_upsertAll _ _ _ Prod.fst _ Prod.fst (redactMember W reprOf) (fun _ => rfl) [] entries
  have hattach : entries.attach.map (fun entry => redactMember W reprOf entry.1) =
      entries.map (redactMember W reprOf) := List.attach_map_val
  rw [redact, hmap, ← hattach]
  rfl

theorem redact_tuple (items : List (LogValue β)) :
    redact W reprOf (.tuple items) = .list (items.map (redact W reprOf)) := by
  simp

theorem redact_list (items : List (LogValue β)) :
    redact W reprOf (.list items) = .list (items.map (redact W reprOf)) := by
  simp

theorem redact_set (items : List (LogValue β)) :
    redact W reprOf (.set items) = .list ((sorted reprOf items).map (redact W reprOf)) := by
  simp

theorem members_of_nodup {γ : Type} {entries : List (List Char × γ)}
    (h : (entries.map Prod.fst).Nodup) : members entries = entries :=
  Dict.upsertAll_append h

theorem nodup_members {γ : Type} (entries : List (List Char × γ)) :
    ((members entries).map Prod.fst).Nodup := Dict.nodup_upsertAll List.nodup_nil

theorem mem_members {γ : Type} {entries : List (List Char × γ)} {entry : List Char × γ}
    (h : entry ∈ members entries) : entry ∈ entries := by
  obtain hnil | h := Dict.mem_upsertAll h
  · cases hnil
  · exact h

/-- The items of a sequence are the same the second time when each of them is. -/
theorem items_again_iff {items : List (LogValue β)}
    (ih : ∀ v ∈ items, redact W reprOf (redact W reprOf v) = redact W reprOf v ↔
      ∀ s, Reaches v s → settled W s = true) :
    redact W reprOf (.list (items.map (redact W reprOf))) = .list (items.map (redact W reprOf)) ↔
      ∀ v ∈ items, ∀ s, Reaches v s → settled W s = true := by
  rw [redact_list, LogValue.list.injEq, List.map_map, List.map_inj_left]
  exact forall₂_congr ih

/-- So are the members of a mapping, where those under secret keys always are. -/
theorem members_again_iff {entries : List (List Char × LogValue β)}
    (ih : ∀ entry ∈ entries, redact W reprOf (redact W reprOf entry.2) = redact W reprOf entry.2 ↔
      ∀ s, Reaches entry.2 s → settled W s = true) :
    redact W reprOf (redact W reprOf (.mapping entries)) = redact W reprOf (.mapping entries) ↔
      ∀ s, Reaches (.mapping entries) s → settled W s = true := by
  have hkeys : (((members entries).map (redactMember W reprOf)).map Prod.fst).Nodup := by
    rw [List.map_map]
    exact nodup_members entries
  rw [redact_mapping, redact_mapping, members_of_nodup hkeys, LogValue.mapping.injEq,
    List.map_map, List.map_inj_left]
  constructor
  · intro h s hs
    cases hs with
    | mapping hv hkey hs =>
      have hsame := congrArg Prod.snd (h _ hv)
      rw [Function.comp, redactMember, redactMember, hkey] at hsame
      exact (ih _ (mem_members hv)).mp hsame s hs
  · rintro h ⟨key, v⟩ hv
    refine Prod.ext rfl ?_
    show (if secretKey key then LogValue.text redacted else _) = _
    cases hkey : secretKey key with
    | true => rw [redactMember, hkey]; rfl
    | false =>
      rw [redactMember, hkey]
      exact (ih _ (mem_members hv)).mpr fun s hs => h s (.mapping hv hkey hs)

theorem redact_again_iff (v : LogValue β) :
    redact W reprOf (redact W reprOf v) = redact W reprOf v ↔
      ∀ s, Reaches v s → settled W s = true := by
  match v with
  | .text s =>
    rw [redact, redact, LogValue.text.injEq, redactText_again_iff]
    exact ⟨fun h _ hs => by cases hs; exact h, fun h => h s .text⟩
  | .exception s =>
    rw [redact, redact, LogValue.text.injEq, redactText_again_iff]
    exact ⟨fun h _ hs => by cases hs; exact h, fun h => h s .exception⟩
  | .other object =>
    rw [redact, redact]
    exact iff_of_true rfl fun _ hs => nomatch hs
  | .tuple items =>
    rw [redact_tuple, items_again_iff fun v hv => redact_again_iff v]
    exact ⟨fun h s hs => by cases hs with | tuple hv hs => exact h _ hv s hs,
      fun h v hv s hs => h s (.tuple hv hs)⟩
  | .list items =>
    rw [redact_list, items_again_iff fun v hv => redact_again_iff v]
    exact ⟨fun h s hs => by cases hs with | list hv hs => exact h _ hv s hs,
      fun h v hv s hs => h s (.list hv hs)⟩
  | .set items =>
    rw [redact_set, items_again_iff fun v hv => redact_again_iff v]
    exact ⟨fun h s hs => by cases hs with | set hv hs => exact h _ (mem_sorted.mpr hv) s hs,
      fun h v hv s hs => h s (.set (mem_sorted.mp hv) hs)⟩
  | .mapping entries => exact members_again_iff fun entry hentry => redact_again_iff entry.2
termination_by sizeOf v
decreasing_by
  all_goals simp_wf
  · have hitem := List.sizeOf_lt_of_mem hv
    omega
  · have hitem := List.sizeOf_lt_of_mem hv
    omega
  · have hitem := List.sizeOf_lt_of_mem (mem_sorted.mp hv)
    omega
  · have hlt := List.sizeOf_lt_of_mem hentry
    have hitem : sizeOf entry.2 < sizeOf entry := by
      obtain ⟨key, item⟩ := entry
      simp only [Prod.mk.sizeOf_spec]
      omega
    omega

/-- Redacting twice is redacting once exactly for settled texts, and for values of which settled
texts are left. -/
theorem redaction_idempotent_exact (W : WordClass) (reprOf : LogValue β → List Char) :
    (∀ s, redactText W (redactText W s) = redactText W s ↔ settled W s = true) ∧
      ∀ v, redact W reprOf (redact W reprOf v) = redact W reprOf v ↔
        ∀ s, Reaches v s → settled W s = true :=
  ⟨redactText_again_iff, redact_again_iff⟩

theorem alphanum_range {c : Char} (h : c.isAlphanum = true) : 48 ≤ c.toNat ∧ c.toNat ≤ 122 := by
  have hrange : ∀ {lo hi : Char}, lo ≤ c → c ≤ hi → lo.toNat ≤ c.toNat ∧ c.toNat ≤ hi.toNat :=
    fun hlo hhi => ⟨hlo, hhi⟩
  have hkinds : ((c.isUpper || c.isLower) || c.isDigit) = true := h
  rw [Bool.or_eq_true, Bool.or_eq_true] at hkinds
  obtain (h | h) | h := hkinds
  · have hupper : 'A' ≤ c ∧ c ≤ 'Z' := of_decide_eq_true h
    obtain ⟨hlo, hhi⟩ := @hrange 'A' 'Z' hupper.1 hupper.2
    exact ⟨Nat.le_trans (by decide) hlo, Nat.le_trans hhi (by decide)⟩
  · obtain ⟨hlow, hhigh⟩ := Bool.and_eq_true_iff.mp h
    obtain ⟨hlo, hhi⟩ := @hrange 'a' 'z' (of_decide_eq_true hlow) (of_decide_eq_true hhigh)
    exact ⟨Nat.le_trans (by decide) hlo, hhi⟩
  · rw [Char.isDigit, Bool.and_eq_true, decide_eq_true_eq, decide_eq_true_eq] at h
    obtain ⟨hlo, hhi⟩ := @hrange '0' '9' h.1 h.2
    exact ⟨hlo, Nat.le_trans hhi (by decide)⟩

/-- Letters, digits and the underscore of ASCII, and the four characters that count as letters. -/
def asciiWords : WordClass where
  isWord c := c.isAlphanum || c == '_' || [0x17f, 0x212a, 0x130, 0x131].contains c.toNat
  ascii c hc := by
    have hnot : [0x17f, 0x212a, 0x130, 0x131].contains c.toNat = false := by
      rw [List.contains_eq_mem, decide_eq_false_iff_not]
      simp only [List.mem_cons, List.not_mem_nil, or_false, not_or]
      omega
    rw [hnot, Bool.or_false]
  folded c hc := by
    rw [List.contains_iff_mem.mpr hc, Bool.or_true]
  space c hc := by
    rw [Bool.or_eq_false_iff, Bool.or_eq_false_iff, beq_eq_false_iff_ne]
    refine ⟨⟨?_, ?_⟩, ?_⟩
    · cases halpha : c.isAlphanum with
      | false => rfl
      | true =>
        have hrange := alphanum_range halpha
        simp only [Logs.isSpace, Bool.or_eq_true, Bool.and_eq_true, decide_eq_true_eq] at hc
        omega
    · rintro rfl
      cases hc
    · simp only [Logs.isSpace, Bool.or_eq_true, Bool.and_eq_true, decide_eq_true_eq] at hc
      rw [List.contains_eq_mem, decide_eq_false_iff_not]
      simp only [List.mem_cons, List.not_mem_nil, or_false, not_or]
      omega

/-- A password without quotes: the bracket that is put in is read as what follows it. -/
theorem bare_secret_grows : redactText asciiWords (redactText asciiWords "password=x".toList) ≠
    redactText asciiWords "password=x".toList := by
  intro heq
  have hlength := congrArg List.length heq
  revert hlength
  decide +kernel

end CameraLogs.Common

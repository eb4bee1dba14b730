import Mathlib.Data.List.Sort
import Mathlib.Order.RelClasses
import Mathlib.Algebra.GroupWithZero.Nat

/-!
# Listing page by page

A listing in pages is asked for again with the cursor of the page before, until a page
comes without one. `Listed` is what such a walk collects; it is a function of the pages
(`Listed.unique`).

A keyset page takes, of a list in the strict order of its keys, the first `limit` items
behind the cursor, and its own cursor is the key of its last item when there are more.
Walking the pages of a list lists it, each item once and in order (`listed_keyset`).

A list in the strict order of its keys is given by its members (`eq_of_strict`), and sorting
a list of distinct keys makes one (`sorted_desc`).
-/

namespace CameraLogs.Lib

variable {α κ : Type} {page : Option κ → List α × Option κ} {after : Option κ}

/-- The items of the pages from a cursor on, up to the page without a next one. -/
inductive Listed (page : Option κ → List α × Option κ) : Option κ → List α → Prop
  | last {after : Option κ} (hlast : (page after).2 = none) : Listed page after (page after).1
  | more {after : Option κ} {next : κ} {rest : List α} (hnext : (page after).2 = some next)
      (hrest : Listed page (some next) rest) : Listed page after ((page after).1 ++ rest)

theorem Listed.unique {l l' : List α} (h : Listed page after l) (h' : Listed page after l') :
    l = l' := by
  induction h generalizing l' with
  | last hlast =>
    cases h' with
    | last _ => rfl
    | more hnext _ =>
      rw [hlast] at hnext
      cases hnext
  | more hnext _ ih =>
    cases h' with
    | last hlast =>
      rw [hlast] at hnext
      cases hnext
    | more hnext' hrest' =>
      have hsame := Option.some.inj (hnext.symm.trans hnext')
      subst hsame
      rw [ih hrest']

variable (key : α → κ) (r : κ → κ → Prop) [DecidableRel r] (limit : Nat) (l : List α)

/-- The items behind a cursor. -/
def behind (after : Option κ) : List α := l.filter fun x => after.all fun c => r c (key x)

/-- A page of a list of items: the first behind the cursor, and the next cursor. -/
def keysetPage (after : Option κ) : List α × Option κ :=
  ((behind key r l after).take limit,
    if limit < (behind key r l after).length then
      ((behind key r l after).take limit).getLast?.map key
    else none)

variable {key r limit l}

@[simp] theorem behind_none : behind key r l none = l := by simp [behind]

/-- Behind the last key of a first part of a strictly ordered list is the rest of it. -/
theorem behind_getLast [IsStrictOrder κ r] {pre post : List α} {x : α}
    (hsorted : (pre ++ post).Pairwise fun a b => r (key a) (key b)) (hlast : pre.getLast? = some x) :
    behind key r (pre ++ post) (some (key x)) = post := by
  obtain ⟨init, rfl⟩ := List.getLast?_eq_some_iff.mp hlast
  have ⟨hpre, hpost, hcross⟩ := List.pairwise_append.mp hsorted
  have hnone : behind key r (init ++ [x]) (some (key x)) = [] := by
    refine List.filter_eq_nil_iff.mpr fun y hy hr => ?_
    simp only [Option.all_some, decide_eq_true_eq] at hr
    obtain hinit | hself := List.mem_append.mp hy
    · have hyx := (List.pairwise_append.mp hpre).2.2 y hinit x (List.mem_singleton_self x)
      exact irrefl_of r _ (trans_of r hr hyx)
    · rw [List.mem_singleton.mp hself] at hr
      exact irrefl_of r _ hr
  have hall : behind key r post (some (key x)) = post := by
    refine List.filter_eq_self.mpr fun y hy => ?_
    exact decide_eq_true (hcross x (List.mem_append_right _ (List.mem_singleton_self x)) y hy)
  calc behind key r (init ++ [x] ++ post) (some (key x))
      = behind key r (init ++ [x]) (some (key x)) ++ behind key r post (some (key x)) :=
        List.filter_append _ _
    _ = post := by rw [hnone, hall, List.nil_append]

/-- Behind a later cursor is what is behind it of what was behind an earlier one. -/
theorem behind_behind [IsStrictOrder κ r] {x : α} (hx : x ∈ behind key r l after) :
    behind key r (behind key r l after) (some (key x)) = behind key r l (some (key x)) := by
  simp only [behind, List.filter_filter]
  refine List.filter_congr fun y _ => ?_
  cases after with
  | none => simp
  | some c =>
    have hcx : r c (key x) := by simpa using (List.mem_filter.mp hx).2
    simp only [Option.all_some]
    cases hxy : decide (r (key x) (key y)) with
    | false => rfl
    | true => simpa using trans_of r hcx (of_decide_eq_true hxy)

/-- Where a page has a next one, its cursor is a key of the list, and the next page goes on
there. -/
theorem keysetPage_more [IsStrictOrder κ r] (hlimit : 0 < limit)
    (hsorted : l.Pairwise fun a b => r (key a) (key b))
    (hmore : limit < (behind key r l after).length) :
    ∃ x ∈ l, (keysetPage key r limit l after).2 = some (key x) ∧
      behind key r l (some (key x)) = (behind key r l after).drop limit := by
  have htake : (behind key r l after).take limit ≠ [] := by
    intro hnil
    have := congrArg List.length hnil
    simp only [List.length_take, List.length_nil] at this
    omega
  obtain ⟨x, hx⟩ := Option.ne_none_iff_exists'.mp (mt List.getLast?_eq_none_iff.mp htake)
  have hmem : x ∈ behind key r l after := List.mem_of_mem_take (List.mem_of_getLast? hx)
  refine ⟨x, (List.mem_filter.mp hmem).1, by simp [keysetPage, hmore, hx], ?_⟩
  rw [← behind_behind hmem]
  have hsplit := List.take_append_drop limit (behind key r l after)
  have hordered : ((behind key r l after).take limit ++
      (behind key r l after).drop limit).Pairwise fun a b => r (key a) (key b) := by
    rw [hsplit]
    exact hsorted.filter _
  have hbehind := behind_getLast hordered hx
  rwa [hsplit] at hbehind

/-- The pages of a strictly ordered list, from any cursor on, list what is behind it. -/
theorem listed_behind [IsStrictOrder κ r] (hlimit : 0 < limit)
    (hsorted : l.Pairwise fun a b => r (key a) (key b)) (after : Option κ) :
    Listed (keysetPage key r limit l) after (behind key r l after) := by
  generalize hn : (behind key r l after).length = n
  induction n using Nat.strongRecOn generalizing after with
  | ind n ih =>
    by_cases hmore : limit < (behind key r l after).length
    · obtain ⟨x, -, hnext, hrest⟩ := keysetPage_more hlimit hsorted hmore
      have hlisted : Listed (keysetPage key r limit l) (some (key x))
          ((behind key r l after).drop limit) := by
        rw [← hrest]
        refine ih _ ?_ _ rfl
        rw [hrest, List.length_drop]
        omega
      have := Listed.more hnext hlisted
      rwa [keysetPage, List.take_append_drop] at this
    · have hlast : (keysetPage key r limit l after).2 = none := by simp [keysetPage, hmore]
      have := Listed.last hlast
      rwa [keysetPage, List.take_of_length_le (Nat.le_of_not_lt hmore)] at this

theorem listed_keyset [IsStrictOrder κ r] (hlimit : 0 < limit)
    (hsorted : l.Pairwise fun a b => r (key a) (key b)) :
    Listed (keysetPage key r limit l) none l := by
  have := listed_behind hlimit hsorted none
  rwa [behind_none] at this

/-! ## Pages of different sizes

A walk asks for pages of given sizes, each behind the one before, until the sizes or the pages
are at an end. A page may fail, and a cursor may be a text: `encode` makes it of a key.
-/

variable {ε γ : Type}

/-- The items of the pages of these sizes, and the cursor behind the last of them. -/
def walkPages (page : Nat → γ → Except ε (List α × Option γ)) :
    Nat → List Nat → γ → Except ε (List α × Option γ)
  | limit, limits, cursor => do
    let (items, next) ← page limit cursor
    match next, limits with
    | none, _ => .ok (items, none)
    | some cursor, [] => .ok (items, some cursor)
    | some cursor, limit :: limits =>
      let (rest, next) ← walkPages page limit limits cursor
      .ok (items ++ rest, next)
  termination_by _ limits => limits.length

/-- Pages of any sizes list a strictly ordered list from its front, as far as the sizes reach. -/
theorem walkPages_keyset [IsStrictOrder κ r] {encode : Option κ → γ}
    {page : Nat → γ → Except ε (List α × Option γ)}
    (hsorted : l.Pairwise fun a b => r (key a) (key b))
    (hpage : ∀ limit > 0, ∀ after : Option κ, (∀ k ∈ after, ∃ x ∈ l, key x = k) →
      page limit (encode after) = .ok ((keysetPage key r limit l after).1,
        (keysetPage key r limit l after).2.map fun k => encode (some k)))
    (limits : List Nat) {limit : Nat} (hlimits : ∀ n ∈ limit :: limits, 0 < n) (after : Option κ)
    (hafter : ∀ k ∈ after, ∃ x ∈ l, key x = k) :
    ∃ next, walkPages page limit limits (encode after) =
        .ok ((behind key r l after).take (limit + limits.sum), next) ∧
      (next = none ↔ (behind key r l after).length ≤ limit + limits.sum) := by
  induction limits generalizing limit after with
  | nil =>
    have hpos := hlimits limit List.mem_cons_self
    rw [walkPages, hpage limit hpos after hafter]
    by_cases hmore : limit < (behind key r l after).length
    · obtain ⟨x, -, hnext, -⟩ := keysetPage_more hpos hsorted hmore
      rw [hnext]
      refine ⟨some (encode (some (key x))), rfl, nofun, fun hle => ?_⟩
      exact absurd hmore (Nat.not_lt.mpr hle)
    · have hnext : (keysetPage key r limit l after).2 = none := by simp [keysetPage, hmore]
      rw [hnext]
      exact ⟨none, rfl, fun _ => Nat.not_lt.mp hmore, fun _ => rfl⟩
  | cons limit' limits ih =>
    have hpos := hlimits limit List.mem_cons_self
    rw [walkPages, hpage limit hpos after hafter]
    by_cases hmore : limit < (behind key r l after).length
    · obtain ⟨x, hx, hnext, hrest⟩ := keysetPage_more hpos hsorted hmore
      have hkey : ∀ k ∈ some (key x), ∃ y ∈ l, key y = k := by
        intro k hk
        cases hk
        exact ⟨x, hx, rfl⟩
      obtain ⟨next, hwalk, hnone⟩ :=
        ih (fun n hn => hlimits n (List.mem_cons_of_mem _ hn)) (some (key x)) hkey
      rw [hrest] at hwalk hnone
      refine ⟨next, ?_, ?_⟩
      · rw [hnext]
        show ((walkPages page limit' limits (encode (some (key x)))) >>= _) = _
        rw [hwalk]
        show Except.ok ((behind key r l after).take limit ++ _, next) = _
        rw [← List.take_add]
        rfl
      · rw [hnone, List.length_drop, List.sum_cons]
        omega
    · have hnext : (keysetPage key r limit l after).2 = none := by simp [keysetPage, hmore]
      have hshort := Nat.not_lt.mp hmore
      rw [hnext]
      refine ⟨none, ?_, ?_⟩
      · show Except.ok ((behind key r l after).take limit, none) = _
        rw [List.take_of_length_le hshort, List.take_of_length_le (by omega)]
      · rw [List.sum_cons]
        exact ⟨fun _ => by omega, fun _ => rfl⟩

/-- Pages that go on at a position list a list from its front, as far as the sizes reach. -/
theorem walkPages_offset {encode : Nat → γ} {page : Nat → γ → Except ε (List α × Option γ)}
    (hpage : ∀ limit > 0, ∀ position, position = 0 ∨ position < l.length →
      page limit (encode position) = .ok ((l.drop position).take limit,
        if position + limit < l.length then some (encode (position + limit)) else none))
    (limits : List Nat) {limit : Nat} (hlimits : ∀ n ∈ limit :: limits, 0 < n) {position : Nat}
    (hposition : position = 0 ∨ position < l.length) :
    ∃ next, walkPages page limit limits (encode position) =
        .ok ((l.drop position).take (limit + limits.sum), next) ∧
      (next = none ↔ l.length ≤ position + (limit + limits.sum)) := by
  induction limits generalizing limit position with
  | nil =>
    rw [walkPages, hpage limit (hlimits limit List.mem_cons_self) position hposition]
    by_cases hmore : position + limit < l.length
    · rw [if_pos hmore]
      refine ⟨some (encode (position + limit)), rfl, nofun, fun hle => ?_⟩
      exact absurd hmore (Nat.not_lt.mpr hle)
    · rw [if_neg hmore]
      exact ⟨none, rfl, fun _ => Nat.not_lt.mp hmore, fun _ => rfl⟩
  | cons limit' limits ih =>
    rw [walkPages, hpage limit (hlimits limit List.mem_cons_self) position hposition]
    by_cases hmore : position + limit < l.length
    · obtain ⟨next, hwalk, hnone⟩ :=
        ih (fun n hn => hlimits n (List.mem_cons_of_mem _ hn)) (.inr hmore)
      refine ⟨next, ?_, ?_⟩
      · rw [if_pos hmore]
        show ((walkPages page limit' limits (encode (position + limit))) >>= _) = _
        rw [hwalk]
        show Except.ok ((l.drop position).take limit ++ _, next) = _
        rw [← List.drop_drop, ← List.take_add]
        rfl
      · rw [hnone, List.sum_cons, Nat.add_assoc]
    · have hshort := Nat.not_lt.mp hmore
      rw [if_neg hmore]
      refine ⟨none, ?_, ?_⟩
      · show Except.ok ((l.drop position).take limit, none) = _
        rw [List.take_of_length_le, List.take_of_length_le]
        · rw [List.length_drop]
          omega
        · rw [List.length_drop]
          omega
      · rw [List.sum_cons]
        exact ⟨fun _ => by omega, fun _ => rfl⟩

/-! ## Strictly ordered lists -/

omit [DecidableRel r] in
/-- Two strictly ordered lists of the same members are the same list. -/
theorem eq_of_strict [IsStrictOrder κ r] {l l' : List α}
    (h : l.Pairwise fun a b => r (key a) (key b)) (h' : l'.Pairwise fun a b => r (key a) (key b))
    (hmem : ∀ x, x ∈ l ↔ x ∈ l') : l = l' := by
  have hnodup : ∀ {l : List α}, l.Pairwise (fun a b => r (key a) (key b)) → l.Nodup := by
    intro l hl
    refine hl.imp fun {a b} hab heq => ?_
    subst heq
    exact irrefl_of r _ hab
  have hperm := (List.perm_ext_iff_of_nodup (hnodup h) (hnodup h')).mpr hmem
  refine hperm.eq_of_pairwise (fun a b _ _ hab hba => ?_) h h'
  exact absurd (trans_of r hab hba) (irrefl_of r _)

/-- Sorting by descending keys, where the keys are distinct. -/
theorem sorted_desc {κ : Type} [LinearOrder κ] {key : α → κ} {l : List α}
    (hnodup : (l.map key).Nodup) :
    (l.insertionSort fun a b => key b ≤ key a).Pairwise fun a b => key a > key b := by
  have : Std.Total fun a b : α => key b ≤ key a := ⟨fun a b => le_total (key b) (key a)⟩
  have : IsTrans α fun a b : α => key b ≤ key a := ⟨fun _ _ _ hab hbc => hbc.trans hab⟩
  have hsorted := List.pairwise_insertionSort (fun a b : α => key b ≤ key a) l
  have hdistinct : (l.insertionSort fun a b => key b ≤ key a).Pairwise
      fun a b => key a ≠ key b := by
    refine List.pairwise_map.mp ?_
    exact (((List.perm_insertionSort _ l).map key).nodup_iff).mpr hnodup
  exact (hsorted.and hdistinct).imp fun hboth => lt_of_le_of_ne hboth.1 hboth.2.symm

end CameraLogs.Lib

import CameraLogs.Coredumps.Scanner

/-!
# What a scan of a directory finds

The scan offers the eligible names behind the cursor to the heap (`visitEntries_eq`). It finds the
first of them, as many as the limit, exactly if none of these is the beginning of one of the rest
(`scanDirectory_exact`): of a name and a longer one that begins with it the heap has the longer one
first.
-/

namespace CameraLogs.Coredumps

open Lib

variable {after : CodeText} {limit : Nat} {entries : List DirectoryEntry}

/-! ## The names that are offered -/

theorem visitEntry_eq {enter : CodeText → List DirectoryEntry → List CodeText → List CodeText}
    {within : CodeText → List DirectoryEntry → List CodeText}
    (henter : ∀ parent entries values, enter parent entries values =
      ((within parent entries).filter (after < ·)).foldl (offer invertedName limit) values)
    (parent : CodeText) (values : List CodeText) (entry : DirectoryEntry) :
    visitEntry after limit enter parent values entry =
      ((entryNames within parent entry).filter (after < ·)).foldl (offer invertedName limit)
        values := by
  cases entry with
  | other name => rfl
  | directory name entries =>
    rw [visitEntry, entryNames]
    split
    · rfl
    · exact henter _ _ _
  | file name unlinked =>
    rw [visitEntry, entryNames, considerFile]
    by_cases hsnapshots : name = snapshotsName
    · simp [hsnapshots]
    · by_cases hflag : name.map lowerCode = flagName
      · simp [hsnapshots, hflag]
      · by_cases hbehind : after < parent ++ name
        · cases unlinked <;> simp [hsnapshots, hflag, hbehind]
        · cases unlinked <;> simp [hsnapshots, hflag, hbehind]

theorem foldl_visitEntry {visit : List CodeText → DirectoryEntry → List CodeText}
    {names : DirectoryEntry → List CodeText}
    (h : ∀ values entry, visit values entry =
      ((names entry).filter (after < ·)).foldl (offer invertedName limit) values)
    (entries : List DirectoryEntry) (values : List CodeText) :
    entries.foldl visit values =
      ((entries.flatMap names).filter (after < ·)).foldl (offer invertedName limit) values := by
  induction entries generalizing values with
  | nil => rfl
  | cons entry entries ih =>
    rw [List.foldl_cons, ih, h, List.flatMap_cons, List.filter_append, List.foldl_append]

theorem visitEntries_eq (levels : Nat) (parent : CodeText) (entries : List DirectoryEntry)
    (values : List CodeText) :
    visitEntries after limit levels parent entries values =
      ((namesWithin levels parent entries).filter (after < ·)).foldl (offer invertedName limit)
        values := by
  induction levels generalizing parent entries values with
  | zero =>
    have henter (parent : CodeText) (entries : List DirectoryEntry) (values : List CodeText) :
        values = (([] : List CodeText).filter (after < ·)).foldl (offer invertedName limit) values :=
      rfl
    exact foldl_visitEntry (visitEntry_eq henter parent) entries values
  | succ levels ih => exact foldl_visitEntry (visitEntry_eq ih parent) entries values

/-! ## Names in order -/

theorem sorted_names (l : List CodeText) : (l.insertionSort (· ≤ ·)).Pairwise (· ≤ ·) :=
  List.pairwise_insertionSort _ l

theorem namesAfter_strict (hnodup : (eligibleNames entries).Nodup) (after : CodeText) :
    (namesAfter entries after).Pairwise (· < ·) := by
  have hperm := List.perm_insertionSort (· ≤ ·) ((eligibleNames entries).filter (after < ·))
  have hdistinct : (namesAfter entries after).Pairwise (· ≠ ·) :=
    (hperm.nodup_iff).mpr (hnodup.filter _)
  exact ((sorted_names _).and hdistinct).imp fun h => lt_of_le_of_ne h.1 h.2

theorem mem_namesAfter {name : CodeText} :
    name ∈ namesAfter entries after ↔ name ∈ eligibleNames entries ∧ after < name := by
  rw [namesAfter, List.mem_insertionSort, List.mem_filter, decide_eq_true_iff]

/-- A sorted list is the one of the names it has. -/
theorem insertionSort_eq_iff {l l' : List CodeText} (h : l'.Pairwise (· ≤ ·)) :
    l.insertionSort (· ≤ ·) = l' ↔ l.Perm l' := by
  constructor
  · rintro rfl
    exact (List.perm_insertionSort _ l).symm
  · intro hperm
    exact ((List.perm_insertionSort _ l).trans hperm).eq_of_pairwise
      (fun _ _ _ _ hab hba => le_antisymm hab hba) (sorted_names l) h

/-! ## What is found -/

theorem invertedName_lt_iff {a b : CodeText} (h : a < b) :
    invertedName b < invertedName a ↔ ¬ a <+: b :=
  map_lt_map_iff Fin.rev_strictAnti h

/-- None of the first names is the beginning of one of the others. -/
def NoneBegins (limit : Nat) (names : List CodeText) : Prop :=
  ∀ name ∈ names.take limit, ∀ later ∈ names.drop limit, ¬ name <+: later

/-- A scan finds the first names behind the cursor exactly if none of them is the beginning of one
of those that are left. -/
theorem scanDirectory_exact (hlimit : 0 < limit) (hnodup : (eligibleNames entries).Nodup)
    (after : CodeText) :
    scanDirectory after limit entries = (namesAfter entries after).take limit ↔
      NoneBegins limit (namesAfter entries after) := by
  have hstrict := namesAfter_strict hnodup after
  have hsorted : ((namesAfter entries after).take limit).Pairwise (· ≤ ·) :=
    (sorted_names _).sublist (List.take_sublist _ _)
  obtain ⟨dropped, hkeeps⟩ := @foldl_offer CodeText CodeText _ invertedName limit hlimit
    ((eligibleNames entries).filter (after < ·))
  have hperm := List.perm_insertionSort (· ≤ ·) ((eligibleNames entries).filter (after < ·))
  have hkept : Keeps invertedName limit (namesAfter entries after)
      (visitEntries after limit 2 [] entries []) dropped := by
    rw [visitEntries_eq]
    exact { hkeeps with perm := hkeeps.perm.trans hperm.symm }
  have hinjective : Function.Injective invertedName :=
    List.map_injective_iff.mpr Fin.rev_injective
  rw [scanDirectory, insertionSort_eq_iff hsorted,
    hkept.perm_take_iff (hstrict.imp ne_of_lt) fun a _ b _ h => hinjective h, NoneBegins]
  refine forall₂_congr fun name hname => forall₂_congr fun later hlater => ?_
  refine invertedName_lt_iff ?_
  have hsplit := List.take_append_drop limit (namesAfter entries after)
  rw [← hsplit] at hstrict
  exact (List.pairwise_append.mp hstrict).2.2 name hname later hlater

theorem length_scanDirectory (hlimit : 0 < limit) (after : CodeText)
    (entries : List DirectoryEntry) :
    (scanDirectory after limit entries).length = min limit (namesAfter entries after).length := by
  obtain ⟨dropped, hkeeps⟩ := @foldl_offer CodeText CodeText _ invertedName limit hlimit
    ((namesWithin 2 [] entries).filter (after < ·))
  rw [scanDirectory, List.length_insertionSort, visitEntries_eq, namesAfter,
    List.length_insertionSort, eligibleNames]
  have hsum := hkeeps.perm.length_eq
  rw [List.length_append] at hsum
  have hsize := hkeeps.size
  by_cases hnone : dropped = []
  · rw [hnone, List.length_nil] at hsum
    omega
  · have hfull := hkeeps.full hnone
    omega

/-- No file's name is the beginning of another's in the directory. -/
def PrefixFree (entries : List DirectoryEntry) : Prop :=
  ∀ name ∈ eligibleNames entries, ∀ longer ∈ eligibleNames entries, name <+: longer → name = longer

theorem scanDirectory_prefixFree (hlimit : 0 < limit) (hnodup : (eligibleNames entries).Nodup)
    (hfree : PrefixFree entries) (after : CodeText) :
    scanDirectory after limit entries = (namesAfter entries after).take limit := by
  refine (scanDirectory_exact hlimit hnodup after).mpr fun name hname later hlater hbegins => ?_
  have hmem := (mem_namesAfter.mp (List.mem_of_mem_take hname)).1
  obtain rfl := hfree name hmem later (mem_namesAfter.mp (List.mem_of_mem_drop hlater)).1 hbegins
  have hnodup' : (namesAfter entries after).Nodup := (namesAfter_strict hnodup after).imp ne_of_lt
  rw [← List.take_append_drop limit (namesAfter entries after)] at hnodup'
  exact List.disjoint_of_nodup_append hnodup' hname hlater

end CameraLogs.Coredumps

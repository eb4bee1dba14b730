import CameraLogs.Coredumps.ScanRounds

/-!
# What the rounds of the scanner cover

Directories in which no name is the beginning of another one are gone through in cyclic order, and
each file is recorded in time (`visitsInCyclicOrder`). In a directory with such a pair a round can
be made to take the longer name first (`not_visitsInCyclicOrder`), and the shorter one may never be
recorded (`recorded_longer`).
-/

namespace CameraLogs.Coredumps

open Lib

variable {devices : List DeviceDirectory} {maximum : Nat} {s : ScanState}

/-! ## From round to round -/

theorem partitionCursor_token {id : CodeText} (hid : nul ∉ id) (name : CodeText) :
    partitionCursor (scanToken id name) = (id, name) := by
  have hplain : ∀ c ∈ id, decide (c ≠ nul) = true := fun c hc =>
    decide_eq_true fun h => hid (h ▸ hc)
  have htake : (scanToken id name).takeWhile (· ≠ nul) = id := by
    rw [scanToken, List.takeWhile_append_of_pos hplain, List.takeWhile_cons_of_neg (by simp),
      List.append_nil]
  have hdrop : (scanToken id name).dropWhile (· ≠ nul) = nul :: name := by
    rw [scanToken, List.dropWhile_append_of_pos hplain, List.dropWhile_cons_of_neg (by simp)]
  rw [partitionCursor, htake, hdrop]
  rfl

theorem cyclicAfter_eq (hnamed : Named devices) (cursorText : CodeText) :
    cyclicAfter devices cursorText =
      (cyclicFrom (devicePairs devices) (cursorPosition devices cursorText)).map ofLex := by
  obtain ⟨htake, hdrop⟩ := filter_le_eq_take (devicePairs_strict hnamed)
    (toLex (partitionCursor cursorText))
  rw [cyclicAfter, htake, hdrop]
  rfl

theorem id_plain_of_pair (hnamed : Named devices) {pair : CodeText × CodeText}
    (h : toLex pair ∈ devicePairs devices) : nul ∉ pair.1 := by
  rw [devicePairs_eq hnamed, mem_rowsOf] at h
  obtain ⟨device, hdevice, hid, -⟩ := h
  have hplain := hnamed.id_plain device (mem_orderedDevices.mp hdevice)
  rwa [hid] at hplain

/-- A round behind a cursor: what it selects, and the position of the cursor behind it. -/
theorem round_spec (hnamed : Named devices)
    (hfree : ∀ device ∈ devices, PrefixFree device.entries) (hmaximum : 0 < maximum)
    (s : ScanState) :
    let selected := selectFiles maximum devices s.cursor
    let x := cursorPosition devices s.cursor
    RoundLength (devicePairs devices).length maximum x selected.length ∧
      selected = ((cyclicFrom (devicePairs devices) x).take selected.length).map ofLex ∧
      (∀ pair, selected.getLast? = some pair →
        partitionCursor (scanOnce maximum devices s).cursor = pair) ∧
      (devicePairs devices ≠ [] → cursorPosition devices (scanOnce maximum devices s).cursor =
        wrapped (devicePairs devices).length (x + selected.length)) := by
  obtain ⟨len, hround, hselected⟩ := selectFiles_eq hnamed hfree hmaximum s.cursor
  have hx := cursorPosition_le devices s.cursor
  have hlength : (selectFiles maximum devices s.cursor).length = len := by
    rw [hselected, List.length_map, List.length_take, length_cyclicFrom,
      Nat.min_eq_left hround.le]
  have hcursor : ∀ pair, (selectFiles maximum devices s.cursor).getLast? = some pair →
      partitionCursor (scanOnce maximum devices s).cursor = pair := by
    intro pair hlast
    have hmem : toLex pair ∈ devicePairs devices := by
      have hpair := List.mem_of_getLast? hlast
      rw [hselected] at hpair
      obtain ⟨pair', hpair', rfl⟩ := List.mem_map.mp hpair
      obtain h | h := List.mem_append.mp (List.mem_of_mem_take hpair')
      · exact List.mem_of_mem_drop h
      · exact List.mem_of_mem_take h
    have hnext : (scanOnce maximum devices s).cursor = scanToken pair.1 pair.2 := by
      simp only [scanOnce, hlast]
    rw [hnext, partitionCursor_token (id_plain_of_pair hnamed hmem)]
  dsimp only
  rw [hlength]
  refine ⟨hround, hselected, hcursor, fun hne => ?_⟩
  have hsize : 0 < (devicePairs devices).length := List.length_pos_of_ne_nil hne
  have hpos := hround.pos hmaximum hsize
  -- the last of the items is that of the position before
  have hmod : (cursorPosition devices s.cursor + (len - 1)) % (devicePairs devices).length <
      (devicePairs devices).length := Nat.mod_lt _ hsize
  have hlast : (selectFiles maximum devices s.cursor).getLast? =
      some (ofLex (devicePairs devices)[(cursorPosition devices s.cursor + (len - 1)) %
        (devicePairs devices).length]) := by
    have hle := hround.le
    rw [List.getLast?_eq_getElem?, hlength, hselected, List.getElem?_map,
      List.getElem?_take_of_lt (by omega), getElem_cyclicFrom hx (by omega),
      List.getElem?_eq_getElem hmod]
    rfl
  have hposition := position_getElem (devicePairs_strict hnamed) hmod
  rw [cursorPosition, hcursor _ hlast]
  have hsub : cursorPosition devices s.cursor + (len - 1) =
      cursorPosition devices s.cursor + len - 1 := by omega
  rw [wrapped, ← hsub]
  exact hposition

theorem recorded_mono (n : Nat) {n' : Nat} (h : n ≤ n') :
    (scanRounds maximum devices n s).recorded ⊆ (scanRounds maximum devices n' s).recorded := by
  induction n', h using Nat.le_induction with
  | base => exact fun _ h => h
  | succ n' _ ih => exact fun pair hpair => List.mem_append_left _ (ih hpair)

/-- Where no name is the beginning of another one the files are visited in cyclic order. -/
theorem visitsInCyclicOrder (hnamed : Named devices)
    (hfree : ∀ device ∈ devices, PrefixFree device.entries) (hmaximum : 0 < maximum)
    (s : ScanState) : VisitsInCyclicOrder maximum devices s := by
  have hspec (n : Nat) := round_spec hnamed hfree hmaximum (scanRounds maximum devices n s)
  constructor
  · intro n
    obtain ⟨hround, hselected, hcursor, -⟩ := hspec n
    refine ⟨?_, fun hne hnil => ?_, rfl, hcursor⟩
    · rw [hselected, cyclicAfter_eq hnamed, List.map_take]
      exact List.take_prefix _ _
    · have hpos := hround.pos hmaximum (List.length_pos_of_ne_nil hne)
      rw [hnil] at hpos
      exact absurd hpos (Nat.lt_irrefl 0)
  · intro pair hpair
    obtain ⟨k, hk, rfl⟩ := List.mem_iff_getElem.mp hpair
    have hne : devicePairs devices ≠ [] := List.ne_nil_of_mem hpair
    obtain ⟨t, ht, j, hj, hposition⟩ := @sweep_covers (devicePairs devices).length maximum
      (fun n => cursorPosition devices (scanRounds maximum devices n s).cursor)
      (fun n => (selectFiles maximum devices (scanRounds maximum devices n s).cursor).length)
      hmaximum (by omega) (cursorPosition_le devices _) (fun n => (hspec n).2.2.2 hne)
      (fun n => (hspec n).1) k hk
    obtain ⟨hround, hselected, -, -⟩ := hspec t
    have hle := hround.le
    have hmem : ofLex (devicePairs devices)[k] ∈
        selectFiles maximum devices (scanRounds maximum devices t s).cursor := by
      refine List.mem_of_getElem? (i := j) ?_
      rw [hselected, List.getElem?_map, List.getElem?_take_of_lt hj,
        getElem_cyclicFrom (cursorPosition_le devices _) (by omega), hposition,
        List.getElem?_eq_getElem hk]
      rfl
    refine recorded_mono (t + 1) (by omega) ?_
    exact List.mem_append_right _ hmem

/-! ## A name that begins another one -/

section Begins

variable {device : DeviceDirectory} {name : CodeText}

theorem namesAfter_eq_filter (hnamed : Named devices) (hdevice : device ∈ devices)
    (after : CodeText) :
    namesAfter device.entries after = (namesAfter device.entries []).filter (after < ·) := by
  have hnames := hnamed.names device hdevice
  refine rows_ext (namesAfter_strict hnames after) ((namesAfter_strict hnames []).filter _)
    fun x => ?_
  rw [List.mem_filter, mem_namesAfter, mem_namesAfter, decide_eq_true_iff]
  exact ⟨fun h => ⟨⟨h.1, lt_of_le_of_lt (not_lt.mp (List.not_lt_nil after)) h.2⟩, h.2⟩, fun h => ⟨h.1.1, h.2⟩⟩

/-- There is a place right before a name. -/
theorem exists_place_before (hnamed : Named devices) (hdevice : device ∈ devices)
    (hname : name ∈ eligibleNames device.entries) :
    ∃ after post, namesAfter device.entries after = name :: post := by
  have hne : [] < name := by
    have hnil : name ≠ [] := fun h => hnamed.name_ne device hdevice (h ▸ hname)
    obtain ⟨c, cs, rfl⟩ := List.exists_cons_of_ne_nil hnil
    exact List.nil_lt_cons c cs
  obtain ⟨pre, post, hall⟩ := List.append_of_mem (mem_namesAfter.mpr ⟨hname, hne⟩)
  have hstrict := namesAfter_strict (hnamed.names device hdevice) []
  rw [hall] at hstrict
  obtain rfl | ⟨init, last, rfl⟩ := List.eq_nil_or_concat pre
  · exact ⟨[], post, hall⟩
  · refine ⟨last, post, ?_⟩
    rw [namesAfter_eq_filter hnamed hdevice, hall]
    have hbehind := @behind_getLast CodeText CodeText id (· < ·) _ _ (init.concat last)
      (name :: post) last hstrict (by simp)
    simpa [behind] using hbehind

/-- From the place right before a name that is the beginning of another one a round of one file
takes a longer name. -/
theorem not_visitsInCyclicOrder (hnamed : Named devices) (hdevice : device ∈ devices)
    (hname : name ∈ eligibleNames device.entries) {longer : CodeText}
    (hlonger : longer ∈ eligibleNames device.entries) (hbegins : name <+: longer)
    (hne : name ≠ longer) : ∃ s, ¬ VisitsInCyclicOrder 1 devices s := by
  obtain ⟨after, post, hafter⟩ := exists_place_before hnamed hdevice hname
  refine ⟨⟨scanToken device.id after, []⟩, fun hvisits => ?_⟩
  have hcursor := partitionCursor_token (hnamed.id_plain device hdevice) after
  obtain ⟨others, hrotation, -⟩ := @rotation_cons devices (device.id, after) hnamed device hdevice
    rfl
  have hplace : afterName (device.id, after) device = after := if_pos rfl
  -- the cycle begins with the name
  have hcycle : ∃ cycle, cyclicAfter devices (scanToken device.id after) =
      (device.id, name) :: cycle := by
    have hrows : rowsOf (afterName (device.id, after)) (device :: others) =
        ((namesAfter device.entries (afterName (device.id, after) device)).map
          fun name => toLex (device.id, name)) ++ rowsOf (afterName (device.id, after)) others := rfl
    rw [cyclicAfter_eq hnamed, cursorPosition, hcursor, cyclicFrom_eq hnamed, hrotation, hrows,
      hplace, hafter]
    exact ⟨_, rfl⟩
  -- the round is the one name that the scan of the device finds
  obtain ⟨found, hfound⟩ : ∃ found, scanDirectory after 1 device.entries = [found] := by
    refine List.length_eq_one_iff.mp ?_
    rw [length_scanDirectory one_pos, hafter, List.length_cons]
    omega
  have hselected : selectFiles 1 devices (scanToken device.id after) = [(device.id, found)] := by
    rw [selectFiles, hcursor]
    rw [hrotation, scanDevices, if_neg one_ne_zero]
    dsimp only
    rw [hplace, hfound]
    rfl
  obtain ⟨cycle, hcycle⟩ := hcycle
  have hfirst := (hvisits.1 0).1
  have hstart : (scanRounds 1 devices 0 ⟨scanToken device.id after, []⟩).cursor =
      scanToken device.id after := rfl
  rw [hstart, hselected, hcycle, List.cons_prefix_cons] at hfirst
  have hsame : found = name := congrArg Prod.snd hfirst.1
  -- so the scan would have found the first name, which begins one that is left
  have hexact : scanDirectory after 1 device.entries = (namesAfter device.entries after).take 1 := by
    rw [hfound, hafter, hsame]
    rfl
  have hnone := (scanDirectory_exact one_pos (hnamed.names device hdevice) after).mp hexact
  rw [hafter] at hnone
  have hleft : longer ∈ post := by
    have hlt : after < longer := by
      have hmem : name ∈ namesAfter device.entries after := hafter ▸ List.mem_cons_self
      exact lt_of_lt_of_le (mem_namesAfter.mp hmem).2 (not_lt.mp hbegins.le)
    have hmem := mem_namesAfter.mpr ⟨hlonger, hlt⟩
    rw [hafter] at hmem
    exact (List.mem_cons.mp hmem).resolve_left (Ne.symm hne)
  exact hnone name List.mem_cons_self longer hleft hbegins

end Begins

/-- A scan finds the first names behind its cursor exactly if none of them is the beginning of one
that is left; and from every state and for every number of files a round may take the rounds visit
the files in cyclic order and record each in time, exactly if no name in a directory is the
beginning of another one. -/
theorem scanner_exact {entries : List DirectoryEntry} {after : CodeText} {limit : Nat}
    (hlimit : 0 < limit) (hentries : (eligibleNames entries).Nodup) (hnamed : Named devices) :
    (scanDirectory after limit entries = (namesAfter entries after).take limit ↔
      NoneBegins limit (namesAfter entries after)) ∧
    ((∀ maximum, 0 < maximum → ∀ s, VisitsInCyclicOrder maximum devices s) ↔
      ∀ device ∈ devices, PrefixFree device.entries) := by
  refine ⟨scanDirectory_exact hlimit hentries after, fun hvisits => ?_, fun hfree maximum hmaximum s =>
    visitsInCyclicOrder hnamed hfree hmaximum s⟩
  intro device hdevice name hname longer hlonger hbegins
  by_contra hne
  obtain ⟨s, hnot⟩ := not_visitsInCyclicOrder hnamed hdevice hname hlonger hbegins hne
  exact hnot (hvisits 1 one_pos s)

def coreEntries : List DirectoryEntry :=
  [.file (codeText "core") true, .file (codeText "core.1") true]

def coreDevices : List DeviceDirectory := [⟨codeText "camera", coreEntries⟩]

theorem named_coreDevices : Named coreDevices where
  ids := by decide +kernel
  id_ne := by decide +kernel
  id_plain := by decide +kernel
  names := by decide +kernel
  name_ne := by decide +kernel

theorem scanner_exact_core :
    (scanDirectory [] 1 coreEntries = (namesAfter coreEntries []).take 1 ↔
      NoneBegins 1 (namesAfter coreEntries [])) ∧
    ((∀ maximum, 0 < maximum → ∀ s, VisitsInCyclicOrder maximum coreDevices s) ↔
      ∀ device ∈ coreDevices, PrefixFree device.entries) :=
  scanner_exact one_pos (by decide +kernel) named_coreDevices

/-- With one file a round the longer name is recorded again and again. -/
theorem recorded_longer (n : Nat) :
    (scanRounds 1 coreDevices n ⟨[], []⟩).recorded =
      List.replicate n (codeText "camera", codeText "core.1") := by
  have hselected : selectFiles 1 coreDevices [] = [(codeText "camera", codeText "core.1")] := by
    decide +kernel
  have hagain : selectFiles 1 coreDevices (scanToken (codeText "camera") (codeText "core.1")) =
      [(codeText "camera", codeText "core.1")] := by decide +kernel
  have hrun (n : Nat) : (scanRounds 1 coreDevices (n + 1) ⟨[], []⟩).cursor =
        scanToken (codeText "camera") (codeText "core.1") ∧
      (scanRounds 1 coreDevices (n + 1) ⟨[], []⟩).recorded =
        List.replicate (n + 1) (codeText "camera", codeText "core.1") := by
    induction n with
    | zero =>
      show (scanOnce 1 coreDevices ⟨[], []⟩).cursor = _ ∧
        (scanOnce 1 coreDevices ⟨[], []⟩).recorded = _
      simp [scanOnce, hselected]
    | succ n ih =>
      show (scanOnce 1 coreDevices (scanRounds 1 coreDevices (n + 1) ⟨[], []⟩)).cursor = _ ∧
        (scanOnce 1 coreDevices (scanRounds 1 coreDevices (n + 1) ⟨[], []⟩)).recorded = _
      rw [scanOnce, ih.1, ih.2, hagain]
      exact ⟨rfl, List.replicate_succ'.symm⟩
  cases n with
  | zero => rfl
  | succ n => exact (hrun n).2

/-- The first name is not found first, and it is never recorded. -/
theorem shorter_name_starves :
    scanDirectory [] 1 coreEntries ≠ (namesAfter coreEntries []).take 1 ∧
      ¬ ∃ n, (codeText "camera", codeText "core") ∈
        (scanRounds 1 coreDevices n ⟨[], []⟩).recorded := by
  refine ⟨by decide +kernel, fun ⟨n, hmem⟩ => ?_⟩
  rw [recorded_longer] at hmem
  exact absurd (List.eq_of_mem_replicate hmem) (by decide +kernel)

end CameraLogs.Coredumps

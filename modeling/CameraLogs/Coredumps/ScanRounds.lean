import CameraLogs.Coredumps.ScanDirectory
import CameraLogs.Lib.Paging

/-!
# The rounds of the scanner

Where no name is the beginning of another one a round takes the files behind its cursor in cyclic
order (`selectFiles_eq`). It takes as many as it may, unless the device of the cursor has files
behind the cursor: then it ends before the first files of that device.
-/

namespace CameraLogs.Coredumps

open Lib

/-- What the ids of devices and the names of files are. -/
structure Named (devices : List DeviceDirectory) : Prop where
  ids : (devices.map (·.id)).Nodup
  id_ne : ∀ device ∈ devices, device.id ≠ []
  id_plain : ∀ device ∈ devices, nul ∉ device.id
  names : ∀ device ∈ devices, (eligibleNames device.entries).Nodup
  name_ne : ∀ device ∈ devices, [] ∉ eligibleNames device.entries

variable {devices : List DeviceDirectory} {cursor : CodeText × CodeText} {maximum : Nat}

/-! ## The files of the devices in order -/

def orderedDevices (devices : List DeviceDirectory) : List DeviceDirectory :=
  devices.insertionSort fun a b => a.id ≤ b.id

theorem mem_orderedDevices {device : DeviceDirectory} :
    device ∈ orderedDevices devices ↔ device ∈ devices :=
  (List.perm_insertionSort (fun a b : DeviceDirectory => a.id ≤ b.id) devices).mem_iff

theorem orderedDevices_strict (hnamed : Named devices) :
    (orderedDevices devices).Pairwise fun a b => a.id < b.id := by
  have : Std.Total fun a b : DeviceDirectory => a.id ≤ b.id := ⟨fun a b => le_total a.id b.id⟩
  have : IsTrans DeviceDirectory fun a b => a.id ≤ b.id := ⟨fun _ _ _ hab hbc => hab.trans hbc⟩
  have hsorted := List.pairwise_insertionSort (fun a b : DeviceDirectory => a.id ≤ b.id) devices
  have hdistinct : (orderedDevices devices).Pairwise fun a b => a.id ≠ b.id := by
    refine List.pairwise_map.mp ?_
    exact ((List.perm_insertionSort (fun a b : DeviceDirectory => a.id ≤ b.id) devices).map
      (·.id)).nodup_iff.mpr hnamed.ids
  exact (hsorted.and hdistinct).imp fun h => lt_of_le_of_ne h.1 h.2

/-- The files of some devices behind a name for each. -/
def rowsOf (after : DeviceDirectory → CodeText) (devices : List DeviceDirectory) :
    List (CodeText ×ₗ CodeText) :=
  devices.flatMap fun device =>
    (namesAfter device.entries (after device)).map fun name => toLex (device.id, name)

theorem rowsOf_append (after : DeviceDirectory → CodeText) (devices devices' : List DeviceDirectory) :
    rowsOf after (devices ++ devices') = rowsOf after devices ++ rowsOf after devices' :=
  List.flatMap_append

theorem mem_rowsOf {after : DeviceDirectory → CodeText} {pair : CodeText ×ₗ CodeText} :
    pair ∈ rowsOf after devices ↔ ∃ device ∈ devices, device.id = (ofLex pair).1 ∧
      (ofLex pair).2 ∈ eligibleNames device.entries ∧ after device < (ofLex pair).2 := by
  rw [rowsOf, List.mem_flatMap]
  refine exists_congr fun device => and_congr_right fun _ => ?_
  constructor
  · intro h
    obtain ⟨name, hname, rfl⟩ := List.mem_map.mp h
    exact ⟨rfl, mem_namesAfter.mp hname⟩
  · rintro ⟨hid, hname⟩
    refine List.mem_map.mpr ⟨_, mem_namesAfter.mpr hname, ?_⟩
    rw [hid]
    rfl

theorem rowsOf_strict (after : DeviceDirectory → CodeText)
    (hnames : ∀ device ∈ devices, (eligibleNames device.entries).Nodup)
    (hsorted : devices.Pairwise fun a b => a.id < b.id) :
    (rowsOf after devices).Pairwise (· < ·) := by
  refine List.pairwise_flatMap.mpr ⟨fun device hdevice => ?_, hsorted.imp ?_⟩
  · refine List.pairwise_map.mpr ((namesAfter_strict (hnames device hdevice) _).imp ?_)
    exact fun h => Prod.Lex.toLex_lt_toLex.mpr (.inr ⟨rfl, h⟩)
  · intro a b hab x hx y hy
    obtain ⟨name, -, rfl⟩ := List.mem_map.mp hx
    obtain ⟨name', -, rfl⟩ := List.mem_map.mp hy
    exact Prod.Lex.toLex_lt_toLex.mpr (.inl hab)

/-- Two sorted lists of the same members are one. -/
theorem rows_ext {α : Type} [LinearOrder α] {l l' : List α} (h : l.Pairwise (· < ·))
    (h' : l'.Pairwise (· < ·)) (hmem : ∀ x, x ∈ l ↔ x ∈ l') : l = l' :=
  @eq_of_strict _ _ id (· < ·) _ l l' h h' hmem

theorem devicePairs_eq (hnamed : Named devices) :
    devicePairs devices = rowsOf (fun _ => []) (orderedDevices devices) := by
  have hnames : ∀ device ∈ orderedDevices devices, (eligibleNames device.entries).Nodup :=
    fun device h => hnamed.names device (mem_orderedDevices.mp h)
  have hrows := rowsOf_strict (fun _ => []) hnames (orderedDevices_strict hnamed)
  have hmem (pair : CodeText ×ₗ CodeText) : pair ∈ devicePairs devices ↔
      pair ∈ rowsOf (fun _ => []) (orderedDevices devices) := by
    rw [mem_rowsOf, devicePairs, List.mem_insertionSort, List.mem_flatMap]
    constructor
    · rintro ⟨device, hdevice, hpair⟩
      obtain ⟨name, hname, rfl⟩ := List.mem_map.mp hpair
      refine ⟨device, mem_orderedDevices.mpr hdevice, rfl, hname, ?_⟩
      have hne : name ≠ [] := fun h => hnamed.name_ne device hdevice (h ▸ hname)
      obtain ⟨c, cs, rfl⟩ := List.exists_cons_of_ne_nil hne
      exact List.nil_lt_cons c cs
    · rintro ⟨device, hdevice, hid, hname, -⟩
      refine ⟨device, mem_orderedDevices.mp hdevice, List.mem_map.mpr ⟨_, hname, ?_⟩⟩
      rw [hid]
      rfl
  have hnodup : (devices.flatMap fun device =>
      (eligibleNames device.entries).map fun name => toLex (device.id, name)).Nodup := by
    refine List.nodup_flatMap.mpr ⟨fun device hdevice => ?_, ?_⟩
    · exact (hnamed.names device hdevice).map fun a b h => congrArg (fun p => (ofLex p).2) h
    · refine (List.pairwise_map.mp hnamed.ids).imp fun hab pair ha hb => ?_
      obtain ⟨name, -, rfl⟩ := List.mem_map.mp ha
      obtain ⟨name', -, h⟩ := List.mem_map.mp hb
      exact hab (congrArg (fun p => (ofLex p).1) h).symm
  refine rows_ext ?_ hrows hmem
  have hsorted := List.pairwise_insertionSort (· ≤ ·) (devices.flatMap fun device =>
    (eligibleNames device.entries).map fun name => (toLex (device.id, name) : CodeText ×ₗ CodeText))
  have hdistinct : (devicePairs devices).Pairwise (· ≠ ·) :=
    (List.perm_insertionSort _ _).nodup_iff.mpr hnodup
  exact (hsorted.and hdistinct).imp fun h => lt_of_le_of_ne h.1 h.2

theorem devicePairs_strict (hnamed : Named devices) : (devicePairs devices).Pairwise (· < ·) := by
  rw [devicePairs_eq hnamed]
  exact rowsOf_strict _ (fun device h => hnamed.names device (mem_orderedDevices.mp h))
    (orderedDevices_strict hnamed)

/-! ## The devices from the cursor on -/

/-- Of devices in order those from an id on are a last part. -/
theorem split_at_pivot {id : CodeText} {l : List DeviceDirectory}
    (hl : l.Pairwise fun a b => a.id < b.id) {pivot : Nat}
    (h : l.findIdx? (fun device => id ≤ device.id) = some pivot) :
    l.drop pivot = l.filter (id ≤ ·.id) ∧ l.take pivot = l.filter (·.id < id) := by
  induction l generalizing pivot with
  | nil => cases h
  | cons a l ih =>
    have ⟨ha, hl⟩ := List.pairwise_cons.mp hl
    rw [List.findIdx?_cons] at h
    by_cases hle : id ≤ a.id
    · have hall : l.filter (id ≤ ·.id) = l :=
        List.filter_eq_self.mpr fun b hb => decide_eq_true (hle.trans (ha b hb).le)
      have hnone : l.filter (·.id < id) = [] :=
        List.filter_eq_nil_iff.mpr fun b hb => by simpa using hle.trans (ha b hb).le
      simp only [hle, decide_true, if_true, Option.some.injEq] at h
      subst h
      simp [hle, not_lt.mpr hle, hall, hnone]
    · simp only [hle, decide_false, Bool.false_eq_true, if_false, Option.map_eq_some_iff] at h
      obtain ⟨pivot, hpivot, rfl⟩ := h
      simp [hle, not_le.mp hle, ih hl hpivot]

/-- The rotation puts the devices from that of the cursor on before the others. -/
theorem rotation_eq (hnamed : Named devices) (cursor : CodeText × CodeText) :
    rotation cursor devices =
      (orderedDevices devices).filter (cursor.1 ≤ ·.id) ++
        (orderedDevices devices).filter (·.id < cursor.1) := by
  have hunfold : rotation cursor devices =
      (orderedDevices devices).drop (((orderedDevices devices).findIdx?
          fun device => cursor.1 ≤ device.id).getD 0) ++
        (orderedDevices devices).take (((orderedDevices devices).findIdx?
          fun device => cursor.1 ≤ device.id).getD 0) := rfl
  rw [hunfold]
  cases hfind : (orderedDevices devices).findIdx? fun device => cursor.1 ≤ device.id with
  | some pivot =>
    obtain ⟨hdrop, htake⟩ := split_at_pivot (orderedDevices_strict hnamed) hfind
    rw [Option.getD_some, hdrop, htake]
  | none =>
    have hbelow := List.findIdx?_eq_none_iff.mp hfind
    have hnone : (orderedDevices devices).filter (cursor.1 ≤ ·.id) = [] :=
      List.filter_eq_nil_iff.mpr fun b hb => by simpa using hbelow b hb
    have hall : (orderedDevices devices).filter (·.id < cursor.1) = orderedDevices devices :=
      List.filter_eq_self.mpr fun b hb => by simpa using hbelow b hb
    rw [hnone, hall]
    simp

/-- The files that the rotation comes to: those behind the cursor, and those of the devices before
that of the cursor. -/
theorem rowsOf_rotation (hnamed : Named devices) (cursor : CodeText × CodeText) :
    rowsOf (afterName cursor) (rotation cursor devices) =
      (devicePairs devices).filter (toLex cursor < ·) ++
        (devicePairs devices).filter fun pair => (ofLex pair).1 < cursor.1 := by
  have hordered := orderedDevices_strict hnamed
  have hnames : ∀ device ∈ orderedDevices devices, (eligibleNames device.entries).Nodup :=
    fun device h => hnamed.names device (mem_orderedDevices.mp h)
  have hne {device : DeviceDirectory} (h : device ∈ orderedDevices devices) {name : CodeText}
      (hname : name ∈ eligibleNames device.entries) : [] < name := by
    have hnil : name ≠ [] := fun hnil =>
      hnamed.name_ne device (mem_orderedDevices.mp h) (hnil ▸ hname)
    obtain ⟨c, cs, rfl⟩ := List.exists_cons_of_ne_nil hnil
    exact List.nil_lt_cons c cs
  have hmem (pair : CodeText ×ₗ CodeText) : pair ∈ devicePairs devices ↔
      ∃ device ∈ orderedDevices devices, device.id = (ofLex pair).1 ∧
        (ofLex pair).2 ∈ eligibleNames device.entries := by
    rw [devicePairs_eq hnamed, mem_rowsOf]
    exact exists_congr fun device => and_congr_right fun h => and_congr_right fun _ =>
      and_iff_left_of_imp fun hname => hne h hname
  have hpairs := devicePairs_strict hnamed
  rw [rotation_eq hnamed, rowsOf_append]
  refine congrArg₂ (· ++ ·) ?_ ?_
  · refine rows_ext (rowsOf_strict _ (fun device h => hnames device (List.mem_filter.mp h).1)
      (hordered.filter _)) (hpairs.filter _) fun pair => ?_
    rw [mem_rowsOf, List.mem_filter, hmem, decide_eq_true_iff, Prod.Lex.lt_iff]
    simp only [List.mem_filter, decide_eq_true_eq]
    constructor
    · rintro ⟨device, ⟨hdevice, hle⟩, hid, hname, hafter⟩
      refine ⟨⟨device, hdevice, hid, hname⟩, ?_⟩
      rw [← hid]
      obtain hlt | heq := lt_or_eq_of_le hle
      · exact .inl hlt
      · refine .inr ⟨heq, ?_⟩
        rwa [afterName, if_pos heq] at hafter
    · rintro ⟨⟨device, hdevice, hid, hname⟩, hbehind⟩
      rw [← hid] at hbehind
      refine ⟨device, ⟨hdevice, ?_⟩, hid, hname, ?_⟩
      · obtain hlt | ⟨heq, -⟩ := hbehind
        · exact hlt.le
        · exact heq.le
      · rw [afterName]
        split
        next heq =>
          obtain hlt | ⟨-, hlt⟩ := hbehind
          · exact absurd heq hlt.ne
          · exact hlt
        next => exact hne hdevice hname
  · refine rows_ext (rowsOf_strict _ (fun device h => hnames device (List.mem_filter.mp h).1)
      (hordered.filter _)) (hpairs.filter _) fun pair => ?_
    rw [mem_rowsOf, List.mem_filter, hmem, decide_eq_true_iff]
    simp only [List.mem_filter, decide_eq_true_eq]
    constructor
    · rintro ⟨device, ⟨hdevice, hlt⟩, hid, hname, -⟩
      exact ⟨⟨device, hdevice, hid, hname⟩, hid ▸ hlt⟩
    · rintro ⟨⟨device, hdevice, hid, hname⟩, hlt⟩
      rw [← hid] at hlt
      refine ⟨device, ⟨hdevice, hlt⟩, hid, hname, ?_⟩
      rw [afterName, if_neg hlt.ne']
      exact hne hdevice hname

/-! ## A round -/

theorem scanDevices_eq (hnames : ∀ device ∈ devices, (eligibleNames device.entries).Nodup)
    (hfree : ∀ device ∈ devices, PrefixFree device.entries) (remaining : Nat) :
    (scanDevices cursor devices remaining).discovered =
        ((rowsOf (afterName cursor) devices).take remaining).map ofLex ∧
      (scanDevices cursor devices remaining).remaining =
        remaining - (rowsOf (afterName cursor) devices).length := by
  induction devices generalizing remaining with
  | nil => simp [scanDevices, rowsOf]
  | cons device devices ih =>
    rw [scanDevices]
    split
    next hzero => simp [hzero]
    next hpos =>
      have hentries := scanDirectory_prefixFree (Nat.pos_of_ne_zero hpos)
        (hnames device List.mem_cons_self) (hfree device List.mem_cons_self)
        (afterName cursor device)
      have hlength : (scanDirectory (afterName cursor device) remaining device.entries).length =
          min remaining (namesAfter device.entries (afterName cursor device)).length := by
        rw [hentries, List.length_take]
      obtain ⟨hdiscovered, hremaining⟩ := ih (fun d h => hnames d (List.mem_cons_of_mem _ h))
        (fun d h => hfree d (List.mem_cons_of_mem _ h))
        (remaining - (scanDirectory (afterName cursor device) remaining device.entries).length)
      have hrows : rowsOf (afterName cursor) (device :: devices) =
          ((namesAfter device.entries (afterName cursor device)).map
            fun name => toLex (device.id, name)) ++ rowsOf (afterName cursor) devices := rfl
      have hleft : remaining - min remaining
          (namesAfter device.entries (afterName cursor device)).length =
          remaining - (namesAfter device.entries (afterName cursor device)).length := by omega
      dsimp only
      constructor
      · rw [hdiscovered, hlength, hleft, hentries, hrows, List.take_append, List.map_append,
          List.length_map, ← List.map_take, List.map_map]
        rfl
      · rw [hremaining, hlength, hleft, hrows, List.length_append, List.length_map]
        omega

theorem cursorHasEntries_of_ne (h : ∀ device ∈ devices, device.id ≠ cursor.1) (remaining : Nat) :
    (scanDevices cursor devices remaining).cursorHasEntries = false := by
  induction devices generalizing remaining with
  | nil => rfl
  | cons device devices ih =>
    rw [scanDevices]
    split
    · rfl
    · simp only
      rw [ih (fun d hd => h d (List.mem_cons_of_mem _ hd))]
      simp [h device List.mem_cons_self]

/-- The rotation begins with the device of the cursor. -/
theorem rotation_cons (hnamed : Named devices) {device : DeviceDirectory} (hdevice : device ∈ devices)
    (hid : device.id = cursor.1) :
    ∃ others, rotation cursor devices = device :: others ∧ ∀ other ∈ others, other.id ≠ cursor.1 := by
  obtain ⟨pre, post, hordered⟩ := List.append_of_mem (mem_orderedDevices.mpr hdevice)
  have hstrict := orderedDevices_strict hnamed
  rw [hordered] at hstrict
  obtain ⟨-, hpost, hcross⟩ := List.pairwise_append.mp hstrict
  have hbelow : ∀ other ∈ pre, other.id < cursor.1 := fun other h =>
    hid ▸ hcross other h device List.mem_cons_self
  have habove : ∀ other ∈ post, cursor.1 < other.id := fun other h =>
    hid ▸ (List.pairwise_cons.mp hpost).1 other h
  have hfrom : (pre ++ device :: post).filter (cursor.1 ≤ ·.id) = device :: post := by
    have hpre : pre.filter (cursor.1 ≤ ·.id) = [] :=
      List.filter_eq_nil_iff.mpr fun other h => by simpa using hbelow other h
    have hall : post.filter (cursor.1 ≤ ·.id) = post :=
      List.filter_eq_self.mpr fun other h => decide_eq_true (habove other h).le
    simp [hpre, hall, hid]
  have hbefore : (pre ++ device :: post).filter (·.id < cursor.1) = pre := by
    have hpre : pre.filter (·.id < cursor.1) = pre :=
      List.filter_eq_self.mpr fun other h => decide_eq_true (hbelow other h)
    have hnone : post.filter (·.id < cursor.1) = [] :=
      List.filter_eq_nil_iff.mpr fun other h => by simpa using (habove other h).le
    simp [hpre, hnone, hid]
  refine ⟨post ++ pre, ?_, fun other h => ?_⟩
  · rw [rotation_eq hnamed, hordered, hfrom, hbefore]
    rfl
  · obtain h | h := List.mem_append.mp h
    · exact (habove other h).ne'
    · exact (hbelow other h).ne

/-- Whether the device of the cursor, the first of the rotation, has files behind the cursor. -/
theorem cursorHasEntries_cons {device : DeviceDirectory} (hid : device.id = cursor.1)
    (hothers : ∀ other ∈ devices, other.id ≠ cursor.1)
    (hnodup : (eligibleNames device.entries).Nodup) (hfree : PrefixFree device.entries)
    (hmaximum : 0 < maximum) :
    (scanDevices cursor (device :: devices) maximum).cursorHasEntries =
      !(namesAfter device.entries cursor.2).isEmpty := by
  have hafter : afterName cursor device = cursor.2 := if_pos hid.symm
  rw [scanDevices, if_neg hmaximum.ne']
  dsimp only
  rw [cursorHasEntries_of_ne hothers, scanDirectory_prefixFree hmaximum hnodup hfree, hafter,
    Bool.or_false, hid]
  cases namesAfter device.entries cursor.2 with
  | nil => simp
  | cons name names =>
    obtain ⟨n, rfl⟩ := Nat.exists_eq_add_of_lt hmaximum
    simp

/-- The files of the device of the cursor that are not behind the cursor. -/
def ownRows (devices : List DeviceDirectory) (cursor : CodeText × CodeText) :
    List (CodeText ×ₗ CodeText) :=
  (devicePairs devices).filter fun pair => (ofLex pair).1 = cursor.1 ∧ (ofLex pair).2 ≤ cursor.2

theorem filter_le_eq (hnamed : Named devices) (cursor : CodeText × CodeText) :
    (devicePairs devices).filter (· ≤ toLex cursor) =
      (devicePairs devices).filter (fun pair => (ofLex pair).1 < cursor.1) ++
        ownRows devices cursor := by
  have hpairs := devicePairs_strict hnamed
  refine rows_ext (hpairs.filter _) ?_ fun pair => ?_
  · refine List.pairwise_append.mpr ⟨hpairs.filter _, hpairs.filter _, fun a ha b hb => ?_⟩
    have hlt := (List.mem_filter.mp ha).2
    have heq := (List.mem_filter.mp hb).2
    rw [decide_eq_true_iff] at hlt heq
    exact Prod.Lex.lt_iff.mpr (.inl (heq.1 ▸ hlt))
  · rw [List.mem_append, ownRows, List.mem_filter, List.mem_filter, List.mem_filter, ← and_or_left]
    refine and_congr_right fun _ => ?_
    rw [decide_eq_true_iff, decide_eq_true_iff, decide_eq_true_iff, Prod.Lex.le_iff]
    rfl

/-- Of the device of the cursor, when it has no files behind the cursor. -/
theorem ownRows_eq (hnamed : Named devices) {device : DeviceDirectory} (hdevice : device ∈ devices)
    (hid : device.id = cursor.1) (hnone : namesAfter device.entries cursor.2 = []) :
    ownRows devices cursor =
      (namesAfter device.entries []).map fun name => toLex (device.id, name) := by
  have hpairs := devicePairs_strict hnamed
  have hnames : ((namesAfter device.entries []).map fun name =>
      (toLex (device.id, name) : CodeText ×ₗ CodeText)).Pairwise (· < ·) := by
    refine List.pairwise_map.mpr ((namesAfter_strict (hnamed.names device hdevice) []).imp ?_)
    exact fun h => Prod.Lex.toLex_lt_toLex.mpr (.inr ⟨rfl, h⟩)
  refine rows_ext (hpairs.filter _) hnames fun pair => ?_
  rw [ownRows, List.mem_filter, decide_eq_true_iff, devicePairs_eq hnamed, mem_rowsOf, List.mem_map]
  constructor
  · rintro ⟨⟨other, hother, hsame, hname⟩, hown, -⟩
    have heq : other = device := List.inj_on_of_nodup_map hnamed.ids
      (mem_orderedDevices.mp hother) hdevice (hsame.trans (hown.trans hid.symm))
    subst heq
    refine ⟨_, mem_namesAfter.mpr hname, ?_⟩
    rw [hsame]
    rfl
  · rintro ⟨name, hname, rfl⟩
    refine ⟨⟨device, mem_orderedDevices.mpr hdevice, rfl, mem_namesAfter.mp hname⟩, hid, ?_⟩
    refine not_lt.mp fun hbehind => ?_
    have hmem := mem_namesAfter.mpr ⟨(mem_namesAfter.mp hname).1, hbehind⟩
    rw [hnone] at hmem
    cases hmem

theorem ownRows_eq_nil (hnamed : Named devices) (hnone : ∀ device ∈ devices, device.id ≠ cursor.1) :
    ownRows devices cursor = [] := by
  refine List.filter_eq_nil_iff.mpr fun pair hpair => ?_
  rw [devicePairs_eq hnamed, mem_rowsOf] at hpair
  obtain ⟨device, hdevice, hid, -⟩ := hpair
  have hne := hnone device (mem_orderedDevices.mp hdevice)
  rw [hid] at hne
  simp [hne]

theorem find_device (hnamed : Named devices) {device : DeviceDirectory} (hdevice : device ∈ devices)
    (hid : device.id = cursor.1) : devices.find? (·.id = cursor.1) = some device := by
  cases hfind : devices.find? (·.id = cursor.1) with
  | none => exact absurd hid (by simpa using List.find?_eq_none.mp hfind device hdevice)
  | some found =>
    have hfound : found.id = cursor.1 := by simpa using List.find?_some hfind
    exact congrArg some (List.inj_on_of_nodup_map hnamed.ids (List.mem_of_find?_eq_some hfind)
      hdevice (hfound.trans hid.symm))

/-- The first files of the device of the cursor come last, if it has none behind the cursor. -/
theorem wrapAround_eq (hnamed : Named devices) {device : DeviceDirectory} (hdevice : device ∈ devices)
    (hfree : PrefixFree device.entries) (hid : device.id = cursor.1)
    (hnone : namesAfter device.entries cursor.2 = []) {found : Found}
    (hhas : found.cursorHasEntries = false) :
    wrapAround cursor devices found =
      ((ownRows devices cursor).take found.remaining).map ofLex := by
  rw [wrapAround, hhas, find_device hnamed hdevice hid, ownRows_eq hnamed hdevice hid hnone,
    ← List.map_take, List.map_map]
  split
  next hall =>
    dsimp only
    rw [scanDirectory_prefixFree (Nat.pos_of_ne_zero hall.1) (hnamed.names device hdevice) hfree]
    refine congrArg (List.map _) (List.filter_eq_self.mpr fun name hname => ?_)
    refine decide_eq_true (not_lt.mp fun hbehind => ?_)
    have hmem := mem_namesAfter.mpr ⟨(mem_namesAfter.mp (List.mem_of_mem_take hname)).1, hbehind⟩
    rw [hnone] at hmem
    cases hmem
  next hsome =>
    have hzero : found.remaining = 0 := by
      by_contra hpos
      exact hsome ⟨hpos, hid ▸ hnamed.id_ne device hdevice, rfl⟩
    rw [hzero, List.take_zero, List.map_nil]

theorem wrapAround_eq_nil {found : Found} (h : found.cursorHasEntries = true ∨
    ∀ device ∈ devices, device.id ≠ cursor.1) : wrapAround cursor devices found = [] := by
  rw [wrapAround]
  split
  next hall =>
    have hfind : devices.find? (·.id = cursor.1) = none := by
      obtain h | h := h
      · rw [hall.2.2] at h
        cases h
      · exact List.find?_eq_none.mpr fun device hdevice => by simpa using h device hdevice
    rw [hfind]
  next => rfl

/-- A file of the device of the cursor is behind the cursor. -/
theorem position_lt (hnamed : Named devices) {device : DeviceDirectory} (hdevice : device ∈ devices)
    (hid : device.id = cursor.1) (hsome : namesAfter device.entries cursor.2 ≠ []) :
    position (devicePairs devices) (toLex cursor) < (devicePairs devices).length := by
  obtain ⟨name, names, hnames⟩ := List.exists_cons_of_ne_nil hsome
  have hname : name ∈ namesAfter device.entries cursor.2 := hnames ▸ List.mem_cons_self
  rw [mem_namesAfter] at hname
  have hmem : (toLex (device.id, name) : CodeText ×ₗ CodeText) ∈
      (devicePairs devices).filter (toLex cursor < ·) := by
    refine List.mem_filter.mpr ⟨?_, decide_eq_true
      (Prod.Lex.toLex_lt_toLex.mpr (.inr ⟨hid.symm, hname.2⟩))⟩
    rw [devicePairs_eq hnamed, mem_rowsOf]
    refine ⟨device, mem_orderedDevices.mpr hdevice, rfl, hname.1, ?_⟩
    have hne : name ≠ [] := fun h => hnamed.name_ne device hdevice (h ▸ hname.1)
    obtain ⟨c, cs, rfl⟩ := List.exists_cons_of_ne_nil hne
    exact List.nil_lt_cons c cs
  rw [(filter_le_eq_take (devicePairs_strict hnamed) (toLex cursor)).2] at hmem
  by_contra hge
  rw [List.drop_eq_nil_of_le (Nat.not_lt.mp hge)] at hmem
  cases hmem

/-- The cycle from a cursor on: what the rotation comes to, and the first files of its device. -/
theorem cyclicFrom_eq (hnamed : Named devices) (cursor : CodeText × CodeText) :
    cyclicFrom (devicePairs devices) (position (devicePairs devices) (toLex cursor)) =
      rowsOf (afterName cursor) (rotation cursor devices) ++ ownRows devices cursor := by
  obtain ⟨htake, hdrop⟩ := filter_le_eq_take (devicePairs_strict hnamed) (toLex cursor)
  rw [cyclicFrom, ← hdrop, ← htake, filter_le_eq hnamed, rowsOf_rotation hnamed,
    List.append_assoc]

/-- The position of a cursor among the files. -/
def cursorPosition (devices : List DeviceDirectory) (cursorText : CodeText) : Nat :=
  position (devicePairs devices) (toLex (partitionCursor cursorText))

theorem cursorPosition_le (devices : List DeviceDirectory) (cursorText : CodeText) :
    cursorPosition devices cursorText ≤ (devicePairs devices).length := position_le_length _

/-- A round takes the files behind its cursor in cyclic order, so many as a round of a sweep may. -/
theorem selectFiles_eq (hnamed : Named devices)
    (hfree : ∀ device ∈ devices, PrefixFree device.entries) (hmaximum : 0 < maximum)
    (cursorText : CodeText) :
    ∃ len, RoundLength (devicePairs devices).length maximum (cursorPosition devices cursorText) len ∧
      selectFiles maximum devices cursorText =
        ((cyclicFrom (devicePairs devices) (cursorPosition devices cursorText)).take len).map
          ofLex := by
  rw [selectFiles, cursorPosition]
  generalize hcursor : partitionCursor cursorText = cursor
  obtain ⟨htake, hdrop⟩ := filter_le_eq_take (devicePairs_strict hnamed) (toLex cursor)
  have hlow := congrArg List.length (filter_le_eq hnamed cursor)
  have hrows := rowsOf_rotation hnamed cursor
  have hcyclic := cyclicFrom_eq hnamed cursor
  have hsize := length_cyclicFrom (devicePairs devices)
    (position (devicePairs devices) (toLex cursor))
  have hposition := position_le_length (l := devicePairs devices) (toLex cursor)
  have hlen := congrArg List.length hrows
  rw [hdrop, List.length_append, List.length_drop] at hlen
  rw [htake, List.length_append, List.length_take, Nat.min_eq_left hposition] at hlow
  have hrotation : ∀ device ∈ rotation cursor devices, device ∈ devices := by
    intro device h
    rw [rotation_eq hnamed] at h
    obtain h | h := List.mem_append.mp h
    · exact mem_orderedDevices.mp (List.mem_filter.mp h).1
    · exact mem_orderedDevices.mp (List.mem_filter.mp h).1
  obtain ⟨hdiscovered, hremaining⟩ := @scanDevices_eq (rotation cursor devices) cursor
    (fun device h => hnamed.names device (hrotation device h))
    (fun device h => hfree device (hrotation device h)) maximum
  rw [hcyclic] at hsize ⊢
  rw [List.length_append] at hsize
  rw [hdiscovered]
  by_cases hown : ∃ device ∈ devices, device.id = cursor.1
  · obtain ⟨device, hdevice, hid⟩ := hown
    obtain ⟨others, hothers, hne⟩ := rotation_cons hnamed hdevice hid
    have hhas := cursorHasEntries_cons hid hne (hnamed.names device hdevice)
      (hfree device hdevice) hmaximum
    rw [← hothers] at hhas
    by_cases hnone : namesAfter device.entries cursor.2 = []
    · -- the device has none behind the cursor: its first files come too
      rw [hnone] at hhas
      refine ⟨min maximum (devicePairs devices).length, .inl rfl, ?_⟩
      rw [wrapAround_eq hnamed hdevice (hfree device hdevice) hid hnone hhas, hremaining,
        ← List.map_append, ← List.map_take, ← hsize, ← List.length_append, ← List.take_append,
        List.take_take, Nat.min_self, ← List.take_eq_take_min]
    · -- the device has some: the round ends before its first files
      have hsome : (scanDevices cursor (rotation cursor devices) maximum).cursorHasEntries = true := by
        rw [hhas]
        simpa using hnone
      have hbehind := position_lt hnamed hdevice hid hnone
      have hlate : (devicePairs devices).length - (position (devicePairs devices) (toLex cursor) -
          ((devicePairs devices).filter fun pair => (ofLex pair).1 < cursor.1).length) =
          (rowsOf (afterName cursor) (rotation cursor devices)).length := by omega
      refine ⟨_, .inr ⟨_, (by omega : ((devicePairs devices).filter fun pair =>
        (ofLex pair).1 < cursor.1).length ≤ _), hbehind, rfl⟩, ?_⟩
      rw [wrapAround_eq_nil (.inl hsome), List.append_nil, hlate, ← List.map_take, List.take_take,
        Nat.min_self, List.take_append_of_le_length (Nat.min_le_right _ _),
        ← List.take_eq_take_min]
  · -- no device has the id of the cursor: the rotation is the whole cycle
    push Not at hown
    rw [ownRows_eq_nil hnamed hown, List.length_nil, Nat.add_zero] at hsize
    refine ⟨min maximum (devicePairs devices).length, .inl rfl, ?_⟩
    rw [wrapAround_eq_nil (.inr hown), List.append_nil, ownRows_eq_nil hnamed hown,
      List.append_nil, ← List.map_take, List.take_take, Nat.min_self, ← hsize,
      ← List.take_eq_take_min]

end CameraLogs.Coredumps

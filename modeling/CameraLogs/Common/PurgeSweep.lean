import CameraLogs.Administration.EventPages
import CameraLogs.Common.PurgeArchive

/-!
# A sweep of the purge

The rounds between two resets of a bookmark are a sweep. The rows behind a bookmark are those
behind it in the order of the database, unless the bookmark is a text and rows of its time have
object ids: these come later in the order, but the condition of the bookmark compares within one
type (`filter_behind`). So a sweep examines the expired records in order, each once, until a
batch ends with such a row (`Tears`); what is left of its time is then behind the bookmark for
good.
-/

namespace CameraLogs.Common

open Lib Administration

variable {β : Type} {codec : Codec β} {collection : Growth} {cutoff bound : Int}
  {records : List Record} {rows l : List Candidate} {row x y : Candidate} {p : Nat}

/-! ## The order of the rows -/

theorem Candidate.key_injective (h : x.key = y.key) : x = y := by
  have hcreated : x.createdAt = y.createdAt := congrArg (fun key => (ofLex key).1) h
  have hid : x.id = y.id := Identifier.key_injective (congrArg (fun key => (ofLex key).2) h)
  cases x
  cases y
  cases hcreated
  cases hid
  rfl

theorem Candidate.key_lt_iff : x.key < y.key ↔
    x.createdAt < y.createdAt ∨ x.createdAt = y.createdAt ∧ x.id.key < y.id.key :=
  Prod.Lex.toLex_lt_toLex

def sortRows (rows : List Candidate) : List Candidate := rows.insertionSort fun a b => a.key ≤ b.key

theorem sortRows_sorted (rows : List Candidate) :
    (sortRows rows).Pairwise fun a b => a.key ≤ b.key := by
  have : Std.Total fun a b : Candidate => a.key ≤ b.key := ⟨fun a b => le_total a.key b.key⟩
  have : IsTrans Candidate fun a b => a.key ≤ b.key := ⟨fun _ _ _ hab hbc => hab.trans hbc⟩
  exact List.pairwise_insertionSort _ rows

theorem filter_sortRows (keep : Candidate → Bool) (rows : List Candidate) :
    (sortRows rows).filter keep = sortRows (rows.filter keep) := by
  have hperm : ((sortRows rows).filter keep).Perm (sortRows (rows.filter keep)) :=
    ((List.perm_insertionSort _ rows).filter keep).trans (List.perm_insertionSort _ _).symm
  refine hperm.eq_of_pairwise (fun a b _ _ hab hba => ?_) ((sortRows_sorted rows).filter keep)
    (sortRows_sorted _)
  exact Candidate.key_injective (le_antisymm hab hba)

theorem expiredRows_eq : expiredRows records cutoff =
    (sortRows (records.map Record.candidate)).filter (·.createdAt < cutoff) :=
  (filter_sortRows _ _).symm

/-- The rows of an earlier cutoff are among those of a later one. -/
theorem expiredRows_of_le (h : cutoff ≤ bound) : expiredRows records cutoff =
    (expiredRows records bound).filter (·.createdAt < cutoff) := by
  rw [expiredRows_eq, expiredRows_eq, List.filter_filter]
  refine List.filter_congr fun row _ => ?_
  by_cases hrow : row.createdAt < cutoff
  · simp [hrow, hrow.trans_le h]
  · simp [hrow]

theorem expiredRows_delete (id : Identifier) :
    expiredRows (records.filter (·.id ≠ id)) cutoff =
      (expiredRows records cutoff).filter (·.id ≠ id) := by
  have hmap : (records.filter (·.id ≠ id)).map Record.candidate =
      (records.map Record.candidate).filter (·.id ≠ id) := by
    rw [List.filter_map]
    rfl
  rw [expiredRows_eq, expiredRows_eq, hmap, ← filter_sortRows, List.filter_filter, List.filter_filter]
  exact List.filter_congr fun row _ => Bool.and_comm _ _

theorem mem_expiredRows : row ∈ expiredRows records cutoff ↔
    (∃ record ∈ records, record.candidate = row) ∧ row.createdAt < cutoff := by
  rw [expiredRows_eq, List.mem_filter, sortRows, List.mem_insertionSort, List.mem_map]
  simp

/-- The rows of a collection, in strict order. -/
theorem expiredRows_strict (hids : (records.map Record.id).Nodup) :
    (expiredRows records cutoff).Pairwise fun a b => a.key < b.key := by
  have hrows : (records.map Record.candidate).Nodup := by
    refine List.Nodup.of_map Candidate.id ?_
    rwa [List.map_map]
  have hnodup : (expiredRows records cutoff).Nodup := by
    rw [expiredRows_eq]
    exact ((List.perm_insertionSort _ _).nodup_iff.mpr hrows).filter _
  have hsorted : (expiredRows records cutoff).Pairwise fun a b => a.key ≤ b.key := by
    rw [expiredRows_eq]
    exact (sortRows_sorted _).filter _
  exact (hsorted.and hnodup).imp fun hboth =>
    lt_of_le_of_ne hboth.1 fun heq => hboth.2 (Candidate.key_injective heq)

theorem expiredRows_ids (hids : (records.map Record.id).Nodup) :
    ((expiredRows records cutoff).map Candidate.id).Nodup := by
  have hperm := (List.perm_insertionSort (fun a b : Candidate => a.key ≤ b.key)
    (records.map Record.candidate)).map Candidate.id
  have hsorted : ((sortRows (records.map Record.candidate)).map Candidate.id).Nodup := by
    refine hperm.nodup_iff.mpr ?_
    rwa [List.map_map]
  rw [expiredRows_eq]
  exact hsorted.sublist (List.filter_sublist.map _)

/-! ## Behind a bookmark -/

/-- The batch that ends there ends with a text, and rows of its time have object ids. -/
def Tears (rows : List Candidate) (p : Nat) : Prop :=
  p ≤ rows.length ∧ ∃ last ∈ (rows.take p).getLast?, (∃ text, last.id = .string text) ∧
    ∃ row ∈ rows, row.createdAt = last.createdAt ∧ ∃ id, row.id = .objectId id

theorem behindBookmark_some (b : Candidate) : behindBookmark (some b) row = true ↔
    b.createdAt < row.createdAt ∨ row.createdAt = b.createdAt ∧ idAbove b.id row.id = true := by
  simp [behindBookmark]

theorem key_lt_of_idAbove {id id' : Identifier} (h : idAbove id id' = true) : id.key < id'.key := by
  cases id with
  | string bound =>
    cases id' with
    | string text => exact Sum.Lex.inl_lt_inl_iff.mpr (of_decide_eq_true h)
    | objectId id' => cases h
  | objectId bound =>
    cases id' with
    | string text => cases h
    | objectId id' => exact Sum.Lex.inr_lt_inr_iff.mpr (of_decide_eq_true h)

/-- The order of ids is that of the condition, but from texts to object ids. -/
theorem idAbove_of_lt {id id' : Identifier} (h : id.key < id'.key) :
    idAbove id id' = true ∨ (∃ text, id = .string text) ∧ ∃ own, id' = .objectId own := by
  cases id with
  | string bound =>
    cases id' with
    | string text => exact .inl (decide_eq_true (Sum.Lex.inl_lt_inl_iff.mp h))
    | objectId id' => exact .inr ⟨⟨bound, rfl⟩, id', rfl⟩
  | objectId bound =>
    cases id' with
    | string text => exact absurd h Sum.Lex.not_inr_lt_inl
    | objectId id' => exact .inl (decide_eq_true (Sum.Lex.inr_lt_inr_iff.mp h))

/-- The rows behind the end of a batch that does not tear are the rest. -/
theorem filter_behind (hstrict : rows.Pairwise fun a b => a.key < b.key)
    (hp : p ≤ rows.length) (hclean : ¬Tears rows p) :
    rows.filter (behindBookmark (rows.take p).getLast?) = rows.drop p := by
  cases hlast : (rows.take p).getLast? with
  | none =>
    have hzero : p = 0 := by
      have hnil := List.getLast?_eq_none_iff.mp hlast
      have hlength := congrArg List.length hnil
      rw [List.length_take, List.length_nil] at hlength
      omega
    rw [hzero, List.drop_zero]
    exact List.filter_eq_self.mpr fun _ _ => rfl
  | some last =>
    have hsplit := List.take_append_drop p rows
    have hordered := hstrict
    rw [← hsplit] at hordered
    obtain ⟨hfront, -, hcross⟩ := List.pairwise_append.mp hordered
    obtain ⟨init, hinit⟩ := List.getLast?_eq_some_iff.mp hlast
    have hnone : (rows.take p).filter (behindBookmark (some last)) = [] := by
      refine List.filter_eq_nil_iff.mpr fun row hrow hbehind => ?_
      have hlt : last.key < row.key := by
        rw [Candidate.key_lt_iff]
        obtain hcreated | ⟨hcreated, hid⟩ := (behindBookmark_some last).mp hbehind
        · exact .inl hcreated
        · exact .inr ⟨hcreated.symm, key_lt_of_idAbove hid⟩
      rw [hinit] at hfront hrow
      obtain hbefore | hself := List.mem_append.mp hrow
      · exact lt_asymm hlt ((List.pairwise_append.mp hfront).2.2 row hbefore last
          (List.mem_singleton_self last))
      · rw [List.mem_singleton.mp hself] at hlt
        exact lt_irrefl _ hlt
    have hall : (rows.drop p).filter (behindBookmark (some last)) = rows.drop p := by
      refine List.filter_eq_self.mpr fun row hrow => (behindBookmark_some last).mpr ?_
      have hmem : last ∈ rows.take p := List.mem_of_getLast? hlast
      obtain hcreated | ⟨hcreated, hid⟩ := Candidate.key_lt_iff.mp (hcross last hmem row hrow)
      · exact .inl hcreated
      · refine .inr ⟨hcreated.symm, (idAbove_of_lt hid).resolve_right fun htorn => hclean ?_⟩
        exact ⟨hp, last, hlast, htorn.1, row, List.mem_of_mem_drop hrow, hcreated.symm, htorn.2⟩
    calc rows.filter (behindBookmark (some last))
        = (rows.take p ++ rows.drop p).filter (behindBookmark (some last)) := by rw [hsplit]
      _ = rows.drop p := by rw [List.filter_append, hnone, hall, List.nil_append]

/-- Of ordered rows the expired ones are the first. -/
theorem filter_expired (hsorted : l.Pairwise fun a b => a.key < b.key) :
    ∃ rest, l = l.filter (·.createdAt < cutoff) ++ rest ∧ ∀ row ∈ rest, cutoff ≤ row.createdAt := by
  induction l with
  | nil => exact ⟨[], rfl, nofun⟩
  | cons first l ih =>
    obtain ⟨hfirst, hrest⟩ := List.pairwise_cons.mp hsorted
    by_cases hexpired : first.createdAt < cutoff
    · obtain ⟨rest, hl, hlater⟩ := ih hrest
      have hpos : (first :: l).filter (·.createdAt < cutoff) =
          first :: l.filter (·.createdAt < cutoff) :=
        List.filter_cons_of_pos (by simpa using hexpired)
      exact ⟨rest, by rw [hpos, List.cons_append, ← hl], hlater⟩
    · have hlater : ∀ row ∈ first :: l, cutoff ≤ row.createdAt := by
        intro row hrow
        obtain rfl | hrow := List.mem_cons.mp hrow
        · exact not_lt.mp hexpired
        · have hle : first.createdAt ≤ row.createdAt := by
            obtain hlt | ⟨heq, -⟩ := Candidate.key_lt_iff.mp (hfirst row hrow)
            · exact hlt.le
            · exact heq.le
          exact (not_lt.mp hexpired).trans hle
      have hnone : (first :: l).filter (·.createdAt < cutoff) = [] :=
        List.filter_eq_nil_iff.mpr fun row hrow => by simpa using hlater row hrow
      exact ⟨first :: l, by rw [hnone, List.nil_append], hlater⟩

/-! ## Sweeps -/

/-- An act of a sweep: the lease has one holder, rounds come to their end, and of the expired
records none is written and none is taken away but by the purge. -/
def Orderly (collection : Growth) (bound : Int) (s t : PurgeSystem β) : PurgeAct → Prop
  | .start collection' cutoff _ owner _ =>
    owner = s.owner ∧ (collection' = collection → cutoff ≤ bound)
  | .transact unexpired _ => unexpired = true ∧ t.round.isSome
  | .abort => True
  | .finish unexpired => unexpired = true
  | .crash => False
  | .takeover _ => s.round = none
  | .write records _ => expiredRows (records collection) bound =
      expiredRows (s.store.records collection) bound

/-- A step up to the next reset of the bookmark. -/
def SweepStep (codec : Codec β) (collection : Growth) (bound : Int) (s t : PurgeSystem β) : Prop :=
  s.history.resets collection = 0 ∧
    ∃ act : PurgeAct, Orderly collection bound s t act ∧ act.apply codec s = some t

/-- The bookmark has just been reset. -/
structure SweepStart (collection : Growth) (s : PurgeSystem β) : Prop where
  ids : ((s.store.records collection).map Record.id).Nodup
  round : s.round = none
  cursor : s.cursors collection = none
  examined : s.history.examined collection = []
  batches : s.history.batches collection = []
  resets : s.history.resets collection = 0

/-- The sweep has come to a place of the rows without a tear before it. -/
structure OnCourse (rows : List Candidate) (cursor : Option Candidate)
    (expired examined : List Candidate) (batches : List Nat) (p : Nat) : Prop where
  sum : p = batches.sum
  le : p ≤ rows.length
  clean : ∀ k ≤ batches.length, ¬Tears rows (batches.take k).sum
  bookmark : cursor = (rows.take p).getLast?
  sublist : expired.Sublist rows
  kept : ∀ row ∈ rows, row ∉ examined → row ∈ expired

/-- What a round of a sweep on its course has read, and how far it is. -/
structure RoundReads (rows examined : List Candidate) (bound : Int) (p : Nat) (round : PurgeRound)
    (done : List Candidate) : Prop where
  split : round.rows = done ++ round.todo
  progress : examined = rows.take p ++ done
  read : round.rows = ((rows.drop p).filter (·.createdAt < round.cutoff)).take round.batchSize
  cutoff : round.cutoff ≤ bound
  positive : 0 < round.batchSize

/-- The round is one that moves the bookmark of the collection. -/
def Moves (collection : Growth) (round : PurgeRound) : Prop :=
  round.collection = collection ∧ round.dryRun = false

instance (collection : Growth) (round : PurgeRound) : Decidable (Moves collection round) :=
  inferInstanceAs (Decidable (_ ∧ _))

def RoundOn (collection : Growth) (rows examined : List Candidate) (bound : Int) (p : Nat)
    (round : Option PurgeRound) : Prop :=
  (∃ moving ∈ round, Moves collection moving ∧ ∃ done, RoundReads rows examined bound p moving done) ∨
    (∀ other ∈ round, ¬Moves collection other) ∧ examined = rows.take p

/-- A row the bookmark has passed that its condition will not find again. -/
def Passes (last row : Candidate) : Prop :=
  row.createdAt < last.createdAt ∨
    row.createdAt = last.createdAt ∧ ∃ text, last.id = .string text

/-- The sweep has torn, and a row is lost to it. -/
structure Missed (rows : List Candidate) (cursor : Option Candidate) (examined : List Candidate)
    (batches : List Nat) (row : Candidate) : Prop where
  torn : ∃ k ≤ batches.length, Tears rows (batches.take k).sum
  mem : row ∈ rows
  objectId : ∃ id, row.id = .objectId id
  passed : ∃ last ∈ cursor, Passes last row
  unexamined : row ∉ examined

def RoundPasses (collection : Growth) (row : Candidate) (round : Option PurgeRound) : Prop :=
  ∀ own ∈ round, own.collection = collection →
    (∀ other ∈ own.rows, Passes other row) ∧ ∀ other ∈ own.todo, other ∈ own.rows

/-- What holds in a sweep that has not come to its end. -/
def Sweeping (collection : Growth) (bound : Int) (rows : List Candidate) (s : PurgeSystem β) : Prop :=
  (∃ p, OnCourse rows (s.cursors collection) (expiredRows (s.store.records collection) bound)
      (s.history.examined collection) (s.history.batches collection) p ∧
    RoundOn collection rows (s.history.examined collection) bound p s.round) ∨
  ∃ row, Missed rows (s.cursors collection) (s.history.examined collection)
      (s.history.batches collection) row ∧ RoundPasses collection row s.round

/-- What holds at the end of a sweep, whose last round may not reach as far as the bound. -/
def Swept (collection : Growth) (bound : Int) (rows : List Candidate) (s : PurgeSystem β) : Prop :=
  (∃ cutoff p, s.history.cutoff collection = some cutoff ∧
    (cutoff = bound → ∀ k ≤ (s.history.batches collection).length,
      ¬Tears rows ((s.history.batches collection).take k).sum) ∧
    s.history.examined collection = rows.take p ++ (rows.drop p).filter (·.createdAt < cutoff)) ∨
  (∃ k ≤ (s.history.batches collection).length,
      Tears rows ((s.history.batches collection).take k).sum) ∧
    ∃ row ∈ rows, row ∉ s.history.examined collection

structure SweepInv (collection : Growth) (bound : Int) (rows : List Candidate)
    (s : PurgeSystem β) : Prop where
  owner : ∀ round ∈ s.round, round.owner = s.owner
  state : s.history.resets collection = 0 ∧ Sweeping collection bound rows s ∨
    s.history.resets collection = 1 ∧ Swept collection bound rows s

/-! ### Reading the rows -/

theorem clampBatch_pos (batchSize : Int) : 0 < clampBatch batchSize := by
  unfold clampBatch
  omega

theorem Candidate.lt_irrefl_rows (hstrict : rows.Pairwise fun a b => a.key < b.key) : rows.Nodup :=
  hstrict.imp fun hlt heq => absurd (heq ▸ hlt) (lt_irrefl _)

variable {cursor : Option Candidate} {expired examined : List Candidate} {batches : List Nat}

/-- The rows behind the bookmark are all still there. -/
theorem OnCourse.behind (h : OnCourse rows cursor expired examined batches p)
    (hstrict : rows.Pairwise fun a b => a.key < b.key) (hexamined : examined = rows.take p) :
    expired.filter (behindBookmark cursor) = rows.drop p := by
  have hclean : ¬Tears rows p := by
    have := h.clean batches.length le_rfl
    rwa [List.take_length, ← h.sum] at this
  have hrest := filter_behind hstrict h.le hclean
  rw [← h.bookmark] at hrest
  have hnodup := Candidate.lt_irrefl_rows hstrict
  have hsub : (expired.filter (behindBookmark cursor)).Sublist (rows.filter (behindBookmark cursor)) :=
    h.sublist.filter _
  rw [hrest] at hsub
  refine hsub.eq_of_length_le ?_
  refine (List.subperm_of_subset (hnodup.sublist (List.drop_sublist p rows)) fun row hrow => ?_).length_le
  have hbehind : row ∈ rows.filter (behindBookmark cursor) := hrest ▸ hrow
  refine List.mem_filter.mpr ⟨h.kept row (List.mem_of_mem_drop hrow) fun hdone => ?_,
    (List.mem_filter.mp hbehind).2⟩
  rw [hexamined] at hdone
  exact List.disjoint_take_drop hnodup le_rfl hdone hrow

theorem RoundOn.idle (h : RoundOn collection rows examined bound p none) : examined = rows.take p := by
  obtain ⟨_, hnone, _⟩ | ⟨-, hexamined⟩ := h
  · cases hnone
  · exact hexamined

variable {s t : PurgeSystem β} {owner : String} {batchSize : Int} {dryRun : Bool}
  {round : PurgeRound} {removed : Option Record} {store store' : PurgeStore β} {now : Int}
  {rest : List Candidate}

theorem startRound_rows (howner : owner = s.owner) :
    (startRound s collection cutoff batchSize owner dryRun).rows =
      findRows (s.store.records collection) cutoff (s.cursors collection) (clampBatch batchSize) := by
  simp only [startRound, if_pos howner]

theorem OnCourse.start (h : OnCourse rows (s.cursors collection)
      (expiredRows (s.store.records collection) bound) examined batches p)
    (hstrict : rows.Pairwise fun a b => a.key < b.key) (hexamined : examined = rows.take p)
    (howner : owner = s.owner) (hcutoff : cutoff ≤ bound) :
    RoundReads rows examined bound p (startRound s collection cutoff batchSize owner dryRun) [] where
  split := rfl
  progress := by rw [List.append_nil, hexamined]
  read := by
    rw [startRound_rows howner, findRows, expiredRows_of_le hcutoff, List.filter_comm,
      h.behind hstrict hexamined]
    rfl
  cutoff := hcutoff
  positive := clampBatch_pos batchSize

/-- What the condition of a bookmark finds has passed what the bookmark has. -/
theorem Passes.behind {last : Candidate} (h : Passes last x)
    (hbehind : behindBookmark (some last) y = true) : Passes y x := by
  obtain hcreated | ⟨hcreated, hid⟩ := (behindBookmark_some last).mp hbehind
  · obtain hlt | ⟨heq, -⟩ := h
    · exact .inl (hlt.trans hcreated)
    · exact .inl (heq ▸ hcreated)
  · obtain hlt | ⟨heq, text, htext⟩ := h
    · exact .inl (hcreated ▸ hlt)
    · rw [htext] at hid
      cases hy : y.id with
      | string text' => exact .inr ⟨heq.trans hcreated.symm, text', hy⟩
      | objectId id =>
        rw [hy] at hid
        cases hid

/-- A row with an object id has not passed itself. -/
theorem Passes.ne (h : Passes y x) {id : ObjectId} (hid : x.id = .objectId id) : y ≠ x := by
  intro heq
  subst heq
  obtain hlt | ⟨-, text, htext⟩ := h
  · exact lt_irrefl _ hlt
  · rw [hid] at htext
    cases htext

theorem Missed.start (h : Missed rows (s.cursors collection) examined batches row)
    (howner : owner = s.owner) : RoundPasses collection row
      (some (startRound s collection cutoff batchSize owner dryRun)) := by
  intro own hown _
  cases hown
  obtain ⟨last, hlast, hpasses⟩ := h.passed
  refine ⟨fun other hother => ?_, fun other hother => hother⟩
  rw [startRound_rows howner, findRows, hlast] at hother
  exact hpasses.behind (List.mem_filter.mp (List.mem_of_mem_take hother)).2

/-! ### Transactions -/

theorem archiveAudit_records {record : Record} {day : Int}
    (h : archiveAudit codec store record day now = .ok store') : store'.records = store.records := by
  unfold archiveAudit at h
  dsimp only at h
  split at h
  next => cases h
  next => cases h
  next =>
    split at h
    next => cases h
    next =>
      cases h
      rfl

/-- A transaction leaves the expired rows, or takes its own row from those of its collection. -/
theorem commit_expired {fenced : Bool}
    (h : commit codec store round row fenced now = .ok (store', removed)) :
    expiredRows (store'.records collection) bound = expiredRows (store.records collection) bound ∨
    Moves collection round ∧ expiredRows (store'.records collection) bound =
      (expiredRows (store.records collection) bound).filter (·.id ≠ row.id) := by
  obtain ⟨hrecords, -⟩ | ⟨record, refs, archived, hdry, -, -, hid, -, harchived, rfl⟩ := commit_cases h
  · rw [hrecords]
    exact .inl rfl
  · have hsame : archived.records = (deleteRecord { store with references := refs }
        round.collection record.id).records := by
      split at harchived
      next => exact archiveAudit_records harchived
      next =>
        cases harchived
        rfl
    have hrecords : (countDeleted archived round.collection record.day now).records =
        (deleteRecord { store with references := refs } round.collection record.id).records := hsame
    rw [hrecords]
    by_cases hcollection : collection = round.collection
    · refine .inr ⟨⟨hcollection.symm, hdry⟩, ?_⟩
      rw [← hid, ← expiredRows_delete, hcollection]
      simp only [deleteRecord, if_pos]
    · refine .inl ?_
      simp only [deleteRecord, if_neg hcollection]

/-- A row of the round that has been examined. -/
theorem OnCourse.examine (h : OnCourse rows cursor expired examined batches p)
    (hids : (rows.map Candidate.id).Nodup) (hrow : row ∈ rows) {expired' : List Candidate}
    (hexpired : expired' = expired ∨ expired' = expired.filter (·.id ≠ row.id)) :
    OnCourse rows cursor expired' (examined ++ [row]) batches p where
  sum := h.sum
  le := h.le
  clean := h.clean
  bookmark := h.bookmark
  sublist := by
    obtain rfl | rfl := hexpired
    · exact h.sublist
    · exact List.filter_sublist.trans h.sublist
  kept := by
    intro other hother hnot
    rw [List.mem_append, List.mem_singleton, not_or] at hnot
    have hkept := h.kept other hother hnot.1
    obtain rfl | rfl := hexpired
    · exact hkept
    · refine List.mem_filter.mpr ⟨hkept, decide_eq_true fun heq => hnot.2 ?_⟩
      exact List.inj_on_of_nodup_map hids hother hrow heq

theorem RoundReads.step {done : List Candidate} (h : RoundReads rows examined bound p round done)
    (htodo : round.todo = row :: rest) (gone : Bool) :
    RoundReads rows (examined ++ [row]) bound p (stepRound round rest gone) (done ++ [row]) where
  split := by
    show round.rows = done ++ [row] ++ rest
    rw [h.split, htodo, List.append_assoc, List.singleton_append]
  progress := by rw [h.progress, List.append_assoc]
  read := h.read
  cutoff := h.cutoff
  positive := h.positive

theorem RoundReads.mem {done : List Candidate} (h : RoundReads rows examined bound p round done)
    (htodo : round.todo = row :: rest) : row ∈ rows := by
  have hmem : row ∈ round.rows := by
    rw [h.split, htodo]
    exact List.mem_append_right _ List.mem_cons_self
  rw [h.read] at hmem
  exact List.mem_of_mem_drop (List.mem_filter.mp (List.mem_of_mem_take hmem)).1

/-- What the history notes of a transaction. -/
def noteRow (history : PurgeHistory) (round : PurgeRound) (row : Candidate)
    (removed : Option Record) : PurgeHistory :=
  if round.dryRun then history else noteExamined history round.collection row removed

theorem examined_noteRow (history : PurgeHistory) (round : PurgeRound) (row : Candidate)
    (removed : Option Record) : (noteRow history round row removed).examined collection =
      history.examined collection ++ if Moves collection round then [row] else [] := by
  rw [noteRow]
  split
  next hdry =>
    have hnot : ¬Moves collection round := fun hmoves => absurd (hmoves.2.symm.trans hdry) nofun
    rw [if_neg hnot, List.append_nil]
  next hdry =>
    by_cases hcollection : collection = round.collection
    · rw [if_pos ⟨hcollection.symm, Bool.eq_false_iff.mpr hdry⟩, hcollection]
      exact setAt_self _ _ _
    · rw [if_neg fun hmoves : Moves collection round => hcollection hmoves.1.symm, List.append_nil]
      exact setAt_other _ _ hcollection

theorem batches_noteRow (history : PurgeHistory) (round : PurgeRound) (row : Candidate)
    (removed : Option Record) : (noteRow history round row removed).batches = history.batches ∧
      (noteRow history round row removed).resets = history.resets := by
  rw [noteRow]
  split
  next => exact ⟨rfl, rfl⟩
  next => exact ⟨rfl, rfl⟩

theorem Sweeping.transact {fenced : Bool} (hids : (rows.map Candidate.id).Nodup)
    (h : Sweeping collection bound rows s) (hround : s.round = some round)
    (htodo : round.todo = row :: rest)
    (hcommit : commit codec s.store round row fenced now = .ok (store', removed)) :
    Sweeping collection bound rows ⟨store', s.owner, s.cursors,
      some (stepRound round rest removed.isSome), noteRow s.history round row removed⟩ := by
  have hexpired := @commit_expired _ _ collection bound _ _ _ _ _ _ _ hcommit
  rw [Sweeping, examined_noteRow, (batches_noteRow s.history round row removed).1]
  obtain ⟨p, hcourse, hon⟩ | ⟨lost, hmissed, hpasses⟩ := h
  · refine .inl ⟨p, ?_⟩
    rw [hround] at hon
    by_cases hmoves : Moves collection round
    · rw [if_pos hmoves]
      obtain ⟨moving, hmoving, -, done, hreads⟩ | ⟨hnone, -⟩ := hon
      · cases hmoving
        refine ⟨hcourse.examine hids (hreads.mem htodo) (hexpired.imp_right And.right), .inl ?_⟩
        exact ⟨_, rfl, hmoves, done ++ [row], hreads.step htodo _⟩
      · exact absurd hmoves (hnone round rfl)
    · -- rows of another collection, or of a dry run
      rw [if_neg hmoves, List.append_nil,
        hexpired.resolve_right fun hmoved => hmoves hmoved.1]
      refine ⟨hcourse, .inr ⟨fun other hother => ?_, ?_⟩⟩
      · cases hother
        exact hmoves
      · obtain ⟨moving, hmoving, hmoved, -⟩ | ⟨-, hexamined⟩ := hon
        · cases hmoving
          exact absurd hmoved hmoves
        · exact hexamined
  · refine .inr ⟨lost, ⟨hmissed.torn, hmissed.mem, hmissed.objectId, hmissed.passed, ?_⟩, ?_⟩
    · intro hmem
      obtain hbefore | hnow := List.mem_append.mp hmem
      · exact hmissed.unexamined hbefore
      · split at hnow
        next hmoves =>
          obtain ⟨hrows, htodoRows⟩ := hpasses round hround hmoves.1
          obtain ⟨id, hid⟩ := hmissed.objectId
          have hrow := htodoRows row (by rw [htodo]; exact List.mem_cons_self)
          exact (hrows row hrow).ne hid (List.mem_singleton.mp hnow).symm
        next => cases hnow
    · intro own hown hcollection
      cases hown
      obtain ⟨hrows, htodoRows⟩ := hpasses round hround hcollection
      refine ⟨hrows, fun other hother => htodoRows other ?_⟩
      rw [htodo]
      exact List.mem_cons_of_mem _ hother

/-! ### The end of a round -/

theorem Tears.append (h : ∃ k ≤ batches.length, Tears rows (batches.take k).sum) (size : Nat) :
    ∃ k ≤ (batches ++ [size]).length, Tears rows ((batches ++ [size]).take k).sum := by
  obtain ⟨k, hk, htorn⟩ := h
  refine ⟨k, ?_, ?_⟩
  · rw [List.length_append]
    omega
  · rwa [List.take_append_of_le_length hk]

/-- Cuts of one more batch: those before, and the one behind it. -/
theorem clean_append {size : Nat} (h : ∀ k ≤ batches.length, ¬Tears rows (batches.take k).sum)
    (hlast : ¬Tears rows (batches.sum + size)) :
    ∀ k ≤ (batches ++ [size]).length, ¬Tears rows ((batches ++ [size]).take k).sum := by
  intro k hk
  obtain hold | hnew := Nat.lt_or_ge batches.length k
  · have hall : (batches ++ [size]).take k = batches ++ [size] := by
      refine List.take_of_length_le ?_
      rw [List.length_append, List.length_singleton]
      omega
    rwa [hall, List.sum_append, List.sum_singleton]
  · rw [List.take_append_of_le_length hnew]
    exact h k hnew

/-- A full batch are the next rows. -/
theorem RoundReads.full {done : List Candidate} (h : RoundReads rows examined bound p round done)
    (hstrict : rows.Pairwise fun a b => a.key < b.key) (hfull : round.rows.length = round.batchSize) :
    round.rows = (rows.drop p).take round.batchSize ∧ p + round.batchSize ≤ rows.length := by
  obtain ⟨later, hsplit, -⟩ := @filter_expired round.cutoff _
    (hstrict.sublist (List.drop_sublist p rows))
  have hlength : round.batchSize ≤ ((rows.drop p).filter (·.createdAt < round.cutoff)).length := by
    rw [← hfull, h.read]
    exact List.length_take_le' _ _
  have hrows : round.rows = (rows.drop p).take round.batchSize := by
    rw [h.read]
    conv_rhs => rw [hsplit]
    exact (List.take_append_of_le_length hlength).symm
  refine ⟨hrows, ?_⟩
  have hall := congrArg List.length hrows
  rw [hfull, List.length_take, List.length_drop] at hall
  have := h.positive
  omega

/-- A batch that is not full are all the expired rows that are left. -/
theorem RoundReads.short {done : List Candidate} (h : RoundReads rows examined bound p round done)
    (hshort : round.rows.length ≠ round.batchSize) :
    round.rows = (rows.drop p).filter (·.createdAt < round.cutoff) ∧
      ((rows.drop p).filter (·.createdAt < round.cutoff)).length < round.batchSize := by
  have hlt : ((rows.drop p).filter (·.createdAt < round.cutoff)).length < round.batchSize := by
    by_contra hle
    refine hshort ?_
    rw [h.read, List.length_take]
    exact Nat.min_eq_left (not_lt.mp hle)
  exact ⟨h.read.trans (List.take_of_length_le hlt.le), hlt⟩

/-- Of a batch that tears a row is lost. -/
theorem exists_lost (hstrict : rows.Pairwise fun a b => a.key < b.key) (h : Tears rows p) :
    ∃ last ∈ (rows.take p).getLast?, ∃ row ∈ rows, (∃ id, row.id = .objectId id) ∧
      Passes last row ∧ row ∉ rows.take p := by
  obtain ⟨-, last, hlast, ⟨text, htext⟩, row, hrow, hcreated, id, hid⟩ := h
  refine ⟨last, hlast, row, hrow, ⟨id, hid⟩, .inr ⟨hcreated, text, htext⟩, fun hmem => ?_⟩
  have hlt : last.key < row.key := by
    refine Candidate.key_lt_iff.mpr (.inr ⟨hcreated.symm, ?_⟩)
    rw [htext, hid]
    exact Sum.Lex.inl_lt_inr _ _
  obtain ⟨init, hinit⟩ := List.getLast?_eq_some_iff.mp hlast
  have hordered := hstrict.sublist (List.take_sublist p rows)
  rw [hinit] at hordered hmem
  obtain hbefore | hself := List.mem_append.mp hmem
  · exact lt_asymm hlt ((List.pairwise_append.mp hordered).2.2 row hbefore last
      (List.mem_singleton_self last))
  · rw [List.mem_singleton.mp hself] at hlt
    exact lt_irrefl _ hlt

theorem mem_of_nextBookmark {last : Candidate} (h : nextBookmark round = some last) :
    last ∈ round.rows := by
  unfold nextBookmark at h
  split at h
  next => exact List.mem_of_getLast? h
  next => cases h

/-- A full batch takes a sweep on its course to the next place, or tears. -/
theorem OnCourse.full {done : List Candidate}
    (h : OnCourse rows cursor expired examined batches p)
    (hreads : RoundReads rows examined bound p round done) (htodo : round.todo = [])
    (hstrict : rows.Pairwise fun a b => a.key < b.key)
    (hfull : round.rows.length = round.batchSize) :
    (nextBookmark round).isSome ∧
      ((∃ p', OnCourse rows (nextBookmark round) expired examined (batches ++ [round.batchSize]) p' ∧
        examined = rows.take p') ∨
      ∃ row, Missed rows (nextBookmark round) examined (batches ++ [round.batchSize]) row) := by
  obtain ⟨hread, hle⟩ := hreads.full hstrict hfull
  have hdone : round.rows = done := by rw [hreads.split, htodo, List.append_nil]
  have htake : rows.take (p + round.batchSize) = rows.take p ++ round.rows := by
    rw [List.take_add, hread]
  have hexamined : examined = rows.take (p + round.batchSize) := by
    rw [htake, hreads.progress, hdone]
  obtain ⟨last, hlast⟩ : ∃ last, round.rows.getLast? = some last := by
    refine Option.ne_none_iff_exists'.mp fun hnone => ?_
    rw [List.getLast?_eq_none_iff.mp hnone] at hfull
    exact hreads.positive.ne hfull
  have hnext : nextBookmark round = some last := by rw [nextBookmark, if_pos hfull, hlast]
  have hbookmark : (rows.take (p + round.batchSize)).getLast? = some last := by
    rw [htake, List.getLast?_append, hlast, Option.some_or]
  rw [hnext]
  refine ⟨rfl, ?_⟩
  by_cases htorn : Tears rows (p + round.batchSize)
  · obtain ⟨last', hlast', row, hrow, hid, hpasses, hnot⟩ := exists_lost hstrict htorn
    rw [hbookmark] at hlast'
    cases hlast'
    refine .inr ⟨row, ⟨batches.length + 1, ?_, ?_⟩, hrow, hid, ⟨last, rfl, hpasses⟩, ?_⟩
    · rw [List.length_append, List.length_singleton]
    · rwa [List.take_of_length_le (by rw [List.length_append, List.length_singleton]),
        List.sum_append, List.sum_singleton, ← h.sum]
    · rwa [hexamined]
  · refine .inl ⟨p + round.batchSize, ⟨?_, hle, ?_, hbookmark.symm, h.sublist, h.kept⟩, hexamined⟩
    · rw [List.sum_append, List.sum_singleton, h.sum]
    · exact clean_append h.clean (h.sum ▸ htorn)

/-- What a round that moves the bookmark leaves of a sweep. -/
theorem Sweeping.finish (hstrict : rows.Pairwise fun a b => a.key < b.key)
    (hbound : ∀ row ∈ rows, row.createdAt < bound)
    (h : Sweeping collection bound rows s) (hround : s.round = some round)
    (htodo : round.todo = []) (hmoves : Moves collection round) {final : PurgeSystem β}
    (hstore : final.store = s.store) (hnone : final.round = none)
    (hcursors : final.cursors collection = nextBookmark round)
    (hexamined : final.history.examined collection = s.history.examined collection)
    (hbatches : final.history.batches collection = s.history.batches collection ++ [round.batchSize])
    (hcutoff : final.history.cutoff collection = some round.cutoff) :
    (nextBookmark round).isSome ∧ Sweeping collection bound rows final ∨
      nextBookmark round = none ∧ Swept collection bound rows final := by
  rw [Sweeping, Swept, hstore, hnone, hcursors, hexamined, hbatches, hcutoff]
  obtain ⟨p, hcourse, hon⟩ | ⟨lost, hmissed, hpasses⟩ := h
  · obtain ⟨moving, hmoving, -, done, hreads⟩ | ⟨hother, -⟩ := hon
    · rw [hround] at hmoving
      cases hmoving
      by_cases hfull : round.rows.length = round.batchSize
      · obtain ⟨hsome, hstate⟩ := hcourse.full hreads htodo hstrict hfull
        refine .inl ⟨hsome, ?_⟩
        obtain ⟨p', hnext, htaken⟩ | ⟨row, hlost⟩ := hstate
        · exact .inl ⟨p', hnext, .inr ⟨nofun, htaken⟩⟩
        · exact .inr ⟨row, hlost, nofun⟩
      · obtain ⟨hread, hlt⟩ := hreads.short hfull
        refine .inr ⟨by rw [nextBookmark, if_neg hfull], .inl ⟨round.cutoff, p, rfl, ?_, ?_⟩⟩
        · intro hreached
          refine clean_append hcourse.clean fun htorn => ?_
          have hall : (rows.drop p).filter (·.createdAt < round.cutoff) = rows.drop p := by
            refine List.filter_eq_self.mpr fun row hrow => decide_eq_true ?_
            rw [hreached]
            exact hbound row (List.mem_of_mem_drop hrow)
          rw [hall, List.length_drop] at hlt
          have := htorn.1
          rw [← hcourse.sum] at this
          omega
        · rw [hreads.progress, ← hread, hreads.split, htodo, List.append_nil]
    · exact absurd hmoves (hother round hround)
  · cases hnext : nextBookmark round with
    | none =>
      exact .inr ⟨rfl, .inr ⟨Tears.append hmissed.torn _, lost, hmissed.mem, hmissed.unexamined⟩⟩
    | some last =>
      have hpassed := (hpasses round hround hmoves.1).1 last (mem_of_nextBookmark hnext)
      exact .inl ⟨rfl, .inr ⟨lost, ⟨Tears.append hmissed.torn _, hmissed.mem, hmissed.objectId,
        ⟨last, rfl, hpassed⟩, hmissed.unexamined⟩, nofun⟩⟩

/-! ### Runs -/

/-- Without a round that moves the bookmark, a sweep stays where it is. -/
theorem Sweeping.still (h : Sweeping collection bound rows s)
    (hround : ∀ own ∈ s.round, ¬Moves collection own) {t : PurgeSystem β} (hnone : t.round = none)
    (hcursors : t.cursors collection = s.cursors collection)
    (hexpired : expiredRows (t.store.records collection) bound =
      expiredRows (s.store.records collection) bound)
    (hexamined : t.history.examined collection = s.history.examined collection)
    (hbatches : t.history.batches collection = s.history.batches collection) :
    Sweeping collection bound rows t := by
  rw [Sweeping, hnone, hcursors, hexpired, hexamined, hbatches]
  obtain ⟨p, hcourse, hon⟩ | ⟨lost, hmissed, -⟩ := h
  · obtain ⟨moving, hmoving, hmoves, -⟩ | ⟨-, htaken⟩ := hon
    · exact absurd hmoves (hround moving hmoving)
    · exact .inl ⟨p, hcourse, .inr ⟨nofun, htaken⟩⟩
  · exact .inr ⟨lost, hmissed, nofun⟩

theorem Sweeping.start (hstrict : rows.Pairwise fun a b => a.key < b.key)
    (h : Sweeping collection bound rows s) (hround : s.round = none) (howner : owner = s.owner)
    {collection' : Growth} (hcutoff : collection' = collection → cutoff ≤ bound) :
    Sweeping collection bound rows { s with
      round := some (startRound s collection' cutoff batchSize owner dryRun) } := by
  obtain ⟨p, hcourse, hon⟩ | ⟨lost, hmissed, -⟩ := h
  · rw [hround] at hon
    refine .inl ⟨p, hcourse, ?_⟩
    by_cases hmoves : Moves collection (startRound s collection' cutoff batchSize owner dryRun)
    · obtain ⟨rfl, -⟩ := id hmoves
      exact .inl ⟨_, rfl, hmoves, [], hcourse.start hstrict hon.idle howner (hcutoff rfl)⟩
    · refine .inr ⟨fun other hother => ?_, hon.idle⟩
      cases hother
      exact hmoves
  · refine .inr ⟨lost, hmissed, fun own hown hcollection => ?_⟩
    cases hown
    cases hcollection
    exact hmissed.start howner _ rfl rfl

theorem SweepInv.step (hids : (rows.map Candidate.id).Nodup)
    (hstrict : rows.Pairwise fun a b => a.key < b.key)
    (hbound : ∀ row ∈ rows, row.createdAt < bound) (hst : SweepStep codec collection bound s t)
    (h : SweepInv collection bound rows s) : SweepInv collection bound rows t := by
  obtain ⟨hresets, act, horderly, hact⟩ := hst
  have hsweeping : Sweeping collection bound rows s := by
    obtain ⟨-, hsweeping⟩ | ⟨hover, -⟩ := h.state
    · exact hsweeping
    · rw [hresets] at hover
      cases hover
  cases act with
  | start collection' cutoff batchSize owner dryRun =>
    obtain ⟨howner, hcutoff⟩ := horderly
    simp only [PurgeAct.apply] at hact
    split at hact
    next => cases hact
    next hround =>
      cases hact
      refine ⟨fun own hown => ?_, .inl ⟨hresets, hsweeping.start hstrict hround howner hcutoff⟩⟩
      cases hown
      exact howner
  | transact unexpired now =>
    obtain ⟨-, hrunning⟩ := horderly
    simp only [PurgeAct.apply] at hact
    split at hact
    next => cases hact
    next round hround =>
      split at hact
      next => cases hact
      next row rest htodo =>
        cases hact
        unfold transactRow at hrunning ⊢
        split
        next heq =>
          rw [heq] at hrunning
          cases hrunning
        next store removed hcommit =>
          refine ⟨fun own hown => ?_, .inl ⟨?_, hsweeping.transact hids hround htodo hcommit⟩⟩
          · cases hown
            exact h.owner round hround
          · show (noteRow s.history round row removed).resets collection = 0
            rw [(batches_noteRow s.history round row removed).2, hresets]
  | abort =>
    cases hact
    exact h
  | finish unexpired =>
    cases horderly
    simp only [PurgeAct.apply] at hact
    split at hact
    next => cases hact
    next round hround =>
      split at hact
      next htodo =>
        cases hact
        have howner := h.owner round hround
        by_cases hdry : round.dryRun
        · have hfinal : finishRound s round true = { s with round := none } := by
            rw [finishRound, if_pos hdry]
          rw [hfinal]
          refine ⟨fun own hown => (by cases hown), .inl ⟨hresets, ?_⟩⟩
          refine hsweeping.still (fun own hown hmoves => ?_) rfl rfl rfl rfl rfl
          rw [hround] at hown
          cases hown
          exact Bool.false_ne_true (hmoves.2.symm.trans hdry)
        · have hfinal : finishRound s round true = moveBookmark s round := by
            rw [finishRound, if_neg hdry, if_pos ⟨howner, rfl⟩]
          rw [hfinal]
          refine ⟨fun own hown => (by cases hown), ?_⟩
          by_cases hcollection : collection = round.collection
          · subst hcollection
            have hend : (nextBookmark round).isSome ∧
                Sweeping round.collection bound rows (moveBookmark s round) ∨
                nextBookmark round = none ∧
                  Swept round.collection bound rows (moveBookmark s round) :=
              hsweeping.finish hstrict hbound hround htodo ⟨rfl, Bool.eq_false_iff.mpr hdry⟩
                rfl rfl (setAt_self _ _ _) rfl (setAt_self _ _ _) (setAt_self _ _ _)
            have hcount : (moveBookmark s round).history.resets round.collection =
                (nextBookmark round).isNone.toNat := by
              simp [moveBookmark, noteFinished, hresets]
            obtain ⟨hsome, hgoes⟩ | ⟨hnone, hswept⟩ := hend
            · refine .inl ⟨?_, hgoes⟩
              rw [hcount, Option.isNone_eq_false_iff.mpr hsome]
              rfl
            · refine .inr ⟨?_, hswept⟩
              rw [hcount, hnone]
              rfl
          · -- a round of another collection
            refine .inl ⟨?_, hsweeping.still (fun own hown hmoves => ?_) rfl
              (setAt_other _ _ hcollection) rfl rfl (setAt_other _ _ hcollection)⟩
            · exact (setAt_other _ _ hcollection).trans hresets
            · rw [hround] at hown
              cases hown
              exact hcollection hmoves.1.symm
      next => cases hact
  | crash => cases horderly
  | takeover owner =>
    cases hact
    refine ⟨fun own hown => ?_, .inl ⟨hresets, hsweeping⟩⟩
    rw [show s.round = none from horderly] at hown
    cases hown
  | write records references =>
    cases hact
    refine ⟨h.owner, .inl ⟨hresets, ?_⟩⟩
    rw [Sweeping]
    rw [show expiredRows (records collection) bound = _ from horderly]
    exact hsweeping

theorem SweepStart.inv (h : SweepStart collection s) :
    SweepInv collection bound (expiredRows (s.store.records collection) bound) s where
  owner := by
    rw [h.round]
    nofun
  state := by
    refine .inl ⟨h.resets, .inl ⟨0, ⟨?_, Nat.zero_le _, ?_, ?_, List.Sublist.refl _, ?_⟩, ?_⟩⟩
    · rw [h.batches]
      rfl
    · rw [h.batches]
      intro k _ htorn
      obtain ⟨-, last, hlast, -⟩ := htorn
      rw [List.take_nil] at hlast
      cases hlast
    · rw [h.cursor]
      rfl
    · exact fun row hrow _ => hrow
    · rw [h.round, h.examined]
      exact .inr ⟨nofun, rfl⟩

/-- A sweep whose last round has the cutoff `bound` examines every record older than it exactly
once, if and only if no batch before ends with a text while rows of its time have object ids. -/
theorem sweep_exact {s₀ : PurgeSystem β} (hstart : SweepStart collection s₀)
    (hrun : Relation.ReflTransGen (SweepStep codec collection bound) s₀ s)
    (hover : s.history.resets collection = 1) (hcutoff : s.history.cutoff collection = some bound) :
    (∀ record ∈ s₀.store.records collection, record.createdAt < bound →
      (s.history.examined collection).count record.candidate = 1) ↔
    ∀ k ≤ (s.history.batches collection).length,
      ¬Tears (expiredRows (s₀.store.records collection) bound)
        ((s.history.batches collection).take k).sum := by
  have hstrict := @expiredRows_strict bound _ hstart.ids
  have hnodup := Candidate.lt_irrefl_rows hstrict
  have hbound : ∀ row ∈ expiredRows (s₀.store.records collection) bound, row.createdAt < bound :=
    fun row hrow => (mem_expiredRows.mp hrow).2
  have hids := @expiredRows_ids bound _ hstart.ids
  have hinv : SweepInv collection bound (expiredRows (s₀.store.records collection) bound) s :=
    sticky (fun _ _ hst hs => hs.step hids hstrict hbound hst) hrun hstart.inv
  obtain ⟨hzero, -⟩ | ⟨-, hswept⟩ := hinv.state
  · rw [hover] at hzero
    cases hzero
  obtain ⟨cutoff, p, hlast, hclean, hexamined⟩ | ⟨htorn, row, hrow, hnot⟩ := hswept
  · rw [hcutoff] at hlast
    cases hlast
    refine iff_of_true (fun record hrecord hexpired => ?_) (hclean rfl)
    have hall : ((expiredRows (s₀.store.records collection) bound).drop p).filter
        (·.createdAt < bound) = (expiredRows (s₀.store.records collection) bound).drop p :=
      List.filter_eq_self.mpr fun row hrow =>
        decide_eq_true (hbound row (List.mem_of_mem_drop hrow))
    rw [hexamined, hall, List.take_append_drop]
    exact List.count_eq_one_of_mem hnodup
      (mem_expiredRows.mpr ⟨⟨record, hrecord, rfl⟩, hexpired⟩)
  · refine iff_of_false (fun hall => ?_) fun hclean => ?_
    · obtain ⟨⟨record, hrecord, rfl⟩, hexpired⟩ := mem_expiredRows.mp hrow
      have hone := hall record hrecord hexpired
      rw [List.count_eq_zero.mpr hnot] at hone
      cases hone
    · obtain ⟨k, hk, htear⟩ := htorn
      exact hclean k hk htear

theorem oneLogin_sweepStart : SweepStart .audit oneLoginSystem := ⟨by decide, rfl, rfl, rfl, rfl, rfl⟩

theorem oneLogin_swept :
    Relation.ReflTransGen (SweepStep plainCodec .audit 10) oneLoginSystem oneLoginRemoved := by
  have hstarted : Relation.ReflTransGen (SweepStep plainCodec .audit 10) oneLoginSystem _ :=
    .single ⟨rfl, .start .audit 10 100 "owner" false, ⟨rfl, fun _ => le_rfl⟩, rfl⟩
  have hremoved := hstarted.tail ⟨rfl, .transact true 20, ⟨rfl, rfl⟩, rfl⟩
  exact hremoved.tail ⟨rfl, .finish true, rfl, rfl⟩

theorem sweep_exact_login :
    (∀ record ∈ [oneLogin], record.createdAt < 10 →
      (oneLoginRemoved.history.examined .audit).count record.candidate = 1) ↔
    ∀ k ≤ 1, ¬Tears (expiredRows [oneLogin] 10) (([100] : List Nat).take k).sum :=
  sweep_exact oneLogin_sweepStart oneLogin_swept rfl rfl

/-- Two audit records of one time, one with an id of its own. -/
def twoLoginsSystem : PurgeSystem Body where
  store := ⟨fun
    | .audit => [oneLogin, { oneLogin with id := .string ['e'] }]
    | _ => [], noReferences, fun _ _ => none, fun _ _ => none⟩
  owner := "owner"
  cursors _ := none
  round := none
  history := ⟨fun _ => [], fun _ => [], fun _ => [], fun _ => none, fun _ => 0⟩

/-- Two rounds of one record each. -/
def twoLoginsSwept : PurgeSystem Body :=
  (runActs (PurgeAct.apply plainCodec) [.start .audit 10 1 "owner" false, .transact true 20,
    .finish true, .start .audit 10 1 "owner" false, .finish true] twoLoginsSystem).getD twoLoginsSystem

/-- Behind the text the object id of the same time is not found, and the bookmark is reset. -/
theorem purge_skips_objectId : SweepStart .audit twoLoginsSystem ∧
    Relation.ReflTransGen (SweepStep plainCodec .audit 10) twoLoginsSystem twoLoginsSwept ∧
    twoLoginsSwept.history.resets .audit = 1 ∧ twoLoginsSwept.history.cutoff .audit = some 10 ∧
    oneLogin.createdAt < 10 ∧
    (twoLoginsSwept.history.examined .audit).count oneLogin.candidate = 0 := by
  refine ⟨⟨by decide, rfl, rfl, rfl, rfl, rfl⟩, ?_, rfl, rfl, by decide, by decide +kernel⟩
  have hstarted : Relation.ReflTransGen (SweepStep plainCodec .audit 10) twoLoginsSystem _ :=
    .single ⟨rfl, .start .audit 10 1 "owner" false, ⟨rfl, fun _ => le_rfl⟩, rfl⟩
  have hremoved := hstarted.tail ⟨rfl, .transact true 20, ⟨rfl, rfl⟩, rfl⟩
  have hfinished := hremoved.tail ⟨rfl, .finish true, rfl, rfl⟩
  have hagain := hfinished.tail
    ⟨rfl, .start .audit 10 1 "owner" false, ⟨rfl, fun _ => le_rfl⟩, rfl⟩
  exact hagain.tail ⟨rfl, .finish true, rfl, rfl⟩

end CameraLogs.Common

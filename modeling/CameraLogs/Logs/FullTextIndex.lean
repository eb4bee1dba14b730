import CameraLogs.Lib.Escape
import CameraLogs.Logs.SearchPlanSound
import CameraLogs.Logs.Utf8Text

/-!
# The full-text index of an archive

`build_index` reads each member of an archive piece by piece. The text decodes with
errors left out; rows of `chunkChars` characters go into a trigram table, each with the
last two characters of the row before it in front, and the size, the first and last
bytes and whether there is a newline go into the table of members. `query_index` looks
for the first three characters of a keyword and tells for each member what was recorded
and whether one of its rows came back.

The table of terms itself is SQLite's: a phrase is looked up by a parameter.
-/

namespace CameraLogs.Logs

open Lib

/-! ## Building -/

/-- The characters of a row. -/
def chunkChars : Nat := 32 * 1024

/-- A member of an archive: what its header says, its bytes, and the pieces in which
the reader hands them over until it hands over none. -/
structure ArchiveMember where
  name : String
  isFile : Bool
  size : Nat
  content : Bytes
  reads : List Bytes
  reads_flatten : reads.flatten = content
  reads_ne_nil : ∀ raw ∈ reads, raw ≠ []

/-- What is kept of a member while it is read. -/
structure MemberScan where
  decoder : Bytes
  pending : List Char
  head : Bytes
  tail : Bytes
  hasNewline : Bool
  read : Nat
  rows : List (List Char)

def MemberScan.initial : MemberScan :=
  { decoder := [], pending := [], head := [], tail := [], hasNewline := false, read := 0, rows := [] }

/-- NUL becomes a blank. -/
def replaceNul (text : List Char) : List Char := text.map fun c => if c = '\x00' then ' ' else c

/-- Cut rows off what is pending; the last two characters of each stay. -/
def cutRows (rows : List (List Char)) (pending : List Char) : List (List Char) × List Char :=
  if chunkChars ≤ pending.length then
    cutRows (rows ++ [pending.take chunkChars]) (pending.drop (chunkChars - 2))
  else (rows, pending)
  termination_by pending.length
  decreasing_by
    rw [List.length_drop]
    unfold chunkChars at *
    omega

/-- Take in one piece. -/
def MemberScan.feed (scan : MemberScan) (raw : Bytes) : MemberScan :=
  let (text, decoder) := decodeIgnore false (scan.decoder ++ raw)
  let (rows, pending) := cutRows scan.rows (scan.pending ++ replaceNul text)
  { decoder, pending, rows
    head := if scan.head.length < 16 then scan.head ++ raw.take (16 - scan.head.length) else scan.head
    tail := (scan.tail ++ raw).rtake 16
    hasNewline := scan.hasNewline || decide (newline ∈ raw)
    read := scan.read + raw.length }

/-- Take in what is left at the end. -/
def MemberScan.finish (scan : MemberScan) : MemberScan :=
  let (text, decoder) := decodeIgnore true scan.decoder
  let pending := scan.pending ++ text
  { scan with decoder, pending, rows := if pending = [] then scan.rows else scan.rows ++ [pending] }

def scanMember (member : ArchiveMember) : MemberScan :=
  (member.reads.foldl MemberScan.feed MemberScan.initial).finish

/-- A row of the table of terms, with its row of `chunks`. -/
structure ChunkRow where
  member : String
  value : List Char

/-- A row of the table of members. -/
structure MemberRow where
  name : String
  bytes : Nat
  head : Bytes
  tail : Bytes
  hasNewline : Bool

structure IndexTables where
  members : List MemberRow
  chunks : List ChunkRow

/-- Index one member; anything but a whole log, and a second member of the same name,
ends the build. -/
def IndexTables.addMember (tables : IndexTables) (member : ArchiveMember) : Option IndexTables :=
  if !member.isFile || !member.name.endsWith ".log" then none
  else
    let scan := scanMember member
    if scan.read ≠ member.size then none
    else if tables.members.any (·.name == member.name) then none
    else
      some
        { members := tables.members ++ [{ name := member.name, bytes := scan.read, head := scan.head
                                          tail := scan.tail, hasNewline := scan.hasNewline }]
          chunks := tables.chunks ++ scan.rows.map fun value => { member := member.name, value } }

/-- An archive as a file: what identifies it, and what is in it. -/
structure ArchiveFile where
  fingerprint : String
  members : List ArchiveMember

/-- An index file. -/
structure SearchIndex where
  schemaVersion : String
  complete : String
  archiveFingerprint : String
  tables : IndexTables

def schemaVersion : String := "2"

/-- `build_index`: nothing, or the index of the whole archive. -/
def buildIndex (archive : ArchiveFile) : Option SearchIndex := do
  let tables ← archive.members.foldlM IndexTables.addMember { members := [], chunks := [] }
  return { schemaVersion, complete := "true", archiveFingerprint := archive.fingerprint, tables }

/-! ## Asking -/

/-- The phrase that is looked up: the first three characters in quotes. -/
def trigramPhrase (keyword : List Char) : List Char :=
  '"' :: escape '"' ['"'] (keyword.take 3) ++ ['"']

/-- What the index says about a member. -/
structure MemberAnswer where
  name : String
  bytes : Nat
  head : Bytes
  tail : Bytes
  hasNewline : Bool
  mayMatch : Bool

/-- `query_index` on an index file that is there: `termsMatch` is the lookup of a phrase
in a row, `healthy` the check of the file. -/
def queryIndex (termsMatch : List Char → List Char → Bool) (healthy : Bool) (index : SearchIndex)
    (fingerprint : String) (keyword : List Char) : Option (List MemberAnswer) :=
  if keyword.length < 3 ∨ '\x00' ∈ keyword then none
  else if index.schemaVersion ≠ schemaVersion ∨ index.complete ≠ "true" ∨
      index.archiveFingerprint ≠ fingerprint then none
  else if !healthy then none
  else
    let matched := (index.tables.chunks.filter fun row =>
      termsMatch (trigramPhrase keyword) row.value).map (·.member)
    some (index.tables.members.map fun row =>
      { name := row.name, bytes := row.bytes, head := row.head, tail := row.tail
        hasNewline := row.hasNewline, mayMatch := decide (row.name ∈ matched) })

/-- The answer for a member, as evidence for the plan of a search. -/
def MemberAnswer.checked (answer : MemberAnswer) : Checked :=
  { bytes := answer.bytes, head := answer.head, tail := answer.tail
    hasNewline := answer.hasNewline, mayMatch := answer.mayMatch }

/-- A trigram table gives back every row that has the three characters of a phrase
next to each other; a NUL ends what it reads of a row. -/
def TrigramLookup (termsMatch : List Char → List Char → Bool) : Prop :=
  ∀ keyword row : List Char, 3 ≤ keyword.length → '\x00' ∉ keyword → '\x00' ∉ row →
    keyword.take 3 <:+: row → termsMatch (trigramPhrase keyword) row = true

/-! ## One member -/

/-- What the scan of a member has kept of the bytes so far. -/
structure MemberScan.Kept (scan : MemberScan) (content : Bytes) : Prop where
  head : scan.head = content.take 16
  tail : scan.tail = content.rtake 16
  hasNewline : scan.hasNewline = decide (newline ∈ content)
  read : scan.read = content.length
  text : ∃ text before, Drains content text scan.decoder ∧
    Covers 2 (replaceNul text) scan.rows scan.pending before
  noNul : '\x00' ∉ scan.pending ∧ ∀ row ∈ scan.rows, '\x00' ∉ row

theorem nul_not_mem_replaceNul (text : List Char) : '\x00' ∉ replaceNul text := by
  unfold replaceNul
  intro h
  obtain ⟨c, _, hc⟩ := List.mem_map.mp h
  split at hc
  next => exact absurd hc (by decide)
  next hne => exact hne hc

/-- Cutting rows keeps the cover, and what no row or pending text has. -/
theorem cutRows_covers {text pending before : List Char} {rows : List (List Char)}
    (h : Covers 2 text rows pending before) (hpending : '\x00' ∉ pending)
    (hrows : ∀ row ∈ rows, '\x00' ∉ row) :
    (∃ before, Covers 2 text (cutRows rows pending).1 (cutRows rows pending).2 before) ∧
      '\x00' ∉ (cutRows rows pending).2 ∧ ∀ row ∈ (cutRows rows pending).1, '\x00' ∉ row := by
  fun_induction cutRows rows pending generalizing before with
  | case1 rows pending hlen ih =>
    refine ih (h.cutRow (by unfold chunkChars; omega) hlen) ?_ ?_
    · exact fun hin => hpending (List.mem_of_mem_drop hin)
    · intro row hrow
      rcases List.mem_append.mp hrow with hold | hnew
      · exact hrows row hold
      · rw [List.mem_singleton.mp hnew]
        exact fun hin => hpending (List.mem_of_mem_take hin)
  | case2 rows pending hlen => exact ⟨⟨before, h⟩, hpending, hrows⟩

theorem kept_initial : MemberScan.initial.Kept [] where
  head := rfl
  tail := rfl
  hasNewline := rfl
  read := rfl
  text := ⟨[], [], Drains.held rfl, covers_nil 2⟩
  noNul := ⟨List.not_mem_nil, fun _ hrow => absurd hrow List.not_mem_nil⟩

/-- The first bytes of what is read, from those of what was read before. -/
theorem take_head_append (content raw : Bytes) :
    (if (content.take 16).length < 16 then
      content.take 16 ++ raw.take (16 - (content.take 16).length) else content.take 16)
      = (content ++ raw).take 16 := by
  rw [List.take_append, List.length_take]
  by_cases hlen : min 16 content.length < 16
  · rw [if_pos hlen, Nat.min_eq_right (by omega)]
  · rw [if_neg hlen, Nat.sub_eq_zero_of_le (by omega), List.take_zero, List.append_nil]

theorem MemberScan.Kept.feed {scan : MemberScan} {content : Bytes} (h : scan.Kept content)
    (raw : Bytes) : (scan.feed raw).Kept (content ++ raw) := by
  obtain ⟨text, before, hdrains, hcovers⟩ := h.text
  have hmore := hdrains.append (decodeIgnore_drains (scan.decoder ++ raw))
  have hnew := hcovers.append (replaceNul (decodeIgnore false (scan.decoder ++ raw)).1)
  have hnul : '\x00' ∉ scan.pending ++ replaceNul (decodeIgnore false (scan.decoder ++ raw)).1 := by
    intro hin
    rcases List.mem_append.mp hin with hold | hin
    · exact h.noNul.1 hold
    · exact nul_not_mem_replaceNul _ hin
  obtain ⟨⟨before, hcut⟩, hcutNul⟩ := cutRows_covers hnew hnul h.noNul.2
  constructor
  · show (if scan.head.length < 16 then _ else _) = _
    rw [h.head]
    exact take_head_append content raw
  · show (scan.tail ++ raw).rtake 16 = _
    rw [h.tail]
    exact rtake_rtake_append 16 content raw
  · show (scan.hasNewline || _) = _
    rw [h.hasNewline, ← Bool.decide_or]
    exact decide_eq_decide.mpr List.mem_append.symm
  · show scan.read + raw.length = _
    rw [h.read, List.length_append]
  · refine ⟨_, before, hmore, ?_⟩
    unfold replaceNul at hcut ⊢
    rw [List.map_append]
    exact hcut
  · exact hcutNul

theorem foldl_feed_kept {scan : MemberScan} {content : Bytes} (h : scan.Kept content)
    (reads : List Bytes) : (reads.foldl MemberScan.feed scan).Kept (content ++ reads.flatten) := by
  induction reads generalizing scan content with
  | nil =>
    rw [List.flatten_nil, List.append_nil]
    exact h
  | cons raw reads ih =>
    rw [List.flatten_cons, ← List.append_assoc]
    exact ih (h.feed raw)

/-- At the end no text is left to come. -/
theorem MemberScan.Kept.finish_text {scan : MemberScan} {content : Bytes} (h : scan.Kept content) :
    (decodeIgnore true scan.decoder).1 = [] := by
  obtain ⟨_, _, hdrains, _⟩ := h.text
  exact decodeIgnore_final hdrains.held_stuck

theorem MemberScan.Kept.finish_rows {scan : MemberScan} {content : Bytes} (h : scan.Kept content) :
    scan.finish.rows = scan.rows ++ if scan.pending = [] then [] else [scan.pending] := by
  show (if scan.pending ++ (decodeIgnore true scan.decoder).1 = [] then scan.rows
    else scan.rows ++ [scan.pending ++ (decodeIgnore true scan.decoder).1]) = _
  rw [h.finish_text, List.append_nil]
  split
  next => rw [List.append_nil]
  next => rfl

/-- The scan of a whole member. -/
theorem scanMember_kept (member : ArchiveMember) :
    (member.reads.foldl MemberScan.feed MemberScan.initial).Kept member.content := by
  have h := foldl_feed_kept kept_initial member.reads
  rw [List.nil_append, member.reads_flatten] at h
  exact h

/-- Three characters without a NUL that stand in the text stand in it once each NUL is a
blank. -/
theorem infix_replaceNul {word text : List Char} (hnul : '\x00' ∉ word) (h : word <:+: text) :
    word <:+: replaceNul text := by
  obtain ⟨front, back, heq⟩ := h
  have hword : replaceNul word = word := by
    calc replaceNul word = word.map id :=
          List.map_congr_left fun c hc => if_neg (ne_of_mem_of_not_mem hc hnul)
      _ = word := List.map_id word
  refine ⟨replaceNul front, replaceNul back, ?_⟩
  rw [← heq]
  unfold replaceNul at hword ⊢
  rw [List.map_append, List.map_append, hword]

/-- The first three characters of a keyword are next to each other in a row of every
member in which their bytes are. -/
theorem exists_row {member : ArchiveMember} {keyword : List Char} (hlen : 3 ≤ keyword.length)
    (hnul : '\x00' ∉ keyword) (hin : encode (keyword.take 3) <:+: member.content) :
    ∃ row ∈ (scanMember member).rows, keyword.take 3 <:+: row := by
  have hkept := scanMember_kept member
  obtain ⟨text, before, hdrains, hcovers⟩ := hkept.text
  have htext : keyword.take 3 <:+: replaceNul text := by
    refine infix_replaceNul (fun hmem => hnul (List.mem_of_mem_take hmem)) ?_
    exact hdrains.reads_inside hin
  have hthree : (keyword.take 3).length = 3 := by
    rw [List.length_take]
    omega
  unfold scanMember
  rw [hkept.finish_rows]
  refine hcovers.finish ?_ ?_ (by omega) htext
  · intro hne
    rw [if_neg hne]
    exact List.mem_cons_self
  · intro hnil
    rw [hnil] at hthree
    cases hthree

theorem nul_not_mem_row {member : ArchiveMember} {row : List Char}
    (hrow : row ∈ (scanMember member).rows) : '\x00' ∉ row := by
  have hkept := scanMember_kept member
  unfold scanMember at hrow
  rw [hkept.finish_rows] at hrow
  rcases List.mem_append.mp hrow with hold | hlast
  · exact hkept.noNul.2 row hold
  · split at hlast
    next => exact absurd hlast List.not_mem_nil
    next =>
      rw [List.mem_singleton.mp hlast]
      exact hkept.noNul.1

/-! ## The archive -/

/-- The row of `members` that is written for a member. -/
def ArchiveMember.row (member : ArchiveMember) : MemberRow :=
  { name := member.name, bytes := (scanMember member).read, head := (scanMember member).head
    tail := (scanMember member).tail, hasNewline := (scanMember member).hasNewline }

/-- The tables hold what the scans of the members gave, and no name twice. -/
structure IndexTables.Records (tables : IndexTables) (members : List ArchiveMember) : Prop where
  rows : tables.members = members.map ArchiveMember.row
  chunks : ∀ member ∈ members, ∀ value ∈ (scanMember member).rows,
    { member := member.name, value } ∈ tables.chunks
  nodup : (members.map (·.name)).Nodup

theorem IndexTables.Records.addMember {tables next : IndexTables} {members : List ArchiveMember}
    {member : ArchiveMember} (h : tables.Records members)
    (hadd : tables.addMember member = some next) : next.Records (members ++ [member]) := by
  unfold IndexTables.addMember at hadd
  split at hadd
  next => cases hadd
  next =>
    simp only at hadd
    split at hadd
    next => cases hadd
    next =>
      split at hadd
      next => cases hadd
      next hdup =>
        cases hadd
        constructor
        · show tables.members ++ [member.row] = _
          rw [h.rows, List.map_append]
          rfl
        · intro other hother value hvalue
          rcases List.mem_append.mp hother with hold | hnew
          · exact List.mem_append_left _ (h.chunks other hold value hvalue)
          · rw [List.mem_singleton.mp hnew] at hvalue ⊢
            exact List.mem_append_right _ (List.mem_map.mpr ⟨value, hvalue, rfl⟩)
        · rw [List.map_append]
          refine List.nodup_append.mpr ⟨h.nodup, List.nodup_singleton _, ?_⟩
          intro name hname other hother heq
          rw [List.mem_singleton.mp hother] at heq
          obtain ⟨first, hfirst, hfirstName⟩ := List.mem_map.mp hname
          refine hdup (List.any_eq_true.mpr ⟨first.row, ?_, ?_⟩)
          · rw [h.rows]
            exact List.mem_map.mpr ⟨first, hfirst, rfl⟩
          · exact beq_iff_eq.mpr (hfirstName.trans heq)

theorem foldlM_records {tables last : IndexTables} {done members : List ArchiveMember}
    (h : tables.Records done) (hfold : members.foldlM IndexTables.addMember tables = some last) :
    last.Records (done ++ members) := by
  induction members generalizing tables done with
  | nil =>
    cases hfold
    rw [List.append_nil]
    exact h
  | cons member members ih =>
    rw [List.foldlM_cons] at hfold
    obtain ⟨next, hadd, hrest⟩ := Option.bind_eq_some_iff.mp hfold
    rw [← List.singleton_append, ← List.append_assoc]
    exact ih (h.addMember hadd) hrest

theorem buildIndex_records {archive : ArchiveFile} {index : SearchIndex}
    (h : buildIndex archive = some index) :
    index.tables.Records archive.members ∧ index.archiveFingerprint = archive.fingerprint := by
  unfold buildIndex at h
  obtain ⟨tables, hfold, heq⟩ := Option.bind_eq_some_iff.mp h
  cases heq
  refine ⟨?_, rfl⟩
  have hempty : IndexTables.Records { members := [], chunks := [] } [] :=
    ⟨rfl, fun _ hmem => absurd hmem List.not_mem_nil, List.nodup_nil⟩
  have hrecords := foldlM_records hempty hfold
  rw [List.nil_append] at hrecords
  exact hrecords

theorem queryIndex_some {termsMatch : List Char → List Char → Bool} {healthy : Bool}
    {index : SearchIndex} {fingerprint : String} {keyword : List Char} {answers : List MemberAnswer}
    (h : queryIndex termsMatch healthy index fingerprint keyword = some answers) :
    3 ≤ keyword.length ∧ '\x00' ∉ keyword ∧ index.archiveFingerprint = fingerprint ∧
      answers = index.tables.members.map fun row =>
        { name := row.name, bytes := row.bytes, head := row.head, tail := row.tail
          hasNewline := row.hasNewline
          mayMatch := decide (row.name ∈ (index.tables.chunks.filter fun chunk =>
            termsMatch (trigramPhrase keyword) chunk.value).map (·.member)) } := by
  unfold queryIndex at h
  split at h
  next => cases h
  next hkeyword =>
    split at h
    next => cases h
    next hmeta =>
      split at h
      next => cases h
      next =>
        cases h
        refine ⟨?_, fun hin => hkeyword (Or.inr hin), ?_, rfl⟩
        · exact Nat.not_lt.mp fun hlt => hkeyword (Or.inl hlt)
        · exact Decidable.not_not.mp fun hne => hmeta (Or.inr (Or.inr hne))

/-- A member's answer is the truth about its bytes. -/
theorem answer_faithful {termsMatch : List Char → List Char → Bool}
    (hlookup : TrigramLookup termsMatch) {tables : IndexTables} {members : List ArchiveMember}
    (h : tables.Records members) {member : ArchiveMember} (hmember : member ∈ members)
    {keyword : List Char} (hlen : 3 ≤ keyword.length) (hnul : '\x00' ∉ keyword) :
    Faithful (encode (keyword.take 3)) member.content
      { bytes := member.row.bytes, head := member.row.head, tail := member.row.tail
        hasNewline := member.row.hasNewline
        mayMatch := decide (member.row.name ∈ (tables.chunks.filter fun chunk =>
          termsMatch (trigramPhrase keyword) chunk.value).map (·.member)) } := by
  have hkept := scanMember_kept member
  constructor
  · exact hkept.read
  · exact hkept.head
  · exact hkept.tail
  · show (member.reads.foldl MemberScan.feed MemberScan.initial).hasNewline = true ↔ _
    rw [hkept.hasNewline, decide_eq_true_iff]
  · intro hin
    obtain ⟨row, hrow, htrigram⟩ := exists_row hlen hnul hin
    refine decide_eq_true (List.mem_map.mpr ⟨{ member := member.name, value := row }, ?_, rfl⟩)
    refine List.mem_filter.mpr ⟨h.chunks member hmember row hrow, ?_⟩
    exact hlookup keyword row hlen hnul (nul_not_mem_row hrow) htrigram

/-- The index of an archive never hides a member: the first three characters of a
keyword that stands in a member are in one of the rows that are inserted, and what is
answered about a member is the truth about its bytes. -/
theorem full_text_complete (termsMatch : List Char → List Char → Bool)
    (hlookup : TrigramLookup termsMatch) (archive : ArchiveFile) :
    (∀ member ∈ archive.members, ∀ keyword : List Char, 3 ≤ keyword.length → '\x00' ∉ keyword →
      encode keyword <:+: member.content →
        ∃ row ∈ (scanMember member).rows, keyword.take 3 <:+: row) ∧
    ∀ index, buildIndex archive = some index →
      ∀ healthy fingerprint keyword answers,
        queryIndex termsMatch healthy index fingerprint keyword = some answers →
          fingerprint = archive.fingerprint ∧ (archive.members.map (·.name)).Nodup ∧
          answers.map (·.name) = archive.members.map (·.name) ∧
          ∀ member ∈ archive.members, ∀ answer ∈ answers, answer.name = member.name →
            Faithful (encode (keyword.take 3)) member.content answer.checked ∧
            (encode keyword <:+: member.content → answer.mayMatch = true) := by
  have hinside : ∀ {keyword : List Char} {content : Bytes}, encode keyword <:+: content →
      encode (keyword.take 3) <:+: content :=
    fun hin => (encode_take_isPrefix _ 3).isInfix.trans hin
  refine ⟨fun member _ keyword hlen hnul hin => exists_row hlen hnul (hinside hin), ?_⟩
  intro index hbuild healthy fingerprint keyword answers hquery
  obtain ⟨hrecords, hfingerprint⟩ := buildIndex_records hbuild
  obtain ⟨hlen, hnul, hsame, hanswers⟩ := queryIndex_some hquery
  refine ⟨hsame.symm.trans hfingerprint, hrecords.nodup, ?_, ?_⟩
  · rw [hanswers, hrecords.rows, List.map_map, List.map_map]
    rfl
  · intro member hmember answer hanswer hname
    rw [hanswers, hrecords.rows, List.map_map] at hanswer
    obtain ⟨other, hother, heq⟩ := List.mem_map.mp hanswer
    have hsameName : other.name = member.name := by
      rw [← hname, ← heq]
      rfl
    have hmem : other = member := List.inj_on_of_nodup_map hrecords.nodup hother hmember hsameName
    have hfaithful := answer_faithful hlookup hrecords hmember hlen hnul
    rw [← heq, hmem]
    exact ⟨hfaithful, fun hin => hfaithful.mayMatch (hinside hin)⟩

/-- A table of terms that looks for the quoted text in the row. -/
theorem looksUp_trigram : TrigramLookup (looksUp '"') :=
  fun _ _ _ _ _ hin => looksUp_escape List.mem_cons_self hin

/-- A log of five bytes that comes in two pieces. -/
def splitMember : ArchiveMember :=
  { name := "a.log", isFile := true, size := 5, content := [120, 97, 98, 99, 10]
    reads := [[120, 97, 98], [99, 10]], reads_flatten := rfl
    reads_ne_nil := by decide }

theorem full_text_complete_split :
    ∃ row ∈ (scanMember splitMember).rows, ['a', 'b', 'c'] <:+: row :=
  (full_text_complete (looksUp '"') looksUp_trigram { fingerprint := "f", members := [splitMember] }).1
    splitMember List.mem_cons_self ['a', 'b', 'c'] (by decide) (by decide)
    ⟨[120], [10], by decide⟩

end CameraLogs.Logs

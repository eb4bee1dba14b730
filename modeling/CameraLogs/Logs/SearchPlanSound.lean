import CameraLogs.Logs.SearchPlan
import Mathlib.Data.List.Nodup
import Mathlib.Data.List.Perm.Subperm

/-!
# What the plan keeps

`CoversHits` is all that a search needs of a plan: a file with the keyword in it is
kept, and where the keyword stands on one line that runs up to a boundary between two
files, or over it, both files are kept. `planCandidateFiles` gives that from faithful
evidence (`plan_covers_hits`). The prefix of the keyword has a seed among the files it
stands in (`exists_seed`), and from the seed no file on the same line stops the walk
to the boundary, since none of them has a newline.
-/

namespace CameraLogs.Logs

open Lib

/-- The bytes of files one behind the other. -/
def contentOf (files : List LogFile) : Bytes := files.flatMap LogFile.content

theorem contentOf_append (xs ys : List LogFile) :
    contentOf (xs ++ ys) = contentOf xs ++ contentOf ys := List.flatMap_append

theorem contentOf_cons (file : LogFile) (files : List LogFile) :
    contentOf (file :: files) = file.content ++ contentOf files := rfl

/-- Enough files are kept for a keyword: those it stands in, and those on both sides of
a boundary when it stands on the line there. -/
structure CoversHits (needle : Bytes) (kept : LogFile → Prop) (files : List LogFile) : Prop where
  inside : ∀ file ∈ files, needle <:+: file.content → kept file
  edges : ∀ {before after : List LogFile} {left right : Bytes}, files = before ++ after →
    newline ∉ left → newline ∉ right → left <:+ contentOf before → right <+: contentOf after →
    needle <:+: left ++ right →
    (∀ file, before.getLast? = some file → kept file) ∧
      ∀ file, after.head? = some file → kept file

/-! ## The prefix of the keyword -/

theorem length_encode_le (text : List Char) : (encode text).length ≤ 4 * text.length := by
  induction text with
  | nil => exact Nat.le_refl 0
  | cons c text ih =>
    have hc : (String.utf8EncodeChar c).length ≤ 4 := by
      rw [String.length_utf8EncodeChar]
      exact c.utf8Size_le_four
    show (String.utf8EncodeChar c ++ encode text).length ≤ _
    rw [List.length_append, List.length_cons]
    omega

theorem length_encode_pos {text : List Char} (h : text ≠ []) : 0 < (encode text).length := by
  cases text with
  | nil => exact absurd rfl h
  | cons c text =>
    have hc : 0 < (String.utf8EncodeChar c).length := by
      rw [String.length_utf8EncodeChar]
      exact c.utf8Size_pos
    show 0 < (String.utf8EncodeChar c ++ encode text).length
    rw [List.length_append]
    omega

theorem encode_take_isPrefix (text : List Char) (k : Nat) : encode (text.take k) <+: encode text := by
  refine ⟨encode (text.drop k), ?_⟩
  unfold encode
  rw [← List.flatMap_append, List.take_append_drop]

/-- A prefix that can be planned with is that of the keyword, and fits the edges. -/
theorem keywordPrefix_some {keyword : List Char} {keyPrefix : Bytes}
    (h : keywordPrefix keyword = some keyPrefix) :
    keyPrefix = encode (keyword.take 3) ∧ 0 < keyPrefix.length ∧ keyPrefix.length ≤ edgeBytes := by
  unfold keywordPrefix at h
  split at h
  next => cases h
  next =>
    split at h
    next => cases h
    next hlen =>
      cases h
      refine ⟨rfl, length_encode_pos ?_, ?_⟩
      · intro hnil
        rw [hnil] at hlen
        exact hlen (by decide)
      · have hle := length_encode_le (keyword.take 3)
        rw [List.length_take] at hle
        unfold edgeBytes
        omega

/-! ## Seeds -/

section Seeds

variable {evidence : String → Option Evidence} {keyPrefix : Bytes}

/-- A file as the planner sees it. -/
def JobFile.entry (evidence : String → Option Evidence) (file : JobFile) : Entry :=
  (file.log.id, checkEvidence file.frozen (evidence file.log.id))

/-- The bytes of a file, each with the file it comes from. -/
def sourced (identifier : String) (bytes : Bytes) : List Sourced :=
  bytes.map fun byte => (byte, identifier)

theorem map_fst_sourced (identifier : String) (bytes : Bytes) :
    (sourced identifier bytes).map Prod.fst = bytes := by
  unfold sourced
  rw [List.map_map]
  exact List.map_id bytes

theorem length_sourced (identifier : String) (bytes : Bytes) :
    (sourced identifier bytes).length = bytes.length := List.length_map _

theorem rtake_append_rtake {α : Type} (k : Nat) (xs ys : List α) (h : k ≤ ys.length) :
    (xs ++ ys.rtake k).rtake k = (xs ++ ys).rtake k := by
  unfold List.rtake
  rw [List.length_append, List.length_append, List.length_drop, List.drop_append, List.drop_append,
    List.drop_drop, List.drop_eq_nil_of_le (show xs.length ≤ _ by omega),
    List.drop_eq_nil_of_le (show xs.length ≤ _ by omega)]
  congr 2
  omega

/-- Evidence made from the bytes of a file says the truth about them. -/
theorem faithful_ofContent {file : FrozenFile} {content : Bytes} {item : Checked}
    (h : checkEvidence file (some (Evidence.ofContent keyPrefix content)) = some item) :
    Faithful keyPrefix content item := by
  unfold checkEvidence Evidence.ofContent at h
  dsimp only [Option.bind_eq_bind, Option.bind_some] at h
  split at h
  next => cases h
  next =>
    rcases hb : file.bytes with _ | bytes
    · rw [hb] at h
      cases h
    · rw [hb, Option.bind_some] at h
      split at h
      next => cases h
      next =>
        cases h
        exact ⟨rfl, rfl, rfl, decide_eq_true_iff, fun hin => decide_eq_true hin⟩

/-- What is carried on from a file is enough for the bytes at its end. -/
theorem rtake_carried {content : Bytes} {item : Checked} (h : Faithful keyPrefix content item)
    (hlen : keyPrefix.length ≤ edgeBytes) (identifier : String) (suffix : List Sourced) :
    (suffix ++ sourced identifier (carried keyPrefix item)).rtake (keyPrefix.length - 1) =
      (suffix ++ sourced identifier content).rtake (keyPrefix.length - 1) := by
  unfold carried
  rw [h.bytes]
  split
  next hsmall =>
    rw [h.head, List.take_take, List.take_of_length_le (by omega)]
  next hlarge =>
    have htail : item.tail.rtake (keyPrefix.length - 1) =
        content.rtake (keyPrefix.length - 1) := by
      rw [h.tail]
      unfold List.rtake
      rw [List.length_drop, List.drop_drop]
      congr 1
      omega
    have hmap : sourced identifier (content.rtake (keyPrefix.length - 1)) =
        (sourced identifier content).rtake (keyPrefix.length - 1) := by
      unfold sourced List.rtake
      rw [List.map_drop, List.length_map]
    rw [htail, hmap]
    exact rtake_append_rtake _ _ _ (by rw [length_sourced]; omega)

theorem one_lt_length_dedup {α : Type} [DecidableEq α] {l : List α} {a b : α} (ha : a ∈ l)
    (hb : b ∈ l) (hne : a ≠ b) : 1 < l.dedup.length := by
  have hsub : [a, b] ⊆ l.dedup := by
    intro x hx
    rcases List.mem_cons.mp hx with h | h
    · rw [h]
      exact List.mem_dedup.mpr ha
    · rw [List.mem_singleton.mp h]
      exact List.mem_dedup.mpr hb
  have hnodup : [a, b].Nodup := by simpa using hne
  exact (List.subperm_of_subset hnodup hsub).length_le

/-- Every occurrence over a boundary is found. -/
theorem boundarySources_of_occursAt {identifier : String} {joined : List Sourced}
    {fuel start i : Nat} (hne : keyPrefix ≠ []) (hfuel : joined.length < start + fuel)
    (hi : start ≤ i) (hocc : OccursAt keyPrefix (joined.map Prod.fst) i)
    (hin : identifier ∈ ((joined.drop i).take keyPrefix.length).map Prod.snd)
    (htwo : 1 < (((joined.drop i).take keyPrefix.length).map Prod.snd).dedup.length) :
    identifier ∈ boundarySources keyPrefix identifier joined fuel start := by
  induction fuel generalizing start with
  | zero =>
    have hlen := hocc.le_length hne
    rw [List.length_map] at hlen
    omega
  | succ fuel ih =>
    obtain ⟨j, hj, hji⟩ := find_isSome_of_occursAt hne hi hocc
    unfold boundarySources
    rw [hj]
    dsimp only
    by_cases heq : j = i
    · rw [heq, if_pos ⟨hin, htwo⟩]
      exact List.mem_append_left _ hin
    · have hstart := (find_some hj).1
      exact List.mem_append_right _ (ih (by omega) (by omega))

/-- A prefix that runs over the boundary before a file makes the file a seed: the bytes
carried on and those at its head are enough to find it. -/
theorem mem_boundarySources {identifier : String} {content : Bytes} {done suffix : List Sourced}
    {i : Nat} (hpos : 0 < keyPrefix.length) (hsuffix : suffix = done.rtake (keyPrefix.length - 1))
    (hdone : ∀ c ∈ done, c.2 ≠ identifier)
    (hocc : OccursAt keyPrefix (done.map Prod.fst ++ content) i) (hlt : i < done.length)
    (hend : done.length < i + keyPrefix.length) :
    identifier ∈ boundarySources keyPrefix identifier
      (suffix ++ sourced identifier (content.take keyPrefix.length))
      ((suffix ++ sourced identifier (content.take keyPrefix.length)).length + 1) 0 := by
  have hne : keyPrefix ≠ [] := List.length_pos_iff.mp hpos
  have hbound := hocc.le_length hne
  rw [List.length_append, List.length_map] at hbound
  have hlentake : (content.take keyPrefix.length).length =
      min keyPrefix.length content.length := List.length_take
  -- the bytes from the occurrence on: the end of what was done, and the head of the file
  have hpart : (suffix ++ sourced identifier (content.take keyPrefix.length)).drop
        (i - (done.length - (keyPrefix.length - 1))) =
      done.drop i ++ sourced identifier (content.take keyPrefix.length) := by
    rw [hsuffix, rtake_append, List.drop_drop, List.drop_append_of_le_length (by omega)]
    congr 2
    omega
  have hold : ∃ c ∈ done, c ∈ (done.drop i ++
      sourced identifier (content.take keyPrefix.length)).take keyPrefix.length := by
    rcases hd : done.drop i with _ | ⟨c, cs⟩
    · have hzero := congrArg List.length hd
      rw [List.length_drop, List.length_nil] at hzero
      omega
    · refine ⟨c, List.mem_of_mem_drop (hd ▸ List.mem_cons_self), ?_⟩
      rw [List.cons_append]
      rcases hk : keyPrefix.length with _ | k
      · omega
      · exact List.mem_cons_self
  have hnew : identifier ∈ ((done.drop i ++
      sourced identifier (content.take keyPrefix.length)).take keyPrefix.length).map Prod.snd := by
    rw [List.take_append, List.map_append]
    refine List.mem_append_right _ ?_
    unfold sourced
    rw [← List.map_take, List.map_map]
    rcases hb : (content.take keyPrefix.length).take
      (keyPrefix.length - (done.drop i).length) with _ | ⟨b, bs⟩
    · have hzero := congrArg List.length hb
      rw [List.length_take, hlentake, List.length_drop, List.length_nil] at hzero
      omega
    · exact List.mem_cons_self
  obtain ⟨c, hc, hctake⟩ := hold
  refine boundarySources_of_occursAt hne (by omega) (Nat.zero_le _)
    (i := i - (done.length - (keyPrefix.length - 1))) ?_ ?_ ?_
  · have hmap : (done.rtake (keyPrefix.length - 1)).map Prod.fst =
        (done.map Prod.fst).rtake (keyPrefix.length - 1) := by
      unfold List.rtake
      rw [List.map_drop, List.length_map]
    rw [hsuffix, List.map_append, map_fst_sourced, hmap, rtake_append, occursAt_drop,
      List.length_map, Nat.add_sub_cancel' (by omega)]
    have hcut : done.map Prod.fst ++ content =
        (done.map Prod.fst ++ content.take keyPrefix.length) ++ content.drop keyPrefix.length := by
      rw [List.append_assoc, List.take_append_drop]
    rw [hcut] at hocc
    refine (occursAt_append_left ?_).mp hocc
    rw [List.length_append, List.length_map, hlentake]
    omega
  · rw [hpart]
    exact hnew
  · rw [hpart]
    exact one_lt_length_dedup hnew (List.mem_map_of_mem hctake) (hdone c hc).symm

/-- The prefix has a seed among the files it stands in. The files looked at so far since
the last one without evidence are `done`; `suffix` are the last of their bytes. -/
theorem exists_seed {files : List JobFile} {done suffix : List Sourced} {previous : Option String}
    {i : Nat} (hpos : 0 < keyPrefix.length) (hlen : keyPrefix.length ≤ edgeBytes)
    (hfaithful : ∀ file ∈ files, ∀ item, (file.entry evidence).2 = some item →
      Faithful keyPrefix file.log.content item)
    (hids : (files.map (·.log.id)).Nodup)
    (hdone : ∀ c ∈ done, ∀ file ∈ files, c.2 ≠ file.log.id)
    (hsuffix : suffix = done.rtake (keyPrefix.length - 1))
    (hocc : OccursAt keyPrefix (done.map Prod.fst ++ contentOf (files.map (·.log))) i)
    (hend : done.length < i + keyPrefix.length) :
    ∃ xs file ys, files = xs ++ file :: ys ∧
      done.length + (contentOf (xs.map (·.log))).length < i + keyPrefix.length ∧
      i < done.length + (contentOf (xs.map (·.log))).length + file.log.content.length ∧
      ((file.entry evidence).2.all (·.mayMatch) = true ∨
        file.log.id ∈ boundaryCandidates keyPrefix previous suffix
          (files.map (JobFile.entry evidence))) := by
  have hne : keyPrefix ≠ [] := List.length_pos_iff.mp hpos
  induction files generalizing done suffix previous i with
  | nil =>
    have hbound := hocc.le_length hne
    rw [List.map_nil, List.length_append, List.length_map] at hbound
    exact absurd hbound (by show ¬ _ ≤ _ + 0; omega)
  | cons file files ih =>
    rw [List.map_cons, contentOf_cons] at hocc
    rw [List.map_cons, List.nodup_cons] at hids
    have hrest : ∀ f ∈ files, ∀ item, (f.entry evidence).2 = some item →
        Faithful keyPrefix f.log.content item := fun f hf => hfaithful f (List.mem_cons_of_mem _ hf)
    rcases hitem : checkEvidence file.frozen (evidence file.log.id) with _ | item
    · have hentry : file.entry evidence = (file.log.id, none) := by
        unfold JobFile.entry
        rw [hitem]
      by_cases hhere : i < done.length + file.log.content.length
      · -- a file without evidence is a seed itself
        refine ⟨[], file, files, rfl, ?_, ?_, Or.inl ?_⟩
        · exact hend
        · exact hhere
        · rw [hentry]
          rfl
      · -- the prefix begins behind it
        have hocc' : OccursAt keyPrefix (([] : List Sourced).map Prod.fst ++
            contentOf (files.map (·.log))) (i - (done.length + file.log.content.length)) := by
          rw [← List.append_assoc] at hocc
          have hdrop : (done.map Prod.fst ++ file.log.content ++ contentOf (files.map (·.log))).drop
              (done.length + file.log.content.length) = contentOf (files.map (·.log)) := by
            refine List.drop_left' ?_
            rw [List.length_append, List.length_map]
          show OccursAt keyPrefix (contentOf (files.map (·.log))) _
          rw [← hdrop, occursAt_drop, Nat.add_sub_cancel' (by omega)]
          exact hocc
        obtain ⟨xs, f, ys, hsplit, hstart, hstop, hseed⟩ := ih hrest hids.2
          (fun c hc => absurd hc List.not_mem_nil) (show ([] : List Sourced) = _ by unfold List.rtake; rw [List.drop_nil]) hocc'
          (show 0 < _ by omega)
        rw [List.length_nil] at hstart hstop
        refine ⟨file :: xs, f, ys, by rw [hsplit]; rfl, ?_, ?_, hseed.imp_right ?_⟩
        · rw [List.map_cons, contentOf_cons, List.length_append]
          omega
        · rw [List.map_cons, contentOf_cons, List.length_append]
          omega
        · intro hmem
          rw [List.map_cons, hentry]
          exact List.mem_append_right _ hmem
    · have hentry : file.entry evidence = (file.log.id, some item) := by
        unfold JobFile.entry
        rw [hitem]
      have hok : Faithful keyPrefix file.log.content item :=
        hfaithful file List.mem_cons_self item (by rw [hentry])
      by_cases hhere : i + keyPrefix.length ≤ done.length + file.log.content.length
      · have hocc' : OccursAt keyPrefix (done.map Prod.fst ++ file.log.content) i := by
          rw [← List.append_assoc] at hocc
          refine (occursAt_append_left ?_).mp hocc
          rw [List.length_append, List.length_map]
          exact hhere
        refine ⟨[], file, files, rfl, hend, by omega, ?_⟩
        by_cases hin : done.length ≤ i
        · -- it stands in this file alone
          refine Or.inl ?_
          rw [hentry]
          refine hok.mayMatch ?_
          have hdrop : (done.map Prod.fst ++ file.log.content).drop i =
              file.log.content.drop (i - done.length) := by
            rw [List.drop_append, List.length_map, List.drop_eq_nil_of_le (by
              rw [List.length_map]; exact hin), List.nil_append]
          unfold OccursAt at hocc'
          rw [hdrop] at hocc'
          exact hocc'.isInfix.trans (List.drop_suffix _ _).isInfix
        · -- it runs over the boundary before this file
          refine Or.inr ?_
          rw [List.map_cons, hentry]
          refine List.mem_append_left _ ?_
          have hhead : item.head.take keyPrefix.length = file.log.content.take keyPrefix.length := by
            rw [hok.head, List.take_take, Nat.min_eq_left hlen]
          rw [hhead]
          exact mem_boundarySources hpos hsuffix (fun c hc => hdone c hc file List.mem_cons_self)
            hocc' (by omega) hend
      · -- it goes on behind this file
        have hocc' : OccursAt keyPrefix ((done ++ sourced file.log.id file.log.content).map Prod.fst ++
            contentOf (files.map (·.log))) i := by
          rw [List.map_append, map_fst_sourced, List.append_assoc]
          exact hocc
        have hdone' : ∀ c ∈ done ++ sourced file.log.id file.log.content, ∀ f ∈ files,
            c.2 ≠ f.log.id := by
          intro c hc f hf
          rcases List.mem_append.mp hc with hc | hc
          · exact hdone c hc f (List.mem_cons_of_mem _ hf)
          · obtain ⟨b, -, hb⟩ := List.mem_map.mp hc
            rw [← hb]
            intro heq
            exact hids.1 (List.mem_map.mpr ⟨f, hf, heq.symm⟩)
        have hsuffix' : (suffix ++ sourced file.log.id (carried keyPrefix item)).rtake
            (keyPrefix.length - 1) =
            (done ++ sourced file.log.id file.log.content).rtake (keyPrefix.length - 1) := by
          rw [rtake_carried hok hlen, hsuffix, rtake_rtake_append]
        obtain ⟨xs, f, ys, hsplit, hstart, hstop, hseed⟩ := ih hrest hids.2 hdone' hsuffix' hocc' (by
          rw [List.length_append, length_sourced]; omega)
        rw [List.length_append, length_sourced] at hstart hstop
        refine ⟨file :: xs, f, ys, by rw [hsplit]; rfl, ?_, ?_, hseed.imp_right ?_⟩
        · rw [List.map_cons, contentOf_cons, List.length_append]
          omega
        · rw [List.map_cons, contentOf_cons, List.length_append]
          omega
        · intro hmem
          rw [List.map_cons, hentry]
          exact List.mem_append_right _ hmem

end Seeds

/-! ## Walks from a seed -/

/-- The walk takes in files without a newline, and the first file behind them. -/
theorem mem_neighbours {xs ys : List Entry} {entry : Entry}
    (hxs : ∀ x ∈ xs, x.2.any (·.hasNewline) = false) (h : entry ∈ xs ∨ ys.head? = some entry) :
    entry.1 ∈ neighbours (xs ++ ys) := by
  induction xs with
  | nil =>
    rcases h with h | h
    · exact absurd h List.not_mem_nil
    · obtain ⟨rest, hrest⟩ := List.head?_eq_some_iff.mp h
      rw [hrest]
      exact List.mem_cons_self
  | cons x xs ih =>
    have hwalk : neighbours (x :: xs ++ ys) = x.1 :: neighbours (xs ++ ys) := by
      show x.1 :: (if x.2.any (·.hasNewline) then [] else neighbours (xs ++ ys)) = _
      rw [hxs x List.mem_cons_self]
      rfl
    rw [hwalk]
    have hrest : entry ∈ xs ∨ ys.head? = some entry → entry.1 ∈ neighbours (xs ++ ys) :=
      ih fun y hy => hxs y (List.mem_cons_of_mem _ hy)
    rcases h with h | h
    · rcases List.mem_cons.mp h with h | h
      · rw [h]
        exact List.mem_cons_self
      · exact List.mem_cons_of_mem _ (hrest (Or.inl h))
    · exact List.mem_cons_of_mem _ (hrest (Or.inr h))

/-- Both walks from a seed are taken. -/
theorem mem_expandSeeds {seeds : List String} {before xs ys : List Entry} {entry : Entry}
    {identifier : String} (hentry : entry.1 ∈ seeds)
    (h : identifier ∈ neighbours (xs.reverse ++ before) ∨ identifier ∈ neighbours ys) :
    identifier ∈ expandSeeds seeds before (xs ++ entry :: ys) := by
  induction xs generalizing before with
  | nil =>
    refine List.mem_append_left _ ?_
    rw [if_pos hentry]
    exact List.mem_append.mpr h
  | cons x xs ih =>
    refine List.mem_append_right _ (ih ?_)
    rw [List.reverse_cons, List.append_assoc] at h
    exact h

/-! ## The plan -/

section Plan

variable {evidence : String → Option Evidence} {keyword : List Char} {files : List JobFile}

theorem identifiers_eq (files : List JobFile) :
    (files.map JobFile.frozen).filterMap (·.id) = files.map (·.log.id) := by
  induction files with
  | nil => rfl
  | cons file files ih => exact congrArg (file.log.id :: ·) ih

theorem entries_eq (files : List JobFile) :
    (files.map JobFile.frozen).filterMap (fun file =>
        file.id.map fun identifier => (identifier, checkEvidence file (evidence identifier))) =
      files.map (JobFile.entry evidence) := by
  induction files with
  | nil => rfl
  | cons file files ih => exact congrArg (file.entry evidence :: ·) ih

/-- Without a prefix to plan with, every file is kept. -/
theorem plan_of_none (h : keywordPrefix keyword = none) :
    planCandidateFiles (files.map JobFile.frozen) evidence keyword = files.map (·.log.id) := by
  unfold planCandidateFiles
  rw [identifiers_eq, h]

/-- With one, the seeds and their neighbours are. -/
theorem plan_of_some {keyPrefix : Bytes} (h : keywordPrefix keyword = some keyPrefix) :
    planCandidateFiles (files.map JobFile.frozen) evidence keyword =
      seedFiles keyPrefix (files.map (JobFile.entry evidence)) ++
        expandSeeds (seedFiles keyPrefix (files.map (JobFile.entry evidence))) []
          (files.map (JobFile.entry evidence)) := by
  unfold planCandidateFiles
  rw [identifiers_eq, entries_eq, h]
  dsimp only
  rw [List.length_map, List.length_map, if_neg (not_not.mpr rfl)]

/-- A file on the way from a seed does not stop the walk if it has no newline. -/
theorem no_newline_entry {keyPrefix : Bytes} {file : JobFile}
    (hfaithful : ∀ item, (file.entry evidence).2 = some item →
      Faithful keyPrefix file.log.content item)
    (hline : newline ∉ file.log.content) : (file.entry evidence).2.any (·.hasNewline) = false := by
  rcases hitem : (file.entry evidence).2 with _ | item
  · rfl
  · have hok := hfaithful item hitem
    show item.hasNewline = false
    rw [Bool.eq_false_iff]
    exact fun h => hline (hok.hasNewline.mp h)

theorem mem_contentOf {files : List JobFile} {file : JobFile} (h : file ∈ files) {b : UInt8}
    (hb : b ∈ file.log.content) : b ∈ contentOf (files.map (·.log)) :=
  List.mem_flatMap.mpr ⟨file.log, List.mem_map_of_mem h, hb⟩

/-- Both walks from a seed are in the plan. -/
theorem planned_of_walk {keyPrefix : Bytes} (hpre : keywordPrefix keyword = some keyPrefix)
    {xs ys : List JobFile} {file : JobFile} (hat : files = xs ++ file :: ys)
    (hseed : file.log.id ∈ seedFiles keyPrefix (files.map (JobFile.entry evidence)))
    {identifier : String}
    (h : identifier ∈ neighbours (xs.reverse.map (JobFile.entry evidence)) ∨
      identifier ∈ neighbours (ys.map (JobFile.entry evidence))) :
    identifier ∈ planCandidateFiles (files.map JobFile.frozen) evidence keyword := by
  have hentry : (file.entry evidence).1 ∈
      seedFiles keyPrefix (files.map (JobFile.entry evidence)) := hseed
  rw [plan_of_some hpre]
  refine List.mem_append_right _ ?_
  rw [hat, List.map_append, List.map_cons] at hentry ⊢
  refine mem_expandSeeds hentry (h.imp_left ?_)
  rw [List.append_nil, List.map_reverse]
  exact id

/-- From a seed before a boundary, with no newline between, both sides are planned. -/
theorem planned_forward {keyPrefix : Bytes} (hpre : keywordPrefix keyword = some keyPrefix)
    {xs zs ys : List JobFile} {file : JobFile} (hat : files = xs ++ file :: (zs ++ ys))
    (hseed : file.log.id ∈ seedFiles keyPrefix (files.map (JobFile.entry evidence)))
    (hline : ∀ z ∈ zs, (z.entry evidence).2.any (·.hasNewline) = false) {f : JobFile}
    (hf : f ∈ file :: zs ∨ ys.head? = some f) :
    f.log.id ∈ planCandidateFiles (files.map JobFile.frozen) evidence keyword := by
  by_cases hself : f = file
  · rw [hself, plan_of_some hpre]
    exact List.mem_append_left _ hseed
  refine planned_of_walk hpre hat hseed (Or.inr ?_)
  rw [List.map_append]
  have hstops : ∀ x ∈ zs.map (JobFile.entry evidence), x.2.any (·.hasNewline) = false := by
    intro x hx
    obtain ⟨z, hz, heq⟩ := List.mem_map.mp hx
    rw [← heq]
    exact hline z hz
  have hwhere : f.entry evidence ∈ zs.map (JobFile.entry evidence) ∨
      (ys.map (JobFile.entry evidence)).head? = some (f.entry evidence) := by
    rcases hf with h | h
    · rcases List.mem_cons.mp h with h | h
      · exact absurd h hself
      · exact Or.inl (List.mem_map_of_mem h)
    · rw [List.head?_map, h]
      exact Or.inr rfl
  exact mem_neighbours hstops hwhere

/-- From a seed behind a boundary, with no newline between, both sides are planned. -/
theorem planned_backward {keyPrefix : Bytes} (hpre : keywordPrefix keyword = some keyPrefix)
    {xs zs ys : List JobFile} {file : JobFile} (hat : files = (xs ++ zs) ++ file :: ys)
    (hseed : file.log.id ∈ seedFiles keyPrefix (files.map (JobFile.entry evidence)))
    (hline : ∀ z ∈ zs, (z.entry evidence).2.any (·.hasNewline) = false) {f : JobFile}
    (hf : xs.getLast? = some f ∨ f ∈ file :: zs) :
    f.log.id ∈ planCandidateFiles (files.map JobFile.frozen) evidence keyword := by
  by_cases hself : f = file
  · rw [hself, plan_of_some hpre]
    exact List.mem_append_left _ hseed
  refine planned_of_walk hpre hat hseed (Or.inl ?_)
  rw [List.reverse_append, List.map_append]
  have hstops : ∀ x ∈ zs.reverse.map (JobFile.entry evidence),
      x.2.any (·.hasNewline) = false := by
    intro x hx
    obtain ⟨z, hz, heq⟩ := List.mem_map.mp hx
    rw [← heq]
    exact hline z (List.mem_reverse.mp hz)
  have hwhere : f.entry evidence ∈ zs.reverse.map (JobFile.entry evidence) ∨
      (xs.reverse.map (JobFile.entry evidence)).head? = some (f.entry evidence) := by
    rcases hf with h | h
    · rw [List.head?_map, List.head?_reverse, h]
      exact Or.inr rfl
    · rcases List.mem_cons.mp h with h | h
      · exact absurd h hself
      · exact Or.inl (List.mem_map_of_mem (List.mem_reverse.mpr h))
  exact mem_neighbours hstops hwhere

/-- **From faithful evidence the plan keeps enough.** -/
theorem plan_covers_hits (hids : (files.map (·.log.id)).Nodup)
    (hfaithful : FaithfulEvidence files evidence keyword) :
    CoversHits (encode keyword)
      (fun log => log.id ∈ planCandidateFiles (files.map JobFile.frozen) evidence keyword)
      (files.map (·.log)) := by
  rcases hpre : keywordPrefix keyword with _ | keyPrefix
  · have hall : ∀ log ∈ files.map (·.log),
        log.id ∈ planCandidateFiles (files.map JobFile.frozen) evidence keyword := by
      intro log hlog
      obtain ⟨file, hfile, heq⟩ := List.mem_map.mp hlog
      rw [plan_of_none hpre, ← heq]
      exact List.mem_map_of_mem hfile
    refine ⟨fun log hlog _ => hall log hlog, ?_⟩
    intro before after left right hsplit _ _ _ _ _
    refine ⟨fun log hlog => hall log ?_, fun log hlog => hall log ?_⟩
    · rw [hsplit]
      exact List.mem_append_left _ (List.mem_of_getLast? hlog)
    · rw [hsplit]
      exact List.mem_append_right _ (List.mem_of_head? hlog)
  obtain ⟨hkey, hpos, hlen⟩ := keywordPrefix_some hpre
  have hkeyword : keyPrefix <:+: encode keyword := by
    rw [hkey]
    exact (encode_take_isPrefix keyword 3).isInfix
  have hfaith : ∀ file ∈ files, ∀ item, (file.entry evidence).2 = some item →
      Faithful keyPrefix file.log.content item := by
    intro file hfile item hitem
    rw [hkey]
    exact hfaithful file hfile item hitem
  have hmay : ∀ file ∈ files, (file.entry evidence).2.all (·.mayMatch) = true →
      file.log.id ∈ seedFiles keyPrefix (files.map (JobFile.entry evidence)) := by
    intro file hfile h
    refine List.mem_append_left _ (List.mem_map.mpr ⟨file.entry evidence, ?_, rfl⟩)
    exact List.mem_filter.mpr ⟨List.mem_map_of_mem hfile, h⟩
  refine ⟨?_, ?_⟩
  · intro log hlog hin
    obtain ⟨file, hfile, heq⟩ := List.mem_map.mp hlog
    rw [← heq] at hin ⊢
    rw [plan_of_some hpre]
    refine List.mem_append_left _ (hmay file hfile ?_)
    rcases hitem : (file.entry evidence).2 with _ | item
    · rfl
    · exact (hfaith file hfile item hitem).mayMatch (hkeyword.trans hin)
  · intro before after left right hsplit hleft hright hbefore hafter hin
    obtain ⟨fb, fa, hfiles, hfb, hfa⟩ := List.map_eq_append_iff.mp hsplit
    obtain ⟨outside, houtside⟩ := hbefore
    obtain ⟨beyond, hbeyond⟩ := hafter
    obtain ⟨skip, more, hskip⟩ := hkeyword.trans hin
    rw [← hfb] at houtside
    rw [← hfa] at hbeyond
    -- where the prefix stands among all bytes
    have hcontent : contentOf (files.map (·.log)) =
        (outside ++ skip) ++ (keyPrefix ++ (more ++ beyond)) := by
      rw [hsplit, ← hfb, ← hfa, contentOf_append, ← houtside, ← hbeyond]
      calc outside ++ left ++ (right ++ beyond)
          = outside ++ (left ++ right) ++ beyond := by simp only [List.append_assoc]
        _ = _ := by rw [← hskip]; simp only [List.append_assoc]
    have hocc : OccursAt keyPrefix (([] : List Sourced).map Prod.fst ++
        contentOf (files.map (·.log))) (outside.length + skip.length) := by
      show keyPrefix <+: (contentOf (files.map (·.log))).drop _
      rw [hcontent, List.drop_left' (by rw [List.length_append])]
      exact List.prefix_append _ _
    have hinside := congrArg List.length hskip
    rw [List.length_append, List.length_append, List.length_append] at hinside
    have hlenbefore := congrArg List.length houtside
    have hlenafter := congrArg List.length hbeyond
    rw [List.length_append] at hlenbefore hlenafter
    have hnil : ([] : List Sourced) = ([] : List Sourced).rtake (keyPrefix.length - 1) := by
      unfold List.rtake
      rw [List.drop_nil]
    obtain ⟨xs, file, ys, hat, hstart, hstop, hseed⟩ :=
      @exists_seed evidence keyPrefix files [] [] none _ hpos hlen hfaith hids
        (fun c hc => absurd hc List.not_mem_nil) hnil hocc (show 0 < _ by omega)
    rw [List.length_nil] at hstart hstop
    have hseed' : file.log.id ∈ seedFiles keyPrefix (files.map (JobFile.entry evidence)) := by
      rcases hseed with hseed | hseed
      · refine hmay file ?_ hseed
        rw [hat]
        exact List.mem_append_right _ List.mem_cons_self
      · exact List.mem_append_right _ hseed
    suffices hkept : (∀ b, fb.getLast? = some b →
          b.log.id ∈ planCandidateFiles (files.map JobFile.frozen) evidence keyword) ∧
        ∀ a, fa.head? = some a →
          a.log.id ∈ planCandidateFiles (files.map JobFile.frozen) evidence keyword by
      rw [← hfb, ← hfa, List.getLast?_map, List.head?_map]
      refine ⟨?_, ?_⟩
      · intro log hlog
        obtain ⟨b, hb, heq⟩ := Option.map_eq_some_iff.mp hlog
        rw [← heq]
        exact hkept.1 b hb
      · intro log hlog
        obtain ⟨a, ha, heq⟩ := Option.map_eq_some_iff.mp hlog
        rw [← heq]
        exact hkept.2 a ha
    have hsides : (∃ zs, fb = xs ++ file :: zs ∧ ys = zs ++ fa) ∨
        ∃ zs, xs = fb ++ zs ∧ fa = zs ++ file :: ys := by
      rw [hfiles] at hat
      rcases List.append_eq_append_iff.mp hat with ⟨zs, hzs, hzs'⟩ | ⟨zs, hzs, hzs'⟩
      · exact Or.inr ⟨zs, hzs, hzs'⟩
      · cases zs with
        | nil => exact Or.inr ⟨[], by rw [hzs]; simp, hzs'.symm⟩
        | cons z zs =>
          cases hzs'
          exact Or.inl ⟨zs, hzs, rfl⟩
    rcases hsides with ⟨zs, hzs, hys⟩ | ⟨zs, hzs, hfa'⟩
    · -- the seed is before the boundary, and the files behind it are within `left`
      have hbytes : contentOf (fb.map (·.log)) =
          (contentOf (xs.map (·.log)) ++ file.log.content) ++ contentOf (zs.map (·.log)) := by
        rw [hzs, List.map_append, List.map_cons, contentOf_append, contentOf_cons,
          List.append_assoc]
      have hlencontent := congrArg List.length hbytes
      rw [List.length_append, List.length_append] at hlencontent
      have hpart : contentOf (zs.map (·.log)) <:+ left :=
        List.suffix_of_suffix_length_le ⟨_, hbytes.symm⟩ ⟨outside, houtside⟩ (by omega)
      have hline : ∀ z ∈ zs, (z.entry evidence).2.any (·.hasNewline) = false := by
        intro z hz
        refine no_newline_entry (hfaith z ?_) fun hb => hleft (hpart.subset (mem_contentOf hz hb))
        rw [hat, hys]
        exact List.mem_append_right _ (List.mem_cons_of_mem _ (List.mem_append_left _ hz))
      rw [hys] at hat
      refine ⟨?_, fun a ha => planned_forward hpre hat hseed' hline (Or.inr ha)⟩
      intro b hb
      rw [hzs, List.getLast?_append_of_ne_nil _ (List.cons_ne_nil _ _)] at hb
      exact planned_forward hpre hat hseed' hline (Or.inl (List.mem_of_getLast? hb))
    · -- the seed is behind the boundary, and the files before it are within `right`
      have hbytes : contentOf (fa.map (·.log)) = contentOf (zs.map (·.log)) ++
          (file.log.content ++ contentOf (ys.map (·.log))) := by
        rw [hfa', List.map_append, List.map_cons, contentOf_append, contentOf_cons]
      have hlencontent : (contentOf (xs.map (·.log))).length =
          (contentOf (fb.map (·.log))).length + (contentOf (zs.map (·.log))).length := by
        rw [hzs, List.map_append, contentOf_append, List.length_append]
      have hpart : contentOf (zs.map (·.log)) <+: right :=
        List.prefix_of_prefix_length_le ⟨_, hbytes.symm⟩ ⟨beyond, hbeyond⟩ (by omega)
      have hline : ∀ z ∈ zs, (z.entry evidence).2.any (·.hasNewline) = false := by
        intro z hz
        refine no_newline_entry (hfaith z ?_) fun hb => hright (hpart.subset (mem_contentOf hz hb))
        rw [hat, hzs]
        exact List.mem_append_left _ (List.mem_append_right _ hz)
      rw [hzs] at hat
      refine ⟨fun b hb => planned_backward hpre hat hseed' hline (Or.inl hb), ?_⟩
      intro a ha
      refine planned_backward hpre hat hseed' hline (Or.inr ?_)
      rw [hfa'] at ha
      cases zs with
      | nil =>
        cases ha
        exact List.mem_cons_self
      | cons z zs =>
        cases ha
        exact List.mem_cons_of_mem _ List.mem_cons_self

end Plan

end CameraLogs.Logs

import CameraLogs.Collection.PshResponse
import Mathlib.Data.List.Induction

/-!
# The window does not depend on how the response is cut into chunks

The window after a text is a function of the text alone (`windowOf`), and feeding a chunk takes
the window of a text to the window of the longer text (`feed_windowOf`). The case that needs an
argument is a line that goes on: a record found in its beginning is found again in the longer
line, at the same place (`beforeMatch_clean_append`). A control sequence at the end of the
beginning may still be undecided, but no record can start or end in one.
-/

namespace CameraLogs.Collection

open Logs Lib Lib.Pattern

variable {b e : UInt8} {w l line text front : Bytes}

/-- What is left of a line: without control sequences it is kept as a whole, or up to the start
of a record. -/
inductive LineView (ended : Bool) (line : Bytes) : Bytes → Prop
  | plain {text : Bytes} (hclean : Removed ansi line text) (hnone : NoMatch syslog text) :
      LineView ended line (text ++ if ended then [newline] else [])
  | record {text front : Bytes} (hclean : Removed ansi line text)
      (hfirst : FirstMatch syslog text front) : LineView ended line front

/-- What is left of a response, line by line. -/
inductive ResponseView : Bytes → Bytes → Prop
  | last {line view : Bytes} (hline : newline ∉ line) (hview : LineView false line view) :
      ResponseView line view
  | line {line view rest restView : Bytes} (hline : newline ∉ line)
      (hview : LineView true line view) (hrest : ResponseView rest restView) :
      ResponseView (line ++ newline :: rest) (view ++ restView)

/-! ## Control sequences -/

theorem ansi_word (h : ansi.Fits w) : ∃ body f, w = escapeByte :: 0x5b :: (body ++ [f]) ∧
    (∀ b ∈ body, inRange 0x20 0x3f b) ∧ inRange 0x40 0x7e f := by
  obtain ⟨_, _, rfl, ⟨e, rfl, he⟩, _, _, rfl, ⟨c, rfl, hc⟩, params, _, rfl, hparams, marks, _, rfl,
    hmarks, _, _, rfl, ⟨f, rfl, hf⟩, rfl⟩ := h
  rw [eq_of_beq he, eq_of_beq hc]
  refine ⟨params ++ marks, f, by simp, ?_, hf⟩
  intro b hb
  rw [inRange_iff]
  obtain hb | hb := List.mem_append.mp hb
  · have := inRange_iff.mp (hparams b hb)
    omega
  · have := inRange_iff.mp (hmarks b hb)
    omega

theorem ansi_not_nil : ¬ ansi.Fits [] := by
  intro h
  obtain ⟨_, _, heq, _⟩ := ansi_word h
  cases heq

theorem ansi_starts (h : ansi.Fits (b :: w)) : b = escapeByte := by
  obtain ⟨_, _, heq, _⟩ := ansi_word h
  exact (List.cons_eq_cons.mp heq).1

theorem ansi_prefixFree : PrefixFree ansi := by
  intro w x hw hwx
  obtain ⟨body, f, rfl, -, hf⟩ := ansi_word hw
  obtain ⟨body', f', heq, hbody', -⟩ := ansi_word hwx
  have heq : body ++ f :: x = body' ++ [f'] := by simpa using heq
  rcases Nat.le_total body.length body'.length with hle | hle
  · obtain ⟨m, rfl, hm⟩ := exists_between heq hle
    cases m with
    | nil => exact (List.cons_eq_cons.mp hm).2
    | cons c m =>
      -- a final byte is no byte of a body
      obtain ⟨rfl, -⟩ := List.cons_eq_cons.mp hm
      have hc := inRange_iff.mp (hbody' f (List.mem_append_right _ List.mem_cons_self))
      have := inRange_iff.mp hf
      omega
  · obtain ⟨m, rfl, hm⟩ := exists_between heq.symm hle
    have hlen := congrArg List.length hm
    simp only [List.length_cons, List.length_nil, List.length_append] at hlen
    exact List.eq_nil_of_length_eq_zero (by omega)

/-- What may still become a control sequence is an escape and bytes that are no letters. -/
theorem ansi_held (h : Held ansi l) : l = [] ∨ ∃ tail, l = escapeByte :: tail ∧
    ∀ b ∈ tail, inRange 0x20 0x3f b ∨ b = 0x5b := by
  obtain rfl | ⟨y, hne, hfits⟩ := h
  · exact .inl rfl
  obtain ⟨body, f, heq, hbody, -⟩ := ansi_word hfits
  cases l with
  | nil => exact .inl rfl
  | cons e tail =>
    obtain ⟨rfl, htail⟩ := List.cons_eq_cons.mp heq
    refine .inr ⟨tail, rfl, ?_⟩
    have hle : tail.length ≤ (0x5b :: body).length := by
      have hlen := congrArg List.length htail
      have hy := List.length_pos_iff.mpr hne
      simp only [List.append_eq, List.length_append, List.length_cons, List.length_nil] at hlen ⊢
      omega
    obtain ⟨m, hm, -⟩ := exists_between (show tail ++ y = (0x5b :: body) ++ [f] from htail) hle
    intro b hb
    have hmem : b ∈ (0x5b : UInt8) :: body := hm ▸ List.mem_append_left _ hb
    exact (List.mem_cons.mp hmem).elim .inr fun h => .inl (hbody b h)

theorem escape_not_held {tail : Bytes} (h : ∀ b ∈ tail, inRange 0x20 0x3f b ∨ b = 0x5b) :
    ∀ b ∈ tail, ∀ w, ¬ ansi.Fits (b :: w) := by
  intro b hb w hw
  rw [ansi_starts hw] at hb
  exact absurd (h _ hb) (by decide)

/-- The undecided end of a line stands in the window as it is. -/
theorem removed_held (h : Held ansi l) : Removed ansi l l := by
  obtain rfl | ⟨tail, rfl, htail⟩ := ansi_held h
  · exact .nil
  refine .keep ?_ (removed_self (escape_not_held htail) ansi_not_nil)
  obtain hnil | ⟨y, hne, hfits⟩ := h
  · cases hnil
  · rintro w ⟨rest, hrest⟩ hw
    rw [← hrest, List.append_assoc] at hfits
    have hall := ansi_prefixFree w (rest ++ y) hw hfits
    exact hne (List.append_eq_nil_iff.mp hall).2

theorem removed_clean (l : Bytes) : Removed ansi l (clean l) := removed_remove ansi_not_nil l

theorem clean_eq (h : Removed ansi l text) : clean l = text :=
  (removed_clean l).unique ansi_prefixFree h

/-- A longer line begins with the same text, up to an undecided end. -/
theorem clean_append (l : Bytes) : ∃ done held, Held ansi held ∧ clean l = done ++ held ∧
    ∀ x, ∃ rest, clean (l ++ x) = done ++ rest := by
  obtain ⟨first, held, done, -, hheld, hdone⟩ := (removed_clean l).append
  refine ⟨done, held, hheld, ?_, ?_⟩
  · refine clean_eq ?_
    have hself := hdone [] held (by rw [List.append_nil]; exact removed_held hheld)
    rwa [List.append_nil] at hself
  · intro x
    exact ⟨clean (held ++ x), clean_eq (hdone x _ (removed_clean _))⟩

/-! ## Records -/

theorem months_shape : ∀ m ∈ months, ∃ c x y, m = [c, x, y] ∧ isCapital c ∧ isLower x ∧
    isLower y := by
  simp only [months, List.forall_mem_cons]
  exact ⟨⟨_, _, _, rfl, rfl, rfl, rfl⟩, ⟨_, _, _, rfl, rfl, rfl, rfl⟩, ⟨_, _, _, rfl, rfl, rfl, rfl⟩,
    ⟨_, _, _, rfl, rfl, rfl, rfl⟩, ⟨_, _, _, rfl, rfl, rfl, rfl⟩, ⟨_, _, _, rfl, rfl, rfl, rfl⟩,
    ⟨_, _, _, rfl, rfl, rfl, rfl⟩, ⟨_, _, _, rfl, rfl, rfl, rfl⟩, ⟨_, _, _, rfl, rfl, rfl, rfl⟩,
    ⟨_, _, _, rfl, rfl, rfl, rfl⟩, ⟨_, _, _, rfl, rfl, rfl, rfl⟩, ⟨_, _, _, rfl, rfl, rfl, rfl⟩, nofun⟩

theorem levels_lower : ∀ word ∈ levels, ∀ b ∈ word, isLower b := by decide +kernel

/-- A byte between the parts of a date. -/
def isDateByte (b : UInt8) : Bool := isBlank b || isDigitByte b || b == 0x3a

theorem twoDigits_word (h : twoDigits.Fits w) : ∀ b ∈ w, isDateByte b := by
  obtain ⟨_, _, rfl, ⟨c, rfl, hc⟩, ⟨d, rfl, hd⟩⟩ := h
  intro b hb
  have hdigit : isDigitByte b = true := by
    obtain rfl | hb := List.mem_cons.mp hb
    · exact hc
    · rwa [List.mem_singleton.mp hb]
  simp [isDateByte, hdigit]

/-- The parts of a record's start: a month, a blank, the rest of the date, the host, the level. -/
theorem syslog_word (h : syslog.Fits w) : ∃ c x y g date host level,
    w = c :: x :: y :: g :: (date ++ (host ++ 0x2e :: level)) ∧
      isCapital c ∧ isLower x ∧ isLower y ∧ isBlank g ∧ (∀ b ∈ date, isDateByte b) ∧
      (∀ b ∈ host, isHost b) ∧ ∀ b ∈ level, isLower b ∨ isBlank b := by
  obtain ⟨month, _, rfl, hmonth, gap, _, rfl, hgap, _, _, rfl, ⟨d, rfl, hd⟩, optional, _, rfl,
    hoptional, gap', _, rfl, hgap', hours, _, rfl, hhours, _, _, rfl, ⟨p, rfl, hp⟩, minutes, _, rfl,
    hminutes, _, _, rfl, ⟨q, rfl, hq⟩, seconds, _, rfl, hseconds, gap'', _, rfl, hgap'', host, _, rfl,
    hhost, _, _, rfl, ⟨dot, rfl, hdot⟩, level, _, rfl, hlevel, spaces, _, rfl, hspaces, rfl⟩ := h
  obtain ⟨c, x, y, rfl, hc, hx, hy⟩ := months_shape month (fits_anyOf.mp hmonth)
  obtain ⟨hblanks, hne⟩ := hgap.plus
  cases gap with
  | nil => exact absurd rfl hne
  | cons g gap =>
  obtain ⟨hg, hblanks⟩ := List.forall_mem_cons.mp hblanks
  have hblank {l : Bytes} (hl : ∀ b ∈ l, isBlank b) : ∀ b ∈ l, isDateByte b := by
    intro b hb
    simp [isDateByte, hl b hb]
  have hone {b : UInt8} (hb : isDateByte b) : ∀ b' ∈ [b], isDateByte b' := by
    intro b' hb'
    rwa [List.mem_singleton.mp hb']
  have hopt : ∀ b ∈ optional, isDateByte b := by
    obtain ⟨b, rfl, hb⟩ | rfl := hoptional
    · exact hone (by simp [isDateByte, hb])
    · exact nofun
  refine ⟨c, x, y, g, gap ++ ([d] ++ (optional ++ (gap' ++ (hours ++ ([p] ++ (minutes ++ ([q] ++
    (seconds ++ gap'')))))))), host, level ++ spaces, ?_, hc, hx, hy, hg, ?_, hhost.plus.1, ?_⟩
  · rw [eq_of_beq hdot]
    simp
  · simp only [List.forall_mem_append]
    exact ⟨hblank hblanks, hone (by simp [isDateByte, hd]), hopt, hblank hgap'.plus.1,
      twoDigits_word hhours, hone (by simp [isDateByte, eq_of_beq hp]), twoDigits_word hminutes,
      hone (by simp [isDateByte, eq_of_beq hq]), twoDigits_word hseconds, hblank hgap''.plus.1⟩
  · simp only [List.forall_mem_append]
    exact ⟨fun b hb => .inl (levels_lower level (fits_anyOf.mp hlevel) b hb),
      fun b hb => .inr (hspaces.plus.1 b hb)⟩

theorem syslog_not_nil : ¬ syslog.Fits [] := by
  intro h
  obtain ⟨_, _, _, _, _, _, _, heq, _⟩ := syslog_word h
  cases heq

theorem syslog_starts (h : syslog.Fits (b :: w)) : isCapital b := by
  obtain ⟨_, _, _, _, _, _, _, heq, hc, _⟩ := syslog_word h
  rwa [(List.cons_eq_cons.mp heq).1]

theorem escape_not_mem_syslog (h : syslog.Fits w) : escapeByte ∉ w := by
  obtain ⟨c, x, y, g, date, host, level, rfl, hc, hx, hy, hg, hdate, hhost, hlevel⟩ := syslog_word h
  simp only [List.mem_cons, List.mem_append, not_or]
  have hne {p : UInt8 → Bool} {b : UInt8} (hp : p escapeByte = false) (hb : p b) :
      escapeByte ≠ b := by
    rintro rfl
    rw [hp] at hb
    cases hb
  refine ⟨hne rfl hc, hne rfl hx, hne rfl hy, hne rfl hg, fun h => hne rfl (hdate _ h) rfl,
    fun h => hne rfl (hhost _ h) rfl, by decide, fun h => ?_⟩
  exact (hlevel _ h).elim (fun h => hne rfl h rfl) (fun h => hne rfl h rfl)

/-- Behind each capital letter come bytes of a host name and then a dot. -/
def Quiet (l : Bytes) : Prop :=
  ∀ u c rest, l = u ++ c :: rest → isCapital c →
    ∃ host tail, rest = host ++ 0x2e :: tail ∧ ∀ b ∈ host, isHost b

/-- A byte of two joined texts is in the first of them or in the second. -/
theorem cut_append {u rest : Bytes} {c : UInt8} (h : w ++ l = u ++ c :: rest) :
    (∃ m, w = u ++ c :: m ∧ rest = m ++ l) ∨ ∃ m, u = w ++ m ∧ l = m ++ c :: rest := by
  rcases Nat.lt_or_ge u.length w.length with hlt | hge
  · obtain ⟨m, rfl, hm⟩ := exists_between h.symm (Nat.le_of_lt hlt)
    cases m with
    | nil => exact absurd hlt (by simp)
    | cons d m =>
      obtain ⟨rfl, hrest⟩ := List.cons_eq_cons.mp hm
      exact .inl ⟨m, rfl, hrest⟩
  · exact .inr (exists_between h hge)

theorem Quiet.append (hw : ∀ b ∈ w, ¬ isCapital b) (h : Quiet l) : Quiet (w ++ l) := by
  intro u c rest heq hc
  obtain ⟨m, rfl, -⟩ | ⟨m, -, hl⟩ := cut_append heq
  · exact absurd hc (hw c (List.mem_append_right _ List.mem_cons_self))
  · exact h m c rest hl hc

theorem quiet_host {host level : Bytes} (hhost : ∀ b ∈ host, isHost b)
    (hlevel : ∀ b ∈ level, ¬ isCapital b) : Quiet (host ++ 0x2e :: level) := by
  intro u c rest heq hc
  obtain ⟨m, rfl, hrest⟩ | ⟨m, -, hl⟩ := cut_append heq
  · exact ⟨m, level, hrest, fun b hb =>
      hhost b (List.mem_append_right _ (List.mem_cons_of_mem _ hb))⟩
  · have hmem : c ∈ (0x2e : UInt8) :: level := by
      rw [hl]
      exact List.mem_append_right _ List.mem_cons_self
    obtain rfl | hmem := List.mem_cons.mp hmem
    · exact absurd hc (by decide)
    · exact absurd hc (hlevel c hmem)

theorem not_capital_of_lower (h : isLower b) : ¬ isCapital b := by
  intro hc
  have hlow := inRange_iff.mp h
  have hcap := inRange_iff.mp hc
  omega

theorem isBlank_iff : isBlank b ↔ (0x09 ≤ b.toNat ∧ b.toNat ≤ 0x0d) ∨ b.toNat = 0x20 := by
  have hspace : b = 0x20 ↔ b.toNat = 0x20 := UInt8.toNat_inj.symm
  rw [isBlank, Bool.or_eq_true, inRange_iff, beq_iff_eq, hspace]

theorem not_capital_of_blank (h : isBlank b) : ¬ isCapital b := by
  intro hc
  have hblank := isBlank_iff.mp h
  have hcap := inRange_iff.mp hc
  omega

theorem not_capital_of_date (h : isDateByte b) : ¬ isCapital b := by
  intro hc
  simp only [isDateByte, Bool.or_eq_true, beq_iff_eq] at h
  obtain (hb | hb) | rfl := h
  · exact not_capital_of_blank hb hc
  · have hdigit := inRange_iff.mp hb
    have hcap := inRange_iff.mp hc
    omega
  · exact absurd hc (by decide)

theorem not_host_of_blank (h : isBlank b) : ¬ isHost b := by
  intro hh
  have hblank := isBlank_iff.mp h
  simp only [isHost, Bool.or_eq_true, inRange_iff, beq_iff_eq] at hh
  obtain (((_ | _) | _) | rfl) | rfl := hh
  · omega
  · omega
  · omega
  · exact absurd hblank (by decide)
  · exact absurd hblank (by decide)

/-- A record starts with a capital letter, and the only other ones of it are in the host's name:
no blank comes there before the dot, as it would behind a month. -/
theorem syslog_noInner : NoInner syslog := by
  intro u w v hw hwhole
  obtain ⟨c', x', y', g', _, _, _, rfl, hc', hx', hy', hg', _⟩ := syslog_word hw
  obtain ⟨c, x, y, g, date, host, level, heq, -, hx, hy, hg, hdate, hhost, hlevel⟩ :=
    syslog_word hwhole
  cases u with
  | nil => rfl
  | cons d u =>
    obtain ⟨-, heq⟩ := List.cons_eq_cons.mp heq
    have hquiet : Quiet ([x, y, g] ++ (date ++ (host ++ 0x2e :: level))) := by
      refine Quiet.append ?_ (Quiet.append (fun b hb => not_capital_of_date (hdate b hb))
        (quiet_host hhost fun b hb => ?_))
      · intro b hb
        simp only [List.mem_cons, List.not_mem_nil, or_false] at hb
        obtain rfl | rfl | rfl := hb
        · exact not_capital_of_lower hx
        · exact not_capital_of_lower hy
        · exact not_capital_of_blank hg
      · exact (hlevel b hb).elim not_capital_of_lower not_capital_of_blank
    obtain ⟨name, tail, hname, hall⟩ := hquiet u c' _ heq.symm hc'
    rcases name with _ | ⟨_, _ | ⟨_, _ | ⟨z, _⟩⟩⟩
    · obtain ⟨rfl, -⟩ := List.cons_eq_cons.mp hname
      exact absurd hx' (by decide)
    · obtain ⟨-, hname⟩ := List.cons_eq_cons.mp hname
      obtain ⟨rfl, -⟩ := List.cons_eq_cons.mp hname
      exact absurd hy' (by decide)
    · obtain ⟨-, hname⟩ := List.cons_eq_cons.mp hname
      obtain ⟨-, hname⟩ := List.cons_eq_cons.mp hname
      obtain ⟨rfl, -⟩ := List.cons_eq_cons.mp hname
      exact absurd hg' (by decide)
    · obtain ⟨-, hname⟩ := List.cons_eq_cons.mp hname
      obtain ⟨-, hname⟩ := List.cons_eq_cons.mp hname
      obtain ⟨rfl, -⟩ := List.cons_eq_cons.mp hname
      exact absurd (hall g' (by simp)) (not_host_of_blank hg')

/-- A record found in the beginning of a line is found there in the whole line. -/
theorem beforeMatch_clean_append (h : syslog.beforeMatch (clean l) = some front) (x : Bytes) :
    syslog.beforeMatch (clean (l ++ x)) = some front := by
  obtain ⟨done, held, hheld, heq, hlonger⟩ := clean_append l
  obtain ⟨rest, hrest⟩ := hlonger x
  have hfirst : FirstMatch syslog (done ++ held) front := heq ▸ beforeMatch_some h
  have hdone : FirstMatch syslog done front := by
    obtain rfl | ⟨tail, rfl, htail⟩ := ansi_held hheld
    · rwa [List.append_nil] at hfirst
    · refine hfirst.of_append ?_ syslog_not_nil fun w => escape_not_mem_syslog
      intro b hb w hw
      -- neither an escape nor what may follow it is a capital letter
      have hcap := inRange_iff.mp (syslog_starts hw)
      obtain rfl | hb := List.mem_cons.mp hb
      · exact absurd hcap (by decide)
      · obtain hin | rfl := htail b hb
        · have := inRange_iff.mp hin
          omega
        · exact absurd hcap (by decide)
  rw [hrest]
  exact (hdone.append syslog_noInner rest).beforeMatch

/-! ## Lines -/

/-- What is left of a line. -/
def renderLine (ended : Bool) (line : Bytes) : Bytes :=
  match syslog.beforeMatch (clean line) with
  | some front => front
  | none => clean line ++ if ended then [newline] else []

theorem lineView_renderLine (ended : Bool) (line : Bytes) :
    LineView ended line (renderLine ended line) := by
  unfold renderLine
  split
  · rename_i front hfront
    exact .record (removed_clean line) (beforeMatch_some hfront)
  · rename_i hnone
    exact .plain (removed_clean line) (beforeMatch_none hnone)

theorem LineView.eq {ended : Bool} {view : Bytes} (h : LineView ended line view) :
    view = renderLine ended line := by
  unfold renderLine
  cases h with
  | plain hclean hnone => rw [clean_eq hclean, hnone.beforeMatch]
  | record hclean hfirst => rw [clean_eq hclean, hfirst.beforeMatch]

theorem length_clean_le (l : Bytes) : (clean l).length ≤ l.length := (removed_clean l).length_le

theorem length_renderLine_le (ended : Bool) (line : Bytes) :
    (renderLine ended line).length ≤ line.length + (if ended then 1 else 0) := by
  have hclean := length_clean_le line
  unfold renderLine
  split
  · rename_i hfront
    have := (beforeMatch_some hfront).length_le
    omega
  · cases ended
    · simpa using hclean
    · simpa using hclean

/-- What is left of ended lines. -/
def renderLines (parts : List Bytes) : Bytes := parts.flatMap (renderLine true)

def joinLines (parts : List Bytes) (last : Bytes) : Bytes :=
  parts.flatMap (· ++ [newline]) ++ last

theorem length_renderLines_le (parts : List Bytes) (last : Bytes) :
    (renderLines parts).length + last.length ≤ (joinLines parts last).length := by
  unfold renderLines joinLines
  induction parts with
  | nil => simp
  | cons part parts ih =>
    have hpart := length_renderLine_le true part
    simp only [List.flatMap_cons, List.length_append, List.length_singleton, if_true] at ih hpart ⊢
    omega

theorem splitNewlines_cons (b : UInt8) (data : Bytes) :
    splitNewlines (b :: data) =
      if b = newline then ([] :: (splitNewlines data).1, (splitNewlines data).2)
      else
        match (splitNewlines data).1 with
        | [] => ([], b :: (splitNewlines data).2)
        | part :: parts => ((b :: part) :: parts, (splitNewlines data).2) := rfl

/-- A line and a newline in front of a text are its first part. -/
theorem splitNewlines_line (hline : newline ∉ line) (data : Bytes) :
    splitNewlines (line ++ newline :: data) =
      (line :: (splitNewlines data).1, (splitNewlines data).2) := by
  induction line with
  | nil => rw [List.nil_append, splitNewlines_cons, if_pos rfl]
  | cons b line ih =>
    obtain ⟨hb, hline⟩ := not_or.mp (List.mem_cons.not.mp hline)
    rw [List.cons_append, splitNewlines_cons, if_neg (Ne.symm hb), ih hline]

theorem splitNewlines_last (hline : newline ∉ line) : splitNewlines line = ([], line) := by
  induction line with
  | nil => rfl
  | cons b line ih =>
    obtain ⟨hb, hline⟩ := not_or.mp (List.mem_cons.not.mp hline)
    rw [splitNewlines_cons, if_neg (Ne.symm hb), ih hline]

/-- A text ends in its first newline or goes on behind it: the induction over its lines. -/
theorem lines_induction {motive : Bytes → Prop} (last : ∀ line, newline ∉ line → motive line)
    (ended : ∀ line rest, newline ∉ line → motive rest → motive (line ++ newline :: rest))
    (data : Bytes) : motive data := by
  by_cases h : newline ∈ data
  · obtain ⟨line, rest, rfl, hline⟩ := List.eq_append_cons_of_mem h
    exact ended line rest hline (lines_induction last ended rest)
  · exact last data h
  termination_by data.length
  decreasing_by
    rename_i heq
    rw [heq, List.length_append, List.length_cons]
    omega

theorem newline_not_mem_last (data : Bytes) : newline ∉ (splitNewlines data).2 := by
  induction data using lines_induction with
  | last line hline => rwa [splitNewlines_last hline]
  | ended line rest hline ih => rwa [splitNewlines_line hline]

theorem joinLines_splitNewlines (data : Bytes) :
    joinLines (splitNewlines data).1 (splitNewlines data).2 = data := by
  induction data using lines_induction with
  | last line hline => rw [splitNewlines_last hline]; rfl
  | ended line rest hline ih =>
    rw [splitNewlines_line hline]
    show line ++ [newline] ++ _ ++ _ = _
    rw [List.append_assoc, List.append_assoc]
    exact congrArg (line ++ newline :: ·) ih

/-- A longer text has the parts of the text, and those of its last line with what comes. -/
theorem splitNewlines_append (t d : Bytes) :
    splitNewlines (t ++ d) =
      ((splitNewlines t).1 ++ (splitNewlines ((splitNewlines t).2 ++ d)).1,
        (splitNewlines ((splitNewlines t).2 ++ d)).2) := by
  induction t using lines_induction with
  | last line hline => rw [splitNewlines_last hline]; rfl
  | ended line rest hline ih =>
    rw [List.append_assoc, List.cons_append, splitNewlines_line hline, splitNewlines_line hline, ih]
    rfl

theorem splitNewlines_append_nil {r d : Bytes} (hr : newline ∉ r)
    (h : (splitNewlines d).1 = []) : splitNewlines (r ++ d) = ([], r ++ (splitNewlines d).2) := by
  induction d using lines_induction with
  | last line hline =>
    rw [splitNewlines_last hline]
    exact splitNewlines_last (by simp [hr, hline])
  | ended line rest hline => rw [splitNewlines_line hline] at h; cases h

theorem splitNewlines_append_cons {r d part : Bytes} {parts : List Bytes} (hr : newline ∉ r)
    (h : (splitNewlines d).1 = part :: parts) :
    splitNewlines (r ++ d) = ((r ++ part) :: parts, (splitNewlines d).2) := by
  induction d using lines_induction with
  | last line hline => rw [splitNewlines_last hline] at h; cases h
  | ended line rest hline =>
    rw [splitNewlines_line hline] at h ⊢
    cases h
    rw [← List.append_assoc, splitNewlines_line (by simp [hr, hline])]

/-! ## The window of a text -/

/-- What is kept of the whole text. -/
def viewOf (t : Bytes) : Bytes :=
  renderLines (splitNewlines t).1 ++ renderLine false (splitNewlines t).2

/-- The window after ended lines and the beginning of another one. -/
def windowAt (control last : Bytes) : PshResponse :=
  match syslog.beforeMatch (clean last) with
  | some front => { pending := [], control := control ++ front, droppingLog := true }
  | none => { pending := last, control, droppingLog := false }

/-- The window after a text. -/
def windowOf (t : Bytes) : PshResponse :=
  windowAt (renderLines (splitNewlines t).1) (splitNewlines t).2

theorem viewOf_last (hline : newline ∉ line) : viewOf line = renderLine false line := by
  rw [viewOf, splitNewlines_last hline]
  rfl

theorem viewOf_line (hline : newline ∉ line) (rest : Bytes) :
    viewOf (line ++ newline :: rest) = renderLine true line ++ viewOf rest := by
  rw [viewOf, splitNewlines_line hline]
  exact List.append_assoc _ _ _

theorem responseView_viewOf (t : Bytes) : ResponseView t (viewOf t) := by
  induction t using lines_induction with
  | last line hline =>
    rw [viewOf_last hline]
    exact .last hline (lineView_renderLine false line)
  | ended line rest hline ih =>
    rw [viewOf_line hline]
    exact .line hline (lineView_renderLine true line) ih

theorem ResponseView.eq {t v : Bytes} (h : ResponseView t v) : v = viewOf t := by
  induction h with
  | last hline hview => rw [viewOf_last hline, hview.eq]
  | line hline hview hrest ih => rw [viewOf_line hline, ih, hview.eq]

theorem length_viewOf_le (t : Bytes) : (viewOf t).length ≤ t.length := by
  have hlines := length_renderLines_le (splitNewlines t).1 (splitNewlines t).2
  have hlast := length_renderLine_le false (splitNewlines t).2
  rw [joinLines_splitNewlines] at hlines
  unfold viewOf
  simp only [List.length_append, Bool.false_eq_true, if_false] at hlast ⊢
  omega

theorem lastBytes_eq {data : Bytes} (h : data.length ≤ windowSize) : lastBytes data = data := by
  unfold lastBytes
  rw [Nat.sub_eq_zero_of_le h, List.drop_zero]

theorem feedLine_eq {control part pending : Bytes}
    (hsize : (control ++ renderLine true part).length ≤ windowSize) :
    PshResponse.feedLine { pending, control, droppingLog := false } part =
      { pending, control := control ++ renderLine true part, droppingLog := false } := by
  unfold renderLine at hsize ⊢
  simp only [PshResponse.feedLine, Bool.false_eq_true, if_false]
  cases hmatch : syslog.beforeMatch (clean part) with
  | some front =>
    simp only [hmatch] at hsize ⊢
    rw [lastBytes_eq hsize]
  | none =>
    simp only [hmatch, if_true] at hsize ⊢
    rw [lastBytes_eq hsize]

/-- Ended lines are taken one after the other, as long as the window has room. -/
theorem foldl_feedLine {pending : Bytes} (parts : List Bytes) (control : Bytes)
    (hsize : (control ++ renderLines parts).length ≤ windowSize) :
    parts.foldl PshResponse.feedLine { pending, control, droppingLog := false } =
      { pending, control := control ++ renderLines parts, droppingLog := false } := by
  induction parts generalizing control with
  | nil => simp [renderLines]
  | cons part parts ih =>
    have hcons : renderLines (part :: parts) = renderLine true part ++ renderLines parts := rfl
    rw [hcons, ← List.append_assoc] at hsize ⊢
    rw [List.foldl_cons, feedLine_eq, ih _ hsize]
    rw [List.length_append] at hsize
    omega

theorem feedPending_eq {control last : Bytes} (hlast : last.length ≤ windowSize)
    (hsize : (control ++ renderLine false last).length ≤ windowSize) :
    PshResponse.feedPending { pending := last, control, droppingLog := false } =
      windowAt control last := by
  unfold renderLine at hsize
  simp only [PshResponse.feedPending, windowAt, Bool.false_eq_true, if_false]
  cases hmatch : syslog.beforeMatch (clean last) with
  | some front =>
    simp only [hmatch] at hsize ⊢
    rw [lastBytes_eq hsize]
  | none => simp only [if_neg (Nat.not_lt.mpr hlast)]

theorem feedPending_dropping {control last : Bytes} :
    PshResponse.feedPending { pending := last, control, droppingLog := true } =
      { pending := [], control, droppingLog := true } := rfl

theorem length_last_le (t : Bytes) : (splitNewlines t).2.length ≤ t.length := by
  have hlines := length_renderLines_le (splitNewlines t).1 (splitNewlines t).2
  rw [joinLines_splitNewlines] at hlines
  omega

theorem feed_eq (s : PshResponse) (d : Bytes) :
    s.feed d = ((splitNewlines (s.pending ++ d)).1.foldl PshResponse.feedLine
      { s with pending := (splitNewlines (s.pending ++ d)).2 }).feedPending := rfl

/-- The window of a longer text, from ended lines and a line that is not a record so far. -/
theorem feed_windowAt_none {control last : Bytes} (d : Bytes)
    (hnone : syslog.beforeMatch (clean last) = none)
    (hlast : (last ++ d).length ≤ windowSize)
    (hsize : (control ++ viewOf (last ++ d)).length ≤ windowSize) :
    (windowAt control last).feed d =
      windowAt (control ++ renderLines (splitNewlines (last ++ d)).1)
        (splitNewlines (last ++ d)).2 := by
  have hwindow : windowAt control last = { pending := last, control, droppingLog := false } := by
    unfold windowAt
    rw [hnone]
  unfold viewOf at hsize
  rw [← List.append_assoc] at hsize
  rw [hwindow, feed_eq, foldl_feedLine, feedPending_eq _ hsize]
  · exact Nat.le_trans (length_last_le _) hlast
  · rw [List.length_append] at hsize
    exact Nat.le_trans (Nat.le_add_right _ _) hsize

/-- The window of a longer text, from ended lines and the beginning of a record. -/
theorem feed_windowAt_some {control last front : Bytes} (d : Bytes) (hline : newline ∉ last)
    (hsome : syslog.beforeMatch (clean last) = some front)
    (hlast : (last ++ d).length ≤ windowSize)
    (hsize : (control ++ viewOf (last ++ d)).length ≤ windowSize) :
    (windowAt control last).feed d =
      windowAt (control ++ renderLines (splitNewlines (last ++ d)).1)
        (splitNewlines (last ++ d)).2 := by
  have hwindow : windowAt control last =
      { pending := [], control := control ++ front, droppingLog := true } := by
    unfold windowAt
    rw [hsome]
  have hlonger (x : Bytes) : syslog.beforeMatch (clean (last ++ x)) = some front :=
    beforeMatch_clean_append hsome x
  rw [hwindow, feed_eq, List.nil_append]
  unfold viewOf at hsize
  cases hparts : (splitNewlines d).1 with
  | nil =>
    rw [splitNewlines_append_nil hline hparts, List.foldl_nil, feedPending_dropping, windowAt, hlonger]
    simp [renderLines]
  | cons part parts =>
    have hcut := splitNewlines_append_cons hline hparts
    have hrender : renderLine true (last ++ part) = front := by
      unfold renderLine
      rw [hlonger]
    have hlines : renderLines ((last ++ part) :: parts) = front ++ renderLines parts := by
      show renderLine true (last ++ part) ++ renderLines parts = _
      rw [hrender]
    have htail := length_last_le (last ++ d)
    rw [hcut] at hsize htail ⊢
    rw [hlines] at hsize ⊢
    simp only [← List.append_assoc] at hsize ⊢
    show (parts.foldl PshResponse.feedLine
      { pending := _, control := control ++ front, droppingLog := false }).feedPending = _
    rw [foldl_feedLine, feedPending_eq _ hsize]
    · exact Nat.le_trans htail hlast
    · rw [List.length_append] at hsize
      omega

/-- A chunk takes the window of a text to the window of the longer text. -/
theorem feed_windowOf (t d : Bytes) (hsize : (t ++ d).length ≤ windowSize) :
    (windowOf t).feed d = windowOf (t ++ d) := by
  have hcut := splitNewlines_append t d
  have hview : renderLines (splitNewlines t).1 ++ viewOf ((splitNewlines t).2 ++ d) =
      viewOf (t ++ d) := by
    unfold viewOf renderLines
    rw [hcut, List.flatMap_append, List.append_assoc]
  have hlast : ((splitNewlines t).2 ++ d).length ≤ windowSize := by
    have := length_last_le t
    rw [List.length_append] at hsize ⊢
    omega
  have hroom : (renderLines (splitNewlines t).1 ++
      viewOf ((splitNewlines t).2 ++ d)).length ≤ windowSize := by
    rw [hview]
    exact Nat.le_trans (length_viewOf_le _) hsize
  have hwindow : windowOf (t ++ d) =
      windowAt (renderLines (splitNewlines t).1 ++
        renderLines (splitNewlines ((splitNewlines t).2 ++ d)).1)
        (splitNewlines ((splitNewlines t).2 ++ d)).2 := by
    unfold windowOf renderLines
    rw [hcut, List.flatMap_append]
  rw [hwindow]
  cases hmatch : syslog.beforeMatch (clean (splitNewlines t).2) with
  | none => exact feed_windowAt_none d hmatch hlast hroom
  | some front => exact feed_windowAt_some d (newline_not_mem_last t) hmatch hlast hroom

theorem feedAll_eq (chunks : List Bytes) (hsize : chunks.flatten.length ≤ windowSize) :
    PshResponse.feedAll chunks = windowOf chunks.flatten := by
  induction chunks using List.reverseRecOn with
  | nil => rfl
  | append_singleton chunks chunk ih =>
    have hflat : (chunks ++ [chunk]).flatten = chunks.flatten ++ chunk := by simp
    rw [hflat] at hsize ⊢
    have hbefore : chunks.flatten.length ≤ windowSize := by
      rw [List.length_append] at hsize
      omega
    rw [← feed_windowOf _ _ hsize, ← ih hbefore]
    exact List.foldl_concat _ _ _ _

theorem data_windowOf (t : Bytes) (hsize : t.length ≤ windowSize) :
    (windowOf t).data = viewOf t := by
  have hview : (viewOf t).length ≤ windowSize := Nat.le_trans (length_viewOf_le t) hsize
  have heq : (windowOf t).control ++ clean (windowOf t).pending = viewOf t := by
    unfold windowOf windowAt viewOf renderLine
    split
    · exact List.append_nil _
    · simp
  rw [PshResponse.data, heq, lastBytes_eq hview]

theorem viewOf_plain {t : Bytes} (hansi : NoMatch ansi t) (hsyslog : NoMatch syslog t) :
    viewOf t = t := by
  have hline (ended : Bool) {line : Bytes} (hansi : NoMatch ansi line)
      (hsyslog : NoMatch syslog line) :
      renderLine ended line = line ++ if ended then [newline] else [] := by
    unfold renderLine
    rw [clean_eq hansi.removed, hsyslog.beforeMatch]
  have hlast {u v line : Bytes} {r : Pattern UInt8} (h : NoMatch r (u ++ (line ++ v))) :
      NoMatch r line := h.of_append
  induction t using lines_induction with
  | last line hnot =>
    rw [viewOf_last hnot]
    exact (hline false hansi hsyslog).trans (List.append_nil _)
  | ended line rest hnot ih =>
    have hrest {r : Pattern UInt8} (h : NoMatch r (line ++ newline :: rest)) : NoMatch r rest := by
      refine @hlast (line ++ [newline]) [] rest r ?_
      simpa using h
    rw [viewOf_line hnot, ih (hrest hansi) (hrest hsyslog),
      hline true (@hlast [] _ line _ hansi) (@hlast [] _ line _ hsyslog), if_pos rfl,
      List.append_assoc]
    rfl

/-- However a response that fits the window is cut into chunks, the window keeps the same of it:
each line without its control sequences, and of a line with a log record what stands before the
record. A response without records and control sequences is kept as it is. -/
theorem psh_view_exact (chunks : List Bytes) (hsize : chunks.flatten.length ≤ windowSize) :
    (PshResponse.feedAll chunks).data = (PshResponse.feedAll [chunks.flatten]).data ∧
      (∀ view, ResponseView chunks.flatten view ↔ view = (PshResponse.feedAll chunks).data) ∧
      (NoMatch ansi chunks.flatten → NoMatch syslog chunks.flatten →
        (PshResponse.feedAll chunks).data = chunks.flatten) := by
  have hwhole : [chunks.flatten].flatten = chunks.flatten := List.flatten_singleton
  have hone : PshResponse.feedAll [chunks.flatten] = windowOf chunks.flatten := by
    rw [feedAll_eq _ (by rwa [hwhole]), hwhole]
  rw [hone, feedAll_eq chunks hsize, data_windowOf _ hsize]
  refine ⟨rfl, fun view => ⟨ResponseView.eq, ?_⟩, viewOf_plain⟩
  rintro rfl
  exact responseView_viewOf _

/-- A response in two chunks, with a control sequence cut in the middle. -/
theorem psh_view_exact_cut :
    (PshResponse.feedAll [[0x61, 0x1b, 0x5b], [0x6d, 0x62]]).data =
      (PshResponse.feedAll [[0x61, 0x1b, 0x5b, 0x6d, 0x62]]).data :=
  (psh_view_exact [[0x61, 0x1b, 0x5b], [0x6d, 0x62]] (by decide +kernel)).1

/-- A response without any log record is not kept as it is: control sequences go too. -/
theorem control_sequence_removed :
    NoMatch syslog [0x1b, 0x5b, 0x30, 0x6d] ∧
      (PshResponse.feedAll [[0x1b, 0x5b, 0x30, 0x6d]]).data ≠ [0x1b, 0x5b, 0x30, 0x6d] :=
  ⟨beforeMatch_none (by decide), by decide +kernel⟩

end CameraLogs.Collection

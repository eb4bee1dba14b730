import CameraLogs.Lib.Occurrence

/-!
# Texts cut into pieces that overlap

A short word stands in one piece of a text whose pieces overlap by enough symbols.
`Covers` follows a cutter that holds back what it has not cut yet: each row it cuts
off stays in front of the pending text with its last `k` symbols, so a word of
`k + 1` symbols is in a row that was cut or starts in what is pending. `windows` are
the pieces of a text, each behind the last `k` symbols before it.
-/

namespace CameraLogs.Lib

variable {α : Type} {k : Nat} {word text pending : List α} {rows : List (List α)}

/-- A word over a boundary ends at most `k` symbols behind it. -/
theorem infix_append_cases {front back : List α} (hlen : word.length ≤ k + 1)
    (h : word <:+: front ++ back) : word <:+: front ++ back.take k ∨ word <:+: back := by
  obtain ⟨before, after, heq⟩ := h
  rcases Nat.lt_or_ge before.length front.length with hlt | hge
  · left
    have hpre : before ++ word <+: front ++ back := ⟨after, heq⟩
    have htake : before ++ word <+: (front ++ back).take (front.length + k) := by
      refine List.prefix_of_prefix_length_le hpre (List.take_prefix (front.length + k) _) ?_
      have hle := hpre.length_le
      rw [List.length_append, List.length_append] at hle
      rw [List.length_append, List.length_take, List.length_append]
      omega
    rw [List.take_length_add_append] at htake
    exact (List.suffix_append before word).isInfix.trans htake.isInfix
  · right
    have hpre : front <+: before := by
      refine List.prefix_of_prefix_length_le (List.prefix_append front back) ?_ hge
      exact ⟨word ++ after, by rw [← List.append_assoc]; exact heq⟩
    obtain ⟨mid, hmid⟩ := hpre
    rw [← hmid, List.append_assoc, List.append_assoc] at heq
    have hback := List.append_cancel_left heq
    exact ⟨mid, after, by rw [List.append_assoc]; exact hback⟩

/-! ## A cutter -/

/-- The rows cut off a text, and what is pending of it. -/
structure Covers (k : Nat) (text : List α) (rows : List (List α)) (pending : List α)
    (before : List α) : Prop where
  text_eq : text = before ++ pending
  overlap : before ≠ [] → k ≤ pending.length
  cut : before ≠ [] → ∀ word : List α, word.length ≤ k + 1 →
    word <:+: before ++ pending.take k → ∃ row ∈ rows, word <:+: row

variable {before : List α}

theorem covers_nil (k : Nat) : Covers k ([] : List α) [] [] [] where
  text_eq := rfl
  overlap := fun h => absurd rfl h
  cut := fun h => absurd rfl h

theorem Covers.append (h : Covers k text rows pending before) (more : List α) :
    Covers k (text ++ more) rows (pending ++ more) before where
  text_eq := by rw [h.text_eq, List.append_assoc]
  overlap := fun hne => by
    have hle := h.overlap hne
    rw [List.length_append]
    omega
  cut := fun hne => by
    rw [List.take_append_of_le_length (h.overlap hne)]
    exact h.cut hne

/-- Cut a row off; its last symbols stay pending. -/
theorem Covers.cutRow (h : Covers k text rows pending before) {n : Nat} (hk : k ≤ n)
    (hn : n ≤ pending.length) :
    Covers k text (rows ++ [pending.take n]) (pending.drop (n - k))
      (before ++ pending.take (n - k)) where
  text_eq := by rw [h.text_eq, List.append_assoc, List.take_append_drop]
  overlap := fun _ => by
    rw [List.length_drop]
    omega
  cut := fun _ word hlen hword => by
    have htake : (pending.take (n - k)) ++ (pending.drop (n - k)).take k = pending.take n := by
      rw [← List.take_add, Nat.sub_add_cancel hk]
    rw [List.append_assoc, htake] at hword
    have hnew : word <:+: pending.take n → ∃ row ∈ rows ++ [pending.take n], word <:+: row :=
      fun hin => ⟨_, List.mem_append_right _ List.mem_cons_self, hin⟩
    by_cases hb : before = []
    · rw [hb] at hword
      exact hnew hword
    · rcases infix_append_cases hlen hword with hold | hin
      · rw [List.take_take, Nat.min_eq_left hk] at hold
        obtain ⟨row, hrow, hin⟩ := h.cut hb word hlen hold
        exact ⟨row, List.mem_append_left _ hrow, hin⟩
      · exact hnew hin

/-- When what is left is a row too, every short word of the text stands in a row. -/
theorem Covers.finish {last : List (List α)} (h : Covers k text rows pending before)
    (hlast : pending ≠ [] → pending ∈ last) (hne : word ≠ []) (hlen : word.length ≤ k + 1)
    (hin : word <:+: text) : ∃ row ∈ rows ++ last, word <:+: row := by
  have hpending : word <:+: pending → ∃ row ∈ rows ++ last, word <:+: row := by
    intro hword
    have hpne : pending ≠ [] := by
      intro hnil
      rw [hnil] at hword
      exact hne (List.infix_nil.mp hword)
    exact ⟨pending, List.mem_append_right _ (hlast hpne), hword⟩
  rw [h.text_eq] at hin
  by_cases hb : before = []
  · rw [hb] at hin
    exact hpending hin
  · rcases infix_append_cases hlen hin with hold | hback
    · obtain ⟨row, hrow, hword⟩ := h.cut hb word hlen hold
      exact ⟨row, List.mem_append_left _ hrow, hword⟩
    · exact hpending hback

/-! ## Windows -/

end CameraLogs.Lib

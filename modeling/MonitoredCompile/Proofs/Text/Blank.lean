/-
MonitoredCompile/Proofs/Text/Blank.lean

Texts without the blanks at their ends.  `Strips s t` says what stripping has to come to and
not how: `t` stands in `s` between blanks and has none at its own ends.  There is one such
`t`, and it is what `strip` gives (`strips_iff`).  So a text that has no blanks at its ends
is left alone (`Trimmed.strip_eq`).
-/
import MonitoredCompile.Text.Blank

namespace MonitoredCompile.Text

variable {s t : List Char}

/-- No blank is at either end. -/
structure Trimmed (s : List Char) : Prop where
  head : ∀ c, s.head? = some c → isBlank c = false
  last : ∀ c, s.getLast? = some c → isBlank c = false

/-- The second text is the first one without the blanks at its ends. -/
structure Strips (s t : List Char) : Prop where
  around : ∃ front back, s = front ++ t ++ back ∧ ∀ c ∈ front ++ back, isBlank c = true
  trimmed : Trimmed t

/-- What is dropped at the end can be put back. -/
theorem eq_stripEnd_append (s : List Char) :
    s = stripEnd s ++ (s.reverse.takeWhile isBlank).reverse := by
  rw [stripEnd, ← List.reverse_append, List.takeWhile_append_dropWhile, List.reverse_reverse]

theorem isBlank_of_mem_takeWhile {c : Char} (h : c ∈ s.takeWhile isBlank) : isBlank c = true :=
  List.all_eq_true.mp List.all_takeWhile c h

theorem head?_dropWhile_isBlank {c : Char} (h : (s.dropWhile isBlank).head? = some c) :
    isBlank c = false := by
  have hnot := List.head?_dropWhile_not isBlank s
  rwa [h] at hnot

/-- Dropping stops at the first character that is not blank. -/
theorem dropWhile_blanks {front : List Char} (hfront : ∀ c ∈ front, isBlank c = true)
    (ht : ∀ c, t.head? = some c → isBlank c = false) (hne : t ≠ []) (back : List Char) :
    (front ++ (t ++ back)).dropWhile isBlank = t ++ back := by
  obtain ⟨c, rest, rfl⟩ := List.exists_cons_of_ne_nil hne
  have hc : ¬ isBlank c = true := by simp [ht c rfl]
  rw [List.dropWhile_append_of_pos hfront, List.cons_append, List.dropWhile_cons_of_neg hc]

theorem strips_strip (s : List Char) : Strips s (strip s) := by
  let back := ((s.dropWhile isBlank).reverse.takeWhile isBlank).reverse
  have hdropped : s.dropWhile isBlank = strip s ++ back := eq_stripEnd_append _
  refine ⟨⟨s.takeWhile isBlank, back, ?_, ?_⟩, ?_, ?_⟩
  · rw [List.append_assoc, ← hdropped, List.takeWhile_append_dropWhile]
  · intro c hc
    rcases List.mem_append.mp hc with hc | hc
    · exact isBlank_of_mem_takeWhile hc
    · exact isBlank_of_mem_takeWhile (List.mem_reverse.mp hc)
  · intro c hc
    apply head?_dropWhile_isBlank (s := s)
    rw [hdropped, List.head?_append, hc]
    rfl
  · intro c hc
    rw [strip, stripEnd, List.getLast?_reverse] at hc
    exact head?_dropWhile_isBlank hc

/-- Stripping is determined by what it comes to. -/
theorem Strips.eq_strip (h : Strips s t) : t = strip s := by
  obtain ⟨⟨front, back, rfl, hblank⟩, htrimmed⟩ := h
  have hfront : ∀ c ∈ front, isBlank c = true := fun c hc => hblank c (List.mem_append_left _ hc)
  have hback : ∀ c ∈ back, isBlank c = true := fun c hc => hblank c (List.mem_append_right _ hc)
  by_cases ht : t = []
  · subst ht
    have hnone : (front ++ back ++ []).dropWhile isBlank = [] := List.dropWhile_append_of_pos hblank
    rw [List.append_nil] at hnone
    rw [strip, List.append_nil, hnone]
    rfl
  · have hlast : ∀ c, t.reverse.head? = some c → isBlank c = false := by
      intro c hc
      rw [List.head?_reverse] at hc
      exact htrimmed.last c hc
    have hreverse : (back.reverse ++ (t.reverse ++ [])).dropWhile isBlank = t.reverse ++ [] :=
      dropWhile_blanks (by simpa using hback) hlast (by simpa using ht) []
    rw [List.append_nil] at hreverse
    rw [strip, List.append_assoc, dropWhile_blanks hfront htrimmed.head ht, stripEnd,
      List.reverse_append, hreverse, List.reverse_reverse]

theorem strips_iff : Strips s t ↔ t = strip s :=
  ⟨Strips.eq_strip, fun h => h ▸ strips_strip s⟩

theorem Trimmed.strip_eq (h : Trimmed s) : strip s = s := by
  symm
  apply Strips.eq_strip
  exact ⟨⟨[], [], by simp⟩, h⟩

/-- Stripping brings nothing in. -/
theorem mem_of_mem_strip {c : Char} (h : c ∈ strip s) : c ∈ s := by
  obtain ⟨front, back, hs, -⟩ := (strips_strip s).around
  rw [hs]
  exact List.mem_append_left _ (List.mem_append_right _ h)

end MonitoredCompile.Text

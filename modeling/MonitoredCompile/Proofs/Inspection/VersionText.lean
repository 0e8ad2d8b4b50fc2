/-
MonitoredCompile/Proofs/Inspection/VersionText.lean

One line of a version text, chosen by its number (`lineOf_chooses`).  The lines are those of
the text without the blanks around it, and a negative number counts back from the last one.
Only a number before the first line fails: one after the last line means the last.

What is chosen is one line without blanks around it, so choosing from it again changes
nothing, whatever the number is.
-/
import MonitoredCompile.Inspection
import MonitoredCompile.Proofs.Text.Blank
import MonitoredCompile.Proofs.Text.Lines

namespace MonitoredCompile.Inspection

open Attempt (exec exec_bind exec_pure)
open Text (Strips Trimmed)

/-! ### Choosing by number -/

section

variable {α : Type} {items : List α} {n : Int} {a : α}

/-- The element that a number chooses: counted on from the first, or back from the end, or
the last one if there are fewer. -/
inductive Chooses (n : Int) (items : List α) (a : α) : Prop
  | fromFirst (before after : List α) :
      items = before ++ a :: after → n = before.length → Chooses n items a
  | fromEnd (before after : List α) :
      items = before ++ a :: after → n = -((after.length : Int) + 1) → Chooses n items a
  | last (before : List α) :
      items = before ++ [a] → (items.length : Int) ≤ n → Chooses n items a

theorem eq_take_append_cons {i : Nat} (h : items[i]? = some a) :
    items = items.take i ++ a :: items.drop (i + 1) := by
  obtain ⟨hi, rfl⟩ := List.getElem?_eq_some_iff.mp h
  rw [List.getElem_cons_drop, List.take_append_drop]

theorem elementAt?_eq_none (h : n < -(items.length : Int)) : elementAt? items n = none := by
  have hneg : n < 0 := by omega
  have hbefore : (items.length : Int) + n < 0 := by omega
  rw [elementAt?, if_pos hneg, if_pos hbefore]

theorem exists_elementAt? (hne : items ≠ []) (h : -(items.length : Int) ≤ n) :
    ∃ a, elementAt? items n = some a ∧ Chooses n items a := by
  have hthere {i : Nat} (hi : i < items.length) : ∃ a, items[i]? = some a :=
    ⟨items[i], List.getElem?_eq_getElem hi⟩
  rw [elementAt?]
  by_cases hneg : n < 0
  · have hnot : ¬ (items.length : Int) + n < 0 := by omega
    rw [if_pos hneg, if_neg hnot]
    obtain ⟨a, ha⟩ := hthere (i := ((items.length : Int) + n).toNat) (by omega)
    refine ⟨a, ha, .fromEnd _ _ (eq_take_append_cons ha) ?_⟩
    rw [List.length_drop]
    omega
  · rw [if_neg hneg]
    by_cases hlt : n < items.length
    · rw [if_pos hlt]
      obtain ⟨a, ha⟩ := hthere (i := n.toNat) (by omega)
      refine ⟨a, ha, .fromFirst _ _ (eq_take_append_cons ha) ?_⟩
      rw [List.length_take]
      omega
    · rw [if_neg hlt, List.getLast?_eq_some_getLast hne]
      exact ⟨_, rfl, .last _ (List.dropLast_concat_getLast hne).symm (by omega)⟩

end

/-! ### The lines of a text -/

/-- These are the lines of the text without the blanks around it. -/
structure LinesOf (text : List Char) (lines : List (List Char)) : Prop where
  strips : Strips text (Text.glue ['\n'] lines)
  unbroken : ∀ line ∈ lines, '\n' ∉ line
  ne_nil : lines ≠ []

theorem linesOf_iff {text : List Char} {lines : List (List Char)} :
    LinesOf text lines ↔ lines = Text.cut '\n' (Text.strip text) := by
  constructor
  · intro h
    rw [← h.strips.eq_strip, Text.cut_glue h.ne_nil h.unbroken]
  · rintro rfl
    refine ⟨?_, fun line hline => Text.separator_not_mem_cut hline, Text.cut_ne_nil _ _⟩
    rw [Text.glue_cut]
    exact Text.strips_strip text

theorem exec_lineOf {text : String} (hne : text ≠ "") (n : Int) (h : Host) :
    exec (lineOf text n) h =
      match elementAt? (Text.cut '\n' (Text.strip text.toList)) n with
      | none => (.error .lineOutOfRange, h)
      | some line => (.ok (String.ofList (Text.strip line)), h) := by
  rw [lineOf, if_neg hne]
  cases elementAt? (Text.cut '\n' (Text.strip text.toList)) n <;> rfl

theorem exec_lineOf_empty (n : Int) (h : Host) : exec (lineOf "" n) h = (.ok "", h) := rfl

/-! ### One line -/

/-- One line, without blanks around it. -/
structure IsLine (line : List Char) : Prop where
  unbroken : '\n' ∉ line
  trimmed : Trimmed line

/-- Whatever comes of choosing is one line. -/
theorem isLine_of_lineOf {text line : String} {n : Int} {h : Host}
    (hok : (exec (lineOf text n) h).1 = .ok line) : IsLine line.toList := by
  by_cases hempty : text = ""
  · subst hempty
    rw [exec_lineOf_empty] at hok
    cases hok
    exact ⟨by simp, by simp, by simp⟩
  · rw [exec_lineOf hempty] at hok
    split at hok
    · cases hok
    · next piece hpiece =>
      cases hok
      rw [String.toList_ofList]
      refine ⟨fun hmem => ?_, (Text.strips_strip piece).trimmed⟩
      have hin : piece ∈ Text.cut '\n' (Text.strip text.toList) := by
        rw [elementAt?] at hpiece
        split at hpiece
        · split at hpiece
          · cases hpiece
          · exact List.mem_of_getElem? hpiece
        · split at hpiece
          · exact List.mem_of_getElem? hpiece
          · exact List.mem_of_getLast? hpiece
      exact Text.separator_not_mem_cut hin (Text.mem_of_mem_strip hmem)

/-- The only line of a text is chosen by every number that is not negative. -/
theorem exec_lineOf_of_isLine {line : String} (hline : IsLine line.toList) {n : Int} (hn : 0 ≤ n)
    (h : Host) : exec (lineOf line n) h = (.ok line, h) := by
  by_cases hempty : line = ""
  · subst hempty
    exact exec_lineOf_empty n h
  · have hlast : elementAt? [line.toList] n = some line.toList := by
      obtain ⟨a, ha, hchooses⟩ := exists_elementAt? (List.cons_ne_nil line.toList [])
        (show -(([line.toList] : List (List Char)).length : Int) ≤ n by simp; omega)
      rw [ha]
      cases hchooses with
      | fromFirst before after hitems | fromEnd before after hitems =>
        exact congrArg some (List.mem_singleton.mp (by rw [hitems]; simp))
      | last before hitems => exact congrArg some (List.mem_singleton.mp (by rw [hitems]; simp))
    rw [exec_lineOf hempty, hline.trimmed.strip_eq, Text.cut_eq_singleton hline.unbroken, hlast]
    show (Except.ok (String.ofList (Text.strip line.toList)), h) = _
    rw [hline.trimmed.strip_eq, String.ofList_toList]

/-- **The line that is chosen.**  An empty text is its own line.  Any other has lines, and a
number chooses one of them, which comes without blanks around it, unless it counts back
beyond the first: that alone fails.  Choosing again from what was chosen gives the same. -/
theorem lineOf_chooses (text : String) (n : Int) (h : Host) :
    (text = "" → exec (lineOf text n) h = (.ok text, h)) ∧
      (text ≠ "" → ∃ lines, (∀ other, LinesOf text.toList other ↔ other = lines) ∧
        (n < -(lines.length : Int) → exec (lineOf text n) h = (.error .lineOutOfRange, h)) ∧
        (-(lines.length : Int) ≤ n → ∃ line result, Chooses n lines line ∧
          Strips line result.toList ∧ exec (lineOf text n) h = (.ok result, h))) ∧
      (∀ line, (exec (lineOf text n) h).1 = .ok line → '\n' ∉ line.toList ∧ Trimmed line.toList) ∧
      (0 ≤ n → ∀ m, 0 ≤ m →
        exec (lineOf text n >>= fun line => lineOf line m) h = exec (lineOf text n) h) := by
  refine ⟨?_, fun hne => ⟨_, fun _ => linesOf_iff, fun hbefore => ?_, fun hwithin => ?_⟩, ?_, ?_⟩
  · rintro rfl
    exact exec_lineOf_empty n h
  · rw [exec_lineOf hne, elementAt?_eq_none hbefore]
  · obtain ⟨line, hline, hchooses⟩ := exists_elementAt? (Text.cut_ne_nil _ _) hwithin
    refine ⟨line, String.ofList (Text.strip line), hchooses, ?_, ?_⟩
    · rw [String.toList_ofList]
      exact Text.strips_strip line
    · rw [exec_lineOf hne, hline]
  · intro line hok
    exact ⟨(isLine_of_lineOf hok).unbroken, (isLine_of_lineOf hok).trimmed⟩
  · intro _ m hm
    rw [exec_bind]
    rcases hrun : exec (lineOf text n) h with ⟨failure | line, h'⟩
    · rfl
    · dsimp only
      exact exec_lineOf_of_isLine (isLine_of_lineOf (congrArg Prod.fst hrun)) hm h'

end MonitoredCompile.Inspection

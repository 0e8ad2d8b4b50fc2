/-
MonitoredCompile/Proofs/Text/Lines.lean

Cutting at separators, and the lines of a text.  Cutting undoes gluing, and gluing cutting
(`cut_glue`, `glue_cut`).  A `Layout` is a way to write lines, of
which none is empty, with an end of any of the three kinds after each of them, but
maybe not after the last.  A text has at most one layout (`Layout.text_injective`), its
lines are those that are found in the text (`Layout.fileLines_text`), and a text has a
layout if and only if none of the lines found in it is empty (`Layout.exists_text_eq_iff`).
-/
import MonitoredCompile.Text.Lines

namespace MonitoredCompile.Text

/-! ### Cutting -/

theorem cut_ne_nil (separator : Char) (s : List Char) : cut separator s ≠ [] := by
  cases s with
  | nil => simp [cut]
  | cons c rest =>
    rw [cut]
    split
    · simp
    · cases cut separator rest <;> simp [consFirst]

theorem consFirst_append (c : Char) {pieces : List (List Char)} (h : pieces ≠ [])
    (more : List (List Char)) : consFirst c (pieces ++ more) = consFirst c pieces ++ more := by
  cases pieces with
  | nil => exact absurd rfl h
  | cons first rest => rfl

theorem cut_append (separator : Char) (a b : List Char) :
    cut separator (a ++ separator :: b) = cut separator a ++ cut separator b := by
  induction a with
  | nil => simp [cut]
  | cons c rest ih =>
    rw [List.cons_append, cut, cut, ih]
    split
    · rfl
    · exact consFirst_append c (cut_ne_nil separator rest) _

theorem cut_eq_singleton {separator : Char} {s : List Char} (h : separator ∉ s) :
    cut separator s = [s] := by
  induction s with
  | nil => rfl
  | cons c rest ih =>
    obtain ⟨hc, hrest⟩ := List.ne_and_not_mem_of_not_mem_cons h
    rw [cut, if_neg (Ne.symm hc), ih hrest]
    rfl

theorem glue_cons (separator piece : List Char) {pieces : List (List Char)} (h : pieces ≠ []) :
    glue separator (piece :: pieces) = piece ++ separator ++ glue separator pieces := by
  rw [glue]
  exact h

theorem glue_consFirst (separator : List Char) (c : Char) (pieces : List (List Char)) :
    glue separator (consFirst c pieces) = c :: glue separator pieces := by
  cases pieces with
  | nil => rfl
  | cons piece pieces =>
    by_cases h : pieces = []
    · subst h
      rfl
    · simp [consFirst, glue_cons separator _ h]

/-- What was cut can be glued together again. -/
theorem glue_cut (separator : Char) (s : List Char) : glue [separator] (cut separator s) = s := by
  induction s with
  | nil => rfl
  | cons c rest ih =>
    rw [cut]
    split
    · next hc => rw [glue_cons _ _ (cut_ne_nil separator rest), ih, hc]; rfl
    · rw [glue_consFirst, ih]

/-- There is one way to cut. -/
theorem cut_glue {separator : Char} {pieces : List (List Char)} (hne : pieces ≠ [])
    (h : ∀ piece ∈ pieces, separator ∉ piece) : cut separator (glue [separator] pieces) = pieces := by
  induction pieces with
  | nil => exact absurd rfl hne
  | cons piece rest ih =>
    obtain ⟨hpiece, hrest⟩ := List.forall_mem_cons.mp h
    by_cases hlast : rest = []
    · subst hlast
      exact cut_eq_singleton hpiece
    · rw [glue_cons _ _ hlast, List.append_assoc, List.singleton_append, cut_append,
        cut_eq_singleton hpiece, ih hlast hrest, List.singleton_append]

/-! ### One line after the other -/

theorem fileLines_concat (s : List Char) (c : Char) :
    fileLines (s ++ [c]) = if c = '\n' then cut '\n' s else cut '\n' (s ++ [c]) := by
  simp [fileLines]

/-- The first of several lines. -/
theorem fileLines_append {s : List Char} (h : '\n' ∉ s) (rest : List Char) :
    fileLines (s ++ '\n' :: rest) = s :: fileLines rest := by
  have hcut (rest : List Char) : cut '\n' (s ++ '\n' :: rest) = s :: cut '\n' rest := by
    rw [cut_append, cut_eq_singleton h]
    rfl
  rcases List.eq_nil_or_concat rest with rfl | ⟨init, last, rfl⟩
  · rw [fileLines_concat, if_pos rfl, cut_eq_singleton h]
    rfl
  · -- Both texts end in the same character.
    have hsplit : s ++ '\n' :: (init ++ [last]) = (s ++ '\n' :: init) ++ [last] := by simp
    rw [List.concat_eq_append, hsplit, fileLines_concat, fileLines_concat, ← hsplit, hcut, hcut]
    split <;> rfl

theorem fileLines_eq_singleton {s : List Char} (h : '\n' ∉ s) (hne : s ≠ []) :
    fileLines s = [s] := by
  have hlast : s.getLast? ≠ some '\n' := fun hlast => h (List.mem_of_getLast? hlast)
  rw [fileLines, if_neg hne, if_neg hlast, cut_eq_singleton h]

/-- No line ends in it. -/
def OneLine (s : List Char) : Prop := ∀ c ∈ s, c ≠ '\r' ∧ c ≠ '\n'

instance (s : List Char) : Decidable (OneLine s) :=
  List.decidableBAll (fun c => c ≠ '\r' ∧ c ≠ '\n') s

theorem OneLine.not_mem {s : List Char} (h : OneLine s) : '\n' ∉ s := fun hmem => (h _ hmem).2 rfl

theorem unifyLineEnds_cons {c : Char} (hc : c ≠ '\r') (rest : List Char) :
    unifyLineEnds (c :: rest) = c :: unifyLineEnds rest := by
  rw [unifyLineEnds]
  · rintro rest rfl -
    exact hc rfl
  · exact hc

/-- Nothing is changed within a line. -/
theorem unifyLineEnds_append {s : List Char} (h : OneLine s) (rest : List Char) :
    unifyLineEnds (s ++ rest) = s ++ unifyLineEnds rest := by
  induction s with
  | nil => rfl
  | cons c s ih =>
    obtain ⟨hc, hs⟩ := List.forall_mem_cons.mp h
    rw [List.cons_append, List.cons_append, unifyLineEnds_cons hc.1, ih hs]

/-! ### Layouts -/

/-- The ends that a line can have. -/
inductive LineEnd where
  | lf
  | crlf
  | cr
  deriving DecidableEq, Repr

def LineEnd.chars : LineEnd → List Char
  | lf => ['\n']
  | crlf => ['\r', '\n']
  | cr => ['\r']

/-- Every end is written as LF.  A CR is an end of its own unless an LF follows. -/
theorem unifyLineEnds_lineEnd (lineEnd : LineEnd) {rest : List Char} (h : rest.head? ≠ some '\n') :
    unifyLineEnds (lineEnd.chars ++ rest) = '\n' :: unifyLineEnds rest := by
  cases lineEnd with
  | lf => rfl
  | crlf => rfl
  | cr =>
    cases rest with
    | nil => rfl
    | cons c rest =>
      rw [LineEnd.chars, List.cons_append, List.nil_append, unifyLineEnds]
      rintro _ heq
      cases heq
      exact h rfl

/-- A line that is not empty, without its end. -/
@[ext]
structure Line where
  chars : List Char
  oneLine : OneLine chars
  nonempty : chars ≠ []

def Line.string (line : Line) : String := String.ofList line.chars

/-- Lines with their ends.  The last end may be missing. -/
inductive Layout where
  | empty
  | unended (line : Line)
  | ended (line : Line) (lineEnd : LineEnd) (rest : Layout)

namespace Layout

/-- The text that is laid out. -/
def text : Layout → List Char
  | empty => []
  | unended line => line.chars
  | ended line lineEnd rest => line.chars ++ (lineEnd.chars ++ rest.text)

def lines : Layout → List Line
  | empty => []
  | unended line => [line]
  | ended line _ rest => line :: rest.lines

theorem head?_text_ne (layout : Layout) : layout.text.head? ≠ some '\n' := by
  have hline (line : Line) (rest : List Char) : (line.chars ++ rest).head? ≠ some '\n' := by
    obtain ⟨chars, hone, hne⟩ := line
    cases chars with
    | nil => exact absurd rfl hne
    | cons c chars =>
      intro hhead
      exact (hone c List.mem_cons_self).2 (Option.some.inj hhead)
  cases layout with
  | empty => simp [text]
  | unended line => simpa [text] using hline line []
  | ended line lineEnd rest => exact hline line _

/-- The lines that are found in a text are those of its layout. -/
theorem fileLines_text (layout : Layout) :
    fileLines (unifyLineEnds layout.text) = layout.lines.map Line.chars := by
  induction layout with
  | empty => rfl
  | unended line =>
    have hunify := unifyLineEnds_append line.oneLine []
    rw [List.append_nil] at hunify
    rw [text, hunify, unifyLineEnds, List.append_nil,
      fileLines_eq_singleton line.oneLine.not_mem line.nonempty]
    rfl
  | ended line lineEnd rest ih =>
    rw [text, unifyLineEnds_append line.oneLine, unifyLineEnds_lineEnd lineEnd rest.head?_text_ne,
      fileLines_append line.oneLine.not_mem, ih]
    rfl

/-- The first line of a text, and how it ends. -/
theorem exists_first_line (s : List Char) : ∃ first, OneLine first ∧ (s = first ∨
    ∃ lineEnd rest, s = first ++ (LineEnd.chars lineEnd ++ rest) ∧
      unifyLineEnds (lineEnd.chars ++ rest) = '\n' :: unifyLineEnds rest) := by
  have hnone : OneLine [] := by simp [OneLine]
  induction s with
  | nil => exact ⟨[], hnone, .inl rfl⟩
  | cons c s ih =>
    by_cases hlf : c = '\n'
    · exact ⟨[], hnone, .inr ⟨.lf, s, by rw [hlf]; rfl, rfl⟩⟩
    by_cases hcr : c = '\r'
    · subst hcr
      by_cases hhead : s.head? = some '\n'
      · obtain ⟨rest, rfl⟩ := List.head?_eq_some_iff.mp hhead
        exact ⟨[], hnone, .inr ⟨.crlf, rest, rfl, rfl⟩⟩
      · exact ⟨[], hnone, .inr ⟨.cr, s, rfl, unifyLineEnds_lineEnd .cr hhead⟩⟩
    obtain ⟨first, hfirst, hrest⟩ := ih
    refine ⟨c :: first, List.forall_mem_cons.mpr ⟨⟨hcr, hlf⟩, hfirst⟩, ?_⟩
    rcases hrest with rfl | ⟨lineEnd, rest, rfl, hunify⟩
    · exact .inl rfl
    · exact .inr ⟨lineEnd, rest, rfl, hunify⟩

/-- A text that has no layout has an empty line. -/
theorem exists_or_nil_mem (s : List Char) :
    (∃ layout : Layout, layout.text = s) ∨ [] ∈ fileLines (unifyLineEnds s) := by
  obtain ⟨first, hfirst, hs | ⟨lineEnd, rest, hs, hunify⟩⟩ := exists_first_line s
  · by_cases hempty : first = []
    · exact .inl ⟨.empty, by rw [hs, hempty]; rfl⟩
    · exact .inl ⟨.unended ⟨first, hfirst, hempty⟩, hs.symm⟩
  · have hshort : rest.length < s.length := by
      have hend : 0 < lineEnd.chars.length := by cases lineEnd <;> simp [LineEnd.chars]
      rw [hs, List.length_append, List.length_append]
      omega
    rw [hs, unifyLineEnds_append hfirst, hunify, fileLines_append hfirst.not_mem]
    by_cases hempty : first = []
    · exact .inr (hempty ▸ List.mem_cons_self)
    rcases exists_or_nil_mem rest with ⟨layout, hlayout⟩ | hmem
    · exact .inl ⟨.ended ⟨first, hfirst, hempty⟩ lineEnd layout, by rw [text, hlayout]⟩
    · exact .inr (List.mem_cons_of_mem _ hmem)
termination_by s.length

theorem exists_text_eq_iff {s : List Char} :
    (∃ layout : Layout, layout.text = s) ↔ [] ∉ fileLines (unifyLineEnds s) := by
  constructor
  · rintro ⟨layout, rfl⟩ hmem
    rw [fileLines_text] at hmem
    obtain ⟨line, -, hempty⟩ := List.mem_map.mp hmem
    exact line.nonempty hempty
  · intro hnone
    exact (exists_or_nil_mem s).resolve_right hnone

/-! ### One layout -/

/-- Nothing, or the end of a line and what follows. -/
def StartsAtEnd (s : List Char) : Prop := ∀ c ∈ s.head?, c = '\r' ∨ c = '\n'

theorem startsAtEnd_lineEnd (lineEnd : LineEnd) (rest : List Char) :
    StartsAtEnd (lineEnd.chars ++ rest) := by
  cases lineEnd <;> simp [StartsAtEnd, LineEnd.chars]

/-- Where a line stops is told by its end. -/
theorem append_inj_of_oneLine {s s' rest rest' : List Char} (hs : OneLine s) (hs' : OneLine s')
    (hrest : StartsAtEnd rest) (hrest' : StartsAtEnd rest') (h : s ++ rest = s' ++ rest') :
    s = s' ∧ rest = rest' := by
  have hnone {s middle rest : List Char} (hline : OneLine (s ++ middle))
      (hend : StartsAtEnd (middle ++ rest)) : middle = [] := by
    cases middle with
    | nil => rfl
    | cons c middle =>
      have hc := hline c (by simp)
      rcases hend c rfl with hcr | hlf
      · exact absurd hcr hc.1
      · exact absurd hlf hc.2
  rcases List.append_eq_append_iff.mp h with ⟨middle, rfl, rfl⟩ | ⟨middle, rfl, rfl⟩
  · obtain rfl := hnone hs' hrest
    exact ⟨(List.append_nil s).symm, rfl⟩
  · obtain rfl := hnone hs hrest'
    exact ⟨List.append_nil s', rfl⟩

/-- A CR before an LF is never an end of its own. -/
theorem lineEnd_append_inj {lineEnd lineEnd' : LineEnd} {rest rest' : List Char}
    (hrest : rest.head? ≠ some '\n') (hrest' : rest'.head? ≠ some '\n')
    (h : lineEnd.chars ++ rest = lineEnd'.chars ++ rest') : lineEnd = lineEnd' ∧ rest = rest' := by
  cases lineEnd <;> cases lineEnd' <;> cases h
  · exact ⟨rfl, rfl⟩
  · exact ⟨rfl, rfl⟩
  · exact absurd rfl hrest'
  · exact absurd rfl hrest
  · exact ⟨rfl, rfl⟩

/-- A line goes on after no end. -/
theorem chars_ne_append_lineEnd (line : Line) (s : List Char) (lineEnd : LineEnd)
    (rest : List Char) : line.chars ≠ s ++ (lineEnd.chars ++ rest) := by
  intro h
  have hone := h ▸ line.oneLine
  cases lineEnd with
  | lf => exact (hone '\n' (by simp [LineEnd.chars])).2 rfl
  | crlf | cr => exact (hone '\r' (by simp [LineEnd.chars])).1 rfl

/-- A text is laid out in one way at most. -/
theorem text_injective : Function.Injective text := by
  intro layout
  induction layout with
  | empty =>
    intro other h
    cases other with
    | empty => rfl
    | unended line => exact absurd h.symm line.nonempty
    | ended line lineEnd rest => exact absurd (List.append_eq_nil_iff.mp h.symm).1 line.nonempty
  | unended line =>
    intro other h
    cases other with
    | empty => exact absurd h line.nonempty
    | unended other => exact congrArg unended (Line.ext h)
    | ended other lineEnd rest => exact absurd h (chars_ne_append_lineEnd line _ _ _)
  | ended line lineEnd rest ih =>
    intro other h
    cases other with
    | empty => exact absurd (List.append_eq_nil_iff.mp h).1 line.nonempty
    | unended other => exact absurd h.symm (chars_ne_append_lineEnd other _ _ _)
    | ended other lineEnd' rest' =>
      obtain ⟨hchars, hend⟩ := append_inj_of_oneLine line.oneLine other.oneLine
        (startsAtEnd_lineEnd _ _) (startsAtEnd_lineEnd _ _) h
      obtain ⟨rfl, hrest⟩ := lineEnd_append_inj rest.head?_text_ne rest'.head?_text_ne hend
      rw [Line.ext hchars, ih hrest]

end Layout

end MonitoredCompile.Text

/-
MonitoredCompile/Text/Lines.lean

Cutting text at a separator and joining it again, and the two notions of a line
that the program needs: a text file's lines, which end in LF, CR LF or CR, and
the wider set of line ends at which a long text may be broken for display.
-/
namespace MonitoredCompile.Text

/-! ### Pieces between separators -/

/-- Puts a character in front of the first piece. -/
def consFirst (c : Char) : List (List Char) → List (List Char)
  | [] => [[c]]
  | piece :: pieces => (c :: piece) :: pieces

/-- The pieces between the separators: one more than there are separators. -/
def cut (separator : Char) : List Char → List (List Char)
  | [] => [[]]
  | c :: rest => if c = separator then [] :: cut separator rest else consFirst c (cut separator rest)

theorem mem_consFirst {c : Char} {pieces : List (List Char)} {piece : List Char}
    (h : piece ∈ consFirst c pieces) :
    piece ∈ pieces ∨ ∃ rest, piece = c :: rest ∧ (rest = [] ∨ rest ∈ pieces) := by
  cases pieces with
  | nil => exact .inr ⟨[], by simpa [consFirst] using h, .inl rfl⟩
  | cons first others =>
    rcases List.mem_cons.mp h with rfl | h
    · exact .inr ⟨first, rfl, .inr List.mem_cons_self⟩
    · exact .inl (List.mem_cons_of_mem _ h)

theorem separator_not_mem_cut {separator : Char} {s piece : List Char}
    (h : piece ∈ cut separator s) : separator ∉ piece := by
  induction s generalizing piece with
  | nil => simp_all [cut]
  | cons c rest ih =>
    rw [cut] at h
    split at h
    · rcases List.mem_cons.mp h with rfl | h
      · simp
      · exact ih h
    · next hc =>
      rcases mem_consFirst h with h | ⟨tail, rfl, rfl | h⟩
      · exact ih h
      · simpa using Ne.symm hc
      · simpa using ⟨Ne.symm hc, ih h⟩

/-- The pieces with a separator between any two. -/
def glue (separator : List Char) : List (List Char) → List Char
  | [] => []
  | [piece] => piece
  | piece :: pieces => piece ++ separator ++ glue separator pieces

/-- Strings with a separator between any two. -/
def join (separator : String) (pieces : List String) : String :=
  String.ofList (glue separator.toList (pieces.map String.toList))

/-! ### Lines of a file -/

/-- Writes every line end as LF: CR LF counts as one end, a lone CR as another. -/
def unifyLineEnds : List Char → List Char
  | [] => []
  | '\r' :: '\n' :: rest => '\n' :: unifyLineEnds rest
  | '\r' :: rest => '\n' :: unifyLineEnds rest
  | c :: rest => c :: unifyLineEnds rest

/-- The lines of a text whose lines end in LF; the last end may be missing, and
an empty text has no line. -/
def fileLines (text : List Char) : List (List Char) :=
  if text = [] then []
  else if text.getLast? = some '\n' then cut '\n' text.dropLast
  else cut '\n' text

/-! ### Lines for display -/

/-- The characters that end a line on display. -/
def isLineEnd (c : Char) : Bool :=
  c = '\n' ∨ c = '\r' ∨ c = '\x0b' ∨ c = '\x0c' ∨ c = '\x1c' ∨ c = '\x1d' ∨ c = '\x1e'
    ∨ c = '\u0085' ∨ c = '\u2028' ∨ c = '\u2029'

/-- The lines of a text, each with its line end. -/
def linesWithEnds : List Char → List (List Char)
  | [] => []
  | '\r' :: '\n' :: rest => ['\r', '\n'] :: linesWithEnds rest
  | c :: rest =>
    if isLineEnd c then [c] :: linesWithEnds rest else consFirst c (linesWithEnds rest)

end MonitoredCompile.Text

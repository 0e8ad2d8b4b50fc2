/-
MonitoredCompile/Proofs/Arguments/Grammar.lean

What an argument file can hold, and what it stands for.  A file is read if and only if
its bytes spell a text that has a layout, and it stands for the lines of this layout,
each with one pair of quotes taken off (`ofFile_reads`).  Whatever tokens are written in
quotes, one a line, are read back.
-/
import MonitoredCompile.Proofs.Run.Background
import MonitoredCompile.Proofs.Text.Lines
import MonitoredCompile.Proofs.Text.Utf8

namespace MonitoredCompile.Arguments

open Attempt (exec exec_bind)
open Text (Layout Line LineEnd OneLine)

/-! ### Quotes -/

inductive Quote where
  | single
  | double
  deriving DecidableEq, Repr

def Quote.char : Quote → Char
  | single => '\''
  | double => '"'

/-- The characters in a pair of quotes. -/
def Quote.around (q : Quote) (s : List Char) : List Char := q.char :: (s ++ [q.char])

theorem unquoteChars_around (q : Quote) (s : List Char) : unquoteChars (q.around s) = s := by
  rw [Quote.around, unquoteChars, if_pos, List.dropLast_concat]
  cases q <;> simp [Quote.char]

theorem unquoteChars_eq_self {s : List Char} (h : ∀ (q : Quote) inner, s ≠ q.around inner) :
    unquoteChars s = s := by
  cases s with
  | nil => rfl
  | cons c rest =>
    rw [unquoteChars, if_neg]
    rintro ⟨hc, hlast⟩
    obtain ⟨inner, rfl⟩ := List.getLast?_eq_some_iff.mp hlast
    rcases hc with rfl | rfl
    · exact h .single inner rfl
    · exact h .double inner rfl

theorem unquoteChars_eq_iff {s t : List Char} :
    unquoteChars s = t ↔ (∃ q : Quote, s = q.around t) ∨
      (t = s ∧ ∀ (q : Quote) inner, s ≠ q.around inner) := by
  by_cases hquoted : ∃ (q : Quote) (inner : List Char), s = q.around inner
  · obtain ⟨q, inner, rfl⟩ := hquoted
    constructor
    · intro h
      rw [unquoteChars_around] at h
      exact .inl ⟨q, h ▸ rfl⟩
    · rintro (⟨q', h⟩ | ⟨-, h⟩)
      · rw [h, unquoteChars_around]
      · exact absurd rfl (h q inner)
  · have hplain : ∀ (q : Quote) inner, s ≠ q.around inner :=
      fun q inner h => hquoted ⟨q, inner, h⟩
    rw [unquoteChars_eq_self hplain]
    constructor
    · intro h
      exact .inr ⟨h.symm, hplain⟩
    · rintro (⟨q, h⟩ | ⟨h, -⟩)
      · exact absurd h (hplain q t)
      · exact h.symm

/-- Exactly one pair of equal quotes is taken off, and nothing else is changed. -/
theorem unquote_eq_iff {line token : String} :
    unquote line = token ↔ (∃ q : Quote, line.toList = q.around token.toList) ∨
      (token = line ∧ ∀ (q : Quote) inner, line.toList ≠ q.around inner) := by
  rw [unquote, ← String.toList_inj, String.toList_ofList, unquoteChars_eq_iff, String.toList_inj]

/-! ### Lines -/

theorem ofLines_eq_none_iff {lines : List (List Char)} : ofLines lines = none ↔ [] ∈ lines := by
  induction lines with
  | nil => simp [ofLines]
  | cons line rest ih =>
    rw [ofLines, List.mem_cons]
    by_cases hline : line = []
    · simp [hline]
    · rw [if_neg hline, Option.map_eq_none_iff, ih]
      simp [Ne.symm hline]

theorem ofLines_eq_some {lines : List (List Char)} (h : [] ∉ lines) :
    ofLines lines = some (lines.map fun line => String.ofList (unquoteChars line)) := by
  induction lines with
  | nil => rfl
  | cons line rest ih =>
    obtain ⟨hline, hrest⟩ := List.ne_and_not_mem_of_not_mem_cons h
    rw [ofLines, if_neg (Ne.symm hline), ih hrest]
    rfl

/-- The arguments that the lines of a layout stand for. -/
def arguments (layout : Layout) : List String := layout.lines.map fun line => unquote line.string

/-- What is made of a text. -/
def ofText (text : List Char) : Option (List String) :=
  ofLines (Text.fileLines (Text.unifyLineEnds text))

theorem ofText_text (layout : Layout) : ofText layout.text = some (arguments layout) := by
  have hnone := Layout.exists_text_eq_iff.mp ⟨layout, rfl⟩
  rw [ofText, ofLines_eq_some hnone, Layout.fileLines_text, List.map_map, arguments]
  congr 2
  funext line
  rw [Function.comp_apply, unquote, Line.string, String.toList_ofList]

/-- A text that has no layout stands for nothing. -/
theorem ofText_eq_none_iff {text : List Char} :
    ofText text = none ↔ ∀ layout : Layout, layout.text ≠ text := by
  rw [ofText, ofLines_eq_none_iff, ← not_exists, Layout.exists_text_eq_iff, Decidable.not_not]

/-- A text stands for the arguments of its layout. -/
theorem ofText_eq_some_iff {text : List Char} {args : List String} :
    ofText text = some args ↔ ∃ layout : Layout, layout.text = text ∧ args = arguments layout := by
  constructor
  · intro hsome
    obtain ⟨layout, rfl⟩ : ∃ layout : Layout, layout.text = text := by
      rw [Layout.exists_text_eq_iff, ← ofLines_eq_none_iff, ← ofText, hsome]
      exact Option.some_ne_none args
    rw [ofText_text] at hsome
    exact ⟨layout, rfl, (Option.some.inj hsome).symm⟩
  · rintro ⟨layout, rfl, rfl⟩
    exact ofText_text layout

/-- One quote is no pair, and what comes after the last end is no line. -/
example : ofText "'\r\"\"\r\n@f 'x'\n".toList = some ["'", "", "@f 'x'"] := by decide +kernel

/-! ### Writing in quotes -/

/-- A token that one line can hold, and the quotes that it is written in. -/
structure Entry where
  token : String
  oneLine : OneLine token.toList
  quote : Quote

def Entry.line (entry : Entry) : Line where
  chars := entry.quote.around entry.token.toList
  oneLine := by
    have hquote : OneLine [entry.quote.char] := by cases entry.quote <;> simp [OneLine, Quote.char]
    refine List.forall_mem_cons.mpr ⟨hquote _ List.mem_cons_self, ?_⟩
    exact List.forall_mem_append.mpr ⟨entry.oneLine, hquote⟩
  nonempty := by simp [Quote.around]

/-- Entries with their line ends, and one that may come last without an end. -/
def written : List (Entry × LineEnd) → Option Entry → Layout
  | [], none => .empty
  | [], some entry => .unended entry.line
  | (entry, lineEnd) :: rest, last => .ended entry.line lineEnd (written rest last)

theorem unquote_line (entry : Entry) : unquote entry.line.string = entry.token := by
  rw [unquote, Line.string, String.toList_ofList, Entry.line, unquoteChars_around,
    String.ofList_toList]

/-- What is written in quotes is read back. -/
theorem arguments_written (entries : List (Entry × LineEnd)) (last : Option Entry) :
    arguments (written entries last)
      = entries.map (fun entry => entry.1.token) ++ last.toList.map Entry.token := by
  induction entries with
  | nil =>
    cases last with
    | none => rfl
    | some entry => exact congrArg (· :: []) (unquote_line entry)
  | cons first rest ih =>
    obtain ⟨entry, lineEnd⟩ := first
    rw [arguments] at ih ⊢
    rw [written, Layout.lines, List.map_cons, ih, unquote_line]
    rfl

/-! ### Files -/

theorem ofFile_result {path : String} {h : Host} {bytes : Bytes}
    (hread : h.files.read path = .ok bytes) :
    (exec (ofFile path) h).1 =
      match Utf8.decode bytes with
      | .error fault => .error (.undecodable fault)
      | .ok text =>
        match ofText text.toList with
        | none => .error .malformedArgFile
        | some args => .ok args := by
  rw [ofFile, exec_bind, Run.exec_onFiles, FileOp.exec_ask, hread]
  dsimp only
  rcases Utf8.decode bytes with fault | text
  · rfl
  · dsimp only
    rw [exec_bind, Run.exec_note, ofText]
    dsimp only
    rcases ofLines (Text.fileLines (Text.unifyLineEnds text.toList)) with _ | args <;> rfl

/-- What comes of a file that holds these bytes. -/
structure Reads (bytes : Bytes) (result : Except Failure (List String)) : Prop where
  /-- The arguments are those of a layout of the text, and there are none without one. -/
  ok_iff : ∀ text, bytes = Utf8.encode text → ∀ args, result = .ok args ↔
    ∃ layout : Layout, layout.text = text.toList ∧ args = arguments layout
  malformed : ∀ text, bytes = Utf8.encode text →
    (∀ layout : Layout, layout.text ≠ text.toList) → result = .error .malformedArgFile
  /-- Bytes that are no text are refused, whatever lines come before the fault. -/
  undecodable : (∀ text, bytes ≠ Utf8.encode text) → ∃ fault, result = .error (.undecodable fault)
  /-- Tokens that are written in quotes are read back. -/
  quoted : ∀ entries last, bytes = Utf8.encode (String.ofList (written entries last).text) →
    result = .ok (entries.map (fun entry => entry.1.token) ++ last.toList.map Entry.token)

/-- **The grammar of argument files.**  Exactly the texts with a layout are read; no text
has two; and of each line one pair of equal quotes is taken off, and nothing else. -/
theorem ofFile_reads {path : String} {h : Host} {bytes : Bytes}
    (hread : h.files.read path = .ok bytes) :
    Reads bytes (exec (ofFile path) h).1 ∧ Function.Injective Layout.text ∧
      ∀ line token, unquote line = token ↔
        (∃ q : Quote, line.toList = q.around token.toList) ∨
          (token = line ∧ ∀ (q : Quote) inner, line.toList ≠ q.around inner) := by
  refine ⟨?_, Layout.text_injective, fun _ _ => unquote_eq_iff⟩
  rw [ofFile_result hread]
  have htext {text : String} (hbytes : bytes = Utf8.encode text) : Utf8.decode bytes = .ok text :=
    Utf8.decode_eq_ok_iff.mpr hbytes
  refine ⟨fun text hbytes args => ?_, fun text hbytes hnone => ?_, fun hnone => ?_,
    fun entries last hbytes => ?_⟩
  · rw [htext hbytes, ← ofText_eq_some_iff]
    dsimp only
    cases ofText text.toList with
    | none => simp
    | some args' => simp
  · rw [htext hbytes]
    dsimp only
    rw [ofText_eq_none_iff.mpr hnone]
  · cases hdecode : Utf8.decode bytes with
    | error fault => exact ⟨fault, rfl⟩
    | ok text => exact absurd (Utf8.decode_eq_ok_iff.mp hdecode) (hnone text)
  · rw [htext hbytes]
    dsimp only
    rw [String.toList_ofList, ofText_text, arguments_written]

/-- Three tokens in quotes, each with another line end. -/
def quotedEntries : List (Entry × LineEnd) :=
  [(⟨"a b", by decide, .single⟩, .crlf), (⟨"@it's", by decide, .double⟩, .cr),
    (⟨"", by decide, .single⟩, .lf)]

def quotedBytes : Bytes := Utf8.encode (String.ofList (written quotedEntries none).text)

/-- A host with these in an argument file. -/
def quotingHost : Host where
  files := ⟨.dir [("args", .file { bytes := quotedBytes })], some [], []⟩
  programs _ _ := .exit 0
  scratchDir := "/"

theorem ofFile_reads_quotingHost :
    ∃ bytes, quotingHost.files.read "args" = .ok bytes ∧
      (Reads bytes (exec (ofFile "args") quotingHost).1 ∧ Function.Injective Layout.text ∧
        ∀ line token, unquote line = token ↔
          (∃ q : Quote, line.toList = q.around token.toList) ∨
            (token = line ∧ ∀ (q : Quote) inner, line.toList ≠ q.around inner)) ∧
      (exec (ofFile "args") quotingHost).1 = .ok ["a b", "@it's", ""] := by
  have hread : quotingHost.files.read "args" = .ok quotedBytes := rfl
  have hreads := ofFile_reads hread
  exact ⟨_, hread, hreads, hreads.1.quoted quotedEntries none rfl⟩

end MonitoredCompile.Arguments

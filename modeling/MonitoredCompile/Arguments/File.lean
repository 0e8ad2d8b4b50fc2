/-
MonitoredCompile/Arguments/File.lean

Argument files.  A token `@f` stands for the lines of the file `f`, one argument
a line, each as it is or in one pair of quotes.  There is one level only: a line
that starts with `@` is an argument like any other.
-/
import MonitoredCompile.Host

namespace MonitoredCompile.Arguments

/-! ### Lines -/

/-- Takes one pair of equal quotes off. -/
def unquoteChars : List Char → List Char
  | [] => []
  | c :: rest =>
    if (c = '\'' ∨ c = '"') ∧ rest.getLast? = some c then rest.dropLast else c :: rest

/-- Takes one pair of equal quotes off. -/
def unquote (line : String) : String := String.ofList (unquoteChars line.toList)

/-- The arguments that a text spells, one a line; `none` if a line is empty. -/
def ofLines : List (List Char) → Option (List String)
  | [] => some []
  | line :: rest =>
    if line = [] then none
    else (ofLines rest).map (String.ofList (unquoteChars line) :: ·)

/-! ### Files -/

def fileSite : Log.Site := ⟨"topljavac.argfile", "argfile", "readArgFile"⟩

/-- The arguments in a file.  It is read and decoded as a whole before its lines
are looked at. -/
def ofFile (path : String) : Run (List String) := do
  let bytes ← Run.onFiles (FileOp.ask path fun fs => fs.read path)
  match Utf8.decode bytes with
  | .error fault => throw (.undecodable fault)
  | .ok text =>
    let lines := Text.fileLines (Text.unifyLineEnds text.toList)
    Run.note fileSite .debug
      ("argfile " ++ path ++ " holds " ++ toString lines.length ++ " lines")
    match ofLines lines with
    | none => throw .malformedArgFile
    | some args => pure args

/-- The file that a token stands for. -/
def fileName? (token : String) : Option String :=
  match token.toList with
  | '@' :: name => some (String.ofList name)
  | _ => none

/-- Replaces every argument file by its arguments. -/
def expand : List String → Run (List String)
  | [] => pure []
  | token :: rest => do
    let here ←
      match fileName? token with
      | some file => ofFile file
      | none => pure [token]
    let more ← expand rest
    pure (here ++ more)

end MonitoredCompile.Arguments

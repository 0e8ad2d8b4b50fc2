/-
MonitoredCompile/Text/Listing.lean

How a command is shown in the log: on one line if that has at most 80
characters, otherwise one argument a line.  An argument that does not fit into
its line is in turn broken between words, and its pieces are quoted one by one.
-/
import MonitoredCompile.Text.Quoted

namespace MonitoredCompile.Text

/-- The width of a line. -/
def lineWidth : Nat := 80

/-! ### Breaking one long argument -/

/-- The words of a line, each with the blanks after it; blanks at the start of
the line are a word of their own. -/
def words : List Char → List (List Char)
  | [] => []
  | [c] => [[c]]
  | c :: d :: rest =>
    if isBlank c && !isBlank d then [c] :: words (d :: rest) else consFirst c (words (d :: rest))

/-- Packs words greedily into pieces whose quoted form has at most `width`
characters, the last piece `width - spare`; a word that is too long alone is
a piece of its own. -/
def pack (width spare : Nat) : (current : List Char) → List (List Char) → List (List Char)
  | current, [] => if current = [] then [] else [current]
  | current, word :: rest =>
    let room := if rest = [] then width - spare else width
    if room < (quoteChars (current ++ word)).length then
      if current = [] then pack width spare word rest else current :: pack width spare word rest
    else pack width spare (current ++ word) rest

/-- The pieces of an argument: its lines, each line packed if it is too long.
Only the last line leaves a column free, for the comma or bracket after it. -/
def pieces (width : Nat) : List (List Char) → List (List Char)
  | [] => []
  | line :: rest =>
    let spare := if rest = [] then 1 else 0
    (if (quoteChars line).length ≤ width - spare then [line] else pack width spare [] (words line))
      ++ pieces width rest

/-- An argument on lines of its own, indented by one column. -/
def breakArgument (argument : String) : String :=
  join "\n " ((pieces (lineWidth - 1) (linesWithEnds argument.toList)).map
    fun piece => String.ofList (quoteChars piece))

/-! ### The whole command -/

/-- An argument that stands on a line of its own, next to a bracket and a comma. -/
def listArgument (argument : String) : String :=
  if (quoteChars argument.toList).length ≤ lineWidth - 2 then quote argument else breakArgument argument

/-- A command as the log shows it. -/
def listing (command : List String) : String :=
  if (quoteList command).length ≤ lineWidth then quoteList command
  else "[" ++ join ",\n " (command.map listArgument) ++ "]"

end MonitoredCompile.Text

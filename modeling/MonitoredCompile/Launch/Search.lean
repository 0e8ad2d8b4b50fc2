/-
MonitoredCompile/Launch/Search.lean

From the first word of a command to a program.  A word with a slash is a path;
any other is looked for in the directories of the search path, and the first
one that can be run is run.  If none can, the error that is reported is the
first that says more than "not here", or else the last.
-/
import MonitoredCompile.Host

namespace MonitoredCompile.Launch

/-- The program in the file that a path leads to, if it can be run. -/
def programAt (fs : FileSystem) (path : String) : Except Refusal String :=
  match fs.find path with
  | .error r => .error r
  | .ok (_, .file f) =>
    if f.executable then
      match f.program with
      | some program => .ok program
      | none => .error (.system .notRunnable)
    else .error (.system .denied)
  | .ok _ => .error (.system .denied)

/-- The directories that are searched when the environment names none. -/
def defaultSearchPath : String := "/bin:/usr/bin"

/-- The paths at which a program is looked for. -/
def candidates (h : Host) (word : String) : List String :=
  if Path.hasSlash word then [word]
  else
    (Text.cut ':' ((h.getEnv? "PATH").getD defaultSearchPath).toList).map fun dir =>
      Path.join (String.ofList dir) word

/-- Says only that there is nothing at this place. -/
def isAbsence : Refusal → Bool
  | .system .noEntry => true
  | .system .notDirectory => true
  | _ => false

/-- The refusal to report: of two, the earlier one unless it is a mere absence. -/
def reported (earlier : Option Refusal) (later : Refusal) : Refusal :=
  match earlier with
  | some r => if isAbsence r then later else r
  | none => later

/-- The first program that can be run, or the refusal to report. -/
def firstProgram (fs : FileSystem) : Option Refusal → List String → Except Refusal String
  | earlier, [] => .error (earlier.getD (.system .noEntry))
  | earlier, path :: rest =>
    match programAt fs path with
    | .ok program => .ok program
    | .error r => firstProgram fs (some (reported earlier r)) rest

/-- The program that a word starts. -/
def findProgram (h : Host) (word : String) : Except Refusal String :=
  firstProgram h.files none (candidates h word)

end MonitoredCompile.Launch

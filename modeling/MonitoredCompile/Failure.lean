/-
MonitoredCompile/Failure.lean

Everything that can end a run early, by cause, with the one text that is shown
for each.
-/
import MonitoredCompile.FileSystem.Trees
import MonitoredCompile.Pipeline.Phase

namespace MonitoredCompile

inductive Failure where
  /-- An argument file has an empty line. -/
  | malformedArgFile
  /-- The directory that should hold the tools is not there. -/
  | missingToolDir (dir : String)
  /-- The classes could not be moved aside. -/
  | staging (src dst : String) (cause : FileFault)
  /-- A tool ended with a status other than zero. -/
  | toolFailed (status : Int) (command : List String)
  | file (fault : FileFault)
  /-- Bytes that should be text are not. -/
  | undecodable (fault : Utf8.Fault)
  /-- A step was asked of a run that is in another phase. -/
  | wrongPhase (expected actual : Phase)
  /-- A stream of a tool was given something that says not where it leads. -/
  | invalidPolicy (stream : String) (shown : String)
  /-- A command without a program. -/
  | emptyCommand
  /-- A line far above the first was asked for. -/
  | lineOutOfRange
  /-- A command holds a zero character. -/
  | nulInCommand

namespace Failure

def message : Failure → String
  | malformedArgFile => "empty line in argfile"
  | missingToolDir dir => "Path to tools \"" ++ dir ++ "\" does not exist"
  | staging src dst cause => "could not move " ++ src ++ " to " ++ dst ++ ": " ++ cause.message
  | toolFailed _ _ => "command returned nonzero error code"
  | file fault => fault.message
  | undecodable fault => fault.message
  | wrongPhase expected actual =>
    "Stage expects phase " ++ expected.label ++ ", state is in " ++ actual.label
  | invalidPolicy stream shown => "Invalid " ++ stream ++ " policy: " ++ shown
  | emptyCommand => "list index out of range"
  | lineOutOfRange => "list index out of range"
  | nulInCommand => "embedded null byte"

/-- The line about a tool that failed. -/
def toolReport (status : Int) (command : List String) : String :=
  "failed (errorcode " ++ toString status ++ ") to run: " ++ Text.join " " command

/-- The line, without its end, that a user reads about a failure. -/
def report : Failure → String
  | toolFailed status command => toolReport status command
  | malformedArgFile => "E: " ++ malformedArgFile.message
  | missingToolDir dir => "E: " ++ (missingToolDir dir).message
  | staging src dst cause => "E: " ++ (staging src dst cause).message
  | other => "E: Exception (" ++ other.message ++ ")."

end Failure

end MonitoredCompile

/-
MonitoredCompile/Command.lean

The command.  Its exit status is always zero: a caller that saw another one
would fall back to the plain compiler, and nobody would notice that the classes
are not instrumented.  A failure is one report on the standard error stream.
-/
import MonitoredCompile.Log.Setup
import MonitoredCompile.Pipeline.Run

namespace MonitoredCompile.Command

def site : Log.Site := ⟨"topljavac.topljavac", "topljavac", "main"⟩

/-- Tells the user how a run failed.  A failure that is not one of the command's
own kinds is logged as well. -/
def report (failure : Failure) : Run Unit := do
  match failure with
  | .toolFailed _ _ | .malformedArgFile | .missingToolDir _ | .staging _ _ _ => pure ()
  | _ => Run.note site .debug "topljavac: exception case"
  Run.change fun h => h.inform (failure.report ++ "\n")

/-- Compiles and instruments. -/
def compile (args : List String) : Run Int := do
  Run.note site .info ("Entering topljavac [" ++ Text.join " " args ++ "]")
  tryCatch (do let _ ← Pipeline.run args) report
  pure 0

/-- The loggers that the command sets up before it starts, in order. -/
def loggers : List String := ["topljavac.config", "topljavac.pipeline", site.logger]

/-- The command as a program of its own: sets up the log, then compiles. -/
def program (args : List String) : Run Int := do
  for name in loggers do
    Log.configure name
  compile args

end MonitoredCompile.Command

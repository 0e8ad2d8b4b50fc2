/-
MonitoredCompile/Log/Setup.lean

Configuration of the log from the environment.  One variable names the level of
the logger that is being set up, another the file that log lines go to instead
of the standard error stream.  Only the first configuration that succeeds
installs a handler; a level of DEBUG changes the layout for good.
-/
import MonitoredCompile.Host

namespace MonitoredCompile.Log

/-- The variable that names the level. -/
def levelVariable : String := "TOPLJAVAC_OUTPUT_LEVEL"

/-- The variable that names the file. -/
def fileVariable : String := "TOPLJAVAC_OUTPUT_FILE"

/-- The level that the environment asks for; a name that is no level's asks for
nothing. -/
def requestedLevel (h : Host) : Option Level := (h.setting? levelVariable).bind Level.ofName?

/-- The file and the level as the environment names them. -/
def settings (h : Host) : Option String × Option String :=
  (h.getEnv? fileVariable, h.getEnv? levelVariable)

def setupSite : Site := ⟨"root", "logconfig", "logConfig"⟩

/-- Opens the file for log lines, under its absolute name. -/
def openLogFile (path : String) : FileOp Nat := do
  let absolute ← FileOp.absolute path
  match (← get).openAppending absolute with
  | .ok (fs, handle) => set fs; pure handle
  | .error r => throw (FileOp.faultAt absolute r)

/-- Installs the handler, unless there is one. -/
def installHandler : Run Unit := do
  let h ← get
  if h.log.handler.isSome then pure ()
  else
    let handler ←
      match h.setting? fileVariable with
      | none => pure Handler.stderr
      | some path => Handler.file <$> Run.onFiles (openLogFile path)
    modify fun h => { h with log := { h.log with handler := some handler, rootLevel := .warning } }

/-- The complaint about a name that is no level's. -/
def badLevelMessage (value : String) : String :=
  "\"" ++ value ++ "\" is not a valid value for " ++ levelVariable ++ ". Valid values are "
    ++ Text.quoteList Level.names

/-- The log after a logger has been asked for and given a level, if there is one. -/
def withLogger (log : Log) (name : String) (level : Option Level) : Log :=
  if isRoot name then { log with rootLevel := level.getD log.rootLevel }
  else
    let loggers := register name log.loggers
    match level with
    | none => { log with loggers }
    | some l => { log with loggers := setLevel name l loggers }

/-- Sets up the log for one logger.  A name that is no level's is reported and
otherwise ignored. -/
def configure (name : String) : Run Unit := do
  installHandler
  let h ← get
  modify fun h => { h with log := withLogger h.log name (requestedLevel h) }
  match h.setting? levelVariable, requestedLevel h with
  | some value, none => Run.note setupSite .error (badLevelMessage value)
  | _, _ => pure ()
  modify fun h =>
    if h.log.effectiveLevel name = .debug then { h with log := { h.log with detailed := true } }
    else h

end MonitoredCompile.Log

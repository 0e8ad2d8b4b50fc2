/-
MonitoredCompile/Host.lean

The world of one run: files, environment, the programs that files can hold, the
two standard streams, the log, and a record of the tools that were run.  A `Run`
is a computation in this world that may end early with a `Failure`; what it did
before that stays done.

What can go wrong with files is said in `FileSystem.Calls`.  Besides that the world is
a friendly one: whoever runs the program may read and write everything, what is written
to a stream or to an open file always arrives, and no recursion is too deep.  Arguments
and the values of environment variables are Unicode text.
-/
import MonitoredCompile.Failure
import MonitoredCompile.Log.Basic
import MonitoredCompile.Tool.Behaviour

namespace MonitoredCompile

/-- A program that was run: its name, the arguments after the command's first
word, what it did, and the exit status that it ended with. -/
structure Call where
  program : String
  args : List String
  events : List Event
  status : Int

structure Host where
  files : FileSystem
  environment : List (String × String) := []
  /-- What the program of a name does when it is started with some arguments. -/
  programs : String → List String → Behaviour
  /-- The directory for temporary files. -/
  scratchDir : String
  /-- The number of temporary names tried so far. -/
  scratchNames : Nat := 0
  stdout : Bytes := []
  stderr : Bytes := []
  /-- A stream kept in memory. -/
  memory : Bytes := []
  /-- The commands that were handed over to be run as stages, in order. -/
  commands : List (List String) := []
  /-- The programs that were run, in order. -/
  calls : List Call := []
  log : Log := {}

/-- A computation in the world of a run. -/
abbrev Run (α : Type) := Attempt Failure Host α

namespace Host

/-! ### Environment -/

/-- The value of an environment variable. -/
def getEnv? (h : Host) (name : String) : Option String :=
  (h.environment.find? fun entry => entry.1 = name).map (·.2)

/-- The value of an environment variable, if that is not empty. -/
def setting? (h : Host) (name : String) : Option String :=
  (h.getEnv? name).filter fun value => value ≠ ""

/-! ### Output -/

def writeStdout (h : Host) (bytes : Bytes) : Host := { h with stdout := h.stdout ++ bytes }

def writeStderr (h : Host) (bytes : Bytes) : Host := { h with stderr := h.stderr ++ bytes }

def writeMemory (h : Host) (bytes : Bytes) : Host := { h with memory := h.memory ++ bytes }

/-- Prints a line on the standard output. -/
def printLine (h : Host) (text : String) : Host := h.writeStdout (Utf8.encode (text ++ "\n"))

/-- Tells the user something on the standard error stream. -/
def inform (h : Host) (text : String) : Host := h.writeStderr (Utf8.encode text)

/-! ### Log -/

/-- Hands a record to the handler.  As long as there is none, warnings and
errors go to the standard error stream without any layout. -/
def handle (h : Host) (r : Log.Record) : Host :=
  let text (line : String) : Bytes := Utf8.encode (line ++ "\n")
  match h.log.handler with
  | some .stderr => h.writeStderr (text (Log.line h.log.detailed r))
  | some (.file handle) =>
    { h with files := h.files.appendOpen handle (text (Log.line h.log.detailed r)) }
  | some .journal => { h with log := { h.log with journal := h.log.journal ++ [r] } }
  | none => if Log.Level.warning.rank ≤ r.level.rank then h.writeStderr (text r.message) else h

/-- Logs a message, if the logger lets it pass. -/
def note (h : Host) (site : Log.Site) (level : Log.Level) (message : String) : Host :=
  if h.log.enabled site.logger level then h.handle ⟨level, site, message⟩ else h

end Host

namespace Run

/-- A change of the world that cannot fail. -/
def change (f : Host → Host) : Run Unit := modify f

/-- Logs a message. -/
def note (site : Log.Site) (level : Log.Level) (message : String) : Run Unit :=
  change fun h => h.note site level message

/-- An operation on the files of the world. -/
def onFiles {α : Type} (op : FileOp α) : Run α := do
  let (result, files) := op.exec (← get).files
  modify fun h => { h with files }
  match result with
  | .ok a => pure a
  | .error fault => throw (.file fault)

end Run

end MonitoredCompile

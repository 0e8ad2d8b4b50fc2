/-
MonitoredCompile/Inspection.lean

A look at the user's environment.  The command itself never fails visibly, so
this second program says what it would find: how the log is set up, whether the
directory of the tools is there, and whether the two tools can be started.
-/
import MonitoredCompile.Launch.Start
import MonitoredCompile.Log.Setup
import MonitoredCompile.Release
import MonitoredCompile.Toolchain

namespace MonitoredCompile.Inspection

/-! ### Version texts -/

/-- The element at a position; a negative one counts from the end, and one past
the end means the last.  `none` lies before the first. -/
def elementAt? {α : Type} (items : List α) (n : Int) : Option α :=
  if n < 0 then
    if (items.length : Int) + n < 0 then none else items[((items.length : Int) + n).toNat]?
  else if n < items.length then items[n.toNat]?
  else items.getLast?

/-- Line `n` of a text, both without blanks around them; an empty text is its
own line. -/
def lineOf (text : String) (n : Int) : Run String := do
  if text = "" then pure text
  else
    match elementAt? (Text.cut '\n' (Text.strip text.toList)) n with
    | none => throw .lineOutOfRange
    | some line => pure (String.ofList (Text.strip line))

/-! ### Explanations -/

def explainDir : String :=
  "\n\nBoth javac and toplc should either be in your PATH, or else located\nwhere the environment variable "
    ++ Toolchain.dirVariable ++ " indicates.\n\n"

def explainCompilerName : String :=
  "\n\nIf your java compiler is not called javac, but something else, then\nyou will need to set the environment variable "
    ++ Toolchain.compilerVariable ++ " to the\nappropriate string.\n\n"

def explainInstrumentorName : String :=
  "\n\nIf your TOPL instrumentor is not called toplc, but something else, then\nyou will need to set the environment variable "
    ++ Toolchain.instrumentorVariable ++ " to the\nappropriate string.\n\n"

/-! ### Checks -/

def print (text : String) : Run Unit := Run.change fun h => h.printLine text

/-- The directory of the tools, with a slash at its end if there is one. -/
def toolDir (h : Host) : String :=
  match h.setting? Toolchain.dirVariable with
  | none => ""
  | some dir => Path.withSlash dir

/-- The path of a tool: in the directory of the tools, the name that a variable sets or
else the usual one. -/
def toolPath (h : Host) (nameVariable usual : String) : String :=
  toolDir h ++ (h.setting? nameVariable).getD usual

/-- What is said about a tool that could not be started. -/
def refusalText (tool : String) (e : Errno) : String :=
  match e with
  | .denied => tool ++ " not executable"
  | .noEntry => tool ++ " not found"
  | other => tool ++ " not sure why, errno is " ++ toString other.code

/-- The text that a tool wrote to one of its streams. -/
def decodeOutput (bytes : Bytes) : Run String :=
  match Utf8.decode bytes with
  | .ok text => pure text
  | .error fault => throw (.undecodable fault)

/-- Starts a tool with one argument.  Gives whether it could be started, and what
it wrote or why not. -/
def checkTool (tool argument : String) : Run (Bool × String) := do
  match ← tryCatch (Except.ok <$> Launch.resolve [tool, argument]) fun failure =>
      match failure with
      | .file (.refused e _) => pure (Except.error e)
      | _ => throw failure with
  | .error e => pure (false, refusalText tool e)
  | .ok (program, args) =>
    let (output, errors) ← Launch.executeKept program args
    let text ← decodeOutput output
    pure (true, text ++ (← decodeOutput errors))

/-- Tells the version of this program. -/
def showRelease : Run Unit := do
  print ("topljavac version: " ++ Release.version)
  print ("topljavac released: " ++ Release.date ++ "\n")

/-- Tells how the log is set up. -/
def showLog : Run Unit := do
  let h ← get
  print ("Logging output to " ++ (h.setting? Log.fileVariable).getD "standard error" ++ ".")
  match h.setting? Log.levelVariable with
  | none => print "Logging level not set, defaulting to WARNING."
  | some level => print ("Logging level set to " ++ level ++ ".")

/-- Whether the directory of the tools, if one is set, is there. -/
def checkDir : Run Bool := do
  let h ← get
  let dir := toolDir h
  if dir ≠ "" && !h.files.isDir dir then
    print ("The tool path " ++ dir ++ " does not exist or is not a directory.")
    print explainDir
    pure false
  else pure true

/-- Whether both tools can be started. -/
def checkTools : Run Bool := do
  let h ← get
  let compiler := toolPath h Toolchain.compilerVariable Toolchain.defaultCompiler
  let instrumentor := toolPath h Toolchain.instrumentorVariable Toolchain.defaultInstrumentor
  let (compilerOk, compilerText) ← checkTool compiler "-version"
  let (instrumentorOk, _) ← checkTool instrumentor "-h"
  if compilerOk then
    print ("The java compiler " ++ compiler ++ " is:\n\n\t" ++ (← lineOf compilerText 0) ++ "\n")
  else
    print ("The java compiler " ++ compiler ++ " was not found or not executable.\n" ++ compilerText
      ++ "\n")
    print explainCompilerName
  if instrumentorOk then
    print ("The instrumentor " ++ instrumentor ++ " was found.\n")
  else
    print ("The instrumentor " ++ instrumentor ++ " was not found or not executable.\n")
    print explainInstrumentorName
  if !compilerOk || !instrumentorOk then print explainDir
  pure (compilerOk && instrumentorOk)

/-- The whole look; the exit status is zero if nothing is wrong. -/
def check : Run Int := do
  showRelease
  showLog
  if ← checkDir then
    if ← checkTools then pure 0 else pure 1
  else pure 1

/-- The look as a program of its own: sets up the log first. -/
def program : Run Int := do
  Log.configure "topljavac.config"
  check

end MonitoredCompile.Inspection

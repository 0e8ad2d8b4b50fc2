/-
MonitoredCompile/Launch/Stage.lean

Running a command as a stage.  A policy says where each of its two streams goes;
none leads to a pipe, so a tool never waits for a reader.  The policies are
checked first, then the files are opened, then the tool is started, and the
files are closed again whatever happens.
-/
import MonitoredCompile.Launch.Start
import MonitoredCompile.Text.Listing

namespace MonitoredCompile.Launch

/-- Where a stream of a stage goes. -/
inductive Policy where
  | discard
  | inherit
  /-- To where the standard output goes; for the standard error stream only. -/
  | merge
  | file (path : String)
  /-- Something that says not where. -/
  | unknown (value : Text.Value)

namespace Policy

/-- A policy as messages show it. -/
def shown : Policy → String
  | discard => Text.quote "discard"
  | .inherit => Text.quote "inherit"
  | merge => Text.quote "merge"
  | file path => "FileSink(path=" ++ Text.quote path ++ ")"
  | unknown value => value.quoted

/-- Says where the standard output goes. -/
def isForOutput : Policy → Bool
  | discard => true
  | .inherit => true
  | file _ => true
  | _ => false

/-- Says where the standard error stream goes. -/
def isForErrors : Policy → Bool
  | merge => true
  | policy => policy.isForOutput

/-- The path of the file that keeps the stream. -/
def path? : Policy → Option String
  | file path => some path
  | _ => none

end Policy

/-- What a stage gives: the exit status, the path of the file that kept its
output, and the command. -/
structure Outcome where
  status : Int
  captured : Option String
  command : List String
  deriving DecidableEq, Repr

/-! ### The parts of a stage -/

/-- Refuses policies that say not where a stream goes, standard output first. -/
def checkPolicies (out err : Policy) : Run Unit := do
  if !out.isForOutput then throw (.invalidPolicy "stdout" out.shown)
  if !err.isForErrors then throw (.invalidPolicy "stderr" err.shown)

/-- The standard error policy, where the same file twice means one file. -/
def sharedErrors (out err : Policy) : Policy :=
  match out, err with
  | .file p, .file q => if p = q then .merge else err
  | _, _ => err

/-- Opens what a policy names; `own` is the stream of the host that is inherited. -/
def openRoute (own : Route) : Policy → Run Route
  | .file path => do
    match (← get).files.openTruncated path with
    | .ok (files, handle) => modify fun h => { h with files }; pure (.file handle)
    | .error r => throw (.file (FileOp.faultAt path r))
  | .discard => pure .nowhere
  | _ => pure own

/-- Opens the routes of both streams, standard output first. -/
def openRoutes (out err : Policy) : Run (Stream → Route) := do
  let output ← openRoute .stdout out
  let errors ←
    match err with
    | .merge => pure output
    | policy => openRoute .stderr policy
  pure fun s =>
    match s with
    | .output => output
    | .errors => errors

/-- Does something and closes the files that it opened, also if it fails. -/
def closingFiles {α : Type} (action : Run α) : Run α := fun h =>
  let (result, after) := action.exec h
  (result, { after with files := after.files.closeFrom h.files.opened.length })

/-! ### Log -/

def popenSite : Log.Site := ⟨"topljavac.popenwrapper", "popenwrapper", "Popen"⟩

def stageSite : Log.Site := ⟨"topljavac.popenwrapper", "popenwrapper", "runStage"⟩

def executingMessage (command : List String) (dir : String) : String :=
  "topljavac Executing:\n" ++ Text.listing command ++ "\nin: " ++ dir

def notExecutedMessage (command : List String) : String :=
  "topljavac Failed to execute: " ++ Text.listing command

/-! ### The stage -/

/-- The program of a command; a refusal of the system is logged. -/
def resolveLogged (command : List String) : Run (String × List String) :=
  tryCatch (resolve command) fun failure => do
    match failure with
    | .file fault =>
      if fault.fromSystem then Run.note popenSite .debug (notExecutedMessage command)
    | _ => pure ()
    throw failure

/-- Opens the routes and finds the program: all that happens before a tool runs. -/
def ready (command : List String) (out err : Policy) :
    Run ((Stream → Route) × String × List String) := do
  let routes ← openRoutes out err
  let dir ← Run.onFiles FileOp.currentDir
  Run.note popenSite .debug (executingMessage command dir)
  let (program, args) ← resolveLogged command
  pure (routes, program, args)

/-- Runs a command to its end.  The exit status is reported, not judged. -/
def runStage (command : List String) (out err : Policy := .inherit) : Run Outcome := do
  Run.change fun h => { h with commands := h.commands ++ [command] }
  checkPolicies out err
  let err := sharedErrors out err
  let status ← closingFiles do
    let (routes, program, args) ← ready command out err
    execute routes program args
  Run.note stageSite .debug ("runStage rc = " ++ toString status)
  pure ⟨status, out.path?.or err.path?, command⟩

end MonitoredCompile.Launch

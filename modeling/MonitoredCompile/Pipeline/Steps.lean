/-
MonitoredCompile/Pipeline/Steps.lean

The steps of a monitored compilation.  Each takes a state in one phase to a
state in the next and refuses every other phase before it does anything:

  classify      initial       to classified
  compile       classified    to compiled
  stage         compiled      to staged
  instrument    staged        to instrumented
  replay        instrumented  to replayed
  cleanUp       replayed      to done

The compiler writes the classes to the output directory.  They are moved aside,
and the instrumentor writes them back, so that whoever asked for the classes
finds the instrumented ones in their place.
-/
import MonitoredCompile.Arguments.File
import MonitoredCompile.Diagnostics
import MonitoredCompile.Pipeline.State
import MonitoredCompile.Scratch

namespace MonitoredCompile.Pipeline

def site (function : String) : Log.Site := ⟨"topljavac.pipeline", "pipeline", function⟩

/-- The state before anything has been done, with the tools that the environment
names unless others are given. -/
def start (args : List String) (tools : Option Toolchain) : Run State := do
  let tools ←
    match tools with
    | some t => pure t
    | none => Toolchain.ofEnvironment
  pure ⟨tools, args, .initial⟩

/-! ### Classification -/

def resolveSite : Log.Site := Arguments.site "resolveOutputDirectory"

/-- The directory for the classes: the declared one, made with its parents, or a
fresh temporary one. -/
def resolveOutputDir (declared : Option String) : Run String := do
  match declared with
  | none =>
    let dir ← Scratch.makeDir "topljavac-out"
    Run.note resolveSite .debug ("No -d given, using " ++ dir)
    pure dir
  | some dir =>
    Run.onFiles (FileOp.ensureDirs dir)
    pure dir

/-- Classifies the arguments, and makes the places that the later steps need.
The staging directory is only a placeholder for its name until the classes move
there. -/
def classify (s : State) : Run State := do
  match s.progress with
  | .initial =>
    let args ← Arguments.classifyLogged (← Arguments.expand s.rawArgs)
    Run.note (site "classifyArgs") .debug ("classified: " ++ args.shown)
    let outputDir ← resolveOutputDir args.outputDir
    let captureFile ← Scratch.makeFile "topljavac" "stderr"
    let stagingDir ← Scratch.makeDir "topljavac-in"
    pure { s with progress := .classified ⟨args, outputDir, stagingDir, captureFile⟩ }
  | other => throw (.wrongPhase .initial other.phase)

/-! ### Compilation -/

def compilerCommand (tools : Toolchain) (plan : Plan) : List String :=
  tools.compiler ++ plan.args.plainArgs ++ ["-d", plan.outputDir]

/-- Ends the run if a tool ended with a status other than zero. -/
def requireSuccess (outcome : Launch.Outcome) : Run Unit := do
  if outcome.status ≠ 0 then throw (.toolFailed outcome.status outcome.command)

/-- Runs the compiler, with both its streams in the capture file. -/
def compile (s : State) : Run State := do
  match s.progress with
  | .classified plan =>
    let outcome ← Launch.runStage (compilerCommand s.tools plan) (.file plan.captureFile) .merge
    requireSuccess outcome
    Run.change fun h =>
      h.printLine ("TOPL: javac finished successfully. Output in " ++ plan.outputDir)
    pure { s with progress := .compiled plan outcome }
  | other => throw (.wrongPhase .classified other.phase)

/-! ### Staging -/

/-- Puts the output directory in the place of the empty staging directory. -/
def moveAside (plan : Plan) : FileOp Unit := do
  FileOp.call plan.stagingDir fun fs => fs.removeDir plan.stagingDir
  FileOp.move plan.outputDir plan.stagingDir

/-- Moves the classes aside. -/
def stage (s : State) : Run State := do
  match s.progress with
  | .compiled plan last =>
    tryCatch (Run.onFiles (moveAside plan)) fun failure =>
      match failure with
      | .file fault =>
        if fault.fromSystem then throw (.staging plan.outputDir plan.stagingDir fault)
        else throw failure
      | _ => throw failure
    Run.note (site "stageOutput") .debug
      ("staged " ++ plan.outputDir ++ " as " ++ plan.stagingDir)
    pure { s with progress := .staged plan last }
  | other => throw (.wrongPhase .compiled other.phase)

/-! ### Instrumentation -/

def instrumentorCommand (tools : Toolchain) (plan : Plan) : List String :=
  tools.instrumentor ++ plan.args.monitorSources.flatMap (fun source => ["-e", source])
    ++ ["-s", "-i", plan.stagingDir, "-o", plan.outputDir] ++ plan.args.propertySpecs

/-- Runs the instrumentor, which talks to the user itself. -/
def instrument (s : State) : Run State := do
  match s.progress with
  | .staged plan _ =>
    let outcome ← Launch.runStage (instrumentorCommand s.tools plan) .inherit .inherit
    requireSuccess outcome
    Run.change fun h => h.printLine "TOPL: toplc finished successfully."
    pure { s with progress := .instrumented plan outcome }
  | other => throw (.wrongPhase .staged other.phase)

/-! ### The end of a run -/

/-- Replays the diagnostics of both tools, the instrumentor's first. -/
def replay (s : State) (write : Host → Bytes → Host := Host.writeStderr) : Run State := do
  match s.progress with
  | .instrumented plan last =>
    Diagnostics.replay write [Diagnostics.instrumentorFile, plan.captureFile]
    pure { s with progress := .replayed plan last }
  | other => throw (.wrongPhase .instrumented other.phase)

/-- Removes the temporary files.  The output directory is not ours. -/
def cleanUp (s : State) : Run State := do
  match s.progress with
  | .replayed plan last =>
    tryCatch
      (Run.onFiles (FileOp.call plan.captureFile fun fs => fs.removeFile plan.captureFile))
      fun failure => do
        match failure with
        | .file fault =>
          if fault.fromSystem then
            Run.note (site "cleanUp") .info
              ("Could not remove " ++ plan.captureFile ++ ": " ++ fault.message)
          else throw failure
        | _ => throw failure
    Run.onFiles (FileOp.removeTreeQuietly plan.stagingDir)
    pure { s with progress := .done plan last }
  | other => throw (.wrongPhase .replayed other.phase)

end MonitoredCompile.Pipeline

/-
MonitoredCompile/Launch/Start.lean

Starting a tool and waiting for its end.
-/
import MonitoredCompile.Launch.Search

namespace MonitoredCompile.Launch

/-- The program of a command and the arguments for it.  A command needs a first
word, and no word of it may hold a zero character. -/
def resolve (command : List String) : Run (String × List String) := do
  match command with
  | [] => throw .emptyCommand
  | word :: args =>
    if command.any Path.hasNul then throw .nulInCommand
    match findProgram (← get) word with
    | .ok program => pure (program, args)
    | .error r => throw (.file (FileOp.faultAt word r))

/-- The host after a program has run with its streams led along `routes`, and the
program's exit status. -/
def executeOn (h : Host) (routes : Stream → Route) (program : String) (args : List String) :
    Int × Host :=
  let tool := h.programs program args
  let surroundings : Surroundings := ⟨h.files, h.stdout, h.stderr⟩
  let (status, after) := tool.run routes surroundings
  (status, { h with files := after.files, stdout := after.stdout, stderr := after.stderr,
                    calls := h.calls ++ [⟨program, args, tool.events routes surroundings, status⟩] })

/-- Runs a program with its streams led to files or to the streams of the host. -/
def execute (routes : Stream → Route) (program : String) (args : List String) : Run Int :=
  modifyGet fun h => executeOn h routes program args

/-- Each stream leads to the stream of the same name. -/
def ownRoutes : Stream → Route
  | .output => .stdout
  | .errors => .stderr

/-- What a program writes to each stream if both are kept, and the host after it
has run. -/
def executeKeptOn (h : Host) (program : String) (args : List String) : (Bytes × Bytes) × Host :=
  let tool := h.programs program args
  let surroundings : Surroundings := ⟨h.files, [], []⟩
  let (status, after) := tool.run ownRoutes surroundings
  ((after.stdout, after.stderr),
    { h with files := after.files,
             calls := h.calls ++ [⟨program, args, tool.events ownRoutes surroundings, status⟩] })

/-- Runs a program with both streams kept, and gives what it wrote to each. -/
def executeKept (program : String) (args : List String) : Run (Bytes × Bytes) :=
  modifyGet fun h => executeKeptOn h program args

end MonitoredCompile.Launch

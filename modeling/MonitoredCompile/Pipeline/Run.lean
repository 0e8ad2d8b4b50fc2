/-
MonitoredCompile/Pipeline/Run.lean

A whole run: every step in order, as far as they succeed.
-/
import MonitoredCompile.Pipeline.Steps

namespace MonitoredCompile.Pipeline

/-- The steps in the order of the phases. -/
def steps : List (State → Run State) :=
  [classify, compile, stage, instrument, (replay ·), cleanUp]

/-- Takes steps one after the other. -/
def runSteps : List (State → Run State) → State → Run State
  | [], s => pure s
  | step :: rest, s => do
    let s ← step s
    Run.note (site "runPipeline") .info ("topljavac reached " ++ s.phase.label)
    runSteps rest s

/-- A monitored compilation from the arguments to the end. -/
def run (args : List String) (tools : Option Toolchain := none) : Run State := do
  runSteps steps (← start args tools)

end MonitoredCompile.Pipeline

/-
MonitoredCompile/Pipeline/Phase.lean

The phases of a monitored compilation, in the order in which a run goes through
them.
-/
namespace MonitoredCompile

inductive Phase where
  | initial
  | classified
  | compiled
  | staged
  | instrumented
  | replayed
  | done
  deriving DecidableEq, Repr

/-- The name under which messages know a phase. -/
def Phase.label : Phase → String
  | initial => "Init"
  | classified => "ArgsClassified"
  | compiled => "CompilerRan"
  | staged => "Staged"
  | instrumented => "InstrumentorRan"
  | replayed => "DiagnosticsFlushed"
  | done => "Done"

end MonitoredCompile

/-
MonitoredCompile/Pipeline/State.lean

The state of a monitored compilation.  What a run knows grows with its phase:
before the arguments are classified only the tools and the arguments as given,
then the plan (what goes where), and once a tool has run also what came of it.
-/
import MonitoredCompile.Arguments.Classify
import MonitoredCompile.Launch.Stage
import MonitoredCompile.Pipeline.Phase
import MonitoredCompile.Toolchain

namespace MonitoredCompile.Pipeline

open Arguments (Classified)
open Launch (Outcome)

/-- What is fixed when the arguments have been classified. -/
structure Plan where
  args : Classified
  /-- Where the compiler puts the classes, and the instrumentor after it. -/
  outputDir : String
  /-- Where the classes wait for the instrumentor. -/
  stagingDir : String
  /-- The file that keeps what the compiler says. -/
  captureFile : String
  deriving DecidableEq, Repr

/-- How far a run has come. -/
inductive Progress where
  | initial
  | classified (plan : Plan)
  | compiled (plan : Plan) (last : Outcome)
  | staged (plan : Plan) (last : Outcome)
  | instrumented (plan : Plan) (last : Outcome)
  | replayed (plan : Plan) (last : Outcome)
  | done (plan : Plan) (last : Outcome)
  deriving DecidableEq, Repr

structure State where
  tools : Toolchain
  rawArgs : List String
  progress : Progress
  deriving DecidableEq, Repr

namespace Progress

def phase : Progress → Phase
  | initial => .initial
  | classified _ => .classified
  | compiled _ _ => .compiled
  | staged _ _ => .staged
  | instrumented _ _ => .instrumented
  | replayed _ _ => .replayed
  | done _ _ => .done

def plan? : Progress → Option Plan
  | initial => none
  | classified plan => some plan
  | compiled plan _ => some plan
  | staged plan _ => some plan
  | instrumented plan _ => some plan
  | replayed plan _ => some plan
  | done plan _ => some plan

/-- What came of the tool that ran last. -/
def last? : Progress → Option Outcome
  | initial => none
  | classified _ => none
  | compiled _ last => some last
  | staged _ last => some last
  | instrumented _ last => some last
  | replayed _ last => some last
  | done _ last => some last

end Progress

namespace State

def phase (s : State) : Phase := s.progress.phase

def plan? (s : State) : Option Plan := s.progress.plan?

def last? (s : State) : Option Outcome := s.progress.last?

variable {s : State} {progress : Progress}

theorem phase_eq (h : s.progress = progress) : s.phase = progress.phase :=
  congrArg Progress.phase h

theorem plan?_eq (h : s.progress = progress) : s.plan? = progress.plan? :=
  congrArg Progress.plan? h

theorem progress_of_compiled (h : s.phase = .compiled) :
    ∃ plan last, s.progress = .compiled plan last := by
  cases hprogress : s.progress with
  | compiled plan last => exact ⟨plan, last, rfl⟩
  | _ => cases (phase_eq hprogress).symm.trans h

theorem progress_of_done (h : s.phase = .done) : ∃ plan last, s.progress = .done plan last := by
  cases hprogress : s.progress with
  | done plan last => exact ⟨plan, last, rfl⟩
  | _ => cases (phase_eq hprogress).symm.trans h

theorem progress_of_instrumented (h : s.phase = .instrumented) :
    ∃ plan last, s.progress = .instrumented plan last := by
  cases hprogress : s.progress with
  | instrumented plan last => exact ⟨plan, last, rfl⟩
  | _ => cases (phase_eq hprogress).symm.trans h

theorem progress_of_replayed (h : s.phase = .replayed) :
    ∃ plan last, s.progress = .replayed plan last := by
  cases hprogress : s.progress with
  | replayed plan last => exact ⟨plan, last, rfl⟩
  | _ => cases (phase_eq hprogress).symm.trans h

end State

end MonitoredCompile.Pipeline

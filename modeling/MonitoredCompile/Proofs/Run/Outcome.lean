/-
MonitoredCompile/Proofs/Run/Outcome.lean

How the command ends, whatever the log is set up for: it tries the run and, if that
fails, logs what is not one of its own failures and writes one line
(`Command.exec_compile_eq`).  Nothing of this can fail, so the status is zero.
-/
import MonitoredCompile.Proofs.Run.Background

namespace MonitoredCompile.Command

open Attempt (exec exec_bind exec_tryCatch)

/-- The host when the run starts. -/
def entered (args : List String) (h : Host) : Host :=
  h.note site .info ("Entering topljavac [" ++ Text.join " " args ++ "]")

/-- The host when a failure is going to be told: one that is not of the command's own
kinds has been logged. -/
def beforeReport (failure : Failure) (h : Host) : Host :=
  match failure with
  | .toolFailed _ _ | .malformedArgFile | .missingToolDir _ | .staging _ _ _ => h
  | _ => h.note site .debug "topljavac: exception case"

theorem exec_report_eq (failure : Failure) (h : Host) :
    exec (report failure) h
      = (.ok (), (beforeReport failure h).inform (failure.report ++ "\n")) := by
  cases failure <;> rfl

/-- The command runs the pipeline and tells its failure, if there is one. -/
theorem exec_compile_eq (args : List String) (h : Host) :
    exec (compile args) h =
      match exec (Pipeline.run args) (entered args h) with
      | (.ok _, ran) => (.ok 0, ran)
      | (.error failure, ran) =>
        (.ok 0, (beforeReport failure ran).inform (failure.report ++ "\n")) := by
  rw [compile, exec_bind, Run.exec_note]
  dsimp only
  rw [exec_bind, exec_tryCatch, exec_bind, ← entered]
  rcases exec (Pipeline.run args) (entered args h) with ⟨failure | s, ran⟩
  · dsimp only
    rw [exec_report_eq]
    rfl
  · rfl

/-- The status is always zero. -/
theorem compile_result (args : List String) (h : Host) : (exec (compile args) h).1 = .ok 0 := by
  rw [exec_compile_eq]
  rcases exec (Pipeline.run args) (entered args h) with ⟨failure | s, ran⟩ <;> rfl

end MonitoredCompile.Command

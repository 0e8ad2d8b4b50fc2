/-
MonitoredCompile/Proofs/Log/Quiet.lean

Quiet logs.  A log is quiet if no logger lets an informative line pass.  That is
what the command sets up when the environment asks for no log
(`Command.exec_program`).
-/
import MonitoredCompile.Command

namespace MonitoredCompile

open Attempt (exec exec_bind exec_get exec_modify)

namespace Log

/-- No logger lets an informative line pass, and so no debugging line either. -/
def Quiet (log : Log) : Prop := ∀ name, log.enabled name .info = false

/-- Lines of this level say only how the run goes on. -/
def Level.IsProgress (level : Level) : Prop := level = .debug ∨ level = .info

namespace Quiet

theorem debug {log : Log} (h : log.Quiet) (name : String) : log.enabled name .debug = false := by
  have hinfo := of_decide_eq_false (h name)
  exact decide_eq_false fun hdebug => hinfo (Nat.le_trans hdebug (by decide))

theorem note {h : Host} (hq : h.log.Quiet) {level : Level} (hl : level.IsProgress) (site : Site)
    (message : String) : h.note site level message = h := by
  rcases hl with rfl | rfl
  · rw [Host.note, hq.debug, if_neg Bool.false_ne_true]
  · rw [Host.note, hq, if_neg Bool.false_ne_true]

end Quiet

/-! ### Logs without a level -/

/-- Nobody has asked for a level: the root has its own, and no other logger has one. -/
structure Unset (log : Log) : Prop where
  root : log.rootLevel = .warning
  loggers : ∀ entry ∈ log.loggers, entry.2 = none

theorem unset_default : ({} : Log).Unset := ⟨rfl, by simp⟩

theorem findLogger_mem {name : String} {loggers : List (String × Option Level)}
    {level : Option Level} (h : findLogger name loggers = some level) :
    (name, level) ∈ loggers := by
  induction loggers with
  | nil => cases h
  | cons entry rest ih =>
    obtain ⟨n, l⟩ := entry
    rw [findLogger] at h
    split at h
    · next hn =>
      cases h
      rw [hn]
      exact List.mem_cons_self
    · exact List.mem_cons_of_mem _ (ih h)

namespace Unset

variable {log : Log}

theorem levelWithin (h : log.Unset) (fuel : Nat) (name : String) :
    log.levelWithin fuel name = .warning := by
  induction fuel generalizing name with
  | zero => exact h.root
  | succ fuel ih =>
    rw [Log.levelWithin]
    split
    · next level hfound => cases h.loggers _ (findLogger_mem hfound)
    · split
      · exact h.root
      · exact ih _

theorem effectiveLevel (h : log.Unset) (name : String) : log.effectiveLevel name = .warning := by
  rw [Log.effectiveLevel]
  split
  · exact h.root
  · exact h.levelWithin _ _

theorem quiet (h : log.Unset) : log.Quiet := fun name => by
  rw [enabled, h.effectiveLevel]
  rfl

theorem withLogger (h : log.Unset) (name : String) : (withLogger log name none).Unset := by
  rw [Log.withLogger]
  split
  · exact ⟨h.root, h.loggers⟩
  · refine ⟨h.root, fun entry hentry => ?_⟩
    dsimp only [register] at hentry
    split at hentry
    · exact h.loggers entry hentry
    · rcases List.mem_append.mp hentry with hentry | hentry
      · exact h.loggers entry hentry
      · rw [List.mem_singleton.mp hentry]

end Unset

/-! ### Setting up -/

/-- The environment asks for no level and no file, and nobody has asked for a
level. -/
structure Unasked (h : Host) : Prop where
  level : h.setting? levelVariable = none
  file : h.setting? fileVariable = none
  unset : h.log.Unset

namespace Unasked

variable {h : Host}

theorem requestedLevel (hu : Unasked h) : requestedLevel h = none := by
  rw [Log.requestedLevel, hu.level]
  rfl

/-- Nothing but the log changes when the handler is installed. -/
theorem exec_installHandler (hu : Unasked h) :
    ∃ log, log.Unset ∧ exec installHandler h = (.ok (), { h with log }) := by
  rw [installHandler, exec_bind, exec_get]
  dsimp only
  split
  · exact ⟨h.log, hu.unset, rfl⟩
  · rw [hu.file]
    exact ⟨{ h.log with handler := some .stderr, rootLevel := .warning }, ⟨rfl, hu.unset.loggers⟩,
      rfl⟩

theorem exec_configure (hu : Unasked h) (name : String) :
    ∃ log, log.Unset ∧ exec (configure name) h = (.ok (), { h with log }) := by
  obtain ⟨log, hunset, hinstall⟩ := hu.exec_installHandler
  have hu' : Unasked { h with log } := ⟨hu.level, hu.file, hunset⟩
  have hadded := hunset.withLogger name
  refine ⟨Log.withLogger log name none, hadded, ?_⟩
  rw [configure, exec_bind, hinstall]
  dsimp only
  rw [exec_bind, exec_get]
  dsimp only
  rw [exec_bind, exec_modify, hu'.requestedLevel]
  dsimp only
  rw [show Host.setting? { h with log } levelVariable = none from hu.level]
  dsimp only
  rw [exec_modify, if_neg (by rw [hadded.effectiveLevel]; exact nofun)]

/-- Nor does anything else when several loggers are set up. -/
theorem exec_configureAll (hu : Unasked h) (names : List String) :
    ∃ log, log.Unset ∧ exec (forIn names PUnit.unit fun name _ => do
      configure name
      pure (ForInStep.yield PUnit.unit)) h = (.ok ⟨⟩, { h with log }) := by
  induction names generalizing h with
  | nil => exact ⟨h.log, hu.unset, rfl⟩
  | cons name rest ih =>
    obtain ⟨log, hunset, hconfigure⟩ := hu.exec_configure name
    have hu' : Unasked { h with log } := ⟨hu.level, hu.file, hunset⟩
    obtain ⟨log', hunset', hrest⟩ := ih hu'
    refine ⟨log', hunset', ?_⟩
    rw [List.forIn_cons, exec_bind, exec_bind, hconfigure]
    exact hrest

end Unasked

end Log

/-- If the environment asks for no log, the command sets up a quiet one and
compiles. -/
theorem Command.exec_program (args : List String) {h : Host} (hu : Log.Unasked h) :
    ∃ log, log.Quiet ∧ exec (Command.program args) h = exec (Command.compile args) { h with log } := by
  obtain ⟨log, hunset, hsetup⟩ := hu.exec_configureAll Command.loggers
  refine ⟨log, hunset.quiet, ?_⟩
  rw [Command.program, exec_bind, hsetup]

end MonitoredCompile

/-
MonitoredCompile/Proofs/Run/Ledger.lean

Which commands a run has handed over, and what has come of them.  In every state
that a run reaches, the commands handed over are those of the steps taken so far,
and each has been run and has ended with status zero (`Reached.ledger`).  A step
that fails hands over at most one command more, and if that command is run, then
the run fails with its status (`Fails.ledger`).
-/
import Mathlib.Data.List.Forall2
import MonitoredCompile.Proofs.Run.Reach

namespace MonitoredCompile

open Attempt (exec)

/-! ### Stages -/

namespace Launch

variable {out err : Policy} {command : List String} {h h' : Host}

/-- A stage that succeeds adds its command and one call. -/
theorem record_of_runStage_eq_ok (hout : out.isForOutput = true) (herr : err.isForErrors = true)
    {outcome : Outcome} (hok : exec (runStage command out err) h = (.ok outcome, h')) :
    h'.commands = h.commands ++ [command] ∧ outcome.command = command ∧
      ∃ call, h'.calls = h.calls ++ [call] ∧ call.args = command.tail ∧
        call.status = outcome.status := by
  obtain ⟨routes, program, h₁, -, hbefore, rfl, hafter⟩ :=
    runStage_eq_ok background_sameRecord hout herr hok
  refine ⟨?_, rfl, callOn h₁ routes program command.tail, ?_, rfl, rfl⟩
  · rw [hafter.1, executeOn_commands, hbefore.1, Host.handOver]
  · rw [hafter.2, executeOn_calls, hbefore.2, Host.handOver]

/-- A stage that fails adds its command only. -/
theorem record_of_runStage_eq_error (hout : out.isForOutput = true)
    (herr : err.isForErrors = true) {failure : Failure}
    (hfail : exec (runStage command out err) h = (.error failure, h')) :
    h'.commands = h.commands ++ [command] ∧ h'.calls = h.calls ∧ ¬ failure.OfTool := by
  obtain ⟨hkind, hrecord⟩ := runStage_eq_error background_sameRecord hout herr hfail
  exact ⟨hrecord.1, hrecord.2, hkind⟩

end Launch

namespace Pipeline

/-! ### The ledger of a state -/

/-- The commands of the steps that have been taken. -/
def State.launched (s : State) : List (List String) :=
  match s.progress with
  | .initial => []
  | .classified _ => []
  | .compiled plan _ => [compilerCommand s.tools plan]
  | .staged plan _ => [compilerCommand s.tools plan]
  | .instrumented plan _ => [compilerCommand s.tools plan, instrumentorCommand s.tools plan]
  | .replayed plan _ => [compilerCommand s.tools plan, instrumentorCommand s.tools plan]
  | .done plan _ => [compilerCommand s.tools plan, instrumentorCommand s.tools plan]

/-- The command that the next step hands over. -/
def State.pending (s : State) : List (List String) :=
  match s.progress with
  | .classified plan => [compilerCommand s.tools plan]
  | .staged plan _ => [instrumentorCommand s.tools plan]
  | _ => []

/-- A call of a command that has ended well. -/
def Succeeded (command : List String) (call : Call) : Prop :=
  call.args = command.tail ∧ call.status = 0

/-- Since `before`, exactly these commands were handed over, and each was run and
ended well. -/
structure Ledger (before : Host) (launched : List (List String)) (h : Host) : Prop where
  commands : h.commands = before.commands ++ launched
  calls : ∃ calls, h.calls = before.calls ++ calls ∧ List.Forall₂ Succeeded launched calls

namespace Ledger

variable {before h h' : Host} {launched : List (List String)}

theorem ofSameRecord (hrecord : SameRecord before h) : Ledger before [] h :=
  ⟨by rw [hrecord.1, List.append_nil], [], by rw [hrecord.2, List.append_nil], .nil⟩

theorem sameRecord (hl : Ledger before launched h) (hrecord : SameRecord h h') :
    Ledger before launched h' := by
  obtain ⟨hcommands, calls, hcalls, hall⟩ := hl
  exact ⟨hrecord.1.trans hcommands, calls, hrecord.2.trans hcalls, hall⟩

/-- A command that has been handed over alone has one call. -/
theorem single {command : List String} (hl : Ledger before [command] h) :
    ∃ call, h.calls = before.calls ++ [call] := by
  obtain ⟨calls, hcalls, hall⟩ := hl.calls
  obtain ⟨call, rfl⟩ := List.length_eq_one_iff.mp hall.length_eq.symm
  exact ⟨call, hcalls⟩

/-- A command that is run well is added. -/
theorem add (hl : Ledger before launched h) {command : List String} {call : Call}
    (hcommands : h'.commands = h.commands ++ [command]) (hcalls : h'.calls = h.calls ++ [call])
    (hcall : Succeeded command call) : Ledger before (launched ++ [command]) h' := by
  obtain ⟨hbefore, calls, hcallsBefore, hall⟩ := hl
  refine ⟨?_, calls ++ [call], ?_, List.rel_append hall (.cons hcall .nil)⟩
  · rw [hcommands, hbefore, List.append_assoc]
  · rw [hcalls, hcallsBefore, List.append_assoc]

end Ledger

/-! ### Steps and runs -/

theorem ledger_note {before h : Host} {launched : List (List String)}
    (hl : Ledger before launched h) (site : Log.Site) {level : Log.Level}
    (hlevel : level.IsProgress) (message : String) :
    Ledger before launched (h.note site level message) :=
  hl.sameRecord (background_sameRecord.note hlevel h site message)

/-- A step keeps the ledger of the state. -/
theorem Advances.ledger {s s' : State} {before h h' : Host} (hstep : Advances s h s' h')
    (hl : Ledger before s.launched h) : Ledger before s'.launched h' := by
  cases hstep with
  | classified hs hrun _ =>
    rw [State.launched, hs] at hl
    exact hl.sameRecord ((background_sameRecord.works_classify s).state hrun)
  | compiled hs hrun hstatus =>
    rw [State.launched, hs] at hl
    obtain ⟨hcommands, -, call, hcalls, hargs, hcall⟩ :=
      Launch.record_of_runStage_eq_ok rfl rfl hrun
    exact (hl.add hcommands hcalls ⟨hargs, hcall.trans hstatus⟩).sameRecord ⟨rfl, rfl⟩
  | @staged _ _ files hs hrun =>
    rw [State.launched, hs] at hl
    have hsame : SameRecord h { h with files } := ⟨rfl, rfl⟩
    exact ledger_note (hl.sameRecord hsame) _ (.inl rfl) _
  | instrumented hs hrun hstatus =>
    rw [State.launched, hs] at hl
    obtain ⟨hcommands, -, call, hcalls, hargs, hcall⟩ :=
      Launch.record_of_runStage_eq_ok rfl rfl hrun
    exact (hl.add hcommands hcalls ⟨hargs, hcall.trans hstatus⟩).sameRecord ⟨rfl, rfl⟩
  | replayed hs hrun =>
    rw [State.launched, hs] at hl
    exact hl.sameRecord ((background_sameRecord.works_replay (fun _ _ => ⟨rfl, rfl⟩) _).state hrun)
  | done hs hrun =>
    rw [State.launched, hs] at hl
    exact hl.sameRecord ((background_sameRecord.works_cleanUp s).state hrun)

variable {args : List String} {tools : Option Toolchain} {before : Host}

/-- In every state that a run reaches, exactly the commands of its steps have been
handed over, and each has been run and has ended well. -/
theorem Reached.ledger {s : State} {h : Host} (hs : Reached args tools before s h) :
    Ledger before s.launched h := by
  induction hs with
  | @started s h hstart =>
    have hrecord := (background_sameRecord.works_start args tools).state hstart
    rw [start_eq_ok hstart]
    exact .ofSameRecord hrecord
  | stepped _ hstep ih => exact ledger_note (hstep.ledger ih) _ (.inr rfl) _

/-- A step that fails has run nothing, or it has run the pending command and that
has ended badly. -/
theorem Fails.ledger {s : State} {h h' : Host} {failure : Failure}
    (hfail : Fails s h failure h') :
    (¬ failure.OfTool ∧ h'.calls = h.calls ∧
      ∃ handed, handed <+: s.pending ∧ h'.commands = h.commands ++ handed) ∨
    ∃ command call, s.pending = [command] ∧ h'.commands = h.commands ++ [command] ∧
      h'.calls = h.calls ++ [call] ∧ call.args = command.tail ∧ call.status ≠ 0 ∧
      failure = .toolFailed call.status command := by
  have hquiet {h' : Host} (hrecord : SameRecord h h') : h'.calls = h.calls ∧
      ∃ handed, handed <+: s.pending ∧ h'.commands = h.commands ++ handed :=
    ⟨hrecord.2, [], List.nil_prefix, hrecord.1.trans (List.append_nil _).symm⟩
  cases hfail with
  | phase expected => exact .inl ⟨id, hquiet (background_sameRecord.refl h)⟩
  | classify hs hrun =>
    have hworks := background_sameRecord.works_classify s
    exact .inl ⟨hworks.error hrun, hquiet (hworks.state hrun)⟩
  | noCompiler hs hrun =>
    obtain ⟨hcommands, hcalls, hkind⟩ := Launch.record_of_runStage_eq_error rfl rfl hrun
    exact .inl ⟨hkind, hcalls, _, by simp [State.pending, hs], hcommands⟩
  | compiler hs hrun hstatus =>
    obtain ⟨hcommands, hcommand, call, hcalls, hargs, hcall⟩ :=
      Launch.record_of_runStage_eq_ok rfl rfl hrun
    rw [hcommand, ← hcall]
    exact .inr ⟨_, call, by rw [State.pending, hs], hcommands, hcalls, hargs, hcall ▸ hstatus, rfl⟩
  | stage hs hrun =>
    refine .inl ⟨?_, hquiet ⟨rfl, rfl⟩⟩
    rw [stagingFailure]
    split <;> exact id
  | noInstrumentor hs hrun =>
    obtain ⟨hcommands, hcalls, hkind⟩ := Launch.record_of_runStage_eq_error rfl rfl hrun
    exact .inl ⟨hkind, hcalls, _, by simp [State.pending, hs], hcommands⟩
  | instrumentor hs hrun hstatus =>
    obtain ⟨hcommands, hcommand, call, hcalls, hargs, hcall⟩ :=
      Launch.record_of_runStage_eq_ok rfl rfl hrun
    rw [hcommand, ← hcall]
    exact .inr ⟨_, call, by rw [State.pending, hs], hcommands, hcalls, hargs, hcall ▸ hstatus, rfl⟩
  | @replay plan last failure h' hs hrun =>
    have hworks := background_sameRecord.works_replay (fun _ _ => ⟨rfl, rfl⟩)
      [Diagnostics.instrumentorFile, plan.captureFile]
    exact .inl ⟨hworks.error hrun, hquiet (hworks.state hrun)⟩
  | cleanUp hs hrun =>
    have hworks := background_sameRecord.works_cleanUp s
    exact .inl ⟨hworks.error hrun, hquiet (hworks.state hrun)⟩

end Pipeline

end MonitoredCompile

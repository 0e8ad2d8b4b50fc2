/-
MonitoredCompile/Proofs/Run/Output.lean

What a run writes to the streams of the host as long as the log is quiet: one line
for each tool that has ended well, what the instrumentor writes itself, and the
replayed files.  `Reached.heard` says this of every state that a run reaches, and
`Fails.heard` of the step that ends it.
-/
import MonitoredCompile.FileSystem.Upkeep
import MonitoredCompile.Proofs.Run.Ledger

namespace MonitoredCompile

open Attempt (exec exec_bind exec_pure)

/-! ### Replaying -/

/-- What comes of a replay, and the bytes that it writes before it ends. -/
def Diagnostics.replayed (fs : FileSystem) : List String → Except Failure Unit × Bytes
  | [] => (.ok (), [])
  | source :: rest =>
    match fs.read source with
    | .error r => (.error (.file (FileOp.faultAt source r)), [])
    | .ok bytes => ((replayed fs rest).1, endLine bytes ++ (replayed fs rest).2)

theorem Diagnostics.exec_replay (sources : List String) {h : Host} (hq : h.log.Quiet) :
    exec (replay Host.writeStderr sources) h =
      ((replayed h.files sources).1, h.writeStderr (replayed h.files sources).2) := by
  induction sources generalizing h with
  | nil =>
    rw [replay, exec_pure, replayed, Host.writeStderr, List.append_nil]
  | cons source rest ih =>
    rw [replay_writeStderr_cons, exec_bind, Run.exec_note, hq.note (.inl rfl)]
    dsimp only
    rw [exec_bind, Run.exec_onFiles, FileOp.exec_ask, replayed]
    cases hread : h.files.read source with
    | error r =>
      rw [Host.writeStderr, List.append_nil]
    | ok bytes =>
      have hrest := ih (h := h.writeStderr (endLine bytes)) hq
      dsimp only
      rw [exec_bind, Run.exec_change]
      refine hrest.trans ?_
      simp only [Host.writeStderr, List.append_assoc]

namespace Pipeline

/-! ### Tools -/

section

variable {s : State} {plan : Plan} {h h' : Host} (hq : h.log.Quiet)
include hq

/-- The compiler is not heard. -/
theorem streams_of_runCompiler_eq_ok {outcome : Launch.Outcome}
    (hok : exec (runCompiler s plan) h = (.ok outcome, h')) :
    h'.log = h.log ∧ h'.stdout = h.stdout ∧ h'.stderr = h.stderr := by
  obtain ⟨handle, program, h₁, hbefore, hafter⟩ := runCompiler_eq_ok background_onlyFiles hok
  have hstreams := Launch.executeOn_toFile h₁ handle program (compilerCommand s.tools plan).tail
  have hq₁ : h₁.log.Quiet := (hbefore.log hq).symm ▸ hq
  exact ⟨(hafter.log hq₁).trans (hbefore.log hq),
    (hafter.stdout hq₁).trans (hstreams.1.trans (hbefore.stdout hq)),
    (hafter.stderr hq₁).trans (hstreams.2.trans (hbefore.stderr hq))⟩

/-- The instrumentor writes to the streams of the host. -/
theorem streams_of_runInstrumentor_eq_ok {outcome : Launch.Outcome}
    (hok : exec (runInstrumentor s plan) h = (.ok outcome, h')) :
    h'.log = h.log ∧ ∃ call, h'.calls = h.calls ++ [call] ∧
      h'.stdout = h.stdout ++ call.written .output ∧
      h'.stderr = h.stderr ++ call.written .errors := by
  obtain ⟨program, h₁, hbefore, hafter⟩ := runInstrumentor_eq_ok background_onlyFiles hok
  have hstreams := Launch.executeOn_ownRoutes h₁ program (instrumentorCommand s.tools plan).tail
  have hq₁ : h₁.log.Quiet := (hbefore.log hq).symm ▸ hq
  refine ⟨(hafter.log hq₁).trans (hbefore.log hq),
    Launch.callOn h₁ Launch.ownRoutes program (instrumentorCommand s.tools plan).tail, ?_, ?_, ?_⟩
  · rw [hafter.calls hq₁, Launch.executeOn_calls, hbefore.calls hq, Host.handOver]
  · rw [hafter.stdout hq₁, hstreams.1, hbefore.stdout hq, Host.handOver]
  · rw [hafter.stderr hq₁, hstreams.2, hbefore.stderr hq, Host.handOver]

end

/-! ### What has been written in a state -/

/-- The line about the compiler. -/
def compilerLine (plan : Plan) : Bytes :=
  Utf8.encode ("TOPL: javac finished successfully. Output in " ++ plan.outputDir ++ "\n")

/-- The line about the instrumentor. -/
def instrumentorLine : Bytes := Utf8.encode ("TOPL: toplc finished successfully." ++ "\n")

/-- The files that are replayed. -/
def replaySources (plan : Plan) : List String := [Diagnostics.instrumentorFile, plan.captureFile]

section

variable (args : List String) (tools : Option Toolchain) (before : Host)

/-- The instrumentor, the last tool to be called, has been heard, and after it
`replayed` has gone to the standard error stream. -/
def HeardBoth (plan : Plan) (replayed : Bytes) (h : Host) : Prop :=
  ∃ call, h.calls.getLast? = some call ∧
    h.stdout = before.stdout ++ (compilerLine plan ++ call.written .output ++ instrumentorLine) ∧
    h.stderr = before.stderr ++ (call.written .errors ++ replayed)

/-- What both files held when the instrumentor had ended, and had been the last of
these calls. -/
def WasKept (plan : Plan) (replayed : Bytes) (calls : List Call) : Prop :=
  ∃ s h, Reached args tools before s h ∧ s.phase = .instrumented ∧ s.plan? = some plan ∧
    h.calls = calls ∧ Diagnostics.replayed h.files (replaySources plan) = (.ok (), replayed)

/-- What has been written to the streams of the host when a run has come to a
state. -/
def Heard (s : State) (h : Host) : Prop :=
  match s.progress with
  | .initial => h.stdout = before.stdout ∧ h.stderr = before.stderr
  | .classified _ => h.stdout = before.stdout ∧ h.stderr = before.stderr
  | .compiled plan _ => h.stdout = before.stdout ++ compilerLine plan ∧ h.stderr = before.stderr
  | .staged plan _ => h.stdout = before.stdout ++ compilerLine plan ∧ h.stderr = before.stderr
  | .instrumented plan _ => HeardBoth before plan [] h
  | .replayed plan _ =>
    ∃ replayed, HeardBoth before plan replayed h ∧ WasKept args tools before plan replayed h.calls
  | .done plan _ =>
    ∃ replayed, HeardBoth before plan replayed h ∧ WasKept args tools before plan replayed h.calls

end

variable {args : List String} {tools : Option Toolchain} {before : Host}

theorem HeardBoth.congr {plan : Plan} {replayed : Bytes} {h h' : Host}
    (hh : HeardBoth before plan replayed h) (hcalls : h'.calls = h.calls)
    (hstdout : h'.stdout = h.stdout) (hstderr : h'.stderr = h.stderr) :
    HeardBoth before plan replayed h' := by
  obtain ⟨call, hcall, hout, herr⟩ := hh
  exact ⟨call, by rw [hcalls, hcall], hstdout.trans hout, hstderr.trans herr⟩

/-- A step of a run with a quiet log leaves the log as it is, and what is heard is
what belongs to the next state. -/
theorem Advances.heard {s s' : State} {h h' : Host} (hs : Reached args tools before s h)
    (hq : h.log.Quiet) (hh : Heard args tools before s h) (hstep : Advances s h s' h') :
    h'.log = h.log ∧ Heard args tools before s' h' := by
  cases hstep with
  | classified hprogress hrun _ =>
    have hfiles := (background_onlyFiles.works_classify s).state hrun
    rw [Heard, hprogress] at hh
    exact ⟨hfiles.log hq, (hfiles.stdout hq).trans hh.1, (hfiles.stderr hq).trans hh.2⟩
  | @compiled plan outcome h₁ hprogress hrun _ =>
    obtain ⟨hlog, hstdout, hstderr⟩ := streams_of_runCompiler_eq_ok hq hrun
    rw [Heard, hprogress] at hh
    refine ⟨hlog, ?_, hstderr.trans hh.2⟩
    rw [Host.printLine, Host.writeStdout, hstdout, hh.1]
    rfl
  | @staged plan last files hprogress hmove =>
    rw [Heard, hprogress] at hh
    rw [Log.Quiet.note (h := { h with files }) hq (.inl rfl)]
    exact ⟨rfl, hh⟩
  | @instrumented plan last outcome h₁ hprogress hrun _ =>
    obtain ⟨hlog, call, hcalls, hstdout, hstderr⟩ := streams_of_runInstrumentor_eq_ok hq hrun
    rw [Heard, hprogress] at hh
    refine ⟨hlog, call, ?_, ?_, ?_⟩
    · rw [Host.printLine, Host.writeStdout, hcalls, List.getLast?_append]
      rfl
    · rw [Host.printLine, Host.writeStdout, hstdout, hh.1]
      simp only [instrumentorLine, List.append_assoc]
    · rw [Host.printLine, Host.writeStdout, hstderr, hh.2, List.append_nil]
  | @replayed plan last h' hprogress hrun =>
    rw [Heard, hprogress] at hh
    rw [replayFiles, Diagnostics.exec_replay _ hq] at hrun
    obtain ⟨hresult, rfl⟩ := Prod.mk.inj hrun
    obtain ⟨call, hcall, hout, herr⟩ := hh
    refine ⟨rfl, _, ⟨call, hcall, hout, ?_⟩, s, h, hs, State.phase_eq hprogress,
      State.plan?_eq hprogress, rfl, Prod.ext hresult rfl⟩
    rw [Host.writeStderr, herr, List.append_nil, List.append_assoc]
    rfl
  | done hprogress hrun =>
    have hfiles := (background_onlyFiles.works_cleanUp s).state hrun
    rw [Heard, hprogress] at hh
    obtain ⟨replayed, hboth, hkept⟩ := hh
    refine ⟨hfiles.log hq, replayed,
      hboth.congr (hfiles.calls hq) (hfiles.stdout hq) (hfiles.stderr hq), ?_⟩
    rw [hfiles.calls hq]
    exact hkept

/-- In every state that a run with a quiet log reaches, the log is as it was, and
what is heard is what belongs to the state. -/
theorem Reached.heard (hq : before.log.Quiet) {s : State} {h : Host}
    (hs : Reached args tools before s h) : h.log = before.log ∧ Heard args tools before s h := by
  induction hs with
  | @started s h hstart =>
    have hfiles := (background_onlyFiles.works_start args tools).state hstart
    rw [start_eq_ok hstart]
    exact ⟨hfiles.log hq, hfiles.stdout hq, hfiles.stderr hq⟩
  | @stepped s h₁ s' h₂ hreached hstep ih =>
    obtain ⟨hlog, hheard⟩ := hstep.heard hreached (ih.1.symm ▸ hq) ih.2
    have hlog' : h₂.log = before.log := hlog.trans ih.1
    rw [noteReached, Log.Quiet.note (hlog'.symm ▸ hq) (.inr rfl)]
    exact ⟨hlog', hheard⟩

end Pipeline

end MonitoredCompile

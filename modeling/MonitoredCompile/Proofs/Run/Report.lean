/-
MonitoredCompile/Proofs/Run/Report.lean

The report of a run.  The command always ends with status zero.  A run that comes
to its end leaves the standard error stream to the tools; a run that fails adds one
line, after everything else, whose form says whether a tool has ended badly
(`reports_of_quiet`).
-/
import MonitoredCompile.Proofs.Run.Outcome
import MonitoredCompile.Proofs.Run.Output

namespace MonitoredCompile

open Attempt (exec)
open Pipeline

/-! ### The standard error stream -/

section

variable (args : List String) (tools : Option Toolchain) (before : Host)

/-- Nothing, or what a replay, finished or not, of the two files writes. -/
def MayBeReplayed (bytes : Bytes) : Prop :=
  bytes = [] ∨ ∃ s h plan, Reached args tools before s h ∧ s.phase = .instrumented ∧
    s.plan? = some plan ∧ bytes = (Diagnostics.replayed h.files (replaySources plan)).2

/-- All that is on the standard error stream comes from the instrumentor, the
second tool to be called, and from the replay.  The log is as it was. -/
structure ErrorsOf (calls : List Call) (replayed : Bytes) (h : Host) : Prop where
  log : h.log = before.log
  record : h.calls = before.calls ++ calls
  stderr : h.stderr
    = before.stderr ++ ((calls.drop 1).flatMap (Call.written · .errors) ++ replayed)
  rest : MayBeReplayed args tools before replayed

end

variable {args : List String} {tools : Option Toolchain} {before : Host}

theorem ErrorsOf.background {calls : List Call} {replayed : Bytes} {h h' : Host}
    (he : ErrorsOf args tools before calls replayed h) (hq : h.log.Quiet)
    (hfiles : OnlyFiles h h') : ErrorsOf args tools before calls replayed h' :=
  ⟨(hfiles.log hq).trans he.log, (hfiles.calls hq).trans he.record,
    (hfiles.stderr hq).trans he.stderr, he.rest⟩

/-- What is on the standard error stream in a state that a run reaches. -/
theorem Pipeline.Reached.errors (hq : before.log.Quiet) {s : State} {h : Host}
    (hs : Reached args tools before s h) :
    ∃ calls replayed, ErrorsOf args tools before calls replayed h ∧
      List.Forall₂ Succeeded s.launched calls := by
  obtain ⟨-, calls, hcalls, hall⟩ := hs.ledger
  have hlength := hall.length_eq
  obtain ⟨hlog, hheard⟩ := hs.heard hq
  -- The instrumentor has been called once both commands have been handed over.
  have hboth {plan : Plan} {replayed : Bytes} (hlaunched : s.launched.length = 2)
      (hheard : HeardBoth before plan replayed h)
      (hreplayed : MayBeReplayed args tools before replayed) :
      ErrorsOf args tools before calls replayed h := by
    obtain ⟨call, hlast, -, hstderr⟩ := hheard
    obtain ⟨c, i, rfl⟩ := List.length_eq_two.mp (hlength.symm.trans hlaunched)
    rw [hcalls, List.getLast?_append] at hlast
    cases hlast
    refine ⟨hlog, hcalls, hstderr.trans ?_, hreplayed⟩
    simp
  have hfew (hlaunched : s.launched.length ≤ 1) (hstderr : h.stderr = before.stderr) :
      ErrorsOf args tools before calls [] h := by
    refine ⟨hlog, hcalls, hstderr.trans ?_, .inl rfl⟩
    rw [List.drop_eq_nil_of_le (hlength ▸ hlaunched)]
    simp
  unfold Heard at hheard
  cases hprogress : s.progress <;> rw [hprogress] at hheard
  · exact ⟨calls, [], hfew (by simp [State.launched, hprogress]) hheard.2, hall⟩
  · exact ⟨calls, [], hfew (by simp [State.launched, hprogress]) hheard.2, hall⟩
  · exact ⟨calls, [], hfew (by simp [State.launched, hprogress]) hheard.2, hall⟩
  · exact ⟨calls, [], hfew (by simp [State.launched, hprogress]) hheard.2, hall⟩
  · exact ⟨calls, [], hboth (by simp [State.launched, hprogress]) hheard (.inl rfl), hall⟩
  all_goals
    obtain ⟨replayed, hheard, s₁, h₁, hs₁, hphase, hplan, -, hkept⟩ := hheard
    exact ⟨calls, replayed, hboth (by simp [State.launched, hprogress]) hheard
      (.inr ⟨s₁, h₁, _, hs₁, hphase, hplan, by rw [hkept]⟩), hall⟩

/-- What is on the standard error stream when a step has failed. -/
theorem Pipeline.Fails.errors (hq : before.log.Quiet) {s : State} {h h' : Host}
    {failure : Failure} (hs : Reached args tools before s h) (hfail : Fails s h failure h') :
    ∃ calls replayed, ErrorsOf args tools before calls replayed h' := by
  obtain ⟨calls, replayed, herrors, hall⟩ := hs.errors hq
  have hlog : h.log.Quiet := herrors.log.symm ▸ hq
  have hbackground {h' : Host} (hfiles : OnlyFiles h h') :
      ∃ calls replayed, ErrorsOf args tools before calls replayed h' :=
    ⟨calls, replayed, herrors.background hlog hfiles⟩
  have hheard := (hs.heard hq).2
  have hlength := hall.length_eq
  cases hfail with
  | phase expected => exact ⟨calls, replayed, herrors⟩
  | classify hprogress hrun => exact hbackground ((background_onlyFiles.works_classify s).state hrun)
  | noCompiler hprogress hrun | noInstrumentor hprogress hrun =>
    have hfiles := (Launch.runStage_eq_error background_onlyFiles rfl rfl hrun).2
    exact ⟨calls, replayed, (hfiles.log hlog).trans herrors.log,
      (hfiles.calls hlog).trans herrors.record, (hfiles.stderr hlog).trans herrors.stderr,
      herrors.rest⟩
  | compiler hprogress hrun hstatus =>
    obtain ⟨-, -, call, hcalls, -⟩ := Launch.record_of_runStage_eq_ok rfl rfl hrun
    obtain ⟨hsame, -, hstderr⟩ := streams_of_runCompiler_eq_ok hlog hrun
    rw [State.launched, hprogress] at hlength
    -- This call is the first, and its streams went to the capture file.
    obtain rfl := List.length_eq_zero_iff.mp hlength.symm
    refine ⟨[call], replayed, hsame.trans herrors.log, ?_, hstderr.trans herrors.stderr,
      herrors.rest⟩
    rw [hcalls, herrors.record, List.append_nil]
  | stage hprogress hrun => exact hbackground fun _ => rfl
  | instrumentor hprogress hrun hstatus =>
    obtain ⟨hsame, call, hcalls, -, hstderr⟩ := streams_of_runInstrumentor_eq_ok hlog hrun
    rw [Heard, hprogress] at hheard
    rw [State.launched, hprogress] at hlength
    -- This call is the second, and nothing was replayed before it.
    obtain ⟨c, rfl⟩ := List.length_eq_one_iff.mp hlength.symm
    refine ⟨[c, call], [], hsame.trans herrors.log, ?_, ?_, .inl rfl⟩
    · rw [hcalls, herrors.record]
      simp
    · rw [hstderr, hheard.2]
      simp
  | @replay plan last failure h' hprogress hrun =>
    rw [replayFiles, Diagnostics.exec_replay _ hlog] at hrun
    obtain ⟨-, rfl⟩ := Prod.mk.inj hrun
    -- What a replay has written before it failed stays written.
    rw [Heard, hprogress] at hheard
    obtain ⟨call, hlast, -, hstderr⟩ := hheard
    rw [State.launched, hprogress] at hlength
    obtain ⟨c, i, rfl⟩ := List.length_eq_two.mp hlength.symm
    rw [herrors.record, List.getLast?_append] at hlast
    cases hlast
    refine ⟨[c, i], _, herrors.log, herrors.record, ?_,
      .inr ⟨s, h, plan, hs, State.phase_eq hprogress, State.plan?_eq hprogress, rfl⟩⟩
    rw [Host.writeStderr, hstderr]
    simp [replaySources]
  | cleanUp hprogress hrun => exact hbackground ((background_onlyFiles.works_cleanUp s).state hrun)

/-! ### The report -/

namespace Failure

/-- The kinds of failure that are the command's own. -/
def IsOwn : Failure → Prop
  | malformedArgFile => True
  | missingToolDir _ => True
  | staging _ _ _ => True
  | _ => False

/-- A failure that is no tool's is reported with its message. -/
theorem report_of_not_ofTool {failure : Failure} (h : ¬ failure.OfTool) :
    (failure.IsOwn → failure.report = "E: " ++ failure.message) ∧
      (¬ failure.IsOwn → failure.report = "E: Exception (" ++ failure.message ++ ").") := by
  cases failure with
  | toolFailed status command => exact absurd trivial h
  | malformedArgFile | missingToolDir dir | staging src dst cause =>
    exact ⟨fun _ => rfl, fun hown => absurd trivial hown⟩
  | _ => exact ⟨False.elim, fun _ => rfl⟩

end Failure

theorem Command.beforeReport_of_quiet (failure : Failure) {h : Host} (hq : h.log.Quiet) :
    Command.beforeReport failure h = h := by
  unfold Command.beforeReport
  split
  · rfl
  · rfl
  · rfl
  · rfl
  · exact hq.note (.inl rfl) _ _

/-- The command runs the pipeline and reports its failure, if there is one. -/
theorem Command.exec_compile (args : List String) {before : Host} (hq : before.log.Quiet)
    (hlog : (exec (Pipeline.run args) before).2.log.Quiet) :
    exec (Command.compile args) before =
      match exec (Pipeline.run args) before with
      | (.ok _, ran) => (.ok 0, ran)
      | (.error failure, ran) => (.ok 0, ran.inform (failure.report ++ "\n")) := by
  have hentered : Command.entered args before = before := hq.note (.inr rfl) _ _
  rw [Command.exec_compile_eq, hentered]
  revert hlog
  rcases exec (Pipeline.run args) before with ⟨failure | s, ran⟩ <;> intro hlog
  · dsimp only
    rw [Command.beforeReport_of_quiet failure hlog]
  · rfl

/-- The line about a failed run: its form tells whether a tool has ended badly,
and if one has, which and how. -/
structure Reports (failure : Failure) (calls : List Call) (commands : List (List String))
    (report : String) : Prop where
  tool_iff : (∃ (status : Int) (command : List String), report
      = "failed (errorcode " ++ toString status ++ ") to run: " ++ Text.join " " command) ↔
    ∃ call ∈ calls, call.status ≠ 0
  ofTool : ∀ call ∈ calls, call.status ≠ 0 → ∃ command, commands.getLast? = some command ∧
    report = "failed (errorcode " ++ toString call.status ++ ") to run: " ++ Text.join " " command
  own : (∀ call ∈ calls, call.status = 0) → failure.IsOwn → report = "E: " ++ failure.message
  other : (∀ call ∈ calls, call.status = 0) → ¬ failure.IsOwn →
    report = "E: Exception (" ++ failure.message ++ ")."

/-- As long as no tool has ended badly, the report does not say that one has. -/
theorem Reports.of_not_ofTool {failure : Failure} {calls : List Call}
    (hcalls : ∀ call ∈ calls, call.status = 0) (hkind : ¬ failure.OfTool)
    (commands : List (List String)) : Reports failure calls commands failure.report := by
  have hreport := Failure.report_of_not_ofTool hkind
  refine ⟨⟨fun ⟨status, command, htext⟩ => ?_, fun ⟨call, hcall, hstatus⟩ => ?_⟩,
    fun call hcall hstatus => absurd (hcalls call hcall) hstatus, fun _ => hreport.1,
    fun _ => hreport.2⟩
  -- The reports differ in their first letter.
  · have hfirst : failure.report.toList.head? = some 'f' := by
      rw [htext]
      simp
    by_cases hown : failure.IsOwn
    · rw [hreport.1 hown] at hfirst
      simp at hfirst
    · rw [hreport.2 hown] at hfirst
      simp at hfirst
  · exact absurd (hcalls call hcall) hstatus

/-- A tool that has ended badly is the last that was called. -/
theorem Reports.of_tool {calls : List Call} (hcalls : ∀ call ∈ calls, call.status = 0)
    {last : Call} (hlast : last.status ≠ 0) {commands : List (List String)} {command : List String} :
    Reports (.toolFailed last.status command) (calls ++ [last]) (commands ++ [command])
      (Failure.toolFailed last.status command).report := by
  have hmem : last ∈ calls ++ [last] := List.mem_append_right _ (List.mem_singleton_self _)
  refine ⟨⟨fun _ => ⟨last, hmem, hlast⟩, fun _ => ⟨_, _, rfl⟩⟩, fun call hcall hstatus => ?_,
    fun hall => absurd (hall last hmem) hlast, fun hall => absurd (hall last hmem) hlast⟩
  rcases List.mem_append.mp hcall with hcall | hcall
  · exact absurd (hcalls call hcall) hstatus
  · rw [List.mem_singleton.mp hcall]
    exact ⟨command, by rw [List.getLast?_append]; rfl, rfl⟩

theorem status_of_succeeded {launched : List (List String)} {calls : List Call}
    (h : List.Forall₂ Succeeded launched calls) : ∀ call ∈ calls, call.status = 0 := by
  induction h with
  | nil => simp
  | cons hcall _ ih => exact List.forall_mem_cons.mpr ⟨hcall.2, ih⟩

/-- **The report of a run.**  The command ends with status zero.  If its run comes
to its end, it adds nothing to what the run has written; otherwise it adds one
line after everything else. -/
theorem reports_of_quiet (args : List String) (before : Host) (hq : before.log.Quiet) :
    ∃ result ran calls replayed, exec (Pipeline.run args) before = (result, ran) ∧
      ErrorsOf args none before calls replayed ran ∧
      ((∃ s, result = .ok s ∧ s.phase = .done ∧ (∀ call ∈ calls, call.status = 0) ∧
          exec (Command.compile args) before = (.ok 0, ran)) ∨
        ∃ failure report, result = .error failure ∧ Reports failure calls ran.commands report ∧
          exec (Command.compile args) before
            = (.ok 0, { ran with stderr := ran.stderr ++ Utf8.encode (report ++ "\n") })) := by
  have hends := ends_run args none before
  cases hrun : exec (Pipeline.run args) before with
  | mk result ran =>
    have hcompile (hlog : ran.log.Quiet) := Command.exec_compile args hq (by rw [hrun]; exact hlog)
    rw [hrun] at hends hcompile
    cases result with
    | ok s =>
      obtain ⟨hs, hdone⟩ := hends
      obtain ⟨calls, replayed, herrors, hall⟩ := hs.errors hq
      exact ⟨.ok s, ran, calls, replayed, rfl, herrors, .inl ⟨s, rfl, hdone,
        status_of_succeeded hall, hcompile (herrors.log.symm ▸ hq)⟩⟩
    | error failure =>
      rcases hends with hstart | ⟨s, h, hs, hfail⟩
      · have hworks := background_onlyFiles.works_start args none
        have hfiles := hworks.state hstart
        refine ⟨.error failure, ran, [], [], rfl, ⟨hfiles.log hq, ?_, ?_, .inl rfl⟩,
          .inr ⟨failure, failure.report, rfl, ?_, hcompile ((hfiles.log hq).symm ▸ hq)⟩⟩
        · rw [hfiles.calls hq, List.append_nil]
        · rw [hfiles.stderr hq]
          simp
        · exact .of_not_ofTool (by simp) (hworks.error hstart) _
      · obtain ⟨-, ended, hended, hall⟩ := hs.ledger
        have hstatus := status_of_succeeded hall
        obtain ⟨calls, replayed, herrors⟩ := hfail.errors hq hs
        refine ⟨.error failure, ran, calls, replayed, rfl, herrors,
          .inr ⟨failure, failure.report, rfl, ?_, hcompile (herrors.log.symm ▸ hq)⟩⟩
        rcases hfail.ledger with ⟨hkind, hsame, -⟩ |
          ⟨command, call, -, hcommands, hcalls, -, hbad, rfl⟩
        · have : calls = ended := by
            have hrecord := herrors.record
            rw [hsame, hended] at hrecord
            exact (List.append_cancel_left hrecord).symm
          exact .of_not_ofTool (this ▸ hstatus) hkind _
        · have : calls = ended ++ [call] := by
            have hrecord := herrors.record
            rw [hcalls, hended, List.append_assoc] at hrecord
            exact (List.append_cancel_left hrecord).symm
          rw [this, hcommands]
          exact .of_tool hstatus hbad

/-- A host whose compiler finds an error. -/
def rejectingHost : Host where
  files := ⟨.dir [("bin", .dir [
      ("javac", .file { bytes := [], executable := true, program := some "javac" })]),
    ("tmp", .dir [])], some [], []⟩
  programs _ _ := .emit .errors [0x3F] (.exit 1)
  scratchDir := "/tmp"

theorem reports_rejectingHost :
    rejectingHost.log.Quiet ∧
      ∃ ran calls replayed failure report,
        exec (Pipeline.run ["A.java"]) rejectingHost = (.error failure, ran) ∧
        ErrorsOf ["A.java"] none rejectingHost calls replayed ran ∧
        Reports failure calls ran.commands report ∧
        exec (Command.compile ["A.java"]) rejectingHost
          = (.ok 0, { ran with stderr := ran.stderr ++ Utf8.encode (report ++ "\n") }) := by
  have hq : rejectingHost.log.Quiet := Log.unset_default.quiet
  have hfails : (exec (Pipeline.run ["A.java"]) rejectingHost).1.isOk = false := by decide +kernel
  obtain ⟨result, ran, calls, replayed, hrun, herrors, hends⟩ :=
    reports_of_quiet ["A.java"] rejectingHost hq
  refine ⟨hq, ran, calls, replayed, ?_⟩
  rcases hends with ⟨s, rfl, -⟩ | ⟨failure, report, rfl, hreports, hcompile⟩
  · rw [hrun] at hfails
    cases hfails
  · exact ⟨failure, report, hrun, herrors, hreports, hcompile⟩

end MonitoredCompile

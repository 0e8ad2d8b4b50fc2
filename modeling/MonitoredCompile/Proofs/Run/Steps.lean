/-
MonitoredCompile/Proofs/Run/Steps.lean

Everything that a step of a run can do, said once.  `Advances` lists what a step
that succeeds has done, `Fails` what one that fails has done, and `Reached` holds
of the states that a run comes to.  What is proved of every run is proved of the
cases of these three.
-/
import MonitoredCompile.Proofs.Arguments.Partition
import MonitoredCompile.Proofs.Parallel
import MonitoredCompile.Proofs.Run.Launch

namespace MonitoredCompile.Pipeline

open Attempt (exec exec_bind exec_tryCatch exec_bind_eq_ok Parallel)
open Launch (Outcome)

/-! ### The plan -/

/-- What a plan is made of: the classified arguments, the resolved output
directory and two fresh temporary places, in this order. -/
def Planned (args : List String) (before : Host) (plan : Plan) (after : Host) : Prop :=
  ∃ tokens h₁ h₂ h₃ h₄,
    exec (Arguments.expand args) before = (.ok tokens, h₁) ∧
    exec (Arguments.classifyLogged tokens) h₁ = (.ok plan.args, h₂) ∧
    plan.args = Arguments.classify tokens ∧
    exec (resolveOutputDir plan.args.outputDir)
      (h₂.note (site "classifyArgs") .debug ("classified: " ++ plan.args.shown))
        = (.ok plan.outputDir, h₃) ∧
    exec (Scratch.makeFile "topljavac" "stderr") h₃ = (.ok plan.captureFile, h₄) ∧
    exec (Scratch.makeDir "topljavac-in") h₄ = (.ok plan.stagingDir, after)

theorem classifyLogged_eq_ok {tokens : List String} {args : Arguments.Classified} {h h' : Host}
    (hok : exec (Arguments.classifyLogged tokens) h = (.ok args, h')) :
    args = Arguments.classify tokens := by
  have hresult := Arguments.classifyLogged_result tokens h
  rw [hok] at hresult
  cases hresult
  rfl

/-! ### What a step does -/

/-- The stage of the compiler. -/
def runCompiler (s : State) (plan : Plan) : Run Outcome :=
  Launch.runStage (compilerCommand s.tools plan) (.file plan.captureFile) .merge

/-- The stage of the instrumentor. -/
def runInstrumentor (s : State) (plan : Plan) : Run Outcome :=
  Launch.runStage (instrumentorCommand s.tools plan) .inherit .inherit

/-- A compiler that could be run had both its streams in one file. -/
theorem runCompiler_eq_ok {R : Host → Host → Prop} (hR : Background R) {s : State} {plan : Plan}
    {h h' : Host} {outcome : Outcome} (hok : exec (runCompiler s plan) h = (.ok outcome, h')) :
    ∃ handle program h₁, R (h.handOver (compilerCommand s.tools plan)) h₁ ∧
      R (Launch.executeOn h₁ (fun _ => .file handle) program
        (compilerCommand s.tools plan).tail).2 h' := by
  obtain ⟨routes, program, h₁, hready, hbefore, -, hafter⟩ := Launch.runStage_eq_ok hR rfl rfl hok
  obtain ⟨-, h₂, -, hroutes, -⟩ := Launch.ready_eq_ok hready
  rw [show Launch.sharedErrors (.file plan.captureFile) .merge = .merge from rfl,
    Launch.exec_openRoutes_file] at hroutes
  split at hroutes <;> cases hroutes
  exact ⟨_, program, h₁, hbefore, hafter⟩

/-- An instrumentor that could be run had the streams of the host. -/
theorem runInstrumentor_eq_ok {R : Host → Host → Prop} (hR : Background R) {s : State}
    {plan : Plan} {h h' : Host} {outcome : Outcome}
    (hok : exec (runInstrumentor s plan) h = (.ok outcome, h')) :
    ∃ program h₁, R (h.handOver (instrumentorCommand s.tools plan)) h₁ ∧
      R (Launch.executeOn h₁ Launch.ownRoutes program
        (instrumentorCommand s.tools plan).tail).2 h' := by
  obtain ⟨routes, program, h₁, hready, hbefore, -, hafter⟩ := Launch.runStage_eq_ok hR rfl rfl hok
  obtain ⟨-, h₂, -, hroutes, -⟩ := Launch.ready_eq_ok hready
  rw [show Launch.sharedErrors .inherit .inherit = .inherit from rfl,
    Launch.exec_openRoutes_inherit] at hroutes
  cases hroutes
  exact ⟨program, h₁, hbefore, hafter⟩

/-- The replay of what both tools had to say. -/
def replayFiles (plan : Plan) : Run Unit :=
  Diagnostics.replay Host.writeStderr [Diagnostics.instrumentorFile, plan.captureFile]

/-- A step that succeeds, from one state and host to the next. -/
inductive Advances (s : State) (h : Host) : State → Host → Prop
  | classified {plan h'} : s.progress = .initial →
      exec (classify s) h = (.ok { s with progress := .classified plan }, h') →
      Planned s.rawArgs h plan h' →
      Advances s h { s with progress := .classified plan } h'
  | compiled {plan outcome h₁} : s.progress = .classified plan →
      exec (runCompiler s plan) h = (.ok outcome, h₁) → outcome.status = 0 →
      Advances s h { s with progress := .compiled plan outcome }
        (h₁.printLine ("TOPL: javac finished successfully. Output in " ++ plan.outputDir))
  | staged {plan last files} : s.progress = .compiled plan last →
      exec (moveAside plan) h.files = (.ok (), files) →
      Advances s h { s with progress := .staged plan last }
        ({ h with files }.note (site "stageOutput") .debug
          ("staged " ++ plan.outputDir ++ " as " ++ plan.stagingDir))
  | instrumented {plan last outcome h₁} : s.progress = .staged plan last →
      exec (runInstrumentor s plan) h = (.ok outcome, h₁) → outcome.status = 0 →
      Advances s h { s with progress := .instrumented plan outcome }
        (h₁.printLine "TOPL: toplc finished successfully.")
  | replayed {plan last h'} : s.progress = .instrumented plan last →
      exec (replayFiles plan) h = (.ok (), h') →
      Advances s h { s with progress := .replayed plan last } h'
  | done {plan last h'} : s.progress = .replayed plan last →
      exec (cleanUp s) h = (.ok { s with progress := .done plan last }, h') →
      Advances s h { s with progress := .done plan last } h'

/-- How the file system's fault ends a run that moves the classes aside. -/
def stagingFailure (plan : Plan) (fault : FileFault) : Failure :=
  if fault.fromSystem then .staging plan.outputDir plan.stagingDir fault else .file fault

/-- A step that fails, with the failure and the host that it leaves. -/
inductive Fails (s : State) (h : Host) : Failure → Host → Prop
  | phase (expected : Phase) : Fails s h (.wrongPhase expected s.phase) h
  | classify {failure h'} : s.progress = .initial →
      exec (classify s) h = (.error failure, h') → Fails s h failure h'
  | noCompiler {plan failure h'} : s.progress = .classified plan →
      exec (runCompiler s plan) h = (.error failure, h') → Fails s h failure h'
  | compiler {plan outcome h'} : s.progress = .classified plan →
      exec (runCompiler s plan) h = (.ok outcome, h') → outcome.status ≠ 0 →
      Fails s h (.toolFailed outcome.status outcome.command) h'
  | stage {plan last fault files} : s.progress = .compiled plan last →
      exec (moveAside plan) h.files = (.error fault, files) →
      Fails s h (stagingFailure plan fault) { h with files }
  | noInstrumentor {plan last failure h'} : s.progress = .staged plan last →
      exec (runInstrumentor s plan) h = (.error failure, h') → Fails s h failure h'
  | instrumentor {plan last outcome h'} : s.progress = .staged plan last →
      exec (runInstrumentor s plan) h = (.ok outcome, h') → outcome.status ≠ 0 →
      Fails s h (.toolFailed outcome.status outcome.command) h'
  | replay {plan last failure h'} : s.progress = .instrumented plan last →
      exec (replayFiles plan) h = (.error failure, h') → Fails s h failure h'
  | cleanUp {plan last failure h'} : s.progress = .replayed plan last →
      exec (cleanUp s) h = (.error failure, h') → Fails s h failure h'

/-- What a step may give: the next state, or a failure. -/
def Gives (s : State) (h : Host) : Except Failure State × Host → Prop
  | (.ok s', h') => Advances s h s' h'
  | (.error failure, h') => Fails s h failure h'

/-! ### Each step -/

/-- A step of another phase. -/
theorem gives_refused {s : State} {progress : Progress} (hs : s.progress = progress)
    {expected : Phase} {h : Host} :
    Gives s h (.error (.wrongPhase expected progress.phase), h) := by
  have hfails := Fails.phase (s := s) (h := h) expected
  rwa [State.phase, hs] at hfails

theorem gives_classify (s : State) (h : Host) : Gives s h (exec (classify s) h) := by
  cases hs : s.progress with
  | initial =>
    cases hrun : exec (classify s) h with
    | mk result h' =>
      cases result with
      | error failure => exact .classify hs hrun
      | ok s' =>
        have hclassify := hrun
        rw [classify, hs] at hrun
        obtain ⟨tokens, h₁, htokens, hrun⟩ := exec_bind_eq_ok.mp hrun
        obtain ⟨args, h₂, hargs, hrun⟩ := exec_bind_eq_ok.mp hrun
        obtain ⟨_, h₃, hnote, hrun⟩ := exec_bind_eq_ok.mp hrun
        cases hnote
        obtain ⟨outputDir, h₄, hdir, hrun⟩ := exec_bind_eq_ok.mp hrun
        obtain ⟨captureFile, h₅, hcapture, hrun⟩ := exec_bind_eq_ok.mp hrun
        obtain ⟨stagingDir, h₆, hstaging, hrun⟩ := exec_bind_eq_ok.mp hrun
        cases hrun
        exact .classified hs hclassify ⟨tokens, h₁, h₂, h₄, h₅, htokens, hargs,
          classifyLogged_eq_ok hargs, hdir, hcapture, hstaging⟩
  | _ =>
    rw [classify, hs]
    exact gives_refused hs

/-- A tool that has to succeed, and what is done if it does. -/
def required (stage : Run Outcome) (line : String) (next : Outcome → State) : Run State := do
  let outcome ← stage
  requireSuccess outcome
  Run.change fun h => h.printLine line
  pure (next outcome)

theorem exec_required (stage : Run Outcome) (line : String) (next : Outcome → State) (h : Host) :
    exec (required stage line next) h =
      match exec stage h with
      | (.error failure, h₁) => (.error failure, h₁)
      | (.ok outcome, h₁) =>
        if outcome.status = 0 then (.ok (next outcome), h₁.printLine line)
        else (.error (.toolFailed outcome.status outcome.command), h₁) := by
  rw [required, exec_bind]
  rcases exec stage h with ⟨failure | outcome, h₁⟩
  · rfl
  · dsimp only
    by_cases hstatus : outcome.status = 0
    · rw [requireSuccess, if_neg (not_not_intro hstatus), if_pos hstatus]
      rfl
    · rw [requireSuccess, if_pos hstatus, if_neg hstatus]
      rfl

/-- Two runs of a tool that has to succeed. -/
theorem parallel_required {R : Host → Host → Prop} {stage : Run Outcome} {h h' : Host}
    (hstage : Parallel R stage h h') (line : String)
    (hline : ∀ k k', R k k' → R (k.printLine line) (k'.printLine line)) (next : Outcome → State) :
    Parallel R (required stage line next) h h' := by
  refine hstage.bind fun outcome k k' _ _ hk => ?_
  rw [requireSuccess]
  split
  · exact Parallel.bind (.throw hk _) fun _ m m' hm _ _ => by cases hm
  · refine Parallel.bind (.pure hk _) fun _ m m' _ _ hm => ?_
    exact Parallel.bind (.of_exec (Run.exec_change _ m) (Run.exec_change _ m') (hline m m' hm))
      fun _ n n' _ _ hn => .pure hn _

theorem exec_compile {s : State} {plan : Plan} (hs : s.progress = .classified plan) (h : Host) :
    exec (compile s) h = exec (required (runCompiler s plan)
      ("TOPL: javac finished successfully. Output in " ++ plan.outputDir)
      fun outcome => { s with progress := .compiled plan outcome }) h := by
  rw [compile, hs]
  rfl

theorem gives_compile (s : State) (h : Host) : Gives s h (exec (compile s) h) := by
  cases hs : s.progress with
  | classified plan =>
    rw [exec_compile hs, exec_required]
    cases hrun : exec (runCompiler s plan) h with
    | mk result h₁ =>
      cases result with
      | error failure => exact .noCompiler hs hrun
      | ok outcome =>
        dsimp only
        split
        · next hstatus => exact .compiled hs hrun hstatus
        · next hstatus => exact .compiler hs hrun hstatus
  | _ =>
    rw [compile, hs]
    exact gives_refused hs

theorem exec_instrument {s : State} {plan : Plan} {last : Outcome} (hs : s.progress = .staged plan last)
    (h : Host) :
    exec (instrument s) h = exec (required (runInstrumentor s plan)
      "TOPL: toplc finished successfully."
      fun outcome => { s with progress := .instrumented plan outcome }) h := by
  rw [instrument, hs]
  rfl

theorem gives_instrument (s : State) (h : Host) : Gives s h (exec (instrument s) h) := by
  cases hs : s.progress with
  | staged plan last =>
    rw [exec_instrument hs, exec_required]
    cases hrun : exec (runInstrumentor s plan) h with
    | mk result h₁ =>
      cases result with
      | error failure => exact .noInstrumentor hs hrun
      | ok outcome =>
        dsimp only
        split
        · next hstatus => exact .instrumented hs hrun hstatus
        · next hstatus => exact .instrumentor hs hrun hstatus
  | _ =>
    rw [instrument, hs]
    exact gives_refused hs

theorem exec_stage {s : State} {plan : Plan} {last : Outcome} (hs : s.progress = .compiled plan last)
    (h : Host) :
    exec (stage s) h =
      match exec (moveAside plan) h.files with
      | (.ok _, files) => (.ok { s with progress := .staged plan last },
          { h with files }.note (site "stageOutput") .debug
            ("staged " ++ plan.outputDir ++ " as " ++ plan.stagingDir))
      | (.error fault, files) => (.error (stagingFailure plan fault), { h with files }) := by
  rw [stage, hs]
  dsimp only
  rw [exec_bind, exec_tryCatch, Run.exec_onFiles]
  rcases exec (moveAside plan) h.files with ⟨fault | _, files⟩
  · dsimp only [stagingFailure]
    cases fault.fromSystem <;> rfl
  · rfl

theorem gives_stage (s : State) (h : Host) : Gives s h (exec (stage s) h) := by
  cases hs : s.progress with
  | compiled plan last =>
    rw [exec_stage hs]
    cases hmove : exec (moveAside plan) h.files with
    | mk result files =>
      cases result with
      | ok _ => exact .staged hs hmove
      | error fault => exact .stage hs hmove
  | _ =>
    rw [stage, hs]
    exact gives_refused hs

theorem exec_replayStep {s : State} {plan : Plan} {last : Outcome}
    (hs : s.progress = .instrumented plan last) (h : Host) :
    exec (replay s) h =
      match exec (replayFiles plan) h with
      | (.ok (), h') => (.ok { s with progress := .replayed plan last }, h')
      | (.error failure, h') => (.error failure, h') := by
  rw [replay, hs]
  dsimp only
  rw [exec_bind, replayFiles]
  rcases exec (Diagnostics.replay Host.writeStderr
    [Diagnostics.instrumentorFile, plan.captureFile]) h with ⟨failure | ⟨⟩, h'⟩ <;> rfl

theorem gives_replay (s : State) (h : Host) : Gives s h (exec (replay s) h) := by
  cases hs : s.progress with
  | instrumented plan last =>
    rw [exec_replayStep hs]
    cases hrun : exec (replayFiles plan) h with
    | mk result h' =>
      cases result with
      | ok _ => exact .replayed hs hrun
      | error failure => exact .replay hs hrun
  | _ =>
    rw [replay, hs]
    exact gives_refused hs

theorem gives_cleanUp (s : State) (h : Host) : Gives s h (exec (cleanUp s) h) := by
  cases hs : s.progress with
  | replayed plan last =>
    cases hrun : exec (cleanUp s) h with
    | mk result h' =>
      cases result with
      | error failure => exact .cleanUp hs hrun
      | ok s' =>
        have hs' : s' = { s with progress := .done plan last } := by
          rw [cleanUp, hs] at hrun
          obtain ⟨_, h₁, -, hrun⟩ := exec_bind_eq_ok.mp hrun
          obtain ⟨_, h₂, -, hrun⟩ := exec_bind_eq_ok.mp hrun
          cases hrun
          rfl
        subst hs'
        exact .done hs hrun
  | _ =>
    rw [cleanUp, hs]
    exact gives_refused hs

theorem gives_step {step : State → Run State} (hstep : step ∈ steps) (s : State) (h : Host) :
    Gives s h (exec (step s) h) := by
  simp only [steps, List.mem_cons, List.not_mem_nil, or_false] at hstep
  rcases hstep with rfl | rfl | rfl | rfl | rfl | rfl
  · exact gives_classify s h
  · exact gives_compile s h
  · exact gives_stage s h
  · exact gives_instrument s h
  · exact gives_replay s h
  · exact gives_cleanUp s h

end MonitoredCompile.Pipeline

/-
MonitoredCompile/Proofs/Run/Logging.lean

What is logged does not change what the command does.  Two runs of the command, with the same
log file and with levels that may be anything, end in the same way, print the same and leave the
same files but for the log (`program_of_sameButLevel`).

The log file has to be one that nothing but the log comes to (`Aloof`): no argument file, nothing
that a stage opens or runs, nothing that is moved aside, replayed or removed in the end.  This is
asked of the first of the two runs only.  The other one goes through the same states, as no part
of it can tell the two hosts apart (`SameButLog`).
-/
import MonitoredCompile.Proofs.Log.Requests
import MonitoredCompile.Proofs.Run.HeedlessStage
import MonitoredCompile.Proofs.Run.Outcome
import MonitoredCompile.Proofs.Run.Streams

namespace MonitoredCompile

open Attempt (exec exec_bind exec_tryCatch Keeps Parallel)
open FileSystem (Rewritten)

variable {handle : Nat} {o : Option Location} {h h' : Host}

/-! ### The pipeline -/

namespace Pipeline

open Diagnostics (instrumentorFile)

/-- Nothing that a run does comes to the file. -/
structure Aloof (handle : Nat) (o : Option Location) (args : List String) (tools : Option Toolchain)
    (before : Host) : Prop where
  /-- It is no argument file. -/
  argumentFiles : ∀ s k, Reached args tools before s k → s.progress = .initial →
    ∀ token ∈ args, ∀ file, Arguments.fileName? token = some file → k.files.Avoids o file
  /-- The compiler neither is the file nor reads or writes it. -/
  compiler : ∀ s k plan, Reached args tools before s k → s.progress = .classified plan →
    Launch.Heedless handle o k (compilerCommand s.tools plan) (.file plan.captureFile) .merge
  /-- It is not in the directory that is moved aside. -/
  outputDir : ∀ s k plan last, Reached args tools before s k → s.progress = .compiled plan last →
    k.files.Spares o plan.outputDir
  /-- The instrumentor does not come to it either. -/
  instrumentor : ∀ s k plan last, Reached args tools before s k → s.progress = .staged plan last →
    Launch.Heedless handle o k (instrumentorCommand s.tools plan) .inherit .inherit
  /-- It is neither of the files that are replayed. -/
  diagnostics : ∀ s k plan last, Reached args tools before s k →
    s.progress = .instrumented plan last →
    k.files.Avoids o instrumentorFile ∧ k.files.Avoids o plan.captureFile
  /-- It is not among what is removed in the end. -/
  leftovers : ∀ s k plan last, Reached args tools before s k → s.progress = .replayed plan last →
    k.files.Avoids o plan.captureFile false ∧ k.files.Spares o plan.stagingDir

variable {args : List String} {tools : Option Toolchain} {before : Host} {s : State} {plan : Plan}

/-- The classes are moved aside without heeding a file that is not among them. -/
theorem parallel_moveAside {fs fs' : FileSystem} (hfiles : fs.Rewritten handle o fs')
    (hwf : fs.WellFormed) (hout : fs.Spares o plan.outputDir) :
    Parallel (Rewritten handle o) (moveAside plan) fs fs' := by
  have hremove : Parallel (Rewritten handle o)
      (FileOp.call plan.stagingDir fun fs => fs.removeDir plan.stagingDir) fs fs' :=
    FileOp.parallel_call hfiles (hfiles.removeDir plan.stagingDir)
  refine hremove.bind fun _ left left' hleft _ hk => ?_
  rw [FileOp.exec_call] at hleft
  cases hfreed : fs.removeDir plan.stagingDir with
  | error r =>
    rw [hfreed] at hleft
    cases hleft
  | ok freed =>
    rw [hfreed] at hleft
    cases hleft
    obtain ⟨l, rfl, -, hfree, hname⟩ := FileSystem.free_of_removeDir hfreed
    -- What is left of the files names nothing new.
    have hspares : (fs.remove l).Spares o plan.outputDir :=
      hout.of_extends (FileSystem.extends_remove fs l) (FileSystem.sameStarts_remove fs l _)
    exact FileOp.parallel_move hk (hwf.removeDir hfreed) hfree hname hspares

theorem parallel_start (t : SameButLog handle o h h') :
    Parallel (SameButLog handle o) (start args tools) h h' := by
  unfold start
  dsimp only
  split
  · exact Parallel.bind (.pure t _) fun _ k k' _ _ t => .pure t _
  · exact t.parallel_ofEnvironment.bind fun _ k k' _ _ t => .pure t _

theorem parallel_resolveOutputDir (t : SameButLog handle o h h') (declared : Option String) :
    Parallel (SameButLog handle o) (resolveOutputDir declared) h h' := by
  unfold resolveOutputDir
  split
  · refine (SameButLog.parallel_make t _ _ _ _).bind fun dir k k' _ _ t => ?_
    exact (t.parallel_note _ _ _).bind fun _ k k' _ _ t => .pure t _
  · next dir =>
    exact (t.parallel_onFiles (FileOp.parallel_ensureDirs t.files dir)).bind
      fun _ k k' _ _ t => .pure t _

section

variable (ha : Aloof handle o args tools before) (t : SameButLog handle o h h')
  (hs : Reached args tools before s h)
include ha t hs

theorem parallel_classify : Parallel (SameButLog handle o) (classify s) h h' := by
  cases hprogress : s.progress with
  | initial =>
    obtain ⟨-, -, hargs, -⟩ := hs.planned
    have hfiles := ha.argumentFiles s h hs hprogress
    rw [classify, hprogress]
    dsimp only
    refine (t.parallel_expand (hargs.symm ▸ hfiles)).bind fun tokens k k' _ _ t => ?_
    refine (t.parallel_classifyLogged tokens).bind fun classified k k' _ _ t => ?_
    refine (t.parallel_note _ _ _).bind fun _ k k' _ _ t => ?_
    refine (parallel_resolveOutputDir t _).bind fun outputDir k k' _ _ t => ?_
    refine (t.parallel_make _ _ _ _).bind fun captureFile k k' _ _ t => ?_
    exact (t.parallel_make _ _ _ _).bind fun stagingDir k k' _ _ t => .pure t _
  | _ =>
    rw [classify, hprogress]
    exact .throw t _

theorem parallel_compile : Parallel (SameButLog handle o) (compile s) h h' := by
  cases hprogress : s.progress with
  | classified plan =>
    have hstage : Parallel (SameButLog handle o) (runCompiler s plan) h h' :=
      t.parallel_runStage rfl rfl rfl (ha.compiler s h plan hs hprogress)
    have hparallel := parallel_required hstage
      ("TOPL: javac finished successfully. Output in " ++ plan.outputDir)
      (fun _ _ t => t.printLine _) fun outcome => { s with progress := .compiled plan outcome }
    exact ⟨by rw [exec_compile hprogress, exec_compile hprogress]; exact hparallel.result,
      by rw [exec_compile hprogress, exec_compile hprogress]; exact hparallel.states⟩
  | _ =>
    rw [compile, hprogress]
    exact .throw t _

theorem parallel_stage (hwf : h.files.WellFormed) :
    Parallel (SameButLog handle o) (stage s) h h' := by
  cases hprogress : s.progress with
  | compiled plan last =>
    have hmove := parallel_moveAside t.files hwf (ha.outputDir s h plan last hs hprogress)
    rw [stage, hprogress]
    dsimp only
    refine Parallel.bind ((t.parallel_onFiles hmove).tryCatch fun failure k k' _ _ t => ?_)
      fun _ k k' _ _ t => ?_
    · split
      · split
        · exact .throw t _
        · exact .throw t _
      · exact .throw t _
    · exact (t.parallel_note _ _ _).bind fun _ k k' _ _ t => .pure t _
  | _ =>
    rw [stage, hprogress]
    exact .throw t _

theorem parallel_instrument : Parallel (SameButLog handle o) (instrument s) h h' := by
  cases hprogress : s.progress with
  | staged plan last =>
    have hstage : Parallel (SameButLog handle o) (runInstrumentor s plan) h h' :=
      t.parallel_runStage rfl rfl rfl (ha.instrumentor s h plan last hs hprogress)
    have hparallel := parallel_required hstage "TOPL: toplc finished successfully."
      (fun _ _ t => t.printLine _) fun outcome => { s with progress := .instrumented plan outcome }
    exact ⟨by rw [exec_instrument hprogress, exec_instrument hprogress]; exact hparallel.result,
      by rw [exec_instrument hprogress, exec_instrument hprogress]; exact hparallel.states⟩
  | _ =>
    rw [instrument, hprogress]
    exact .throw t _

theorem parallel_replayStep : Parallel (SameButLog handle o) (replay s) h h' := by
  cases hprogress : s.progress with
  | instrumented plan last =>
    obtain ⟨hfirst, hsecond⟩ := ha.diagnostics s h plan last hs hprogress
    rw [replay, hprogress]
    dsimp only
    refine (SameButLog.parallel_replay t fun source hsource => ?_).bind
      fun _ k k' _ _ t => .pure t _
    simp only [List.mem_cons, List.not_mem_nil, or_false] at hsource
    rcases hsource with rfl | rfl
    · exact hfirst
    · exact hsecond
  | _ =>
    rw [replay, hprogress]
    exact .throw t _

theorem parallel_cleanUp : Parallel (SameButLog handle o) (cleanUp s) h h' := by
  cases hprogress : s.progress with
  | replayed plan last =>
    obtain ⟨hcapture, hstaging⟩ := ha.leftovers s h plan last hs hprogress
    have hremove : Parallel (Rewritten handle o)
        (FileOp.call plan.captureFile fun fs => fs.removeFile plan.captureFile) h.files h'.files :=
      FileOp.parallel_call t.files (t.files.removeFile hcapture.foreign)
    rw [cleanUp, hprogress]
    dsimp only
    refine Parallel.bind ((t.parallel_onFiles hremove).tryCatch fun failure k k' _ _ t => ?_)
      fun _ k k' hk _ t' => ?_
    · split
      · split
        · exact t.parallel_note _ _ _
        · exact .throw t _
      · exact .throw t _
    · -- Whether the capture file could be removed or not, the file is not in the other place.
      have hleft : k.files.Spares o plan.stagingDir := by
        rw [exec_tryCatch, Run.exec_onFiles, FileOp.exec_call] at hk
        cases hremoved : h.files.removeFile plan.captureFile with
        | ok files =>
          rw [hremoved] at hk
          cases hk
          obtain ⟨l, -, -, -, rfl⟩ := FileSystem.removeFile_eq_ok hremoved
          exact hstaging.of_extends (FileSystem.extends_remove _ l)
            (FileSystem.sameStarts_remove _ l _)
        | error r =>
          rw [hremoved] at hk
          dsimp only at hk
          split at hk
          · cases hk
            exact (t.rewritten_note _ _ _).spares hstaging
          · cases hk
      exact (t'.parallel_onFiles (FileOp.parallel_removeTreeQuietly t'.files hleft)).bind
        fun _ k k' _ _ t => .pure t _
  | _ =>
    rw [cleanUp, hprogress]
    exact .throw t _

end

/-! ### The run -/

section

variable (ha : Aloof handle o args tools before) (hwf : before.files.WellFormed)
include ha hwf

theorem parallel_step {step : State → Run State} (hstep : step ∈ steps)
    (t : SameButLog handle o h h') (hs : Reached args tools before s h) :
    Parallel (SameButLog handle o) (step s) h h' := by
  simp only [steps, List.mem_cons, List.not_mem_nil, or_false] at hstep
  rcases hstep with rfl | rfl | rfl | rfl | rfl | rfl
  · exact parallel_classify ha t hs
  · exact parallel_compile ha t hs
  · exact parallel_stage ha t hs (hs.wellFormed hwf)
  · exact parallel_instrument ha t hs
  · exact parallel_replayStep ha t hs
  · exact parallel_cleanUp ha t hs

/-- Whatever is left of a run, two hosts that differ in their logs go through it together. -/
theorem parallel_runSteps {left : List (State → Run State)} (hleft : ∀ step ∈ left, step ∈ steps)
    (t : SameButLog handle o h h') (hs : Reached args tools before s h) :
    Parallel (SameButLog handle o) (runSteps left s) h h' := by
  induction left generalizing s h h' with
  | nil => exact .pure t s
  | cons step rest ih =>
    obtain ⟨hstep, hrest⟩ := List.forall_mem_cons.mp hleft
    rw [runSteps]
    refine (parallel_step ha hwf hstep t hs).bind fun s' k k' hk _ t => ?_
    have hgives := gives_step hstep s h
    rw [hk] at hgives
    refine (t.parallel_note _ _ _).bind fun _ m m' hm _ t => ?_
    cases hm
    exact ih hrest t (hs.stepped hgives)

theorem parallel_run {before' : Host} (t : SameButLog handle o before before') :
    Parallel (SameButLog handle o) (run args tools) before before' := by
  refine (parallel_start t).bind fun s k k' hk _ t => ?_
  exact parallel_runSteps ha hwf (fun _ hstep => hstep) t (.started hk)

end

/-! ### Runs of scripts -/

/-- What is asked of a run in this state, if programs do what scripts say. -/
def aloofAt (o : Option Location) (scripts : String → List Action) (args : List String) (s : State)
    (h : Host) : Bool :=
  match s.progress with
  | .initial => args.all fun token =>
    (Arguments.fileName? token).all fun file => decide (h.files.Avoids o file)
  | .classified plan => Launch.keepsOff o scripts h (compilerCommand s.tools plan)
    (.file plan.captureFile) .merge
  | .compiled plan _ => decide (h.files.Spares o plan.outputDir)
  | .staged plan _ => Launch.keepsOff o scripts h (instrumentorCommand s.tools plan) .inherit .inherit
  | .instrumented plan _ =>
    decide (h.files.Avoids o instrumentorFile ∧ h.files.Avoids o plan.captureFile)
  | .replayed plan _ =>
    decide (h.files.Avoids o plan.captureFile false ∧ h.files.Spares o plan.stagingDir)
  | .done _ _ => true

/-- Whether a run that gets so far is aloof there. -/
def aloofPart (o : Option Location) (scripts : String → List Action) (args : List String)
    (before : Host) (n : Nat) : Bool :=
  match exec (runPart n args) before with
  | (.ok s, h) => aloofAt o scripts args s h
  | _ => false

/-- A run of scripts can be checked by running it. -/
theorem aloof_of_parts {scripts : String → List Action}
    (hprograms : ∀ program args, before.programs program args = .ofScript args (scripts program))
    (hparts : ∀ n < steps.length, aloofPart o scripts args before n = true) :
    Aloof handle o args none before := by
  have hat {s : State} {k : Host} (hs : Reached args none before s k) (hphase : s.phase ≠ .done) :
      aloofAt o scripts args s k = true := by
    have hpart := hparts (stepsBefore s.phase) (by
      cases hp : s.phase <;> first | exact absurd hp hphase | decide)
    rw [aloofPart] at hpart
    rcases hrun : exec (runPart (stepsBefore s.phase) args) before with ⟨failure | s₁, k₁⟩ <;>
      rw [hrun] at hpart
    · cases hpart
    · cases hrun.symm.trans (hs.exec_runPart (by rw [hrun]; rfl))
      exact hpart
  have hstage {s : State} {k : Host} (hs : Reached args none before s k) (program : String)
      (args : List String) : k.programs program args = .ofScript args (scripts program) := by
    rw [hs.programs, hprograms]
  refine ⟨fun s k hs hprogress => ?_, fun s k plan hs hprogress => ?_,
    fun s k plan last hs hprogress => ?_, fun s k plan last hs hprogress => ?_,
    fun s k plan last hs hprogress => ?_, fun s k plan last hs hprogress => ?_⟩ <;>
    have hcheck := hat hs (by rw [State.phase_eq hprogress]; exact nofun) <;>
    rw [aloofAt, hprogress] at hcheck
  · intro token htoken file hname
    have hfile := List.all_eq_true.mp hcheck token htoken
    rw [hname] at hfile
    exact of_decide_eq_true hfile
  · exact Launch.heedless_of_keepsOff (hstage hs) hcheck
  · exact of_decide_eq_true hcheck
  · exact Launch.heedless_of_keepsOff (hstage hs) hcheck
  · exact of_decide_eq_true hcheck
  · exact of_decide_eq_true hcheck

end Pipeline

/-! ### Setting up the log -/

namespace Log

/-- The two hosts are the same but for the level that the environment names. -/
structure SameButLevel (h h' : Host) : Prop where
  environment : ∀ name, name ≠ levelVariable → h'.getEnv? name = h.getEnv? name
  rest : h' = { h with environment := h'.environment }

/-- There is no handler yet, and the environment names a file that can be opened, under this
handle and at this place. -/
structure Opens (h : Host) (handle : Nat) (o : Option Location) : Prop where
  fresh : h.log.handler = none
  file : ∃ path files, h.setting? fileVariable = some path ∧
    exec (openLogFile path) h.files = (.ok handle, files) ∧
    (files.opened[handle]?).bind OpenFile.location = o

variable {name : String}

theorem adopted_handler (log : Log) (name : String) (level : Option Level) :
    (adopted log name level).handler = log.handler :=
  withLogger_handler log name level

/-- A logger is set up in one of the two hosts only. -/
theorem configured_left (t : SameButLog handle o h h') (name : String) (level : Option Level) :
    SameButLog handle o { complained h (.file handle) with log := adopted h.log name level } h' := by
  have hhandler : (adopted h.log name level).handler = some (.file handle) :=
    (adopted_handler h.log name level).trans t.handler
  rw [complained]
  cases invalidLevel? h with
  | none => exact ⟨t.files, hhandler, t.handler', t.environment, t.launches, by rw [t.rest]⟩
  | some value =>
    exact ⟨t.files.append_left _, hhandler, t.handler', t.environment, t.launches, by rw [t.rest]; rfl⟩

theorem exec_configure_of_handler {handler : Handler} (hhandler : h.log.handler = some handler)
    (hjournal : handler ≠ .journal) (hroot : isRoot name = false) :
    exec (configure name) h
      = (.ok (), { complained h handler with log := adopted h.log name (requestedLevel h) }) := by
  refine configure_of_install ?_ hhandler hjournal hroot
  rw [exec_installHandler_eq, hhandler]
  rfl

/-- A level that is none is reported in the log file, and nowhere else. -/
theorem parallel_configure (t : SameButLog handle o h h') (hroot : isRoot name = false) :
    Parallel (SameButLog handle o) (configure name) h h' :=
  .of_exec (exec_configure_of_handler t.handler nofun hroot)
    (exec_configure_of_handler t.handler' nofun hroot)
    (configured_left (configured_left t name _).symm name _).symm

theorem Opens.exec_installHandler (hopens : Opens h handle o) :
    ∃ path files, h.setting? fileVariable = some path ∧
      exec (openLogFile path) h.files = (.ok handle, files) ∧ files.Rewritten handle o files ∧
      exec installHandler h
        = (.ok (), { h with files, log := withHandler h.log (.file handle) }) := by
  obtain ⟨path, files, hpath, hopen, ho⟩ := hopens.file
  refine ⟨path, files, hpath, hopen, ?_, ?_⟩
  · rw [exec_openLogFile] at hopen
    split at hopen
    · cases hopen
    · split at hopen
      · next hopened =>
        cases hopen
        exact ho ▸ FileSystem.rewritten_of_openAppending hopened
      · cases hopen
  · rw [exec_installHandler_eq, hopens.fresh, hpath]
    dsimp only
    rw [hopen]
    rfl

theorem Opens.hasDestination (hopens : Opens h handle o) : HasDestination h := by
  intro _ path hpath
  obtain ⟨path', files, hpath', hopen, -⟩ := hopens.file
  cases hpath.symm.trans hpath'
  refine Classical.byContradiction fun hno => ?_
  obtain ⟨fault, hrefused⟩ := openLogFile_of_not_opens hno
  cases hopen.symm.trans hrefused

/-- The same file is opened whatever the level is, and from then on the two hosts differ in
their logs only. -/
theorem Opens.install (hopens : Opens h handle o) (hlevel : SameButLevel h h') :
    ∃ k k', exec installHandler h = (.ok (), k) ∧ exec installHandler h' = (.ok (), k') ∧
      SameButLog handle o k k' := by
  obtain ⟨path, files, hpath, hopen, hfiles, hinstall⟩ := hopens.exec_installHandler
  obtain ⟨henvironment, hrest⟩ := hlevel
  have hpath' : h'.setting? fileVariable = some path := by
    rw [Host.setting?, henvironment fileVariable (by decide)]
    exact hpath
  have hinstall' : exec installHandler h'
      = (.ok (), { h' with files, log := withHandler h'.log (.file handle) }) := by
    have hfresh : h'.log.handler = none := by rw [hrest]; exact hopens.fresh
    have hsame : h'.files = h.files := by rw [hrest]
    rw [exec_installHandler_eq, hfresh, hpath']
    dsimp only
    rw [hsame, hopen]
    rfl
  refine ⟨_, _, hinstall, hinstall', hfiles, rfl, rfl, henvironment, ?_, ?_⟩
  · rw [hrest]
  · rw [hrest]

/-! ### What setting up keeps -/

theorem sound_openLogFile (path : String) : FileOp.Sound (openLogFile path) := by
  intro fs
  rw [exec_openLogFile]
  split
  · exact ⟨id, fun _ _ => trivial⟩
  · split
    · next hopened => exact ⟨fun hfs => hfs.openWith hopened, fun _ _ => trivial⟩
    · exact ⟨id, fun _ _ => trivial⟩

/-- Setting up a logger is background work that also changes the log, and may write a line. -/
theorem keeps_configured {R : Host → Host → Prop} (hR : Background R)
    (hlog : ∀ h log, R h { h with log }) (hstderr : ∀ h bytes, R h (h.writeStderr bytes))
    (name : String) : Keeps R (fun _ => True) (configure name) := by
  have hnote (h : Host) (site : Site) (level : Level) (message : String) :
      R h (h.note site level message) :=
    h.note_cases site level message (hR.refl h) (fun _ => hstderr h _)
      (fun _ _ _ _ => hR.files h _ fun hfs => hfs.appendOpen _ _) fun _ => hlog h _
  rw [configure_eq]
  refine Keeps.bind hR.toFrame (fun h => ?_) fun _ =>
    keeps_setUp hR.toFrame (fun h _ => hlog h _) hnote fun h => hlog h _
  rw [exec_installHandler_eq]
  split
  · exact ⟨hR.refl h, fun _ _ => trivial⟩
  split
  · exact ⟨hlog h _, fun _ _ => trivial⟩
  · next path _ =>
    have hopen := (sound_openLogFile path h.files).1
    rcases heq : exec (openLogFile path) h.files with ⟨fault | handle, files⟩ <;> rw [heq] at hopen
    · exact ⟨hR.files h _ hopen, fun _ _ => trivial⟩
    · exact ⟨hR.trans (hR.files h _ hopen) (hlog _ _), fun _ _ => trivial⟩

end Log

/-! ### The program -/

namespace Command

/-- What the command does before it compiles. -/
def opening (args : List String) : Run Unit := do
  for name in loggers do
    Log.configure name
  Run.note site .info ("Entering topljavac [" ++ Text.join " " args ++ "]")

/-- The host when the command starts to compile. -/
def begun (args : List String) (h : Host) : Host := (exec (opening args) h).2

theorem program_eq (args : List String) :
    program args = (do
      opening args
      tryCatch (do let _ ← Pipeline.run args) report
      pure 0) := by
  rw [program, opening, bind_assoc]
  rfl

/-- Setting up the first logger installs the handler, and does the same if there is one. -/
theorem exec_opening_of_install {handler : Log.Handler} {k : Host} (args : List String)
    (hinstall : exec Log.installHandler h = (.ok (), k)) (hhandler : k.log.handler = some handler)
    (hjournal : handler ≠ .journal) : exec (opening args) h = exec (opening args) k := by
  have hfirst : exec (Log.configure "topljavac.config") h = exec (Log.configure "topljavac.config") k := by
    rw [Log.configure_of_install hinstall hhandler hjournal (by decide),
      Log.exec_configure_of_handler hhandler hjournal (by decide)]
  rw [opening, loggers, List.forIn_cons, exec_bind, exec_bind, exec_bind, hfirst, exec_bind, exec_bind,
    exec_bind]

theorem parallel_opening (t : SameButLog handle o h h') (args : List String) :
    Parallel (SameButLog handle o) (opening args) h h' := by
  have hroots : ∀ name ∈ loggers, Log.isRoot name = false := by decide
  refine Parallel.bind (.forIn loggers (fun name hname _ k k' t => ?_) PUnit.unit t)
    fun _ k k' _ _ t => t.parallel_note _ _ _
  exact (Log.parallel_configure t (hroots name hname)).bind fun _ k k' _ _ t => .pure t _

theorem keeps_opening {R : Host → Host → Prop} (hR : Background R)
    (hlog : ∀ h log, R h { h with log }) (hstderr : ∀ h bytes, R h (h.writeStderr bytes))
    (args : List String) : Keeps R (fun _ => True) (opening args) := by
  refine Keeps.bind hR.toFrame (.forIn hR.toFrame loggers (fun name _ _ => ?_) PUnit.unit) fun _ =>
    .modify fun h => hR.note (.inr rfl) h _ _
  exact (Log.keeps_configured hR hlog hstderr name).bind hR.toFrame fun _ => .pure hR.toFrame _

theorem parallel_report (t : SameButLog handle o h h') (failure : Failure) :
    Parallel (SameButLog handle o) (report failure) h h' := by
  have hbefore : SameButLog handle o (beforeReport failure h) (beforeReport failure h') := by
    unfold beforeReport
    split
    · exact t
    · exact t
    · exact t
    · exact t
    · exact t.note _ _ _
  exact .of_exec (exec_report_eq failure h) (exec_report_eq failure h') (hbefore.writeStderr _)

/-- What the command does from the handler on. -/
theorem parallel_program {args : List String} (t : SameButLog handle o h h')
    (ha : Pipeline.Aloof handle o args none (begun args h))
    (hwf : (begun args h).files.WellFormed) :
    Parallel (SameButLog handle o) (program args) h h' := by
  rw [program_eq]
  refine (parallel_opening t args).bind fun _ k k' hk _ t => ?_
  have hbegun : begun args h = k := by rw [begun, hk]
  rw [hbegun] at ha hwf
  have hrun : Parallel (SameButLog handle o) (do let _ ← Pipeline.run args) k k' :=
    (Pipeline.parallel_run ha hwf t).bind fun _ m m' _ _ t => .pure t ()
  exact (hrun.tryCatch fun failure m m' _ _ t => parallel_report t failure).bind
    fun _ m m' _ _ t => .pure t 0

/-- What the two tools of the host below do. -/
def loggedScripts (name : String) : List Action :=
  if name = "javac" then [.store "{d}/A.class" [0xCA, 0xFE], .emit .output [0x3F]]
  else [.store "javac.err.topl" [0x6A, 0x0A], .emit .errors [0x21]]

/-- A host that logs to a file in the current directory, at this level if there is one. -/
def loggedHost (level : Option String) : Host :=
  { Pipeline.chattyHost with
    environment := (Log.fileVariable, "topl.log") ::
      (level.map fun l => (Log.levelVariable, l)).toList
    programs := fun name args => .ofScript args (loggedScripts name) }

end Command

end MonitoredCompile

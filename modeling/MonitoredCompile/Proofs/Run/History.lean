/-
MonitoredCompile/Proofs/Run/History.lean

States with any history.  A state is a value: a step may be taken from a state that was
left behind long ago, more than once, and each time in another world.  What a state
then says about the run is still coherent (`coherent_of_obtained`): the places of its
plan differ, and the last outcome is that of the command which the plan gives.  A step
that is asked of a state in another phase is refused before it does anything.

That the staging directory is not the output directory needs no more than that it is
new: the output directory is there when the name for it is looked for.
-/
import MonitoredCompile.Proofs.Run.Resolution
import MonitoredCompile.Proofs.Run.Streams

namespace MonitoredCompile

open Attempt (exec exec_bind_eq_ok)

namespace FileSystem

variable {fs : FileSystem} {path : String} {l m : Location}

/-! ### Directories that stay -/

theorem DirAt.overwrite {f : File} (h : fs.DirAt path l) (hfile : fs.get? m = some (.file f))
    (g : File) : (fs.place m (.file g)).DirAt path l := by
  obtain ⟨hfinds, hdir⟩ := dirAt_iff.mp h
  obtain ⟨e, he, halike⟩ := alike_overwrite hfile g hdir
  rw [halike.dir.mp rfl] at he
  exact dirAt_iff.mpr ⟨hfinds.overwrite hfile g, he⟩

theorem DirAt.appendOpen (h : fs.DirAt path l) (handle : Nat) (bytes : Bytes) :
    (fs.appendOpen handle bytes).DirAt path l := by
  exact fs.appendOpen_cases (P := (·.DirAt path l)) handle bytes h fun _ _ _ hfile =>
    h.overwrite hfile _

end FileSystem

/-- Logging a line takes no directory away. -/
theorem FileSystem.DirAt.note {h : Host} {path : String} {l : Location} (hdir : h.files.DirAt path l)
    (site : Log.Site) (level : Log.Level) (message : String) :
    (h.note site level message).files.DirAt path l := by
  refine h.note_cases (P := fun after => after.files.DirAt path l) site level message hdir ?_ ?_ ?_
  · exact fun _ => hdir
  · exact fun handle bytes _ _ => hdir.appendOpen handle bytes
  · exact fun _ => hdir

namespace Pipeline

/-! ### The places of a plan -/

/-- The plan puts the classes where they were asked for, and stages them elsewhere. -/
structure Plan.Apart (plan : Plan) : Prop where
  staging : plan.outputDir ≠ plan.stagingDir
  declared : ∀ dir, plan.args.outputDir = some dir → plan.outputDir = dir

/-- A resolved output directory whose path ends in a name is there. -/
theorem dirAt_of_resolveOutputDir {declared : Option String} {outputDir : String} {h h' : Host}
    (hname : (Path.splitParent outputDir).2 ≠ ".")
    (hok : exec (resolveOutputDir declared) h = (.ok outputDir, h')) :
    ∃ l, h'.files.DirAt outputDir l := by
  cases declared with
  | some dir =>
    obtain ⟨rfl, hensure⟩ := resolveOutputDir_declared hok
    exact FileOp.dirAt_of_ensureDirs hname hensure
  | none =>
    obtain ⟨dir, h₁, hmake, hnote⟩ := exec_bind_eq_ok.mp hok
    obtain ⟨⟨⟩, h₂, hnoted, hpure⟩ := exec_bind_eq_ok.mp hnote
    cases hpure
    cases hnoted
    obtain ⟨-, hcreate⟩ := Scratch.make_eq_ok hmake
    obtain ⟨l, hfree⟩ := FileSystem.free_of_create hcreate
    exact ⟨l, (hfree.makeDir hcreate).2.1.note _ _ _⟩

theorem Planned.apart {args : List String} {before after : Host} {plan : Plan}
    (h : Planned args before plan after) : plan.Apart := by
  obtain ⟨tokens, h₁, h₂, h₃, h₄, -, -, -, hdir, hcapture, hstaging⟩ := h
  refine ⟨fun hsame => ?_, fun dir hdeclared => ?_⟩
  · obtain ⟨⟨n, hn⟩, hmake⟩ := Scratch.make_eq_ok hstaging
    have hname : IsName ("topljavac-in" ++ Scratch.eightDigits n ++ "") :=
      Scratch.isName (show "topljavac-in".toList.head? = some 't' by decide) (by decide) (by decide)
        (by decide) n
    have hlast : (Path.splitParent plan.outputDir).2 ≠ "." := by
      rw [hsame, hn]
      exact Path.splitParent_ne_here (Path.names_join ⟨hname.ne_empty, hname.no_slash⟩) hname.ne_here
    -- The output directory is still there when the capture file has been made.
    obtain ⟨l, hthere⟩ := dirAt_of_resolveOutputDir hlast hdir
    obtain ⟨-, hcreate⟩ := Scratch.make_eq_ok hcapture
    have hstill := hthere.grows (FileSystem.grows_of_create hcreate)
    rw [hsame] at hstill
    exact hstill.create_ne_ok _ hmake
  · rw [hdeclared] at hdir
    exact (resolveOutputDir_declared hdir).1

/-! ### Steps -/

/-- A step that can be asked of a state; a replay also says where it writes to. -/
inductive Step where
  | classify
  | compile
  | stage
  | instrument
  | replay (write : Host → Bytes → Host)
  | cleanUp

namespace Step

/-- The phase that a step belongs to. -/
def phase : Step → Phase
  | classify => .initial
  | compile => .classified
  | stage => .compiled
  | instrument => .staged
  | replay _ => .instrumented
  | cleanUp => .replayed

/-- Takes the step from a state. -/
def take : Step → State → Run State
  | classify, s => Pipeline.classify s
  | compile, s => Pipeline.compile s
  | stage, s => Pipeline.stage s
  | instrument, s => Pipeline.instrument s
  | replay write, s => Pipeline.replay s write
  | cleanUp, s => Pipeline.cleanUp s

/-- A step of another phase is refused, and nothing has changed. -/
theorem exec_take_of_phase_ne {step : Step} {s : State} (hphase : s.phase ≠ step.phase) (h : Host) :
    exec (step.take s) h = (.error (.wrongPhase step.phase s.phase), h) := by
  cases step with
  | classify =>
    rw [take, Pipeline.classify]
    split
    · next hs => exact absurd (State.phase_eq hs) hphase
    · rfl
  | compile =>
    rw [take, Pipeline.compile]
    split
    · next hs => exact absurd (State.phase_eq hs) hphase
    · rfl
  | stage =>
    rw [take, Pipeline.stage]
    split
    · next hs => exact absurd (State.phase_eq hs) hphase
    · rfl
  | instrument =>
    rw [take, Pipeline.instrument]
    split
    · next hs => exact absurd (State.phase_eq hs) hphase
    · rfl
  | replay write =>
    rw [take, Pipeline.replay]
    split
    · next hs => exact absurd (State.phase_eq hs) hphase
    · rfl
  | cleanUp =>
    rw [take, Pipeline.cleanUp]
    split
    · next hs => exact absurd (State.phase_eq hs) hphase
    · rfl

end Step

/-- What the compiler's run comes to if it ends well. -/
def compilerOutcome (tools : Toolchain) (plan : Plan) : Launch.Outcome :=
  ⟨0, some plan.captureFile, compilerCommand tools plan⟩

/-- What the instrumentor's run comes to if it ends well. -/
def instrumentorOutcome (tools : Toolchain) (plan : Plan) : Launch.Outcome :=
  ⟨0, none, instrumentorCommand tools plan⟩

/-- The state that a step leads to, whatever the world is. -/
inductive Precedes (s : State) : State → Prop
  | classified {plan before after} : s.progress = .initial →
      Planned s.rawArgs before plan after → Precedes s { s with progress := .classified plan }
  | compiled {plan} : s.progress = .classified plan →
      Precedes s { s with progress := .compiled plan (compilerOutcome s.tools plan) }
  | staged {plan last} : s.progress = .compiled plan last →
      Precedes s { s with progress := .staged plan last }
  | instrumented {plan last} : s.progress = .staged plan last →
      Precedes s { s with progress := .instrumented plan (instrumentorOutcome s.tools plan) }
  | replayed {plan last} : s.progress = .instrumented plan last →
      Precedes s { s with progress := .replayed plan last }
  | done {plan last} : s.progress = .replayed plan last →
      Precedes s { s with progress := .done plan last }

theorem Advances.precedes {s s' : State} {h h' : Host} (hstep : Advances s h s' h') :
    Precedes s s' := by
  have hrun {command : List String} {out err : Launch.Policy} {outcome : Launch.Outcome}
      {before after : Host} (hout : out.isForOutput = true) (herr : err.isForErrors = true)
      (hok : exec (Launch.runStage command out err) before = (.ok outcome, after))
      (hstatus : outcome.status = 0) :
      outcome = ⟨0, out.path?.or (Launch.sharedErrors out err).path?, command⟩ := by
    obtain ⟨_, _, _, -, -, rfl, -⟩ := Launch.runStage_eq_ok background_sameRecord hout herr hok
    rw [← hstatus]
  cases hstep with
  | classified hs _ hplanned => exact .classified hs hplanned
  | compiled hs hok hstatus =>
    obtain rfl := hrun rfl rfl hok hstatus
    exact .compiled hs
  | staged hs _ => exact .staged hs
  | instrumented hs hok hstatus =>
    obtain rfl := hrun rfl rfl hok hstatus
    exact .instrumented hs
  | replayed hs _ => exact .replayed hs
  | done hs _ => exact .done hs

/-- A step that succeeds leads to the next state. -/
theorem Step.precedes {step : Step} {s s' : State} {h h' : Host}
    (hok : exec (step.take s) h = (.ok s', h')) : Precedes s s' := by
  have hgiven {result : Except Failure State × Host} (hgives : Gives s h result)
      (hresult : result = (.ok s', h')) : Precedes s s' := by
    subst hresult
    exact hgives.precedes
  cases step with
  | classify => exact hgiven (gives_classify s h) hok
  | compile => exact hgiven (gives_compile s h) hok
  | stage => exact hgiven (gives_stage s h) hok
  | instrument => exact hgiven (gives_instrument s h) hok
  | cleanUp => exact hgiven (gives_cleanUp s h) hok
  | replay write =>
    -- Where the replay goes to does not matter for the state.
    rw [take, Pipeline.replay] at hok
    split at hok
    · next hs =>
      obtain ⟨⟨⟩, h₁, -, hpure⟩ := exec_bind_eq_ok.mp hok
      cases hpure
      exact .replayed hs
    · cases hok

/-! ### Histories -/

/-- The states that come of `first` when steps are taken, each from any state obtained
before and in any world. -/
inductive Obtained (first : State) : State → Prop
  | first : Obtained first first
  | step {s s' h h'} (step : Step) : Obtained first s → exec (step.take s) h = (.ok s', h') →
      Obtained first s'

/-- The last outcome is that of the command that the plan gives. -/
def Progress.Accounted (t : Toolchain) : Progress → Prop
  | .initial => True
  | .classified _ => True
  | .compiled plan last => last = compilerOutcome t plan
  | .staged plan last => last = compilerOutcome t plan
  | .instrumented plan last => last = instrumentorOutcome t plan
  | .replayed plan last => last = instrumentorOutcome t plan
  | .done plan last => last = instrumentorOutcome t plan

/-- What every step keeps. -/
structure Settled (args : List String) (t : Toolchain) (s : State) : Prop where
  rawArgs : s.rawArgs = args
  tools : s.tools = t
  apart : ∀ plan, s.plan? = some plan → plan.Apart
  accounted : s.progress.Accounted t

theorem Precedes.settled {args : List String} {t : Toolchain} {s s' : State} (hstep : Precedes s s')
    (hs : Settled args t s) : Settled args t s' := by
  obtain ⟨hargs, rfl, hapart, haccounted⟩ := hs
  cases hstep with
  | classified hprogress hplanned =>
    refine ⟨hargs, rfl, fun plan hplan => ?_, trivial⟩
    cases hplan
    exact hplanned.apart
  | compiled hprogress | instrumented hprogress =>
    refine ⟨hargs, rfl, fun plan hplan => ?_, rfl⟩
    cases hplan
    exact hapart _ (State.plan?_eq hprogress)
  | staged hprogress | replayed hprogress | done hprogress =>
    rw [hprogress] at haccounted
    refine ⟨hargs, rfl, fun plan hplan => ?_, haccounted⟩
    cases hplan
    exact hapart _ (State.plan?_eq hprogress)

/-- So every state with a history that goes back to the start is settled. -/
theorem Obtained.settled {args : List String} {tools : Option Toolchain} {h h' : Host}
    {first s : State} (hs : Obtained first s)
    (hstart : exec (start args tools) h = (.ok first, h')) : Settled args first.tools s := by
  induction hs with
  | first =>
    rw [start_eq_ok hstart]
    exact ⟨rfl, rfl, nofun, trivial⟩
  | step step _ hok ih => exact step.precedes hok |>.settled ih

/-- A run is a history: each of its steps is taken from the state before. -/
theorem obtained_runSteps {first s s' : State} {h h' : Host} {left : List (State → Run State)}
    (hleft : ∀ step ∈ left, ∃ asked : Step, asked.take = step) (hs : Obtained first s)
    (hok : exec (runSteps left s) h = (.ok s', h')) : Obtained first s' := by
  induction left generalizing s h with
  | nil =>
    cases hok
    exact hs
  | cons step rest ih =>
    obtain ⟨⟨asked, rfl⟩, hrest⟩ := List.forall_mem_cons.mp hleft
    obtain ⟨next, h₁, hstep, hmore⟩ := exec_bind_eq_ok.mp hok
    obtain ⟨⟨⟩, h₂, -, hmore⟩ := exec_bind_eq_ok.mp hmore
    exact ih hrest (hs.step asked hstep) hmore

theorem exists_take_of_mem_steps {step : State → Run State} (hstep : step ∈ steps) :
    ∃ asked : Step, asked.take = step := by
  simp only [steps, List.mem_cons, List.not_mem_nil, or_false] at hstep
  rcases hstep with rfl | rfl | rfl | rfl | rfl | rfl
  · exact ⟨.classify, rfl⟩
  · exact ⟨.compile, rfl⟩
  · exact ⟨.stage, rfl⟩
  · exact ⟨.instrument, rfl⟩
  · exact ⟨.replay Host.writeStderr, rfl⟩
  · exact ⟨.cleanUp, rfl⟩

theorem obtained_run {args : List String} {tools : Option Toolchain} {h h' : Host} {s : State}
    (hok : exec (run args tools) h = (.ok s, h')) :
    ∃ first h₁, exec (start args tools) h = (.ok first, h₁) ∧ Obtained first s := by
  obtain ⟨first, h₁, hstart, hsteps⟩ := exec_bind_eq_ok.mp hok
  exact ⟨first, h₁, hstart,
    obtained_runSteps (fun _ => exists_take_of_mem_steps) .first hsteps⟩

/-- So is a part of a run. -/
theorem obtained_runPart {n : Nat} {args : List String} {h h' : Host} {s : State}
    (hok : exec (runPart n args) h = (.ok s, h')) :
    ∃ first h₁, exec (start args none) h = (.ok first, h₁) ∧ Obtained first s := by
  obtain ⟨first, h₁, hstart, hsteps⟩ := exec_bind_eq_ok.mp hok
  exact ⟨first, h₁, hstart, obtained_runSteps
    (fun _ hstep => exists_take_of_mem_steps (List.mem_of_mem_take hstep)) .first hsteps⟩

/-! ### Coherence -/

/-- What a state says about its run, phase by phase. -/
structure Coherent (args : List String) (t : Toolchain) (s : State) : Prop where
  rawArgs : s.rawArgs = args
  tools : s.tools = t
  /-- Arguments and places are known once the arguments have been classified. -/
  unplanned_iff : s.plan? = none ↔ s.phase = .initial
  apart : ∀ plan, s.plan? = some plan → plan.Apart
  unrun_iff : s.last? = none ↔ s.phase = .initial ∨ s.phase = .classified
  compiled : s.phase = .compiled ∨ s.phase = .staged → ∃ plan, s.plan? = some plan ∧
    s.last? = some ⟨0, some plan.captureFile,
      [t.dir ++ t.compilerName] ++ plan.args.plainArgs ++ ["-d", plan.outputDir]⟩
  instrumented : s.phase = .instrumented ∨ s.phase = .replayed ∨ s.phase = .done →
    ∃ plan, s.plan? = some plan ∧ s.last? = some ⟨0, none, [t.dir ++ t.instrumentorName]
      ++ plan.args.monitorSources.flatMap (fun source => ["-e", source])
      ++ ["-s", "-i", plan.stagingDir, "-o", plan.outputDir] ++ plan.args.propertySpecs⟩

theorem Settled.coherent {args : List String} {t : Toolchain} {s : State} (hs : Settled args t s) :
    Coherent args t s := by
  obtain ⟨hargs, htools, hapart, haccounted⟩ := hs
  cases hprogress : s.progress with
  | initial | classified plan =>
    refine ⟨hargs, htools, ?_, hapart, ?_, ?_, ?_⟩ <;>
      simp [State.plan?, State.last?, State.phase, hprogress, Progress.plan?, Progress.last?,
        Progress.phase]
  | compiled plan last | staged plan last | instrumented plan last | replayed plan last
  | done plan last =>
    rw [hprogress] at haccounted
    obtain rfl := haccounted
    refine ⟨hargs, htools, ?_, hapart, ?_, ?_, ?_⟩ <;>
      simp [State.plan?, State.last?, State.phase, hprogress, Progress.plan?, Progress.last?,
        Progress.phase, compilerOutcome, instrumentorOutcome, compilerCommand, instrumentorCommand,
        Toolchain.compiler, Toolchain.instrumentor]

/-- **States are coherent, whatever their history is.**  Whichever steps have been taken
from whichever earlier states, in whatever worlds, a state fits the arguments and tools
of the start.  Of a state in one phase only the step of that phase can be asked; every
other is refused and changes nothing. -/
theorem coherent_of_obtained {args : List String} {tools : Option Toolchain} {h h' : Host}
    {first s : State} (hstart : exec (start args tools) h = (.ok first, h'))
    (hs : Obtained first s) :
    Coherent args first.tools s ∧ (∀ t, tools = some t → first.tools = t) ∧
      ∀ (step : Step) (world : Host), s.phase ≠ step.phase →
        exec (step.take s) world = (.error (.wrongPhase step.phase s.phase), world) := by
  refine ⟨(hs.settled hstart).coherent, ?_, fun step world hphase =>
    Step.exec_take_of_phase_ne hphase world⟩
  rintro t rfl
  cases hstart
  rfl

/-- The state at the end of a run, from which no compiler is started any more. -/
theorem coherent_chattyHost :
    ∃ first h' s, exec (start ["A.java"] none) chattyHost = (.ok first, h') ∧ Obtained first s ∧
      s.phase = .done ∧ Coherent ["A.java"] first.tools s ∧
      ∀ world, exec (Step.compile.take s) world = (.error (.wrongPhase .classified .done), world) := by
  obtain ⟨s, after, hrun, -, -⟩ := exec_run_chatty
  obtain ⟨first, h', hstart, hs⟩ := obtained_run hrun
  have hends := ends_run ["A.java"] none chattyHost
  rw [hrun] at hends
  have hdone : s.phase = .done := hends.2
  obtain ⟨hcoherent, -, hrefused⟩ := coherent_of_obtained hstart hs
  refine ⟨first, h', s, hstart, hs, hdone, hcoherent, fun world => ?_⟩
  have hcompile := hrefused .compile world (by rw [hdone]; decide)
  rwa [hdone] at hcompile

end Pipeline

end MonitoredCompile

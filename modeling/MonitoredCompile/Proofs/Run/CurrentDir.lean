/-
MonitoredCompile/Proofs/Run/CurrentDir.lean

The current directory of a run.  Nothing that is done before the compiler is started
changes it, and so it is where it was when the compiler has ended, unless the compiler has
moved it (`Reached.cwd_of_compiled`).
-/
import MonitoredCompile.Proofs.FileSystem.Copy
import MonitoredCompile.Proofs.Run.Output
import MonitoredCompile.Proofs.Run.Reach

namespace MonitoredCompile

open Attempt (exec exec_bind exec_get Frame Keeps)

/-! ### Files -/

namespace FileSystem

variable {fs fs' : FileSystem} {path : String}

theorem appendOpen_cwd (fs : FileSystem) (handle : Nat) (bytes : Bytes) :
    (fs.appendOpen handle bytes).cwd = fs.cwd :=
  fs.appendOpen_cases (P := (·.cwd = fs.cwd)) handle bytes rfl fun _ _ _ _ => rfl

theorem writeOpen_cwd (fs : FileSystem) (handle : Nat) (bytes : Bytes) :
    (fs.writeOpen handle bytes).cwd = fs.cwd := by
  rw [writeOpen]
  split
  · rfl
  · unfold modifyFile
    split
    · rfl
    · split <;> rfl

theorem openTruncated_cwd {handle : Nat} (h : fs.openTruncated path = .ok (fs', handle)) :
    fs'.cwd = fs.cwd := by
  rw [openTruncated, openWith] at h
  split at h
  · cases h
  · split at h
    · cases h
      rfl
    · dsimp only at h
      split at h <;> cases h <;> rfl
    · cases h
    · cases h
      rfl
  · cases h

end FileSystem

/-! ### Before the compiler -/

/-- The current directory is where it was. -/
def StaysPut (before after : Host) : Prop := after.files.cwd = before.files.cwd

theorem frame_staysPut : Frame StaysPut := ⟨fun _ => rfl, fun hab hbc => hbc.trans hab⟩

theorem staysPut_note (h : Host) (site : Log.Site) (level : Log.Level) (message : String) :
    StaysPut h (h.note site level message) := by
  refine h.note_cases site level message ?_ (fun _ => ?_) (fun handle bytes _ _ => ?_) fun _ => ?_
  · rfl
  · rfl
  · exact h.files.appendOpen_cwd handle bytes
  · rfl

/-- This part of a run leaves the current directory where it is. -/
abbrev KeepsPlace {α : Type} (m : Run α) : Prop := Keeps StaysPut (fun _ => True) m

namespace KeepsPlace

theorem pure {α : Type} (a : α) : KeepsPlace (Pure.pure a : Run α) := Keeps.pure frame_staysPut a

theorem throw {α : Type} (failure : Failure) : KeepsPlace (MonadExcept.throw failure : Run α) :=
  Keeps.throw frame_staysPut trivial

theorem bind {α β : Type} {m : Run α} {f : α → Run β} (hm : KeepsPlace m)
    (hf : ∀ a, KeepsPlace (f a)) : KeepsPlace (m >>= f) :=
  Keeps.bind frame_staysPut hm hf

theorem note (site : Log.Site) (level : Log.Level) (message : String) :
    KeepsPlace (Run.note site level message) :=
  Keeps.modify fun h => staysPut_note h site level message

theorem onFiles {α : Type} {op : FileOp α}
    (hop : ∀ {fs fs' r}, exec op fs = (r, fs') → fs'.cwd = fs.cwd) : KeepsPlace (Run.onFiles op) := by
  intro h
  rw [Run.exec_onFiles]
  rcases hrun : op.exec h.files with ⟨fault | a, files⟩ <;> exact ⟨hop hrun, fun _ _ => trivial⟩

theorem ofFile (path : String) : KeepsPlace (Arguments.ofFile path) := by
  refine (onFiles fun {fs fs' r} hrun => ?_).bind fun bytes => ?_
  · rw [FileOp.exec_ask] at hrun
    split at hrun <;> cases hrun <;> rfl
  · split
    · exact throw _
    · refine (note _ _ _).bind fun _ => ?_
      split
      · exact throw _
      · exact pure _

theorem expand (tokens : List String) : KeepsPlace (Arguments.expand tokens) := by
  induction tokens with
  | nil => exact pure []
  | cons token rest ih =>
    have hrest (here : List String) :
        KeepsPlace (do let more ← Arguments.expand rest; Pure.pure (here ++ more)) :=
      ih.bind fun more => pure _
    rw [Arguments.expand]
    dsimp only
    split
    · exact (ofFile _).bind hrest
    · exact bind (pure _) hrest

theorem classifyLogged (tokens : List String) : KeepsPlace (Arguments.classifyLogged tokens) := by
  refine bind ?_ fun ds => pure _
  refine bind ?_ fun _ => ?_
  · exact .forIn frame_staysPut _ (fun _ _ _ => (note _ _ _).bind fun _ => pure _) _
  · exact (note _ _ _).bind fun _ => pure _

theorem make (node : Node) (what before after : String) :
    KeepsPlace (Scratch.make node what before after) := by
  intro h
  rw [Scratch.exec_make]
  cases hsearch : Scratch.search node (Scratch.path h.scratchDir before after) what h.files
      Scratch.attempts (h.scratchNames + 1) with
  | mk result last =>
    cases result with
    | error fault => exact ⟨rfl, fun _ _ => trivial⟩
    | ok files =>
      obtain ⟨l, hfree⟩ := FileSystem.free_of_create (Scratch.search_eq_ok hsearch)
      obtain rfl := hfree.create (Scratch.search_eq_ok hsearch)
      exact ⟨rfl, fun _ _ => trivial⟩

theorem start (args : List String) (tools : Option Toolchain) :
    KeepsPlace (Pipeline.start args tools) := by
  have hconfigure (dir compiler instrumentor : Option String) :
      KeepsPlace (Toolchain.configure dir compiler instrumentor) := by
    rw [Toolchain.configure]
    dsimp only
    split
    · exact pure _
    · refine bind (Keeps.get frame_staysPut) fun h => ?_
      split
      · exact pure _
      · exact (note _ _ _).bind fun _ => throw _
  have henvironment : KeepsPlace Toolchain.ofEnvironment := by
    refine bind (Keeps.get frame_staysPut) fun h => ?_
    dsimp only
    split
    · exact (note _ _ _).bind fun _ => hconfigure _ _ _
    · exact hconfigure _ _ _
  unfold Pipeline.start
  dsimp only
  split
  · exact bind (pure _) fun t => pure _
  · exact henvironment.bind fun t => pure _

theorem resolveOutputDir (declared : Option String) :
    KeepsPlace (Pipeline.resolveOutputDir declared) := by
  unfold Pipeline.resolveOutputDir
  split
  · refine bind (make _ _ _ _) fun dir => ?_
    exact (note _ _ _).bind fun _ => pure _
  · refine (onFiles fun {fs fs' r} hrun => ?_).bind fun _ => pure _
    exact ((FileOp.addsDirs_makeDirsWithin _ _ _).state hrun).cwd

theorem classify (s : Pipeline.State) : KeepsPlace (Pipeline.classify s) := by
  rw [Pipeline.classify]
  split
  · refine (expand _).bind fun tokens => ?_
    refine (classifyLogged _).bind fun args => ?_
    refine (note _ _ _).bind fun _ => ?_
    refine (resolveOutputDir _).bind fun outputDir => ?_
    refine bind (make _ _ _ _) fun captureFile => ?_
    exact bind (make _ _ _ _) fun stagingDir => pure _
  · exact throw _

end KeepsPlace

/-! ### The compiler -/

/-- The tool leaves the current directory where it is. -/
def Event.StayPut (events : List Event) : Prop :=
  ∀ before after, Event.changed before after ∈ events → after.cwd = before.cwd

/-- Tells of something that a tool has done whether the current directory is where it
was. -/
def Event.keepsPlace : Event → Bool
  | .wrote _ _ => true
  | .changed before after => after.cwd = before.cwd

theorem Event.StayPut.of_keepsPlace {events : List Event}
    (h : events.all Event.keepsPlace = true) : Event.StayPut events :=
  fun _ _ hevent => of_decide_eq_true (List.all_eq_true.mp h _ hevent)

theorem Behaviour.run_cwd (tool : Behaviour) (routes : Stream → Route) {s : Surroundings}
    (h : Event.StayPut (tool.events routes s)) : (tool.run routes s).2.files.cwd = s.files.cwd := by
  induction tool generalizing s with
  | exit status => rfl
  | emit stream bytes next ih =>
    rw [events] at h
    rw [run, ih fun before after hevent => h before after (List.mem_cons_of_mem _ hevent)]
    unfold Surroundings.deliver
    split
    · rfl
    · rfl
    · rfl
    · exact FileSystem.writeOpen_cwd _ _ _
  | act change sound next ih =>
    rw [events] at h
    rw [run, ih s.files fun before after hevent => h before after (List.mem_cons_of_mem _ hevent)]
    exact h _ _ List.mem_cons_self

namespace Pipeline

variable {args : List String} {tools : Option Toolchain} {before : Host}

theorem cwd_of_runCompiler_eq_ok {s : State} {plan : Plan} {h h' : Host} {outcome : Launch.Outcome}
    (hq : h.log.Quiet) (hok : exec (runCompiler s plan) h = (.ok outcome, h')) :
    ∃ call, h'.calls = h.calls ++ [call] ∧ (Event.StayPut call.events → StaysPut h h') := by
  obtain ⟨routes, program, h₁, hroutes, rfl⟩ := Launch.runStage_eq_ok_quiet rfl rfl hq hok
  rw [show Launch.sharedErrors (.file plan.captureFile) .merge = .merge from rfl,
    Launch.exec_openRoutes_file] at hroutes
  cases hopen : (h.handOver (compilerCommand s.tools plan)).files.openTruncated plan.captureFile with
  | error r => rw [hopen] at hroutes; cases hroutes
  | ok opened =>
    obtain ⟨files, handle⟩ := opened
    rw [hopen] at hroutes
    cases hroutes
    let tail := (compilerCommand s.tools plan).tail
    let h₁ : Host := { h.handOver (compilerCommand s.tools plan) with files }
    refine ⟨Launch.callOn h₁ (fun _ => .file handle) program tail, rfl, fun hstay => ?_⟩
    exact (Behaviour.run_cwd (h₁.programs program tail) _ (s := ⟨h₁.files, h₁.stdout, h₁.stderr⟩)
      hstay).trans (FileSystem.openTruncated_cwd hopen)

/-- With a quiet log the step before a state leads right to it. -/
theorem Reached.quiet_step (hq : before.log.Quiet) {s : State} {h : Host}
    (hs : Reached args tools before s h) (hphase : s.phase ≠ .initial) :
    ∃ s₁ h₁, Reached args tools before s₁ h₁ ∧ h₁.log.Quiet ∧ Advances s₁ h₁ s h := by
  obtain ⟨s₁, h₁, h₂, hs₁, hstep, rfl⟩ := hs.last_step hphase
  obtain ⟨hlog, hheard⟩ := hs₁.heard hq
  have hq₁ : h₁.log.Quiet := hlog.symm ▸ hq
  have hq₂ : h₂.log.Quiet := (hstep.heard hs₁ hq₁ hheard).1.symm ▸ hq₁
  rw [noteReached, hq₂.note (.inr rfl)]
  exact ⟨s₁, h₁, hs₁, hq₁, hstep⟩

/-- The arguments are classified right after the start. -/
theorem Reached.of_classified (hq : before.log.Quiet) {s : State} {h : Host} {plan : Plan}
    (hs : Reached args tools before s h) (hclassified : s.progress = .classified plan) :
    ∃ s₁ h₁, exec (start args tools) before = (.ok s₁, h₁) ∧
      exec (classify s₁) h₁ = (.ok s, h) ∧ Planned s₁.rawArgs h₁ plan h := by
  obtain ⟨s₁, h₁, hs₁, -, hstep⟩ := hs.quiet_step hq (by
    rw [State.phase_eq hclassified]
    exact Phase.noConfusion)
  cases hstep with
  | compiled | staged | instrumented | replayed | done => cases hclassified
  | classified hinitial hclassify hplanned =>
    cases hclassified
    cases hs₁ with
    | started hstart => exact ⟨s₁, h₁, hstart, hclassify, hplanned⟩
    | stepped _ hstep =>
      have hlater := hstep.stepsBefore
      rw [State.phase_eq hinitial] at hlater
      cases hlater

/-- The compiler runs where the run was started, and when it has ended this is still the
current directory, unless the compiler has moved it. -/
theorem Reached.cwd_of_compiled (hq : before.log.Quiet) {s : State} {h : Host}
    (hs : Reached args tools before s h) (hphase : s.phase = .compiled)
    (hcalls : ∀ call ∈ h.calls.drop before.calls.length, Event.StayPut call.events) :
    h.files.cwd = before.files.cwd := by
  obtain ⟨s₁, h₁, hs₁, hq₁, hstep⟩ := hs.quiet_step hq (by rw [hphase]; decide)
  cases hstep with
  | classified | staged | instrumented | replayed | done => cases hphase
  | @compiled plan outcome h₂ hprogress hrun =>
    obtain ⟨s₀, h₀, hstart, hclassify, -⟩ := hs₁.of_classified hq hprogress
    have hrecord := background_sameRecord.trans
      ((background_sameRecord.works_start args tools).state hstart)
      ((background_sameRecord.works_classify _).state hclassify)
    have hplace : StaysPut before h₁ := frame_staysPut.trans
      ((KeepsPlace.start args tools).state hstart) ((KeepsPlace.classify _).state hclassify)
    obtain ⟨call, hcall, hkeeps⟩ := cwd_of_runCompiler_eq_ok hq₁ hrun
    refine frame_staysPut.trans hplace (hkeeps (hcalls call ?_))
    rw [Host.printLine, Host.writeStdout, hcall, hrecord.2, List.drop_left]
    exact List.mem_singleton_self call

end Pipeline

end MonitoredCompile

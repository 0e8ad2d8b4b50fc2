/-
MonitoredCompile/Proofs/Run/Lockstep.lean

Runs on twins, up to the end of the instrumentor.  The twins differ in the file in which the
instrumentor leaves its diagnostics, and a run does not look at this file before it replays
it.  So both runs take the same steps with the same results, if no path that is given to them
has the file's name in it (`Unmentioned`), the tools are oblivious to the file, and it is not
below the classes when these are moved aside (`StaysPut`).

Nothing is asked of the file itself: it may be there for one run only, it may be old, and the
tools may write it.
-/
import MonitoredCompile.Proofs.Run.Reach
import MonitoredCompile.Proofs.Run.Twins

namespace MonitoredCompile.Pipeline

open Attempt (exec exec_bind exec_bind_eq_ok)
open Diagnostics (instrumentorFile)

variable {d : Location} {args : List String} {tools : Option Toolchain}
variable {before before' h h' : Host} {s : State} {plan : Plan}

/-! ### What a run is given -/

/-- The file's name is in no path that is given to the run: not in the path of the temporary
directory, an argument file, a tool or the directory of the tools, and not in the output
directory's. -/
structure Unmentioned (args : List String) (tools : Option Toolchain) (before : Host) : Prop where
  scratchDir : instrumentorFile ∉ Path.names before.scratchDir
  argumentFiles : ∀ token ∈ args, ∀ file, Arguments.fileName? token = some file →
    instrumentorFile ∉ Path.names file
  toolDir : ∀ dir, before.setting? Toolchain.dirVariable = some dir →
    instrumentorFile ∉ Path.names dir
  programs : ∀ s h, exec (start args tools) before = (.ok s, h) →
    ∀ word ∈ s.tools.compiler ++ s.tools.instrumentor, ∀ path ∈ Launch.candidates before word,
      instrumentorFile ∉ Path.names path
  outputDir : ∀ s h tokens h', exec (start args tools) before = (.ok s, h) →
    exec (Arguments.expand args) h = (.ok tokens, h') →
    ∀ dir, (Arguments.classify tokens).outputDir = some dir → instrumentorFile ∉ Path.names dir

/-- When the classes are moved aside, the directory `d` is not below them, and not below what
they are moved to. -/
def StaysPut (d : Location) (args : List String) (tools : Option Toolchain) (before : Host) : Prop :=
  ∀ s h plan last, Reached args tools before s h → s.progress = .compiled plan last →
    h.files.Aside d plan.outputDir ∧ h.files.Aside d plan.stagingDir

namespace Unmentioned

variable (hm : Unmentioned args tools before)
include hm

/-- It is no temporary file either. -/
theorem scratch {first rest : String} (hfirst : first.toList.head? = some 't')
    (hslash : '/' ∉ first.toList) (hslash' : '/' ∉ rest.toList) (n : Nat) :
    instrumentorFile ∉ Path.names (Scratch.path before.scratchDir first rest n) := by
  have hname := Scratch.isName hfirst (by decide) hslash hslash' n
  have hother : first ++ Scratch.eightDigits n ++ rest ≠ instrumentorFile :=
    Scratch.ne_of_head hfirst (by decide) n
  rw [Scratch.path, Path.names_join ⟨hname.ne_empty, hname.no_slash⟩, List.mem_append, not_or,
    List.mem_singleton]
  exact ⟨hm.scratchDir, hother.symm⟩

theorem captureFile (n : Nat) :
    instrumentorFile ∉ Path.names (Scratch.path before.scratchDir "topljavac" "stderr" n) :=
  hm.scratch (by decide) (by decide) (by decide) n

theorem stagingDir (n : Nat) :
    instrumentorFile ∉ Path.names (Scratch.path before.scratchDir "topljavac-in" "" n) :=
  hm.scratch (by decide) (by decide) (by decide) n

theorem scratchOutput (n : Nat) :
    instrumentorFile ∉ Path.names (Scratch.path before.scratchDir "topljavac-out" "" n) :=
  hm.scratch (by decide) (by decide) (by decide) n

/-- No path of a plan has the name in it. -/
theorem ofPlan (hs : Reached args tools before s h) (hplan : s.plan? = some plan) :
    instrumentorFile ∉ Path.names plan.outputDir ∧ instrumentorFile ∉ Path.names plan.captureFile ∧
      instrumentorFile ∉ Path.names plan.stagingDir := by
  obtain ⟨h₀, hstart, -, -, hplanned⟩ := hs.planned
  obtain ⟨h₁, hplanned⟩ := hplanned plan hplan
  have hsame : h₀.scratchDir = before.scratchDir :=
    (background_sameScratch.works_start args tools).state hstart
  obtain ⟨c, n, _, _, hc, hn, -, -⟩ := hplanned.created
  rw [hc, hn, hsame]
  refine ⟨?_, hm.captureFile c, hm.stagingDir n⟩
  obtain ⟨tokens, h₂, hexpand, hdeclared | ⟨m, hmade⟩⟩ := hplanned.output
  · exact hm.outputDir _ h₀ tokens h₂ hstart hexpand _ hdeclared
  · rw [hmade, hsame]
    exact hm.scratchOutput m

end Unmentioned

/-! ### Each step -/

theorem blind_moveAside {x : String} {fs : FileSystem} (h : fs.Lone d x) (hwf : fs.WellFormed)
    (hout : x ∉ Path.names plan.outputDir) (hstaging : x ∉ Path.names plan.stagingDir)
    (haside : fs.Aside d plan.outputDir) (haside' : fs.Aside d plan.stagingDir) :
    FileOp.Blind d x fs (moveAside plan) := by
  refine FileOp.Blind.bind (.call h ((h.misses hstaging false).removeDir h haside'))
    fun _ freed hfreed hlone => ?_
  rw [FileOp.exec_call] at hfreed
  cases hremove : fs.removeDir plan.stagingDir with
  | error r =>
    rw [hremove] at hfreed
    cases hfreed
  | ok left =>
    rw [hremove] at hfreed
    cases hfreed
    obtain ⟨l, rfl, -, -, hname⟩ := FileSystem.free_of_removeDir hremove
    -- What is left names nothing new.
    have hleft {path : String} (h : fs.Aside d path) : (fs.remove l).Aside d path :=
      h.of_extends (FileSystem.extends_remove fs l) (FileSystem.sameStarts_remove fs l path)
    exact FileOp.blind_move hlone hout hstaging (hwf.removeDir hremove) hname (hleft haside)
      (hleft haside')

theorem agree_required {x : String} {base : Host} {stage : Run Launch.Outcome}
    (hstage : Agree d x base stage h h') (line : String) (next : Launch.Outcome → State) :
    Agree d x base (required stage line next) h h' :=
  Agree.iff_parallel.mpr <|
    parallel_required (Agree.iff_parallel.mp hstage) line (fun _ _ t => t.printLine line) next

section

variable (hm : Unmentioned args tools before) (t : Twins d instrumentorFile before h h')
include hm t

theorem agree_start : Agree d instrumentorFile before (start args tools) h h' := by
  unfold start
  dsimp only
  split
  · exact Agree.bind (.pure t _) fun _ k k' _ _ t => .pure t _
  · exact (Agree.ofEnvironment t hm.toolDir).bind fun _ k k' _ _ t => .pure t _

theorem agree_resolveOutputDir {declared : Option String}
    (hx : ∀ dir, declared = some dir → instrumentorFile ∉ Path.names dir) :
    Agree d instrumentorFile before (resolveOutputDir declared) h h' := by
  unfold resolveOutputDir
  split
  · refine (Agree.make t FileSystem.shuns_emptyDir hm.scratchOutput).bind fun dir k k' _ _ t => ?_
    exact (Agree.note t _ _ _).bind fun _ k k' _ _ t => .pure t _
  · next dir =>
    exact (Agree.onFiles t (FileOp.blind_ensureDirs t.lone (hx dir rfl))
      (FileOp.blind_ensureDirs t.lone' (hx dir rfl))).bind fun _ k k' _ _ t => .pure t _

theorem agree_classify (hs : Reached args tools before s h) :
    Agree d instrumentorFile before (classify s) h h' := by
  cases hprogress : s.progress with
  | initial =>
    obtain ⟨h₀, hstart, hargs, hhost, -⟩ := hs.planned
    obtain rfl := hhost hprogress
    rw [classify, hprogress]
    dsimp only
    refine (Agree.expand t (hargs ▸ hm.argumentFiles)).bind fun tokens k k' hexpand _ t => ?_
    refine (Agree.classifyLogged t tokens).bind fun classified k k' hclassified _ t => ?_
    obtain rfl := classifyLogged_eq_ok hclassified
    refine (Agree.note t _ _ _).bind fun _ k k' _ _ t => ?_
    refine (agree_resolveOutputDir hm t fun dir hdir => ?_).bind fun outputDir k k' _ _ t => ?_
    · exact hm.outputDir _ h tokens _ hstart (hargs ▸ hexpand) dir hdir
    refine (Agree.make t (FileSystem.shuns_file _) hm.captureFile).bind fun file k k' _ _ t => ?_
    exact (Agree.make t FileSystem.shuns_emptyDir hm.stagingDir).bind fun dir k k' _ _ t =>
      .pure t _
  | _ =>
    rw [classify, hprogress]
    exact .throw t _

section

variable (htools : ∀ program args, (before.programs program args).Oblivious d instrumentorFile)
include htools

theorem agree_compile (hs : Reached args tools before s h) :
    Agree d instrumentorFile before (compile s) h h' := by
  cases hprogress : s.progress with
  | classified plan =>
    obtain ⟨h₀, hstart, -⟩ := hs.planned
    obtain ⟨-, hcapture, -⟩ := hm.ofPlan hs (State.plan?_eq hprogress)
    have hstage : Agree d instrumentorFile before (runCompiler s plan) h h' := by
      refine .runStage t rfl rfl ?_ nofun ?_ htools
      · rintro path ⟨⟩
        exact hcapture
      · rintro word ⟨⟩
        exact hm.programs _ h₀ hstart _ List.mem_cons_self
    have hagree := agree_required hstage
      ("TOPL: javac finished successfully. Output in " ++ plan.outputDir)
      fun outcome => { s with progress := .compiled plan outcome }
    exact ⟨by rw [exec_compile hprogress, exec_compile hprogress]; exact hagree.result,
      by rw [exec_compile hprogress, exec_compile hprogress]; exact hagree.twins⟩
  | _ =>
    rw [compile, hprogress]
    exact .throw t _

theorem agree_instrument (hs : Reached args tools before s h) :
    Agree d instrumentorFile before (instrument s) h h' := by
  cases hprogress : s.progress with
  | staged plan last =>
    obtain ⟨h₀, hstart, -⟩ := hs.planned
    have hstage : Agree d instrumentorFile before (runInstrumentor s plan) h h' := by
      refine .runStage t rfl rfl nofun nofun ?_ htools
      rintro word ⟨⟩
      exact hm.programs _ h₀ hstart _ (List.mem_append_right _ List.mem_cons_self)
    have hagree := agree_required hstage "TOPL: toplc finished successfully."
      fun outcome => { s with progress := .instrumented plan outcome }
    exact ⟨by rw [exec_instrument hprogress, exec_instrument hprogress]; exact hagree.result,
      by rw [exec_instrument hprogress, exec_instrument hprogress]; exact hagree.twins⟩
  | _ =>
    rw [instrument, hprogress]
    exact .throw t _

end

theorem agree_stage (hput : StaysPut d args tools before) (hs : Reached args tools before s h)
    (hwf : h.files.WellFormed) (hwf' : h'.files.WellFormed) :
    Agree d instrumentorFile before (stage s) h h' := by
  cases hprogress : s.progress with
  | compiled plan last =>
    obtain ⟨hout, -, hstaging⟩ := hm.ofPlan hs (State.plan?_eq hprogress)
    obtain ⟨haside, haside'⟩ := hput s h plan last hs hprogress
    -- What is aside for the one run is so for the other.
    have hother {path : String} (hpath : instrumentorFile ∉ Path.names path)
        (h : h.files.Aside d path) : h'.files.Aside d path := by
      rw [← (t.lone'.misses hpath false).aside_iff t.lone', ← t.hidden]
      exact ((t.lone.misses hpath false).aside_iff t.lone).mpr h
    have hmove := Agree.onFiles t (blind_moveAside t.lone hwf hout hstaging haside haside')
      (blind_moveAside t.lone' hwf' hout hstaging (hother hout haside) (hother hstaging haside'))
    rw [stage, hprogress]
    dsimp only
    refine Agree.bind (hmove.tryCatch fun failure k k' t => ?_) fun _ k k' _ _ t => ?_
    · split
      · split
        · exact .throw t _
        · exact .throw t _
      · exact .throw t _
    · exact (Agree.note t _ _ _).bind fun _ k k' _ _ t => .pure t _
  | _ =>
    rw [stage, hprogress]
    exact .throw t _

end

/-! ### The run -/

section

variable (hm : Unmentioned args tools before)
  (htools : ∀ program args, (before.programs program args).Oblivious d instrumentorFile)
  (hput : StaysPut d args tools before) (hwf : before.files.WellFormed)
  (hwf' : before'.files.WellFormed)
include hm htools hput hwf hwf'

theorem agree_step {step : State → Run State} (hstep : step ∈ steps.take 4)
    (t : Twins d instrumentorFile before h h') (hs : Reached args tools before s h)
    (hs' : Reached args tools before' s h') : Agree d instrumentorFile before (step s) h h' := by
  simp only [steps, List.take, List.mem_cons, List.not_mem_nil, or_false] at hstep
  rcases hstep with rfl | rfl | rfl | rfl
  · exact agree_classify hm t hs
  · exact agree_compile hm t htools hs
  · exact agree_stage hm t hput hs (hs.wellFormed hwf) (hs'.wellFormed hwf')
  · exact agree_instrument hm t htools hs

theorem agree_runSteps {left : List (State → Run State)} (hleft : ∀ step ∈ left, step ∈ steps.take 4)
    (t : Twins d instrumentorFile before h h') (hs : Reached args tools before s h)
    (hs' : Reached args tools before' s h') :
    Agree d instrumentorFile before (runSteps left s) h h' := by
  induction left generalizing s h h' with
  | nil => exact .pure t s
  | cons step rest ih =>
    have hstep := hleft step List.mem_cons_self
    rw [runSteps]
    refine (agree_step hm htools hput hwf hwf' hstep t hs hs').bind fun s' k k' hk hk' t => ?_
    have hgives := gives_step (List.mem_of_mem_take hstep) s h
    have hgives' := gives_step (List.mem_of_mem_take hstep) s h'
    rw [hk] at hgives
    rw [hk'] at hgives'
    refine (Agree.note t _ _ _).bind fun _ m m' hm hm' t => ?_
    cases hm
    cases hm'
    exact ih (fun step hstep => hleft step (List.mem_cons_of_mem _ hstep)) t (hs.stepped hgives)
      (hs'.stepped hgives')

/-- **Lockstep.**  Until the instrumentor has ended, runs on twins have the same results and
leave twins. -/
theorem agree_run (t : Twins d instrumentorFile before before before') :
    Agree d instrumentorFile before (start args tools >>= runSteps (steps.take 4)) before before' := by
  refine (agree_start hm t).bind fun s k k' hk hk' t => ?_
  exact agree_runSteps hm htools hput hwf hwf' (fun _ hstep => hstep) t (.started hk) (.started hk')

end

end MonitoredCompile.Pipeline

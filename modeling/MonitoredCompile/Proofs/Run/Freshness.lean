/-
MonitoredCompile/Proofs/Run/Freshness.lean

Whether the diagnostics that a run replays are its own.  They should be: what an earlier run
has left in the file of the instrumentor should not show.  But the file is neither removed
before the instrumentor runs nor dated, so it shows exactly if the instrumentor leaves it
(`sameOutcome_iff`): two runs whose hosts differ in nothing else have the same outcome if and
only if, when the instrumentor has ended, the file reads the same in both, up to an end of its
last line.  An instrumentor that writes the file anew makes that so.  One that does not lets an
old file pass for a new one, where it would make a run in a clean directory fail
(`otherOutcome_leftHost`).
-/
import MonitoredCompile.Proofs.Run.Remainder

namespace MonitoredCompile

open Attempt (exec exec_bind)

namespace Pipeline

open Diagnostics (instrumentorFile)

variable {d : Location} {args : List String} {tools : Option Toolchain} {before before' : Host}

/-- The first four steps come to the end of the instrumentor. -/
theorem reached_instrumented {s : State} {h : Host}
    (hexec : exec (start args tools >>= runSteps (steps.take 4)) before = (.ok s, h)) :
    Reached args tools before s h ∧ s.phase = .instrumented := by
  obtain ⟨first, h₀, hstart, hsteps⟩ := Attempt.exec_bind_eq_ok.mp hexec
  have hmember : ∀ step ∈ steps.take 4, step ∈ steps := fun _ hstep => List.mem_of_mem_take hstep
  have hreached := reached_runSteps hmember (.started hstart)
  rw [hsteps, start_eq_ok hstart] at hreached
  exact ⟨hreached.1, stepsBefore_injective hreached.2⟩

/-- **Old diagnostics.**  Take two hosts that differ in nothing but the file in which the
instrumentor leaves its diagnostics, and tools that are oblivious to an old one.  No path that
is given to the run has the file's name in it, and the file is not below the directory that is
moved aside.  Then both runs have the same outcome if and only if the file reads the same in
both of them when the instrumentor has ended, up to an end of its last line. -/
theorem sameOutcome_iff (t : Twins d instrumentorFile before before before')
    (hfiles : before.files.WellFormed) (hfiles' : before'.files.WellFormed)
    (htools : ∀ program args, (before.programs program args).Oblivious d instrumentorFile)
    (hgiven : Unmentioned args tools before) (hput : StaysPut d args tools before) :
    SameOutcome (exec (run args tools) before) (exec (run args tools) before') ↔
      ∀ s h s' h', Reached args tools before s h → Reached args tools before' s' h' →
        s.phase = .instrumented → s'.phase = .instrumented →
        (h.files.read instrumentorFile).map Diagnostics.endLine
          = (h'.files.read instrumentorFile).map Diagnostics.endLine := by
  obtain ⟨hresult, t⟩ := agree_run hgiven htools hput hfiles hfiles' t
  rw [exec_run_eq 4, exec_run_eq 4]
  rcases hpart : exec (start args tools >>= runSteps (steps.take 4)) before with
      ⟨failure | s, h⟩ <;>
    rcases hpart' : exec (start args tools >>= runSteps (steps.take 4)) before' with ⟨r', h'⟩ <;>
    rw [hpart, hpart'] at hresult t <;> cases hresult
  -- Neither run gets as far as that.
  · refine ⟨fun _ s h s' h' hs _ hphase _ => ?_, fun _ => ⟨rfl, t.stdout.symm, t.stderr.symm⟩⟩
    cases hpart.symm.trans (exec_of_reached_instrumented hs hphase)
  · obtain ⟨hs, hphase⟩ := reached_instrumented hpart
    obtain ⟨hs', -⟩ := reached_instrumented hpart'
    obtain ⟨plan, last, hprogress⟩ := State.progress_of_instrumented hphase
    obtain ⟨-, hcapture, -⟩ := hgiven.ofPlan hs (State.plan?_eq hprogress)
    refine (sameOutcome_remainder_iff t hprogress hcapture).trans
      ⟨fun hsame s₁ h₁ s₁' h₁' hs₁ hs₁' hphase₁ hphase₁' => ?_,
        fun hsame => hsame s h s h' hs hs' hphase hphase⟩
    cases hpart.symm.trans (exec_of_reached_instrumented hs₁ hphase₁)
    cases hpart'.symm.trans (exec_of_reached_instrumented hs₁' hphase₁')
    exact hsame

/-! ### Hosts in which something was left -/

/-- A host with tools that write no file, and in its current directory these entries. -/
def leftHost (left : List (String × Node)) : Host where
  files := ⟨.dir [("bin", .dir [
      ("javac", .file { bytes := [], executable := true, program := some "javac" }),
      ("toplc", .file { bytes := [], executable := true, program := some "toplc" })]),
    ("tmp", .dir []), ("work", .dir left)], some ["work"], []⟩
  programs _ _ := .emit .output [0x2E] (.exit 0)
  scratchDir := "/tmp"

/-- Nothing, or a file of the instrumentor's. -/
def leftovers : Option Bytes → List (String × Node)
  | none => []
  | some bytes => [(instrumentorFile, .file { bytes })]

theorem leftHost_wellFormed (old : Option Bytes) :
    (leftHost (leftovers old)).files.WellFormed := by
  have hname {name : String}
      (h : name ∈ ["bin", "tmp", "work", "javac", "toplc", "javac.err.topl"]) : IsName name := by
    simp only [List.mem_cons, List.not_mem_nil, or_false] at h
    rcases h with rfl | rfl | rfl | rfl | rfl | rfl <;>
      exact ⟨by decide, by decide, by decide, by decide⟩
  refine .dir (by simp) (by simp [hname]) fun e he => ?_
  simp only [List.mem_cons, List.not_mem_nil, or_false] at he
  rcases he with rfl | rfl | rfl
  · exact .dir (by decide) (by simp [hname]) (by simp [Node.WellFormed.file])
  · exact .emptyDir
  · cases old with
    | none => exact .emptyDir
    | some bytes =>
      exact .dir (List.pairwise_singleton _ _) (by simp [leftovers, instrumentorFile, hname])
        (by simp [leftovers, Node.WellFormed.file])

theorem leftHost_lone (old : Option Bytes) :
    (leftHost (leftovers old)).files.Lone ["work"] instrumentorFile where
  isName := ⟨by decide, by decide, by decide, by decide⟩
  dir := rfl
  plain entry hentry := by
    cases old with
    | none => cases hentry
    | some bytes =>
      cases hentry
      exact .file _
  links := by
    have hempty {node : Node} (h : node = .dir []) : FileSystem.Shuns instrumentorFile node :=
      h ▸ FileSystem.shuns_emptyDir
    have hfile {node : Node} {f : File} (h : node = .file f) :
        FileSystem.Shuns instrumentorFile node := h ▸ FileSystem.shuns_file f
    refine FileSystem.shuns_dir fun e he => ?_
    simp only [List.mem_cons, List.not_mem_nil, or_false] at he
    rcases he with rfl | rfl | rfl
    · refine FileSystem.shuns_dir fun e he => ?_
      simp only [List.mem_cons, List.not_mem_nil, or_false] at he
      rcases he with rfl | rfl <;> exact hfile rfl
    · exact hempty rfl
    · refine FileSystem.shuns_dir fun e he => ?_
      cases old with
      | none => cases he
      | some bytes =>
        obtain rfl := List.mem_singleton.mp he
        exact hfile rfl
  cwd := rfl
  closed o ho := by cases ho

theorem twins_leftHost (old old' : Option Bytes) :
    Twins ["work"] instrumentorFile (leftHost (leftovers old)) (leftHost (leftovers old))
      (leftHost (leftovers old')) where
  hidden := by cases old <;> cases old' <;> rfl
  lone := leftHost_lone old
  lone' := leftHost_lone old'
  rest := rfl
  setUp := ⟨rfl, rfl, rfl⟩

theorem unmentioned_leftHost (left : List (String × Node)) :
    Unmentioned ["A.java"] none (leftHost left) where
  scratchDir := (by decide : instrumentorFile ∉ Path.names "/tmp")
  argumentFiles token htoken file hfile := by
    obtain rfl := List.mem_singleton.mp htoken
    cases hfile
  toolDir dir hdir := by cases hdir
  programs s h hstart word hword := by
    cases hstart
    have hpaths : ∀ word ∈ ["javac", "toplc"], ∀ path ∈ Launch.candidates (leftHost []) word,
        instrumentorFile ∉ Path.names path := by
      decide +kernel
    exact hpaths word hword
  outputDir s h tokens h' hstart hexpand dir hdir := by
    cases hexpand
    cases (show (Arguments.classify ["A.java"]).outputDir = none by decide +kernel).symm.trans hdir

theorem oblivious_leftHost (left : List (String × Node)) (program : String) (args : List String) :
    ((leftHost left).programs program args).Oblivious d instrumentorFile :=
  Behaviour.Oblivious.emit (.exit 0)

/-- The plan of the run in that host. -/
def leftPlan : Plan :=
  ⟨Arguments.classify ["A.java"], "/tmp/topljavac-out00000001", "/tmp/topljavac-in00000003",
    "/tmp/topljavac00000002stderr"⟩

/-- What is moved aside are directories of the run's own. -/
theorem staysPut_leftHost {old : Option Bytes} (hold : old ∈ [none, some [0x41]]) :
    StaysPut ["work"] ["A.java"] none (leftHost (leftovers old)) := by
  have hpart : ∀ old ∈ [none, some [0x41]],
      let part := exec (runPart 2 ["A.java"]) (leftHost (leftovers old))
      part.1.toOption.bind State.plan? = some leftPlan ∧
        part.2.files.find leftPlan.outputDir false = .ok (["tmp", "topljavac-out00000001"], .dir []) ∧
        part.2.files.find leftPlan.stagingDir false
          = .ok (["tmp", "topljavac-in00000003"], .dir []) := by
    decide +kernel
  intro s h plan last hs hprogress
  obtain ⟨hplan, hout, hstaging⟩ := hpart old hold
  obtain ⟨s₁, hs₁, hcount, hplan₁⟩ := reached_of_runPart (by decide) hplan
  have hcompiled : s₁.phase = .compiled := stepsBefore_injective hcount
  obtain ⟨rfl, rfl⟩ := hs.unique hs₁ ((State.phase_eq hprogress).trans hcompiled.symm)
  obtain rfl : plan = leftPlan := Option.some.inj ((State.plan?_eq hprogress).symm.trans hplan₁)
  refine ⟨fun l entries hfind => ?_, fun l entries hfind => ?_⟩
  · cases hout.symm.trans hfind
    decide
  · cases hstaging.symm.trans hfind
    decide

/-- An end of the last line that is missing does not show. -/
theorem sameOutcome_leftHost :
    Twins ["work"] instrumentorFile (leftHost (leftovers (some [0x41])))
        (leftHost (leftovers (some [0x41]))) (leftHost (leftovers (some [0x41, 0x0A]))) ∧
      SameOutcome (exec (run ["A.java"]) (leftHost (leftovers (some [0x41]))))
        (exec (run ["A.java"]) (leftHost (leftovers (some [0x41, 0x0A])))) := by
  refine ⟨twins_leftHost _ _, (sameOutcome_iff (twins_leftHost _ _) (leftHost_wellFormed _)
    (leftHost_wellFormed _) (oblivious_leftHost _) (unmentioned_leftHost _)
    (staysPut_leftHost (by decide))).mpr fun s h s' h' hs hs' hphase hphase' => ?_⟩
  have hreads : ((exec (start ["A.java"] none >>= runSteps (steps.take 4))
        (leftHost (leftovers (some [0x41])))).2.files.read instrumentorFile).map
          Diagnostics.endLine = .ok [0x41, 0x0A] ∧
      ((exec (start ["A.java"] none >>= runSteps (steps.take 4))
        (leftHost (leftovers (some [0x41, 0x0A])))).2.files.read instrumentorFile).map
          Diagnostics.endLine = .ok [0x41, 0x0A] := by
    decide +kernel
  rw [exec_of_reached_instrumented hs hphase, exec_of_reached_instrumented hs' hphase'] at hreads
  exact hreads.1.trans hreads.2.symm

/-- **An old file passes for a new one.**  The tools write no file.  If none was there, the run
fails for want of it, and if one was left, the run is done. -/
theorem otherOutcome_leftHost :
    ∃ failure s,
      Twins ["work"] instrumentorFile (leftHost (leftovers none)) (leftHost (leftovers none))
        (leftHost (leftovers (some [0x41]))) ∧
      (leftHost (leftovers none)).files.WellFormed ∧
      (leftHost (leftovers (some [0x41]))).files.WellFormed ∧
      (∀ program args, ((leftHost (leftovers none)).programs program args).Oblivious ["work"]
        instrumentorFile) ∧
      Unmentioned ["A.java"] none (leftHost (leftovers none)) ∧
      StaysPut ["work"] ["A.java"] none (leftHost (leftovers none)) ∧
      (exec (run ["A.java"]) (leftHost (leftovers none))).1 = .error failure ∧
      (exec (run ["A.java"]) (leftHost (leftovers (some [0x41])))).1 = .ok s ∧
      ¬ SameOutcome (exec (run ["A.java"]) (leftHost (leftovers none)))
        (exec (run ["A.java"]) (leftHost (leftovers (some [0x41])))) := by
  have hends : (exec (run ["A.java"]) (leftHost (leftovers none))).1.isOk = false ∧
      (exec (run ["A.java"]) (leftHost (leftovers (some [0x41])))).1.isOk = true := by
    decide +kernel
  obtain ⟨hfails, hdone⟩ := hends
  rcases hclean : (exec (run ["A.java"]) (leftHost (leftovers none))).1 with failure | s
  · rcases hleft : (exec (run ["A.java"]) (leftHost (leftovers (some [0x41])))).1 with failure' | s
    · rw [hleft] at hdone
      cases hdone
    · refine ⟨failure, s, twins_leftHost _ _, leftHost_wellFormed _, leftHost_wellFormed _,
        oblivious_leftHost _, unmentioned_leftHost _, staysPut_leftHost (by decide), rfl, rfl,
        fun hsame => ?_⟩
      cases hclean.symm.trans (hsame.result.trans hleft)
  · rw [hclean] at hfails
    cases hfails

end Pipeline

end MonitoredCompile

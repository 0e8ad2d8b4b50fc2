/-
MonitoredCompile/Proofs/Run/Streams.lean

What a run that comes to its end has written, to the byte.  The capture file is
followed through the steps: it holds what the compiler wrote when the compiler has
ended, and from then on its path leads to a file with these bytes or nowhere, also
while the classes are moved aside (`Reached.captured`).  So if the replay at the end
could read it, that is what was replayed (`streams_of_done`).
-/
import MonitoredCompile.Proofs.FileSystem.Sibling
import MonitoredCompile.Proofs.Run.Capture
import MonitoredCompile.Proofs.Run.Places
import MonitoredCompile.Proofs.Run.Report
import MonitoredCompile.Tool.Script

namespace MonitoredCompile

open Attempt (exec exec_bind_eq_ok)

namespace Pipeline

/-! ### The capture file in each step -/

section

variable {s : State} {plan : Plan} {h h' : Host} {outcome : Launch.Outcome}

/-- The compiler's run fills the capture file. -/
theorem capture_of_runCompiler_eq_ok (hq : h.log.Quiet) {l : Location} {f : File}
    (hfind : h.files.find plan.captureFile false = .ok (l, .file f))
    (hok : exec (runCompiler s plan) h = (.ok outcome, h')) :
    ∃ call, h'.calls = h.calls ++ [call] ∧
      (LeavesAlone plan.captureFile call.events →
        ∃ g : File, g.bytes = call.allWritten ∧
          h'.files.find plan.captureFile false = .ok (l, .file g)) := by
  obtain ⟨routes, program, h₁, hroutes, rfl⟩ := Launch.runStage_eq_ok_quiet rfl rfl hq hok
  rw [show Launch.sharedErrors (.file plan.captureFile) .merge = .merge from rfl,
    Launch.exec_openRoutes_file] at hroutes
  cases hopen : (h.handOver (compilerCommand s.tools plan)).files.openTruncated plan.captureFile with
  | error r => rw [hopen] at hroutes; cases hroutes
  | ok opened =>
    obtain ⟨files, handle⟩ := opened
    rw [hopen] at hroutes
    cases hroutes
    let tail := (compilerCommand s.tools plan).tail
    let h₁ : Host := { h.handOver (compilerCommand s.tools plan) with files }
    refine ⟨Launch.callOn h₁ (fun _ => .file handle) program tail, rfl, fun hleft => ?_⟩
    have hwrites := FileSystem.writesAtEnd_of_openTruncated hfind hopen
    obtain ⟨⟨g, hbytes, hfound⟩, -⟩ :=
      Behaviour.run_capture (h₁.programs program tail) (s := ⟨h₁.files, h₁.stdout, h₁.stderr⟩)
        hwrites hleft
    exact ⟨g, hbytes, hfound⟩

/-- The instrumentor's run leaves what the capture file holds. -/
theorem holds_of_runInstrumentor_eq_ok (hq : h.log.Quiet)
    (hok : exec (runInstrumentor s plan) h = (.ok outcome, h')) :
    ∃ call, h'.calls = h.calls ++ [call] ∧
      ∀ {path : String} {bytes : Bytes}, h.files.Holds path bytes → LeavesAlone path call.events →
        h'.files.Holds path bytes := by
  obtain ⟨routes, program, h₁, hroutes, rfl⟩ := Launch.runStage_eq_ok_quiet rfl rfl hq hok
  rw [show Launch.sharedErrors .inherit .inherit = .inherit from rfl,
    Launch.exec_openRoutes_inherit] at hroutes
  cases hroutes
  let h₁ := h.handOver (instrumentorCommand s.tools plan)
  let tail := (instrumentorCommand s.tools plan).tail
  refine ⟨Launch.callOn h₁ Launch.ownRoutes program tail, rfl, fun {path bytes} hholds hleft => ?_⟩
  exact Behaviour.run_holds (h₁.programs program tail) (s := ⟨h₁.files, h₁.stdout, h₁.stderr⟩)
    hholds hleft

/-- Moving the classes aside leaves what the capture file holds. -/
theorem holds_of_moveAside_eq_ok {fs fs' : FileSystem} {dir : String} {l : Location} {f : File}
    (hfs : fs.WellFormed) (hbeside : plan.Beside dir) (hdir : Path.isAbsolute dir = true)
    (hfind : fs.find plan.captureFile false = .ok (l, .file f))
    (hok : exec (moveAside plan) fs = (.ok (), fs')) : fs'.Holds plan.captureFile f.bytes := by
  obtain ⟨⟨c, hc, hcapture⟩, ⟨n, hn, hstaging⟩⟩ := hbeside
  obtain ⟨⟨⟩, freed, hremove, hmove⟩ := exec_bind_eq_ok.mp hok
  rw [FileOp.exec_call] at hremove
  cases hfreed : fs.removeDir plan.stagingDir with
  | error r => rw [hfreed] at hremove; cases hremove
  | ok freed' =>
    rw [hfreed] at hremove
    cases hremove
    rw [hcapture] at hfind ⊢
    rw [hstaging] at hfreed hmove
    intro m node hafter
    have hsame := FileSystem.entry_eq_of_move hfs hc hn hdir hfind (by simp [Node.entry]) hfreed
      hmove hafter
    exact ⟨f, Node.entry_eq_file.mp hsame, rfl⟩

end

/-! ### The capture file along a run -/

/-- What has become of the capture file in a state, if the tools have left it alone,
and the tools that have been run. -/
def Captured (before : Host) (s : State) (h : Host) : Prop :=
  match s.progress with
  | .initial => h.calls = before.calls
  | .classified plan => h.calls = before.calls ∧
      ∃ l, h.files.find plan.captureFile false = .ok (l, .file { bytes := [] })
  | .compiled plan _ => ∃ compiler, h.calls = before.calls ++ [compiler] ∧
      (LeavesAlone plan.captureFile compiler.events → ∃ l, ∃ f : File,
        f.bytes = compiler.allWritten ∧ h.files.find plan.captureFile false = .ok (l, .file f))
  | .staged plan _ => ∃ compiler, h.calls = before.calls ++ [compiler] ∧
      (LeavesAlone plan.captureFile compiler.events →
        h.files.Holds plan.captureFile compiler.allWritten)
  | .instrumented plan _ => ∃ compiler instrumentor,
      h.calls = before.calls ++ [compiler, instrumentor] ∧
      (LeavesAlone plan.captureFile compiler.events →
        LeavesAlone plan.captureFile instrumentor.events →
        h.files.Holds plan.captureFile compiler.allWritten)
  | .replayed _ _ => ∃ compiler instrumentor, h.calls = before.calls ++ [compiler, instrumentor]
  | .done _ _ => ∃ compiler instrumentor, h.calls = before.calls ++ [compiler, instrumentor]

variable {args : List String} {tools : Option Toolchain} {before : Host}

/-- The plan of a state reached has its temporary places in the directory of the host. -/
theorem Reached.beside {s : State} {h : Host} (hs : Reached args tools before s h) {plan : Plan}
    (hplan : s.plan? = some plan) : plan.Beside before.scratchDir := by
  obtain ⟨h₀, hstart, -, -, hplanned⟩ := hs.planned
  obtain ⟨h₁, hplanned⟩ := hplanned plan hplan
  have hsame : h₀.scratchDir = before.scratchDir :=
    (background_sameScratch.works_start args tools).state hstart
  rw [← hsame]
  exact hplanned.places.1

theorem Advances.captured (hq : before.log.Quiet) (hfiles : before.files.WellFormed)
    (hdir : Path.isAbsolute before.scratchDir = true) {s s' : State} {h h' : Host}
    (hs : Reached args tools before s h) (hc : Captured before s h) (hstep : Advances s h s' h') :
    Captured before s' h' := by
  have hlog : h.log.Quiet := (hs.heard hq).1.symm ▸ hq
  rw [Captured] at hc
  cases hstep with
  | @classified plan h' hprogress hrun hplanned =>
    rw [hprogress] at hc
    have honly := (background_onlyFiles.works_classify s).state hrun
    exact ⟨(honly.calls hlog).trans hc, hplanned.places.2.1⟩
  | @compiled plan outcome h₁ hprogress hrun _ =>
    rw [hprogress] at hc
    obtain ⟨hcalls, l, hfind⟩ := hc
    -- The file was empty, so all that it holds now comes from the compiler.
    obtain ⟨compiler, hcall, hfills⟩ := capture_of_runCompiler_eq_ok hlog hfind hrun
    exact ⟨compiler, by rw [Host.printLine, Host.writeStdout, hcall, hcalls],
      fun hleft => ⟨l, hfills hleft⟩⟩
  | @staged plan last files hprogress hmove =>
    rw [hprogress] at hc
    obtain ⟨compiler, hcalls, hfills⟩ := hc
    have hbeside := hs.beside (State.plan?_eq hprogress)
    rw [Log.Quiet.note (h := { h with files }) hlog (.inl rfl)]
    refine ⟨compiler, hcalls, fun hleft => ?_⟩
    -- From here on the file may be out of reach, if it was moved along.
    obtain ⟨l, f, hbytes, hfind⟩ := hfills hleft
    rw [← hbytes]
    exact holds_of_moveAside_eq_ok (hs.wellFormed hfiles) hbeside hdir hfind hmove
  | @instrumented plan last outcome h₁ hprogress hrun _ =>
    rw [hprogress] at hc
    obtain ⟨compiler, hcalls, hholds⟩ := hc
    obtain ⟨instrumentor, hcall, hkeeps⟩ := holds_of_runInstrumentor_eq_ok hlog hrun
    refine ⟨compiler, instrumentor, ?_, fun hleft hleft' => hkeeps (hholds hleft) hleft'⟩
    rw [Host.printLine, Host.writeStdout, hcall, hcalls, List.append_assoc]
    rfl
  | replayed hprogress hrun =>
    rw [hprogress] at hc
    obtain ⟨compiler, instrumentor, hcalls, -⟩ := hc
    have hrecord := (background_sameRecord.works_replay (fun _ _ => ⟨rfl, rfl⟩) _).state hrun
    exact ⟨compiler, instrumentor, hrecord.2.trans hcalls⟩
  | done hprogress hrun =>
    rw [hprogress] at hc
    obtain ⟨compiler, instrumentor, hcalls⟩ := hc
    have hrecord := (background_sameRecord.works_cleanUp s).state hrun
    exact ⟨compiler, instrumentor, hrecord.2.trans hcalls⟩

/-- In every state that a run with a quiet log reaches, the capture file is as it
should be. -/
theorem Reached.captured (hq : before.log.Quiet) (hfiles : before.files.WellFormed)
    (hdir : Path.isAbsolute before.scratchDir = true) {s : State} {h : Host}
    (hs : Reached args tools before s h) : Captured before s h := by
  induction hs with
  | @started s h hstart =>
    rw [start_eq_ok hstart]
    exact ((background_onlyFiles.works_start args tools).state hstart).calls hq
  | @stepped s h₁ s' h₂ hreached hstep ih =>
    have hlog := (hstep.heard hreached ((hreached.heard hq).1.symm ▸ hq) (hreached.heard hq).2).1
    rw [noteReached, Log.Quiet.note ((hlog.trans (hreached.heard hq).1).symm ▸ hq) (.inr rfl)]
    exact hstep.captured hq hfiles hdir hreached ih

/-- When the compiler has ended, the capture file is there, if the compiler has left it
alone. -/
theorem Reached.capture_of_compiled (hq : before.log.Quiet) (hfiles : before.files.WellFormed)
    (hdir : Path.isAbsolute before.scratchDir = true) {s : State} {h : Host} {plan : Plan}
    {last : Launch.Outcome} (hs : Reached args tools before s h)
    (hcompiled : s.progress = .compiled plan last)
    (hleft : ∀ call ∈ h.calls.drop before.calls.length, LeavesAlone plan.captureFile call.events) :
    ∃ l f, h.files.find plan.captureFile false = .ok (l, .file f) := by
  have hcaptured := hs.captured hq hfiles hdir
  rw [Captured, hcompiled] at hcaptured
  obtain ⟨compiler, hcalls, hfills⟩ := hcaptured
  rw [hcalls, List.drop_left] at hleft
  obtain ⟨l, f, -, hfind⟩ := hfills (hleft compiler (List.mem_singleton_self compiler))
  exact ⟨l, f, hfind⟩

/-! ### The replay -/

/-- A replay that comes to its end has written both files, each with an end after
its last line. -/
theorem replayed_eq_ok {fs : FileSystem} {plan : Plan} {bytes : Bytes}
    (h : Diagnostics.replayed fs (replaySources plan) = (.ok (), bytes)) :
    ∃ first second, fs.read Diagnostics.instrumentorFile = .ok first ∧
      fs.read plan.captureFile = .ok second ∧
      bytes = Diagnostics.endLine first ++ Diagnostics.endLine second := by
  rw [replaySources, Diagnostics.replayed] at h
  cases hfirst : fs.read Diagnostics.instrumentorFile with
  | error r => rw [hfirst] at h; cases h
  | ok first =>
    rw [hfirst] at h
    dsimp only at h
    rw [Diagnostics.replayed] at h
    cases hsecond : fs.read plan.captureFile with
    | error r => rw [hsecond] at h; cases h
    | ok second =>
      rw [hsecond] at h
      obtain ⟨-, rfl⟩ := Prod.mk.inj h
      refine ⟨first, second, rfl, rfl, ?_⟩
      show Diagnostics.endLine first ++ (Diagnostics.endLine second ++ []) = _
      rw [List.append_nil]

/-- What is read from a path that can lead to nothing else than a file with these
bytes. -/
theorem read_of_holds {fs : FileSystem} {path : String} {bytes read : Bytes}
    (hholds : fs.Holds path bytes) (hread : fs.read path = .ok read) : read = bytes := by
  rw [FileSystem.read] at hread
  cases hfind : fs.find path with
  | error r => rw [hfind] at hread; cases hread
  | ok found =>
    obtain ⟨l, node⟩ := found
    obtain ⟨l', node', hunfollowed⟩ := FileSystem.find_unfollowed hfind
    obtain ⟨f, rfl, hbytes⟩ := hholds l' node' hunfollowed
    rw [FileSystem.find_follow hunfollowed (by simp)] at hread
    exact (Except.ok.inj hread).symm.trans hbytes

/-! ### The streams of a run -/

/-- The two tools of a run that has come to its end, and the state in which the
second had just ended. -/
theorem Reached.tools_of_done (hq : before.log.Quiet) (hfiles : before.files.WellFormed)
    (hdir : Path.isAbsolute before.scratchDir = true) {s : State} {after : Host}
    (hs : Reached args tools before s after) (hdone : s.phase = .done) :
    ∃ plan compiler instrumentor s₁ h₁ replayed, s.plan? = some plan ∧
      after.calls = before.calls ++ [compiler, instrumentor] ∧
      HeardBoth before plan replayed after ∧
      (Reached args tools before s₁ h₁ ∧ s₁.phase = .instrumented ∧ h₁.calls = after.calls) ∧
      Diagnostics.replayed h₁.files (replaySources plan) = (.ok (), replayed) ∧
      (LeavesAlone plan.captureFile compiler.events →
        LeavesAlone plan.captureFile instrumentor.events →
        h₁.files.Holds plan.captureFile compiler.allWritten) := by
  obtain ⟨plan, last, hprogress⟩ := State.progress_of_done hdone
  have hheard := (hs.heard hq).2
  rw [Heard, hprogress] at hheard
  obtain ⟨replayed, hboth, s₁, h₁, hs₁, hphase, hplan, hcalls, hkept⟩ := hheard
  -- What the capture file held is told of the state before the replay, and nothing has
  -- been run since.
  obtain ⟨plan₁, last₁, hprogress₁⟩ := State.progress_of_instrumented hphase
  have hcaptured := hs₁.captured hq hfiles hdir
  rw [Captured, hprogress₁] at hcaptured
  obtain rfl : plan₁ = plan := Option.some.inj ((State.plan?_eq hprogress₁).symm.trans hplan)
  obtain ⟨compiler, instrumentor, hcalls₁, hholds⟩ := hcaptured
  exact ⟨plan₁, compiler, instrumentor, s₁, h₁, replayed, State.plan?_eq hprogress,
    hcalls.symm.trans hcalls₁, hboth, ⟨hs₁, hphase, hcalls⟩, hkept, hholds⟩

/-- **The streams of a run.**  If the tools touch the capture file only through their
streams, a run that comes to its end has written two lines with what the instrumentor
wrote between them, and on the standard error stream what the instrumentor wrote,
the file that it left there for this, and all that the compiler wrote.  Temporary
files have absolute paths, as the system gives them. -/
theorem streams_of_done {args : List String} {before after : Host} {s : State}
    (hq : before.log.Quiet) (hfiles : before.files.WellFormed)
    (hdir : Path.isAbsolute before.scratchDir = true)
    (hrun : exec (run args) before = (.ok s, after))
    (huntouched : ∀ plan, s.plan? = some plan → ∀ call ∈ after.calls.drop before.calls.length,
      LeavesAlone plan.captureFile call.events) :
    ∃ plan compiler instrumentor s₁ h₁ left, s.plan? = some plan ∧
      after.calls = before.calls ++ [compiler, instrumentor] ∧
      (Reached args none before s₁ h₁ ∧ s₁.phase = .instrumented ∧ h₁.calls = after.calls) ∧
      h₁.files.read Diagnostics.instrumentorFile = .ok left ∧
      after.stdout = before.stdout
        ++ (compilerLine plan ++ instrumentor.written .output ++ instrumentorLine) ∧
      after.stderr = before.stderr ++ (instrumentor.written .errors
        ++ (Diagnostics.endLine left ++ Diagnostics.endLine compiler.allWritten)) ∧
      exec (Command.compile args) before = (.ok 0, after) := by
  have hends := ends_run args none before
  rw [hrun] at hends
  obtain ⟨hs, hdone⟩ := hends
  obtain ⟨plan, compiler, instrumentor, s₁, h₁, replayed, hplan, hcalls, hboth, hs₁, hreplay, hholds⟩
    := hs.tools_of_done hq hfiles hdir hdone
  have hleft : ∀ call ∈ [compiler, instrumentor], LeavesAlone plan.captureFile call.events := by
    have hdrop := huntouched plan hplan
    rw [hcalls, List.drop_left] at hdrop
    exact hdrop
  obtain ⟨left, captured, hread, hcapture, rfl⟩ := replayed_eq_ok hreplay
  -- The replay has read the capture file, so its path led to it.
  have hkept : captured = compiler.allWritten :=
    read_of_holds (hholds (hleft _ (by simp)) (hleft _ (by simp))) hcapture
  obtain ⟨call, hlast, hstdout, hstderr⟩ := hboth
  obtain rfl : instrumentor = call := by
    rw [hcalls, List.getLast?_append] at hlast
    exact Option.some.inj hlast
  refine ⟨plan, compiler, instrumentor, s₁, h₁, left, hplan, hcalls, hs₁, hread, hstdout, ?_, ?_⟩
  · rw [← hkept]
    exact hstderr
  · have hlog : after.log = before.log := (hs.heard hq).1
    have hcompile := Command.exec_compile args hq (by rw [hrun, hlog]; exact hq)
    rw [hrun] at hcompile
    exact hcompile

/-- A host whose tools write to both streams and leave files.  Not all that they
write is text. -/
def chattyHost : Host where
  files := ⟨.dir [("bin", .dir [
      ("javac", .file { bytes := [], executable := true, program := some "javac" }),
      ("toplc", .file { bytes := [], executable := true, program := some "toplc" })]),
    ("tmp", .dir []), ("work", .dir [])], some ["work"], []⟩
  programs name args := .ofScript args <|
    if name = "javac" then
      [.store "{d}/A.class" [0xCA, 0xFE], .emit .output [0xC3], .emit .errors [0x28, 0x0A],
        .emit .output [0x3F]]
    else
      [.emit .errors [0x21], .store "javac.err.topl" [0x6A, 0x0A], .emit .output [0x2E]]
  scratchDir := "/tmp"

theorem chattyHost_wellFormed : chattyHost.files.WellFormed := by
  have hname {name : String} (h : name ∈ ["bin", "tmp", "work", "javac", "toplc"]) :
      IsName name := by
    simp only [List.mem_cons, List.not_mem_nil, or_false] at h
    rcases h with rfl | rfl | rfl | rfl | rfl <;> exact ⟨by decide, by decide, by decide, by decide⟩
  refine .dir (by decide) (by simp [hname]) fun e he => ?_
  simp only [List.mem_cons, List.not_mem_nil, or_false] at he
  rcases he with rfl | rfl | rfl
  · exact .dir (by decide) (by simp [hname]) (by simp [Node.WellFormed.file])
  · exact .emptyDir
  · exact .emptyDir

/-- The run comes to its end, and neither tool changes the capture file. -/
theorem exec_run_chatty :
    ∃ s after, exec (run ["A.java"]) chattyHost = (.ok s, after) ∧
      after.stderr = [0x21, 0x6A, 0x0A, 0xC3, 0x28, 0x0A, 0x3F, 0x0A] ∧
      ∀ plan, s.plan? = some plan → ∀ call ∈ after.calls.drop chattyHost.calls.length,
        LeavesAlone plan.captureFile call.events := by
  have hends : (exec (run ["A.java"]) chattyHost).1.isOk = true ∧
      (exec (run ["A.java"]) chattyHost).2.stderr
        = [0x21, 0x6A, 0x0A, 0xC3, 0x28, 0x0A, 0x3F, 0x0A] ∧
      ((exec (run ["A.java"]) chattyHost).1.toOption.bind State.plan?).map Plan.captureFile
        = some "/tmp/topljavac00000002stderr" ∧
      (exec (run ["A.java"]) chattyHost).2.calls.all
        (·.events.all (Event.keepsFile "/tmp/topljavac00000002stderr")) = true := by
    decide +kernel
  generalize exec (run ["A.java"]) chattyHost = outcome at hends ⊢
  obtain ⟨failure | s, after⟩ := outcome
  · cases hends.1
  · obtain ⟨-, hstderr, hplan, hkeeps⟩ := hends
    refine ⟨s, after, rfl, hstderr, fun plan hs call hcall => ?_⟩
    have hcapture : plan.captureFile = "/tmp/topljavac00000002stderr" := by
      simpa [Except.toOption, hs] using hplan
    rw [hcapture]
    exact .of_keepsFile (List.all_eq_true.mp hkeeps call hcall)

theorem streams_chattyHost :
    chattyHost.log.Quiet ∧ chattyHost.files.WellFormed ∧
      Path.isAbsolute chattyHost.scratchDir = true ∧
      ∃ s after plan compiler instrumentor left,
        exec (run ["A.java"]) chattyHost = (.ok s, after) ∧ s.plan? = some plan ∧
        (∀ call ∈ after.calls.drop chattyHost.calls.length,
          LeavesAlone plan.captureFile call.events) ∧
        after.calls = [compiler, instrumentor] ∧
        after.stdout = compilerLine plan ++ instrumentor.written .output ++ instrumentorLine ∧
        instrumentor.written .errors ++ (Diagnostics.endLine left
          ++ Diagnostics.endLine compiler.allWritten)
            = [0x21, 0x6A, 0x0A, 0xC3, 0x28, 0x0A, 0x3F, 0x0A] := by
  have hq : chattyHost.log.Quiet := Log.unset_default.quiet
  have hdir : Path.isAbsolute chattyHost.scratchDir = true := by decide
  obtain ⟨s, after, hrun, hbytes, huntouched⟩ := exec_run_chatty
  obtain ⟨plan, compiler, instrumentor, s₁, h₁, left, hplan, hcalls, -, -, hstdout, hstderr, -⟩ :=
    streams_of_done hq chattyHost_wellFormed hdir hrun huntouched
  exact ⟨hq, chattyHost_wellFormed, hdir, s, after, plan, compiler, instrumentor, left, hrun, hplan,
    huntouched plan hplan, hcalls, hstdout, hstderr.symm.trans hbytes⟩

end Pipeline

end MonitoredCompile

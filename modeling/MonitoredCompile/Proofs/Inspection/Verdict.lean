/-
MonitoredCompile/Proofs/Inspection/Verdict.lean

What the look at the environment is worth.  Its verdict is that of a run: the exit status
is zero if and only if a run finds its tools configured and can start both
(`check_agrees`).  The two come to it on different ways.  The look asks whether the path
of the tools is a directory, a run whether it exists; with a slash at its end that is the
same question (`isDir_withSlash`).  The look keeps the streams of the tools in memory and
reads them, a run leads them elsewhere; as long as they hold text, nothing comes of it.

Neither judges an exit status, so the worlds are compared up to these.
-/
import MonitoredCompile.Proofs.FileSystem.Walks
import MonitoredCompile.Proofs.Inspection.Start
import MonitoredCompile.Proofs.Run.Configuration
import MonitoredCompile.Proofs.Text.Lines
import MonitoredCompile.Proofs.Text.Utf8

namespace MonitoredCompile

open Attempt (exec exec_bind exec_get exec_pure exec_throw exec_tryCatch)
open Launch (Starts launch launched)

/-! ### A slash at the end -/

theorem Path.endsInSlash_withSlash (path : String) : endsInSlash (withSlash path) = true := by
  rw [withSlash]
  split
  · assumption
  · simp [endsInSlash]

/-- With a slash at its end, a path leads to a directory or to nothing. -/
theorem FileSystem.isDir_eq_pathExists {fs : FileSystem} {path : String}
    (hslash : Path.endsInSlash path = true) : fs.isDir path = fs.pathExists path := by
  rw [isDir, pathExists]
  cases hfind : fs.find path with
  | error r => rfl
  | ok found =>
    obtain ⟨l, node⟩ := found
    obtain ⟨⟨-, here, -, hleads⟩, hget⟩ := find_eq_ok_iff.mp hfind
    rw [steps, hslash, if_pos rfl, Leads.concat_dot_iff] at hleads
    obtain ⟨entries, hdir⟩ := entryAt_eq_dir.mp hleads.2
    obtain rfl : node = .dir entries := Option.some.inj (hget.symm.trans hdir)
    rfl

namespace Inspection

/-! ### Printing -/

theorem exec_print (text : String) (h : Host) : exec (print text) h = (.ok (), h.printLine text) :=
  rfl

theorem sameWorld_printLine (h : Host) (text : String) : SameWorld h (h.printLine text) :=
  ⟨rfl, rfl, fun _ _ => .refl _, rfl⟩

/-- This part of the look only prints: it succeeds in the same world. -/
def Prints {α : Type} (part : Run α) (a : α) : Prop :=
  ∀ h, ∃ h', exec part h = (.ok a, h') ∧ SameWorld h h'

namespace Prints

variable {α β : Type} {a : α} {b : β}

theorem pure (a : α) : Prints (Pure.pure a : Run α) a := fun h => ⟨h, rfl, frame_sameWorld.refl h⟩

theorem print (text : String) : Prints (print text) () :=
  fun h => ⟨_, exec_print text h, sameWorld_printLine h text⟩

theorem bind {m : Run α} {f : α → Run β} (hm : Prints m a) (hf : Prints (f a) b) :
    Prints (m >>= f) b := by
  intro h
  obtain ⟨h₁, hrun, hw⟩ := hm h
  obtain ⟨h₂, hrun', hw'⟩ := hf h₁
  exact ⟨h₂, by rw [exec_bind, hrun]; exact hrun', frame_sameWorld.trans hw hw'⟩

theorem ite {c : Prop} [Decidable c] {m m' : Run α} (hm : Prints m a) (hm' : Prints m' a) :
    Prints (if c then m else m') a := by
  split
  · exact hm
  · exact hm'

/-- What is only printed after a world has been reached gives its value there. -/
theorem verdict {part : Run α} (hprints : Prints part a) {P : α → Prop} (hP : P a) {w h : Host}
    (hw : SameWorld w h) : ∃ b h', exec part h = (.ok b, h') ∧ P b ∧ SameWorld w h' := by
  obtain ⟨h', hrun, hw'⟩ := hprints h
  exact ⟨a, h', hrun, hP, frame_sameWorld.trans hw hw'⟩

end Prints

theorem prints_showRelease : Prints showRelease () := (Prints.print _).bind (.print _)

theorem prints_showLog : Prints showLog () := by
  intro h
  rw [showLog, exec_bind, exec_get]
  refine Prints.bind (.print _) ?_ h
  split <;> exact .print _

/-- A text has a first line. -/
theorem prints_lineOf (text : String) : ∃ line, Prints (lineOf text 0) line := by
  rw [lineOf]
  split
  · exact ⟨text, .pure text⟩
  · cases hpieces : Text.cut '\n' (Text.strip text.toList) with
    | nil => exact absurd hpieces (Text.cut_ne_nil _ _)
    | cons first rest =>
      have hfirst : elementAt? (first :: rest) 0 = some first := by simp [elementAt?]
      rw [hfirst]
      exact ⟨String.ofList (Text.strip first), .pure _⟩

/-! ### One tool -/

/-- What the program of a command writes to its streams, if it can be started, is text. -/
def SpeaksText (h : Host) (command : List String) : Prop :=
  ∀ call ∈ (launched h command).calls.drop h.calls.length, ∀ stream,
    ∃ text, call.written stream = Utf8.encode text

theorem exec_decodeOutput {bytes : Bytes} {text : String} (h : bytes = Utf8.encode text)
    (world : Host) : exec (decodeOutput bytes) world = (.ok text, world) := by
  rw [decodeOutput, Utf8.decode_eq_ok_iff.mpr h]
  rfl

/-- A tool that is found is run, and both of its streams are read, its standard output
first. -/
theorem exec_checkTool_found {h h' : Host} (hw : SameWorld h h') {tool argument program : String}
    {args : List String} (hfound : (exec (Launch.resolve [tool, argument]) h).1 = .ok (program, args)) :
    ∃ h'', SameWorld (launched h [tool, argument]) h'' ∧
      exec (checkTool tool argument) h' = exec (do
        let text ← decodeOutput ((Launch.callOn h Launch.ownRoutes program args).written .output)
        pure (true, text ++
          (← decodeOutput ((Launch.callOn h Launch.ownRoutes program args).written .errors)))) h'' := by
  have hlaunch := Launch.exec_launch h [tool, argument]
  have hresolve := Launch.resolve_sameWorld hw [tool, argument]
  rw [hfound] at hlaunch hresolve
  obtain ⟨hstreams, hafter⟩ := Launch.executeKeptOn_sameWorld hw program args
  have hkept : exec (Launch.executeKept program args) h'
      = ((.ok (Launch.executeKeptOn h' program args).1 : Except Failure (Bytes × Bytes)),
        (Launch.executeKeptOn h' program args).2) := rfl
  refine ⟨(Launch.executeKeptOn h' program args).2, by rw [launched, hlaunch]; exact hafter, ?_⟩
  rw [checkTool, exec_bind, exec_tryCatch, ← bind_pure_comp, exec_bind, hresolve]
  dsimp only
  rw [exec_pure]
  dsimp only
  rw [exec_bind, hkept, hstreams]

/-- A tool that is found is called once. -/
theorem calls_launched_found {h : Host} {command : List String} {program : String}
    {args : List String} (hfound : (exec (Launch.resolve command) h).1 = .ok (program, args)) :
    (launched h command).calls.drop h.calls.length
      = [Launch.callOn h Launch.ownRoutes program args] := by
  rw [launched, Launch.exec_launch, hfound, Launch.executeOn_calls, List.drop_left]

/-- A tool that the system refuses is not run, and the look goes on. -/
theorem exec_checkTool_refused {h h' : Host} (hw : SameWorld h h') {tool argument : String}
    {e : Errno} (hrefused : (exec (Launch.resolve [tool, argument]) h).1
      = .error (.file (.refused e tool))) :
    exec (checkTool tool argument) h' = (.ok (false, refusalText tool e), h') ∧
      launched h [tool, argument] = h := by
  have hresolve := Launch.resolve_sameWorld hw [tool, argument]
  rw [hrefused] at hresolve
  constructor
  · rw [checkTool, exec_bind, exec_tryCatch, ← bind_pure_comp, exec_bind, hresolve]
    rfl
  · rw [launched, Launch.exec_launch, hrefused]

/-- The look at a tool says whether it can be started, and leaves the world that starting
it leaves. -/
theorem exec_checkTool {h h' : Host} (hw : SameWorld h h') (henv : h.SoundEnvironment)
    {tool argument : String} (hcommand : ∀ w ∈ [tool, argument], Path.hasNul w = false)
    (htext : SpeaksText h [tool, argument]) :
    ∃ ok text h'', exec (checkTool tool argument) h' = (.ok (ok, text), h'') ∧
      (ok = true ↔ Starts h [tool, argument]) ∧ SameWorld (launched h [tool, argument]) h'' := by
  have hlaunch := Launch.exec_launch h [tool, argument]
  rcases Launch.resolve_result henv hcommand with ⟨program, hfound⟩ | ⟨e, hrefused⟩
  · have hspeaks := htext (Launch.callOn h Launch.ownRoutes program [argument])
      (by rw [calls_launched_found hfound]; exact List.mem_singleton_self _)
    obtain ⟨output, houtput⟩ := hspeaks .output
    obtain ⟨errors, herrors⟩ := hspeaks .errors
    obtain ⟨h'', hw'', hrun⟩ := exec_checkTool_found hw hfound
    refine ⟨true, output ++ errors, h'', ?_, ?_, hw''⟩
    · rw [hrun, exec_bind, exec_decodeOutput houtput]
      dsimp only
      rw [exec_bind, exec_decodeOutput herrors]
      rfl
    · refine iff_of_true rfl fun fault _ => ?_
      rw [hlaunch, hfound]
      exact nofun
  · obtain ⟨hrun, hsame⟩ := exec_checkTool_refused hw hrefused
    refine ⟨false, refusalText tool e, h', hrun, ?_, by rw [hsame]; exact hw⟩
    refine iff_of_false Bool.false_ne_true fun hstarts => hstarts (.refused e tool) rfl ?_
    rw [hlaunch, hrefused]

/-! ### The whole look -/

/-- The command with which the look starts the compiler. -/
def compilerCommand (h : Host) : List String :=
  [toolPath h Toolchain.compilerVariable Toolchain.defaultCompiler, "-version"]

/-- The command with which the look starts the instrumentor. -/
def instrumentorCommand (h : Host) : List String :=
  [toolPath h Toolchain.instrumentorVariable Toolchain.defaultInstrumentor, "-h"]

/-- The world after the look has started both tools. -/
def toolsLaunched (h : Host) : Host := launched (launched h (compilerCommand h)) (instrumentorCommand h)

theorem launched_environment (h : Host) (command : List String) :
    (launched h command).environment = h.environment := by
  rw [launched, Launch.exec_launch]
  cases (exec (Launch.resolve command) h).1 <;> rfl

theorem hasNul_toolPath {h : Host} (henv : h.SoundEnvironment) {nameVariable usual : String}
    (husual : Path.hasNul usual = false) : Path.hasNul (toolPath h nameVariable usual) = false := by
  have hdir : Path.hasNul (toolDir h) = false := by
    rw [toolDir]
    cases hset : h.setting? Toolchain.dirVariable with
    | none => decide
    | some dir =>
      dsimp only
      rw [Path.withSlash]
      split
      · exact henv.setting? hset
      · rw [Path.hasNul_append, henv.setting? hset]
        decide
  rw [toolPath, Path.hasNul_append, hdir]
  cases hset : h.setting? nameVariable with
  | none => simpa using husual
  | some name => simpa using henv.setting? hset

theorem toolPath_sameWorld {h h' : Host} (hw : SameWorld h h') (nameVariable usual : String) :
    toolPath h' nameVariable usual = toolPath h nameVariable usual := by
  rw [toolPath, toolPath, toolDir, toolDir, hw.setting?, hw.setting?]

section Commands

variable {h : Host} (henv : h.SoundEnvironment)
include henv

theorem hasNul_compilerCommand : ∀ w ∈ compilerCommand h, Path.hasNul w = false := by
  have husual : Path.hasNul Toolchain.defaultCompiler = false := by decide
  have hswitch : Path.hasNul "-version" = false := by decide
  simp [compilerCommand, hasNul_toolPath henv husual, hswitch]

theorem hasNul_instrumentorCommand : ∀ w ∈ instrumentorCommand h, Path.hasNul w = false := by
  have husual : Path.hasNul Toolchain.defaultInstrumentor = false := by decide
  have hswitch : Path.hasNul "-h" = false := by decide
  simp [instrumentorCommand, hasNul_toolPath henv husual, hswitch]

theorem soundEnvironment_launched (command : List String) :
    (launched h command).SoundEnvironment := by
  rw [Host.SoundEnvironment, launched_environment]
  exact henv

end Commands

/-- What the look tells about the two tools is only printed. -/
theorem exec_checkTools {h h' : Host} (hw : SameWorld h h') (henv : h.SoundEnvironment)
    (hcompiler : SpeaksText h (compilerCommand h))
    (hinstrumentor : SpeaksText (launched h (compilerCommand h)) (instrumentorCommand h)) :
    ∃ ok h'', exec checkTools h' = (.ok ok, h'') ∧
      (ok = true ↔ Starts h (compilerCommand h) ∧
        Starts (launched h (compilerCommand h)) (instrumentorCommand h)) ∧
      SameWorld (toolsLaunched h) h'' := by
  obtain ⟨compilerOk, compilerText, h₁, hrun₁, hok₁, hw₁⟩ :=
    exec_checkTool hw henv (hasNul_compilerCommand henv) hcompiler
  obtain ⟨instrumentorOk, instrumentorText, h₂, hrun₂, hok₂, hw₂⟩ :=
    exec_checkTool hw₁ (soundEnvironment_launched henv _) (hasNul_instrumentorCommand henv)
      hinstrumentor
  rw [checkTools, exec_bind, exec_get]
  dsimp only
  rw [toolPath_sameWorld hw, toolPath_sameWorld hw, exec_bind, hrun₁]
  dsimp only
  rw [exec_bind, hrun₂]
  dsimp only
  obtain ⟨line, hline⟩ := prints_lineOf compilerText
  have hlast : Prints (if (!compilerOk || !instrumentorOk) = true then do
      print explainDir
      pure (compilerOk && instrumentorOk)
    else pure (compilerOk && instrumentorOk)) (compilerOk && instrumentorOk) :=
    .ite (.bind (.print _) (.pure _)) (.pure _)
  refine Prints.verdict (a := compilerOk && instrumentorOk) ?_ ?_ hw₂
  · refine .ite (hline.bind (.bind (.print _) ?_)) (.bind (.print _) (.bind (.print _) ?_))
    all_goals exact .ite (.bind (.print _) hlast) (.bind (.print _) (.bind (.print _) hlast))
  · rw [Bool.and_eq_true, hok₁, hok₂]
    rfl

/-- The look at the directory finds nothing wrong if and only if a run can configure its
tools. -/
theorem exec_checkDir {h h' : Host} (hw : SameWorld h h') :
    ∃ h'', exec checkDir h' = (.ok (decide (Toolchain.Configured h)), h'') ∧ SameWorld h h'' := by
  have hdir : toolDir h' = toolDir h := by rw [toolDir, toolDir, hw.setting?]
  have hthere : (toolDir h ≠ "" && !h.files.isDir (toolDir h)) = !decide (Toolchain.Configured h) := by
    by_cases hempty : toolDir h = ""
    · have hconf : Toolchain.Configured h := fun hne => absurd hempty hne
      simp [hempty, hconf]
    · have hslash : Path.endsInSlash (toolDir h) = true := by
        rw [toolDir] at hempty ⊢
        split
        · next hnone =>
          rw [hnone] at hempty
          exact absurd rfl hempty
        · exact Path.endsInSlash_withSlash _
      have hconf : Toolchain.Configured h ↔ h.files.pathExists (toolDir h) = true :=
        ⟨fun hconf => hconf hempty, fun hthere _ => hthere⟩
      rw [FileSystem.isDir_eq_pathExists hslash]
      simp [hempty, hconf]
  rw [checkDir, exec_bind, exec_get]
  dsimp only
  rw [hdir, hw.files]
  by_cases hconf : Toolchain.Configured h
  · rw [hthere, decide_eq_true hconf]
    exact ⟨h', rfl, hw⟩
  · rw [hthere, decide_eq_false hconf]
    have hprints (text : String) : Prints (do print text; print explainDir; pure false) false :=
      .bind (.print _) (.bind (.print _) (.pure false))
    obtain ⟨h'', hrun, hw'⟩ := hprints _ h'
    exact ⟨h'', hrun, frame_sameWorld.trans hw hw'⟩

/-- A run finds its tools configured and can start both, one after the other. -/
def Usable (h : Host) : Prop :=
  ∃ tools, (exec Toolchain.ofEnvironment h).1 = .ok tools ∧
    Starts h (tools.compiler ++ ["-version"]) ∧
    Starts (launched h (tools.compiler ++ ["-version"])) (tools.instrumentor ++ ["-h"])

theorem ofEnvironment_eq_ok_iff {h : Host} {tools : Toolchain} :
    (exec Toolchain.ofEnvironment h).1 = .ok tools ↔
      Toolchain.Configured h ∧ tools = Toolchain.named h := by
  rw [Toolchain.ofEnvironment_result]
  by_cases hconf : Toolchain.Configured h
  · rw [if_pos hconf, Except.ok.injEq, eq_comm]
    exact ⟨fun heq => ⟨hconf, heq⟩, fun heq => heq.2⟩
  · rw [if_neg hconf]
    exact ⟨nofun, fun heq => absurd heq.1 hconf⟩

/-- Both derive the same paths. -/
theorem usable_iff {h : Host} :
    Usable h ↔ Toolchain.Configured h ∧ Starts h (compilerCommand h) ∧
      Starts (launched h (compilerCommand h)) (instrumentorCommand h) := by
  constructor
  · rintro ⟨tools, htools, hstarts⟩
    obtain ⟨hconf, rfl⟩ := ofEnvironment_eq_ok_iff.mp htools
    exact ⟨hconf, hstarts⟩
  · rintro ⟨hconf, hstarts⟩
    exact ⟨_, ofEnvironment_eq_ok_iff.mpr ⟨hconf, rfl⟩, hstarts⟩

/-- The look comes to the tools if it finds nothing wrong with their directory. -/
theorem exec_check_eq {h h' : Host} (hw : SameWorld h h') :
    ∃ h'', SameWorld h h'' ∧
      exec check h' = if Toolchain.Configured h then
        exec (do if ← checkTools then pure 0 else pure 1) h'' else (.ok 1, h'') := by
  obtain ⟨h₁, hrun₁, hw₁⟩ := prints_showRelease h'
  obtain ⟨h₂, hrun₂, hw₂⟩ := prints_showLog h₁
  obtain ⟨h₃, hrun₃, hw₃⟩ := exec_checkDir
    (frame_sameWorld.trans hw (frame_sameWorld.trans hw₁ hw₂))
  refine ⟨h₃, hw₃, ?_⟩
  rw [check, exec_bind, hrun₁]
  dsimp only
  rw [exec_bind, hrun₂]
  dsimp only
  rw [exec_bind, hrun₃]
  by_cases hconf : Toolchain.Configured h
  · simp only [hconf, decide_true, if_true]
  · simp only [hconf, decide_false, if_false, Bool.false_eq_true, exec_pure]

/-- The look always comes to an end, and its verdict is what a run would find. -/
theorem exec_check {h h' : Host} (hw : SameWorld h h') (henv : h.SoundEnvironment)
    (hcompiler : SpeaksText h (compilerCommand h))
    (hinstrumentor : SpeaksText (launched h (compilerCommand h)) (instrumentorCommand h)) :
    ∃ ok h'', exec check h' = (.ok (if ok then 0 else 1), h'') ∧ (ok = true ↔ Usable h) ∧
      (Toolchain.Configured h → SameWorld (toolsLaunched h) h'') := by
  obtain ⟨h₁, hw₁, hrun⟩ := exec_check_eq hw
  by_cases hconf : Toolchain.Configured h
  · obtain ⟨ok, h₂, hrun₂, hok, hw₂⟩ := exec_checkTools hw₁ henv hcompiler hinstrumentor
    rw [if_pos hconf, exec_bind, hrun₂] at hrun
    refine ⟨ok, h₂, ?_, ?_, fun _ => hw₂⟩
    · rw [hrun]
      cases ok <;> rfl
    · rw [hok, usable_iff]
      exact ⟨fun hstarts => ⟨hconf, hstarts⟩, fun hstarts => hstarts.2⟩
  · rw [if_neg hconf] at hrun
    refine ⟨false, h₁, hrun, ?_, fun hconf' => absurd hconf' hconf⟩
    exact iff_of_false Bool.false_ne_true fun husable => hconf (usable_iff.mp husable).1

/-- **The verdict of the look agrees with a run.**  In an environment without zero
characters, and with tools that write text when the look starts them, the exit status is
zero if a run finds its tools configured and can start both, and otherwise one.  The
directory is rejected just when the configuration fails; where it does not, the look
starts the configured tools and leaves the world that starting them leaves.  The exit
statuses of the tools play no role.

The values of the environment are Unicode text, and what the look prints can always be
printed.  Where a command is compared to a stage of a run, the log is quiet and there is a
current directory: before it starts anything, a stage logs a line that names the current
directory, and fails if it has been removed. -/
theorem check_agrees {h : Host} (henv : h.SoundEnvironment)
    (hcompiler : SpeaksText h (compilerCommand h))
    (hinstrumentor : SpeaksText (launched h (compilerCommand h)) (instrumentorCommand h)) :
    ((exec check h).1 = .ok 0 ↔ Usable h) ∧
      ((exec check h).1 = .ok 1 ↔ ¬ Usable h) ∧
      ((exec checkDir h).1 = .ok false ↔
        ∃ dir, (exec Toolchain.ofEnvironment h).1 = .error (.missingToolDir dir)) ∧
      (∀ tools, (exec Toolchain.ofEnvironment h).1 = .ok tools →
        compilerCommand h = tools.compiler ++ ["-version"] ∧
        instrumentorCommand h = tools.instrumentor ++ ["-h"] ∧
        SameWorld (launched (launched h (tools.compiler ++ ["-version"]))
          (tools.instrumentor ++ ["-h"])) (exec check h).2) ∧
      (∀ h', SameWorld h h' → (exec check h').1 = (exec check h).1) ∧
      (h.log.Quiet → h.files.cwd ≠ none → ∀ command, Starts h command ↔
        ∀ fault : FileFault, fault.fromSystem = true →
          (exec (Launch.runStage command) h).1 ≠ .error (.file fault)) := by
  obtain ⟨ok, after, hrun, hok, hafter⟩ :=
    exec_check (frame_sameWorld.refl h) henv hcompiler hinstrumentor
  refine ⟨?_, ?_, ?_, ?_, ?_, fun hq hcwd => Launch.starts_iff_runStage hq hcwd⟩
  · rw [hrun, ← hok]
    cases ok <;> simp
  · rw [hrun, ← hok]
    cases ok <;> simp
  · obtain ⟨h₁, hdir, -⟩ := exec_checkDir (frame_sameWorld.refl h)
    rw [hdir, Toolchain.ofEnvironment_result]
    by_cases hconf : Toolchain.Configured h <;> simp [hconf]
  · intro tools htools
    obtain ⟨hconf, rfl⟩ := ofEnvironment_eq_ok_iff.mp htools
    refine ⟨rfl, rfl, ?_⟩
    rw [hrun]
    exact hafter hconf
  · intro h' hw
    obtain ⟨ok', after', hrun', hok', -⟩ := exec_check hw henv hcompiler hinstrumentor
    obtain rfl : ok' = ok := Bool.eq_iff_iff.mpr (hok'.trans hok.symm)
    rw [hrun, hrun']

/-- A host that names the directory of the tools without a slash, and the instrumentor by
another name.  Both write text, and the instrumentor does not like to be asked for help. -/
def settingsHost : Host where
  files := ⟨.dir [("tools", .dir [
      ("javac", .file { bytes := [], executable := true, program := some "javac" }),
      ("monitor", .file { bytes := [], executable := true, program := some "monitor" })])],
    some [], []⟩
  environment := [("TOPLJAVAC_TOOL_PATH", "/tools"), ("TOPLJAVAC_TOPLC_NAME", "monitor")]
  programs name _ :=
    if name = "javac" then .emit .errors (Utf8.encode "javac 17.0.1\n") (.exit 0)
    else .emit .output (Utf8.encode "usage: monitor\n") (.exit 2)
  scratchDir := "/"

theorem check_agrees_settingsHost :
    settingsHost.SoundEnvironment ∧ SpeaksText settingsHost (compilerCommand settingsHost) ∧
      SpeaksText (launched settingsHost (compilerCommand settingsHost))
        (instrumentorCommand settingsHost) ∧
      compilerCommand settingsHost = ["/tools/javac", "-version"] ∧
      (exec check settingsHost).1 = .ok 0 ∧ Usable settingsHost := by
  have henv : settingsHost.SoundEnvironment := by
    rw [Host.SoundEnvironment]
    decide
  have hcompiler : SpeaksText settingsHost (compilerCommand settingsHost) := by
    have hcalls : (launched settingsHost (compilerCommand settingsHost)).calls.drop 0
        = [⟨"javac", ["-version"], [.wrote .errors (Utf8.encode "javac 17.0.1\n")], 0⟩] := rfl
    intro call hcall stream
    cases List.mem_singleton.mp (hcalls ▸ hcall)
    cases stream
    · exact ⟨"", rfl⟩
    · exact ⟨_, List.append_nil _⟩
  have hinstrumentor : SpeaksText (launched settingsHost (compilerCommand settingsHost))
      (instrumentorCommand settingsHost) := by
    have hcalls : (launched (launched settingsHost (compilerCommand settingsHost))
          (instrumentorCommand settingsHost)).calls.drop 1
        = [⟨"monitor", ["-h"], [.wrote .output (Utf8.encode "usage: monitor\n")], 2⟩] := rfl
    intro call hcall stream
    cases List.mem_singleton.mp (hcalls ▸ hcall)
    cases stream
    · exact ⟨_, List.append_nil _⟩
    · exact ⟨"", rfl⟩
  have hcheck : (exec check settingsHost).1 = .ok 0 := rfl
  exact ⟨henv, hcompiler, hinstrumentor, by decide, hcheck,
    (check_agrees henv hcompiler hinstrumentor).1.mp hcheck⟩

end Inspection

end MonitoredCompile

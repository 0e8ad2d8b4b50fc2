/-
MonitoredCompile/Proofs/Inspection/Start.lean

Starting a tool with nothing around it.  `launch` is what a stage does once its streams
are open; it fails if and only if no program can be found for the command
(`exec_launch`), and if the command is a well-formed one, then because the system says so
(`resolve_result`).

Worlds are compared up to the exit statuses of the tools.  `SameWorld` has the same files,
the same environment and tools that do the same, and as long as nobody looks at an exit
status, two such worlds stay together (`executeKeptOn_sameWorld`).
-/
import MonitoredCompile.Proofs.Path.Join
import MonitoredCompile.Proofs.Run.Launch

namespace MonitoredCompile

open Attempt (exec exec_bind exec_get exec_pure exec_throw exec_tryCatch Frame)

/-! ### Tools up to their exit statuses -/

/-- Two tools that do the same, whatever exit statuses they end with. -/
inductive Behaviour.Alike : Behaviour → Behaviour → Prop
  | exit (status status' : Int) : Alike (.exit status) (.exit status')
  | emit {stream bytes next next'} : Alike next next' →
      Alike (.emit stream bytes next) (.emit stream bytes next')
  | act {change sound next next'} : (∀ fs, Alike (next fs) (next' fs)) →
      Alike (.act change sound next) (.act change sound next')

namespace Behaviour.Alike

theorem refl (tool : Behaviour) : tool.Alike tool := by
  induction tool with
  | exit status => exact .exit status status
  | emit stream bytes next ih => exact .emit ih
  | act change sound next ih => exact .act ih

theorem trans {a b c : Behaviour} (hab : a.Alike b) (hbc : b.Alike c) : a.Alike c := by
  induction hab generalizing c with
  | exit status status' =>
    cases hbc with
    | exit _ status'' => exact .exit status status''
  | emit _ ih =>
    cases hbc with
    | emit h => exact .emit (ih h)
  | act _ ih =>
    cases hbc with
    | act h => exact .act fun fs => ih fs (h fs)

/-- Started on the same files, both do the same and leave the same files.  What their
streams held before is not theirs to see. -/
theorem run {tool tool' : Behaviour} (h : tool.Alike tool') (s s' : Surroundings)
    (hfiles : s'.files = s.files) :
    (tool'.run Launch.ownRoutes s').2.files = (tool.run Launch.ownRoutes s).2.files ∧
      tool'.events Launch.ownRoutes s' = tool.events Launch.ownRoutes s := by
  induction h generalizing s s' with
  | exit => exact ⟨hfiles, rfl⟩
  | @emit stream bytes next next' _ ih =>
    have hdeliver (s : Surroundings) : (s.deliver bytes (Launch.ownRoutes stream)).files = s.files := by
      cases stream <;> rfl
    obtain ⟨hrun, hevents⟩ := ih (s.deliver bytes (Launch.ownRoutes stream))
      (s'.deliver bytes (Launch.ownRoutes stream)) (by rw [hdeliver, hdeliver, hfiles])
    exact ⟨hrun, congrArg (Event.wrote stream bytes :: ·) hevents⟩
  | @act change sound next next' _ ih =>
    obtain ⟨hrun, hevents⟩ := ih s.files { s with files := change s.files }
      { s' with files := change s'.files } (congrArg change hfiles)
    rw [Behaviour.run, Behaviour.run, events, events, hfiles] at *
    exact ⟨hrun, congrArg (Event.changed s.files (change s.files) :: ·) hevents⟩

end Behaviour.Alike

/-- A program that was run, without its exit status. -/
def Call.deeds (call : Call) : String × List String × List Event :=
  (call.program, call.args, call.events)

/-- The same world up to what has been printed and logged and how tools exit. -/
structure SameWorld (h h' : Host) : Prop where
  files : h'.files = h.files
  environment : h'.environment = h.environment
  programs : ∀ program args, (h.programs program args).Alike (h'.programs program args)
  calls : h'.calls.map Call.deeds = h.calls.map Call.deeds

theorem frame_sameWorld : Frame SameWorld where
  refl _ := ⟨rfl, rfl, fun _ _ => .refl _, rfl⟩
  trans hab hbc :=
    ⟨hbc.files.trans hab.files, hbc.environment.trans hab.environment,
      fun program args => (hab.programs program args).trans (hbc.programs program args),
      hbc.calls.trans hab.calls⟩

namespace SameWorld

variable {h h' : Host} (hw : SameWorld h h')
include hw

theorem getEnv? (name : String) : h'.getEnv? name = h.getEnv? name := by
  rw [Host.getEnv?, Host.getEnv?, hw.environment]

theorem setting? (name : String) : h'.setting? name = h.setting? name := by
  rw [Host.setting?, Host.setting?, hw.getEnv?]

theorem findProgram (word : String) : Launch.findProgram h' word = Launch.findProgram h word := by
  rw [Launch.findProgram, Launch.findProgram, Launch.candidates, Launch.candidates, hw.files,
    hw.getEnv?]

end SameWorld

/-! ### Zero characters -/

theorem Text.mem_of_mem_cut {separator c : Char} {s piece : List Char}
    (hpiece : piece ∈ cut separator s) (hc : c ∈ piece) : c ∈ s := by
  induction s generalizing piece with
  | nil => simp_all [cut]
  | cons first rest ih =>
    rw [cut] at hpiece
    split at hpiece
    · rcases List.mem_cons.mp hpiece with rfl | hpiece
      · cases hc
      · exact List.mem_cons_of_mem _ (ih hpiece hc)
    · rcases mem_consFirst hpiece with hpiece | ⟨tail, rfl, rfl | htail⟩
      · exact List.mem_cons_of_mem _ (ih hpiece hc)
      · rw [List.mem_singleton.mp hc]
        exact List.mem_cons_self
      · rcases List.mem_cons.mp hc with rfl | hc
        · exact List.mem_cons_self
        · exact List.mem_cons_of_mem _ (ih htail hc)

theorem Path.hasNul_join {dir path : String} (hdir : hasNul dir = false)
    (hpath : hasNul path = false) : hasNul (join dir path) = false := by
  rw [join]
  split
  · exact hpath
  · split
    · rw [hasNul_append, hdir, hpath]
      rfl
    · rw [hasNul_append, hasNul_append, hdir, hpath]
      rfl

/-- No value in the environment holds a zero character, as the system has it. -/
def Host.SoundEnvironment (h : Host) : Prop :=
  ∀ entry ∈ h.environment, Path.hasNul entry.2 = false

theorem Host.SoundEnvironment.getEnv? {h : Host} (henv : h.SoundEnvironment) {name value : String}
    (hget : h.getEnv? name = some value) : Path.hasNul value = false := by
  obtain ⟨entry, hfind, rfl⟩ := Option.map_eq_some_iff.mp hget
  exact henv entry (List.mem_of_find?_eq_some hfind)

theorem Host.SoundEnvironment.setting? {h : Host} (henv : h.SoundEnvironment) {name value : String}
    (hset : h.setting? name = some value) : Path.hasNul value = false :=
  henv.getEnv? (Option.filter_eq_some_iff.mp hset).1

/-! ### Finding the program -/

namespace Launch

/-- Only a path with a zero character in it is refused without asking the system. -/
theorem find_ne_nul {fs : FileSystem} {path : String} (hpath : Path.hasNul path = false) :
    fs.find path ≠ .error .nul := by
  have hflaw : FileSystem.flaw? path ≠ some .nul := by
    rw [FileSystem.flaw?, hpath, if_neg Bool.false_ne_true]
    split
    · simp
    · split <;> simp
  rw [FileSystem.find, FileSystem.lookup, FileSystem.walkFor]
  cases hcase : FileSystem.flaw? path with
  | some r => exact fun h => hflaw (hcase.trans (congrArg some (Except.error.inj h)))
  | none =>
    cases fs.start path with
    | error e => simp
    | ok here =>
      dsimp only
      cases FileSystem.walkWithin fs.root true FileSystem.linkLimit here (FileSystem.steps path) with
      | error e => simp
      | ok place =>
        obtain ⟨l, node⟩ := place
        cases node <;> simp

theorem programAt_ne_nul {fs : FileSystem} {path : String} (hpath : Path.hasNul path = false) :
    programAt fs path ≠ .error .nul := by
  rw [programAt]
  split
  · next r hfind => exact fun h => find_ne_nul hpath (hfind.trans (congrArg _ (Except.error.inj h)))
  · split
    · split <;> exact nofun
    · exact nofun
  · exact nofun

theorem firstProgram_ne_nul {fs : FileSystem} {earlier : Option Refusal} {paths : List String}
    (hearlier : earlier ≠ some .nul) (hpaths : ∀ path ∈ paths, Path.hasNul path = false) :
    firstProgram fs earlier paths ≠ .error .nul := by
  induction paths generalizing earlier with
  | nil =>
    rw [firstProgram]
    cases earlier with
    | none => exact nofun
    | some r => exact fun h => hearlier (congrArg some (Except.error.inj h))
  | cons path rest ih =>
    obtain ⟨hpath, hrest⟩ := List.forall_mem_cons.mp hpaths
    rw [firstProgram]
    cases hat : programAt fs path with
    | ok program => exact nofun
    | error r =>
      refine ih (fun hnul => ?_) hrest
      have hr : r ≠ .nul := fun hr => programAt_ne_nul hpath (hr ▸ hat)
      rw [Option.some.injEq] at hnul
      unfold reported at hnul
      split at hnul
      · split at hnul
        · exact hr hnul
        · exact hearlier (congrArg some hnul)
      · exact hr hnul

theorem hasNul_of_mem_candidates {h : Host} (henv : h.SoundEnvironment) {word path : String}
    (hword : Path.hasNul word = false) (hpath : path ∈ candidates h word) :
    Path.hasNul path = false := by
  rw [candidates] at hpath
  split at hpath
  · rw [List.mem_singleton.mp hpath]
    exact hword
  · obtain ⟨dir, hdir, rfl⟩ := List.mem_map.mp hpath
    refine Path.hasNul_join ?_ hword
    have hsearch : Path.hasNul ((h.getEnv? "PATH").getD defaultSearchPath) = false := by
      cases hget : h.getEnv? "PATH" with
      | none => decide
      | some value => exact henv.getEnv? hget
    rw [Path.hasNul, decide_eq_false_iff_not] at hsearch ⊢
    rw [String.toList_ofList]
    exact fun hnul => hsearch (Text.mem_of_mem_cut hdir hnul)

theorem findProgram_ne_nul {h : Host} (henv : h.SoundEnvironment) {word : String}
    (hword : Path.hasNul word = false) : findProgram h word ≠ .error .nul :=
  firstProgram_ne_nul nofun fun _ hpath => hasNul_of_mem_candidates henv hword hpath

/-- In the same world a command has the same program, and looking for it changes nothing. -/
theorem resolve_sameWorld {h h' : Host} (hw : SameWorld h h') (command : List String) :
    exec (resolve command) h' = ((exec (resolve command) h).1, h') := by
  cases command with
  | nil => rfl
  | cons word args =>
    rw [resolve]
    dsimp only
    split
    · rfl
    · rw [exec_bind, exec_bind, exec_get, exec_get]
      dsimp only
      rw [hw.findProgram]
      cases findProgram h word <;> rfl

/-- Without zero characters a command has a program, or the system refuses it. -/
theorem resolve_result {h : Host} (henv : h.SoundEnvironment) {word : String} {args : List String}
    (hcommand : ∀ w ∈ word :: args, Path.hasNul w = false) :
    (∃ program, (exec (resolve (word :: args)) h).1 = .ok (program, args)) ∨
      ∃ e, (exec (resolve (word :: args)) h).1 = .error (.file (.refused e word)) := by
  have hplain : (word :: args).any Path.hasNul = false := by
    rw [List.any_eq_false]
    exact fun w hw => by rw [hcommand w hw]; exact Bool.false_ne_true
  rw [resolve]
  dsimp only
  rw [hplain, if_neg Bool.false_ne_true, exec_bind, exec_get]
  dsimp only
  cases hfound : findProgram h word with
  | ok program => exact .inl ⟨program, rfl⟩
  | error r =>
    cases r with
    | nul => exact absurd hfound (findProgram_ne_nul henv (hcommand word List.mem_cons_self))
    | system e => exact .inr ⟨e, rfl⟩

/-! ### Launching -/

/-- Starts a command with its streams inherited and waits for its end. -/
def launch (command : List String) : Run Int := do
  let (program, args) ← resolve command
  execute ownRoutes program args

/-- The world after a command has been launched, or could not be started. -/
def launched (h : Host) (command : List String) : Host := (exec (launch command) h).2

/-- The system does not refuse to start the command. -/
def Starts (h : Host) (command : List String) : Prop :=
  ∀ fault : FileFault, fault.fromSystem = true → (exec (launch command) h).1 ≠ .error (.file fault)

theorem exec_launch (h : Host) (command : List String) :
    exec (launch command) h =
      match (exec (resolve command) h).1 with
      | .error failure => (.error failure, h)
      | .ok (program, args) =>
        (.ok (executeOn h ownRoutes program args).1, (executeOn h ownRoutes program args).2) := by
  rw [launch, exec_bind, resolve_sameWorld (frame_sameWorld.refl h)]
  rcases (exec (resolve command) h).1 with failure | ⟨program, args⟩ <;> rfl

/-- A stage with inherited streams and a quiet log is refused just as the bare launch is. -/
theorem starts_iff_runStage {h : Host} (hq : h.log.Quiet) (hcwd : h.files.cwd ≠ none)
    (command : List String) :
    Starts h command ↔ ∀ fault : FileFault, fault.fromSystem = true →
      (exec (runStage command) h).1 ≠ .error (.file fault) := by
  have hw : SameWorld h (h.handOver command) := ⟨rfl, rfl, fun _ _ => .refl _, rfl⟩
  have hq' : (h.handOver command).log.Quiet := hq
  obtain ⟨d, hd⟩ := Option.ne_none_iff_exists'.mp hcwd
  have hlogged : exec (resolveLogged command) (h.handOver command)
      = ((exec (resolve command) h).1, h.handOver command) := by
    rw [resolveLogged, exec_tryCatch, resolve_sameWorld hw]
    cases (exec (resolve command) h).1 with
    | ok found => rfl
    | error failure =>
      dsimp only
      split
      · split
        · rw [exec_bind, Run.exec_note, hq'.note (.inl rfl)]
          rfl
        · rfl
      · rfl
  have hready : (exec (ready command .inherit .inherit) (h.handOver command)).1
      = (exec (resolve command) h).1.map (ownRoutes, ·) := by
    rw [ready, exec_bind, exec_openRoutes_inherit]
    dsimp only
    rw [exec_bind, Run.exec_onFiles, FileOp.exec_currentDir]
    rw [show (h.handOver command).files.cwd = some d from hd]
    dsimp only
    rw [exec_bind, Run.exec_note, show Host.note { h.handOver command with
      files := (h.handOver command).files } popenSite .debug _ = _ from hq'.note (.inl rfl) _ _]
    dsimp only
    rw [exec_bind, hlogged]
    cases (exec (resolve command) h).1 <;> rfl
  rw [Starts, exec_launch, exec_runStage rfl rfl]
  rcases hrun : exec (ready command .inherit .inherit) (h.handOver command) with ⟨result, h₁⟩
  rw [hrun] at hready
  cases hready
  rw [show sharedErrors .inherit .inherit = Policy.inherit from rfl, hrun]
  cases (exec (resolve command) h).1 with
  | error failure => simp only [ne_eq, Except.error.injEq]
  | ok found => simp

/-- Whoever keeps the streams of a program in memory sees what it writes to them. -/
theorem executeKeptOn_sameWorld {h h' : Host} (hw : SameWorld h h') (program : String)
    (args : List String) :
    (executeKeptOn h' program args).1 =
        ((callOn h ownRoutes program args).written .output,
          (callOn h ownRoutes program args).written .errors) ∧
      SameWorld (executeOn h ownRoutes program args).2 (executeKeptOn h' program args).2 := by
  obtain ⟨hrun, hevents⟩ := (hw.programs program args).run
    ⟨h.files, h.stdout, h.stderr⟩ ⟨h'.files, [], []⟩ hw.files
  obtain ⟨hout, herr⟩ := (h'.programs program args).run_ownRoutes ⟨h'.files, [], []⟩
  constructor
  · refine Prod.ext (hout.trans ?_) (herr.trans ?_)
    · rw [hevents]
      rfl
    · rw [hevents]
      rfl
  · refine ⟨hrun, hw.environment, hw.programs, ?_⟩
    rw [executeOn_calls, List.map_append, List.map_singleton, ← hw.calls, Call.deeds, callOn]
    dsimp only
    rw [← hevents]
    exact List.map_append

end Launch

end MonitoredCompile

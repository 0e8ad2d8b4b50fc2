/-
MonitoredCompile/Proofs/Run/Launch.lean

What it does to the host when a command is run as a stage.  Everything before the
tool starts is background work (`works_ready`), and so is everything after it has
ended; in between, `executeOn` runs the tool.  So a stage that fails has run no
tool (`runStage_eq_error`), and one that succeeds has run one, with the words of
the command after the first as its arguments (`runStage_eq_ok`).
-/
import MonitoredCompile.Proofs.Run.Background

namespace MonitoredCompile

open Attempt (exec exec_bind exec_get exec_pure exec_tryCatch Keeps exec_bind_eq_ok)

/-! ### What a tool writes -/

/-- The bytes that went to a stream. -/
def Event.bytesOn (stream : Stream) : Event → Bytes
  | .wrote s bytes => if s = stream then bytes else []
  | .changed _ _ => []

/-- All that a tool wrote to a stream. -/
def Call.written (call : Call) (stream : Stream) : Bytes :=
  call.events.flatMap (Event.bytesOn stream)

/-- The bytes that went to one of the places that the streams go to. -/
def Event.bytesTo {α : Type} [DecidableEq α] (goes : Stream → α) (place : α) : Event → Bytes
  | .wrote stream bytes => if goes stream = place then bytes else []
  | .changed _ _ => []

namespace Behaviour

/-- The streams of the host get what is led to them. -/
theorem run_streams (tool : Behaviour) (routes : Stream → Route) (s : Surroundings) :
    (tool.run routes s).2.stdout
        = s.stdout ++ (tool.events routes s).flatMap (Event.bytesTo routes .stdout) ∧
      (tool.run routes s).2.stderr
        = s.stderr ++ (tool.events routes s).flatMap (Event.bytesTo routes .stderr) := by
  induction tool generalizing s with
  | exit status => simp [run, events]
  | emit stream bytes next ih =>
    obtain ⟨hout, herr⟩ := ih (s.deliver bytes (routes stream))
    rw [run, events, List.flatMap_cons, List.flatMap_cons, hout, herr, ← List.append_assoc,
      ← List.append_assoc]
    cases hroute : routes stream <;> simp [Surroundings.deliver, Event.bytesTo, hroute]
  | act change sound next ih =>
    simpa [run, events, Event.bytesTo] using ih s.files { s with files := change s.files }

/-- A tool whose streams are inherited adds to each what it writes to it. -/
theorem run_ownRoutes (tool : Behaviour) (s : Surroundings) :
    (tool.run Launch.ownRoutes s).2.stdout
        = s.stdout ++ (tool.events Launch.ownRoutes s).flatMap (Event.bytesOn .output)
      ∧ (tool.run Launch.ownRoutes s).2.stderr
        = s.stderr ++ (tool.events Launch.ownRoutes s).flatMap (Event.bytesOn .errors) := by
  have hout : Event.bytesTo Launch.ownRoutes .stdout = Event.bytesOn .output := by
    funext event
    rcases event with ⟨_ | _, _⟩ | _ <;> rfl
  have herr : Event.bytesTo Launch.ownRoutes .stderr = Event.bytesOn .errors := by
    funext event
    rcases event with ⟨_ | _, _⟩ | _ <;> rfl
  rw [← hout, ← herr]
  exact tool.run_streams Launch.ownRoutes s

/-- A tool whose streams go to a file leaves the streams of the host alone. -/
theorem run_toFile (tool : Behaviour) (handle : Nat) (s : Surroundings) :
    (tool.run (fun _ => .file handle) s).2.stdout = s.stdout
      ∧ (tool.run (fun _ => .file handle) s).2.stderr = s.stderr := by
  induction tool generalizing s with
  | exit status => exact ⟨rfl, rfl⟩
  | emit stream bytes next ih =>
    exact ih { s with files := s.files.writeOpen handle bytes }
  | act change sound next ih => exact ih s.files { s with files := change s.files }

/-- A tool leaves a well-formed file system well-formed. -/
theorem run_staysWellFormed (tool : Behaviour) (routes : Stream → Route) {s : Surroundings}
    (h : s.files.WellFormed) : (tool.run routes s).2.files.WellFormed := by
  induction tool generalizing s with
  | exit status => exact h
  | emit stream bytes next ih =>
    refine ih ?_
    unfold Surroundings.deliver
    split
    · exact h
    · exact h
    · exact h
    · exact h.writeOpen _ _
  | act change sound next ih => exact ih s.files (sound h)

end Behaviour

/-! ### Starting -/

/-- The host once a command has been handed over. -/
def Host.handOver (h : Host) (command : List String) : Host :=
  { h with commands := h.commands ++ [command] }

namespace Launch

/-- The host with every file closed that was not open before. -/
def closeAfter (before after : Host) : Host :=
  { after with files := after.files.closeFrom before.files.opened.length }

/-- The record of the program that `executeOn` runs. -/
def callOn (h : Host) (routes : Stream → Route) (program : String) (args : List String) : Call :=
  ⟨program, args, (h.programs program args).events routes ⟨h.files, h.stdout, h.stderr⟩,
    (executeOn h routes program args).1⟩

theorem executeOn_commands (h : Host) (routes : Stream → Route) (program : String)
    (args : List String) : (executeOn h routes program args).2.commands = h.commands := rfl

theorem executeOn_calls (h : Host) (routes : Stream → Route) (program : String)
    (args : List String) :
    (executeOn h routes program args).2.calls = h.calls ++ [callOn h routes program args] := rfl

theorem executeOn_ownRoutes (h : Host) (program : String) (args : List String) :
    (executeOn h ownRoutes program args).2.stdout
        = h.stdout ++ (callOn h ownRoutes program args).written .output
      ∧ (executeOn h ownRoutes program args).2.stderr
        = h.stderr ++ (callOn h ownRoutes program args).written .errors :=
  Behaviour.run_ownRoutes (h.programs program args) ⟨h.files, h.stdout, h.stderr⟩

theorem executeOn_toFile (h : Host) (handle : Nat) (program : String) (args : List String) :
    (executeOn h (fun _ => .file handle) program args).2.stdout = h.stdout
      ∧ (executeOn h (fun _ => .file handle) program args).2.stderr = h.stderr :=
  Behaviour.run_toFile (h.programs program args) handle ⟨h.files, h.stdout, h.stderr⟩

/-! ### Opening -/

theorem exec_openRoute_file (own : Route) (path : String) (h : Host) :
    exec (openRoute own (.file path)) h =
      match h.files.openTruncated path with
      | .ok (files, handle) => (.ok (.file handle), { h with files })
      | .error r => (.error (.file (FileOp.faultAt path r)), h) := by
  rw [openRoute, exec_bind, exec_get]
  dsimp only
  rcases h.files.openTruncated path with r | ⟨files, handle⟩ <;> rfl

/-- Both streams in one file. -/
theorem exec_openRoutes_file (path : String) (h : Host) :
    exec (openRoutes (.file path) .merge) h =
      match h.files.openTruncated path with
      | .ok (files, handle) => (.ok fun _ => .file handle, { h with files })
      | .error r => (.error (.file (FileOp.faultAt path r)), h) := by
  rw [openRoutes, exec_bind, exec_openRoute_file]
  rcases h.files.openTruncated path with r | ⟨files, handle⟩
  · rfl
  · dsimp only
    rw [exec_bind, exec_pure]
    dsimp only
    rw [exec_pure]
    congr 3
    funext s
    cases s <;> rfl

/-- Both streams inherited. -/
theorem exec_openRoutes_inherit (h : Host) :
    exec (openRoutes .inherit .inherit) h = (.ok ownRoutes, h) := by
  refine Prod.ext (congrArg Except.ok ?_) rfl
  funext s
  cases s <;> rfl

/-- The first word of a command leads to its program, the others are the arguments. -/
theorem resolve_eq_ok {command args : List String} {program : String} {h h' : Host}
    (hok : exec (resolve command) h = (.ok (program, args), h')) :
    (∃ word, command = word :: args ∧ findProgram h word = .ok program) ∧ h' = h := by
  cases command with
  | nil => cases hok
  | cons word rest =>
    rw [resolve] at hok
    dsimp only at hok
    split at hok
    · cases hok
    · simp only [exec_bind, exec_get] at hok
      split at hok
      · next hfound =>
        cases hok
        exact ⟨⟨word, rfl, hfound⟩, rfl⟩
      · cases hok

/-- What the handler of a refused program logs does not save the stage. -/
theorem resolveLogged_eq_ok {command args : List String} {program : String} {h h' : Host}
    (hok : exec (resolveLogged command) h = (.ok (program, args), h')) :
    (∃ word, command = word :: args ∧ findProgram h word = .ok program) ∧ h' = h := by
  rw [resolveLogged, exec_tryCatch] at hok
  split at hok
  · next hresolve =>
    cases hok
    exact resolve_eq_ok hresolve
  · dsimp only at hok
    split at hok
    · split at hok
      · obtain ⟨_, _, -, hthrow⟩ := exec_bind_eq_ok.mp hok
        cases hthrow
      · cases hok
    · cases hok

/-- A stage that is ready has opened its routes and logged a line, and takes its
arguments from the command. -/
theorem ready_eq_ok {command args : List String} {out err : Policy} {routes : Stream → Route}
    {program : String} {h h' : Host}
    (hok : exec (ready command out err) h = (.ok (routes, program, args), h')) :
    args = command.tail ∧ ∃ h₁ message, exec (openRoutes out err) h = (.ok routes, h₁) ∧
      h' = h₁.note popenSite .debug message := by
  obtain ⟨routes', h₁, hroutes, hok⟩ := exec_bind_eq_ok.mp hok
  obtain ⟨dir, h₂, hdir, hok⟩ := exec_bind_eq_ok.mp hok
  obtain ⟨_, h₃, hnote, hok⟩ := exec_bind_eq_ok.mp hok
  obtain ⟨⟨program', args'⟩, h₄, hresolve, hok⟩ := exec_bind_eq_ok.mp hok
  cases hok
  cases hnote
  obtain ⟨⟨word, rfl, -⟩, rfl⟩ := resolveLogged_eq_ok hresolve
  rw [Run.exec_onFiles, FileOp.exec_currentDir] at hdir
  refine ⟨rfl, h₁, executingMessage (word :: args) dir, hroutes, ?_⟩
  -- Without a current directory there is no line to be logged, and no stage.
  cases hcwd : h₁.files.cwd <;> rw [hcwd] at hdir <;> cases hdir
  rfl

/-- The program of a stage that is ready is the one that the command leads to. -/
theorem program_of_ready {command args : List String} {out err : Policy} {routes : Stream → Route}
    {program : String} {h h' : Host}
    (hok : exec (ready command out err) h = (.ok (routes, program, args), h')) :
    ∃ word, command = word :: args ∧ findProgram h' word = .ok program := by
  obtain ⟨_, h₁, -, hok⟩ := exec_bind_eq_ok.mp hok
  obtain ⟨_, h₂, -, hok⟩ := exec_bind_eq_ok.mp hok
  obtain ⟨_, h₃, -, hok⟩ := exec_bind_eq_ok.mp hok
  obtain ⟨⟨_, _⟩, h₄, hresolve, hok⟩ := exec_bind_eq_ok.mp hok
  cases hok
  obtain ⟨hword, rfl⟩ := resolveLogged_eq_ok hresolve
  exact hword

/-! ### Background work -/

section

variable {R : Host → Host → Prop} (hR : Background R)
include hR

theorem works_openRoute (own : Route) (policy : Policy) : Works R (openRoute own policy) := by
  cases policy with
  | file path =>
    intro h
    rw [exec_openRoute_file]
    cases hopen : h.files.openTruncated path with
    | error r => exact ⟨hR.refl h, fun _ he => by cases he; exact id⟩
    | ok opened => exact ⟨hR.files h opened.1 fun hfs => hfs.openWith hopen, fun _ he => by cases he⟩
  | discard | inherit | merge | unknown value => exact .pure hR.toFrame _

theorem works_openRoutes (out err : Policy) : Works R (openRoutes out err) := by
  refine (works_openRoute hR .stdout out).bind hR.toFrame fun output => ?_
  dsimp only
  split
  · exact Keeps.bind hR.toFrame (.pure hR.toFrame _) fun _ => .pure hR.toFrame _
  · exact (works_openRoute hR .stderr _).bind hR.toFrame fun _ => .pure hR.toFrame _

theorem works_resolve (command : List String) : Works R (resolve command) := by
  cases command with
  | nil => exact .throw hR.toFrame id
  | cons word args =>
    rw [resolve]
    dsimp only
    split
    · exact .throw hR.toFrame id
    · refine (Keeps.get hR.toFrame).bind hR.toFrame fun h => ?_
      split
      · exact .pure hR.toFrame _
      · exact .throw hR.toFrame id

theorem works_resolveLogged (command : List String) : Works R (resolveLogged command) := by
  refine (works_resolve hR command).tryCatch hR.toFrame fun failure hf => ?_
  dsimp only
  split
  · split
    · exact (hR.works_debug _ _).bind hR.toFrame fun _ => .throw hR.toFrame hf
    · exact .throw hR.toFrame hf
  · exact .throw hR.toFrame hf

theorem keeps_closeAfter (before after : Host) : R after (closeAfter before after) :=
  hR.files after _ fun hfs => hfs.closeFrom _

/-- Until its tool starts, a stage only opens files and looks for a program. -/
theorem works_ready (command : List String) (out err : Policy) :
    Works R (ready command out err) := by
  refine (works_openRoutes hR out err).bind hR.toFrame fun routes => ?_
  refine (hR.works_onFiles FileOp.sound_currentDir).bind hR.toFrame fun dir => ?_
  refine (hR.works_debug _ _).bind hR.toFrame fun _ => ?_
  exact (works_resolveLogged hR command).bind hR.toFrame fun _ => .pure hR.toFrame _

end

/-! ### The stage -/

theorem exec_closingFiles {α : Type} (action : Run α) (h : Host) :
    exec (closingFiles action) h = ((exec action h).1, closeAfter h (exec action h).2) := rfl

/-- A stage whose policies say where its streams go. -/
theorem exec_runStage {out err : Policy} (hout : out.isForOutput = true)
    (herr : err.isForErrors = true) (command : List String) (h : Host) :
    exec (runStage command out err) h =
      match exec (ready command out (sharedErrors out err)) (h.handOver command) with
      | (.error failure, h₁) => (.error failure, closeAfter h h₁)
      | (.ok (routes, program, args), h₁) =>
        let (status, h₂) := executeOn h₁ routes program args
        (.ok ⟨status, out.path?.or (sharedErrors out err).path?, command⟩,
          (closeAfter h h₂).note stageSite .debug ("runStage rc = " ++ toString status)) := by
  have hchange : exec (Run.change fun h => { h with commands := h.commands ++ [command] }) h
      = (.ok (), h.handOver command) := rfl
  have hcheck : checkPolicies out err = pure () := by
    rw [checkPolicies, hout, herr]
    rfl
  rw [runStage, exec_bind, hchange]
  dsimp only
  rw [hcheck, pure_bind, exec_bind, exec_closingFiles, exec_bind]
  rcases exec (ready command out (sharedErrors out err)) (h.handOver command)
    with ⟨failure | ⟨routes, program, args⟩, h₁⟩ <;> rfl

/-- A stage that succeeds has run a tool, and besides that only worked in the
background. -/
theorem runStage_eq_ok {R : Host → Host → Prop} (hR : Background R) {out err : Policy}
    (hout : out.isForOutput = true) (herr : err.isForErrors = true) {command : List String}
    {h h' : Host} {outcome : Outcome}
    (hok : exec (runStage command out err) h = (.ok outcome, h')) :
    ∃ routes program h₁,
      exec (ready command out (sharedErrors out err)) (h.handOver command)
        = (.ok (routes, program, command.tail), h₁) ∧
      R (h.handOver command) h₁ ∧
      outcome = ⟨(executeOn h₁ routes program command.tail).1,
        out.path?.or (sharedErrors out err).path?, command⟩ ∧
      R (executeOn h₁ routes program command.tail).2 h' := by
  rw [exec_runStage hout herr] at hok
  cases hready : exec (ready command out (sharedErrors out err)) (h.handOver command) with
  | mk result h₁ =>
    rw [hready] at hok
    cases result with
    | error failure => cases hok
    | ok found =>
      obtain ⟨routes, program, args⟩ := found
      obtain ⟨rfl, -⟩ := ready_eq_ok hready
      cases hok
      refine ⟨routes, program, h₁, rfl, (works_ready hR _ _ _).state hready, rfl, ?_⟩
      exact hR.trans (keeps_closeAfter hR h _) (hR.note (.inl rfl) _ _ _)

/-- A stage that fails has run no tool. -/
theorem runStage_eq_error {R : Host → Host → Prop} (hR : Background R) {out err : Policy}
    (hout : out.isForOutput = true) (herr : err.isForErrors = true) {command : List String}
    {h h' : Host} {failure : Failure}
    (hfail : exec (runStage command out err) h = (.error failure, h')) :
    ¬ failure.OfTool ∧ R (h.handOver command) h' := by
  rw [exec_runStage hout herr] at hfail
  cases hready : exec (ready command out (sharedErrors out err)) (h.handOver command) with
  | mk result h₁ =>
    rw [hready] at hfail
    cases result with
    | error failure =>
      cases hfail
      have hworks := works_ready hR command out (sharedErrors out err)
      exact ⟨hworks.error hready, hR.trans (hworks.state hready) (keeps_closeAfter hR h _)⟩
    | ok found => cases hfail

/-- All that a stage does that succeeds: the routes are opened, the tool is run, and the
files are closed, with a line in the log before the tool and one after it. -/
theorem runStage_eq_ok_noted {out err : Policy} (hout : out.isForOutput = true)
    (herr : err.isForErrors = true) {command : List String} {h h' : Host} {outcome : Outcome}
    (hok : exec (runStage command out err) h = (.ok outcome, h')) :
    ∃ routes program h₁ before after,
      exec (openRoutes out (sharedErrors out err)) (h.handOver command) = (.ok routes, h₁) ∧
      h' = (closeAfter h (executeOn (h₁.note popenSite .debug before) routes program
        command.tail).2).note stageSite .debug after := by
  rw [exec_runStage hout herr] at hok
  cases hready : exec (ready command out (sharedErrors out err)) (h.handOver command) with
  | mk result h₁ =>
    rw [hready] at hok
    cases result with
    | error failure => cases hok
    | ok found =>
      obtain ⟨routes, program, args⟩ := found
      obtain ⟨rfl, h₂, message, hroutes, rfl⟩ := ready_eq_ok hready
      exact ⟨routes, program, h₂, message, _, hroutes, (Prod.mk.inj hok).2.symm⟩

/-- With a quiet log nothing else happens than that the routes are opened, the tool
is run, and the files are closed. -/
theorem runStage_eq_ok_quiet {out err : Policy} (hout : out.isForOutput = true)
    (herr : err.isForErrors = true) {command : List String} {h h' : Host} {outcome : Outcome}
    (hq : h.log.Quiet) (hok : exec (runStage command out err) h = (.ok outcome, h')) :
    ∃ routes program h₁,
      exec (openRoutes out (sharedErrors out err)) (h.handOver command) = (.ok routes, h₁) ∧
      h' = closeAfter h (executeOn h₁ routes program command.tail).2 := by
  obtain ⟨routes, program, h₁, before, after, hroutes, rfl⟩ := runStage_eq_ok_noted hout herr hok
  -- Opening the routes leaves the log quiet, so the line about the call is not heard.
  have hlog : h₁.log = h.log :=
    ((works_openRoutes background_onlyFiles _ _).state hroutes).log hq
  have hq₁ : h₁.log.Quiet := hlog.symm ▸ hq
  refine ⟨routes, program, h₁, hroutes, ?_⟩
  rw [hq₁.note (.inl rfl)]
  exact Log.Quiet.note (h := closeAfter h (executeOn h₁ routes program command.tail).2) hq₁
    (.inl rfl) _ _

theorem staysSound_runStage {out err : Policy} (hout : out.isForOutput = true)
    (herr : err.isForErrors = true) {command : List String} {h h' : Host} {outcome : Outcome}
    (hok : exec (runStage command out err) h = (.ok outcome, h')) : StaysSound h h' := by
  obtain ⟨routes, program, h₁, -, hbefore, -, hafter⟩ :=
    runStage_eq_ok background_staysSound hout herr hok
  exact fun hfs => hafter (Behaviour.run_staysWellFormed _ _ (hbefore hfs))

end Launch

end MonitoredCompile

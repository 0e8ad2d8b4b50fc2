/-
MonitoredCompile/Proofs/Run/Refusal.lean

A bad argument file stops a run before it has done anything.  Argument files are all read
before the first place is made and before the first tool is started, and so a run fails for
the leftmost file that cannot be used, and nothing has happened but that lines were logged
(`run_refused`).

`Logged` is what nothing else means: the world after is the one before with debugging
lines logged.  If the log goes to a file, that file has grown at its end; no other has
changed, and none has come or gone.
-/
import MonitoredCompile.Proofs.Arguments.Inclusion
import MonitoredCompile.Proofs.Run.Configuration
import MonitoredCompile.Proofs.Run.Steps

namespace MonitoredCompile

open Attempt (exec exec_bind exec_get exec_pure Frame Keeps)

/-! ### Nothing but log lines -/

/-- The world after debugging lines have been logged, and nothing else has been done. -/
inductive Logged (h : Host) : Host → Prop
  | same : Logged h h
  | line {h'} (site : Log.Site) (message : String) : Logged h h' →
      Logged h (h'.note site .debug message)

theorem frame_logged : Frame Logged where
  refl _ := .same
  trans hab hbc := by
    induction hbc with
    | same => exact hab
    | line site message _ ih => exact .line site message ih

namespace Logged

variable {h h' : Host} (hlogged : Logged h h')
include hlogged

/-- A quiet log hears nothing of it. -/
theorem quiet (hq : h.log.Quiet) : h' = h := by
  induction hlogged with
  | same => rfl
  | line site message _ ih =>
    subst ih
    exact hq.note (.inl rfl) site message

/-- No command was handed over, no program run, and no temporary name tried. -/
theorem record : h'.commands = h.commands ∧ h'.calls = h.calls ∧ h'.scratchNames = h.scratchNames := by
  induction hlogged with
  | same => exact ⟨rfl, rfl, rfl⟩
  | @line h' site message _ ih =>
    exact h'.note_cases site .debug message
      (P := fun after => after.commands = h.commands ∧ after.calls = h.calls ∧
        after.scratchNames = h.scratchNames) ih (fun _ => ih) (fun _ _ _ _ => ih) fun _ => ih

theorem environment : h'.environment = h.environment := by
  induction hlogged with
  | same => rfl
  | @line h' site message _ ih =>
    exact h'.note_cases site .debug message (P := fun after => after.environment = h.environment)
      ih (fun _ => ih) (fun _ _ _ _ => ih) fun _ => ih

theorem handler : h'.log.handler = h.log.handler := by
  induction hlogged with
  | same => rfl
  | @line h' site message _ ih => exact (h'.note_log site .debug message).1.trans ih

theorem enabled (name : String) (level : Log.Level) :
    h'.log.enabled name level = h.log.enabled name level := by
  induction hlogged with
  | same => rfl
  | @line h' site message _ ih => exact ((h'.note_log site .debug message).2 name level).trans ih

/-- The files are the same, or the log file has grown. -/
theorem files : h'.files = h.files ∨ ∃ handle bytes, h.log.handler = some (.file handle) ∧
    (∃ name, h.log.enabled name .debug = true) ∧ h'.files = h.files.appendOpen handle bytes := by
  induction hlogged with
  | same => exact .inl rfl
  | @line h' site message hbefore ih =>
    refine h'.note_cases site .debug message
      (P := fun after => after.files = h.files ∨ ∃ handle bytes,
        h.log.handler = some (.file handle) ∧ (∃ name, h.log.enabled name .debug = true) ∧
          after.files = h.files.appendOpen handle bytes)
      ih (fun _ => ih) (fun handle bytes hhandler henabled => .inr ?_) fun _ => ih
    have hsame := hbefore.handler.symm.trans hhandler
    have hhears := (hbefore.enabled site.logger .debug).symm.trans henabled
    rcases ih with hfiles | ⟨handle', bytes', hhandler', -, hfiles⟩
    · exact ⟨handle, bytes, hsame, ⟨_, hhears⟩, by dsimp only; rw [hfiles]⟩
    · obtain rfl : handle' = handle := by
        rw [hhandler'] at hsame
        cases hsame
        rfl
      refine ⟨handle', bytes' ++ bytes, hsame, ⟨_, hhears⟩, ?_⟩
      dsimp only
      rw [hfiles, FileSystem.appendOpen_appendOpen]

end Logged

/-! ### What a log file is not -/

/-- Debugging lines go to the file that the path leads to. -/
def LogReaches (h : Host) (path : String) : Prop :=
  (∃ name, h.log.enabled name .debug = true) ∧
    ∃ handle l f, h.log.handler = some (.file handle) ∧
      h.files.opened[handle]?.bind OpenFile.location = some l ∧ h.files.find path = .ok (l, .file f)

namespace Logged

variable {h h' : Host} (hlogged : Logged h h') {path : String} (hpath : ¬ LogReaches h path)
include hlogged hpath

/-- Any other file reads as before. -/
theorem read : h'.files.read path = h.files.read path := by
  rcases hlogged.files with hfiles | ⟨handle, bytes, hhandler, henabled, hfiles⟩
  · rw [hfiles]
  · rw [hfiles]
    refine h.files.appendOpen_cases (P := fun files => files.read path = h.files.read path)
      handle bytes rfl fun l f hopened hget => ?_
    refine FileSystem.read_overwrite hget _ fun f' hfind => hpath ?_
    exact ⟨henabled, handle, l, f', hhandler, hopened, hfind⟩

/-- The log does not come to reach a file. -/
theorem not_logReaches : ¬ LogReaches h' path := by
  rintro ⟨⟨name, henabled⟩, handle, l, f, hhandler, hopened, hfind⟩
  rw [hlogged.enabled] at henabled
  rw [hlogged.handler] at hhandler
  refine hpath ⟨⟨name, henabled⟩, handle, l, ?_⟩
  suffices hbefore : h.files.opened[handle]?.bind OpenFile.location = some l ∧
      ∃ f, h.files.find path = .ok (l, .file f) by
    obtain ⟨hopened, f, hfind⟩ := hbefore
    exact ⟨f, hhandler, hopened, hfind⟩
  rcases hlogged.files with hfiles | ⟨handle', bytes, hhandler', -, hfiles⟩
  · rw [hfiles] at hopened hfind
    exact ⟨hopened, f, hfind⟩
  · obtain rfl : handle' = handle := by
      rw [hhandler] at hhandler'
      cases hhandler'
      rfl
    rw [hfiles] at hopened hfind
    refine h.files.appendOpen_cases
      (P := fun files => files.opened[handle']?.bind OpenFile.location = some l →
        files.find path = .ok (l, .file f) →
          h.files.opened[handle']?.bind OpenFile.location = some l ∧
            ∃ f, h.files.find path = .ok (l, .file f)) handle' bytes
      (fun ho hf => ⟨ho, f, hf⟩) (fun m g hm hget ho hf => ⟨ho, g, ?_⟩) hopened hfind
    obtain rfl : m = l := Option.some.inj (hm.symm.trans ho)
    rw [(FileSystem.sameShape_overwrite hget _).find_eq rfl] at hf
    cases hold : h.files.find path with
    | error r =>
      rw [hold] at hf
      cases hf
    | ok found =>
      obtain ⟨l', node⟩ := found
      rw [hold] at hf
      dsimp only at hf
      split at hf
      · cases hf
      · cases hf
        cases hget.symm.trans (FileSystem.find_eq_ok_iff.mp hold).2
        rfl

theorem ofFile_result :
    (exec (Arguments.ofFile path) h').1 = (exec (Arguments.ofFile path) h).1 :=
  Arguments.ofFile_congr (hlogged.read hpath)

end Logged

/-! ### Parts that only log -/

/-- This part of a run does nothing but log debugging lines. -/
abbrev OnlyLogs {α : Type} (m : Run α) : Prop := Keeps Logged (fun _ => True) m

namespace OnlyLogs

theorem pure {α : Type} (a : α) : OnlyLogs (Pure.pure a : Run α) := Keeps.pure frame_logged a

theorem throw {α : Type} (failure : Failure) : OnlyLogs (MonadExcept.throw failure : Run α) :=
  Keeps.throw frame_logged trivial

theorem bind {α β : Type} {m : Run α} {f : α → Run β} (hm : OnlyLogs m)
    (hf : ∀ a, OnlyLogs (f a)) : OnlyLogs (m >>= f) :=
  Keeps.bind frame_logged hm hf

theorem note (site : Log.Site) (message : String) : OnlyLogs (Run.note site .debug message) :=
  Keeps.modify fun _ => .line site message .same

/-- A question changes nothing, whatever the answer is. -/
theorem ask {α : Type} (path : String) (f : FileSystem → Except Refusal α) :
    OnlyLogs (Run.onFiles (FileOp.ask path f)) := by
  intro h
  rw [Run.exec_onFiles, FileOp.exec_ask]
  cases f h.files <;> exact ⟨.same, fun _ _ => trivial⟩

theorem ofFile (file : String) : OnlyLogs (Arguments.ofFile file) := by
  refine (ask file fun fs => fs.read file).bind fun bytes => ?_
  split
  · exact .throw _
  · refine (OnlyLogs.note _ _).bind fun _ => ?_
    split
    · exact .throw _
    · exact .pure _

theorem expand (tokens : List String) : OnlyLogs (Arguments.expand tokens) := by
  induction tokens with
  | nil => exact .pure []
  | cons token rest ih =>
    have hrest (here : List String) :
        OnlyLogs (do let more ← Arguments.expand rest; Pure.pure (here ++ more)) :=
      ih.bind fun more => .pure _
    rw [Arguments.expand]
    dsimp only
    split
    · exact (ofFile _).bind hrest
    · exact OnlyLogs.bind (.pure _) hrest

theorem configure (dir compiler instrumentor : Option String) :
    OnlyLogs (Toolchain.configure dir compiler instrumentor) := by
  rw [Toolchain.configure]
  dsimp only
  split
  · exact OnlyLogs.pure _
  · refine Keeps.bind frame_logged (.get frame_logged) fun h => ?_
    split
    · exact OnlyLogs.pure _
    · exact (OnlyLogs.note _ _).bind fun _ => OnlyLogs.throw _

theorem start (args : List String) (tools : Option Toolchain) :
    OnlyLogs (Pipeline.start args tools) := by
  unfold Pipeline.start
  dsimp only
  split
  · exact OnlyLogs.bind (.pure _) fun _ => .pure _
  · refine OnlyLogs.bind ?_ fun _ => .pure _
    refine Keeps.bind frame_logged (.get frame_logged) fun h => ?_
    dsimp only
    split
    · exact (OnlyLogs.note _ _).bind fun _ => configure _ _ _
    · exact configure _ _ _

end OnlyLogs

/-! ### Bad argument files -/

/-- An argument file that cannot be used, and the failure that says why. -/
inductive Unusable (fs : FileSystem) (file : String) : Failure → Prop
  /-- It cannot be read: nothing is there, or a directory, or the way there is no way.  No file
  is unreadable for want of a permission, since the user may read everything; a refusal of that
  kind would be one more value of `r`. -/
  | refused {r : Refusal} : fs.read file = .error r →
      Unusable fs file (.file (FileOp.faultAt file r))
  /-- It holds no text. -/
  | undecodable {bytes : Bytes} {fault : Utf8.Fault} : fs.read file = .ok bytes →
      (∀ text, bytes ≠ Utf8.encode text) → Utf8.decode bytes = .error fault →
      Unusable fs file (.undecodable fault)
  /-- It holds a text with an empty line: one that no lines which are not empty make. -/
  | emptyLine {text : String} : fs.read file = .ok (Utf8.encode text) →
      (∀ layout : Text.Layout, layout.text ≠ text.toList) →
      Unusable fs file .malformedArgFile

namespace Unusable

open Arguments (fileName? ofText ofText_eq_none_iff)

/-- Just these files fail. -/
theorem iff_ofFile {h : Host} {file : String} {failure : Failure} :
    Unusable h.files file failure ↔ (exec (Arguments.ofFile file) h).1 = .error failure := by
  have hrefused {r : Refusal} (hread : h.files.read file = .error r) :
      (exec (Arguments.ofFile file) h).1 = .error (.file (FileOp.faultAt file r)) := by
    rw [Arguments.ofFile, exec_bind, Run.exec_onFiles, FileOp.exec_ask, hread]
  constructor
  · intro hbad
    cases hbad with
    | refused hread => exact hrefused hread
    | undecodable hread _ hdecode => rw [Arguments.ofFile_result hread, hdecode]
    | emptyLine hread hnone =>
      rw [Arguments.ofFile_result hread, Utf8.decode_eq_ok_iff.mpr rfl]
      dsimp only
      rw [ofText_eq_none_iff.mpr hnone]
  · intro hfails
    cases hread : h.files.read file with
    | error r =>
      rw [hrefused hread] at hfails
      cases hfails
      exact .refused hread
    | ok bytes =>
      rw [Arguments.ofFile_result hread] at hfails
      cases hdecode : Utf8.decode bytes with
      | error fault =>
        rw [hdecode] at hfails
        cases hfails
        refine .undecodable hread (fun text hbytes => ?_) hdecode
        rw [Utf8.decode_eq_ok_iff.mpr hbytes] at hdecode
        cases hdecode
      | ok text =>
        rw [hdecode] at hfails
        dsimp only at hfails
        cases hargs : ofText text.toList with
        | some args =>
          rw [hargs] at hfails
          cases hfails
        | none =>
          rw [hargs] at hfails
          cases hfails
          rw [Utf8.decode_eq_ok_iff.mp hdecode] at hread
          exact .emptyLine hread (ofText_eq_none_iff.mp hargs)

end Unusable

namespace Arguments

/-! ### The first bad file -/

/-- Whether a token can be used may be told in either of two worlds. -/
def SameFiles (h h' : Host) (tokens : List String) : Prop :=
  ∀ token ∈ tokens, ∀ file, fileName? token = some file →
    (exec (ofFile file) h').1 = (exec (ofFile file) h).1

theorem Expands.congr {h h' : Host} {tokens args : List String} (hexpands : Expands h tokens args)
    (hsame : SameFiles h h' tokens) : Expands h' tokens args := by
  induction hexpands with
  | nil => exact .nil
  | token hname _ ih => exact .token hname (ih fun t ht => hsame t (List.mem_cons_of_mem _ ht))
  | file hname hargs _ ih =>
    refine .file hname ?_ (ih fun t ht => hsame t (List.mem_cons_of_mem _ ht))
    rw [hsame _ List.mem_cons_self _ hname, hargs]

theorem FailsAt.congr {h h' : Host} {tokens : List String} {failure : Failure}
    (hfails : FailsAt h tokens failure) (hsame : SameFiles h h' tokens) :
    FailsAt h' tokens failure := by
  obtain ⟨before, args, token, file, after, rfl, hbefore, hname, hrefused⟩ := hfails
  refine ⟨before, args, token, file, after, rfl, hbefore.congr fun t ht => ?_, hname, ?_⟩
  · exact hsame t (List.mem_append_left _ ht)
  · rw [hsame token (by simp) file hname, hrefused]

/-- All argument files that have been put in their places could be used. -/
theorem Expands.usable {h : Host} {tokens args : List String} (hexpands : Expands h tokens args)
    {token file : String} (htoken : token ∈ tokens) (hname : fileName? token = some file)
    (failure : Failure) : ¬ Unusable h.files file failure := by
  rw [Unusable.iff_ofFile]
  induction hexpands with
  | nil => cases htoken
  | token hplain _ ih =>
    rcases List.mem_cons.mp htoken with rfl | htoken
    · rw [hname] at hplain
      cases hplain
    · exact ih htoken
  | file hname' hargs _ ih =>
    rcases List.mem_cons.mp htoken with rfl | htoken
    · rw [hname'] at hname
      cases hname
      rw [hargs]
      exact nofun
    · exact ih htoken

end Arguments

/-! ### The run -/

namespace Pipeline

open Arguments (fileName? Expands FailsAt expands_or_failsAt)

/-- The tools are given, or the environment names them. -/
def HasTools (tools : Option Toolchain) (h : Host) : Prop :=
  tools = none → Toolchain.Configured h

theorem exec_start {tools : Option Toolchain} {h : Host} (htools : HasTools tools h)
    (args : List String) :
    ∃ t h', exec (start args tools) h = (.ok ⟨t, args, .initial⟩, h') ∧ Logged h h' := by
  rcases hrun : exec (start args tools) h with ⟨result, h'⟩
  have hlogged := (OnlyLogs.start args tools).state hrun
  cases tools with
  | some t =>
    cases hrun
    exact ⟨t, h, rfl, hlogged⟩
  | none =>
    have hconf := Toolchain.ofEnvironment_result h
    rw [if_pos (htools rfl)] at hconf
    rw [start, exec_bind] at hrun
    rcases henv : exec Toolchain.ofEnvironment h with ⟨found, h₁⟩
    rw [henv] at hconf hrun
    cases hconf
    cases hrun
    exact ⟨_, _, rfl, hlogged⟩

/-- **A bad argument file stops a run before any effect.**  If one of the tokens names an
argument file that cannot be used, and a run has its tools, then it fails as the leftmost
such file says: no command is handed over, no program is run, no place is made, and all
that has changed is the log.  (A log that is written to one of the argument files would
change what is read.) -/
theorem run_refused {args : List String} {tools : Option Toolchain} {h : Host}
    (htools : HasTools tools h)
    (hbad : ∃ token ∈ args, ∃ file failure, fileName? token = some file ∧
      Unusable h.files file failure)
    (hlog : ∀ token ∈ args, ∀ file, fileName? token = some file → ¬ LogReaches h file) :
    ∃ before token after file failure h', args = before ++ token :: after ∧
      (∀ earlier ∈ before, ∀ name, fileName? earlier = some name →
        ∀ failure, ¬ Unusable h.files name failure) ∧
      fileName? token = some file ∧ Unusable h.files file failure ∧
      exec (run args tools) h = (.error failure, h') ∧
      Logged h h' ∧
      (h'.commands = h.commands ∧ h'.calls = h.calls ∧ h'.scratchNames = h.scratchNames) ∧
      (h'.files = h.files ∨ ∃ handle bytes, h.log.handler = some (.file handle) ∧
        (∃ name, h.log.enabled name .debug = true) ∧
        h'.files = h.files.appendOpen handle bytes) ∧
      (h.log.Quiet → h' = h) := by
  -- Not all files can be used, so one is the first that cannot.
  obtain ⟨failure, hfails⟩ : ∃ failure, FailsAt h args failure := by
    rcases expands_or_failsAt h args with ⟨result, hexpands⟩ | hfails
    · obtain ⟨token, htoken, file, failure, hname, hunusable⟩ := hbad
      exact absurd hunusable (hexpands.usable htoken hname failure)
    · exact hfails
  -- The tools are found without more than a line in the log, which no file is read from.
  obtain ⟨t, h₁, hstart, hlogged₁⟩ := exec_start htools args
  have hsame : Arguments.SameFiles h h₁ args := fun token htoken file hname =>
    hlogged₁.ofFile_result (hlog token htoken file hname)
  have hunlogged : Arguments.Unlogged h₁ args := fun token htoken file hname hinto =>
    hlogged₁.not_logReaches (hlog token htoken file hname) ⟨⟨_, hinto.1⟩, hinto.2⟩
  have hexpand := (hfails.congr hsame).expand_result hunlogged
  rcases hrun : exec (Arguments.expand args) h₁ with ⟨result, h₂⟩
  have hlogged := frame_logged.trans hlogged₁ ((OnlyLogs.expand args).state hrun)
  rw [hrun] at hexpand
  cases hexpand
  obtain ⟨before, words, token, file, after, hargs, hbefore, hname, hrefused⟩ := hfails
  refine ⟨before, token, after, file, failure, h₂, hargs,
    fun earlier hearlier name hearlierName failure => hbefore.usable hearlier hearlierName failure,
    hname, Unusable.iff_ofFile.mpr hrefused, ?_, hlogged, hlogged.record, hlogged.files,
    hlogged.quiet⟩
  rw [run, exec_bind, hstart]
  dsimp only
  rw [steps, runSteps, exec_bind, classify]
  dsimp only
  rw [exec_bind, hrun]

/-- A host with an argument file that declares a directory, one with an empty line, and a
directory in the place of a third. -/
def includingHost : Host where
  files := ⟨.dir [("flags", .file { bytes := Utf8.encode "-d\nout\n" }),
    ("gaps", .file { bytes := Utf8.encode "A.java\n\nB.java\n" }), ("lib", .dir [])], some [], []⟩
  programs _ _ := .exit 0
  scratchDir := "/"

/-- Flags before, in and after the files, and two files that cannot be used. -/
def includingArgs : List String := ["-d", "new", "@flags", "P.topl", "@gaps", "@lib", "A.java"]

/-- The empty line is complained of, and the host is as it was. -/
theorem run_refused_includingHost :
    HasTools none includingHost ∧
      Unusable includingHost.files "gaps" .malformedArgFile ∧
      (∀ file, ¬ LogReaches includingHost file) ∧
      ∃ failure, exec (run includingArgs none) includingHost = (.error failure, includingHost) ∧
        failure.message = "empty line in argfile" := by
  have htools : HasTools none includingHost := fun _ => by decide
  have hgaps : Unusable includingHost.files "gaps" .malformedArgFile := Unusable.iff_ofFile.mpr rfl
  have hlog : ∀ file, ¬ LogReaches includingHost file := by
    rintro file ⟨-, handle, l, f, hhandler, -⟩
    cases hhandler
  refine ⟨htools, hgaps, hlog, ?_⟩
  have hbad : ∃ token ∈ includingArgs, ∃ file failure, fileName? token = some file ∧
      Unusable includingHost.files file failure := ⟨"@gaps", by decide, "gaps", _, rfl, hgaps⟩
  obtain ⟨before, token, after, file, failure, h', -, -, -, -, hrun, -, -, -, hquiet⟩ :=
    run_refused htools hbad fun _ _ file _ => hlog file
  have hresult : (exec (run includingArgs none) includingHost).1.mapError Failure.message
      = .error "empty line in argfile" := by decide +kernel
  rw [hrun] at hresult
  rw [hrun, hquiet Log.unset_default.quiet]
  exact ⟨failure, rfl, Except.error.inj hresult⟩

end Pipeline

end MonitoredCompile

/-
MonitoredCompile/Proofs/Log/Destination.lean

Where log lines go, and what comes of a place that they cannot go to.  The handler
is installed before the command starts, outside of what it reports, and installing
it can fail in one way: the environment names a file that cannot be opened.  So the
program ends with status zero exactly if the log has a destination
(`program_ok_iff`); otherwise the failure gets out and nothing has been done.
-/
import MonitoredCompile.Proofs.FileSystem.Move
import MonitoredCompile.Proofs.Run.Outcome

namespace MonitoredCompile

open Attempt (exec exec_bind exec_get Frame Keeps)

/-! ### The file -/

namespace FileSystem

/-- A file can be opened under a path that ends in a name, in a directory that is
there, which is no directory's. -/
def Opens (fs : FileSystem) (path : String) : Prop :=
  ∃ place, fs.target path true = .ok (.name place false) ∧ ∀ entries, place.node ≠ some (.dir entries)

theorem openAppending_eq_ok_iff {fs : FileSystem} {path : String} :
    (∃ opened, fs.openAppending path = .ok opened) ↔ fs.Opens path := by
  rw [openAppending, openWith]
  constructor
  · rintro ⟨opened, h⟩
    split at h
    · cases h
    · next place htarget =>
      refine ⟨place, htarget, fun entries hnode => ?_⟩
      rw [hnode] at h
      cases h
    · cases h
  · rintro ⟨place, htarget, hnode⟩
    rw [htarget]
    dsimp only
    split
    · exact ⟨_, rfl⟩
    · exact ⟨_, rfl⟩
    · next entries hdir => exact absurd hdir (hnode entries)
    · exact ⟨_, rfl⟩

end FileSystem

namespace Log

/-- Log lines can go to the file of that name: it has an absolute name, and this can
be opened. -/
def FileOpens (fs : FileSystem) (path : String) : Prop :=
  ∃ absolute, exec (FileOp.absolute path) fs = (.ok absolute, fs) ∧ fs.Opens absolute

theorem exec_openLogFile (path : String) (fs : FileSystem) :
    exec (openLogFile path) fs =
      match exec (FileOp.absolute path) fs with
      | (.error fault, _) => (.error fault, fs)
      | (.ok absolute, _) =>
        match fs.openAppending absolute with
        | .ok (opened, handle) => (.ok handle, opened)
        | .error r => (.error (FileOp.faultAt absolute r), fs) := by
  rw [openLogFile, exec_bind]
  rcases habsolute : exec (FileOp.absolute path) fs with ⟨fault | absolute, fs'⟩
  all_goals obtain rfl := FileOp.exec_absolute habsolute
  · rfl
  · dsimp only
    rw [exec_bind, exec_get]
    dsimp only
    rcases fs'.openAppending absolute with r | ⟨opened, handle⟩ <;> rfl

theorem openLogFile_of_opens {path : String} {fs : FileSystem} (h : FileOpens fs path) :
    ∃ handle opened, exec (openLogFile path) fs = (.ok handle, opened) := by
  obtain ⟨absolute, habsolute, hopens⟩ := h
  obtain ⟨⟨opened, handle⟩, hopen⟩ := FileSystem.openAppending_eq_ok_iff.mpr hopens
  refine ⟨handle, opened, ?_⟩
  rw [exec_openLogFile, habsolute]
  dsimp only
  rw [hopen]

/-- A file that cannot be opened leaves everything as it is. -/
theorem openLogFile_of_not_opens {path : String} {fs : FileSystem} (h : ¬ FileOpens fs path) :
    ∃ fault, exec (openLogFile path) fs = (.error fault, fs) := by
  rw [exec_openLogFile]
  rcases habsolute : exec (FileOp.absolute path) fs with ⟨fault | absolute, fs'⟩
  · exact ⟨fault, rfl⟩
  · obtain rfl := FileOp.exec_absolute habsolute
    dsimp only
    cases hopen : fs'.openAppending absolute with
    | error r => exact ⟨_, rfl⟩
    | ok opened =>
      exact absurd ⟨absolute, habsolute, FileSystem.openAppending_eq_ok_iff.mp ⟨opened, hopen⟩⟩ h

/-! ### The handler -/

/-- The log once its handler has been installed. -/
def withHandler (log : Log) (handler : Handler) : Log :=
  { log with handler := some handler, rootLevel := .warning }

theorem exec_installHandler_eq (h : Host) :
    exec installHandler h =
      if h.log.handler.isSome then (.ok (), h)
      else
        match h.setting? fileVariable with
        | none => (.ok (), { h with log := withHandler h.log .stderr })
        | some path =>
          match exec (openLogFile path) h.files with
          | (.ok handle, files) => (.ok (), { h with files, log := withHandler h.log (.file handle) })
          | (.error fault, files) => (.error (.file fault), { h with files }) := by
  rw [installHandler, exec_bind, exec_get]
  dsimp only
  split
  · rfl
  · cases h.setting? fileVariable with
    | none => rfl
    | some path =>
      dsimp only
      rw [exec_bind, map_eq_pure_bind, exec_bind, Run.exec_onFiles]
      rcases exec (openLogFile path) h.files with ⟨fault | handle, files⟩ <;> rfl

/-- Log lines have somewhere to go: to the handler that is there, to the standard
error stream, or to the file that the environment names. -/
def HasDestination (h : Host) : Prop :=
  h.log.handler = none → ∀ path, h.setting? fileVariable = some path → FileOpens h.files path

theorem installHandler_of_destination {h : Host} (hd : HasDestination h) :
    ∃ h', exec installHandler h = (.ok (), h') ∧ h'.log.handler ≠ none := by
  rw [exec_installHandler_eq]
  split
  · next hsome => exact ⟨h, rfl, Option.isSome_iff_ne_none.mp hsome⟩
  · next hnone =>
    cases hsetting : h.setting? fileVariable with
    | none => exact ⟨_, rfl, Option.some_ne_none _⟩
    | some path =>
      have hopens := hd (Option.not_isSome_iff_eq_none.mp hnone) path hsetting
      obtain ⟨handle, opened, hopen⟩ := openLogFile_of_opens hopens
      dsimp only
      rw [hopen]
      exact ⟨_, rfl, Option.some_ne_none _⟩

/-- Without a destination nothing is changed. -/
theorem installHandler_of_not_destination {h : Host} (hd : ¬ HasDestination h) :
    ∃ fault, exec installHandler h = (.error (.file fault), h) := by
  rw [exec_installHandler_eq]
  obtain ⟨hnone, hnowhere⟩ := Classical.not_imp.mp hd
  obtain ⟨path, hnowhere⟩ := Classical.not_forall.mp hnowhere
  obtain ⟨hsetting, hopens⟩ := Classical.not_imp.mp hnowhere
  obtain ⟨fault, hopen⟩ := openLogFile_of_not_opens hopens
  rw [hnone, hsetting]
  dsimp only
  rw [hopen]
  exact ⟨fault, rfl⟩

/-! ### Setting up -/

/-- The handler is what it was. -/
def SameHandler (before after : Host) : Prop := after.log.handler = before.log.handler

theorem frame_sameHandler : Frame SameHandler := ⟨fun _ => rfl, fun hab hbc => hbc.trans hab⟩

/-- Logging leaves the handler in its place. -/
theorem sameHandler_note (h : Host) (site : Site) (level : Level) (message : String) :
    SameHandler h (h.note site level message) := by
  refine h.note_cases site level message ?_ (fun _ => ?_) (fun _ _ _ _ => ?_) fun _ => ?_
  all_goals rfl

theorem withLogger_handler (log : Log) (name : String) (level : Option Level) :
    (withLogger log name level).handler = log.handler := by
  rw [withLogger]
  split
  · rfl
  · cases level <;> rfl

/-- What is done for a logger once there is a handler. -/
def setUp (name : String) : Run Unit := do
  let h ← get
  modify fun h => { h with log := withLogger h.log name (requestedLevel h) }
  match h.setting? levelVariable, requestedLevel h with
  | some value, none => Run.note setupSite .error (badLevelMessage value)
  | _, _ => pure ()
  modify fun h =>
    if h.log.effectiveLevel name = .debug then { h with log := { h.log with detailed := true } }
    else h

theorem configure_eq (name : String) : configure name = installHandler >>= fun _ => setUp name := rfl

/-- It keeps what the three things keep that it consists of. -/
theorem keeps_setUp {R : Host → Host → Prop} {E : Failure → Prop} (hR : Frame R) {name : String}
    (hlogger : ∀ h level, R h { h with log := withLogger h.log name level })
    (hnote : ∀ h site level message, R h (h.note site level message))
    (hdetailed : ∀ h, R h { h with log := { h.log with detailed := true } }) :
    Keeps R E (setUp name) := by
  have hlast : Keeps R E (Run.change fun h =>
      if h.log.effectiveLevel name = .debug then { h with log := { h.log with detailed := true } }
      else h) :=
    .modify fun h => by
      split
      · exact hdetailed h
      · exact hR.refl h
  refine (Keeps.get hR).bind hR fun h => ?_
  refine Keeps.bind hR (.modify fun h => hlogger h _) fun _ => ?_
  split
  · exact Keeps.bind hR (.modify fun h => hnote h _ _ _) fun _ => hlast
  · exact hlast

/-- Only the handler can be refused to a logger that is set up. -/
theorem configure_of_destination {h : Host} (hd : HasDestination h) (name : String) :
    ∃ h', exec (configure name) h = (.ok (), h') ∧ h'.log.handler ≠ none := by
  have hkeeps : Keeps SameHandler (fun _ => False) (setUp name) :=
    keeps_setUp frame_sameHandler (fun h level => withLogger_handler h.log name level)
      sameHandler_note fun _ => rfl
  obtain ⟨h₁, hinstall, hhandler⟩ := installHandler_of_destination hd
  obtain ⟨⟨⟩, h', hrun, hsame⟩ := hkeeps.exists_ok h₁
  refine ⟨h', ?_, ?_⟩
  · rw [configure_eq, exec_bind, hinstall]
    exact hrun
  · rw [show h'.log.handler = h₁.log.handler from hsame]
    exact hhandler

/-- The handler that the first logger finds is there for all of them. -/
theorem configureAll_of_destination (names : List String) {h : Host} (hd : HasDestination h) :
    ∃ h', exec (forIn names PUnit.unit fun name _ => do
      configure name
      pure (ForInStep.yield PUnit.unit)) h = (.ok ⟨⟩, h') := by
  induction names generalizing h with
  | nil => exact ⟨h, rfl⟩
  | cons name rest ih =>
    obtain ⟨h₁, hconfigure, hhandler⟩ := configure_of_destination hd name
    obtain ⟨h', hrest⟩ := ih (h := h₁) fun hnone => absurd hnone hhandler
    refine ⟨h', ?_⟩
    rw [List.forIn_cons, exec_bind, exec_bind, hconfigure]
    exact hrest

end Log

/-! ### The program -/

/-- **The status of the program.**  It is zero exactly if log lines have somewhere to
go; if they have not, the failure gets out and everything is as it was. -/
theorem Command.program_ok_iff (args : List String) (h : Host) :
    ((exec (Command.program args) h).1 = .ok 0 ↔ Log.HasDestination h) ∧
      (Log.HasDestination h ∨
        ∃ fault, exec (Command.program args) h = (.error (.file fault), h)) := by
  by_cases hd : Log.HasDestination h
  · obtain ⟨h', hsetup⟩ := Log.configureAll_of_destination Command.loggers hd
    refine ⟨⟨fun _ => hd, fun _ => ?_⟩, .inl hd⟩
    rw [Command.program, exec_bind, hsetup]
    exact Command.compile_result args h'
  · obtain ⟨fault, hinstall⟩ := Log.installHandler_of_not_destination hd
    have hprogram : exec (Command.program args) h = (.error (.file fault), h) := by
      rw [Command.program, Command.loggers, List.forIn_cons, exec_bind, exec_bind, exec_bind,
        Log.configure, exec_bind, hinstall]
    refine ⟨⟨fun hok => ?_, fun hd' => absurd hd' hd⟩, .inr ⟨fault, hprogram⟩⟩
    rw [hprogram] at hok
    cases hok

/-- A host whose environment names a file for log lines in a directory that is not
there. -/
def unloggedHost : Host where
  files := ⟨.dir [("bin", .dir [
      ("javac", .file { bytes := [], executable := true, program := some "javac" })]),
    ("tmp", .dir [])], some [], []⟩
  environment := [(Log.fileVariable, "logs/out.txt")]
  programs _ _ := .exit 0
  scratchDir := "/tmp"

/-- The program does not always end with status zero. -/
theorem program_unloggedHost : (exec (Command.program ["A.java"]) unloggedHost).1 ≠ .ok 0 := by
  have hfails : (exec (Command.program ["A.java"]) unloggedHost).1.isOk = false := by decide +kernel
  intro hok
  rw [hok] at hfails
  cases hfails

end MonitoredCompile

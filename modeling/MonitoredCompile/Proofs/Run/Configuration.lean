/-
MonitoredCompile/Proofs/Run/Configuration.lean

Which tools a run works with, and when it has none.  Only one thing can be wrong with the
environment: it names a directory for the tools that is not there
(`ofEnvironment_result`).  Lines about this may go to a log file, and a log file may be
anywhere; but longer files do not make a path lead elsewhere (`pathExists_note`).
-/
import MonitoredCompile.Inspection
import MonitoredCompile.Proofs.FileSystem.Overwrite
import MonitoredCompile.Proofs.Run.Background

namespace MonitoredCompile

open Attempt (exec exec_bind exec_get exec_pure)

/-! ### Lines in a log file -/

theorem FileSystem.SameShape.refl (root : Node) : SameShape root root := by
  intro m
  cases root.entryAt m with
  | none => exact .none
  | some e => exact .some (.refl e)

/-- Trees of the same shape have something at the same paths. -/
theorem FileSystem.SameShape.pathExists_eq {fs fs' : FileSystem}
    (h : SameShape fs.root fs'.root) (hcwd : fs'.cwd = fs.cwd) (path : String) :
    fs'.pathExists path = fs.pathExists path := by
  rw [pathExists, pathExists, h.find_eq hcwd]
  cases hfind : fs.find path with
  | error r => rfl
  | ok found =>
    obtain ⟨m, node⟩ := found
    obtain ⟨node', hnode', -⟩ := h.get?_eq_some (find_eq_ok_iff.mp hfind).2
    dsimp only
    rw [show fs'.get? m = some node' from hnode']

/-- A line in the log file changes no shape. -/
theorem Host.sameShape_note (h : Host) (site : Log.Site) (level : Log.Level) (message : String) :
    FileSystem.SameShape h.files.root (h.note site level message).files.root ∧
      (h.note site level message).files.cwd = h.files.cwd := by
  refine h.note_cases site level message
    (P := fun after => FileSystem.SameShape h.files.root after.files.root ∧
      after.files.cwd = h.files.cwd) ?_ (fun _ => ?_) (fun handle bytes _ _ => ?_) fun _ => ?_
  · exact ⟨.refl _, rfl⟩
  · exact ⟨.refl _, rfl⟩
  · exact h.files.appendOpen_cases
      (P := fun files => FileSystem.SameShape h.files.root files.root ∧ files.cwd = h.files.cwd)
      handle bytes ⟨.refl _, rfl⟩
      fun _ _ _ hfile => ⟨FileSystem.sameShape_overwrite hfile _, rfl⟩
  · exact ⟨.refl _, rfl⟩

theorem Host.pathExists_note (h : Host) (site : Log.Site) (level : Log.Level) (message path : String) :
    (h.note site level message).files.pathExists path = h.files.pathExists path := by
  obtain ⟨hshape, hcwd⟩ := h.sameShape_note site level message
  exact hshape.pathExists_eq hcwd path

/-! ### The tools of an environment -/

namespace Toolchain

open Inspection (toolDir)

/-- The tools that the environment names. -/
def named (h : Host) : Toolchain where
  dir := toolDir h
  compilerName := (h.setting? compilerVariable).getD defaultCompiler
  instrumentorName := (h.setting? instrumentorVariable).getD defaultInstrumentor

/-- The directory that the environment names for the tools, if it names one, is there. -/
def Configured (h : Host) : Prop := toolDir h ≠ "" → h.files.pathExists (toolDir h) = true

instance (h : Host) : Decidable (Configured h) := inferInstanceAs (Decidable (_ → _))

/-- A setting that is empty counts as none. -/
theorem nonEmpty_getEnv? (h : Host) (name : String) :
    nonEmpty (h.getEnv? name) = h.setting? name := rfl

theorem setting_ne_empty {h : Host} {name value : String} (hset : h.setting? name = some value) :
    value ≠ "" := by
  have := (Option.filter_eq_some_iff.mp hset).2
  simpa using this

theorem withSlash_ne_empty {path : String} (h : path ≠ "") : Path.withSlash path ≠ "" := by
  rw [Path.withSlash]
  split
  · exact h
  · intro hempty
    simpa using congrArg String.toList hempty

/-- The configuration is what the environment names, or fails for the directory. -/
theorem ofEnvironment_result (h : Host) :
    (exec ofEnvironment h).1 =
      if Configured h then .ok (named h) else .error (.missingToolDir (toolDir h)) := by
  rw [ofEnvironment, exec_bind, exec_get]
  dsimp only
  cases hdir : h.setting? dirVariable with
  | none =>
    have hempty : toolDir h = "" := by rw [toolDir, hdir]
    have hconf : Configured h := fun hne => absurd hempty hne
    rw [if_pos hconf, configure, nonEmpty_getEnv?, hdir, named, hempty]
    rfl
  | some d =>
    have hd : toolDir h = Path.withSlash d := by rw [toolDir, hdir]
    have hne : toolDir h ≠ "" := hd ▸ withSlash_ne_empty (setting_ne_empty hdir)
    dsimp only
    rw [exec_bind, Run.exec_note, configure, nonEmpty_getEnv?, hdir]
    dsimp only
    rw [exec_bind, exec_get]
    dsimp only
    rw [Host.pathExists_note, ← hd]
    by_cases hthere : h.files.pathExists (toolDir h) = true
    · have hconf : Configured h := fun _ => hthere
      rw [if_pos hthere, if_pos hconf, exec_pure, named]
      rfl
    · have hconf : ¬ Configured h := fun hconf => hthere (hconf hne)
      rw [if_neg hthere, if_neg hconf, exec_bind, Run.exec_note]
      rfl

end Toolchain

end MonitoredCompile

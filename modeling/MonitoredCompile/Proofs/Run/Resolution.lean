/-
MonitoredCompile/Proofs/Run/Resolution.lean

The output directory that the arguments declare.  It is made with its parents where it is
missing, and all that changes are directories on the way to it.  Once it is resolved the
compiler can write there, and to resolve it again does nothing, unless it is declared with
a dot at its end and that dot is passed over (`resolveOutputDir_resolves`).
-/
import Mathlib.Control.Monad.Basic
import MonitoredCompile.Proofs.FileSystem.Ensuring
import MonitoredCompile.Proofs.Run.Background

namespace MonitoredCompile.Pipeline

open Attempt (exec exec_bind)

variable {dir outputDir : String} {h after : Host}

theorem exec_resolveOutputDir_declared (dir : String) (h : Host) :
    exec (resolveOutputDir (some dir)) h =
      match exec (FileOp.ensureDirs dir) h.files with
      | (.ok (), files) => (.ok dir, { h with files })
      | (.error fault, files) => (.error (.file fault), { h with files }) := by
  rw [resolveOutputDir, exec_bind, Run.exec_onFiles]
  rcases exec (FileOp.ensureDirs dir) h.files with ⟨fault | ⟨⟩, files⟩ <;> rfl

theorem resolveOutputDir_declared
    (hok : exec (resolveOutputDir (some dir)) h = (.ok outputDir, after)) :
    outputDir = dir ∧ exec (FileOp.ensureDirs dir) h.files = (.ok (), after.files) := by
  rw [exec_resolveOutputDir_declared] at hok
  rcases hensure : exec (FileOp.ensureDirs dir) h.files with ⟨fault | ⟨⟩, files⟩
  · rw [hensure] at hok
    cases hok
  · rw [hensure] at hok
    cases hok
    exact ⟨rfl, rfl⟩

/-- Whether the directory can be made or not, only directories on the way to it are made. -/
theorem paves_resolveOutputDir {result : Except Failure String}
    (hrun : exec (resolveOutputDir (some dir)) h = (result, after)) :
    after = { h with files := after.files } ∧ FileSystem.Paves dir h.files after.files := by
  rw [exec_resolveOutputDir_declared] at hrun
  rcases hensure : exec (FileOp.ensureDirs dir) h.files with ⟨fault | ⟨⟩, files⟩
  all_goals
    rw [hensure] at hrun
    cases hrun
    exact ⟨rfl, (FileOp.paves_ensureDirs dir).state hensure⟩

/-- **When a declared output directory is there.**  Resolving it makes directories on the way
to it and does nothing else, whether it fails or not.  If it does not fail, it gives what was
declared.  The path then leads to a directory, and to resolve it once more changes nothing,
unless the path is passed over.  Such a path leads to no directory.  It ends in a dot, its
parent did not exist before, and a leading part of it is the name of something that is
no directory, if it is not just too long. -/
theorem resolveOutputDir_resolves {result : Except Failure String}
    (hrun : exec (resolveOutputDir (some dir)) h = (result, after)) :
    after = { h with files := after.files } ∧ FileSystem.Paves dir h.files after.files ∧
      ∀ outputDir, result = .ok outputDir → outputDir = dir ∧
        (¬ after.files.PassedOver dir → (∃ l, after.files.DirAt outputDir l) ∧
          exec (resolveOutputDir (some dir)) after = (.ok outputDir, after)) ∧
        (after.files.PassedOver dir → (∀ l, ¬ after.files.DirAt outputDir l) ∧
          h.files.pathExists (Path.splitParent dir).1 = false ∧ after.files.Blocked dir) := by
  obtain ⟨hsame, hpaves⟩ := paves_resolveOutputDir hrun
  refine ⟨hsame, hpaves, ?_⟩
  rintro outputDir rfl
  obtain ⟨rfl, hensure⟩ := resolveOutputDir_declared hrun
  refine ⟨rfl, fun hnot => ?_, fun hover => ?_⟩
  · obtain ⟨l, hdir⟩ := (FileOp.dirAt_iff_of_ensureDirs hensure).mpr hnot
    refine ⟨⟨l, hdir⟩, ?_⟩
    rw [exec_resolveOutputDir_declared, FileOp.exec_ensureDirs_of_dirAt hdir]
  · exact ⟨fun l => hover.not_dirAt, FileOp.blocked_of_passedOver hensure hover⟩

/-- A host with a link in the current directory that leads nowhere. -/
def danglingHost : Host where
  files := ⟨.dir [("work", .dir [("out", .link "gone")])], some ["work"], []⟩
  programs _ _ := .exit 0
  scratchDir := "/tmp"

/-- Where nothing is in the way, a dot at the end does no harm. -/
theorem resolves_danglingHost :
    ∃ after, exec (resolveOutputDir (some "lib/gen/.")) danglingHost = (.ok "lib/gen/.", after) ∧
      after = { danglingHost with files := after.files } ∧
      FileSystem.Paves "lib/gen/." danglingHost.files after.files ∧
      ¬ after.files.PassedOver "lib/gen/." ∧ (∃ l, after.files.DirAt "lib/gen/." l) ∧
      exec (resolveOutputDir (some "lib/gen/.")) after = (.ok "lib/gen/.", after) := by
  have hmade : (exec (FileOp.ensureDirs "lib/gen/.") danglingHost.files).1 = .ok () ∧
      (exec (FileOp.ensureDirs "lib/gen/.") danglingHost.files).2.isDir "lib/gen/." = true := by
    decide +kernel
  rcases hensure : exec (FileOp.ensureDirs "lib/gen/.") danglingHost.files with ⟨result, files⟩
  rw [hensure] at hmade
  obtain ⟨rfl, hdir⟩ := hmade
  have hrun := exec_resolveOutputDir_declared "lib/gen/." danglingHost
  rw [hensure] at hrun
  obtain ⟨l, hl⟩ := FileSystem.isDir_iff.mp hdir
  have hnot : ¬ files.PassedOver "lib/gen/." := fun hover => hover.not_dirAt hl
  obtain ⟨hsame, hpaves, hresolved⟩ := resolveOutputDir_resolves hrun
  obtain ⟨-, hthere, -⟩ := hresolved _ rfl
  exact ⟨_, hrun, hsame, hpaves, hnot, hthere hnot⟩

/-- Under the name of the link no directory can be made, but with a dot after it the path is
resolved, and leads nowhere. -/
theorem passedOver_danglingHost :
    exec (resolveOutputDir (some "out/.")) danglingHost = (.ok "out/.", danglingHost) ∧
      ∀ l, ¬ danglingHost.files.DirAt "out/." l := by
  have hensure : exec (FileOp.ensureDirs "out/.") danglingHost.files
      = (.ok (), danglingHost.files) := by
    decide +kernel
  have hdir : ¬ danglingHost.files.isDir "out/." = true := by decide +kernel
  refine ⟨?_, fun l hl => hdir (FileSystem.isDir_iff.mpr ⟨l, hl⟩)⟩
  rw [exec_resolveOutputDir_declared, hensure]

end MonitoredCompile.Pipeline

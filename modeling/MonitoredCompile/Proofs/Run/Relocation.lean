/-
MonitoredCompile/Proofs/Run/Relocation.lean

What moving the classes aside does to the file system.  If the step succeeds, the staging
directory was an empty directory before, and nothing but one entry has changed its place: the
one that the output directory's path names stands in the place of the staging directory now,
with all that is below it (`relocation_of_stage`).  This holds however the two paths are
written, and it is always the renaming that succeeds.  The copy that a move falls back on is
made only where it fails in the end, unless the staging directory is inside the directory
that the output directory's path leads to (`Plan.Outside`).

The entry is a directory or a link in most runs, but nobody looks: a file in the place of the
output directory is moved just so (`relocation_of_file`).  And the user may write everything.
Where an empty directory must not be written to, a renaming could be refused and the copy
succeed.
-/
import MonitoredCompile.Proofs.FileSystem.Renaming
import MonitoredCompile.Proofs.Run.Staging

namespace MonitoredCompile

open Attempt (exec exec_bind)

namespace Pipeline

/-- The staging directory is not inside the directory that the output directory's path leads
to, if it leads to one. -/
def Plan.Outside (plan : Plan) (fs : FileSystem) : Prop :=
  ∀ top entries d node, fs.find plan.outputDir = .ok (top, .dir entries) →
    fs.find plan.stagingDir false = .ok (d, node) → top <+: d → top = d

/-- The classes are moved aside by removing the staging directory and by a renaming. -/
theorem rename_of_moveAside {plan : Plan} {fs files : FileSystem} (hfs : fs.WellFormed)
    (hout : plan.Outside fs) (hmove : exec (moveAside plan) fs = (.ok (), files)) :
    ∃ freed, fs.removeDir plan.stagingDir = .ok freed ∧
      freed.rename plan.outputDir plan.stagingDir = .ok files := by
  rw [moveAside, exec_bind, FileOp.exec_call] at hmove
  cases hremove : fs.removeDir plan.stagingDir with
  | error r =>
    rw [hremove] at hmove
    cases hmove
  | ok freed =>
    rw [hremove] at hmove
    exact ⟨freed, rfl, FileOp.rename_of_move hfs hremove hout hmove⟩

/-- Once the classes are moved aside, only a line is logged. -/
theorem stage_of_moveAside {s : State} {plan : Plan} {last : Launch.Outcome} {h : Host}
    {files : FileSystem} (hs : s.progress = .compiled plan last)
    (hmove : exec (moveAside plan) h.files = (.ok (), files)) :
    exec (stage s) h = (.ok { s with progress := .staged plan last },
      { h with files }.note (site "stageOutput") .debug
        ("staged " ++ plan.outputDir ++ " as " ++ plan.stagingDir)) := by
  rw [exec_stage hs, hmove]

/-- **The classes are moved aside.**  If this succeeds, the staging directory was an empty
directory, the entry that the output directory's path names has taken its place, and all else
is as it was, but for the line that is logged.  The entry is whatever is found there, with all
that is below it. -/
theorem relocation_of_stage {s s' : State} {plan : Plan} {last : Launch.Outcome} {h h' : Host}
    (hfiles : h.files.WellFormed) (hs : s.progress = .compiled plan last)
    (hout : plan.Outside h.files) (hstage : exec (stage s) h = (.ok s', h')) :
    ∃ l d node slash slash' freed files,
      h.files.target plan.stagingDir = .ok (.name ⟨d, some (.dir [])⟩ slash) ∧
      h.files.target plan.outputDir = .ok (.name ⟨l, some node⟩ slash') ∧
      FileSystem.Relocation l d node h.files files ∧
      h.files.removeDir plan.stagingDir = .ok freed ∧
      freed.rename plan.outputDir plan.stagingDir = .ok files ∧
      s' = { s with progress := .staged plan last } ∧
      h' = { h with files }.note (site "stageOutput") .debug
        ("staged " ++ plan.outputDir ++ " as " ++ plan.stagingDir) ∧
      ((∀ handle, h.log.handler ≠ some (.file handle)) → h'.files = files) := by
  rw [exec_stage hs] at hstage
  rcases hmove : exec (moveAside plan) h.files with ⟨fault | ⟨⟩, files⟩
  · rw [hmove] at hstage
    cases hstage
  · rw [hmove] at hstage
    obtain ⟨freed, hremove, hrename⟩ := rename_of_moveAside hfiles hout hmove
    obtain ⟨l, d, node, slash, slash', hplace, hsource, hrelocation⟩ :=
      FileSystem.relocation_of_rename hremove hrename
    obtain ⟨hstate, hhost⟩ := Prod.mk.inj hstage
    refine ⟨l, d, node, slash, slash', freed, files, hplace, hsource, hrelocation, hremove, hrename,
      (Except.ok.inj hstate).symm, hhost.symm, fun hlog => ?_⟩
    exact (congrArg Host.files hhost).symm.trans (Host.note_files { h with files } hlog _ _ _)

/-- The plan of `dottedHost` with the directory under its own name. -/
def namedPlan : Plan := { dottedPlan with outputDir := "../work" }

theorem relocation_dottedHost :
    dottedHost.files.WellFormed ∧ namedPlan.Outside dottedHost.files ∧
      ∃ s' h' files,
        exec (stage { dottedState with progress := .compiled namedPlan ⟨0, none, []⟩ }) dottedHost
          = (.ok s', h') ∧
        FileSystem.Relocation ["work"] ["tmp", "in"]
          (.dir [("A.class", .file { bytes := [0xCA, 0xFE] })]) dottedHost.files files ∧
        h'.files = files := by
  have hplaces : dottedHost.files.find namedPlan.outputDir
        = .ok (["work"], .dir [("A.class", .file { bytes := [0xCA, 0xFE] })]) ∧
      dottedHost.files.find namedPlan.stagingDir false = .ok (["tmp", "in"], .dir []) ∧
      dottedHost.files.target namedPlan.outputDir = .ok (.name ⟨["work"],
        some (.dir [("A.class", .file { bytes := [0xCA, 0xFE] })])⟩ false) ∧
      dottedHost.files.target namedPlan.stagingDir
        = .ok (.name ⟨["tmp", "in"], some (.dir [])⟩ false) ∧
      (exec (moveAside namedPlan) dottedHost.files).1 = .ok () := by
    decide +kernel
  obtain ⟨hfind, hfind', htarget, htarget', hends⟩ := hplaces
  have hout : namedPlan.Outside dottedHost.files := by
    intro top entries d node htop hd hbelow
    cases hfind.symm.trans htop
    cases hfind'.symm.trans hd
    exact absurd hbelow (by decide)
  rcases hmove : exec (moveAside namedPlan) dottedHost.files with ⟨r, files⟩
  rw [hmove] at hends
  subst hends
  have hstage := stage_of_moveAside
    (s := { dottedState with progress := .compiled namedPlan ⟨0, none, []⟩ }) rfl hmove
  obtain ⟨l, d, node, slash, slash', freed, files', hplace, hsource, hrelocation, -, -, -, -, hfiles⟩ :=
    relocation_of_stage dottedHost_wellFormed rfl hout hstage
  cases htarget.symm.trans hsource
  cases htarget'.symm.trans hplace
  exact ⟨dottedHost_wellFormed, hout, _, _, files', hstage, hrelocation, hfiles nofun⟩

/-- The plan of `dottedHost` with the file in the place of the output directory. -/
def filePlan : Plan := { dottedPlan with outputDir := "A.class" }

/-- What is moved may be a file, neither a directory nor a link. -/
theorem relocation_of_file :
    dottedHost.files.WellFormed ∧ filePlan.Outside dottedHost.files ∧
      dottedHost.files.find filePlan.outputDir false
        = .ok (["work", "A.class"], .file { bytes := [0xCA, 0xFE] }) ∧
      ∃ s' h',
        exec (stage { dottedState with progress := .compiled filePlan ⟨0, none, []⟩ }) dottedHost
          = (.ok s', h') ∧
        h'.files.find filePlan.stagingDir false
          = .ok (["tmp", "in"], .file { bytes := [0xCA, 0xFE] }) := by
  have hfind : dottedHost.files.find filePlan.outputDir
      = .ok (["work", "A.class"], .file { bytes := [0xCA, 0xFE] }) := by
    decide +kernel
  have hout : filePlan.Outside dottedHost.files := by
    intro top entries d node htop _ _
    -- The path leads to no directory at all.
    cases hfind.symm.trans htop
  refine ⟨dottedHost_wellFormed, hout, by decide +kernel, ?_⟩
  have hends : (exec (moveAside filePlan) dottedHost.files).1 = .ok () ∧
      (exec (moveAside filePlan) dottedHost.files).2.find filePlan.stagingDir false
        = .ok (["tmp", "in"], .file { bytes := [0xCA, 0xFE] }) := by
    decide +kernel
  rcases hmove : exec (moveAside filePlan) dottedHost.files with ⟨r, files⟩
  rw [hmove] at hends
  obtain ⟨rfl, hmoved⟩ := hends
  have hstage := stage_of_moveAside
    (s := { dottedState with progress := .compiled filePlan ⟨0, none, []⟩ }) rfl hmove
  have hlog (handle : Nat) : dottedHost.log.handler ≠ some (.file handle) := nofun
  refine ⟨_, _, hstage, ?_⟩
  rw [Host.note_files { dottedHost with files } hlog]
  exact hmoved

end Pipeline

end MonitoredCompile

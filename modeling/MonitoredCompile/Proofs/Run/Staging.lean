/-
MonitoredCompile/Proofs/Run/Staging.lean

What is left when the classes cannot be moved aside.  A run that ends there should
have lost nothing but the empty placeholder, and that is so exactly if it was not
`Emptied` (`survives_iff_of_staging_failure`): if the output directory has a name
under which it can be renamed or removed, or if it was not copied as a whole.  A
directory that is spelled `.` is emptied, since it is copied and then cannot be
removed (`lost_dottedHost`).
-/
import Mathlib.Control.Monad.Basic
import MonitoredCompile.Proofs.FileSystem.Move
import MonitoredCompile.Proofs.Run.Steps

namespace MonitoredCompile.Pipeline

open Attempt (exec exec_bind)

/-! ### What a failure should leave -/

/-- All that was there still is, with the same contents, but for an empty directory
under the path of the placeholder. -/
def Survives (placeholder : String) (before after : FileSystem) : Prop :=
  ∀ l e, before.entryAt l = some e → before.find placeholder false ≠ .ok (l, .dir []) →
    after.entryAt l = some e

/-- The placeholder was removed, and the output directory, which was not empty, was
copied to its place. -/
def Emptied (plan : Plan) (before : FileSystem) : Prop :=
  ∃ freed copied entries, before.removeDir plan.stagingDir = .ok freed ∧
    FileOp.CopiedAside plan.outputDir plan.stagingDir entries freed copied ∧ entries ≠ []

/-! ### The placeholder -/

section

variable {fs freed after : FileSystem} {path : String}

/-- What the placeholder's removal has left survives if and only if all survives. -/
theorem survives_iff_extends (hremove : fs.removeDir path = .ok freed) :
    Survives path fs after ↔ FileSystem.Extends freed after := by
  obtain ⟨d, rfl, hfind, hfree, -⟩ := FileSystem.free_of_removeDir hremove
  constructor
  · intro hsurvives l e he
    refine hsurvives l e (FileSystem.entryAt_of_remove he) fun hl => ?_
    rw [hfind] at hl
    cases hl
    rw [hfree.entry] at he
    cases he
  -- Only the empty placeholder itself is missing after its removal.
  · intro hext l e he hl
    refine hext l e (FileSystem.entryAt_remove_emptyDir (FileSystem.find_eq_ok_iff.mp hfind).2 he ?_)
    rintro rfl
    exact hl hfind

end

/-! ### The step -/

/-- A move aside that fails keeps everything, unless it has emptied the output
directory. -/
theorem survives_iff_of_moveAside_eq_error {plan : Plan} {fs after : FileSystem} {fault : FileFault}
    (hfs : fs.WellFormed) (h : exec (moveAside plan) fs = (.error fault, after)) :
    Survives plan.stagingDir fs after ↔ ¬ Emptied plan fs := by
  rw [moveAside, exec_bind, FileOp.exec_call] at h
  cases hremove : fs.removeDir plan.stagingDir with
  | error r =>
    rw [hremove] at h
    cases h
    refine ⟨fun _ ⟨freed, _, _, hfreed, _⟩ => ?_, fun _ _ _ he _ => he⟩
    rw [hremove] at hfreed
    cases hfreed
  | ok freed =>
    rw [hremove] at h
    dsimp only at h
    obtain ⟨d, -, -, hfree, hname⟩ := FileSystem.free_of_removeDir hremove
    rw [survives_iff_extends hremove,
      FileOp.extends_iff_of_move_eq_error (hfs.removeDir hremove) hfree hname h]
    refine not_congr ⟨?_, ?_⟩
    · rintro ⟨copied, entries, hcopied, hentries⟩
      exact ⟨freed, copied, entries, hremove, hcopied, hentries⟩
    · rintro ⟨freed', copied, entries, hfreed, hcopied, hentries⟩
      rw [hremove] at hfreed
      cases hfreed
      exact ⟨copied, entries, hcopied, hentries⟩

/-- **A failure to move the classes aside.**  It has lost nothing if and only if the
output directory was not emptied. -/
theorem survives_iff_of_staging_failure {s : State} {plan : Plan} {last : Launch.Outcome}
    {h h' : Host} {src dst : String} {cause : FileFault} (hfiles : h.files.WellFormed)
    (hs : s.progress = .compiled plan last)
    (hstage : exec (stage s) h = (.error (.staging src dst cause), h')) :
    Survives plan.stagingDir h.files h'.files ↔ ¬ Emptied plan h.files := by
  rw [exec_stage hs] at hstage
  rcases hmove : exec (moveAside plan) h.files with ⟨fault | ⟨⟩, files⟩
  · rw [hmove] at hstage
    obtain rfl := (Prod.mk.inj hstage).2
    exact survives_iff_of_moveAside_eq_error hfiles hmove
  · rw [hmove] at hstage
    cases hstage

/-- A host with one class in the current directory, and the state of a run that has
compiled to it. -/
def dottedHost : Host where
  files := ⟨.dir [("work", .dir [("A.class", .file { bytes := [0xCA, 0xFE] })]),
    ("tmp", .dir [("in", .dir [])])], some ["work"], []⟩
  programs _ _ := .exit 0
  scratchDir := "/tmp"

def dottedPlan : Plan := ⟨Arguments.classify ["-d", "."], ".", "/tmp/in", "/tmp/err"⟩

def dottedState : State :=
  ⟨⟨"", "javac", "toplc"⟩, ["-d", "."], .compiled dottedPlan ⟨0, none, []⟩⟩

theorem dottedHost_wellFormed : dottedHost.files.WellFormed := by
  have hname {name : String} (h : name ∈ ["work", "tmp", "in", "A.class"]) : IsName name := by
    simp only [List.mem_cons, List.not_mem_nil, or_false] at h
    rcases h with rfl | rfl | rfl | rfl <;> exact ⟨by decide, by decide, by decide, by decide⟩
  refine .dir (by decide) (by simp [hname]) fun e he => ?_
  simp only [List.mem_cons, List.not_mem_nil, or_false] at he
  rcases he with rfl | rfl
  · exact .dir (by simp) (by simp [hname]) (by simp [Node.WellFormed.file])
  · exact .dir (by simp) (by simp [hname]) (by simp [Node.WellFormed.emptyDir])

/-- The class is copied, and then it is gone from the directory. -/
theorem exec_moveAside_dotted :
    ∃ files, exec (moveAside dottedPlan) dottedHost.files = (.error (.refused .invalid "."), files) ∧
      files.entryAt ["work", "A.class"] = none := by
  have hresult : (exec (moveAside dottedPlan) dottedHost.files).1 = .error (.refused .invalid ".") := by
    decide +kernel
  have hlost : (exec (moveAside dottedPlan) dottedHost.files).2.entryAt ["work", "A.class"] = none := by
    decide +kernel
  generalize exec (moveAside dottedPlan) dottedHost.files = outcome at hresult hlost ⊢
  obtain ⟨result, files⟩ := outcome
  exact ⟨files, congrArg (·, files) hresult, hlost⟩

theorem exec_stage_dotted :
    ∃ h' : Host, exec (stage dottedState) dottedHost
        = (.error (.staging "." "/tmp/in" (.refused .invalid ".")), h') ∧
      h'.files.entryAt ["work", "A.class"] = none := by
  obtain ⟨files, hmove, hlost⟩ := exec_moveAside_dotted
  have hstage := exec_stage (show dottedState.progress = .compiled dottedPlan ⟨0, none, []⟩ from rfl)
    dottedHost
  rw [hmove] at hstage
  exact ⟨_, hstage, hlost⟩

theorem not_survives_dotted {after : FileSystem}
    (hlost : after.entryAt ["work", "A.class"] = none) :
    ¬ Survives dottedPlan.stagingDir dottedHost.files after := by
  intro hsurvives
  have hclass : dottedHost.files.entryAt ["work", "A.class"]
      = some (.file { bytes := [0xCA, 0xFE] }) := by
    decide +kernel
  rw [hsurvives _ _ hclass fun hfind => ?_] at hlost
  · cases hlost
  · rw [FileSystem.entryAt_of_get? (FileSystem.find_eq_ok_iff.mp hfind).2] at hclass
    cases hclass

/-- A failure to move the classes aside can lose them. -/
theorem lost_dottedHost :
    ∃ h' : Host, exec (stage dottedState) dottedHost
        = (.error (.staging "." "/tmp/in" (.refused .invalid ".")), h') ∧
      ¬ Survives dottedPlan.stagingDir dottedHost.files h'.files := by
  obtain ⟨h', hstage, hlost⟩ := exec_stage_dotted
  exact ⟨h', hstage, not_survives_dotted hlost⟩

theorem emptied_dottedHost :
    dottedHost.files.WellFormed ∧
      ∃ h' : Host, exec (stage dottedState) dottedHost
          = (.error (.staging "." "/tmp/in" (.refused .invalid ".")), h') ∧
        Emptied dottedPlan dottedHost.files := by
  obtain ⟨h', hstage, hlost⟩ := exec_stage_dotted
  have hiff := survives_iff_of_staging_failure dottedHost_wellFormed
    (show dottedState.progress = .compiled dottedPlan ⟨0, none, []⟩ from rfl) hstage
  refine ⟨dottedHost_wellFormed, h', hstage, ?_⟩
  exact Classical.byContradiction fun hno => not_survives_dotted hlost (hiff.mpr hno)

end MonitoredCompile.Pipeline

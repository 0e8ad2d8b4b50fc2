/-
MonitoredCompile/Proofs/Run/Preservation.lean

Which classes survive when they are moved aside.  Whether the step succeeds or fails, a
file of the output directory's tree should be where it was, or at the same place below the
staging directory.  That is so exactly if the output directory was not `Swallowed`: copied
into itself, because the texts of the two paths lie apart, and then removed with the copy
(`kept_iff_of_stage`).  An output directory that is reached by a link, with a dot after
it, is swallowed if the temporary directory is the one that the link leads to
(`lost_swallowingHost`).
-/
import MonitoredCompile.Proofs.FileSystem.Transit
import MonitoredCompile.Proofs.Run.Reach
import MonitoredCompile.Tool.Script

namespace MonitoredCompile

open Attempt (exec exec_bind)

/-! ### Files and the log -/

namespace Host

/-- What is logged goes to the file at a location. -/
def LogsAt (h : Host) (l : Location) : Prop :=
  ∃ handle, h.log.handler = some (.file handle) ∧
    h.files.opened[handle]?.bind OpenFile.location = some l

/-- A file is there as it was; if what is logged goes to it, more may have come after its
bytes. -/
def Holds (h : Host) (l : Location) (f : File) : Prop :=
  h.files.entryAt l = some (.file f) ∨
    h.LogsAt l ∧ ∃ f', h.files.entryAt l = some (.file f') ∧ f.bytes <+: f'.bytes

variable {h : Host} {l : Location} {f : File}

theorem holds_note (hfile : h.files.entryAt l = some (.file f)) (site : Log.Site) (level : Log.Level)
    (message : String) : (h.note site level message).Holds l f := by
  refine h.note_cases (P := fun after => after.Holds l f) site level message (.inl hfile)
    (fun _ => .inl hfile) (fun handle bytes hhandler _ => ?_) fun _ => .inl hfile
  refine h.files.appendOpen_cases (P := fun files => Holds { h with files } l f) handle bytes
    (.inl hfile) fun m g hopen hget => ?_
  by_cases hm : m <+: l
  · obtain ⟨k, rfl⟩ := hm
    cases k with
    | nil =>
      rw [List.append_nil] at hfile ⊢
      obtain rfl : g = f := by
        rw [FileSystem.entryAt_of_get? hget] at hfile
        cases hfile
        rfl
      exact .inr ⟨⟨handle, hhandler, hopen⟩, _,
        FileSystem.entryAt_of_get? (FileSystem.get?_place hget _), List.prefix_append _ _⟩
    | cons name k => cases (FileSystem.entryAt_below_file hget).symm.trans hfile
  · exact .inl ((FileSystem.entryAt_place hm _).trans hfile)

theorem not_holds_of_none (hnone : h.files.entryAt l = none) : ¬ h.Holds l f := by
  rintro (hfile | ⟨-, f', hfile, -⟩) <;> cases hnone.symm.trans hfile

theorem not_holds_note (hnone : h.files.entryAt l = none) (site : Log.Site) (level : Log.Level)
    (message : String) : ¬ (h.note site level message).Holds l f := by
  refine not_holds_of_none ?_
  refine h.note_cases (P := fun after => after.files.entryAt l = none) site level message hnone
    (fun _ => hnone) (fun handle bytes _ _ => ?_) fun _ => hnone
  refine h.files.appendOpen_cases (P := fun files => files.entryAt l = none) handle bytes hnone
    fun m g _ hget => ?_
  by_cases hm : m <+: l
  · obtain ⟨k, rfl⟩ := hm
    cases k with
    | nil =>
      rw [List.append_nil, FileSystem.entryAt_of_get? hget] at hnone
      cases hnone
    | cons name k => exact FileSystem.entryAt_below_file (FileSystem.get?_place hget _)
  · exact (FileSystem.entryAt_place hm _).trans hnone

end Host

namespace Pipeline

/-! ### Survival -/

/-- The file at `k` in the tree is still there, or it is at the same place below the
staging directory. -/
def Kept (plan : Plan) (before after : Host) (top k : Location) (f : File) : Prop :=
  after.Holds (top ++ k) f ∨
    ∃ d, before.files.find plan.stagingDir false = .ok (d, .dir []) ∧ after.Holds (d ++ k) f

/-- The staging directory was in the output directory, which was copied there. -/
def Swallowed (plan : Plan) (before : FileSystem) (top : Location) : Prop :=
  ∃ d freed copied entries, before.removeDir plan.stagingDir = .ok freed ∧
    before.find plan.stagingDir false = .ok (d, .dir []) ∧ top <+: d ∧
    FileOp.CopiedAside plan.outputDir plan.stagingDir entries freed copied

section

variable {plan : Plan} {fs after : FileSystem} {r : Except FileFault Unit} {top k : Location} {f : File}

theorem kept_of_moveAside (hfs : fs.WellFormed) (htop : fs.DirAt plan.outputDir top)
    (hfile : fs.entryAt (top ++ k) = some (.file f)) (h : exec (moveAside plan) fs = (r, after))
    (hno : ¬ Swallowed plan fs top) :
    after.entryAt (top ++ k) = some (.file f) ∨
      ∃ d, fs.find plan.stagingDir false = .ok (d, .dir []) ∧
        after.entryAt (d ++ k) = some (.file f) := by
  rw [moveAside, exec_bind, FileOp.exec_call] at h
  cases hremove : fs.removeDir plan.stagingDir with
  | error refusal =>
    rw [hremove] at h
    cases h
    exact .inl hfile
  | ok freed =>
    rw [hremove] at h
    dsimp only at h
    have hwf := hfs.removeDir hremove
    obtain ⟨d, rfl, hplace, hfree, hname⟩ := FileSystem.free_of_removeDir hremove
    have hempty := (FileSystem.find_eq_ok_iff.mp hplace).2
    -- The empty directory that was removed is no file.
    have hstill : (fs.remove d).entryAt (top ++ k) = some (.file f) := by
      refine FileSystem.entryAt_remove_emptyDir hempty hfile ?_
      rintro rfl
      rw [FileSystem.entryAt_of_get? hempty] at hfile
      cases hfile
    have hapart : top <+: d → ∀ copy entries,
        ¬ FileOp.CopiedAside plan.outputDir plan.stagingDir entries (fs.remove d) copy :=
      fun hinside copy entries hcopied =>
        hno ⟨d, fs.remove d, copy, entries, hremove, hplace, hinside, hcopied⟩
    rcases FileOp.kept_of_move hwf hplace hname hfree htop hstill h hapart with hold | hnew
    · exact .inl hold
    · exact .inr ⟨d, hplace, hnew⟩

theorem lost_of_moveAside (hfs : fs.WellFormed) (htop : fs.DirAt plan.outputDir top)
    (hfile : fs.entryAt (top ++ k) = some (.file f)) (h : exec (moveAside plan) fs = (r, after))
    (hswallowed : Swallowed plan fs top) :
    after.entryAt (top ++ k) = none ∧
      ∀ d, fs.find plan.stagingDir false = .ok (d, .dir []) → after.entryAt (d ++ k) = none := by
  obtain ⟨d, freed, copied, entries, hremove, hplace, ⟨j, rfl⟩, hcopied⟩ := hswallowed
  rw [moveAside, exec_bind, FileOp.exec_call, hremove] at h
  dsimp only at h
  have hwf := hfs.removeDir hremove
  obtain ⟨d', rfl, hplace', -, hname⟩ := FileSystem.free_of_removeDir hremove
  rw [hplace] at hplace'
  cases hplace'
  rw [FileOp.exec_move_of_copiedAside hcopied] at h
  obtain ⟨name, rest, rfl⟩ := FileOp.below_of_file htop hfile
  refine ⟨FileOp.lost_of_copiedAside hwf hname htop hcopied h, fun d hd => ?_⟩
  rw [hplace] at hd
  cases hd
  -- The staging directory was below the one that is cleared, or it was this.
  rw [List.append_assoc]
  cases j with
  | nil => exact FileOp.lost_of_copiedAside hwf hname htop hcopied h
  | cons n j => exact FileOp.lost_of_copiedAside hwf hname htop hcopied h

end

/-- What is logged after the move decides nothing. -/
theorem kept_iff_of_moveAside {plan : Plan} {h h' : Host} {files : FileSystem}
    {r : Except FileFault Unit} {top k : Location} {f : File} (hfiles : h.files.WellFormed)
    (htop : h.files.DirAt plan.outputDir top) (hfile : h.files.entryAt (top ++ k) = some (.file f))
    (hmove : exec (moveAside plan) h.files = (r, files))
    (hholds : ∀ l, files.entryAt l = some (.file f) → h'.Holds l f)
    (hlost : ∀ l, files.entryAt l = none → ¬ h'.Holds l f) :
    Kept plan h h' top k f ↔ ¬ Swallowed plan h.files top := by
  constructor
  · rintro hkept hswallowed
    obtain ⟨hgone, hgone'⟩ := lost_of_moveAside hfiles htop hfile hmove hswallowed
    rcases hkept with hold | ⟨d, hd, hnew⟩
    · exact hlost _ hgone hold
    · exact hlost _ (hgone' d hd) hnew
  · intro hno
    rcases kept_of_moveAside hfiles htop hfile hmove hno with hold | ⟨d, hd, hnew⟩
    · exact .inl (hholds _ hold)
    · exact .inr ⟨d, hd, hholds _ hnew⟩

/-- **What becomes of the classes when they are moved aside.**  However the step ends, each
file of the output directory's tree is kept if and only if the directory was not
swallowed. -/
theorem kept_iff_of_stage {s : State} {plan : Plan} {last : Launch.Outcome} {h h' : Host}
    {result : Except Failure State} {top : Location} (hfiles : h.files.WellFormed)
    (hs : s.progress = .compiled plan last) (htop : h.files.DirAt plan.outputDir top)
    (hstage : exec (stage s) h = (result, h')) :
    ∀ k f, h.files.entryAt (top ++ k) = some (.file f) →
      (Kept plan h h' top k f ↔ ¬ Swallowed plan h.files top) := by
  intro k f hfile
  rw [exec_stage hs] at hstage
  rcases hmove : exec (moveAside plan) h.files with ⟨fault | ⟨⟩, files⟩
  · rw [hmove] at hstage
    obtain rfl := (Prod.mk.inj hstage).2
    exact kept_iff_of_moveAside hfiles htop hfile hmove (fun _ hholds => .inl hholds)
      fun _ hnone => Host.not_holds_of_none hnone
  · rw [hmove] at hstage
    obtain rfl := (Prod.mk.inj hstage).2
    exact kept_iff_of_moveAside hfiles htop hfile hmove (fun _ hholds => Host.holds_note hholds _ _ _)
      fun _ hnone => Host.not_holds_note hnone _ _ _

/-! ### A directory that is swallowed -/

/-- A host where the output directory is reached by a link to the temporary directory. -/
def swallowingHost : Host where
  files := ⟨.dir [("bin", .dir [
      ("javac", .file { bytes := [], executable := true, program := some "javac" })]),
    ("tmp", .dir []), ("work", .dir [("out", .link "/tmp")])], some ["work"], []⟩
  programs _ args := .ofScript args [.store "{d}/A.class" [0xCA, 0xFE]]
  scratchDir := "/tmp"

def swallowingArgs : List String := ["A.java", "-d", "out/."]

theorem swallowingHost_wellFormed : swallowingHost.files.WellFormed := by
  have hname {name : String} (h : name ∈ ["bin", "tmp", "work", "javac", "out"]) : IsName name := by
    simp only [List.mem_cons, List.not_mem_nil, or_false] at h
    rcases h with rfl | rfl | rfl | rfl | rfl <;> exact ⟨by decide, by decide, by decide, by decide⟩
  refine .dir (by decide) (by simp [hname]) fun e he => ?_
  simp only [List.mem_cons, List.not_mem_nil, or_false] at he
  rcases he with rfl | rfl | rfl
  · exact .dir (by simp) (by simp [hname]) (by simp [Node.WellFormed.file])
  · exact .emptyDir
  · exact .dir (by simp) (by simp [hname]) (by simp [Node.WellFormed.link])

/-- What the run has come to when the compiler has ended. -/
def swallowingEnd : Except Failure State × Host :=
  exec (runPart 2 swallowingArgs) swallowingHost

/-- The compiler has left its class in the temporary directory.  Moving this aside copies
it to the staging directory in there, and then clears it. -/
theorem compiled_swallowingHost :
    ∃ s h plan last, Reached swallowingArgs none swallowingHost s h ∧
      s.progress = .compiled plan last ∧ h.files.DirAt plan.outputDir ["tmp"] ∧
      h.files.entryAt ["tmp", "A.class"] = some (.file { bytes := [0xCA, 0xFE] }) ∧
      ¬ Kept plan h (exec (stage s) h).2 ["tmp"] ["A.class"] { bytes := [0xCA, 0xFE] } := by
  have hcomputed : swallowingEnd.1.toOption.isSome = true ∧
      swallowingEnd.2.files.entryAt ["tmp", "A.class"] = some (.file { bytes := [0xCA, 0xFE] }) ∧
      ∀ s ∈ swallowingEnd.1.toOption, ∀ plan ∈ s.plan?,
        (swallowingEnd.2.files.find plan.outputDir).toOption.map
          (fun found => (found.1, found.2.entry)) = some (["tmp"], .dir) ∧
        (swallowingEnd.2.files.find plan.stagingDir false).toOption.map Prod.fst
          = some ["tmp", "topljavac-in00000002"] ∧
        (exec (stage s) swallowingEnd.2).2.files.entryAt ["tmp", "A.class"] = none ∧
        (exec (stage s) swallowingEnd.2).2.files.entryAt
          ["tmp", "topljavac-in00000002", "A.class"] = none := by
    decide +kernel
  have hend : exec (runPart 2 swallowingArgs) swallowingHost = swallowingEnd := rfl
  generalize swallowingEnd = outcome at hcomputed hend
  obtain ⟨failure | s, h⟩ := outcome
  · cases hcomputed.1
  · obtain ⟨-, hclass, hplaces⟩ := hcomputed
    obtain ⟨hreached, hcount⟩ := reached_runPart (by decide) hend
    obtain ⟨plan, last, hs⟩ := State.progress_of_compiled (stepsBefore_injective hcount)
    obtain ⟨houtput, hstaging, hgone, hgone'⟩ := hplaces s rfl plan (State.plan?_eq hs)
    refine ⟨s, h, plan, last, hreached, hs, ?_, hclass, ?_⟩
    · cases hfind : h.files.find plan.outputDir with
      | error r =>
        rw [hfind] at houtput
        cases houtput
      | ok found =>
        obtain ⟨l, node⟩ := found
        rw [hfind] at houtput
        obtain ⟨rfl, hentry⟩ := Prod.mk.inj (Option.some.inj houtput)
        obtain ⟨entries, rfl⟩ := Node.entry_eq_dir.mp hentry
        exact ⟨entries, hfind⟩
    · rintro (hkept | ⟨d, hfind, hkept⟩)
      · exact Host.not_holds_of_none hgone hkept
      · rw [hfind] at hstaging
        obtain rfl : d = ["tmp", "topljavac-in00000002"] := Option.some.inj hstaging
        exact Host.not_holds_of_none hgone' hkept

/-- Moving the classes aside can lose them, in a state that a run comes to. -/
theorem lost_swallowingHost :
    ∃ s h plan last top k f, Reached swallowingArgs none swallowingHost s h ∧
      s.progress = .compiled plan last ∧ h.files.DirAt plan.outputDir top ∧
      h.files.entryAt (top ++ k) = some (.file f) ∧
      ¬ Kept plan h (exec (stage s) h).2 top k f := by
  obtain ⟨s, h, plan, last, hreached, hs, htop, hclass, hlost⟩ := compiled_swallowingHost
  exact ⟨s, h, plan, last, ["tmp"], ["A.class"], _, hreached, hs, htop, hclass, hlost⟩

/-- The temporary directory was swallowed there. -/
theorem swallowed_swallowingHost :
    ∃ s h plan last result h', h.files.WellFormed ∧ s.progress = .compiled plan last ∧
      h.files.DirAt plan.outputDir ["tmp"] ∧ exec (stage s) h = (result, h') ∧
      h.files.entryAt (["tmp"] ++ ["A.class"]) = some (.file { bytes := [0xCA, 0xFE] }) ∧
      Swallowed plan h.files ["tmp"] := by
  obtain ⟨s, h, plan, last, hreached, hs, htop, hclass, hlost⟩ := compiled_swallowingHost
  rcases hstage : exec (stage s) h with ⟨result, h'⟩
  rw [hstage] at hlost
  have hfiles := hreached.wellFormed swallowingHost_wellFormed
  have hiff := kept_iff_of_stage hfiles hs htop hstage ["A.class"] _ hclass
  refine ⟨s, h, plan, last, result, h', hfiles, hs, htop, hstage, hclass, ?_⟩
  exact Classical.byContradiction fun hno => hlost (hiff.mpr hno)

end Pipeline

end MonitoredCompile

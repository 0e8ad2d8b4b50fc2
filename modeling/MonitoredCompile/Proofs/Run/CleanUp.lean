/-
MonitoredCompile/Proofs/Run/CleanUp.lean

What cleaning up takes away.  It never fails, whatever has become of the files since the run
has begun.  The name of the capture file goes unless it is a directory's, and after it the tree
of the staging directory, if its path leads to a real directory still.  Links are not followed,
everything else stays, and to clean up once more changes nothing (`cleanUp_cleans`).

Never to fail is said of a user who may write everything, and of trees of any depth: the
removal of a tree meets no limit to its recursion here.

A temporary place that lies in the output directory is no exception.  If the path to the
temporary places leads through one of them, then a directory stays that had been there
(`cleanUp_strays`).
-/
import MonitoredCompile.Proofs.FileSystem.Removals
import MonitoredCompile.Proofs.Run.Allocation
import MonitoredCompile.Proofs.Run.Delivery

namespace MonitoredCompile

open Attempt (exec)
open FileSystem (Adds Embeds RealDirAt Swept Trims)

/-- A line that is logged adds to the file of the log and to no other. -/
theorem Host.note_adds {made : Location → Prop} (h : Host) (site : Log.Site) (level : Log.Level)
    (message : String) : Adds (LogAt h level) made h.files (h.note site level message).files := by
  refine h.note_cases (P := fun after => Adds (LogAt h level) made h.files after.files)
    site level message (.refl _) (fun _ => .refl _) (fun handle bytes hhandler henabled => ?_)
    fun _ => .refl _
  exact .appendOpen h.files handle bytes fun l hl => ⟨⟨_, henabled⟩, handle, hhandler, hl⟩

namespace Pipeline

/-! ### Plans -/

/-- The temporary places have names, and nothing is wrong with the text of the first. -/
structure Plan.Tidy (plan : Plan) : Prop where
  capture : Path.EndsInName plan.captureFile
  staging : Path.EndsInName plan.stagingDir
  flawless : FileSystem.flaw? plan.captureFile = none

theorem Planned.tidy {args : List String} {before after : Host} {plan : Plan}
    (h : Planned args before plan after) : plan.Tidy := by
  obtain ⟨⟨⟨c, hc, hcapture⟩, ⟨n, hn, hstaging⟩⟩, ⟨l, hfind⟩, -⟩ := h.places
  refine ⟨?_, ?_, (FileSystem.find_eq_ok_iff.mp hfind).1.1⟩
  · rw [hcapture]
    exact Path.endsInName_join hc
  · rw [hstaging]
    exact Path.endsInName_join hn

/-- A step keeps the plan, or makes one. -/
theorem Precedes.plan {s s' : State} (hstep : Precedes s s') {plan : Plan}
    (hplan : s'.plan? = some plan) :
    s.plan? = some plan ∨ ∃ before after, Planned s.rawArgs before plan after := by
  cases hstep with
  | classified _ hplanned =>
    cases hplan
    exact .inr ⟨_, _, hplanned⟩
  | compiled hs | staged hs | instrumented hs | replayed hs | done hs =>
    cases hplan
    exact .inl (State.plan?_eq hs)

theorem Obtained.tidy {args : List String} {tools : Option Toolchain} {h h' : Host}
    {first s : State} (hs : Obtained first s)
    (hstart : exec (start args tools) h = (.ok first, h')) {plan : Plan}
    (hplan : s.plan? = some plan) : plan.Tidy := by
  induction hs with
  | first =>
    rw [start_eq_ok hstart] at hplan
    cases hplan
  | step step _ hok ih =>
    rcases (step.precedes hok).plan hplan with hkept | ⟨before, after, hplanned⟩
    · exact ih hkept
    · exact hplanned.tidy

/-! ### The temporary places -/

/-- Here is what the path of the capture file names, and it is no directory. -/
def CaptureAt (plan : Plan) (fs : FileSystem) (l : Location) : Prop :=
  ∃ node, fs.find plan.captureFile false = .ok (l, node) ∧ ∀ entries, node ≠ .dir entries

/-- The staging directory is here once the capture file is gone. -/
def StagingAt (plan : Plan) (fs : FileSystem) (l : Location) : Prop :=
  (withoutCapture plan fs).RealDirAt plan.stagingDir l

/-- This is one of the temporary places, or in it. -/
def Temporary (plan : Plan) (fs : FileSystem) (m : Location) : Prop :=
  ∃ l, (CaptureAt plan fs l ∨ StagingAt plan fs l) ∧ l <+: m

/-- What cleaning up does to the files. -/
structure Cleans (log : Location → Prop) (plan : Plan) (fs fs' : FileSystem) : Prop
    extends Trims log (Temporary plan fs) fs fs' where
  capture : ∀ l, CaptureAt plan fs l → fs'.entryAt l = none
  content : ∀ l name k, StagingAt plan fs l → fs'.entryAt (l ++ name :: k) = none
  /-- The staging directory itself stays only if its path needs what it held. -/
  staging : ∀ l, StagingAt plan fs l →
    (fs'.entryAt l = none ↔ ((withoutCapture plan fs).clear l).RealDirAt plan.stagingDir l)

section

variable {log : Location → Prop} {plan : Plan} {fs fs' told : FileSystem} {l m : Location}

namespace CaptureAt

theorem unique (h : CaptureAt plan fs l) (h' : CaptureAt plan fs m) : l = m := by
  obtain ⟨node, hfind, -⟩ := h
  obtain ⟨node', hfind', -⟩ := h'
  cases hfind.symm.trans hfind'
  rfl

theorem entryAt (h : CaptureAt plan fs l) : ∃ e, fs.entryAt l = some e ∧ e ≠ .dir := by
  obtain ⟨node, hfind, hnode⟩ := h
  refine ⟨_, FileSystem.entryAt_of_get? (FileSystem.find_eq_ok_iff.mp hfind).2, fun hdir => ?_⟩
  obtain ⟨entries, rfl⟩ := Node.entry_eq_dir.mp hdir
  exact hnode entries rfl

theorem embeds (h : CaptureAt plan fs l) (hembeds : Embeds fs fs') : CaptureAt plan fs' l := by
  obtain ⟨node, hfind, hnode⟩ := h
  obtain ⟨node', hfind', halike⟩ := hembeds.find hfind
  refine ⟨node', hfind', ?_⟩
  rintro entries rfl
  obtain ⟨entries', rfl⟩ := Node.entry_eq_dir.mp (halike.dir.mpr rfl)
  exact hnode entries' rfl

end CaptureAt

/-- The output directory stays unless it is in the staging directory, and with it stays all
that is in no temporary place. -/
theorem Cleans.output (h : Cleans log plan fs fs') (hdir : fs.DirAt plan.outputDir l)
    (hout : ∀ d, StagingAt plan fs d → ¬ d <+: l) :
    fs'.entryAt l = some .dir ∧ ∀ k e, fs.entryAt (l ++ k) = some e →
      fs'.entryAt (l ++ k) = some e ∨ Temporary plan fs (l ++ k) ∨
        log (l ++ k) ∧ fs'.LongerAt (l ++ k) e := by
  have hthere : fs.entryAt l = some .dir := (FileSystem.dirAt_iff.mp hdir).2
  refine ⟨?_, fun k e hk => (h.old _ e hk).imp_right (.imp_left And.left)⟩
  rcases h.old l _ hthere with hsame | ⟨⟨d, hd | hd, hp⟩, -⟩ | ⟨-, f, more, hfile, -⟩
  · exact hsame
  -- Nothing is below the capture file, nor is it a directory.
  · obtain ⟨e, he, hne⟩ := hd.entryAt
    refine absurd hp (FileSystem.not_prefix_of_dir (fun hdir => hne ?_) hthere)
    exact Option.some.inj (he.symm.trans hdir)
  · exact absurd hp (hout d hd)
  · cases hfile

/-- A line of the log brings neither place back. -/
theorem not_there_of_adds (hadds : Adds log (fun _ => False) fs told)
    (hnone : ¬ CaptureAt plan fs l ∧ ¬ fs.RealDirAt plan.stagingDir l) :
    ¬ CaptureAt plan told l ∧ ¬ told.RealDirAt plan.stagingDir l := by
  have htrims : Trims log (fun _ => False) fs told := .of_adds hadds
  exact hnone.imp (mt (·.embeds htrims.embeds)) (mt htrims.embeds.realDirAt)

end

/-! ### The files -/

section

variable {log : Location → Prop} {plan : Plan} (htidy : plan.Tidy) {fs fs' told : FileSystem}
  {l : Location}
include htidy

theorem removeFile_eq_ok_iff_capture :
    fs.removeFile plan.captureFile = .ok fs' ↔ ∃ l, CaptureAt plan fs l ∧ fs' = fs.remove l := by
  rw [FileSystem.removeFile_eq_ok_iff htidy.capture]
  constructor
  · rintro ⟨l, node, hfind, hnode, rfl⟩
    exact ⟨l, ⟨node, hfind, hnode⟩, rfl⟩
  · rintro ⟨l, ⟨node, hfind, hnode⟩, rfl⟩
    exact ⟨l, node, hfind, hnode, rfl⟩

theorem withoutCapture_of_captureAt (h : CaptureAt plan fs l) :
    withoutCapture plan fs = fs.remove l := by
  rw [withoutCapture, (removeFile_eq_ok_iff_capture htidy).mpr ⟨l, h, rfl⟩]

theorem withoutCapture_of_not_captureAt (h : ∀ l, ¬ CaptureAt plan fs l) :
    withoutCapture plan fs = fs := by
  rw [withoutCapture]
  split
  · next left hremove =>
    obtain ⟨l, hl, -⟩ := (removeFile_eq_ok_iff_capture htidy).mp hremove
    exact absurd hl (h l)
  · rfl

theorem trims_withoutCapture (log : Location → Prop) (fs : FileSystem) :
    Trims log (Temporary plan fs) fs (withoutCapture plan fs) ∧
      ∀ l, CaptureAt plan fs l → (withoutCapture plan fs).entryAt l = none := by
  by_cases hcapture : ∃ l, CaptureAt plan fs l
  · obtain ⟨l, hl⟩ := hcapture
    have hne : l ≠ [] := by
      obtain ⟨node, hfind, -⟩ := hl
      exact FileSystem.location_ne_nil htidy.capture hfind
    rw [withoutCapture_of_captureAt htidy hl]
    refine ⟨(Trims.remove hne).mono fun m hm => ⟨l, .inl hl, hm⟩, fun m hm => ?_⟩
    obtain rfl := hl.unique hm
    exact FileSystem.entryAt_remove_below hne List.prefix_rfl
  · have hnone (l : Location) : ¬ CaptureAt plan fs l := fun hl => hcapture ⟨l, hl⟩
    rw [withoutCapture_of_not_captureAt htidy hnone]
    exact ⟨.refl fs, fun l hl => absurd hl (hnone l)⟩

theorem swept_cleaned (fs : FileSystem) :
    Swept plan.stagingDir (withoutCapture plan fs) (cleaned plan fs) :=
  FileOp.swept_removeTree htidy.staging _

theorem cleans_cleaned (fs : FileSystem) : Cleans log plan fs (cleaned plan fs) := by
  have hswept := swept_cleaned htidy fs
  obtain ⟨hremoved, hgone⟩ := trims_withoutCapture htidy log fs
  have htrims : Trims log (Temporary plan fs) (withoutCapture plan fs) (cleaned plan fs) :=
    (hswept.trims htidy.staging).mono fun m ⟨top, htop, hm⟩ => ⟨top, .inr htop, hm⟩
  refine ⟨hremoved.trans htrims, ?_, ?_, ?_⟩
  · exact fun l hl => htrims.new l (hgone l hl)
  · exact fun l name k hl => hswept.entryAt_below hl
  · exact fun l hl => hswept.entryAt_eq_none_iff htidy.staging hl

/-- A line of the log makes no difference to what is cleaned up. -/
theorem Cleans.of_adds (h : Cleans log plan told fs') (hadds : Adds log (fun _ => False) fs told)
    (hnone : ∀ l, ¬ CaptureAt plan fs l) : Cleans log plan fs fs' := by
  have hthere : Embeds fs told := hadds.embeds
  have htrims : Trims log (Temporary plan fs) fs told := .of_adds hadds
  have hback : Embeds told fs := htrims.embeds
  have hnone' (l : Location) : ¬ CaptureAt plan told l := fun hl => hnone l (hl.embeds hback)
  have hwithout : withoutCapture plan fs = fs := withoutCapture_of_not_captureAt htidy hnone
  have hwithout' : withoutCapture plan told = told := withoutCapture_of_not_captureAt htidy hnone'
  have hstaging (l : Location) : StagingAt plan fs l ↔ StagingAt plan told l := by
    rw [StagingAt, StagingAt, hwithout, hwithout']
    exact ⟨hthere.realDirAt, hback.realDirAt⟩
  have htemporary (m : Location) (hm : Temporary plan told m) : Temporary plan fs m := by
    obtain ⟨l, hl | hl, hp⟩ := hm
    · exact absurd hl (hnone' l)
    · exact ⟨l, .inr ((hstaging l).mpr hl), hp⟩
  refine ⟨htrims.trans (h.toTrims.mono htemporary), fun l hl => absurd hl (hnone l),
    fun l name k hl => h.content l name k ((hstaging l).mp hl), fun l hl => ?_⟩
  have hl' := (hstaging l).mp hl
  rw [h.staging l hl', hwithout, hwithout']
  rw [StagingAt, hwithout] at hl
  rw [StagingAt, hwithout'] at hl'
  obtain ⟨entries, hfind⟩ := hl
  obtain ⟨entries', hfind'⟩ := hl'
  have hget := (FileSystem.find_eq_ok_iff.mp hfind).2
  have hget' := (FileSystem.find_eq_ok_iff.mp hfind').2
  exact ⟨(hback.clear_clear hget' hget).realDirAt, (hthere.clear_clear hget hget').realDirAt⟩

/-- After cleaning up neither place is there. -/
theorem not_there_of_cleaned (fs : FileSystem) (l : Location) :
    ¬ CaptureAt plan (cleaned plan fs) l ∧ ¬ (cleaned plan fs).RealDirAt plan.stagingDir l := by
  have hcleans : Cleans (fun _ => False) plan fs (cleaned plan fs) := cleans_cleaned htidy fs
  refine ⟨fun hl => ?_, (swept_cleaned htidy fs).not_realDirAt htidy.staging⟩
  obtain ⟨e, he, -⟩ := hl.entryAt
  cases (hcleans.capture l (hl.embeds hcleans.embeds)).symm.trans he

/-- Where neither is there nothing is cleaned up. -/
theorem cleaned_eq_self
    (hnone : ∀ l, ¬ CaptureAt plan fs l ∧ ¬ fs.RealDirAt plan.stagingDir l) :
    cleaned plan fs = fs := by
  have hswept := swept_cleaned htidy fs
  rw [withoutCapture_of_not_captureAt htidy fun l => (hnone l).1] at hswept
  exact hswept.eq_self fun l => (hnone l).2

end

/-! ### The step -/

/-- What is logged about a capture file that cannot be removed. -/
def complaint (plan : Plan) (r : Refusal) : String :=
  "Could not remove " ++ plan.captureFile ++ ": " ++ (FileOp.faultAt plan.captureFile r).message

section

variable {s : State} {plan : Plan} {last : Launch.Outcome}

/-- Cleaning up never fails.  If there is no capture file to be removed, then it says so. -/
theorem cleanUp_eq_ok (htidy : plan.Tidy) (hs : s.progress = .replayed plan last) (h : Host) :
    ∃ told, exec (cleanUp s) h
        = (.ok { s with progress := .done plan last }, { told with files := cleaned plan told.files }) ∧
      ((told = h ∧ ∃ l, CaptureAt plan h.files l) ∨ (∀ l, ¬ CaptureAt plan h.files l) ∧
        ∃ r, told = h.note (site "cleanUp") .info (complaint plan r)) := by
  rw [exec_cleanUp hs]
  cases hremove : h.files.removeFile plan.captureFile with
  | ok left =>
    obtain ⟨l, hl, rfl⟩ := (removeFile_eq_ok_iff_capture htidy).mp hremove
    refine ⟨h, ?_, .inl ⟨rfl, l, hl⟩⟩
    rw [cleaned, withoutCapture_of_captureAt htidy hl]
  | error r =>
    have hnone (l : Location) : ¬ CaptureAt plan h.files l := fun hl => by
      cases hremove.symm.trans ((removeFile_eq_ok_iff_capture htidy).mpr ⟨l, hl, rfl⟩)
    have hsystem : (FileOp.faultAt plan.captureFile r).fromSystem = true := by
      cases r with
      | nul => exact absurd hremove (FileSystem.removeFile_ne_nul htidy.capture htidy.flawless)
      | system e => rfl
    refine ⟨h.note (site "cleanUp") .info (complaint plan r), ?_, .inr ⟨hnone, r, rfl⟩⟩
    have htrims : Trims (LogAt h .info) (fun _ => False) h.files
        (h.note (site "cleanUp") .info (complaint plan r)).files := .of_adds (h.note_adds _ _ _)
    have hstill := withoutCapture_of_not_captureAt htidy fun l hl => hnone l (hl.embeds htrims.embeds)
    dsimp only
    rw [if_pos hsystem, cleaned, hstill]
    rfl

/-- What comes of cleaning up in this world. -/
structure CleansUp (s : State) (plan : Plan) (last : Launch.Outcome) (world after : Host) : Prop where
  run : exec (cleanUp s) world = (.ok { s with progress := .done plan last }, after)
  /-- Besides the files nothing has changed, but a line may have been logged. -/
  besides : ∃ told, (told = world ∨ ∃ r, told = world.note (site "cleanUp") .info (complaint plan r)) ∧
    after = { told with files := after.files }
  files : Cleans (LogAt world .info) plan world.files after.files
  output : ∀ l, world.files.DirAt plan.outputDir l →
    (∀ d, StagingAt plan world.files d → ¬ d <+: l) →
    after.files.entryAt l = some .dir ∧ ∀ k e, world.files.entryAt (l ++ k) = some e →
      after.files.entryAt (l ++ k) = some e ∨ Temporary plan world.files (l ++ k) ∨
        LogAt world .info (l ++ k) ∧ after.files.LongerAt (l ++ k) e
  /-- All that is left to do in the world after it is to log the line. -/
  again : ∃ r, exec (cleanUp s) after = (.ok { s with progress := .done plan last },
    after.note (site "cleanUp") .info (complaint plan r))

theorem cleansUp_of_tidy (htidy : plan.Tidy) (hs : s.progress = .replayed plan last) (world : Host) :
    ∃ after, CleansUp s plan last world after := by
  obtain ⟨told, hrun, htold⟩ := cleanUp_eq_ok htidy hs world
  have hcleans : Cleans (LogAt world .info) plan world.files (cleaned plan told.files) := by
    have hcleaned : Cleans (LogAt world .info) plan told.files (cleaned plan told.files) :=
      cleans_cleaned htidy told.files
    rcases htold with ⟨rfl, -⟩ | ⟨hnone, r, rfl⟩
    · exact hcleaned
    · exact hcleaned.of_adds htidy (world.note_adds _ _ _) hnone
  refine ⟨_, hrun, ⟨told, htold.imp And.left And.right, rfl⟩, hcleans, fun l => hcleans.output, ?_⟩
  -- The second time neither place is there.
  have hgone := not_there_of_cleaned htidy told.files
  obtain ⟨told', hrun', ⟨-, l, hl⟩ | ⟨-, r, rfl⟩⟩ :=
    cleanUp_eq_ok htidy hs { told with files := cleaned plan told.files }
  · exact absurd hl (hgone l).1
  · refine ⟨r, hrun'.trans ?_⟩
    rw [cleaned_eq_self htidy fun l => not_there_of_adds (Host.note_adds _ _ _ _) (hgone l)]

/-- **Cleaning up never fails.**  From whatever history a state has come to where the temporary
places are to be removed, and whatever the world is by then: the step leads to the end of the run,
removes these places and nothing else, and has nothing more to do when it is taken again.
The user may write everything, so that only what is where decides about a removal. -/
theorem cleanUp_cleans {args : List String} {tools : Option Toolchain} {h h' : Host} {first : State}
    (hstart : exec (start args tools) h = (.ok first, h')) (hs : Obtained first s)
    (hprogress : s.progress = .replayed plan last) (world : Host) :
    ∃ after, CleansUp s plan last world after :=
  cleansUp_of_tidy (hs.tidy hstart (State.plan?_eq hprogress)) hprogress world

end

/-! ### A run that comes to its end -/

/-- The run of the copying host comes to where the temporary places are to be removed. -/
theorem obtained_copyingHost :
    ∃ first h' s last, exec (start (copyingArgs "out") none) copyingHost = (.ok first, h') ∧
      Obtained first s ∧ s.progress = .replayed (copyingPlan "out") last := by
  have hplan : (exec (runPart 5 (copyingArgs "out")) copyingHost).1.toOption.bind State.plan?
      = some (copyingPlan "out") := by
    decide +kernel
  rcases hrun : exec (runPart 5 (copyingArgs "out")) copyingHost with ⟨failure | s, after⟩
  · rw [hrun] at hplan
    cases hplan
  · rw [hrun] at hplan
    obtain ⟨first, h', hstart, hs⟩ := obtained_runPart hrun
    have hcount := (reached_runPart (by decide) hrun).2
    obtain ⟨plan, last, hprogress⟩ := State.progress_of_replayed (stepsBefore_injective hcount)
    obtain rfl : plan = copyingPlan "out" :=
      Option.some.inj ((State.plan?_eq hprogress).symm.trans hplan)
    exact ⟨first, h', s, last, hstart, hs, hprogress⟩

/-- The copying host when its files have become these. -/
def changedHost (entries : List (String × Node)) : Host :=
  { copyingHost with files := ⟨.dir entries, some ["work"], []⟩ }

/-- The temporary places and what the compiler has written. -/
def usedPlaces : List (String × Node) :=
  [("topljavac00000001stderr", .file { bytes := [] }), ("topljavac-in00000002", .dir copiedClasses)]

/-- After the run both temporary places are removed, and the classes stay. -/
theorem cleanUp_cleans_copyingHost :
    ∃ first h' s last after, exec (start (copyingArgs "out") none) copyingHost = (.ok first, h') ∧
      Obtained first s ∧ s.progress = .replayed (copyingPlan "out") last ∧
      CleansUp s (copyingPlan "out") last
        (changedHost [("tmp", .dir usedPlaces), ("work", .dir [("out", .dir copiedClasses)])]) after := by
  obtain ⟨first, h', s, last, hstart, hs, hprogress⟩ := obtained_copyingHost
  obtain ⟨after, hafter⟩ := cleanUp_cleans hstart hs hprogress
    (changedHost [("tmp", .dir usedPlaces), ("work", .dir [("out", .dir copiedClasses)])])
  exact ⟨first, h', s, last, after, hstart, hs, hprogress, hafter⟩

/-- If the output directory has become a link to the one with the temporary places, then they are
gone from its tree.  If the way to them leads through one of them, then the emptied staging
directory may be left, or its whole tree. -/
theorem cleanUp_strays :
    ∃ first h' s last, exec (start (copyingArgs "out") none) copyingHost = (.ok first, h') ∧
      Obtained first s ∧ s.progress = .replayed (copyingPlan "out") last ∧
      (∃ world after top d k, exec (cleanUp s) world
          = (.ok { s with progress := .done (copyingPlan "out") last }, after) ∧
        world.files.DirAt "out" top ∧
        world.files.RealDirAt (copyingPlan "out").stagingDir d ∧ ¬ d <+: top ∧
        world.files.entryAt (top ++ k) ≠ none ∧ after.files.entryAt (top ++ k) = none) ∧
      (∃ world after d, exec (cleanUp s) world
          = (.ok { s with progress := .done (copyingPlan "out") last }, after) ∧
        world.files.RealDirAt (copyingPlan "out").stagingDir d ∧
        after.files.get? d = some (.dir [])) ∧
      ∃ world after d k e, exec (cleanUp s) world
          = (.ok { s with progress := .done (copyingPlan "out") last }, after) ∧
        world.files.RealDirAt (copyingPlan "out").stagingDir d ∧
        world.files.entryAt (d ++ k) = some (.file e) ∧ after.files.entryAt (d ++ k) = some (.file e) := by
  obtain ⟨first, h', s, last, hstart, hs, hprogress⟩ := obtained_copyingHost
  have hruns (entries : List (String × Node)) :
      ∃ after, exec (cleanUp s) (changedHost entries)
          = (.ok { s with progress := .done (copyingPlan "out") last }, after) ∧
        after.files = cleaned (copyingPlan "out") (changedHost entries).files := by
    have htidy := hs.tidy hstart (State.plan?_eq hprogress)
    obtain ⟨told, hrun, -⟩ := cleanUp_eq_ok htidy hprogress (changedHost entries)
    have hq : (changedHost entries).log.Quiet := Log.unset_default.quiet
    exact ⟨_, hrun, files_of_cleanUp hq hprogress hrun⟩
  refine ⟨first, h', s, last, hstart, hs, hprogress, ?_, ?_, ?_⟩
  -- The output directory is a link to the directory with the temporary places.
  · obtain ⟨after, hrun, hafter⟩ :=
      hruns [("tmp", .dir usedPlaces), ("work", .dir [("out", .link "/tmp")])]
    refine ⟨_, after, ["tmp"], ["tmp", "topljavac-in00000002"], ["topljavac00000001stderr"], hrun,
      ⟨usedPlaces, ?_⟩, ⟨copiedClasses, ?_⟩, ?_, ?_, ?_⟩
    · decide +kernel
    · decide +kernel
    · decide
    · decide
    · rw [hafter]
      decide +kernel
  -- The way to them goes through the staging directory and back.
  · obtain ⟨after, hrun, hafter⟩ := hruns
      [("tmp", .link "/real/topljavac-in00000002/A/../.."), ("work", .dir []),
        ("real", .dir [("topljavac-in00000002", .dir [("A", .dir [])])])]
    refine ⟨_, after, ["real", "topljavac-in00000002"], hrun, ⟨[("A", .dir [])], ?_⟩, ?_⟩
    · decide +kernel
    · rw [hafter]
      decide +kernel
  -- It goes through a link that is where the capture file was.
  · obtain ⟨after, hrun, hafter⟩ := hruns
      [("tmp", .link "/real/topljavac00000001stderr/.."), ("work", .dir []),
        ("real", .dir [("topljavac00000001stderr", .link "sub"), ("sub", .dir []),
          ("topljavac-in00000002", .dir copiedClasses)])]
    refine ⟨_, after, ["real", "topljavac-in00000002"], ["A.class"], { bytes := [0xCA, 0xFE] }, hrun,
      ⟨copiedClasses, ?_⟩, ?_, ?_⟩
    · decide +kernel
    · decide +kernel
    · rw [hafter]
      decide +kernel

end Pipeline

end MonitoredCompile

/-
MonitoredCompile/Proofs/Run/Delivery.lean

Where the instrumented classes end up.  The compiler's classes are moved aside, and the
instrumentor writes its own to the path that they came from.  If this path still names the
old place when nothing stands there, then the classes are found at the end where they were
asked for, and they are those that the staging directory had shown
(`delivered_iff_of_done`).  This is so for the temporary directory of a run without a declared
one (`Reached.independent`).  A path that starts in the output directory itself means another
place once this has been moved (`astray_copyingHost`).
-/
import MonitoredCompile.Proofs.FileSystem.Exchange
import MonitoredCompile.Proofs.Run.CurrentDir
import MonitoredCompile.Proofs.Run.Streams

namespace MonitoredCompile.Pipeline

open Attempt (exec exec_bind)
open FileSystem (Independent Roads)

/-! ### The instrumentor -/

/-- What the files are after an instrumentor: if its output path names a free place, then a
plain tree stands there that shows what the input shows, and nothing that was there is
gone. -/
structure Instruments (plan : Plan) (before after : FileSystem) : Prop where
  copies : ∀ l, before.NamesFree plan.outputDir l →
    after.entryAt l = some .dir ∧ after.LinkFree l ∧
      ∀ names bytes, after.ShowsAt l names bytes ↔ before.Shows plan.stagingDir names bytes
  keeps : ∀ m e, before.entryAt m = some e → ∃ e', after.entryAt m = some e' ∧ Entry.Alike e e'

theorem Instruments.roads {plan : Plan} {before after : FileSystem}
    (h : Instruments plan before after) : Roads before after := by
  refine ⟨fun m hm => ?_, fun m target hm => ?_⟩
  · obtain ⟨e, he, halike⟩ := h.keeps m _ hm
    rw [he, halike.dir.mp rfl]
  · obtain ⟨e, he, halike⟩ := h.keeps m _ hm
    rw [he, (halike.link target).mp rfl]

/-! ### Moving aside -/

section

variable {plan : Plan} {fs staged : FileSystem} {top d : Location} {node : Node}

/-- Moving the output directory aside takes its tree to the staging directory. -/
theorem relocated_of_moveAside (hind : Independent fs plan.outputDir plan.stagingDir top d)
    (hfind : fs.find plan.outputDir false = .ok (top, node))
    (hslash : Path.endsInSlash plan.stagingDir = false)
    (hok : exec (moveAside plan) fs = (.ok (), staged)) :
    staged = (fs.remove d).relocate top d ∧ ∃ node, (fs.remove d).get? top = some node := by
  rw [moveAside, exec_bind, FileOp.exec_call] at hok
  cases hremove : fs.removeDir plan.stagingDir with
  | error refusal =>
    rw [hremove] at hok
    cases hok
  | ok freed =>
    rw [hremove] at hok
    dsimp only at hok
    obtain ⟨x, rfl, hplace, -, -⟩ := FileSystem.free_of_removeDir hremove
    obtain rfl : x = d := hind.dest.location_of_find
      ((FileSystem.extends_remove _ _).trans (FileSystem.extends_remove _ _)).roads
      (fun here hhere => FileSystem.sameStarts_remove _ _ _ here
        (FileSystem.sameStarts_remove _ _ _ here hhere)) hslash hplace
    have hentry := hind.entryAt_freed []
    rw [List.append_nil, FileSystem.entryAt_of_get? (FileSystem.find_eq_ok_iff.mp hfind).2] at hentry
    obtain ⟨node', hget, hnode⟩ := Option.map_eq_some_iff.mp hentry
    refine ⟨?_, node', hget⟩
    have hkind : FileSystem.isDirNode node' = true ∨
        (Path.endsInSlash plan.outputDir || Path.endsInSlash plan.stagingDir) = false := by
      cases houtput : Path.endsInSlash plan.outputDir with
      | false => exact .inr (Bool.or_eq_false_iff.mpr ⟨rfl, hslash⟩)
      | true =>
        have hdir := FileSystem.dir_of_find_slash hfind houtput
        cases node with
        | dir entries =>
          obtain ⟨entries', rfl⟩ := Node.entry_eq_dir.mp hnode
          exact .inl rfl
        | file | link | device => cases hdir
    rw [FileOp.exec_move, hind.rename hget hkind] at hok
    exact (Prod.mk.inj hok).2.symm

end

/-! ### Cleaning up -/

/-- The files without the capture file, if it can be removed. -/
def withoutCapture (plan : Plan) (fs : FileSystem) : FileSystem :=
  match fs.removeFile plan.captureFile with
  | .ok left => left
  | .error _ => fs

/-- The files without the temporary ones, as far as these can be removed. -/
def cleaned (plan : Plan) (fs : FileSystem) : FileSystem :=
  (exec (FileOp.removeTree plan.stagingDir) (withoutCapture plan fs)).2

/-- If the capture file cannot be removed, the run says so and goes on. -/
theorem exec_cleanUp {s : State} {plan : Plan} {last : Launch.Outcome}
    (hs : s.progress = .replayed plan last) (h : Host) :
    exec (cleanUp s) h =
      match h.files.removeFile plan.captureFile with
      | .ok left => (.ok { s with progress := .done plan last },
          { h with files := (exec (FileOp.removeTree plan.stagingDir) left).2 })
      | .error r =>
        let fault := FileOp.faultAt plan.captureFile r
        let told := h.note (site "cleanUp") .info
          ("Could not remove " ++ plan.captureFile ++ ": " ++ fault.message)
        if fault.fromSystem then (.ok { s with progress := .done plan last },
          { told with files := (exec (FileOp.removeTree plan.stagingDir) told.files).2 })
        else (.error (.file fault), h) := by
  have hrest (h : Host) : exec (do
      Run.onFiles (FileOp.removeTreeQuietly plan.stagingDir)
      pure { s with progress := .done plan last }) h
        = (.ok { s with progress := .done plan last },
            { h with files := (exec (FileOp.removeTree plan.stagingDir) h.files).2 }) := by
    rw [exec_bind, Run.exec_onFiles, FileOp.exec_removeTreeQuietly]
    rfl
  rw [cleanUp, hs]
  dsimp only
  rw [exec_bind, Attempt.exec_tryCatch, Run.exec_onFiles, FileOp.exec_call]
  cases h.files.removeFile plan.captureFile with
  | ok left => exact hrest _
  | error r =>
    dsimp only
    by_cases hsystem : (FileOp.faultAt plan.captureFile r).fromSystem = true
    · rw [if_pos hsystem, if_pos hsystem]
      exact hrest _
    · rw [if_neg hsystem, if_neg hsystem]
      rfl

theorem files_of_cleanUp {s s' : State} {plan : Plan} {last : Launch.Outcome} {h h' : Host}
    (hq : h.log.Quiet) (hs : s.progress = .replayed plan last)
    (hok : exec (cleanUp s) h = (.ok s', h')) : h'.files = cleaned plan h.files := by
  rw [exec_cleanUp hs] at hok
  rw [cleaned, withoutCapture]
  cases hremove : h.files.removeFile plan.captureFile with
  | ok left =>
    rw [hremove] at hok
    cases hok
    rfl
  | error r =>
    rw [hremove] at hok
    dsimp only at hok
    rw [hq.note (.inr rfl)] at hok
    split at hok <;> cases hok
    rfl

/-! ### The temporary places -/

section

variable {plan : Plan} {dir : String} (hbeside : plan.Beside dir)
include hbeside

theorem Plan.Beside.capture_slash : Path.endsInSlash plan.captureFile = false := by
  obtain ⟨⟨name, hname, hpath⟩, -⟩ := hbeside
  rw [hpath]
  exact Path.endsInSlash_join ⟨hname.ne_empty, hname.no_slash⟩

theorem Plan.Beside.staging_slash : Path.endsInSlash plan.stagingDir = false := by
  obtain ⟨-, ⟨name, hname, hpath⟩⟩ := hbeside
  rw [hpath]
  exact Path.endsInSlash_join ⟨hname.ne_empty, hname.no_slash⟩

theorem Plan.Beside.sameStarts (hdir : Path.isAbsolute dir = true) (fs fs' : FileSystem) :
    FileSystem.SameStarts fs fs' plan.stagingDir := by
  obtain ⟨-, ⟨name, hname, hpath⟩⟩ := hbeside
  refine FileSystem.sameStarts_of_isAbsolute ?_ fs fs'
  rw [hpath, Path.isAbsolute_join ⟨hname.ne_empty, hname.no_slash⟩, hdir]

/-- The capture file is beside the staging directory, also where this is free. -/
theorem Plan.Beside.location {bare : FileSystem} {d : Location} (hdir : Path.isAbsolute dir = true)
    (hfree : bare.NamesFree plan.stagingDir d) :
    ∃ p name, bare.entryAt p = some .dir ∧ ∀ {later}, Roads bare later → ∀ {l},
      later.Finds plan.captureFile false (Path.names plan.captureFile) l → l = p ++ [name] := by
  obtain ⟨⟨c, hc, hcapture⟩, ⟨n, hn, hstaging⟩⟩ := hbeside
  rw [hstaging] at hfree
  rw [hcapture]
  obtain ⟨p, -, hp, -, hparent⟩ := FileSystem.finds_join hn hdir hfree.finds
  exact ⟨p, c, hp, fun hroads _ hfinds =>
    (FileSystem.finds_beside hc hdir hroads hp hparent hfinds).1⟩

end

/-! ### What is left after cleaning up -/

section

variable {plan : Plan} {dir : String} {fs later : FileSystem} {top d c : Location} {f : File}
variable (hbeside : plan.Beside dir) (hdir : Path.isAbsolute dir = true)
  (hind : Independent fs plan.outputDir plan.stagingDir top d)
  (hcapture : fs.find plan.captureFile false = .ok (c, .file f))
  (hroads : Roads ((fs.remove d).remove top) later) (htop : later.entryAt top = some .dir)
include hbeside hdir hind hcapture hroads htop

/-- The removal of the capture file has nothing to do with the output directory. -/
theorem withoutCapture_keeps : Roads ((fs.remove d).remove top) (withoutCapture plan later) ∧
    ∀ k, (withoutCapture plan later).entryAt (top ++ k) = later.entryAt (top ++ k) := by
  have hbare : Roads ((fs.remove d).remove top) fs :=
    ((FileSystem.extends_remove _ _).trans (FileSystem.extends_remove _ _)).roads
  obtain ⟨p, name, hp, hlocation⟩ := hbeside.location hdir hind.dest
  rw [withoutCapture]
  split
  · next left hremove =>
    obtain ⟨l, node, ht, hnode, rfl⟩ := FileSystem.removeFile_eq_ok hremove
    obtain ⟨-, -, hfinds, hget⟩ := FileSystem.target_eq_name_iff.mp ht
    obtain ⟨hfinds', hget'⟩ := FileSystem.find_eq_ok_iff.mp hcapture
    rw [FileSystem.steps, hbeside.capture_slash, if_neg Bool.false_ne_true, List.append_nil] at hfinds'
    have hl : l = p ++ [name] := hlocation hroads hfinds
    obtain rfl : c = l := (hlocation hbare hfinds').trans hl.symm
    have hnodir : later.entryAt c ≠ some .dir := by
      rw [FileSystem.entryAt_of_get? hget.symm]
      intro hdir
      obtain ⟨entries, rfl⟩ := Node.entry_eq_dir.mp (Option.some.inj hdir)
      exact hnode entries rfl
    have hout : ¬ c <+: top := FileSystem.not_prefix_of_dir hnodir htop
    have hout' : ¬ top <+: c := by
      intro hprefix
      rw [hl, List.prefix_concat_iff, ← hl] at hprefix
      rcases hprefix with rfl | hprefix
      · exact hout List.prefix_rfl
      · exact FileSystem.not_prefix_of_free hind.source.entry hp hprefix
    refine ⟨hroads.remove fun e he => ?_, fun k => FileSystem.entryAt_remove fun hprefix => ?_⟩
    · have hthere := FileSystem.entryAt_of_remove (FileSystem.entryAt_of_remove he)
      rw [FileSystem.entryAt_of_get? hget', Option.some.injEq] at hthere
      exact hthere ▸ .file f
    · exact (List.prefix_or_prefix_of_prefix hprefix (List.prefix_append top k)).elim hout hout'
  · exact ⟨hroads, fun _ => rfl⟩

/-- So has the removal of all temporary files. -/
theorem cleaned_keeps : Roads ((fs.remove d).remove top) (cleaned plan later) ∧
    ∀ k, (cleaned plan later).entryAt (top ++ k) = later.entryAt (top ++ k) := by
  obtain ⟨hroads', hsame⟩ := withoutCapture_keeps hbeside hdir hind hcapture hroads htop
  have houtside {m : Location} (hm : ¬ d <+: m) :
      (cleaned plan later).entryAt m = (withoutCapture plan later).entryAt m :=
    FileOp.removeTree_outside (fun hfind => hind.dest.location_of_find hroads'
      (hbeside.sameStarts hdir _ _) hbeside.staging_slash hfind) rfl hm
  exact ⟨hroads'.of_outside hind.dest.entry fun m hm => houtside hm,
    fun k => (houtside (hind.not_prefix_below k)).trans (hsame k)⟩

end

/-! ### The files between the steps -/

section

variable {args : List String} {tools : Option Toolchain} {before : Host} (hq : before.log.Quiet)
include hq

theorem Reached.files_of_staged {s₁ s₂ : State} {h₁ h₂ : Host} {plan : Plan} {last : Launch.Outcome}
    (hs₁ : Reached args tools before s₁ h₁) (hcompiled : s₁.progress = .compiled plan last)
    (hs₂ : Reached args tools before s₂ h₂) (hstaged : s₂.phase = .staged) :
    exec (moveAside plan) h₁.files = (.ok (), h₂.files) ∧ s₂.plan? = some plan := by
  obtain ⟨s, h, hs, hlog, hstep⟩ := hs₂.quiet_step hq (by rw [hstaged]; exact Phase.noConfusion)
  cases hstep with
  | classified | compiled | instrumented | replayed | done => cases hstaged
  | @staged _ _ files hprogress hmove =>
    obtain ⟨rfl, rfl⟩ :=
      hs.unique hs₁ ((State.phase_eq hprogress).trans (State.phase_eq hcompiled).symm)
    cases hprogress.symm.trans hcompiled
    rw [Log.Quiet.note (h := { h with files }) hlog (.inl rfl)]
    exact ⟨hmove, rfl⟩

theorem Reached.plan_of_instrumented {s₂ s₃ : State} {h₂ h₃ : Host}
    (hs₂ : Reached args tools before s₂ h₂) (hstaged : s₂.phase = .staged)
    (hs₃ : Reached args tools before s₃ h₃) (hinstrumented : s₃.phase = .instrumented) :
    s₃.plan? = s₂.plan? := by
  obtain ⟨s, h, hs, -, hstep⟩ := hs₃.quiet_step hq (by rw [hinstrumented]; exact Phase.noConfusion)
  cases hstep with
  | classified | compiled | staged | replayed | done => cases hinstrumented
  | instrumented hprogress =>
    obtain ⟨rfl, -⟩ := hs.unique hs₂ ((State.phase_eq hprogress).trans hstaged.symm)
    exact (State.plan?_eq hprogress).symm

/-- After the instrumentor a run only cleans up. -/
theorem Reached.files_of_done {s s₃ : State} {after h₃ : Host} {plan : Plan}
    (hs₃ : Reached args tools before s₃ h₃) (hinstrumented : s₃.phase = .instrumented)
    (hplan : s₃.plan? = some plan) (hs : Reached args tools before s after)
    (hdone : s.phase = .done) : after.files = cleaned plan h₃.files := by
  obtain ⟨s₄, h₄, hs₄, hlog₄, hclean⟩ := hs.quiet_step hq (by rw [hdone]; exact Phase.noConfusion)
  cases hclean with
  | classified | compiled | staged | instrumented | replayed => cases hdone
  | @done plan' last' _ hprogress hrun =>
    rw [files_of_cleanUp hlog₄ hprogress hrun]
    obtain ⟨s₅, h₅, hs₅, hlog₅, hreplay⟩ := hs₄.quiet_step hq (by
      rw [State.phase_eq hprogress]
      exact Phase.noConfusion)
    cases hreplay with
    | classified | compiled | staged | instrumented | done => cases hprogress
    | replayed hprogress' hreplay =>
      cases hprogress
      obtain ⟨rfl, rfl⟩ := hs₅.unique hs₃ ((State.phase_eq hprogress').trans hinstrumented.symm)
      obtain rfl : plan' = plan := Option.some.inj ((State.plan?_eq hprogress').symm.trans hplan)
      rw [replayFiles, Diagnostics.exec_replay _ hlog₅] at hreplay
      obtain rfl := (Prod.mk.inj hreplay).2
      rfl

end

/-! ### A directory that a run makes for itself -/

theorem resolveOutputDir_none {path : String} {h h' : Host} (hq : h.log.Quiet)
    (hok : exec (resolveOutputDir none) h = (.ok path, h')) :
    exec (Scratch.makeDir "topljavac-out") h = (.ok path, h') := by
  obtain ⟨dir, h₁, hmake, hrest⟩ := Attempt.exec_bind_eq_ok.mp hok
  have hlog : h₁.log = h.log := ((background_onlyFiles.works_make .emptyDir _ _ _).state hmake).log hq
  rw [exec_bind, Run.exec_note, Log.Quiet.note (hlog.symm ▸ hq) (.inl rfl)] at hrest
  cases hrest
  exact hmake

/-- Without a declared directory the two directories of a plan are fresh, and so they are
independent as long as nothing is taken away. -/
theorem Planned.independent {args : List String} {before after : Host} {plan : Plan}
    (h : Planned args before plan after) (hq : before.log.Quiet)
    (hdir : Path.isAbsolute before.scratchDir = true) (hnone : plan.args.outputDir = none)
    {fs : FileSystem} (hext : FileSystem.Extends after.files fs) :
    ∃ top d, Independent fs plan.outputDir plan.stagingDir top d := by
  obtain ⟨tokens, h₁, h₂, h₃, h₄, hexpand, hclassify, -, hresolve, hcapture, hstaging⟩ := h
  have hR := background_onlyFiles
  let h₂' := h₂.note (site "classifyArgs") .debug ("classified: " ++ plan.args.shown)
  have hbefore : OnlyFiles before h₂' := hR.trans ((hR.works_expand _).state hexpand)
    (hR.trans ((hR.works_classifyLogged _).state hclassify) (hR.note (.inl rfl) _ _ _))
  have hq₂ : h₂'.log.Quiet := (hbefore.log hq).symm ▸ hq
  rw [hnone] at hresolve
  have houtput := resolveOutputDir_none hq₂ hresolve
  have hmiddle : OnlyFiles h₂' h₄ := hR.trans ((hR.works_make .emptyDir _ _ _).state houtput)
    ((hR.works_make (.file _) _ _ _).state hcapture)
  obtain ⟨⟨k, hk⟩, hcreate⟩ := Scratch.make_eq_ok houtput
  obtain ⟨-, hcapture⟩ := Scratch.make_eq_ok hcapture
  obtain ⟨⟨n, hn⟩, hmake⟩ := Scratch.make_eq_ok hstaging
  rw [hbefore.scratchDir hq] at hk
  rw [hmiddle.scratchDir hq₂, hbefore.scratchDir hq] at hn
  rw [hk] at hcreate ⊢
  rw [hn] at hmake ⊢
  have hkname : IsName ("topljavac-out" ++ Scratch.eightDigits k ++ "") :=
    Scratch.isName (show "topljavac-out".toList.head? = some 't' by decide) (by decide) (by decide)
      (by decide) k
  have hnname : IsName ("topljavac-in" ++ Scratch.eightDigits n ++ "") :=
    Scratch.isName (show "topljavac-in".toList.head? = some 't' by decide) (by decide) (by decide)
      (by decide) n
  exact FileSystem.independent_of_created hkname hnname hdir hcreate
    (FileSystem.grows_of_create hcapture).extends_ hmake hext

/-- So they are when the compiler has ended, if it has only added files. -/
theorem Reached.independent {args : List String} {tools : Option Toolchain} {before h : Host}
    {s : State} {plan : Plan} (hq : before.log.Quiet)
    (hdir : Path.isAbsolute before.scratchDir = true) (hs : Reached args tools before s h)
    (hclassified : s.progress = .classified plan) (hnone : plan.args.outputDir = none)
    {fs : FileSystem} (hext : FileSystem.Extends h.files fs) :
    ∃ top d, Independent fs plan.outputDir plan.stagingDir top d := by
  obtain ⟨s₁, h₁, hstart, -, hplanned⟩ := hs.of_classified hq hclassified
  have hfiles := (background_onlyFiles.works_start args tools).state hstart
  exact hplanned.independent ((hfiles.log hq).symm ▸ hq) ((hfiles.scratchDir hq).symm ▸ hdir) hnone
    hext

/-! ### Delivery -/

/-- From the directory where the run was started, the path of the output directory leads to
a directory that shows what it showed when the compiler had ended. -/
structure Delivered (plan : Plan) (cwd : Option Location) (compiled after : FileSystem) : Prop where
  there : ∃ l, (after.seenFrom cwd).DirAt plan.outputDir l
  same : ∀ names bytes, (after.seenFrom cwd).Shows plan.outputDir names bytes ↔
    compiled.Shows plan.outputDir names bytes

/-- What the instrumentor puts in the old place of the output directory is found there at
the end, and it is what the staging directory had shown. -/
theorem delivered_iff_of_instruments {plan : Plan} {dir : String} {fs later : FileSystem}
    {top d c : Location} {node : Node} {f : File} (hbeside : plan.Beside dir)
    (hdir : Path.isAbsolute dir = true)
    (hind : Independent fs plan.outputDir plan.stagingDir top d)
    (hget : (fs.remove d).get? top = some node)
    (hcapture : fs.find plan.captureFile false = .ok (c, .file f))
    (hinstrumentor : Instruments plan ((fs.remove d).relocate top d) later) :
    Delivered plan fs.cwd fs (cleaned plan later) ↔ ∀ names bytes,
      ((fs.remove d).relocate top d).Shows plan.stagingDir names bytes ↔
        fs.Shows plan.outputDir names bytes := by
  obtain ⟨hthere, hplain, hcopied⟩ := hinstrumentor.copies top (hind.namesFree_source hget)
  have hroads := hind.extends_relocated.roads.trans hinstrumentor.roads
  obtain ⟨hroads', hsame⟩ := cleaned_keeps hbeside hdir hind hcapture hroads hthere
  have hfinal : ((cleaned plan later).seenFrom fs.cwd).DirAt plan.outputDir top := by
    refine FileSystem.dirAt_of_target (hind.source.target ⟨hroads'.dirs, hroads'.links⟩ ?_) ?_
    · exact FileSystem.sameStarts_of_cwd
        (fun _ hhere => FileSystem.cwd_of_remove (FileSystem.cwd_of_remove hhere)) _
    · have htop := hsame []
      rw [List.append_nil] at htop
      exact htop.trans hthere
  have hshows (names : List String) (bytes : Bytes) :
      ((cleaned plan later).seenFrom fs.cwd).Shows plan.outputDir names bytes ↔
        ((fs.remove d).relocate top d).Shows plan.stagingDir names bytes :=
    hfinal.shows_iff.trans ((hplain.showsAt_congr hsame).trans (hcopied names bytes))
  refine ⟨fun h names bytes => (hshows names bytes).symm.trans (h.same names bytes), fun h => ?_⟩
  exact ⟨⟨top, hfinal⟩, fun names bytes => (hshows names bytes).trans (h names bytes)⟩

/-- **Where the instrumented classes end up.**  Take a run that comes to its end, with a
compiler that leaves the capture file and the current directory alone and an instrumentor
that copies the staging directory.  If the path of the output directory names its place also
when nothing stands there, then the classes are delivered if and only if the staging directory
showed what the output directory had shown.  So they are if there were no links in it.  A
directory that the run has made itself is such a place (`Reached.independent`). -/
theorem delivered_iff_of_done {args : List String} {before after : Host} {s s₁ s₂ s₃ : State}
    {h₁ h₂ h₃ : Host} {plan : Plan} {last : Launch.Outcome} {top d : Location} {node : Node}
    (hq : before.log.Quiet) (hfiles : before.files.WellFormed)
    (hdir : Path.isAbsolute before.scratchDir = true)
    (hrun : exec (run args) before = (.ok s, after))
    (hs₁ : Reached args none before s₁ h₁) (hcompiled : s₁.progress = .compiled plan last)
    (hs₂ : Reached args none before s₂ h₂) (hstaged : s₂.phase = .staged)
    (hs₃ : Reached args none before s₃ h₃) (hinstrumented : s₃.phase = .instrumented)
    (hcompiler : ∀ call ∈ h₁.calls.drop before.calls.length,
      LeavesAlone plan.captureFile call.events ∧ Event.StayPut call.events)
    (hinstrumentor : Instruments plan h₂.files h₃.files)
    (hfind : h₁.files.find plan.outputDir false = .ok (top, node))
    (hind : Independent h₁.files plan.outputDir plan.stagingDir top d) :
    (Delivered plan before.files.cwd h₁.files after.files ↔
        ∀ names bytes, h₂.files.Shows plan.stagingDir names bytes ↔
          h₁.files.Shows plan.outputDir names bytes) ∧
      (node.entry = .dir → h₁.files.LinkFree top →
        Delivered plan before.files.cwd h₁.files after.files) := by
  have hends := ends_run args none before
  rw [hrun] at hends
  have hbeside := hs₁.beside (State.plan?_eq hcompiled)
  obtain ⟨c, f, hcapture⟩ := hs₁.capture_of_compiled hq hfiles hdir hcompiled
    fun call hcall => (hcompiler call hcall).1
  have hcwd := hs₁.cwd_of_compiled hq (State.phase_eq hcompiled)
    fun call hcall => (hcompiler call hcall).2
  -- The tree is moved as a whole, the instrumentor runs, and the rest is cleaned up.
  obtain ⟨hmove, hplan₂⟩ := Reached.files_of_staged hq hs₁ hcompiled hs₂ hstaged
  obtain ⟨hmoved, node', hget⟩ := relocated_of_moveAside hind hfind hbeside.staging_slash hmove
  have hafter := Reached.files_of_done hq hs₃ hinstrumented
    ((Reached.plan_of_instrumented hq hs₂ hstaged hs₃ hinstrumented).trans hplan₂) hends.1 hends.2
  rw [hmoved] at hinstrumentor ⊢
  rw [hafter, ← hcwd]
  have hdelivered := delivered_iff_of_instruments hbeside hdir hind hget hcapture hinstrumentor
  refine ⟨hdelivered, fun hnode hfree => hdelivered.mpr fun names bytes => ?_⟩
  obtain ⟨entries, rfl⟩ := Node.entry_eq_dir.mp hnode
  have htop : h₁.files.DirAt plan.outputDir top :=
    ⟨entries, FileSystem.find_follow hfind (by simp)⟩
  exact hind.shows_iff hget htop hfree

/-! ### A host whose instrumentor copies -/

/-- An instrumentor that puts a copy of the classes in the place, and one more file
somewhere. -/
theorem Instruments.of_copied {plan : Plan} {before after : FileSystem} {l m d : Location}
    {entries : List (String × Node)} {f : File} {slash : Bool}
    (ht : before.target plan.outputDir = .ok (.name ⟨l, none⟩ slash))
    (hfind : before.find plan.stagingDir = .ok (d, .dir entries))
    (hentries : ∀ e ∈ entries, ∃ f, e.2 = .file f)
    (hm : (before.place l (.dir entries)).entryAt m = none)
    (hroot : after.root = ((before.place l (.dir entries)).place m (.file f)).root)
    (hcopy : after.get? l = some (.dir entries)) : Instruments plan before after := by
  have hget := (FileSystem.find_eq_ok_iff.mp hfind).2
  have hplain : before.LinkFree d := FileSystem.linkFree_of_files hget hentries
  refine ⟨fun l' hfree => ?_, fun m' e he => ?_⟩
  · obtain ⟨slash', ht'⟩ := hfree
    obtain rfl : l = l' := by
      rw [ht] at ht'
      cases ht'
      rfl
    refine ⟨FileSystem.entryAt_of_get? hcopy, FileSystem.linkFree_of_files hcopy hentries,
      fun names bytes => ?_⟩
    have hsame (k : Location) : after.entryAt (l ++ k) = before.entryAt (d ++ k) := by
      rw [FileSystem.entryAt_append_of_get? hcopy, FileSystem.entryAt_append_of_get? hget]
    exact (hplain.showsAt_congr hsame).trans (FileSystem.DirAt.shows_iff ⟨entries, hfind⟩).symm
  · have hl : before.entryAt l = none := (FileSystem.free_of_target ht).entry
    refine ⟨e, ?_, .refl e⟩
    rw [FileSystem.entryAt, hroot]
    exact FileSystem.extends_place hm _ _ _ (FileSystem.extends_place hl _ _ _ he)

/-- A host whose compiler writes one class, and whose instrumentor copies what it is given. -/
def copyingHost : Host :=
  { chattyHost with
    programs := fun name args => .ofScript args <|
      if name = "javac" then [.store "{d}/A.class" [0xCA, 0xFE]]
      else [.copy "{i}" "{o}", .store "javac.err.topl" []] }

def copyingArgs (dir : String) : List String := ["A.java", "-d", dir]

def copyingPlan (dir : String) : Plan :=
  ⟨Arguments.classify (copyingArgs dir), dir, "/tmp/topljavac-in00000002",
    "/tmp/topljavac00000001stderr"⟩

/-- The run to this directory after so many steps. -/
def copyingPart (dir : String) (n : Nat) : Except Failure State × Host :=
  exec (runPart n (copyingArgs dir)) copyingHost

/-- The entries of the directory with the class. -/
def copiedClasses : List (String × Node) := [("A.class", .file { bytes := [0xCA, 0xFE] })]

/-- The compiler leaves its class in the directory, which is where `top` is.  When it has been
moved aside the instrumentor copies it to where `l` is. -/
def Copied (dir : String) (top l m : Location) : Prop :=
  (∀ n ∈ [2, 3, 4], (copyingPart dir n).1.toOption.bind State.plan? = some (copyingPlan dir)) ∧
  (copyingPart dir 2).2.calls.all (fun call => call.events.all
    (Event.keepsFile (copyingPlan dir).captureFile) && call.events.all Event.keepsPlace) = true ∧
  (copyingPart dir 2).2.files.find dir false = .ok (top, .dir copiedClasses) ∧
  (copyingPart dir 3).2.files.find (copyingPlan dir).stagingDir
    = .ok (["tmp", "topljavac-in00000002"], .dir copiedClasses) ∧
  (copyingPart dir 3).2.files.target dir = .ok (.name ⟨l, none⟩ false) ∧
  ((copyingPart dir 3).2.files.place l (.dir copiedClasses)).entryAt m = none ∧
  (copyingPart dir 4).2.files.root = (((copyingPart dir 3).2.files.place l
    (.dir copiedClasses)).place m (.file { bytes := [] })).root ∧
  (copyingPart dir 4).2.files.get? l = some (.dir copiedClasses)

instance (dir : String) (top l m : Location) : Decidable (Copied dir top l m) := by
  unfold Copied
  infer_instance

/-- What both tools of that run do is what they are expected to do. -/
theorem tools_of_copied {dir : String} {top l m : Location} (h : Copied dir top l m) :
    ∃ s₁ s₂ s₃ last, Reached (copyingArgs dir) none copyingHost s₁ (copyingPart dir 2).2 ∧
      s₁.progress = .compiled (copyingPlan dir) last ∧
      Reached (copyingArgs dir) none copyingHost s₂ (copyingPart dir 3).2 ∧ s₂.phase = .staged ∧
      Reached (copyingArgs dir) none copyingHost s₃ (copyingPart dir 4).2 ∧
      s₃.phase = .instrumented ∧
      (∀ call ∈ (copyingPart dir 2).2.calls.drop copyingHost.calls.length,
        LeavesAlone (copyingPlan dir).captureFile call.events ∧ Event.StayPut call.events) ∧
      Instruments (copyingPlan dir) (copyingPart dir 3).2.files (copyingPart dir 4).2.files ∧
      (copyingPart dir 2).2.files.LinkFree top ∧
      (copyingPart dir 2).2.files.Shows dir ["A.class"] [0xCA, 0xFE] := by
  obtain ⟨hplans, hcalls, hfind, hstaged, hplace, hfree, hroot, hcopy⟩ := h
  have hfiles : ∀ e ∈ copiedClasses, ∃ f, e.2 = .file f := by simp [copiedClasses]
  obtain ⟨s₁, hs₁, hcount₁, hplan₁⟩ := reached_of_runPart (by decide) (hplans 2 (by decide))
  obtain ⟨s₂, hs₂, hcount₂, -⟩ := reached_of_runPart (by decide) (hplans 3 (by decide))
  obtain ⟨s₃, hs₃, hcount₃, -⟩ := reached_of_runPart (by decide) (hplans 4 (by decide))
  obtain ⟨plan, last, hcompiled⟩ := State.progress_of_compiled (stepsBefore_injective hcount₁)
  obtain rfl : plan = copyingPlan dir :=
    Option.some.inj ((State.plan?_eq hcompiled).symm.trans hplan₁)
  have hget := (FileSystem.find_eq_ok_iff.mp hfind).2
  have hplain := FileSystem.linkFree_of_files hget hfiles
  refine ⟨s₁, s₂, s₃, last, hs₁, hcompiled, hs₂, stepsBefore_injective hcount₂, hs₃,
    stepsBefore_injective hcount₃, fun call hcall => ?_,
    .of_copied hplace hstaged hfiles hfree hroot hcopy, hplain, top,
    ⟨copiedClasses, FileSystem.find_follow hfind (by simp)⟩, ?_⟩
  · have hkeeps := List.all_eq_true.mp hcalls call hcall
    rw [Bool.and_eq_true] at hkeeps
    exact ⟨.of_keepsFile hkeeps.1, .of_keepsPlace hkeeps.2⟩
  · refine hplain.showsAt_iff.mpr ⟨?_, { bytes := [0xCA, 0xFE] }, ?_, rfl⟩
    · intro name hname
      obtain rfl := List.mem_singleton.mp hname
      exact ⟨by decide, by decide, by decide⟩
    · rw [FileSystem.entryAt_append_of_get? hget]
      rfl

/-- A relative path that does not go through the directory itself is a place to deliver to. -/
theorem delivered_copyingHost :
    copyingHost.log.Quiet ∧ copyingHost.files.WellFormed ∧
      Path.isAbsolute copyingHost.scratchDir = true ∧
      ∃ s after s₁ h₁ s₂ h₂ s₃ h₃ last,
        exec (run (copyingArgs "out")) copyingHost = (.ok s, after) ∧
        Reached (copyingArgs "out") none copyingHost s₁ h₁ ∧
        s₁.progress = .compiled (copyingPlan "out") last ∧
        Reached (copyingArgs "out") none copyingHost s₂ h₂ ∧ s₂.phase = .staged ∧
        Reached (copyingArgs "out") none copyingHost s₃ h₃ ∧ s₃.phase = .instrumented ∧
        (∀ call ∈ h₁.calls.drop copyingHost.calls.length,
          LeavesAlone (copyingPlan "out").captureFile call.events ∧ Event.StayPut call.events) ∧
        Instruments (copyingPlan "out") h₂.files h₃.files ∧
        h₁.files.find "out" false = .ok (["work", "out"], .dir copiedClasses) ∧
        Independent h₁.files "out" (copyingPlan "out").stagingDir ["work", "out"]
          ["tmp", "topljavac-in00000002"] ∧
        h₁.files.Shows "out" ["A.class"] [0xCA, 0xFE] ∧
        Delivered (copyingPlan "out") copyingHost.files.cwd h₁.files after.files := by
  have hq : copyingHost.log.Quiet := Log.unset_default.quiet
  have hfiles : copyingHost.files.WellFormed := chattyHost_wellFormed
  have hdir : Path.isAbsolute copyingHost.scratchDir = true := by decide
  have hcopied : Copied "out" ["work", "out"] ["work", "out"] ["work", "javac.err.topl"] := by
    decide +kernel
  have hends : (exec (run (copyingArgs "out")) copyingHost).1.isOk = true := by decide +kernel
  have hplaces : (((copyingPart "out" 2).2.files.remove ["tmp", "topljavac-in00000002"]).remove
        ["work", "out"]).target "out" = .ok (.name ⟨["work", "out"], none⟩ false) ∧
      (((copyingPart "out" 2).2.files.remove ["tmp", "topljavac-in00000002"]).remove
        ["work", "out"]).target (copyingPlan "out").stagingDir
          = .ok (.name ⟨["tmp", "topljavac-in00000002"], none⟩ false) := by
    decide +kernel
  have hind : Independent (copyingPart "out" 2).2.files "out" (copyingPlan "out").stagingDir
      ["work", "out"] ["tmp", "topljavac-in00000002"] :=
    ⟨by decide, ⟨_, hplaces.1⟩, ⟨_, hplaces.2⟩⟩
  obtain ⟨s₁, s₂, s₃, last, hs₁, hcompiled, hs₂, hstaged, hs₃, hinstrumented, hcompiler,
    hinstrumentor, hplain, hshows⟩ := tools_of_copied hcopied
  have hfind := hcopied.2.2.1
  rcases hrun : exec (run (copyingArgs "out")) copyingHost with ⟨failure | s, after⟩
  · rw [hrun] at hends
    cases hends
  · have hdelivered := (delivered_iff_of_done hq hfiles hdir hrun hs₁ hcompiled hs₂ hstaged hs₃
      hinstrumented hcompiler hinstrumentor hfind hind).2 rfl hplain
    exact ⟨hq, hfiles, hdir, s, after, s₁, _, s₂, _, s₃, _, last, rfl, hs₁, hcompiled, hs₂, hstaged,
      hs₃, hinstrumented, hcompiler, hinstrumentor, hfind, hind, hshows, hdelivered⟩

/-- A directory that is reached through the current one is another after it has been moved. -/
theorem astray_copyingHost :
    ∃ s after s₁ h₁ s₂ h₂ s₃ h₃ last,
      exec (run (copyingArgs "../work")) copyingHost = (.ok s, after) ∧
      Reached (copyingArgs "../work") none copyingHost s₁ h₁ ∧
      s₁.progress = .compiled (copyingPlan "../work") last ∧
      Reached (copyingArgs "../work") none copyingHost s₂ h₂ ∧ s₂.phase = .staged ∧
      Reached (copyingArgs "../work") none copyingHost s₃ h₃ ∧ s₃.phase = .instrumented ∧
      (∀ call ∈ h₁.calls.drop copyingHost.calls.length,
        LeavesAlone (copyingPlan "../work").captureFile call.events ∧ Event.StayPut call.events) ∧
      Instruments (copyingPlan "../work") h₂.files h₃.files ∧
      h₁.files.Shows "../work" ["A.class"] [0xCA, 0xFE] ∧
      ¬ Delivered (copyingPlan "../work") copyingHost.files.cwd h₁.files after.files := by
  have hcopied : Copied "../work" ["work"] ["tmp", "work"]
      ["tmp", "topljavac-in00000002", "javac.err.topl"] := by
    decide +kernel
  have hends : (exec (run (copyingArgs "../work")) copyingHost).1.isOk = true ∧
      ((exec (run (copyingArgs "../work")) copyingHost).2.files.seenFrom (some ["work"])).find "../work"
        = .error (.system .noEntry) := by
    decide +kernel
  obtain ⟨s₁, s₂, s₃, last, hs₁, hcompiled, hs₂, hstaged, hs₃, hinstrumented, hcompiler,
    hinstrumentor, -, hshows⟩ := tools_of_copied hcopied
  rcases hrun : exec (run (copyingArgs "../work")) copyingHost with ⟨failure | s, after⟩
  · rw [hrun] at hends
    cases hends.1
  · refine ⟨s, after, s₁, _, s₂, _, s₃, _, last, rfl, hs₁, hcompiled, hs₂, hstaged, hs₃,
      hinstrumented, hcompiler, hinstrumentor, hshows, fun hdelivered => ?_⟩
    rw [hrun] at hends
    obtain ⟨l, entries, hfind⟩ := hdelivered.there
    cases hends.2.symm.trans hfind

end MonitoredCompile.Pipeline

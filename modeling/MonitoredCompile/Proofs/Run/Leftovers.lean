/-
MonitoredCompile/Proofs/Run/Leftovers.lean

What a run that has come to its end leaves of its temporary files.  The capture file is
gone: the replay has read it, so its path named something that can be removed.  The staging
directory is gone if the classes were moved there as a directory.  If the path of the output
directory named something else, a link to a directory, then this is what was moved, and
it is left, since a tree is only removed under the name of a directory
(`leftovers_of_done`, `left_linkedHost`).  All that tools need to do is to leave what the two
paths name, up to what a file holds.  A log may go anywhere.

Whatever can be named can be removed here: the user may write everything, and trees are
removed to any depth.
-/
import MonitoredCompile.Proofs.FileSystem.Named
import MonitoredCompile.Proofs.Run.Configuration
import MonitoredCompile.Proofs.Run.Delivery

namespace MonitoredCompile

open Attempt (exec exec_bind exec_bind_eq_ok)
open FileSystem (SameKind)

/-! ### Names and tools -/

namespace FileSystem

variable {fs fs' : FileSystem} {path : String} {l : Location}

theorem sameKind_writeOpen (fs : FileSystem) (handle : Nat) (bytes : Bytes) (path : String) :
    SameKind path fs (fs.writeOpen handle bytes) := by
  cases hopened : fs.opened[handle]? with
  | none =>
    rw [writeOpen, hopened]
    exact .refl path fs
  | some o =>
    rw [writeOpen_eq hopened]
    unfold modifyFile
    split
    · exact .refl path fs
    · split
      · next hfile => exact (sameShape_overwrite hfile _).sameKind rfl path
      · exact .refl path fs

/-- What can be read is named, and is no directory. -/
theorem named_of_read {bytes : Bytes} (h : fs.read path = .ok bytes) :
    ∃ e, fs.named path = some e ∧ e ≠ .dir := by
  rw [read] at h
  cases hfind : fs.find path with
  | error r =>
    rw [hfind] at h
    cases h
  | ok found =>
    obtain ⟨l, node⟩ := found
    refine named_of_find_follow hfind fun hdir => ?_
    obtain ⟨entries, rfl⟩ := Node.entry_eq_dir.mp hdir
    rw [hfind] at h
    cases h

/-- Opening what is plain for writing makes nothing new. -/
theorem sameKind_openTruncated {node : Node} {handle : Nat} (hfind : fs.find path false = .ok (l, node))
    (hplain : node.entry.Plain) (hopen : fs.openTruncated path = .ok (fs', handle)) (other : String) :
    SameKind other fs fs' := by
  rw [openTruncated, openWith] at hopen
  cases ht : fs.target path true with
  | error r =>
    rw [ht] at hopen
    cases hopen
  | ok t =>
    rw [ht] at hopen
    cases t with
    | root | here | above => cases hopen
    | name place slash =>
      cases slash with
      | true => cases hopen
      | false =>
        obtain rfl := place_of_find hfind
          (fun target htarget => hplain.ne_link target (by rw [htarget]; rfl)) ht
        have hget := (find_eq_ok_iff.mp hfind).2
        cases node with
        | dir entries => exact absurd rfl hplain.ne_dir
        | file f =>
          dsimp only at hopen
          split at hopen <;> cases hopen
          · exact .refl other fs
          · exact (sameShape_overwrite hget _).sameKind rfl other
        | link target => exact absurd rfl (hplain.ne_link target)
        | device =>
          cases hopen
          exact .refl other fs

end FileSystem

theorem Host.sameKind_note (h : Host) (site : Log.Site) (level : Log.Level) (message path : String) :
    SameKind path h.files (h.note site level message).files := by
  obtain ⟨hshape, hcwd⟩ := h.sameShape_note site level message
  exact hshape.sameKind hcwd path

/-- The tool leaves what the path names, up to what a file holds. -/
def Spares (path : String) (events : List Event) : Prop :=
  ∀ before after, Event.changed before after ∈ events → SameKind path before after

theorem Spares.tail {path : String} {event : Event} {events : List Event}
    (h : Spares path (event :: events)) : Spares path events :=
  fun before after hevent => h before after (List.mem_cons_of_mem event hevent)

/-- Tells of something that a tool has done whether a path names what it named. -/
def Event.keepsName (path : String) : Event → Bool
  | .wrote _ _ => true
  | .changed before after => before.named path = after.named path

theorem Spares.of_keepsName {path : String} {events : List Event}
    (h : events.all (Event.keepsName path) = true) : Spares path events := by
  intro before after hevent
  have hsame : before.named path = after.named path :=
    of_decide_eq_true (List.all_eq_true.mp h _ hevent)
  have hrefl := SameKind.refl path before
  rw [SameKind] at hrefl ⊢
  rwa [← hsame]

/-- What a tool writes to files changes no name, so only what it does itself counts. -/
theorem Behaviour.run_sameKind (tool : Behaviour) (routes : Stream → Route) {path : String}
    {s : Surroundings} (h : Spares path (tool.events routes s)) :
    SameKind path s.files (tool.run routes s).2.files := by
  induction tool generalizing s with
  | exit status => exact .refl path s.files
  | emit stream bytes next ih =>
    rw [events] at h
    rw [run]
    refine SameKind.trans ?_ (ih h.tail)
    unfold Surroundings.deliver
    split
    · exact .refl path s.files
    · exact .refl path s.files
    · exact .refl path s.files
    · exact s.files.sameKind_writeOpen _ _ path
  | act change sound next ih =>
    rw [events] at h
    rw [run]
    exact (h _ _ List.mem_cons_self).trans (ih s.files h.tail)

namespace Launch

variable {path : String} {h h' : Host}

theorem sameKind_executeOn {routes : Stream → Route} {program : String} {args : List String}
    (hspares : Spares path (callOn h routes program args).events) :
    SameKind path h.files (executeOn h routes program args).2.files :=
  Behaviour.run_sameKind (h.programs program args) routes (s := ⟨h.files, h.stdout, h.stderr⟩) hspares

/-- Closing files changes nothing that is named. -/
theorem sameKind_closeAfter (before after : Host) :
    SameKind path after.files (closeAfter before after).files :=
  SameKind.refl path after.files

/-- A stage leaves what a path names if its tool does, and if opening the streams has. -/
theorem sameKind_of_runStage_eq_ok {out err : Policy} (hout : out.isForOutput = true)
    (herr : err.isForErrors = true) {command : List String} {outcome : Outcome}
    (hok : exec (runStage command out err) h = (.ok outcome, h')) :
    ∃ call, h'.calls = h.calls ++ [call] ∧ ∀ path, Spares path call.events →
      (∀ routes h₁, exec (openRoutes out (sharedErrors out err)) (h.handOver command)
        = (.ok routes, h₁) → SameKind path h.files h₁.files) →
      SameKind path h.files h'.files := by
  obtain ⟨routes, program, h₁, said, told, hroutes, rfl⟩ := runStage_eq_ok_noted hout herr hok
  have hR := background_sameRecord
  have hcalls : (h₁.note popenSite .debug said).calls = h.calls :=
    (hR.trans ((works_openRoutes hR _ _).state hroutes) (hR.note (.inl rfl) h₁ _ _)).2
  refine ⟨callOn (h₁.note popenSite .debug said) routes program command.tail, ?_,
    fun path hspares hopen => ?_⟩
  · rw [(hR.note (.inl rfl) _ _ _).2, ← hcalls]
    exact executeOn_calls _ routes program command.tail
  · have hready := (hopen routes h₁ hroutes).trans (h₁.sameKind_note popenSite .debug said path)
    exact hready.trans ((sameKind_executeOn hspares).trans
      ((sameKind_closeAfter h _).trans (Host.sameKind_note _ _ _ _ path)))

end Launch

namespace Pipeline

/-! ### Tools in a run -/

section

variable {s : State} {plan : Plan} {h h' : Host} {outcome : Launch.Outcome} {path : String}

theorem sameKind_of_runCompiler_eq_ok (hok : exec (runCompiler s plan) h = (.ok outcome, h')) :
    ∃ call, h'.calls = h.calls ++ [call] ∧
      ∀ e, h.files.named plan.captureFile = some e → e.Plain → ∀ path, Spares path call.events →
        SameKind path h.files h'.files := by
  obtain ⟨call, hcall, hkept⟩ := Launch.sameKind_of_runStage_eq_ok rfl rfl hok
  refine ⟨call, hcall, fun e hnamed hplain path hspares => hkept path hspares
    fun routes h₁ hroutes => ?_⟩
  rw [show Launch.sharedErrors (.file plan.captureFile) .merge = .merge from rfl,
    Launch.exec_openRoutes_file] at hroutes
  obtain ⟨l, node, hfind, rfl⟩ := FileSystem.named_eq_some_iff.mp hnamed
  cases hopen : (h.handOver (compilerCommand s.tools plan)).files.openTruncated plan.captureFile with
  | error r =>
    rw [hopen] at hroutes
    cases hroutes
  | ok opened =>
    rw [hopen] at hroutes
    cases hroutes
    exact FileSystem.sameKind_openTruncated hfind hplain hopen path

theorem sameKind_of_runInstrumentor_eq_ok
    (hok : exec (runInstrumentor s plan) h = (.ok outcome, h')) :
    ∃ call, h'.calls = h.calls ++ [call] ∧
      ∀ path, Spares path call.events → SameKind path h.files h'.files := by
  obtain ⟨call, hcall, hkept⟩ := Launch.sameKind_of_runStage_eq_ok rfl rfl hok
  refine ⟨call, hcall, fun path hspares => hkept path hspares fun routes h₁ hroutes => ?_⟩
  rw [show Launch.sharedErrors .inherit .inherit = .inherit from rfl,
    Launch.exec_openRoutes_inherit] at hroutes
  cases hroutes
  exact SameKind.refl path _

/-- What has been replayed could be read, so something is named that is no directory. -/
theorem named_of_replay {sources : List String}
    (hok : exec (Diagnostics.replay Host.writeStderr sources) h = (.ok (), h')) :
    (∀ path, SameKind path h.files h'.files) ∧
      ∀ source ∈ sources, ∃ e, h.files.named source = some e ∧ e ≠ .dir := by
  induction sources generalizing h with
  | nil =>
    cases hok
    exact ⟨fun path => .refl path _, by simp⟩
  | cons source rest ih =>
    rw [Diagnostics.replay_writeStderr_cons] at hok
    obtain ⟨⟨⟩, h₁, hnote, hok⟩ := exec_bind_eq_ok.mp hok
    cases hnote
    obtain ⟨bytes, h₂, hread, hok⟩ := exec_bind_eq_ok.mp hok
    obtain ⟨⟨⟩, h₃, hwrite, hok⟩ := exec_bind_eq_ok.mp hok
    cases hwrite
    have hnoted := fun path => h.sameKind_note Diagnostics.site .debug
      ("flushing diagnostics from " ++ source) path
    rw [Run.exec_onFiles, FileOp.exec_ask] at hread
    cases hbytes : (h.note Diagnostics.site .debug
        ("flushing diagnostics from " ++ source)).files.read source with
    | error r =>
      rw [hbytes] at hread
      cases hread
    | ok found =>
      rw [hbytes] at hread
      cases hread
      obtain ⟨hkept, hnamed⟩ := ih hok
      have hback {path : String} {e : Entry} (he : (h.note Diagnostics.site .debug
          ("flushing diagnostics from " ++ source)).files.named path = some e) (hdir : e ≠ .dir) :
          ∃ e, h.files.named path = some e ∧ e ≠ .dir := by
        obtain ⟨e', he', halike⟩ := (hnoted path).symm.exists_of_some he
        exact ⟨e', he', fun hdir' => hdir (halike.dir.mpr hdir')⟩
      refine ⟨fun path => (hnoted path).trans (hkept path), List.forall_mem_cons.mpr ⟨?_, ?_⟩⟩
      · obtain ⟨e, he, hdir⟩ := FileSystem.named_of_read hbytes
        exact hback he hdir
      · intro other hother
        obtain ⟨e, he, hdir⟩ := hnamed other hother
        exact hback he hdir

end

/-! ### The temporary places from step to step -/

/-- What the temporary places are once the classes have been moved aside.  Whatever the
capture file's path names is plain.  If it names something, then the directory of both can be
walked, and there the staging directory is what the output directory was. -/
structure Carried (plan : Plan) (compiled now : FileSystem) : Prop where
  capture : ∀ e, now.named plan.captureFile = some e → e.Plain
  staging : ∀ e, now.named plan.captureFile = some e → ∃ out there,
    compiled.named plan.outputDir = some out ∧ now.named plan.stagingDir = some there ∧
      Entry.Alike out there

/-- What is left at the end: a staging directory that is none. -/
structure Left (plan : Plan) (compiled after : FileSystem) : Prop where
  capture : after.named plan.captureFile = none
  staging : ∃ out, compiled.named plan.outputDir = some out ∧
    (out = .dir → after.named plan.stagingDir = none) ∧
      (out ≠ .dir → ∃ there, after.named plan.stagingDir = some there ∧ Entry.Alike out there)

section

variable {plan : Plan} {compiled now later : FileSystem} {dir : String} {e : Entry}

theorem Carried.sameKind (h : Carried plan compiled now)
    (hcapture : SameKind plan.captureFile now later) (hstaging : SameKind plan.stagingDir now later) :
    Carried plan compiled later := by
  refine ⟨fun e he => ?_, fun e he => ?_⟩
  · obtain ⟨e', he', halike⟩ := hcapture.symm.exists_of_some he
    exact (h.capture e' he').alike halike.symm
  · obtain ⟨e', he', -⟩ := hcapture.symm.exists_of_some he
    obtain ⟨out, there, hout, hthere, halike⟩ := h.staging e' he'
    obtain ⟨there', hthere', halike'⟩ := hstaging.exists_of_some hthere
    exact ⟨out, there', hout, hthere', halike.trans halike'⟩

theorem Left.sameKind (h : Left plan compiled now) (hkept : ∀ path, SameKind path now later) :
    Left plan compiled later := by
  have hnone {path : String} (hgone : now.named path = none) : later.named path = none := by
    refine Option.eq_none_iff_forall_ne_some.mpr fun e he => ?_
    obtain ⟨e', he', -⟩ := (hkept path).symm.exists_of_some he
    cases hgone.symm.trans he'
  obtain ⟨out, hout, hdir, hother⟩ := h.staging
  refine ⟨hnone h.capture, out, hout, fun h => hnone (hdir h), fun h => ?_⟩
  obtain ⟨there, hthere, halike⟩ := hother h
  obtain ⟨there', hthere', halike'⟩ := (hkept _).exists_of_some hthere
  exact ⟨there', hthere', halike.trans halike'⟩

section

variable (hbeside : plan.Beside dir) (hdir : Path.isAbsolute dir = true)
include hbeside hdir

/-- Moving the classes aside. -/
theorem carried_of_moveAside_eq_ok (hfs : compiled.WellFormed)
    (hcapture : compiled.named plan.captureFile = some e) (hplain : e.Plain)
    (hok : exec (moveAside plan) compiled = (.ok (), now)) : Carried plan compiled now := by
  obtain ⟨⟨c, hc, hcaptureFile⟩, ⟨n, hn, hstagingDir⟩⟩ := hbeside
  obtain ⟨⟨⟩, freed, hremove, hmove⟩ := exec_bind_eq_ok.mp hok
  rw [FileOp.exec_call] at hremove
  cases hfreed : compiled.removeDir plan.stagingDir with
  | error r =>
    rw [hfreed] at hremove
    cases hremove
  | ok freed' =>
    rw [hfreed] at hremove
    cases hremove
    rw [hstagingDir] at hfreed hmove
    rw [hcaptureFile] at hcapture
    obtain ⟨l, node, hfind, rfl⟩ := FileSystem.named_eq_some_iff.mp hcapture
    refine ⟨fun e he => ?_, fun e he => ?_⟩
    · rw [hcaptureFile] at he
      obtain ⟨m, node', hfind', rfl⟩ := FileSystem.named_eq_some_iff.mp he
      rwa [FileSystem.entry_eq_of_move hfs hc hn hdir hfind hplain.ne_dir hfreed hmove hfind']
    · rw [hcaptureFile] at he
      obtain ⟨m, node', hfind', rfl⟩ := FileSystem.named_eq_some_iff.mp he
      obtain ⟨-, -, p, -, hway, hp⟩ := (FileSystem.find_join_iff hc hdir).mp hfind'
      have hwf := hfs.removeDir hfreed
      obtain ⟨d, rfl, -, hfree, -⟩ := FileSystem.free_of_removeDir hfreed
      obtain ⟨out, hout, hthere⟩ := FileOp.named_of_move hn hdir hway hp hwf hfree hmove
      rw [hstagingDir]
      exact ⟨out, out, (FileSystem.extends_remove _ _).named
        (FileSystem.sameStarts_remove _ _ _) hout, hthere, .refl out⟩

/-- Removing both. -/
theorem left_of_removed (hcarried : Carried plan compiled now)
    (hdiffer : plan.captureFile ≠ plan.stagingDir) (hcapture : now.named plan.captureFile = some e) :
    ∃ left, now.removeFile plan.captureFile = .ok left ∧
      Left plan compiled (exec (FileOp.removeTree plan.stagingDir) left).2 := by
  have hplain := hcarried.capture e hcapture
  obtain ⟨out, there, hout, hthere, halike⟩ := hcarried.staging e hcapture
  obtain ⟨⟨c, hc, hcaptureFile⟩, ⟨n, hn, hstagingDir⟩⟩ := hbeside
  rw [hcaptureFile] at hcapture hdiffer ⊢
  rw [hstagingDir] at hthere hdiffer ⊢
  obtain ⟨l, node, hfind, rfl⟩ := FileSystem.named_eq_some_iff.mp hcapture
  have ht := FileSystem.target_of_find_join hc hfind
  refine ⟨now.remove l, ?_, ?_⟩
  · rw [FileSystem.removeFile, ht]
    cases node with
    | dir entries => exact absurd rfl hplain.ne_dir
    | file | link | device => rfl
  · have hgone := FileSystem.named_remove_self hc hdir hfind
    have hkept := FileSystem.named_remove_plain hn hdir hc
      (fun hsame => hdiffer (by rw [hsame])) hfind hplain hthere
    obtain ⟨hremoved, hstays⟩ := FileOp.named_of_removeTree hn hdir hkept
    refine ⟨?_, out, hout, fun h => ?_, fun h => ?_⟩
    · rw [hcaptureFile]
      exact FileOp.named_removeTree_none hgone
    · rw [hstagingDir]
      exact hremoved (halike.dir.mp h)
    · rw [hstagingDir, hstays fun hthere => h (halike.dir.mpr hthere)]
      exact ⟨there, hkept, halike⟩

end

end

/-! ### The temporary places along a run -/

/-- Everything that was run has spared both places. -/
def Spared (plan : Plan) (ran : List Call) : Prop :=
  ∀ call ∈ ran, Spares plan.captureFile call.events ∧ Spares plan.stagingDir call.events

theorem Spared.left {plan : Plan} {ran more : List Call} (h : Spared plan (ran ++ more)) :
    Spared plan ran :=
  fun call hcall => h call (List.mem_append_left more hcall)

theorem Spared.last {plan : Plan} {ran : List Call} {call : Call} (h : Spared plan (ran ++ [call])) :
    Spares plan.captureFile call.events ∧ Spares plan.stagingDir call.events :=
  h call (List.mem_append_right ran (List.mem_singleton_self call))

section

variable (args : List String) (tools : Option Toolchain) (before : Host)

/-- The files when the compiler of a run has ended. -/
def CompiledTo (plan : Plan) (compiled : FileSystem) : Prop :=
  ∃ s h last, Reached args tools before s h ∧ s.progress = .compiled plan last ∧
    h.files = compiled

/-- What has become of the temporary places in a state. -/
def Tidy (s : State) (now : FileSystem) : Prop :=
  match s.progress with
  | .initial => True
  | .classified plan | .compiled plan _ => ∃ e, now.named plan.captureFile = some e ∧ e.Plain
  | .staged plan _ | .instrumented plan _ =>
    ∃ compiled, CompiledTo args tools before plan compiled ∧ Carried plan compiled now
  | .replayed plan _ => ∃ compiled e, CompiledTo args tools before plan compiled ∧
      Carried plan compiled now ∧ now.named plan.captureFile = some e
  | .done plan _ => ∃ compiled, CompiledTo args tools before plan compiled ∧ Left plan compiled now

/-- The places are tidy in a state, if what was run until then has spared them. -/
def Tended (s : State) (h : Host) : Prop :=
  ∃ ran, h.calls = before.calls ++ ran ∧
    ((∀ plan, s.plan? = some plan → Spared plan ran) → Tidy args tools before s h.files)

end

section

variable {args : List String} {tools : Option Toolchain} {before : Host} {s s' : State} {h h' : Host}

theorem Tidy.sameKind {now later : FileSystem} (htidy : Tidy args tools before s now)
    (hkept : ∀ path, SameKind path now later) : Tidy args tools before s later := by
  have hcapture {plan : Plan} : (∃ e, now.named plan.captureFile = some e ∧ e.Plain) →
      ∃ e, later.named plan.captureFile = some e ∧ e.Plain := by
    rintro ⟨e, he, hplain⟩
    obtain ⟨e', he', halike⟩ := (hkept _).exists_of_some he
    exact ⟨e', he', hplain.alike halike⟩
  have hcarried {plan : Plan} {compiled : FileSystem} (hcarried : Carried plan compiled now) :
      Carried plan compiled later := hcarried.sameKind (hkept _) (hkept _)
  unfold Tidy at *
  split at htidy
  · trivial
  · exact hcapture htidy
  · exact hcapture htidy
  · exact htidy.imp fun _ h => ⟨h.1, hcarried h.2⟩
  · exact htidy.imp fun _ h => ⟨h.1, hcarried h.2⟩
  · obtain ⟨compiled, e, hcompiled, h, he⟩ := htidy
    obtain ⟨e', he', -⟩ := (hkept _).exists_of_some he
    exact ⟨compiled, e', hcompiled, hcarried h, he'⟩
  · exact htidy.imp fun _ h => ⟨h.1, h.2.sameKind hkept⟩

theorem Advances.tended (hfiles : before.files.WellFormed)
    (hdir : Path.isAbsolute before.scratchDir = true) (hs : Reached args tools before s h)
    (ht : Tended args tools before s h) (hstep : Advances s h s' h') :
    Tended args tools before s' h' := by
  obtain ⟨ran, hran, htidy⟩ := ht
  rw [Tidy] at htidy
  have hsame {later : Host} (hrecord : SameRecord h later) : later.calls = before.calls ++ ran :=
    hrecord.2.trans hran
  have hR := background_sameRecord
  cases hstep with
  | @classified plan h' hprogress hrun hplanned =>
    obtain ⟨-, ⟨l, hfind⟩, -⟩ := hplanned.places
    exact ⟨ran, hsame ((hR.works_classify s).state hrun),
      fun _ => ⟨_, FileSystem.named_of_find hfind, .file _⟩⟩
  | @compiled plan outcome h₁ hprogress hrun _ =>
    rw [hprogress, State.plan?_eq hprogress] at htidy
    obtain ⟨call, hcall, hkept⟩ := sameKind_of_runCompiler_eq_ok hrun
    refine ⟨ran ++ [call], ?_, fun hspared => ?_⟩
    · rw [Host.printLine, Host.writeStdout, hcall, hran, List.append_assoc]
    · have hspares := hspared plan rfl
      obtain ⟨e, he, hplain⟩ := htidy fun plan hplan => by cases hplan; exact hspares.left
      obtain ⟨e', he', halike⟩ := (hkept e he hplain _ hspares.last.1).exists_of_some he
      exact ⟨e', he', hplain.alike halike⟩
  | @staged plan last files hprogress hmove =>
    rw [hprogress, State.plan?_eq hprogress] at htidy
    refine ⟨ran, hsame (hR.trans (hR.files h files ((sound_moveAside plan).state hmove))
      (hR.note (.inl rfl) _ _ _)), fun hspared => ?_⟩
    obtain ⟨e, he, hplain⟩ := htidy hspared
    have hcarried := carried_of_moveAside_eq_ok (hs.beside (State.plan?_eq hprogress)) hdir
      (hs.wellFormed hfiles) he hplain hmove
    have hnoted := Host.sameKind_note { h with files } (site "stageOutput") .debug
      ("staged " ++ plan.outputDir ++ " as " ++ plan.stagingDir)
    exact ⟨h.files, ⟨s, h, last, hs, hprogress, rfl⟩,
      hcarried.sameKind (hnoted _) (hnoted _)⟩
  | @instrumented plan last outcome h₁ hprogress hrun _ =>
    rw [hprogress, State.plan?_eq hprogress] at htidy
    obtain ⟨call, hcall, hkept⟩ := sameKind_of_runInstrumentor_eq_ok hrun
    refine ⟨ran ++ [call], ?_, fun hspared => ?_⟩
    · rw [Host.printLine, Host.writeStdout, hcall, hran, List.append_assoc]
    · have hspares := hspared plan rfl
      obtain ⟨compiled, hcompiled, hcarried⟩ :=
        htidy fun plan hplan => by cases hplan; exact hspares.left
      exact ⟨compiled, hcompiled,
        hcarried.sameKind (hkept _ hspares.last.1) (hkept _ hspares.last.2)⟩
  | @replayed plan last h' hprogress hrun =>
    rw [hprogress, State.plan?_eq hprogress] at htidy
    refine ⟨ran, hsame ((hR.works_replay (fun _ _ => ⟨rfl, rfl⟩) _).state hrun), fun hspared => ?_⟩
    obtain ⟨compiled, hcompiled, hcarried⟩ := htidy hspared
    obtain ⟨hkept, hnamed⟩ := named_of_replay hrun
    -- The capture file could be read, so the directory of both places can be walked.
    obtain ⟨e, he, -⟩ := hnamed plan.captureFile (by simp)
    obtain ⟨e', he', -⟩ := (hkept _).exists_of_some he
    exact ⟨compiled, e', hcompiled, hcarried.sameKind (hkept _) (hkept _), he'⟩
  | @done plan last h' hprogress hrun =>
    rw [hprogress, State.plan?_eq hprogress] at htidy
    refine ⟨ran, hsame ((hR.works_cleanUp s).state hrun), fun hspared => ?_⟩
    obtain ⟨compiled, e, hcompiled, hcarried, he⟩ := htidy hspared
    obtain ⟨h₀, -, -, -, hplanned⟩ := hs.planned
    obtain ⟨h₁, hplanned⟩ := hplanned plan (State.plan?_eq hprogress)
    obtain ⟨left, hremove, hleft⟩ := left_of_removed (hs.beside (State.plan?_eq hprogress)) hdir
      hcarried hplanned.differ he
    rw [exec_cleanUp hprogress, hremove] at hrun
    cases hrun
    exact ⟨compiled, hcompiled, hleft⟩

theorem Reached.tended (hfiles : before.files.WellFormed)
    (hdir : Path.isAbsolute before.scratchDir = true) (hs : Reached args tools before s h) :
    Tended args tools before s h := by
  induction hs with
  | @started s h hstart =>
    refine ⟨[], ?_, fun _ => ?_⟩
    · rw [List.append_nil]
      exact ((background_sameRecord.works_start args tools).state hstart).2
    · rw [Tidy, start_eq_ok hstart]
      trivial
  | @stepped s h₁ s' h₂ hs hstep ih =>
    obtain ⟨ran, hran, htidy⟩ := hstep.tended hfiles hdir hs ih
    exact ⟨ran, (background_sameRecord.note (.inr rfl) h₂ _ _).2.trans hran,
      fun hspared => (htidy hspared).sameKind fun path => Host.sameKind_note _ _ _ _ path⟩

end

/-- **What is left of the temporary files.**  Take a run that comes to its end, with tools
that leave what the two temporary paths name.  The capture file is gone, and the staging
directory is gone if and only if the path of the output directory named a directory when the
compiler had ended, no link being followed.  Otherwise what it named is still there, under the
name of the staging directory.  The user may write everything, so that no removal is refused
for want of a permission. -/
theorem leftovers_of_done {args : List String} {before after : Host} {s : State}
    (hfiles : before.files.WellFormed) (hdir : Path.isAbsolute before.scratchDir = true)
    (hrun : exec (run args) before = (.ok s, after))
    (hspared : ∀ plan, s.plan? = some plan → Spared plan (after.calls.drop before.calls.length)) :
    ∃ plan compiled out, s.plan? = some plan ∧ CompiledTo args none before plan compiled ∧
      compiled.named plan.outputDir = some out ∧
      after.files.named plan.captureFile = none ∧
      (after.files.named plan.stagingDir = none ↔ out = .dir) ∧
      (out ≠ .dir →
        ∃ there, after.files.named plan.stagingDir = some there ∧ Entry.Alike out there) := by
  have hends := ends_run args none before
  rw [hrun] at hends
  obtain ⟨hs, hdone⟩ := hends
  obtain ⟨plan, last, hprogress⟩ := State.progress_of_done hdone
  obtain ⟨ran, hran, htidy⟩ := hs.tended hfiles hdir
  rw [hran, List.drop_left] at hspared
  have htidy := htidy hspared
  rw [Tidy, hprogress] at htidy
  obtain ⟨compiled, hcompiled, hcapture, out, hout, hgone, hleft⟩ := htidy
  refine ⟨plan, compiled, out, State.plan?_eq hprogress, hcompiled, hout, hcapture,
    ⟨fun hnone => ?_, hgone⟩, hleft⟩
  by_contra hother
  obtain ⟨there, hthere, -⟩ := hleft hother
  cases hnone.symm.trans hthere

theorem Spared.of_keepsName {plan : Plan} {ran : List Call}
    (h : ran.all (fun call => call.events.all (Event.keepsName plan.captureFile) &&
      call.events.all (Event.keepsName plan.stagingDir)) = true) : Spared plan ran := by
  intro call hcall
  have hkeeps := List.all_eq_true.mp h call hcall
  rw [Bool.and_eq_true] at hkeeps
  exact ⟨.of_keepsName hkeeps.1, .of_keepsName hkeeps.2⟩

/-- A run to `out` whose tools spare both places. -/
theorem exec_run_spared {h : Host} {left : Option Entry}
    (hends : (exec (run (copyingArgs "out")) h).1.toOption.bind State.plan?
        = some (copyingPlan "out") ∧
      (((exec (run (copyingArgs "out")) h).2.calls.drop h.calls.length).all fun call =>
        call.events.all (Event.keepsName (copyingPlan "out").captureFile) &&
          call.events.all (Event.keepsName (copyingPlan "out").stagingDir)) = true ∧
      (exec (run (copyingArgs "out")) h).2.files.named (copyingPlan "out").stagingDir = left) :
    ∃ s after, exec (run (copyingArgs "out")) h = (.ok s, after) ∧
      s.plan? = some (copyingPlan "out") ∧
      Spared (copyingPlan "out") (after.calls.drop h.calls.length) ∧
      after.files.named (copyingPlan "out").stagingDir = left := by
  obtain ⟨hplan, hkeeps, hleft⟩ := hends
  generalize exec (run (copyingArgs "out")) h = outcome at hplan hkeeps hleft ⊢
  obtain ⟨failure | s, after⟩ := outcome
  · cases hplan
  · exact ⟨s, after, rfl, hplan, .of_keepsName hkeeps, hleft⟩

/-- A directory is moved aside, and nothing is left of it. -/
theorem leftovers_copyingHost :
    copyingHost.files.WellFormed ∧ Path.isAbsolute copyingHost.scratchDir = true ∧
      ∃ s after compiled,
        exec (run (copyingArgs "out")) copyingHost = (.ok s, after) ∧
        s.plan? = some (copyingPlan "out") ∧
        Spared (copyingPlan "out") (after.calls.drop copyingHost.calls.length) ∧
        CompiledTo (copyingArgs "out") none copyingHost (copyingPlan "out") compiled ∧
        compiled.named "out" = some .dir ∧
        after.files.named (copyingPlan "out").captureFile = none ∧
        after.files.named (copyingPlan "out").stagingDir = none := by
  have hfiles : copyingHost.files.WellFormed := chattyHost_wellFormed
  have hdir : Path.isAbsolute copyingHost.scratchDir = true := by decide
  obtain ⟨s, after, hrun, hplan, hspared, hgone⟩ :=
    exec_run_spared (h := copyingHost) (by decide +kernel : _ ∧ _ ∧ _ = none)
  obtain ⟨plan, compiled, out, hs, hcompiled, hout, hcapture, hstaging, -⟩ :=
    leftovers_of_done hfiles hdir hrun fun plan hs => by
      cases hplan.symm.trans hs
      exact hspared
  cases hplan.symm.trans hs
  obtain rfl := hstaging.mp hgone
  exact ⟨hfiles, hdir, s, after, compiled, hrun, hplan, hspared, hcompiled, hout, hcapture, hgone⟩

/-- The same host with a link to a directory. -/
def linkedHost : Host :=
  { copyingHost with
    files := (copyingHost.files.place ["work", "real"] (.dir [])).place ["work", "out"]
      (.link "/work/real") }

/-- A link to a directory is moved aside, and then it stays. -/
theorem left_linkedHost :
    linkedHost.files.WellFormed ∧ Path.isAbsolute linkedHost.scratchDir = true ∧
      ∃ s after, exec (run (copyingArgs "out")) linkedHost = (.ok s, after) ∧
        s.plan? = some (copyingPlan "out") ∧
        Spared (copyingPlan "out") (after.calls.drop linkedHost.calls.length) ∧
        after.files.named (copyingPlan "out").stagingDir = some (.link "/work/real") := by
  have hname {name : String} (h : name ∈ ["real", "out"]) : Location.EndsInName ["work", name] := by
    refine Location.endsInName_concat (d := ["work"]).mpr ?_
    simp only [List.mem_cons, List.not_mem_nil, or_false] at h
    rcases h with rfl | rfl <;> exact ⟨by decide, by decide, by decide, by decide⟩
  have hfiles : linkedHost.files.WellFormed :=
    (chattyHost_wellFormed.place (hname (by simp)) .emptyDir).place (hname (by simp)) (.link _)
  exact ⟨hfiles, by decide, exec_run_spared (by decide +kernel)⟩

end Pipeline

end MonitoredCompile

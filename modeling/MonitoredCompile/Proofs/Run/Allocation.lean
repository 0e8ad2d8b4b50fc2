/-
MonitoredCompile/Proofs/Run/Allocation.lean

The places that a classification makes.  Whatever the file system holds, whichever temporary
names are taken and wherever the directory for them and the declared output directory lie or
lead to: the capture file and the staging directory are new, and so is the output directory
if none was declared (`classify_allocates`).  They are three, nothing that was there has
changed, and nothing else is new but directories on the way to a declared output directory.

Each place is created under a name that has to be free, so what matters is what happens
between the parts of a classification: they only ever add to the files (`Adds`).  The one
thing that may change is the file of the log, at its end.
-/
import MonitoredCompile.Proofs.FileSystem.Additions
import MonitoredCompile.Proofs.Run.History
import MonitoredCompile.Proofs.Run.Refusal

namespace MonitoredCompile

open Attempt (exec exec_bind exec_bind_eq_ok Keeps)
open FileSystem (Adds Created Paves)

/-! ### The log -/

/-- Lines of this level go to the file at this location. -/
def LogAt (h : Host) (level : Log.Level) (l : Location) : Prop :=
  (∃ name, h.log.enabled name level = true) ∧ ∃ handle, h.log.handler = some (.file handle) ∧
    h.files.opened[handle]?.bind OpenFile.location = some l

theorem Logged.adds {h h' : Host} {made : Location → Prop} (hlogged : Logged h h') :
    Adds (LogAt h .debug) made h.files h'.files := by
  rcases hlogged.files with hfiles | ⟨handle, bytes, hhandler, henabled, hfiles⟩
  · rw [hfiles]
    exact .refl h.files
  · rw [hfiles]
    exact .appendOpen h.files handle bytes fun l hl => ⟨henabled, handle, hhandler, hl⟩

theorem Logged.logAt {h h' : Host} (hlogged : Logged h h') : LogAt h' .debug = LogAt h .debug := by
  have hadds : Adds (LogAt h .debug) (fun _ => False) h.files h'.files := hlogged.adds
  have hopened := hadds.opened
  funext l
  simp only [LogAt, hlogged.enabled, hlogged.handler, hopened]

namespace OnlyLogs

theorem sweep (rules : Arguments.Rules) (tokens : List String) :
    OnlyLogs (Arguments.sweep rules tokens) := by
  refine OnlyLogs.bind ?_ fun _ => (note _ _).bind fun _ => pure _
  exact Keeps.forIn frame_logged _ (fun _ _ _ => (note _ _).bind fun _ => pure _) _

theorem classifyLogged (tokens : List String) : OnlyLogs (Arguments.classifyLogged tokens) :=
  (sweep .standard tokens).bind fun _ => pure _

end OnlyLogs

/-! ### Temporary places -/

namespace Scratch

/-- A temporary node is added under a name that was free, and the log is as it was. -/
theorem make_adds (log : Location → Prop) {node : Node} {what before after path : String}
    {h h' : Host} {first : Char} (hfirst : before.toList.head? = some first) (hdot : first ≠ '.')
    (hbefore : '/' ∉ before.toList) (hafter : '/' ∉ after.toList)
    (hflat : ∀ name k, node.entryAt (name :: k) = none)
    (hok : exec (make node what before after) h = (.ok path, h')) :
    h'.log = h.log ∧ h'.scratchDir = h.scratchDir ∧
      ∃ d name, IsName name ∧ path = Path.join h.scratchDir name ∧
        h.files.Enters h.scratchDir d ∧ h.files.entryAt (d ++ [name]) = none ∧
        h'.files.find path false = .ok (d ++ [name], node) ∧
        Adds log (· = d ++ [name]) h.files h'.files := by
  obtain ⟨⟨n, hpath⟩, hcreate⟩ := make_eq_ok hok
  have hsame : h'.log = h.log ∧ h'.scratchDir = h.scratchDir := by
    rw [exec_make] at hok
    split at hok <;> cases hok
    exact ⟨rfl, rfl⟩
  have hname := isName hfirst hdot hbefore hafter n
  rw [hpath] at hcreate
  obtain ⟨d, henters, hfree, hfind, hadds⟩ :=
    FileSystem.adds_of_create log hname hflat hcreate
  exact ⟨hsame.1, hsame.2, d, _, hname, hpath, henters, hfree, hpath ▸ hfind, hadds⟩

theorem makeDir_adds (log : Location → Prop) {before path : String} {h h' : Host} {first : Char}
    (hfirst : before.toList.head? = some first) (hdot : first ≠ '.') (hbefore : '/' ∉ before.toList)
    (hok : exec (makeDir before) h = (.ok path, h')) :
    h'.log = h.log ∧ h'.scratchDir = h.scratchDir ∧
      ∃ d name, IsName name ∧ path = Path.join h.scratchDir name ∧
        h.files.Enters h.scratchDir d ∧ h.files.entryAt (d ++ [name]) = none ∧
        h'.files.find path false = .ok (d ++ [name], .dir []) ∧
        Adds log (· = d ++ [name]) h.files h'.files :=
  make_adds log hfirst hdot hbefore (by decide) (fun _ _ => rfl) hok

end Scratch

namespace Pipeline

/-! ### The output directory -/

theorem adds_of_resolve_some {dir outputDir : String} {h h' : Host}
    (hok : exec (resolveOutputDir (some dir)) h = (.ok outputDir, h')) :
    h'.scratchDir = h.scratchDir ∧ Paves dir h.files h'.files := by
  have hscratch := (background_sameScratch.works_resolveOutputDir (some dir)).state hok
  exact ⟨hscratch, (FileOp.paves_ensureDirs dir).state (resolveOutputDir_declared hok).2⟩

/-- Without a declaration the directory is made, and then a line is logged about it. -/
theorem adds_of_resolve_none {outputDir : String} {h h' : Host}
    (hok : exec (resolveOutputDir none) h = (.ok outputDir, h')) :
    h'.scratchDir = h.scratchDir ∧
      ∃ d name, h'.files.Enters h.scratchDir d ∧ h.files.entryAt (d ++ [name]) = none ∧
        h'.files.find outputDir false = .ok (d ++ [name], .dir []) ∧
        Adds (LogAt h .debug) (· = d ++ [name]) h.files h'.files := by
  obtain ⟨dir, h₁, hmake, hrest⟩ := exec_bind_eq_ok.mp hok
  obtain ⟨⟨⟩, h₂, hnote, hpure⟩ := exec_bind_eq_ok.mp hrest
  cases hpure
  have hnoted : Logged h₁ h' := (OnlyLogs.note resolveSite _).state hnote
  obtain ⟨hlog, hscratch, d, name, -, -, henters, hfree, hfind, hadds⟩ :=
    Scratch.makeDir_adds (LogAt h .debug) (show "topljavac-out".toList.head? = some 't' by decide)
      (by decide) (by decide) hmake
  have hsame : LogAt h₁ .debug = LogAt h .debug := by
    funext l
    simp only [LogAt, hlog, hadds.opened]
  have hlogged : Adds (LogAt h .debug) (fun _ => False) h₁.files h'.files := hsame ▸ hnoted.adds
  have hscratch' := (background_sameScratch.works_resolveOutputDir none).state hok
  refine ⟨hscratch', d, name, (henters.embeds hadds.embeds).embeds hlogged.embeds, hfree, ?_, ?_⟩
  · exact hlogged.find_emptyDir hfind fun _ => id
  · exact hadds.trans (hlogged.mono fun _ => False.elim)

/-- This is the world of a classification when the output directory has been resolved. -/
def Resolves (args : List String) (before : Host) (plan : Plan) (mid : Host) : Prop :=
  ∃ tokens h₁ h₂, exec (Arguments.expand args) before = (.ok tokens, h₁) ∧
    exec (Arguments.classifyLogged tokens) h₁ = (.ok plan.args, h₂) ∧
    exec (resolveOutputDir plan.args.outputDir)
      (h₂.note (site "classifyArgs") .debug ("classified: " ++ plan.args.shown))
      = (.ok plan.outputDir, mid)

theorem Resolves.unique {args : List String} {before mid mid' : Host} {plan : Plan}
    (h : Resolves args before plan mid) (h' : Resolves args before plan mid') : mid = mid' := by
  obtain ⟨tokens, h₁, h₂, hexpand, hclassify, hresolve⟩ := h
  obtain ⟨tokens', h₁', h₂', hexpand', hclassify', hresolve'⟩ := h'
  cases hexpand.symm.trans hexpand'
  cases hclassify.symm.trans hclassify'
  cases hresolve.symm.trans hresolve'
  rfl

/-! ### All places -/

/-- Something may be new here because of the output directory: the fresh directory itself, or
a directory on the way to the declared one. -/
def ForOutput (plan : Plan) (after : Host) (l : Location) : Prop :=
  match plan.args.outputDir with
  | none => after.files.find plan.outputDir false = .ok (l, .dir [])
  | some dir => after.files.OnTheWay dir l

/-- What a classification has made, and what it has left alone. -/
structure Allocates (args : List String) (before : Host) (plan : Plan) (after : Host)
    (capture staging : Location) : Prop where
  capture_new : Created before.files after.files plan.captureFile (.file { bytes := [] }) capture
  staging_new : Created before.files after.files plan.stagingDir (.dir []) staging
  output_new : plan.args.outputDir = none →
    ∃ l, Created before.files after.files plan.outputDir (.dir []) l
  declared : ∀ dir, plan.args.outputDir = some dir → plan.outputDir = dir
  distinct : plan.captureFile ≠ plan.stagingDir ∧ plan.captureFile ≠ plan.outputDir ∧
    plan.outputDir ≠ plan.stagingDir
  /-- A directory that the output path led to when it had been resolved is still what it
  leads to, and is not the staging directory, however its path is written. -/
  apart : ∀ mid l, Resolves args before plan mid → mid.files.DirAt plan.outputDir l →
    after.files.DirAt plan.outputDir l ∧ l ≠ staging
  adds : Adds (LogAt before .debug) (fun l => l = capture ∨ l = staging ∨ ForOutput plan after l)
    before.files after.files

/-- What is created when the output directory has been resolved has another path. -/
theorem outputDir_ne_of_created {declared : Option String} {outputDir dir name : String}
    {h mid : Host} {fs fs' : FileSystem} {log made : Location → Prop} {node : Node} {l : Location}
    (hname : IsName name) (hok : exec (resolveOutputDir declared) h = (.ok outputDir, mid))
    (hadds : Adds log made mid.files fs) (hcreated : Created fs fs' (Path.join dir name) node l) :
    outputDir ≠ Path.join dir name := by
  rintro rfl
  have hnames : Path.names (Path.join dir name) = Path.names dir ++ [name] :=
    Path.names_join ⟨hname.ne_empty, hname.no_slash⟩
  have hlast := Path.splitParent_ne_here hnames hname.ne_here
  obtain ⟨m, hdir⟩ := dirAt_of_resolveOutputDir hlast hok
  obtain ⟨entries, hfind⟩ := hadds.embeds.dirAt hdir
  exact hcreated.unnamed true _ hfind

/-- What resolving the output directory adds, seen from after the temporary places have been
made in the directory for them. -/
theorem adds_of_resolve {plan : Plan} {h mid after : Host} {made : Location → Prop}
    (hok : exec (resolveOutputDir plan.args.outputDir) h = (.ok plan.outputDir, mid))
    (hlater : Adds (LogAt h .debug) made mid.files after.files)
    (hmade : ∀ m, made m → ∃ d name, mid.files.Enters h.scratchDir d ∧ m = d ++ [name]) :
    Adds (LogAt h .debug) (ForOutput plan after) h.files mid.files ∧
      (plan.args.outputDir = none → ∃ l, h.files.entryAt l = none ∧
        after.files.find plan.outputDir false = .ok (l, .dir [])) := by
  cases hdeclared : plan.args.outputDir with
  | some dir =>
    rw [hdeclared] at hok
    obtain ⟨-, hpaves⟩ := adds_of_resolve_some hok
    refine ⟨.of_grows hpaves.toGrows hpaves.opened fun l hnone hsome => ?_, nofun⟩
    rw [ForOutput, hdeclared]
    exact hlater.onTheWay (hpaves.new l hnone hsome)
  | none =>
    rw [hdeclared] at hok
    obtain ⟨-, d, name, henters, hfree, hfind, hadds⟩ := adds_of_resolve_none hok
    -- The temporary places are beside the output directory and not in it.
    have houtside (below : String) : ¬ made (d ++ [name] ++ [below]) := by
      intro hin
      obtain ⟨d', name', henters', hsame⟩ := hmade _ hin
      obtain rfl := henters.unique henters'
      have hlength := congrArg List.length hsame
      simp at hlength
    have hafter := hlater.find_emptyDir hfind houtside
    refine ⟨hadds.mono fun l hl => ?_, fun _ => ⟨d ++ [name], hfree, hafter⟩⟩
    rw [ForOutput, hdeclared]
    exact hl ▸ hafter

theorem Planned.allocates {args : List String} {before after : Host} {plan : Plan}
    (h : Planned args before plan after) :
    ∃ capture staging, Allocates args before plan after capture staging := by
  have hdiffer := h.differ
  have hdeclared := h.apart.declared
  obtain ⟨tokens, h₁, h₂, h₃, h₄, hexpand, hclassify, -, hdir, hcapture, hstaging⟩ := h
  have hresolves : Resolves args before plan h₃ := ⟨tokens, h₁, h₂, hexpand, hclassify, hdir⟩
  have hlogged : Logged before
      (h₂.note (site "classifyArgs") .debug ("classified: " ++ plan.args.shown)) :=
    .line _ _ (frame_logged.trans ((OnlyLogs.expand args).state hexpand)
      ((OnlyLogs.classifyLogged tokens).state hclassify))
  set noted := h₂.note (site "classifyArgs") .debug ("classified: " ++ plan.args.shown)
  have hlog : LogAt noted .debug = LogAt before .debug := hlogged.logAt
  -- Both temporary places are names in one directory.
  obtain ⟨-, hscratch, d, name, hname, hpath, henters, hfree, hfind, hadds⟩ :=
    Scratch.make_adds (LogAt before .debug)
      (show "topljavac".toList.head? = some 't' by decide) (by decide) (by decide) (by decide)
      (fun _ _ => rfl) hcapture
  obtain ⟨-, -, d', name', hname', hpath', henters', hfree', hfind', hadds'⟩ :=
    Scratch.makeDir_adds (LogAt before .debug)
      (show "topljavac-in".toList.head? = some 't' by decide) (by decide) (by decide) hstaging
  obtain rfl : d = d' := by
    rw [hscratch] at henters'
    exact (henters.embeds hadds.embeds).unique henters'
  set capture := d ++ [name]
  set staging := d ++ [name']
  have hfind_after : after.files.find plan.captureFile false
      = .ok (capture, .file { bytes := [] }) :=
    (FileSystem.grows_of_create (Scratch.make_eq_ok hstaging).2).find_file hfind
  have hlater : Adds (LogAt before .debug) (fun l => l = capture ∨ l = staging) h₃.files after.files :=
    (hadds.mono fun _ => .inl).trans (hadds'.mono fun _ => .inr)
  -- What was added before them.
  have hsame : h₃.scratchDir = noted.scratchDir :=
    (background_sameScratch.works_resolveOutputDir _).state hdir
  obtain ⟨hresolved, hnew⟩ := adds_of_resolve hdir (hlog ▸ hlater) fun m hm => by
    rw [← hsame]
    rcases hm with rfl | rfl
    · exact ⟨d, name, henters, rfl⟩
    · exact ⟨d, name', henters, rfl⟩
  rw [hlog] at hresolved
  have hearlier : Adds (LogAt before .debug) (ForOutput plan after) before.files h₃.files :=
    hlogged.adds.trans hresolved
  have hall : Adds (LogAt before .debug)
      (fun l => l = capture ∨ l = staging ∨ ForOutput plan after l) before.files after.files :=
    (hearlier.mono fun _ hl => .inr (.inr hl)).trans
      (hlater.mono fun _ hl => hl.elim .inl fun hl => .inr (.inl hl))
  have hcapture_new : Created before.files after.files plan.captureFile
      (.file { bytes := [] }) capture :=
    hall.created (hearlier.entryAt_eq_none hfree) (by simp) hfind_after
  have hstaging_new : Created before.files after.files plan.stagingDir (.dir []) staging :=
    hall.created (hearlier.entryAt_eq_none (hadds.entryAt_eq_none hfree')) (by simp) hfind'
  refine ⟨capture, staging, hcapture_new, hstaging_new, fun hnone => ?_, hdeclared,
    ⟨hdiffer, ?_, ?_⟩, fun mid l hmid hthere => ?_, hall⟩
  · obtain ⟨l, hl, hfound⟩ := hnew hnone
    have hadded : Adds (LogAt before .debug) (fun _ => False) before.files noted.files := hlogged.adds
    have hbefore : before.files.entryAt l = none := hadded.entryAt_eq_none hl
    exact ⟨l, hall.created hbefore (by simp) hfound⟩
  · have hcreated := hadds.created hfree (by simp) hfind
    rw [hpath] at hcreated ⊢
    have hsame : Adds (LogAt before .debug) (fun _ => False) h₃.files h₃.files := .refl h₃.files
    exact (outputDir_ne_of_created hname hdir hsame hcreated).symm
  · have hcreated := hadds'.created hfree' (by simp) hfind'
    rw [hpath'] at hcreated ⊢
    exact outputDir_ne_of_created hname' hdir hadds hcreated
  · obtain rfl := hresolves.unique hmid
    refine ⟨hlater.embeds.dirAt hthere, ?_⟩
    rintro rfl
    -- The directory was there when nothing was yet in the place of the other.
    have hstill := (FileSystem.dirAt_iff.mp (hadds.embeds.dirAt hthere)).2
    rw [hfree'] at hstill
    cases hstill

/-- **A classification allocates.**  If it succeeds then it has made a plan, its temporary places
are new and are not the output directory, and whatever else is new lies on the way to the output
directory.  All that was there is unchanged, but for lines at the end of the log. -/
theorem classify_allocates {s s' : State} {before after : Host} (hs : s.progress = .initial)
    (hok : exec (classify s) before = (.ok s', after)) :
    ∃ plan capture staging, s' = { s with progress := .classified plan } ∧
      Allocates s.rawArgs before plan after capture staging := by
  have hgives := gives_classify s before
  rw [hok] at hgives
  have hadvances : Advances s before s' after := hgives
  cases hadvances with
  | classified _ _ hplanned =>
    obtain ⟨capture, staging, hallocates⟩ := hplanned.allocates
    exact ⟨_, capture, staging, rfl, hallocates⟩
  | compiled hs' | staged hs' | instrumented hs' | replayed hs' | done hs' =>
    cases hs.symm.trans hs'

/-- A host where the first temporary name for either place is taken, by a file and by a link
that leads nowhere. -/
def crowdedHost : Host where
  files := ⟨.dir [("tmp", .dir [("topljavac00000001stderr", .file { bytes := Utf8.encode "mine\n" }),
    ("topljavac-in00000003", .link "nowhere")])], some [], []⟩
  programs _ _ := .exit 0
  scratchDir := "/tmp"

/-- A state that declares a directory whose parents are missing. -/
def crowdedState : State := ⟨⟨"", "javac", "toplc"⟩, ["-d", "gen/../out/classes", "A.java"], .initial⟩

theorem classify_allocates_crowdedHost :
    ∃ s' after plan capture staging, exec (classify crowdedState) crowdedHost = (.ok s', after) ∧
      plan.captureFile = "/tmp/topljavac00000002stderr" ∧
      plan.stagingDir = "/tmp/topljavac-in00000004" ∧
      Allocates crowdedState.rawArgs crowdedHost plan after capture staging := by
  have hplan : ((exec (classify crowdedState) crowdedHost).1.toOption.bind State.plan?).map
        (fun plan => (plan.captureFile, plan.stagingDir))
      = some ("/tmp/topljavac00000002stderr", "/tmp/topljavac-in00000004") := by
    decide +kernel
  rcases hrun : exec (classify crowdedState) crowdedHost with ⟨failure | s', after⟩
  · rw [hrun] at hplan
    cases hplan
  · obtain ⟨plan, capture, staging, rfl, hallocates⟩ := classify_allocates rfl hrun
    rw [hrun] at hplan
    obtain ⟨hcapture, hstaging⟩ := Prod.mk.inj (Option.some.inj hplan)
    exact ⟨_, after, plan, capture, staging, rfl, hcapture, hstaging, hallocates⟩

end Pipeline

end MonitoredCompile

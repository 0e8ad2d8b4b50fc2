/-
MonitoredCompile/Proofs/Run/ReportLine.lean

How many lines the report of a failed run has.  Most of what it says is the program's own
or stands in quotes, and is on one line whatever it tells of.  A few texts are shown as
they are (`Failure.verbatim`): the words of a command that has failed, the directory of
the tools if it is not there, and the two directories of a staging that failed.  So the
report is one line if and only if none of these has a line end in it
(`report_singleLine_iff`).

A line end comes into them from the arguments, the settings of the tools and the directory
for temporary files, and from nowhere else: a line of an argument file has none, and no
path or name that a tool or the system brings in is ever shown without quotes.
-/
import MonitoredCompile.Proofs.Arguments.Grammar
import MonitoredCompile.Proofs.FileSystem.Faults
import MonitoredCompile.Proofs.Run.Configuration
import MonitoredCompile.Proofs.Run.Places
import MonitoredCompile.Proofs.Run.Report
import MonitoredCompile.Proofs.Text.Quoted

namespace MonitoredCompile

open Attempt (exec exec_bind exec_bind_eq_ok frame_any Keeps)
open Text (Line Unbroken unbroken_append unbroken_intToString unbroken_join unbroken_ofList unbroken_quote)

/-! ### What the report shows -/

/-- The texts that the message shows as they are. -/
def FileFault.verbatim : FileFault → List String
  | intoItself src dst => [src, dst]
  | noFreeName what => [what]
  | _ => []

/-- None of them has a line end in it. -/
def FileFault.Plain (fault : FileFault) : Prop := ∀ text ∈ fault.verbatim, Unbroken text

theorem FileFault.unbroken_message {fault : FileFault} : Unbroken fault.message ↔ fault.Plain := by
  have hcomma : Unbroken ", " := by decide
  cases fault with
  | nul =>
    show Unbroken "embedded null byte" ↔ _
    simp [Unbroken, Plain, verbatim]
  | noCurrentDirectory =>
    show Unbroken Errno.noEntry.message ↔ _
    simp [Errno.unbroken_message, Plain, verbatim]
  | refused e path =>
    show Unbroken (e.message ++ ": " ++ Text.quote path) ↔ _
    simp only [unbroken_append, Errno.unbroken_message, unbroken_quote]
    simp [Unbroken, Plain, verbatim]
  | linkRefused e target path =>
    show Unbroken (e.message ++ ": " ++ Text.quote target ++ " -> " ++ Text.quote path) ↔ _
    simp only [unbroken_append, Errno.unbroken_message, unbroken_quote]
    simp [Unbroken, Plain, verbatim]
  | intoItself src dst =>
    show Unbroken ("Cannot move a directory '" ++ src ++ "' into itself '" ++ dst ++ "'.") ↔ _
    simp [Unbroken, Plain, verbatim]
  | noFreeName what =>
    show Unbroken ("[Errno 17] No usable temporary " ++ what ++ " name found") ↔ _
    simp [Unbroken, Plain, verbatim]
  | notCopied parts =>
    have hpart (part : String × String × String) : Unbroken (shownPart part) := by
      simp only [shownPart, unbroken_append, unbroken_join hcomma, List.forall_mem_cons,
        unbroken_quote]
      simp [Unbroken]
    show Unbroken ("[" ++ Text.join ", " (parts.map shownPart) ++ "]") ↔ _
    simp only [unbroken_append, unbroken_join hcomma, List.forall_mem_map, hpart]
    simp [Unbroken, Plain, verbatim]

namespace Failure

/-- The texts that the report shows as they are. -/
def verbatim : Failure → List String
  | missingToolDir dir => [dir]
  | staging src dst cause => src :: dst :: cause.verbatim
  | toolFailed _ command => command
  | file fault => fault.verbatim
  | invalidPolicy stream shown => [stream, shown]
  | _ => []

/-- None of them has a line end in it. -/
def Plain (failure : Failure) : Prop := ∀ text ∈ failure.verbatim, Unbroken text

theorem plain_of_nil {failure : Failure} (h : failure.verbatim = []) : failure.Plain := by
  rw [Plain, h]
  exact nofun

/-- A failure of a kind that is not the command's own. -/
theorem unbroken_exception {message : String} :
    Unbroken ("E: Exception (" ++ message ++ ").") ↔ Unbroken message := by
  simp [Unbroken]

theorem unbroken_report {failure : Failure} : Unbroken failure.report ↔ failure.Plain := by
  have hblank : Unbroken " " := by decide
  have hnone (message : String) (hmessage : Unbroken message) (h : failure.verbatim = []) :
      Unbroken ("E: Exception (" ++ message ++ ").") ↔ failure.Plain :=
    iff_of_true (unbroken_exception.mpr hmessage) (plain_of_nil h)
  cases failure with
  | malformedArgFile => exact iff_of_true (by decide) (plain_of_nil rfl)
  | emptyCommand | lineOutOfRange => exact hnone "list index out of range" (by decide) rfl
  | nulInCommand => exact hnone "embedded null byte" (by decide) rfl
  | missingToolDir dir =>
    show Unbroken ("E: " ++ ("Path to tools \"" ++ dir ++ "\" does not exist")) ↔ _
    simp [Unbroken, Plain, verbatim]
  | staging src dst cause =>
    show Unbroken ("E: " ++ ("could not move " ++ src ++ " to " ++ dst ++ ": " ++ cause.message)) ↔ _
    simp only [unbroken_append, FileFault.unbroken_message]
    simp [Unbroken, Plain, verbatim, FileFault.Plain, and_assoc]
  | toolFailed status command =>
    show Unbroken ("failed (errorcode " ++ toString status ++ ") to run: " ++ Text.join " " command)
      ↔ _
    simp only [unbroken_append, unbroken_intToString, unbroken_join hblank]
    simp [Unbroken, Plain, verbatim]
  | file fault => exact unbroken_exception.trans FileFault.unbroken_message
  | undecodable fault => exact hnone fault.message fault.unbroken_message rfl
  | wrongPhase expected actual =>
    have hlabel (phase : Phase) : Unbroken phase.label := by cases phase <;> decide
    refine hnone ("Stage expects phase " ++ expected.label ++ ", state is in " ++ actual.label) ?_ rfl
    simp only [unbroken_append, hlabel]
    decide
  | invalidPolicy stream shown =>
    show Unbroken ("E: Exception (" ++ ("Invalid " ++ stream ++ " policy: " ++ shown) ++ ").") ↔ _
    simp [Unbroken, Plain, verbatim]

end Failure

/-- The text is one line with its end. -/
def Text.SingleLine (text : String) : Prop :=
  text.toList.count '\n' = 1 ∧ text.toList.getLast? = some '\n'

theorem Text.singleLine_iff {text : String} : SingleLine (text ++ "\n") ↔ Unbroken text := by
  have hend : "\n".toList = ['\n'] := rfl
  rw [SingleLine, String.toList_append, hend, List.count_append, List.count_singleton_self,
    Nat.add_eq_right, List.count_eq_zero]
  simp [Unbroken]

/-! ### Failures of which only the program's own words are shown -/

/-- Whatever this part of a run fails with is reported on one line. -/
abbrev Plainly {α : Type} (part : Run α) : Prop := Keeps (fun _ _ => True) Failure.Plain part

theorem FileOp.covers_plain : FileOp.Covers FileFault.Plain where
  refused path r := by cases r <;> exact List.forall_mem_nil _
  link _ _ _ := List.forall_mem_nil _
  parts _ _ := List.forall_mem_nil _

namespace Plainly

variable {α : Type}

theorem throw {failure : Failure} (h : failure.verbatim = []) : Plainly (throw failure : Run α) :=
  Keeps.throw frame_any (Failure.plain_of_nil h)

theorem note (site : Log.Site) (level : Log.Level) (message : String) :
    Plainly (Run.note site level message) := Keeps.modify fun _ => trivial

theorem onFiles {op : FileOp α} (hop : FileOp.FailsAs FileFault.Plain op) :
    Plainly (Run.onFiles op) := by
  intro h
  rw [Run.exec_onFiles]
  cases hrun : op.exec h.files with
  | mk result files =>
    cases result with
    | error fault => exact ⟨trivial, fun failure he => Except.error.inj he ▸ hop.error hrun⟩
    | ok a => exact ⟨trivial, nofun⟩

theorem ofFile (path : String) : Plainly (Arguments.ofFile path) := by
  refine (onFiles (FileOp.covers_plain.ask _ _)).bind frame_any fun bytes => ?_
  split
  · exact throw rfl
  · refine (note _ _ _).bind frame_any fun _ => ?_
    split
    · exact throw rfl
    · exact .pure frame_any _

theorem expand (tokens : List String) : Plainly (Arguments.expand tokens) := by
  induction tokens with
  | nil => exact .pure frame_any []
  | cons token rest ih =>
    have hrest (here : List String) :
        Plainly (do let more ← Arguments.expand rest; pure (here ++ more)) :=
      ih.bind frame_any fun more => .pure frame_any _
    rw [Arguments.expand]
    dsimp only
    split
    · exact (ofFile _).bind frame_any hrest
    · exact Keeps.bind frame_any (.pure frame_any _) hrest

theorem classifyLogged (tokens : List String) : Plainly (Arguments.classifyLogged tokens) := by
  intro h
  rw [Arguments.classifyLogged_result]
  exact ⟨trivial, nofun⟩

/-- What is looked for under a temporary name is a file or a directory. -/
theorem make {node : Node} {what : String} (hwhat : Unbroken what) (before after : String) :
    Plainly (Scratch.make node what before after) := by
  have hsearch (pathOf : Nat → String) (fs : FileSystem) (attempts n : Nat) (fault : FileFault)
      (h : (Scratch.search node pathOf what fs attempts n).1 = .error fault) : fault.Plain := by
    induction attempts generalizing n with
    | zero =>
      cases h
      exact List.forall_mem_singleton.mpr hwhat
    | succ attempts ih =>
      rw [Scratch.search] at h
      split at h
      · cases h
      · exact ih _ h
      · cases h
        exact FileOp.covers_plain.refused _ _
  intro h
  rw [Scratch.exec_make]
  split
  · refine ⟨trivial, fun failure he => ?_⟩
    cases he
  · next fault last hfound =>
    refine ⟨trivial, fun failure he => ?_⟩
    cases he
    exact hsearch _ _ _ _ _ (congrArg Prod.fst hfound)

theorem resolveOutputDir (declared : Option String) :
    Plainly (Pipeline.resolveOutputDir declared) := by
  unfold Pipeline.resolveOutputDir
  split
  · refine (make (by decide) _ _).bind frame_any fun dir => ?_
    exact (note _ _ _).bind frame_any fun _ => .pure frame_any _
  · exact (onFiles (FileOp.covers_plain.makeDirsWithin _ _ _)).bind frame_any
      fun _ => .pure frame_any _

theorem classify (s : Pipeline.State) : Plainly (Pipeline.classify s) := by
  rw [Pipeline.classify]
  split
  · refine (expand _).bind frame_any fun tokens => ?_
    refine (classifyLogged _).bind frame_any fun args => ?_
    refine (note _ _ _).bind frame_any fun _ => ?_
    refine (resolveOutputDir _).bind frame_any fun outputDir => ?_
    refine (make (by decide) _ _).bind frame_any fun captureFile => ?_
    exact (make (by decide) _ _).bind frame_any fun stagingDir => .pure frame_any _
  · exact throw rfl

theorem openRoute (own : Route) (policy : Launch.Policy) :
    Plainly (Launch.openRoute own policy) := by
  cases policy with
  | file path =>
    intro h
    rw [Launch.exec_openRoute_file]
    split
    · exact ⟨trivial, nofun⟩
    · refine ⟨trivial, fun failure he => ?_⟩
      cases he
      exact FileOp.covers_plain.refused _ _
  | discard | inherit | merge | unknown value => exact .pure frame_any _

theorem openRoutes (out err : Launch.Policy) : Plainly (Launch.openRoutes out err) := by
  refine (openRoute .stdout out).bind frame_any fun output => ?_
  dsimp only
  split
  · exact Keeps.bind frame_any (.pure frame_any _) fun _ => .pure frame_any _
  · exact (openRoute .stderr _).bind frame_any fun _ => .pure frame_any _

theorem resolve (command : List String) : Plainly (Launch.resolve command) := by
  cases command with
  | nil => exact throw rfl
  | cons word args =>
    rw [Launch.resolve]
    dsimp only
    split
    · exact throw rfl
    · refine (Keeps.get frame_any).bind frame_any fun h => ?_
      split
      · exact .pure frame_any _
      · exact .throw frame_any (FileOp.covers_plain.refused word _)

theorem resolveLogged (command : List String) : Plainly (Launch.resolveLogged command) := by
  refine (resolve command).tryCatch frame_any fun failure hplain => ?_
  dsimp only
  split
  · split
    · exact (note _ _ _).bind frame_any fun _ => .throw frame_any hplain
    · exact .throw frame_any hplain
  · exact .throw frame_any hplain

/-- A stage that could not be run. -/
theorem runStage {out err : Launch.Policy} (hout : out.isForOutput = true)
    (herr : err.isForErrors = true) (command : List String) :
    Plainly (Launch.runStage command out err) := by
  have hready : Plainly (Launch.ready command out (Launch.sharedErrors out err)) := by
    refine (openRoutes _ _).bind frame_any fun routes => ?_
    refine (onFiles (FileOp.Covers.currentDir (List.forall_mem_nil _))).bind frame_any fun dir => ?_
    refine (note _ _ _).bind frame_any fun _ => ?_
    exact (resolveLogged command).bind frame_any fun _ => .pure frame_any _
  intro h
  rw [Launch.exec_runStage hout herr]
  split
  · next failure h₁ hrun => exact ⟨trivial, fun _ he => Except.error.inj he ▸ hready.error hrun⟩
  · exact ⟨trivial, nofun⟩

theorem replayFiles (plan : Pipeline.Plan) : Plainly (Pipeline.replayFiles plan) := by
  have hreplay (sources : List String) :
      Plainly (Diagnostics.replay Host.writeStderr sources) := by
    induction sources with
    | nil => exact .pure frame_any ()
    | cons source rest ih =>
      rw [Diagnostics.replay_writeStderr_cons]
      refine (note _ _ _).bind frame_any fun _ => ?_
      refine (onFiles (FileOp.covers_plain.ask _ _)).bind frame_any fun bytes => ?_
      exact Keeps.bind frame_any (Keeps.modify fun _ => trivial) fun _ => ih
  exact hreplay _

theorem cleanUp (s : Pipeline.State) : Plainly (Pipeline.cleanUp s) := by
  rw [Pipeline.cleanUp]
  split
  · refine Keeps.bind frame_any ?_ fun _ => ?_
    · refine (onFiles (FileOp.covers_plain.call _ _)).tryCatch frame_any fun failure hplain => ?_
      split
      · split
        · exact note _ _ _
        · exact .throw frame_any hplain
      · exact .throw frame_any hplain
    · have hquiet (path : String) :
          FileOp.FailsAs FileFault.Plain (FileOp.removeTreeQuietly path) :=
        (FileOp.covers_plain.removeTree path).tryCatch frame_any fun _ _ => .pure frame_any ()
      exact (onFiles (hquiet _)).bind frame_any fun _ => .pure frame_any _
  · exact throw rfl

end Plainly

/-! ### Where a line end can come from -/

theorem Path.unbroken_join {dir path : String} (hdir : Unbroken dir) (hpath : Unbroken path) :
    Unbroken (join dir path) := by
  rw [join]
  split
  · exact hpath
  · split
    · exact unbroken_append.mpr ⟨hdir, hpath⟩
    · exact unbroken_append.mpr ⟨unbroken_append.mpr ⟨hdir, by decide⟩, hpath⟩

theorem Scratch.unbroken_path {dir before after : String} (hdir : Unbroken dir)
    (hbefore : Unbroken before) (hafter : Unbroken after) (n : Nat) :
    Unbroken (path dir before after n) := by
  have hdigits : Unbroken (eightDigits n) := by
    rw [eightDigits, unbroken_append, unbroken_ofList]
    refine ⟨fun hmem => ?_, Text.unbroken_natToString n⟩
    exact absurd (List.eq_of_mem_replicate hmem) (by decide)
  refine Path.unbroken_join hdir ?_
  exact unbroken_append.mpr ⟨unbroken_append.mpr ⟨hbefore, hdigits⟩, hafter⟩

namespace Arguments

theorem mem_of_mem_unquoteChars {c : Char} {s : List Char} (h : c ∈ unquoteChars s) : c ∈ s := by
  cases s with
  | nil => exact h
  | cons first rest =>
    rw [unquoteChars] at h
    split at h
    · exact List.mem_cons_of_mem _ (rest.dropLast_subset h)
    · exact h

/-- No line of an argument file has a line end in it. -/
theorem unbroken_of_ofFile {path : String} {args : List String} {h h' : Host}
    (hok : exec (ofFile path) h = (.ok args, h')) : ∀ arg ∈ args, Unbroken arg := by
  rw [ofFile] at hok
  obtain ⟨bytes, h₁, -, hok⟩ := exec_bind_eq_ok.mp hok
  cases hread : Utf8.decode bytes with
  | error fault =>
    rw [hread] at hok
    cases hok
  | ok text =>
    rw [hread] at hok
    obtain ⟨_, h₂, -, hok⟩ := exec_bind_eq_ok.mp hok
    cases hlines : ofText text.toList with
    | none =>
      rw [ofText] at hlines
      rw [hlines] at hok
      cases hok
    | some found =>
      obtain ⟨layout, -, hfound⟩ := ofText_eq_some_iff.mp hlines
      rw [ofText] at hlines
      rw [hlines] at hok
      cases hok
      rw [hfound]
      intro arg harg
      obtain ⟨line, -, rfl⟩ := List.mem_map.mp harg
      rw [unquote, unbroken_ofList, Line.string, String.toList_ofList]
      exact fun hmem => line.oneLine.not_mem (mem_of_mem_unquoteChars hmem)

theorem unbroken_of_expand {tokens args : List String} {h h' : Host}
    (hok : exec (expand tokens) h = (.ok args, h')) (htokens : ∀ token ∈ tokens, Unbroken token) :
    ∀ arg ∈ args, Unbroken arg := by
  induction tokens generalizing args h with
  | nil =>
    cases hok
    exact List.forall_mem_nil _
  | cons token rest ih =>
    obtain ⟨htoken, hrest⟩ := List.forall_mem_cons.mp htokens
    rw [expand] at hok
    dsimp only at hok
    split at hok
    · obtain ⟨here, h₁, hhere, hok⟩ := exec_bind_eq_ok.mp hok
      obtain ⟨more, h₂, hmore, hok⟩ := exec_bind_eq_ok.mp hok
      cases hok
      exact List.forall_mem_append.mpr ⟨unbroken_of_ofFile hhere, ih hmore hrest⟩
    · rw [pure_bind] at hok
      obtain ⟨more, h₂, hmore, hok⟩ := exec_bind_eq_ok.mp hok
      cases hok
      exact List.forall_mem_append.mpr ⟨List.forall_mem_singleton.mpr htoken, ih hmore hrest⟩

/-- Classified arguments are tokens, or what is left of one without its suffix. -/
theorem unbroken_classify {tokens : List String} (htokens : ∀ token ∈ tokens, Unbroken token) :
    (∀ arg ∈ (classify tokens).plainArgs, Unbroken arg) ∧
      (∀ source ∈ (classify tokens).monitorSources, Unbroken source) ∧
      (∀ spec ∈ (classify tokens).propertySpecs, Unbroken spec) ∧
      ∀ dir, (classify tokens).outputDir = some dir → Unbroken dir := by
  obtain ⟨plain, dirs, alone, hreads⟩ := exists_readsAs (ordinary tokens)
  rw [classify_eq hreads]
  have hread {text : String} (hmem : text ∈ plain ++ dirs.flatMap flagPair ++ leftOver alone) :
      Unbroken text :=
    htokens text (List.mem_filter.mp (hreads.perm.mem_iff.mpr hmem)).1
  refine ⟨fun arg harg => hread ?_, fun source hsource => ?_,
    fun spec hspec => htokens spec (List.mem_filter.mp hspec).1, fun dir hdir => hread ?_⟩
  · exact List.mem_append_left _ (List.mem_append_left _ harg)
  · obtain ⟨token, htoken, rfl⟩ := List.mem_map.mp hsource
    rw [unbroken_ofList]
    exact fun hmem => htokens token (List.mem_filter.mp htoken).1 (List.mem_of_mem_take hmem)
  · have hpair : dir ∈ flagPair dir := List.mem_cons_of_mem _ (List.mem_singleton_self dir)
    exact List.mem_append_left _ (List.mem_append_right _
      (List.mem_flatMap.mpr ⟨dir, List.mem_of_getLast? hdir, hpair⟩))

end Arguments

/-- The variables that say what the tools are. -/
def Toolchain.variables : List String := [dirVariable, compilerVariable, instrumentorVariable]

/-- Nothing that the command is given has a line end in it: no argument, no setting of the
tools, and not the path of the directory for temporary files. -/
structure PlainlyGiven (args : List String) (h : Host) : Prop where
  args : ∀ arg ∈ args, Unbroken arg
  settings : ∀ name ∈ Toolchain.variables, ∀ value, h.setting? name = some value → Unbroken value
  scratchDir : Unbroken h.scratchDir

namespace Pipeline

variable {args : List String} {before ran : Host} {failure : Failure}

section

variable (hgiven : PlainlyGiven args before)
include hgiven

theorem unbroken_toolDir : Unbroken (Inspection.toolDir before) := by
  rw [Inspection.toolDir]
  split
  · decide
  · next dir hset =>
    have hdir := hgiven.settings _ List.mem_cons_self dir hset
    rw [Path.withSlash]
    split
    · exact hdir
    · exact unbroken_append.mpr ⟨hdir, by decide⟩

theorem unbroken_named :
    (∀ word ∈ (Toolchain.named before).compiler, Unbroken word) ∧
      ∀ word ∈ (Toolchain.named before).instrumentor, Unbroken word := by
  have hname {nameVariable usual : String} (hmem : nameVariable ∈ Toolchain.variables)
      (husual : Unbroken usual) : Unbroken ((before.setting? nameVariable).getD usual) := by
    cases hset : before.setting? nameVariable with
    | none => exact husual
    | some name => exact hgiven.settings _ hmem name hset
  have hdir := unbroken_toolDir hgiven
  constructor
  · refine List.forall_mem_singleton.mpr (unbroken_append.mpr ⟨hdir, hname ?_ (by decide)⟩)
    exact List.mem_cons_of_mem _ List.mem_cons_self
  · refine List.forall_mem_singleton.mpr (unbroken_append.mpr ⟨hdir, hname ?_ (by decide)⟩)
    exact List.mem_cons_of_mem _ (List.mem_cons_of_mem _ List.mem_cons_self)

end

/-- No word of the plan has a line end in it. -/
structure Plan.Plain (plan : Plan) : Prop where
  plainArgs : ∀ arg ∈ plan.args.plainArgs, Unbroken arg
  monitorSources : ∀ source ∈ plan.args.monitorSources, Unbroken source
  propertySpecs : ∀ spec ∈ plan.args.propertySpecs, Unbroken spec
  outputDir : Unbroken plan.outputDir
  stagingDir : Unbroken plan.stagingDir

theorem Planned.plain {after : Host} {plan : Plan} (h : Planned args before plan after)
    (hargs : ∀ arg ∈ args, Unbroken arg) (hscratch : Unbroken before.scratchDir) : plan.Plain := by
  obtain ⟨c, n, -, -, -, hstaging, -⟩ := h.created
  obtain ⟨tokens, h₁, hexpand, hdir⟩ := h.output
  obtain ⟨tokens', _, _, _, _, hexpand', -, hclassified, -⟩ := h
  obtain rfl : tokens = tokens' := by
    rw [hexpand] at hexpand'
    cases hexpand'
    rfl
  obtain ⟨hplain, hsources, hspecs, hdeclared⟩ :=
    Arguments.unbroken_classify (Arguments.unbroken_of_expand hexpand hargs)
  rw [← hclassified] at hplain hsources hspecs
  refine ⟨hplain, hsources, hspecs, ?_, ?_⟩
  · rcases hdir with hdir | ⟨n, hdir⟩
    · exact hdeclared _ hdir
    · rw [hdir]
      exact Scratch.unbroken_path hscratch (by decide) (by decide) n
  · rw [hstaging]
    exact Scratch.unbroken_path hscratch (by decide) (by decide) n

theorem Plan.Plain.commands {plan : Plan} (h : plan.Plain) {tools : Toolchain}
    (hcompiler : ∀ word ∈ tools.compiler, Unbroken word)
    (hinstrumentor : ∀ word ∈ tools.instrumentor, Unbroken word) :
    (∀ word ∈ compilerCommand tools plan, Unbroken word) ∧
      ∀ word ∈ instrumentorCommand tools plan, Unbroken word := by
  have hsources : ∀ word ∈ plan.args.monitorSources.flatMap fun source => ["-e", source],
      Unbroken word := by
    intro word hword
    obtain ⟨source, hsource, hpair⟩ := List.mem_flatMap.mp hword
    rcases List.mem_cons.mp hpair with rfl | hpair
    · decide
    · rw [List.mem_singleton.mp hpair]
      exact h.monitorSources source hsource
  simp only [compilerCommand, instrumentorCommand, List.forall_mem_append, List.forall_mem_cons]
  refine ⟨⟨⟨hcompiler, h.plainArgs⟩, by decide, h.outputDir, List.forall_mem_nil _⟩,
    ⟨⟨hinstrumentor, hsources⟩, by decide, by decide, h.stagingDir, by decide, h.outputDir,
      List.forall_mem_nil _⟩, h.propertySpecs⟩

theorem start_result (args : List String) (before : Host) :
    (exec (start args none) before).1
      = if Toolchain.Configured before then .ok ⟨.named before, args, .initial⟩
        else .error (.missingToolDir (Inspection.toolDir before)) := by
  have hresult := Toolchain.ofEnvironment_result before
  unfold start
  dsimp only
  rw [exec_bind]
  revert hresult
  rcases exec Toolchain.ofEnvironment before with ⟨failure | tools, h⟩ <;> intro hresult <;>
    split at hresult <;> cases hresult
  · exact (if_neg ‹_›).symm
  · exact (if_pos ‹_›).symm

/-- A failure of the stages shows only words of the plan. -/
theorem Fails.plain {s : State} {h : Host} (hfail : Fails s h failure ran)
    (hplan : ∀ plan, s.plan? = some plan → plan.Plain ∧
      (∀ word ∈ compilerCommand s.tools plan, Unbroken word) ∧
      ∀ word ∈ instrumentorCommand s.tools plan, Unbroken word) : failure.Plain := by
  cases hfail with
  | phase expected => exact Failure.plain_of_nil rfl
  | classify _ hrun => exact (Plainly.classify s).error hrun
  | noCompiler _ hrun | noInstrumentor _ hrun => exact (Plainly.runStage rfl rfl _).error hrun
  | compiler hprogress hrun _ =>
    obtain ⟨-, hcommand, -⟩ := Launch.record_of_runStage_eq_ok rfl rfl hrun
    rw [hcommand]
    exact (hplan _ (State.plan?_eq hprogress)).2.1
  | instrumentor hprogress hrun _ =>
    obtain ⟨-, hcommand, -⟩ := Launch.record_of_runStage_eq_ok rfl rfl hrun
    rw [hcommand]
    exact (hplan _ (State.plan?_eq hprogress)).2.2
  | @stage plan _ fault _ hprogress hmove =>
    obtain ⟨hplain, -⟩ := hplan _ (State.plan?_eq hprogress)
    have hplaces : ∀ text ∈ [plan.outputDir, plan.stagingDir], Unbroken text := by
      simp [hplain.outputDir, hplain.stagingDir]
    have hmoveAside : FileOp.FailsAs FileFault.Plain (moveAside plan) :=
      (FileOp.covers_plain.call _ _).bind frame_any fun _ =>
        FileOp.covers_plain.move (List.forall_mem_nil _) hplaces
    have hfault := hmoveAside.error hmove
    rw [stagingFailure]
    split
    · exact List.forall_mem_append.mpr ⟨hplaces, hfault⟩
    · exact hfault
  | replay _ hrun => exact (Plainly.replayFiles _).error hrun
  | cleanUp _ hrun => exact (Plainly.cleanUp s).error hrun

/-- If nothing that the command is given has a line end in it, then neither has any text
that a failure shows as it is. -/
theorem plain_of_run (hgiven : PlainlyGiven args before)
    (hrun : exec (run args) before = (.error failure, ran)) : failure.Plain := by
  have hends := ends_run args none before
  have hstarts := start_result args before
  rw [hrun] at hends
  rcases hends with hstart | ⟨s, h, hs, hfail⟩
  · rw [hstart] at hstarts
    split at hstarts <;> cases hstarts
    exact List.forall_mem_singleton.mpr (unbroken_toolDir hgiven)
  · obtain ⟨h₀, hstart, -, -, hplanned⟩ := hs.planned
    rw [hstart] at hstarts
    split at hstarts
    · obtain ⟨htools, -⟩ := State.mk.inj (Except.ok.inj hstarts)
      have hscratch : h₀.scratchDir = before.scratchDir :=
        (background_sameScratch.works_start args none).state hstart
      refine hfail.plain fun plan hplan => ?_
      obtain ⟨h₁, hmade⟩ := hplanned plan hplan
      have hplain := hmade.plain hgiven.args (hscratch ▸ hgiven.scratchDir)
      obtain ⟨hcompiler, hinstrumentor⟩ := unbroken_named hgiven
      rw [htools]
      exact ⟨hplain, hplain.commands hcompiler hinstrumentor⟩
    · cases hstarts

/-- A log that is quiet stays quiet in a run that fails. -/
theorem quiet_of_run_eq_error (hq : before.log.Quiet)
    (hrun : exec (run args) before = (.error failure, ran)) : ran.log.Quiet := by
  have hends := ends_run args none before
  rw [hrun] at hends
  rcases hends with hstart | ⟨s, h, hs, hfail⟩
  · rwa [((background_onlyFiles.works_start args none).state hstart).log hq]
  · obtain ⟨calls, replayed, herrors⟩ := hfail.errors hq hs
    rwa [herrors.log]

end Pipeline

/-- **When the report of a failed run is one line.**  The command adds the report and a line
end to the standard error stream, and nothing else.  This is one line if and only if no
text that the report shows as it is has a line end in it, and so whenever no argument, no
setting of the tools and not the path of the directory for temporary files has one,
whatever the argument files hold, the tools do and the system refuses. -/
theorem report_singleLine_iff {args : List String} {before ran : Host} {failure : Failure}
    (hq : before.log.Quiet) (hrun : exec (Pipeline.run args) before = (.error failure, ran)) :
    exec (Command.compile args) before
        = (.ok 0, { ran with stderr := ran.stderr ++ Utf8.encode (failure.report ++ "\n") }) ∧
      (Text.SingleLine (failure.report ++ "\n") ↔ ∀ text ∈ failure.verbatim, Unbroken text) ∧
      (PlainlyGiven args before → Text.SingleLine (failure.report ++ "\n")) := by
  refine ⟨?_, Text.singleLine_iff.trans Failure.unbroken_report, fun hgiven => ?_⟩
  · have hcompile := Command.exec_compile args hq
      (by rw [hrun]; exact Pipeline.quiet_of_run_eq_error hq hrun)
    rw [hrun] at hcompile
    exact hcompile
  · exact Text.singleLine_iff.mpr (Failure.unbroken_report.mpr (Pipeline.plain_of_run hgiven hrun))

/-- The compiler rejects a file whose name has a line end in it. -/
theorem report_rejectingHost :
    rejectingHost.log.Quiet ∧
      ∃ failure ran, exec (Pipeline.run ["A\nB.java"]) rejectingHost = (.error failure, ran) ∧
        failure.verbatim = ["javac", "A\nB.java", "-d", "/tmp/topljavac-out00000001"] ∧
        exec (Command.compile ["A\nB.java"]) rejectingHost
          = (.ok 0, { ran with stderr := ran.stderr ++ Utf8.encode (failure.report ++ "\n") }) ∧
        (Text.SingleLine (failure.report ++ "\n") ↔ ∀ text ∈ failure.verbatim, Unbroken text) := by
  have hq : rejectingHost.log.Quiet := Log.unset_default.quiet
  have hshown : (match (exec (Pipeline.run ["A\nB.java"]) rejectingHost).1 with
      | .ok _ => []
      | .error failure => failure.verbatim)
        = ["javac", "A\nB.java", "-d", "/tmp/topljavac-out00000001"] := by decide +kernel
  rcases hrun : exec (Pipeline.run ["A\nB.java"]) rejectingHost with ⟨failure | s, ran⟩
  · rw [hrun] at hshown
    obtain ⟨hcompile, hiff, -⟩ := report_singleLine_iff hq hrun
    exact ⟨hq, failure, ran, rfl, hshown, hcompile, hiff⟩
  · rw [hrun] at hshown
    cases hshown

/-- All that is then on the standard error stream is the report, on two lines. -/
theorem two_lines_rejectingHost :
    (exec (Command.compile ["A\nB.java"]) rejectingHost).2.stderr = Utf8.encode
        "failed (errorcode 1) to run: javac A\nB.java -d /tmp/topljavac-out00000001\n" ∧
      ¬ Text.SingleLine
        "failed (errorcode 1) to run: javac A\nB.java -d /tmp/topljavac-out00000001\n" := by
  refine ⟨by decide +kernel, fun hline => absurd hline.1 (by decide)⟩

end MonitoredCompile

/-
MonitoredCompile/Proofs/Run/Background.lean

What the parts of a run do besides running tools: they work on files, take
temporary names and write debugging lines to the log.  A relation between hosts
that none of the three breaks is a `Background`, and for every such relation each
part of a run keeps it and never fails the way a tool does.

Three backgrounds matter.  `SameRecord` says that no command was handed over and no
program was run.  `OnlyFiles` says that, if the log is quiet, nothing changed but
the files and the count of temporary names.  `StaysSound` says that the files are
still well-formed.
-/
import MonitoredCompile.FileSystem.Upkeep
import MonitoredCompile.Proofs.Log.Quiet

namespace MonitoredCompile

open Attempt (exec exec_bind exec_get Frame Keeps)

/-! ### Running -/

namespace Run

theorem exec_change (f : Host → Host) (h : Host) : exec (change f) h = (.ok (), f h) := rfl

theorem exec_note (site : Log.Site) (level : Log.Level) (message : String) (h : Host) :
    exec (note site level message) h = (.ok (), h.note site level message) := rfl

theorem exec_onFiles {α : Type} (op : FileOp α) (h : Host) :
    exec (onFiles op) h =
      match op.exec h.files with
      | (.ok a, files) => (.ok a, { h with files })
      | (.error fault, files) => (.error (.file fault), { h with files }) := by
  rw [onFiles, exec_bind, exec_get]
  dsimp only
  rcases op.exec h.files with ⟨fault | a, files⟩ <;> rfl

end Run

/-! ### Logging -/

/-- All that logging a line can do: nothing, a line on the standard error stream, bytes
at the end of the log file, or a record more in the journal. -/
theorem Host.note_cases {P : Host → Prop} (h : Host) (site : Log.Site) (level : Log.Level)
    (message : String) (same : P h)
    (line : ∀ text : String, P (h.writeStderr (Utf8.encode (text ++ "\n"))))
    (file : ∀ handle bytes, h.log.handler = some (.file handle) →
      h.log.enabled site.logger level = true →
      P { h with files := h.files.appendOpen handle bytes })
    (journal : ∀ journal, P { h with log := { h.log with journal } }) :
    P (h.note site level message) := by
  rw [Host.note, Host.handle]
  dsimp only
  split
  · next henabled =>
    split
    · exact line _
    · next handle hhandler => exact file handle _ hhandler henabled
    · exact journal _
    · split
      · exact line _
      · exact same
  · exact same

/-- Only the levels matter for the level that counts. -/
theorem Log.effectiveLevel_congr {log log' : Log} (hloggers : log'.loggers = log.loggers)
    (hroot : log'.rootLevel = log.rootLevel) (name : String) :
    log'.effectiveLevel name = log.effectiveLevel name := by
  have hlevel (fuel : Nat) (name : String) : log'.levelWithin fuel name = log.levelWithin fuel name := by
    induction fuel generalizing name with
    | zero => exact hroot
    | succ fuel ih =>
      rw [levelWithin, levelWithin, names, names, hloggers, hroot]
      simp only [ih]
  rw [effectiveLevel, effectiveLevel, hlevel, hroot]

/-- What is kept of the lines does not matter for which lines are heard. -/
theorem Log.enabled_journal (log : Log) (journal : List Record) (name : String) (level : Level) :
    { log with journal }.enabled name level = log.enabled name level := by
  have hsame : { log with journal }.effectiveLevel name = log.effectiveLevel name :=
    @effectiveLevel_congr log { log with journal } rfl rfl name
  rw [enabled, enabled, hsame]

/-- The log, as far as lines do not change it. -/
theorem Host.note_log (h : Host) (site : Log.Site) (level : Log.Level) (message : String) :
    (h.note site level message).log.handler = h.log.handler ∧
      ∀ name level', (h.note site level message).log.enabled name level'
        = h.log.enabled name level' := by
  refine h.note_cases site level message (P := fun after => after.log.handler = h.log.handler ∧
    ∀ name level', after.log.enabled name level' = h.log.enabled name level')
    ?_ (fun _ => ?_) (fun _ _ _ _ => ?_) fun journal => ?_
  · exact ⟨rfl, fun _ _ => rfl⟩
  · exact ⟨rfl, fun _ _ => rfl⟩
  · exact ⟨rfl, fun _ _ => rfl⟩
  · exact ⟨rfl, h.log.enabled_journal journal⟩

/-- Unless the log is a file, a line that is logged changes no file. -/
theorem Host.note_files (h : Host) (hlog : ∀ handle, h.log.handler ≠ some (.file handle))
    (site : Log.Site) (level : Log.Level) (message : String) :
    (h.note site level message).files = h.files := by
  let Kept (after : Host) : Prop := after.files = h.files
  have hfile (handle : Nat) (bytes : Bytes) (hhandler : h.log.handler = some (.file handle))
      (_ : h.log.enabled site.logger level = true) :
      Kept { h with files := h.files.appendOpen handle bytes } :=
    absurd hhandler (hlog handle)
  exact h.note_cases site level message (show Kept h from rfl) (fun _ => rfl) hfile fun _ => rfl

/-! ### Temporary names -/

namespace Scratch

theorem search_eq_ok {node : Node} {pathOf : Nat → String} {what : String} {fs fs' : FileSystem}
    {attempts n m : Nat} (h : search node pathOf what fs attempts n = (.ok fs', m)) :
    fs.create (pathOf m) node = .ok fs' := by
  induction attempts generalizing n with
  | zero => cases h
  | succ left ih =>
    rw [search] at h
    split at h
    · next hcreate =>
      cases h
      exact hcreate
    · exact ih h
    · cases h

theorem exec_make (node : Node) (what before after : String) (h : Host) :
    exec (make node what before after) h =
      match search node (path h.scratchDir before after) what h.files attempts (h.scratchNames + 1) with
      | (.ok files, last) =>
        (.ok (path h.scratchDir before after last), { h with scratchNames := last, files })
      | (.error fault, last) => (.error (.file fault), { h with scratchNames := last }) := by
  rw [make, exec_bind, exec_get]
  dsimp only
  rcases search node (path h.scratchDir before after) what h.files attempts (h.scratchNames + 1)
    with ⟨fault | files, last⟩ <;> rfl

end Scratch

/-- Moving the classes aside leaves a well-formed file system well-formed. -/
theorem Pipeline.sound_moveAside (plan : Plan) : FileOp.Sound (moveAside plan) :=
  (FileOp.Sound.call fun h hfs => hfs.removeDir h).bind fun _ => FileOp.sound_move _ _

/-! ### Backgrounds -/

/-- A relation between hosts that work on files, temporary names and debugging lines
do not break. -/
structure Background (R : Host → Host → Prop) : Prop extends Frame R where
  files : ∀ h files, FileOp.StaysWellFormed h.files files → R h { h with files }
  names : ∀ h scratchNames, R h { h with scratchNames }
  note : ∀ {level : Log.Level}, level.IsProgress → ∀ h site message,
    R h (h.note site level message)

/-- The failure of a tool that has run. -/
def Failure.OfTool : Failure → Prop
  | .toolFailed _ _ => True
  | _ => False

/-- The part of a run keeps the relation and does not fail as a tool does. -/
abbrev Works (R : Host → Host → Prop) {α : Type} (m : Run α) : Prop :=
  Keeps R (fun failure => ¬ failure.OfTool) m

namespace Background

variable {R : Host → Host → Prop} (hR : Background R)
include hR

theorem works_note (site : Log.Site) {level : Log.Level} (hl : level.IsProgress)
    (message : String) : Works R (Run.note site level message) :=
  Keeps.modify fun h => hR.note hl h site message

theorem works_debug (site : Log.Site) (message : String) :
    Works R (Run.note site .debug message) :=
  hR.works_note site (.inl rfl) message

theorem works_onFiles {α : Type} {op : FileOp α} (hop : FileOp.Sound op) :
    Works R (Run.onFiles op) := by
  intro h
  rw [Run.exec_onFiles]
  cases hrun : op.exec h.files with
  | mk result files =>
    have hfiles := hR.files h files (hop.state hrun)
    cases result with
    | error fault => exact ⟨hfiles, fun _ he => by cases he; exact id⟩
    | ok a => exact ⟨hfiles, fun _ he => by cases he⟩

/-! ### Arguments -/

theorem works_ofFile (path : String) : Works R (Arguments.ofFile path) := by
  refine (hR.works_onFiles (.ask _ _)).bind hR.toFrame fun bytes => ?_
  split
  · exact .throw hR.toFrame id
  · refine (hR.works_debug _ _).bind hR.toFrame fun _ => ?_
    split
    · exact .throw hR.toFrame id
    · exact .pure hR.toFrame _

theorem works_expand (tokens : List String) : Works R (Arguments.expand tokens) := by
  induction tokens with
  | nil => exact .pure hR.toFrame []
  | cons token rest ih =>
    have hrest (here : List String) :
        Works R (do let more ← Arguments.expand rest; pure (here ++ more)) :=
      ih.bind hR.toFrame fun more => .pure hR.toFrame _
    rw [Arguments.expand]
    dsimp only
    split
    · exact (hR.works_ofFile _).bind hR.toFrame hrest
    · exact Keeps.bind hR.toFrame (.pure hR.toFrame _) hrest

theorem works_classifyLogged (tokens : List String) :
    Works R (Arguments.classifyLogged tokens) := by
  refine Keeps.bind hR.toFrame ?_ fun ds => .pure hR.toFrame _
  refine Keeps.bind hR.toFrame ?_ fun _ => ?_
  · exact .forIn hR.toFrame _ (fun _ _ _ =>
      (hR.works_debug _ _).bind hR.toFrame fun _ => .pure hR.toFrame _) _
  · exact (hR.works_debug _ _).bind hR.toFrame fun _ => .pure hR.toFrame _

/-! ### Temporary places and tools -/

theorem works_make {node : Node} (hnode : node.WellFormed) (what before after : String) :
    Works R (Scratch.make node what before after) := by
  intro h
  rw [Scratch.exec_make]
  cases hsearch : Scratch.search node (Scratch.path h.scratchDir before after) what h.files
      Scratch.attempts (h.scratchNames + 1) with
  | mk result last =>
    cases result with
    | error fault => exact ⟨hR.names h last, fun _ he => by cases he; exact id⟩
    | ok files =>
      refine ⟨hR.trans (hR.names h last) (hR.files _ files fun hfs => ?_), fun _ he => by cases he⟩
      exact hfs.create hnode (Scratch.search_eq_ok hsearch)

theorem works_configure (dir compiler instrumentor : Option String) :
    Works R (Toolchain.configure dir compiler instrumentor) := by
  rw [Toolchain.configure]
  dsimp only
  split
  · exact .pure hR.toFrame _
  · refine (Keeps.get hR.toFrame).bind hR.toFrame fun h => ?_
    split
    · exact .pure hR.toFrame _
    · exact (hR.works_debug _ _).bind hR.toFrame fun _ => .throw hR.toFrame id

theorem works_ofEnvironment : Works R Toolchain.ofEnvironment := by
  refine (Keeps.get hR.toFrame).bind hR.toFrame fun h => ?_
  dsimp only
  split
  · exact (hR.works_debug _ _).bind hR.toFrame fun _ => hR.works_configure _ _ _
  · exact hR.works_configure _ _ _

theorem works_start (args : List String) (tools : Option Toolchain) :
    Works R (Pipeline.start args tools) := by
  unfold Pipeline.start
  dsimp only
  split
  · exact Keeps.bind hR.toFrame (.pure hR.toFrame _) fun t => .pure hR.toFrame _
  · exact hR.works_ofEnvironment.bind hR.toFrame fun t => .pure hR.toFrame _

theorem works_resolveOutputDir (declared : Option String) :
    Works R (Pipeline.resolveOutputDir declared) := by
  unfold Pipeline.resolveOutputDir
  split
  · refine (hR.works_make .emptyDir _ _ _).bind hR.toFrame fun dir => ?_
    exact (hR.works_debug _ _).bind hR.toFrame fun _ => .pure hR.toFrame _
  · exact (hR.works_onFiles (FileOp.sound_makeDirsWithin _ _ _)).bind hR.toFrame
      fun _ => .pure hR.toFrame _

/-! ### Steps that run no tool -/

theorem works_classify (s : Pipeline.State) : Works R (Pipeline.classify s) := by
  rw [Pipeline.classify]
  split
  · refine (hR.works_expand _).bind hR.toFrame fun tokens => ?_
    refine (hR.works_classifyLogged _).bind hR.toFrame fun args => ?_
    refine (hR.works_debug _ _).bind hR.toFrame fun _ => ?_
    refine (hR.works_resolveOutputDir _).bind hR.toFrame fun outputDir => ?_
    refine (hR.works_make (.file _) _ _ _).bind hR.toFrame fun captureFile => ?_
    exact (hR.works_make .emptyDir _ _ _).bind hR.toFrame fun stagingDir => .pure hR.toFrame _
  · exact .throw hR.toFrame id

theorem works_cleanUp (s : Pipeline.State) : Works R (Pipeline.cleanUp s) := by
  rw [Pipeline.cleanUp]
  split
  · refine Keeps.bind hR.toFrame ?_ fun _ => ?_
    · refine (hR.works_onFiles (.call fun h hfs => hfs.removeFile h)).tryCatch hR.toFrame
        fun failure hf => ?_
      split
      · split
        · exact hR.works_note _ (.inr rfl) _
        · exact .throw hR.toFrame hf
      · exact .throw hR.toFrame hf
    · exact (hR.works_onFiles (FileOp.sound_removeTreeQuietly _)).bind hR.toFrame
        fun _ => .pure hR.toFrame _
  · exact .throw hR.toFrame id

/-- A replay is background work if what it writes is. -/
theorem works_replay (hwrite : ∀ h bytes, R h (Host.writeStderr h (Diagnostics.endLine bytes)))
    (sources : List String) : Works R (Diagnostics.replay Host.writeStderr sources) := by
  induction sources with
  | nil => exact .pure hR.toFrame ()
  | cons source rest ih =>
    rw [Diagnostics.replay_writeStderr_cons]
    refine (hR.works_debug _ _).bind hR.toFrame fun _ => ?_
    refine (hR.works_onFiles (.ask _ _)).bind hR.toFrame fun bytes => ?_
    exact (Keeps.modify fun h => hwrite h _).bind hR.toFrame fun _ => ih

end Background

/-! ### The three backgrounds -/

/-- No command was handed over, and no program was run. -/
def SameRecord (before after : Host) : Prop :=
  after.commands = before.commands ∧ after.calls = before.calls

theorem background_sameRecord : Background SameRecord where
  refl _ := ⟨rfl, rfl⟩
  trans hab hbc := ⟨hbc.1.trans hab.1, hbc.2.trans hab.2⟩
  files _ _ _ := ⟨rfl, rfl⟩
  names _ _ := ⟨rfl, rfl⟩
  note _ h site message := by
    refine h.note_cases site _ message ?_ (fun _ => ?_) (fun _ _ _ _ => ?_) fun _ => ?_
    all_goals exact ⟨rfl, rfl⟩

/-- If the log is quiet, nothing changed but the files and the count of temporary
names. -/
def OnlyFiles (before after : Host) : Prop :=
  before.log.Quiet →
    after = { before with files := after.files, scratchNames := after.scratchNames }

namespace OnlyFiles

variable {before after : Host} (h : OnlyFiles before after) (hq : before.log.Quiet)
include h hq

theorem log : after.log = before.log := by rw [h hq]

theorem stdout : after.stdout = before.stdout := by rw [h hq]

theorem stderr : after.stderr = before.stderr := by rw [h hq]

theorem calls : after.calls = before.calls := by rw [h hq]

theorem scratchDir : after.scratchDir = before.scratchDir := by rw [h hq]

end OnlyFiles

theorem background_onlyFiles : Background OnlyFiles where
  refl _ _ := rfl
  trans {a b c} hab hbc hq := by
    have hb := hab hq
    have hc := hbc (by rw [hab.log hq]; exact hq)
    rw [hc, hb]
  files _ _ _ _ := rfl
  names _ _ _ := rfl
  note hl _ _ _ hq := by rw [hq.note hl]

/-- The files are well-formed if they were. -/
def StaysSound (before after : Host) : Prop :=
  FileOp.StaysWellFormed before.files after.files

theorem background_staysSound : Background StaysSound where
  refl _ := id
  trans hab hbc := hbc ∘ hab
  files _ _ h := h
  names _ _ := id
  note _ h site message := by
    refine h.note_cases site _ message ?_ (fun _ => ?_) (fun _ _ _ _ => ?_) fun _ => ?_
    · exact id
    · exact id
    · exact fun hfs => hfs.appendOpen _ _
    · exact id

end MonitoredCompile

/-
MonitoredCompile/Proofs/Run/SameButLog.lean

Hosts that differ in what their log has heard and in nothing else.  Both log to the same file,
each with levels of its own, so `SameButLog` lets the lines in this file differ, the log itself,
and the one variable that names a level.  Of the programs that were run it takes the names, the
arguments and the statuses, since a program may have seen the length of the log.

A line that is logged in one of the two leaves such hosts, and so it does not matter which lines
are logged where.  Everything else that the parts of a run do, they do in both: what a part asks
is that it does not read the log file, and this is only asked of the first host.
-/
import MonitoredCompile.Proofs.FileSystem.HeedlessMove
import MonitoredCompile.Proofs.Run.Refusal

namespace MonitoredCompile

open Attempt (exec Parallel)
open FileSystem (Rewritten)

/-- A program that was run, as whoever started it can tell. -/
def Call.launch (call : Call) : String × List String × Int := (call.program, call.args, call.status)

/-- The two hosts are the same but for their logs, which go to the same open file. -/
structure SameButLog (handle : Nat) (o : Option Location) (h h' : Host) : Prop where
  files : h.files.Rewritten handle o h'.files
  handler : h.log.handler = some (.file handle)
  handler' : h'.log.handler = some (.file handle)
  environment : ∀ name, name ≠ Log.levelVariable → h'.getEnv? name = h.getEnv? name
  launches : h'.calls.map Call.launch = h.calls.map Call.launch
  rest : h' = { h with files := h'.files, environment := h'.environment, calls := h'.calls,
                       log := h'.log }

/-- A line of a log that goes to a file changes this file at most. -/
theorem Host.note_file {h : Host} {handle : Nat} (hhandler : h.log.handler = some (.file handle))
    (site : Log.Site) (level : Log.Level) (message : String) :
    h.note site level message = h ∨
      ∃ bytes, h.note site level message = { h with files := h.files.appendOpen handle bytes } := by
  rw [Host.note]
  split
  · rw [Host.handle, hhandler]
    exact .inr ⟨_, rfl⟩
  · exact .inl rfl

variable {α β : Type} {handle : Nat} {o : Option Location} {h h' : Host}

namespace SameButLog

section

variable (t : SameButLog handle o h h')
include t

theorem symm : SameButLog handle o h' h :=
  ⟨t.files.symm, t.handler', t.handler, fun name hname => (t.environment name hname).symm,
    t.launches.symm, by rw [t.rest]⟩

theorem withFiles {files files' : FileSystem} (hfiles : files.Rewritten handle o files') :
    SameButLog handle o { h with files } { h' with files := files' } :=
  ⟨hfiles, t.handler, t.handler', t.environment, t.launches, by rw [t.rest]⟩

theorem programs : h'.programs = h.programs := by rw [t.rest]

theorem scratchDir : h'.scratchDir = h.scratchDir := by rw [t.rest]

theorem scratchNames : h'.scratchNames = h.scratchNames := by rw [t.rest]

theorem stdout : h'.stdout = h.stdout := by rw [t.rest]

theorem stderr : h'.stderr = h.stderr := by rw [t.rest]

theorem commands : h'.commands = h.commands := by rw [t.rest]

theorem setting? {name : String} (hname : name ≠ Log.levelVariable) :
    h'.setting? name = h.setting? name := by
  rw [Host.setting?, Host.setting?, t.environment name hname]

theorem writeStderr (bytes : Bytes) :
    SameButLog handle o (h.writeStderr bytes) (h'.writeStderr bytes) :=
  ⟨t.files, t.handler, t.handler', t.environment, t.launches, by rw [t.rest]; rfl⟩

theorem printLine (text : String) : SameButLog handle o (h.printLine text) (h'.printLine text) :=
  ⟨t.files, t.handler, t.handler', t.environment, t.launches, by rw [t.rest]; rfl⟩

theorem handOver (command : List String) :
    SameButLog handle o (h.handOver command) (h'.handOver command) :=
  ⟨t.files, t.handler, t.handler', t.environment, t.launches, by rw [t.rest]; rfl⟩

/-- A line that only one of the two logs. -/
theorem note_left (site : Log.Site) (level : Log.Level) (message : String) :
    SameButLog handle o (h.note site level message) h' := by
  rcases Host.note_file t.handler site level message with hnote | ⟨bytes, hnote⟩
  · rw [hnote]
    exact t
  · rw [hnote]
    exact t.withFiles (t.files.append_left bytes)

theorem note (site : Log.Site) (level : Log.Level) (message : String) :
    SameButLog handle o (h.note site level message) (h'.note site level message) :=
  ((t.note_left site level message).symm.note_left site level message).symm

/-- The files before and after a line. -/
theorem rewritten_note (site : Log.Site) (level : Log.Level) (message : String) :
    h.files.Rewritten handle o (h.note site level message).files := by
  rcases Host.note_file t.handler site level message with hnote | ⟨bytes, hnote⟩ <;> rw [hnote]
  · exact t.files.refl
  · exact t.files.refl.append_right bytes

/-- The files before and after something that only logs. -/
theorem rewritten_of_logged {k : Host} (hlogged : Logged h k) :
    h.files.Rewritten handle o k.files := by
  rcases hlogged.files with hsame | ⟨handle', bytes, hhandler, -, hsame⟩
  · rw [hsame]
    exact t.files.refl
  · cases t.handler.symm.trans hhandler
    rw [hsame]
    exact t.files.refl.append_right bytes

/-! ### Parts of a run -/

theorem parallel_note (site : Log.Site) (level : Log.Level) (message : String) :
    Parallel (SameButLog handle o) (Run.note site level message) h h' :=
  .of_exec rfl rfl (t.note site level message)

theorem parallel_onFiles {op : FileOp α} (hop : Parallel (Rewritten handle o) op h.files h'.files) :
    Parallel (SameButLog handle o) (Run.onFiles op) h h' := by
  have hexec := Run.exec_onFiles op h
  have hexec' := Run.exec_onFiles op h'
  obtain ⟨hresult, hfiles⟩ := hop
  generalize exec op h.files = after at hexec hresult hfiles
  generalize exec op h'.files = after' at hexec' hresult hfiles
  obtain ⟨r, files⟩ := after
  obtain ⟨r', files'⟩ := after'
  obtain rfl : r = r' := hresult
  cases r with
  | error fault => exact .of_exec hexec hexec' (t.withFiles hfiles)
  | ok a => exact .of_exec hexec hexec' (t.withFiles hfiles)

/-! ### Arguments -/

theorem parallel_ofFile {path : String} (hpath : h.files.Avoids o path) :
    Parallel (SameButLog handle o) (Arguments.ofFile path) h h' := by
  have hread := FileOp.parallel_ask t.files path (f := fun fs => fs.read path) (t.files.read hpath)
  refine (t.parallel_onFiles hread).bind fun bytes k k' _ _ t => ?_
  split
  · exact .throw t _
  · refine (t.parallel_note _ _ _).bind fun _ k k' _ _ t => ?_
    split
    · exact .throw t _
    · exact .pure t _

omit t in
theorem parallel_expand {tokens : List String} (t : SameButLog handle o h h')
    (hfiles : ∀ token ∈ tokens, ∀ file, Arguments.fileName? token = some file →
      h.files.Avoids o file) :
    Parallel (SameButLog handle o) (Arguments.expand tokens) h h' := by
  induction tokens generalizing h h' with
  | nil => exact .pure t []
  | cons token rest ih =>
    obtain ⟨hfile, hrest⟩ := List.forall_mem_cons.mp hfiles
    have hmore (here : List String) {k k' : Host} (hlogged : Logged h k)
        (tk : SameButLog handle o k k') :
        Parallel (SameButLog handle o)
          (do let more ← Arguments.expand rest; Pure.pure (here ++ more)) k k' := by
      -- Reading the first file has logged lines at most, so the other files are where they were.
      refine (ih tk fun token htoken file hname => ?_).bind fun more k k' _ _ t => .pure t _
      exact (t.rewritten_of_logged hlogged).avoids (hrest token htoken file hname)
    rw [Arguments.expand]
    dsimp only
    split
    · next file hname =>
      exact (t.parallel_ofFile (hfile file hname)).bind fun here k k' hk _ tk =>
        hmore here ((OnlyLogs.ofFile file).state hk) tk
    · exact (Parallel.pure t [token]).bind fun here k k' hk _ tk =>
        hmore here ((OnlyLogs.pure [token]).state hk) tk

theorem parallel_classifyLogged (tokens : List String) :
    Parallel (SameButLog handle o) (Arguments.classifyLogged tokens) h h' := by
  refine Parallel.bind ?_ fun ds k k' _ _ t => .pure t _
  refine Parallel.bind ?_ fun _ k k' _ _ t => ?_
  · exact .forIn _ (fun _ _ _ k k' t =>
      (t.parallel_note _ _ _).bind fun _ k k' _ _ t => .pure t _) _ t
  · exact (t.parallel_note _ _ _).bind fun _ k k' _ _ t => .pure t _

/-! ### Tools that the environment names -/

theorem parallel_configure (dir compiler instrumentor : Option String) :
    Parallel (SameButLog handle o) (Toolchain.configure dir compiler instrumentor) h h' := by
  rw [Toolchain.configure]
  dsimp only
  split
  · exact .pure t _
  · refine Parallel.get_bind ?_ (by rw [t.files.pathExists])
    split
    · exact .pure t _
    · exact (t.parallel_note _ _ _).bind fun _ k k' _ _ t => .throw t _

theorem parallel_ofEnvironment : Parallel (SameButLog handle o) Toolchain.ofEnvironment h h' := by
  have hdir := t.environment Toolchain.dirVariable (by decide)
  have hcompiler := t.environment Toolchain.compilerVariable (by decide)
  have hinstrumentor := t.environment Toolchain.instrumentorVariable (by decide)
  have hset : h'.setting? Toolchain.dirVariable = h.setting? Toolchain.dirVariable :=
    t.setting? (by decide)
  refine Parallel.get_bind ?_ (by simp only [hdir, hcompiler, hinstrumentor, hset])
  dsimp only
  split
  · exact (t.parallel_note _ _ _).bind fun _ k k' _ _ t => t.parallel_configure _ _ _
  · exact t.parallel_configure _ _ _

end

/-! ### Temporary places -/

/-- The search for a free name goes the same way. -/
theorem sameEnd_search (node : Node) (pathOf : Nat → String) (what : String)
    {fs fs' : FileSystem} (hfiles : fs.Rewritten handle o fs') (attempts n : Nat) :
    SameEnd (Rewritten handle o) (Scratch.search node pathOf what fs attempts n).1
        (Scratch.search node pathOf what fs' attempts n).1 ∧
      (Scratch.search node pathOf what fs' attempts n).2
        = (Scratch.search node pathOf what fs attempts n).2 := by
  induction attempts generalizing n with
  | zero => exact ⟨.refused _, rfl⟩
  | succ left ih =>
    have hcreate := hfiles.create (pathOf n) node
    rw [Scratch.search, Scratch.search]
    generalize fs.create (pathOf n) node = made at hcreate
    generalize fs'.create (pathOf n) node = made' at hcreate
    cases hcreate with
    | done hafter => exact ⟨.done hafter, rfl⟩
    | refused r =>
      split
      · next heq => cases heq
      · exact ih (n + 1)
      · exact ⟨.refused _, rfl⟩

theorem parallel_make (t : SameButLog handle o h h') (node : Node) (what before after : String) :
    Parallel (SameButLog handle o) (Scratch.make node what before after) h h' := by
  obtain ⟨hend, hlast⟩ := sameEnd_search node (Scratch.path h.scratchDir before after) what t.files
    Scratch.attempts (h.scratchNames + 1)
  -- The search itself is never unfolded, since it is a long one.
  have hexec := Scratch.exec_make node what before after h
  have hexec' := Scratch.exec_make node what before after h'
  rw [show Scratch.path h'.scratchDir before after = Scratch.path h.scratchDir before after by
    rw [t.scratchDir], t.scratchNames] at hexec'
  generalize Scratch.search node (Scratch.path h.scratchDir before after) what h.files
    Scratch.attempts (h.scratchNames + 1) = found at hexec hend hlast
  generalize Scratch.search node (Scratch.path h.scratchDir before after) what h'.files
    Scratch.attempts (h.scratchNames + 1) = found' at hexec' hend hlast
  obtain ⟨r, last⟩ := found
  obtain ⟨r', last'⟩ := found'
  dsimp only at hend hlast
  subst hlast
  have tnames : SameButLog handle o { h with scratchNames := last' }
      { h' with scratchNames := last' } :=
    ⟨t.files, t.handler, t.handler', t.environment, t.launches, by rw [t.rest]⟩
  cases hend with
  | refused fault => exact .of_exec hexec hexec' tnames
  | done hafter => exact .of_exec hexec hexec' (tnames.withFiles hafter)

/-! ### Diagnostics -/

theorem parallel_replay {sources : List String} (t : SameButLog handle o h h')
    (hsources : ∀ source ∈ sources, h.files.Avoids o source) :
    Parallel (SameButLog handle o) (Diagnostics.replay Host.writeStderr sources) h h' := by
  induction sources generalizing h h' with
  | nil => exact .pure t ()
  | cons source rest ih =>
    obtain ⟨hsource, hrest⟩ := List.forall_mem_cons.mp hsources
    rw [Diagnostics.replay_writeStderr_cons]
    refine (t.parallel_note _ _ _).bind fun _ k k' hk _ tk => ?_
    have hnoted : Logged h k := (OnlyLogs.note _ _).state hk
    have hask := FileOp.parallel_ask tk.files source (f := fun fs => fs.read source)
      (tk.files.read ((t.rewritten_of_logged hnoted).avoids hsource))
    refine (tk.parallel_onFiles hask).bind fun bytes m m' hm _ tm => ?_
    refine Parallel.bind (.of_exec (Run.exec_change _ m) (Run.exec_change _ m')
      (tm.writeStderr _)) fun _ after after' hafter _ tafter => ih tafter fun other hother => ?_
    cases hafter
    -- The next source is where it was, as only the log has become longer.
    have hlogged : Logged h m := frame_logged.trans hnoted ((OnlyLogs.ask source _).state hm)
    exact (t.rewritten_of_logged hlogged).avoids (hrest other hother)

end SameButLog

end MonitoredCompile

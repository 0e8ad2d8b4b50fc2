/-
MonitoredCompile/Proofs/Run/Twins.lean

Hosts that differ in one file and in nothing else, the record of what the tools did apart.
Such hosts are `Twins`, and a part of a run `Agree`s on them if it gives the same result and
leaves twins again.  A part that works on files agrees if its operation is blind to the file,
and a tool agrees if it is `Oblivious`: it may write the file, but neither what it does
elsewhere nor what it leaves there depends on the one that it finds.
-/
import MonitoredCompile.Proofs.FileSystem.BlindMove
import MonitoredCompile.Proofs.Parallel
import MonitoredCompile.Proofs.Run.Places

namespace MonitoredCompile

open Attempt (exec)
open FileSystem (BlindCall)

variable {d : Location} {x : String}

/-! ### Twins -/

/-- What parts of a run look at besides the files is as it was in the host `base`. -/
structure Host.SetUpAs (h base : Host) : Prop where
  environment : h.environment = base.environment
  programs : h.programs = base.programs
  scratchDir : h.scratchDir = base.scratchDir

/-- Two hosts, set up as `base`, with nothing different but one file and the record of
calls. -/
structure Twins (d : Location) (x : String) (base h h' : Host) : Prop where
  hidden : h.files.without (d ++ [x]) = h'.files.without (d ++ [x])
  lone : h.files.Lone d x
  lone' : h'.files.Lone d x
  rest : h' = { h with files := h'.files, calls := h'.calls }
  setUp : h.SetUpAs base

/-- The part of the run has the same result for both hosts, and leaves twins. -/
structure Agree {α : Type} (d : Location) (x : String) (base : Host) (m : Run α) (h h' : Host) :
    Prop where
  result : (exec m h).1 = (exec m h').1
  twins : Twins d x base (exec m h).2 (exec m h').2

namespace Twins

variable {base h h' : Host} (t : Twins d x base h h')
include t

/-- The files of both may be replaced by others that differ in the one file only. -/
theorem withFiles {files files' : FileSystem}
    (hidden : files.without (d ++ [x]) = files'.without (d ++ [x])) (hlone : files.Lone d x)
    (hlone' : files'.Lone d x) : Twins d x base { h with files } { h' with files := files' } :=
  ⟨hidden, hlone, hlone', by rw [t.rest], ⟨t.setUp.1, t.setUp.2, t.setUp.3⟩⟩

theorem environment : h'.environment = h.environment := by rw [t.rest]

theorem programs : h'.programs = h.programs := by rw [t.rest]

theorem scratchDir : h'.scratchDir = h.scratchDir := by rw [t.rest]

theorem scratchNames : h'.scratchNames = h.scratchNames := by rw [t.rest]

theorem stdout : h'.stdout = h.stdout := by rw [t.rest]

theorem stderr : h'.stderr = h.stderr := by rw [t.rest]

theorem log : h'.log = h.log := by rw [t.rest]

/-- The second host is set up as the first one is. -/
theorem setUp' : h'.SetUpAs base :=
  ⟨t.environment.trans t.setUp.1, t.programs.trans t.setUp.2, t.scratchDir.trans t.setUp.3⟩

theorem getEnv? (name : String) : h'.getEnv? name = h.getEnv? name := by
  rw [Host.getEnv?, Host.getEnv?, t.environment]

theorem setting? (name : String) : h'.setting? name = h.setting? name := by
  rw [Host.setting?, Host.setting?, t.getEnv?]

theorem writeStderr (bytes : Bytes) :
    Twins d x base (h.writeStderr bytes) (h'.writeStderr bytes) :=
  ⟨t.hidden, t.lone, t.lone', by rw [t.rest]; rfl, t.setUp.1, t.setUp.2, t.setUp.3⟩

theorem printLine (text : String) : Twins d x base (h.printLine text) (h'.printLine text) :=
  ⟨t.hidden, t.lone, t.lone', by rw [t.rest]; rfl, t.setUp.1, t.setUp.2, t.setUp.3⟩

theorem handOver (command : List String) :
    Twins d x base (h.handOver command) (h'.handOver command) :=
  ⟨t.hidden, t.lone, t.lone', by rw [t.rest]; rfl, t.setUp.1, t.setUp.2, t.setUp.3⟩

/-- A line of the log goes to the same place, which is not the file. -/
theorem note (site : Log.Site) (level : Log.Level) (message : String) :
    Twins d x base (h.note site level message) (h'.note site level message) := by
  rw [Host.note, Host.note, Host.handle, Host.handle, t.log]
  dsimp only
  split
  · split
    · exact t.writeStderr _
    · next handle _ =>
      -- The line may go to the file itself, which then differs in another way than before.
      obtain ⟨hidden, hlone⟩ := t.lone.appendOpen handle
        (Utf8.encode (Log.line h.log.detailed ⟨level, site, message⟩ ++ "\n"))
      obtain ⟨hidden', hlone'⟩ := t.lone'.appendOpen handle
        (Utf8.encode (Log.line h.log.detailed ⟨level, site, message⟩ ++ "\n"))
      have t' := t.withFiles (hidden.trans (t.hidden ▸ hidden'.symm)) hlone hlone'
      rw [t.log] at t'
      exact t'
    · exact ⟨t.hidden, t.lone, t.lone', by rw [t.rest], t.setUp.1, t.setUp.2, t.setUp.3⟩
    · split
      · exact t.writeStderr _
      · exact t
  · exact t

end Twins

/-! ### Parts -/

namespace Agree

variable {α β : Type} {base h h' : Host}

/-- Agreement is a case of running in parallel, from which the rules for `bind` and for loops
come. -/
theorem iff_parallel {m : Run α} :
    Agree d x base m h h' ↔ Attempt.Parallel (Twins d x base) m h h' :=
  ⟨fun hm => ⟨hm.result, hm.twins⟩, fun hm => ⟨hm.result, hm.states⟩⟩

/-- Both runs are known. -/
theorem of_exec {m : Run α} {r : Except Failure α} {k k' : Host} (hm : exec m h = (r, k))
    (hm' : exec m h' = (r, k')) (t : Twins d x base k k') : Agree d x base m h h' :=
  iff_parallel.mpr (.of_exec hm hm' t)

theorem pure (t : Twins d x base h h') (a : α) : Agree d x base (pure a) h h' := .of_exec rfl rfl t

theorem throw (t : Twins d x base h h') (failure : Failure) :
    Agree d x base (throw failure : Run α) h h' :=
  .of_exec rfl rfl t

/-- What follows has only to agree after the same result. -/
theorem bind {m : Run α} {f : α → Run β} (hm : Agree d x base m h h')
    (hf : ∀ a k k', exec m h = (.ok a, k) → exec m h' = (.ok a, k') → Twins d x base k k' →
      Agree d x base (f a) k k') : Agree d x base (m >>= f) h h' :=
  iff_parallel.mpr <| (iff_parallel.mp hm).bind fun a k k' hk hk' t =>
    iff_parallel.mp (hf a k k' hk hk' t)

theorem tryCatch {m : Run α} {handler : Failure → Run α} (hm : Agree d x base m h h')
    (hh : ∀ failure k k', Twins d x base k k' → Agree d x base (handler failure) k k') :
    Agree d x base (tryCatch m handler) h h' :=
  iff_parallel.mpr <| (iff_parallel.mp hm).tryCatch fun failure k k' _ _ t =>
    iff_parallel.mp (hh failure k k' t)

/-- A part that depends on what it sees first, and sees the same in both hosts. -/
theorem get_bind {f : Host → Run α} (hf : Agree d x base (f h) h h') (hsame : f h' = f h) :
    Agree d x base (get >>= f) h h' :=
  iff_parallel.mpr ((iff_parallel.mp hf).get_bind (by rw [hsame]))

/-- What every pass of a loop agrees on, the loop agrees on. -/
theorem forIn {γ : Type} (items : List γ) {body : γ → β → Run (ForInStep β)}
    (hbody : ∀ c b k k', Twins d x base k k' → Agree d x base (body c b) k k') (b : β)
    (t : Twins d x base h h') : Agree d x base (forIn items b body) h h' :=
  iff_parallel.mpr <| .forIn items (fun c _ b k k' t => iff_parallel.mp (hbody c b k k' t)) b t

theorem note (t : Twins d x base h h') (site : Log.Site) (level : Log.Level)
    (message : String) : Agree d x base (Run.note site level message) h h' :=
  .of_exec rfl rfl (t.note site level message)

/-- An operation that is blind to the file in both hosts. -/
theorem onFiles {op : FileOp α} (t : Twins d x base h h') (hop : FileOp.Blind d x h.files op)
    (hop' : FileOp.Blind d x h'.files op) : Agree d x base (Run.onFiles op) h h' := by
  obtain ⟨hidden, hlone⟩ := hop
  obtain ⟨hidden', hlone'⟩ := hop'
  rw [t.hidden, hidden'] at hidden
  rcases hexec : exec op h.files with ⟨r, files⟩
  rcases hexec' : exec op h'.files with ⟨r', files'⟩
  rw [hexec] at hidden hlone
  rw [hexec'] at hidden hlone'
  obtain ⟨rfl, hsame⟩ := Prod.mk.inj hidden
  have t' := t.withFiles hsame.symm hlone hlone'
  cases r' with
  | error fault =>
    exact .of_exec (by rw [Run.exec_onFiles, hexec]) (by rw [Run.exec_onFiles, hexec']) t'
  | ok a => exact .of_exec (by rw [Run.exec_onFiles, hexec]) (by rw [Run.exec_onFiles, hexec']) t'

/-! ### Arguments -/

/-- Reading an argument file, if its path does not name the file. -/
theorem ofFile (t : Twins d x base h h') {path : String}
    (hx : x ∉ Path.names path) : Agree d x base (Arguments.ofFile path) h h' := by
  have hread {fs : FileSystem} (hlone : fs.Lone d x) :
      FileOp.Blind d x fs (FileOp.ask path fun fs => fs.read path) :=
    .ask hlone ((hlone.misses hx true).read hlone)
  refine (Agree.onFiles t (hread t.lone) (hread t.lone')).bind fun bytes k k' _ _ t => ?_
  split
  · exact .throw t _
  · refine (Agree.note t _ _ _).bind fun _ k k' _ _ t => ?_
    split
    · exact .throw t _
    · exact .pure t _

/-- Argument files are replaced in the same way.  The induction is on the tokens, since each
file that is read may log lines before the next one. -/
theorem expand (t : Twins d x base h h') {tokens : List String}
    (hx : ∀ token ∈ tokens, ∀ file, Arguments.fileName? token = some file → x ∉ Path.names file) :
    Agree d x base (Arguments.expand tokens) h h' := by
  induction tokens generalizing h h' with
  | nil => exact .pure t []
  | cons token rest ih =>
    obtain ⟨hfile, hrest⟩ := List.forall_mem_cons.mp hx
    have hmore (here : List String) {k k' : Host} (t : Twins d x base k k') :
        Agree d x base (do let more ← Arguments.expand rest; Pure.pure (here ++ more)) k k' :=
      (ih t hrest).bind fun more k k' _ _ t => .pure t _
    rw [Arguments.expand]
    dsimp only
    split
    · next file hname =>
      exact (Agree.ofFile t (hfile file hname)).bind fun here k k' _ _ t => hmore here t
    · exact (Agree.pure t [token]).bind fun here k k' _ _ t => hmore here t

theorem classifyLogged (t : Twins d x base h h') (tokens : List String) :
    Agree d x base (Arguments.classifyLogged tokens) h h' := by
  refine Agree.bind ?_ fun ds k k' _ _ t => .pure t _
  refine Agree.bind ?_ fun _ k k' _ _ t => ?_
  · exact .forIn _ (fun _ _ k k' t => (Agree.note t _ _ _).bind fun _ k k' _ _ t => .pure t _) _ t
  · exact (Agree.note t _ _ _).bind fun _ k k' _ _ t => .pure t _

/-! ### Tools that the environment names -/

/-- The directory of the tools is looked up, but nothing in it. -/
theorem configure (t : Twins d x base h h')
    {dir compiler instrumentor : Option String}
    (hx : ∀ path, Toolchain.nonEmpty dir = some path → x ∉ Path.names path) :
    Agree d x base (Toolchain.configure dir compiler instrumentor) h h' := by
  rw [Toolchain.configure]
  dsimp only
  split
  · exact .pure t _
  · next path hdir =>
    have hslash : x ∉ Path.names (Path.withSlash path) := by
      rw [Path.withSlash]
      split
      · exact hx path hdir
      · rw [Path.names_slash]
        exact hx path hdir
    have hexists {fs : FileSystem} (hlone : fs.Lone d x) :
        (fs.without (d ++ [x])).pathExists (Path.withSlash path)
          = fs.pathExists (Path.withSlash path) :=
      (hlone.misses hslash true).pathExists hlone
    have hsame : h'.files.pathExists (Path.withSlash path)
        = h.files.pathExists (Path.withSlash path) := by
      rw [← hexists t.lone, ← hexists t.lone', t.hidden]
    refine Agree.get_bind ?_ (by rw [hsame])
    split
    · exact .pure t _
    · exact (Agree.note t _ _ _).bind fun _ k k' _ _ t => .throw t _

/-- The environment is the same, so only the check of the directory is to be compared. -/
theorem ofEnvironment (t : Twins d x base h h')
    (hx : ∀ dir, base.setting? Toolchain.dirVariable = some dir → x ∉ Path.names dir) :
    Agree d x base Toolchain.ofEnvironment h h' := by
  have hbase (name : String) : h.getEnv? name = base.getEnv? name := by
    rw [Host.getEnv?, Host.getEnv?, t.setUp.environment]
  have hconfigure {k k' : Host} (t : Twins d x base k k') :
      Agree d x base (Toolchain.configure (h.getEnv? Toolchain.dirVariable)
        (h.getEnv? Toolchain.compilerVariable) (h.getEnv? Toolchain.instrumentorVariable)) k k' := by
    refine .configure t fun path hpath => hx path ?_
    rw [hbase] at hpath
    exact hpath
  refine Agree.get_bind ?_ (by simp only [t.getEnv?, t.setting?])
  dsimp only
  split
  · exact (Agree.note t _ _ _).bind fun _ k k' _ _ t => hconfigure t
  · exact hconfigure t

/-! ### Temporary places -/

/-- The search for a free name goes the same way. -/
theorem search_without {node : Node} {pathOf : Nat → String} (what : String) {fs : FileSystem}
    (attempts n : Nat) (hlone : fs.Lone d x) (hnode : FileSystem.Shuns x node)
    (hx : ∀ n, x ∉ Path.names (pathOf n)) :
    Scratch.search node pathOf what (fs.without (d ++ [x])) attempts n
        = ((Scratch.search node pathOf what fs attempts n).1.map (·.without (d ++ [x])),
          (Scratch.search node pathOf what fs attempts n).2) ∧
      ∀ files, (Scratch.search node pathOf what fs attempts n).1 = .ok files → files.Lone d x := by
  induction attempts generalizing n with
  | zero => exact ⟨rfl, fun files hfiles => by cases hfiles⟩
  | succ left ih =>
    have hcreate := (hlone.misses (hx n) false).create hlone hnode
    have hidden := hcreate.hidden
    rw [Scratch.search, Scratch.search, hidden]
    cases hmade : fs.create (pathOf n) node with
    | ok after => exact ⟨rfl, fun files hfiles => by cases hfiles; exact hcreate.lone hmade⟩
    | error r =>
      dsimp only [Except.map]
      split
      · next heq => cases heq
      · exact ih (n + 1)
      · exact ⟨rfl, fun files hfiles => by cases hfiles⟩

/-- What is done with the name that was found. -/
theorem of_search {m : Run String} {f : Nat → String}
    {found found' : Except FileFault FileSystem × Nat} (t : Twins d x base h h')
    (hm : exec m h = match found with
      | (.ok files, last) => (.ok (f last), { h with scratchNames := last, files })
      | (.error fault, last) => (.error (.file fault), { h with scratchNames := last }))
    (hm' : exec m h' = match found' with
      | (.ok files, last) => (.ok (f last), { h' with scratchNames := last, files })
      | (.error fault, last) => (.error (.file fault), { h' with scratchNames := last }))
    (hsame : (found.1.map (·.without (d ++ [x])), found.2)
      = (found'.1.map (·.without (d ++ [x])), found'.2))
    (hlone : ∀ files, found.1 = .ok files → files.Lone d x)
    (hlone' : ∀ files, found'.1 = .ok files → files.Lone d x) : Agree d x base m h h' := by
  obtain ⟨r, last⟩ := found
  obtain ⟨r', last'⟩ := found'
  have t' : Twins d x base { h with scratchNames := last } { h' with scratchNames := last } :=
    ⟨t.hidden, t.lone, t.lone', by rw [t.rest], t.setUp.1, t.setUp.2, t.setUp.3⟩
  cases r with
  | error fault =>
    cases r' with
    | ok made' => cases hsame
    | error fault' =>
      cases hsame
      exact .of_exec hm hm' t'
  | ok made =>
    cases r' with
    | error fault' => cases hsame
    | ok made' =>
      obtain ⟨hmap, rfl⟩ := Prod.mk.inj hsame
      exact .of_exec hm hm'
        (t'.withFiles (Except.ok.inj hmap) (hlone made rfl) (hlone' made' rfl))

/-- A temporary place has the same name in both hosts, if the file has none that could be tried. -/
theorem make (t : Twins d x base h h') {node : Node} (hnode : FileSystem.Shuns x node)
    {what before after : String}
    (hx : ∀ n, x ∉ Path.names (Scratch.path base.scratchDir before after n)) :
    Agree d x base (Scratch.make node what before after) h h' := by
  have hx' : ∀ n, x ∉ Path.names (Scratch.path h.scratchDir before after n) :=
    t.setUp.scratchDir.symm ▸ hx
  obtain ⟨hidden, hlone⟩ :=
    search_without what Scratch.attempts (h.scratchNames + 1) t.lone hnode hx'
  obtain ⟨hidden', hlone'⟩ :=
    search_without what Scratch.attempts (h.scratchNames + 1) t.lone' hnode hx'
  rw [t.hidden] at hidden
  -- The search itself is never unfolded, since it is a long one.
  have hexec := Scratch.exec_make node what before after h
  have hexec' := Scratch.exec_make node what before after h'
  rw [t.scratchDir, t.scratchNames] at hexec'
  generalize Scratch.search node (Scratch.path h.scratchDir before after) what h.files
    Scratch.attempts (h.scratchNames + 1) = found at hexec hidden hlone
  generalize Scratch.search node (Scratch.path h.scratchDir before after) what h'.files
    Scratch.attempts (h.scratchNames + 1) = found' at hexec' hidden' hlone'
  refine of_search (f := Scratch.path h.scratchDir before after) t (hexec.trans ?_)
    (hexec'.trans ?_) (hidden.symm.trans hidden') hlone hlone'
  · rcases found with ⟨r | files, last⟩ <;> rfl
  · rcases found' with ⟨r | files, last⟩ <;> rw [← t.scratchDir]

end Agree

/-! ### Tools -/

/-- What a tool can reach differs in one file at most. -/
structure Surroundings.Twins (d : Location) (x : String) (s s' : Surroundings) : Prop where
  hidden : s.files.without (d ++ [x]) = s'.files.without (d ++ [x])
  lone : s.files.Lone d x
  lone' : s'.files.Lone d x
  stdout : s.stdout = s'.stdout
  stderr : s.stderr = s'.stderr

/-- The tool ends in the same way and writes the same to its streams, whatever is in the file
and whether it is there, and leaves everything the same but for this file. -/
def Behaviour.Oblivious (d : Location) (x : String) (tool : Behaviour) : Prop :=
  ∀ routes s s', s.Twins d x s' → (tool.run routes s).1 = (tool.run routes s').1 ∧
    (tool.run routes s).2.Twins d x (tool.run routes s').2

namespace Behaviour.Oblivious

/-- A tool that does nothing. -/
theorem exit (status : Int) : (Behaviour.exit status).Oblivious d x := fun _ _ _ t => ⟨rfl, t⟩

/-- Writing to a stream tells nothing about the file, which is not where streams lead. -/
theorem emit {stream : Stream} {bytes : Bytes} {next : Behaviour} (h : next.Oblivious d x) :
    (Behaviour.emit stream bytes next).Oblivious d x := by
  intro routes s s' t
  refine h routes _ _ ?_
  cases routes stream with
  | stdout => exact ⟨t.hidden, t.lone, t.lone', congrArg (· ++ bytes) t.stdout, t.stderr⟩
  | stderr => exact ⟨t.hidden, t.lone, t.lone', t.stdout, congrArg (· ++ bytes) t.stderr⟩
  | nowhere => exact t
  | file handle =>
    obtain ⟨hidden, hlone⟩ := t.lone.writeOpen handle bytes
    obtain ⟨hidden', hlone'⟩ := t.lone'.writeOpen handle bytes
    exact ⟨hidden.trans (t.hidden ▸ hidden'.symm), hlone, hlone', t.stdout, t.stderr⟩

end Behaviour.Oblivious

/-! ### Stages -/

variable {base h h' : Host}

/-- Two tools run on twins. -/
theorem Twins.executeOn (t : Twins d x base h h') {program : String} {args : List String}
    (htool : (base.programs program args).Oblivious d x) (routes : Stream → Route) :
    (Launch.executeOn h routes program args).1 = (Launch.executeOn h' routes program args).1 ∧
      Twins d x base (Launch.executeOn h routes program args).2
        (Launch.executeOn h' routes program args).2 := by
  obtain ⟨hstatus, after⟩ := htool routes ⟨h.files, h.stdout, h.stderr⟩
    ⟨h'.files, h'.stdout, h'.stderr⟩ ⟨t.hidden, t.lone, t.lone', t.stdout.symm, t.stderr.symm⟩
  rw [← t.setUp.programs] at hstatus after
  rw [Launch.executeOn, Launch.executeOn, t.programs]
  refine ⟨hstatus, after.hidden, after.lone, after.lone', ?_, t.setUp.1, t.setUp.2, t.setUp.3⟩
  dsimp only
  rw [← after.stdout, ← after.stderr, t.rest]

/-- What was opened for a stage is closed in both hosts. -/
theorem Twins.closeAfter {k k' : Host} (t : Twins d x base h h') (tk : Twins d x base k k') :
    Twins d x base (Launch.closeAfter h k) (Launch.closeAfter h' k') := by
  have hopened : h'.files.opened.length = h.files.opened.length :=
    (congrArg (fun fs => fs.opened.length) t.hidden).symm
  rw [Launch.closeAfter, Launch.closeAfter, hopened]
  exact tk.withFiles (congrArg (·.closeFrom h.files.opened.length) tk.hidden)
    (tk.lone.closeFrom _) (tk.lone'.closeFrom _)

namespace Agree

open Launch (Policy)

/-- Opening a file for a stream. -/
theorem openRoute (t : Twins d x base h h') (own : Route) {policy : Policy}
    (hx : ∀ path, policy.path? = some path → x ∉ Path.names path) :
    Agree d x base (Launch.openRoute own policy) h h' := by
  cases policy with
  | discard | inherit | merge | unknown value => exact .pure t _
  | file path =>
    have hmiss {fs : FileSystem} (hlone : fs.Lone d x) : fs.Misses (d ++ [x]) path true :=
      hlone.misses (hx path rfl) true
    -- Without the file both hosts are one, so opening is refused in both or in neither.
    rcases (hmiss t.lone).openTruncated_cases t.lone with ⟨r, hopen, hr⟩ | ⟨mid, o, hopen, hmid, hlone, ho⟩ <;>
      rcases (hmiss t.lone').openTruncated_cases t.lone' with
        ⟨r', hopen', hr'⟩ | ⟨mid', o', hopen', hmid', hlone', ho'⟩
    · rw [t.hidden] at hr
      cases hr.symm.trans hr'
      exact .of_exec (by rw [Launch.exec_openRoute_file, hopen])
        (by rw [Launch.exec_openRoute_file, hopen']) t
    · rw [t.hidden] at hr
      cases hr.symm.trans hmid'
    · rw [t.hidden] at hmid
      cases hmid.symm.trans hr'
    · rw [t.hidden] at hmid
      obtain ⟨hfiles, hhandle⟩ := Prod.mk.inj (Except.ok.inj (hmid.symm.trans hmid'))
      have hsame : mid.opened.length = mid'.opened.length := hhandle
      refine .of_exec (r := .ok (.file mid.opened.length)) ?_ ?_
        (t.withFiles hfiles (hlone.openAt ho) (hlone'.openAt ho'))
      · rw [Launch.exec_openRoute_file, hopen]
        rfl
      · rw [Launch.exec_openRoute_file, hopen', hsame]
        rfl

/-- Opening the files for both streams. -/
theorem openRoutes (t : Twins d x base h h') {out err : Policy}
    (hx : ∀ path, out.path? = some path → x ∉ Path.names path)
    (hx' : ∀ path, err.path? = some path → x ∉ Path.names path) :
    Agree d x base (Launch.openRoutes out err) h h' := by
  refine (Agree.openRoute t .stdout hx).bind fun output k k' _ _ t => ?_
  dsimp only
  split
  · exact Agree.bind (.pure t _) fun _ k k' _ _ t => .pure t _
  · exact (Agree.openRoute t .stderr hx').bind fun _ k k' _ _ t => .pure t _

/-- The same program is found. -/
theorem findProgram_eq (t : Twins d x base h h') {word : String}
    (hx : ∀ path ∈ Launch.candidates base word, x ∉ Path.names path) :
    Launch.findProgram h' word = Launch.findProgram h word := by
  have hcandidates {k : Host} (hk : k.SetUpAs base) :
      Launch.candidates k word = Launch.candidates base word := by
    rw [Launch.candidates, Launch.candidates, Host.getEnv?, Host.getEnv?, hk.environment]
  have hprogram {fs : FileSystem} (hlone : fs.Lone d x) {path : String}
      (hpath : x ∉ Path.names path) :
      Launch.programAt (fs.without (d ++ [x])) path = Launch.programAt fs path := by
    rcases (hlone.misses hpath true).find_cases hlone with
      ⟨r, hf, hf'⟩ | ⟨l, node, hf, hf', -⟩ | ⟨l, _, _, hf, hf', -⟩ <;>
      rw [Launch.programAt, Launch.programAt, hf, hf']
  -- The search through the directories, by induction on those that are left.
  have hfirst {fs : FileSystem} (hlone : fs.Lone d x) (paths : List String)
      (hpaths : ∀ path ∈ paths, x ∉ Path.names path) (earlier : Option Refusal) :
      Launch.firstProgram (fs.without (d ++ [x])) earlier paths
        = Launch.firstProgram fs earlier paths := by
    induction paths generalizing earlier with
    | nil => rfl
    | cons path rest ih =>
      obtain ⟨hpath, hrest⟩ := List.forall_mem_cons.mp hpaths
      rw [Launch.firstProgram, Launch.firstProgram, hprogram hlone hpath]
      cases Launch.programAt fs path with
      | ok program => rfl
      | error r => exact ih hrest _
  rw [Launch.findProgram, Launch.findProgram, hcandidates t.setUp, hcandidates t.setUp',
    ← hfirst t.lone _ hx, ← hfirst t.lone' _ hx, t.hidden]

/-- The command leads to the same program, or to none for the same reason. -/
theorem resolve (t : Twins d x base h h') {command : List String}
    (hx : ∀ word ∈ command.head?, ∀ path ∈ Launch.candidates base word, x ∉ Path.names path) :
    Agree d x base (Launch.resolve command) h h' := by
  cases command with
  | nil => exact .throw t _
  | cons word args =>
    rw [Launch.resolve]
    dsimp only
    split
    · exact .throw t _
    · refine Agree.get_bind ?_ (by rw [findProgram_eq t (hx word rfl)])
      split
      · exact .pure t _
      · exact .throw t _

theorem resolveLogged (t : Twins d x base h h') {command : List String}
    (hx : ∀ word ∈ command.head?, ∀ path ∈ Launch.candidates base word, x ∉ Path.names path) :
    Agree d x base (Launch.resolveLogged command) h h' := by
  refine Agree.tryCatch (.resolve t hx) fun failure k k' t => ?_
  dsimp only
  split
  · split
    · exact (Agree.note t _ _ _).bind fun _ k k' _ _ t => .throw t _
    · exact .throw t _
  · exact .throw t _

/-- Everything that comes before the tool is started. -/
theorem ready (t : Twins d x base h h') {command : List String}
    {out err : Policy} (hout : ∀ path, out.path? = some path → x ∉ Path.names path)
    (herr : ∀ path, err.path? = some path → x ∉ Path.names path)
    (hx : ∀ word ∈ command.head?, ∀ path ∈ Launch.candidates base word, x ∉ Path.names path) :
    Agree d x base (Launch.ready command out err) h h' := by
  have hdir {fs : FileSystem} (hlone : fs.Lone d x) : FileOp.Blind d x fs FileOp.currentDir :=
    .of_exec (by rw [FileOp.exec_currentDir, hlone.cwd])
      (by rw [FileOp.exec_currentDir, show (fs.without (d ++ [x])).cwd = some d from hlone.cwd])
      hlone
  refine (Agree.openRoutes t hout herr).bind fun routes k k' _ _ t => ?_
  refine (Agree.onFiles t (hdir t.lone) (hdir t.lone')).bind fun dir k k' _ _ t => ?_
  refine (Agree.note t _ _ _).bind fun _ k k' _ _ t => ?_
  exact (Agree.resolveLogged t hx).bind fun found k k' _ _ t => .pure t _

/-- A stage, if the tool that it runs tells nothing about the file. -/
theorem runStage (t : Twins d x base h h') {command : List String} {out err : Policy}
    (hout : out.isForOutput = true) (herr : err.isForErrors = true)
    (hpath : ∀ path, out.path? = some path → x ∉ Path.names path)
    (hpath' : ∀ path, (Launch.sharedErrors out err).path? = some path → x ∉ Path.names path)
    (hx : ∀ word ∈ command.head?, ∀ path ∈ Launch.candidates base word, x ∉ Path.names path)
    (htools : ∀ program args, (base.programs program args).Oblivious d x) :
    Agree d x base (Launch.runStage command out err) h h' := by
  obtain ⟨hresult, tready⟩ := Agree.ready (t.handOver command) hpath hpath' hx
  rcases hready : exec (Launch.ready command out (Launch.sharedErrors out err))
    (h.handOver command) with ⟨failure | ⟨routes, program, args⟩, k⟩ <;>
    rcases hready' : exec (Launch.ready command out (Launch.sharedErrors out err))
      (h'.handOver command) with ⟨r', k'⟩ <;>
    rw [hready, hready'] at hresult tready <;> cases hresult
  · exact .of_exec (by rw [Launch.exec_runStage hout herr, hready])
      (by rw [Launch.exec_runStage hout herr, hready']) (Twins.closeAfter t tready)
  · -- The tool is started in both hosts, on the same routes.
    obtain ⟨hstatus, tafter⟩ := tready.executeOn (htools program args) routes
    refine .of_exec (by rw [Launch.exec_runStage hout herr, hready])
      (by rw [Launch.exec_runStage hout herr, hready']; dsimp only; rw [← hstatus])
      ((Twins.closeAfter t tafter).note _ _ _)

/-! ### Diagnostics -/

/-- The same lines are replayed, if the file is none of those that are read. -/
theorem replay {sources : List String} (t : Twins d x base h h')
    (hx : ∀ source ∈ sources, x ∉ Path.names source) :
    Agree d x base (Diagnostics.replay Host.writeStderr sources) h h' := by
  induction sources generalizing h h' with
  | nil => exact .pure t ()
  | cons source rest ih =>
    obtain ⟨hsource, hrest⟩ := List.forall_mem_cons.mp hx
    have hread {fs : FileSystem} (hlone : fs.Lone d x) :
        FileOp.Blind d x fs (FileOp.ask source fun fs => fs.read source) :=
      .ask hlone ((hlone.misses hsource true).read hlone)
    rw [Diagnostics.replay_writeStderr_cons]
    refine (Agree.note t _ _ _).bind fun _ k k' _ _ t => ?_
    refine (Agree.onFiles t (hread t.lone) (hread t.lone')).bind fun bytes k k' _ _ t => ?_
    refine Agree.bind (.of_exec (Run.exec_change _ k) (Run.exec_change _ k') (t.writeStderr _))
      fun _ k k' _ _ t => ih t hrest

end Agree

end MonitoredCompile

/-
MonitoredCompile/Proofs/Run/HeedlessStage.lean

Stages that do not heed the log file.  A stage comes to a file in three ways: it opens the files
that its policies name, it looks for its program, and it runs this program.  `Launch.Heedless`
says of each that it does not touch the log file, for a stage that is run on a given host.

A tool is heedless if whatever the log file holds, what it does next is the same and leaves files
that are again the same but for the log (`Behaviour.Heedless`).  It may make the log file longer
itself.
-/
import MonitoredCompile.Proofs.Run.Reach
import MonitoredCompile.Proofs.Run.SameButLog
import MonitoredCompile.Tool.Script

namespace MonitoredCompile

open Attempt (exec Parallel)
open FileSystem (Rewritten Counterpart)

variable {handle : Nat} {o : Option Location}

/-! ### Tools -/

/-- The route does not lead to the file. -/
def Route.Elsewhere (o : Option Location) (fs : FileSystem) : Route → Prop
  | .file other => ∀ e ∈ o, (fs.opened[other]?).bind OpenFile.location ≠ some e
  | _ => True

/-- What the tool does from these surroundings on does not depend on what the file holds. -/
def Behaviour.Heedless (handle : Nat) (o : Option Location) (routes : Stream → Route) :
    Behaviour → Surroundings → Prop
  | .exit _, _ => True
  | .emit stream bytes next, s =>
    (routes stream).Elsewhere o s.files ∧
      next.Heedless handle o routes (s.deliver bytes (routes stream))
  | .act change _ next, s =>
    (∀ files, s.files.Rewritten handle o files →
      (change s.files).Rewritten handle o (change files) ∧ next files = next s.files) ∧
    (next s.files).Heedless handle o routes { s with files := change s.files }

/-- What a tool can reach is the same but for the file. -/
structure Surroundings.SameBut (handle : Nat) (o : Option Location) (s s' : Surroundings) :
    Prop where
  files : s.files.Rewritten handle o s'.files
  stdout : s'.stdout = s.stdout
  stderr : s'.stderr = s.stderr

theorem Surroundings.SameBut.deliver {s s' : Surroundings} (t : s.SameBut handle o s')
    {route : Route} (hroute : route.Elsewhere o s.files) (bytes : Bytes) :
    (s.deliver bytes route).SameBut handle o (s'.deliver bytes route) := by
  cases route with
  | stdout => exact ⟨t.files, congrArg (· ++ bytes) t.stdout, t.stderr⟩
  | stderr => exact ⟨t.files, t.stdout, congrArg (· ++ bytes) t.stderr⟩
  | nowhere => exact t
  | file other => exact ⟨t.files.writeOpen hroute bytes, t.stdout, t.stderr⟩

/-- A heedless tool ends in the same way. -/
theorem Behaviour.Heedless.run {tool : Behaviour} {routes : Stream → Route} {s s' : Surroundings}
    (h : tool.Heedless handle o routes s) (t : s.SameBut handle o s') :
    (tool.run routes s').1 = (tool.run routes s).1 ∧
      (tool.run routes s).2.SameBut handle o (tool.run routes s').2 := by
  induction tool generalizing s s' with
  | exit status => exact ⟨rfl, t⟩
  | emit stream bytes next ih =>
    obtain ⟨hroute, hnext⟩ := h
    exact ih hnext (t.deliver hroute bytes)
  | act change sound next ih =>
    obtain ⟨hact, hnext⟩ := h
    obtain ⟨hchanged, hsame⟩ := hact s'.files t.files
    rw [Behaviour.run, Behaviour.run, hsame]
    exact ih s.files hnext ⟨hchanged, t.stdout, t.stderr⟩

/-! ### Scripts -/

instance (fs : FileSystem) (route : Route) : Decidable (route.Elsewhere o fs) := by
  cases route <;> unfold Route.Elsewhere <;> infer_instance

/-- The tool of a script stores its files elsewhere, and does nothing else but write to streams
that lead elsewhere. -/
def Action.keepsOff (o : Option Location) (routes : Stream → Route) (args : List String) :
    List Action → Surroundings → Bool
  | .emit stream bytes :: rest, s =>
    decide ((routes stream).Elsewhere o s.files) &&
      keepsOff o routes args rest (s.deliver bytes (routes stream))
  | .store path bytes :: rest, s =>
    match resolvePath args path with
    | none => true
    | some p =>
      decide (s.files.Avoids o p) && keepsOff o routes args rest
        { s with files := (exec (FileOp.call p fun fs => fs.store p bytes) s.files).2 }
  | [], _ | .exit _ :: _, _ | .kill _ :: _, _ => true
  | _, _ => false

theorem Behaviour.heedless_ofScript {routes : Stream → Route} {args : List String}
    {script : List Action} {s : Surroundings} (h : Action.keepsOff o routes args script s = true) :
    (Behaviour.ofScript args script).Heedless handle o routes s := by
  induction script generalizing s with
  | nil => trivial
  | cons action rest ih =>
    cases action with
    | exit status => trivial
    | kill signal => trivial
    | makeDir path => cases h
    | remove path => cases h
    | copy src dst => cases h
    | emit stream bytes =>
      rw [Action.keepsOff, Bool.and_eq_true, decide_eq_true_iff] at h
      exact ⟨h.1, ih h.2⟩
    | store path bytes =>
      rw [Action.keepsOff] at h
      rw [Behaviour.ofScript]
      · split
        · trivial
        · next op hop =>
          obtain ⟨p, hp, rfl⟩ := Option.map_eq_some_iff.mp hop
          rw [hp] at h
          dsimp only at h
          rw [Bool.and_eq_true, decide_eq_true_iff] at h
          obtain ⟨havoids, hrest⟩ := h
          refine ⟨fun files hfiles => ?_, ?_⟩
          · have hstore : Parallel (Rewritten handle o)
                (FileOp.call p fun fs => fs.store p bytes) s.files files :=
              FileOp.parallel_call hfiles (hfiles.store havoids.foreign bytes)
            have hsucceeds : Action.succeeds _ files = Action.succeeds _ s.files :=
              congrArg Except.toBool hstore.result.symm
            exact ⟨hstore.states, by dsimp only; rw [hsucceeds]⟩
          · dsimp only
            split
            · exact ih hrest
            · trivial
      all_goals exact nofun

/-! ### The search for a program -/

namespace Launch

/-- The search along the paths comes to the file, and would run it. -/
inductive Tries (fs : FileSystem) (o : Option Location) : List String → Prop
  | here {e f path rest} : e ∈ o → fs.find path = .ok (e, .file f) → f.executable = true →
      Tries fs o (path :: rest)
  | later {r path rest} : programAt fs path = .error r → Tries fs o rest →
      Tries fs o (path :: rest)

section

variable {fs fs' : FileSystem} (h : fs.Rewritten handle o fs')
include h

/-- At a path there is the same program, or the file. -/
theorem programAt_cases (path : String) :
    programAt fs' path = programAt fs path ∨
      ∃ e f, e ∈ o ∧ fs.find path = .ok (e, .file f) ∧ f.executable = true := by
  rw [programAt, programAt]
  rcases h.same.find_cases path true with ⟨r, hf, hf'⟩ | ⟨l, node, node', hf, hf', hcounter⟩
  · rw [hf, hf']
    exact .inl rfl
  · rw [hf, hf']
    cases hcounter with
    | same _ => exact .inl rfl
    | above _ _ _ _ => exact .inl rfl
    | @file f g ho hexecutable =>
      cases hrun : f.executable with
      | true => exact .inr ⟨l, f, ho, rfl, hrun⟩
      | false =>
        refine .inl ?_
        dsimp only
        rw [hexecutable, hrun]
        rfl

theorem Tries.of_rewritten {paths : List String} (htries : Tries fs' o paths) :
    Tries fs o paths := by
  induction htries with
  | @here e g path rest he hfind hrun =>
    rcases h.same.find_cases path true with ⟨r, -, hf'⟩ | ⟨l, node, node', hf, hf', hcounter⟩
    · cases hf'.symm.trans hfind
    · cases hf'.symm.trans hfind
      cases hcounter with
      | same hapart => exact absurd List.prefix_rfl (hapart e he).not_above
      | file _ hexecutable => exact .here he hf (hexecutable ▸ hrun)
  | @later r path rest hfails _ ih =>
    rcases programAt_cases h path with hsame | ⟨e, f, he, hfind, hrun⟩
    · exact .later (hsame ▸ hfails) ih
    · exact .here he hfind hrun

/-- A search that does not come to the file ends in the same way. -/
theorem firstProgram_eq {paths : List String} (hpaths : ¬ Tries fs o paths)
    (earlier : Option Refusal) : firstProgram fs' earlier paths = firstProgram fs earlier paths := by
  induction paths generalizing earlier with
  | nil => rfl
  | cons path rest ih =>
    rcases programAt_cases h path with hsame | ⟨e, f, he, hfind, hrun⟩
    · rw [firstProgram, firstProgram, hsame]
      cases hprogram : programAt fs path with
      | ok program => rfl
      | error r => exact ih (fun hrest => hpaths (.later hprogram hrest)) _
    · exact absurd (.here he hfind hrun) hpaths

end

/-! ### Stages -/

/-- A stage that is run on the host does not heed the file. -/
structure Heedless (handle : Nat) (o : Option Location) (h : Host) (command : List String)
    (out err : Policy) : Prop where
  /-- It does not open the file. -/
  opens : ∀ path, out.path? = some path → h.files.Avoids o path
  /-- It does not come to the file when it looks for its program. -/
  program : ∀ routes k, exec (openRoutes out err) (h.handOver command) = (.ok routes, k) →
    ∀ word ∈ command.head?, ¬ Tries k.files o (candidates k word)
  /-- Its tool does not heed the file. -/
  tool : ∀ routes program args k,
    exec (ready command out err) (h.handOver command) = (.ok (routes, program, args), k) →
    (k.programs program args).Heedless handle o routes ⟨k.files, k.stdout, k.stderr⟩

/-- If programs do what scripts say, it can be computed whether a stage heeds the file. -/
def keepsOff (o : Option Location) (scripts : String → List Action) (h : Host)
    (command : List String) (out err : Policy) : Bool :=
  (out.path?.all fun path => decide (h.files.Avoids o path)) &&
  (match exec (openRoutes out err) (h.handOver command) with
    | (.ok _, k) => command.head?.all fun word =>
      (candidates k word).all fun path => decide (k.files.Avoids o path)
    | _ => true) &&
  (match exec (ready command out err) (h.handOver command) with
    | (.ok (routes, program, args), k) =>
      Action.keepsOff o routes args (scripts program) ⟨k.files, k.stdout, k.stderr⟩
    | _ => true)

/-- A search comes to the file only if one of its paths leads there. -/
theorem Tries.exists_mem {fs : FileSystem} {paths : List String} (htries : Tries fs o paths) :
    ∃ path ∈ paths, ¬ fs.Avoids o path := by
  induction htries with
  | here he hfind _ => exact ⟨_, List.mem_cons_self, fun havoids => havoids _ he _ hfind⟩
  | later _ _ ih =>
    obtain ⟨path, hpath, hleads⟩ := ih
    exact ⟨path, List.mem_cons_of_mem _ hpath, hleads⟩

theorem heedless_of_keepsOff {scripts : String → List Action} {h : Host} {command : List String}
    {out err : Policy}
    (hprograms : ∀ program args, h.programs program args = .ofScript args (scripts program))
    (hcheck : keepsOff o scripts h command out err = true) :
    Heedless handle o h command out err := by
  rw [keepsOff, Bool.and_eq_true, Bool.and_eq_true] at hcheck
  obtain ⟨⟨hopens, hprogram⟩, htool⟩ := hcheck
  refine ⟨fun path hpath => ?_, fun routes k hopen word hword htries => ?_,
    fun routes program args k hready => ?_⟩
  · rw [hpath] at hopens
    exact of_decide_eq_true hopens
  · rw [hopen] at hprogram
    dsimp only at hprogram
    rw [show command.head? = some word from hword] at hprogram
    obtain ⟨path, hpath, hleads⟩ := htries.exists_mem
    exact hleads (of_decide_eq_true (List.all_eq_true.mp hprogram path hpath))
  · rw [hready] at htool
    have hsame : Pipeline.SamePrograms (h.handOver command) k :=
      (works_ready Pipeline.background_samePrograms command out err).state hready
    rw [show k.programs = h.programs from hsame, hprograms]
    exact Behaviour.heedless_ofScript htool

end Launch

namespace SameButLog

open Launch (Policy)

variable {h h' : Host} (t : SameButLog handle o h h')
include t

theorem candidates (word : String) : Launch.candidates h' word = Launch.candidates h word := by
  rw [Launch.candidates, Launch.candidates, t.environment "PATH" (by decide)]

/-- Lines of the log do not lead a search to the file. -/
theorem tries_of_logged {k : Host} (hlogged : Logged h k) {word : String}
    (htries : Launch.Tries k.files o (Launch.candidates k word)) :
    Launch.Tries h.files o (Launch.candidates h word) := by
  rw [Launch.candidates, Host.getEnv?, hlogged.environment] at htries
  exact htries.of_rewritten (t.rewritten_of_logged hlogged)

theorem parallel_openRoute (own : Route) {policy : Policy}
    (hpath : ∀ path, policy.path? = some path → h.files.Avoids o path) :
    Parallel (SameButLog handle o) (Launch.openRoute own policy) h h' := by
  cases policy with
  | discard | inherit | merge | unknown value => exact .pure t _
  | file path =>
    have hopen := t.files.openTruncated (hpath path rfl).foreign
    have hexec := Launch.exec_openRoute_file own path h
    have hexec' := Launch.exec_openRoute_file own path h'
    generalize h.files.openTruncated path = opened at hopen hexec
    generalize h'.files.openTruncated path = opened' at hopen hexec'
    cases hopen with
    | refused r => exact .of_exec hexec hexec' t
    | done hopened =>
      obtain ⟨hfiles, hhandle, -⟩ := hopened
      dsimp only at hexec hexec'
      rw [hhandle] at hexec'
      exact .of_exec hexec hexec' (t.withFiles hfiles)

theorem parallel_openRoutes {out err : Policy}
    (hout : ∀ path, out.path? = some path → h.files.Avoids o path) (herr : err.path? = none) :
    Parallel (SameButLog handle o) (Launch.openRoutes out err) h h' := by
  refine (t.parallel_openRoute .stdout hout).bind fun output k k' _ _ t => ?_
  dsimp only
  split
  · exact Parallel.bind (.pure t _) fun _ k k' _ _ t => .pure t _
  · refine (t.parallel_openRoute .stderr fun path hpath => ?_).bind fun _ k k' _ _ t => .pure t _
    cases herr.symm.trans hpath

theorem parallel_resolve {command : List String}
    (hprogram : ∀ word ∈ command.head?, ¬ Launch.Tries h.files o (Launch.candidates h word)) :
    Parallel (SameButLog handle o) (Launch.resolve command) h h' := by
  cases command with
  | nil => exact .throw t _
  | cons word args =>
    have hsame : Launch.findProgram h' word = Launch.findProgram h word := by
      rw [Launch.findProgram, Launch.findProgram, t.candidates]
      exact Launch.firstProgram_eq t.files (hprogram word rfl) none
    rw [Launch.resolve]
    dsimp only
    split
    · exact .throw t _
    · refine Parallel.get_bind ?_ (by rw [hsame])
      split
      · exact .pure t _
      · exact .throw t _

theorem parallel_resolveLogged {command : List String}
    (hprogram : ∀ word ∈ command.head?, ¬ Launch.Tries h.files o (Launch.candidates h word)) :
    Parallel (SameButLog handle o) (Launch.resolveLogged command) h h' := by
  refine (t.parallel_resolve hprogram).tryCatch fun failure k k' _ _ t => ?_
  dsimp only
  split
  · split
    · exact (t.parallel_note _ _ _).bind fun _ k k' _ _ t => .throw t _
    · exact .throw t _
  · exact .throw t _

theorem parallel_ready {command : List String} {out err : Policy}
    (hout : ∀ path, out.path? = some path → h.files.Avoids o path) (herr : err.path? = none)
    (hprogram : ∀ routes k, exec (Launch.openRoutes out err) h = (.ok routes, k) →
      ∀ word ∈ command.head?, ¬ Launch.Tries k.files o (Launch.candidates k word)) :
    Parallel (SameButLog handle o) (Launch.ready command out err) h h' := by
  refine (t.parallel_openRoutes hout herr).bind fun routes k k' hk _ t => ?_
  refine (t.parallel_onFiles (FileOp.parallel_currentDir t.files)).bind fun dir m m' hm _ t => ?_
  refine (t.parallel_note _ _ _).bind fun _ n n' hn _ t' => ?_
  have hnoted : Logged m n := (OnlyLogs.note _ _).state hn
  obtain rfl : m = k := by
    rw [Run.exec_onFiles, FileOp.exec_currentDir] at hm
    cases hcwd : k.files.cwd <;> rw [hcwd] at hm <;> cases hm
    rfl
  -- Since the routes were opened, only the log has changed.
  refine (t'.parallel_resolveLogged fun word hword htries => ?_).bind
    fun found k k' _ _ t => .pure t _
  exact hprogram routes m hk word hword (t.tries_of_logged hnoted htries)

/-- Two tools run. -/
theorem executeOn {routes : Stream → Route} {program : String} {args : List String}
    (htool : (h.programs program args).Heedless handle o routes ⟨h.files, h.stdout, h.stderr⟩) :
    (Launch.executeOn h' routes program args).1 = (Launch.executeOn h routes program args).1 ∧
      SameButLog handle o (Launch.executeOn h routes program args).2
        (Launch.executeOn h' routes program args).2 := by
  have reachable : (Surroundings.mk h.files h.stdout h.stderr).SameBut handle o
      ⟨h'.files, h'.stdout, h'.stderr⟩ := ⟨t.files, t.stdout, t.stderr⟩
  obtain ⟨hstatus, after⟩ := htool.run reachable
  rw [Launch.executeOn, Launch.executeOn, t.programs]
  refine ⟨hstatus, after.files, t.handler, t.handler', t.environment, ?_, ?_⟩
  · dsimp only
    rw [List.map_append, List.map_append, t.launches, List.map_singleton, List.map_singleton,
      Call.launch, Call.launch]
    dsimp only
    rw [hstatus]
  · dsimp only
    rw [after.stdout, after.stderr, t.rest]

/-- The log file stays open when files are closed, since it was opened before them. -/
theorem closeAfter {k k' : Host} (tk : SameButLog handle o k k') :
    SameButLog handle o (Launch.closeAfter h k) (Launch.closeAfter h' k') := by
  rw [Launch.closeAfter, Launch.closeAfter, t.files.opened]
  exact tk.withFiles (tk.files.closeFrom t.files.openOn.lt)

/-- A stage that does not heed the log file. -/
theorem parallel_runStage {command : List String} {out err : Policy}
    (hout : out.isForOutput = true) (herr : err.isForErrors = true)
    (herrors : (Launch.sharedErrors out err).path? = none)
    (hheedless : Launch.Heedless handle o h command out (Launch.sharedErrors out err)) :
    Parallel (SameButLog handle o) (Launch.runStage command out err) h h' := by
  obtain ⟨hopens, hprogram, htool⟩ := hheedless
  obtain ⟨hresult, tready⟩ := (t.handOver command).parallel_ready hopens herrors hprogram
  have hexec := Launch.exec_runStage hout herr command h
  have hexec' := Launch.exec_runStage hout herr command h'
  rcases hready : exec (Launch.ready command out (Launch.sharedErrors out err))
    (h.handOver command) with ⟨failure | ⟨routes, program, args⟩, k⟩ <;>
    rcases hready' : exec (Launch.ready command out (Launch.sharedErrors out err))
      (h'.handOver command) with ⟨r', k'⟩ <;>
    rw [hready, hready'] at hresult tready <;> cases hresult
  · rw [hready] at hexec
    rw [hready'] at hexec'
    exact .of_exec hexec hexec' (t.closeAfter tready)
  · obtain ⟨hstatus, tafter⟩ := tready.executeOn (htool routes program args k hready)
    rw [hready] at hexec
    rw [hready'] at hexec'
    dsimp only at hexec hexec'
    rw [hstatus] at hexec'
    exact .of_exec hexec hexec' ((t.closeAfter tafter).note _ _ _)

end SameButLog

end MonitoredCompile

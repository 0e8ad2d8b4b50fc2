/-
MonitoredCompile/Proofs/Run/Remainder.lean

What is left of a run when the instrumentor has ended (`exec_remainder`).  The run reads the
file in which the instrumentor leaves its diagnostics.  If it cannot, the run ends there.
Otherwise it replays what it has read and goes on to its `ending`, which does not look at the
file again and only writes on at the end of the standard error stream (`WritesOn`).  So the
endings of twins say the same, and two runs that have come here as twins have the same outcome
if and only if they read the same (`sameOutcome_remainder_iff`).

Nobody asks whether the file was left by this run.
-/
import MonitoredCompile.Proofs.Run.Delivery
import MonitoredCompile.Proofs.Run.Lockstep

namespace MonitoredCompile

open Attempt (exec exec_bind exec_bind_eq_error exec_tryCatch)

/-! ### Faults -/

namespace FileSystem

/-- A path with nothing wrong in its text is only refused by the system. -/
theorem read_ne_nul {fs : FileSystem} {path : String} (hflaw : flaw? path = none) :
    fs.read path ≠ .error .nul := by
  intro h
  rw [read, find, lookup] at h
  cases hplace : fs.walkFor path true (steps path) with
  | error r =>
    rw [hplace] at h
    cases h
    exact walkFor_ne_nul hflaw true _ hplace
  | ok place =>
    rw [hplace] at h
    obtain ⟨l, none | node⟩ := place
    · cases h
    · cases node <;> cases h

end FileSystem

namespace FileOp

/-- Refusals of two paths differ in the path, unless they are not the system's. -/
theorem faultAt_ne {path path' : String} {r r' : Refusal} (hr : r ≠ .nul) (hpath : path ≠ path') :
    faultAt path r ≠ faultAt path' r' := by
  intro h
  cases r with
  | nul => exact hr rfl
  | system e =>
    cases r' with
    | nul => cases h
    | system e' =>
      cases h
      exact hpath rfl

theorem faultAt_injective {path : String} {r r' : Refusal} (h : faultAt path r = faultAt path r') :
    r = r' := by
  cases r with
  | nul => cases r' with
    | nul => rfl
    | system e => cases h
  | system e => cases r' with
    | nul => cases h
    | system e' =>
      cases h
      rfl

end FileOp

/-! ### Writing on -/

/-- The host, when this had been written to the standard error stream before. -/
def Host.preceded (earlier : Bytes) (h : Host) : Host := { h with stderr := earlier ++ h.stderr }

/-- What the part does and writes does not depend on what was written before. -/
def WritesOn {α : Type} (m : Run α) : Prop :=
  ∀ earlier h, exec m (h.preceded earlier) = ((exec m h).1, (exec m h).2.preceded earlier)

theorem Host.writeStderr_preceded (earlier bytes : Bytes) (h : Host) :
    (h.preceded earlier).writeStderr bytes = (h.writeStderr bytes).preceded earlier := by
  simp only [preceded, writeStderr, List.append_assoc]

theorem Host.note_preceded (earlier : Bytes) (h : Host) (site : Log.Site) (level : Log.Level)
    (message : String) :
    (h.preceded earlier).note site level message = (h.note site level message).preceded earlier := by
  rw [note, note, show (h.preceded earlier).log = h.log from rfl]
  split
  · rw [handle, handle, show (h.preceded earlier).log = h.log from rfl]
    dsimp only
    split
    · exact writeStderr_preceded _ _ _
    · rfl
    · rfl
    · split
      · exact writeStderr_preceded _ _ _
      · rfl
  · rfl

namespace WritesOn

variable {α β : Type}

theorem pure (a : α) : WritesOn (pure a : Run α) := fun _ _ => rfl

theorem throw (failure : Failure) : WritesOn (throw failure : Run α) := fun _ _ => rfl

theorem bind {m : Run α} {f : α → Run β} (hm : WritesOn m) (hf : ∀ a, WritesOn (f a)) :
    WritesOn (m >>= f) := by
  intro earlier h
  rw [exec_bind, exec_bind, hm earlier h]
  rcases exec m h with ⟨failure | a, h'⟩
  · rfl
  · exact hf a earlier h'

theorem tryCatch {m : Run α} {handler : Failure → Run α} (hm : WritesOn m)
    (hh : ∀ failure, WritesOn (handler failure)) : WritesOn (tryCatch m handler) := by
  intro earlier h
  rw [exec_tryCatch, exec_tryCatch, hm earlier h]
  rcases exec m h with ⟨failure | a, h'⟩
  · exact hh failure earlier h'
  · rfl

theorem note (site : Log.Site) (level : Log.Level) (message : String) :
    WritesOn (Run.note site level message) :=
  fun earlier h => congrArg (Except.ok (), ·) (h.note_preceded earlier site level message)

theorem onFiles (op : FileOp α) : WritesOn (Run.onFiles op) := by
  intro earlier h
  rw [Run.exec_onFiles, Run.exec_onFiles, show (h.preceded earlier).files = h.files from rfl]
  rcases op.exec h.files with ⟨fault | a, files⟩ <;> rfl

theorem replay (sources : List String) : WritesOn (Diagnostics.replay Host.writeStderr sources) := by
  induction sources with
  | nil => exact .pure ()
  | cons source rest ih =>
    rw [Diagnostics.replay_writeStderr_cons]
    refine (note _ _ _).bind fun _ => (onFiles _).bind fun bytes => ?_
    refine WritesOn.bind (fun earlier h => ?_) fun _ => ih
    exact congrArg (Except.ok (), ·) (h.writeStderr_preceded earlier _)

theorem cleanUp (s : Pipeline.State) : WritesOn (Pipeline.cleanUp s) := by
  rw [Pipeline.cleanUp]
  split
  · refine WritesOn.bind ((onFiles _).tryCatch fun failure => ?_) fun _ =>
      (onFiles _).bind fun _ => .pure _
    split
    · split
      · exact note _ _ _
      · exact .throw _
    · exact .throw _
  · exact .throw _

end WritesOn

namespace Pipeline

open Diagnostics (instrumentorFile)

variable {d : Location} {args : List String} {tools : Option Toolchain} {before : Host}
variable {s : State} {plan : Plan} {last : Launch.Outcome} {h h' : Host}

/-! ### The steps that are left -/

/-- Steps may be taken in two goes. -/
theorem runSteps_append (first rest : List (State → Run State)) (s : State) :
    runSteps (first ++ rest) s = runSteps first s >>= runSteps rest := by
  induction first generalizing s with
  | nil => exact (pure_bind s _).symm
  | cons step first ih =>
    simp only [List.cons_append, runSteps, bind_assoc, ih]

/-- A run goes on from where it stands after so many steps. -/
theorem exec_run_eq (n : Nat) (args : List String) (tools : Option Toolchain) (h : Host) :
    exec (run args tools) h =
      match exec (start args tools >>= runSteps (steps.take n)) h with
      | (.ok s, h') => exec (runSteps (steps.drop n) s) h'
      | (.error failure, h') => (.error failure, h') := by
  have hrun : run args tools
      = (start args tools >>= runSteps (steps.take n)) >>= runSteps (steps.drop n) := by
    rw [run, bind_assoc]
    refine congrArg (start args tools >>= ·) (funext fun s => ?_)
    rw [← runSteps_append, List.take_append_drop]
  rw [hrun, exec_bind]
  rcases exec (start args tools >>= runSteps (steps.take n)) h with ⟨failure | s, h'⟩ <;> rfl

theorem exec_of_advances {s' : State} (hstep : Advances s h s' h') :
    ∃ step, steps.drop (stepsBefore s.phase) = step :: steps.drop (stepsBefore s'.phase) ∧
      exec (step s) h = (.ok s', h') := by
  cases hstep with
  | classified hs hrun =>
    rw [State.phase_eq hs]
    exact ⟨classify, rfl, hrun⟩
  | compiled hs hrun hstatus =>
    rw [State.phase_eq hs]
    refine ⟨compile, rfl, ?_⟩
    rw [exec_compile hs, exec_required, hrun]
    exact if_pos hstatus
  | staged hs hmove =>
    rw [State.phase_eq hs]
    refine ⟨stage, rfl, ?_⟩
    rw [exec_stage hs, hmove]
  | instrumented hs hrun hstatus =>
    rw [State.phase_eq hs]
    refine ⟨instrument, rfl, ?_⟩
    rw [exec_instrument hs, exec_required, hrun]
    exact if_pos hstatus
  | replayed hs hrun =>
    rw [State.phase_eq hs]
    refine ⟨(replay ·), rfl, ?_⟩
    rw [exec_replayStep hs, hrun]
  | done hs hrun =>
    rw [State.phase_eq hs]
    exact ⟨cleanUp, rfl, hrun⟩

/-- So many steps of a run that has come to a state are what is left of them from there. -/
theorem exec_steps_of_reached {n : Nat} (hs : Reached args tools before s h)
    (hn : stepsBefore s.phase ≤ n) :
    exec (start args tools >>= runSteps (steps.take n)) before
      = exec (runSteps ((steps.drop (stepsBefore s.phase)).take (n - stepsBefore s.phase)) s) h := by
  induction hs with
  | started hstart =>
    rw [exec_bind, hstart, start_eq_ok hstart]
    rfl
  | @stepped s h₁ s' h₂ _ hstep ih =>
    have hlater := hstep.stepsBefore
    obtain ⟨step, hleft, hexec⟩ := exec_of_advances hstep
    rw [ih (by omega), hleft, show n - stepsBefore s.phase = n - stepsBefore s'.phase + 1 by omega,
      List.take_succ_cons, runSteps, exec_bind, hexec]
    dsimp only
    rw [exec_bind, Run.exec_note]
    rfl

/-- A run that has come to the end of the instrumentor has taken four steps. -/
theorem exec_of_reached_instrumented (hs : Reached args tools before s h)
    (hphase : s.phase = .instrumented) :
    exec (start args tools >>= runSteps (steps.take 4)) before = (.ok s, h) := by
  rw [exec_steps_of_reached hs (by rw [hphase]; decide), hphase]
  rfl

/-! ### After the instrumentor -/

/-- The host when it has logged that a file is replayed next. -/
def flushing (h : Host) (source : String) : Host :=
  h.note Diagnostics.site .debug ("flushing diagnostics from " ++ source)

/-- The first source of a replay, if writing line by line is writing all at once. -/
theorem exec_replay_cons {write : Host → Bytes → Host}
    (hwrite : ∀ bytes h, Diagnostics.copyLines write (Diagnostics.lines bytes) h
      = write h (Diagnostics.endLine bytes))
    (source : String) (rest : List String) (h : Host) :
    exec (Diagnostics.replay write (source :: rest)) h =
      match (flushing h source).files.read source with
      | .error r => (.error (.file (FileOp.faultAt source r)), flushing h source)
      | .ok bytes => exec (Diagnostics.replay write rest)
          (write (flushing h source) (Diagnostics.endLine bytes)) := by
  rw [Diagnostics.replay, exec_bind, Run.exec_note]
  dsimp only
  rw [exec_bind, Run.exec_onFiles, FileOp.exec_ask]
  unfold flushing
  cases (h.note _ _ _).files.read source with
  | error r => rfl
  | ok bytes =>
    dsimp only
    rw [exec_bind, Run.exec_change, hwrite]

/-- What a run does when it has replayed what the instrumentor left. -/
def ending (s : State) (plan : Plan) (last : Launch.Outcome) : Run State := do
  Diagnostics.replay Host.writeStderr [plan.captureFile]
  Run.note (site "runPipeline") .info ("topljavac reached " ++ Phase.replayed.label)
  runSteps [cleanUp] { s with progress := .replayed plan last }

theorem exec_remainder (hs : s.progress = .instrumented plan last) (h : Host) :
    exec (runSteps (steps.drop 4) s) h =
      match (flushing h instrumentorFile).files.read instrumentorFile with
      | .error r => (.error (.file (FileOp.faultAt instrumentorFile r)), flushing h instrumentorFile)
      | .ok bytes => exec (ending s plan last)
          ((flushing h instrumentorFile).writeStderr (Diagnostics.endLine bytes)) := by
  show exec (runSteps [(replay ·), cleanUp] s) h = _
  rw [runSteps, exec_bind, exec_replayStep hs, replayFiles,
    exec_replay_cons Diagnostics.copyLines_writeStderr]
  cases (flushing h instrumentorFile).files.read instrumentorFile with
  | error r => rfl
  | ok bytes =>
    dsimp only
    rw [ending, exec_bind]
    rcases exec (Diagnostics.replay Host.writeStderr [plan.captureFile])
      ((flushing h instrumentorFile).writeStderr (Diagnostics.endLine bytes))
      with ⟨failure | ⟨⟩, h₁⟩ <;> rfl

theorem writesOn_ending : WritesOn (ending s plan last) := by
  refine (WritesOn.replay _).bind fun _ => (WritesOn.note _ _ _).bind fun _ => ?_
  exact (WritesOn.cleanUp _).bind fun s => (WritesOn.note _ _ _).bind fun _ => .pure s

theorem cleanUp_eq_error (hs : s.progress = .replayed plan last) {failure : Failure}
    (hfail : exec (cleanUp s) h = (.error failure, h')) :
    ∃ r, failure = .file (FileOp.faultAt plan.captureFile r) := by
  rw [exec_cleanUp hs] at hfail
  cases hremove : h.files.removeFile plan.captureFile with
  | ok left =>
    rw [hremove] at hfail
    cases hfail
  | error r =>
    rw [hremove] at hfail
    dsimp only at hfail
    split at hfail <;> cases hfail
    exact ⟨r, rfl⟩

/-- Ending a run only fails about the capture file. -/
theorem ending_eq_error {failure : Failure}
    (hfail : exec (ending s plan last) h = (.error failure, h')) :
    ∃ r, failure = .file (FileOp.faultAt plan.captureFile r) := by
  rcases exec_bind_eq_error.mp hfail with hreplay | ⟨_, h₁, -, hfail⟩
  · rw [exec_replay_cons Diagnostics.copyLines_writeStderr] at hreplay
    split at hreplay <;> cases hreplay
    exact ⟨_, rfl⟩
  rcases exec_bind_eq_error.mp hfail with hnote | ⟨_, h₂, -, hfail⟩
  · cases hnote
  rcases exec_bind_eq_error.mp hfail with hclean | ⟨_, h₃, -, hfail⟩
  · exact cleanUp_eq_error rfl hclean
  -- Nothing fails after that.
  rcases exec_bind_eq_error.mp hfail with hnote | ⟨_, h₄, -, hfail⟩
  · cases hnote
  · cases hfail

/-! ### The endings of twins -/

/-- Two runs that have the same result and have written the same. -/
structure SameOutcome (a b : Except Failure State × Host) : Prop where
  result : a.1 = b.1
  stdout : a.2.stdout = b.2.stdout
  stderr : a.2.stderr = b.2.stderr

section

variable {x : String} {base : Host}

/-- Parts on which twins agree come before parts that only have the same outcome. -/
theorem SameOutcome.bind {α : Type} {m : Run α} {f : α → Run State} (hm : Agree d x base m h h')
    (hf : ∀ a k k', Twins d x base k k' → SameOutcome (exec (f a) k) (exec (f a) k')) :
    SameOutcome (exec (m >>= f) h) (exec (m >>= f) h') := by
  obtain ⟨hresult, t⟩ := hm
  rw [exec_bind, exec_bind]
  rcases hexec : exec m h with ⟨failure | a, k⟩ <;> rcases hexec' : exec m h' with ⟨r', k'⟩ <;>
    rw [hexec, hexec'] at hresult t <;> cases hresult
  · exact ⟨rfl, t.stdout.symm, t.stderr.symm⟩
  · exact hf a k k' t

/-- The same has been written to the streams, and what is logged goes to the same place. -/
structure SoundsLike (h h' : Host) : Prop where
  stdout : h.stdout = h'.stdout
  stderr : h.stderr = h'.stderr
  log : h.log = h'.log

theorem SoundsLike.note (hsame : SoundsLike h h') (site : Log.Site) (level : Log.Level)
    (message : String) : SoundsLike (h.note site level message) (h'.note site level message) := by
  have hwritten (bytes : Bytes) : SoundsLike (h.writeStderr bytes) (h'.writeStderr bytes) :=
    ⟨hsame.stdout, congrArg (· ++ bytes) hsame.stderr, hsame.log⟩
  rw [Host.note, Host.note, Host.handle, Host.handle, hsame.log]
  dsimp only
  split
  · split
    · exact hwritten _
    · exact ⟨hsame.stdout, hsame.stderr, rfl⟩
    · exact ⟨hsame.stdout, hsame.stderr, rfl⟩
    · split
      · exact hwritten _
      · exact hsame
  · exact hsame

/-- Cleaning up may leave other files, since the staging directory may be above the file, but
this is not heard. -/
theorem sameOutcome_cleanUp (t : Twins d x base h h') (hx : x ∉ Path.names plan.captureFile)
    (hs : s.progress = .replayed plan last) :
    SameOutcome (exec (runSteps [cleanUp] s) h) (exec (runSteps [cleanUp] s) h') := by
  have hsame : SoundsLike h h' := ⟨t.stdout.symm, t.stderr.symm, t.log.symm⟩
  have hremove := ((t.lone.misses hx false).removeFile t.lone).hidden
  rw [t.hidden, ((t.lone'.misses hx false).removeFile t.lone').hidden] at hremove
  have hdone {k k' : Host} (hsame : SoundsLike k k') (files files' : FileSystem) :
      SameOutcome
        (exec (runSteps [] { s with progress := .done plan last })
          (noteReached { k with files } { s with progress := .done plan last }))
        (exec (runSteps [] { s with progress := .done plan last })
          (noteReached { k' with files := files' } { s with progress := .done plan last })) := by
    have hnoted : SoundsLike { k with files } { k' with files := files' } :=
      ⟨hsame.stdout, hsame.stderr, hsame.log⟩
    have hnoted := hnoted.note (site "runPipeline") .info ("topljavac reached " ++ Phase.done.label)
    exact ⟨rfl, hnoted.stdout, hnoted.stderr⟩
  rw [runSteps, exec_bind, exec_bind, exec_cleanUp hs, exec_cleanUp hs]
  cases hleft : h.files.removeFile plan.captureFile with
  | ok left =>
    cases hleft' : h'.files.removeFile plan.captureFile with
    | ok left' => exact hdone hsame _ _
    | error r' =>
      rw [hleft, hleft'] at hremove
      cases hremove
  | error r =>
    cases hleft' : h'.files.removeFile plan.captureFile with
    | ok left' =>
      rw [hleft, hleft'] at hremove
      cases hremove
    | error r' =>
      rw [hleft, hleft'] at hremove
      cases hremove
      dsimp only
      by_cases hsystem : (FileOp.faultAt plan.captureFile r).fromSystem = true
      · rw [if_pos hsystem, if_pos hsystem]
        exact hdone (hsame.note _ _ _) _ _
      · rw [if_neg hsystem, if_neg hsystem]
        exact ⟨rfl, hsame.stdout, hsame.stderr⟩

theorem sameOutcome_ending (t : Twins d x base h h') (hx : x ∉ Path.names plan.captureFile) :
    SameOutcome (exec (ending s plan last) h) (exec (ending s plan last) h') := by
  refine SameOutcome.bind (.replay t fun source hsource => ?_) fun _ k k' t => ?_
  · exact List.mem_singleton.mp hsource ▸ hx
  · exact SameOutcome.bind (.note t _ _ _) fun _ k k' t => sameOutcome_cleanUp t hx rfl

/-- After other bytes have been written the outcomes are the same if these are. -/
theorem sameOutcome_ending_iff (t : Twins d x base h h') (hx : x ∉ Path.names plan.captureFile)
    {bytes bytes' : Bytes} :
    SameOutcome (exec (ending s plan last) (h.writeStderr bytes))
        (exec (ending s plan last) (h'.writeStderr bytes')) ↔ bytes = bytes' := by
  -- The ending is the one of a host to which nothing has been written yet.
  have hunsaid (h : Host) (bytes : Bytes) : h.writeStderr bytes
      = Host.preceded (h.stderr ++ bytes) { h with stderr := [] } := by
    rw [Host.preceded, Host.writeStderr, List.append_nil]
  have hsame : SameOutcome (exec (ending s plan last) { h with stderr := [] })
      (exec (ending s plan last) { h' with stderr := [] }) :=
    sameOutcome_ending ⟨t.hidden, t.lone, t.lone', by rw [t.rest], t.setUp.1, t.setUp.2, t.setUp.3⟩ hx
  rw [hunsaid, hunsaid, writesOn_ending, writesOn_ending, t.stderr]
  refine ⟨fun houtcome => ?_, fun heq => ?_⟩
  · have hstderr := houtcome.stderr
    simp only [Host.preceded] at hstderr
    rw [hsame.stderr] at hstderr
    exact List.append_cancel_left (List.append_cancel_right hstderr)
  · subst heq
    refine ⟨hsame.result, hsame.stdout, ?_⟩
    simp only [Host.preceded]
    rw [hsame.stderr]

end

/-- What the run reads is not touched when this is logged. -/
theorem read_flushing (hlone : h.files.Lone d instrumentorFile) (source : String) :
    (flushing h source).files.read instrumentorFile = h.files.read instrumentorFile :=
  h.note_cases (P := fun after => after.files.read instrumentorFile = h.files.read instrumentorFile)
    _ _ _ rfl (fun _ => rfl) (fun handle bytes _ _ => hlone.read_appendOpen handle bytes)
    fun _ => rfl

/-- **The remainder of a run.**  Twins in which the instrumentor has ended have the same outcome
if and only if the file that it should have left reads the same, up to an end of its last
line. -/
theorem sameOutcome_remainder_iff {base : Host} (t : Twins d instrumentorFile base h h')
    (hs : s.progress = .instrumented plan last)
    (hx : instrumentorFile ∉ Path.names plan.captureFile) :
    SameOutcome (exec (runSteps (steps.drop 4) s) h) (exec (runSteps (steps.drop 4) s) h') ↔
      (h.files.read instrumentorFile).map Diagnostics.endLine
        = (h'.files.read instrumentorFile).map Diagnostics.endLine := by
  have tflushing : Twins d instrumentorFile base (flushing h instrumentorFile)
      (flushing h' instrumentorFile) := t.note _ _ _
  have hdiffer : instrumentorFile ≠ plan.captureFile := by
    intro heq
    rw [← heq] at hx
    exact hx (by decide)
  -- A refusal of this file is not how the ending can fail.
  have hother {fs : FileSystem} {r : Refusal} (hread : fs.read instrumentorFile = .error r)
      (k : Host) : (exec (ending s plan last) k).1
        ≠ .error (.file (FileOp.faultAt instrumentorFile r)) := by
    intro hfail
    obtain ⟨r', hr'⟩ := ending_eq_error (Prod.ext hfail rfl)
    refine FileOp.faultAt_ne (fun hnul => ?_) hdiffer (Failure.file.inj hr')
    exact FileSystem.read_ne_nul (by decide) (hnul ▸ hread)
  rw [exec_remainder hs, exec_remainder hs, read_flushing t.lone, read_flushing t.lone']
  cases hread : h.files.read instrumentorFile with
  | error r =>
    cases hread' : h'.files.read instrumentorFile with
    | error r' =>
      refine ⟨fun hsame => ?_, fun heq => ?_⟩
      · have hresult := Except.error.inj hsame.result
        rw [FileOp.faultAt_injective (Failure.file.inj hresult)]
      · cases heq
        exact ⟨rfl, tflushing.stdout.symm, tflushing.stderr.symm⟩
    | ok bytes' =>
      exact ⟨fun hsame => absurd hsame.result.symm (hother hread _), fun heq => by cases heq⟩
  | ok bytes =>
    cases hread' : h'.files.read instrumentorFile with
    | error r' =>
      exact ⟨fun hsame => absurd hsame.result (hother hread' _), fun heq => by cases heq⟩
    | ok bytes' =>
      refine (sameOutcome_ending_iff tflushing hx).trans ?_
      exact ⟨congrArg Except.ok, Except.ok.inj⟩

end Pipeline

end MonitoredCompile

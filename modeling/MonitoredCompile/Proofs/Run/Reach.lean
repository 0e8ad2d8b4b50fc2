/-
MonitoredCompile/Proofs/Run/Reach.lean

The states that a run comes to.  A run that ends well has reached the last phase
step by step, and one that ends badly has failed to start or has reached the
state in which a step fails (`ends_run`).  So an invariant of `Advances` holds of
every run, and what a failing step does to it is all that remains to be said.  A run
is in each phase at most once (`Reached.unique`).
-/
import MonitoredCompile.Proofs.Run.Steps

namespace MonitoredCompile.Pipeline

open Attempt (exec exec_bind exec_bind_eq_ok)

/-- What is logged when a step has been taken. -/
def noteReached (h : Host) (s : State) : Host :=
  h.note (site "runPipeline") .info ("topljavac reached " ++ s.phase.label)

/-- The states of a run from the host `h`, each with the host at that time. -/
inductive Reached (args : List String) (tools : Option Toolchain) (h : Host) : State → Host → Prop
  | started {s h'} : exec (start args tools) h = (.ok s, h') → Reached args tools h s h'
  | stepped {s h₁ s' h₂} : Reached args tools h s h₁ → Advances s h₁ s' h₂ →
      Reached args tools h s' (noteReached h₂ s')

/-- How a run may end. -/
def Ends (args : List String) (tools : Option Toolchain) (h : Host) :
    Except Failure State × Host → Prop
  | (.ok s, h') => Reached args tools h s h' ∧ s.phase = .done
  | (.error failure, h') => exec (start args tools) h = (.error failure, h') ∨
      ∃ s h₁, Reached args tools h s h₁ ∧ Fails s h₁ failure h'

variable {args : List String} {tools : Option Toolchain} {h : Host}

/-! ### Phases -/

/-- The number of steps before a phase. -/
def stepsBefore : Phase → Nat
  | .initial => 0
  | .classified => 1
  | .compiled => 2
  | .staged => 3
  | .instrumented => 4
  | .replayed => 5
  | .done => 6

theorem stepsBefore_injective {phase phase' : Phase} (h : stepsBefore phase = stepsBefore phase') :
    phase = phase' := by
  cases phase <;> cases phase' <;> first | rfl | cases h

theorem Advances.stepsBefore {s s' : State} {h h' : Host} (hstep : Advances s h s' h') :
    stepsBefore s'.phase = stepsBefore s.phase + 1 := by
  cases hstep with
  | classified hs | compiled hs | staged hs | instrumented hs | replayed hs | done hs =>
    rw [State.phase_eq hs]
    rfl

theorem start_eq_ok {s : State} {h' : Host} (hstart : exec (start args tools) h = (.ok s, h')) :
    s = ⟨s.tools, args, .initial⟩ := by
  unfold start at hstart
  dsimp only at hstart
  split at hstart
  · cases hstart
    rfl
  · obtain ⟨t, h₁, -, hpure⟩ := exec_bind_eq_ok.mp hstart
    cases hpure
    rfl

/-! ### Runs -/

/-- What is left of a run goes on from a state reached to one as many steps later. -/
theorem reached_runSteps {left : List (State → Run State)} (hleft : ∀ step ∈ left, step ∈ steps)
    {s : State} {h₁ : Host} (hs : Reached args tools h s h₁) :
    match exec (runSteps left s) h₁ with
    | (.ok s', h') => Reached args tools h s' h' ∧
        stepsBefore s'.phase = stepsBefore s.phase + left.length
    | (.error failure, h') => ∃ s' h₂, Reached args tools h s' h₂ ∧ Fails s' h₂ failure h' := by
  induction left generalizing s h₁ with
  | nil => exact ⟨hs, rfl⟩
  | cons step rest ih =>
    have hgives := gives_step (hleft step List.mem_cons_self) s h₁
    rw [runSteps, exec_bind]
    revert hgives
    rcases exec (step s) h₁ with ⟨failure | s', h₂⟩ <;> intro hgives
    · exact ⟨s, h₁, hs, hgives⟩
    · have hrest := ih (fun step hstep => hleft step (List.mem_cons_of_mem _ hstep))
        (hs.stepped hgives)
      dsimp only
      rw [exec_bind, Run.exec_note]
      change match exec (runSteps rest s') (noteReached h₂ s') with
        | (.ok s', h') => Reached args tools h s' h' ∧
            stepsBefore s'.phase = stepsBefore s.phase + (step :: rest).length
        | (.error failure, h') => ∃ s' h₂, Reached args tools h s' h₂ ∧ Fails s' h₂ failure h'
      revert hrest
      rcases exec (runSteps rest s') (noteReached h₂ s') with ⟨failure | s'', h'⟩ <;> intro hrest
      · exact hrest
      · refine ⟨hrest.1, ?_⟩
        rw [hrest.2, hgives.stepsBefore, List.length_cons]
        omega

theorem ends_run (args : List String) (tools : Option Toolchain) (h : Host) :
    Ends args tools h (exec (run args tools) h) := by
  rw [run, exec_bind]
  cases hstart : exec (start args tools) h with
  | mk result h₀ =>
    cases result with
    | error failure => exact .inl hstart
    | ok s =>
      have hsteps := reached_runSteps (fun _ hstep => hstep) (.started hstart)
      dsimp only
      revert hsteps
      rcases exec (runSteps steps s) h₀ with ⟨failure | s', h'⟩ <;> intro hsteps
      · exact .inr hsteps
      · refine ⟨hsteps.1, ?_⟩
        refine stepsBefore_injective (hsteps.2.trans ?_)
        rw [start_eq_ok hstart]
        rfl

/-- A run that stops after so many steps. -/
def runPart (n : Nat) (args : List String) : Run State := do
  runSteps (steps.take n) (← start args none)

theorem reached_runPart {n : Nat} (hn : n ≤ steps.length) {s : State} {h' : Host}
    (hok : exec (runPart n args) h = (.ok s, h')) :
    Reached args none h s h' ∧ stepsBefore s.phase = n := by
  obtain ⟨first, h₁, hstart, hsteps⟩ := exec_bind_eq_ok.mp hok
  have hmember : ∀ step ∈ steps.take n, step ∈ steps := fun _ hstep => List.mem_of_mem_take hstep
  have hreached := reached_runSteps hmember (.started hstart)
  rw [hsteps, start_eq_ok hstart, List.length_take, Nat.min_eq_left hn] at hreached
  exact ⟨hreached.1, hreached.2.trans (Nat.zero_add n)⟩

theorem reached_of_runPart {n : Nat} (hn : n ≤ steps.length) {plan : Plan}
    (hplan : (exec (runPart n args) h).1.toOption.bind State.plan? = some plan) :
    ∃ s, Reached args none h s (exec (runPart n args) h).2 ∧ stepsBefore s.phase = n ∧
      s.plan? = some plan := by
  rcases hrun : exec (runPart n args) h with ⟨failure | s, h'⟩
  · rw [hrun] at hplan
    cases hplan
  · rw [hrun] at hplan
    obtain ⟨hs, hcount⟩ := reached_runPart hn hrun
    exact ⟨s, hs, hcount, hplan⟩

/-! ### One run only -/

/-- A step has one outcome. -/
theorem Advances.unique {s s₁ s₂ : State} {h h₁ h₂ : Host} (hstep : Advances s h s₁ h₁)
    (hstep' : Advances s h s₂ h₂) : s₁ = s₂ ∧ h₁ = h₂ := by
  cases hstep with
  | classified hs hrun | compiled hs hrun | staged hs hrun | instrumented hs hrun
  | replayed hs hrun | done hs hrun =>
    cases hstep' with
    | classified hs' hrun' | compiled hs' hrun' | staged hs' hrun' | instrumented hs' hrun'
    | replayed hs' hrun' | done hs' hrun' =>
      -- The phase tells which step it is, and what this does is a function.
      cases hs.symm.trans hs' <;>
        · cases hrun.symm.trans hrun'
          exact ⟨rfl, rfl⟩

/-- A state that is not the first was reached by a step. -/
theorem Reached.last_step {s : State} {h' : Host} (hs : Reached args tools h s h')
    (hphase : s.phase ≠ .initial) :
    ∃ s₁ h₁ h₂, Reached args tools h s₁ h₁ ∧ Advances s₁ h₁ s h₂ ∧ h' = noteReached h₂ s := by
  cases hs with
  | started hstart =>
    rw [start_eq_ok hstart] at hphase
    exact absurd rfl hphase
  | stepped hs hstep => exact ⟨_, _, _, hs, hstep, rfl⟩

/-- A run is in each phase at most once. -/
theorem Reached.unique {s s' : State} {h₁ h₂ : Host} (hs : Reached args tools h s h₁)
    (hs' : Reached args tools h s' h₂) (hphase : s.phase = s'.phase) : s = s' ∧ h₁ = h₂ := by
  induction hs generalizing s' h₂ with
  | @started s h₁ hstart =>
    cases hs' with
    | started hstart' =>
      cases hstart.symm.trans hstart'
      exact ⟨rfl, rfl⟩
    | stepped _ hstep =>
      have hlater := hstep.stepsBefore
      rw [← hphase, start_eq_ok hstart] at hlater
      cases hlater
  | @stepped s₀ h₀ s h₁ _ hstep ih =>
    have hlater := hstep.stepsBefore
    obtain ⟨s₀', h₀', h₁', hs₀', hstep', rfl⟩ := hs'.last_step fun hinitial => by
      rw [hphase, hinitial] at hlater
      cases hlater
    have hcount := hstep'.stepsBefore
    rw [← hphase, hlater] at hcount
    obtain ⟨rfl, rfl⟩ := ih hs₀' (stepsBefore_injective (Nat.succ.inj hcount))
    obtain ⟨rfl, rfl⟩ := hstep.unique hstep'
    exact ⟨rfl, rfl⟩

/-! ### Where the plan comes from -/

/-- A state reached has the tools of the start, and a plan in it has been made
right after the start. -/
theorem Reached.planned {s : State} {h' : Host} (hs : Reached args tools h s h') :
    ∃ h₀, exec (start args tools) h = (.ok ⟨s.tools, args, .initial⟩, h₀) ∧ s.rawArgs = args ∧
      (s.progress = .initial → h' = h₀) ∧
      ∀ plan, s.plan? = some plan → ∃ h₁, Planned args h₀ plan h₁ := by
  induction hs with
  | @started s h' hstart =>
    obtain ⟨t, rfl⟩ : ∃ t, s = ⟨t, args, .initial⟩ := ⟨_, start_eq_ok hstart⟩
    exact ⟨h', hstart, rfl, fun _ => rfl, fun plan hplan => by cases hplan⟩
  | @stepped s h₁ s' h₂ _ hstep ih =>
    obtain ⟨h₀, hstart, hargs, hinitial, hplanned⟩ := ih
    cases hstep with
    | classified hs _ hplan =>
      rw [hargs, hinitial hs] at hplan
      refine ⟨h₀, hstart, hargs, (by cases ·), fun plan hplan' => ?_⟩
      cases hplan'
      exact ⟨_, hplan⟩
    | compiled hs | staged hs | instrumented hs | replayed hs | done hs =>
      refine ⟨h₀, hstart, hargs, (by cases ·), fun plan hplan' => ?_⟩
      cases hplan'
      exact hplanned _ (State.plan?_eq hs)

/-! ### Well-formed files -/

theorem Advances.staysSound {s s' : State} {h h' : Host} (hstep : Advances s h s' h') :
    StaysSound h h' := by
  have hR := background_staysSound
  cases hstep with
  | classified _ hrun _ => exact (hR.works_classify s).state hrun
  | compiled _ hrun _ | instrumented _ hrun _ =>
    have hfiles := Launch.staysSound_runStage rfl rfl hrun
    exact hfiles
  | @staged plan _ files _ hmove =>
    have hfiles : StaysSound h { h with files } := (sound_moveAside plan).state hmove
    exact hR.trans hfiles (hR.note (.inl rfl) _ _ _)
  | replayed _ hrun => exact (hR.works_replay (fun _ _ => id) _).state hrun
  | done _ hrun => exact (hR.works_cleanUp s).state hrun

/-- A run from well-formed files only reaches well-formed files. -/
theorem Reached.wellFormed {s : State} {h' : Host} (hs : Reached args tools h s h')
    (hfiles : h.files.WellFormed) : h'.files.WellFormed := by
  induction hs with
  | started hstart => exact (background_staysSound.works_start args tools).state hstart hfiles
  | stepped _ hstep ih => exact background_staysSound.note (.inr rfl) _ _ _ (hstep.staysSound ih)

/-! ### Programs -/

/-- Programs do what they did before. -/
def SamePrograms (before after : Host) : Prop := after.programs = before.programs

theorem background_samePrograms : Background SamePrograms where
  refl _ := rfl
  trans hab hbc := hbc.trans hab
  files _ _ _ := rfl
  names _ _ := rfl
  note _ h site message := by
    refine h.note_cases site _ message ?_ (fun _ => ?_) (fun _ _ _ _ => ?_) fun _ => ?_
    all_goals rfl

theorem Advances.samePrograms {s s' : State} {h h' : Host} (hstep : Advances s h s' h') :
    SamePrograms h h' := by
  have hR := background_samePrograms
  cases hstep with
  | classified _ hrun _ => exact (hR.works_classify s).state hrun
  | compiled _ hrun _ =>
    obtain ⟨handle, program, h₁, hbefore, hafter⟩ := runCompiler_eq_ok hR hrun
    exact Eq.trans hafter hbefore
  | staged _ _ => exact hR.note (.inl rfl) _ _ _
  | instrumented _ hrun _ =>
    obtain ⟨program, h₁, hbefore, hafter⟩ := runInstrumentor_eq_ok hR hrun
    exact Eq.trans hafter hbefore
  | replayed _ hrun => exact (hR.works_replay (fun _ _ => rfl) _).state hrun
  | done _ hrun => exact (hR.works_cleanUp s).state hrun

theorem Reached.programs {s : State} {h' : Host} (hs : Reached args tools h s h') :
    h'.programs = h.programs := by
  have hR := background_samePrograms
  induction hs with
  | started hstart => exact (hR.works_start args tools).state hstart
  | stepped _ hstep ih => exact hR.trans ih (hR.trans hstep.samePrograms (hR.note (.inr rfl) _ _ _))

/-! ### Parts of a run -/

/-- Where a run has come to is what a run that stops there gives. -/
theorem Reached.exec_runPart {s : State} {h' : Host} (hs : Reached args none h s h')
    (hok : (exec (runPart (stepsBefore s.phase) args) h).1.isOk = true) :
    exec (runPart (stepsBefore s.phase) args) h = (.ok s, h') := by
  have hcount : stepsBefore s.phase ≤ steps.length := by
    cases s.phase <;> exact Nat.le_of_ble_eq_true rfl
  rcases hrun : exec (runPart (stepsBefore s.phase) args) h with ⟨failure | s₁, h₁⟩
  · rw [hrun] at hok
    cases hok
  · obtain ⟨hs₁, hphase⟩ := reached_runPart hcount hrun
    obtain ⟨rfl, rfl⟩ := hs.unique hs₁ (stepsBefore_injective hphase.symm)
    rfl

end MonitoredCompile.Pipeline

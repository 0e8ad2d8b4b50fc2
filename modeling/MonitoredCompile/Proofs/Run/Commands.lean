/-
MonitoredCompile/Proofs/Run/Commands.lean

The commands of a run.  Whatever the arguments, the environment, the files and the
tools are, a run hands over nothing but the compiler's command and then the
instrumentor's, both made from its plan; the second only after the first has ended
well and the classes have been moved aside; and a run that comes to its end has
run each of them once, with success (`commands_of_run`).
-/
import MonitoredCompile.Proofs.Arguments.Plain
import MonitoredCompile.Proofs.Run.Ledger

namespace MonitoredCompile.Pipeline

open Attempt (exec)

variable {args : List String} {tools : Option Toolchain} {before : Host}

/-- The commands of a plan, in order. -/
def commands (t : Toolchain) (plan : Plan) : List (List String) :=
  [[t.dir ++ t.compilerName] ++ plan.args.plainArgs ++ ["-d", plan.outputDir],
   [t.dir ++ t.instrumentorName] ++ plan.args.monitorSources.flatMap (fun source => ["-e", source])
     ++ ["-s", "-i", plan.stagingDir, "-o", plan.outputDir] ++ plan.args.propertySpecs]

/-! ### States and their commands -/

/-- What has been handed over and what the next step hands over follow the plan. -/
theorem State.launched_pending_prefix {s : State} {plan : Plan} (hplan : s.plan? = some plan) :
    s.launched ++ s.pending <+: commands s.tools plan := by
  rw [State.plan?] at hplan
  rw [State.launched, State.pending]
  cases hs : s.progress <;> rw [hs] at hplan <;> cases hplan
  · exact ⟨[_], rfl⟩
  · exact ⟨[_], rfl⟩
  all_goals exact ⟨[], rfl⟩

/-- Without a plan there is no command. -/
theorem State.launched_pending_nil {s : State} (hplan : s.plan? = none) :
    s.launched = [] ∧ s.pending = [] := by
  rw [State.plan?] at hplan
  rw [State.launched, State.pending]
  cases hs : s.progress <;> rw [hs] at hplan <;> cases hplan
  exact ⟨rfl, rfl⟩

/-- A run that goes further than the staging has staged. -/
theorem Reached.staged {s : State} {h : Host} (hs : Reached args tools before s h)
    (hphase : stepsBefore .compiled < stepsBefore s.phase) :
    ∃ s₁ h₁ s₂ h₂, Reached args tools before s₁ h₁ ∧ s₁.phase = .compiled ∧
      s₁.plan? = s.plan? ∧ exec (stage s₁) h₁ = (.ok s₂, h₂) := by
  induction hs with
  | @started s h hstart =>
    rw [start_eq_ok hstart] at hphase
    simp [State.phase, Progress.phase, stepsBefore] at hphase
  | @stepped s h₁ s' h₂ hreached hstep ih =>
    cases hstep with
    | classified hs | compiled hs =>
      simp [State.phase, Progress.phase, stepsBefore] at hphase
    | staged hs hmove =>
      have hstage := exec_stage hs h₁
      rw [hmove] at hstage
      exact ⟨s, h₁, _, _, hreached, State.phase_eq hs, by rw [State.plan?_eq hs]; rfl, hstage⟩
    | instrumented hs | replayed hs | done hs =>
      have hplan := ih (by simp [State.phase, hs, Progress.phase, stepsBefore])
      rwa [State.plan?_eq hs] at hplan

/-- The instrumentor's command is handed over by a step that comes after the
staging. -/
theorem State.after_staging {s : State} {handed : List (List String)} (hhanded : handed <+: s.pending)
    (hlength : 2 ≤ (s.launched ++ handed).length) :
    stepsBefore .compiled < stepsBefore s.phase := by
  have hle := hhanded.length_le
  rw [List.length_append] at hlength
  rw [State.launched] at hlength
  rw [State.pending] at hle
  rw [State.phase]
  cases hs : s.progress <;> rw [hs] at hlength hle <;>
    simp only [List.length_cons, List.length_nil, Progress.phase, stepsBefore] at hlength hle ⊢ <;>
    omega

/-! ### Runs -/

/-- The commands handed over and the programs run follow a plan. -/
structure Follows (args : List String) (tools : Option Toolchain) (before : Host)
    (launched : List (List String)) (calls : List Call) (t : Toolchain) (plan : Plan) : Prop where
  planned : ∃ h₀ h₁, exec (start args tools) before = (.ok ⟨t, args, .initial⟩, h₀) ∧
    Planned args h₀ plan h₁
  inOrder : launched <+: commands t plan
  plain : ∀ token ∈ plan.args.plainArgs, token ≠ "-d" ∧ ¬ ".topl".toList <:+ token.toList
  /-- The instrumentor's turn comes when the compiler has ended well and the
  classes have been moved aside. -/
  staged : launched = commands t plan → calls.head?.map Call.status = some 0 ∧
    ∃ s₁ h₁ s₂ h₂, Reached args tools before s₁ h₁ ∧ s₁.phase = .compiled ∧
      s₁.plan? = some plan ∧ exec (stage s₁) h₁ = (.ok s₂, h₂)

theorem Reached.follows {s : State} {h : Host} (hs : Reached args tools before s h) {plan : Plan}
    (hplan : s.plan? = some plan) {handed : List (List String)} (hhanded : handed <+: s.pending)
    {ended : List Call} (hended : List.Forall₂ Succeeded s.launched ended) (more : List Call) :
    Follows args tools before (s.launched ++ handed) (ended ++ more) s.tools plan := by
  obtain ⟨h₀, hstart, -, -, hplanned⟩ := hs.planned
  obtain ⟨h₁, hmade⟩ := hplanned plan hplan
  refine ⟨⟨h₀, h₁, hstart, hmade⟩, ?_, fun token htoken => ?_, fun hlaunched => ?_⟩
  · exact ((List.prefix_append_right_inj _).mpr hhanded).trans (State.launched_pending_prefix hplan)
  · obtain ⟨tokens, _, _, _, _, -, -, hargs, -⟩ := hmade
    rw [hargs] at htoken
    exact Arguments.of_mem_plainArgs htoken
  · have hlength : 2 ≤ (s.launched ++ handed).length := by
      rw [hlaunched]
      exact Nat.le_refl 2
    have hstaged := hs.staged (State.after_staging hhanded hlength)
    rw [hplan] at hstaged
    have hsome : s.launched ≠ [] := fun hnil => by
      have hpending : s.pending.length ≤ 1 := by
        rw [State.pending]
        split <;> simp
      have hle := hhanded.length_le
      rw [hnil, List.nil_append] at hlength
      omega
    obtain ⟨command, rest, hfirst⟩ := List.exists_cons_of_ne_nil hsome
    rw [hfirst] at hended
    cases hended with
    | cons hcall _ => exact ⟨congrArg some hcall.2, hstaged⟩

theorem map_args_of_succeeded {launched : List (List String)} {calls : List Call}
    (h : List.Forall₂ Succeeded launched calls) : calls.map Call.args = launched.map List.tail := by
  induction h with
  | nil => rfl
  | cons hcall _ ih => rw [List.map_cons, List.map_cons, hcall.1, ih]

theorem map_status_of_succeeded {launched : List (List String)} {calls : List Call}
    (h : List.Forall₂ Succeeded launched calls) :
    calls.map Call.status = launched.map fun _ => 0 := by
  induction h with
  | nil => rfl
  | cons hcall _ ih => rw [List.map_cons, List.map_cons, hcall.2, ih]

/-- Whatever a failing step hands over, it is a beginning of what was pending, and
nothing else is run. -/
theorem Fails.hands {s : State} {h after : Host} {failure : Failure} (hfail : Fails s h failure after) :
    ∃ handed more, handed <+: s.pending ∧ after.commands = h.commands ++ handed ∧
      after.calls = h.calls ++ more ∧ more.map Call.args <+: handed.map List.tail := by
  rcases hfail.ledger with ⟨-, hsame, handed, hhanded, hadded⟩ |
    ⟨command, call, hpending, hadded, hcall, hcallArgs, -⟩
  · exact ⟨handed, [], hhanded, hadded, hsame.trans (List.append_nil _).symm, List.nil_prefix⟩
  · refine ⟨[command], [call], hpending ▸ List.prefix_rfl, hadded, hcall, ?_⟩
    simp [hcallArgs]

/-- **The commands of a run.**  A run that makes no plan hands over nothing and
fails.  Any other hands over commands of its plan in their order, runs the
programs of these commands, and if it comes to its end, it has handed over both
and both have ended with status zero. -/
theorem commands_of_run (args : List String) (tools : Option Toolchain) (before : Host) :
    ∃ launched calls,
      (exec (run args tools) before).2.commands = before.commands ++ launched ∧
      (exec (run args tools) before).2.calls = before.calls ++ calls ∧
      calls.map Call.args <+: launched.map List.tail ∧
      ((launched = [] ∧ ∀ s, (exec (run args tools) before).1 ≠ .ok s) ∨
        ∃ t plan, Follows args tools before launched calls t plan ∧
          ∀ s, (exec (run args tools) before).1 = .ok s →
            s.phase = .done ∧ launched = commands t plan ∧ calls.map Call.status = [0, 0]) := by
  have hends := ends_run args tools before
  revert hends
  rcases exec (run args tools) before with ⟨failure | s, after⟩ <;> intro hends
  · rcases hends with hstart | ⟨s, h, hs, hfail⟩
    · have hrecord := (background_sameRecord.works_start args tools).state hstart
      obtain ⟨hcommands, calls, hcalls, hall⟩ := Ledger.ofSameRecord hrecord
      cases hall
      exact ⟨[], [], hcommands, hcalls, List.nil_prefix, .inl ⟨rfl, fun s => nofun⟩⟩
    · obtain ⟨hcommands, ended, hcalls, hall⟩ := hs.ledger
      have hargs := map_args_of_succeeded hall
      obtain ⟨handed, more, hhanded, hcommands', hcalls', hmore⟩ := hfail.hands
      refine ⟨s.launched ++ handed, ended ++ more, ?_, ?_, ?_, ?_⟩
      · rw [hcommands', hcommands, List.append_assoc]
      · rw [hcalls', hcalls, List.append_assoc]
      · rw [List.map_append, List.map_append, hargs]
        exact (List.prefix_append_right_inj _).mpr hmore
      · cases hplan : s.plan? with
        | none =>
          obtain ⟨hnone, hpending⟩ := State.launched_pending_nil hplan
          rw [hpending, List.prefix_nil] at hhanded
          exact .inl ⟨by rw [hnone, hhanded]; rfl, fun s => nofun⟩
        | some plan => exact .inr ⟨s.tools, plan, hs.follows hplan hhanded hall more, fun s => nofun⟩
  · obtain ⟨hs, hdone⟩ := hends
    obtain ⟨hcommands, calls, hcalls, hall⟩ := hs.ledger
    obtain ⟨plan, last, hprogress⟩ := State.progress_of_done hdone
    have hlaunched : s.launched = commands s.tools plan := by
      rw [State.launched, hprogress]
      rfl
    have hfollows := hs.follows (State.plan?_eq hprogress) List.nil_prefix hall []
    rw [List.append_nil, List.append_nil] at hfollows
    refine ⟨s.launched, calls, hcommands, hcalls, ?_, .inr ⟨s.tools, plan, hfollows, ?_⟩⟩
    · simp [map_args_of_succeeded hall]
    · rintro _ ⟨⟩
      refine ⟨hdone, hlaunched, ?_⟩
      rw [map_status_of_succeeded hall, hlaunched]
      rfl

end MonitoredCompile.Pipeline

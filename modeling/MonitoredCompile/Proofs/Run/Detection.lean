/-
MonitoredCompile/Proofs/Run/Detection.lean

Whether a caller that scans the standard error stream finds out that a run has failed.
It looks for a line that starts with one of two markers, and every report starts with
one, but nothing makes sure that the report starts a line.  What the command writes
itself are whole lines; what the instrumentor writes to the stream may break off in the
middle of one (`Reached.orderly`, `Fails.orderly`).  So a failed run can be told from
the stream if and only if this has not happened, or another line has a marker
(`hasMarkedLine_iff_of_failed`).
-/
import MonitoredCompile.Proofs.Run.Report
import MonitoredCompile.Proofs.Text.Utf8

namespace MonitoredCompile

open Attempt (exec)
open Pipeline

/-! ### Lines -/

/-- Nothing, or whole lines. -/
def AtLineStart (bytes : Bytes) : Prop := bytes = [] ∨ bytes.getLast? = some 0x0A

instance (bytes : Bytes) : Decidable (AtLineStart bytes) :=
  inferInstanceAs (Decidable (bytes = [] ∨ bytes.getLast? = some 0x0A))

/-- What a caller looks for at the start of a line. -/
def markers : List Bytes := [Utf8.encode "E: ", Utf8.encode "failed (errorcode"]

def StartsMarked (bytes : Bytes) : Prop := ∃ marker ∈ markers, marker <+: bytes

instance (bytes : Bytes) : Decidable (StartsMarked bytes) :=
  inferInstanceAs (Decidable (∃ marker ∈ markers, marker <+: bytes))

/-- A line starts with a marker. -/
def HasMarkedLine (bytes : Bytes) : Prop :=
  ∃ front rest, bytes = front ++ rest ∧ AtLineStart front ∧ StartsMarked rest

instance (bytes : Bytes) : Decidable (HasMarkedLine bytes) :=
  decidable_of_iff
    (∃ n < bytes.length + 1, AtLineStart (bytes.take n) ∧ StartsMarked (bytes.drop n)) <| by
    constructor
    · rintro ⟨n, -, hfront, hrest⟩
      exact ⟨_, _, (List.take_append_drop n bytes).symm, hfront, hrest⟩
    · rintro ⟨front, rest, rfl, hfront, hrest⟩
      refine ⟨front.length, ?_, by simpa using hfront, by simpa using hrest⟩
      rw [List.length_append]
      omega

/-- A line after the first starts with a marker. -/
def HasMarkedLaterLine (bytes : Bytes) : Prop :=
  ∃ front rest, bytes = front ++ rest ∧ front.getLast? = some 0x0A ∧ StartsMarked rest

/-- After whole lines, a stream is at the start of a line if what is added to it is. -/
theorem atLineStart_append_iff {front : Bytes} (hfront : AtLineStart front) (rest : Bytes) :
    AtLineStart (front ++ rest) ↔ AtLineStart rest := by
  rcases List.eq_nil_or_concat rest with rfl | ⟨init, b, rfl⟩
  · rw [List.append_nil]
    exact ⟨fun _ => .inl rfl, fun _ => hfront⟩
  · rw [AtLineStart, AtLineStart, List.concat_eq_append, ← List.append_assoc]
    simp

/-- No marker begins within a marker. -/
theorem StartsMarked.not_mem_tail {b : UInt8} {rest : Bytes} (h : StartsMarked (b :: rest)) :
    ∀ marker ∈ markers, b ∉ marker.tail := by
  have hmarkers : ∀ marker ∈ markers, marker ≠ [] ∧
      ∀ c ∈ marker.head?, ∀ other ∈ markers, c ∉ other.tail := by
    decide +kernel
  obtain ⟨marker, hmarker, hprefix⟩ := h
  rcases List.prefix_cons_iff.mp hprefix with rfl | ⟨more, rfl, -⟩
  · exact absurd rfl (hmarkers _ hmarker).1
  · exact (hmarkers _ hmarker).2 b rfl

/-- No marker is made up of the end of what comes before and the start of marked text. -/
theorem StartsMarked.of_append {bytes text : Bytes} (htext : StartsMarked text)
    (h : StartsMarked (bytes ++ text)) : bytes = [] ∨ StartsMarked bytes := by
  obtain ⟨marker, hmarker, more, hmore⟩ := h
  rcases List.append_eq_append_iff.mp hmore with ⟨within, rfl, -⟩ | ⟨cut, rfl, rfl⟩
  · exact .inr ⟨marker, hmarker, List.prefix_append _ _⟩
  · cases bytes with
    | nil => exact .inl rfl
    | cons first bytes =>
      cases cut with
      | nil => exact .inr ⟨_, hmarker, by simp⟩
      -- The marker of the text would begin within this one.
      | cons b cut => exact absurd (by simp) (htext.not_mem_tail _ hmarker)

/-- Marked text that is added to a stream has a marked line there if it starts a line. -/
theorem hasMarkedLine_append_iff {bytes text : Bytes} (htext : StartsMarked text) :
    HasMarkedLine (bytes ++ text) ↔
      HasMarkedLine bytes ∨ AtLineStart bytes ∨ HasMarkedLaterLine text := by
  constructor
  · rintro ⟨front, rest, hsplit, hfront, hrest⟩
    rcases List.append_eq_append_iff.mp hsplit with ⟨middle, rfl, rfl⟩ | ⟨middle, rfl, rfl⟩
    -- The marked line starts with the text, or later.
    · rcases List.eq_nil_or_concat middle with rfl | ⟨line, b, rfl⟩
      · exact .inr (.inl (by simpa using hfront))
      · have hb : b = 0x0A := by simpa [AtLineStart] using hfront
        exact .inr (.inr ⟨_, rest, rfl, by simp [hb], hrest⟩)
    -- It starts before the text.
    · rcases htext.of_append hrest with rfl | hmiddle
      · exact .inr (.inl (by simpa using hfront))
      · exact .inl ⟨front, middle, rfl, hfront, hmiddle⟩
  · rintro (⟨front, rest, rfl, hfront, marker, hmarker, hprefix⟩ | hstart |
      ⟨front, rest, rfl, hlast, hrest⟩)
    · exact ⟨front, rest ++ text, List.append_assoc .., hfront, marker, hmarker,
        hprefix.trans (List.prefix_append _ _)⟩
    · exact ⟨bytes, text, rfl, hstart, htext⟩
    · refine ⟨bytes ++ front, rest, (List.append_assoc ..).symm, .inr ?_, hrest⟩
      rw [List.getLast?_append, hlast]
      rfl

/-! ### What is added to the stream -/

/-- No program was run, and what was added to the standard error stream, if anything
was, ends with a line. -/
def OnlyLines (before after : Host) : Prop :=
  after.calls = before.calls ∧
    (after.stderr = before.stderr ∨ after.stderr.getLast? = some 0x0A)

theorem OnlyLines.atLineStart {h h' : Host} (hlines : OnlyLines h h')
    (hstart : AtLineStart h.stderr) : AtLineStart h'.stderr := by
  rcases hlines.2 with hsame | hlast
  · exact hsame.symm ▸ hstart
  · exact .inr hlast

theorem onlyLines_printLine (h : Host) (text : String) : OnlyLines h (h.printLine text) :=
  ⟨rfl, .inl rfl⟩

theorem onlyLines_writeStderr (h : Host) {bytes : Bytes} (hbytes : bytes.getLast? = some 0x0A) :
    OnlyLines h (h.writeStderr bytes) := by
  refine ⟨rfl, .inr ?_⟩
  rw [Host.writeStderr, List.getLast?_append, hbytes]
  rfl

theorem onlyLines_note (h : Host) (site : Log.Site) (level : Log.Level) (message : String) :
    OnlyLines h (h.note site level message) := by
  refine h.note_cases site level message ?_ (fun text => ?_) (fun _ _ _ _ => ?_) fun _ => ?_
  · exact ⟨rfl, .inl rfl⟩
  · exact onlyLines_writeStderr h (Utf8.getLast?_encode_line text)
  · exact ⟨rfl, .inl rfl⟩
  · exact ⟨rfl, .inl rfl⟩

/-- What is replayed ends with a line, also if the file does not. -/
theorem onlyLines_endLine (h : Host) (bytes : Bytes) :
    OnlyLines h (h.writeStderr (Diagnostics.endLine bytes)) := by
  rw [Diagnostics.endLine]
  split
  · rw [Host.writeStderr, List.append_nil]
    exact ⟨rfl, .inl rfl⟩
  · next b hlast =>
    split
    · next hb => exact onlyLines_writeStderr h (hb ▸ hlast)
    · exact onlyLines_writeStderr h (by simp)

theorem background_onlyLines : Background OnlyLines where
  refl _ := ⟨rfl, .inl rfl⟩
  trans hab hbc := by
    refine ⟨hbc.1.trans hab.1, ?_⟩
    rcases hbc.2 with hsame | hlast
    · rw [hsame]
      exact hab.2
    · exact .inr hlast
  files _ _ _ := ⟨rfl, .inl rfl⟩
  names _ _ := ⟨rfl, .inl rfl⟩
  note _ h site message := onlyLines_note h site _ message

/-! ### The stream along a run -/

/-- The last on the standard error stream is what this tool wrote there, the second of
two, and it started a line. -/
structure SpokeLast (before : Host) (instrumentor : Call) (h : Host) : Prop where
  record : ∃ compiler, h.calls = before.calls ++ [compiler, instrumentor]
  stderr : ∃ prior, AtLineStart prior ∧ h.stderr = prior ++ instrumentor.written .errors

/-- The standard error stream is at the start of a line, or it is the instrumentor that
has left it elsewhere. -/
def Orderly (before h : Host) : Prop :=
  AtLineStart h.stderr ∨ ∃ instrumentor, SpokeLast before instrumentor h

namespace Orderly

variable {before h h' : Host}

theorem onlyLines (ho : Orderly before h) (hlines : OnlyLines h h') : Orderly before h' := by
  rcases ho with hstart | ⟨instrumentor, ⟨compiler, hcalls⟩, prior, hprior, hstderr⟩
  · exact .inl (hlines.atLineStart hstart)
  · rcases hlines.2 with hsame | hlast
    · exact .inr ⟨instrumentor, ⟨compiler, hlines.1.trans hcalls⟩, prior, hprior,
        hsame.trans hstderr⟩
    · exact .inl (.inr hlast)

/-- What counts of the time before is what had been run. -/
theorem of_onlyLines {earlier : Host} (hlines : OnlyLines earlier before) (ho : Orderly before h) :
    Orderly earlier h := by
  rcases ho with hstart | ⟨instrumentor, ⟨compiler, hcalls⟩, hstderr⟩
  · exact .inl hstart
  · exact .inr ⟨instrumentor, ⟨compiler, hlines.1 ▸ hcalls⟩, hstderr⟩

/-- Before the second tool has been run. -/
theorem atLineStart (ho : Orderly before h) {launched : List (List String)}
    (hl : Ledger before launched h) (hfew : launched.length < 2) : AtLineStart h.stderr := by
  rcases ho with hstart | ⟨instrumentor, ⟨compiler, htwo⟩, -⟩
  · exact hstart
  · obtain ⟨calls, hcalls, hall⟩ := hl.calls
    obtain rfl : calls = [compiler, instrumentor] :=
      List.append_cancel_left (hcalls.symm.trans htwo)
    rw [hall.length_eq] at hfew
    exact absurd hfew (lt_irrefl 2)

end Orderly

namespace Pipeline

section

variable {s : State} {plan : Plan} {before h h' : Host} {outcome : Launch.Outcome}

theorem atLineStart_of_runCompiler_eq_ok (hstart : AtLineStart h.stderr)
    (hok : exec (runCompiler s plan) h = (.ok outcome, h')) : AtLineStart h'.stderr := by
  obtain ⟨handle, program, h₁, hbefore, hafter⟩ := runCompiler_eq_ok background_onlyLines hok
  refine hafter.atLineStart ?_
  rw [(Launch.executeOn_toFile h₁ handle program _).2]
  exact hbefore.atLineStart hstart

theorem orderly_of_runInstrumentor_eq_ok {compiler : Call}
    (hcalls : h.calls = before.calls ++ [compiler]) (hstart : AtLineStart h.stderr)
    (hok : exec (runInstrumentor s plan) h = (.ok outcome, h')) : Orderly before h' := by
  obtain ⟨program, h₁, hbefore, hafter⟩ := runInstrumentor_eq_ok background_onlyLines hok
  refine Orderly.onlyLines (.inr ⟨Launch.callOn h₁ Launch.ownRoutes program _, ⟨compiler, ?_⟩,
    h₁.stderr, hbefore.atLineStart hstart, (Launch.executeOn_ownRoutes h₁ program _).2⟩) hafter
  rw [Launch.executeOn_calls, hbefore.1, Host.handOver, hcalls, List.append_assoc]
  rfl

end

variable {args : List String} {tools : Option Toolchain} {before : Host}

theorem Advances.orderly {s s' : State} {h h' : Host} (hstep : Advances s h s' h')
    (hl : Ledger before s.launched h) (ho : Orderly before h) : Orderly before h' := by
  have hR := background_onlyLines
  cases hstep with
  | classified _ hrun _ => exact ho.onlyLines ((hR.works_classify s).state hrun)
  | compiled hprogress hrun _ =>
    have hstart := ho.atLineStart hl (by simp [State.launched, hprogress])
    have hended : Orderly before _ := .inl (atLineStart_of_runCompiler_eq_ok hstart hrun)
    exact hended.onlyLines (onlyLines_printLine _ _)
  | @staged _ _ files _ _ =>
    have hmoved : OnlyLines h { h with files } := ⟨rfl, .inl rfl⟩
    exact (ho.onlyLines hmoved).onlyLines (onlyLines_note _ _ _ _)
  | instrumented hprogress hrun _ =>
    have hstart := ho.atLineStart hl (by simp [State.launched, hprogress])
    rw [State.launched, hprogress] at hl
    obtain ⟨compiler, hcalls⟩ := hl.single
    have hended := orderly_of_runInstrumentor_eq_ok hcalls hstart hrun
    exact hended.onlyLines (onlyLines_printLine _ _)
  | replayed _ hrun => exact ho.onlyLines ((hR.works_replay onlyLines_endLine _).state hrun)
  | done _ hrun => exact ho.onlyLines ((hR.works_cleanUp s).state hrun)

theorem Reached.orderly (hstart : AtLineStart before.stderr) {s : State} {h : Host}
    (hs : Reached args tools before s h) : Orderly before h := by
  induction hs with
  | started hrun =>
    exact .inl (((background_onlyLines.works_start args tools).state hrun).atLineStart hstart)
  | stepped hs hstep ih => exact (hstep.orderly hs.ledger ih).onlyLines (onlyLines_note _ _ _ _)

theorem Fails.orderly {s : State} {h h' : Host} {failure : Failure} (hfail : Fails s h failure h')
    (hl : Ledger before s.launched h) (ho : Orderly before h) : Orderly before h' := by
  have hR := background_onlyLines
  cases hfail with
  | phase expected => exact ho
  | classify _ hrun => exact ho.onlyLines ((hR.works_classify s).state hrun)
  | noCompiler _ hrun | noInstrumentor _ hrun =>
    have hlines : OnlyLines h h' := (Launch.runStage_eq_error hR rfl rfl hrun).2
    exact ho.onlyLines hlines
  | compiler hprogress hrun _ =>
    have hstart := ho.atLineStart hl (by simp [State.launched, hprogress])
    exact .inl (atLineStart_of_runCompiler_eq_ok hstart hrun)
  | stage _ _ => exact ho.onlyLines ⟨rfl, .inl rfl⟩
  | instrumentor hprogress hrun _ =>
    have hstart := ho.atLineStart hl (by simp [State.launched, hprogress])
    rw [State.launched, hprogress] at hl
    obtain ⟨compiler, hcalls⟩ := hl.single
    exact orderly_of_runInstrumentor_eq_ok hcalls hstart hrun
  | replay _ hrun => exact ho.onlyLines ((hR.works_replay onlyLines_endLine _).state hrun)
  | cleanUp _ hrun => exact ho.onlyLines ((hR.works_cleanUp s).state hrun)

/-- However a run ends. -/
theorem orderly_run (args : List String) (tools : Option Toolchain)
    (hstart : AtLineStart before.stderr) : Orderly before (exec (run args tools) before).2 := by
  have hends := ends_run args tools before
  revert hends
  rcases exec (run args tools) before with ⟨failure | s, ran⟩ <;> intro hends
  · rcases hends with hrun | ⟨s, h, hs, hfail⟩
    · exact .inl (((background_onlyLines.works_start args tools).state hrun).atLineStart hstart)
    · exact hfail.orderly hs.ledger (hs.orderly hstart)
  · exact hends.1.orderly hstart

end Pipeline

/-! ### The report in the stream -/

theorem startsMarked_report (failure : Failure) :
    StartsMarked (Utf8.encode (failure.report ++ "\n")) := by
  have hmarked (start rest : String) (hstart : StartsMarked (Utf8.encode start)) :
      StartsMarked (Utf8.encode (start ++ rest)) := by
    obtain ⟨marker, hmarker, hprefix⟩ := hstart
    rw [Utf8.encode_append]
    exact ⟨marker, hmarker, hprefix.trans (List.prefix_append _ _)⟩
  have herror (message : String) : StartsMarked (Utf8.encode ("E: " ++ message ++ "\n")) := by
    rw [String.append_assoc]
    exact hmarked "E: " _ (by decide +kernel)
  have hother (message : String) :
      StartsMarked (Utf8.encode ("E: Exception (" ++ message ++ ")." ++ "\n")) := by
    rw [String.append_assoc, String.append_assoc]
    exact hmarked "E: Exception (" _ (by decide +kernel)
  have htool (status command : String) : StartsMarked
      (Utf8.encode ("failed (errorcode " ++ status ++ ") to run: " ++ command ++ "\n")) := by
    rw [String.append_assoc, String.append_assoc, String.append_assoc]
    exact hmarked "failed (errorcode " _ (by decide +kernel)
  cases failure with
  | toolFailed status command => exact htool _ _
  | malformedArgFile | missingToolDir dir | staging src dst cause => exact herror _
  | _ => exact hother _

theorem Command.onlyLines_beforeReport (failure : Failure) (h : Host) :
    OnlyLines h (Command.beforeReport failure h) := by
  cases failure with
  | toolFailed | malformedArgFile | missingToolDir | staging => exact background_onlyLines.refl h
  | _ => exact onlyLines_note _ _ _ _

/-- The report cannot be found: it was added to a line of the instrumentor's that had no
end, and no other line has a marker. -/
def Obscured (before told : Host) (report : Bytes) : Prop :=
  ∃ instrumentor, SpokeLast before instrumentor told ∧
    ¬ AtLineStart (instrumentor.written .errors) ∧
    ¬ HasMarkedLine told.stderr ∧ ¬ HasMarkedLaterLine report

/-- A report that is added to an orderly stream can be found unless it is obscured. -/
theorem Orderly.hasMarkedLine_iff {before told : Host} (ho : Orderly before told) {report : Bytes}
    (hreport : StartsMarked report) :
    HasMarkedLine (told.stderr ++ report) ↔ ¬ Obscured before told report := by
  rw [hasMarkedLine_append_iff hreport]
  constructor
  · rintro hfound ⟨instrumentor, ⟨-, prior, hprior, hstderr⟩, hbroken, hnone, hlater⟩
    rcases hfound with hmarked | hstart | hmarked
    · exact hnone hmarked
    · rw [hstderr, atLineStart_append_iff hprior] at hstart
      exact hbroken hstart
    · exact hlater hmarked
  · intro hclear
    by_contra hlost
    rw [not_or, not_or] at hlost
    obtain ⟨hnone, hbroken, hlater⟩ := hlost
    -- What has left the stream in the middle of a line is the instrumentor.
    rcases ho with hstart | ⟨instrumentor, hspoke⟩
    · exact hbroken hstart
    · obtain ⟨prior, hprior, hstderr⟩ := hspoke.stderr
      rw [hstderr, atLineStart_append_iff hprior] at hbroken
      exact hclear ⟨instrumentor, hspoke, hbroken, hnone, hlater⟩

/-- **A failed run can be told from the standard error stream** if and only if its
report is not obscured. -/
theorem hasMarkedLine_iff_of_failed {args : List String} {before ran : Host} {failure : Failure}
    (hstart : AtLineStart before.stderr)
    (hfailed : exec (Pipeline.run args) (Command.entered args before) = (.error failure, ran)) :
    HasMarkedLine (exec (Command.compile args) before).2.stderr ↔
      ¬ Obscured before (Command.beforeReport failure ran)
        (Utf8.encode (failure.report ++ "\n")) := by
  have hentered : OnlyLines before (Command.entered args before) := onlyLines_note _ _ _ _
  have hran := orderly_run args none (hentered.atLineStart hstart)
  rw [hfailed] at hran
  have htold := (hran.of_onlyLines hentered).onlyLines (Command.onlyLines_beforeReport failure ran)
  rw [Command.exec_compile_eq, hfailed]
  exact htold.hasMarkedLine_iff (startsMarked_report failure)

/-- A host whose instrumentor says something without ending the line, and then fails. -/
def mumblingHost : Host where
  files := ⟨.dir [("bin", .dir [
      ("javac", .file { bytes := [], executable := true, program := some "javac" }),
      ("toplc", .file { bytes := [], executable := true, program := some "toplc" })]),
    ("tmp", .dir [])], some [], []⟩
  programs program _ := if program = "javac" then .exit 0 else .emit .errors [0x3F] (.exit 1)
  scratchDir := "/tmp"

theorem failed_mumblingHost :
    (exec (Pipeline.run ["A.java"]) (Command.entered ["A.java"] mumblingHost)).1.isOk = false := by
  decide +kernel

theorem hasMarkedLine_iff_mumblingHost :
    AtLineStart mumblingHost.stderr ∧ ∃ failure ran,
      exec (Pipeline.run ["A.java"]) (Command.entered ["A.java"] mumblingHost)
        = (.error failure, ran) ∧
      (HasMarkedLine (exec (Command.compile ["A.java"]) mumblingHost).2.stderr ↔
        ¬ Obscured mumblingHost (Command.beforeReport failure ran)
          (Utf8.encode (failure.report ++ "\n"))) := by
  have hstart : AtLineStart mumblingHost.stderr := .inl rfl
  have hfailed := failed_mumblingHost
  rcases hrun : exec (Pipeline.run ["A.java"]) (Command.entered ["A.java"] mumblingHost)
    with ⟨failure | s, ran⟩
  · exact ⟨hstart, failure, ran, rfl, hasMarkedLine_iff_of_failed hstart hrun⟩
  · rw [hrun] at hfailed
    cases hfailed

/-- A run may fail without a line that says so. -/
theorem unmarked_mumblingHost :
    (exec (Pipeline.run ["A.java"]) (Command.entered ["A.java"] mumblingHost)).1.isOk = false ∧
      ¬ HasMarkedLine (exec (Command.compile ["A.java"]) mumblingHost).2.stderr := by
  refine ⟨failed_mumblingHost, ?_⟩
  have hstderr : (exec (Command.compile ["A.java"]) mumblingHost).2.stderr = Utf8.encode
      ("?failed (errorcode 1) to run: toplc -s -i /tmp/topljavac-in00000003" ++
        " -o /tmp/topljavac-out00000001\n") := by
    decide +kernel
  rw [hstderr]
  decide +kernel

end MonitoredCompile

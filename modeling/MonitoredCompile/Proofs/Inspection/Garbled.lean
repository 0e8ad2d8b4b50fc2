/-
MonitoredCompile/Proofs/Inspection/Garbled.lean

When the look at the environment has no verdict.  Every error with which the system can
refuse to start a tool becomes a line of the report, and no exit status is judged, but
both streams of a tool are read as text before anything is made of them.  So the look is
always good for a verdict but for one case, which is exact (`check_verdict_iff`): among
the bytes that it reads, there are some that are no text.  Then it fails at the first of
them, in the order in which it reads: the standard output of the compiler, its standard
error stream, and the same of the instrumentor, though nothing that the instrumentor
writes is ever shown.
-/
import MonitoredCompile.Proofs.Inspection.Verdict

namespace MonitoredCompile

open Attempt (exec exec_bind exec_get)
open Launch (launch launched)

/-! ### The first fault -/

namespace Utf8

/-- What is wrong with bytes that are no text. -/
def fault? (bytes : Bytes) : Option Fault :=
  match decode bytes with
  | .ok _ => none
  | .error fault => some fault

theorem fault?_eq_none_iff {bytes : Bytes} : fault? bytes = none ↔ ∃ text, bytes = encode text := by
  rw [fault?]
  cases hread : decode bytes with
  | ok text => exact iff_of_true rfl ⟨text, decode_eq_ok_iff.mp hread⟩
  | error fault =>
    refine iff_of_false nofun fun ⟨text, htext⟩ => ?_
    rw [decode_eq_ok_iff.mpr htext] at hread
    cases hread

theorem fault?_eq_some_iff {bytes : Bytes} {fault : Fault} :
    fault? bytes = some fault ↔ decode bytes = .error fault := by
  rw [fault?]
  cases decode bytes <;> simp

/-- What is wrong with the first bytes of several that are no text. -/
def firstFault? (said : List Bytes) : Option Fault := said.findSome? fault?

theorem firstFault?_cons (bytes : Bytes) (rest : List Bytes) :
    firstFault? (bytes :: rest) = (fault? bytes).or (firstFault? rest) := by
  rw [firstFault?, List.findSome?_cons]
  cases fault? bytes <;> rfl

theorem firstFault?_append (first second : List Bytes) :
    firstFault? (first ++ second) = (firstFault? first).or (firstFault? second) :=
  List.findSome?_append

theorem firstFault?_eq_none_iff {said : List Bytes} :
    firstFault? said = none ↔ ∀ bytes ∈ said, ∃ text, bytes = encode text := by
  simp only [firstFault?, List.findSome?_eq_none_iff, fault?_eq_none_iff]

theorem firstFault?_eq_some_iff {said : List Bytes} {fault : Fault} :
    firstFault? said = some fault ↔ ∃ before bytes after, said = before ++ bytes :: after ∧
      (∀ earlier ∈ before, ∃ text, earlier = encode text) ∧ decode bytes = .error fault := by
  rw [firstFault?, List.findSome?_eq_some_iff]
  simp only [fault?_eq_some_iff, fault?_eq_none_iff]
  constructor
  · rintro ⟨before, bytes, after, hsaid, hfault, hbefore⟩
    exact ⟨before, bytes, after, hsaid, hbefore, hfault⟩
  · rintro ⟨before, bytes, after, hsaid, hbefore, hfault⟩
    exact ⟨before, bytes, after, hsaid, hfault, hbefore⟩

end Utf8

namespace Inspection

theorem exec_decodeOutput_garbled {bytes : Bytes} {fault : Utf8.Fault}
    (hfault : Utf8.fault? bytes = some fault) (world : Host) :
    exec (decodeOutput bytes) world = (.error (.undecodable fault), world) := by
  rw [decodeOutput, Utf8.fault?_eq_some_iff.mp hfault]
  rfl

/-! ### What the look reads -/

/-- What the program of a command writes, its standard output first; nothing, if it cannot
be started. -/
def spoken (h : Host) (command : List String) : List Bytes :=
  ((launched h command).calls.drop h.calls.length).flatMap fun call =>
    [call.written .output, call.written .errors]

theorem speaksText_iff {h : Host} {command : List String} :
    SpeaksText h command ↔ Utf8.firstFault? (spoken h command) = none := by
  rw [Utf8.firstFault?_eq_none_iff, SpeaksText]
  constructor
  · intro htext bytes hbytes
    obtain ⟨call, hcall, hstream⟩ := List.mem_flatMap.mp hbytes
    rcases List.mem_cons.mp hstream with rfl | hstream
    · exact htext call hcall .output
    · rw [List.mem_singleton.mp hstream]
      exact htext call hcall .errors
  · intro htext call hcall stream
    apply htext
    refine List.mem_flatMap.mpr ⟨call, hcall, ?_⟩
    cases stream
    · exact List.mem_cons_self
    · exact List.mem_cons_of_mem _ List.mem_cons_self

theorem spoken_found {h : Host} {command : List String} {program : String} {args : List String}
    (hfound : (exec (Launch.resolve command) h).1 = .ok (program, args)) :
    spoken h command = [(Launch.callOn h Launch.ownRoutes program args).written .output,
      (Launch.callOn h Launch.ownRoutes program args).written .errors] := by
  rw [spoken, calls_launched_found hfound]
  rfl

/-- The bytes that the look reads as text: what the compiler writes, and then what the
instrumentor writes. -/
def examined (h : Host) : List Bytes :=
  if Toolchain.Configured h then
    spoken h (compilerCommand h) ++ spoken (launched h (compilerCommand h)) (instrumentorCommand h)
  else []

/-! ### Where it fails -/

section Failing

variable {h h' : Host} {fault : Utf8.Fault} (hw : SameWorld h h') (henv : h.SoundEnvironment)
include hw henv

/-- The look at a tool fails at the first bytes that are no text. -/
theorem exec_checkTool_garbled {tool argument : String}
    (hcommand : ∀ w ∈ [tool, argument], Path.hasNul w = false)
    (hfault : Utf8.firstFault? (spoken h [tool, argument]) = some fault) :
    ∃ h'', exec (checkTool tool argument) h' = (.error (.undecodable fault), h'') := by
  rcases Launch.resolve_result henv hcommand with ⟨program, hfound⟩ | ⟨e, hrefused⟩
  · obtain ⟨h'', -, hrun⟩ := exec_checkTool_found hw hfound
    refine ⟨h'', ?_⟩
    rw [spoken_found hfound, Utf8.firstFault?_cons, Utf8.firstFault?_cons,
      show Utf8.firstFault? [] = none from rfl, Option.or_none] at hfault
    rw [hrun, exec_bind]
    cases houtput : Utf8.fault?
        ((Launch.callOn h Launch.ownRoutes program [argument]).written .output) with
    | some first =>
      rw [houtput, Option.some_or, Option.some.injEq] at hfault
      rw [exec_decodeOutput_garbled houtput, hfault]
    | none =>
      rw [houtput, Option.none_or] at hfault
      obtain ⟨text, htext⟩ := Utf8.fault?_eq_none_iff.mp houtput
      rw [exec_decodeOutput htext]
      dsimp only
      rw [exec_bind, exec_decodeOutput_garbled hfault]
  · rw [spoken, (exec_checkTool_refused hw hrefused).2, List.drop_length] at hfault
    cases hfault

/-- If what the compiler writes is text, it is the instrumentor's turn. -/
theorem exec_checkTools_garbled (hfault : Utf8.firstFault? (spoken h (compilerCommand h) ++
      spoken (launched h (compilerCommand h)) (instrumentorCommand h)) = some fault) :
    ∃ h'', exec checkTools h' = (.error (.undecodable fault), h'') := by
  rw [Utf8.firstFault?_append] at hfault
  rw [checkTools, exec_bind, exec_get]
  dsimp only
  rw [toolPath_sameWorld hw, toolPath_sameWorld hw, exec_bind]
  cases hcompiler : Utf8.firstFault? (spoken h (compilerCommand h)) with
  | some first =>
    rw [hcompiler, Option.some_or, Option.some.injEq] at hfault
    subst hfault
    obtain ⟨h₁, hrun⟩ := exec_checkTool_garbled hw henv (hasNul_compilerCommand henv) hcompiler
    rw [hrun]
    exact ⟨h₁, rfl⟩
  | none =>
    rw [hcompiler, Option.none_or] at hfault
    obtain ⟨compilerOk, text, h₁, hrun₁, -, hw₁⟩ := exec_checkTool hw henv
      (hasNul_compilerCommand henv) (speaksText_iff.mpr hcompiler)
    obtain ⟨h₂, hrun₂⟩ := exec_checkTool_garbled hw₁ (soundEnvironment_launched henv _)
      (hasNul_instrumentorCommand henv) hfault
    rw [hrun₁]
    dsimp only
    rw [exec_bind, hrun₂]
    exact ⟨h₂, rfl⟩

end Failing

/-! ### The verdict -/

/-- What comes of the look, whatever the tools write. -/
theorem check_result {h : Host} (henv : h.SoundEnvironment) :
    match Utf8.firstFault? (examined h) with
    | none => (exec check h).1 = .ok 0 ∨ (exec check h).1 = .ok 1
    | some fault => (exec check h).1 = .error (.undecodable fault) := by
  by_cases hconf : Toolchain.Configured h
  · rw [examined, if_pos hconf]
    cases hfault : Utf8.firstFault? (spoken h (compilerCommand h) ++
        spoken (launched h (compilerCommand h)) (instrumentorCommand h)) with
    | none =>
      rw [Utf8.firstFault?_append, Option.or_eq_none_iff] at hfault
      obtain ⟨ok, after, hrun, -⟩ := exec_check (frame_sameWorld.refl h) henv
        (speaksText_iff.mpr hfault.1) (speaksText_iff.mpr hfault.2)
      rw [hrun]
      cases ok
      · exact .inr rfl
      · exact .inl rfl
    | some fault =>
      obtain ⟨h₁, hw, hrun⟩ := exec_check_eq (frame_sameWorld.refl h)
      obtain ⟨h₂, hrun₂⟩ := exec_checkTools_garbled hw henv hfault
      show (exec check h).1 = .error (.undecodable fault)
      rw [hrun, if_pos hconf, exec_bind, hrun₂]
  · obtain ⟨h₁, -, hrun⟩ := exec_check_eq (frame_sameWorld.refl h)
    rw [examined, if_neg hconf]
    show (exec check h).1 = .ok 0 ∨ (exec check h).1 = .ok 1
    rw [hrun, if_neg hconf]
    exact .inr rfl

/-- **The look has a verdict if and only if all that it reads is text.**  In an environment
of Unicode texts without zero characters, and whatever the files are and the tools do, its
exit status is then zero or one.  It has one way to fail: at the first bytes that are no
text, for the reason why they are none.  That its own lines can be printed is taken for
granted. -/
theorem check_verdict_iff {h : Host} (henv : h.SoundEnvironment) :
    ((∃ status, (status = 0 ∨ status = 1) ∧ (exec check h).1 = .ok status) ↔
        ∀ bytes ∈ examined h, ∃ text, bytes = Utf8.encode text) ∧
      ∀ failure, (exec check h).1 = .error failure ↔
        ∃ fault, failure = .undecodable fault ∧ ∃ before bytes after,
          examined h = before ++ bytes :: after ∧
          (∀ earlier ∈ before, ∃ text, earlier = Utf8.encode text) ∧
          Utf8.decode bytes = .error fault := by
  have hresult := check_result henv
  rw [← Utf8.firstFault?_eq_none_iff]
  simp only [← Utf8.firstFault?_eq_some_iff]
  cases hfault : Utf8.firstFault? (examined h) with
  | none =>
    rw [hfault] at hresult
    rcases hresult with hzero | hone
    · exact ⟨iff_of_true ⟨0, .inl rfl, hzero⟩ rfl, fun failure => by simp [hzero]⟩
    · exact ⟨iff_of_true ⟨1, .inr rfl, hone⟩ rfl, fun failure => by simp [hone]⟩
  | some fault =>
    rw [hfault] at hresult
    have hfails : (exec check h).1 = .error (.undecodable fault) := hresult
    rw [hfails]
    refine ⟨iff_of_false (fun ⟨_, _, hverdict⟩ => nomatch hverdict) nofun, fun failure => ?_⟩
    constructor
    · intro heq
      exact ⟨fault, (Except.error.inj heq).symm, rfl⟩
    · rintro ⟨_, rfl, hsame⟩
      rw [Option.some.inj hsame]

/-- A host whose instrumentor writes one byte with which no character starts. -/
def garblingHost : Host where
  files := ⟨.dir [("bin", .dir [
      ("javac", .file { bytes := [], executable := true, program := some "javac" }),
      ("toplc", .file { bytes := [], executable := true, program := some "toplc" })])],
    some [], []⟩
  environment := [("PATH", "/bin")]
  programs name _ :=
    if name = "javac" then .emit .output (Utf8.encode "javac 17\n") (.exit 0)
    else .emit .output [0xFF] (.exit 0)
  scratchDir := "/"

theorem check_verdict_garblingHost :
    garblingHost.SoundEnvironment ∧
      examined garblingHost = [Utf8.encode "javac 17\n", [], [0xFF], []] ∧
      (exec check garblingHost).1 = .error (.undecodable ⟨0, 0, 0xFF, .start⟩) := by
  have henv : garblingHost.SoundEnvironment := by
    rw [Host.SoundEnvironment]
    decide
  have hread : examined garblingHost = [Utf8.encode "javac 17\n", [], [0xFF], []] := rfl
  have hearlier : ∀ earlier ∈ [Utf8.encode "javac 17\n", []],
      ∃ text, earlier = Utf8.encode text := by
    intro earlier hmem
    rcases List.mem_cons.mp hmem with rfl | hmem
    · exact ⟨_, rfl⟩
    · exact ⟨"", List.mem_singleton.mp hmem⟩
  exact ⟨henv, hread, ((check_verdict_iff henv).2 _).mpr
    ⟨⟨0, 0, 0xFF, .start⟩, rfl, [Utf8.encode "javac 17\n", []], [0xFF], [[]], hread, hearlier, rfl⟩⟩

/-- Both tools can be started, and still there is no verdict. -/
theorem no_verdict_garblingHost :
    ¬ ∃ status, (status = 0 ∨ status = 1) ∧ (exec check garblingHost).1 = .ok status := by
  rintro ⟨status, -, hverdict⟩
  have hfails : (exec check garblingHost).1 = .error (.undecodable ⟨0, 0, 0xFF, .start⟩) := rfl
  rw [hfails] at hverdict
  cases hverdict

end Inspection

end MonitoredCompile

/-
MonitoredCompile/Proofs/Run/Places.lean

The temporary places of a plan.  Both are names in the directory for temporary
files, and when the arguments have been classified both are there and empty
(`Planned.places`).
-/
import MonitoredCompile.Proofs.FileSystem.Free
import MonitoredCompile.Proofs.Run.Steps

namespace MonitoredCompile

open Attempt (exec exec_bind_eq_ok)

/-! ### Names -/

namespace Scratch

theorem slash_not_mem_eightDigits (n : Nat) : '/' ∉ (eightDigits n).toList := by
  rw [eightDigits, String.toList_append, String.toList_ofList, List.mem_append, not_or]
  refine ⟨fun hzero => ?_, fun hdigit => ?_⟩
  · exact absurd (List.eq_of_mem_replicate hzero) (by decide)
  · rw [Nat.toString_eq_ofList_toDigits, String.toList_ofList] at hdigit
    exact absurd (Nat.isDigit_of_mem_toDigits (by decide) (by decide) hdigit) (by decide)

section

variable {before after : String} {first : Char} (hfirst : before.toList.head? = some first)
include hfirst

/-- A temporary name is not one that starts in another way. -/
theorem ne_of_head {name : String} (hname : name.toList.head? ≠ some first) (n : Nat) :
    before ++ eightDigits n ++ after ≠ name := by
  rintro rfl
  rw [String.toList_append, String.toList_append, List.append_assoc, List.head?_append,
    hfirst] at hname
  exact hname rfl

/-- A temporary name is a name, whatever its number is. -/
theorem isName (hdot : first ≠ '.') (hbefore : '/' ∉ before.toList) (hafter : '/' ∉ after.toList)
    (n : Nat) : IsName (before ++ eightDigits n ++ after) := by
  refine ⟨ne_of_head hfirst (by simp) n, ?_, ne_of_head hfirst ?_ n, ne_of_head hfirst ?_ n⟩
  · simp only [String.toList_append, List.mem_append, not_or]
    exact ⟨⟨hbefore, slash_not_mem_eightDigits n⟩, hafter⟩
  · simpa using Ne.symm hdot
  · simpa using Ne.symm hdot

end

/-- Making a temporary node has created it under a temporary name. -/
theorem make_eq_ok {node : Node} {what before after path : String} {h h' : Host}
    (hok : exec (make node what before after) h = (.ok path, h')) :
    (∃ n, path = Path.join h.scratchDir (before ++ eightDigits n ++ after)) ∧
      h.files.create path node = .ok h'.files := by
  rw [exec_make] at hok
  cases hsearch : search node (Scratch.path h.scratchDir before after) what h.files attempts
      (h.scratchNames + 1) with
  | mk result last =>
    rw [hsearch] at hok
    cases result with
    | error fault => cases hok
    | ok files =>
      cases hok
      exact ⟨⟨last, rfl⟩, search_eq_ok hsearch⟩

end Scratch

namespace FileSystem

variable {fs fs' : FileSystem} {path : String}

theorem grows_of_create {node : Node} (h : fs.create path node = .ok fs') : Grows fs fs' := by
  obtain ⟨l, hfree⟩ := free_of_create h
  obtain rfl := hfree.create h
  exact (SameOutside.place fs l node).grows hfree.entry

/-- A file is still what its path leads to when something was created. -/
theorem Grows.find_file (h : Grows fs fs') {follow : Bool} {l : Location} {f : File}
    (hfind : fs.find path follow = .ok (l, .file f)) :
    fs'.find path follow = .ok (l, .file f) := by
  obtain ⟨node, hfind', hentry⟩ := h.find hfind
  obtain rfl := Node.entry_eq_file.mp hentry
  exact hfind'

end FileSystem

namespace Pipeline

/-- Temporary files are made in the same directory. -/
def SameScratch (before after : Host) : Prop := after.scratchDir = before.scratchDir

theorem background_sameScratch : Background SameScratch where
  refl _ := rfl
  trans hab hbc := hbc.trans hab
  files _ _ _ := rfl
  names _ _ := rfl
  note _ h site message := by
    refine h.note_cases site _ message ?_ (fun _ => ?_) (fun _ _ _ _ => ?_) fun _ => ?_
    all_goals rfl

/-- The two temporary places are names in one directory. -/
structure Plan.Beside (plan : Plan) (dir : String) : Prop where
  capture : ∃ name, IsName name ∧ plan.captureFile = Path.join dir name
  staging : ∃ name, IsName name ∧ plan.stagingDir = Path.join dir name

section

variable {args : List String} {before after : Host} {plan : Plan} (h : Planned args before plan after)
include h

/-- The output directory is the declared one or a temporary one. -/
theorem Planned.output :
    ∃ tokens h₁, exec (Arguments.expand args) before = (.ok tokens, h₁) ∧
      ((Arguments.classify tokens).outputDir = some plan.outputDir ∨
        ∃ n, plan.outputDir = Scratch.path before.scratchDir "topljavac-out" "" n) := by
  obtain ⟨tokens, h₁, h₂, h₃, h₄, hexpand, hclassify, hargs, hdir, -, -⟩ := h
  have hR := background_sameScratch
  have hbefore : SameScratch before h₂ :=
    hR.trans ((hR.works_expand _).state hexpand) ((hR.works_classifyLogged _).state hclassify)
  refine ⟨tokens, h₁, hexpand, ?_⟩
  rw [← hargs]
  cases hdeclared : plan.args.outputDir with
  | some dir =>
    rw [hdeclared, resolveOutputDir] at hdir
    obtain ⟨_, _, -, hdir⟩ := exec_bind_eq_ok.mp hdir
    cases hdir
    exact .inl rfl
  | none =>
    rw [hdeclared, resolveOutputDir] at hdir
    obtain ⟨made, _, hmade, hdir⟩ := exec_bind_eq_ok.mp hdir
    obtain ⟨_, _, -, hdir⟩ := exec_bind_eq_ok.mp hdir
    cases hdir
    obtain ⟨⟨n, hn⟩, -⟩ := Scratch.make_eq_ok hmade
    have hnoted := hR.note (.inl rfl) h₂ (site "classifyArgs") ("classified: " ++ plan.args.shown)
    rw [show Host.scratchDir _ = before.scratchDir from hR.trans hbefore hnoted] at hn
    exact .inr ⟨n, hn⟩

/-- The two temporary places have been created one after the other. -/
theorem Planned.created :
    ∃ (c n : Nat) (bare held : FileSystem),
      plan.captureFile = Scratch.path before.scratchDir "topljavac" "stderr" c ∧
      plan.stagingDir = Scratch.path before.scratchDir "topljavac-in" "" n ∧
      bare.create plan.captureFile (.file { bytes := [] }) = .ok held ∧
      held.create plan.stagingDir (.dir []) = .ok after.files := by
  obtain ⟨tokens, h₁, h₂, h₃, h₄, hexpand, hclassify, -, hdir, hcapture, hstaging⟩ := h
  have hR := background_sameScratch
  have hbefore : SameScratch before h₃ :=
    hR.trans ((hR.works_expand _).state hexpand) (hR.trans ((hR.works_classifyLogged _).state hclassify)
      (hR.trans (hR.note (.inl rfl) _ _ _) ((hR.works_resolveOutputDir _).state hdir)))
  have hmiddle : SameScratch before h₄ :=
    hR.trans hbefore ((hR.works_make (.file _) _ _ _).state hcapture)
  obtain ⟨⟨c, hc⟩, hcreate⟩ := Scratch.make_eq_ok hcapture
  obtain ⟨⟨n, hn⟩, hmake⟩ := Scratch.make_eq_ok hstaging
  rw [show h₃.scratchDir = before.scratchDir from hbefore] at hc
  rw [show h₄.scratchDir = before.scratchDir from hmiddle] at hn
  exact ⟨c, n, h₃.files, h₄.files, hc, hn, hcreate, hmake⟩

theorem Planned.places :
    plan.Beside before.scratchDir ∧
      (∃ l, after.files.find plan.captureFile false = .ok (l, .file { bytes := [] })) ∧
      ∃ l, after.files.find plan.stagingDir false = .ok (l, .dir []) := by
  obtain ⟨c, n, bare, held, hc, hn, hcreate, hmake⟩ := h.created
  -- A temporary name starts with a letter and has no slash, whatever its number is.
  have hcname : IsName ("topljavac" ++ Scratch.eightDigits c ++ "stderr") :=
    Scratch.isName (show "topljavac".toList.head? = some 't' by decide) (by decide) (by decide)
      (by decide) c
  have hnname : IsName ("topljavac-in" ++ Scratch.eightDigits n ++ "") :=
    Scratch.isName (show "topljavac-in".toList.head? = some 't' by decide) (by decide) (by decide)
      (by decide) n
  obtain ⟨l, -, hfind⟩ := FileSystem.find_of_create
    (by rw [hc]; exact Path.endsInSlash_join ⟨hcname.ne_empty, hcname.no_slash⟩) hcreate
  obtain ⟨m, -, hfind'⟩ := FileSystem.find_of_create
    (by rw [hn]; exact Path.endsInSlash_join ⟨hnname.ne_empty, hnname.no_slash⟩) hmake
  exact ⟨⟨⟨_, hcname, hc⟩, ⟨_, hnname, hn⟩⟩,
    ⟨l, (FileSystem.grows_of_create hmake).find_file hfind⟩, m, hfind'⟩

/-- They are two. -/
theorem Planned.differ : plan.captureFile ≠ plan.stagingDir := by
  obtain ⟨-, ⟨l, hcapture⟩, m, hstaging⟩ := h.places
  intro hsame
  rw [hsame] at hcapture
  cases hcapture.symm.trans hstaging

end

end Pipeline

end MonitoredCompile

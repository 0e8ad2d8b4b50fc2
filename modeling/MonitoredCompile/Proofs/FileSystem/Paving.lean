/-
MonitoredCompile/Proofs/FileSystem/Paving.lean

Making a directory with its parents only paves the way to it.  Whatever is new is a
directory, and some leading part of the path leads to it (`OnTheWay`).  Nothing else has
changed, whether the directory could be made in the end or not (`paves_ensureDirs`).

A part of the path is meant as a text: after `out/../gen` has been made there are `out` and
`gen`, since `out` has to be there for the walk to come back from it.
-/
import MonitoredCompile.Proofs.FileSystem.Copy

namespace MonitoredCompile

open Attempt (exec Keeps Frame)

/-! ### Leading parts -/

namespace Path

/-- The text starts with this part. -/
def LeadingPart (part path : String) : Prop := ∃ rest, path = part ++ rest

theorem LeadingPart.refl (path : String) : LeadingPart path path :=
  ⟨"", String.append_empty.symm⟩

theorem LeadingPart.trans {a b c : String} (hab : LeadingPart a b) (hbc : LeadingPart b c) :
    LeadingPart a c := by
  obtain ⟨rest, rfl⟩ := hab
  obtain ⟨more, rfl⟩ := hbc
  exact ⟨rest ++ more, String.append_assoc⟩

theorem leadingPart_split (path : String) : LeadingPart (split path).1 path := by
  obtain ⟨slashes, -, hpath⟩ := eq_split path
  exact ⟨String.ofList slashes ++ (split path).2, by rw [← String.append_assoc, ← hpath]⟩

theorem leadingPart_splitParent (path : String) : LeadingPart (splitParent path).1 path := by
  rw [splitParent]
  split
  · exact (leadingPart_split _).trans (leadingPart_split path)
  · exact leadingPart_split path

end Path

namespace FileSystem

/-! ### New directories -/

/-- A leading part of the path leads to a directory at this location. -/
def OnTheWay (fs : FileSystem) (path : String) (l : Location) : Prop :=
  ∃ part, Path.LeadingPart part path ∧ fs.DirAt part l

theorem OnTheWay.grows {fs fs' : FileSystem} {path : String} {l : Location}
    (h : fs.OnTheWay path l) (hg : Grows fs fs') : fs'.OnTheWay path l := by
  obtain ⟨part, hpart, hdir⟩ := h
  exact ⟨part, hpart, hdir.grows hg⟩

/-- Directories on the way to the path were made, and nothing else happened. -/
structure Paves (path : String) (fs fs' : FileSystem) : Prop extends Grows fs fs' where
  new : ∀ l, fs.entryAt l = none → fs'.entryAt l ≠ none → fs'.OnTheWay path l
  opened : fs'.opened = fs.opened

theorem frame_paves (path : String) : Frame (Paves path) where
  refl fs := ⟨frame_grows.refl fs, fun _ hnone hsome => absurd hnone hsome, rfl⟩
  trans {a b c} hab hbc := by
    refine ⟨frame_grows.trans hab.toGrows hbc.toGrows, fun l hnone hsome => ?_,
      hbc.opened.trans hab.opened⟩
    by_cases hmiddle : b.entryAt l = none
    · exact hbc.new l hmiddle hsome
    · exact (hab.new l hnone hmiddle).grows hbc.toGrows

theorem paves_of_makeDir {fs fs' : FileSystem} {part path : String}
    (hpart : Path.LeadingPart part path) (h : fs.makeDir part = .ok fs') : Paves path fs fs' := by
  obtain ⟨l, hfree⟩ := free_of_create h
  obtain ⟨rfl, hdir, hget⟩ := hfree.makeDir h
  refine ⟨(SameOutside.place fs l _).grows hfree.entry, fun m hnone hsome => ?_, rfl⟩
  by_cases hm : l <+: m
  · obtain ⟨k, rfl⟩ := hm
    cases k with
    | nil =>
      rw [List.append_nil]
      exact ⟨part, hpart, hdir⟩
    | cons name k => exact absurd (entryAt_below_emptyDir hget) hsome
  · rw [entryAt_place hm] at hsome
    exact absurd hnone hsome

end FileSystem

namespace FileOp

open FileSystem (Paves frame_paves paves_of_makeDir)

theorem paves_makeLeaf (mayExist : Bool) {part path : String} (hpart : Path.LeadingPart part path) :
    Keeps (Paves path) (fun _ => True) (makeLeaf mayExist part) := by
  intro fs
  rw [exec_makeLeaf]
  cases h : fs.makeDir part with
  | ok after => exact ⟨paves_of_makeDir hpart h, fun _ _ => trivial⟩
  | error r =>
    dsimp only
    split <;> exact ⟨(frame_paves path).refl fs, fun _ _ => trivial⟩

/-- By induction on the number of parents: each of them is a leading part, too. -/
theorem paves_makeDirsWithin (mayExist : Bool) (depth : Nat) {part path : String}
    (hpart : Path.LeadingPart part path) :
    Keeps (Paves path) (fun _ => True) (makeDirsWithin mayExist depth part) := by
  have hframe := frame_paves path
  induction depth generalizing part with
  | zero => exact paves_makeLeaf mayExist hpart
  | succ depth ih =>
    have hparent := (Path.leadingPart_splitParent part).trans hpart
    rw [makeDirsWithin]
    refine Keeps.bind hframe (.get hframe) fun fs => ?_
    split
    · exact paves_makeLeaf mayExist hpart
    · refine Keeps.bind hframe (Keeps.tryCatch hframe (ih hparent) fun fault _ => ?_) fun _ => ?_
      · split
        · exact .pure hframe ()
        · exact .throw hframe trivial
      · split
        · exact .pure hframe ()
        · exact paves_makeLeaf mayExist hpart

theorem paves_ensureDirs (path : String) : Keeps (Paves path) (fun _ => True) (ensureDirs path) :=
  paves_makeDirsWithin true path.length (.refl path)

end FileOp

end MonitoredCompile

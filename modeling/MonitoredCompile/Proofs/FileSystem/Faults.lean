/-
MonitoredCompile/Proofs/FileSystem/Faults.lean

What the operations on whole trees fail with.  A copy or a directory with its parents is
made of calls that are refused for a path, of links that cannot be made, and of the list
of what was left out; a class of faults that has all of these (`Covers`) has whatever
such an operation fails with.  A move adds two faults of its own (`Covers.move`).
-/
import MonitoredCompile.FileSystem.Upkeep

namespace MonitoredCompile.FileOp

open Attempt (Keeps frame_any)

/-- Whatever the operation fails with is a fault of this class. -/
abbrev FailsAs {α : Type} (F : FileFault → Prop) (op : FileOp α) : Prop :=
  Keeps (fun _ _ => True) F op

/-- The class has every refused path and link, and every list of parts that were left
out. -/
structure Covers (F : FileFault → Prop) : Prop where
  refused : ∀ path r, F (faultAt path r)
  link : ∀ e target path, F (.linkRefused e target path)
  parts : ∀ parts, parts ≠ [] → F (.notCopied parts)

namespace Covers

variable {F : FileFault → Prop} (hF : Covers F)
include hF

/-! ### Calls -/

theorem call (path : String) (f : FileSystem → Except Refusal FileSystem) :
    FailsAs F (call path f) := by
  intro fs
  rw [exec_call]
  cases f fs with
  | ok after => exact ⟨trivial, nofun⟩
  | error r => exact ⟨trivial, fun fault h => Except.error.inj h ▸ hF.refused path r⟩

theorem ask {α : Type} (path : String) (f : FileSystem → Except Refusal α) :
    FailsAs F (ask path f) := by
  intro fs
  rw [exec_ask]
  cases f fs with
  | ok a => exact ⟨trivial, nofun⟩
  | error r => exact ⟨trivial, fun fault h => Except.error.inj h ▸ hF.refused path r⟩

/-! ### Directories with their parents -/

theorem makeLeaf (mayExist : Bool) (path : String) : FailsAs F (makeLeaf mayExist path) := by
  intro fs
  rw [exec_makeLeaf]
  split
  · exact ⟨trivial, nofun⟩
  · next r _ =>
    split
    · exact ⟨trivial, nofun⟩
    · exact ⟨trivial, fun fault h => Except.error.inj h ▸ hF.refused path r⟩

theorem makeDirsWithin (mayExist : Bool) (depth : Nat) (path : String) :
    FailsAs F (makeDirsWithin mayExist depth path) := by
  induction depth generalizing path with
  | zero => exact hF.makeLeaf mayExist path
  | succ depth ih =>
    rw [FileOp.makeDirsWithin]
    refine (Keeps.get frame_any).bind frame_any fun fs => ?_
    split
    · exact hF.makeLeaf mayExist path
    · refine Keeps.bind frame_any ((ih _).tryCatch frame_any fun fault hfault => ?_) fun _ => ?_
      · split
        · exact .pure frame_any ()
        · exact .throw frame_any hfault
      · split
        · exact .pure frame_any ()
        · exact hF.makeLeaf mayExist path

/-! ### Copies -/

theorem copyFile (src dst : String) : FailsAs F (copyFile src dst) := by
  refine (hF.ask _ _).bind frame_any fun ⟨_, node⟩ => ?_
  cases node with
  | file f => exact (hF.call _ _).bind frame_any fun _ => hF.call _ _
  | dir entries => exact .throw frame_any (hF.refused src (.system .isDirectory))
  | link target | device => exact hF.call _ _

theorem makeLink (target path : String) : FailsAs F (makeLink target path) := by
  refine (Keeps.get frame_any).bind frame_any fun fs => ?_
  split
  · exact .modify fun _ => trivial
  · exact .throw frame_any (hF.refused path .nul)
  · exact .throw frame_any (hF.link _ target path)

section

variable {copy : String → String → FileOp Unit} (hcopy : ∀ src dst, FailsAs F (copy src dst))
include hcopy

theorem copyEntry (links : Bool) (src dst : String) : FailsAs F (copyEntry copy links src dst) := by
  refine (Keeps.get frame_any).bind frame_any fun fs => ?_
  split
  · exact (hF.ask _ _).bind frame_any fun target => hF.makeLink target dst
  · split
    · exact hcopy src dst
    · exact hF.copyFile src dst

theorem copyEntries (links : Bool) (src dst : String) (names : List String) :
    FailsAs F (copyEntries copy links src dst names) := by
  induction names with
  | nil => exact .pure frame_any []
  | cons name rest ih =>
    have hfirst : FailsAs F (do
        FileOp.copyEntry copy links (Path.join src name) (Path.join dst name)
        pure ([] : List (String × String × String))) :=
      (hF.copyEntry hcopy links _ _).bind frame_any fun _ => .pure frame_any []
    refine Keeps.bind frame_any (hfirst.tryCatch frame_any fun fault hfault => ?_) fun missed => ?_
    · split
      · exact .pure frame_any _
      · exact .throw frame_any hfault
    · exact ih.bind frame_any fun more => .pure frame_any _

end

theorem copyTreeWithin (links : Bool) (depth : Nat) (src dst : String) :
    FailsAs F (copyTreeWithin links depth src dst) := by
  induction depth generalizing src dst with
  | zero => exact .throw frame_any (hF.refused src (.system .nameTooLong))
  | succ depth ih =>
    rw [FileOp.copyTreeWithin]
    refine (hF.ask _ _).bind frame_any fun names => ?_
    refine (hF.makeDirsWithin _ _ _).bind frame_any fun _ => ?_
    refine (hF.copyEntries ih links src dst names).bind frame_any fun missed => ?_
    have hend (parts : List (String × String × String)) :
        FailsAs F (if parts = [] then pure () else throw (.notCopied parts)) := by
      split
      · exact .pure frame_any ()
      · next hparts => exact .throw frame_any (hF.parts parts hparts)
    exact (Keeps.get frame_any).bind frame_any fun fs => hend _

/-! ### Moves -/

theorem removeTree (path : String) : FailsAs F (removeTree path) := by
  refine (hF.ask _ _).bind frame_any fun ⟨l, node⟩ => ?_
  have hrest (first : FileOp Unit) (hfirst : FailsAs F first) :
      FailsAs F (do first; FileOp.call path fun fs => fs.removeDir path) :=
    hfirst.bind frame_any fun _ => hF.call _ _
  cases node with
  | dir entries => exact hrest _ (.modify fun _ => trivial)
  | file f | link target | device =>
    exact hrest _ (.throw frame_any (hF.refused path (.system .notDirectory)))

omit hF in
theorem currentDir (hcwd : F .noCurrentDirectory) : FailsAs F currentDir := by
  refine (Keeps.get frame_any).bind frame_any fun fs => ?_
  split
  · exact .throw frame_any hcwd
  · exact .pure frame_any _

omit hF in
theorem absolute (hcwd : F .noCurrentDirectory) (path : String) : FailsAs F (absolute path) := by
  rw [FileOp.absolute]
  split
  · exact .pure frame_any _
  · exact (currentDir hcwd).bind frame_any fun dir => .pure frame_any _

/-- A move finds that there is no current directory or that it leads into itself, or it
fails as a copy does. -/
theorem move {src dst : String} (hcwd : F .noCurrentDirectory) (hinto : F (.intoItself src dst)) :
    FailsAs F (move src dst) := by
  refine (Keeps.get frame_any).bind frame_any fun fs => ?_
  split
  · exact .modify fun _ => trivial
  · exact .throw frame_any (hF.refused src .nul)
  · refine (Keeps.get frame_any).bind frame_any fun fs => ?_
    dsimp only
    split
    · refine (hF.ask _ _).bind frame_any fun target => ?_
      exact (hF.makeLink target dst).bind frame_any fun _ => hF.call _ _
    · split
      · refine (absolute hcwd src).bind frame_any fun absoluteSrc => ?_
        refine (absolute hcwd dst).bind frame_any fun absoluteDst => ?_
        have hrest : FailsAs F (do FileOp.copyTree true src dst; FileOp.removeTree src) :=
          (hF.copyTreeWithin _ _ _ _).bind frame_any fun _ => hF.removeTree src
        split
        · exact Keeps.bind frame_any (.throw frame_any hinto) fun _ => hrest
        · exact hrest
      · exact (hF.copyFile src dst).bind frame_any fun _ => hF.call _ _

end Covers

end MonitoredCompile.FileOp

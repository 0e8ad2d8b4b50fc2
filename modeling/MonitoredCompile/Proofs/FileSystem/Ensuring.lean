/-
MonitoredCompile/Proofs/FileSystem/Ensuring.lean

A directory that was ensured, with its parents, is there, and to ensure it once more does
nothing (`exec_ensureDirs_of_dirAt`).  The exception is a path that is split at a dot, such
as `out/.`: after the parents nothing is left to make, and that they exist has not been
looked at.  `PassedOver` says when there is no directory then (`dirAt_iff_of_ensureDirs`).

A parent that cannot be made since its name is taken counts as made, whatever has the
name.  So what is passed over is `Blocked`: a leading part of the path is the name of
something that is no directory and leads to none, if the path is not just too long.
-/
import MonitoredCompile.Proofs.FileSystem.Paving

namespace MonitoredCompile

open Attempt (exec exec_bind exec_get exec_tryCatch)

namespace FileSystem

variable {fs fs' : FileSystem} {path : String} {l : Location}

/-! ### Parents -/

theorem start_splitParent (hparent : (Path.splitParent path).1 ≠ "") :
    fs.start path = fs.start (Path.splitParent path).1 := by
  obtain ⟨rest, hpath⟩ := Path.leadingPart_splitParent path
  have habsolute : Path.isAbsolute path = Path.isAbsolute (Path.splitParent path).1 :=
    (congrArg Path.isAbsolute hpath).trans (Path.isAbsolute_append hparent rest)
  rw [start, start, habsolute]

/-- The parent of a directory is one, too. -/
theorem DirAt.parent (h : fs.DirAt path l) (hparent : (Path.splitParent path).1 ≠ "")
    (hname : (Path.splitParent path).2 ≠ "") : ∃ d, fs.DirAt (Path.splitParent path).1 d := by
  obtain ⟨⟨hflaw, here, hhere, hleads⟩, -⟩ := dirAt_iff.mp h
  obtain ⟨rest, hpath⟩ := Path.leadingPart_splitParent path
  rw [Path.names_splitParent, Path.names_piece (Path.isPiece_splitParent hname)] at hleads
  rw [start_splitParent hparent] at hhere
  -- The walk goes through the parent before it takes the last name, be that a dot or not.
  obtain ⟨d, -, hd, hdir, -⟩ := hleads.of_concat
  exact ⟨d, dirAt_iff.mpr ⟨⟨flaw?_of_append hparent (hpath ▸ hflaw), here, hhere, hd⟩, hdir⟩⟩

section

variable (hparent : (Path.splitParent path).1 ≠ "") (hdot : (Path.splitParent path).2 = ".")
include hparent hdot

/-- Only by its length can a dot make a path worse. -/
theorem flaw?_dot_iff : flaw? path = none ↔
    flaw? (Path.splitParent path).1 = none ∧ path.utf8ByteSize < pathLimit := by
  obtain ⟨slashes, more, hslashes, hmore, hpath⟩ := Path.eq_splitParent path
  rw [hdot] at hpath
  generalize (Path.splitParent path).1 = parent at *
  have hnul : Path.hasNul path = Path.hasNul parent := by
    rw [hpath, Path.hasNul_append, Path.hasNul_append, Path.hasNul_append,
      Path.hasNul_slashes hslashes, Path.hasNul_slashes hmore, show Path.hasNul "." = false by decide]
    simp
  have hne : path ≠ "" := by simp [hpath]
  have hsize : parent.utf8ByteSize ≤ path.utf8ByteSize := by
    simp only [hpath, String.utf8ByteSize_append]
    omega
  rw [flaw?_eq_none_iff, flaw?_eq_none_iff, hnul]
  constructor
  · rintro ⟨hplain, -, hshort⟩
    exact ⟨⟨hplain, hparent, by omega⟩, hshort⟩
  · rintro ⟨⟨hplain, -, -⟩, hshort⟩
    exact ⟨hplain, hne, hshort⟩

/-- A dot after a path leads nowhere else, as long as the path can be walked at all. -/
theorem dirAt_dot_iff :
    fs.DirAt path l ↔ fs.DirAt (Path.splitParent path).1 l ∧ path.utf8ByteSize < pathLimit := by
  have hleads {here : Location} : Leads fs.entryAt true linkLimit here (Path.names path) l ↔
      Leads fs.entryAt true linkLimit here (Path.names (Path.splitParent path).1) l ∧
        fs.entryAt l = some .dir := by
    rw [Path.names_splitParent, hdot, show Path.names "." = ["."] by decide, Leads.concat_dot_iff]
  rw [dirAt_iff, dirAt_iff, Finds, Finds, flaw?_dot_iff hparent hdot, start_splitParent hparent]
  constructor
  · rintro ⟨⟨⟨hflaw, hshort⟩, here, hhere, hwalk⟩, hdir⟩
    exact ⟨⟨⟨hflaw, here, hhere, (hleads.mp hwalk).1⟩, hdir⟩, hshort⟩
  · rintro ⟨⟨⟨hflaw, here, hhere, hwalk⟩, hdir⟩, hshort⟩
    exact ⟨⟨⟨hflaw, hshort⟩, here, hhere, hleads.mpr ⟨hwalk, hdir⟩⟩, hdir⟩

end

/-! ### Making what is there -/

/-- Nothing new can be made under the path of a directory. -/
theorem DirAt.create_ne_ok (h : fs.DirAt path l) (node : Node) : fs.create path node ≠ .ok fs' := by
  intro hcreate
  obtain ⟨m, slash, ht⟩ := target_of_create hcreate
  obtain ⟨hentry, -⟩ := free_of_target ht
  obtain ⟨-, -, ⟨hflaw, here, hhere, hleads⟩, -⟩ := target_eq_name_iff.mp ht
  obtain ⟨hfinds, hdir⟩ := dirAt_iff.mp h
  rw [Bool.false_and] at hleads
  have hfollows := hleads.follows fun target htarget => by rw [hentry] at htarget; cases htarget
  obtain rfl := hfinds.unique ⟨hflaw, here, hhere, hfollows⟩
  rw [hentry] at hdir
  cases hdir

theorem target_ne_nul (hflaw : flaw? path = none) (follow : Bool) :
    fs.target path follow ≠ .error .nul := by
  have hwalk (follow : Bool) (names : List String) : fs.walkFor path follow names ≠ .error .nul :=
    walkFor_ne_nul hflaw follow names
  rw [target]
  grind

theorem create_ne_nul (hflaw : flaw? path = none) (node : Node) :
    fs.create path node ≠ .error .nul := by
  have htarget : fs.target path ≠ .error .nul := target_ne_nul hflaw false
  intro h
  rw [create] at h
  split at h
  · next r hr =>
    cases h
    exact htarget hr
  · cases h
  · cases h

/-! ### Names that are taken -/

/-- Something has the last name of the path, and the path leads to no directory. -/
structure Taken (fs : FileSystem) (path : String) : Prop where
  exists_ : fs.makeDir path = .error (.system .alreadyExists)
  not_isDir : fs.isDir path = false

/-- The path is too long to be walked, or a leading part of it is taken. -/
def Blocked (fs : FileSystem) (path : String) : Prop :=
  pathLimit ≤ path.utf8ByteSize ∨ ∃ part, Path.LeadingPart part path ∧ fs.Taken part

theorem Blocked.mono {part : String} (h : fs.Blocked part) (hpart : Path.LeadingPart part path) :
    fs.Blocked path := by
  rcases h with hlong | ⟨first, hfirst, htaken⟩
  · obtain ⟨rest, rfl⟩ := hpart
    refine .inl ?_
    rw [String.utf8ByteSize_append]
    omega
  · exact .inr ⟨first, hfirst.trans hpart, htaken⟩

/-- A dot is all that is left to make, but what is before it leads to no directory, or the
path is too long to be walked. -/
structure PassedOver (fs : FileSystem) (path : String) : Prop where
  dot : (Path.splitParent path).2 = "."
  parent : (Path.splitParent path).1 ≠ ""
  astray : fs.isDir (Path.splitParent path).1 = true → pathLimit ≤ path.utf8ByteSize

/-- There is no directory under a path that is passed over. -/
theorem PassedOver.not_dirAt (h : fs.PassedOver path) : ¬ fs.DirAt path l := by
  intro hdir
  obtain ⟨hparent, hshort⟩ := (dirAt_dot_iff h.parent h.dot).mp hdir
  exact absurd (h.astray (isDir_iff.mpr ⟨l, hparent⟩)) (Nat.not_le.mpr hshort)

theorem passedOver_of_not_dirAt (hparent : (Path.splitParent path).1 ≠ "")
    (hdot : (Path.splitParent path).2 = ".") (h : ¬ ∃ l, fs.DirAt path l) : fs.PassedOver path := by
  refine ⟨hdot, hparent, fun hdir => Nat.not_lt.mp fun hshort => h ?_⟩
  obtain ⟨l, hl⟩ := isDir_iff.mp hdir
  exact ⟨l, (dirAt_dot_iff hparent hdot).mpr ⟨hl, hshort⟩⟩

end FileSystem

namespace FileOp

open FileSystem (Blocked Taken PassedOver isDir_iff)

variable {fs fs' : FileSystem} {path : String} {result : Except FileFault Unit} {depth : Nat}

/-! ### The directory itself -/

/-- If a directory was made or was there, then the path leads to it.  If its name
is said to be taken, then it does not. -/
theorem makeLeaf_ends (h : exec (makeLeaf true path) fs = (result, fs')) :
    (result = .ok () → ∃ l, fs'.DirAt path l) ∧
      ∀ at_, result = .error (.refused .alreadyExists at_) → fs'.Taken path := by
  rw [exec_makeLeaf] at h
  cases hmake : fs.makeDir path with
  | ok after =>
    rw [hmake] at h
    cases h
    obtain ⟨l, hfree⟩ := FileSystem.free_of_create hmake
    exact ⟨fun _ => ⟨l, (hfree.makeDir hmake).2.1⟩, nofun⟩
  | error r =>
    rw [hmake] at h
    dsimp only at h
    split at h
    · next hthere =>
      cases h
      exact ⟨fun _ => isDir_iff.mp (Bool.and_eq_true_iff.mp hthere).2, nofun⟩
    · next hthere =>
      cases h
      refine ⟨nofun, fun at_ hfault => ?_⟩
      cases r with
      | nul => cases hfault
      | system e =>
        obtain ⟨rfl, -⟩ := FileFault.refused.inj (Except.error.inj hfault)
        exact ⟨hmake, Bool.eq_false_iff.mpr fun hdir => hthere (by rw [hdir]; rfl)⟩

/-- Nothing is done about a directory that is there. -/
theorem exec_makeLeaf_of_dirAt {l : Location} (h : fs.DirAt path l) :
    exec (makeLeaf true path) fs = (.ok (), fs) := by
  have hflaw := (FileSystem.dirAt_iff.mp h).1.1
  rw [exec_makeLeaf]
  cases hmake : fs.makeDir path with
  | ok after => exact absurd hmake (h.create_ne_ok _)
  | error r =>
    cases r with
    | nul => exact absurd hmake (FileSystem.create_ne_nul hflaw _)
    | system e =>
      -- Which error it is does not matter: after any of them one looks for a directory.
      dsimp only
      rw [isDir_iff.mpr ⟨l, h⟩]
      rfl

/-! ### With its parents -/

/-- For a parent this is no failure. -/
def NoFailure (result : Except FileFault Unit) : Prop :=
  result = .ok () ∨ ∃ at_, result = .error (.refused .alreadyExists at_)

/-- What making a directory with its parents comes to: it is made itself in the end, a parent
cannot be made, or there is nothing left to make but a dot. -/
inductive Made (path : String) (fs : FileSystem) :
    Nat → Except FileFault Unit → FileSystem → Prop
  | itself {depth mid result fs'} : exec (makeLeaf true path) mid = (result, fs') →
      Made path fs depth result fs'
  | stuck {depth fault fs'} :
      exec (makeDirsWithin true depth (Path.splitParent path).1) fs = (.error fault, fs') →
      ¬ NoFailure (.error fault) → Made path fs (depth + 1) (.error fault) fs'
  | dotted {depth above fs'} : (Path.splitParent path).2 = "." → (Path.splitParent path).1 ≠ "" →
      fs.pathExists (Path.splitParent path).1 = false →
      exec (makeDirsWithin true depth (Path.splitParent path).1) fs = (above, fs') →
      NoFailure above → Made path fs (depth + 1) (.ok ()) fs'

theorem made_of_makeDirsWithin (h : exec (makeDirsWithin true depth path) fs = (result, fs')) :
    Made path fs depth result fs' := by
  cases depth with
  | zero => exact .itself h
  | succ depth =>
    rw [makeDirsWithin, exec_bind, exec_get] at h
    dsimp only at h
    split at h
    · exact .itself h
    · next hcond =>
      rw [not_or, not_or, Bool.not_eq_true] at hcond
      obtain ⟨hparent, -, hnew⟩ := hcond
      -- The parents are there, or are said to be, and what is left is the directory itself.
      have hleft {mid : FileSystem} {above : Except FileFault Unit} (hno : NoFailure above)
          (habove : exec (makeDirsWithin true depth (Path.splitParent path).1) fs = (above, mid))
          (hmake : exec (if (Path.splitParent path).2 = "." then pure () else makeLeaf true path) mid
            = (result, fs')) : Made path fs (depth + 1) result fs' := by
        split at hmake
        · next hdot =>
          cases hmake
          exact .dotted hdot hparent hnew habove hno
        · exact .itself hmake
      rw [exec_bind, exec_tryCatch] at h
      rcases habove : exec (makeDirsWithin true depth (Path.splitParent path).1) fs
        with ⟨fault | ⟨⟩, mid⟩
      · rw [habove] at h
        dsimp only at h
        generalize hpassed : exec _ mid = passed at h
        split at hpassed
        · cases hpassed
          exact hleft (.inr ⟨_, rfl⟩) habove h
        · next hfault =>
          cases hpassed
          cases h
          refine .stuck habove ?_
          rintro (hok | ⟨at_, herror⟩)
          · cases hok
          · exact hfault at_ (Except.error.inj herror)
      · rw [habove] at h
        exact hleft (.inl rfl) habove h

/-- By induction on the number of parents: where all that was in the way is a name that is
taken, the directory is there or the path is blocked. -/
theorem dirAt_or_blocked (h : exec (makeDirsWithin true depth path) fs = (result, fs'))
    (hno : NoFailure result) : (∃ l, fs'.DirAt path l) ∨ fs'.Blocked path := by
  have hitself {path : String} {mid : FileSystem} {result : Except FileFault Unit}
      (hmake : exec (makeLeaf true path) mid = (result, fs')) (hno : NoFailure result) :
      (∃ l, fs'.DirAt path l) ∨ fs'.Blocked path := by
    rcases hno with rfl | ⟨at_, rfl⟩
    · exact .inl ((makeLeaf_ends hmake).1 rfl)
    · exact .inr (.inr ⟨path, .refl path, (makeLeaf_ends hmake).2 at_ rfl⟩)
  induction depth generalizing path result with
  | zero => exact hitself h hno
  | succ depth ih =>
    cases made_of_makeDirsWithin h with
    | itself hmake => exact hitself hmake hno
    | stuck _ hfails => exact absurd hno hfails
    | dotted hdot hparent _ habove hnoAbove =>
      -- Nothing is made after the parents, so what holds of them still holds in the end.
      rcases ih habove hnoAbove with ⟨l, hdir⟩ | hblocked
      · by_cases hshort : path.utf8ByteSize < FileSystem.pathLimit
        · exact .inl ⟨l, (FileSystem.dirAt_dot_iff hparent hdot).mpr ⟨hdir, hshort⟩⟩
        · exact .inr (.inl (Nat.not_lt.mp hshort))
      · exact .inr (hblocked.mono (Path.leadingPart_splitParent path))

/-! ### Ensured directories -/

/-- What was ensured is there, or a dot was all that was left to make. -/
theorem dirAt_or_dotted (h : exec (ensureDirs path) fs = (.ok (), fs')) :
    (∃ l, fs'.DirAt path l) ∨ (Path.splitParent path).2 = "." ∧ (Path.splitParent path).1 ≠ "" ∧
      fs.pathExists (Path.splitParent path).1 = false := by
  rw [ensureDirs] at h
  generalize hresult : Except.ok () = result at h
  generalize path.length = depth at h
  cases made_of_makeDirsWithin h with
  | itself hmake => exact .inl ((makeLeaf_ends hmake).1 hresult.symm)
  | stuck => cases hresult
  | dotted hdot hparent hnew => exact .inr ⟨hdot, hparent, hnew⟩

/-- A directory that was ensured is there, unless it was passed over. -/
theorem dirAt_iff_of_ensureDirs (h : exec (ensureDirs path) fs = (.ok (), fs')) :
    (∃ l, fs'.DirAt path l) ↔ ¬ fs'.PassedOver path := by
  constructor
  · rintro ⟨l, hdir⟩ hover
    exact hover.not_dirAt hdir
  · intro hnot
    rcases dirAt_or_dotted h with hdir | ⟨hdot, hparent, -⟩
    · exact hdir
    · exact Classical.byContradiction fun hdir =>
        hnot (FileSystem.passedOver_of_not_dirAt hparent hdot hdir)

/-- Only a path whose parent did not exist is passed over, and only if it is blocked. -/
theorem blocked_of_passedOver (h : exec (ensureDirs path) fs = (.ok (), fs'))
    (hover : fs'.PassedOver path) :
    fs.pathExists (Path.splitParent path).1 = false ∧ fs'.Blocked path := by
  have hnot : ¬ ∃ l, fs'.DirAt path l := by
    rintro ⟨l, hdir⟩
    exact hover.not_dirAt hdir
  obtain ⟨-, -, hnew⟩ := (dirAt_or_dotted h).resolve_left hnot
  exact ⟨hnew, (dirAt_or_blocked h (.inl rfl)).resolve_left hnot⟩

/-- A directory that was ensured under a name is there. -/
theorem dirAt_of_ensureDirs (hname : (Path.splitParent path).2 ≠ ".")
    (h : exec (ensureDirs path) fs = (.ok (), fs')) : ∃ l, fs'.DirAt path l :=
  (dirAt_iff_of_ensureDirs h).mpr fun hover => hname hover.dot

/-- To ensure a directory that is there does nothing. -/
theorem exec_ensureDirs_of_dirAt {l : Location} (h : fs.DirAt path l) :
    exec (ensureDirs path) fs = (.ok (), fs) := by
  have hleaf := exec_makeLeaf_of_dirAt h
  rw [ensureDirs]
  cases path.length with
  | zero => exact hleaf
  | succ depth =>
    rw [makeDirsWithin, exec_bind, exec_get]
    dsimp only
    split
    · exact hleaf
    · next hcond =>
      rw [not_or, not_or, Bool.not_eq_true] at hcond
      obtain ⟨hparent, hname, hnew⟩ := hcond
      obtain ⟨d, hdir⟩ := h.parent hparent hname
      cases hnew.symm.trans hdir.pathExists

end FileOp

end MonitoredCompile

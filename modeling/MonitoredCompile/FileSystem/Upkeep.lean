/-
MonitoredCompile/FileSystem/Upkeep.lean

Every call, and every operation on whole trees, leaves a well-formed file system
well-formed.  The names that a call writes come from a path, or from the target
of a link, and the pieces of a path are names unless they are `.` or `..`, which
are never written.
-/
import MonitoredCompile.FileSystem.Trees
import MonitoredCompile.FileSystem.Walk

namespace MonitoredCompile

namespace FileSystem

/-! ### Calls -/

/-- The place that a path names has a name. -/
theorem WellFormed.target_endsInName {fs : FileSystem} (h : fs.WellFormed) {path : String}
    {follow : Bool} {place : Place} {slash : Bool}
    (ht : fs.target path follow = .ok (.name place slash)) : place.location.EndsInName := by
  obtain ⟨-, -, ⟨-, here, -, hleads⟩, -⟩ := target_eq_name_iff.mp ht
  exact hleads.endsInName h fun name hname => Path.isPiece_of_mem_names hname

namespace WellFormed

variable {fs after : FileSystem}

theorem openWith (h : fs.WellFormed) {path : String} {prepare : Bytes → Bytes} {handle : Nat}
    (ho : fs.openWith path prepare = .ok (after, handle)) : after.WellFormed := by
  rw [FileSystem.openWith] at ho
  cases ht : fs.target path true with
  | error r => rw [ht] at ho; cases ho
  | ok target =>
    rw [ht] at ho
    match target, ht with
    | .root, _ => cases ho
    | .here, _ => cases ho
    | .above, _ => cases ho
    | .name _ true, _ => cases ho
    | .name ⟨l, none⟩ false, ht =>
      cases ho
      exact (h.place (h.target_endsInName ht) (.file _)).openAt l
    | .name ⟨l, some (.file f)⟩ false, ht =>
      dsimp only at ho
      split at ho
      · cases ho
        exact h.openAt l
      · cases ho
        exact (h.place (h.target_endsInName ht) (.file _)).openAt l
    | .name ⟨_, some (.dir _)⟩ false, _ => cases ho
    | .name ⟨_, some (.link _)⟩ false, _ => cases ho; exact h
    | .name ⟨_, some .device⟩ false, _ => cases ho; exact h

theorem store (h : fs.WellFormed) {path : String} {bytes : Bytes}
    (hs : fs.store path bytes = .ok after) : after.WellFormed := by
  rw [FileSystem.store] at hs
  cases ho : fs.openTruncated path with
  | error r => rw [ho] at hs; cases hs
  | ok opened =>
    rw [ho] at hs
    cases hs
    exact ((h.openWith ho).writeOpen _ _).closeFrom _

theorem create (h : fs.WellFormed) {path : String} {node : Node} (hnode : node.WellFormed)
    (hc : fs.create path node = .ok after) : after.WellFormed := by
  rw [FileSystem.create] at hc
  cases ht : fs.target path with
  | error r => rw [ht] at hc; cases hc
  | ok target =>
    rw [ht] at hc
    match target, ht with
    | .name ⟨l, none⟩ _, ht =>
      cases hc
      exact h.place (h.target_endsInName ht) hnode
    | .name ⟨_, some _⟩ _, _ => cases hc
    | .root, _ => cases hc
    | .here, _ => cases hc
    | .above, _ => cases hc

theorem makeLink (h : fs.WellFormed) {path target : String}
    (hl : fs.makeLink path target = .ok after) : after.WellFormed := by
  rw [FileSystem.makeLink] at hl
  split at hl
  · cases hl
  · split at hl
    · cases hl
    · split at hl
      · cases hl
      · exact h.create (.link target) hl

theorem makeDir (h : fs.WellFormed) {path : String} (hd : fs.makeDir path = .ok after) :
    after.WellFormed :=
  h.create .emptyDir hd

theorem removeDir (h : fs.WellFormed) {path : String} (hr : fs.removeDir path = .ok after) :
    after.WellFormed := by
  rw [FileSystem.removeDir] at hr
  split at hr <;> cases hr
  exact h.remove _

theorem removeFile (h : fs.WellFormed) {path : String} (hr : fs.removeFile path = .ok after) :
    after.WellFormed := by
  unfold FileSystem.removeFile at hr
  split at hr <;> cases hr
  exact h.remove _

theorem renameAt (h : fs.WellFormed) {src : Location} {node : Node} {dst : Place}
    (hdst : dst.location.EndsInName) (hr : fs.renameAt src node dst = .ok after) :
    after.WellFormed := by
  unfold FileSystem.renameAt at hr
  split at hr
  · cases hr
    exact h
  · split at hr
    · cases hr
    · split at hr
      · cases hr
      · split at hr <;> cases hr
        · exact h.relocate hdst
        · exact (h.remove _).relocate hdst
        · exact (h.remove _).relocate hdst

theorem rename (h : fs.WellFormed) {src dst : String} (hr : fs.rename src dst = .ok after) :
    after.WellFormed := by
  rw [FileSystem.rename] at hr
  split at hr
  · cases hr
  · split at hr
    · cases hr
    · cases hr
    · next hdst =>
      split at hr
      · cases hr
      · split at hr
        · cases hr
        · exact h.renameAt (h.target_endsInName hdst) hr
    · cases hr

end WellFormed

end FileSystem

/-! ### Operations on trees -/

namespace FileOp

open Attempt (exec exec_bind exec_get Keeps)

theorem exec_call (path : String) (f : FileSystem → Except Refusal FileSystem) (fs : FileSystem) :
    exec (call path f) fs =
      match f fs with
      | .ok after => (.ok (), after)
      | .error r => (.error (faultAt path r), fs) := by
  rw [call, exec_bind, exec_get]
  dsimp only
  cases f fs <;> rfl

theorem exec_ask {α : Type} (path : String) (f : FileSystem → Except Refusal α) (fs : FileSystem) :
    exec (ask path f) fs =
      match f fs with
      | .ok a => (.ok a, fs)
      | .error r => (.error (faultAt path r), fs) := by
  rw [ask, exec_bind, exec_get]
  dsimp only
  cases f fs <;> rfl

theorem exec_currentDir (fs : FileSystem) :
    exec currentDir fs =
      (match fs.cwd with
        | none => .error .noCurrentDirectory
        | some l => .ok ("/" ++ Text.join "/" l), fs) := by
  rw [currentDir, exec_bind, exec_get]
  dsimp only
  cases fs.cwd <;> rfl

/-- How the file system that an operation leaves relates to the one that it found. -/
def StaysWellFormed (before after : FileSystem) : Prop := before.WellFormed → after.WellFormed

theorem frame_staysWellFormed : Attempt.Frame StaysWellFormed :=
  ⟨fun _ h => h, fun hab hbc ha => hbc (hab ha)⟩

/-- The operation leaves a well-formed file system well-formed, whatever comes of it. -/
abbrev Sound {α : Type} (op : FileOp α) : Prop := Keeps StaysWellFormed (fun _ => True) op

namespace Sound

theorem pure {α : Type} (a : α) : Sound (pure a) := Keeps.pure frame_staysWellFormed a

theorem throw {α : Type} (fault : FileFault) : Sound (throw fault : FileOp α) :=
  Keeps.throw frame_staysWellFormed trivial

theorem bind {α β : Type} {op : FileOp α} {f : α → FileOp β} (h : Sound op)
    (hf : ∀ a, Sound (f a)) : Sound (op >>= f) :=
  Keeps.bind frame_staysWellFormed h hf

theorem tryCatch {α : Type} {op : FileOp α} {handler : FileFault → FileOp α} (h : Sound op)
    (hh : ∀ fault, Sound (handler fault)) : Sound (tryCatch op handler) :=
  Keeps.tryCatch frame_staysWellFormed h fun fault _ => hh fault

theorem get : Sound get := Keeps.get frame_staysWellFormed

theorem call {path : String} {f : FileSystem → Except Refusal FileSystem}
    (hf : ∀ {fs after : FileSystem}, f fs = .ok after → fs.WellFormed → after.WellFormed) :
    Sound (call path f) := by
  intro fs
  rw [exec_call]
  cases h : f fs with
  | ok after => exact ⟨hf h, fun _ _ => trivial⟩
  | error r => exact ⟨id, fun _ _ => trivial⟩

theorem ask {α : Type} (path : String) (f : FileSystem → Except Refusal α) : Sound (ask path f) := by
  intro fs
  rw [exec_ask]
  cases f fs <;> exact ⟨id, fun _ _ => trivial⟩

end Sound

theorem sound_makeLink (target path : String) : Sound (makeLink target path) := by
  intro fs
  rw [makeLink, exec_bind, exec_get]
  dsimp only
  cases h : fs.makeLink path target with
  | ok after => exact ⟨fun hfs => hfs.makeLink h, fun _ _ => trivial⟩
  | error r => cases r <;> exact ⟨id, fun _ _ => trivial⟩

/-! ### Directories -/

theorem exec_makeLeaf (mayExist : Bool) (path : String) (fs : FileSystem) :
    exec (makeLeaf mayExist path) fs =
      match fs.makeDir path with
      | .ok after => (.ok (), after)
      | .error r =>
        if mayExist && (faultAt path r).fromSystem && fs.isDir path then (.ok (), fs)
        else (.error (faultAt path r), fs) := by
  rw [makeLeaf, exec_bind, exec_get]
  dsimp only
  cases fs.makeDir path with
  | ok after => rfl
  | error r =>
    dsimp only
    rw [exec_bind, exec_get]
    dsimp only
    split <;> rfl

theorem sound_makeLeaf (mayExist : Bool) (path : String) : Sound (makeLeaf mayExist path) := by
  intro fs
  rw [exec_makeLeaf]
  cases h : fs.makeDir path with
  | ok after => exact ⟨fun hfs => hfs.makeDir h, fun _ _ => trivial⟩
  | error r =>
    dsimp only
    split <;> exact ⟨id, fun _ _ => trivial⟩

theorem sound_makeDirsWithin (mayExist : Bool) (depth : Nat) (path : String) :
    Sound (makeDirsWithin mayExist depth path) := by
  induction depth generalizing path with
  | zero => exact sound_makeLeaf mayExist path
  | succ depth ih =>
    rw [makeDirsWithin]
    refine Sound.get.bind fun fs => ?_
    split
    · exact sound_makeLeaf mayExist path
    · refine Sound.bind (Sound.tryCatch (ih _) fun fault => ?_) fun _ => ?_
      · split
        · exact .pure ()
        · exact .throw fault
      · split
        · exact .pure ()
        · exact sound_makeLeaf mayExist path

/-! ### Removing -/

theorem exec_removeTree (path : String) (fs : FileSystem) :
    exec (removeTree path) fs =
      match fs.find path false with
      | .error r => (.error (faultAt path r), fs)
      | .ok (l, .dir _) => exec (call path fun fs => fs.removeDir path) (fs.clear l)
      | .ok _ => (.error (.refused .notDirectory path), fs) := by
  rw [removeTree, exec_bind, exec_ask]
  cases fs.find path false with
  | error r => rfl
  | ok found =>
    obtain ⟨l, node⟩ := found
    cases node <;> rfl

theorem sound_removeTree (path : String) : Sound (removeTree path) := by
  intro fs
  rw [exec_removeTree]
  split
  · exact ⟨id, fun _ _ => trivial⟩
  · next l _ hfind =>
    have hclear := fun hfs : fs.WellFormed => hfs.clear (FileSystem.find_eq_ok_iff.mp hfind).2
    have hremove : Sound (call path fun fs => fs.removeDir path) := .call fun h hfs => hfs.removeDir h
    exact ⟨fun hfs => (hremove _).1 (hclear hfs), fun _ _ => trivial⟩
  · exact ⟨id, fun _ _ => trivial⟩

/-! ### Copying -/

theorem sound_copyFile (src dst : String) : Sound (copyFile src dst) := by
  have hstore : ∀ bytes, Sound (call dst fun fs => fs.store dst bytes) :=
    fun _ => .call fun h hfs => hfs.store h
  refine Sound.bind (.ask _ _) fun ⟨_, node⟩ => ?_
  cases node with
  | file f =>
    refine (hstore _).bind fun _ => .call fun {fs after} h hfs => ?_
    split at h
    · next l _ hfind =>
      cases h
      exact hfs.place (hfs.endsInName (FileSystem.find_eq_ok_iff.mp hfind).2) (.file f)
    · cases h
      exact hfs
  | dir entries => exact .throw _
  | link target => exact hstore _
  | device => exact hstore _

section

variable {copy : String → String → FileOp Unit} (hcopy : ∀ src dst, Sound (copy src dst))
include hcopy

theorem sound_copyEntry (links : Bool) (src dst : String) : Sound (copyEntry copy links src dst) := by
  refine Sound.get.bind fun fs => ?_
  split
  · exact Sound.bind (.ask _ _) fun target => sound_makeLink target dst
  · split
    · exact hcopy src dst
    · exact sound_copyFile src dst

theorem sound_copyEntries (links : Bool) (src dst : String) (names : List String) :
    Sound (copyEntries copy links src dst names) := by
  induction names with
  | nil => exact .pure []
  | cons name rest ih =>
    refine Sound.bind (Sound.tryCatch ?_ fun fault => ?_) fun missed => ?_
    · exact (sound_copyEntry hcopy links _ _).bind fun _ => .pure []
    · split
      · exact .pure _
      · exact .throw fault
    · exact ih.bind fun more => .pure _

end

theorem sound_copyTreeWithin (links : Bool) (depth : Nat) (src dst : String) :
    Sound (copyTreeWithin links depth src dst) := by
  induction depth generalizing src dst with
  | zero => exact .throw _
  | succ depth ih =>
    rw [copyTreeWithin]
    refine Sound.bind (.ask _ _) fun names => ?_
    refine Sound.bind (sound_makeDirsWithin _ _ _) fun _ => ?_
    refine (sound_copyEntries ih links src dst names).bind fun missed => ?_
    have hend (parts : List (String × String × String)) :
        Sound (if parts = [] then pure () else throw (.notCopied parts)) := by
      split
      · exact .pure ()
      · exact .throw _
    exact Sound.get.bind fun fs => hend _

theorem sound_copyTree (links : Bool) (src dst : String) : Sound (copyTree links src dst) :=
  sound_copyTreeWithin links _ src dst

/-! ### Moving -/

theorem sound_currentDir : Sound currentDir := by
  intro fs
  rw [exec_currentDir]
  exact ⟨id, fun _ _ => trivial⟩

theorem sound_absolute (path : String) : Sound (absolute path) := by
  rw [absolute]
  split
  · exact .pure _
  · exact sound_currentDir.bind fun _ => .pure _

theorem sound_moveByCopy (src dst : String) : Sound (moveByCopy src dst) := by
  have hremove : Sound (call src fun fs => fs.removeFile src) := .call fun h hfs => hfs.removeFile h
  refine Sound.get.bind fun fs => ?_
  split
  · exact (Sound.ask _ _).bind fun target => (sound_makeLink target dst).bind fun _ => hremove
  · split
    · refine (sound_absolute src).bind fun a => (sound_absolute dst).bind fun b => ?_
      have hcopy : Sound (copyTree true src dst >>= fun _ => removeTree src) :=
        (sound_copyTree true src dst).bind fun _ => sound_removeTree src
      split
      · exact .throw _
      · exact hcopy
    · exact (sound_copyFile src dst).bind fun _ => hremove

theorem sound_move (src dst : String) : Sound (move src dst) := by
  intro fs
  rw [move, exec_bind, exec_get]
  dsimp only
  cases h : fs.rename src dst with
  | ok after => exact ⟨fun hfs => hfs.rename h, fun _ _ => trivial⟩
  | error r =>
    cases r with
    | nul => exact ⟨id, fun _ _ => trivial⟩
    | system e => exact sound_moveByCopy src dst fs

theorem sound_removeTreeQuietly (path : String) : Sound (removeTreeQuietly path) :=
  (sound_removeTree path).tryCatch fun _ => .pure ()

end FileOp

end MonitoredCompile

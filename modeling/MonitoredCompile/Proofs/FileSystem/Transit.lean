/-
MonitoredCompile/Proofs/FileSystem/Transit.lean

What becomes of the files of a directory when it is moved to the place of an empty one.
The empty directory is removed first, and each file is then either where it was or at the
same place below the location that was freed, unless the directory was copied into itself
(`kept_of_move`, `lost_of_copiedAside`).  The texts of the two paths do not always tell that the one lies in
the other, and then the copy goes with its original.
-/
import MonitoredCompile.Proofs.FileSystem.Replica
import MonitoredCompile.Proofs.FileSystem.Sibling

namespace MonitoredCompile

open Attempt (exec)

namespace FileSystem

variable {fs fs' freed after : FileSystem} {src dst path : String} {top d l m k : Location} {f : File}

/-! ### Relocation -/

theorem entryAt_relocate (hsrc : ¬ l <+: k) (hdst : ¬ m <+: k) :
    (fs.relocate l m).entryAt k = fs.entryAt k := by
  rw [relocate]
  cases fs.get? l with
  | none => rfl
  | some node => exact (entryAt_withNode hdst _).trans (entryAt_withNode hsrc _)

/-- What is relocated is, with all below it, in its new place. -/
theorem entryAt_relocate_below {name : String} {node : Node} (hget : fs.get? l = some node)
    (hdir : fs.entryAt d = some .dir) (hout : ¬ l <+: d) :
    (fs.relocate l (d ++ [name])).entryAt (d ++ [name] ++ k) = fs.entryAt (l ++ k) := by
  have hstill : (fs.withNode l none).entryAt d = some .dir := (entryAt_withNode hout none).trans hdir
  rw [relocate, hget, entryAt_append_of_get? hget, List.append_assoc, List.singleton_append]
  exact entryAt_withNode_below hstill (some node)

/-! ### The directory in a file system that has less -/

section

variable (htop : fs.DirAt path top) (hext : Extends freed fs) (hstart : SameStarts freed fs path)
include htop hext hstart

/-- What the path names there is the directory itself or a link. -/
theorem find_of_dirAt {node : Node} (hfind : freed.find path false = .ok (l, node)) :
    (∃ target, node = .link target) ∨ (l = top ∧ node.entry = .dir) := by
  by_cases hlink : ∃ target, node = .link target
  · exact .inl hlink
  · have hfollow := find_follow hfind fun target htarget => hlink ⟨target, htarget⟩
    obtain ⟨node', hfind', hentry⟩ := hext.find hstart hfollow
    obtain ⟨entries, htop⟩ := htop
    rw [htop] at hfind'
    cases hfind'
    exact .inr ⟨rfl, hentry.symm⟩

/-- So is what a call about its last name means. -/
theorem target_of_dirAt {node : Node} {slash : Bool}
    (ht : freed.target path = .ok (.name ⟨l, some node⟩ slash)) :
    (∃ target, node = .link target) ∨ (l = top ∧ node.entry = .dir) := by
  by_cases hlink : ∃ target, node = .link target
  · exact .inl hlink
  · obtain ⟨-, -, ⟨hflaw, here, hhere, hleads⟩, hnode⟩ := target_eq_name_iff.mp ht
    have hentry := entryAt_of_get? hnode.symm
    have hfollows : freed.Finds path true (Path.names path) l := by
      refine ⟨hflaw, here, hhere, hleads.follows fun target htarget => hlink ⟨target, ?_⟩⟩
      rw [show freed.entryAt l = some (.link target) from htarget, Option.some.injEq] at hentry
      exact Node.entry_eq_link.mp hentry.symm
    obtain ⟨hfinds, hdir⟩ := dirAt_iff.mp htop
    obtain rfl := hfinds.unique (hfollows.mono hext hstart fun hnone => by
      rw [show freed.entryAt l = none from hnone] at hentry
      cases hentry)
    have hsame := hext _ _ hentry
    rw [hdir, Option.some.injEq] at hsame
    exact .inr ⟨rfl, hsame.symm⟩

end

/-- A link is not on the way to a file. -/
theorem not_prefix_of_link {target : String} (hlink : fs.entryAt l = some (.link target))
    (hfile : fs.entryAt m = some (.file f)) : ¬ l <+: m := by
  rintro ⟨k, rfl⟩
  cases k with
  | nil =>
    rw [List.append_nil, hlink] at hfile
    cases hfile
  | cons name k =>
    cases hlink.symm.trans (dir_of_below hfile)

/-! ### The two ways without a copy of the directory -/

/-- A file of a directory that is renamed moves along, or stays if a link is renamed. -/
theorem rename_keeps (htop : fs.DirAt src top) (hext : Extends freed fs)
    (hstart : SameStarts freed fs src) (hfree : freed.Free dst d)
    (hfile : freed.entryAt (top ++ k) = some (.file f)) (h : freed.rename src dst = .ok after) :
    after.entryAt (top ++ k) = some (.file f) ∨ after.entryAt (d ++ k) = some (.file f) := by
  rw [rename] at h
  split at h
  · cases h
  split at h
  · cases h
  · cases h
  · next source slash dest slash' hsource hdest =>
    obtain ⟨_, htarget⟩ := hfree.target hdest
    cases htarget
    obtain ⟨l, none | node⟩ := source
    · cases h
    dsimp only at h
    split at h
    · cases h
    unfold renameAt at h
    split at h
    · cases h
      exact .inl hfile
    split at h
    · cases h
    next hbelow =>
    split at h
    · cases h
    · cases h
      obtain ⟨-, -, -, hnode⟩ := target_eq_name_iff.mp hsource
      obtain ⟨-, -, ⟨-, here, -, hleads⟩, -⟩ := target_eq_name_iff.mp hdest
      obtain ⟨p, name, rfl, hparent⟩ := hleads.parent hfree.entry
      have hget : freed.get? l = some node := hnode.symm
      by_cases hmoves : l <+: top ++ k
      · rcases target_of_dirAt htop hext hstart hsource with ⟨target, rfl⟩ | ⟨rfl, -⟩
        · exact absurd hmoves (not_prefix_of_link (entryAt_of_get? hget) hfile)
        · right
          rw [entryAt_relocate_below hget hparent, hfile]
          rintro ⟨j, hj⟩
          exact hbelow (List.isPrefixOf_iff_prefix.mpr ⟨j ++ [name], by rw [← List.append_assoc, hj]⟩)
      · left
        rw [entryAt_relocate hmoves, hfile]
        intro hp
        rw [show freed.entryAt (top ++ k) = none from Node.entryAt_below hfree.entry hp] at hfile
        cases hfile
  · cases h

/-- If the path names no directory, then it names a link, and a file stays when the
link is removed. -/
theorem removeFile_keeps {copy : FileSystem} {node : Node} (htop : fs.DirAt src top)
    (hext : Extends freed fs) (hstart : SameStarts freed fs src)
    (hfind : freed.find src false = .ok (l, node)) (hnode : ∀ entries, node ≠ .dir entries)
    (hgrows : Grows freed copy) (hfile : freed.entryAt (top ++ k) = some (.file f))
    (h : copy.removeFile src = .ok after) : after.entryAt (top ++ k) = some (.file f) := by
  obtain ⟨target, rfl⟩ | ⟨-, hdir⟩ := find_of_dirAt htop hext hstart hfind
  · obtain ⟨node', hfind', hentry⟩ := hgrows.find hfind
    obtain ⟨hfinds, hget⟩ := find_eq_ok_iff.mp hfind'
    rw [removeFile] at h
    split at h <;> cases h
    next m _ _ ht =>
    obtain ⟨hslash, -, hnames, -⟩ := target_eq_name_iff.mp ht
    rw [steps, if_neg (by rw [← hslash]; exact Bool.false_ne_true), List.append_nil] at hfinds
    obtain rfl : m = l := hnames.unique hfinds
    have hlink : copy.entryAt m = some (.link target) := (entryAt_of_get? hget).trans (congrArg some hentry)
    have hthere := hgrows.extends_ _ _ hfile
    rw [entryAt_remove (not_prefix_of_link hlink hthere), hthere]
  · obtain ⟨entries, rfl⟩ := Node.entry_eq_dir.mp hdir
    exact absurd rfl (hnode entries)

end FileSystem

namespace FileOp

open FileSystem (AddsDirs Grows)

variable {fs copy mid after : FileSystem} {src dst : String} {top d l k : Location} {f : File}
  {entries : List (String × Node)}

/-! ### The way with a copy -/

/-- A copy to the path of an empty directory that was removed goes where this was. -/
theorem location_of_copy {slash : Bool} (hplace : fs.find dst false = .ok (d, .dir []))
    (hadds : AddsDirs (fs.remove d) mid) (ht : mid.target dst = .ok (.name ⟨l, none⟩ slash)) :
    l = d := by
  have hempty := (FileSystem.find_eq_ok_iff.mp hplace).2
  have hdir : fs.DirAt dst d := ⟨[], (FileSystem.find_dir_iff.mp hplace).2⟩
  obtain ⟨hfinds, hentry⟩ := FileSystem.dirAt_iff.mp hdir
  obtain ⟨-, -, ⟨hflaw, here, hhere, hleads⟩, hnode⟩ := FileSystem.target_eq_name_iff.mp ht
  have hfree : mid.entryAt l = none := Option.map_eq_none_iff.mpr hnode.symm
  have hfollows : mid.Finds dst true (Path.names dst) l :=
    ⟨hflaw, here, hhere, hleads.follows fun target htarget => by
      rw [show mid.entryAt l = some (.link target) from htarget] at hfree
      cases hfree⟩
  have hagree : FileSystem.Agree mid fs := fun m e e' he he' =>
    (FileSystem.agree_of_addsDirs hempty hadds m e' e he' he).symm
  have hstart : FileSystem.SameStarts mid fs dst := by
    intro here hhere
    refine FileSystem.sameStarts_remove fs d dst here ?_
    rw [FileSystem.start] at hhere ⊢
    rwa [hadds.cwd] at hhere
  refine hfollows.unique_of_agree hfinds hagree hstart (fun hnone target htarget => ?_)
    fun hnone => ?_
  -- A link that was there before still is, since only an empty directory was removed.
  · have hkept := hadds.extends_ _ _ (FileSystem.entryAt_remove_emptyDir hempty htarget ?_)
    · rw [hkept] at hnone
      cases hnone
    · rintro rfl
      rw [hentry] at htarget
      cases htarget
  · rw [hentry] at hnone
    cases hnone

/-- When a tree is removed, its directory is cleared, and then at most that directory
itself is removed. -/
theorem removeTree_cases {r : Except FileFault Unit} (hfind : copy.find src false = .ok (top, .dir entries))
    (h : exec (removeTree src) copy = (r, after)) :
    after = copy.clear top ∨
      (copy.clear top).get? top = some (.dir []) ∧ after = (copy.clear top).remove top := by
  rw [exec_removeTree, hfind] at h
  dsimp only at h
  rw [exec_call] at h
  cases hremove : (copy.clear top).removeDir src with
  | error fault =>
    rw [hremove] at h
    exact .inl (Prod.mk.inj h).2.symm
  | ok removed =>
    rw [hremove] at h
    obtain ⟨hempty, -, hx⟩ := FileSystem.removeDir_clear_eq_ok hfind hremove
    exact .inr ⟨(FileSystem.find_eq_ok_iff.mp hempty).2, (Prod.mk.inj h).2.symm.trans hx⟩

/-- What was found before the placeholder's removal is found after it. -/
theorem find_of_dirAt_remove {found : Location} (htop : fs.DirAt src top)
    (hfind : (fs.remove d).find src false = .ok (found, .dir entries)) : found = top := by
  obtain ⟨entries', htop'⟩ := htop
  obtain ⟨node, hfindTop, -⟩ := (FileSystem.extends_remove fs d).find
    (FileSystem.sameStarts_remove fs d src) (FileSystem.find_dir_iff.mp hfind).2
  rw [htop'] at hfindTop
  cases hfindTop
  rfl

/-- A file in the tree of a directory is not that directory. -/
theorem below_of_file {path : String} (htop : fs.DirAt path top)
    (hfile : fs.entryAt (top ++ k) = some (.file f)) : ∃ name rest, k = name :: rest := by
  cases k with
  | nil =>
    rw [List.append_nil, (FileSystem.dirAt_iff.mp htop).2] at hfile
    cases hfile
  | cons name rest => exact ⟨name, rest, rfl⟩

/-- When a directory that was copied into itself is removed, nothing is left below it. -/
theorem lost_of_copiedAside {r : Except FileFault Unit} {name : String} (hwf : (fs.remove d).WellFormed)
    (hname : (Path.splitParent dst).2 ≠ ".") (htop : fs.DirAt src top)
    (hcopied : CopiedAside src dst entries (fs.remove d) copy)
    (hremove : exec (removeTree src) copy = (r, after)) : after.entryAt (top ++ name :: k) = none := by
  obtain ⟨l, hfind⟩ := hcopied.directory
  obtain rfl := find_of_dirAt_remove htop hfind
  have hgrows := (copyTree_creates hwf hname hcopied.copied).1
  obtain ⟨_, hfindCopy, hentry⟩ := hgrows.find hfind
  obtain ⟨there, rfl⟩ := Node.entry_eq_dir.mp hentry
  have hnone : (copy.clear l).entryAt (l ++ name :: k) = none :=
    FileSystem.entryAt_clear_below (FileSystem.find_eq_ok_iff.mp hfindCopy).2
  rcases removeTree_cases hfindCopy hremove with rfl | ⟨-, rfl⟩
  · exact hnone
  · cases hafter : ((copy.clear l).remove l).entryAt (l ++ name :: k) with
    | none => rfl
    | some e => cases hnone.symm.trans (FileSystem.entryAt_of_remove hafter)

/-- A file of a directory that was copied elsewhere as a whole is in the copy. -/
theorem kept_of_copiedAside {r : Except FileFault Unit} (hwf : (fs.remove d).WellFormed)
    (hplace : fs.find dst false = .ok (d, .dir [])) (hname : (Path.splitParent dst).2 ≠ ".")
    (hfree : (fs.remove d).entryAt d = none) (htop : fs.DirAt src top) (hapart : ¬ top <+: d)
    (hcopied : CopiedAside src dst entries (fs.remove d) copy)
    (hremove : exec (removeTree src) copy = (r, after))
    (hfile : (fs.remove d).entryAt (top ++ k) = some (.file f)) :
    after.entryAt (d ++ k) = some (.file f) := by
  obtain ⟨l, hfind⟩ := hcopied.directory
  obtain rfl := find_of_dirAt_remove htop hfind
  have hdirAt : (fs.remove d).DirAt src l := ⟨entries, (FileSystem.find_dir_iff.mp hfind).2⟩
  obtain ⟨name, rest, rfl⟩ := below_of_file hdirAt hfile
  obtain ⟨mid, place, slash, hadds, ht, hreplica⟩ := copyTree_complete hwf hdirAt hname hcopied.copied
  obtain rfl : place = d := location_of_copy hplace hadds ht
  have hcopy := hreplica _ f hfile
  have hout : ¬ l <+: place ++ name :: rest := by
    intro hp
    rcases List.prefix_or_prefix_of_prefix hp (List.prefix_append place (name :: rest)) with h | h
    · exact hapart h
    · rw [show (fs.remove place).entryAt (l ++ name :: rest) = none from
        Node.entryAt_below hfree (h.trans (List.prefix_append l _))] at hfile
      cases hfile
  have hclear : (copy.clear l).entryAt (place ++ name :: rest) = some (.file f) :=
    (FileSystem.entryAt_clear hout).trans hcopy
  obtain ⟨_, hfindCopy, hentry⟩ := (copyTree_creates hwf hname hcopied.copied).1.find hfind
  obtain ⟨there, rfl⟩ := Node.entry_eq_dir.mp hentry
  rcases removeTree_cases hfindCopy hremove with rfl | ⟨hempty, rfl⟩
  · exact hclear
  · refine FileSystem.entryAt_remove_emptyDir hempty hclear ?_
    rintro rfl
    rw [FileSystem.entryAt_of_get? hempty] at hclear
    cases hclear

/-! ### The move -/

/-- A file of a directory that is moved to the path of an empty one stays where it was or
moves along, unless the directory is copied into itself. -/
theorem kept_of_move {r : Except FileFault Unit} (hwf : (fs.remove d).WellFormed)
    (hplace : fs.find dst false = .ok (d, .dir [])) (hname : (Path.splitParent dst).2 ≠ ".")
    (hfree : (fs.remove d).Free dst d) (htop : fs.DirAt src top)
    (hfile : (fs.remove d).entryAt (top ++ k) = some (.file f))
    (h : exec (move src dst) (fs.remove d) = (r, after))
    (hapart : top <+: d → ∀ copy entries, ¬ CopiedAside src dst entries (fs.remove d) copy) :
    after.entryAt (top ++ k) = some (.file f) ∨ after.entryAt (d ++ k) = some (.file f) := by
  by_cases hcopied : ∃ copy entries, CopiedAside src dst entries (fs.remove d) copy
  · obtain ⟨copy, entries, hcopied⟩ := hcopied
    rw [exec_move_of_copiedAside hcopied] at h
    refine .inr (kept_of_copiedAside hwf hplace hname hfree.entry htop ?_ hcopied h hfile)
    exact fun hinside => hapart hinside _ _ hcopied
  · have hext := FileSystem.extends_remove fs d
    have hstart := FileSystem.sameStarts_remove fs d src
    cases moved hwf hfree hname h with
    | renamed hrename => exact FileSystem.rename_keeps htop hext hstart hfree hfile hrename
    | replaced hfind hnode hcreates hremove =>
      exact .inl (FileSystem.removeFile_keeps htop hext hstart hfind hnode hcreates.grows hfile hremove)
    | copied hcopied' _ | emptied hcopied' _ => exact absurd ⟨_, _, hcopied'⟩ hcopied
    | failed hgrows => exact .inl (hgrows.extends_ _ _ hfile)

end FileOp

end MonitoredCompile

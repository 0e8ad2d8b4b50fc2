/-
MonitoredCompile/Proofs/FileSystem/Sibling.lean

What a move to a freed name of a directory does to a file or a link in that
directory.  It may move along with what is moved, and then its path leads nowhere,
but the path never leads to anything else (`entry_eq_of_move`).  For that the file system
after the move is compared with one that has all that both have (`move_eq_ok`).
-/
import MonitoredCompile.Proofs.FileSystem.Move

namespace MonitoredCompile

open Attempt (exec)

namespace FileSystem

variable {fs fs' freed mid : FileSystem} {l d dst : Location} {path : String}

/-! ### Removing and relocating -/

theorem extends_clear {entries : List (String × Node)} (h : fs.get? l = some (.dir entries)) :
    Extends (fs.clear l) fs := by
  intro m e he
  by_cases hm : l <+: m
  · obtain ⟨k, rfl⟩ := hm
    cases k with
    | nil =>
      rw [List.append_nil, entryAt_clear_self h] at he
      cases he
      rw [List.append_nil, entryAt_of_get? h]
      rfl
    | cons name k =>
      rw [entryAt_clear_below h] at he
      cases he
  · rwa [entryAt_clear hm] at he

theorem cwd_of_clear {m : Location} (h : (fs.clear l).cwd = some m) : fs.cwd = some m := by
  obtain ⟨here, hcwd, hkept⟩ := Option.bind_eq_some_iff.mp
    (show fs.cwd.bind (fun x => if l.isPrefixOf x ∧ x ≠ l then none else some x) = some m from h)
  split at hkept
  · cases hkept
  · cases hkept
    exact hcwd

theorem sameStarts_clear (fs : FileSystem) (l : Location) (path : String) :
    SameStarts (fs.clear l) fs path :=
  sameStarts_of_cwd (fun _ hm => cwd_of_clear hm) path

theorem removeFile_eq_ok (h : fs.removeFile path = .ok fs') :
    ∃ l node, fs.target path = .ok (.name ⟨l, some node⟩ false) ∧ (∀ entries, node ≠ .dir entries) ∧
      fs' = fs.remove l := by
  rw [removeFile] at h
  split at h <;> cases h
  next l node hnode ht => exact ⟨l, node, ht, fun entries hdir => hnode entries hdir, rfl⟩

theorem removeDir_eq_ok (h : fs.removeDir path = .ok fs') :
    ∃ l slash, fs.target path = .ok (.name ⟨l, some (.dir [])⟩ slash) ∧ fs' = fs.remove l := by
  rw [removeDir] at h
  split at h <;> cases h
  next l slash ht => exact ⟨l, slash, ht, rfl⟩

/-- When a directory has been emptied, its path cannot be used to remove another. -/
theorem removeDir_clear_eq_ok {entries : List (String × Node)}
    (hfind : fs.find path false = .ok (l, .dir entries)) (h : (fs.clear l).removeDir path = .ok fs') :
    (fs.clear l).find path false = .ok (l, .dir []) ∧ l ≠ [] ∧ fs' = (fs.clear l).remove l := by
  obtain ⟨x, rfl, hempty, hfree, -⟩ := free_of_removeDir h
  obtain ⟨node, hfind', -⟩ := (extends_clear (find_eq_ok_iff.mp hfind).2).find
    (sameStarts_clear fs l path) hempty
  cases hfind.symm.trans hfind'
  refine ⟨hempty, ?_, rfl⟩
  rintro rfl
  have hroot := hfree.entry
  rw [entryAt, Node.entryAt, Node.get?_nil] at hroot
  cases hroot

/-- Where an empty directory was removed and directories were made, all that is there
before and after is the same: the old one has only the empty directory more, and the new
one only directories. -/
theorem agree_of_addsDirs (hempty : fs.get? d = some (.dir []))
    (hadds : AddsDirs (fs.remove d) mid) : Leads.Agree fs.entryAt mid.entryAt := by
  intro m e e' he he'
  by_cases hm : m = d
  · subst hm
    rw [entryAt_of_get? hempty] at he
    cases he
    rcases hadds.dirs m e' he' with hold | hdir
    · have hself := entryAt_of_remove hold
      rw [entryAt_of_get? hempty] at hself
      exact Option.some.inj hself
    · exact hdir.symm
  · have hkept := hadds.extends_ m e (entryAt_remove_emptyDir hempty he hm)
    rw [he'] at hkept
    exact (Option.some.inj hkept).symm

/-- What was relocated stands in its new place as if it had been put there, and
nothing else is new. -/
theorem extends_relocate {src : Location} {name : String} {node : Node}
    (hsrc : fs.get? src = some node) (hdir : fs.entryAt d = some .dir) :
    Extends (fs.relocate src (d ++ [name])) (fs.place (d ++ [name]) node) := by
  intro m e he
  rw [relocate, hsrc] at he
  have he : ((fs.withNode src none).withNode (d ++ [name]) (some node)).entryAt m = some e := he
  by_cases hm : d ++ [name] <+: m
  · obtain ⟨k, rfl⟩ := hm
    rw [List.append_assoc, List.singleton_append] at he ⊢
    rw [entryAt_place_below hdir]
    -- If the destination was in what was moved, then nothing is there any more.
    by_cases hstill : (fs.withNode src none).entryAt d = some .dir
    · rwa [entryAt_withNode_below hstill] at he
    · have hgone : ((fs.withNode src none).withNode (d ++ [name]) (some node)).entryAt d
          ≠ some .dir := by
        rwa [entryAt_withNode (Location.not_concat_prefix d name)]
      exact absurd (dir_of_below he) hgone
  · rw [entryAt_place hm]
    rw [entryAt_withNode hm] at he
    exact entryAt_of_remove (l := src) he

/-- What is renamed to a free path was there before, or is put there. -/
theorem rename_eq_ok {src dst : String} (hfree : fs.Free dst l) (h : fs.rename src dst = .ok fs') :
    (∃ slash, fs.target dst = .ok (.name ⟨l, none⟩ slash)) ∧
      ∃ u, Extends fs u ∧ Extends fs' u := by
  rw [rename] at h
  split at h
  · cases h
  · cases hsource : fs.target src with
    | error r => rw [hsource] at h; cases h
    | ok source =>
      cases hdest : fs.target dst with
      | error r => rw [hsource, hdest] at h; cases h
      | ok dest =>
        obtain ⟨slash, rfl⟩ := hfree.target hdest
        refine ⟨⟨slash, rfl⟩, ?_⟩
        obtain ⟨-, -, ⟨-, here, -, hleads⟩, -⟩ := target_eq_name_iff.mp hdest
        obtain ⟨d, name, rfl, hdir⟩ := hleads.parent hfree.entry
        rw [hsource, hdest] at h
        -- Only a name with something under it can be renamed.
        cases source with
        | root | here | above => cases h
        | name place slash' =>
          obtain ⟨src, none | node⟩ := place
          · cases h
          have hget : fs.get? src = some node := (target_eq_name_iff.mp hsource).2.2.2.symm
          dsimp only at h
          split at h
          · cases h
          · unfold renameAt at h
            split at h
            · cases h
              exact ⟨fs, .refl fs, .refl fs⟩
            · split at h
              · cases h
              · split at h
                · cases h
                · cases h
                  exact ⟨fs.place (d ++ [name]) node, extends_place hfree.entry node,
                    extends_relocate hget hdir⟩

end FileSystem

namespace FileOp

open FileSystem (Extends AddsDirs)

/-- When only directories had been made the path could be walked, and all that was
there then fits together with all that is there afterwards. -/
def Covered (path : String) (before after : FileSystem) : Prop :=
  ∃ mid union, AddsDirs before mid ∧
    (∃ follow place slash, mid.target path follow = .ok (.name place slash)) ∧
    Extends mid union ∧ Extends after union

theorem Creates.covered {fs copy after : FileSystem} {dst : String} (h : Creates dst fs copy)
    (hsub : Extends after copy) : Covered dst fs after := by
  obtain ⟨mid, m, follow, t, hadds, hfree, ht, hout⟩ := h
  obtain ⟨slash, rfl⟩ := hfree.target ht
  exact ⟨mid, copy, hadds, ⟨follow, _, slash, ht⟩, (hout.grows hfree.entry).extends_, hsub⟩

/-- A move that has succeeded has made nothing else than what it has put under the
path. -/
theorem move_eq_ok {fs fs' : FileSystem} {src dst : String} {l : Location} (hfs : fs.WellFormed)
    (hfree : fs.Free dst l) (hname : (Path.splitParent dst).2 ≠ ".")
    (h : exec (move src dst) fs = (.ok (), fs')) : Covered dst fs fs' := by
  cases moved hfs hfree hname h with
  | renamed hrename =>
    obtain ⟨⟨slash, ht⟩, u, hfs, hfs'⟩ := FileSystem.rename_eq_ok hfree hrename
    exact ⟨fs, u, .refl fs, ⟨false, _, slash, ht⟩, hfs, hfs'⟩
  | replaced _ _ hc hremove =>
    obtain ⟨m, -, -, -, rfl⟩ := FileSystem.removeFile_eq_ok hremove
    exact hc.covered (FileSystem.extends_remove _ m)
  | @copied copy _ entries hcopied hremove =>
    refine ((copyTree_creates hfs hname hcopied.copied).2 rfl).covered ?_
    rw [exec_removeTree] at hremove
    split at hremove
    · cases hremove
    · next m entries' hfind =>
      rw [exec_call] at hremove
      cases hdir : (copy.clear m).removeDir src with
      | error r => rw [hdir] at hremove; cases hremove
      | ok after =>
        rw [hdir] at hremove
        cases hremove
        obtain ⟨x, -, -, rfl⟩ := FileSystem.removeDir_eq_ok hdir
        exact (FileSystem.extends_remove _ x).trans
          (FileSystem.extends_clear (FileSystem.find_eq_ok_iff.mp hfind).2)
    · cases hremove

end FileOp

namespace FileSystem

/-! ### A file beside the freed name -/

section

variable {fs mid : FileSystem} {dir c n : String} {l d : Location} {node : Node}

theorem steps_join (hc : IsName c) : steps (Path.join dir c) = Path.names dir ++ [c] := by
  have hpiece : Path.IsPiece c := ⟨hc.ne_empty, hc.no_slash⟩
  rw [steps, Path.endsInSlash_join hpiece, Path.names_join hpiece]
  exact List.append_nil _

theorem start_join (hc : IsName c) (habs : Path.isAbsolute dir = true) :
    fs.start (Path.join dir c) = .ok [] := by
  rw [start, Path.isAbsolute_join ⟨hc.ne_empty, hc.no_slash⟩, habs]
  rfl

/-- A name is found in the directory that the path before it leads to. -/
theorem find_join_iff (hc : IsName c) (habs : Path.isAbsolute dir = true) :
    fs.find (Path.join dir c) false = .ok (l, node) ↔
      (flaw? (Path.join dir c) = none ∧ IsStep c) ∧ fs.get? l = some node ∧
        ∃ d, l = d ++ [c] ∧ Leads fs.entryAt true linkLimit [] (Path.names dir) d ∧
          fs.entryAt d = some .dir := by
  rw [find_eq_ok_iff, Finds, steps_join hc, start_join hc habs]
  constructor
  · rintro ⟨⟨hflaw, here, hhere, hleads⟩, hget⟩
    cases hhere
    obtain ⟨d, rfl, hdir, hstep, hd⟩ := hleads.of_concat_name hc.ne_here hc.ne_above
    exact ⟨⟨hflaw, hstep⟩, hget, d, rfl, hd, hdir⟩
  · rintro ⟨⟨hflaw, hstep⟩, hget, d, rfl, hd, hdir⟩
    exact ⟨⟨hflaw, [], rfl, hd.concat hdir hstep fun _ _ => rfl⟩, hget⟩

/-- Once the name beside it can be walked again, the path of what is no directory leads to
it. -/
theorem find_beside (hc : IsName c) (hn : IsName n) (habs : Path.isAbsolute dir = true)
    (hfind : fs.find (Path.join dir c) false = .ok (l, node)) (hnode : node.entry ≠ .dir)
    (hempty : fs.get? d = some (.dir [])) (hadds : AddsDirs (fs.remove d) mid) {follow : Bool}
    {place : Place} {slash : Bool}
    (ht : mid.target (Path.join dir n) follow = .ok (.name place slash)) :
    ∃ node', mid.find (Path.join dir c) false = .ok (l, node') ∧ node'.entry = node.entry := by
  obtain ⟨hwritten, hget, top, rfl, hleads, hdir⟩ := (find_join_iff hc habs).mp hfind
  obtain ⟨-, -, ⟨-, here, hhere, hleads'⟩, -⟩ := target_eq_name_iff.mp ht
  rw [start_join hn habs] at hhere
  cases hhere
  rw [Path.names_join ⟨hn.ne_empty, hn.no_slash⟩] at hleads'
  obtain ⟨top', -, htop', hdir', -⟩ := hleads'.of_concat
  have hagree := agree_of_addsDirs hempty hadds
  -- So the directory that it is in is where it was.
  obtain rfl : top = top' := by
    refine hleads.unique_of_agree hagree htop' (fun hnone => ?_) fun hnone => ?_
    · rw [hdir] at hnone
      cases hnone
    · rw [hdir'] at hnone
      cases hnone
  have hentry : mid.entryAt (top ++ [c]) = some node.entry := by
    -- It is no empty directory, so it is not what was removed.
    refine hadds.extends_ _ _ (entryAt_remove_emptyDir hempty (entryAt_of_get? hget) ?_)
    rintro rfl
    obtain rfl := Option.some.inj (hget.symm.trans hempty)
    exact hnode rfl
  obtain ⟨node', hget', hsame⟩ := Option.map_eq_some_iff.mp hentry
  exact ⟨node', (find_join_iff hc habs).mpr ⟨hwritten, hget', top, rfl, htop', hdir'⟩, hsame⟩

/-- After the move the path of what is no directory leads to it, or nowhere. -/
theorem entry_eq_of_move {freed after : FileSystem} {src : String} (hfs : fs.WellFormed)
    (hc : IsName c) (hn : IsName n) (habs : Path.isAbsolute dir = true)
    (hfind : fs.find (Path.join dir c) false = .ok (l, node)) (hnode : node.entry ≠ .dir)
    (hremove : fs.removeDir (Path.join dir n) = .ok freed)
    (hmove : (FileOp.move src (Path.join dir n)).exec freed = (.ok (), after))
    {m : Location} {node' : Node} (hafter : after.find (Path.join dir c) false = .ok (m, node')) :
    node'.entry = node.entry := by
  have hwf := hfs.removeDir hremove
  obtain ⟨d, rfl, hempty, hfree, hname⟩ := free_of_removeDir hremove
  obtain ⟨mid, u, hadds, ⟨follow, place, slash, ht⟩, hmid, hsub⟩ :=
    FileOp.move_eq_ok hwf hfree hname hmove
  obtain ⟨there, hbeside, hthere⟩ :=
    find_beside hc hn habs hfind hnode (find_eq_ok_iff.mp hempty).2 hadds ht
  have hstarts (a b : FileSystem) : SameStarts a b (Path.join dir c) :=
    sameStarts_of_isAbsolute (by rw [Path.isAbsolute_join ⟨hc.ne_empty, hc.no_slash⟩, habs]) a b
  have hsame := (find_unique_of_extends hafter hbeside hsub hmid (hstarts _ _) (hstarts _ _)).2
  exact hsame.trans hthere

end

end FileSystem

end MonitoredCompile

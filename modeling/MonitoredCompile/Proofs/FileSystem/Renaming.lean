/-
MonitoredCompile/Proofs/FileSystem/Renaming.lean

Moves that succeed are renamings.  A move to the path of an empty directory that was just
removed falls back on a copy if it cannot rename, and a copy that succeeds is followed by the
removal of the original.  But whatever can be removed by its path could have been renamed,
unless the destination is below it (`below_of_copiedAside`), and wherever a tree could be
copied to, the way is still there that a renaming takes (`namesFree_of_copyTree`).  So with
the destination elsewhere nothing but one node has changed its place
(`relocation_of_move`).
-/
import MonitoredCompile.Proofs.FileSystem.Hiding
import MonitoredCompile.Proofs.FileSystem.Named

namespace MonitoredCompile

open Attempt (exec)

namespace FileSystem

variable {fs freed after : FileSystem} {src dst : String} {l d : Location} {node : Node}

/-! ### What two walks have in common -/

/-- A walk that is possible in two file systems that agree is possible with what both have. -/
theorem Leads.meet {look look' both : Location → Option Entry} {links links' : Nat}
    {here there there' : Location} {names : List String} (hagree : Agree look look')
    (hboth : ∀ l e, look l = some e → look' l = some e → both l = some e)
    (h : Leads look false links here names there) (h' : Leads look' false links' here names there') :
    Leads both false links here names there := by
  have hmeet {l : Location} {e e' : Entry} (hl : look l = some e) (hl' : look' l = some e') :
      both l = some e := hboth l e hl (hagree l e e' hl hl' ▸ hl')
  have hdir {l : Location} (hl : look l = some .dir) (hl' : look' l = some .dir) :
      both l = some .dir := hmeet hl hl'
  generalize hfollow : false = follow at h
  induction h generalizing links' there' with
  | here hl =>
    cases h' with
    | here hl' => exact .here (hmeet hl hl')
  | stay hl _ ih => exact .stay (hdir hl h'.dir_of_cons) (ih h'.of_stay)
  | up hl _ ih => exact .up (hdir hl h'.dir_of_cons) (ih h'.of_up)
  | last hl hstep _ =>
    cases h' with
    | stay | up => first | exact absurd rfl hstep.ne_here | exact absurd rfl hstep.ne_above
    | last hl' => exact .last (hdir hl hl') hstep fun _ _ => hfollow.symm
    | down _ _ _ _ hrest => exact absurd rfl hrest
    | jump _ _ _ hlink => cases hlink rfl
  | down hl hstep hlook hlink hrest _ ih =>
    cases h' with
    | stay | up => first | exact absurd rfl hstep.ne_here | exact absurd rfl hstep.ne_above
    | last => exact absurd rfl hrest
    | down hl' _ hlook' _ _ h' =>
      exact .down (hdir hl hl') hstep (hmeet hlook hlook') hlink hrest (ih h')
    | jump _ _ hlook' => exact absurd (hagree _ _ _ hlook hlook') (hlink _)
  | jump hl hstep hlook hends _ ih =>
    cases h' with
    | stay | up => first | exact absurd rfl hstep.ne_here | exact absurd rfl hstep.ne_above
    | last => cases hfollow.trans (hends rfl)
    | down _ _ hlook' hlink => exact absurd (hagree _ _ _ hlook hlook').symm (hlink _)
    | jump hl' _ hlook' _ h' =>
      cases hagree _ _ _ hlook hlook'
      exact .jump (hdir hl hl') hstep (hmeet hlook hlook') hends (ih h')

/-! ### Relocation -/

/-- All that is different is that the node from the one location stands at the other. -/
structure Relocation (l d : Location) (node : Node) (before after : FileSystem) : Prop where
  taken : before.get? l = some node
  gone : ∀ m, l <+: m → after.entryAt m = none
  put : after.get? d = some node
  others : ∀ m, ¬ l <+: m → ¬ d <+: m → after.entryAt m = before.entryAt m

/-- What is taken to the place of an empty directory leaves all else as it was. -/
theorem relocation_of_emptyDir {p : Location} {name : String} (hl : l ≠ [])
    (hget : (fs.remove (p ++ [name])).get? l = some node)
    (hdir : (fs.remove (p ++ [name])).entryAt p = some .dir) (hout : ¬ l <+: p ++ [name]) :
    Relocation l (p ++ [name]) node fs ((fs.remove (p ++ [name])).relocate l (p ++ [name])) := by
  have hin : ¬ p ++ [name] <+: l := fun hp => by
    cases (entryAt_remove_below (by simp) hp).symm.trans (entryAt_of_get? hget)
  have hstill : ((fs.remove (p ++ [name])).withNode l none).entryAt p = some .dir :=
    (entryAt_withNode (fun hp => hout (hp.trans (List.prefix_append p _))) none).trans hdir
  have hmoved : ((fs.remove (p ++ [name])).relocate l (p ++ [name])).root
      = (((fs.remove (p ++ [name])).withNode l none).place (p ++ [name]) node).root := by
    rw [relocate, hget]
    rfl
  refine ⟨?_, fun m hm => ?_, ?_, fun m hm hm' => ?_⟩
  · rw [← hget]
    exact (get?_without ⟨hout, hin⟩).symm
  · rw [entryAt, hmoved]
    refine (entryAt_place (fun hp => ?_) node).trans (entryAt_remove_below hl hm)
    rcases List.prefix_or_prefix_of_prefix hm hp with h | h
    · exact hout h
    · exact hin h
  · rw [get?, hmoved]
    exact get?_place_in hstill node
  · rw [entryAt_relocate hm hm', entryAt_remove hm']

/-- What a last name stands for, it stands for where there is more. -/
theorem Extends.target {slash : Bool} (hext : Extends freed fs) (hstart : SameStarts freed fs src)
    (ht : freed.target src = .ok (.name ⟨l, some node⟩ slash)) :
    fs.target src = .ok (.name ⟨l, fs.get? l⟩ slash) := by
  obtain ⟨hslash, hnames, hfinds, hget⟩ := target_eq_name_iff.mp ht
  refine target_eq_name_iff.mpr ⟨hslash, hnames, hfinds.mono hext hstart fun hnone => ?_, rfl⟩
  cases (entryAt_of_get? hget.symm).symm.trans hnone

/-- What has a name is not the root. -/
theorem ne_nil_of_target {slash : Bool} {place : Place}
    (ht : fs.target src = .ok (.name place slash)) : place.location ≠ [] := by
  obtain ⟨-, ⟨init, last, hnames, hne, hnu⟩, ⟨-, here, -, hleads⟩, -⟩ := target_eq_name_iff.mp ht
  rw [hnames, Bool.false_and] at hleads
  obtain ⟨p, hplace, -⟩ := hleads.of_concat_name hne hnu
  rw [hplace]
  exact List.concat_ne_nil _ _

/-- A renaming to the path of an empty directory that was removed relocates one node. -/
theorem relocation_of_rename (hremove : fs.removeDir dst = .ok freed)
    (hrename : freed.rename src dst = .ok after) :
    ∃ l d node slash slash', fs.target dst = .ok (.name ⟨d, some (.dir [])⟩ slash) ∧
      fs.target src = .ok (.name ⟨l, some node⟩ slash') ∧ Relocation l d node fs after := by
  obtain ⟨d, slash, ht, rfl⟩ := removeDir_eq_ok hremove
  obtain ⟨d', hsame, hplace, hfree, -⟩ := free_of_removeDir hremove
  obtain rfl : d' = d := by
    have hfind := find_of_target ht fun _ => rfl
    cases hplace.symm.trans hfind
    rfl
  obtain ⟨hdst, l, node, slash', hsource, hfind, hout, rfl⟩ := relocated_of_rename hfree hrename
  obtain ⟨p, name, rfl, hdir⟩ := hdst.parent
  have hrelocation := relocation_of_emptyDir (ne_nil_of_target hsource)
    (find_eq_ok_iff.mp hfind).2 hdir hout
  refine ⟨l, p ++ [name], node, slash, slash', ht, ?_, hrelocation⟩
  rw [(extends_remove fs _).target (sameStarts_remove fs _ src) hsource, hrelocation.taken]

end FileSystem

namespace FileOp

open FileSystem (Extends Leads linkLimit)

variable {fs freed copy after : FileSystem} {src dst : String} {l d : Location}
  {entries : List (String × Node)}

/-! ### The way to the destination -/

/-- Where a tree was copied to the path of an empty directory that was removed, this path
names the free place before.  It does not if the way to the directory goes through itself, but
then no copy can be made either. -/
theorem namesFree_of_copyTree (hfs : freed.WellFormed) (hremove : fs.removeDir dst = .ok freed)
    (hname : (Path.splitParent dst).2 ≠ ".")
    (hcopy : exec (copyTree true src dst) freed = (.ok (), copy)) :
    ∃ d, freed.NamesFree dst d := by
  obtain ⟨d, hsame, hplace, hfree, -⟩ := FileSystem.free_of_removeDir hremove
  obtain ⟨x, slash, ht, rfl⟩ := FileSystem.removeDir_eq_ok hremove
  obtain rfl : d = x := by
    cases hplace.symm.trans (FileSystem.find_of_target ht fun _ => rfl)
    rfl
  obtain ⟨names, made, -, hmake, -⟩ := copyTreeWithin_eq_ok hcopy
  obtain ⟨mid, hadds, -, hleaf⟩ := makeNewDirs_eq_ok hfs hname hmake
  obtain ⟨m, slash', ht'⟩ := FileSystem.target_of_create hleaf
  obtain rfl := location_of_copy hplace hadds ht'
  obtain ⟨-, -, ⟨-, here, hhere, hleads⟩, -⟩ := FileSystem.target_eq_name_iff.mp ht
  obtain ⟨hslash, hnames, ⟨hflaw, here', hhere', hleads'⟩, hnode⟩ :=
    FileSystem.target_eq_name_iff.mp ht'
  have hstart : (fs.remove m).start dst = .ok here' := by
    rw [FileSystem.start] at hhere' ⊢
    rwa [hadds.cwd] at hhere'
  cases hhere.symm.trans (FileSystem.sameStarts_remove fs m dst here' hstart)
  have hempty := (FileSystem.find_eq_ok_iff.mp hplace).2
  refine ⟨m, slash', FileSystem.target_eq_name_iff.mpr
    ⟨hslash, hnames, ⟨hflaw, here, hstart, ?_⟩, (Option.map_eq_none_iff.mp hfree.entry).symm⟩⟩
  -- With the directory nothing goes that is on the way, since the second way does without it.
  refine hleads.meet (FileSystem.agree_of_addsDirs hempty hadds) (fun k e he he' => ?_) hleads'
  refine FileSystem.entryAt_remove_emptyDir hempty he ?_
  rintro rfl
  cases he'.symm.trans (Option.map_eq_none_iff.mpr hnode.symm)

/-! ### The way to the source -/

/-- What a last name stands for when a tree is removed by its path, it stood for before. -/
theorem target_of_removeTree (hgrows : FileSystem.Grows fs copy)
    (hfind : fs.find src false = .ok (l, .dir entries))
    (hremove : exec (removeTree src) copy = (.ok (), after)) :
    ∃ slash, fs.target src = .ok (.name ⟨l, some (.dir entries)⟩ slash) := by
  obtain ⟨_, hfindCopy, hentry⟩ := hgrows.find hfind
  obtain ⟨there, rfl⟩ := Node.entry_eq_dir.mp hentry
  have hclear := FileSystem.extends_clear (FileSystem.find_eq_ok_iff.mp hfindCopy).2
  have hstart := FileSystem.sameStarts_clear copy l src
  rw [exec_removeTree, hfindCopy] at hremove
  dsimp only at hremove
  rw [exec_call] at hremove
  cases hdir : (copy.clear l).removeDir src with
  | error r =>
    rw [hdir] at hremove
    cases hremove
  | ok left =>
    obtain ⟨x, slash, ht, rfl⟩ := FileSystem.removeDir_eq_ok hdir
    obtain ⟨_, hfindx, -⟩ := hclear.find hstart (FileSystem.find_of_target ht fun _ => rfl)
    obtain rfl : l = x := by
      cases hfindCopy.symm.trans hfindx
      rfl
    obtain ⟨hslash, hnames, ⟨hflaw, here, hhere, hleads⟩, -⟩ := FileSystem.target_eq_name_iff.mp ht
    obtain ⟨⟨-, here', hhere', hwalk⟩, hget⟩ := FileSystem.find_eq_ok_iff.mp hfind
    cases (hstart here hhere).symm.trans (hgrows.sameStarts src here' hhere')
    -- Both walks of the names go the same way in the copy.
    obtain ⟨end_, hnow⟩ : ∃ end_, Leads fs.entryAt false linkLimit here (Path.names src) end_ := by
      rw [FileSystem.steps] at hwalk
      split at hwalk
      · obtain ⟨_, _, hdirs, -⟩ := hwalk.of_concat
        exact hdirs.exists_unfollowed
      · rw [List.append_nil] at hwalk
        exact ⟨l, hwalk⟩
    obtain rfl : end_ = l :=
      (hnow.mono (fun m e he => ⟨e, hgrows.extends_ m e he, .refl e⟩) fun _ _ _ => rfl).unique
        (hleads.mono (fun m e he => ⟨e, hclear m e he, .refl e⟩) fun _ _ _ => rfl)
    exact ⟨slash, FileSystem.target_eq_name_iff.mpr
      ⟨hslash, hnames, ⟨hflaw, here, hhere', hnow⟩, hget.symm⟩⟩

/-- A directory that was copied, and could be removed by its path after that, has the
destination below it. -/
theorem below_of_copiedAside (hfs : fs.WellFormed) (hname : (Path.splitParent dst).2 ≠ ".")
    (hdst : fs.NamesFree dst d) (hcopied : CopiedAside src dst entries fs copy)
    (hremove : exec (removeTree src) copy = (.ok (), after)) :
    ∃ l, fs.find src false = .ok (l, .dir entries) ∧ l <+: d := by
  obtain ⟨slash, hdest⟩ := hdst
  obtain ⟨⟨e, hrefused⟩, ⟨l, hfind⟩, -, hcopy⟩ := hcopied
  refine ⟨l, hfind, ?_⟩
  have hget := (FileSystem.find_eq_ok_iff.mp hfind).2
  obtain ⟨slash', hsource⟩ :=
    target_of_removeTree (copyTree_creates hfs hname hcopy).1 hfind hremove
  -- Nothing else than this is in the way of the renaming.
  refine Decidable.byContradiction fun hout => ?_
  have hdiffer : l ≠ d := fun h => hout (h ▸ List.prefix_rfl)
  have hnot : l.isPrefixOf d = false :=
    Bool.eq_false_iff.mpr fun hp => hout (List.isPrefixOf_iff_prefix.mp hp)
  have hnot' : d.isPrefixOf l = false := Bool.eq_false_iff.mpr fun hp => by
    cases (Node.entryAt_below (FileSystem.free_of_target hdest).entry
      (List.isPrefixOf_iff_prefix.mp hp)).symm.trans (FileSystem.entryAt_of_get? hget)
  rw [FileSystem.rename, FileSystem.hasNul_of_target hsource, FileSystem.hasNul_of_target hdest,
    hsource, hdest] at hrefused
  simp [FileSystem.renameAt, FileSystem.isDirNode, hdiffer, hnot, hnot'] at hrefused

/-- Without the destination in the directory that the source leads to, a move that succeeds
is a renaming. -/
theorem rename_of_move (hfs : fs.WellFormed) (hremove : fs.removeDir dst = .ok freed)
    (hout : ∀ top entries d node, fs.find src = .ok (top, .dir entries) →
      fs.find dst false = .ok (d, node) → top <+: d → top = d)
    (hmove : exec (move src dst) freed = (.ok (), after)) : freed.rename src dst = .ok after := by
  have hfreed := hfs.removeDir hremove
  obtain ⟨d, rfl, hplace, hfree, hname⟩ := FileSystem.free_of_removeDir hremove
  rcases renamed_or_copied hfreed hfree hname hmove with hrename | ⟨copy, entries, hcopied, hleft⟩
  · exact hrename
  · obtain ⟨x, hdst⟩ := namesFree_of_copyTree hfreed hremove hname hcopied.copied
    obtain ⟨l, hfind, hbelow⟩ := below_of_copiedAside hfreed hname hdst hcopied hleft
    obtain rfl : x = d := by
      obtain ⟨slash, ht⟩ := hdst
      obtain ⟨slash', hsame⟩ := hfree.target ht
      cases hsame
      rfl
    obtain ⟨node, hbefore, hentry⟩ := (FileSystem.extends_remove fs x).find
      (FileSystem.sameStarts_remove fs x src) (FileSystem.find_dir_iff.mp hfind).2
    obtain ⟨entries', rfl⟩ := Node.entry_eq_dir.mp hentry
    obtain rfl := hout l entries' x _ hbefore hplace hbelow
    cases hfree.entry.symm.trans
      (FileSystem.entryAt_of_get? (FileSystem.find_eq_ok_iff.mp hfind).2)

end FileOp

end MonitoredCompile

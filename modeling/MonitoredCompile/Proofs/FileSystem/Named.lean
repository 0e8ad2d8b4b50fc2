/-
MonitoredCompile/Proofs/FileSystem/Named.lean

What a path names, where a link at its end is not followed.  Moving something to a free
name makes the name stand for what was moved: a file or a link is renamed, a directory may
be copied instead, and then it is a directory that has come of it (`named_of_move`).
Removing a file by its name always succeeds if something is there, and so does removing a
tree, but a tree is only removed where the name is that of a directory
(`named_of_removeTree`).
-/
import MonitoredCompile.Proofs.FileSystem.Exchange

namespace MonitoredCompile

open Attempt (exec exec_bind exec_get exec_bind_eq_ok)

/-- A path that does not end in a slash has a last name. -/
theorem Path.names_ne_nil {path : String} (hpath : path ≠ "") (hslash : endsInSlash path = false) :
    names path ≠ [] := by
  have hlast : (split path).2 ≠ "" := by
    intro hnil
    rw [split, String.ofList_eq_empty_iff, List.reverse_eq_nil_iff] at hnil
    rcases List.eq_nil_or_concat path.toList with hempty | ⟨init, c, hconcat⟩
    · exact hpath (String.toList_eq_nil_iff.mp hempty)
    · rw [List.concat_eq_append] at hconcat
      rw [hconcat, List.reverse_append, List.reverse_singleton, List.singleton_append,
        List.takeWhile_cons] at hnil
      split at hnil
      · cases hnil
      · next hc =>
        rw [endsInSlash, hconcat, List.getLast?_append] at hslash
        simp_all
  rw [names_split, names_piece (isPiece_split hlast)]
  simp

namespace FileSystem

variable {fs fs' after : FileSystem} {path src dir n c : String} {l d p : Location} {e : Entry}

/-! ### Names -/

/-- What a path names. -/
def named (fs : FileSystem) (path : String) : Option Entry :=
  (fs.find path false).toOption.map fun found => found.2.entry

theorem named_eq_some_iff :
    fs.named path = some e ↔ ∃ l node, fs.find path false = .ok (l, node) ∧ node.entry = e := by
  rw [named]
  cases fs.find path false with
  | error r => simp [Except.toOption]
  | ok found =>
    obtain ⟨l, node⟩ := found
    refine ⟨fun h => ⟨l, node, rfl, Option.some.inj h⟩, ?_⟩
    rintro ⟨_, _, hfind, rfl⟩
    cases hfind
    rfl

theorem named_of_find {node : Node} (h : fs.find path false = .ok (l, node)) :
    fs.named path = some node.entry :=
  named_eq_some_iff.mpr ⟨l, node, h, rfl⟩

theorem Extends.named (hext : Extends fs fs') (hstart : SameStarts fs fs' path)
    (h : fs.named path = some e) : fs'.named path = some e := by
  obtain ⟨l, node, hfind, rfl⟩ := named_eq_some_iff.mp h
  obtain ⟨node', hfind', hentry⟩ := hext.find hstart hfind
  rw [named_of_find hfind', hentry]

/-- What a path leads to and what it names are both directories, or neither is. -/
theorem named_of_find_follow {node : Node} (h : fs.find path = .ok (l, node))
    (hnode : node.entry ≠ .dir) : ∃ e, fs.named path = some e ∧ e ≠ .dir := by
  obtain ⟨l', node', h'⟩ := find_unfollowed h
  refine ⟨node'.entry, named_of_find h', fun hdir => hnode ?_⟩
  obtain ⟨entries, rfl⟩ := Node.entry_eq_dir.mp hdir
  rw [find_follow h' (by simp)] at h
  cases h
  rfl

/-! ### What is kept of a name -/

/-- The path still names what it named, up to what a file holds, or still nothing. -/
def SameKind (path : String) (fs fs' : FileSystem) : Prop :=
  Option.Rel Entry.Alike (fs.named path) (fs'.named path)

namespace SameKind

theorem refl (path : String) (fs : FileSystem) : SameKind path fs fs := by
  rw [SameKind]
  cases fs.named path with
  | none => exact .none
  | some e => exact .some (.refl e)

theorem trans {a b c : FileSystem} (hab : SameKind path a b) (hbc : SameKind path b c) :
    SameKind path a c := by
  rw [SameKind] at *
  generalize a.named path = x at *
  generalize b.named path = y at *
  generalize c.named path = z at *
  cases hab with
  | none =>
    cases hbc
    exact .none
  | some hab =>
    cases hbc with
    | some hbc => exact .some (hab.trans hbc)

theorem symm (h : SameKind path fs fs') : SameKind path fs' fs := by
  rw [SameKind] at *
  generalize fs.named path = x at *
  generalize fs'.named path = y at *
  cases h with
  | none => exact .none
  | some halike => exact .some halike.symm

theorem exists_of_some (h : SameKind path fs fs') (he : fs.named path = some e) :
    ∃ e', fs'.named path = some e' ∧ Entry.Alike e e' := by
  rw [SameKind, he] at h
  generalize fs'.named path = y at *
  cases h with
  | some halike => exact ⟨_, rfl, halike⟩

end SameKind

/-- In trees of the same shape every path names the same kind of thing. -/
theorem SameShape.sameKind (h : SameShape fs.root fs'.root) (hcwd : fs'.cwd = fs.cwd)
    (path : String) : SameKind path fs fs' := by
  rw [SameKind, named, named, h.find_eq hcwd]
  cases hfind : fs.find path false with
  | error r => exact .none
  | ok found =>
    obtain ⟨m, node⟩ := found
    obtain ⟨node', hget', halike⟩ := h.get?_eq_some (find_eq_ok_iff.mp hfind).2
    dsimp only
    rw [show fs'.get? m = some node' from hget']
    exact .some halike

/-! ### Calls about a name -/

/-- What is no directory is named by a last name. -/
theorem target_of_find {node : Node} (h : fs.find path false = .ok (l, node))
    (hnode : ∀ entries, node ≠ .dir entries) : fs.target path = .ok (.name ⟨l, some node⟩ false) := by
  have hslash : Path.endsInSlash path = false := Bool.eq_false_iff.mpr fun hslash => by
    have hdir := dir_of_find_slash h hslash
    cases node with
    | dir entries => exact hnode entries rfl
    | file | link | device => cases hdir
  obtain ⟨⟨hflaw, here, hhere, hleads⟩, hget⟩ := find_eq_ok_iff.mp h
  rw [steps, hslash, if_neg Bool.false_ne_true, List.append_nil] at hleads
  have hnodir : fs.entryAt l ≠ some .dir := by
    rw [entryAt_of_get? hget]
    intro hdir
    obtain ⟨entries, rfl⟩ := Node.entry_eq_dir.mp (Option.some.inj hdir)
    exact hnode entries rfl
  refine target_eq_name_iff.mpr ⟨hslash.symm, ?_, ⟨hflaw, here, hhere, hleads⟩, hget.symm⟩
  obtain ⟨init, last, hnames⟩ := (List.eq_nil_or_concat (Path.names path)).resolve_left
    (Path.names_ne_nil (ne_empty_of_flaw?_eq_none hflaw) hslash)
  rw [List.concat_eq_append] at hnames
  rw [hnames] at hleads
  -- A dot or two at the end lead to directories only.
  obtain ⟨m, links, -, hm, hlast⟩ := hleads.of_concat
  refine ⟨init, last, hnames, ?_, ?_⟩
  · rintro rfl
    cases hlast.of_stay
    exact hnodir hm
  · rintro rfl
    cases hlast.of_up
    exact hnodir (entryAt_dropLast hm)

/-- What the path of a name in a directory leads to is what the name stands for. -/
theorem target_of_find_join {node : Node} (hn : IsName n)
    (h : fs.find (Path.join dir n) false = .ok (l, node)) :
    fs.target (Path.join dir n) = .ok (.name ⟨l, some node⟩ false) := by
  have hpiece : Path.IsPiece n := ⟨hn.ne_empty, hn.no_slash⟩
  obtain ⟨⟨hflaw, here, hhere, hleads⟩, hget⟩ := find_eq_ok_iff.mp h
  rw [steps_join hn] at hleads
  refine target_eq_name_iff.mpr ⟨(Path.endsInSlash_join hpiece).symm, ⟨_, n, Path.names_join hpiece,
    hn.ne_here, hn.ne_above⟩, ⟨hflaw, here, hhere, ?_⟩, hget.symm⟩
  rw [Path.names_join hpiece]
  exact hleads

/-- A walk goes on without following a link at its end. -/
theorem Leads.exists_unfollowed {look : Location → Option Entry} {links : Nat}
    {here there : Location} {names : List String} (h : Leads look true links here names there) :
    ∃ there', Leads look false links here names there' := by
  induction h with
  | here hl => exact ⟨_, .here hl⟩
  | stay hl _ ih => exact ih.imp fun _ hwalk => .stay hl hwalk
  | up hl _ ih => exact ih.imp fun _ hwalk => .up hl hwalk
  | last hl hstep _ => exact ⟨_, .last hl hstep fun _ _ => rfl⟩
  | down hl hstep hlook hlink hrest _ ih =>
    exact ih.imp fun _ hwalk => .down hl hstep hlook hlink hrest hwalk
  | @jump links here name target rest there hl hstep hlook _ _ ih =>
    by_cases hrest : rest = []
    · subst hrest
      exact ⟨_, .last hl hstep fun _ _ => rfl⟩
    · exact ih.imp fun _ hwalk => .jump hl hstep hlook (fun h => absurd h hrest) hwalk

/-- A free name that can be walked names the free place. -/
theorem Free.namesFree {follow : Bool} {t : Target} (hfree : fs.Free path l)
    (ht : fs.target path follow = .ok t) : fs.NamesFree path l := by
  obtain ⟨slash, rfl⟩ := hfree.target ht
  obtain ⟨hslash, hnames, ⟨hflaw, here, hhere, hleads⟩, -⟩ := target_eq_name_iff.mp ht
  obtain ⟨there, hwalk⟩ : ∃ there, Leads fs.entryAt false linkLimit here (Path.names path) there := by
    cases hfollow : follow && !slash with
    | false => exact ⟨l, hfollow ▸ hleads⟩
    | true =>
      rw [hfollow] at hleads
      exact hleads.exists_unfollowed
  have hplain : fs.target path = .ok (.name ⟨there, fs.get? there⟩ slash) :=
    target_eq_name_iff.mpr ⟨hslash, hnames, ⟨hflaw, here, hhere, hwalk⟩, rfl⟩
  obtain ⟨slash', hsame⟩ := hfree.target hplain
  exact ⟨slash', hsame ▸ hplain⟩

/-- Renaming what is no directory to a free name is never refused. -/
theorem rename_of_namesFree {node : Node} (hdst : fs.NamesFree path d)
    (hslash : Path.endsInSlash path = false) (hfind : fs.find src false = .ok (l, node))
    (hnode : ∀ entries, node ≠ .dir entries) : fs.rename src path = .ok (fs.relocate l d) := by
  obtain ⟨slash, ht⟩ := hdst
  obtain rfl : slash = false := (target_eq_name_iff.mp ht).1.trans hslash
  have hsource := target_of_find hfind hnode
  have hget := (find_eq_ok_iff.mp hfind).2
  have hentry := entryAt_of_get? hget
  have hfree : fs.entryAt d = none := (free_of_target ht).entry
  obtain ⟨q, name, rfl, hq⟩ := NamesFree.parent ⟨false, ht⟩
  have hnodir : fs.entryAt l ≠ some .dir := by
    rw [hentry]
    intro hdir
    obtain ⟨entries, rfl⟩ := Node.entry_eq_dir.mp (Option.some.inj hdir)
    exact hnode entries rfl
  have hdiffer : l ≠ q ++ [name] := by
    rintro rfl
    cases hfree.symm.trans hentry
  have hout : l.isPrefixOf (q ++ [name]) = false := Bool.eq_false_iff.mpr fun hp => by
    rcases List.prefix_concat_iff.mp (List.isPrefixOf_iff_prefix.mp hp) with h | h
    · exact hdiffer h
    · exact not_prefix_of_dir hnodir hq h
  have hout' : (q ++ [name]).isPrefixOf l = false := Bool.eq_false_iff.mpr fun hp =>
    not_prefix_of_free hfree hentry (List.isPrefixOf_iff_prefix.mp hp)
  rw [rename, hasNul_of_target hsource, hasNul_of_target ht, hsource, ht]
  simp [renameAt, hdiffer, hout, hout']

/-- What a name in a directory stands for is what the path names. -/
theorem find_of_target {node : Node} {slash : Bool}
    (ht : fs.target path = .ok (.name ⟨l, some node⟩ slash))
    (hkind : slash = true → isDirNode node = true) : fs.find path false = .ok (l, node) := by
  obtain ⟨hslash, -, ⟨hflaw, here, hhere, hleads⟩, hnode⟩ := target_eq_name_iff.mp ht
  rw [Bool.false_and] at hleads
  refine find_eq_ok_iff.mpr ⟨⟨hflaw, here, hhere, ?_⟩, hnode.symm⟩
  rw [steps, ← hslash]
  split
  · next hdir =>
    have hentry : fs.entryAt l = some .dir := by
      rw [entryAt_of_get? hnode.symm]
      cases node with
      | dir entries => rfl
      | file | link | device => cases hkind hdir
    have hfollows := hleads.follows fun target htarget => by cases hentry.symm.trans htarget
    exact hfollows.append (by simp) hentry fun _ => .stay hentry (.here hentry)
  · rwa [List.append_nil]

/-- What is renamed to a free name has taken its place. -/
theorem relocated_of_rename (hfree : fs.Free path d) (h : fs.rename src path = .ok after) :
    fs.NamesFree path d ∧ ∃ l node slash, fs.target src = .ok (.name ⟨l, some node⟩ slash) ∧
      fs.find src false = .ok (l, node) ∧ ¬ l <+: d ∧ after = fs.relocate l d := by
  rw [rename] at h
  split at h
  · cases h
  split at h
  · cases h
  · cases h
  · next source slash dest slash' hsource hdest =>
    obtain ⟨_, htarget⟩ := hfree.target hdest
    cases htarget
    obtain ⟨l, none | node⟩ := source
    · cases h
    dsimp only at h
    split at h
    · cases h
    next hkind =>
    have hfind := find_of_target hsource fun hslash => by
      cases hdir : isDirNode node with
      | true => rfl
      | false => exact absurd (by rw [hdir, hslash]; rfl) hkind
    have hnone : l ≠ d := by
      rintro rfl
      cases hfree.entry.symm.trans (entryAt_of_get? (find_eq_ok_iff.mp hfind).2)
    unfold renameAt at h
    split at h
    · next hsame => exact absurd hsame hnone
    split at h
    · cases h
    next hbelow =>
    split at h
    · cases h
    · cases h
      exact ⟨⟨_, hdest⟩, l, node, slash, hsource, hfind, fun hp => hbelow (List.isPrefixOf_iff_prefix.mpr hp), rfl⟩
  · cases h

end FileSystem

namespace FileOp

open FileSystem (IsStep Leads flaw? linkLimit named_of_find)

variable {fs fs' freed copy after : FileSystem} {path src dst dir n c : String} {l d p : Location}

/-- What a move to a free name that succeeds has not renamed, it has copied as a tree. -/
theorem renamed_or_copied (hfs : fs.WellFormed) (hfree : fs.Free dst d)
    (hname : (Path.splitParent dst).2 ≠ ".") (h : exec (move src dst) fs = (.ok (), after)) :
    fs.rename src dst = .ok after ∨ ∃ copy entries, CopiedAside src dst entries fs copy ∧
      exec (removeTree src) copy = (.ok (), after) := by
  have hno {l : Location} {node : Node} {e : Errno} (hrefused : fs.rename src dst = .error (.system e))
      (hfind : fs.find src false = .ok (l, node)) (hnode : ∀ entries, node ≠ .dir entries)
      {follow : Bool} {place : Place} :
      fs.target dst follow ≠ .ok (.name place false) := by
    intro ht
    have hslash := (FileSystem.target_eq_name_iff.mp ht).1.symm
    cases hrefused.symm.trans
      (FileSystem.rename_of_namesFree (hfree.namesFree ht) hslash hfind hnode)
  have hmove := h
  rw [exec_move] at h
  cases hrename : fs.rename src dst with
  | ok renamed =>
    rw [hrename] at h
    cases h
    exact .inl rfl
  | error refusal =>
    rw [hrename] at h
    cases refusal with
    | nul => cases h
    | system e =>
      refine .inr ?_
      dsimp only at h
      rw [moveByCopy, exec_bind, exec_get] at h
      dsimp only at h
      split at h
      · obtain ⟨target, fs₁, hread, h⟩ := exec_bind_eq_ok.mp h
        obtain ⟨⟨⟩, made, hlink, -⟩ := exec_bind_eq_ok.mp h
        rw [exec_ask] at hread
        cases hlinked : fs.readLink src with
        | error r =>
          rw [hlinked] at hread
          cases hread
        | ok target' =>
          rw [hlinked] at hread
          cases hread
          obtain ⟨m, hfind⟩ := find_of_readLink hlinked
          obtain ⟨p, ht⟩ := target_of_makeLink hlink
          exact absurd ht (hno hrename hfind (by simp))
      · next hlink =>
        split at h
        · next hdir =>
          obtain ⟨l, entries, hfind⟩ := find_of_isDir (Bool.eq_false_iff.mpr hlink) hdir
          cases moved_tree hfs hname hrename hfind hmove with
          | renamed hrenamed => cases hrename.symm.trans hrenamed
          | replaced hfind' hnode =>
            cases hfind.symm.trans hfind'
            exact absurd rfl (hnode entries)
          | copied hcopied hremove => exact ⟨_, _, hcopied, hremove⟩
        · next hdir =>
          obtain ⟨⟨⟩, made, hcopy, -⟩ := exec_bind_eq_ok.mp h
          obtain ⟨l, node, hfind, hnode⟩ :=
            find_of_copyFile (Bool.eq_false_iff.mpr hlink) (Bool.eq_false_iff.mpr hdir) hcopy
          exact absurd (target_of_copyFile hfree hcopy) (hno hrename hfind hnode)

/-- A copy of a tree is a directory under its name, where nothing was. -/
theorem find_of_copyTreeWithin (depth : Nat) (hfs : fs.WellFormed)
    (hname : (Path.splitParent dst).2 ≠ ".") (hslash : Path.endsInSlash dst = false)
    (h : exec (copyTreeWithin true (depth + 1) src dst) fs = (.ok (), copy)) :
    ∃ l entries, fs.entryAt l = none ∧ copy.find dst false = .ok (l, .dir entries) := by
  obtain ⟨names, made, hlist, hmake, hpass⟩ := copyTreeWithin_eq_ok h
  obtain ⟨mid, hadds, hmid, hleaf⟩ := makeNewDirs_eq_ok hfs hname hmake
  obtain ⟨l, hfree⟩ := FileSystem.free_of_create hleaf
  obtain ⟨-, hdir, hempty⟩ := hfree.makeDir hleaf
  obtain ⟨hnames, hnodup⟩ := of_listDir hfs hlist
  have hgrows : FileSystem.Grows made copy := by
    have hpassed := (copyEntries_confined (confined_copyTreeWithin depth)
      (sound_copyTreeWithin true depth) src (hmid.makeDir hleaf) hdir hnames hnodup
      fun n _ => FileSystem.entryAt_below_emptyDir hempty).2
    rwa [hpass] at hpassed
  obtain ⟨m, hnone, hfind⟩ := FileSystem.find_of_create hslash hleaf
  obtain ⟨node, hfind', hentry⟩ := hgrows.find hfind
  obtain ⟨entries, rfl⟩ := Node.entry_eq_dir.mp hentry
  refine ⟨m, entries, Option.eq_none_iff_forall_ne_some.mpr fun e he => ?_, hfind'⟩
  cases hnone.symm.trans (hadds.extends_ m e he)

/-- A tree that was removed is gone with its directory. -/
theorem removeTree_eq_ok (h : exec (removeTree path) fs = (.ok (), after)) :
    ∃ l entries, fs.find path false = .ok (l, .dir entries) ∧ l ≠ [] ∧
      after = (fs.clear l).remove l := by
  rw [exec_removeTree] at h
  split at h
  · cases h
  · next l entries hfind =>
    rw [exec_call] at h
    cases hremove : (fs.clear l).removeDir path with
    | error r =>
      rw [hremove] at h
      cases h
    | ok removed =>
      rw [hremove] at h
      cases h
      obtain ⟨-, hne, rfl⟩ := FileSystem.removeDir_clear_eq_ok hfind hremove
      exact ⟨l, entries, hfind, hne, rfl⟩
  · cases h

/-- Removing a tree gives no name to anything. -/
theorem named_removeTree_none {other : String} (hnone : fs.named other = none) :
    (exec (removeTree path) fs).2.named other = none := by
  have hless {less : FileSystem} (hext : FileSystem.Extends less fs)
      (hstart : FileSystem.SameStarts less fs other) :
      less.named other = none :=
    Option.eq_none_iff_forall_ne_some.mpr fun _ he => by
      cases hnone.symm.trans (hext.named hstart he)
  rw [exec_removeTree]
  split
  · exact hnone
  · next l entries hfind =>
    have hclear := FileSystem.extends_clear (FileSystem.find_eq_ok_iff.mp hfind).2
    have hcleared := FileSystem.sameStarts_clear fs l other
    rw [exec_call]
    split
    · next removed hremove =>
      obtain ⟨x, rfl, -⟩ := FileSystem.free_of_removeDir hremove
      exact hless ((FileSystem.extends_remove _ _).trans hclear) fun here hhere =>
        hcleared here (FileSystem.sameStarts_remove _ x _ here hhere)
    · exact hless hclear hcleared
  · exact hnone

section

variable (hn : IsName n) (habs : Path.isAbsolute dir = true)
  (hway : Leads after.entryAt true linkLimit [] (Path.names dir) p)
  (hp : after.entryAt p = some .dir)
include hn habs hway hp

/-- What stands in a directory under a name is what its path names. -/
theorem named_join {e : Entry} (hflaw : flaw? (Path.join dir n) = none) (hstep : IsStep n)
    (he : after.entryAt (p ++ [n]) = some e) : after.named (Path.join dir n) = some e := by
  obtain ⟨node, hget, rfl⟩ := Option.map_eq_some_iff.mp he
  exact named_of_find ((FileSystem.find_join_iff hn habs).mpr
    ⟨⟨hflaw, hstep⟩, hget, p, rfl, hway, hp⟩)

/-- After a renaming to a free name in a directory that is still there, the name stands for
what was renamed. -/
theorem named_of_rename (hfree : fs.Free (Path.join dir n) d)
    (hrename : fs.rename src (Path.join dir n) = .ok after) :
    ∃ e, fs.named src = some e ∧ after.named (Path.join dir n) = some e := by
  obtain ⟨hdst, l, node, -, -, hfind, hout, rfl⟩ := FileSystem.relocated_of_rename hfree hrename
  obtain ⟨-, union, hunion, hunion'⟩ := FileSystem.rename_eq_ok hfree hrename
  obtain ⟨q, rfl, hq, hstep, hwalk⟩ := FileSystem.finds_join hn habs hdst.finds
  -- The directory of the name is where it was.
  obtain rfl : q = p := hwalk.unique_of_agree
    (fun m e e' he he' => Option.some.inj ((hunion m e he).symm.trans (hunion' m e' he'))) hway
    (fun hnone => by cases hq.symm.trans hnone) fun hnone => by cases hp.symm.trans hnone
  have hget := (FileSystem.find_eq_ok_iff.mp hfind).2
  have hmoved : (fs.relocate l (q ++ [n])).entryAt (q ++ [n] ++ []) = fs.entryAt (l ++ []) :=
    FileSystem.entryAt_relocate_below hget hq fun hbelow =>
      hout (hbelow.trans (List.prefix_append q [n]))
  rw [List.append_nil, List.append_nil, FileSystem.entryAt_of_get? hget] at hmoved
  exact ⟨node.entry, named_of_find hfind, named_join hn habs hway hp hdst.finds.1 hstep hmoved⟩

/-- After a tree was copied to a free name and removed, the name stands for a directory, and
so did the path that was copied. -/
theorem named_of_copiedAside {entries : List (String × Node)} (hfs : fs.WellFormed)
    (hcopied : CopiedAside src (Path.join dir n) entries fs copy)
    (hremove : exec (removeTree src) copy = (.ok (), after)) :
    ∃ e, fs.named src = some e ∧ after.named (Path.join dir n) = some e := by
  have hpiece : Path.IsPiece n := ⟨hn.ne_empty, hn.no_slash⟩
  have hnames : Path.names (Path.join dir n) = Path.names dir ++ [n] := Path.names_join hpiece
  have hname := Path.splitParent_ne_here hnames hn.ne_here
  obtain ⟨top, hfind⟩ := hcopied.directory
  obtain ⟨m, there, hnone, hcopy⟩ :=
    find_of_copyTreeWithin _ hfs hname (Path.endsInSlash_join hpiece) hcopied.copied
  obtain ⟨top', held, hfound, htop, rfl⟩ := removeTree_eq_ok hremove
  obtain ⟨_, hfind', -⟩ := (copyTree_creates hfs hname hcopied.copied).1.find hfind
  cases hfound.symm.trans hfind'
  obtain ⟨⟨hflaw, hstep⟩, hget, q, rfl, hwalk, hq⟩ := (FileSystem.find_join_iff hn habs).mp hcopy
  have hless : FileSystem.Extends ((copy.clear top).remove top) copy :=
    (FileSystem.extends_remove _ _).trans
      (FileSystem.extends_clear (FileSystem.find_eq_ok_iff.mp hfound).2)
  -- The directory of the name is where it was.
  obtain rfl : q = p := hwalk.unique_of_agree
    (fun m e e' he he' => Option.some.inj (he.symm.trans (hless m e' he'))) hway
    (fun hnone => by cases hq.symm.trans hnone) fun hnone => by cases hp.symm.trans hnone
  -- The copy is not in the tree that was removed, since its directory is still there.
  have hout : ¬ top <+: q ++ [n] := by
    rw [List.prefix_concat_iff]
    rintro (rfl | hbelow)
    · cases hnone.symm.trans (FileSystem.entryAt_of_get? (FileSystem.find_eq_ok_iff.mp hfind).2)
    · cases (FileSystem.entryAt_remove_below htop hbelow).symm.trans hp
  refine ⟨.dir, named_of_find hfind, named_join hn habs hway hp hflaw hstep ?_⟩
  rw [FileSystem.entryAt_remove hout, FileSystem.entryAt_clear hout, FileSystem.entryAt_of_get? hget]
  rfl

/-- After a move to a free name in a directory that is still there, the name stands for what
was moved. -/
theorem named_of_move (hfs : fs.WellFormed) (hfree : fs.Free (Path.join dir n) d)
    (h : exec (move src (Path.join dir n)) fs = (.ok (), after)) :
    ∃ e, fs.named src = some e ∧ after.named (Path.join dir n) = some e := by
  have hpiece : Path.IsPiece n := ⟨hn.ne_empty, hn.no_slash⟩
  have hnames : Path.names (Path.join dir n) = Path.names dir ++ [n] := Path.names_join hpiece
  rcases renamed_or_copied hfs hfree (Path.splitParent_ne_here hnames hn.ne_here) h with hrename | ⟨copy, entries, hcopied, hremove⟩
  · exact named_of_rename hn habs hway hp hfree hrename
  · exact named_of_copiedAside hn habs hway hp hfs hcopied hremove

end

end FileOp

/-! ### Removing what is named -/

section

variable {fs after : FileSystem} {dir n c : String} {l q : Location} {e : Entry}
variable (hn : IsName n) (habs : Path.isAbsolute dir = true)
include hn habs

namespace FileSystem

/-- When what is named has been removed, the path names nothing. -/
theorem named_remove_self {node : Node} (h : fs.find (Path.join dir n) false = .ok (l, node)) :
    (fs.remove l).named (Path.join dir n) = none := by
  obtain ⟨-, -, q, rfl, -, -⟩ := (find_join_iff hn habs).mp h
  refine Option.eq_none_iff_forall_ne_some.mpr fun e he => ?_
  obtain ⟨m, node', hfind', -⟩ := named_eq_some_iff.mp he
  obtain ⟨_, hfind, -⟩ := (extends_remove fs _).find (sameStarts_remove fs _ _) hfind'
  cases h.symm.trans hfind
  have hentry := entryAt_of_get? (find_eq_ok_iff.mp hfind').2
  rw [entryAt_remove_below (by simp) List.prefix_rfl] at hentry
  cases hentry

/-- What is removed takes no other name along, unless it was a directory or a link. -/
theorem named_remove_plain {node : Node} (hc : IsName c) (hdiffer : c ≠ n)
    (hfind : fs.find (Path.join dir c) false = .ok (l, node)) (hplain : node.entry.Plain)
    (hnamed : fs.named (Path.join dir n) = some e) :
    (fs.remove l).named (Path.join dir n) = some e := by
  obtain ⟨m, node', hfind', rfl⟩ := named_eq_some_iff.mp hnamed
  obtain ⟨hwritten, hget, q, rfl, hwalk, hq⟩ := (find_join_iff hn habs).mp hfind'
  obtain ⟨-, hgetc, q', rfl, hwalk', -⟩ := (find_join_iff hc habs).mp hfind
  obtain rfl : q' = q := hwalk'.unique hwalk
  have hentry := entryAt_of_get? hgetc
  have hroads : Roads fs (fs.remove (q' ++ [c])) :=
    Roads.remove ⟨fun _ h => h, fun _ _ h => h⟩ fun e he =>
      Option.some.inj (hentry.symm.trans he) ▸ hplain
  have hout : ¬ q' ++ [c] <+: q' ++ [n] := by
    rw [List.prefix_append_right_inj, List.cons_prefix_cons]
    exact fun h => hdiffer h.1
  have hkept : (fs.remove (q' ++ [c])).entryAt (q' ++ [n]) = some node'.entry :=
    (entryAt_remove hout).trans (entryAt_of_get? hget)
  obtain ⟨there, hget', hthere⟩ := Option.map_eq_some_iff.mp hkept
  rw [← hthere]
  refine named_of_find ((find_join_iff hn habs).mpr ⟨hwritten, hget', q', rfl, ?_, hroads.dirs _ hq⟩)
  exact hwalk.along hroads.dirs hroads.links (fun _ _ => ⟨.dir, hroads.dirs _ hq⟩)
    fun target htarget => by cases (hroads.dirs _ hq).symm.trans htarget

end FileSystem

namespace FileOp

/-- Removing a tree by its name: a directory is gone after that, and what is no directory is
still there. -/
theorem named_of_removeTree (hnamed : fs.named (Path.join dir n) = some e) :
    (e = .dir → (exec (removeTree (Path.join dir n)) fs).2.named (Path.join dir n) = none) ∧
      (e ≠ .dir → (exec (removeTree (Path.join dir n)) fs).2 = fs) := by
  obtain ⟨l, node, hfind, rfl⟩ := FileSystem.named_eq_some_iff.mp hnamed
  refine ⟨fun hdir => ?_, fun hdir => ?_⟩
  · obtain ⟨entries, rfl⟩ := Node.entry_eq_dir.mp hdir
    have hget := (FileSystem.find_eq_ok_iff.mp hfind).2
    rw [exec_removeTree, hfind]
    dsimp only
    rw [exec_call]
    cases hremove : (fs.clear l).removeDir (Path.join dir n) with
    | ok removed =>
      obtain ⟨x, rfl, hfindx, -, -⟩ := FileSystem.free_of_removeDir hremove
      exact FileSystem.named_remove_self hn habs hfindx
    | error r =>
      -- If the name still stood for the empty directory, then this could be removed.
      refine Option.eq_none_iff_forall_ne_some.mpr fun e he => ?_
      obtain ⟨m, node, hfind', -⟩ := FileSystem.named_eq_some_iff.mp he
      obtain ⟨_, hfindBefore, -⟩ := (FileSystem.extends_clear hget).find
        (FileSystem.sameStarts_clear fs l _) hfind'
      cases hfind.symm.trans hfindBefore
      have hempty : (fs.clear l).get? l = some (.dir []) := FileSystem.get?_place hget (.dir [])
      obtain rfl := Option.some.inj ((FileSystem.find_eq_ok_iff.mp hfind').2.symm.trans hempty)
      rw [FileSystem.removeDir, FileSystem.target_of_find_join hn hfind'] at hremove
      cases hremove
  · rw [exec_removeTree, hfind]
    cases node with
    | dir entries => exact absurd rfl hdir
    | file | link | device => rfl

end FileOp

end

end MonitoredCompile

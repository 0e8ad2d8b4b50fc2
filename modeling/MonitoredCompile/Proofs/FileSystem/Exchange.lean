/-
MonitoredCompile/Proofs/FileSystem/Exchange.lean

One directory moved aside and another put in its place.  The two places are `Independent`
if the path of each names it also when nothing stands at either.  Then a move from the one
to the other is a renaming, and all that it does is to take the tree along
(`Independent.rename`, `Independent.shows_iff`).
-/
import MonitoredCompile.Proofs.FileSystem.Contents
import MonitoredCompile.Proofs.FileSystem.Transit

namespace MonitoredCompile

open Attempt (exec exec_bind)

namespace FileSystem

variable {fs fs' after : FileSystem} {path src dst : String} {top d l m k : Location} {node : Node}

/-! ### Free places -/

/-- The path names a place where nothing stands. -/
def NamesFree (fs : FileSystem) (path : String) (l : Location) : Prop :=
  ∃ slash, fs.target path = .ok (.name ⟨l, none⟩ slash)

theorem NamesFree.entry (h : fs.NamesFree path l) : fs.entryAt l = none := by
  obtain ⟨slash, ht⟩ := h
  exact (free_of_target ht).entry

theorem NamesFree.finds (h : fs.NamesFree path l) : fs.Finds path false (Path.names path) l := by
  obtain ⟨slash, ht⟩ := h
  exact (target_eq_name_iff.mp ht).2.2.1

theorem NamesFree.parent (h : fs.NamesFree path l) :
    ∃ p name, l = p ++ [name] ∧ fs.entryAt p = some .dir := by
  obtain ⟨slash, ht⟩ := h
  obtain ⟨-, -, ⟨-, here, -, hleads⟩, -⟩ := target_eq_name_iff.mp ht
  exact hleads.parent (free_of_target ht).entry

theorem NamesFree.target (h : fs.NamesFree path l) (hroads : Roads fs fs')
    (hstart : SameStarts fs fs' path) :
    fs'.target path = .ok (.name ⟨l, fs'.get? l⟩ (Path.endsInSlash path)) := by
  obtain ⟨slash, ht⟩ := h
  obtain rfl := (target_eq_name_iff.mp ht).1
  exact hroads.target hstart ht

/-- What stands there can be removed. -/
theorem NamesFree.entryAt_remove (h : fs.NamesFree path l) (fs' : FileSystem) :
    (fs'.remove l).entryAt l = none := by
  obtain ⟨p, name, rfl, -⟩ := h.parent
  exact entryAt_remove_below (by simp) List.prefix_rfl

/-- Where nothing stands still, the path names a free place still. -/
theorem NamesFree.along (h : fs.NamesFree path l) (hroads : Roads fs fs')
    (hstart : SameStarts fs fs' path) (hfree : fs'.entryAt l = none) : fs'.NamesFree path l := by
  have hnone : fs'.get? l = none := Option.map_eq_none_iff.mp hfree
  have ht := h.target hroads hstart
  rw [hnone] at ht
  exact ⟨_, ht⟩

theorem hasNul_of_target {place : Place} {slash : Bool}
    (ht : fs.target path = .ok (.name place slash)) : Path.hasNul path = false := by
  obtain ⟨-, -, ⟨hflaw, -⟩, -⟩ := target_eq_name_iff.mp ht
  exact (flaw?_eq_none_iff.mp hflaw).1

/-- Nothing that is there is below a place where nothing stands. -/
theorem not_prefix_of_free {e : Entry} (hfree : fs.entryAt l = none) (hm : fs.entryAt m = some e) :
    ¬ l <+: m := by
  intro hp
  cases (show fs.entryAt m = none from Node.entryAt_below hfree hp).symm.trans hm

/-- No directory is at or below what is none. -/
theorem not_prefix_of_dir (hl : fs.entryAt l ≠ some .dir) (hm : fs.entryAt m = some .dir) :
    ¬ l <+: m := by
  rintro ⟨k, rfl⟩
  cases k with
  | nil =>
    rw [List.append_nil] at hm
    exact hl hm
  | cons name k =>
    exact hl (dir_of_below hm)

/-- Whoever is not in a tree stays where he is when it is moved. -/
theorem sameStarts_relocate (hget : fs.get? l = some node) (m : Location) (path : String) :
    SameStarts (fs.remove l) (fs.relocate l m) path := by
  refine sameStarts_of_cwd (fun here hhere => ?_) path
  obtain ⟨here', hcwd, hkept⟩ :=
    Option.bind_eq_some_iff.mp (show fs.cwd.bind (keptAfter l) = some here from hhere)
  rw [keptAfter] at hkept
  split at hkept
  · cases hkept
  · next hout =>
    cases hkept
    rw [relocate, hget]
    show fs.cwd.map (rebase l m) = some here
    rw [hcwd, Option.map_some, rebase, if_neg hout]

/-! ### Two places -/

/-- Two paths that name two places, each also when nothing stands at either. -/
structure Independent (fs : FileSystem) (src dst : String) (top d : Location) : Prop where
  differ : top ≠ d
  source : ((fs.remove d).remove top).NamesFree src top
  dest : ((fs.remove d).remove top).NamesFree dst d

namespace Independent

variable (h : Independent fs src dst top d)
include h

/-- Neither place is in the tree of the other. -/
theorem not_prefix : ¬ top <+: d ∧ ¬ d <+: top := by
  obtain ⟨p, name, htop, hp⟩ := h.source.parent
  obtain ⟨q, name', hd, hq⟩ := h.dest.parent
  have hout : ¬ top <+: q := not_prefix_of_free h.source.entry hq
  have hout' : ¬ d <+: p := not_prefix_of_free h.dest.entry hp
  constructor
  · intro hprefix
    rw [hd, List.prefix_concat_iff, ← hd] at hprefix
    exact hprefix.elim h.differ hout
  · intro hprefix
    rw [htop, List.prefix_concat_iff, ← htop] at hprefix
    exact hprefix.elim (fun heq => h.differ heq.symm) hout'

/-- So the tree of the one has nothing to do with the other. -/
theorem not_prefix_below (k : Location) : ¬ d <+: top ++ k := by
  intro hprefix
  rcases List.prefix_or_prefix_of_prefix hprefix (List.prefix_append top k) with hp | hp
  · exact h.not_prefix.2 hp
  · exact h.not_prefix.1 hp

theorem entryAt_freed (k : Location) : (fs.remove d).entryAt (top ++ k) = fs.entryAt (top ++ k) :=
  entryAt_remove (h.not_prefix_below k)

theorem target_freed : (fs.remove d).target src
    = .ok (.name ⟨top, (fs.remove d).get? top⟩ (Path.endsInSlash src)) :=
  h.source.target (extends_remove _ top).roads (sameStarts_remove _ top src)

theorem target_freed_dest : (fs.remove d).target dst
    = .ok (.name ⟨d, none⟩ (Path.endsInSlash dst)) := by
  have hfree : (fs.remove d).get? d = none :=
    Option.map_eq_none_iff.mp (h.dest.entryAt_remove fs)
  rw [h.dest.target (extends_remove _ top).roads (sameStarts_remove _ top dst), hfree]

/-- What stands at the one place can be renamed to the other. -/
theorem rename (hget : (fs.remove d).get? top = some node)
    (hnode : isDirNode node = true ∨ (Path.endsInSlash src || Path.endsInSlash dst) = false) :
    (fs.remove d).rename src dst = .ok ((fs.remove d).relocate top d) := by
  have hslash : (!isDirNode node && (Path.endsInSlash src || Path.endsInSlash dst)) = false := by
    rcases hnode with hdir | hslash
    · rw [hdir, Bool.not_true, Bool.false_and]
    · rw [hslash, Bool.and_false]
  have hin : top.isPrefixOf d = false :=
    Bool.eq_false_iff.mpr fun hp => h.not_prefix.1 (List.isPrefixOf_iff_prefix.mp hp)
  have hin' : d.isPrefixOf top = false :=
    Bool.eq_false_iff.mpr fun hp => h.not_prefix.2 (List.isPrefixOf_iff_prefix.mp hp)
  rw [FileSystem.rename, hasNul_of_target h.target_freed, hasNul_of_target h.target_freed_dest,
    h.target_freed, hget,
    h.target_freed_dest]
  simp only [Bool.or_self, Bool.false_eq_true, if_false, hslash, renameAt, h.differ, hin, hin']

/-! ### After the renaming -/

/-- The place of the old tree is free again. -/
theorem entryAt_relocated_source (hget : (fs.remove d).get? top = some node) :
    ((fs.remove d).relocate top d).entryAt top = none := by
  rw [relocate, hget]
  exact (entryAt_withNode h.not_prefix.2 (some node)).trans (h.source.entryAt_remove _)

/-- The tree stands at the other place as it stood at its own. -/
theorem entryAt_relocated_below (hget : (fs.remove d).get? top = some node) (k : Location) :
    ((fs.remove d).relocate top d).entryAt (d ++ k) = fs.entryAt (top ++ k) := by
  obtain ⟨p, name, rfl, hdir⟩ := h.dest.parent
  have hout : ¬ top <+: p := not_prefix_of_free h.source.entry hdir
  rw [entryAt_relocate_below hget (entryAt_of_remove hdir) hout, h.entryAt_freed]

/-- All else is where it was. -/
theorem extends_relocated : Extends ((fs.remove d).remove top) ((fs.remove d).relocate top d) := by
  intro m e he
  rw [entryAt_relocate (not_prefix_of_free h.source.entry he) (not_prefix_of_free h.dest.entry he)]
  exact entryAt_of_remove he

/-- The path of the old tree names its place, where nothing stands now. -/
theorem namesFree_source (hget : (fs.remove d).get? top = some node) :
    ((fs.remove d).relocate top d).NamesFree src top :=
  h.source.along h.extends_relocated.roads (sameStarts_relocate hget d src)
    (h.entryAt_relocated_source hget)

/-- The other path leads to the tree, and shows what its own path showed. -/
theorem shows_iff (hget : (fs.remove d).get? top = some node) (htop : fs.DirAt src top)
    (hfree : fs.LinkFree top) {names : List String} {bytes : Bytes} :
    ((fs.remove d).relocate top d).Shows dst names bytes ↔ fs.Shows src names bytes := by
  have hsame := h.entryAt_relocated_below hget
  have hd : ((fs.remove d).relocate top d).DirAt dst d := by
    refine dirAt_of_target (h.dest.target h.extends_relocated.roads (sameStarts_relocate hget d dst)) ?_
    have hdir := hsame []
    rw [List.append_nil, List.append_nil] at hdir
    exact hdir.trans (dirAt_iff.mp htop).2
  rw [hd.shows_iff, htop.shows_iff]
  exact hfree.showsAt_congr hsame

end Independent

/-! ### Fresh places -/

/-- Two paths that named free places name them independently, whatever has been added. -/
theorem independent_of_fresh {fresh : FileSystem} (hsrc : fresh.NamesFree src top)
    (hdst : fresh.NamesFree dst d) (hdiffer : top ≠ d) (hext : Extends fresh fs)
    (hsrcabs : Path.isAbsolute src = true) (hdstabs : Path.isAbsolute dst = true) :
    Independent fs src dst top d := by
  have hbare : Extends fresh ((fs.remove d).remove top) := by
    intro m e he
    rw [entryAt_remove (not_prefix_of_free hsrc.entry he),
      entryAt_remove (not_prefix_of_free hdst.entry he)]
    exact hext m e he
  refine ⟨hdiffer, ?_, ?_⟩
  · exact hsrc.along hbare.roads (sameStarts_of_isAbsolute hsrcabs _ _) (hsrc.entryAt_remove _)
  · refine hdst.along hbare.roads (sameStarts_of_isAbsolute hdstabs _ _) ?_
    refine Option.eq_none_iff_forall_ne_some.mpr fun e he => ?_
    cases (hdst.entryAt_remove fs).symm.trans (entryAt_of_remove he)

/-- The path of a name in a directory leads through that directory. -/
theorem finds_join {dir c : String} (hc : IsName c) (habs : Path.isAbsolute dir = true)
    (h : fs.Finds (Path.join dir c) false (Path.names (Path.join dir c)) l) :
    ∃ p, l = p ++ [c] ∧ fs.entryAt p = some .dir ∧ IsStep c ∧
      Leads fs.entryAt true linkLimit [] (Path.names dir) p := by
  obtain ⟨-, here, hhere, hleads⟩ := h
  rw [start_join hc habs] at hhere
  cases hhere
  rw [Path.names_join ⟨hc.ne_empty, hc.no_slash⟩] at hleads
  exact hleads.of_concat_name hc.ne_here hc.ne_above

/-- While the directories and links on the way stay, two names lead through the same
directory. -/
theorem finds_beside {dir n : String} {p : Location} (hn : IsName n)
    (habs : Path.isAbsolute dir = true) (hroads : Roads fs fs') (hp : fs.entryAt p = some .dir)
    (hparent : Leads fs.entryAt true linkLimit [] (Path.names dir) p)
    (h : fs'.Finds (Path.join dir n) false (Path.names (Path.join dir n)) m) :
    m = p ++ [n] ∧ IsStep n := by
  obtain ⟨p', rfl, -, hstep, hparent'⟩ := finds_join hn habs h
  have hsame := hparent.along hroads.dirs hroads.links (fun e _ => ⟨.dir, hroads.dirs p hp⟩)
    fun target htarget => by cases (hroads.dirs p hp).symm.trans htarget
  rw [hsame.unique hparent']
  exact ⟨rfl, hstep⟩

/-- A free name beside another was free before something was added. -/
theorem NamesFree.beside {dir c n : String} (hc : IsName c) (hn : IsName n)
    (habs : Path.isAbsolute dir = true) (hfree : fs.NamesFree (Path.join dir c) l)
    (hext : Extends fs fs') (hfree' : fs'.NamesFree (Path.join dir n) m) :
    fs.NamesFree (Path.join dir n) m := by
  obtain ⟨p, -, hp, -, hparent⟩ := finds_join hc habs hfree.finds
  obtain ⟨rfl, hstep⟩ := finds_beside hn habs hext.roads hp hparent hfree'.finds
  have hnone : fs.entryAt (p ++ [n]) = none := by
    refine Option.eq_none_iff_forall_ne_some.mpr fun e he => ?_
    cases hfree'.entry.symm.trans (hext _ e he)
  obtain ⟨slash, ht⟩ := hfree'
  obtain ⟨hslash, hnames, ⟨hflaw, -⟩, -⟩ := target_eq_name_iff.mp ht
  refine ⟨slash, target_eq_name_iff.mpr ⟨hslash, hnames, ⟨hflaw, [], start_join hn habs, ?_⟩, ?_⟩⟩
  · rw [Path.names_join ⟨hn.ne_empty, hn.no_slash⟩]
    exact hparent.concat hp hstep fun _ _ => rfl
  · exact (Option.map_eq_none_iff.mp hnone).symm

/-- Two names in a directory under which something was created one after the other are
independent. -/
theorem independent_of_created {dir c n : String} {fs₀ fs₁ fs₂ fs₃ : FileSystem} {node' : Node}
    (hc : IsName c) (hn : IsName n) (habs : Path.isAbsolute dir = true)
    (hcreate : fs₀.create (Path.join dir c) node = .ok fs₁) (hbetween : Extends fs₁ fs₂)
    (hcreate' : fs₂.create (Path.join dir n) node' = .ok fs₃) (hext : Extends fs₃ fs) :
    ∃ top d, Independent fs (Path.join dir c) (Path.join dir n) top d := by
  have habsolute {name : String} (hname : IsName name) :
      Path.isAbsolute (Path.join dir name) = true := by
    rw [Path.isAbsolute_join ⟨hname.ne_empty, hname.no_slash⟩, habs]
  obtain ⟨top, slash, ht⟩ := target_of_create hcreate
  obtain ⟨d, slash', ht'⟩ := target_of_create hcreate'
  have htop : fs₀.NamesFree (Path.join dir c) top := ⟨slash, ht⟩
  have hd : fs₂.NamesFree (Path.join dir n) d := ⟨slash', ht'⟩
  obtain rfl := (free_of_target ht).create hcreate
  obtain rfl := (free_of_target ht').create hcreate'
  have hgrown := (extends_place htop.entry node).trans hbetween
  have hthere := hbetween _ _ (entryAt_of_get? ((free_of_target ht).get?_place ht node))
  refine ⟨top, d, independent_of_fresh htop (htop.beside hc hn habs hgrown hd) ?_
    (hgrown.trans ((extends_place hd.entry node').trans hext)) (habsolute hc) (habsolute hn)⟩
  rintro rfl
  cases hd.entry.symm.trans hthere

/-! ### What is found under a path -/

/-- A slash at the end of a path is for directories. -/
theorem dir_of_find_slash (hfind : fs.find path false = .ok (l, node))
    (hslash : Path.endsInSlash path = true) : isDirNode node = true := by
  obtain ⟨⟨-, here, -, hleads⟩, hget⟩ := find_eq_ok_iff.mp hfind
  rw [steps, hslash, if_pos rfl] at hleads
  obtain ⟨l', links, -, hdir, hlast⟩ := hleads.of_concat
  cases hlast.of_stay
  rw [entryAt_of_get? hget, Option.some.injEq, Node.entry_eq_dir] at hdir
  obtain ⟨entries, rfl⟩ := hdir
  rfl

theorem NamesFree.location_of_find (h : fs.NamesFree path l) (hroads : Roads fs fs')
    (hstart : SameStarts fs fs' path) (hslash : Path.endsInSlash path = false)
    (hfind : fs'.find path false = .ok (m, node)) : m = l := by
  obtain ⟨hfinds, -⟩ := find_eq_ok_iff.mp hfind
  rw [steps, hslash, if_neg Bool.false_ne_true, List.append_nil] at hfinds
  obtain ⟨-, -, hfinds', -⟩ := target_eq_name_iff.mp (h.target hroads hstart)
  exact hfinds.unique hfinds'

/-! ### Removing what is elsewhere -/

/-- Nobody walks by what is plain. -/
theorem Roads.remove {bare : FileSystem} (h : Roads bare fs)
    (hl : ∀ e, bare.entryAt l = some e → e.Plain) : Roads bare (fs.remove l) := by
  have hout {m : Location} {e : Entry} (hm : bare.entryAt m = some e) (he : ¬ e.Plain) :
      ¬ l <+: m := by
    rintro ⟨k, rfl⟩
    cases k with
    | nil =>
      rw [List.append_nil] at hm
      exact he (hl e hm)
    | cons name k =>
      exact (hl _ (dir_of_below hm)).ne_dir rfl
  refine ⟨fun m hm => ?_, fun m target hm => ?_⟩
  · rw [entryAt_remove (hout hm fun hplain => hplain.ne_dir rfl), h.dirs m hm]
  · rw [entryAt_remove (hout hm fun hplain => hplain.ne_link target rfl), h.links m target hm]

/-- What changes only where nothing was blocks no way. -/
theorem Roads.of_outside {bare : FileSystem} (h : Roads bare fs) (hfree : bare.entryAt l = none)
    (hout : ∀ m, ¬ l <+: m → fs'.entryAt m = fs.entryAt m) : Roads bare fs' := by
  refine ⟨fun m hm => ?_, fun m target hm => ?_⟩
  · rw [hout m (not_prefix_of_free hfree hm), h.dirs m hm]
  · rw [hout m (not_prefix_of_free hfree hm), h.links m target hm]

end FileSystem

namespace FileOp

variable {fs after : FileSystem} {path : String} {l m : Location}

/-- Removing a tree changes nothing but what its path leads to. -/
theorem removeTree_outside {r : Except FileFault Unit}
    (hl : ∀ {m node}, fs.find path false = .ok (m, node) → m = l)
    (h : exec (removeTree path) fs = (r, after)) (hm : ¬ l <+: m) :
    after.entryAt m = fs.entryAt m := by
  rw [exec_removeTree] at h
  cases hfind : fs.find path false with
  | error r =>
    rw [hfind] at h
    cases h
    rfl
  | ok found =>
    obtain ⟨top, node⟩ := found
    obtain rfl := hl hfind
    rw [hfind] at h
    cases node with
    | file | link | device =>
      cases h
      rfl
    | dir entries =>
      have hcleared : (fs.clear top).entryAt m = fs.entryAt m := FileSystem.entryAt_clear hm
      dsimp only at h
      rw [exec_call] at h
      cases hremove : (fs.clear top).removeDir path with
      | error refusal =>
        rw [hremove] at h
        cases h
        exact hcleared
      | ok removed =>
        rw [hremove] at h
        cases h
        obtain ⟨-, -, rfl⟩ := FileSystem.removeDir_clear_eq_ok hfind hremove
        exact (FileSystem.entryAt_remove hm).trans hcleared

theorem exec_removeTreeQuietly (path : String) (fs : FileSystem) :
    exec (removeTreeQuietly path) fs = (.ok (), (exec (removeTree path) fs).2) := by
  rw [removeTreeQuietly, Attempt.exec_tryCatch]
  rcases exec (removeTree path) fs with ⟨fault | ⟨⟩, after⟩ <;> rfl

end FileOp

end MonitoredCompile

/-
MonitoredCompile/Proofs/FileSystem/Copy.lean

What making directories and copying a tree leave as it was.  Making a directory with
its parents adds directories and nothing else.  A copy to a free path, whether it
succeeds or not, changes nothing but at and below the location of its top: that is
`Confined`, shown for every depth by induction, with one pass over the names of a
directory inside (`copyEntries_confined`).  So a copy loses nothing, and if it succeeds
then all that is new is in one place (`copyTree_creates`).
-/
import MonitoredCompile.Proofs.FileSystem.Free

namespace MonitoredCompile

open Attempt (exec exec_bind exec_get exec_tryCatch exec_bind_eq_ok Keeps Frame)

namespace FileSystem

/-! ### New directories -/

/-- Directories were made, and nothing else happened. -/
structure AddsDirs (fs fs' : FileSystem) : Prop extends Grows fs fs' where
  dirs : ∀ l e, fs'.entryAt l = some e → fs.entryAt l = some e ∨ e = .dir

theorem AddsDirs.refl (fs : FileSystem) : AddsDirs fs fs :=
  ⟨frame_grows.refl fs, fun _ _ h => .inl h⟩

theorem AddsDirs.trans {a b c : FileSystem} (hab : AddsDirs a b) (hbc : AddsDirs b c) :
    AddsDirs a c := by
  refine ⟨frame_grows.trans hab.toGrows hbc.toGrows, fun l e he => ?_⟩
  rcases hbc.dirs l e he with h | h
  · exact hab.dirs l e h
  · exact .inr h

theorem frame_addsDirs : Frame AddsDirs := ⟨.refl, .trans⟩

theorem addsDirs_of_makeDir {fs fs' : FileSystem} {path : String} (h : fs.makeDir path = .ok fs') :
    AddsDirs fs fs' := by
  obtain ⟨l, hfree⟩ := free_of_create h
  obtain ⟨rfl, -, hget⟩ := hfree.makeDir h
  refine ⟨(SameOutside.place fs l _).grows hfree.entry, fun m e he => ?_⟩
  by_cases hm : l <+: m
  · obtain ⟨k, rfl⟩ := hm
    cases k with
    | nil =>
      rw [List.append_nil, entryAt_of_get? hget] at he
      exact .inr (Option.some.inj he).symm
    | cons name k =>
      rw [entryAt_below_emptyDir hget] at he
      cases he
  · exact .inl ((entryAt_place hm _).symm.trans he)

end FileSystem

namespace FileOp

open FileSystem (AddsDirs SameOutside Grows frame_addsDirs addsDirs_of_makeDir)

variable {fs fs' : FileSystem}

theorem addsDirs_makeLeaf (mayExist : Bool) (path : String) :
    Keeps AddsDirs (fun _ => True) (makeLeaf mayExist path) := by
  intro fs
  rw [exec_makeLeaf]
  cases h : fs.makeDir path with
  | ok after => exact ⟨addsDirs_of_makeDir h, fun _ _ => trivial⟩
  | error r =>
    dsimp only
    split <;> exact ⟨.refl fs, fun _ _ => trivial⟩

theorem addsDirs_makeDirsWithin (mayExist : Bool) (depth : Nat) (path : String) :
    Keeps AddsDirs (fun _ => True) (makeDirsWithin mayExist depth path) := by
  induction depth generalizing path with
  | zero => exact addsDirs_makeLeaf mayExist path
  | succ depth ih =>
    rw [makeDirsWithin]
    refine Keeps.bind frame_addsDirs (.get frame_addsDirs) fun fs => ?_
    split
    · exact addsDirs_makeLeaf mayExist path
    · refine Keeps.bind frame_addsDirs (Keeps.tryCatch frame_addsDirs (ih _) fun fault _ => ?_)
        fun _ => ?_
      · split
        · exact .pure frame_addsDirs ()
        · exact .throw frame_addsDirs trivial
      · split
        · exact .pure frame_addsDirs ()
        · exact addsDirs_makeLeaf mayExist path

theorem makeLeaf_eq_ok {path : String} (h : exec (makeLeaf false path) fs = (.ok (), fs')) :
    fs.makeDir path = .ok fs' := by
  rw [exec_makeLeaf] at h
  cases hmake : fs.makeDir path with
  | ok after =>
    rw [hmake] at h
    cases h
    rfl
  | error r =>
    rw [hmake] at h
    cases h

theorem makeLeaf_eq_error {path : String} {fault : FileFault}
    (h : exec (makeLeaf false path) fs = (.error fault, fs')) : fs' = fs := by
  rw [exec_makeLeaf] at h
  cases hmake : fs.makeDir path with
  | ok after =>
    rw [hmake] at h
    cases h
  | error r =>
    rw [hmake] at h
    exact (Prod.mk.inj h).2.symm

/-- After the parents, the directory itself was made. -/
theorem makeNewDirs_eq_ok {path : String} (hfs : fs.WellFormed)
    (hname : (Path.splitParent path).2 ≠ ".") (h : exec (makeNewDirs path) fs = (.ok (), fs')) :
    ∃ mid, AddsDirs fs mid ∧ mid.WellFormed ∧ mid.makeDir path = .ok fs' := by
  rw [makeNewDirs] at h
  generalize path.length = depth at h
  cases depth with
  | zero => exact ⟨fs, .refl fs, hfs, makeLeaf_eq_ok h⟩
  | succ depth =>
    rw [makeDirsWithin, exec_bind, exec_get] at h
    simp only [hname, if_false] at h
    split at h
    · exact ⟨fs, .refl fs, hfs, makeLeaf_eq_ok h⟩
    · obtain ⟨⟨⟩, mid, hparents, hleaf⟩ := exec_bind_eq_ok.mp h
      refine ⟨mid, ?_, ?_, makeLeaf_eq_ok hleaf⟩
      · refine (Keeps.tryCatch frame_addsDirs (addsDirs_makeDirsWithin false depth _)
          fun fault _ => ?_).state (E := fun _ => True) hparents
        split
        · exact .pure frame_addsDirs ()
        · exact .throw frame_addsDirs trivial
      · refine (Sound.tryCatch (sound_makeDirsWithin false depth _) fun fault => ?_).state hparents hfs
        split
        · exact .pure ()
        · exact .throw fault

/-- A directory in one that is there has its parent. -/
theorem exec_makeNewDirs_join {dir name : String} {d : Location} (hdir : fs.DirAt dir d)
    (hname : IsName name) :
    exec (makeNewDirs (Path.join dir name)) fs = exec (makeLeaf false (Path.join dir name)) fs := by
  have hne : dir ≠ "" :=
    FileSystem.ne_empty_of_flaw?_eq_none (FileSystem.dirAt_iff.mp hdir).1.1
  obtain ⟨parent, slashes, hsplit, hparent, hslashes, rfl⟩ :=
    Path.splitParent_join hne ⟨hname.ne_empty, hname.no_slash⟩
  have hexists : fs.pathExists parent = true := (hdir.dropSlashes hparent hslashes).pathExists
  rw [makeNewDirs]
  cases (Path.join (parent ++ String.ofList slashes) name).length with
  | zero => rfl
  | succ depth =>
    rw [makeDirsWithin, exec_bind, exec_get]
    simp only [hsplit, hexists, or_true, if_true]

/-! ### Single parts -/

theorem sameOutside_call {path : String} {f : FileSystem → Except Refusal FileSystem} {l : Location}
    (h : ∀ {after}, f fs = .ok after → SameOutside l fs after) :
    SameOutside l fs (exec (call path f) fs).2 := by
  rw [exec_call]
  cases hf : f fs with
  | ok after => exact h hf
  | error r => exact .refl fs

theorem copyFile_sameOutside (src : String) {dst : String} {l : Location} (hfree : fs.Free dst l) :
    SameOutside l fs (exec (copyFile src dst) fs).2 := by
  have hstore (bytes : Bytes) :
      SameOutside l fs (exec (call dst fun fs => fs.store dst bytes) fs).2 :=
    sameOutside_call fun h => (hfree.store h).1
  rw [copyFile, exec_bind, exec_ask]
  cases fs.find src with
  | error r => exact .refl fs
  | ok found =>
    obtain ⟨at_, node⟩ := found
    cases node with
    | dir entries => exact .refl fs
    | link target => exact hstore []
    | device => exact hstore []
    | file f =>
      dsimp only
      rw [exec_bind, exec_call]
      cases hs : fs.store dst f.bytes with
      | error r => exact .refl fs
      | ok stored =>
        obtain ⟨hout, g, hfind⟩ := hfree.store hs
        -- Once it was stored the path leads to it, and the second call goes there.
        refine hout.trans (sameOutside_call fun hplace => ?_)
        rw [hfind] at hplace
        rw [← Except.ok.inj hplace]
        exact .place stored l _

theorem makeLink_sameOutside (target : String) {path : String} {l : Location}
    (hfree : fs.Free path l) : SameOutside l fs (exec (makeLink target path) fs).2 := by
  rw [makeLink, exec_bind, exec_get]
  dsimp only
  cases hlink : fs.makeLink path target with
  | ok after =>
    rw [show after = _ from hfree.makeLink hlink]
    exact .place fs l _
  | error r => cases r <;> exact .refl fs

/-! ### Trees -/

/-- A copy to a free name in a directory that is there changes nothing but at and
below that name. -/
def Confined (copy : String → String → FileOp Unit) : Prop :=
  ∀ ⦃fs : FileSystem⦄ ⦃src dir name : String⦄ ⦃d : Location⦄, fs.WellFormed → fs.DirAt dir d →
    IsName name → fs.entryAt (d ++ [name]) = none →
    SameOutside (d ++ [name]) fs (exec (copy src (Path.join dir name)) fs).2

section

variable {copy : String → String → FileOp Unit}

theorem copyEntry_sameOutside (hcopy : Confined copy) (src : String) {dir name : String}
    {d : Location} (hfs : fs.WellFormed) (hdir : fs.DirAt dir d) (hname : IsName name)
    (hentry : fs.entryAt (d ++ [name]) = none) :
    SameOutside (d ++ [name]) fs (exec (copyEntry copy true src (Path.join dir name)) fs).2 := by
  have hfree := FileSystem.free_join hdir hname hentry
  rw [copyEntry, exec_bind, exec_get]
  dsimp only
  split
  · rw [exec_bind, exec_ask]
    cases fs.readLink src with
    | error r => exact .refl fs
    | ok target => exact makeLink_sameOutside target hfree
  · split
    · exact hcopy hfs hdir hname hentry
    · exact copyFile_sameOutside src hfree

/-- No other name of the directory is at or below the one that was copied. -/
theorem entries_left {mid : FileSystem} {d : Location} {name : String} {rest : List String}
    (hout : SameOutside (d ++ [name]) fs mid) (hnew : name ∉ rest)
    (hmore : ∀ n ∈ rest, fs.entryAt (d ++ [n]) = none) :
    ∀ n ∈ rest, mid.entryAt (d ++ [n]) = none := by
  intro n hn
  rw [hout.entries (d ++ [n]) fun hp => ?_, hmore n hn]
  rw [List.prefix_append_right_inj, List.cons_prefix_cons] at hp
  exact hnew (hp.1 ▸ hn)

/-- The names are taken one after the other: the ones that are left stay free, and
the directory stays where it is. -/
theorem copyEntries_confined (hcopy : Confined copy) (hsound : ∀ src dst, Sound (copy src dst))
    (src : String) {dir : String} {d : Location} {names : List String} (hfs : fs.WellFormed)
    (hdir : fs.DirAt dir d) (hnames : ∀ n ∈ names, IsName n) (hnodup : names.Nodup)
    (hentries : ∀ n ∈ names, fs.entryAt (d ++ [n]) = none) :
    SameOutside d fs (exec (copyEntries copy true src dir names) fs).2 ∧
      Grows fs (exec (copyEntries copy true src dir names) fs).2 := by
  induction names generalizing fs with
  | nil => exact ⟨.refl fs, FileSystem.frame_grows.refl fs⟩
  | cons name rest ih =>
    obtain ⟨hname, hrest⟩ := List.forall_mem_cons.mp hnames
    obtain ⟨hentry, hmore⟩ := List.forall_mem_cons.mp hentries
    obtain ⟨hnew, hnodup⟩ := List.nodup_cons.mp hnodup
    rcases hx : exec (copyEntry copy true (Path.join src name) (Path.join dir name)) fs with ⟨r, mid⟩
    have hout : SameOutside (d ++ [name]) fs mid := by
      have := copyEntry_sameOutside hcopy (Path.join src name) hfs hdir hname hentry
      rwa [hx] at this
    have hleft := entries_left hout hnew hmore
    have hgrows := hout.grows hentry
    obtain ⟨houtRest, hgrowsRest⟩ := ih ((sound_copyEntry hsound true _ _).state hx hfs)
      (hdir.grows hgrows) hrest hnodup hleft
    have hmono := hout.mono (List.prefix_append d [name])
    have hall := And.intro (hmono.trans houtRest) (FileSystem.frame_grows.trans hgrows hgrowsRest)
    -- Neither a fault of the first part nor the list of missed parts changes a file.
    have hjoin (missed : List (String × String × String)) :
        (exec (copyEntries copy true src dir rest >>= fun more => pure (missed ++ more)) mid).2
          = (exec (copyEntries copy true src dir rest) mid).2 := by
      rw [exec_bind]
      rcases exec (copyEntries copy true src dir rest) mid with ⟨e | more, after⟩ <;> rfl
    rw [copyEntries, exec_bind, exec_tryCatch, exec_bind, hx]
    cases r with
    | ok => rwa [← hjoin []] at hall
    | error fault =>
      dsimp only
      by_cases hsystem : fault.fromSystem = true
      · rw [if_pos hsystem]
        rwa [← hjoin (missedParts (Path.join src name) (Path.join dir name) fault)] at hall
      · rw [if_neg hsystem]
        exact ⟨hmono, hgrows⟩

/-- The names that a directory of a well-formed file system is listed with. -/
theorem of_listDir {path : String} {names : List String} (hfs : fs.WellFormed)
    (h : fs.listDir path = .ok names) : (∀ n ∈ names, IsName n) ∧ names.Nodup := by
  rw [FileSystem.listDir] at h
  split at h
  · cases h
  · next l entries hfind =>
    obtain rfl := Except.ok.inj h
    cases hfs.get? (FileSystem.find_eq_ok_iff.mp hfind).2 with
    | dir hnodup hnames _ =>
      refine ⟨fun n hn => ?_, hnodup⟩
      obtain ⟨e, he, rfl⟩ := List.mem_map.mp hn
      exact hnames e he
  · cases h

end

/-- A copy ends when the source cannot be listed, or when its directory cannot be
made, or after a pass over all names. -/
theorem exec_copyTreeWithin {depth : Nat} {src dst : String} {r : Except FileFault Unit}
    (h : exec (copyTreeWithin true (depth + 1) src dst) fs = (r, fs')) :
    (∃ fault, r = .error fault ∧ fs' = fs) ∨
    (∃ fault, r = .error fault ∧ exec (makeNewDirs dst) fs = (.error fault, fs')) ∨
    ∃ names mid, fs.listDir src = .ok names ∧ exec (makeNewDirs dst) fs = (.ok (), mid) ∧
      (exec (copyEntries (copyTreeWithin true depth) true src dst names) mid).2 = fs' := by
  rw [copyTreeWithin, exec_bind, exec_ask] at h
  cases hlist : fs.listDir src with
  | error e =>
    rw [hlist] at h
    cases h
    exact .inl ⟨_, rfl, rfl⟩
  | ok names =>
    rw [hlist] at h
    dsimp only at h
    rw [exec_bind] at h
    rcases hmake : exec (makeNewDirs dst) fs with ⟨fault | ⟨⟩, mid⟩
    · rw [hmake] at h
      cases h
      exact .inr (.inl ⟨fault, rfl, rfl⟩)
    · rw [hmake] at h
      dsimp only at h
      refine .inr (.inr ⟨names, mid, rfl, rfl, ?_⟩)
      rw [exec_bind] at h
      rcases hpass : exec (copyEntries (copyTreeWithin true depth) true src dst names) mid with
        ⟨fault | missed, after⟩
      · rw [hpass] at h
        exact (Prod.mk.inj h).2
      · rw [hpass] at h
        dsimp only at h
        rw [exec_bind, exec_get] at h
        have hend (parts : List (String × String × String)) :
            (exec (if parts = [] then pure () else throw (.notCopied parts) : FileOp Unit) after).2
              = after := by
          split <;> rfl
        exact (hend _).symm.trans (congrArg Prod.snd h)

/-- A pass over the names into a directory just made changes nothing but at and
below that directory. -/
theorem copyEntries_into_new {copy : String → String → FileOp Unit} (hcopy : Confined copy)
    (hsound : ∀ src dst, Sound (copy src dst)) (src : String) {dst : String} {l : Location}
    {names : List String} {mid : FileSystem} (hfs : fs.WellFormed) (hfree : fs.Free dst l)
    (hmake : fs.makeDir dst = .ok mid) (hnames : ∀ n ∈ names, IsName n) (hnodup : names.Nodup) :
    SameOutside l fs (exec (copyEntries copy true src dst names) mid).2 := by
  obtain ⟨hmid, hdir, hempty⟩ := hfree.makeDir hmake
  have hplace : SameOutside l fs mid := by
    rw [hmid]
    exact .place fs l _
  refine hplace.trans ?_
  exact (copyEntries_confined hcopy hsound src (hfs.makeDir hmake) hdir hnames hnodup
    fun n _ => FileSystem.entryAt_below_emptyDir hempty).1

theorem confined_copyTreeWithin (depth : Nat) : Confined (copyTreeWithin true depth) := by
  induction depth with
  | zero =>
    intro fs src dir name d hfs hdir hname hentry
    exact .refl fs
  | succ depth ih =>
    intro fs src dir name d hfs hdir hname hentry
    have hfree := FileSystem.free_join hdir hname hentry
    rcases hx : exec (copyTreeWithin true (depth + 1) src (Path.join dir name)) fs with ⟨r, fs'⟩
    rcases exec_copyTreeWithin hx with
      ⟨fault, -, rfl⟩ | ⟨fault, -, hmake⟩ | ⟨names, mid, hlist, hmake, rfl⟩
    · exact .refl fs'
    -- The parent is there, so a directory that could not be made is all that failed.
    · rw [exec_makeNewDirs_join hdir hname] at hmake
      rw [makeLeaf_eq_error hmake]
      exact .refl fs
    · rw [exec_makeNewDirs_join hdir hname] at hmake
      obtain ⟨hnames, hnodup⟩ := of_listDir hfs hlist
      exact copyEntries_into_new ih (sound_copyTreeWithin true depth) src hfs hfree
        (makeLeaf_eq_ok hmake) hnames hnodup

/-! ### The whole copy -/

/-- Directories were made, and then something under the path, which was free and
could be walked at that time. -/
def Creates (path : String) (before after : FileSystem) : Prop :=
  ∃ mid l follow t, AddsDirs before mid ∧ mid.Free path l ∧ mid.target path follow = .ok t ∧
    SameOutside l mid after

theorem Creates.grows {path : String} (h : Creates path fs fs') : Grows fs fs' := by
  obtain ⟨mid, l, follow, t, hadds, hfree, -, hout⟩ := h
  exact FileSystem.frame_grows.trans hadds.toGrows (hout.grows hfree.entry)

/-- A copy to a path that ends in a name loses nothing, and if it succeeds, it has
created something there. -/
theorem copyTreeWithin_creates (depth : Nat) {src dst : String} {r : Except FileFault Unit}
    (hfs : fs.WellFormed) (hname : (Path.splitParent dst).2 ≠ ".")
    (h : exec (copyTreeWithin true (depth + 1) src dst) fs = (r, fs')) :
    Grows fs fs' ∧ (r = .ok () → Creates dst fs fs') := by
  rcases exec_copyTreeWithin h with
    ⟨fault, rfl, rfl⟩ | ⟨fault, rfl, hmake⟩ | ⟨names, after, hlist, hmake, rfl⟩
  · exact ⟨FileSystem.frame_grows.refl fs', fun hr => by cases hr⟩
  · exact ⟨((addsDirs_makeDirsWithin false _ dst).state hmake).toGrows, fun hr => by cases hr⟩
  · obtain ⟨mid, hadds, hmid, hleaf⟩ := makeNewDirs_eq_ok hfs hname hmake
    obtain ⟨hnames, hnodup⟩ := of_listDir hfs hlist
    obtain ⟨l, slash, ht⟩ := FileSystem.target_of_create hleaf
    have hfree := FileSystem.free_of_target ht
    have hout := copyEntries_into_new (confined_copyTreeWithin depth)
      (sound_copyTreeWithin true depth) src hmid hfree hleaf hnames hnodup
    have hcreates : Creates dst fs _ := ⟨mid, l, false, _, hadds, hfree, ht, hout⟩
    exact ⟨hcreates.grows, fun _ => hcreates⟩

theorem copyTree_creates {src dst : String} {r : Except FileFault Unit} (hfs : fs.WellFormed)
    (hname : (Path.splitParent dst).2 ≠ ".") (h : exec (copyTree true src dst) fs = (r, fs')) :
    Grows fs fs' ∧ (r = .ok () → Creates dst fs fs') :=
  copyTreeWithin_creates (FileSystem.pathLimit - 1) hfs hname h

end FileOp

end MonitoredCompile

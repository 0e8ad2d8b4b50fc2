/-
MonitoredCompile/Proofs/FileSystem/Replica.lean

What a copy that succeeds has copied: every file of the tree (`copyTree_complete`).  A
part that could not be copied is always named (`Tells`), so a copy that names none has
left none out.  Files are followed through the tree name by name: what a directory holds
when it is listed is copied, whatever the copy itself adds to the tree meanwhile, since
nothing that is there is ever changed.
-/
import MonitoredCompile.Proofs.FileSystem.Copy
import MonitoredCompile.Proofs.FileSystem.Faults

namespace MonitoredCompile.FileOp

open Attempt (exec exec_bind exec_get exec_tryCatch exec_bind_eq_ok Keeps Frame)
open FileSystem (Grows SameOutside)

variable {fs fs' mid : FileSystem} {src dst : String}

/-! ### Parts that are left out -/

/-- Whatever the operation fails with is something that was not done. -/
def Tells {α : Type} (op : FileOp α) : Prop :=
  Keeps (fun _ _ => True) (fun fault => fault ≠ .notCopied []) op

theorem missedParts_ne_nil {fault : FileFault} (h : fault ≠ .notCopied []) :
    missedParts src dst fault ≠ [] := by
  cases fault with
  | notCopied parts => exact fun hnil => h (congrArg FileFault.notCopied hnil)
  | _ => exact List.cons_ne_nil _ _

/-- All parts of a copy tell what they leave out. -/
theorem covers_tells : Covers fun fault => fault ≠ .notCopied [] where
  refused path r := by cases r <;> exact nofun
  link _ _ _ := nofun
  parts _ hparts := fun h => hparts (FileFault.notCopied.inj h)

/-! ### Copies that leave nothing out -/

/-- A pass that names no part that it left out has copied the first name, and then the
others. -/
theorem copyEntries_cons_eq_ok {copy : String → String → FileOp Unit}
    (hcopy : ∀ src dst, Tells (copy src dst)) {links : Bool} {name : String} {rest : List String}
    (h : exec (copyEntries copy links src dst (name :: rest)) fs = (.ok [], fs')) :
    ∃ mid, exec (copyEntry copy links (Path.join src name) (Path.join dst name)) fs = (.ok (), mid) ∧
      exec (copyEntries copy links src dst rest) mid = (.ok [], fs') := by
  rw [copyEntries] at h
  obtain ⟨missed, mid, hfirst, h⟩ := exec_bind_eq_ok.mp h
  obtain ⟨more, after, hrest, hpure⟩ := exec_bind_eq_ok.mp h
  obtain ⟨hnone, rfl⟩ := Prod.mk.inj hpure
  obtain ⟨rfl, rfl⟩ := List.append_eq_nil_iff.mp (Except.ok.inj hnone)
  refine ⟨mid, ?_, hrest⟩
  rw [exec_tryCatch, exec_bind] at hfirst
  rcases hentry : exec (copyEntry copy links (Path.join src name) (Path.join dst name)) fs with
    ⟨fault | ⟨⟩, after⟩
  · rw [hentry] at hfirst
    dsimp only at hfirst
    split at hfirst
    · exact absurd (Except.ok.inj (Prod.mk.inj hfirst).1)
        (missedParts_ne_nil ((covers_tells.copyEntry hcopy links _ _).error hentry))
    · cases hfirst
  · rw [hentry] at hfirst
    rw [(Prod.mk.inj hfirst).2]

/-- A copy that succeeds has made its directory and passed over all names. -/
theorem copyTreeWithin_eq_ok {links : Bool} {depth : Nat}
    (h : exec (copyTreeWithin links (depth + 1) src dst) fs = (.ok (), fs')) :
    ∃ names mid, fs.listDir src = .ok names ∧ exec (makeNewDirs dst) fs = (.ok (), mid) ∧
      exec (copyEntries (copyTreeWithin links depth) links src dst names) mid = (.ok [], fs') := by
  rw [copyTreeWithin] at h
  obtain ⟨names, fs₁, hlist, h⟩ := exec_bind_eq_ok.mp h
  obtain ⟨⟨⟩, mid, hmake, h⟩ := exec_bind_eq_ok.mp h
  obtain ⟨missed, after, hpass, h⟩ := exec_bind_eq_ok.mp h
  obtain ⟨fs₂, after', hget, h⟩ := exec_bind_eq_ok.mp h
  cases hget
  have hend {parts : List (String × String × String)}
      (hparts : exec (if parts = [] then pure () else throw (.notCopied parts) : FileOp Unit) after
        = (.ok (), fs')) : parts = [] ∧ after = fs' := by
    split at hparts
    · next hnil => exact ⟨hnil, (Prod.mk.inj hparts).2⟩
    · cases hparts
  obtain ⟨hnone, rfl⟩ := hend h
  obtain ⟨rfl, -⟩ := List.append_eq_nil_iff.mp hnone
  rw [exec_ask] at hlist
  cases hnames : fs.listDir src with
  | error r =>
    rw [hnames] at hlist
    cases hlist
  | ok found =>
    rw [hnames] at hlist
    cases hlist
    exact ⟨names, mid, rfl, hmake, hpass⟩

/-! ### Single files -/

/-- A file that was copied to a free path is there. -/
theorem copyFile_file {l m : Location} {f : File} (hfree : fs.Free dst l)
    (hfind : fs.find src = .ok (m, .file f)) (h : exec (copyFile src dst) fs = (.ok (), fs')) :
    fs'.entryAt l = some (.file f) := by
  rw [copyFile, exec_bind, exec_ask, hfind] at h
  dsimp only at h
  obtain ⟨⟨⟩, mid, hstore, hplace⟩ := exec_bind_eq_ok.mp h
  rw [exec_call] at hstore hplace
  cases hs : fs.store dst f.bytes with
  | error r =>
    rw [hs] at hstore
    cases hstore
  | ok stored =>
    rw [hs] at hstore
    cases hstore
    obtain ⟨-, g, hthere⟩ := hfree.store hs
    rw [hthere] at hplace
    cases hplace
    exact FileSystem.entryAt_of_get?
      (FileSystem.get?_place (FileSystem.find_eq_ok_iff.mp hthere).2 (.file f))

/-! ### Trees -/

/-- Every file of the one tree is in the other, at the same place. -/
def Replicates (fs fs' : FileSystem) (top there : Location) : Prop :=
  ∀ k f, fs.entryAt (top ++ k) = some (.file f) → fs'.entryAt (there ++ k) = some (.file f)

/-- A copy to a free name that succeeds has all files of the tree. -/
def Complete (copy : String → String → FileOp Unit) : Prop :=
  ∀ ⦃fs fs' : FileSystem⦄ ⦃src dir name : String⦄ ⦃top d : Location⦄, fs.WellFormed →
    fs.DirAt src top → fs.DirAt dir d → IsName name → fs.entryAt (d ++ [name]) = none →
    exec (copy src (Path.join dir name)) fs = (.ok (), fs') → Replicates fs fs' top (d ++ [name])

/-- A directory is listed with all that it holds. -/
theorem mem_of_listDir {names : List String} {top k : Location} {name : String} {e : Entry}
    (hsrc : fs.DirAt src top) (h : fs.listDir src = .ok names)
    (he : fs.entryAt (top ++ name :: k) = some e) : name ∈ names := by
  obtain ⟨entries, hfind⟩ := hsrc
  rw [FileSystem.listDir, hfind] at h
  obtain rfl := Except.ok.inj h
  have hget := (FileSystem.find_eq_ok_iff.mp hfind).2
  rw [FileSystem.entryAt_append_of_get? hget, Node.entryAt, Node.get?_dir_cons] at he
  cases hchild : Node.find? name entries with
  | none =>
    rw [hchild] at he
    cases he
  | some child => exact List.mem_map.mpr ⟨_, Node.mem_of_find? hchild, rfl⟩

section

variable {copy : String → String → FileOp Unit} {name : String} {top d l : Location}

theorem copyEntry_complete (hcopy : Complete copy) (hfs : fs.WellFormed) (hsrc : fs.DirAt src top)
    (hdst : fs.DirAt dst d) (hname : IsName name) (hfree : fs.entryAt (d ++ [name]) = none)
    (h : exec (copyEntry copy true (Path.join src name) (Path.join dst name)) fs = (.ok (), fs')) :
    Replicates fs fs' (top ++ [name]) (d ++ [name]) := by
  intro k f hfile
  -- A link holds nothing and is no file.
  have hnolink : ∀ target, fs.entryAt (top ++ [name]) ≠ some (.link target) := by
    intro target htarget
    cases k with
    | nil =>
      rw [List.append_nil, htarget] at hfile
      cases hfile
    | cons n k =>
      cases htarget.symm.trans (FileSystem.dir_of_below hfile)
  have hfound {follow : Bool} {m : Location} {node : Node}
      (hfind : fs.find (Path.join src name) follow = .ok (m, node)) :
      m = top ++ [name] ∧ fs.get? (top ++ [name]) = some node :=
    FileSystem.location_of_find_join hsrc hname (fun target ht => absurd ht (hnolink target)) hfind
  have hlink : fs.isLink (Path.join src name) = false := by
    rw [FileSystem.isLink]
    split
    · next m target hfind =>
      exact absurd (FileSystem.entryAt_of_get? (hfound hfind).2) (hnolink target)
    · rfl
  rw [copyEntry, exec_bind, exec_get] at h
  simp only [hlink, Bool.and_false, Bool.false_eq_true, if_false] at h
  cases hfind : fs.find (Path.join src name) with
  | error r =>
    -- What cannot be found is taken for a file, which cannot be copied then.
    have hdir : fs.isDir (Path.join src name) = false := by rw [FileSystem.isDir, hfind]
    simp only [hdir, Bool.false_eq_true, if_false] at h
    rw [copyFile, exec_bind, exec_ask, hfind] at h
    cases h
  | ok found =>
    obtain ⟨m, node⟩ := found
    obtain ⟨rfl, hget⟩ := hfound hfind
    have hentry := FileSystem.entryAt_of_get? hget
    cases k with
    | nil =>
      rw [List.append_nil] at hfile ⊢
      obtain rfl : node = .file f := by
        rw [hfile, Option.some.injEq] at hentry
        exact Node.entry_eq_file.mp hentry.symm
      have hdir : fs.isDir (Path.join src name) = false := by rw [FileSystem.isDir, hfind]
      simp only [hdir, Bool.false_eq_true, if_false] at h
      exact copyFile_file (FileSystem.free_join hdst hname hfree) hfind h
    | cons n k =>
      have hdir : fs.entryAt (top ++ [name]) = some .dir := FileSystem.dir_of_below hfile
      obtain ⟨entries, rfl⟩ := Node.entry_eq_dir.mp (Option.some.inj (hentry.symm.trans hdir))
      have hisDir : fs.isDir (Path.join src name) = true := by rw [FileSystem.isDir, hfind]
      simp only [hisDir, if_true] at h
      exact hcopy hfs ⟨entries, hfind⟩ hdst hname hfree h (n :: k) f hfile

/-- The names are taken one after the other, and what was copied of one stays. -/
theorem copyEntries_complete (hcopy : Complete copy) (hconfined : Confined copy)
    (hsound : ∀ src dst, Sound (copy src dst)) (htells : ∀ src dst, Tells (copy src dst))
    {names : List String} (hfs : fs.WellFormed) (hsrc : fs.DirAt src top) (hdst : fs.DirAt dst d)
    (hnames : ∀ n ∈ names, IsName n) (hnodup : names.Nodup)
    (hentries : ∀ n ∈ names, fs.entryAt (d ++ [n]) = none)
    (h : exec (copyEntries copy true src dst names) fs = (.ok [], fs')) :
    ∀ n ∈ names, Replicates fs fs' (top ++ [n]) (d ++ [n]) := by
  induction names generalizing fs with
  | nil => exact nofun
  | cons name rest ih =>
    obtain ⟨hname, hrest⟩ := List.forall_mem_cons.mp hnames
    obtain ⟨hentry, hmore⟩ := List.forall_mem_cons.mp hentries
    obtain ⟨hnew, hnodup⟩ := List.nodup_cons.mp hnodup
    obtain ⟨mid, hfirst, hpass⟩ := copyEntries_cons_eq_ok htells h
    have hout : SameOutside (d ++ [name]) fs mid := by
      have hsame := copyEntry_sameOutside hconfined (Path.join src name) hfs hdst hname hentry
      rwa [hfirst] at hsame
    have hgrows := hout.grows hentry
    have hmid := (sound_copyEntry hsound true _ _).state hfirst hfs
    have hleft := entries_left hout hnew hmore
    refine List.forall_mem_cons.mpr ⟨fun k f hfile => ?_, fun n hn k f hfile => ?_⟩
    · have hlater : Grows mid fs' := by
        have hpassed := (copyEntries_confined hconfined hsound src hmid (hdst.grows hgrows) hrest
          hnodup hleft).2
        rwa [hpass] at hpassed
      exact hlater.extends_ _ _
        (copyEntry_complete hcopy hfs hsrc hdst hname hentry hfirst k f hfile)
    · exact ih hmid (hsrc.grows hgrows) (hdst.grows hgrows) hrest hnodup hleft hpass n hn k f
        (hgrows.extends_ _ _ hfile)

/-- A pass over the names of a directory, listed a while before, into one just made. -/
theorem copyEntries_into_new_complete (hcopy : Complete copy) (hconfined : Confined copy)
    (hsound : ∀ src dst, Sound (copy src dst)) (htells : ∀ src dst, Tells (copy src dst))
    {names : List String} {free : FileSystem} (hfs : fs.WellFormed) (hsrc : fs.DirAt src top)
    (hlist : fs.listDir src = .ok names) (hgrows : Grows fs free) (hwf : free.WellFormed)
    (hfree : free.Free dst l) (hmake : free.makeDir dst = .ok mid)
    (h : exec (copyEntries copy true src dst names) mid = (.ok [], fs')) :
    Replicates fs fs' top l := by
  obtain ⟨hnames, hnodup⟩ := of_listDir hfs hlist
  obtain ⟨hplaced, hdst, hempty⟩ := hfree.makeDir hmake
  have hout : SameOutside l free mid := by
    rw [hplaced]
    exact .place free l _
  have hall := FileSystem.frame_grows.trans hgrows (hout.grows hfree.entry)
  have hcopied := copyEntries_complete hcopy hconfined hsound htells (hwf.makeDir hmake)
    (hsrc.grows hall) hdst hnames hnodup (fun n _ => FileSystem.entryAt_below_emptyDir hempty) h
  intro k f hfile
  cases k with
  | nil =>
    rw [List.append_nil, (FileSystem.dirAt_iff.mp hsrc).2] at hfile
    cases hfile
  | cons n k =>
    have hn := mem_of_listDir hsrc hlist hfile
    have hthere := hcopied n hn k f (by simpa using hall.extends_ _ _ hfile)
    simpa using hthere

end

theorem complete_copyTreeWithin (depth : Nat) : Complete (copyTreeWithin true depth) := by
  induction depth with
  | zero =>
    intro fs fs' src dir name top d _ _ _ _ _ h
    cases h
  | succ depth ih =>
    intro fs fs' src dir name top d hfs hsrc hdir hname hentry h
    obtain ⟨names, mid, hlist, hmake, hpass⟩ := copyTreeWithin_eq_ok h
    rw [exec_makeNewDirs_join hdir hname] at hmake
    exact copyEntries_into_new_complete ih (confined_copyTreeWithin depth)
      (sound_copyTreeWithin true depth) (covers_tells.copyTreeWithin true depth) hfs hsrc hlist
      (FileSystem.frame_grows.refl fs) hfs (FileSystem.free_join hdir hname hentry)
      (makeLeaf_eq_ok hmake) hpass

theorem copyTreeWithin_complete (depth : Nat) {top : Location} (hfs : fs.WellFormed)
    (hsrc : fs.DirAt src top) (hname : (Path.splitParent dst).2 ≠ ".")
    (h : exec (copyTreeWithin true (depth + 1) src dst) fs = (.ok (), fs')) :
    ∃ mid l slash, FileSystem.AddsDirs fs mid ∧ mid.target dst = .ok (.name ⟨l, none⟩ slash) ∧
      Replicates fs fs' top l := by
  obtain ⟨names, made, hlist, hmake, hpass⟩ := copyTreeWithin_eq_ok h
  obtain ⟨mid, hadds, hmid, hleaf⟩ := makeNewDirs_eq_ok hfs hname hmake
  obtain ⟨l, slash, ht⟩ := FileSystem.target_of_create hleaf
  refine ⟨mid, l, slash, hadds, ht, ?_⟩
  exact copyEntries_into_new_complete (complete_copyTreeWithin depth)
    (confined_copyTreeWithin depth) (sound_copyTreeWithin true depth)
    (covers_tells.copyTreeWithin true depth) hfs hsrc hlist hadds.toGrows hmid
    (FileSystem.free_of_target ht) hleaf hpass

/-- **A copy that succeeds is complete.**  Once only directories had been made, the path
was free and could be walked, and every file of the tree has come below its location. -/
theorem copyTree_complete {top : Location} (hfs : fs.WellFormed) (hsrc : fs.DirAt src top)
    (hname : (Path.splitParent dst).2 ≠ ".")
    (h : exec (copyTree true src dst) fs = (.ok (), fs')) :
    ∃ mid l slash, FileSystem.AddsDirs fs mid ∧ mid.target dst = .ok (.name ⟨l, none⟩ slash) ∧
      Replicates fs fs' top l :=
  copyTreeWithin_complete (FileSystem.pathLimit - 1) hfs hsrc hname h

end MonitoredCompile.FileOp

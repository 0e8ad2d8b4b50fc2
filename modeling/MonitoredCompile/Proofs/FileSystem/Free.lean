/-
MonitoredCompile/Proofs/FileSystem/Free.lean

Paths whose last name is free.  Whatever a call makes of such a path stands at one
location, and nothing else changes.  The path of a free name in a directory is one
(`free_join`), and so is the path of a directory that was just removed
(`free_of_removeDir`), though there the way to it may be gone as well.
-/
import MonitoredCompile.Proofs.FileSystem.Growth
import MonitoredCompile.Proofs.FileSystem.Overwrite

namespace MonitoredCompile.FileSystem

variable {fs fs' : FileSystem} {l : Location} {path : String}

/-- Nothing is at the location, and it is the only one that calls about the path
can mean, if they mean one at all. -/
structure Free (fs : FileSystem) (path : String) (l : Location) : Prop where
  entry : fs.entryAt l = none
  target : ∀ {follow : Bool} {t : Target}, fs.target path follow = .ok t →
    ∃ slash, t = .name ⟨l, none⟩ slash

/-! ### Paths that are free -/

/-- A path is free if all that it can lead to is one free location. -/
theorem free_of_finds {init : List String} {last : String}
    (hnames : Path.names path = init ++ [last]) (hne : last ≠ ".") (hnu : last ≠ "..")
    (hentry : fs.entryAt l = none)
    (hfinds : ∀ {follow : Bool} {m : Location},
      fs.Finds path follow (Path.names path) m → m = l) :
    fs.Free path l := by
  refine ⟨hentry, fun {follow t} ht => ?_⟩
  rw [target_of_names hnames hne hnu] at ht
  cases hwalk : fs.walkFor path (follow && !Path.endsInSlash path) (Path.names path) with
  | error r => rw [hwalk] at ht; cases ht
  | ok place =>
    obtain ⟨m, node⟩ := place
    obtain ⟨hm, hnode⟩ := walkFor_eq_ok_iff.mp hwalk
    obtain rfl : m = l := hfinds hm
    obtain rfl : node = none := hnode.trans (Option.map_eq_none_iff.mp hentry)
    rw [hwalk] at ht
    exact ⟨_, (Except.ok.inj ht).symm⟩

theorem free_join {dir name : String} {d : Location} (hdir : fs.DirAt dir d) (hname : IsName name)
    (hfree : fs.entryAt (d ++ [name]) = none) : fs.Free (Path.join dir name) (d ++ [name]) := by
  refine free_of_finds (Path.names_join ⟨hname.ne_empty, hname.no_slash⟩) hname.ne_here
    hname.ne_above hfree fun hfinds => location_of_finds_join hdir hname ?_ hfinds
  intro target htarget
  rw [hfree] at htarget
  cases htarget

/-- Without following a link at its end, a walk of several names ends at the last
one, in the directory that the others lead to. -/
theorem Leads.of_concat_name {look : Location → Option Entry} {links : Nat} {here there : Location}
    {names : List String} {name : String}
    (h : Leads look false links here (names ++ [name]) there) (hne : name ≠ ".") (hnu : name ≠ "..") :
    ∃ d, there = d ++ [name] ∧ look d = some .dir ∧ IsStep name ∧
      Leads look true links here names d := by
  obtain ⟨d, links', hd, hdir, hlast⟩ := h.of_concat
  generalize hsingle : [name] = single at hlast
  cases hlast with
  | here => cases hsingle
  | stay => exact absurd (List.cons.inj hsingle).1 hne
  | up => exact absurd (List.cons.inj hsingle).1 hnu
  | last _ hstep =>
    obtain rfl := (List.cons.inj hsingle).1
    exact ⟨d, rfl, hdir, hstep, hd⟩
  | down _ _ _ _ hrest => exact absurd (List.cons.inj hsingle).2.symm hrest
  | jump _ _ _ hfollow => exact absurd (hfollow (List.cons.inj hsingle).2.symm) (by simp)

/-- Nothing is below an empty directory. -/
theorem entryAt_below_emptyDir {name : String} {k : Location} (h : fs.get? l = some (.dir [])) :
    fs.entryAt (l ++ name :: k) = none := by
  rw [entryAt_append_of_get? h, Node.entryAt, Node.get?_dir_cons]
  rfl

/-- Only the empty directory itself goes when it is removed. -/
theorem entryAt_remove_emptyDir {m : Location} {e : Entry} (h : fs.get? l = some (.dir []))
    (he : fs.entryAt m = some e) (hm : m ≠ l) : (fs.remove l).entryAt m = some e := by
  rw [entryAt_remove fun hp => ?_, he]
  obtain ⟨k, rfl⟩ := hp
  cases k with
  | nil => exact hm (List.append_nil l)
  | cons name k =>
    rw [entryAt_below_emptyDir h] at he
    cases he

/-- A directory that a path names can only be removed if it is empty, and its path
is free after that. -/
theorem free_of_removeDir (h : fs.removeDir path = .ok fs') :
    ∃ d, fs' = fs.remove d ∧ fs.find path false = .ok (d, .dir []) ∧ fs'.Free path d ∧
      (Path.splitParent path).2 ≠ "." := by
  rw [removeDir] at h
  split at h <;> cases h
  next d slash htarget =>
  obtain ⟨rfl, ⟨init, last, hnames, hne, hnu⟩, hfinds, hget⟩ := target_eq_name_iff.mp htarget
  have hget : fs.get? d = some (.dir []) := hget.symm
  have hentry : fs.entryAt d = some .dir := entryAt_of_get? hget
  obtain ⟨hflaw, here, hhere, hleads⟩ := hfinds
  rw [Bool.false_and] at hleads
  obtain ⟨p, rfl, -⟩ := Leads.of_concat_name (hnames ▸ hleads) hne hnu
  -- The directory is no link, so its path leads to it also where links are followed.
  have hboth (follow : Bool) :
      Leads fs.entryAt follow linkLimit here (Path.names path) (p ++ [last]) := by
    cases follow with
    | false => exact hleads
    | true =>
      refine hleads.follows fun target htarget => ?_
      rw [hentry] at htarget
      cases htarget
  have hfree : (fs.remove (p ++ [last])).entryAt (p ++ [last]) = none :=
    entryAt_remove_below (by simp) (List.prefix_rfl)
  refine ⟨p ++ [last], rfl, ?_, ?_, Path.splitParent_ne_here hnames hne⟩
  · refine find_eq_ok_iff.mpr ⟨⟨hflaw, here, hhere, ?_⟩, hget⟩
    rw [steps]
    split
    · exact (hboth true).append (by simp) hentry fun _ => .stay hentry (.here hentry)
    · rw [List.append_nil]
      exact hleads
  -- Whatever the path leads to now, nothing that was on the way before is different.
  · refine free_of_finds hnames hne hnu hfree fun {follow m} hm => ?_
    refine hm.unique_of_agree ⟨hflaw, here, hhere, hboth follow⟩
      (agree_of_extends (extends_remove fs _)) (sameStarts_remove fs _ path) ?_ ?_
    · intro hnone target htarget
      by_cases hp : p ++ [last] <+: m
      · obtain ⟨k, rfl⟩ := hp
        cases k with
        | nil => rw [List.append_nil, hentry] at htarget; cases htarget
        | cons name k => rw [entryAt_below_emptyDir hget] at htarget; cases htarget
      · rw [entryAt_remove hp, htarget] at hnone
        cases hnone
    · intro hnone
      rw [hentry] at hnone
      cases hnone

/-- A path that a call may create is free. -/
theorem free_of_target {slash : Bool} (h : fs.target path = .ok (.name ⟨l, none⟩ slash)) :
    fs.Free path l := by
  obtain ⟨-, ⟨init, last, hnames, hne, hnu⟩, ⟨hflaw, here, hhere, hleads⟩, hnode⟩ :=
    target_eq_name_iff.mp h
  rw [Bool.false_and] at hleads
  have hentry : fs.entryAt l = none := Option.map_eq_none_iff.mpr hnode.symm
  refine free_of_finds hnames hne hnu hentry fun {follow m} hm => ?_
  refine hm.unique ⟨hflaw, here, hhere, ?_⟩
  cases follow with
  | false => exact hleads
  | true =>
    refine hleads.follows fun target htarget => ?_
    rw [show fs.entryAt l = some (.link target) from htarget] at hentry
    cases hentry

theorem target_of_create {node : Node} (h : fs.create path node = .ok fs') :
    ∃ l slash, fs.target path = .ok (.name ⟨l, none⟩ slash) := by
  rw [create] at h
  split at h
  · cases h
  · next l slash ht => exact ⟨l, slash, ht⟩
  · cases h

theorem free_of_create {node : Node} (h : fs.create path node = .ok fs') : ∃ l, fs.Free path l := by
  obtain ⟨l, slash, ht⟩ := target_of_create h
  exact ⟨l, free_of_target ht⟩

/-! ### Calls about a free path -/

/-- A walk that ends at nothing ends in a directory. -/
theorem Leads.parent {look : Location → Option Entry} {follow : Bool} {links : Nat}
    {here there : Location} {names : List String} (h : Leads look follow links here names there)
    (hfree : look there = none) : ∃ d name, there = d ++ [name] ∧ look d = some .dir := by
  induction h with
  | here hl => rw [hfree] at hl; cases hl
  | stay _ _ ih => exact ih hfree
  | up _ _ ih => exact ih hfree
  | @last _ here name hl => exact ⟨here, name, rfl, hl⟩
  | down _ _ _ _ _ _ ih => exact ih hfree
  | jump _ _ _ _ _ ih => exact ih hfree

namespace Free

theorem create (h : fs.Free path l) {node : Node} (hc : fs.create path node = .ok fs') :
    fs' = fs.place l node := by
  rw [FileSystem.create] at hc
  cases ht : fs.target path with
  | error r => rw [ht] at hc; cases hc
  | ok t =>
    obtain ⟨slash, rfl⟩ := h.target ht
    rw [ht] at hc
    exact (Except.ok.inj hc).symm

theorem makeLink (h : fs.Free path l) {target : String} (hl : fs.makeLink path target = .ok fs') :
    fs' = fs.place l (.link target) := by
  rw [FileSystem.makeLink] at hl
  split at hl
  · cases hl
  · split at hl
    · cases hl
    · split at hl
      · cases hl
      · exact h.create hl

/-- What was put under a free path can be read there. -/
theorem get?_place (h : fs.Free path l) {follow : Bool} {t : Target}
    (ht : fs.target path follow = .ok t) (node : Node) : (fs.place l node).get? l = some node := by
  obtain ⟨slash, rfl⟩ := h.target ht
  obtain ⟨-, -, ⟨-, here, -, hleads⟩, -⟩ := target_eq_name_iff.mp ht
  obtain ⟨d, name, rfl, hdir⟩ := hleads.parent h.entry
  exact get?_place_in hdir node

/-- A free path that can be walked leads to what was put there. -/
theorem finds (h : fs.Free path l) {follow slash : Bool} {place : Place}
    (ht : fs.target path follow = .ok (.name place slash)) (hout : SameOutside l fs fs')
    (hlink : ∀ target, fs'.entryAt l ≠ some (.link target)) :
    fs'.Finds path true (Path.names path) l := by
  obtain ⟨slash', hplace⟩ := h.target ht
  cases hplace
  obtain ⟨-, -, hfinds, -⟩ := target_eq_name_iff.mp ht
  have hgrows := hout.grows h.entry
  obtain ⟨hflaw, here, hhere, hleads⟩ :=
    hfinds.mono hgrows.extends_ (hgrows.sameStarts path) fun _ target htarget =>
      absurd htarget (hlink target)
  refine ⟨hflaw, here, hhere, ?_⟩
  cases hfollow : (follow && !slash) with
  | true => rwa [hfollow] at hleads
  | false =>
    rw [hfollow] at hleads
    exact hleads.follows hlink

/-- A directory that is made under a free path is what the path leads to. -/
theorem makeDir (h : fs.Free path l) (hm : fs.makeDir path = .ok fs') :
    fs' = fs.place l (.dir []) ∧ fs'.DirAt path l ∧ fs'.get? l = some (.dir []) := by
  obtain rfl := h.create hm
  obtain ⟨m, slash, ht⟩ := target_of_create hm
  have hplaced := h.get?_place ht (.dir [])
  have hentry := entryAt_of_get? hplaced
  refine ⟨rfl, dirAt_iff.mpr ⟨?_, hentry⟩, hplaced⟩
  refine h.finds ht (.place fs l _) fun target htarget => ?_
  rw [hentry] at htarget
  cases htarget

/-- Storing makes an empty file, writes to it, and closes it. -/
theorem store_eq_ok (h : fs.Free path l) {bytes : Bytes} (hs : fs.store path bytes = .ok fs') :
    fs.target path true = .ok (.name ⟨l, none⟩ false) ∧
      fs' = (((fs.place l (.file { bytes := [] })).openAt (some l)).1.writeOpen
        fs.opened.length bytes).closeFrom fs.opened.length := by
  rw [FileSystem.store, openTruncated, openWith] at hs
  cases ht : fs.target path true with
  | error r => rw [ht] at hs; cases hs
  | ok t =>
    obtain ⟨slash, rfl⟩ := h.target ht
    rw [ht] at hs
    cases slash with
    | true => cases hs
    | false => exact ⟨rfl, (Except.ok.inj hs).symm⟩

/-- What is stored under a free path is a file that the path leads to. -/
theorem store (h : fs.Free path l) {bytes : Bytes} (hs : fs.store path bytes = .ok fs') :
    SameOutside l fs fs' ∧ ∃ f, fs'.find path = .ok (l, .file f) := by
  obtain ⟨ht, rfl⟩ := h.store_eq_ok hs
  let placed := fs.place l (.file { bytes := [] })
  let opened := (placed.openAt (some l)).1
  have hplaced : opened.get? l = some (.file { bytes := [] }) := h.get?_place ht _
  have hopened : opened.opened[fs.opened.length]? = some ⟨some l, 0⟩ :=
    List.getElem?_concat_length
  -- The write goes to the file that was just made.
  have hwritten := writeOpen_eq hopened bytes
  rw [modifyFile_file hplaced] at hwritten
  show SameOutside l fs ((opened.writeOpen fs.opened.length bytes).closeFrom fs.opened.length) ∧ _
  rw [hwritten]
  let stored : Node := .file (File.overwrite { bytes := [] } (splice [] 0 bytes))
  have hstored : (opened.place l stored).get? l = some stored :=
    FileSystem.get?_place hplaced stored
  have hout : SameOutside l fs (opened.place l stored) := by
    refine ⟨fun m hm => (entryAt_place hm stored).trans ?_, rfl⟩
    show placed.entryAt m = fs.entryAt m
    exact entryAt_place hm _
  have hfinds := h.finds ht hout fun target => by
    rw [entryAt_of_get? hstored]
    simp [stored, Node.entry]
  refine ⟨⟨hout.entries, hout.cwd⟩, _, find_eq_ok_iff.mpr ⟨?_, hstored⟩⟩
  have hslash : false = Path.endsInSlash path := (target_eq_name_iff.mp ht).1
  rw [steps, if_neg (by rw [← hslash]; exact Bool.false_ne_true), List.append_nil]
  exact hfinds

end Free

/-- What was just created is what its path names. -/
theorem find_of_create {node : Node} (hslash : Path.endsInSlash path = false)
    (h : fs.create path node = .ok fs') :
    ∃ l, fs.entryAt l = none ∧ fs'.find path false = .ok (l, node) := by
  obtain ⟨l, slash, ht⟩ := target_of_create h
  have hfree := free_of_target ht
  obtain rfl := hfree.create h
  have hget := hfree.get?_place ht node
  obtain ⟨-, -, hfinds, -⟩ := target_eq_name_iff.mp ht
  refine ⟨l, hfree.entry, find_eq_ok_iff.mpr ⟨?_, hget⟩⟩
  rw [steps, hslash, if_neg Bool.false_ne_true, List.append_nil]
  have hgrows := (SameOutside.place fs l node).grows hfree.entry
  exact hfinds.mono hgrows.extends_ (hgrows.sameStarts path) fun _ _ _ => rfl

end MonitoredCompile.FileSystem

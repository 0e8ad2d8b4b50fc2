/-
MonitoredCompile/Proofs/FileSystem/Growth.lean

How a file system may change.  `Grows` says that nothing was lost, `SameOutside top`
that nothing changed but at and below one location.  A directory that a path leads
to is still there after a growth (`DirAt.grows`), and what is said about a name in
it is said about one location (`location_of_finds_join`).

What can be wrong with the text of a path does not depend on the file system
(`flaw?_eq_none_iff`), and a part from its start has no flaw that the whole has not.
-/
import MonitoredCompile.FileSystem.Upkeep
import MonitoredCompile.Proofs.FileSystem.Extends
import MonitoredCompile.Proofs.Path.Join

namespace MonitoredCompile.FileSystem

variable {fs fs' : FileSystem}

/-! ### Relations -/

/-- Nothing was lost. -/
structure Grows (fs fs' : FileSystem) : Prop where
  extends_ : Extends fs fs'
  cwd : fs'.cwd = fs.cwd

theorem frame_grows : Attempt.Frame Grows :=
  ⟨fun fs => ⟨.refl fs, rfl⟩, fun hab hbc => ⟨hab.1.trans hbc.1, hbc.2.trans hab.2⟩⟩

theorem Grows.sameStarts (h : Grows fs fs') (path : String) : SameStarts fs fs' path :=
  sameStarts_of_cwd (fun _ hl => h.cwd.trans hl) path

theorem Grows.find {path : String} {follow : Bool} {l : Location} {node : Node} (h : Grows fs fs')
    (hfind : fs.find path follow = .ok (l, node)) :
    ∃ node', fs'.find path follow = .ok (l, node') ∧ node'.entry = node.entry :=
  h.extends_.find (h.sameStarts path) hfind

/-- Nothing changed but at and below `top`. -/
structure SameOutside (top : Location) (fs fs' : FileSystem) : Prop where
  entries : ∀ m, ¬ top <+: m → fs'.entryAt m = fs.entryAt m
  cwd : fs'.cwd = fs.cwd

theorem frame_sameOutside (top : Location) : Attempt.Frame (SameOutside top) :=
  ⟨fun _ => ⟨fun _ _ => rfl, rfl⟩,
    fun hab hbc => ⟨fun m hm => (hbc.1 m hm).trans (hab.1 m hm), hbc.2.trans hab.2⟩⟩

namespace SameOutside

variable {top : Location}

theorem refl (fs : FileSystem) : SameOutside top fs fs := (frame_sameOutside top).refl fs

theorem trans {a b c : FileSystem} (hab : SameOutside top a b) (hbc : SameOutside top b c) :
    SameOutside top a c :=
  (frame_sameOutside top).trans hab hbc

/-- What changes only below `top` loses nothing if nothing was there. -/
theorem grows (h : SameOutside top fs fs') (hfree : fs.entryAt top = none) : Grows fs fs' := by
  refine ⟨fun m e hm => ?_, h.cwd⟩
  rw [h.entries m fun hp => ?_, hm]
  rw [show fs.entryAt m = none from Node.entryAt_below hfree hp] at hm
  cases hm

theorem mono {lower : Location} (h : SameOutside lower fs fs') (hle : top <+: lower) :
    SameOutside top fs fs' :=
  ⟨fun m hm => h.entries m fun hp => hm (hle.trans hp), h.cwd⟩

theorem place (fs : FileSystem) (top : Location) (node : Node) :
    SameOutside top fs (fs.place top node) :=
  ⟨fun _ hm => entryAt_place hm node, rfl⟩

end SameOutside

/-! ### A directory that is there -/

/-- The path leads to a directory, at `l`. -/
def DirAt (fs : FileSystem) (path : String) (l : Location) : Prop :=
  ∃ entries, fs.find path = .ok (l, .dir entries)

theorem dirAt_iff {path : String} {l : Location} :
    fs.DirAt path l ↔ fs.Finds path true (Path.names path) l ∧ fs.entryAt l = some .dir := by
  have hsteps {here : Location} (hdir : fs.entryAt l = some .dir) :
      Leads fs.entryAt true linkLimit here (steps path) l ↔
        Leads fs.entryAt true linkLimit here (Path.names path) l := by
    rw [steps]
    split
    · rw [Leads.concat_dot_iff]
      exact and_iff_left hdir
    · rw [List.append_nil]
  constructor
  · rintro ⟨entries, hfind⟩
    obtain ⟨⟨hflaw, here, hhere, hleads⟩, hget⟩ := find_eq_ok_iff.mp hfind
    have hdir : fs.entryAt l = some .dir := entryAt_eq_dir.mpr ⟨entries, hget⟩
    exact ⟨⟨hflaw, here, hhere, (hsteps hdir).mp hleads⟩, hdir⟩
  · rintro ⟨⟨hflaw, here, hhere, hleads⟩, hdir⟩
    obtain ⟨entries, hget⟩ := entryAt_eq_dir.mp hdir
    exact ⟨entries, find_eq_ok_iff.mpr ⟨⟨hflaw, here, hhere, (hsteps hdir).mpr hleads⟩, hget⟩⟩

theorem DirAt.grows {path : String} {l : Location} (h : fs.DirAt path l) (hg : Grows fs fs') :
    fs'.DirAt path l := by
  obtain ⟨entries, hfind⟩ := h
  obtain ⟨node', hfind', hentry⟩ := hg.find hfind
  obtain ⟨entries', rfl⟩ := Node.entry_eq_dir.mp hentry
  exact ⟨entries', hfind'⟩

theorem isDir_iff {path : String} : fs.isDir path = true ↔ ∃ l, fs.DirAt path l := by
  rw [isDir]
  constructor
  · intro h
    split at h
    · next l entries hfind => exact ⟨l, entries, hfind⟩
    · cases h
  · rintro ⟨l, entries, hfind⟩
    rw [hfind]

theorem DirAt.pathExists {path : String} {l : Location} (h : fs.DirAt path l) :
    fs.pathExists path = true := by
  obtain ⟨entries, hfind⟩ := h
  rw [FileSystem.pathExists, hfind]

/-! ### The text of a path -/

theorem flaw?_eq_none_iff {path : String} : flaw? path = none ↔
    Path.hasNul path = false ∧ path ≠ "" ∧ path.utf8ByteSize < pathLimit := by
  rw [flaw?]
  cases Path.hasNul path with
  | true => simp
  | false =>
    by_cases hempty : path = ""
    · simp [hempty]
    · simp [hempty]

theorem ne_empty_of_flaw?_eq_none {path : String} (h : flaw? path = none) : path ≠ "" :=
  (flaw?_eq_none_iff.mp h).2.1

/-- What can be walked can be walked without its end. -/
theorem flaw?_of_append {path more : String} (hpath : path ≠ "") (h : flaw? (path ++ more) = none) :
    flaw? path = none := by
  obtain ⟨hnul, -, hshort⟩ := flaw?_eq_none_iff.mp h
  rw [Path.hasNul_append, Bool.or_eq_false_iff] at hnul
  rw [String.utf8ByteSize_append] at hshort
  exact flaw?_eq_none_iff.mpr ⟨hnul.1, hpath, by omega⟩

/-- A path with nothing wrong in its text is only refused by the system. -/
theorem walkFor_ne_nul {path : String} (hflaw : flaw? path = none) (follow : Bool)
    (names : List String) : fs.walkFor path follow names ≠ .error .nul := by
  rw [walkFor, hflaw]
  dsimp only
  split
  · simp
  · split <;> simp

/-! ### Shorter paths -/

/-- Fewer slashes at the end lead to the same directory. -/
theorem DirAt.dropSlashes {path : String} {slashes : List Char} {l : Location}
    (h : fs.DirAt (path ++ String.ofList slashes) l) (hpath : path ≠ "")
    (hslashes : ∀ c ∈ slashes, c = '/') : fs.DirAt path l := by
  obtain ⟨⟨hflaw, here, hhere, hleads⟩, hdir⟩ := dirAt_iff.mp h
  refine dirAt_iff.mpr ⟨⟨flaw?_of_append hpath hflaw, here, ?_, ?_⟩, hdir⟩
  · rwa [start, Path.isAbsolute_append hpath] at hhere
  · rwa [Path.names_append_slashes path hslashes] at hleads

/-! ### A name in a directory -/

section

variable {dir name : String} {d : Location}

/-- A walk of one name ends there, unless it is a link's. -/
theorem Leads.of_single {look : Location → Option Entry} {follow : Bool} {links : Nat}
    {here there : Location} (hname : IsName name)
    (hlink : ∀ target, look (here ++ [name]) = some (.link target) → follow = false)
    (h : Leads look follow links here [name] there) : there = here ++ [name] := by
  generalize hnames : [name] = names at h
  cases h with
  | here => cases hnames
  | stay => exact absurd (List.cons.inj hnames).1 hname.ne_here
  | up => exact absurd (List.cons.inj hnames).1 hname.ne_above
  | last => rw [← (List.cons.inj hnames).1]
  | down _ _ _ _ hrest => exact absurd (List.cons.inj hnames).2.symm hrest
  | jump _ _ hlook hfollow =>
    obtain ⟨rfl, rfl⟩ := List.cons.inj hnames
    have hf := hfollow rfl
    rw [hlink _ hlook] at hf
    cases hf

/-- What the path of a name leads to lies in the directory, unless the name is a
link's. -/
theorem location_of_finds_join (hdir : fs.DirAt dir d) (hname : IsName name) {follow : Bool}
    (hlink : ∀ target, fs.entryAt (d ++ [name]) = some (.link target) → follow = false)
    {l : Location}
    (h : fs.Finds (Path.join dir name) follow (Path.names (Path.join dir name)) l) :
    l = d ++ [name] := by
  have hpiece : Path.IsPiece name := ⟨hname.ne_empty, hname.no_slash⟩
  obtain ⟨⟨-, here, hhere, hleads⟩, -⟩ := dirAt_iff.mp hdir
  obtain ⟨-, here', hhere', hleads'⟩ := h
  rw [Path.names_join hpiece] at hleads'
  rw [start, Path.isAbsolute_join hpiece] at hhere'
  rw [start, hhere'] at hhere
  cases hhere
  obtain ⟨d', links', hd', -, hlast⟩ := hleads'.of_concat
  -- All names but the last lead to the directory.
  cases hleads.unique hd'
  exact hlast.of_single hname hlink

/-- What is found under the path of a name is in the directory. -/
theorem location_of_find_join (hdir : fs.DirAt dir d) (hname : IsName name) {follow : Bool}
    (hlink : ∀ target, fs.entryAt (d ++ [name]) = some (.link target) → follow = false)
    {l : Location} {node : Node} (h : fs.find (Path.join dir name) follow = .ok (l, node)) :
    l = d ++ [name] ∧ fs.get? (d ++ [name]) = some node := by
  obtain ⟨hfinds, hget⟩ := find_eq_ok_iff.mp h
  rw [steps, Path.endsInSlash_join ⟨hname.ne_empty, hname.no_slash⟩, if_neg Bool.false_ne_true,
    List.append_nil] at hfinds
  obtain rfl := location_of_finds_join hdir hname hlink hfinds
  exact ⟨rfl, hget⟩

end

end MonitoredCompile.FileSystem

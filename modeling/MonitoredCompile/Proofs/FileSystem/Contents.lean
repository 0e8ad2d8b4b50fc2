/-
MonitoredCompile/Proofs/FileSystem/Contents.lean

What a directory shows to a reader: the files that plain names lead to from it, links
followed.  In a tree without links these are the files of the tree (`LinkFree.showsAt_iff`).
A walk itself needs only directories and links, so a path keeps its meaning as long as
these stay, whatever becomes of the files (`Roads.target`).
-/
import MonitoredCompile.Proofs.FileSystem.Growth

namespace MonitoredCompile.FileSystem

/-! ### What a walk needs -/

namespace Leads

variable {look look' : Location → Option Entry} {follow : Bool} {links : Nat} {here there : Location}
  {names : List String}

/-- A walk that goes on is in a directory. -/
theorem dir_of_ne_nil (h : Leads look follow links here names there) (hnames : names ≠ []) :
    look here = some .dir := by
  cases h with
  | here => exact absurd rfl hnames
  | stay hl | up hl | last hl | down hl | jump hl => exact hl

/-- A walk goes the same way wherever the directories and links are that are there. -/
theorem along (h : Leads look follow links here names there)
    (hdirs : ∀ l, look l = some .dir → look' l = some .dir)
    (hlinks : ∀ l target, look l = some (.link target) → look' l = some (.link target))
    (hthere : ∀ e, look there = some e → ∃ e', look' there = some e')
    (hend : ∀ target, look' there = some (.link target) →
      look there = some (.link target) ∨ follow = false) :
    Leads look' follow links here names there := by
  induction h with
  | here hl =>
    obtain ⟨e', he'⟩ := hthere _ hl
    exact .here he'
  | stay hl _ ih => exact .stay (hdirs _ hl) (ih hthere hend)
  | up hl _ ih => exact .up (hdirs _ hl) (ih hthere hend)
  | last hl hstep hlink =>
    refine .last (hdirs _ hl) hstep fun target htarget => ?_
    rcases hend target htarget with hold | hfollow
    · exact hlink target hold
    · exact hfollow
  | @down links here name e rest there hl hstep hlook hlink hrest hwalk ih =>
    -- The walk goes on, so what it has come down to is a directory.
    have hdir := hwalk.dir_of_ne_nil hrest
    exact .down (hdirs _ hl) hstep (hdirs _ hdir) (by simp) hrest (ih hthere hend)
  | jump hl hstep hlook hfollow _ ih =>
    exact .jump (hdirs _ hl) hstep (hlinks _ _ hlook) hfollow (ih hthere hend)

end Leads

/-- The directories and links of the first file system are in the second. -/
structure Roads (fs fs' : FileSystem) : Prop where
  dirs : ∀ l, fs.entryAt l = some .dir → fs'.entryAt l = some .dir
  links : ∀ l target, fs.entryAt l = some (.link target) → fs'.entryAt l = some (.link target)

variable {fs fs' : FileSystem} {path : String} {l : Location} {slash : Bool}

theorem Extends.roads (h : Extends fs fs') : Roads fs fs' :=
  ⟨fun l hl => h l _ hl, fun l _ hl => h l _ hl⟩

theorem Roads.trans {a b c : FileSystem} (hab : Roads a b) (hbc : Roads b c) : Roads a c :=
  ⟨fun l hl => hbc.dirs l (hab.dirs l hl), fun l target hl => hbc.links l target (hab.links l target hl)⟩

/-- A path that names a free place still names it, whatever stands there now. -/
theorem Roads.target (h : Roads fs fs') (hstart : SameStarts fs fs' path)
    (ht : fs.target path = .ok (.name ⟨l, none⟩ slash)) :
    fs'.target path = .ok (.name ⟨l, fs'.get? l⟩ slash) := by
  obtain ⟨hslash, hnames, ⟨hflaw, here, hhere, hleads⟩, hnode⟩ := target_eq_name_iff.mp ht
  have hfree : fs.entryAt l = none := Option.map_eq_none_iff.mpr hnode.symm
  refine target_eq_name_iff.mpr ⟨hslash, hnames, ⟨hflaw, here, hstart here hhere, ?_⟩, rfl⟩
  refine hleads.along h.dirs h.links (fun e he => ?_) fun _ _ => .inr (Bool.false_and _)
  cases hfree.symm.trans he

/-- A directory that stands at the place a path names is where the path leads. -/
theorem dirAt_of_target {node : Option Node} (ht : fs.target path = .ok (.name ⟨l, node⟩ slash))
    (hdir : fs.entryAt l = some .dir) : fs.DirAt path l := by
  obtain ⟨-, -, ⟨hflaw, here, hhere, hleads⟩, -⟩ := target_eq_name_iff.mp ht
  rw [Bool.false_and] at hleads
  refine dirAt_iff.mpr ⟨⟨hflaw, here, hhere, hleads.follows fun target htarget => ?_⟩, hdir⟩
  cases hdir.symm.trans htarget

/-! ### What a directory shows -/

/-- The names lead from the directory at `top` to a file with these bytes. -/
def ShowsAt (fs : FileSystem) (top : Location) (names : List String) (bytes : Bytes) : Prop :=
  (∀ name ∈ names, IsStep name) ∧ ∃ l f, Leads fs.entryAt true linkLimit top names l ∧
    fs.entryAt l = some (.file f) ∧ f.bytes = bytes

/-- The path leads to a directory in which the names lead to a file with these bytes. -/
def Shows (fs : FileSystem) (path : String) (names : List String) (bytes : Bytes) : Prop :=
  ∃ top, fs.DirAt path top ∧ fs.ShowsAt top names bytes

theorem DirAt.unique {top top' : Location} (h : fs.DirAt path top) (h' : fs.DirAt path top') :
    top = top' := by
  obtain ⟨_, hfind⟩ := h
  obtain ⟨_, hfind'⟩ := h'
  rw [hfind] at hfind'
  cases hfind'
  rfl

theorem DirAt.shows_iff {top : Location} (h : fs.DirAt path top) {names : List String}
    {bytes : Bytes} : fs.Shows path names bytes ↔ fs.ShowsAt top names bytes := by
  constructor
  · rintro ⟨top', h', hshows⟩
    rwa [h.unique h']
  · intro hshows
    exact ⟨top, h, hshows⟩

/-- The files as somebody in this directory sees them. -/
def seenFrom (fs : FileSystem) (cwd : Option Location) : FileSystem := { fs with cwd }

/-- There is no link at or below `top`. -/
def LinkFree (fs : FileSystem) (top : Location) : Prop :=
  ∀ k target, fs.entryAt (top ++ k) ≠ some (.link target)

section

variable {top : Location}

theorem LinkFree.below (h : fs.LinkFree top) (name : String) : fs.LinkFree (top ++ [name]) := by
  intro k target
  rw [List.append_assoc]
  exact h _ target

/-- There are no links in a directory that holds only files. -/
theorem linkFree_of_files {entries : List (String × Node)} (hget : fs.get? top = some (.dir entries))
    (hfiles : ∀ e ∈ entries, ∃ f, e.2 = .file f) : fs.LinkFree top := by
  intro k target hlink
  rw [entryAt_append_of_get? hget] at hlink
  cases k with
  | nil => cases hlink
  | cons name rest =>
    rw [Node.entryAt, Node.get?_dir_cons] at hlink
    cases hfind : Node.find? name entries with
    | none =>
      rw [hfind] at hlink
      cases hlink
    | some node =>
      obtain ⟨f, rfl⟩ := hfiles _ (Node.mem_of_find? hfind)
      rw [hfind, Option.bind_some] at hlink
      cases rest <;> cases hlink

/-- Without links plain names lead straight down. -/
theorem LinkFree.location_of_leads {links : Nat} {names : List String} (hfree : fs.LinkFree top)
    (hnames : ∀ name ∈ names, IsStep name) (h : Leads fs.entryAt true links top names l) :
    l = top ++ names := by
  induction names generalizing top with
  | nil =>
    cases h
    rw [List.append_nil]
  | cons name rest ih =>
    have hstep := hnames name List.mem_cons_self
    have hmore := fun n hn => hnames n (List.mem_cons_of_mem name hn)
    cases h with
    | stay => exact absurd rfl hstep.ne_here
    | up => exact absurd rfl hstep.ne_above
    | last => rfl
    | down _ _ _ _ _ hwalk =>
      rw [ih (hfree.below name) hmore hwalk, List.append_assoc, List.singleton_append]
    | jump _ _ hlook => exact absurd hlook (hfree [name] _)

/-- Plain names lead straight down to what is there if no link comes before it. -/
theorem LinkFree.leads {names : List String} {e : Entry} (hfree : fs.LinkFree top)
    (hnames : ∀ name ∈ names, IsStep name) (links : Nat) (h : fs.entryAt (top ++ names) = some e) :
    Leads fs.entryAt true links top names (top ++ names) := by
  induction names generalizing top with
  | nil =>
    rw [List.append_nil] at h ⊢
    exact .here h
  | cons name rest ih =>
    have hstep := hnames name List.mem_cons_self
    have hdir : fs.entryAt top = some .dir := dir_of_below h
    rw [List.append_cons] at h ⊢
    cases rest with
    | nil =>
      rw [List.append_nil] at h ⊢
      exact .last hdir hstep fun target htarget => absurd htarget (hfree [name] target)
    | cons next more =>
      have hsub : fs.entryAt (top ++ [name]) = some .dir := dir_of_below h
      refine .down hdir hstep hsub (by simp) (by simp) ?_
      exact ih (hfree.below name) (fun n hn => hnames n (List.mem_cons_of_mem name hn)) h

/-- A tree without links shows its files. -/
theorem LinkFree.showsAt_iff {names : List String} {bytes : Bytes} (hfree : fs.LinkFree top) :
    fs.ShowsAt top names bytes ↔ (∀ name ∈ names, IsStep name) ∧
      ∃ f, fs.entryAt (top ++ names) = some (.file f) ∧ f.bytes = bytes := by
  refine and_congr_right fun hnames => ⟨?_, ?_⟩
  · rintro ⟨l, f, hleads, hfile, hbytes⟩
    rw [hfree.location_of_leads hnames hleads] at hfile
    exact ⟨f, hfile, hbytes⟩
  · rintro ⟨f, hfile, hbytes⟩
    exact ⟨_, f, hfree.leads hnames _ hfile, hfile, hbytes⟩

end

/-- Trees without links that are the same show the same. -/
theorem LinkFree.showsAt_congr {top top' : Location} {names : List String} {bytes : Bytes}
    (hfree : fs.LinkFree top) (hsame : ∀ k, fs'.entryAt (top' ++ k) = fs.entryAt (top ++ k)) :
    fs'.ShowsAt top' names bytes ↔ fs.ShowsAt top names bytes := by
  have hfree' : fs'.LinkFree top' := fun k target => by rw [hsame]; exact hfree k target
  rw [hfree'.showsAt_iff, hfree.showsAt_iff, hsame]

end MonitoredCompile.FileSystem

/-
MonitoredCompile/Proofs/FileSystem/Additions.lean

What may be added to a file system that somebody else uses, too.  `Adds log made` says that
nothing is gone and nothing has changed, except that a file which is being logged to may have
more at its end, and that whatever is new is where `made` says.  Paths that led somewhere
still lead there, since the old file system `Embeds` in the new one, and an empty directory is
still empty if nothing was made in it.

`Created` is the other half, for one new node: nothing was at its location, no way of
walking its path led anywhere, and now the path leads to the node.
-/
import MonitoredCompile.Proofs.FileSystem.Paving

namespace MonitoredCompile.FileSystem

variable {log made : Location → Prop} {fs fs' : FileSystem} {l m : Location} {path : String}

/-! ### Ways that stay -/

/-- Wherever somebody can walk in the first file system he can in the second. -/
structure Embeds (fs fs' : FileSystem) : Prop where
  alike : ∀ m e, fs.entryAt m = some e → ∃ e', fs'.entryAt m = some e' ∧ Entry.Alike e e'
  cwd : ∀ here, fs.cwd = some here → fs'.cwd = some here

namespace Embeds

variable (h : Embeds fs fs')
include h

theorem dir (hm : fs.entryAt m = some .dir) : fs'.entryAt m = some .dir := by
  obtain ⟨e, he, halike⟩ := h.alike m _ hm
  rw [he, halike.dir.mp rfl]

theorem sameStarts (path : String) : SameStarts fs fs' path := sameStarts_of_cwd h.cwd path

theorem leads {follow : Bool} {links : Nat} {here : Location} {names : List String}
    (hleads : Leads fs.entryAt follow links here names l) (hl : fs.entryAt l ≠ none) :
    Leads fs'.entryAt follow links here names l :=
  hleads.mono h.alike fun hnone => absurd hnone hl

theorem finds {follow : Bool} {names : List String} (hfinds : fs.Finds path follow names l)
    (hl : fs.entryAt l ≠ none) : fs'.Finds path follow names l := by
  obtain ⟨hflaw, here, hhere, hleads⟩ := hfinds
  exact ⟨hflaw, here, h.sameStarts path here hhere, h.leads hleads hl⟩

theorem find {follow : Bool} {node : Node} (hfind : fs.find path follow = .ok (l, node)) :
    ∃ node', fs'.find path follow = .ok (l, node') ∧ Entry.Alike node.entry node'.entry := by
  obtain ⟨hfinds, hget⟩ := find_eq_ok_iff.mp hfind
  have hentry := entryAt_of_get? hget
  obtain ⟨e', he', halike⟩ := h.alike l _ hentry
  obtain ⟨node', hget', rfl⟩ := Option.map_eq_some_iff.mp he'
  exact ⟨node', find_eq_ok_iff.mpr ⟨h.finds hfinds (by rw [hentry]; simp), hget'⟩, halike⟩

theorem dirAt (hdir : fs.DirAt path l) : fs'.DirAt path l := by
  obtain ⟨entries, hfind⟩ := hdir
  obtain ⟨node', hfind', halike⟩ := h.find hfind
  obtain ⟨entries', rfl⟩ := Node.entry_eq_dir.mp (halike.dir.mp rfl)
  exact ⟨entries', hfind'⟩

end Embeds

/-! ### Additions -/

/-- There is that file with more at its end. -/
def LongerAt (fs : FileSystem) (l : Location) (e : Entry) : Prop :=
  ∃ (f : File) (more : Bytes), e = .file f ∧
    fs.entryAt l = some (.file (f.overwrite (f.bytes ++ more)))

structure Adds (log made : Location → Prop) (fs fs' : FileSystem) : Prop where
  old : ∀ m e, fs.entryAt m = some e → fs'.entryAt m = some e ∨ log m ∧ fs'.LongerAt m e
  new : ∀ m, fs.entryAt m = none → fs'.entryAt m ≠ none → made m
  cwd : fs'.cwd = fs.cwd
  opened : fs'.opened = fs.opened

/-- What has grown twice has grown by both. -/
theorem LongerAt.trans {mid : FileSystem} {e e' : Entry} (h : mid.LongerAt l e)
    (hmid : mid.entryAt l = some e') (h' : fs.LongerAt l e') : fs.LongerAt l e := by
  obtain ⟨f, more, rfl, hf⟩ := h
  cases hf.symm.trans hmid
  obtain ⟨g, more', hg, hl⟩ := h'
  cases hg
  refine ⟨f, more ++ more', rfl, hl.trans ?_⟩
  show some (Entry.file (f.overwrite (f.bytes ++ more ++ more'))) = _
  rw [List.append_assoc]

namespace Adds

theorem refl (fs : FileSystem) : Adds log made fs fs :=
  ⟨fun _ _ h => .inl h, fun _ hnone hsome => absurd hnone hsome, rfl, rfl⟩

theorem mono {made' : Location → Prop} (h : Adds log made fs fs') (hmade : ∀ m, made m → made' m) :
    Adds log made' fs fs' :=
  ⟨h.old, fun m hnone hsome => hmade m (h.new m hnone hsome), h.cwd, h.opened⟩

theorem trans {a b c : FileSystem} (hab : Adds log made a b) (hbc : Adds log made b c) :
    Adds log made a c := by
  refine ⟨fun m e hm => ?_, fun m hnone hsome => ?_, hbc.cwd.trans hab.cwd,
    hbc.opened.trans hab.opened⟩
  · rcases hab.old m e hm with hb | ⟨hlog, hlonger⟩
    · exact hbc.old m e hb
    · obtain ⟨f, more, he, hb⟩ := id hlonger
      rcases hbc.old m _ hb with hc | ⟨-, hmore⟩
      · exact .inr ⟨hlog, f, more, he, hc⟩
      · exact .inr ⟨hlog, hlonger.trans hb hmore⟩
  · by_cases hb : b.entryAt m = none
    · exact hbc.new m hb hsome
    · exact hab.new m hnone hb

theorem of_grows (h : Grows fs fs') (hopened : fs'.opened = fs.opened)
    (hnew : ∀ m, fs.entryAt m = none → fs'.entryAt m ≠ none → made m) : Adds log made fs fs' :=
  ⟨fun m e hm => .inl (h.extends_ m e hm), hnew, h.cwd, hopened⟩

theorem appendOpen (fs : FileSystem) (handle : Nat) (bytes : Bytes)
    (hlog : ∀ l, fs.opened[handle]?.bind OpenFile.location = some l → log l) :
    Adds log made fs (fs.appendOpen handle bytes) := by
  refine fs.appendOpen_cases (P := Adds log made fs) handle bytes (.refl fs) fun l f hl hget => ?_
  have hafter := get?_place hget (.file (f.overwrite (f.bytes ++ bytes)))
  have hentry := entryAt_of_get? hafter
  refine ⟨fun m e hm => ?_, fun m hnone hsome => ?_, rfl, rfl⟩
  · by_cases hp : l <+: m
    · obtain ⟨k, rfl⟩ := hp
      cases k with
      | nil =>
        rw [List.append_nil] at hm ⊢
        cases (entryAt_of_get? hget).symm.trans hm
        exact .inr ⟨hlog l hl, f, bytes, rfl, hentry⟩
      | cons name k => cases (entryAt_below_file hget).symm.trans hm
    · exact .inl ((entryAt_place hp _).trans hm)
  · by_cases hp : l <+: m
    · obtain ⟨k, rfl⟩ := hp
      cases k with
      | nil =>
        rw [List.append_nil, entryAt_of_get? hget] at hnone
        cases hnone
      | cons name k => exact absurd (entryAt_below_file hafter) hsome
    · exact absurd hnone (by rwa [entryAt_place hp] at hsome)

section

variable (h : Adds log made fs fs')
include h

theorem alike {e : Entry} (hm : fs.entryAt m = some e) :
    ∃ e', fs'.entryAt m = some e' ∧ Entry.Alike e e' := by
  rcases h.old m e hm with hsame | ⟨-, f, more, rfl, hgrown⟩
  · exact ⟨e, hsame, .refl e⟩
  · exact ⟨_, hgrown, .ofFiles _ _⟩

theorem embeds : Embeds fs fs' := ⟨fun _ _ hm => h.alike hm, fun _ hhere => h.cwd.trans hhere⟩

theorem entryAt_eq_none (hm : fs'.entryAt m = none) : fs.entryAt m = none := by
  cases hbefore : fs.entryAt m with
  | none => rfl
  | some e =>
    obtain ⟨e', he', -⟩ := h.alike hbefore
    rw [hm] at he'
    cases he'

theorem onTheWay (hway : fs.OnTheWay path l) : fs'.OnTheWay path l := by
  obtain ⟨part, hpart, hdir⟩ := hway
  exact ⟨part, hpart, h.embeds.dirAt hdir⟩

/-- An empty directory stays empty if nothing is made in it. -/
theorem emptyDir (hempty : fs.get? l = some (.dir []))
    (hmade : ∀ name, ¬ made (l ++ [name])) : fs'.get? l = some (.dir []) := by
  obtain ⟨entries, hget⟩ := entryAt_eq_dir.mp (h.embeds.dir (entryAt_of_get? hempty))
  rcases entries with - | ⟨⟨name, node⟩, rest⟩
  · exact hget
  · have hbefore : fs.entryAt (l ++ [name]) = none := entryAt_below_emptyDir hempty
    have hafter : fs'.entryAt (l ++ [name]) = some node.entry := by
      refine entryAt_of_get? ((find?_of_get? hget name).symm.trans ?_)
      rw [Node.find?, if_pos rfl]
    exact absurd (h.new _ hbefore (by rw [hafter]; simp)) (hmade name)

theorem find_emptyDir (hfind : fs.find path false = .ok (l, .dir []))
    (hmade : ∀ name, ¬ made (l ++ [name])) : fs'.find path false = .ok (l, .dir []) := by
  obtain ⟨hfinds, hget⟩ := find_eq_ok_iff.mp hfind
  have hentry := entryAt_of_get? hget
  exact find_eq_ok_iff.mpr ⟨h.embeds.finds hfinds (by rw [hentry]; simp), h.emptyDir hget hmade⟩

end

end Adds

/-! ### The directory of a name -/

/-- The names of the path lead to this directory. -/
def Enters (fs : FileSystem) (path : String) (d : Location) : Prop :=
  fs.entryAt d = some .dir ∧
    ∃ here, fs.start path = .ok here ∧ Leads fs.entryAt true linkLimit here (Path.names path) d

theorem Enters.embeds {d : Location} (h : fs.Enters path d) (hembeds : Embeds fs fs') :
    fs'.Enters path d := by
  obtain ⟨hdir, here, hhere, hleads⟩ := h
  exact ⟨hembeds.dir hdir, here, hembeds.sameStarts path here hhere,
    hembeds.leads hleads (by rw [hdir]; simp)⟩

theorem Enters.unique {d d' : Location} (h : fs.Enters path d) (h' : fs.Enters path d') : d = d' := by
  obtain ⟨-, here, hhere, hleads⟩ := h
  obtain ⟨-, here', hhere', hleads'⟩ := h'
  cases hhere.symm.trans hhere'
  exact hleads.unique hleads'

/-! ### Creation -/

/-- The node is new at this location and under this path. -/
structure Created (before after : FileSystem) (path : String) (node : Node) (l : Location) :
    Prop where
  free : before.entryAt l = none
  unnamed : ∀ follow found, before.find path follow ≠ .ok found
  there : after.find path false = .ok (l, node)

/-- What nothing stood in the way of was nowhere before. -/
theorem Adds.created {node : Node} (h : Adds log made fs fs') (hl : fs.entryAt l = none)
    (hlink : ∀ target, node ≠ .link target) (hfind : fs'.find path false = .ok (l, node)) :
    Created fs fs' path node l := by
  refine ⟨hl, fun follow ⟨m, old⟩ hbefore => ?_, hfind⟩
  obtain ⟨⟨hflaw, here, hhere, hleads⟩, hget⟩ := find_eq_ok_iff.mp hfind
  obtain ⟨hfinds, hold⟩ := find_eq_ok_iff.mp hbefore
  have hm : fs.entryAt m ≠ none := by
    rw [entryAt_of_get? hold]
    simp
  have hboth : Leads fs'.entryAt follow linkLimit here (steps path) l := by
    cases follow with
    | false => exact hleads
    | true =>
      refine hleads.follows fun target htarget => hlink target ?_
      have hentry : fs'.entryAt l = some node.entry := entryAt_of_get? hget
      exact Node.entry_eq_link.mp (Option.some.inj (hentry.symm.trans htarget))
  have hfound : fs'.Finds path follow (steps path) l := ⟨hflaw, here, hhere, hboth⟩
  obtain rfl := (h.embeds.finds hfinds hm).unique hfound
  exact hm hl

/-- Creating a name in a directory adds the node and nothing else. -/
theorem adds_of_create (log : Location → Prop) {dir name : String} {node : Node} (hname : IsName name)
    (hflat : ∀ name k, node.entryAt (name :: k) = none)
    (h : fs.create (Path.join dir name) node = .ok fs') :
    ∃ d, fs.Enters dir d ∧ fs.entryAt (d ++ [name]) = none ∧
      fs'.find (Path.join dir name) false = .ok (d ++ [name], node) ∧
      Adds log (· = d ++ [name]) fs fs' := by
  have hpiece : Path.IsPiece name := ⟨hname.ne_empty, hname.no_slash⟩
  obtain ⟨l, slash, ht⟩ := target_of_create h
  obtain ⟨-, -, ⟨-, here, hhere, hleads⟩, hnode⟩ := target_eq_name_iff.mp ht
  rw [Bool.false_and, Path.names_join hpiece] at hleads
  obtain ⟨d, rfl, hdir, -, hd⟩ := hleads.of_concat_name hname.ne_here hname.ne_above
  have hstart : fs.start dir = .ok here := by
    rwa [start, Path.isAbsolute_join hpiece] at hhere
  have hfree := free_of_target ht
  have hplaced := hfree.get?_place ht node
  obtain ⟨l, -, hfind⟩ := find_of_create (Path.endsInSlash_join hpiece) h
  obtain rfl := hfree.create h
  have hdir' : (fs.place (d ++ [name]) node).Enters dir d := by
    have hgrows := (SameOutside.place fs (d ++ [name]) node).grows hfree.entry
    refine ⟨hgrows.extends_ d _ hdir, here, (hgrows.sameStarts dir) here hstart, ?_⟩
    exact hd.mono (fun m e hm => ⟨e, hgrows.extends_ m e hm, .refl e⟩) fun hnone => by
      rw [hdir] at hnone
      cases hnone
  have hl : l = d ++ [name] := by
    obtain ⟨⟨-, here', hhere', hleads'⟩, -⟩ := find_eq_ok_iff.mp hfind
    rw [steps, Path.endsInSlash_join hpiece, if_neg Bool.false_ne_true, List.append_nil,
      Path.names_join hpiece] at hleads'
    obtain ⟨d', rfl, hd', -, hleads''⟩ := hleads'.of_concat_name hname.ne_here hname.ne_above
    have hstart' : (fs.place (d ++ [name]) node).start dir = .ok here' := by
      rwa [start, Path.isAbsolute_join hpiece] at hhere'
    rw [hdir'.unique ⟨hd', here', hstart', hleads''⟩]
  refine ⟨d, ⟨hdir, here, hstart, hd⟩, hfree.entry, hl ▸ hfind, ?_⟩
  refine .of_grows ((SameOutside.place fs _ node).grows hfree.entry) rfl fun m hnone hsome => ?_
  by_cases hm : d ++ [name] <+: m
  · obtain ⟨k, rfl⟩ := hm
    cases k with
    | nil => exact List.append_nil _
    | cons below k =>
      rw [entryAt_append_of_get? hplaced, hflat] at hsome
      exact absurd rfl hsome
  · rw [entryAt_place hm] at hsome
    exact absurd hnone hsome

end MonitoredCompile.FileSystem

/-
MonitoredCompile/Proofs/FileSystem/Extends.lean

File systems that have all that another one has.  Creating something where nothing
was extends a file system (`extends_place`), and removing something leaves one that
the old one extends (`extends_remove`).  A path that leads somewhere leads to the
same place in every extension (`Extends.find`), and a path that leads somewhere in
two file systems with nothing different in them leads to one place
(`Finds.unique_of_agree`).
-/
import MonitoredCompile.FileSystem.Calls
import MonitoredCompile.Proofs.FileSystem.Walks

namespace MonitoredCompile

/-! ### Entries -/

theorem Location.not_concat_prefix (d : Location) (name : String) : ¬ d ++ [name] <+: d := by
  intro hp
  have hlength := hp.length_le
  rw [List.length_append, List.length_singleton] at hlength
  omega

namespace Node

theorem entry_eq_file {node : Node} {f : File} : node.entry = .file f ↔ node = .file f := by
  cases node <;> simp [entry]

theorem entry_eq_link {node : Node} {target : String} :
    node.entry = .link target ↔ node = .link target := by
  cases node <;> simp [entry]

theorem entry_eq_dir {node : Node} : node.entry = .dir ↔ ∃ entries, node = .dir entries := by
  cases node <;> simp [entry]

/-- Only a directory holds something. -/
theorem entryAt_child {node : Node} {d : Location} (hd : node.entryAt d ≠ some .dir) (name : String)
    (k : Location) : node.entryAt (d ++ name :: k) = none := by
  rw [entryAt] at hd ⊢
  rw [get?_append]
  cases hget : node.get? d with
  | none => rfl
  | some parent =>
    rw [hget] at hd
    cases parent with
    | dir entries => exact absurd rfl hd
    | file f | link t | device => rfl

/-- Where nothing is, nothing is below. -/
theorem entryAt_below {node : Node} {l m : Location} (hl : node.entryAt l = none) (hm : l <+: m) :
    node.entryAt m = none := by
  obtain ⟨k, rfl⟩ := hm
  rw [entryAt] at hl ⊢
  rw [get?_append, Option.map_eq_none_iff.mp hl]
  rfl

end Node

namespace FileSystem

variable {fs fs' : FileSystem} {l m : Location}

/-- What is below a node is what the node has there. -/
theorem entryAt_append_of_get? {node : Node} (h : fs.get? l = some node) (k : Location) :
    fs.entryAt (l ++ k) = node.entryAt k := by
  rw [entryAt, Node.entryAt, Node.get?_append, show fs.root.get? l = some node from h]
  rfl

/-- What something is below is a directory. -/
theorem dir_of_below {name : String} {k : Location} {e : Entry}
    (h : fs.entryAt (l ++ name :: k) = some e) : fs.entryAt l = some .dir := by
  refine Decidable.byContradiction fun hno : fs.root.entryAt l ≠ some .dir => ?_
  cases (Node.entryAt_child hno name k).symm.trans h

theorem entryAt_dropLast (h : fs.entryAt l = some .dir) : fs.entryAt l.dropLast = some .dir := by
  rcases List.eq_nil_or_concat l with rfl | ⟨d, name, rfl⟩
  · exact h
  · rw [List.concat_eq_append] at h ⊢
    rw [List.dropLast_concat]
    exact dir_of_below h

theorem entryAt_withNode (hm : ¬ l <+: m) (value : Option Node) :
    (fs.withNode l value).entryAt m = fs.entryAt m := by
  rw [withNode, entryAt]
  cases hput : fs.root.put l value with
  | none => rfl
  | some after => exact Node.entryAt_put hput hm

/-- What is at and below a location after a change there, if it is in a directory. -/
theorem entryAt_withNode_below {d k : Location} {name : String} (hd : fs.entryAt d = some .dir)
    (value : Option Node) :
    (fs.withNode (d ++ [name]) value).entryAt (d ++ name :: k) = value.bind (·.entryAt k) := by
  obtain ⟨entries, hget⟩ := entryAt_eq_dir.mp hd
  obtain ⟨after, hput⟩ := Node.put_isSome (l := d ++ [name]) (by simp) fs.root value
  rw [withNode, entryAt, Node.entryAt]
  rw [hput, Option.getD_some, Node.get?_put hget hput]
  cases value <;> rfl

theorem entryAt_place (hm : ¬ l <+: m) (node : Node) : (fs.place l node).entryAt m = fs.entryAt m :=
  entryAt_withNode hm (some node)

theorem entryAt_place_below {d k : Location} {name : String} (hd : fs.entryAt d = some .dir)
    (node : Node) : (fs.place (d ++ [name]) node).entryAt (d ++ name :: k) = node.entryAt k :=
  entryAt_withNode_below hd (some node)

theorem entryAt_remove (hm : ¬ l <+: m) : (fs.remove l).entryAt m = fs.entryAt m :=
  entryAt_withNode hm none

/-- Nothing is left at or below a location from which something was removed. -/
theorem entryAt_remove_below (hl : l ≠ []) (hm : l <+: m) : (fs.remove l).entryAt m = none := by
  obtain ⟨k, rfl⟩ := hm
  rcases List.eq_nil_or_concat l with rfl | ⟨d, name, rfl⟩
  · exact absurd rfl hl
  · rw [List.concat_eq_append, List.append_assoc, List.singleton_append]
    by_cases hd : fs.entryAt d = some .dir
    · exact entryAt_withNode_below hd none
    -- Without a directory nothing was there before either.
    · refine Node.entryAt_child (fun hdir => hd ?_) name k
      rw [← hdir]
      exact (entryAt_withNode (Location.not_concat_prefix d name) none).symm

theorem entryAt_of_remove {e : Entry} (h : (fs.remove l).entryAt m = some e) :
    fs.entryAt m = some e := by
  by_cases hm : l <+: m
  · by_cases hl : l = []
    · subst hl
      exact h
    · rw [entryAt_remove_below hl hm] at h
      cases h
  · rw [← h, entryAt_remove hm]

/-! ### Extensions -/

/-- The second file system has all that the first has. -/
def Extends (fs fs' : FileSystem) : Prop := ∀ l e, fs.entryAt l = some e → fs'.entryAt l = some e

theorem Extends.refl (fs : FileSystem) : Extends fs fs := fun _ _ h => h

theorem Extends.trans {a b c : FileSystem} (hab : Extends a b) (hbc : Extends b c) : Extends a c :=
  fun l e h => hbc l e (hab l e h)

theorem extends_place (hl : fs.entryAt l = none) (node : Node) : Extends fs (fs.place l node) := by
  intro m e hm
  rw [entryAt_place ?_, hm]
  intro hp
  rw [show fs.entryAt m = none from Node.entryAt_below hl hp] at hm
  cases hm

theorem extends_remove (fs : FileSystem) (l : Location) : Extends (fs.remove l) fs :=
  fun _ _ h => entryAt_of_remove h

/-- Every path that can be walked from somewhere can be walked from the same place. -/
def SameStarts (fs fs' : FileSystem) (path : String) : Prop :=
  ∀ here, fs.start path = .ok here → fs'.start path = .ok here

theorem sameStarts_of_isAbsolute {path : String} (h : Path.isAbsolute path = true)
    (fs fs' : FileSystem) : SameStarts fs fs' path := by
  intro here hstart
  rw [start, if_pos h] at hstart ⊢
  exact hstart

theorem sameStarts_of_cwd (h : ∀ l, fs.cwd = some l → fs'.cwd = some l) (path : String) :
    SameStarts fs fs' path := by
  intro here hstart
  rw [start] at hstart ⊢
  split
  · next habs => rwa [if_pos habs] at hstart
  · next habs =>
    rw [if_neg habs] at hstart
    cases hcwd : fs.cwd with
    | none => rw [hcwd] at hstart; cases hstart
    | some d =>
      rw [hcwd] at hstart
      rw [h d hcwd]
      exact hstart

theorem cwd_of_remove {m : Location} (h : (fs.remove l).cwd = some m) : fs.cwd = some m := by
  obtain ⟨here, hhere, hkept⟩ :=
    Option.bind_eq_some_iff.mp (show fs.cwd.bind (keptAfter l) = some m from h)
  rw [hhere]
  rw [keptAfter] at hkept
  split at hkept
  · cases hkept
  · exact hkept

theorem sameStarts_remove (fs : FileSystem) (l : Location) (path : String) :
    SameStarts (fs.remove l) fs path :=
  sameStarts_of_cwd (fun _ hm => cwd_of_remove hm) path

/-! ### Paths in an extension -/

variable {path : String} {follow : Bool} {names : List String}

theorem Finds.mono (h : fs.Finds path follow names l) (hext : Extends fs fs')
    (hstart : SameStarts fs fs' path)
    (hend : fs.entryAt l = none → ∀ target, fs'.entryAt l = some (.link target) → follow = false) :
    fs'.Finds path follow names l := by
  obtain ⟨hflaw, here, hhere, hleads⟩ := h
  exact ⟨hflaw, here, hstart here hhere,
    hleads.mono (fun m e hm => ⟨e, hext m e hm, .refl e⟩) hend⟩

theorem Finds.unique {l' : Location} (h : fs.Finds path follow names l)
    (h' : fs.Finds path follow names l') : l = l' := by
  obtain ⟨-, here, hhere, hleads⟩ := h
  obtain ⟨-, here', hhere', hleads'⟩ := h'
  rw [hhere] at hhere'
  cases hhere'
  exact hleads.unique hleads'

/-- Nothing is in both file systems and different. -/
def Agree (fs fs' : FileSystem) : Prop := Leads.Agree fs.entryAt fs'.entryAt

theorem agree_of_extends (h : Extends fs fs') : Agree fs fs' := by
  intro l e e' hl hl'
  have := h l e hl
  rw [hl', Option.some.injEq] at this
  exact this.symm

/-- A path that leads somewhere in both of two file systems that agree leads to
one place. -/
theorem Finds.unique_of_agree {l' : Location} (h : fs.Finds path follow names l)
    (h' : fs'.Finds path follow names l') (hagree : Agree fs fs')
    (hstart : SameStarts fs fs' path)
    (hend : fs.entryAt l = none → ∀ target, fs'.entryAt l = some (.link target) → follow = false)
    (hend' : fs'.entryAt l' = none → ∀ target, fs.entryAt l' = some (.link target) → follow = false) :
    l = l' := by
  obtain ⟨-, here, hhere, hleads⟩ := h
  obtain ⟨-, here', hhere', hleads'⟩ := h'
  rw [hstart here hhere] at hhere'
  cases hhere'
  exact hleads.unique_of_agree hagree hleads' hend hend'

/-- What a path leads to, it leads to in every extension. -/
theorem Extends.find {node : Node} (hext : Extends fs fs') (hstart : SameStarts fs fs' path)
    (h : fs.find path follow = .ok (l, node)) :
    ∃ node', fs'.find path follow = .ok (l, node') ∧ node'.entry = node.entry := by
  obtain ⟨hfinds, hget⟩ := find_eq_ok_iff.mp h
  have hentry : fs.entryAt l = some node.entry := by
    rw [entryAt, Node.entryAt, show fs.root.get? l = some node from hget]
    rfl
  obtain ⟨node', hget', hnode'⟩ := Option.map_eq_some_iff.mp (hext l _ hentry)
  refine ⟨node', find_eq_ok_iff.mpr ⟨hfinds.mono hext hstart fun hnone => ?_, hget'⟩, hnode'⟩
  rw [hentry] at hnone
  cases hnone

/-- What a path leads to in an extension of two file systems, if it leads there in
each. -/
theorem find_unique_of_extends {a b : FileSystem} {la lb : Location} {na nb : Node}
    (ha : a.find path follow = .ok (la, na)) (hb : b.find path follow = .ok (lb, nb))
    (hexta : Extends a fs) (hextb : Extends b fs) (hstarta : SameStarts a fs path)
    (hstartb : SameStarts b fs path) : la = lb ∧ na.entry = nb.entry := by
  obtain ⟨na', ha', hna⟩ := hexta.find hstarta ha
  obtain ⟨nb', hb', hnb⟩ := hextb.find hstartb hb
  rw [ha'] at hb'
  cases hb'
  exact ⟨rfl, hna.symm.trans hnb⟩

end FileSystem

end MonitoredCompile

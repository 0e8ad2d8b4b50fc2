/-
MonitoredCompile/Proofs/FileSystem/Overwrite.lean

Writing over a file that is there.  No path leads anywhere else after that
(`Finds.overwrite`), because a walk never asks what a file holds, and a path that leads
nowhere fails as before (`SameShape.find_eq`).  A handle whose next write goes to the end
of the file keeps doing so (`WritesAtEnd.writeOpen`), and so a file that is only written
through one handle holds what was written, in order.
-/
import MonitoredCompile.Proofs.FileSystem.Shape

namespace MonitoredCompile

/-! ### Putting twice -/

namespace Node

theorem insert_insert (name : String) (a b : Node) (entries : List (String × Node)) :
    insert name b (insert name a entries) = insert name b entries := by
  induction entries with
  | nil => simp [insert]
  | cons e rest ih =>
    obtain ⟨n, old⟩ := e
    rw [insert]
    split
    · next hn => simp [insert, hn]
    · next hn => simp [insert, hn, ih]

/-- The last of two nodes put in the same place stays. -/
theorem put_put (l : Location) (a b node : Node) {mid : Node} (h : node.put l (some a) = some mid) :
    mid.put l (some b) = node.put l (some b) := by
  induction l generalizing node mid with
  | nil => rw [put, put]
  | cons name rest ih =>
    cases node with
    | dir entries =>
      cases rest with
      | nil =>
        cases h
        rw [put, put, update, update, update, insert_insert]
      | cons next rest =>
        rw [put] at h
        cases hchild : find? name entries with
        | none =>
          rw [hchild] at h
          cases h
          rw [put, hchild]
        | some child =>
          rw [hchild] at h
          cases h
          obtain ⟨child', hput⟩ := put_isSome (List.cons_ne_nil next rest) child (some a)
          obtain ⟨child'', hput'⟩ := put_isSome (List.cons_ne_nil next rest) child (some b)
          have hagain := ih child hput
          rw [put, put, hchild, find?_update, if_pos rfl, hput]
          dsimp only
          rw [hagain, hput', update, update, update, insert_insert]
    | file f | link t | device =>
      rw [put_of_not_dir (by simp) (List.cons_ne_nil name rest)] at h
      cases h
      rfl

end Node

namespace FileSystem

variable {fs fs' : FileSystem} {l : Location} {path : String} {follow : Bool}

theorem place_place (fs : FileSystem) (l : Location) (a b : Node) :
    (fs.place l a).place l b = fs.place l b := by
  have hput (value : Node) : ∃ after, fs.root.put l (some value) = some after := by
    cases l with
    | nil => exact ⟨value, by rw [Node.put]⟩
    | cons name rest => exact Node.put_isSome (List.cons_ne_nil name rest) _ _
  obtain ⟨mid, hmid⟩ := hput a
  obtain ⟨after, hafter⟩ := hput b
  rw [place, place, place, withNode, withNode, withNode, hmid, hafter]
  dsimp only [Option.getD_some]
  rw [Node.put_put l a b fs.root hmid, hafter]
  rfl

/-! ### Places that are there -/

/-- What was put in a directory can be read there. -/
theorem get?_place_in {d : Location} {name : String} (h : fs.entryAt d = some .dir) (node : Node) :
    (fs.place (d ++ [name]) node).get? (d ++ [name]) = some node := by
  obtain ⟨entries, hget⟩ := entryAt_eq_dir.mp h
  obtain ⟨after, hput⟩ := Node.put_isSome (l := d ++ [name]) (by simp) fs.root (some node)
  show ((fs.root.put (d ++ [name]) (some node)).getD fs.root).get? (d ++ [name]) = some node
  rw [hput, Option.getD_some, Node.get?_put hget hput]
  exact Node.get?_nil node

theorem entryAt_of_get? {node : Node} (h : fs.get? l = some node) :
    fs.entryAt l = some node.entry := by
  rw [entryAt, Node.entryAt, show fs.root.get? l = some node from h]
  rfl

/-- What was put where something was can be read there. -/
theorem get?_place {old : Node} (h : fs.get? l = some old) (node : Node) :
    (fs.place l node).get? l = some node := by
  rcases List.eq_nil_or_concat l with rfl | ⟨d, name, rfl⟩
  · show ((fs.root.put [] (some node)).getD fs.root).get? [] = some node
    simp [Node.put]
  · rw [List.concat_eq_append] at h ⊢
    exact get?_place_in (dir_of_below (entryAt_of_get? h)) node

/-! ### Paths -/

section

variable {f : File} (hfile : fs.get? l = some (.file f)) (g : File)
include hfile

/-- Nothing is below a file. -/
theorem entryAt_below_file {name : String} {k : Location} : fs.entryAt (l ++ name :: k) = none := by
  refine Node.entryAt_child (fun hdir => ?_) name k
  rw [show fs.root.entryAt l = fs.entryAt l from rfl, entryAt_of_get? hfile] at hdir
  cases hdir

/-- Whatever was there before a file was written over is still there, and walks
cannot tell the difference. -/
theorem alike_overwrite {m : Location} {e : Entry} (h : fs.entryAt m = some e) :
    ∃ e', (fs.place l (.file g)).entryAt m = some e' ∧ Entry.Alike e e' := by
  by_cases hm : l <+: m
  · obtain ⟨k, rfl⟩ := hm
    cases k with
    | nil =>
      rw [List.append_nil, entryAt_of_get? hfile] at h
      cases h
      rw [List.append_nil]
      exact ⟨.file g, entryAt_of_get? (get?_place hfile (.file g)), .ofFiles f g⟩
    | cons name k =>
      rw [entryAt_below_file hfile] at h
      cases h
  · exact ⟨e, (entryAt_place hm (.file g)).trans h, .refl e⟩

theorem Finds.overwrite {names : List String} {m : Location} (h : fs.Finds path follow names m) :
    (fs.place l (.file g)).Finds path follow names m := by
  obtain ⟨hflaw, here, hhere, hleads⟩ := h
  refine ⟨hflaw, here, hhere, hleads.mono (fun _ _ he => alike_overwrite hfile g he) ?_⟩
  intro hnone target htarget
  -- Where nothing was there is no link now, since all that is new is the file.
  by_cases hm : l <+: m
  · obtain ⟨k, rfl⟩ := hm
    cases k with
    | nil =>
      rw [List.append_nil, entryAt_of_get? hfile] at hnone
      cases hnone
    | cons name k =>
      have hafter := get?_place hfile (.file g)
      rw [entryAt_below_file hafter] at htarget
      cases htarget
  · rw [entryAt_place hm, hnone] at htarget
    cases htarget

end

/-- The path still leads to the file that was written over. -/
theorem find_overwrite {f : File} (h : fs.find path follow = .ok (l, .file f)) (g : File) :
    (fs.place l (.file g)).find path follow = .ok (l, .file g) := by
  obtain ⟨hfinds, hget⟩ := find_eq_ok_iff.mp h
  exact find_eq_ok_iff.mpr ⟨hfinds.overwrite hget g, get?_place hget (.file g)⟩

/-! ### Paths that lead nowhere -/

theorem sameShape_overwrite {f : File} (hfile : fs.get? l = some (.file f)) (g : File) :
    SameShape fs.root (fs.place l (.file g)).root := by
  intro m
  by_cases hm : l <+: m
  · obtain ⟨k, rfl⟩ := hm
    have hafter := get?_place hfile (.file g)
    cases k with
    | nil =>
      rw [List.append_nil, show fs.root.entryAt l = _ from entryAt_of_get? hfile,
        show (fs.place l (.file g)).root.entryAt l = _ from entryAt_of_get? hafter]
      exact .some (.ofFiles f g)
    | cons name k =>
      rw [show fs.root.entryAt (l ++ name :: k) = none from entryAt_below_file hfile,
        show (fs.place l (.file g)).root.entryAt (l ++ name :: k) = none from
          entryAt_below_file hafter]
      exact .none
  · rw [show (fs.place l (.file g)).root.entryAt m = _ from entryAt_place hm (.file g)]
    show Option.Rel Entry.Alike (fs.entryAt m) (fs.entryAt m)
    cases fs.entryAt m with
    | none => exact .none
    | some e => exact .some (.refl e)

/-- Reading another file gives what it gave. -/
theorem read_overwrite {f : File} (hfile : fs.get? l = some (.file f)) (g : File)
    (hother : ∀ f, fs.find path ≠ .ok (l, .file f)) :
    (fs.place l (.file g)).read path = fs.read path := by
  rw [read, read, (sameShape_overwrite hfile g).find_eq rfl]
  cases hfind : fs.find path with
  | error r => rfl
  | ok found =>
    obtain ⟨m, node⟩ := found
    have hget : fs.root.get? m = some node := (find_eq_ok_iff.mp hfind).2
    have hm : ¬ l <+: m := by
      rintro ⟨k, rfl⟩
      cases k with
      | nil =>
        rw [List.append_nil] at hfind hget
        cases hfile.symm.trans hget
        exact hother f hfind
      | cons name k =>
        have hbelow : fs.entryAt (l ++ name :: k) = none := entryAt_below_file hfile
        rw [entryAt_of_get? hget] at hbelow
        cases hbelow
    have hentry : (fs.place l (.file g)).entryAt m = some node.entry :=
      (entryAt_place hm (.file g)).trans (entryAt_of_get? hget)
    obtain ⟨node', hget', hnode'⟩ := Option.map_eq_some_iff.mp hentry
    dsimp only
    rw [show (fs.place l (.file g)).get? m = some node' from hget']
    cases node <;> cases node' <;> cases hnode' <;> rfl

/-! ### Writing at the end -/

theorem splice_length (old new : Bytes) : splice old old.length new = old ++ new := by
  rw [splice]
  split
  · next hnil => rw [hnil, List.append_nil]
  · simp

theorem modifyFile_file {f : File} (h : fs.get? l = some (.file f)) (change : Bytes → Bytes) :
    fs.modifyFile (some l) change = fs.place l (.file (f.overwrite (change f.bytes))) := by
  rw [modifyFile, h]

/-- All that appending to an open file can do: nothing, or more bytes in the file that the
handle is open on. -/
theorem appendOpen_cases {P : FileSystem → Prop} (fs : FileSystem) (handle : Nat) (bytes : Bytes)
    (same : P fs)
    (file : ∀ l f, fs.opened[handle]?.bind OpenFile.location = some l →
      fs.get? l = some (.file f) → P (fs.place l (.file (f.overwrite (f.bytes ++ bytes))))) :
    P (fs.appendOpen handle bytes) := by
  rw [appendOpen]
  split
  · exact same
  · next o hopened =>
    unfold modifyFile
    split
    · exact same
    · next l hlocation =>
      split
      · next f hfile =>
        refine file l f ?_ hfile
        rw [hopened]
        exact hlocation
      · exact same

/-- Appending twice is appending once. -/
theorem appendOpen_appendOpen (fs : FileSystem) (handle : Nat) (a b : Bytes) :
    (fs.appendOpen handle a).appendOpen handle b = fs.appendOpen handle (a ++ b) := by
  cases hopened : fs.opened[handle]? with
  | none => rw [appendOpen, appendOpen, appendOpen, hopened]; simp [hopened]
  | some o =>
    have happend (bytes : Bytes) :
        fs.appendOpen handle bytes = fs.modifyFile o.location (· ++ bytes) := by
      rw [appendOpen, hopened]
    by_cases hfile : ∃ l f, o.location = some l ∧ fs.get? l = some (.file f)
    · obtain ⟨l, f, hl, hget⟩ := hfile
      rw [happend, happend, hl, modifyFile_file hget, modifyFile_file hget, appendOpen,
        show (fs.place l _).opened[handle]? = some o from hopened]
      dsimp only
      rw [hl, modifyFile_file (get?_place hget _), place_place, File.overwrite, File.overwrite,
        File.overwrite, List.append_assoc]
    · have hsame (bytes : Bytes) : fs.appendOpen handle bytes = fs := by
        rw [happend]
        unfold modifyFile
        split
        · rfl
        · next l hl =>
          split
          · next f hget => exact absurd ⟨l, f, hl, hget⟩ hfile
          · rfl
      rw [hsame, hsame, hsame]

/-- Only the tree and the written handle change. -/
theorem writeOpen_eq {handle : Nat} {o : OpenFile} (h : fs.opened[handle]? = some o) (bytes : Bytes) :
    fs.writeOpen handle bytes =
      { fs.modifyFile o.location (splice · o.offset bytes) with
        opened := fs.opened.set handle { o with offset := o.offset + bytes.length } } := by
  rw [writeOpen, h]

/-- A path leads where it led, whatever files are open. -/
theorem find_opened (fs : FileSystem) (opened : List OpenFile) (path : String) (follow : Bool) :
    FileSystem.find { fs with opened := opened } path follow = fs.find path follow :=
  rfl

/-- The handle is at the end of the file that the path leads to. -/
structure WritesAtEnd (fs : FileSystem) (path : String) (l : Location) (handle : Nat)
    (bytes : Bytes) : Prop where
  find : ∃ f : File, f.bytes = bytes ∧ fs.find path false = .ok (l, .file f)
  opened : fs.opened[handle]? = some ⟨some l, bytes.length⟩

theorem WritesAtEnd.writeOpen {handle : Nat} {old : Bytes} (h : WritesAtEnd fs path l handle old)
    (new : Bytes) : WritesAtEnd (fs.writeOpen handle new) path l handle (old ++ new) := by
  obtain ⟨⟨f, rfl, hfind⟩, hopened⟩ := h
  have hget := (find_eq_ok_iff.mp hfind).2
  have hlt : handle < fs.opened.length := (List.getElem?_eq_some_iff.mp hopened).1
  rw [writeOpen_eq hopened, modifyFile_file hget, splice_length]
  refine ⟨⟨f.overwrite (f.bytes ++ new), rfl, ?_⟩, ?_⟩
  · rw [find_opened]
    exact find_overwrite hfind _
  · show (fs.opened.set handle _)[handle]? = _
    rw [List.getElem?_set_self hlt, List.length_append]

end FileSystem

end MonitoredCompile

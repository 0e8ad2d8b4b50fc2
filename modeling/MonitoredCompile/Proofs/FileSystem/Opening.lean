/-
MonitoredCompile/Proofs/FileSystem/Opening.lean

Files that are opened for writing.  The path leads to what was opened, an empty file or a
device (`openTruncated_cases`), and a file that another path leads to stays as it is, unless
this is the one that was opened (`Opening.find_other`).  After that only writes through a
handle that is open there change the file (`find_writeOpen`), and writes through the handle
that opened it add to its end (`Sink.writeOpen`).
-/
import MonitoredCompile.Proofs.FileSystem.Hiding

namespace MonitoredCompile.FileSystem

variable {fs fs' : FileSystem} {path other : String} {l m : Location} {node : Node} {handle : Nat}

/-! ### Where walks end -/

theorem entryAt_linkStart (h : fs.entryAt l = some .dir) (target : String) :
    fs.entryAt (linkStart l target) = some .dir := by
  rw [linkStart]
  split
  · cases l with
    | nil => exact h
    | cons name l => exact dir_of_below (l := []) h
  · exact h

/-- A walk that follows links does not end at one. -/
theorem Leads.end_ne_link {links : Nat} {here there : Location} {names : List String}
    (h : Leads fs.entryAt true links here names there) (hhere : fs.entryAt here = some .dir)
    (target : String) : fs.entryAt there ≠ some (.link target) := by
  induction h with
  | here _ => rw [hhere]; simp
  | stay _ _ ih => exact ih hhere
  | up hl _ ih => exact ih (entryAt_dropLast hl)
  | last _ _ hlink => exact fun hthere => by cases hlink target hthere
  | down _ _ _ _ hrest hwalk ih =>
    obtain ⟨_, _, rfl⟩ := List.exists_cons_of_ne_nil hrest
    exact ih hwalk.dir_of_cons
  | jump hl _ _ _ _ ih => exact ih (entryAt_linkStart hl _)

/-! ### Opening -/

theorem plain_device : Node.device.entry.Plain := ⟨by simp [Node.entry], by simp [Node.entry]⟩

/-- What is opened is what the path leads to. -/
theorem find_of_target_follow (ht : fs.target path true = .ok (.name ⟨l, some node⟩ false)) :
    fs.find path = .ok (l, node) ∧ ∀ target, node ≠ .link target := by
  obtain ⟨hslash, ⟨init, last, hnames, -⟩, ⟨hflaw, here, hhere, hleads⟩, hnode⟩ :=
    target_eq_name_iff.mp ht
  have hhereDir : fs.entryAt here = some .dir := by
    rw [hnames] at hleads
    cases init <;> exact hleads.dir_of_cons
  refine ⟨find_eq_ok_iff.mpr ⟨⟨hflaw, here, hhere, ?_⟩, hnode.symm⟩, ?_⟩
  · rw [steps, ← hslash, if_neg Bool.false_ne_true, List.append_nil]
    exact hleads
  · rintro target rfl
    exact hleads.end_ne_link hhereDir target (entryAt_of_get? hnode.symm)

/-- What comes of the tree when a path is opened for writing, and where the handle is then. -/
inductive Opening (fs : FileSystem) (path : String) : FileSystem → Option Location → Prop
  | created {l : Location} : fs.target path true = .ok (.name ⟨l, none⟩ false) →
      Opening fs path (fs.place l (.file { bytes := [] })) (some l)
  | kept {l : Location} {f : File} : fs.find path = .ok (l, .file f) → f.bytes = [] →
      Opening fs path fs (some l)
  | emptied {l : Location} {f : File} : fs.find path = .ok (l, .file f) →
      Opening fs path (fs.place l (.file (f.overwrite []))) (some l)
  | device {l : Location} : fs.find path = .ok (l, .device) → Opening fs path fs none

theorem openTruncated_cases (h : fs.openTruncated path = .ok (fs', handle)) :
    handle = fs.opened.length ∧ ∃ opened o, Opening fs path opened o ∧
      fs' = { opened with opened := fs.opened ++ [⟨o, 0⟩] } := by
  rw [openTruncated, openWith] at h
  cases ht : fs.target path true with
  | error r => rw [ht] at h; cases h
  | ok t =>
    rw [ht] at h
    cases t with
    | root | here | above => cases h
    | name place slash =>
      cases slash with
      | true => cases h
      | false =>
        obtain ⟨l, none | node⟩ := place
        · cases h
          exact ⟨rfl, _, _, .created ht, rfl⟩
        · obtain ⟨hfind, hlink⟩ := find_of_target_follow ht
          cases node with
          | dir entries => cases h
          | link target => exact absurd rfl (hlink target)
          | device =>
            cases h
            exact ⟨rfl, _, _, .device hfind, rfl⟩
          | file f =>
            dsimp only at h
            split at h <;> cases h
            · next hempty => exact ⟨rfl, _, _, .kept hfind hempty.symm, rfl⟩
            · exact ⟨rfl, _, _, .emptied hfind, rfl⟩

/-- What can be told from its entry. -/
theorem eq_of_entry_plain {node' : Node} (h : node'.entry = node.entry) (hplain : node.entry.Plain) :
    node' = node := by
  cases node with
  | dir entries => exact absurd rfl hplain.ne_dir
  | link target => exact absurd rfl (hplain.ne_link target)
  | file f => exact Node.entry_eq_file.mp h
  | device =>
    cases node' with
    | device => rfl
    | file f | dir entries | link target => cases h

/-- What a path leads to is not changed by writing over a file elsewhere. -/
theorem find_overwrite_other {f : File} (hfind : fs.find path = .ok (l, node))
    (hplain : node.entry.Plain) (hfile : fs.get? m = some (.file f)) (hne : m ≠ l) (g : File) :
    (fs.place m (.file g)).find path = .ok (l, node) := by
  obtain ⟨hfinds, hget⟩ := find_eq_ok_iff.mp hfind
  refine find_eq_ok_iff.mpr ⟨hfinds.overwrite hfile g, ?_⟩
  have hapart : l.Apart m := by
    refine ⟨?_, ?_⟩
    · rintro ⟨k, rfl⟩
      cases k with
      | nil => exact hne (List.append_nil l)
      | cons name k =>
        have hdir : fs.entryAt l = some .dir := dir_of_below (entryAt_of_get? hfile)
        exact hplain.ne_dir (Option.some.inj ((entryAt_of_get? hget).symm.trans hdir))
    · rintro ⟨k, rfl⟩
      cases k with
      | nil => exact hne (List.append_nil m).symm
      | cons name k => cases (entryAt_below_file hfile).symm.trans (entryAt_of_get? hget)
  exact (get?_withNode_off hapart _).trans hget

namespace Opening

variable {opened : FileSystem} {o : Option Location} (h : Opening fs path opened o)
include h

/-- The path leads to an empty file, where the handle is, or to a device. -/
theorem find : (∃ l f, o = some l ∧ f.bytes = [] ∧ opened.find path = .ok (l, .file f)) ∨
    ∃ l, o = none ∧ opened.find path = .ok (l, .device) := by
  cases h with
  | @created l ht =>
    obtain ⟨hslash, -, hfinds, hnode⟩ := target_eq_name_iff.mp ht
    have hnone : fs.entryAt l = none := Option.map_eq_none_iff.mpr hnode.symm
    obtain ⟨d, name, rfl, hdir⟩ : ∃ d name, l = d ++ [name] ∧ fs.entryAt d = some .dir := by
      obtain ⟨-, here, -, hleads⟩ := hfinds
      exact hleads.parent hnone
    have hplaced : (fs.place (d ++ [name]) (.file { bytes := [] })).get? (d ++ [name])
        = some (.file { bytes := [] }) := get?_place_in hdir _
    refine .inl ⟨_, { bytes := [] }, rfl, rfl, find_eq_ok_iff.mpr ⟨?_, hplaced⟩⟩
    rw [steps, ← hslash, if_neg Bool.false_ne_true, List.append_nil]
    refine hfinds.mono (extends_place hnone _) (fun _ hstart => hstart) fun _ target htarget => ?_
    cases (entryAt_of_get? hplaced).symm.trans htarget
  | kept hfind hempty => exact .inl ⟨_, _, rfl, hempty, hfind⟩
  | @emptied l f hfind => exact .inl ⟨l, f.overwrite [], rfl, rfl, find_overwrite hfind _⟩
  | device hfind => exact .inr ⟨_, rfl, hfind⟩

/-- Another path leads where it led, and to what was there unless this is a file and was opened. -/
theorem find_other (hfind : fs.find other = .ok (m, node)) (hplain : node.entry.Plain) :
    ∃ node', opened.find other = .ok (m, node') ∧
      (((∃ f, node = .file f) → o ≠ some m) → node' = node) := by
  cases h with
  | @created l ht =>
    obtain ⟨-, -, -, hnode⟩ := target_eq_name_iff.mp ht
    have hnone : fs.entryAt l = none := Option.map_eq_none_iff.mpr hnode.symm
    obtain ⟨node', hfind', hentry⟩ := (extends_place hnone (.file { bytes := [] })).find
      (fun _ hstart => hstart) hfind
    exact ⟨node', hfind', fun _ => eq_of_entry_plain hentry hplain⟩
  | kept | device => exact ⟨node, hfind, fun _ => rfl⟩
  | @emptied l f hopened =>
    have hfile := (find_eq_ok_iff.mp hopened).2
    by_cases hsame : l = m
    · subst hsame
      cases hfile.symm.trans (find_eq_ok_iff.mp hfind).2
      exact ⟨_, find_overwrite hfind _, fun ho => absurd rfl (ho ⟨f, rfl⟩)⟩
    · exact ⟨node, find_overwrite_other hfind hplain hfile hsame _, fun _ => rfl⟩

end Opening

/-! ### Writing -/

/-- The handle is not open on what is at the location. -/
def Elsewhere (fs : FileSystem) (handle : Nat) (l : Location) : Prop :=
  ∀ o, fs.opened[handle]? = some o → o.location ≠ some l

theorem find_modifyFile {o : Option Location} (hfind : fs.find path = .ok (l, node))
    (hplain : node.entry.Plain) (ho : (∃ f, node = .file f) → o ≠ some l) (change : Bytes → Bytes) :
    (fs.modifyFile o change).find path = .ok (l, node) := by
  unfold modifyFile
  split
  · exact hfind
  · next m =>
    split
    · next f hfile =>
      refine find_overwrite_other hfind hplain hfile ?_ _
      rintro rfl
      cases hfile.symm.trans (find_eq_ok_iff.mp hfind).2
      exact ho ⟨f, rfl⟩ rfl
    · exact hfind

/-- Only through a handle that is open there a file is written to. -/
theorem find_writeOpen (hfind : fs.find path = .ok (l, node)) (hplain : node.entry.Plain)
    (helse : (∃ f, node = .file f) → fs.Elsewhere handle l) (bytes : Bytes) :
    (fs.writeOpen handle bytes).find path = .ok (l, node) := by
  rw [writeOpen]
  split
  · exact hfind
  · next o hopened =>
    rw [find_opened]
    exact find_modifyFile hfind hplain (fun hfile => helse hfile o hopened) _

theorem find_appendOpen (hfind : fs.find path = .ok (l, node)) (hplain : node.entry.Plain)
    (helse : (∃ f, node = .file f) → fs.Elsewhere handle l) (bytes : Bytes) :
    (fs.appendOpen handle bytes).find path = .ok (l, node) := by
  rw [appendOpen]
  split
  · exact hfind
  · next o hopened => exact find_modifyFile hfind hplain (fun hfile => helse hfile o hopened) _

theorem Elsewhere.writeOpen {handle' : Nat} (h : fs.Elsewhere handle l) (bytes : Bytes) :
    (fs.writeOpen handle' bytes).Elsewhere handle l := by
  rw [FileSystem.writeOpen]
  split
  · exact h
  · next o hopened =>
    intro o' ho'
    have hset : (fs.opened.set handle' { o with offset := o.offset + bytes.length })[handle]?
        = some o' := ho'
    rw [List.getElem?_set] at hset
    split at hset
    · next hsame =>
      subst hsame
      split at hset <;> cases hset
      exact h o hopened
    · exact h o' hset

/-- The path leads to a file with these bytes, and the handle is at its end. -/
structure Sink (fs : FileSystem) (path : String) (l : Location) (handle : Nat) (bytes : Bytes) :
    Prop where
  find : ∃ f : File, f.bytes = bytes ∧ fs.find path = .ok (l, .file f)
  opened : fs.opened[handle]? = some ⟨some l, bytes.length⟩

namespace Sink

variable {old : Bytes} (h : Sink fs path l handle old)
include h

theorem writeOpen (new : Bytes) : Sink (fs.writeOpen handle new) path l handle (old ++ new) := by
  obtain ⟨⟨f, rfl, hfind⟩, hopened⟩ := h
  have hlt : handle < fs.opened.length := (List.getElem?_eq_some_iff.mp hopened).1
  rw [writeOpen_eq hopened, modifyFile_file (find_eq_ok_iff.mp hfind).2, splice_length]
  refine ⟨⟨f.overwrite (f.bytes ++ new), rfl, ?_⟩, ?_⟩
  · rw [find_opened]
    exact find_overwrite hfind _
  · show (fs.opened.set handle _)[handle]? = _
    rw [List.getElem?_set_self hlt, List.length_append]

theorem writeOpen_other {handle' : Nat} (hne : handle' ≠ handle) (helse : fs.Elsewhere handle' l)
    (new : Bytes) : Sink (fs.writeOpen handle' new) path l handle old := by
  obtain ⟨⟨f, hbytes, hfind⟩, hopened⟩ := h
  refine ⟨⟨f, hbytes, find_writeOpen hfind (.file f) (fun _ => helse) new⟩, ?_⟩
  rw [FileSystem.writeOpen]
  split
  · exact hopened
  · exact (List.getElem?_set_ne hne).trans hopened

end Sink

end MonitoredCompile.FileSystem

/-
MonitoredCompile/FileSystem/WellFormed.lean

What the operating system promises of every tree: the entries of one directory
have different names, and a name is a text that a path can hold between two
slashes.  Every change of a file system keeps this promise, if what it writes
has a name.
-/
import MonitoredCompile.FileSystem.Basic

namespace MonitoredCompile

/-- A text that can name an entry. -/
structure IsName (name : String) : Prop where
  ne_empty : name ≠ ""
  no_slash : '/' ∉ name.toList
  ne_here : name ≠ "."
  ne_above : name ≠ ".."

/-- The last name of a location, if it has one, is a name. -/
def Location.EndsInName (l : Location) : Prop := ∀ name, l.getLast? = some name → IsName name

theorem Location.endsInName_concat {d : Location} {name : String} :
    Location.EndsInName (d ++ [name]) ↔ IsName name := by
  simp [EndsInName]

namespace Node

/-! ### Trees -/

/-- Names are names, and no directory has two entries of one name. -/
inductive WellFormed : Node → Prop
  | file (f : File) : WellFormed (.file f)
  | dir {entries : List (String × Node)} :
      (entries.map (·.1)).Nodup → (∀ e ∈ entries, IsName e.1) → (∀ e ∈ entries, WellFormed e.2) →
      WellFormed (.dir entries)
  | link (target : String) : WellFormed (.link target)
  | device : WellFormed .device

namespace WellFormed

theorem emptyDir : WellFormed (.dir []) := .dir (by simp) (by simp) (by simp)

theorem find? {entries : List (String × Node)} {name : String} {node : Node}
    (h : WellFormed (.dir entries)) (hf : Node.find? name entries = some node) :
    IsName name ∧ WellFormed node := by
  cases h with
  | dir _ hnames hnodes => exact ⟨hnames _ (mem_of_find? hf), hnodes _ (mem_of_find? hf)⟩

theorem get? {node child : Node} (h : WellFormed node) {l : Location}
    (hl : node.get? l = some child) : WellFormed child := by
  induction l generalizing node with
  | nil => simp_all
  | cons name rest ih =>
    cases node with
    | dir entries =>
      rw [get?_dir_cons] at hl
      obtain ⟨next, hf, hn⟩ := Option.bind_eq_some_iff.mp hl
      exact ih (h.find? hf).2 hn
    | file f | link t | device => cases hl

/-- Whatever a well-formed tree holds has a name. -/
theorem endsInName {node child : Node} (h : WellFormed node) {l : Location}
    (hl : node.get? l = some child) : l.EndsInName := by
  rcases List.eq_nil_or_concat l with rfl | ⟨d, name, rfl⟩
  · simp [Location.EndsInName]
  · rw [List.concat_eq_append] at hl ⊢
    rw [get?_append] at hl
    obtain ⟨parent, hp, hc⟩ := Option.bind_eq_some_iff.mp hl
    rw [Location.endsInName_concat]
    cases parent with
    | dir entries =>
      rw [get?_dir_cons] at hc
      obtain ⟨next, hf, -⟩ := Option.bind_eq_some_iff.mp hc
      exact ((h.get? hp).find? hf).1
    | file f | link t | device => cases hc

theorem mem_insert {name : String} {node : Node} {entries : List (String × Node)}
    {e : String × Node} (he : e ∈ insert name node entries) : e = (name, node) ∨ e ∈ entries := by
  induction entries with
  | nil => simpa [insert] using he
  | cons first rest ih =>
    obtain ⟨k, old⟩ := first
    rw [insert] at he
    split at he
    · rcases List.mem_cons.mp he with h | h
      · exact .inl h
      · exact .inr (List.mem_cons_of_mem _ h)
    · rcases List.mem_cons.mp he with h | h
      · exact .inr (h ▸ List.mem_cons_self)
      · rcases ih h with h | h
        · exact .inl h
        · exact .inr (List.mem_cons_of_mem _ h)

/-- Only a new name is added to the names. -/
theorem map_fst_insert (name : String) (node : Node) (entries : List (String × Node)) :
    (insert name node entries).map (·.1)
      = if name ∈ entries.map (·.1) then entries.map (·.1) else entries.map (·.1) ++ [name] := by
  induction entries with
  | nil => simp [insert]
  | cons first rest ih =>
    obtain ⟨k, old⟩ := first
    rw [insert]
    by_cases hk : k = name
    · simp [hk]
    · rw [if_neg hk, List.map_cons, ih]
      by_cases hm : name ∈ rest.map (·.1) <;> simp_all [Ne.symm hk]

theorem update {entries : List (String × Node)} {name : String} {value : Option Node}
    (h : WellFormed (.dir entries)) (hv : ∀ v, value = some v → IsName name ∧ WellFormed v) :
    WellFormed (.dir (Node.update name value entries)) := by
  cases h with
  | dir hnodup hnames hnodes =>
    cases value with
    | none =>
      refine .dir (hnodup.sublist (List.filter_sublist.map _)) ?_ ?_
      · exact fun e he => hnames e (List.mem_filter.mp he).1
      · exact fun e he => hnodes e (List.mem_filter.mp he).1
    | some v =>
      refine .dir ?_ ?_ ?_
      · rw [Node.update, map_fst_insert]
        split
        · exact hnodup
        · next hn =>
          refine List.nodup_append.mpr ⟨hnodup, by simp, fun a ha b hb => ?_⟩
          rw [List.mem_singleton.mp hb]
          rintro rfl
          exact hn ha
      · intro e he
        rcases mem_insert he with rfl | he
        · exact (hv v rfl).1
        · exact hnames e he
      · intro e he
        rcases mem_insert he with rfl | he
        · exact (hv v rfl).2
        · exact hnodes e he

theorem put {node after : Node} {l : Location} {value : Option Node} (h : WellFormed node)
    (hv : ∀ v, value = some v → l.EndsInName ∧ WellFormed v) (hput : node.put l value = some after) :
    WellFormed after := by
  induction l generalizing node after with
  | nil => exact (hv after hput).2
  | cons name rest ih =>
    cases node with
    | dir entries =>
      cases rest with
      | nil =>
        cases hput
        exact h.update fun v hvalue => ⟨(hv v hvalue).1 name rfl, (hv v hvalue).2⟩
      | cons next rest =>
        rw [Node.put] at hput
        cases hf : Node.find? name entries with
        | none => rw [hf] at hput; cases hput; exact h
        | some child =>
          rw [hf] at hput
          cases hput
          obtain ⟨child', hc⟩ := put_isSome (List.cons_ne_nil next rest) child value
          obtain ⟨hname, hchild⟩ := h.find? hf
          refine h.update fun v hvalue => ⟨hname, ?_⟩
          refine ih hchild (fun w hw => ⟨fun n hn => ?_, (hv w hw).2⟩) hvalue
          exact (hv w hw).1 n (by rw [List.getLast?_cons_cons]; exact hn)
    | file f | link t | device =>
      rw [put_of_not_dir (by simp) (List.cons_ne_nil name rest)] at hput
      cases hput
      exact h

end WellFormed

end Node

namespace FileSystem

/-! ### File systems -/

/-- The tree of the file system is well-formed. -/
def WellFormed (fs : FileSystem) : Prop := fs.root.WellFormed

namespace WellFormed

variable {fs : FileSystem}

theorem get? (h : fs.WellFormed) {l : Location} {node : Node} (hl : fs.get? l = some node) :
    node.WellFormed :=
  Node.WellFormed.get? h hl

/-- Whatever a well-formed file system holds has a name. -/
theorem endsInName (h : fs.WellFormed) {l : Location} {node : Node} (hl : fs.get? l = some node) :
    l.EndsInName :=
  Node.WellFormed.endsInName h hl

theorem withNode (h : fs.WellFormed) {l : Location} {value : Option Node}
    (hv : ∀ v, value = some v → l.EndsInName ∧ v.WellFormed) : (fs.withNode l value).WellFormed := by
  rw [WellFormed, FileSystem.withNode]
  cases hput : fs.root.put l value with
  | none => exact h
  | some after => exact Node.WellFormed.put h hv hput

theorem place (h : fs.WellFormed) {l : Location} {node : Node} (hl : l.EndsInName)
    (hnode : node.WellFormed) : (fs.place l node).WellFormed :=
  h.withNode fun v hv => by cases hv; exact ⟨hl, hnode⟩

theorem remove (h : fs.WellFormed) (l : Location) : (fs.remove l).WellFormed := by
  have hnone : (fs.withNode l none).WellFormed := h.withNode (by simp)
  exact hnone

theorem relocate (h : fs.WellFormed) {src dst : Location} (hdst : dst.EndsInName) :
    (fs.relocate src dst).WellFormed := by
  rw [FileSystem.relocate]
  cases hsrc : fs.get? src with
  | none => exact h
  | some node => exact (h.remove src).place hdst (h.get? hsrc)

theorem clear (h : fs.WellFormed) {l : Location} {node : Node} (hl : fs.get? l = some node) :
    (fs.clear l).WellFormed :=
  h.place (h.endsInName hl) .emptyDir

theorem modifyFile (h : fs.WellFormed) (l : Option Location) (f : Bytes → Bytes) :
    (fs.modifyFile l f).WellFormed := by
  unfold FileSystem.modifyFile
  cases l with
  | none => exact h
  | some l =>
    dsimp only
    split
    · next file hl => exact h.place (h.endsInName hl) (.file _)
    · exact h

theorem openAt (h : fs.WellFormed) (l : Option Location) : (fs.openAt l).1.WellFormed := h

theorem closeFrom (h : fs.WellFormed) (n : Nat) : (fs.closeFrom n).WellFormed := h

theorem writeOpen (h : fs.WellFormed) (handle : Nat) (bytes : Bytes) :
    (fs.writeOpen handle bytes).WellFormed := by
  rw [FileSystem.writeOpen]
  split
  · exact h
  · exact h.modifyFile _ _

theorem appendOpen (h : fs.WellFormed) (handle : Nat) (bytes : Bytes) :
    (fs.appendOpen handle bytes).WellFormed := by
  rw [FileSystem.appendOpen]
  split
  · exact h
  · exact h.modifyFile _ _

end WellFormed

end FileSystem

end MonitoredCompile

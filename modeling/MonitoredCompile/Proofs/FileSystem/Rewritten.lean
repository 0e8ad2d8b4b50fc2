/-
MonitoredCompile/Proofs/FileSystem/Rewritten.lean

Two file systems that are the same but for what one open file holds.  `Rewritten handle o` is
that relation for the file of a handle, which is at the location `o`, or nowhere if the handle is
open on a device: then the two are the same.

Paths lead to the same place in both, and what they find there is the same, unless it is the file
itself or a directory that the file is below (`Counterpart`): the file may hold something else,
and the directory has the same names.  So every change elsewhere leaves the two rewritten again,
and whatever is written to the handle, to one of them or to both, does so, too.
-/
import MonitoredCompile.Proofs.FileSystem.Hiding
import MonitoredCompile.Proofs.FileSystem.Named

namespace MonitoredCompile

/-! ### Trees -/

namespace Node

theorem insert_self {name : String} {node : Node} {entries : List (String × Node)}
    (h : find? name entries = some node) : insert name node entries = entries := by
  induction entries with
  | nil => cases h
  | cons e rest ih =>
    obtain ⟨n, old⟩ := e
    rw [find?] at h
    rw [insert]
    split at h
    · next hn => cases h; rw [if_pos hn, hn]
    · next hn => rw [if_neg hn, ih h]

/-- Putting what is there changes nothing. -/
theorem put_self {l : Location} {node old : Node} (h : node.get? l = some old) :
    node.put l (some old) = some node := by
  induction l generalizing node with
  | nil =>
    rw [get?_nil] at h
    rw [put, h]
  | cons name rest ih =>
    cases node with
    | file f | link t | device => cases h
    | dir entries =>
      rw [get?_dir_cons] at h
      obtain ⟨child, hchild, hold⟩ := Option.bind_eq_some_iff.mp h
      have hsame : changedChild (find? name entries) rest (some old) = some child := by
        rw [changedChild]
        split
        · next hnil =>
          rw [hnil, get?_nil] at hold
          exact hold.symm
        · rw [hchild, Option.bind_some, ih hold]
      rw [put_dir, hsame, update, insert_self hchild]

/-- A directory keeps its names when something that is below it is replaced. -/
theorem names_put {l k : Location} {node after new : Node} {entries : List (String × Node)}
    (hdir : node.get? l = some (dir entries)) (hk : k ≠ []) (hthere : node.get? (l ++ k) ≠ none)
    (h : node.put (l ++ k) (some new) = some after) :
    ∃ entries', after.get? l = some (dir entries') ∧ entries'.map (·.1) = entries.map (·.1) := by
  induction l generalizing node after with
  | nil =>
    rw [get?_nil, Option.some.injEq] at hdir
    subst hdir
    obtain ⟨name, rest, rfl⟩ := List.exists_cons_of_ne_nil hk
    rw [List.nil_append] at h hthere
    rw [put_dir] at h
    cases h
    rw [get?_dir_cons] at hthere
    obtain ⟨child, hchild⟩ := Option.ne_none_iff_exists'.mp
      fun hnone : find? name entries = none => hthere (by rw [hnone]; rfl)
    obtain ⟨child', hnew⟩ : ∃ child', changedChild (find? name entries) rest (some new)
        = some child' := by
      rw [changedChild]
      split
      · exact ⟨new, rfl⟩
      · next hrest =>
        rw [hchild, Option.bind_some]
        exact put_isSome hrest child (some new)
    refine ⟨_, get?_nil _, ?_⟩
    rw [hnew, update, WellFormed.map_fst_insert, if_pos]
    exact List.mem_map.mpr ⟨_, mem_of_find? hchild, rfl⟩
  | cons a l ih =>
    cases node with
    | file f | link t | device => cases hdir
    | dir outer =>
      rw [List.cons_append] at h hthere
      rw [get?_dir_cons] at hdir hthere
      obtain ⟨child, hchild, hinner⟩ := Option.bind_eq_some_iff.mp hdir
      rw [hchild, Option.bind_some] at hthere
      have hne : l ++ k ≠ [] := fun hnil => hk (List.append_eq_nil_iff.mp hnil).2
      obtain ⟨child', hput⟩ := put_isSome hne child (some new)
      rw [put_dir, changedChild, if_neg hne, hchild, Option.bind_some, hput] at h
      cases h
      rw [get?_dir_cons, find?_update, if_pos rfl, Option.bind_some]
      exact ih hinner hthere hput

end Node

namespace FileSystem

variable {fs fs' : FileSystem} {handle : Nat} {o : Option Location} {l m : Location}
variable {path : String} {follow : Bool}

theorem place_self {node : Node} (h : fs.get? l = some node) : fs.place l node = fs := by
  rw [place, withNode, Node.put_self h]
  rfl

/-! ### The relation -/

/-- The handle is open, and its file is at `o`. -/
def OpenOn (fs : FileSystem) (handle : Nat) (o : Option Location) : Prop :=
  (fs.opened[handle]?).map OpenFile.location = some o

/-- The second file system is the first one, or the first with something else in the file at
`o`, which can be executed as before. -/
inductive SameBut (o : Option Location) (fs : FileSystem) : FileSystem → Prop
  | device : o = none → SameBut o fs fs
  | file {e f g} : o = some e → fs.get? e = some (.file f) → g.executable = f.executable →
      SameBut o fs (fs.place e (.file g))

/-- The two are the same but for what the open file of the handle holds. -/
structure Rewritten (handle : Nat) (o : Option Location) (fs fs' : FileSystem) : Prop where
  openOn : fs.OpenOn handle o
  same : SameBut o fs fs'

/-- A node in the one file system and the node in the other at the same place. -/
inductive Counterpart (o : Option Location) (l : Location) : Node → Node → Prop
  | same {node} : (∀ e ∈ o, l.Apart e) → Counterpart o l node node
  | file {f g} : l ∈ o → g.executable = f.executable → Counterpart o l (.file f) (.file g)
  | above {e entries entries'} : e ∈ o → l <+: e → entries ≠ [] →
      entries'.map (·.1) = entries.map (·.1) → Counterpart o l (.dir entries) (.dir entries')

/-- A file system is the same as itself, if a file is where the handle says. -/
theorem OpenOn.rewritten (h : fs.OpenOn handle o) (hfile : ∀ e ∈ o, ∃ f, fs.get? e = some (.file f)) :
    Rewritten handle o fs fs := by
  refine ⟨h, ?_⟩
  cases o with
  | none => exact .device rfl
  | some e =>
    obtain ⟨f, hget⟩ := hfile e rfl
    have hsame := SameBut.file rfl hget (g := f) rfl
    rwa [place_self hget] at hsame

theorem OpenOn.lt (h : fs.OpenOn handle o) : handle < fs.opened.length := by
  obtain ⟨file, hfile, -⟩ := Option.map_eq_some_iff.mp h
  exact (List.getElem?_eq_some_iff.mp hfile).1

namespace SameBut

variable (h : SameBut o fs fs')
include h

theorem cwd : fs'.cwd = fs.cwd := by cases h <;> rfl

theorem opened : fs'.opened = fs.opened := by cases h <;> rfl

theorem sameShape : SameShape fs.root fs'.root := by
  cases h with
  | device =>
    intro l
    cases fs.root.entryAt l with
    | none => exact .none
    | some e => exact .some (.refl e)
  | file _ hget _ => exact sameShape_overwrite hget _

theorem get?_eq_none (hnone : fs.get? l = none) : fs'.get? l = none := h.sameShape.get?_eq_none hnone

/-- A free place is neither at nor above the file, and not below it either. -/
theorem apart_of_parent {d : Location} {name : String} (hdir : fs.entryAt d = some .dir)
    (hfree : fs.get? (d ++ [name]) = none) : ∀ e ∈ o, (d ++ [name]).Apart e := by
  rintro e ⟨⟩
  cases h with
  | device hnone => cases hnone
  | file ho hget _ =>
    cases ho
    have hentry := entryAt_of_get? hget
    refine ⟨not_prefix_of_free (Option.map_eq_none_iff.mpr hfree) hentry, fun hp => ?_⟩
    rcases List.prefix_concat_iff.mp hp with rfl | hp
    · cases hget.symm.trans hfree
    · exact not_prefix_of_dir (fun hfile => by cases hentry.symm.trans hfile) hdir hp

/-- What is in the same place of the other file system. -/
theorem counterpart {node : Node} (hget : fs.get? l = some node) :
    ∃ node', fs'.get? l = some node' ∧ Counterpart o l node node' := by
  cases h with
  | device ho => exact ⟨node, hget, .same fun e he => by cases ho.symm.trans he⟩
  | @file e f g ho hfile hexecutable =>
    by_cases hbelow : e <+: l
    · -- Nothing is below a file, so this is the file itself.
      obtain ⟨k, rfl⟩ := hbelow
      cases k with
      | nil =>
        rw [List.append_nil] at hget ⊢
        cases hget.symm.trans hfile
        exact ⟨_, get?_place hfile _, .file ho hexecutable⟩
      | cons name k =>
        cases (entryAt_of_get? hget).symm.trans (entryAt_below_file hfile)
    · by_cases habove : l <+: e
      · obtain ⟨k, rfl⟩ := habove
        have hk : k ≠ [] := by
          rintro rfl
          exact hbelow (by simp)
        obtain ⟨name, rest, rfl⟩ := List.exists_cons_of_ne_nil hk
        have hdir : fs.entryAt l = some .dir := dir_of_below (entryAt_of_get? hfile)
        obtain ⟨entries, rfl⟩ : ∃ entries, node = .dir entries :=
          Node.entry_eq_dir.mp (Option.some.inj ((entryAt_of_get? hget).symm.trans hdir))
        have hentries : entries ≠ [] := by
          rintro rfl
          cases (entryAt_of_get? hfile).symm.trans (entryAt_below_emptyDir hget)
        obtain ⟨after, hput⟩ := Node.put_isSome (l := l ++ name :: rest) (by simp) fs.root
          (some (.file g))
        have hthere : fs.root.get? (l ++ name :: rest) ≠ none :=
          fun hnone => by cases hfile.symm.trans hnone
        obtain ⟨entries', hget', hnames⟩ := Node.names_put hget hk hthere hput
        refine ⟨.dir entries', ?_, .above ho (List.prefix_append l _) hentries hnames⟩
        show ((fs.root.put (l ++ name :: rest) (some (.file g))).getD fs.root).get? l = _
        rw [hput, Option.getD_some, hget']
      · have hapart : l.Apart e := ⟨habove, hbelow⟩
        refine ⟨node, (get?_withNode_off hapart _).trans hget, .same fun e' he' => ?_⟩
        cases ho.symm.trans he'
        exact hapart

/-! ### Paths -/

/-- A path leads to the same place in both. -/
theorem find_cases (path : String) (follow : Bool) :
    (∃ r, fs.find path follow = .error r ∧ fs'.find path follow = .error r) ∨
    ∃ l node node', fs.find path follow = .ok (l, node) ∧ fs'.find path follow = .ok (l, node') ∧
      Counterpart o l node node' := by
  have hfound := h.sameShape.find_eq h.cwd path follow
  cases hfind : fs.find path follow with
  | error r =>
    rw [hfind] at hfound
    exact .inl ⟨r, rfl, hfound⟩
  | ok found =>
    obtain ⟨l, node⟩ := found
    obtain ⟨node', hget', hcounter⟩ := h.counterpart (find_eq_ok_iff.mp hfind).2
    rw [hfind] at hfound
    dsimp only at hfound
    rw [hget'] at hfound
    exact .inr ⟨l, node, node', rfl, hfound, hcounter⟩

/-- The last name of a path is the same in the same directory of both. -/
theorem target_cases (path : String) (follow : Bool) :
    (∃ r, fs.target path follow = .error r ∧ fs'.target path follow = .error r) ∨
    (∃ t, fs.target path follow = .ok t ∧ fs'.target path follow = .ok t ∧
      ∀ place slash, t ≠ .name place slash) ∨
    (∃ l slash, fs.target path follow = .ok (.name ⟨l, none⟩ slash) ∧
      fs'.target path follow = .ok (.name ⟨l, none⟩ slash) ∧ ∀ e ∈ o, l.Apart e) ∨
    ∃ l node node' slash, fs.target path follow = .ok (.name ⟨l, some node⟩ slash) ∧
      fs'.target path follow = .ok (.name ⟨l, some node'⟩ slash) ∧ Counterpart o l node node' := by
  have htarget : fs'.target path follow
      = (fs.target path follow).map (Target.movedTo fs'.root) :=
    h.sameShape.everywhere.target_eq h.cwd (fun _ _ => trivial) (fun _ _ => trivial) trivial
  cases ht : fs.target path follow with
  | error r =>
    rw [ht] at htarget
    exact .inl ⟨r, rfl, htarget⟩
  | ok t =>
    rw [ht] at htarget
    match t, ht with
    | .root, _ | .here, _ | .above, _ => exact .inr (.inl ⟨_, rfl, htarget, nofun⟩)
    | .name ⟨l, found⟩ slash, ht =>
      obtain ⟨-, -, hfinds, hnode⟩ := target_eq_name_iff.mp ht
      obtain rfl : found = fs.get? l := hnode
      rw [Except.map, Target.movedTo, placeIn,
        show fs'.root.get? l = fs'.get? l from rfl] at htarget
      cases hget : fs.get? l with
      | none =>
        rw [h.get?_eq_none hget] at htarget
        -- The place is free, and its directory is there.
        obtain ⟨-, here, -, hleads⟩ := hfinds
        obtain ⟨d, name, rfl, hdir⟩ := hleads.parent (Option.map_eq_none_iff.mpr hget)
        exact .inr (.inr (.inl ⟨_, slash, rfl, htarget, h.apart_of_parent hdir hget⟩))
      | some node =>
        obtain ⟨node', hget', hcounter⟩ := h.counterpart hget
        rw [hget'] at htarget
        exact .inr (.inr (.inr ⟨l, node, node', slash, rfl, htarget, hcounter⟩))

end SameBut

/-! ### Changes elsewhere -/

theorem get?_relocate_off {e : Location} (hl : e.Apart l) (hm : e.Apart m) :
    (fs.relocate l m).get? e = fs.get? e := by
  rw [relocate]
  cases fs.get? l with
  | none => rfl
  | some node =>
    show ((fs.withNode l none).withNode m (some node)).get? e = fs.get? e
    rw [get?_withNode_off hm, get?_withNode_off hl]

/-- A handle is still open on the file after all locations were changed, if that one was not. -/
theorem OpenOn.moved {move : Location → Option Location} (h : fs.OpenOn handle o)
    (hmove : ∀ e ∈ o, move e = some e) :
    ((moveOpened move fs.opened)[handle]?).map OpenFile.location = some o := by
  obtain ⟨file, hfile, rfl⟩ := Option.map_eq_some_iff.mp h
  rw [moveOpened, List.getElem?_map, hfile]
  refine congrArg some ?_
  dsimp only
  cases hlocation : file.location with
  | none => rfl
  | some e => exact hmove e hlocation

namespace Rewritten

variable (h : Rewritten handle o fs fs')
include h

theorem cwd : fs'.cwd = fs.cwd := h.same.cwd

theorem opened : fs'.opened = fs.opened := h.same.opened

/-- A change that leaves the file alone, and is the same whatever the file holds. -/
theorem change (f : FileSystem → FileSystem) (hopen : (f fs).OpenOn handle o)
    (hget : ∀ e ∈ o, (f fs).get? e = fs.get? e)
    (hcomm : ∀ e ∈ o, ∀ node, (fs.get? e = none → some node = none) →
      (f fs).place e node = f (fs.place e node)) : Rewritten handle o (f fs) (f fs') := by
  obtain ⟨-, hsame⟩ := h
  refine ⟨hopen, ?_⟩
  cases hsame with
  | device ho => exact .device ho
  | file ho hfile hexecutable =>
    rw [← hcomm _ ho _ fun hnone => by cases hfile.symm.trans hnone]
    exact .file ho ((hget _ ho).trans hfile) hexecutable

section

variable (hl : ∀ e ∈ o, l.Apart e)
include hl

theorem place (node : Node) : Rewritten handle o (fs.place l node) (fs'.place l node) :=
  h.change (·.place l node) h.openOn (fun e he => get?_withNode_off (hl e he).symm _)
    fun e he _ hthere => withNode_place (hl e he) hthere node

theorem remove : Rewritten handle o (fs.remove l) (fs'.remove l) := by
  refine h.change (·.remove l) (h.openOn.moved fun e he => ?_)
    (fun e he => get?_withNode_off (hl e he).symm _)
    fun e he _ hthere => withNode_remove (hl e he) hthere
  exact if_neg fun hp => (hl e he).not_above (List.isPrefixOf_iff_prefix.mp hp)

theorem clear : Rewritten handle o (fs.clear l) (fs'.clear l) := by
  refine h.change (·.clear l) (h.openOn.moved fun e he => ?_)
    (fun e he => get?_withNode_off (hl e he).symm _)
    fun e he _ hthere => withNode_clear (hl e he) hthere
  exact if_neg fun hp => (hl e he).not_above (List.isPrefixOf_iff_prefix.mp hp.1)

theorem relocate (hm : ∀ e ∈ o, m.Apart e) :
    Rewritten handle o (fs.relocate l m) (fs'.relocate l m) := by
  refine h.change (·.relocate l m) ?_ (fun e he => get?_relocate_off (hl e he).symm (hm e he).symm)
    fun e he _ hthere => withNode_relocate (hl e he) hthere (hm e he)
  rw [FileSystem.relocate]
  cases fs.get? l with
  | none => exact h.openOn
  | some node =>
    refine h.openOn.moved fun e he => congrArg some (if_neg fun hp => ?_)
    exact (hl e he).not_above (List.isPrefixOf_iff_prefix.mp hp)

end

/-! ### Open files -/

/-- The list of open files is changed in both. -/
theorem withOpened {opened : List OpenFile}
    (hopen : (opened[handle]?).map OpenFile.location = some o) :
    Rewritten handle o { fs with opened } { fs' with opened } := by
  obtain ⟨-, hsame⟩ := h
  refine ⟨hopen, ?_⟩
  cases hsame with
  | device ho => exact .device ho
  | file ho hfile hexecutable => exact SameBut.file ho hfile hexecutable

theorem openAt (there : Option Location) :
    Rewritten handle o (fs.openAt there).1 (fs'.openAt there).1 ∧
      (fs'.openAt there).2 = (fs.openAt there).2 := by
  rw [FileSystem.openAt, FileSystem.openAt, h.opened]
  refine ⟨h.withOpened ?_, rfl⟩
  rw [List.getElem?_append_left h.openOn.lt]
  exact h.openOn

theorem closeFrom {n : Nat} (hn : handle < n) :
    Rewritten handle o (fs.closeFrom n) (fs'.closeFrom n) := by
  rw [FileSystem.closeFrom, FileSystem.closeFrom, h.opened]
  refine h.withOpened ?_
  rw [List.getElem?_take_of_lt hn]
  exact h.openOn

/-- A write to another file. -/
theorem modifyFile {there : Option Location} (hthere : ∀ e ∈ o, there ≠ some e)
    (f : Bytes → Bytes) :
    Rewritten handle o (fs.modifyFile there f) (fs'.modifyFile there f) := by
  cases there with
  | none => exact h
  | some l =>
    rw [FileSystem.modifyFile, FileSystem.modifyFile]
    cases hget : fs.get? l with
    | none =>
      rw [h.same.get?_eq_none hget]
      exact h
    | some node =>
      obtain ⟨node', hget', hcounter⟩ := h.same.counterpart hget
      rw [hget']
      cases hcounter with
      | same hapart =>
        cases node with
        | file file => exact h.place hapart _
        | dir _ | link _ | device => exact h
      | file ho _ => exact absurd rfl (hthere l ho)
      | above _ _ _ _ => exact h

/-- The handle of another file is written to. -/
theorem writeOpen {other : Nat}
    (hother : ∀ e ∈ o, (fs.opened[other]?).bind OpenFile.location ≠ some e) (bytes : Bytes) :
    Rewritten handle o (fs.writeOpen other bytes) (fs'.writeOpen other bytes) := by
  rw [FileSystem.writeOpen, FileSystem.writeOpen, h.opened]
  cases hfile : fs.opened[other]? with
  | none => exact h
  | some file =>
    have helsewhere : ∀ e ∈ o, file.location ≠ some e :=
      fun e he hl => hother e he (by rw [hfile]; exact hl)
    have hmodified := h.modifyFile helsewhere (splice · file.offset bytes)
    refine hmodified.withOpened ?_
    -- Where a file is does not depend on how much was written to it.
    by_cases hsame : other = handle
    · subst hsame
      have hopen := h.openOn
      rw [OpenOn, hfile] at hopen
      rw [List.getElem?_set_self (List.getElem?_eq_some_iff.mp hfile).1]
      exact hopen
    · rw [List.getElem?_set_ne hsame]
      exact h.openOn

/-! ### The file itself -/

/-- All that appending to the handle can do. -/
theorem appendOpen_eq (bytes : Bytes) :
    (o = none ∧ fs.appendOpen handle bytes = fs) ∨
      ∃ e f, o = some e ∧ fs.get? e = some (.file f) ∧
        fs.appendOpen handle bytes = fs.place e (.file (f.overwrite (f.bytes ++ bytes))) := by
  obtain ⟨file, hfile, rfl⟩ := Option.map_eq_some_iff.mp h.openOn
  rw [FileSystem.appendOpen, hfile]
  dsimp only
  obtain ⟨-, hsame⟩ := h
  cases hsame with
  | device ho =>
    refine .inl ⟨ho, ?_⟩
    rw [ho]
    rfl
  | @file e f g ho hget _ =>
    refine .inr ⟨e, f, ho, hget, ?_⟩
    rw [ho, modifyFile_file hget]

theorem append_left (bytes : Bytes) : Rewritten handle o (fs.appendOpen handle bytes) fs' := by
  rcases h.appendOpen_eq bytes with ⟨-, hsame⟩ | ⟨e, f, ho, hget, hsame⟩
  · rw [hsame]
    exact h
  · obtain ⟨hopen, hrest⟩ := h
    rw [hsame]
    refine ⟨hopen, ?_⟩
    cases hrest with
    | device hnone => cases hnone.symm.trans ho
    | @file e' f' g ho' hget' hexecutable =>
      cases ho.symm.trans ho'
      cases hget.symm.trans hget'
      rw [← place_place fs e (.file (f.overwrite (f.bytes ++ bytes))) (.file g)]
      exact .file ho (get?_place hget _) hexecutable

theorem symm : Rewritten handle o fs' fs := by
  obtain ⟨hopen, hsame⟩ := h
  refine ⟨by rw [OpenOn, hsame.opened]; exact hopen, ?_⟩
  cases hsame with
  | device ho => exact .device ho
  | @file e f g ho hget hexecutable =>
    have hback := SameBut.file ho (get?_place hget (.file g)) (g := f) hexecutable.symm
    rwa [place_place, place_self hget] at hback

theorem refl : Rewritten handle o fs fs := by
  refine h.openOn.rewritten fun e he => ?_
  obtain ⟨-, hsame⟩ := h
  cases hsame with
  | device hnone => cases hnone.symm.trans he
  | @file e' f g ho hget hexecutable =>
    cases ho.symm.trans he
    exact ⟨f, hget⟩

theorem append_right (bytes : Bytes) : Rewritten handle o fs (fs'.appendOpen handle bytes) :=
  (h.symm.append_left bytes).symm

end Rewritten

end FileSystem

end MonitoredCompile

/-
MonitoredCompile/Proofs/FileSystem/Hiding.lean

A file system with one file hidden.  Hiding takes the file out of the tree and leaves all
else, so two file systems differ in nothing but this file if they are equal once it is hidden
in both.  Changes elsewhere in the tree and hiding the file can be done in either order
(`without_place` and the like).  So can a change elsewhere and one of what is there
(`withNode_comm` and what follows from it).

The file is `Lone` if it can only be reached by its own name in its own directory: no link
has this name in its target, nobody has the file open, and its directory stays.  Then walks of
paths without the name cannot tell whether it is there (`Lone.find_eq`, `Lone.target_eq`).
-/
import MonitoredCompile.Proofs.FileSystem.Exchange

namespace MonitoredCompile

/-! ### Changes in two places -/

namespace Node

theorem erase_insert {a b : String} (hne : a ≠ b) (node : Node) (entries : List (String × Node)) :
    erase b (insert a node entries) = insert a node (erase b entries) := by
  induction entries with
  | nil => simp [insert, erase, hne]
  | cons e rest ih =>
    obtain ⟨n, old⟩ := e
    by_cases ha : n = a
    · subst ha
      simp [insert, erase_cons, hne]
    · by_cases hb : n = b
      · subst hb
        simp [insert, erase_cons, ha, ih]
      · simp [insert, erase_cons, ha, hb, ih]

theorem insert_comm {a b : String} (hne : a ≠ b) (node other : Node) {entries : List (String × Node)}
    (hb : find? b entries ≠ none) :
    insert b other (insert a node entries) = insert a node (insert b other entries) := by
  induction entries with
  | nil => exact absurd rfl hb
  | cons e rest ih =>
    obtain ⟨n, old⟩ := e
    by_cases ha : n = a
    · subst ha
      simp [insert, hne]
    · by_cases hn : n = b
      · subst hn
        simp [insert, ha]
      · rw [find?, if_neg hn] at hb
        simp [insert, ha, hn, ih hb]

/-- Two entries are written in either order, if the second is dropped or is there already. -/
theorem update_comm {a b : String} (hne : a ≠ b) (value other : Option Node)
    {entries : List (String × Node)} (hb : find? b entries = none → other = none) :
    update b other (update a value entries) = update a value (update b other entries) := by
  cases value with
  | none =>
    cases other with
    | none =>
      simp only [update, erase, List.filter_filter]
      exact List.filter_congr fun e _ => Bool.and_comm _ _
    | some node => exact (erase_insert hne.symm node entries).symm
  | some node =>
    cases other with
    | none => exact erase_insert hne node entries
    | some other => exact insert_comm hne node other fun hnone => by cases hb hnone

theorem erase_of_find?_eq_none {name : String} {entries : List (String × Node)}
    (h : find? name entries = none) : erase name entries = entries := by
  induction entries with
  | nil => rfl
  | cons e rest ih =>
    obtain ⟨n, old⟩ := e
    rw [find?] at h
    split at h
    · cases h
    · next hn => rw [erase_cons, if_neg hn, ih h]

/-- What comes of an entry by a change at a location below it. -/
def changedChild (child : Option Node) (rest : Location) (value : Option Node) : Option Node :=
  if rest = [] then value else child.bind (·.put rest value)

/-- A change below a directory is a change of one entry. -/
theorem put_dir (entries : List (String × Node)) (name : String) (rest : Location)
    (value : Option Node) :
    (dir entries).put (name :: rest) value
      = some (dir (update name (changedChild (find? name entries) rest value) entries)) := by
  cases rest with
  | nil => rfl
  | cons next rest =>
    rw [put, changedChild, if_neg (List.cons_ne_nil next rest)]
    cases hchild : find? name entries with
    | none => rw [Option.bind_none, update, erase_of_find?_eq_none hchild]
    | some child => rfl

/-- Two places, neither above the other, are changed in either order, if the second is dropped
or is there already.  A new entry goes to the end of its directory, so of two new ones the order
shows. -/
theorem put_comm {l e : Location} (hle : ¬ l <+: e) (hel : ¬ e <+: l) (node : Node)
    (value : Option Node) {other : Option Node} (hthere : node.get? e = none → other = none) :
    (node.put l value).bind (·.put e other) = (node.put e other).bind (·.put l value) := by
  induction l generalizing e node with
  | nil => exact absurd List.nil_prefix hle
  | cons a l ih =>
    cases e with
    | nil => exact absurd List.nil_prefix hel
    | cons b e =>
      cases node with
      | file f | link t | device =>
        rw [put_of_not_dir (by simp) (List.cons_ne_nil a l), put_of_not_dir (by simp)
          (List.cons_ne_nil b e), Option.bind_some, Option.bind_some,
          put_of_not_dir (by simp) (List.cons_ne_nil a l),
          put_of_not_dir (by simp) (List.cons_ne_nil b e)]
      | dir entries =>
        rw [get?_dir_cons] at hthere
        rw [put_dir, put_dir, Option.bind_some, Option.bind_some, put_dir, put_dir]
        refine congrArg (fun entries => some (dir entries)) ?_
        by_cases hab : a = b
        · subst hab
          rw [List.prefix_cons_inj] at hle hel
          have hl : l ≠ [] := fun h => hle (h ▸ List.nil_prefix)
          have he : e ≠ [] := fun h => hel (h ▸ List.nil_prefix)
          simp only [changedChild, hl, he, if_false, find?_update, if_true]
          cases hchild : find? a entries with
          | none => rfl
          | some child =>
            rw [hchild, Option.bind_some] at hthere
            obtain ⟨c₁, hc₁⟩ := put_isSome hl child value
            obtain ⟨c₂, hc₂⟩ := put_isSome he child other
            have hsame := ih hle hel child hthere
            rw [hc₁, hc₂, Option.bind_some, Option.bind_some] at hsame
            obtain ⟨c, hc⟩ := put_isSome he c₁ other
            rw [Option.bind_some, Option.bind_some, hc₁, hc₂, Option.bind_some, Option.bind_some,
              ← hsame, hc, update, update, update, insert_insert, update, insert_insert]
        · have hba : b ≠ a := fun h => hab h.symm
          rw [find?_update, if_neg hba, find?_update, if_neg hab]
          refine update_comm hab _ _ fun hnone => ?_
          rw [hnone] at hthere ⊢
          rw [changedChild]
          split
          · exact hthere rfl
          · rfl

/-- A change does not touch what is elsewhere. -/
theorem get?_put_off {l e : Location} (hle : ¬ l <+: e) (hel : ¬ e <+: l) {node after : Node}
    {value : Option Node} (h : node.put e value = some after) : after.get? l = node.get? l := by
  induction l generalizing e node after with
  | nil => exact absurd List.nil_prefix hle
  | cons a l ih =>
    cases e with
    | nil => exact absurd List.nil_prefix hel
    | cons b e =>
      cases node with
      | file f | link t | device =>
        rw [put_of_not_dir (by simp) (List.cons_ne_nil b e)] at h
        cases h
        rfl
      | dir entries =>
        rw [put_dir] at h
        cases h
        rw [get?_dir_cons, get?_dir_cons, find?_update]
        split
        · next hab =>
          subst hab
          rw [List.prefix_cons_inj] at hle hel
          have he : e ≠ [] := fun h => hel (h ▸ List.nil_prefix)
          rw [changedChild, if_neg he]
          cases find? a entries with
          | none => rfl
          | some child =>
            obtain ⟨child', hput⟩ := put_isSome he child value
            rw [Option.bind_some, Option.bind_some, hput, Option.bind_some]
            exact ih hle hel hput
        · rfl

end Node

/-- Neither location is at or above the other. -/
structure Location.Apart (l e : Location) : Prop where
  not_above : ¬ l <+: e
  not_below : ¬ e <+: l

theorem Location.Apart.ne_nil {l e : Location} (h : l.Apart e) : l ≠ [] :=
  fun hl => h.not_above (hl ▸ List.nil_prefix)

theorem Location.Apart.symm {l e : Location} (h : l.Apart e) : e.Apart l :=
  ⟨h.not_below, h.not_above⟩

namespace FileSystem

variable {fs : FileSystem} {l m e : Location}

/-! ### Hiding -/

/-- The files with what is at a location hidden.  Unlike a removal this leaves the current
directory and the open files as they are. -/
def without (fs : FileSystem) (e : Location) : FileSystem := fs.withNode e none

theorem entryAt_without (hl : ¬ e <+: l) : (fs.without e).entryAt l = fs.entryAt l :=
  entryAt_withNode hl none

theorem get?_without_eq_none (hl : ¬ e <+: l) : (fs.without e).get? l = none ↔ fs.get? l = none := by
  have hsame : ((fs.without e).get? l).map Node.entry = (fs.get? l).map Node.entry :=
    entryAt_without hl
  rw [← Option.map_eq_none_iff (f := Node.entry), hsame, Option.map_eq_none_iff]

theorem get?_withNode_off (h : l.Apart e) (value : Option Node) :
    (fs.withNode e value).get? l = fs.get? l := by
  obtain ⟨after, hput⟩ := Node.put_isSome h.symm.ne_nil fs.root value
  rw [withNode, get?, hput]
  exact Node.get?_put_off h.not_above h.not_below hput

theorem get?_without (h : l.Apart e) : (fs.without e).get? l = fs.get? l := get?_withNode_off h none

/-! ### Changes elsewhere -/

section

variable (h : l.Apart e) {other : Option Node} (hthere : fs.get? e = none → other = none)
include h hthere

/-- What is put in one place, or dropped there, does not depend on whether another place was
changed before. -/
theorem withNode_comm (value : Option Node) :
    (fs.withNode l value).withNode e other = (fs.withNode e other).withNode l value := by
  obtain ⟨a, ha⟩ := Node.put_isSome h.ne_nil fs.root value
  obtain ⟨b, hb⟩ := Node.put_isSome h.symm.ne_nil fs.root other
  have hsame := Node.put_comm h.not_above h.not_below fs.root value hthere
  rw [ha, hb, Option.bind_some, Option.bind_some] at hsame
  obtain ⟨c, hc⟩ := Node.put_isSome h.ne_nil b value
  rw [withNode, withNode, withNode, withNode, ha, hb]
  simp only [Option.getD_some]
  rw [hsame, hc]
  rfl

theorem withNode_place (node : Node) :
    (fs.place l node).withNode e other = (fs.withNode e other).place l node :=
  withNode_comm h hthere (some node)

theorem withNode_remove : (fs.remove l).withNode e other = (fs.withNode e other).remove l := by
  have hsame := withNode_comm h hthere none
  rw [remove, remove, ← hsame]
  rfl

theorem withNode_clear : (fs.clear l).withNode e other = (fs.withNode e other).clear l := by
  have hsame := withNode_place h hthere (.dir [])
  rw [clear, clear, ← hsame]
  rfl

theorem withNode_relocate (hm : m.Apart e) :
    (fs.relocate l m).withNode e other = (fs.withNode e other).relocate l m := by
  rw [relocate, relocate, get?_withNode_off h]
  cases fs.get? l with
  | none => rfl
  | some node =>
    have hfirst := withNode_comm h hthere none
    have hsecond : ((fs.withNode l none).withNode m (some node)).withNode e other
        = ((fs.withNode l none).withNode e other).withNode m (some node) :=
      withNode_comm hm (fun hnone => hthere ((get?_withNode_off h.symm none).symm.trans hnone))
        (some node)
    rw [hfirst] at hsecond
    dsimp only
    rw [← hsecond]
    rfl

end

section

variable (h : l.Apart e)
include h

theorem without_place (node : Node) : (fs.place l node).without e = (fs.without e).place l node :=
  withNode_place h (fun _ => rfl) node

theorem without_remove : (fs.remove l).without e = (fs.without e).remove l :=
  withNode_remove h fun _ => rfl

theorem without_clear : (fs.clear l).without e = (fs.without e).clear l :=
  withNode_clear h fun _ => rfl

theorem without_relocate (hm : m.Apart e) :
    (fs.relocate l m).without e = (fs.without e).relocate l m :=
  withNode_relocate h (fun _ => rfl) hm

end

/-! ### A lone file -/

/-- What is in the directory `d` under the name `x`, if anything is, is plain, and only this
name in this directory leads to it. -/
structure Lone (fs : FileSystem) (d : Location) (x : String) : Prop where
  isName : IsName x
  dir : fs.entryAt d = some .dir
  plain : ∀ entry, fs.entryAt (d ++ [x]) = some entry → entry.Plain
  links : ∀ l target, fs.entryAt l = some (.link target) → x ∉ Path.names target
  cwd : fs.cwd = some d
  closed : ∀ o ∈ fs.opened, o.location ≠ some (d ++ [x])

/-- What was written at or below a place is what is there, if anything is. -/
theorem entryAt_of_withNode {value : Option Node} {k : Location} {entry : Entry} (hl : l ≠ [])
    (h : (fs.withNode l value).entryAt (l ++ k) = some entry) :
    value.bind (·.entryAt k) = some entry := by
  rcases List.eq_nil_or_concat l with rfl | ⟨p, name, rfl⟩
  · exact absurd rfl hl
  · rw [List.concat_eq_append, List.append_assoc, List.singleton_append] at h
    by_cases hp : fs.entryAt p = some .dir
    · rwa [entryAt_withNode_below hp] at h
    · have hnot : (fs.withNode (p ++ [name]) value).entryAt p ≠ some .dir := by
        rwa [entryAt_withNode (Location.not_concat_prefix p name) value]
      exact absurd (dir_of_below h) hnot

namespace Lone

variable {d : Location} {x : String} (h : fs.Lone d x)
include h

/-- A place that is no directory's is not above the file. -/
theorem apart (hl : fs.entryAt l ≠ some .dir) (hbelow : ¬ d ++ [x] <+: l) : l.Apart (d ++ [x]) := by
  refine ⟨fun hp => ?_, hbelow⟩
  rcases List.prefix_concat_iff.mp hp with rfl | hp
  · exact hbelow List.prefix_rfl
  · exact not_prefix_of_dir hl h.dir hp

/-- No directory is in the place of the file. -/
theorem not_prefix_dir (hl : fs.entryAt l = some .dir) : ¬ d ++ [x] <+: l :=
  not_prefix_of_dir (fun hdir => (h.plain _ hdir).ne_dir rfl) hl

omit h in
theorem apart_of_not_above (hl : ¬ l <+: d) (hbelow : ¬ d ++ [x] <+: l) : l.Apart (d ++ [x]) := by
  refine ⟨fun hp => ?_, hbelow⟩
  rcases List.prefix_concat_iff.mp hp with rfl | hp
  · exact hbelow List.prefix_rfl
  · exact hl hp

omit h in
theorem not_above_dir (hl : l.Apart (d ++ [x])) : ¬ l <+: d :=
  fun hp => hl.not_above (hp.trans (List.prefix_append d [x]))

/-- Elsewhere there is the same when the file is hidden, but for the entries of a directory
that it is below. -/
theorem get?_cases (hl : ¬ d ++ [x] <+: l) {node : Node} (hget : fs.get? l = some node) :
    ((fs.without (d ++ [x])).get? l = some node ∧ l.Apart (d ++ [x]) ∧ node.entry ≠ .dir) ∨
    ∃ entries entries', node = .dir entries ∧
      (fs.without (d ++ [x])).get? l = some (.dir entries') ∧
      (¬ l <+: d → l.Apart (d ++ [x]) ∧ entries' = entries) := by
  by_cases hdir : node.entry = .dir
  · obtain ⟨entries, rfl⟩ := Node.entry_eq_dir.mp hdir
    obtain ⟨entries', hget'⟩ := entryAt_eq_dir.mp
      ((entryAt_without hl).trans (entryAt_eq_dir.mpr ⟨entries, hget⟩))
    refine .inr ⟨entries, entries', rfl, hget', fun habove => ?_⟩
    have hapart := apart_of_not_above habove hl
    have hsame := (get?_without hapart).trans hget
    rw [show (fs.without (d ++ [x])).get? l = some (.dir entries') from hget'] at hsame
    cases hsame
    exact ⟨hapart, rfl⟩
  · have hapart : l.Apart (d ++ [x]) := by
      refine h.apart (fun hentry => hdir ?_) hl
      exact Option.some.inj ((entryAt_of_get? hget).symm.trans hentry)
    exact .inl ⟨(get?_without hapart).trans hget, hapart, hdir⟩

/-! #### What keeps it lone -/

theorem withNode (hl : l.Apart (d ++ [x])) {value : Option Node}
    (hvalue : ∀ k target, value.bind (·.entryAt k) = some (.link target) → x ∉ Path.names target) :
    (fs.withNode l value).Lone d x where
  isName := h.isName
  dir := (entryAt_withNode (not_above_dir hl) value).trans h.dir
  plain entry hentry := h.plain entry ((entryAt_withNode hl.not_above value).symm.trans hentry)
  links m target hlink := by
    by_cases hm : l <+: m
    · obtain ⟨k, rfl⟩ := hm
      exact hvalue k target (entryAt_of_withNode hl.ne_nil hlink)
    · exact h.links m target ((entryAt_withNode hm value).symm.trans hlink)
  cwd := h.cwd
  closed := h.closed

/-- Something without links in it was put elsewhere. -/
theorem place (hl : l.Apart (d ++ [x])) {node : Node}
    (hnode : ∀ k target, node.entryAt k = some (.link target) → x ∉ Path.names target) :
    (fs.place l node).Lone d x :=
  h.withNode hl fun k target hlink => hnode k target hlink

theorem remove (hl : l.Apart (d ++ [x])) : (fs.remove l).Lone d x := by
  have hnode : (fs.withNode l none).Lone d x := h.withNode hl (by simp)
  refine ⟨h.isName, hnode.dir, hnode.plain, hnode.links, ?_, fun o ho => ?_⟩
  · show fs.cwd.bind (keptAfter l) = some d
    rw [h.cwd, Option.bind_some, keptAfter, if_neg]
    exact fun hp => not_above_dir hl (List.isPrefixOf_iff_prefix.mp hp)
  · obtain ⟨o', ho', rfl⟩ := List.mem_map.mp ho
    intro hsome
    obtain ⟨there, hthere, hkept⟩ := Option.bind_eq_some_iff.mp hsome
    rw [keptAfter] at hkept
    split at hkept
    · cases hkept
    · cases hkept
      exact h.closed o' ho' hthere

theorem clear (hl : l.Apart (d ++ [x])) : (fs.clear l).Lone d x := by
  have hnode : (fs.place l (.dir [])).Lone d x :=
    h.place hl fun k target hlink => by cases k <;> cases hlink
  refine ⟨h.isName, hnode.dir, hnode.plain, hnode.links, ?_, fun o ho => ?_⟩
  · show fs.cwd.bind (fun m => if l.isPrefixOf m ∧ m ≠ l then none else some m) = some d
    rw [h.cwd, Option.bind_some, if_neg]
    exact fun hp => not_above_dir hl (List.isPrefixOf_iff_prefix.mp hp.1)
  · obtain ⟨o', ho', rfl⟩ := List.mem_map.mp ho
    intro hsome
    obtain ⟨there, hthere, hkept⟩ := Option.bind_eq_some_iff.mp hsome
    split at hkept
    · cases hkept
    · cases hkept
      exact h.closed o' ho' hthere

theorem relocate (hl : l.Apart (d ++ [x])) (hm : m.Apart (d ++ [x])) :
    (fs.relocate l m).Lone d x := by
  rw [FileSystem.relocate]
  cases hget : fs.get? l with
  | none => exact h
  | some node =>
    have hcleared : (fs.withNode l none).Lone d x := h.withNode hl (by simp)
    have hnode : ((fs.withNode l none).withNode m (some node)).Lone d x :=
      hcleared.withNode hm fun k target hlink => h.links (l ++ k) target (by
        rw [entryAt_append_of_get? hget]
        exact hlink)
    refine ⟨h.isName, hnode.dir, hnode.plain, hnode.links, ?_, fun o ho => ?_⟩
    · show fs.cwd.map (rebase l m) = some d
      rw [h.cwd, Option.map_some, rebase, if_neg]
      exact fun hp => not_above_dir hl (List.isPrefixOf_iff_prefix.mp hp)
    · obtain ⟨o', ho', rfl⟩ := List.mem_map.mp ho
      intro hsome
      obtain ⟨there, hthere, hmoved⟩ := Option.bind_eq_some_iff.mp hsome
      rw [Option.some.injEq, rebase] at hmoved
      split at hmoved
      · exact hm.not_above ⟨_, hmoved⟩
      · exact h.closed o' ho' (hmoved ▸ hthere)

end Lone

end FileSystem

end MonitoredCompile

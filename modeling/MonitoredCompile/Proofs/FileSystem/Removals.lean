/-
MonitoredCompile/Proofs/FileSystem/Removals.lean

What removing a name or a tree takes away.  `Trims log gone` says that whatever is missing
afterwards was where `gone` says, that nothing is new, and that nothing else has changed,
except that a file which is being logged to may have more at its end.

A tree is looked up twice when it is removed by its path: once to be emptied, and once more
for the directory that is then left of it.  `Swept` has one case for each way this ends, and
after all of them the path leads to no directory (`Swept.not_realDirAt`), so to remove the
tree again does nothing.
-/
import MonitoredCompile.Proofs.FileSystem.Additions
import MonitoredCompile.Proofs.FileSystem.Exchange

namespace MonitoredCompile

open Attempt (exec)

/-- The last step of the path is a name in a directory. -/
structure Path.EndsInName (path : String) : Prop where
  no_slash : Path.endsInSlash path = false
  last : ∃ init last, Path.names path = init ++ [last] ∧ last ≠ "." ∧ last ≠ ".."

theorem Path.endsInName_join {dir name : String} (h : IsName name) :
    Path.EndsInName (Path.join dir name) := by
  have hpiece : Path.IsPiece name := ⟨h.ne_empty, h.no_slash⟩
  exact ⟨Path.endsInSlash_join hpiece, _, name, Path.names_join hpiece, h.ne_here, h.ne_above⟩

namespace FileSystem

variable {log gone : Location → Prop} {fs fs' : FileSystem} {path : String} {l m top : Location}
  {node : Node}

/-! ### File systems with less -/

/-- The path names a directory at this location, and no link to one. -/
def RealDirAt (fs : FileSystem) (path : String) (l : Location) : Prop :=
  ∃ entries, fs.find path false = .ok (l, .dir entries)

namespace Embeds

theorem of_extends (h : Extends fs fs') (hcwd : ∀ here, fs.cwd = some here → fs'.cwd = some here) :
    Embeds fs fs' :=
  ⟨fun m e hm => ⟨e, h m e hm, .refl e⟩, hcwd⟩

theorem remove (fs : FileSystem) (l : Location) : Embeds (fs.remove l) fs :=
  .of_extends (extends_remove fs l) fun _ => cwd_of_remove

theorem clear {entries : List (String × Node)} (h : fs.get? l = some (.dir entries)) :
    Embeds (fs.clear l) fs :=
  .of_extends (extends_clear h) fun _ => cwd_of_clear

/-- It stays so when the same directory is emptied in both. -/
theorem clear_clear {entries entries' : List (String × Node)} (h : Embeds fs fs')
    (hget : fs.get? l = some (.dir entries)) (hget' : fs'.get? l = some (.dir entries')) :
    Embeds (fs.clear l) (fs'.clear l) := by
  refine ⟨fun m e hm => ?_, fun here hhere => ?_⟩
  · by_cases hp : l <+: m
    · obtain ⟨k, rfl⟩ := hp
      cases k with
      | nil =>
        rw [List.append_nil] at hm ⊢
        cases (entryAt_clear_self hget).symm.trans hm
        exact ⟨.dir, entryAt_clear_self hget', .refl _⟩
      | cons name k => cases (entryAt_clear_below hget).symm.trans hm
    · rw [entryAt_clear hp] at hm ⊢
      exact h.alike m e hm
  · let kept (x : Location) : Option Location := if l.isPrefixOf x ∧ x ≠ l then none else some x
    have hcwd := cwd_of_clear hhere
    have hkept : fs.cwd.bind kept = some here := hhere
    rw [hcwd] at hkept
    show fs'.cwd.bind kept = some here
    rw [h.cwd here hcwd]
    exact hkept

theorem realDirAt (h : Embeds fs fs') (hdir : fs.RealDirAt path l) : fs'.RealDirAt path l := by
  obtain ⟨entries, hfind⟩ := hdir
  obtain ⟨node', hfind', halike⟩ := h.find hfind
  obtain ⟨entries', rfl⟩ := Node.entry_eq_dir.mp (halike.dir.mp rfl)
  exact ⟨entries', hfind'⟩

end Embeds

/-! ### Removals -/

structure Trims (log gone : Location → Prop) (fs fs' : FileSystem) : Prop where
  old : ∀ m e, fs.entryAt m = some e → fs'.entryAt m = some e ∨
    gone m ∧ fs'.entryAt m = none ∨ log m ∧ fs'.LongerAt m e
  new : ∀ m, fs.entryAt m = none → fs'.entryAt m = none
  /-- Only who was in what is gone is nowhere. -/
  cwd : fs'.cwd = fs.cwd ∨ fs'.cwd = none ∧ ∀ here, fs.cwd = some here → gone here

namespace Trims

theorem refl (fs : FileSystem) : Trims log gone fs fs :=
  ⟨fun _ _ h => .inl h, fun _ h => h, .inl rfl⟩

theorem mono {gone' : Location → Prop} (h : Trims log gone fs fs') (hgone : ∀ m, gone m → gone' m) :
    Trims log gone' fs fs' := by
  refine ⟨fun m e hm => ?_, h.new, ?_⟩
  · exact (h.old m e hm).imp_right (.imp_left (.imp_left (hgone m)))
  · exact h.cwd.imp_right (.imp_right fun hall here hhere => hgone here (hall here hhere))

theorem trans {a b c : FileSystem} (hab : Trims log gone a b) (hbc : Trims log gone b c) :
    Trims log gone a c := by
  refine ⟨fun m e hm => ?_, fun m hm => hbc.new m (hab.new m hm), ?_⟩
  · rcases hab.old m e hm with hb | ⟨hgone, hb⟩ | ⟨hlog, hlonger⟩
    · exact hbc.old m e hb
    · exact .inr (.inl ⟨hgone, hbc.new m hb⟩)
    · obtain ⟨f, more, he, hb⟩ := id hlonger
      rcases hbc.old m _ hb with hc | ⟨hgone, hc⟩ | ⟨-, hmore⟩
      · exact .inr (.inr ⟨hlog, f, more, he, hc⟩)
      · exact .inr (.inl ⟨hgone, hc⟩)
      · exact .inr (.inr ⟨hlog, hlonger.trans hb hmore⟩)
  · rcases hab.cwd with hb | ⟨hb, hall⟩
    · rw [← hb]
      exact hbc.cwd
    · exact .inr ⟨hbc.cwd.elim (·.trans hb) And.left, hall⟩

theorem of_adds (h : Adds log (fun _ => False) fs fs') : Trims log gone fs fs' :=
  ⟨fun m e hm => (h.old m e hm).imp_right .inr,
    fun m hm => Decidable.byContradiction fun hsome => h.new m hm hsome, .inl h.cwd⟩

/-- Nothing is left of what was at or below a location. -/
theorem remove (hl : l ≠ []) : Trims log (l <+: ·) fs (fs.remove l) := by
  refine ⟨fun m e hm => ?_, fun m hm => ?_, ?_⟩
  · by_cases hp : l <+: m
    · exact .inr (.inl ⟨hp, entryAt_remove_below hl hp⟩)
    · exact .inl ((entryAt_remove hp).trans hm)
  · refine Option.eq_none_iff_forall_ne_some.mpr fun e he => ?_
    cases hm.symm.trans (entryAt_of_remove he)
  · show fs.cwd.bind (keptAfter l) = _ ∨ fs.cwd.bind (keptAfter l) = none ∧ _
    cases hcwd : fs.cwd with
    | none => exact .inl rfl
    | some here =>
      rw [Option.bind_some, keptAfter]
      split
      · next hp =>
        refine .inr ⟨rfl, fun _ hhere => ?_⟩
        cases hhere
        exact List.isPrefixOf_iff_prefix.mp hp
      · exact .inl rfl

/-- Nothing is left of what a directory held. -/
theorem clear {entries : List (String × Node)} (hget : fs.get? l = some (.dir entries)) :
    Trims log (l <+: ·) fs (fs.clear l) := by
  refine ⟨fun m e hm => ?_, fun m hm => ?_, ?_⟩
  · by_cases hp : l <+: m
    · obtain ⟨k, rfl⟩ := hp
      cases k with
      | nil =>
        rw [List.append_nil] at hm ⊢
        cases (entryAt_of_get? hget).symm.trans hm
        exact .inl (entryAt_clear_self hget)
      | cons name k => exact .inr (.inl ⟨List.prefix_append l _, entryAt_clear_below hget⟩)
    · exact .inl ((entryAt_clear hp).trans hm)
  · refine Option.eq_none_iff_forall_ne_some.mpr fun e he => ?_
    cases hm.symm.trans (extends_clear hget m e he)
  · let kept (x : Location) : Option Location := if l.isPrefixOf x ∧ x ≠ l then none else some x
    show fs.cwd.bind kept = _ ∨ fs.cwd.bind kept = none ∧ _
    cases hcwd : fs.cwd with
    | none => exact .inl rfl
    | some here =>
      by_cases hp : l.isPrefixOf here ∧ here ≠ l
      · refine .inr ⟨if_pos hp, fun _ hhere => ?_⟩
        cases hhere
        exact List.isPrefixOf_iff_prefix.mp hp.1
      · exact .inl (if_neg hp)

/-- Nothing is walked afterwards that could not be walked before. -/
theorem embeds (h : Trims log gone fs fs') : Embeds fs' fs := by
  refine ⟨fun m e' hm => ?_, fun here hhere => ?_⟩
  · cases hbefore : fs.entryAt m with
    | none => cases (h.new m hbefore).symm.trans hm
    | some e =>
      refine ⟨e, rfl, ?_⟩
      rcases h.old m e hbefore with hsame | ⟨-, hnone⟩ | ⟨-, f, more, rfl, hlonger⟩
      · cases hsame.symm.trans hm
        exact .refl _
      · cases hnone.symm.trans hm
      · cases hlonger.symm.trans hm
        exact .ofFiles _ _
  · rcases h.cwd with hsame | ⟨hnone, -⟩
    · exact hsame.symm.trans hhere
    · cases hnone.symm.trans hhere

end Trims

/-! ### Calls that remove a name -/

section

variable (hpath : Path.EndsInName path)
include hpath

theorem target_eq_some_iff :
    fs.target path = .ok (.name ⟨l, some node⟩ false) ↔ fs.find path false = .ok (l, node) := by
  rw [target_eq_name_iff, find_eq_ok_iff, steps, hpath.no_slash, if_neg Bool.false_ne_true,
    List.append_nil]
  constructor
  · rintro ⟨-, -, hfinds, hget⟩
    exact ⟨hfinds, hget.symm⟩
  · rintro ⟨hfinds, hget⟩
    exact ⟨rfl, hpath.last, hfinds, hget.symm⟩

/-- A name is found in a directory. -/
theorem location_ne_nil (hfind : fs.find path false = .ok (l, node)) : l ≠ [] := by
  obtain ⟨init, last, hnames, hne, hnu⟩ := hpath.last
  obtain ⟨⟨-, here, -, hleads⟩, -⟩ := find_eq_ok_iff.mp hfind
  rw [steps, hpath.no_slash, if_neg Bool.false_ne_true, List.append_nil, hnames] at hleads
  obtain ⟨d, rfl, -⟩ := hleads.of_concat_name hne hnu
  simp

theorem removeFile_eq_ok_iff :
    fs.removeFile path = .ok fs' ↔ ∃ l node, fs.find path false = .ok (l, node) ∧
      (∀ entries, node ≠ .dir entries) ∧ fs' = fs.remove l := by
  constructor
  · intro h
    obtain ⟨l, node, ht, hnode, rfl⟩ := removeFile_eq_ok h
    exact ⟨l, node, (target_eq_some_iff hpath).mp ht, hnode, rfl⟩
  · rintro ⟨l, node, hfind, hnode, rfl⟩
    rw [removeFile, (target_eq_some_iff hpath).mpr hfind]
    cases node with
    | dir entries => exact absurd rfl (hnode entries)
    | file | link | device => rfl

/-- If the name cannot be removed, then it is the system that says so. -/
theorem removeFile_ne_nul (hflaw : flaw? path = none) : fs.removeFile path ≠ .error .nul := by
  obtain ⟨init, last, hnames, hne, hnu⟩ := hpath.last
  intro h
  rw [removeFile, target_of_names hnames hne hnu] at h
  cases hwalk : fs.walkFor path (false && !Path.endsInSlash path) (Path.names path) with
  | error r =>
    rw [hwalk] at h
    cases h
    exact walkFor_ne_nul hflaw _ _ hwalk
  | ok place =>
    rw [hwalk] at h
    dsimp only at h
    split at h
    · next hok => cases hok
    all_goals cases h

theorem removeDir_of_find (hfind : fs.find path false = .ok (l, .dir [])) :
    fs.removeDir path = .ok (fs.remove l) := by
  rw [removeDir, (target_eq_some_iff hpath).mpr hfind]

end

/-! ### Removing a tree -/

/-- The ways in which the removal of a tree ends. -/
inductive Swept (path : String) (fs : FileSystem) : FileSystem → Prop
  | untouched : (∀ l, ¬ fs.RealDirAt path l) → Swept path fs fs
  | removed {top : Location} : fs.RealDirAt path top → (fs.clear top).RealDirAt path top →
      Swept path fs ((fs.clear top).remove top)
  /-- The path went through what the directory held. -/
  | emptied {top : Location} : fs.RealDirAt path top → (∀ l, ¬ (fs.clear top).RealDirAt path l) →
      Swept path fs (fs.clear top)

theorem RealDirAt.unique (h : fs.RealDirAt path l) (h' : fs.RealDirAt path m) : l = m := by
  obtain ⟨entries, hfind⟩ := h
  obtain ⟨entries', hfind'⟩ := h'
  cases hfind.symm.trans hfind'
  rfl

theorem RealDirAt.entryAt (h : fs.RealDirAt path l) : fs.entryAt l = some .dir := by
  obtain ⟨entries, hfind⟩ := h
  exact entryAt_of_get? (find_eq_ok_iff.mp hfind).2

end FileSystem

open FileSystem (RealDirAt Swept Trims Embeds)

variable {log : Location → Prop} {fs fs' : FileSystem} {path : String} {l top : Location}

theorem FileOp.swept_removeTree (hpath : Path.EndsInName path) (fs : FileSystem) :
    Swept path fs (exec (FileOp.removeTree path) fs).2 := by
  rw [exec_removeTree]
  cases hfind : fs.find path false with
  | error r =>
    refine .untouched fun l ⟨entries, hdir⟩ => ?_
    cases hfind.symm.trans hdir
  | ok found =>
    obtain ⟨top, node⟩ := found
    cases node with
    | file | link | device =>
      refine .untouched fun l ⟨entries, hdir⟩ => ?_
      cases hfind.symm.trans hdir
    | dir entries =>
      have htop : fs.RealDirAt path top := ⟨entries, hfind⟩
      have hget := (FileSystem.find_eq_ok_iff.mp hfind).2
      dsimp only
      rw [exec_call]
      cases hremove : (fs.clear top).removeDir path with
      | ok after =>
        obtain ⟨hleft, -, rfl⟩ := FileSystem.removeDir_clear_eq_ok hfind hremove
        exact .removed htop ⟨[], hleft⟩
      | error r =>
        -- If the path still led to a directory, then to the one that was emptied.
        refine .emptied htop fun l hl => ?_
        obtain rfl := ((Embeds.clear hget).realDirAt hl).unique htop
        obtain ⟨left, hleft⟩ := hl
        have hempty : (fs.clear l).get? l = some (.dir []) := FileSystem.get?_place hget (.dir [])
        cases (FileSystem.find_eq_ok_iff.mp hleft).2.symm.trans hempty
        cases hremove.symm.trans (FileSystem.removeDir_of_find hpath hleft)

namespace FileSystem.Swept

theorem trims (hpath : Path.EndsInName path) (h : Swept path fs fs') :
    Trims log (fun m => ∃ top, fs.RealDirAt path top ∧ top <+: m) fs fs' := by
  cases h with
  | untouched => exact .refl fs
  | @removed top htop _ =>
    obtain ⟨entries, hfind⟩ := id htop
    have hclear : Trims log (top <+: ·) fs (fs.clear top) := .clear (find_eq_ok_iff.mp hfind).2
    have hboth := hclear.trans (.remove (location_ne_nil hpath hfind))
    exact hboth.mono fun m hm => ⟨top, htop, hm⟩
  | @emptied top htop _ =>
    obtain ⟨entries, hfind⟩ := id htop
    have hclear : Trims log (top <+: ·) fs (fs.clear top) := .clear (find_eq_ok_iff.mp hfind).2
    exact hclear.mono fun m hm => ⟨top, htop, hm⟩

/-- Where there is no directory nothing is done. -/
theorem eq_self (h : Swept path fs fs') (hnone : ∀ l, ¬ fs.RealDirAt path l) : fs' = fs := by
  cases h with
  | untouched => rfl
  | removed htop | emptied htop => exact absurd htop (hnone _)

/-- The path leads to no directory any more. -/
theorem not_realDirAt (hpath : Path.EndsInName path) (h : Swept path fs fs') :
    ¬ fs'.RealDirAt path l := by
  cases h with
  | untouched hnone => exact hnone l
  | emptied _ hlost => exact hlost l
  | @removed top htop hstill =>
    intro hl
    obtain rfl := ((Embeds.remove _ _).realDirAt hl).unique hstill
    obtain ⟨entries, hfind⟩ := htop
    cases (entryAt_remove_below (location_ne_nil hpath hfind) List.prefix_rfl).symm.trans hl.entryAt

/-- Nothing is left of what the directory held. -/
theorem entryAt_below {name : String} {k : Location} (h : Swept path fs fs')
    (htop : fs.RealDirAt path top) : fs'.entryAt (top ++ name :: k) = none := by
  have hcleared : (fs.clear top).entryAt (top ++ name :: k) = none := by
    obtain ⟨entries, hfind⟩ := id htop
    exact entryAt_clear_below (find_eq_ok_iff.mp hfind).2
  cases h with
  | untouched hnone => exact absurd htop (hnone top)
  | emptied htop' _ =>
    obtain rfl := htop.unique htop'
    exact hcleared
  | removed htop' _ =>
    obtain rfl := htop.unique htop'
    refine Option.eq_none_iff_forall_ne_some.mpr fun e he => ?_
    cases hcleared.symm.trans (entryAt_of_remove he)

/-- The directory itself is gone if its path leads to it also when it is empty. -/
theorem entryAt_eq_none_iff (hpath : Path.EndsInName path) (h : Swept path fs fs')
    (htop : fs.RealDirAt path top) :
    fs'.entryAt top = none ↔ (fs.clear top).RealDirAt path top := by
  cases h with
  | untouched hnone => exact absurd htop (hnone top)
  | emptied htop' hlost =>
    obtain rfl := htop.unique htop'
    obtain ⟨entries, hfind⟩ := htop
    rw [entryAt_clear_self (find_eq_ok_iff.mp hfind).2]
    exact ⟨nofun, fun hstill => absurd hstill (hlost top)⟩
  | removed htop' hstill =>
    obtain rfl := htop.unique htop'
    obtain ⟨entries, hfind⟩ := htop
    exact ⟨fun _ => hstill, fun _ => entryAt_remove_below (location_ne_nil hpath hfind) List.prefix_rfl⟩

end FileSystem.Swept

end MonitoredCompile

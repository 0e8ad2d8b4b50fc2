/-
MonitoredCompile/Proofs/FileSystem/Misses.lean

Paths and calls that miss a hidden file.  A path misses a location if its walks end elsewhere,
and in the same places whether the location is hidden or not.  So does every path in which the
name of a lone file does not occur (`Lone.misses`), and the path of a name in another directory
(`Lone.misses_join`).

What a call about such a path does to a file system with the file hidden is what it does to
the file system as it is, with the file hidden after that: the call is `Blind` to the file.
Only for a call about a directory it matters that the file is not below this directory.
-/
import MonitoredCompile.Proofs.FileSystem.Hiding
import MonitoredCompile.Proofs.FileSystem.Shape

namespace MonitoredCompile.FileSystem

variable {fs : FileSystem} {d e l : Location} {x path : String} {follow : Bool}

/-! ### Paths -/

/-- Walks of the path end elsewhere, and in the same places if what is at the location is
hidden. -/
structure Misses (fs : FileSystem) (e : Location) (path : String) (follow : Bool) : Prop where
  find : (fs.without e).find path follow =
    match fs.find path follow with
    | .error r => .error r
    | .ok (m, _) =>
      match (fs.without e).get? m with
      | none => .error (.system .noEntry)
      | some node => .ok (m, node)
  find_off : ∀ m node, fs.find path follow = .ok (m, node) → ¬ e <+: m
  target : (fs.without e).target path follow
    = (fs.target path follow).map (Target.movedTo (fs.without e).root)
  target_off : ∀ place slash, fs.target path follow = .ok (.name place slash) →
    ¬ e <+: place.location

namespace Lone

/-- Without its name no walk comes to the file. -/
theorem region (h : fs.Lone d x) :
    SameShapeIn (fun m => ¬ d ++ [x] <+: m) (· ≠ x) fs.root (fs.without (d ++ [x])).root where
  alike m hm := by
    rw [show (fs.without (d ++ [x])).root.entryAt m = fs.root.entryAt m from entryAt_without hm]
    cases fs.root.entryAt m with
    | none => exact .none
    | some entry => exact .some (.refl entry)
  top hp := by simpa using hp.length_le
  up m hm hp := hm (hp.trans (List.dropLast_prefix m))
  down m name hm hname hp := by
    rcases List.prefix_concat_iff.mp hp with heq | hp
    · exact hname (List.append_inj_right' heq rfl |> List.singleton_inj.mp |> Eq.symm)
    · exact hm hp
  links m target _ hlink name hname := by
    rintro rfl
    rcases List.mem_append.mp hname with hname | hname
    · exact h.links m target hlink hname
    · split at hname
      · exact h.isName.ne_here (List.mem_singleton.mp hname)
      · cases hname

/-- A path without the name misses the file. -/
theorem misses (h : fs.Lone d x) (hx : x ∉ Path.names path) (follow : Bool) :
    fs.Misses (d ++ [x]) path follow := by
  have hnames : ∀ name ∈ Path.names path, name ≠ x := fun name hname heq => hx (heq ▸ hname)
  have hsteps : ∀ name ∈ steps path, name ≠ x := by
    intro name hname
    rcases List.mem_append.mp hname with hname | hname
    · exact hnames name hname
    · split at hname
      · exact List.mem_singleton.mp hname ▸ h.isName.ne_here.symm
      · cases hname
  have hcwd : ∀ l, fs.cwd = some l → ¬ d ++ [x] <+: l := by
    intro l hl
    rw [h.cwd, Option.some.injEq] at hl
    exact hl ▸ Location.not_concat_prefix d x
  refine ⟨h.region.find_eq rfl hcwd hsteps, fun m node hfind => ?_,
    h.region.target_eq rfl hcwd hnames h.isName.ne_here.symm, fun place slash ht => ?_⟩
  · exact h.region.inside_of_finds hcwd (find_eq_ok_iff.mp hfind).1 hsteps
  · exact h.region.inside_of_finds hcwd (target_eq_name_iff.mp ht).2.2.1 hnames

end Lone

/-! ### A name in a directory -/

/-- A name that is too long ends every walk that comes to it. -/
theorem walkWithin_of_long {root : Node} {links : Nat} {here : Location} {names : List String}
    {name : String} (h : Leads root.entryAt true links here names l)
    (hdir : root.entryAt l = some .dir) (hne : name ≠ ".") (hnu : name ≠ "..")
    (hlong : nameLimit < name.utf8ByteSize) :
    walkWithin root follow links here (names ++ [name]) = .error .nameTooLong := by
  have hstop {jump : Location → List String → Except Errno Place} :
      walk root jump follow l [name] = .error .nameTooLong := by
    obtain ⟨entries, hget⟩ := entryAt_eq_dir.mp hdir
    rw [walk, hget]
    simp only [hne, hnu, hlong, if_true, if_false]
  induction h with
  | here _ =>
    rw [walkWithin_eq]
    exact hstop
  | stay hhere _ ih =>
    obtain ⟨entries, hget⟩ := entryAt_eq_dir.mp hhere
    have hrest := ih hdir hstop
    rw [walkWithin_eq] at hrest ⊢
    rw [List.cons_append, walk, hget]
    simpa using hrest
  | up hhere _ ih =>
    obtain ⟨entries, hget⟩ := entryAt_eq_dir.mp hhere
    have hrest := ih hdir hstop
    rw [walkWithin_eq] at hrest ⊢
    rw [List.cons_append, walk, hget]
    simpa using hrest
  | @last links here first hhere hstep hlink =>
    obtain ⟨entries, hget⟩ := entryAt_eq_dir.mp hhere
    obtain ⟨below, hbelow⟩ := entryAt_eq_dir.mp hdir
    have hshort : ¬ nameLimit < first.utf8ByteSize := Nat.not_lt.mpr hstep.short
    rw [walkWithin_eq, List.singleton_append, walk, hget]
    simp only [hstep.ne_here, hstep.ne_above, hshort, if_false, find?_of_get? hget, hbelow,
      List.cons_ne_nil]
    exact hstop
  | @down links here first entry rest there hhere hstep hlook hnolink hrest _ ih =>
    obtain ⟨entries, hget⟩ := entryAt_eq_dir.mp hhere
    obtain ⟨child, hchild, rfl⟩ := Option.map_eq_some_iff.mp hlook
    have hshort : ¬ nameLimit < first.utf8ByteSize := Nat.not_lt.mpr hstep.short
    have hmore := ih hdir hstop
    rw [walkWithin_eq] at hmore ⊢
    rw [List.cons_append, walk, hget]
    simp only [hstep.ne_here, hstep.ne_above, hshort, if_false, find?_of_get? hget, hchild]
    cases child with
    | link target => exact absurd rfl (hnolink target)
    | file f | dir es | device => simpa [hrest] using hmore
  | @jump links here first target rest there hhere hstep hlook _ _ ih =>
    obtain ⟨entries, hget⟩ := entryAt_eq_dir.mp hhere
    obtain ⟨child, hchild, hentry⟩ := Option.map_eq_some_iff.mp hlook
    have hshort : ¬ nameLimit < first.utf8ByteSize := Nat.not_lt.mpr hstep.short
    cases child <;> cases hentry
    rw [walkWithin_eq, List.cons_append, walk, hget]
    simp only [hstep.ne_here, hstep.ne_above, hshort, if_false, find?_of_get? hget, hchild,
      List.append_eq_nil_iff, List.cons_ne_nil, and_false, false_and]
    rw [← List.append_assoc]
    exact ih hdir hstop

section

variable {dir name : String} (hname : IsName name)
include hname

theorem walkFor_join (hdir : fs.DirAt dir l)
    (hlink : ∀ target, flaw? (Path.join dir name) = none → IsStep name →
      fs.entryAt (l ++ [name]) = some (.link target) → follow = false) :
    fs.walkFor (Path.join dir name) follow (Path.names (Path.join dir name)) =
      match flaw? (Path.join dir name) with
      | some r => .error r
      | none =>
        if nameLimit < name.utf8ByteSize then .error (.system .nameTooLong)
        else .ok ⟨l ++ [name], fs.get? (l ++ [name])⟩ := by
  have hpiece : Path.IsPiece name := ⟨hname.ne_empty, hname.no_slash⟩
  obtain ⟨⟨-, here, hhere, hleads⟩, hthere⟩ := dirAt_iff.mp hdir
  have hstart : fs.start (Path.join dir name) = .ok here := by
    rw [start, Path.isAbsolute_join hpiece]
    exact hhere
  rw [walkFor, hstart, Path.names_join hpiece]
  cases hflaw : flaw? (Path.join dir name) with
  | some r => rfl
  | none =>
    dsimp only
    by_cases hlong : nameLimit < name.utf8ByteSize
    · rw [walkWithin_of_long hleads hthere hname.ne_here hname.ne_above hlong, if_pos hlong]
    · have hstep : IsStep name := ⟨hname.ne_here, hname.ne_above, Nat.not_lt.mp hlong⟩
      rw [walkWithin_of_leads (hleads.concat hthere hstep fun target => hlink target hflaw hstep),
        if_neg hlong]
      rfl

theorem find_join_eq : fs.find (Path.join dir name) follow =
    match fs.walkFor (Path.join dir name) follow (Path.names (Path.join dir name)) with
    | .error r => .error r
    | .ok ⟨_, none⟩ => .error (.system .noEntry)
    | .ok ⟨m, some node⟩ => .ok (m, node) := by
  have hsteps : steps (Path.join dir name) = Path.names (Path.join dir name) := by
    rw [steps, Path.endsInSlash_join ⟨hname.ne_empty, hname.no_slash⟩, if_neg Bool.false_ne_true,
      List.append_nil]
  rw [← hsteps]
  rfl

theorem target_join_eq : fs.target (Path.join dir name) follow =
    match fs.walkFor (Path.join dir name) follow (Path.names (Path.join dir name)) with
    | .error r => .error r
    | .ok place => .ok (.name place false) := by
  have hpiece : Path.IsPiece name := ⟨hname.ne_empty, hname.no_slash⟩
  have htarget : fs.target (Path.join dir name) follow = _ :=
    target_of_names (Path.names_join hpiece) hname.ne_here hname.ne_above follow
  rw [Path.endsInSlash_join hpiece, Bool.not_false, Bool.and_true] at htarget
  exact htarget

/-- A name that is no link's, or that is not followed, is looked up in the directory. -/
theorem linkless_join (hdir : fs.DirAt dir l)
    (hlink : follow = true → fs.isLink (Path.join dir name) = false) (target : String)
    (hflaw : flaw? (Path.join dir name) = none) (hstep : IsStep name)
    (htarget : fs.entryAt (l ++ [name]) = some (.link target)) : follow = false := by
  obtain ⟨node, hget, hnode⟩ := Option.map_eq_some_iff.mp htarget
  obtain rfl := Node.entry_eq_link.mp hnode
  refine Bool.eq_false_iff.mpr fun hfollow => ?_
  have hnolink := hlink hfollow
  rw [isLink, find_join_eq hname, walkFor_join hname hdir fun _ _ _ _ => rfl, hflaw,
    if_neg (Nat.not_lt.mpr hstep.short), show fs.get? (l ++ [name]) = _ from hget] at hnolink
  cases hnolink

theorem place_join (hdir : fs.DirAt dir l)
    (hlink : follow = true → fs.isLink (Path.join dir name) = false) {place : Place}
    (hplace : fs.walkFor (Path.join dir name) follow (Path.names (Path.join dir name)) = .ok place) :
    place = ⟨l ++ [name], fs.get? (l ++ [name])⟩ := by
  rw [walkFor_join hname hdir (linkless_join hname hdir hlink)] at hplace
  split at hplace
  · cases hplace
  · split at hplace
    · cases hplace
    · exact (Except.ok.inj hplace).symm

theorem location_join (hdir : fs.DirAt dir l)
    (hlink : follow = true → fs.isLink (Path.join dir name) = false) {m : Location} {node : Node}
    (hfind : fs.find (Path.join dir name) follow = .ok (m, node)) : m = l ++ [name] := by
  rw [find_join_eq hname] at hfind
  cases hplace : fs.walkFor (Path.join dir name) follow (Path.names (Path.join dir name)) with
  | error r =>
    rw [hplace] at hfind
    cases hfind
  | ok place =>
    obtain rfl := place_join hname hdir hlink hplace
    rw [hplace] at hfind
    cases hget : fs.get? (l ++ [name]) <;> rw [hget] at hfind <;> cases hfind
    rfl

theorem isLink_join (hdir : fs.DirAt dir l)
    (hentry : ∀ target, fs.entryAt (l ++ [name]) ≠ some (.link target)) :
    fs.isLink (Path.join dir name) = false := by
  rw [isLink]
  split
  · next m target hfind =>
    obtain rfl := location_join hname hdir (fun hfollow : false = true => by cases hfollow) hfind
    exact absurd (entryAt_of_get? (find_eq_ok_iff.mp hfind).2) (hentry target)
  · rfl

/-- The path of a name in a directory misses the file, if it is another name or another
directory. -/
theorem Lone.misses_join (h : fs.Lone d x) (hdir : fs.DirAt dir l)
    (hdir' : (fs.without (d ++ [x])).DirAt dir l) (hne : l ++ [name] ≠ d ++ [x])
    (hlink : follow = true → fs.isLink (Path.join dir name) = false) :
    fs.Misses (d ++ [x]) (Path.join dir name) follow := by
  have hoff : ¬ d ++ [x] <+: l ++ [name] := by
    intro hp
    rcases List.prefix_concat_iff.mp hp with heq | hp
    · exact hne heq.symm
    · exact h.not_prefix_dir (dirAt_iff.mp hdir).2 hp
  have hlinkless := linkless_join hname hdir hlink
  have hwalk := walkFor_join hname hdir hlinkless
  have hwalk' := walkFor_join hname hdir' fun target hflaw hstep htarget =>
    hlinkless target hflaw hstep ((entryAt_without hoff).symm.trans htarget)
  -- Neither a fault of the path's text nor a long name depends on the file.
  have hall : (fs.without (d ++ [x])).walkFor (Path.join dir name) follow
        (Path.names (Path.join dir name))
      = (fs.walkFor (Path.join dir name) follow (Path.names (Path.join dir name))).map
        (placeIn (fs.without (d ++ [x])).root) := by
    rw [hwalk, hwalk']
    cases flaw? (Path.join dir name) with
    | some r => rfl
    | none =>
      dsimp only
      split <;> rfl
  refine ⟨?_, fun m node hfind => ?_, ?_, fun place slash ht => ?_⟩
  · rw [find_join_eq hname, find_join_eq hname, hall]
    cases hplace : fs.walkFor (Path.join dir name) follow (Path.names (Path.join dir name)) with
    | error r => rfl
    | ok place =>
      obtain rfl := place_join hname hdir hlink hplace
      cases hget : fs.get? (l ++ [name]) with
      | none =>
        rw [Except.map, placeIn]
        dsimp only
        rw [show (fs.without (d ++ [x])).root.get? (l ++ [name]) = none from
          (get?_without_eq_none hoff).mpr hget]
      | some node =>
        rw [Except.map, placeIn]
        dsimp only
        rw [show (fs.without (d ++ [x])).root.get? (l ++ [name])
          = (fs.without (d ++ [x])).get? (l ++ [name]) from rfl]
        cases hget' : (fs.without (d ++ [x])).get? (l ++ [name]) <;> rfl
  · rw [location_join hname hdir hlink hfind]
    exact hoff
  · rw [target_join_eq hname, target_join_eq hname, hall]
    cases fs.walkFor (Path.join dir name) follow (Path.names (Path.join dir name)) <;> rfl
  · rw [target_join_eq hname] at ht
    cases hplace : fs.walkFor (Path.join dir name) follow (Path.names (Path.join dir name)) with
    | error r =>
      rw [hplace] at ht
      cases ht
    | ok place' =>
      rw [hplace] at ht
      cases ht
      rw [place_join hname hdir hlink hplace]
      exact hoff

end

/-! ### What is found under a path that misses the file -/

namespace Misses

variable (hmiss : fs.Misses (d ++ [x]) path follow) (h : fs.Lone d x)
include hmiss h

/-- A path that leads somewhere leads to the same thing, unless that is a directory with the
file below it. -/
theorem find_cases :
    (∃ r, fs.find path follow = .error r ∧ (fs.without (d ++ [x])).find path follow = .error r) ∨
    (∃ l node, fs.find path follow = .ok (l, node) ∧
      (fs.without (d ++ [x])).find path follow = .ok (l, node) ∧ l.Apart (d ++ [x]) ∧
      node.entry ≠ .dir) ∨
    ∃ l entries entries', fs.find path follow = .ok (l, .dir entries) ∧
      (fs.without (d ++ [x])).find path follow = .ok (l, .dir entries') ∧
      (¬ l <+: d → l.Apart (d ++ [x]) ∧ entries' = entries) := by
  have hfound := hmiss.find
  cases hfind : fs.find path follow with
  | error r =>
    rw [hfind] at hfound
    exact .inl ⟨r, rfl, hfound⟩
  | ok found =>
    obtain ⟨l, node⟩ := found
    have hoff := hmiss.find_off l node hfind
    have hget := (find_eq_ok_iff.mp hfind).2
    rw [hfind] at hfound
    dsimp only at hfound
    rcases h.get?_cases hoff hget with ⟨hget', hapart, hnode⟩ | ⟨entries, entries', rfl, hget', hsame⟩
    · rw [hget'] at hfound
      exact .inr (.inl ⟨l, node, rfl, hfound, hapart, hnode⟩)
    · rw [hget'] at hfound
      exact .inr (.inr ⟨l, entries, entries', rfl, hfound, hsame⟩)

/-- The last name of the path is the same in the same directory, and there is the same thing
under it, unless that is a directory with the file below it. -/
theorem target_cases :
    (∃ r, fs.target path follow = .error r ∧
      (fs.without (d ++ [x])).target path follow = .error r) ∨
    (∃ t, fs.target path follow = .ok t ∧ (fs.without (d ++ [x])).target path follow = .ok t ∧
      ∀ place slash, t ≠ .name place slash) ∨
    (∃ l slash, fs.target path follow = .ok (.name ⟨l, none⟩ slash) ∧
      (fs.without (d ++ [x])).target path follow = .ok (.name ⟨l, none⟩ slash) ∧
      l.Apart (d ++ [x])) ∨
    (∃ l node slash, fs.target path follow = .ok (.name ⟨l, some node⟩ slash) ∧
      (fs.without (d ++ [x])).target path follow = .ok (.name ⟨l, some node⟩ slash) ∧
      l.Apart (d ++ [x]) ∧ node.entry ≠ .dir) ∨
    ∃ l entries entries' slash,
      fs.target path follow = .ok (.name ⟨l, some (.dir entries)⟩ slash) ∧
      (fs.without (d ++ [x])).target path follow = .ok (.name ⟨l, some (.dir entries')⟩ slash) ∧
      (¬ l <+: d → l.Apart (d ++ [x]) ∧ entries' = entries) := by
  have htarget := hmiss.target
  cases ht : fs.target path follow with
  | error r =>
    rw [ht] at htarget
    exact .inl ⟨r, rfl, htarget⟩
  | ok t =>
    rw [ht] at htarget
    match t, ht with
    | .root, _ | .here, _ | .above, _ => exact .inr (.inl ⟨_, rfl, htarget, nofun⟩)
    | .name ⟨l, found⟩ slash, ht =>
      have hoff : ¬ d ++ [x] <+: l := hmiss.target_off _ slash ht
      obtain rfl : found = fs.get? l := (target_eq_name_iff.mp ht).2.2.2
      rw [Except.map, Target.movedTo, placeIn,
        show (fs.without (d ++ [x])).root.get? l = (fs.without (d ++ [x])).get? l from rfl] at htarget
      dsimp only at htarget
      cases hget : fs.get? l with
      | none =>
        rw [(get?_without_eq_none hoff).mpr hget] at htarget
        have hnone : fs.entryAt l ≠ some .dir := by
          rw [show fs.entryAt l = none from Option.map_eq_none_iff.mpr hget]
          simp
        exact .inr (.inr (.inl ⟨l, slash, rfl, htarget, h.apart hnone hoff⟩))
      | some node =>
        rcases h.get?_cases hoff hget with
          ⟨hget', hapart, hnode⟩ | ⟨entries, entries', rfl, hget', hsame⟩
        · rw [hget'] at htarget
          exact .inr (.inr (.inr (.inl ⟨l, node, slash, rfl, htarget, hapart, hnode⟩)))
        · rw [hget'] at htarget
          exact .inr (.inr (.inr (.inr ⟨l, entries, entries', slash, rfl, htarget, hsame⟩)))

end Misses

end MonitoredCompile.FileSystem

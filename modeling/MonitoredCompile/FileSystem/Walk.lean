/-
MonitoredCompile/FileSystem/Walk.lean

Successful walks as a relation.  `Leads look follow links here names there` says
that the names lead from `here` to `there`, with at most `links` links on the
way, if `look` says what is at each location.  A walk only ever asks what a node
is, never what a directory holds, and that is what makes walks in two file
systems comparable.  `there` need not exist if its parent does.

`walkWithin` finds exactly what the names lead to (`walkWithin_eq_ok_iff`).
-/
import MonitoredCompile.FileSystem.Lookup
import MonitoredCompile.FileSystem.WellFormed

namespace MonitoredCompile.FileSystem

/-- A name that is looked up in a directory. -/
structure IsStep (name : String) : Prop where
  ne_here : name ≠ "."
  ne_above : name ≠ ".."
  short : name.utf8ByteSize ≤ nameLimit

/-- Where the names of a link's target start. -/
def linkStart (here : Location) (target : String) : Location :=
  if Path.isAbsolute target then [] else here

inductive Leads (look : Location → Option Entry) (follow : Bool) :
    Nat → Location → List String → Location → Prop
  | here {links here entry} : look here = some entry → Leads look follow links here [] here
  | stay {links here rest there} : look here = some .dir →
      Leads look follow links here rest there → Leads look follow links here ("." :: rest) there
  | up {links here rest there} : look here = some .dir →
      Leads look follow links here.dropLast rest there →
      Leads look follow links here (".." :: rest) there
  | last {links here name} : look here = some .dir → IsStep name →
      (∀ target, look (here ++ [name]) = some (.link target) → follow = false) →
      Leads look follow links here [name] (here ++ [name])
  | down {links here name entry rest there} : look here = some .dir → IsStep name →
      look (here ++ [name]) = some entry → (∀ target, entry ≠ .link target) → rest ≠ [] →
      Leads look follow links (here ++ [name]) rest there →
      Leads look follow links here (name :: rest) there
  | jump {links here name target rest there} : look here = some .dir → IsStep name →
      look (here ++ [name]) = some (.link target) → (rest = [] → follow = true) →
      Leads look follow links (linkStart here target) (steps target ++ rest) there →
      Leads look follow (links + 1) here (name :: rest) there

/-! ### Walks and what they find -/

/-- What goes on after a link while `links` more may be met. -/
def jumpWithin (root : Node) (follow : Bool) :
    Nat → Location → List String → Except Errno Place
  | 0 => fun _ _ => .error .tooManyLinks
  | links + 1 => walkWithin root follow links

theorem walkWithin_eq (root : Node) (follow : Bool) (links : Nat) :
    walkWithin root follow links = walk root (jumpWithin root follow links) follow := by
  cases links <;> rfl

theorem entryAt_eq_dir {root : Node} {l : Location} :
    root.entryAt l = some .dir ↔ ∃ entries, root.get? l = some (.dir entries) := by
  rw [Node.entryAt]
  cases h : root.get? l with
  | none => simp
  | some node => cases node <;> simp [Node.entry]

theorem find?_of_get? {root : Node} {here : Location} {entries : List (String × Node)}
    (h : root.get? here = some (.dir entries)) (name : String) :
    Node.find? name entries = root.get? (here ++ [name]) := by
  rw [Node.get?_append, h]
  simp [Node.get?_dir_cons]

/-- What a walk that succeeds has done with a name that is looked up: it was the last
one, or it was no link's, or its link was followed. -/
theorem walk_name_eq_ok {root : Node} {jump : Location → List String → Except Errno Place}
    {follow : Bool} {here : Location} {name : String} {rest : List String} {place : Place}
    {entries : List (String × Node)} (hget : root.get? here = some (.dir entries))
    (hstep : IsStep name) (h : walk root jump follow here (name :: rest) = .ok place) :
    (rest = [] ∧ place = ⟨here ++ [name], root.get? (here ++ [name])⟩ ∧
      ∀ target, root.entryAt (here ++ [name]) = some (.link target) → follow = false) ∨
    (∃ entry, root.entryAt (here ++ [name]) = some entry ∧ (∀ target, entry ≠ .link target) ∧
      rest ≠ [] ∧ walk root jump follow (here ++ [name]) rest = .ok place) ∨
    ∃ target, root.entryAt (here ++ [name]) = some (.link target) ∧ (rest = [] → follow = true) ∧
      jump (linkStart here target) (steps target ++ rest) = .ok place := by
  have hshort : ¬ nameLimit < name.utf8ByteSize := Nat.not_lt.mpr hstep.short
  rw [walk, hget] at h
  simp only [hstep.ne_here, hstep.ne_above, hshort, if_false, find?_of_get? hget] at h
  rw [Node.entryAt]
  cases hchild : root.get? (here ++ [name]) with
  | none =>
    rw [hchild] at h
    dsimp only at h
    split at h
    · next hrest =>
      cases h
      exact .inl ⟨hrest, rfl, by simp⟩
    · cases h
  | some child =>
    rw [hchild] at h
    cases child with
    | link target =>
      dsimp only at h
      split at h
      · next hlast =>
        cases h
        exact .inl ⟨hlast.1, rfl, fun _ _ => hlast.2⟩
      · next hlast =>
        refine .inr (.inr ⟨target, rfl, fun hrest => ?_, h⟩)
        cases follow with
        | true => rfl
        | false => exact absurd ⟨hrest, rfl⟩ hlast
    | file f | dir es | device =>
      dsimp only at h
      split at h
      · next hrest =>
        cases h
        exact .inl ⟨hrest, rfl, by simp [Node.entry]⟩
      · next hrest => exact .inr (.inl ⟨_, rfl, by simp [Node.entry], hrest, h⟩)

/-- A walk that succeeds has followed the names. -/
theorem walk_eq_ok {root : Node} {jump : Location → List String → Except Errno Place}
    {follow : Bool} {links : Nat}
    (hjump : ∀ {here names place}, jump here names = .ok place → ∃ k, links = k + 1 ∧
      Leads root.entryAt follow k here names place.location ∧ place.node = root.get? place.location)
    {here : Location} {names : List String} {place : Place}
    (h : walk root jump follow here names = .ok place) :
    Leads root.entryAt follow links here names place.location
      ∧ place.node = root.get? place.location := by
  induction names generalizing here with
  | nil =>
    rw [walk] at h
    cases hget : root.get? here with
    | none => rw [hget] at h; cases h
    | some node =>
      rw [hget] at h
      cases h
      exact ⟨.here (by rw [Node.entryAt, hget]; rfl), hget.symm⟩
  | cons name rest ih =>
    obtain ⟨entries, hget⟩ : ∃ entries, root.get? here = some (.dir entries) := by
      rw [walk] at h
      split at h
      · cases h
      · next entries hget => exact ⟨entries, hget⟩
      · cases h
    have hdir : root.entryAt here = some .dir := entryAt_eq_dir.mpr ⟨entries, hget⟩
    by_cases hne : name = "."
    · subst hne
      rw [walk, hget] at h
      exact (ih h).imp_left (.stay hdir)
    by_cases hnu : name = ".."
    · subst hnu
      rw [walk, hget] at h
      exact (ih h).imp_left (.up hdir)
    have hstep : IsStep name := by
      refine ⟨hne, hnu, Nat.not_lt.mp fun hlong => ?_⟩
      rw [walk, hget] at h
      simp only [hne, hnu, hlong, if_true, if_false] at h
      cases h
    rcases walk_name_eq_ok hget hstep h with
      ⟨rfl, rfl, hlink⟩ | ⟨entry, hlook, hlink, hrest, hwalk⟩ | ⟨target, hlook, hfollow, hwalk⟩
    · exact ⟨.last hdir hstep hlink, rfl⟩
    · exact (ih hwalk).imp_left (.down hdir hstep hlook hlink hrest)
    · obtain ⟨k, rfl, hl, hp⟩ := hjump hwalk
      exact ⟨.jump hdir hstep hlook hfollow hl, hp⟩

theorem leads_of_walkWithin {root : Node} {follow : Bool} {links : Nat} {here : Location}
    {names : List String} {place : Place}
    (h : walkWithin root follow links here names = .ok place) :
    Leads root.entryAt follow links here names place.location
      ∧ place.node = root.get? place.location := by
  induction links generalizing here names place with
  | zero =>
    rw [walkWithin_eq] at h
    exact walk_eq_ok (fun hj => by cases hj) h
  | succ links ih =>
    rw [walkWithin_eq] at h
    exact walk_eq_ok (fun hj => ⟨links, rfl, ih hj⟩) h

theorem walkWithin_of_leads {root : Node} {follow : Bool} {links : Nat} {here there : Location}
    {names : List String} (h : Leads root.entryAt follow links here names there) :
    walkWithin root follow links here names = .ok ⟨there, root.get? there⟩ := by
  induction h with
  | @here links here entry hlook =>
    obtain ⟨node, hget, -⟩ := Option.map_eq_some_iff.mp hlook
    rw [walkWithin_eq, walk, hget]
  | stay hdir _ ih =>
    obtain ⟨entries, hget⟩ := entryAt_eq_dir.mp hdir
    rw [walkWithin_eq] at ih ⊢
    rw [walk, hget]
    simpa using ih
  | up hdir _ ih =>
    obtain ⟨entries, hget⟩ := entryAt_eq_dir.mp hdir
    rw [walkWithin_eq] at ih ⊢
    rw [walk, hget]
    simpa using ih
  | @last links here name hdir hstep hlink =>
    obtain ⟨entries, hget⟩ := entryAt_eq_dir.mp hdir
    have hshort : ¬ nameLimit < name.utf8ByteSize := by have := hstep.short; omega
    rw [walkWithin_eq, walk, hget]
    simp only [hstep.ne_here, hstep.ne_above, hshort, if_false, find?_of_get? hget]
    cases hchild : root.get? (here ++ [name]) with
    | none => simp
    | some child =>
      cases child with
      | link target =>
        have : follow = false := hlink target (by rw [Node.entryAt, hchild]; rfl)
        simp [this]
      | file f | dir es | device => simp
  | @down links here name entry rest there hdir hstep hlook hnolink hrest _ ih =>
    obtain ⟨entries, hget⟩ := entryAt_eq_dir.mp hdir
    obtain ⟨child, hchild, rfl⟩ := Option.map_eq_some_iff.mp hlook
    have hshort : ¬ nameLimit < name.utf8ByteSize := by have := hstep.short; omega
    rw [walkWithin_eq] at ih ⊢
    rw [walk, hget]
    simp only [hstep.ne_here, hstep.ne_above, hshort, if_false, find?_of_get? hget, hchild]
    cases child with
    | link target => exact absurd rfl (hnolink target)
    | file f | dir es | device => simpa [hrest] using ih
  | @jump links here name target rest there hdir hstep hlook hfollow _ ih =>
    obtain ⟨entries, hget⟩ := entryAt_eq_dir.mp hdir
    have hshort : ¬ nameLimit < name.utf8ByteSize := by have := hstep.short; omega
    have hlast : ¬ (rest = [] ∧ follow = false) := by
      rintro ⟨hr, hf⟩
      rw [hfollow hr] at hf
      cases hf
    obtain ⟨child, hchild, hentry⟩ := Option.map_eq_some_iff.mp hlook
    cases child <;> cases hentry
    rw [walkWithin_eq, walk, hget]
    simp only [hstep.ne_here, hstep.ne_above, hshort, if_false, find?_of_get? hget, hchild, hlast]
    exact ih

/-- A walk finds exactly what the names lead to. -/
theorem walkWithin_eq_ok_iff {root : Node} {follow : Bool} {links : Nat} {here : Location}
    {names : List String} {place : Place} :
    walkWithin root follow links here names = .ok place ↔
      Leads root.entryAt follow links here names place.location
        ∧ place.node = root.get? place.location := by
  refine ⟨leads_of_walkWithin, fun ⟨hl, hn⟩ => ?_⟩
  rw [walkWithin_of_leads hl, ← hn]

/-! ### Names on the way -/

theorem isPiece_of_mem_steps {path name : String} (h : name ∈ steps path) : Path.IsPiece name := by
  rcases List.mem_append.mp h with h | h
  · exact Path.isPiece_of_mem_names h
  · split at h
    · rw [List.mem_singleton.mp h]
      exact ⟨by decide, by decide⟩
    · cases h

/-- In a well-formed tree a walk ends at something that has a name, or may have. -/
theorem Leads.endsInName {root : Node} {follow : Bool} {links : Nat} {here there : Location}
    {names : List String} (h : Leads root.entryAt follow links here names there)
    (hroot : root.WellFormed) (hnames : ∀ name ∈ names, Path.IsPiece name) : there.EndsInName := by
  induction h with
  | here hlook =>
    obtain ⟨node, hget, -⟩ := Option.map_eq_some_iff.mp hlook
    exact hroot.endsInName hget
  | stay _ _ ih => exact ih fun name hname => hnames name (List.mem_cons_of_mem _ hname)
  | up _ _ ih => exact ih fun name hname => hnames name (List.mem_cons_of_mem _ hname)
  | @last _ here name _ hstep _ =>
    obtain ⟨hne, hslash⟩ := hnames name List.mem_cons_self
    exact Location.endsInName_concat.mpr ⟨hne, hslash, hstep.ne_here, hstep.ne_above⟩
  | down _ _ _ _ _ _ ih => exact ih fun name hname => hnames name (List.mem_cons_of_mem _ hname)
  | jump _ _ _ _ _ ih =>
    refine ih fun name hname => ?_
    rcases List.mem_append.mp hname with h | h
    · exact isPiece_of_mem_steps h
    · exact hnames name (List.mem_cons_of_mem _ h)

/-! ### Paths -/

/-- The path can be walked, and `names`, walked from where it starts, lead to `l`. -/
def Finds (fs : FileSystem) (path : String) (follow : Bool) (names : List String) (l : Location) :
    Prop :=
  flaw? path = none ∧
    ∃ here, fs.start path = .ok here ∧ Leads fs.entryAt follow linkLimit here names l

theorem walkFor_eq_ok_iff {fs : FileSystem} {path : String} {follow : Bool} {names : List String}
    {place : Place} :
    fs.walkFor path follow names = .ok place ↔
      fs.Finds path follow names place.location ∧ place.node = fs.get? place.location := by
  rw [walkFor, Finds]
  cases flaw? path with
  | some r => simp
  | none =>
    cases fs.start path with
    | error e => simp
    | ok here =>
      have hiff : walkWithin fs.root follow linkLimit here names = .ok place ↔
          Leads fs.entryAt follow linkLimit here names place.location
            ∧ place.node = fs.get? place.location := walkWithin_eq_ok_iff
      simp only [true_and, Except.ok.injEq, exists_eq_left', ← hiff]
      cases walkWithin fs.root follow linkLimit here names <;> simp

theorem find_eq_ok_iff {fs : FileSystem} {path : String} {follow : Bool} {l : Location}
    {node : Node} :
    fs.find path follow = .ok (l, node) ↔
      fs.Finds path follow (steps path) l ∧ fs.get? l = some node := by
  rw [find, lookup]
  constructor
  · intro h
    cases hwalk : fs.walkFor path follow (steps path) with
    | error r => rw [hwalk] at h; cases h
    | ok place =>
      obtain ⟨hfinds, hnode⟩ := walkFor_eq_ok_iff.mp hwalk
      obtain ⟨l', found⟩ := place
      rw [hwalk] at h
      cases found with
      | none => cases h
      | some n => cases h; exact ⟨hfinds, hnode.symm⟩
  · rintro ⟨hfinds, hget⟩
    rw [walkFor_eq_ok_iff.mpr (show _ ∧ (⟨l, some node⟩ : Place).node = _ from ⟨hfinds, hget.symm⟩)]

/-- The last name of a path, if it is a name, is looked up by a walk of all names. -/
theorem target_of_names {fs : FileSystem} {path : String} {init : List String} {last : String}
    (hnames : Path.names path = init ++ [last]) (hne : last ≠ ".") (hnu : last ≠ "..")
    (follow : Bool) :
    fs.target path follow =
      match fs.walkFor path (follow && !Path.endsInSlash path) (Path.names path) with
      | .error r => .error r
      | .ok place => .ok (.name place (Path.endsInSlash path)) := by
  rw [target, hnames]
  cases fs.walkFor path (follow && !Path.endsInSlash path) (init ++ [last]) <;> simp [hne, hnu]

/-- A path that can be told by a name in a directory ends in this name. -/
theorem names_of_target {fs : FileSystem} {path : String} {follow : Bool} {place : Place}
    {slash : Bool} (h : fs.target path follow = .ok (.name place slash)) :
    ∃ init last, Path.names path = init ++ [last] ∧ last ≠ "." ∧ last ≠ ".." := by
  rw [target] at h
  rcases List.eq_nil_or_concat (Path.names path) with hnil | ⟨init, last, hnames⟩
  · simp only [hnil, List.getLast?_nil, List.dropLast_nil, if_true] at h
    cases hflaw : flaw? path <;> rw [hflaw] at h <;> cases h
  · rw [List.concat_eq_append] at hnames
    have habove : ¬ ".." = "." := by decide
    refine ⟨init, last, hnames, ?_, ?_⟩
    all_goals
      rintro rfl
      simp only [hnames, List.getLast?_append, List.getLast?_singleton, Option.some_or, habove,
        if_true, if_false] at h
      split at h
      · cases hflaw : flaw? path <;> rw [hflaw] at h <;> cases h
      · split at h <;> cases h

/-- The last name of a path, if it is a name at all, is looked up at the end of a
walk of all names. -/
theorem target_eq_name_iff {fs : FileSystem} {path : String} {follow : Bool} {place : Place}
    {slash : Bool} :
    fs.target path follow = .ok (.name place slash) ↔
      slash = Path.endsInSlash path ∧
      (∃ init last, Path.names path = init ++ [last] ∧ last ≠ "." ∧ last ≠ "..") ∧
      fs.Finds path (follow && !slash) (Path.names path) place.location ∧
      place.node = fs.get? place.location := by
  constructor
  · intro h
    obtain ⟨init, last, hnames, hne, hnu⟩ := names_of_target h
    rw [target_of_names hnames hne hnu] at h
    cases hwalk : fs.walkFor path (follow && !Path.endsInSlash path) (Path.names path) with
    | error r => rw [hwalk] at h; cases h
    | ok found =>
      rw [hwalk] at h
      cases h
      exact ⟨rfl, ⟨init, last, hnames, hne, hnu⟩, walkFor_eq_ok_iff.mp hwalk⟩
  · rintro ⟨rfl, ⟨init, last, hnames, hne, hnu⟩, hplace⟩
    rw [target_of_names hnames hne hnu, walkFor_eq_ok_iff.mpr hplace]

end MonitoredCompile.FileSystem

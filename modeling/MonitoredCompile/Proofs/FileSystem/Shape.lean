/-
MonitoredCompile/Proofs/FileSystem/Shape.lean

Trees of one shape.  A walk only asks what a node is and, if it is a link, where it leads.
So in two trees that are alike in this it ends in the same place or fails in the same way,
which is more than that walks which succeed go the same way.  The trees need only be alike
in a region that the walk does not leave: `SameShapeIn` names the region and the names that
may be walked in it, and `SameShape` is the case of the whole tree.
-/
import MonitoredCompile.Proofs.FileSystem.Extends

namespace MonitoredCompile.FileSystem

variable {fs fs' : FileSystem} {l : Location} {path : String} {follow : Bool}

/-! ### Places -/

/-- The same place in another tree. -/
def placeIn (root : Node) (p : Place) : Place := ⟨p.location, root.get? p.location⟩

theorem ok_placeIn {root : Node} {found : Option Node} (h : root.get? l = found)
    (other : Option Node) :
    (Except.ok ⟨l, found⟩ : Except Errno Place) = (Except.ok ⟨l, other⟩).map (placeIn root) := by
  rw [← h]
  rfl

/-- The same target in another tree. -/
def Target.movedTo (root : Node) : Target → Target
  | .name place slash => .name (placeIn root place) slash
  | other => other

/-- A target that is not told by a place is the same wherever that place is. -/
theorem movedTo_special {t : Target} {root : Node} (ht : t.movedTo root = t) (init : List String)
    (flaw : Option Refusal) (walked : Except Refusal Place) :
    (if init = [] then flaw.elim (.ok t) .error
      else match walked.map (placeIn root) with
        | .error r => .error r
        | .ok _ => .ok t)
      = (if init = [] then flaw.elim (.ok t) .error
        else match walked with
          | .error r => .error r
          | .ok _ => .ok t : Except Refusal Target).map (Target.movedTo root) := by
  split
  · cases flaw with
    | none => exact congrArg Except.ok ht.symm
    | some r => rfl
  · cases walked with
    | error r => rfl
    | ok place => exact congrArg Except.ok ht.symm

/-! ### Regions -/

/-- In the same places of a region there are things that walks cannot tell apart, and with
the names that are allowed, also in links, no walk leaves the region. -/
structure SameShapeIn (inside : Location → Prop) (allowed : String → Prop) (root root' : Node) :
    Prop where
  alike : ∀ m, inside m → Option.Rel Entry.Alike (root.entryAt m) (root'.entryAt m)
  top : inside []
  up : ∀ m, inside m → inside m.dropLast
  down : ∀ m name, inside m → allowed name → inside (m ++ [name])
  links : ∀ m target, inside m → root.entryAt m = some (.link target) →
    ∀ name ∈ steps target, allowed name

namespace SameShapeIn

variable {inside : Location → Prop} {allowed : String → Prop} {root root' : Node}
variable (h : SameShapeIn inside allowed root root')
include h

theorem get?_eq_none {m : Location} (hm : inside m) (hnone : root.get? m = none) :
    root'.get? m = none := by
  have halike := h.alike m hm
  rw [Node.entryAt, Node.entryAt, hnone] at halike
  cases hm' : root'.get? m with
  | none => rfl
  | some node' =>
    rw [hm'] at halike
    cases halike

theorem get?_eq_some {m : Location} (hm : inside m) {node : Node} (hnode : root.get? m = some node) :
    ∃ node', root'.get? m = some node' ∧ Entry.Alike node.entry node'.entry := by
  have hrel := h.alike m hm
  rw [Node.entryAt, Node.entryAt, hnode] at hrel
  cases hm' : root'.get? m with
  | none =>
    rw [hm'] at hrel
    cases hrel
  | some node' =>
    rw [hm'] at hrel
    cases hrel with
    | some halike => exact ⟨node', rfl, halike⟩

/-- Where the target of a link is walked from is in the region. -/
theorem linkStart_inside {here : Location} (hhere : inside here) (target : String) :
    inside (linkStart here target) := by
  rw [linkStart]
  split
  · exact h.top
  · exact hhere

/-- A walk ends in the same place or fails in the same way. -/
theorem walk_eq (jump jump' : Location → List String → Except Errno Place)
    (hjump : ∀ here names, inside here → (∀ name ∈ names, allowed name) →
      jump' here names = (jump here names).map (placeIn root'))
    {here : Location} (hhere : inside here) {names : List String}
    (hnames : ∀ name ∈ names, allowed name) :
    walk root' jump' follow here names = (walk root jump follow here names).map (placeIn root') := by
  induction names generalizing here with
  | nil =>
    rw [walk, walk]
    cases hget : root.get? here with
    | none =>
      rw [h.get?_eq_none hhere hget]
      rfl
    | some node =>
      obtain ⟨node', hget', -⟩ := h.get?_eq_some hhere hget
      rw [hget']
      exact ok_placeIn hget' _
  | cons name rest ih =>
    obtain ⟨hname, hrest⟩ := List.forall_mem_cons.mp hnames
    have hbelow := h.down here name hhere hname
    rw [walk, walk]
    cases hget : root.get? here with
    | none =>
      rw [h.get?_eq_none hhere hget]
      rfl
    | some node =>
      obtain ⟨node', hget', halike⟩ := h.get?_eq_some hhere hget
      rw [hget']
      cases node with
      | dir entries =>
        obtain ⟨entries', rfl⟩ := Node.entry_eq_dir.mp (halike.dir.mp rfl)
        dsimp only
        rw [ih hhere hrest, ih (h.up here hhere) hrest, find?_of_get? hget, find?_of_get? hget']
        split
        · rfl
        split
        · rfl
        split
        · rfl
        cases hchild : root.get? (here ++ [name]) with
        | none =>
          rw [h.get?_eq_none hbelow hchild]
          dsimp only
          split
          · exact ok_placeIn (h.get?_eq_none hbelow hchild) _
          · rfl
        | some child =>
          obtain ⟨child', hchild', hsame⟩ := h.get?_eq_some hbelow hchild
          rw [hchild']
          cases child with
          | link target =>
            obtain rfl := Node.entry_eq_link.mp ((hsame.link target).mp rfl)
            have hlink : root.entryAt (here ++ [name]) = some (.link target) := by
              rw [Node.entryAt, hchild]
              rfl
            have htarget := h.links _ target hbelow hlink
            have hjumped := hjump (linkStart here target) (steps target ++ rest)
              (h.linkStart_inside hhere target)
              fun n hn => (List.mem_append.mp hn).elim (htarget n) (hrest n)
            rw [linkStart] at hjumped
            dsimp only
            rw [hjumped]
            split
            · exact ok_placeIn hchild' _
            · rfl
          | file f | dir es | device =>
            have hnolink : ∀ target, child' ≠ .link target := by
              rintro target rfl
              cases (hsame.link target).mpr rfl
            cases child' with
            | link target => exact absurd rfl (hnolink target)
            | file f' | dir es' | device =>
              dsimp only
              split
              · exact ok_placeIn hchild' _
              · exact ih hbelow hrest
      | file f | link target | device =>
        have hnodir : node'.entry ≠ .dir := fun hdir => by cases halike.dir.mpr hdir
        cases node' with
        | dir entries => exact absurd rfl hnodir
        | file f' | link target' | device => rfl

theorem walkWithin_eq (links : Nat) {here : Location} (hhere : inside here) {names : List String}
    (hnames : ∀ name ∈ names, allowed name) :
    walkWithin root' follow links here names
      = (walkWithin root follow links here names).map (placeIn root') := by
  induction links generalizing here names with
  | zero => exact h.walk_eq (fun _ _ => .error .tooManyLinks) _ (fun _ _ _ _ => rfl) hhere hnames
  | succ links ih => exact h.walk_eq _ _ (fun _ _ hhere hnames => ih hhere hnames) hhere hnames

/-- A walk in the region ends there. -/
theorem inside_of_leads {links : Nat} {here there : Location} {names : List String}
    (hleads : Leads root.entryAt follow links here names there) (hhere : inside here)
    (hnames : ∀ name ∈ names, allowed name) : inside there := by
  induction hleads with
  | here => exact hhere
  | stay _ _ ih => exact ih hhere (List.forall_mem_cons.mp hnames).2
  | up _ _ ih => exact ih (h.up _ hhere) (List.forall_mem_cons.mp hnames).2
  | last => exact h.down _ _ hhere (hnames _ List.mem_cons_self)
  | down _ _ _ _ _ _ ih =>
    obtain ⟨hname, hrest⟩ := List.forall_mem_cons.mp hnames
    exact ih (h.down _ _ hhere hname) hrest
  | jump _ _ hlook _ _ ih =>
    obtain ⟨hname, hrest⟩ := List.forall_mem_cons.mp hnames
    have htarget := h.links _ _ (h.down _ _ hhere hname) hlook
    exact ih (h.linkStart_inside hhere _)
      fun n hn => (List.mem_append.mp hn).elim (htarget n) (hrest n)

end SameShapeIn

/-! ### Paths in a region -/

section

variable {inside : Location → Prop} {allowed : String → Prop}
variable (h : SameShapeIn inside allowed fs.root fs'.root) (hcwd : fs'.cwd = fs.cwd)
  (hinside : ∀ l, fs.cwd = some l → inside l)
include h hinside

theorem SameShapeIn.inside_of_start {here : Location} (hhere : fs.start path = .ok here) :
    inside here := by
  rw [start] at hhere
  split at hhere
  · cases hhere
    exact h.top
  · split at hhere
    · cases hhere
    · next hl =>
      cases hhere
      exact hinside _ hl

/-- What a path finds is in the region. -/
theorem SameShapeIn.inside_of_finds {names : List String} (hfinds : fs.Finds path follow names l)
    (hnames : ∀ name ∈ names, allowed name) : inside l := by
  obtain ⟨-, here, hhere, hleads⟩ := hfinds
  exact h.inside_of_leads hleads (h.inside_of_start hinside hhere) hnames

include hcwd

theorem SameShapeIn.walkFor_eq (path : String) {names : List String}
    (hnames : ∀ name ∈ names, allowed name) :
    fs'.walkFor path follow names = (fs.walkFor path follow names).map (placeIn fs'.root) := by
  have hstart : fs'.start path = fs.start path := by rw [start, start, hcwd]
  rw [walkFor, walkFor, hstart]
  cases flaw? path with
  | some r => rfl
  | none =>
    cases hfrom : fs.start path with
    | error e => rfl
    | ok here =>
      dsimp only
      rw [h.walkWithin_eq _ (h.inside_of_start hinside hfrom) hnames]
      cases walkWithin fs.root follow linkLimit here names <;> rfl

/-- A path leads to the same place or nowhere in the same way. -/
theorem SameShapeIn.find_eq (hnames : ∀ name ∈ steps path, allowed name) :
    fs'.find path follow =
      match fs.find path follow with
      | .error r => .error r
      | .ok (m, _) =>
        match fs'.get? m with
        | none => .error (.system .noEntry)
        | some node => .ok (m, node) := by
  rw [find, find, lookup, lookup, h.walkFor_eq hcwd hinside path hnames]
  cases hwalk : fs.walkFor path follow (steps path) with
  | error r => rfl
  | ok place =>
    obtain ⟨hfinds, hnode⟩ := walkFor_eq_ok_iff.mp hwalk
    obtain ⟨m, found⟩ := place
    obtain rfl : found = fs.get? m := hnode
    have hm := h.inside_of_finds hinside hfinds hnames
    rw [Except.map, placeIn]
    dsimp only
    cases hget : fs.get? m with
    | none => rw [h.get?_eq_none hm hget]
    | some node =>
      obtain ⟨node', hget', -⟩ := h.get?_eq_some hm hget
      dsimp only
      rw [hget', show fs'.get? m = some node' from hget']

/-- The last name of a path is the same, in the same place. -/
theorem SameShapeIn.target_eq (hnames : ∀ name ∈ Path.names path, allowed name)
    (hhere : allowed ".") :
    fs'.target path follow = (fs.target path follow).map (Target.movedTo fs'.root) := by
  have hdir : ∀ name ∈ (Path.names path).dropLast ++ ["."], allowed name := fun name hname =>
    (List.mem_append.mp hname).elim (fun hn => hnames name ((List.dropLast_subset _) hn))
      fun hn => List.mem_singleton.mp hn ▸ hhere
  rw [target, target, h.walkFor_eq hcwd hinside path hnames, h.walkFor_eq hcwd hinside path hdir]
  have hspecial (t : Target) (ht : t.movedTo fs'.root = t) :=
    movedTo_special ht ((Path.names path).dropLast) (flaw? path)
      (fs.walkFor path true ((Path.names path).dropLast ++ ["."]))
  dsimp only
  cases (Path.names path).getLast? with
  | none => exact hspecial .root rfl
  | some last =>
    dsimp only
    split
    · exact hspecial .here rfl
    split
    · exact hspecial .above rfl
    · cases fs.walkFor path (follow && !Path.endsInSlash path) (Path.names path) <;> rfl

end

/-! ### Whole trees -/

/-- In the same places there are things that walks cannot tell apart. -/
def SameShape (root root' : Node) : Prop :=
  ∀ m, Option.Rel Entry.Alike (root.entryAt m) (root'.entryAt m)

namespace SameShape

variable {root root' : Node} (h : SameShape root root')
include h

theorem everywhere : SameShapeIn (fun _ => True) (fun _ => True) root root' :=
  ⟨fun m _ => h m, trivial, fun _ _ => trivial, fun _ _ _ _ => trivial, fun _ _ _ _ _ _ => trivial⟩

theorem get?_eq_none {m : Location} (hnone : root.get? m = none) : root'.get? m = none :=
  h.everywhere.get?_eq_none trivial hnone

theorem get?_eq_some {m : Location} {node : Node} (hnode : root.get? m = some node) :
    ∃ node', root'.get? m = some node' ∧ Entry.Alike node.entry node'.entry :=
  h.everywhere.get?_eq_some trivial hnode

end SameShape

/-- A path leads to the same place or nowhere in the same way. -/
theorem SameShape.find_eq (h : SameShape fs.root fs'.root) (hcwd : fs'.cwd = fs.cwd)
    (path : String) (follow : Bool) :
    fs'.find path follow =
      match fs.find path follow with
      | .error r => .error r
      | .ok (m, _) =>
        match fs'.get? m with
        | none => .error (.system .noEntry)
        | some node => .ok (m, node) :=
  h.everywhere.find_eq hcwd (fun _ _ => trivial) fun _ _ => trivial

end MonitoredCompile.FileSystem

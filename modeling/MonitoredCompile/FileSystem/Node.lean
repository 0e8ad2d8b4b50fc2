/-
MonitoredCompile/FileSystem/Node.lean

The tree of a file system.  A node is a file, a directory with named nodes in
it, a symbolic link, or a device that swallows what is written to it and has
nothing to read.  A `Location` is the list of names that leads from the root to
a node through real directories only, so a location is free of links, `.` and
`..`, and two locations are equal only if they are the same place.

`get?` reads the node at a location and `put` writes or removes it; the two are
all that the rest of the library does to a tree.
-/
import MonitoredCompile.Text.Utf8

namespace MonitoredCompile

/-- The names on the way from the root. -/
abbrev Location := List String

/-- A regular file.  `program` names the program that the file holds, if it
holds one that the host knows. -/
structure File where
  bytes : Bytes
  executable : Bool := false
  program : Option String := none
  deriving DecidableEq, Repr

/-- The file with other bytes; whatever program it held is gone. -/
def File.overwrite (f : File) (bytes : Bytes) : File := { f with bytes, program := none }

inductive Node where
  | file (f : File)
  | dir (entries : List (String × Node))
  | link (target : String)
  | device

/-- What a node is, the content of a directory left out. -/
inductive Entry where
  | file (f : File)
  | dir
  | link (target : String)
  | device
  deriving DecidableEq, Repr

namespace Node

/-! ### The entries of a directory -/

/-- The entry of that name. -/
def find? (name : String) : List (String × Node) → Option Node
  | [] => none
  | (n, node) :: rest => if n = name then some node else find? name rest

/-- Replaces the entry of that name where it stands, or adds it at the end. -/
def insert (name : String) (node : Node) : List (String × Node) → List (String × Node)
  | [] => [(name, node)]
  | (n, old) :: rest => if n = name then (name, node) :: rest else (n, old) :: insert name node rest

/-- Drops every entry of that name. -/
def erase (name : String) (entries : List (String × Node)) : List (String × Node) :=
  entries.filter (·.1 ≠ name)

/-- Writes an entry, or drops it if there is no node for it. -/
def update (name : String) (node : Option Node) (entries : List (String × Node)) :
    List (String × Node) :=
  match node with
  | none => erase name entries
  | some n => insert name n entries

/-! ### Nodes below a node -/

def entry : Node → Entry
  | file f => .file f
  | dir _ => .dir
  | link t => .link t
  | device => .device

/-- The node at a location below this one. -/
def get? : Node → Location → Option Node
  | node, [] => some node
  | dir entries, name :: rest =>
    match find? name entries with
    | some child => child.get? rest
    | none => none
  | _, _ :: _ => none

/-- What is at a location, the content of a directory left out. -/
def entryAt (node : Node) (l : Location) : Option Entry := (node.get? l).map entry

/-- This node with `value` at a location below it; `none` removes what is there.
Nothing changes if no directory holds the location's last name. -/
def put : Node → Location → Option Node → Option Node
  | _, [], value => value
  | dir entries, [name], value => some (dir (update name value entries))
  | dir entries, name :: next :: rest, value =>
    match find? name entries with
    | some child => some (dir (update name (child.put (next :: rest) value) entries))
    | none => some (dir entries)
  | node, _ :: _, _ => some node

/-! ### Comparison -/

mutual

/-- Whether two nodes are the same. -/
def same : Node → Node → Bool
  | file f, file g => f = g
  | dir entries, dir entries' => sameEntries entries entries'
  | link target, link target' => target = target'
  | device, device => true
  | _, _ => false

/-- Whether two directories have the same entries, in the same order. -/
def sameEntries : List (String × Node) → List (String × Node) → Bool
  | [], [] => true
  | (name, node) :: rest, (name', node') :: rest' =>
    name = name' && same node node' && sameEntries rest rest'
  | _, _ => false

end

mutual

theorem same_iff (node node' : Node) : same node node' = true ↔ node = node' := by
  cases node with
  | file f => cases node' <;> simp [same]
  | dir entries =>
    cases node' with
    | dir entries' => simp [same, sameEntries_iff entries entries']
    | _ => simp [same]
  | link target => cases node' <;> simp [same]
  | device => cases node' <;> simp [same]

theorem sameEntries_iff (entries entries' : List (String × Node)) :
    sameEntries entries entries' = true ↔ entries = entries' := by
  cases entries with
  | nil => cases entries' <;> simp [sameEntries]
  | cons e rest =>
    cases entries' with
    | nil => simp [sameEntries]
    | cons e' rest' =>
      obtain ⟨name, node⟩ := e
      obtain ⟨name', node'⟩ := e'
      simp [sameEntries, same_iff node node', sameEntries_iff rest rest']

end

instance : DecidableEq Node := fun node node' => decidable_of_iff _ (same_iff node node')

/-! ### Reading an entry after a change -/

@[simp] theorem find?_insert (n name : String) (node : Node) (entries : List (String × Node)) :
    find? n (insert name node entries) = if n = name then some node else find? n entries := by
  induction entries with
  | nil => simp [insert, find?, eq_comm]
  | cons e rest ih =>
    obtain ⟨k, old⟩ := e
    by_cases hk : k = name
    · subst hk
      by_cases hn : k = n <;> simp [insert, find?, hn, Ne.symm]
    · by_cases hn : k = n
      · subst hn
        simp [insert, find?, hk]
      · simp [insert, find?, hk, hn, ih]

theorem erase_cons (name k : String) (old : Node) (rest : List (String × Node)) :
    erase name ((k, old) :: rest) = if k = name then erase name rest else (k, old) :: erase name rest := by
  by_cases hk : k = name <;> simp [erase, hk]

@[simp] theorem find?_erase (n name : String) (entries : List (String × Node)) :
    find? n (erase name entries) = if n = name then none else find? n entries := by
  induction entries with
  | nil => simp [erase, find?]
  | cons e rest ih =>
    obtain ⟨k, old⟩ := e
    rw [erase_cons]
    by_cases hk : k = name
    · subst hk
      rw [if_pos rfl, ih]
      by_cases hn : n = k
      · simp [hn]
      · simp [find?, hn, Ne.symm hn]
    · rw [if_neg hk]
      by_cases hn : k = n
      · subst hn
        simp [find?, hk]
      · simp [find?, hn, ih]

@[simp] theorem find?_update (n name : String) (value : Option Node)
    (entries : List (String × Node)) :
    find? n (update name value entries) = if n = name then value else find? n entries := by
  cases value <;> simp [update]

theorem mem_of_find? {name : String} {node : Node} {entries : List (String × Node)}
    (h : find? name entries = some node) : (name, node) ∈ entries := by
  induction entries with
  | nil => simp [find?] at h
  | cons e rest ih =>
    obtain ⟨k, old⟩ := e
    simp only [find?] at h
    split at h
    · next hk => simp_all
    · exact List.mem_cons_of_mem _ (ih h)

/-! ### Reading a location after a change -/

@[simp] theorem get?_nil (node : Node) : node.get? [] = some node := by
  cases node <;> rfl

theorem get?_dir_cons (entries : List (String × Node)) (name : String) (rest : Location) :
    (dir entries).get? (name :: rest) = (find? name entries).bind (·.get? rest) := by
  rw [get?]
  cases find? name entries <;> rfl

theorem get?_append (node : Node) (l m : Location) :
    node.get? (l ++ m) = (node.get? l).bind (·.get? m) := by
  induction l generalizing node with
  | nil => simp
  | cons name rest ih =>
    cases node with
    | dir entries =>
      simp only [List.cons_append, get?_dir_cons]
      cases find? name entries with
      | none => rfl
      | some child => simp [ih]
    | file f => rfl
    | link t => rfl
    | device => rfl

theorem put_of_not_dir {node : Node} (hn : ∀ entries, node ≠ dir entries) {l : Location}
    (hl : l ≠ []) (value : Option Node) : node.put l value = some node := by
  obtain ⟨name, rest, rfl⟩ := List.exists_cons_of_ne_nil hl
  cases node with
  | dir entries => exact absurd rfl (hn entries)
  | file f => cases rest <;> rfl
  | link t => cases rest <;> rfl
  | device => cases rest <;> rfl

theorem put_isSome {l : Location} (hl : l ≠ []) (node : Node) (value : Option Node) :
    ∃ after, node.put l value = some after := by
  by_cases hn : ∃ entries, node = dir entries
  · obtain ⟨entries, rfl⟩ := hn
    match l with
    | [] => exact absurd rfl hl
    | [_] => exact ⟨_, rfl⟩
    | name :: _ :: _ =>
      rw [put]
      cases find? name entries <;> exact ⟨_, rfl⟩
  · exact ⟨node, put_of_not_dir (fun entries he => hn ⟨entries, he⟩) hl value⟩

/-- A change at a location does not show anywhere but at and below it. -/
theorem entryAt_put {l m : Location} {node after : Node} {value : Option Node}
    (h : node.put l value = some after) (hm : ¬ l <+: m) : after.entryAt m = node.entryAt m := by
  induction l generalizing node after m with
  | nil => exact absurd (List.nil_prefix) hm
  | cons name rest ih =>
    cases node with
    | dir entries =>
      cases m with
      | nil =>
        cases rest with
        | nil => cases h; simp [entryAt, entry]
        | cons next rest =>
          rw [put] at h
          cases hf : find? name entries <;> rw [hf] at h <;> cases h <;> simp [entryAt, entry]
      | cons n m =>
        have hn : n = name → ¬ rest <+: m := by
          rintro rfl hp
          exact hm (List.prefix_cons_inj n |>.mpr hp)
        cases rest with
        | nil =>
          cases h
          have : n ≠ name := fun hnn => hn hnn List.nil_prefix
          simp [entryAt, get?_dir_cons, this]
        | cons next rest =>
          rw [put] at h
          cases hf : find? name entries with
          | none => rw [hf] at h; cases h; rfl
          | some child =>
            rw [hf] at h
            cases h
            by_cases hnn : n = name
            · subst hnn
              obtain ⟨child', hc⟩ := put_isSome (List.cons_ne_nil next rest) child value
              simp only [entryAt, get?_dir_cons, find?_update, if_true, hf, hc, Option.bind_some]
              exact ih hc (hn rfl)
            · simp [entryAt, get?_dir_cons, hnn]
    | file f | link t | device =>
      rw [put_of_not_dir (by simp) (List.cons_ne_nil name rest)] at h
      cases h
      rfl

/-- A change in a directory that is there shows. -/
theorem get?_put {d k : Location} {name : String} {node after : Node} {value : Option Node}
    {entries : List (String × Node)} (hd : node.get? d = some (dir entries))
    (h : node.put (d ++ [name]) value = some after) :
    after.get? (d ++ name :: k) = value.bind (·.get? k) := by
  induction d generalizing node after with
  | nil =>
    simp only [get?_nil, Option.some.injEq] at hd
    subst hd
    cases h
    simp [get?_dir_cons]
  | cons n d ih =>
    cases node with
    | dir outer =>
      rw [get?_dir_cons] at hd
      obtain ⟨child, hf, hc⟩ := Option.bind_eq_some_iff.mp hd
      have hput : (dir outer).put (n :: (d ++ [name])) value
          = some (dir (update n (child.put (d ++ [name]) value) outer)) := by
        cases hd' : d ++ [name] with
        | nil => simp at hd'
        | cons next rest => rw [put, hf]
      obtain ⟨child', hc'⟩ := put_isSome (l := d ++ [name]) (by simp) child value
      rw [List.cons_append, hput, Option.some.injEq, hc'] at h
      subst h
      simp only [List.cons_append, get?_dir_cons, find?_update, if_true, Option.bind_some]
      exact ih hc hc'
    | file f => cases hd
    | link t => cases hd
    | device => cases hd

end Node

end MonitoredCompile

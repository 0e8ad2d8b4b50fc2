/-
MonitoredCompile/FileSystem/Basic.lean

A file system: a tree, the current directory of the process, and the files that
the process holds open.  The last two follow what they name: when a directory
moves, the current directory and the open files in it move along, and when
their node is removed they are lost, so that nothing created later at the same
place is mistaken for them.

Every change goes through `place`, `remove` or `relocate`, which keep the three
parts in step, or through `writeOpen` and `appendOpen`, which write to an open
file.
-/
import MonitoredCompile.FileSystem.Node

namespace MonitoredCompile

/-- A file held open for writing: where it is, unless it was removed or is a
device, and where the next write goes. -/
structure OpenFile where
  location : Option Location
  offset : Nat
  deriving DecidableEq, Repr

structure FileSystem where
  root : Node
  /-- `none` once the current directory has been removed. -/
  cwd : Option Location
  /-- The open files; a handle is a position in this list. -/
  opened : List OpenFile
  deriving DecidableEq

namespace FileSystem

/-! ### Views -/

/-- The node at a location. -/
def get? (fs : FileSystem) (l : Location) : Option Node := fs.root.get? l

/-- What is at a location. -/
def entryAt (fs : FileSystem) (l : Location) : Option Entry := fs.root.entryAt l

/-! ### Changes of the tree -/

/-- The tree with `value` at a location.  The root itself cannot be removed. -/
def withNode (fs : FileSystem) (l : Location) (value : Option Node) : FileSystem :=
  { fs with root := (fs.root.put l value).getD fs.root }

/-- Creates a node where there was none, or replaces the node that is there by
one that counts as the same. -/
def place (fs : FileSystem) (l : Location) (node : Node) : FileSystem := fs.withNode l (some node)

/-- A location is kept unless it lies at or below `gone`. -/
def keptAfter (gone : Location) (l : Location) : Option Location :=
  if gone.isPrefixOf l then none else some l

/-- The open files with their locations changed; `none` loses the file. -/
def moveOpened (move : Location → Option Location) (opened : List OpenFile) : List OpenFile :=
  opened.map fun f => { f with location := f.location.bind move }

/-- Removes a node and everything below it. -/
def remove (fs : FileSystem) (l : Location) : FileSystem :=
  { fs.withNode l none with
    cwd := fs.cwd.bind (keptAfter l)
    opened := moveOpened (keptAfter l) fs.opened }

/-- A location after the move of `src` to `dst`. -/
def rebase (src dst l : Location) : Location :=
  if src.isPrefixOf l then dst ++ l.drop src.length else l

/-- Moves a node with everything below it from `src` to `dst`, a location that
is free and not below `src`. -/
def relocate (fs : FileSystem) (src dst : Location) : FileSystem :=
  match fs.get? src with
  | none => fs
  | some node =>
    { (fs.withNode src none).withNode dst (some node) with
      cwd := fs.cwd.map (rebase src dst)
      opened := moveOpened (fun l => some (rebase src dst l)) fs.opened }

/-- Removes what a directory holds and keeps the directory. -/
def clear (fs : FileSystem) (l : Location) : FileSystem :=
  let kept (x : Location) : Option Location := if l.isPrefixOf x ∧ x ≠ l then none else some x
  { fs.place l (.dir []) with
    cwd := fs.cwd.bind kept
    opened := moveOpened kept fs.opened }

/-! ### Open files -/

/-- Opens what is at a location for writing at its start, and gives the handle. -/
def openAt (fs : FileSystem) (l : Option Location) : FileSystem × Nat :=
  ({ fs with opened := fs.opened ++ [⟨l, 0⟩] }, fs.opened.length)

/-- Closes every handle from `n` on. -/
def closeFrom (fs : FileSystem) (n : Nat) : FileSystem := { fs with opened := fs.opened.take n }

/-- The bytes with `new` written over them from `offset` on; a gap is filled
with zeros, and writing nothing leaves everything as it is. -/
def splice (old : Bytes) (offset : Nat) (new : Bytes) : Bytes :=
  if new = [] then old
  else old.take offset ++ List.replicate (offset - old.length) 0 ++ new
    ++ old.drop (offset + new.length)

/-- Changes the bytes of the file at a location, if a file is there. -/
def modifyFile (fs : FileSystem) (l : Option Location) (f : Bytes → Bytes) : FileSystem :=
  match l with
  | none => fs
  | some l =>
    match fs.get? l with
    | some (.file file) => fs.place l (.file (file.overwrite (f file.bytes)))
    | _ => fs

/-- Writes to an open file where its last write ended. -/
def writeOpen (fs : FileSystem) (handle : Nat) (bytes : Bytes) : FileSystem :=
  match fs.opened[handle]? with
  | none => fs
  | some o =>
    { fs.modifyFile o.location (splice · o.offset bytes) with
      opened := fs.opened.set handle { o with offset := o.offset + bytes.length } }

/-- Writes to the end of an open file. -/
def appendOpen (fs : FileSystem) (handle : Nat) (bytes : Bytes) : FileSystem :=
  match fs.opened[handle]? with
  | none => fs
  | some o => fs.modifyFile o.location (· ++ bytes)

end FileSystem

end MonitoredCompile

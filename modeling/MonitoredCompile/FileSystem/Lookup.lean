/-
MonitoredCompile/FileSystem/Lookup.lean

From a path to a location.  A path is walked name by name from the root or the
current directory: `.` stays, `..` goes up, a symbolic link is replaced by its
target, and at most 40 links may be met on the way.  A slash at the end asks for
a directory, so a link before it is followed.

`Place` is where a walk ends.  Calls that make or remove a name do not want its
last name walked, but want to know whether it is a name at all: that is
`target`.
-/
import MonitoredCompile.FileSystem.Basic
import MonitoredCompile.FileSystem.Errno
import MonitoredCompile.Path

namespace MonitoredCompile

/-- Why a path leads nowhere: it holds a zero character and the system is never
asked, or the system refuses it. -/
inductive Refusal where
  | nul
  | system (e : Errno)
  deriving DecidableEq, Repr

/-- The end of a walk: a location in an existing directory, and the node there. -/
structure Place where
  location : Location
  node : Option Node
  deriving DecidableEq

namespace FileSystem

/-! ### Limits -/

/-- The number of links that one walk may meet. -/
def linkLimit : Nat := 40

/-- The number of bytes that a name may have. -/
def nameLimit : Nat := 255

/-- The number of bytes that a path must stay below. -/
def pathLimit : Nat := 4096

/-! ### Walking -/

/-- The names to walk: after a slash at the end, the directory itself. -/
def steps (path : String) : List String :=
  Path.names path ++ (if Path.endsInSlash path then ["."] else [])

/-- Walks names from a location.  `jump` goes on after a link; the last name is
followed if it is a link and `follow` says so. -/
def walk (root : Node) (jump : Location → List String → Except Errno Place) (follow : Bool) :
    Location → List String → Except Errno Place
  | here, [] =>
    match root.get? here with
    | none => .error .noEntry
    | some node => .ok ⟨here, some node⟩
  | here, name :: rest =>
    match root.get? here with
    | none => .error .noEntry
    | some (.dir entries) =>
      if name = "." then walk root jump follow here rest
      else if name = ".." then walk root jump follow here.dropLast rest
      else if nameLimit < name.utf8ByteSize then .error .nameTooLong
      else
        match Node.find? name entries with
        | none => if rest = [] then .ok ⟨here ++ [name], none⟩ else .error .noEntry
        | some (.link target) =>
          if rest = [] ∧ follow = false then .ok ⟨here ++ [name], some (.link target)⟩
          else jump (if Path.isAbsolute target then [] else here) (steps target ++ rest)
        | some node =>
          if rest = [] then .ok ⟨here ++ [name], some node⟩
          else walk root jump follow (here ++ [name]) rest
    | some _ => .error .notDirectory

/-- Walks names and follows at most `links` links. -/
def walkWithin (root : Node) (follow : Bool) : Nat → Location → List String → Except Errno Place
  | 0 => walk root (fun _ _ => .error .tooManyLinks) follow
  | links + 1 => walk root (walkWithin root follow links) follow

/-- Where the walk of a path starts. -/
def start (fs : FileSystem) (path : String) : Except Errno Location :=
  if Path.isAbsolute path then .ok [] else
    match fs.cwd with
    | none => .error .noEntry
    | some l => .ok l

/-- What is wrong with the text of a path. -/
def flaw? (path : String) : Option Refusal :=
  if Path.hasNul path then some .nul
  else if path = "" then some (.system .noEntry)
  else if pathLimit ≤ path.utf8ByteSize then some (.system .nameTooLong)
  else none

/-- Walks names as the path that they were taken from. -/
def walkFor (fs : FileSystem) (path : String) (follow : Bool) (names : List String) :
    Except Refusal Place :=
  match flaw? path with
  | some r => .error r
  | none =>
    match fs.start path with
    | .error e => .error (.system e)
    | .ok here =>
      match walkWithin fs.root follow linkLimit here names with
      | .error e => .error (.system e)
      | .ok place => .ok place

/-- Where a path ends. -/
def lookup (fs : FileSystem) (path : String) (follow : Bool := true) : Except Refusal Place :=
  fs.walkFor path follow (steps path)

/-- The location and node that a path names. -/
def find (fs : FileSystem) (path : String) (follow : Bool := true) :
    Except Refusal (Location × Node) :=
  match fs.lookup path follow with
  | .error r => .error r
  | .ok ⟨_, none⟩ => .error (.system .noEntry)
  | .ok ⟨l, some node⟩ => .ok (l, node)

/-! ### Questions about a path -/

/-- Leads to something. -/
def pathExists (fs : FileSystem) (path : String) : Bool :=
  match fs.find path with
  | .ok _ => true
  | .error _ => false

/-- Leads to a directory. -/
def isDir (fs : FileSystem) (path : String) : Bool :=
  match fs.find path with
  | .ok (_, .dir _) => true
  | _ => false

/-- Names a symbolic link. -/
def isLink (fs : FileSystem) (path : String) : Bool :=
  match fs.find path false with
  | .ok (_, .link _) => true
  | _ => false

/-! ### The last name of a path -/

/-- What the last name of a path is: a name in a directory (with or without a
slash after it), or a way to say "this directory". -/
inductive Target where
  | root
  | here
  | above
  | name (place : Place) (slash : Bool)
  deriving DecidableEq

/-- The last name of a path, looked up in the directory that the rest leads to.
If it is a link, `follow` goes on to where that leads, unless a slash follows. -/
def target (fs : FileSystem) (path : String) (follow : Bool := false) : Except Refusal Target :=
  let names := Path.names path
  let special (t : Target) : Except Refusal Target :=
    if names.dropLast = [] then (flaw? path).elim (.ok t) .error
    else
      match fs.walkFor path true (names.dropLast ++ ["."]) with
      | .error r => .error r
      | .ok _ => .ok t
  match names.getLast? with
  | none => special .root
  | some last =>
    if last = "." then special .here
    else if last = ".." then special .above
    else
      match fs.walkFor path (follow && !Path.endsInSlash path) names with
      | .error r => .error r
      | .ok place => .ok (.name place (Path.endsInSlash path))

end FileSystem

end MonitoredCompile

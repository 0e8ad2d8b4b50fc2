/-
MonitoredCompile/FileSystem/Calls.lean

The system calls of the library: reading, creating, making and removing
directories, removing names, linking and renaming.  Each is all or nothing: it
either gives the new file system or a `Refusal`, and a refused call has changed
nothing.

Files have no permissions but the one to be executed: the user may read and write
everything, and no call is refused for want of a permission.  There is room for
everything that is written, and one file system holds all files.
-/
import MonitoredCompile.FileSystem.Lookup

namespace MonitoredCompile.FileSystem

def refuse {α : Type} (e : Errno) : Except Refusal α := .error (.system e)

/-! ### Files -/

/-- The bytes of the file that a path leads to. -/
def read (fs : FileSystem) (path : String) : Except Refusal Bytes :=
  match fs.find path with
  | .error r => .error r
  | .ok (_, .file f) => .ok f.bytes
  | .ok (_, .dir _) => refuse .isDirectory
  | .ok _ => .ok []

/-- Finds or creates the file that a path leads to, and opens it; `prepare` is
done to the bytes of a file that is already there.  A link that leads nowhere
has its target created. -/
def openWith (fs : FileSystem) (path : String) (prepare : Bytes → Bytes) :
    Except Refusal (FileSystem × Nat) :=
  match fs.target path true with
  | .error r => .error r
  | .ok (.name place false) =>
    match place.node with
    | none => .ok ((fs.place place.location (.file { bytes := [] })).openAt place.location)
    | some (.file f) =>
      let bytes := prepare f.bytes
      .ok ((if bytes = f.bytes then fs else fs.place place.location (.file (f.overwrite bytes))).openAt
        place.location)
    | some (.dir _) => refuse .isDirectory
    | some _ => .ok (fs.openAt none)
  | .ok _ => refuse .isDirectory

/-- Opens a file for writing; what it held is gone. -/
def openTruncated (fs : FileSystem) (path : String) : Except Refusal (FileSystem × Nat) :=
  fs.openWith path fun _ => []

/-- Opens a file for writing at its end. -/
def openAppending (fs : FileSystem) (path : String) : Except Refusal (FileSystem × Nat) :=
  fs.openWith path id

/-- Creates or overwrites a file. -/
def store (fs : FileSystem) (path : String) (bytes : Bytes) : Except Refusal FileSystem :=
  match fs.openTruncated path with
  | .error r => .error r
  | .ok (opened, handle) => .ok ((opened.writeOpen handle bytes).closeFrom fs.opened.length)

/-- Creates a node under a name that must be free. -/
def create (fs : FileSystem) (path : String) (node : Node) : Except Refusal FileSystem :=
  match fs.target path with
  | .error r => .error r
  | .ok (.name ⟨l, none⟩ _) => .ok (fs.place l node)
  | .ok _ => refuse .alreadyExists

/-- Makes a symbolic link. -/
def makeLink (fs : FileSystem) (path target : String) : Except Refusal FileSystem :=
  if Path.hasNul path then .error .nul
  else
    match flaw? target with
    | some r => .error r
    | none =>
      match fs.target path with
      | .ok (.name ⟨_, none⟩ true) => refuse .noEntry
      | _ => fs.create path (.link target)

/-- Where a symbolic link leads. -/
def readLink (fs : FileSystem) (path : String) : Except Refusal String :=
  match fs.find path false with
  | .error r => .error r
  | .ok (_, .link target) => .ok target
  | .ok _ => refuse .invalid

/-! ### Directories -/

def makeDir (fs : FileSystem) (path : String) : Except Refusal FileSystem :=
  fs.create path (.dir [])

/-- Removes an empty directory. -/
def removeDir (fs : FileSystem) (path : String) : Except Refusal FileSystem :=
  match fs.target path with
  | .error r => .error r
  | .ok .root => refuse .busy
  | .ok .here => refuse .invalid
  | .ok .above => refuse .notEmpty
  | .ok (.name ⟨_, none⟩ _) => refuse .noEntry
  | .ok (.name ⟨l, some (.dir [])⟩ _) => .ok (fs.remove l)
  | .ok (.name ⟨_, some (.dir _)⟩ _) => refuse .notEmpty
  | .ok (.name ⟨_, some _⟩ _) => refuse .notDirectory

/-- The names in the directory that a path leads to. -/
def listDir (fs : FileSystem) (path : String) : Except Refusal (List String) :=
  match fs.find path with
  | .error r => .error r
  | .ok (_, .dir entries) => .ok (entries.map (·.1))
  | .ok _ => refuse .notDirectory

/-! ### Names -/

/-- Removes a name that is no directory's. -/
def removeFile (fs : FileSystem) (path : String) : Except Refusal FileSystem :=
  match fs.target path with
  | .error r => .error r
  | .ok (.name ⟨_, none⟩ _) => refuse .noEntry
  | .ok (.name ⟨_, some (.dir _)⟩ _) => refuse .isDirectory
  | .ok (.name ⟨_, some _⟩ true) => refuse .notDirectory
  | .ok (.name ⟨l, some _⟩ false) => .ok (fs.remove l)
  | .ok _ => refuse .isDirectory

/-- Gives what stands at `src` the place `dst`, where nothing, or nothing that
may not be replaced, stands. -/
def renameAt (fs : FileSystem) (src : Location) (node : Node) (dst : Place) :
    Except Refusal FileSystem :=
  if src = dst.location then .ok fs
  else if src.isPrefixOf dst.location then refuse .invalid
  else if dst.location.isPrefixOf src then refuse .notEmpty
  else
    match node, dst.node with
    | _, none => .ok (fs.relocate src dst.location)
    | .dir _, some (.dir []) => .ok ((fs.remove dst.location).relocate src dst.location)
    | .dir _, some (.dir _) => refuse .notEmpty
    | .dir _, some _ => refuse .notDirectory
    | _, some (.dir _) => refuse .isDirectory
    | _, some _ => .ok ((fs.remove dst.location).relocate src dst.location)

/-- Whether a node is a directory. -/
def isDirNode : Node → Bool
  | .dir _ => true
  | _ => false

/-- Renames a file, a link (not what it leads to) or a directory with all that
is in it.  Neither path may end in `.` or `..`, and a slash after the last name
asks for a real directory. -/
def rename (fs : FileSystem) (src dst : String) : Except Refusal FileSystem :=
  if Path.hasNul src || Path.hasNul dst then .error .nul
  else
    match fs.target src, fs.target dst with
    | .error r, _ => .error r
    | .ok _, .error r => .error r
    | .ok (.name source slash), .ok (.name dest destSlash) =>
      match source.node with
      | none => refuse .noEntry
      | some node =>
        if !isDirNode node && (slash || destSlash) then refuse .notDirectory
        else fs.renameAt source.location node dest
    | .ok _, .ok _ => refuse .busy

end MonitoredCompile.FileSystem

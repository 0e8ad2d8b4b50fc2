/-
MonitoredCompile/FileSystem/Trees.lean

Operations on whole trees, made of many system calls: making a directory with
its parents, removing, copying and moving a tree.  They work on paths, one call
after another, so one that fails has done a part of its work: a `FileOp` keeps
the file system that it leaves whether it succeeds or not.

Moving renames if it can.  Otherwise it copies the tree and removes the
original, after a check of the two paths' texts that the one does not lie
inside the other.
-/
import MonitoredCompile.Attempt
import MonitoredCompile.FileSystem.Calls
import MonitoredCompile.Text.Quoted

namespace MonitoredCompile

/-! ### Faults -/

/-- What went wrong with a path. -/
inductive FileFault where
  /-- The path holds a zero character. -/
  | nul
  | refused (e : Errno) (path : String)
  | linkRefused (e : Errno) (target path : String)
  /-- The current directory has been removed. -/
  | noCurrentDirectory
  /-- A directory was to be moved below itself. -/
  | intoItself (src dst : String)
  /-- Parts of a tree that could not be copied: from, to and why. -/
  | notCopied (parts : List (String × String × String))
  /-- Every temporary name tried was taken. -/
  | noFreeName (what : String)
  deriving DecidableEq, Repr

namespace FileFault

/-- Comes from the operating system, and not from the path itself. -/
def fromSystem : FileFault → Bool
  | nul => false
  | _ => true

/-- One part that was not copied, as a tuple. -/
def shownPart : String × String × String → String
  | (src, dst, why) => "(" ++ Text.join ", " [Text.quote src, Text.quote dst, Text.quote why] ++ ")"

def message : FileFault → String
  | nul => "embedded null byte"
  | refused e path => e.message ++ ": " ++ Text.quote path
  | linkRefused e target path => e.message ++ ": " ++ Text.quote target ++ " -> " ++ Text.quote path
  | noCurrentDirectory => Errno.noEntry.message
  | intoItself src dst =>
    "Cannot move a directory '" ++ src ++ "' into itself '" ++ dst ++ "'."
  | notCopied parts => "[" ++ Text.join ", " (parts.map shownPart) ++ "]"
  | noFreeName what => "[Errno 17] No usable temporary " ++ what ++ " name found"

end FileFault

/-- A change of the file system that may fail half way. -/
abbrev FileOp (α : Type) := Attempt FileFault FileSystem α

namespace FileOp

/-- The fault of a refused path. -/
def faultAt (path : String) : Refusal → FileFault
  | .nul => .nul
  | .system e => .refused e path

/-- One system call about `path`. -/
def call (path : String) (f : FileSystem → Except Refusal FileSystem) : FileOp Unit := do
  match f (← get) with
  | .ok fs => set fs
  | .error r => throw (faultAt path r)

/-- A question that the file system answers about `path`. -/
def ask {α : Type} (path : String) (f : FileSystem → Except Refusal α) : FileOp α := do
  match f (← get) with
  | .ok a => pure a
  | .error r => throw (faultAt path r)

/-! ### Directories with their parents -/

/-- Makes the directory itself.  If it `mayExist`, it does not matter that it is
there already. -/
def makeLeaf (mayExist : Bool) (path : String) : FileOp Unit := do
  match (← get).makeDir path with
  | .ok fs => set fs
  | .error r =>
    let fault := faultAt path r
    if mayExist && fault.fromSystem && (← get).isDir path then pure () else throw fault

/-- Makes a directory after its parents, to a depth of `depth` parents.  A
parent that exists by the time it is made is no failure, and after the parents
of `a/.` have been made there is nothing left to make. -/
def makeDirsWithin (mayExist : Bool) : Nat → String → FileOp Unit
  | 0, path => makeLeaf mayExist path
  | depth + 1, path => do
    let (parent, name) := Path.splitParent path
    if parent = "" ∨ name = "" ∨ (← get).pathExists parent then makeLeaf mayExist path
    else
      tryCatch (makeDirsWithin mayExist depth parent) fun fault =>
        match fault with
        | .refused .alreadyExists _ => pure ()
        | _ => throw fault
      if name = "." then pure () else makeLeaf mayExist path

/-- Makes sure that there is a directory, with all its parents. -/
def ensureDirs (path : String) : FileOp Unit := makeDirsWithin true path.length path

/-- Makes a directory that must be new, with all its parents. -/
def makeNewDirs (path : String) : FileOp Unit := makeDirsWithin false path.length path

/-! ### Removing -/

/-- Removes a directory and all that is in it; a link is not followed.  What the
directory holds goes first, then the directory itself by its path. -/
def removeTree (path : String) : FileOp Unit := do
  let (l, node) ← ask path fun fs => fs.find path false
  match node with
  | .dir _ => modify fun fs => fs.clear l
  | _ => throw (.refused .notDirectory path)
  call path fun fs => fs.removeDir path

/-- Removes a tree as far as that is possible. -/
def removeTreeQuietly (path : String) : FileOp Unit :=
  tryCatch (removeTree path) fun _ => pure ()

/-! ### Copying -/

/-- Copies one file, with its bytes and whether it is executable. -/
def copyFile (src dst : String) : FileOp Unit := do
  let (_, node) ← ask src fun fs => fs.find src
  match node with
  | .file f =>
    call dst fun fs => fs.store dst f.bytes
    call dst fun fs =>
      match fs.find dst with
      | .ok (l, .file _) => .ok (fs.place l (.file f))
      | _ => .ok fs
  | .dir _ => throw (.refused .isDirectory src)
  | _ => call dst fun fs => fs.store dst []

/-- The parts that a fault leaves out, for a copy from `src` to `dst`. -/
def missedParts (src dst : String) : FileFault → List (String × String × String)
  | .notCopied parts => parts
  | fault => [(src, dst, fault.message)]

/-- Makes a symbolic link, or says which one it could not make. -/
def makeLink (target path : String) : FileOp Unit := do
  match (← get).makeLink path target with
  | .ok fs => set fs
  | .error .nul => throw .nul
  | .error (.system e) => throw (.linkRefused e target path)

/-- Copies what one name stands for; `copy` copies a tree. -/
def copyEntry (copy : String → String → FileOp Unit) (links : Bool) (src dst : String) :
    FileOp Unit := do
  let fs ← get
  if links && fs.isLink src then
    let target ← ask src fun fs => fs.readLink src
    makeLink target dst
  else if fs.isDir src then copy src dst
  else copyFile src dst

/-- Copies the entries of one directory by their names, and gives the parts that
the system did not let it copy. -/
def copyEntries (copy : String → String → FileOp Unit) (links : Bool) (src dst : String) :
    List String → FileOp (List (String × String × String))
  | [] => pure []
  | name :: rest => do
    let missed ←
      tryCatch (do copyEntry copy links (Path.join src name) (Path.join dst name); pure [])
        fun fault =>
          if fault.fromSystem then
            pure (missedParts (Path.join src name) (Path.join dst name) fault)
          else throw fault
    let more ← copyEntries copy links src dst rest
    pure (missed ++ more)

/-- Copies a tree to a path that is free, to a depth of `depth` directories.
The names are read before the copy is made.  Links are copied as links if
`links` says so and otherwise replaced by what they lead to; a part that
cannot be copied is left out and named at the end, and so is the tree itself if
no directory has come of it. -/
def copyTreeWithin (links : Bool) : Nat → String → String → FileOp Unit
  | 0, src, _ => throw (.refused .nameTooLong src)
  | depth + 1, src, dst => do
    let names ← ask src fun fs => fs.listDir src
    makeNewDirs dst
    let missed ← copyEntries (copyTreeWithin links depth) links src dst names
    let absent :=
      match (← get).find dst with
      | .error (.system e) => [(src, dst, e.message)]
      | _ => []
    if missed ++ absent = [] then pure () else throw (.notCopied (missed ++ absent))

/-- Copies a tree.  No path is longer than the limit, so neither is the depth. -/
def copyTree (links : Bool) (src dst : String) : FileOp Unit :=
  copyTreeWithin links FileSystem.pathLimit src dst

/-! ### Moving -/

/-- The path of the current directory. -/
def currentDir : FileOp String := do
  match (← get).cwd with
  | none => throw .noCurrentDirectory
  | some l => pure ("/" ++ Text.join "/" l)

/-- The absolute path of the same meaning as text, links not considered. -/
def absolute (path : String) : FileOp String := do
  if Path.isAbsolute path then pure (Path.normalize path)
  else pure (Path.normalize (Path.join (← currentDir) path))

/-- Moves by copying what `rename` would not move. -/
def moveByCopy (src dst : String) : FileOp Unit := do
  let fs ← get
  if fs.isLink src then
    let target ← ask src fun fs => fs.readLink src
    makeLink target dst
    call src fun fs => fs.removeFile src
  else if fs.isDir src then
    let absoluteSrc ← absolute src
    let absoluteDst ← absolute dst
    if Path.isWithin absoluteSrc absoluteDst then throw (.intoItself src dst)
    copyTree true src dst
    removeTree src
  else
    copyFile src dst
    call src fun fs => fs.removeFile src

/-- Moves a file, a link or a tree to a path that is free. -/
def move (src dst : String) : FileOp Unit := do
  match (← get).rename src dst with
  | .ok fs => set fs
  | .error .nul => throw .nul
  | .error (.system _) => moveByCopy src dst

end FileOp

end MonitoredCompile

/-
MonitoredCompile/Path.lean

Paths as texts.  Nothing here looks at a file system: these are the operations
that take a path apart at its slashes and put it together again.  A path means
a file only relative to a file system; see `FileSystem/Lookup`.
-/
import MonitoredCompile.Text.Lines

namespace MonitoredCompile.Path

/-! ### Shape -/

def isAbsolute (path : String) : Bool := path.toList.head? = some '/'

def endsInSlash (path : String) : Bool := path.toList.getLast? = some '/'

/-- Written with a slash somewhere. -/
def hasSlash (path : String) : Bool := '/' ∈ path.toList

/-- Holds a zero character, which no system call takes. -/
def hasNul (path : String) : Bool := '\x00' ∈ path.toList

/-- The names between the slashes; empty ones do not count. -/
def names (path : String) : List String :=
  ((Text.cut '/' path.toList).filter (· ≠ [])).map String.ofList

/-- A text that can stand between two slashes. -/
def IsPiece (name : String) : Prop := name ≠ "" ∧ '/' ∉ name.toList

theorem isPiece_of_mem_names {path name : String} (h : name ∈ names path) : IsPiece name := by
  obtain ⟨piece, hpiece, rfl⟩ := List.mem_map.mp h
  obtain ⟨hcut, hne⟩ := List.mem_filter.mp hpiece
  refine ⟨fun he => ?_, ?_⟩
  · have : piece = [] := by simpa using congrArg String.toList he
    simp [this] at hne
  · simpa using Text.separator_not_mem_cut hcut

/-! ### Putting together and taking apart -/

/-- A path with a slash at its end. -/
def withSlash (path : String) : String := if endsInSlash path then path else path ++ "/"

/-- `path` as seen from the directory `dir`. -/
def join (dir path : String) : String :=
  if isAbsolute path then path
  else if dir = "" ∨ endsInSlash dir then dir ++ path
  else dir ++ "/" ++ path

/-- Drops the slashes at the end. -/
def dropSlashes (s : List Char) : List Char := (s.reverse.dropWhile (· = '/')).reverse

/-- The path before the last slash and the name after it.  The slashes at the
end of the first part go, unless there is nothing else in it. -/
def split (path : String) : String × String :=
  let tail := (path.toList.reverse.takeWhile (· ≠ '/')).reverse
  let head := (path.toList.reverse.dropWhile (· ≠ '/')).reverse
  (String.ofList (if head.all (· = '/') then head else dropSlashes head), String.ofList tail)

/-- Splits once more if the path ends in a slash. -/
def splitParent (path : String) : String × String :=
  if (split path).2 = "" then split (split path).1 else split path

/-! ### Normal form -/

/-- Drops `.` and lets `..` cancel the name before it.  `above` holds the names
kept so far, the last one first; at the root `..` leads nowhere. -/
def cancel (fromRoot : Bool) : (above : List String) → List String → List String
  | above, [] => above.reverse
  | above, name :: rest =>
    if name = "." then cancel fromRoot above rest
    else if name = ".." then
      match above with
      | [] => if fromRoot then cancel fromRoot [] rest else cancel fromRoot [".."] rest
      | last :: before =>
        if last = ".." then cancel fromRoot (".." :: above) rest else cancel fromRoot before rest
    else cancel fromRoot (name :: above) rest

/-- The slashes that an absolute path keeps at its start: two if it has exactly
two, otherwise one. -/
def rootSlashes (path : String) : String :=
  match path.toList with
  | '/' :: '/' :: '/' :: _ => "/"
  | '/' :: '/' :: _ => "//"
  | '/' :: _ => "/"
  | _ => ""

/-- The shortest path of the same text meaning, links not considered. -/
def normalize (path : String) : String :=
  let text := rootSlashes path ++ Text.join "/" (cancel (isAbsolute path) [] (names path))
  if text = "" then "." else text

/-- Whether the text of `path` lies at or below the text of `dir`. -/
def isWithin (dir path : String) : Bool :=
  (withSlash dir).toList.isPrefixOf (withSlash path).toList

end MonitoredCompile.Path

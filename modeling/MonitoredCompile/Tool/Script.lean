/-
MonitoredCompile/Tool/Script.lean

Tools given by a script.  A script stands in for a compiler or an instrumentor:
a list of actions, done in order, with exit status 0 at the end.  Paths in it
may refer to the arguments that the tool was started with.
-/
import MonitoredCompile.FileSystem.Upkeep
import MonitoredCompile.Tool.Behaviour

namespace MonitoredCompile

inductive Action where
  | emit (stream : Stream) (bytes : Bytes)
  | store (path : String) (bytes : Bytes)
  | makeDir (path : String)
  | remove (path : String)
  | copy (src dst : String)
  | exit (status : Int)
  /-- Dies of a signal. -/
  | kill (signal : Int)
  deriving DecidableEq, Repr

namespace Action

/-! ### Paths -/

/-- The argument after the first `flag`. -/
def argumentAfter (flag : String) : List String → Option String
  | [] => none
  | a :: rest => if a = flag then rest.head? else argumentAfter flag rest

/-- A path of a script for the given arguments: `{d}` at its start stands for the
last argument, `{i}` and `{o}` for the one after `-i` and `-o`. -/
def resolvePath (args : List String) (path : String) : Option String :=
  let filled (argument : Option String) (rest : List Char) : Option String :=
    argument.map (· ++ String.ofList rest)
  match path.toList with
  | '{' :: 'd' :: '}' :: rest => filled args.getLast? rest
  | '{' :: 'i' :: '}' :: rest => filled (argumentAfter "-i" args) rest
  | '{' :: 'o' :: '}' :: rest => filled (argumentAfter "-o" args) rest
  | _ => some path

/-! ### Effects -/

/-- Removes a file, a link, or a whole directory. -/
def removeAny (path : String) : FileOp Unit := do
  let fs ← get
  if fs.isDir path && !fs.isLink path then FileOp.removeTree path
  else FileOp.call path fun fs => fs.removeFile path

/-- What an action does to the file system; `none` if a path in it refers to an
argument that was not given. -/
def fileOp (args : List String) : Action → Option (FileOp Unit)
  | .store path bytes =>
    (resolvePath args path).map fun p => FileOp.call p fun fs => fs.store p bytes
  | .makeDir path => (resolvePath args path).map fun p => FileOp.call p fun fs => fs.makeDir p
  | .remove path => (resolvePath args path).map removeAny
  | .copy src dst =>
    match resolvePath args src, resolvePath args dst with
    | some s, some d => some (FileOp.copyTree false s d)
    | _, _ => none
  | _ => some (pure ())

theorem sound_removeAny (path : String) : FileOp.Sound (removeAny path) := by
  refine FileOp.Sound.get.bind fun fs => ?_
  split
  · exact FileOp.sound_removeTree path
  · exact .call fun h hfs => hfs.removeFile h

/-- An action leaves a well-formed file system well-formed. -/
theorem sound_fileOp {args : List String} {action : Action} {op : FileOp Unit}
    (h : action.fileOp args = some op) : FileOp.Sound op := by
  cases action with
  | store path bytes =>
    obtain ⟨p, -, rfl⟩ := Option.map_eq_some_iff.mp h
    exact .call fun h hfs => hfs.store h
  | makeDir path =>
    obtain ⟨p, -, rfl⟩ := Option.map_eq_some_iff.mp h
    exact .call fun h hfs => hfs.makeDir h
  | remove path =>
    obtain ⟨p, -, rfl⟩ := Option.map_eq_some_iff.mp h
    exact sound_removeAny p
  | copy src dst =>
    rw [fileOp] at h
    split at h
    · cases h
      exact FileOp.sound_copyTree _ _ _
    · cases h
  | emit stream bytes | exit status | kill signal =>
    cases h
    exact .pure ()

/-- Whether an operation succeeds on a file system. -/
def succeeds (op : FileOp Unit) (fs : FileSystem) : Bool := (op.exec fs).1.toBool

/-- The exit status after an action that failed. -/
def failureStatus : Int := 99

end Action

/-- The tool that does the given actions. -/
def Behaviour.ofScript (args : List String) : List Action → Behaviour
  | [] => .exit 0
  | .emit stream bytes :: rest => .emit stream bytes (ofScript args rest)
  | .exit status :: _ => .exit (status % 256)
  | .kill signal :: _ => .exit (-signal)
  | action :: rest =>
    match h : action.fileOp args with
    | none => .exit Action.failureStatus
    | some op =>
      .act (fun fs => (op.exec fs).2) (fun hfs => (Action.sound_fileOp h).state rfl hfs)
        (fun before => if Action.succeeds op before then ofScript args rest
          else .exit Action.failureStatus)

end MonitoredCompile

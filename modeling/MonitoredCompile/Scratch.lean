/-
MonitoredCompile/Scratch.lean

Temporary files and directories.  Names are numbered, one counter for all; a
name that is taken is passed over, any other refusal ends the search.
-/
import MonitoredCompile.Host

namespace MonitoredCompile.Scratch

/-- A number with at least eight digits. -/
def eightDigits (n : Nat) : String :=
  let digits := toString n
  String.ofList (List.replicate (8 - digits.length) '0') ++ digits

/-- The path of the temporary name of that number. -/
def path (dir before after : String) (n : Nat) : String :=
  Path.join dir (before ++ eightDigits n ++ after)

/-- The number of names that are tried: `TMP_MAX`, which is 238328 on Linux. -/
def attempts : Nat := 238328

/-- The first of the numbers from `n` on whose path is free, and the file system
with `node` created there. -/
def search (node : Node) (pathOf : Nat → String) (what : String) (fs : FileSystem) :
    (attempts : Nat) → (n : Nat) → Except FileFault FileSystem × Nat
  | 0, n => (.error (.noFreeName what), n - 1)
  | left + 1, n =>
    match fs.create (pathOf n) node with
    | .ok fs => (.ok fs, n)
    | .error (.system .alreadyExists) => search node pathOf what fs left (n + 1)
    | .error r => (.error (FileOp.faultAt (pathOf n) r), n)

/-- Creates `node` under a fresh temporary name and gives its path. -/
def make (node : Node) (what before after : String) : Run String := do
  let h ← get
  let pathOf := path h.scratchDir before after
  let (result, last) := search node pathOf what h.files attempts (h.scratchNames + 1)
  modify fun h => { h with scratchNames := last }
  match result with
  | .ok files => modify fun h => { h with files }; pure (pathOf last)
  | .error fault => throw (.file fault)

/-- A fresh empty directory. -/
def makeDir (before : String) : Run String := make (.dir []) "directory" before ""

/-- A fresh empty file. -/
def makeFile (before after : String) : Run String :=
  make (.file { bytes := [] }) "file" before after

end MonitoredCompile.Scratch

/-
MonitoredCompile/FileSystem/Errno.lean

The ways in which the operating system refuses a call.
-/
namespace MonitoredCompile

/-- Why a call is refused. -/
inductive Errno where
  | noEntry
  | notRunnable
  | denied
  | busy
  | alreadyExists
  | notDirectory
  | isDirectory
  | invalid
  | nameTooLong
  | notEmpty
  | tooManyLinks
  deriving DecidableEq, Repr

namespace Errno

/-- The number under which the system knows it. -/
def code : Errno → Nat
  | noEntry => 2
  | notRunnable => 8
  | denied => 13
  | busy => 16
  | alreadyExists => 17
  | notDirectory => 20
  | isDirectory => 21
  | invalid => 22
  | nameTooLong => 36
  | notEmpty => 39
  | tooManyLinks => 40

def text : Errno → String
  | noEntry => "No such file or directory"
  | notRunnable => "Exec format error"
  | denied => "Permission denied"
  | busy => "Device or resource busy"
  | alreadyExists => "File exists"
  | notDirectory => "Not a directory"
  | isDirectory => "Is a directory"
  | invalid => "Invalid argument"
  | nameTooLong => "File name too long"
  | notEmpty => "Directory not empty"
  | tooManyLinks => "Too many levels of symbolic links"

/-- Number and text, as messages give them. -/
def message (e : Errno) : String := "[Errno " ++ toString e.code ++ "] " ++ e.text

end Errno

end MonitoredCompile

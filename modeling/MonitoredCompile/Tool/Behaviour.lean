/-
MonitoredCompile/Tool/Behaviour.lean

What an external tool does once it has been started.  A tool is a tree of
things that can be seen from outside: it writes bytes to one of its two streams,
it looks at the file system and changes it, and in the end it exits.  Nothing
else is said about a tool but that it changes files through the operating
system, which keeps the tree well-formed.  So a statement about every
`Behaviour` is one about every tool.

Where its streams lead is decided by whoever starts it, by one `Route` for each
stream.
-/
import MonitoredCompile.FileSystem.WellFormed

namespace MonitoredCompile

/-- The two output streams of a tool. -/
inductive Stream where
  | output
  | errors
  deriving DecidableEq, Repr

inductive Behaviour where
  /-- Ends with an exit status; a negative one is the signal that killed it. -/
  | exit (status : Int)
  /-- Writes to a stream, then goes on. -/
  | emit (stream : Stream) (bytes : Bytes) (next : Behaviour)
  /-- Looks at the file system, changes it, and goes on according to what it saw. -/
  | act (change : FileSystem → FileSystem)
      (sound : ∀ {fs}, fs.WellFormed → (change fs).WellFormed) (next : FileSystem → Behaviour)

/-- Something that a tool has done. -/
inductive Event where
  | wrote (stream : Stream) (bytes : Bytes)
  | changed (before after : FileSystem)

/-- Where a stream of a tool leads. -/
inductive Route where
  | stdout
  | stderr
  | nowhere
  | file (handle : Nat)
  deriving DecidableEq, Repr

/-- What a running tool can reach: the files, and two streams that it was given. -/
structure Surroundings where
  files : FileSystem
  stdout : Bytes
  stderr : Bytes

namespace Surroundings

/-- Delivers what a tool writes. -/
def deliver (s : Surroundings) (bytes : Bytes) : Route → Surroundings
  | .stdout => { s with stdout := s.stdout ++ bytes }
  | .stderr => { s with stderr := s.stderr ++ bytes }
  | .nowhere => s
  | .file handle => { s with files := s.files.writeOpen handle bytes }

end Surroundings

namespace Behaviour

/-- Runs a tool to its end, with its streams led along `routes`. -/
def run (routes : Stream → Route) : Behaviour → Surroundings → Int × Surroundings
  | exit status, s => (status, s)
  | emit stream bytes next, s => next.run routes (s.deliver bytes (routes stream))
  | act change _ next, s => (next s.files).run routes { s with files := change s.files }

/-- What a tool does before it ends, in order. -/
def events (routes : Stream → Route) : Behaviour → Surroundings → List Event
  | exit _, _ => []
  | emit stream bytes next, s =>
    .wrote stream bytes :: next.events routes (s.deliver bytes (routes stream))
  | act change _ next, s =>
    .changed s.files (change s.files) ::
      (next s.files).events routes { s with files := change s.files }

end Behaviour

end MonitoredCompile

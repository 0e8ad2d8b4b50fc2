/-
MonitoredCompile/Diagnostics.lean

Replaying what the tools had to say.  Files are copied line by line and byte for
byte, one after the other; a last line without an end gets one, so that lines of
two files are never joined.  What a whole file comes to is `endLine` of what it
holds (`copyLines_writeStderr`).
-/
import MonitoredCompile.Host

namespace MonitoredCompile.Diagnostics

/-- The file in which the instrumentor leaves diagnostics, in the directory that
it was run in. -/
def instrumentorFile : String := "javac.err.topl"

/-! ### Lines -/

/-- The bytes with an end after the last line. -/
def endLine (bytes : Bytes) : Bytes :=
  match bytes.getLast? with
  | none => []
  | some b => if b = 0x0A then bytes else bytes ++ [0x0A]

/-- The lines of a file, each with its end; only the last may be without one. -/
def lines : Bytes → List Bytes
  | [] => []
  | b :: rest =>
    if b = 0x0A then [b] :: lines rest
    else
      match lines rest with
      | [] => [[b]]
      | line :: more => (b :: line) :: more

theorem endLine_cons {rest : Bytes} (hrest : rest ≠ []) (b : UInt8) :
    endLine (b :: rest) = b :: endLine rest := by
  rw [endLine, endLine, List.getLast?_cons]
  cases hlast : rest.getLast? with
  | none => exact absurd (List.getLast?_eq_none_iff.mp hlast) hrest
  | some last =>
    rw [Option.getD_some]
    dsimp only
    split <;> rfl

theorem lines_cons_end (rest : Bytes) : lines (0x0A :: rest) = [0x0A] :: lines rest := by
  rw [lines, if_pos rfl]

/-- A byte that ends no line is the first of the first line. -/
theorem lines_cons {b : UInt8} (hb : b ≠ 0x0A) {rest line : Bytes} {more : List Bytes}
    (hrest : lines rest = line :: more) : lines (b :: rest) = (b :: line) :: more := by
  rw [lines, if_neg hb, hrest]

theorem lines_ne_nil (b : UInt8) (rest : Bytes) : lines (b :: rest) ≠ [] := by
  rw [lines]
  split
  · simp
  · split <;> simp

/-- No line is without bytes. -/
theorem ne_nil_of_mem_lines {bytes line : Bytes} (h : line ∈ lines bytes) : line ≠ [] := by
  induction bytes generalizing line with
  | nil => cases h
  | cons b rest ih =>
    rw [lines] at h
    split at h
    · rcases List.mem_cons.mp h with rfl | h
      · simp
      · exact ih h
    · split at h
      · simp_all
      · next hrest =>
        rw [hrest] at ih
        rcases List.mem_cons.mp h with rfl | h
        · simp
        · exact ih (List.mem_cons_of_mem _ h)

/-- The lines, each with an end, are the bytes with an end after the last line. -/
theorem flatMap_endLine_lines (bytes : Bytes) : (lines bytes).flatMap endLine = endLine bytes := by
  induction bytes with
  | nil => rfl
  | cons b rest ih =>
    by_cases hb : b = 0x0A
    · subst hb
      rw [lines_cons_end, List.flatMap_cons, ih]
      cases rest with
      | nil => rfl
      | cons next rest => exact (endLine_cons (List.cons_ne_nil next rest) _).symm
    · cases rest with
      | nil => simp [lines, hb]
      | cons next rest =>
        obtain ⟨line, more, hlines⟩ := List.exists_cons_of_ne_nil (lines_ne_nil next rest)
        have hline : line ≠ [] := ne_nil_of_mem_lines (hlines ▸ List.mem_cons_self)
        rw [hlines, List.flatMap_cons] at ih
        rw [lines_cons hb hlines, List.flatMap_cons, endLine_cons hline, List.cons_append, ih,
          endLine_cons (List.cons_ne_nil next rest)]

/-! ### Copying -/

/-- Writes the lines one after the other; one without an end gets one. -/
def copyLines (write : Host → Bytes → Host) : List Bytes → Host → Host
  | [], h => h
  | line :: rest, h => copyLines write rest (write h (endLine line))

/-- If what is written stands after what was there, writing line by line is writing all at
once. -/
theorem copyLines_eq {write : Host → Bytes → Host} (hnil : ∀ h, write h [] = h)
    (happend : ∀ h a b, write (write h a) b = write h (a ++ b)) (ls : List Bytes) (h : Host) :
    copyLines write ls h = write h (ls.flatMap endLine) := by
  induction ls generalizing h with
  | nil => exact (hnil h).symm
  | cons line rest ih => rw [copyLines, ih, happend, List.flatMap_cons]

theorem copyLines_writeStderr (bytes : Bytes) (h : Host) :
    copyLines Host.writeStderr (lines bytes) h = h.writeStderr (endLine bytes) := by
  rw [copyLines_eq (fun h => ?_) (fun h a b => ?_), flatMap_endLine_lines]
  · rw [Host.writeStderr, List.append_nil]
  · simp only [Host.writeStderr, List.append_assoc]

def site : Log.Site := ⟨"topljavac.diagnostics", "diagnostics", "flushDiagnostics"⟩

/-- Copies every source with `write`; a source that cannot be read ends it. -/
def replay (write : Host → Bytes → Host) : List String → Run Unit
  | [] => pure ()
  | source :: rest => do
    Run.note site .debug ("flushing diagnostics from " ++ source)
    let bytes ← Run.onFiles (FileOp.ask source fun fs => fs.read source)
    Run.change (copyLines write (lines bytes))
    replay write rest

/-- On the standard error stream it cannot be told that a source is copied line by line. -/
theorem replay_writeStderr_cons (source : String) (rest : List String) :
    replay Host.writeStderr (source :: rest) = (do
      Run.note site .debug ("flushing diagnostics from " ++ source)
      let bytes ← Run.onFiles (FileOp.ask source fun fs => fs.read source)
      Run.change fun h => h.writeStderr (endLine bytes)
      replay Host.writeStderr rest) := by
  rw [replay]
  simp only [funext (copyLines_writeStderr _)]

/-! ### Outlets -/

/-- Where diagnostics can go.  Text that was written to the standard error stream may still
be waiting there, where bytes do not have to pass. -/
inductive Outlet where
  | errors (text : String)
  | memory

namespace Outlet

/-- Lets go of the text that waits. -/
def release : Outlet → Host → Host
  | .errors text => fun h => h.inform text
  | .memory => id

def write : Outlet → Host → Bytes → Host
  | .errors _ => Host.writeStderr
  | .memory => Host.writeMemory

end Outlet

/-- Copies every source to an outlet, after what waits there. -/
def flush (outlet : Outlet) (sources : List String) : Run Unit := do
  Run.change outlet.release
  replay outlet.write sources

end MonitoredCompile.Diagnostics

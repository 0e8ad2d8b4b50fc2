/-
MonitoredCompile/Proofs/Run/Capture.lean

The file that a tool's streams are led to.  As long as the tool touches it only
through its streams, it holds what the tool has written, in the order in which it
was written, whichever of the two streams that was (`run_capture`).  A tool whose
streams lead elsewhere leaves it as it is (`run_holds`).
-/
import MonitoredCompile.Proofs.FileSystem.Overwrite
import MonitoredCompile.Proofs.Run.Launch

namespace MonitoredCompile

/-! ### What a tool has written and left alone -/

/-- The bytes that went to either stream. -/
def Event.bytes : Event → Bytes
  | .wrote _ bytes => bytes
  | .changed _ _ => []

/-- All that a tool wrote, to both streams. -/
def Call.allWritten (call : Call) : Bytes := call.events.flatMap Event.bytes

/-- A change that leaves what a path names, and the open files there. -/
structure Untouched (path : String) (before after : FileSystem) : Prop where
  found : ∀ l node, before.find path false = .ok (l, node) ↔ after.find path false = .ok (l, node)
  opened : ∀ l node, before.find path false = .ok (l, node) → ∀ (handle : Nat) (o : OpenFile),
    o.location = some l → (before.opened[handle]? = some o ↔ after.opened[handle]? = some o)

/-- The tool touches what the path names only through its streams. -/
def LeavesAlone (path : String) (events : List Event) : Prop :=
  ∀ before after, Event.changed before after ∈ events → Untouched path before after

theorem LeavesAlone.tail {path : String} {event : Event} {events : List Event}
    (h : LeavesAlone path (event :: events)) : LeavesAlone path events :=
  fun before after hevent => h before after (List.mem_cons_of_mem event hevent)

/-- Tells of something that a tool has done whether a file is where it was, and as
it was. -/
def Event.keepsFile (path : String) : Event → Bool
  | .wrote _ _ => true
  | .changed before after =>
    match before.find path false, after.find path false with
    | .ok (l, .file f), .ok (l', .file f') => l = l' && f = f' && before.opened = after.opened
    | _, _ => false

theorem LeavesAlone.of_keepsFile {path : String} {events : List Event}
    (h : events.all (Event.keepsFile path) = true) : LeavesAlone path events := by
  intro before after hevent
  have hkeeps := List.all_eq_true.mp h _ hevent
  unfold Event.keepsFile at hkeeps
  dsimp only at hkeeps
  split at hkeeps
  · next hbefore hafter =>
    simp only [Bool.and_eq_true, decide_eq_true_eq] at hkeeps
    obtain ⟨⟨rfl, rfl⟩, hopened⟩ := hkeeps
    refine ⟨fun l node => ?_, fun l node _ handle o _ => ?_⟩
    · rw [hbefore, hafter]
    · rw [hopened]
  · cases hkeeps

/-- Whatever the path names is a file with these bytes. -/
def FileSystem.Holds (fs : FileSystem) (path : String) (bytes : Bytes) : Prop :=
  ∀ l node, fs.find path false = .ok (l, node) → ∃ f : File, node = .file f ∧ f.bytes = bytes

namespace Behaviour

open FileSystem (WritesAtEnd)

variable {path : String} {l : Location}

/-- What a tool writes is added to the file, in order. -/
theorem run_capture (tool : Behaviour) {handle : Nat} {old : Bytes} {s : Surroundings}
    (h : WritesAtEnd s.files path l handle old)
    (hleft : LeavesAlone path (tool.events (fun _ => .file handle) s)) :
    WritesAtEnd (tool.run (fun _ => .file handle) s).2.files path l handle
      (old ++ (tool.events (fun _ => .file handle) s).flatMap Event.bytes) := by
  induction tool generalizing old s with
  | exit status =>
    rw [run, events, List.flatMap_nil, List.append_nil]
    exact h
  | emit stream bytes next ih =>
    rw [events] at hleft
    rw [run, events, List.flatMap_cons, ← List.append_assoc]
    exact ih (h.writeOpen bytes) hleft.tail
  | act change sound next ih =>
    rw [events] at hleft
    have hsame := hleft _ _ List.mem_cons_self
    -- The file and the handle are what they were, so the next write is at the end.
    obtain ⟨⟨f, hbytes, hfind⟩, hopened⟩ := h
    rw [run, events, List.flatMap_cons]
    refine ih s.files ⟨⟨f, hbytes, (hsame.found _ _).mp hfind⟩, ?_⟩ hleft.tail
    exact (hsame.opened _ _ hfind _ _ rfl).mp hopened

/-- What a tool writes elsewhere does not change the file. -/
theorem run_holds (tool : Behaviour) {bytes : Bytes} {s : Surroundings} (h : s.files.Holds path bytes)
    (hleft : LeavesAlone path (tool.events Launch.ownRoutes s)) :
    (tool.run Launch.ownRoutes s).2.files.Holds path bytes := by
  induction tool generalizing s with
  | exit status => exact h
  | emit stream new next ih =>
    rw [events] at hleft
    rw [run]
    refine ih ?_ hleft.tail
    cases stream <;> exact h
  | act change sound next ih =>
    rw [events] at hleft
    have hsame := hleft _ _ List.mem_cons_self
    rw [run]
    exact ih s.files (fun l node hfind => h l node ((hsame.found l node).mpr hfind)) hleft.tail

end Behaviour

namespace FileSystem

variable {fs fs' : FileSystem} {path : String} {l : Location} {f : File}

/-- What a path names is what it is opened as: links are followed, but this is none. -/
theorem place_of_find {node : Node} (hfind : fs.find path false = .ok (l, node))
    (hlink : ∀ target, node ≠ .link target) {place : Place}
    (ht : fs.target path true = .ok (.name place false)) : place = ⟨l, some node⟩ := by
  obtain ⟨⟨-, here, hhere, hleads⟩, hget⟩ := find_eq_ok_iff.mp hfind
  obtain ⟨hslash, -, ⟨-, here', hhere', hleads'⟩, hnode⟩ := target_eq_name_iff.mp ht
  rw [hhere] at hhere'
  cases hhere'
  rw [steps, ← hslash, if_neg Bool.false_ne_true, List.append_nil] at hleads
  have hfollows := hleads.follows fun target htarget => by
    rw [entryAt_of_get? hget, Option.some.injEq, Node.entry_eq_link] at htarget
    exact hlink target htarget
  obtain rfl : place.location = l := hleads'.unique hfollows
  rw [← show place.node = some node from hnode.trans hget]

/-- A file opened for writing is empty, and the handle is at its end. -/
theorem writesAtEnd_of_openTruncated {handle : Nat}
    (hfind : fs.find path false = .ok (l, .file f))
    (hopen : fs.openTruncated path = .ok (fs', handle)) : fs'.WritesAtEnd path l handle [] := by
  rw [openTruncated, openWith] at hopen
  cases ht : fs.target path true with
  | error r => rw [ht] at hopen; cases hopen
  | ok t =>
    rw [ht] at hopen
    cases t with
    | root | here | above => cases hopen
    | name place slash =>
      cases slash with
      | true => cases hopen
      | false =>
        obtain rfl := place_of_find hfind (by simp) ht
        dsimp only at hopen
        -- An empty file is left as it is, any other is written over.
        split at hopen <;> cases hopen
        · next hempty => exact ⟨⟨f, hempty.symm, hfind⟩, List.getElem?_concat_length⟩
        · exact ⟨⟨f.overwrite [], rfl, find_overwrite hfind _⟩, List.getElem?_concat_length⟩

end FileSystem

end MonitoredCompile

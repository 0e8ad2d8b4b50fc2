/-
MonitoredCompile/Proofs/Run/Redirection.lean

Where the output of a stage goes.  A policy for each of the two streams says it
(`Launch.destination`), and if the stage starts, every byte that its tool writes arrives there
once and in the order of writing: at one of the host's own streams, nowhere, or in a file
that holds nothing else after that (`outcome_of_runStage`).  Two streams with one destination
share it as the tool interleaves them, and it does not matter whether this is said by merging
them or by naming the same file twice.

A file keeps what it is sent as long as nobody else writes to it: not the tool, by its name,
not the log, and not the other stream under another name of the file (`Separate`).
-/
import MonitoredCompile.Proofs.FileSystem.Opening
import MonitoredCompile.Proofs.Run.Capture
import MonitoredCompile.Proofs.Run.Configuration
import MonitoredCompile.Proofs.Run.Preservation

namespace MonitoredCompile

open Attempt (exec exec_bind exec_bind_eq_ok)
open FileSystem (Elsewhere Opening Sink)

/-! ### The log -/

section

variable {h : Host} (site : Log.Site) (level : Log.Level)

theorem Host.note_opened (message : String) :
    (h.note site level message).files.opened = h.files.opened := by
  let Kept (after : Host) : Prop := after.files.opened = h.files.opened
  refine h.note_cases site level message (show Kept h from rfl) (fun _ => rfl)
    (fun handle bytes _ _ => ?_) fun _ => rfl
  exact h.files.appendOpen_cases (P := fun files => files.opened = h.files.opened) handle bytes rfl
    fun _ _ _ _ => rfl

theorem Host.logsAt_note {l : Location} (message : String) :
    (h.note site level message).LogsAt l ↔ h.LogsAt l := by
  rw [Host.LogsAt, Host.LogsAt, (h.note_log _ _ _).1, Host.note_opened]

theorem Host.note_stdout (message : String) : (h.note site level message).stdout = h.stdout := by
  let Kept (after : Host) : Prop := after.stdout = h.stdout
  exact h.note_cases site level message (show Kept h from rfl) (fun _ => rfl) (fun _ _ _ _ => rfl)
    fun _ => rfl

/-- What is logged goes to the standard error stream only if the log does. -/
theorem Host.note_stderr (message : String) : ∃ logged,
    (h.note site .debug message).stderr = h.stderr ++ logged ∧
      ((h.log.enabled site.logger .debug = true → h.log.handler ≠ some .stderr) → logged = []) := by
  have hsame : ∃ logged, h.stderr = h.stderr ++ logged ∧
      ((h.log.enabled site.logger .debug = true → h.log.handler ≠ some .stderr) → logged = []) :=
    ⟨[], (List.append_nil _).symm, fun _ => rfl⟩
  rw [Host.note]
  split
  · next henabled =>
    rw [Host.handle]
    dsimp only
    split
    · next hhandler => exact ⟨_, rfl, fun hno => absurd hhandler (hno henabled)⟩
    · exact hsame
    · exact hsame
    · exact hsame
  · exact hsame

/-- A path leads where it led. -/
theorem Host.find_note_location {path : String} {l : Location} {node : Node}
    (message : String) (hfind : h.files.find path = .ok (l, node)) :
    ∃ node', (h.note site level message).files.find path = .ok (l, node') := by
  obtain ⟨hshape, hcwd⟩ := h.sameShape_note site level message
  obtain ⟨node', hnode', -⟩ := hshape.get?_eq_some (FileSystem.find_eq_ok_iff.mp hfind).2
  refine ⟨node', ?_⟩
  rw [hshape.find_eq hcwd, hfind]
  dsimp only
  rw [show (h.note site level message).files.get? l = some node' from hnode']

/-- What a path leads to is as it was after a line is logged, if the log is elsewhere. -/
theorem Host.find_note {site : Log.Site} {level : Log.Level} {path : String} {l : Location} {node : Node}
    (hfind : h.files.find path = .ok (l, node)) (hplain : node.entry.Plain)
    (hlog : (∃ f, node = .file f) → h.log.enabled site.logger level = true → ¬ h.LogsAt l)
    (message : String) :
    (h.note site level message).files.find path = .ok (l, node) := by
  refine h.note_cases (P := fun after => after.files.find path = .ok (l, node)) site level message
    hfind (fun _ => hfind) (fun handle bytes hhandler henabled => ?_) fun _ => hfind
  refine FileSystem.find_appendOpen hfind hplain (fun hfile o ho hl => hlog hfile henabled ?_) bytes
  exact ⟨handle, hhandler, by rw [ho]; exact hl⟩

end

/-! ### What a tool writes -/

/-- All that a tool wrote to this place, in the order in which it was written. -/
def Call.sentTo {α : Type} [DecidableEq α] (call : Call) (goes : Stream → α) (place : α) : Bytes :=
  call.events.flatMap (Event.bytesTo goes place)

/-- It matters which streams lead to a place, not how the place is called. -/
theorem Call.sentTo_congr {α β : Type} [DecidableEq α] [DecidableEq β] {goes : Stream → α}
    {goes' : Stream → β} {place : α} {place' : β}
    (h : ∀ stream, goes stream = place ↔ goes' stream = place') (call : Call) :
    call.sentTo goes place = call.sentTo goes' place' := by
  refine congrArg (fun f => call.events.flatMap f) (funext fun event => ?_)
  cases event with
  | wrote stream bytes => simp only [Event.bytesTo, h stream]
  | changed => rfl

/-- A change that leaves what a path leads to, and the handles that are open there. -/
structure LeavesSink (path : String) (before after : FileSystem) : Prop where
  found : ∀ l node, before.find path = .ok (l, node) → after.find path = .ok (l, node)
  opened : ∀ l node, before.find path = .ok (l, node) → ∀ (handle : Nat) (o : OpenFile),
    o.location = some l → (before.opened[handle]? = some o ↔ after.opened[handle]? = some o)

/-- The tool itself does nothing to what the path leads to. -/
def KeepsOff (path : String) (events : List Event) : Prop :=
  ∀ before after, Event.changed before after ∈ events → LeavesSink path before after

theorem LeavesSink.elsewhere {path : String} {before after : FileSystem} {l : Location} {node : Node}
    {handle : Nat} (h : LeavesSink path before after) (hfind : before.find path = .ok (l, node))
    (helse : before.Elsewhere handle l) : after.Elsewhere handle l :=
  fun o ho hl => helse o ((h.opened l node hfind handle o hl).mpr ho) hl

theorem KeepsOff.tail {path : String} {event : Event} {events : List Event}
    (h : KeepsOff path (event :: events)) : KeepsOff path events :=
  fun before after hevent => h before after (List.mem_cons_of_mem event hevent)

namespace Behaviour

variable {routes : Stream → Route} {path : String} {l : Location}

/-- A single write: it stands at the end of the file if its stream leads there, and leaves the
file alone otherwise. -/
theorem deliver_sink {handle : Nat} {old : Bytes} {s : Surroundings} {stream : Stream}
    (h : Sink s.files path l handle old)
    (hothers : ∀ other, routes stream = .file other → other ≠ handle → s.files.Elsewhere other l)
    (bytes : Bytes) :
    Sink (s.deliver bytes (routes stream)).files path l handle
        (old ++ Event.bytesTo routes (.file handle) (.wrote stream bytes)) ∧
      ∀ other, s.files.Elsewhere other l →
        (s.deliver bytes (routes stream)).files.Elsewhere other l := by
  rw [Event.bytesTo]
  cases hroute : routes stream with
  | stdout | stderr | nowhere =>
    rw [if_neg (by simp), List.append_nil]
    exact ⟨h, fun _ helse => helse⟩
  | file other =>
    refine ⟨?_, fun _ helse => helse.writeOpen bytes⟩
    by_cases hsame : other = handle
    · subst hsame
      rw [if_pos rfl]
      exact h.writeOpen bytes
    · rw [if_neg (by simpa using hsame), List.append_nil]
      exact h.writeOpen_other hsame (hothers other hroute hsame) bytes

/-- A file gets what is led to it, and no other handle is open there. -/
theorem run_sink (tool : Behaviour) {handle : Nat} {old : Bytes} {s : Surroundings}
    (h : Sink s.files path l handle old)
    (hothers : ∀ stream other, routes stream = .file other → other ≠ handle →
      s.files.Elsewhere other l)
    (hoff : KeepsOff path (tool.events routes s)) :
    Sink (tool.run routes s).2.files path l handle
        (old ++ (tool.events routes s).flatMap (Event.bytesTo routes (.file handle))) ∧
      ∀ other, s.files.Elsewhere other l → (tool.run routes s).2.files.Elsewhere other l := by
  induction tool generalizing old s with
  | exit status =>
    rw [run, events, List.flatMap_nil, List.append_nil]
    exact ⟨h, fun _ helse => helse⟩
  | emit stream bytes next ih =>
    rw [events] at hoff
    -- The file is a bit longer now, so the induction goes on with other old bytes.
    obtain ⟨hsink, hkept⟩ := deliver_sink h (hothers stream) bytes
    obtain ⟨hsink', hkept'⟩ := ih hsink
      (fun stream' other hroute hne => hkept other (hothers stream' other hroute hne)) hoff.tail
    rw [run, events, List.flatMap_cons, ← List.append_assoc]
    exact ⟨hsink', fun other helse => hkept' other (hkept other helse)⟩
  | act change sound next ih =>
    rw [events] at hoff
    have hleaves := hoff _ _ List.mem_cons_self
    obtain ⟨⟨f, hbytes, hfind⟩, hopened⟩ := h
    -- The file and the handles there are what they were.
    have hsink : Sink (change s.files) path l handle old :=
      ⟨⟨f, hbytes, hleaves.found l _ hfind⟩, (hleaves.opened l _ hfind handle _ rfl).mp hopened⟩
    have hkept (other : Nat) (helse : s.files.Elsewhere other l) :
        (change s.files).Elsewhere other l := hleaves.elsewhere hfind helse
    obtain ⟨hsink', hkept'⟩ := ih s.files (s := { s with files := change s.files }) hsink
      (fun stream' other hroute hne => hkept other (hothers stream' other hroute hne)) hoff.tail
    rw [run, events, List.flatMap_cons]
    exact ⟨hsink', fun other helse => hkept' other (hkept other helse)⟩

/-- A device stays what it is. -/
theorem run_device (tool : Behaviour) {s : Surroundings}
    (h : s.files.find path = .ok (l, .device)) (hoff : KeepsOff path (tool.events routes s)) :
    (tool.run routes s).2.files.find path = .ok (l, .device) := by
  induction tool generalizing s with
  | exit status => exact h
  | emit stream bytes next ih =>
    rw [events] at hoff
    refine ih ?_ hoff.tail
    cases routes stream with
    | stdout | stderr | nowhere => exact h
    | file handle =>
      exact FileSystem.find_writeOpen h FileSystem.plain_device (by simp) bytes
  | act change sound next ih =>
    rw [events] at hoff
    have hleaves := hoff _ _ List.mem_cons_self
    exact ih s.files (s := { s with files := change s.files }) (hleaves.found l _ h) hoff.tail

end Behaviour

namespace Launch

/-! ### Where the streams go -/

/-- Where the output of a stage arrives. -/
inductive Destination where
  | stdout
  | stderr
  | nowhere
  | file (path : String)
  deriving DecidableEq, Repr

/-- Where a policy sends a stream; `own` is the stream of the host that is inherited. -/
def Policy.destination (own : Destination) : Policy → Destination
  | .discard => .nowhere
  | .file path => .file path
  | _ => own

/-- Where two policies send the two streams. -/
def destination (out err : Policy) : Stream → Destination
  | .output => out.destination .stdout
  | .errors =>
    match err with
    | .merge => out.destination .stdout
    | policy => policy.destination .stderr

theorem destination_errors {out err : Policy} (h : err ≠ .merge) :
    destination out err .errors = err.destination .stderr := by
  cases err with
  | merge => exact absurd rfl h
  | discard | «inherit» | file path | unknown value => rfl

/-- The path is one of the files that the policies name. -/
def IsSink (out err : Policy) (path : String) : Prop :=
  ∃ stream, destination out err stream = .file path

theorem Policy.destination_eq_file {own : Destination} (hown : ∀ path, own ≠ .file path)
    {policy : Policy} {path : String} : policy.destination own = .file path ↔ policy = .file path := by
  cases policy with
  | file q => simp [Policy.destination]
  | discard => simp [Policy.destination]
  | «inherit» | merge | unknown value => simpa [Policy.destination] using hown path

theorem isSink_iff {out err : Policy} {path : String} :
    IsSink out err path ↔ out = .file path ∨ err = .file path := by
  have hout : destination out err .output = .file path ↔ out = .file path :=
    Policy.destination_eq_file (by simp)
  constructor
  · rintro ⟨stream, h⟩
    cases stream with
    | output => exact .inl (hout.mp h)
    | errors =>
      by_cases hmerge : err = .merge
      · subst hmerge
        exact .inl (hout.mp h)
      · rw [destination_errors hmerge] at h
        exact .inr ((Policy.destination_eq_file (by simp)).mp h)
  · rintro (h | rfl)
    · exact ⟨.output, hout.mpr h⟩
    · exact ⟨.errors, rfl⟩

/-- The same file twice is one file. -/
theorem destination_sharedErrors (out err : Policy) :
    destination out (sharedErrors out err) = destination out err := by
  unfold sharedErrors
  split
  · next p q =>
    split
    · next hsame =>
      subst hsame
      funext stream
      cases stream <;> rfl
    · rfl
  · rfl

/-- The route to a destination, if the files have these handles. -/
def Destination.route (handles : String → Nat) : Destination → Route
  | .stdout => .stdout
  | .stderr => .stderr
  | .nowhere => .nowhere
  | .file path => .file (handles path)

/-! ### Opening the routes -/

/-- The file that a path leads to is open under the handle, and under no other that a stream
of the tool is led to; or the path leads to a device. -/
def Receives (fs : FileSystem) (routes : Stream → Route) (handle : Nat) (path : String) : Prop :=
  (∃ l, Sink fs path l handle [] ∧
    ∀ stream other, routes stream = .file other → other ≠ handle → fs.Elsewhere other l) ∨
  ∃ l, fs.find path = .ok (l, .device)

/-- Different files of the policies are different files. -/
def Distinct (out err : Policy) (fs : FileSystem) : Prop :=
  ∀ p q, IsSink out err p → IsSink out err q → p ≠ q → ∀ l node l' node',
    fs.find p = .ok (l, node) → fs.find q = .ok (l', node') → l ≠ l'

/-- A file that was opened, with the file system after that. -/
structure OpenedAs (fs : FileSystem) (path : String) (handle : Nat) (fs' : FileSystem) : Prop where
  handle_eq : handle = fs.opened.length
  opens : ∃ opened o, Opening fs path opened o ∧
    fs' = { opened with opened := fs.opened ++ [⟨o, 0⟩] }

/-- Opening a route opens the file that the policy names, or nothing. -/
theorem openRoute_eq_ok {own : Route} {policy : Policy} {route : Route} {h h' : Host}
    (hok : exec (openRoute own policy) h = (.ok route, h')) :
    (∃ path handle files, policy = .file path ∧ route = .file handle ∧
        OpenedAs h.files path handle files ∧ h' = { h with files }) ∨
      (∀ path, policy ≠ .file path) ∧ h' = h ∧ ∀ (handles : String → Nat) (dest : Destination),
        own = dest.route handles → route = (policy.destination dest).route handles := by
  cases policy with
  | file path =>
    rw [exec_openRoute_file] at hok
    cases hopen : h.files.openTruncated path with
    | error r =>
      rw [hopen] at hok
      cases hok
    | ok opened =>
      obtain ⟨files, handle⟩ := opened
      rw [hopen] at hok
      cases hok
      obtain ⟨hhandle, hopens⟩ := FileSystem.openTruncated_cases hopen
      exact .inl ⟨path, handle, files, rfl, rfl, ⟨hhandle, hopens⟩, rfl⟩
  | discard =>
    cases hok
    exact .inr ⟨nofun, rfl, fun _ _ _ => rfl⟩
  | «inherit» | merge | unknown value =>
    cases hok
    exact .inr ⟨nofun, rfl, fun _ _ hown => hown⟩

/-- What is open after that: nothing is written yet, and a handle with no file is a device's. -/
theorem OpenedAs.sink {fs fs' : FileSystem} {path : String} {handle : Nat}
    (h : OpenedAs fs path handle fs') :
    (∃ l, Sink fs' path l handle []) ∨
      (∃ l, fs'.find path = .ok (l, .device)) ∧ ∀ l, fs'.Elsewhere handle l := by
  obtain ⟨rfl, opened, o, hopens, rfl⟩ := h
  obtain ⟨l, f, rfl, hempty, hfind⟩ | ⟨l, rfl, hfind⟩ := hopens.find
  · exact .inl ⟨l, ⟨f, hempty, hfind⟩, List.getElem?_concat_length⟩
  · refine .inr ⟨⟨l, hfind⟩, fun _ o ho => ?_⟩
    cases List.getElem?_concat_length.symm.trans ho
    simp

section

variable {fs fs₁ fs₂ : FileSystem} {p q : String} {n m : Nat} {routes : Stream → Route}

/-- A file that is open already stays empty and alone at its place, if another file is opened
next to it. -/
theorem OpenedAs.sink_other {l : Location} (h : OpenedAs fs q m fs₁) (hsink : Sink fs p l n [])
    (hother : ∀ node l' node', fs₁.find p = .ok (l, node) → fs₁.find q = .ok (l', node') → l ≠ l') :
    Sink fs₁ p l n [] ∧ fs₁.Elsewhere m l := by
  obtain ⟨⟨f, hempty, hfind⟩, hhandle⟩ := hsink
  obtain ⟨rfl, opened, o, hopens, rfl⟩ := h
  obtain ⟨node, hfind₁, hsame⟩ := hopens.find_other hfind (.file f)
  -- The new handle is at the place of the other file, or a device's and at none.
  have ho : o ≠ some l := by
    obtain ⟨l', f', rfl, -, hfind'⟩ | ⟨l', rfl, -⟩ := hopens.find
    · exact fun hl => hother node l' _ hfind₁ hfind' (Option.some.inj hl).symm
    · simp
  have hlt : n < fs.opened.length := (List.getElem?_eq_some_iff.mp hhandle).1
  refine ⟨⟨⟨f, hempty, hsame (fun _ => ho) ▸ hfind₁⟩, ?_⟩, fun o' ho' => ?_⟩
  · exact (List.getElem?_append_left hlt).trans hhandle
  · cases List.getElem?_concat_length.symm.trans ho'
    exact ho

/-- Opening another file makes no file of a device. -/
theorem OpenedAs.find_device {l : Location} (h : OpenedAs fs q m fs₁)
    (hfind : fs.find p = .ok (l, .device)) : fs₁.find p = .ok (l, .device) := by
  obtain ⟨-, opened, o, hopens, rfl⟩ := h
  obtain ⟨node, hfind₁, hsame⟩ := hopens.find_other hfind FileSystem.plain_device
  exact hsame (by simp) ▸ hfind₁

theorem OpenedAs.elsewhere {l : Location} (h : OpenedAs fs q m fs₁) (hlt : n < fs.opened.length)
    (helse : fs.Elsewhere n l) : fs₁.Elsewhere n l := by
  obtain ⟨-, opened, o, -, rfl⟩ := h
  exact fun o' ho' => helse o' ((List.getElem?_append_left hlt).symm.trans ho')

/-- Only one file was opened. -/
theorem receives_of_openedAs (h : OpenedAs fs p n fs₁)
    (honly : ∀ stream other, routes stream = .file other → other = n) : Receives fs₁ routes n p := by
  obtain ⟨l, hsink⟩ | ⟨hdevice, -⟩ := h.sink
  · exact .inl ⟨l, hsink, fun stream other hroute hne => absurd (honly stream other hroute) hne⟩
  · exact .inr hdevice

/-- Two files were opened one after the other, and they are different files. -/
theorem receives_of_openedAs_both (hp : OpenedAs fs p n fs₁) (hq : OpenedAs fs₁ q m fs₂)
    (hdistinct : ∀ l node l' node', fs₂.find p = .ok (l, node) → fs₂.find q = .ok (l', node') → l ≠ l')
    (honly : ∀ stream other, routes stream = .file other → other = n ∨ other = m) :
    Receives fs₂ routes n p ∧ Receives fs₂ routes m q := by
  have hlt : n < fs₁.opened.length := by
    obtain ⟨rfl, opened, o, -, rfl⟩ := hp
    simp
  have hsecond (l' : Location) (hsink : Sink fs₂ q l' m []) (helse : fs₂.Elsewhere n l') :
      Receives fs₂ routes m q := by
    refine .inl ⟨l', hsink, fun stream other hroute hne => ?_⟩
    obtain rfl | rfl := honly stream other hroute
    · exact helse
    · exact absurd rfl hne
  -- Either of the two may be a device, which receives whatever is open elsewhere.
  obtain ⟨l, hsink⟩ | ⟨⟨l, hdevice⟩, helse⟩ := hp.sink
  · obtain ⟨hsink', hother⟩ := hq.sink_other hsink fun _ _ _ => hdistinct l _ _ _
    refine ⟨.inl ⟨l, hsink', fun stream other hroute hne => ?_⟩, ?_⟩
    · obtain rfl | rfl := honly stream other hroute
      · exact absurd rfl hne
      · exact hother
    · obtain ⟨l', hsink''⟩ | ⟨hdevice', -⟩ := hq.sink
      · refine hsecond l' hsink'' fun o ho hl => ?_
        obtain ⟨⟨f, -, hfind⟩, hopened⟩ := hsink'
        obtain ⟨⟨f', -, hfind'⟩, -⟩ := hsink''
        cases hopened.symm.trans ho
        exact hdistinct l _ l' _ hfind hfind' (Option.some.inj hl)
      · exact .inr hdevice'
  · refine ⟨.inr ⟨l, hq.find_device hdevice⟩, ?_⟩
    obtain ⟨l', hsink'⟩ | ⟨hdevice', -⟩ := hq.sink
    · exact hsecond l' hsink' (hq.elsewhere hlt (helse l'))
    · exact .inr hdevice'

end

/-- The routes lead where the policies say, each file by a handle of its own. -/
structure Led (out err : Policy) (routes : Stream → Route) (fs : FileSystem)
    (handles : String → Nat) : Prop where
  routes_eq : ∀ stream, routes stream = (destination out err stream).route handles
  handles_inj : ∀ p q, IsSink out err p → IsSink out err q → handles p = handles q → p = q
  receives : Distinct out err fs → ∀ path, IsSink out err path → Receives fs routes (handles path) path

theorem Destination.route_eq_file {handles : String → Nat} {dest : Destination} {handle : Nat}
    (h : dest.route handles = .file handle) : ∃ path, dest = .file path ∧ handle = handles path := by
  cases dest with
  | file path =>
    cases h
    exact ⟨path, rfl, rfl⟩
  | stdout | stderr | nowhere => cases h

namespace Led

variable {out err : Policy} {routes : Stream → Route} {fs fs₁ fs₂ : FileSystem} {p q : String}
  {n m : Nat}

theorem of_none (hroutes : ∀ stream, routes stream = (destination out err stream).route fun _ => 0)
    (hno : ∀ path, ¬ IsSink out err path) : Led out err routes fs fun _ => 0 where
  routes_eq := hroutes
  handles_inj p _ hp := absurd hp (hno p)
  receives _ p hp := absurd hp (hno p)

/-- One file is opened, and it is the only one that is named: by one of the policies, or for both
streams when they are merged. -/
theorem of_one (hp : OpenedAs fs p n fs₁)
    (hroutes : ∀ stream, routes stream = (destination out err stream).route fun _ => n)
    (honly : ∀ path, IsSink out err path → p = path) : Led out err routes fs₁ fun _ => n where
  routes_eq := hroutes
  handles_inj q q' hq hq' _ := (honly q hq).symm.trans (honly q' hq')
  receives _ path hpath := by
    obtain rfl := honly path hpath
    refine receives_of_openedAs hp fun stream other hroute => ?_
    obtain ⟨_, -, hother⟩ := Destination.route_eq_file ((hroutes stream).symm.trans hroute)
    exact hother

/-- Two files are opened, first that of the standard output, and each has a handle of its own
since the second handle is a new one. -/
theorem of_both (hpq : p ≠ q) (hp : OpenedAs fs p n fs₁) (hq : OpenedAs fs₁ q m fs₂)
    (hout : routes .output = .file n) (herr : routes .errors = .file m) :
    Led (.file p) (.file q) routes fs₂ fun path => if path = p then n else m where
  routes_eq stream := by
    cases stream with
    | output => simpa [destination, Policy.destination, Destination.route] using hout
    | errors => simpa [destination, Policy.destination, Destination.route, hpq.symm] using herr
  handles_inj path path' hpath hpath' := by
    have hnm : n ≠ m := by
      obtain ⟨rfl, -⟩ := hq
      obtain ⟨rfl, opened, o, -, rfl⟩ := hp
      simp
    obtain hpath | hpath := isSink_iff.mp hpath <;> obtain hpath' | hpath' := isSink_iff.mp hpath' <;>
      cases hpath <;> cases hpath' <;> simp [hpq.symm, hnm, hnm.symm]
  receives hdistinct path hpath := by
    have hsinkP : IsSink (.file p) (.file q) p := isSink_iff.mpr (.inl rfl)
    have hsinkQ : IsSink (.file p) (.file q) q := isSink_iff.mpr (.inr rfl)
    have honly (stream : Stream) (other : Nat) (hroute : routes stream = .file other) :
        other = n ∨ other = m := by
      cases stream with
      | output =>
        cases hout.symm.trans hroute
        exact .inl rfl
      | errors =>
        cases herr.symm.trans hroute
        exact .inr rfl
    obtain ⟨hreceivesP, hreceivesQ⟩ := receives_of_openedAs_both hp hq
      (hdistinct p q hsinkP hsinkQ hpq) honly
    obtain hpath | hpath := isSink_iff.mp hpath <;> cases hpath
    · rwa [if_pos rfl]
    · rwa [if_neg hpq.symm]

end Led

/-- The route of the standard output is opened first.  The standard error stream then takes the
same one or has its own opened. -/
theorem openRoutes_eq_ok {out err : Policy} {routes : Stream → Route} {h h' : Host}
    (hok : exec (openRoutes out err) h = (.ok routes, h')) :
    ∃ h₁, exec (openRoute .stdout out) h = (.ok (routes .output), h₁) ∧
      (err = .merge ∧ routes .errors = routes .output ∧ h' = h₁ ∨
        err ≠ .merge ∧ exec (openRoute .stderr err) h₁ = (.ok (routes .errors), h')) := by
  obtain ⟨output, h₁, hout, hrest⟩ := exec_bind_eq_ok.mp hok
  cases err with
  | merge =>
    cases hrest
    exact ⟨_, hout, .inl ⟨rfl, rfl, rfl⟩⟩
  | discard | «inherit» | file path | unknown value =>
    obtain ⟨errors, h₂, herr, hpure⟩ := exec_bind_eq_ok.mp hrest
    cases hpure
    exact ⟨h₁, hout, .inr ⟨by simp, herr⟩⟩

/-- Every file that the policies name is opened, and the streams are led there. -/
theorem led_of_openRoutes {out err : Policy} {routes : Stream → Route} {h h' : Host}
    (hne : ∀ path, out = .file path → err ≠ .file path)
    (hok : exec (openRoutes out err) h = (.ok routes, h')) :
    ∃ files handles, h' = { h with files } ∧ Led out err routes files handles := by
  obtain ⟨h₁, hout, herr⟩ := openRoutes_eq_ok hok
  -- Each of the two policies names a file or does not; merged streams have only the first.
  obtain ⟨p, n, files, rfl, houtRoute, hp, rfl⟩ | ⟨houtNone, rfl, houtRoute⟩ := openRoute_eq_ok hout
  · obtain ⟨rfl, hsame, rfl⟩ | ⟨hmerge, herr⟩ := herr
    · refine ⟨_, _, rfl, .of_one hp (fun stream => ?_) fun path hpath => ?_⟩
      · cases stream with
        | output => exact houtRoute
        | errors => exact hsame.trans houtRoute
      · simpa [isSink_iff] using hpath
    · obtain ⟨q, m, files', rfl, herrRoute, hq, rfl⟩ | ⟨herrNone, rfl, herrRoute⟩ :=
        openRoute_eq_ok herr
      · exact ⟨_, _, rfl, .of_both (fun hpq => hne p rfl (hpq ▸ rfl)) hp hq houtRoute herrRoute⟩
      · refine ⟨_, _, rfl, .of_one hp (fun stream => ?_) fun path hpath => ?_⟩
        · cases stream with
          | output => exact houtRoute
          | errors => exact (destination_errors hmerge).symm ▸ herrRoute _ .stderr rfl
        · simpa [isSink_iff, herrNone path] using hpath
  · obtain ⟨rfl, hsame, rfl⟩ | ⟨hmerge, herr⟩ := herr
    · refine ⟨_, _, rfl, .of_none (fun stream => ?_) fun path hpath => ?_⟩
      · cases stream with
        | output => exact houtRoute _ .stdout rfl
        | errors => exact hsame.trans (houtRoute _ .stdout rfl)
      · simp [isSink_iff, houtNone path] at hpath
    · obtain ⟨q, m, files', rfl, herrRoute, hq, rfl⟩ | ⟨herrNone, rfl, herrRoute⟩ :=
        openRoute_eq_ok herr
      · refine ⟨_, _, rfl, .of_one hq (fun stream => ?_) fun path hpath => ?_⟩
        · cases stream with
          | output => exact houtRoute _ .stdout rfl
          | errors => exact herrRoute
        · simpa [isSink_iff, houtNone path] using hpath
      · refine ⟨_, _, rfl, .of_none (fun stream => ?_) fun path hpath => ?_⟩
        · cases stream with
          | output => exact houtRoute _ .stdout rfl
          | errors => exact (destination_errors hmerge).symm ▸ herrRoute _ .stderr rfl
        · simp [isSink_iff, houtNone path, herrNone path] at hpath

/-! ### The tool -/

/-- As soon as the streams are led there, what a tool sends to a place arrives. -/
theorem Led.sentTo {out err : Policy} {routes : Stream → Route} {fs : FileSystem}
    {handles : String → Nat} (h : Led out err routes fs handles) (call : Call) (dest : Destination)
    (hdest : ∀ path, dest = .file path → IsSink out err path) :
    call.sentTo routes (dest.route handles) = call.sentTo (destination out err) dest := by
  refine Call.sentTo_congr (fun stream => ?_) call
  rw [h.routes_eq stream]
  constructor
  · intro hroute
    cases hgoes : destination out err stream with
    | file path =>
      rw [hgoes] at hroute
      -- Two files with one handle are the same, so no output goes to the wrong one.
      obtain ⟨path', rfl, hhandle⟩ := Destination.route_eq_file hroute.symm
      exact congrArg _ (h.handles_inj _ _ ⟨stream, hgoes⟩ (hdest _ rfl) hhandle)
    | stdout | stderr | nowhere =>
      rw [hgoes] at hroute
      cases dest <;> first | rfl | cases hroute
  · rintro rfl
    rfl

/-- What a tool sends to the streams of the host stands at their ends, in the order in which it
was written. -/
theorem executeOn_streams (h : Host) (routes : Stream → Route) (program : String)
    (args : List String) :
    (executeOn h routes program args).2.stdout
        = h.stdout ++ (callOn h routes program args).sentTo routes .stdout ∧
      (executeOn h routes program args).2.stderr
        = h.stderr ++ (callOn h routes program args).sentTo routes .stderr :=
  Behaviour.run_streams (h.programs program args) routes ⟨h.files, h.stdout, h.stderr⟩

/-- A file that receives what a tool writes holds that after it has run, and nothing else. -/
theorem Receives.ran {h : Host} {routes : Stream → Route} {program path : String}
    {args : List String} {handle : Nat} (hreceives : Receives h.files routes handle path)
    (hoff : KeepsOff path (callOn h routes program args).events) :
    (∃ l, h.files.find path = .ok (l, .device) ∧
      (executeOn h routes program args).2.files.find path = .ok (l, .device)) ∨
    ∃ l f f', h.files.find path = .ok (l, .file f) ∧
      (executeOn h routes program args).2.files.find path = .ok (l, .file f') ∧
      f'.bytes = (callOn h routes program args).sentTo routes (.file handle) ∧
      ∀ other, h.files.Elsewhere other l →
        (executeOn h routes program args).2.files.Elsewhere other l := by
  obtain ⟨l, hsink, hothers⟩ | ⟨l, hdevice⟩ := hreceives
  · obtain ⟨⟨⟨f', hbytes, hfind'⟩, -⟩, helse⟩ := Behaviour.run_sink (h.programs program args)
      (s := ⟨h.files, h.stdout, h.stderr⟩) hsink hothers hoff
    obtain ⟨⟨f, -, hfind⟩, -⟩ := hsink
    exact .inr ⟨l, f, f', hfind, hfind', hbytes, helse⟩
  · exact .inl ⟨l, hdevice, Behaviour.run_device (h.programs program args)
      (s := ⟨h.files, h.stdout, h.stderr⟩) hdevice hoff⟩

/-! ### The stage -/

/-- Nobody but the streams writes to the files that the policies name: they are different
files, the tool touches none of them by its name, and the log is elsewhere. -/
structure Separate (out err : Policy) (h : Host) (call : Call) : Prop where
  distinct : Distinct out err h.files
  untouched : ∀ path, IsSink out err path → KeepsOff path call.events
  unlogged : h.log.enabled popenSite.logger .debug = true → ∀ path l node, IsSink out err path →
    h.files.find path = .ok (l, node) → ¬ h.LogsAt l

/-- What a tool wrote has arrived where the policies send it.  `before` is the host before
the stage, `h` the host when the tool was started. -/
structure Arrived (out err : Policy) (before h : Host) (call : Call) (after : Host) : Prop where
  stdout : after.stdout = before.stdout ++ call.sentTo (destination out err) .stdout
  /-- Only the log puts something before and after it. -/
  stderr : ∃ early late,
    after.stderr = before.stderr ++ early ++ call.sentTo (destination out err) .stderr ++ late ∧
      ((before.log.enabled popenSite.logger .debug = true → before.log.handler ≠ some .stderr) →
        early = [] ∧ late = [])
  files : Separate out err h call → ∀ path, IsSink out err path → ∃ l,
    after.files.find path = .ok (l, .device) ∨
      ∃ f, after.files.find path = .ok (l, .file f) ∧
        f.bytes = call.sentTo (destination out err) (.file path)

/-- A file that is open for a stream still is when a line is logged elsewhere. -/
theorem Receives.note {h : Host} {routes : Stream → Route} {handle : Nat} {path : String}
    (hreceives : Receives h.files routes handle path) {site : Log.Site} {level : Log.Level}
    (hlog : h.log.enabled site.logger level = true → ∀ l node, h.files.find path = .ok (l, node) →
      ¬ h.LogsAt l) (message : String) :
    Receives (h.note site level message).files routes handle path := by
  have hopened := Host.note_opened (h := h) site level message
  obtain ⟨l, ⟨⟨f, hempty, hfind⟩, hhandle⟩, hothers⟩ | ⟨l, hdevice⟩ := hreceives
  · have hfind' := h.find_note hfind (.file f) (fun _ hon => hlog hon l _ hfind) message
    refine .inl ⟨l, ⟨⟨f, hempty, hfind'⟩, hopened ▸ hhandle⟩, fun stream other hroute hne o ho => ?_⟩
    exact hothers stream other hroute hne o (hopened ▸ ho)
  · exact .inr ⟨l, h.find_note hdevice FileSystem.plain_device (by simp) message⟩

/-- A line that is logged does not tell files apart that were one. -/
theorem Distinct.of_note {out err : Policy} {h : Host} {site : Log.Site} {level : Log.Level}
    {message : String} (hdistinct : Distinct out err (h.note site level message).files) :
    Distinct out err h.files := by
  intro p q hp hq hne l node l' node' hfind hfind'
  obtain ⟨_, hnoted⟩ := Host.find_note_location site level message hfind
  obtain ⟨_, hnoted'⟩ := Host.find_note_location site level message hfind'
  exact hdistinct p q hp hq hne _ _ _ _ hnoted hnoted'

/-- When the tool starts, every file that the policies name is open and waits for its output. -/
theorem Separate.receives {out err : Policy} {h : Host} {routes : Stream → Route}
    {handles : String → Nat} {message : String} {call : Call}
    (hsep : Separate out err (h.note popenSite .debug message) call)
    (hled : Led out err routes h.files handles) {path : String} (hpath : IsSink out err path) :
    Receives (h.note popenSite .debug message).files routes (handles path) path := by
  refine (hled.receives hsep.distinct.of_note path hpath).note (fun hon l node hfind hat => ?_) message
  obtain ⟨node', hfind'⟩ := Host.find_note_location popenSite .debug message hfind
  refine hsep.unlogged ?_ path l node' hpath hfind' ((Host.logsAt_note popenSite .debug message).mpr hat)
  rwa [(h.note_log _ _ _).2]

/-- When the tool has run, the files are closed and the last line is logged, a file that waited
for its output holds it. -/
theorem Receives.arrived {before h : Host} {routes : Stream → Route} {program path : String}
    {args : List String} {handle : Nat} (hreceives : Receives h.files routes handle path)
    (hoff : KeepsOff path (callOn h routes program args).events)
    (hlog : h.log.enabled stageSite.logger .debug = true → ∀ l node,
      h.files.find path = .ok (l, node) → ¬ h.LogsAt l) (message : String) {after : Host}
    (hafter : after = (closeAfter before (executeOn h routes program args).2).note stageSite .debug
      message) :
    ∃ l, after.files.find path = .ok (l, .device) ∨
      ∃ f, after.files.find path = .ok (l, .file f) ∧
        f.bytes = (callOn h routes program args).sentTo routes (.file handle) := by
  have hclosed {l : Location} {node : Node}
      (hfind : (executeOn h routes program args).2.files.find path = .ok (l, node)) :
      (closeAfter before (executeOn h routes program args).2).files.find path = .ok (l, node) :=
    (FileSystem.find_opened _ _ _ _).trans hfind
  subst hafter
  obtain ⟨l, -, hfind⟩ | ⟨l, f, f', hfind, hfind', hbytes, helse⟩ := hreceives.ran hoff
  · exact ⟨l, .inl (Host.find_note (hclosed hfind) FileSystem.plain_device (by simp) message)⟩
  · refine ⟨l, .inr ⟨f', Host.find_note (hclosed hfind') (.file f') ?_ message, hbytes⟩⟩
    rintro - hon ⟨log, hhandler, hat⟩
    obtain ⟨o, ho, hl⟩ := Option.bind_eq_some_iff.mp hat
    -- The tool has not brought the log there: it was not there when the tool was started.
    have hstill : (executeOn h routes program args).2.files.Elsewhere log l := by
      refine helse log fun o ho hl => hlog hon l _ hfind ⟨log, hhandler, ?_⟩
      rw [ho]
      exact hl
    have htake : ((executeOn h routes program args).2.files.opened.take _)[log]? = some o := ho
    rw [List.getElem?_take] at htake
    split at htake
    · exact hstill o htake hl
    · cases htake

namespace Policy

/-- Says where the standard output of a stage goes. -/
def ForOutput (policy : Policy) : Prop :=
  policy = .discard ∨ policy = .inherit ∨ ∃ path, policy = .file path

/-- Says where the standard error stream of a stage goes. -/
def ForErrors (policy : Policy) : Prop := policy = .merge ∨ policy.ForOutput

theorem isForOutput_iff {policy : Policy} : policy.isForOutput = true ↔ policy.ForOutput := by
  cases policy <;> simp [isForOutput, ForOutput]

theorem isForErrors_iff {policy : Policy} : policy.isForErrors = true ↔ policy.ForErrors := by
  cases policy <;> simp [isForErrors, ForErrors, ForOutput, isForOutput]

end Policy

/-- A stage whose policies are refused has not opened or run anything. -/
theorem exec_runStage_refused {out err : Policy} {h : Host} {command : List String}
    {failure : Failure}
    (hcheck : exec (checkPolicies out err) (h.handOver command)
      = (.error failure, h.handOver command)) :
    exec (runStage command out err) h = (.error failure, h.handOver command) := by
  have hchange : exec (Run.change fun h => { h with commands := h.commands ++ [command] }) h
      = (.ok (), h.handOver command) := rfl
  rw [runStage, exec_bind, hchange]
  dsimp only
  rw [exec_bind, hcheck]

theorem exec_checkPolicies_output {out : Policy} (hout : ¬ out.ForOutput) (err : Policy) (h : Host) :
    exec (checkPolicies out err) h = (.error (.invalidPolicy "stdout" out.shown), h) := by
  rw [← Policy.isForOutput_iff, Bool.not_eq_true] at hout
  rw [checkPolicies, hout]
  rfl

theorem exec_checkPolicies_errors {out err : Policy} (hout : out.ForOutput) (herr : ¬ err.ForErrors)
    (h : Host) : exec (checkPolicies out err) h = (.error (.invalidPolicy "stderr" err.shown), h) := by
  rw [← Policy.isForOutput_iff] at hout
  rw [← Policy.isForErrors_iff, Bool.not_eq_true] at herr
  rw [checkPolicies, hout, herr]
  rfl

/-- The same file for both streams is the file of the merged streams. -/
theorem exec_runStage_same (command : List String) (path : String) (h : Host) :
    exec (runStage command (.file path) (.file path)) h
      = exec (runStage command (.file path) .merge) h := by
  rw [exec_runStage rfl rfl, exec_runStage rfl rfl, sharedErrors, if_pos rfl]
  rfl

theorem path?_sharedErrors (out err : Policy) :
    out.path?.or (sharedErrors out err).path? = out.path?.or err.path? := by
  unfold sharedErrors
  split
  · split <;> rfl
  · rfl

/-- The same file twice is never opened twice. -/
theorem sharedErrors_ne {out err : Policy} {path : String} (hout : out = .file path) :
    sharedErrors out err ≠ .file path := by
  subst hout
  unfold sharedErrors
  split
  · next p q hout =>
    cases hout
    split
    · simp
    · next hne => simpa using fun h => hne h.symm
  · next hnot => exact fun herr => hnot path path rfl herr

theorem Led.of_sharedErrors {out err : Policy} {routes : Stream → Route} {fs : FileSystem}
    {handles : String → Nat} (h : Led out (sharedErrors out err) routes fs handles) :
    Led out err routes fs handles := by
  obtain ⟨hroutes, hinj, hreceives⟩ := h
  simp only [Distinct, IsSink, destination_sharedErrors] at hroutes hinj hreceives
  exact ⟨hroutes, hinj, hreceives⟩

/-- The output of a stage that has started arrives. -/
theorem arrived_of_ready {command args : List String} {out err : Policy} {before h : Host}
    {routes : Stream → Route} {program : String}
    (hready : exec (ready command out (sharedErrors out err)) (before.handOver command)
      = (.ok (routes, program, args), h)) (message : String) :
    Arrived out err before h (callOn h routes program args)
      ((closeAfter before (executeOn h routes program args).2).note stageSite .debug message) := by
  obtain ⟨-, h₁, text, hroutes, rfl⟩ := ready_eq_ok hready
  obtain ⟨files, handles, rfl, hled⟩ :=
    led_of_openRoutes (fun _ hout => sharedErrors_ne hout) hroutes
  have hled := hled.of_sharedErrors
  let opened : Host := { before.handOver command with files }
  let started := opened.note popenSite .debug text
  obtain ⟨hout, herr⟩ := executeOn_streams started routes program args
  refine ⟨?_, ?_, fun hsep path hpath => ?_⟩
  · rw [← hled.sentTo _ .stdout (by simp), Host.note_stdout]
    exact hout.trans (congrArg (· ++ _) (Host.note_stdout popenSite .debug text))
  · rw [← hled.sentTo _ .stderr (by simp)]
    obtain ⟨early, hearly, hnoEarly⟩ := Host.note_stderr (h := opened) popenSite text
    obtain ⟨late, hlate, hnoLate⟩ := Host.note_stderr stageSite
      (h := closeAfter before (executeOn started routes program args).2) message
    refine ⟨early, late, hlate.trans (congrArg (· ++ late) ?_), fun hno => ⟨hnoEarly hno, hnoLate ?_⟩⟩
    · exact herr.trans (congrArg (· ++ _) hearly)
    · -- The log is the one that there was at first.
      obtain ⟨hhandler, henabled⟩ := opened.note_log popenSite .debug text
      exact fun hon => hhandler.trans_ne (hno ((henabled _ _).symm.trans hon))
  · rw [← hled.sentTo _ (.file path) fun _ hp => by cases hp; exact hpath]
    exact (hsep.receives hled hpath).arrived (hsep.untouched path hpath)
      (fun hon l node => hsep.unlogged hon path l node hpath) message rfl

/-! ### All stages -/

/-- What a stage does, for all commands and policies.  Policies that do not say where a stream
goes are refused, and nothing is opened or run.  If the stage starts otherwise, the tool is run
that the command leads to, its status is reported as it is, and its output arrives. -/
theorem outcome_of_runStage (command : List String) (out err : Policy) (before : Host) :
    (¬ out.ForOutput → exec (runStage command out err) before
      = (.error (.invalidPolicy "stdout" out.shown), before.handOver command)) ∧
    (out.ForOutput → ¬ err.ForErrors → exec (runStage command out err) before
      = (.error (.invalidPolicy "stderr" err.shown), before.handOver command)) ∧
    (out.ForOutput → err.ForErrors → ∀ routes program args h,
      exec (ready command out (sharedErrors out err)) (before.handOver command)
        = (.ok (routes, program, args), h) →
      ∃ after, exec (runStage command out err) before
          = (.ok ⟨(callOn h routes program args).status, out.path?.or err.path?, command⟩, after) ∧
        (∃ word, command = word :: args ∧ findProgram h word = .ok program) ∧
        after.commands = before.commands ++ [command] ∧
        after.calls = before.calls ++ [callOn h routes program args] ∧
        Arrived out err before h (callOn h routes program args) after) ∧
    ∀ path, exec (runStage command (.file path) (.file path)) before
      = exec (runStage command (.file path) .merge) before := by
  refine ⟨fun hout => ?_, fun hout herr => ?_, fun hout herr routes program args h hready => ?_, ?_⟩
  · exact exec_runStage_refused (exec_checkPolicies_output hout err _)
  · exact exec_runStage_refused (exec_checkPolicies_errors hout herr _)
  · have hrun := exec_runStage (Policy.isForOutput_iff.mpr hout) (Policy.isForErrors_iff.mpr herr)
      command before
    rw [hready, path?_sharedErrors] at hrun
    have hrecord : SameRecord (before.handOver command) h :=
      (works_ready background_sameRecord _ _ _).state hready
    have hnoted := background_sameRecord.note (.inl rfl)
      (closeAfter before (executeOn h routes program args).2) stageSite
      ("runStage rc = " ++ toString (callOn h routes program args).status)
    refine ⟨_, hrun, program_of_ready hready, ?_, ?_, arrived_of_ready hready _⟩
    · exact hnoted.1.trans hrecord.1
    · exact hnoted.2.trans (congrArg (· ++ _) hrecord.2)
  · exact fun path => exec_runStage_same command path before

/-- A host with a tool that writes to both streams in turn and is killed by a signal. -/
def chattyHost : Host where
  files := ⟨.dir [
      ("bin", .dir [("tool", .file { bytes := [], executable := true, program := some "tool" })]),
      ("work", .dir [("err", .file { bytes := [0x2A] })])], some ["work"], []⟩
  programs _ _ := .emit .output [0x31] (.emit .errors [0x32] (.emit .output [0x33] (.exit (-15))))
  scratchDir := "/tmp"

theorem outcome_chattyHost :
    ∃ after, exec (runStage ["/bin/tool"] (.file "out") (.file "err")) chattyHost
        = (.ok ⟨-15, some "out", ["/bin/tool"]⟩, after) ∧
      (∃ l f, after.files.find "out" = .ok (l, .file f) ∧ f.bytes = [0x31, 0x33]) ∧
      ∃ l f, after.files.find "err" = .ok (l, .file f) ∧ f.bytes = [0x32] := by
  have hout : Policy.ForOutput (.file "out") := .inr (.inr ⟨_, rfl⟩)
  have herr : Policy.ForErrors (.file "err") := .inr (.inr (.inr ⟨_, rfl⟩))
  obtain ⟨after, hrun, -, -, -, -, -, hfiles⟩ :=
    (outcome_of_runStage ["/bin/tool"] (.file "out") (.file "err") chattyHost).2.2.1 hout herr
      _ _ _ _ rfl
  have hsinks := hfiles
    { distinct := by
        intro p q hp hq hne l node l' node' hfind hfind'
        obtain hp | hp := isSink_iff.mp hp <;> cases hp <;>
          obtain hq | hq := isSink_iff.mp hq <;> cases hq
        · exact absurd rfl hne
        · cases hfind
          cases hfind'
          decide
        · cases hfind
          cases hfind'
          decide
        · exact absurd rfl hne
      untouched := by
        intro path _ fs fs' hevent
        rcases hevent with _ | ⟨_, _ | ⟨_, _ | ⟨_, ⟨⟩⟩⟩⟩
      unlogged := by
        rintro - path l node - - ⟨handle, hhandler, -⟩
        cases hhandler }
  have hfile (path : String) (hpath : IsSink (.file "out") (.file "err") path)
      (hplain : ∀ l, (exec (runStage ["/bin/tool"] (.file "out") (.file "err")) chattyHost).2.files.find
        path ≠ .ok (l, .device)) : ∃ l f, after.files.find path = .ok (l, .file f) ∧
          f.bytes = (Call.sentTo ⟨"tool", [], [.wrote .output [0x31], .wrote .errors [0x32],
            .wrote .output [0x33]], -15⟩ (destination (.file "out") (.file "err")) (.file path)) := by
    rw [hrun] at hplain
    obtain ⟨l, hdevice | ⟨f, hfind, hbytes⟩⟩ := hsinks path hpath
    · exact absurd hdevice (hplain l)
    · exact ⟨l, f, hfind, hbytes⟩
  refine ⟨after, hrun, ?_, ?_⟩
  · exact hfile "out" (isSink_iff.mpr (.inl rfl)) fun l hdevice => by cases hdevice
  · exact hfile "err" (isSink_iff.mpr (.inr rfl)) fun l hdevice => by cases hdevice

end Launch

end MonitoredCompile

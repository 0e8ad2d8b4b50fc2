/-
MonitoredCompile/Proofs/Run/Replay.lean

Replaying files to a stream, whatever they hold and wherever the log goes.

A replay is a loop over files, and for each over its lines, but what comes of it is a
law about whole files (`flush_copies`): to what had been written to the stream, with the
text that was waiting there, is added what each file held, in order, with an end after the
last line.  The first file that cannot be read ends the replay, after all that comes of those
before it and nothing else.

Before each file a debugging line is logged.  It matters twice.  A log on the standard error
stream is `heard` among the diagnostics; and a file is read when the line about it has been
logged (`Found`), which is the same unless the file is that of the log.
-/
import MonitoredCompile.Proofs.Run.Refusal
import MonitoredCompile.Proofs.Run.Remainder

namespace MonitoredCompile

open Attempt (exec exec_bind exec_pure)

namespace Diagnostics

open Pipeline (flushing exec_replay_cons)

/-! ### Bytes -/

theorem endLine_eq_self {bytes : Bytes} (h : bytes = [] ∨ bytes.getLast? = some 0x0A) :
    endLine bytes = bytes := by
  rcases h with rfl | h
  · rfl
  · simp [endLine, h]

theorem endLine_eq_append {bytes : Bytes} (hne : bytes ≠ [])
    (hend : bytes.getLast? ≠ some 0x0A) : endLine bytes = bytes ++ [0x0A] := by
  rw [endLine]
  cases hlast : bytes.getLast? with
  | none => exact absurd (List.getLast?_eq_none_iff.mp hlast) hne
  | some last =>
    have hlf : last ≠ 0x0A := fun h => hend (by rw [hlast, h])
    exact if_neg hlf

/-- Cutting into lines loses nothing. -/
theorem flatten_lines (bytes : Bytes) : (lines bytes).flatten = bytes := by
  induction bytes with
  | nil => rfl
  | cons b rest ih =>
    by_cases hb : b = 0x0A
    · rw [hb, lines_cons_end, List.flatten_cons, ih]
      rfl
    · cases rest with
      | nil => simp [lines, hb]
      | cons next rest =>
        obtain ⟨line, more, hlines⟩ := List.exists_cons_of_ne_nil (lines_ne_nil next rest)
        rw [hlines, List.flatten_cons] at ih
        rw [lines_cons hb hlines, List.flatten_cons, List.cons_append, ih]

/-- After the end of a line another begins. -/
theorem lines_append {bytes : Bytes} (h : bytes = [] ∨ bytes.getLast? = some 0x0A) (more : Bytes) :
    lines (bytes ++ more) = lines bytes ++ lines more := by
  induction bytes with
  | nil => rfl
  | cons b rest ih =>
    by_cases hrest : rest = []
    · obtain rfl : b = 0x0A := by simpa [hrest] using h
      rw [hrest, List.singleton_append, lines_cons_end, lines_cons_end]
      rfl
    · have hend : rest.getLast? = some 0x0A := by
        rcases h with h | h
        · cases h
        · rwa [List.getLast?_cons_of_ne_nil hrest] at h
      have hlines := ih (.inr hend)
      by_cases hb : b = 0x0A
      · rw [hb, List.cons_append, lines_cons_end, lines_cons_end, hlines]
        rfl
      · obtain ⟨next, rest', rfl⟩ := List.exists_cons_of_ne_nil hrest
        obtain ⟨line, others, hfirst⟩ := List.exists_cons_of_ne_nil (lines_ne_nil next rest')
        rw [hfirst, List.cons_append] at hlines
        rw [List.cons_append, List.cons_append, lines_cons hb hlines, lines_cons hb hfirst]
        rfl

/-- What has an end after its last line is empty or ends there. -/
theorem endLine_ended (bytes : Bytes) :
    endLine bytes = [] ∨ (endLine bytes).getLast? = some 0x0A := by
  by_cases h : bytes = [] ∨ bytes.getLast? = some 0x0A
  · rwa [endLine_eq_self h]
  · obtain ⟨hne, hend⟩ := not_or.mp h
    right
    rw [endLine_eq_append hne hend, List.getLast?_concat]

/-- The lines of what has an end after its last line are the lines, each with an end. -/
theorem lines_endLine (bytes : Bytes) : lines (endLine bytes) = (lines bytes).map endLine := by
  induction bytes with
  | nil => rfl
  | cons b rest ih =>
    by_cases hrest : rest = []
    · rw [hrest]
      by_cases hb : b = 0x0A <;> simp [endLine, lines, hb]
    · obtain ⟨next, rest', rfl⟩ := List.exists_cons_of_ne_nil hrest
      obtain ⟨line, others, hfirst⟩ := List.exists_cons_of_ne_nil (lines_ne_nil next rest')
      have hline : line ≠ [] := ne_nil_of_mem_lines (hfirst ▸ List.mem_cons_self)
      rw [hfirst, List.map_cons] at ih
      rw [endLine_cons hrest]
      by_cases hb : b = 0x0A
      · rw [hb, lines_cons_end, lines_cons_end, ih, hfirst]
        rfl
      · rw [lines_cons hb ih, lines_cons hb hfirst, List.map_cons, endLine_cons hline]

/-! ### Outlets -/

namespace Outlet

variable (outlet : Outlet)

/-- What has been written to the stream. -/
def held : Outlet → Host → Bytes
  | .errors _ => Host.stderr
  | .memory => Host.memory

/-- What still waits to be written. -/
def waiting : Outlet → Bytes
  | .errors text => Utf8.encode text
  | .memory => []

/-- The stream when nothing waits. -/
def released : Outlet → Outlet
  | .errors _ => .errors ""
  | .memory => .memory

/-- What is heard on the stream of a debugging line about a source: the line, if it is
logged and the log is on that stream. -/
def heard (h : Host) (source : String) : Bytes :=
  match outlet with
  | .errors _ =>
    if h.log.handler = some .stderr ∧ h.log.enabled site.logger .debug = true then
      Utf8.encode (Log.line h.log.detailed
        ⟨.debug, site, "flushing diagnostics from " ++ source⟩ ++ "\n")
    else []
  | .memory => []

/-- What comes to the stream of sources with what they hold. -/
def copy (h : Host) (copied : List (String × Bytes)) : Bytes :=
  copied.flatMap fun c => outlet.heard h c.1 ++ endLine c.2

theorem held_release (h : Host) : outlet.held (outlet.release h) = outlet.held h ++ outlet.waiting := by
  cases outlet with
  | errors text => rfl
  | memory => exact (List.append_nil _).symm

theorem held_write (h : Host) (bytes : Bytes) :
    outlet.held (outlet.write h bytes) = outlet.held h ++ bytes := by
  cases outlet <;> rfl

theorem write_released : outlet.released.write = outlet.write := by
  cases outlet <;> rfl

theorem release_released : outlet.released.release = id := by
  funext h
  cases outlet with
  | errors text => simp [released, release, Host.inform, Host.writeStderr, Utf8.encode]
  | memory => rfl

/-- Writing line by line is writing all at once, also to memory. -/
theorem copyLines_write (bytes : Bytes) (h : Host) :
    copyLines outlet.write (lines bytes) h = outlet.write h (endLine bytes) := by
  rw [copyLines_eq (fun h => ?_) (fun h a b => ?_), flatMap_endLine_lines]
  · cases outlet <;> simp [write, Host.writeStderr, Host.writeMemory]
  · cases outlet <;> simp [write, Host.writeStderr, Host.writeMemory]

/-- A debugging line is heard on the outlet or not at all. -/
theorem held_flushing (h : Host) (source : String) :
    outlet.held (flushing h source) = outlet.held h ++ outlet.heard h source := by
  cases outlet with
  | errors text =>
    rw [flushing, Host.note, Host.handle]
    by_cases henabled : h.log.enabled site.logger .debug = true
    · rw [if_pos henabled]
      rcases hhandler : h.log.handler with - | (- | handle | -) <;>
        simp [held, heard, hhandler, henabled, Host.writeStderr, Log.Level.rank]
    · simp [held, heard, henabled]
  | memory =>
    refine h.note_cases site .debug _
      (P := fun after => after.memory = h.memory ++ []) ?_ (fun _ => ?_) (fun _ _ _ _ => ?_) fun _ => ?_
    all_goals exact (List.append_nil _).symm

/-- What is heard ends its line. -/
theorem heard_ended (h : Host) (source : String) :
    outlet.heard h source = [] ∨ (outlet.heard h source).getLast? = some 0x0A := by
  cases outlet with
  | errors text =>
    rw [heard]
    split
    · exact .inr (Utf8.getLast?_encode_line _)
    · exact .inl rfl
  | memory => exact .inl rfl

/-- Nothing but the files comes to the outlet, unless that is where debugging lines go. -/
theorem copy_eq (h : Host) (copied : List (String × Bytes)) :
    outlet.copy h copied = copied.flatMap (endLine ·.2) ∨
      (∃ text, outlet = .errors text) ∧ h.log.handler = some .stderr ∧
        h.log.enabled site.logger .debug = true := by
  rw [copy]
  cases outlet with
  | errors text =>
    by_cases hlog : h.log.handler = some .stderr ∧ h.log.enabled site.logger .debug = true
    · exact .inr ⟨⟨text, rfl⟩, hlog⟩
    · simp [heard, hlog]
  | memory => exact .inl rfl

/-- No line on the outlet is of two sources, or of a source and what comes after it. -/
theorem lines_copy (h : Host) (copied : List (String × Bytes)) (more : Bytes) :
    lines (outlet.copy h copied ++ more)
      = (copied.flatMap fun c => lines (outlet.heard h c.1) ++ (lines c.2).map endLine)
        ++ lines more := by
  induction copied with
  | nil => rfl
  | cons c rest ih =>
    show lines ((outlet.heard h c.1 ++ endLine c.2 ++ outlet.copy h rest) ++ more) = _
    rw [List.append_assoc, List.append_assoc, lines_append (outlet.heard_ended h c.1),
      lines_append (endLine_ended c.2), lines_endLine, ih]
    simp only [List.flatMap_cons, List.append_assoc]

end Outlet

/-! ### Sources -/

/-- The world when a line has been logged about each of these sources. -/
def announced (h : Host) (sources : List String) : Host := sources.foldl flushing h

/-- Each source was found to hold these bytes when a line about it, and before that one
about every source before it, had been logged. -/
inductive Found : Host → List (String × Bytes) → Prop
  | nil {h} : Found h []
  | cons {h source bytes rest} : (flushing h source).files.read source = .ok bytes →
      Found (flushing h source) rest → Found h ((source, bytes) :: rest)

theorem logged_flushing (h : Host) (source : String) : Logged h (flushing h source) :=
  .line _ _ .same

theorem logged_announced (h : Host) (sources : List String) : Logged h (announced h sources) := by
  induction sources generalizing h with
  | nil => exact .same
  | cons source rest ih => exact frame_logged.trans (logged_flushing h source) (ih _)

/-- A source was found to hold what it had held from the start, unless it is the file of
the log. -/
theorem Found.read {h : Host} {copied : List (String × Bytes)} (hfound : Found h copied) :
    ∀ c ∈ copied, h.files.read c.1 = .ok c.2 ∨ LogReaches h c.1 := by
  induction hfound with
  | nil =>
    intro c hc
    cases hc
  | @cons h source bytes rest hread _ ih =>
    intro c hc
    refine or_iff_not_imp_right.mpr fun hlog => ?_
    have hsame := (logged_flushing h source).read hlog
    rcases List.mem_cons.mp hc with rfl | hc
    · exact hsame.symm.trans hread
    · have hreach := (logged_flushing h source).not_logReaches hlog
      exact hsame.symm.trans ((ih c hc).resolve_right hreach)

/-- What cannot be read when lines have been logged could not be read before. -/
theorem read_eq_error_of_logged {h h' : Host} (hlogged : Logged h h') {source : String}
    {r : Refusal} (hread : h'.files.read source = .error r) : h.files.read source = .error r := by
  have hlog : ¬ LogReaches h source := by
    rintro ⟨-, handle, l, f, hhandler, hopened, hfind⟩
    -- The file of the log can be read, however much it has grown.
    obtain ⟨g, hg⟩ : ∃ g, h'.files.find source = .ok (l, .file g) := by
      rcases hlogged.files with hfiles | ⟨handle', bytes, hhandler', -, hfiles⟩
      · exact ⟨f, hfiles ▸ hfind⟩
      · obtain rfl : handle' = handle := by
          rw [hhandler] at hhandler'
          cases hhandler'
          rfl
        rw [hfiles]
        refine h.files.appendOpen_cases (P := fun fs => ∃ g, fs.find source = .ok (l, .file g))
          handle' bytes ⟨f, hfind⟩ fun m k hm hget => ?_
        obtain rfl : m = l := Option.some.inj (hm.symm.trans hopened)
        cases hget.symm.trans (FileSystem.find_eq_ok_iff.mp hfind).2
        exact ⟨_, FileSystem.find_overwrite hfind _⟩
    rw [FileSystem.read, hg] at hread
    cases hread
  exact (hlogged.read hlog).symm.trans hread

/-- Which lines are logged, and where, depends on nothing but the files and the log. -/
theorem flushing_congr {h h' : Host} (hfiles : h'.files = h.files) (hlog : h'.log = h.log)
    (source : String) : (flushing h' source).files = (flushing h source).files ∧
      (flushing h' source).log = (flushing h source).log := by
  rw [flushing, flushing, Host.note, Host.note, Host.handle, Host.handle, hlog]
  split
  · dsimp only
    split
    · exact ⟨hfiles, hlog⟩
    · exact ⟨by rw [hfiles], rfl⟩
    · exact ⟨hfiles, rfl⟩
    · split <;> exact ⟨hfiles, hlog⟩
  · exact ⟨hfiles, hlog⟩

theorem announced_congr {h h' : Host} (hfiles : h'.files = h.files) (hlog : h'.log = h.log)
    (sources : List String) : (announced h' sources).files = (announced h sources).files := by
  induction sources generalizing h h' with
  | nil => exact hfiles
  | cons source rest ih =>
    obtain ⟨hfiles', hlog'⟩ := flushing_congr hfiles hlog source
    exact ih hfiles' hlog'

theorem Found.congr {h h' : Host} (hfiles : h'.files = h.files) (hlog : h'.log = h.log)
    {copied : List (String × Bytes)} (hfound : Found h' copied) : Found h copied := by
  induction hfound generalizing h with
  | nil => exact .nil
  | cons hread _ ih =>
    obtain ⟨hfiles', hlog'⟩ := flushing_congr hfiles hlog _
    exact .cons (hfiles' ▸ hread) (ih hfiles' hlog')

/-! ### Replaying -/

variable (outlet : Outlet)

namespace Outlet

theorem files_write (h : Host) (bytes : Bytes) : (outlet.write h bytes).files = h.files := by
  cases outlet <;> rfl

theorem log_write (h : Host) (bytes : Bytes) : (outlet.write h bytes).log = h.log := by
  cases outlet <;> rfl

theorem files_release (h : Host) : (outlet.release h).files = h.files := by
  cases outlet <;> rfl

theorem log_release (h : Host) : (outlet.release h).log = h.log := by
  cases outlet <;> rfl

theorem heard_congr {h h' : Host} (hlog : h'.log = h.log) : outlet.heard h' = outlet.heard h := by
  funext source
  cases outlet with
  | errors text =>
    show (if h'.log.handler = _ ∧ _ then _ else _) = _
    rw [hlog]
    rfl
  | memory => rfl

/-- Lines that are logged do not change which are heard. -/
theorem heard_flushing (h : Host) (source : String) :
    outlet.heard (flushing h source) = outlet.heard h := by
  obtain ⟨hhandler, henabled⟩ :=
    h.note_log site .debug ("flushing diagnostics from " ++ source)
  have hdetailed : (flushing h source).log.detailed = h.log.detailed :=
    h.note_cases site .debug _ (P := fun after => after.log.detailed = h.log.detailed)
      rfl (fun _ => rfl) (fun _ _ _ _ => rfl) fun _ => rfl
  funext other
  cases outlet with
  | errors text =>
    show (if (flushing h source).log.handler = _ ∧ (flushing h source).log.enabled _ _ = _ then _
      else _) = _
    rw [flushing, hhandler, henabled, ← flushing, hdetailed]
    rfl
  | memory => rfl

end Outlet

/-- A replay copies what the sources are found to hold, up to the first that cannot be read. -/
theorem replay_copies (sources : List String) (h : Host) :
    ∃ copied h', Found h copied ∧
      ((sources = copied.map (·.1) ∧ exec (replay outlet.write sources) h = (.ok (), h') ∧
          outlet.held h' = outlet.held h ++ outlet.copy h copied) ∨
        ∃ source later r, sources = copied.map (·.1) ++ source :: later ∧
          (announced h (copied.map (·.1) ++ [source])).files.read source = .error r ∧
          exec (replay outlet.write sources) h
            = (.error (.file (FileOp.faultAt source r)), h') ∧
          outlet.held h' = outlet.held h ++ (outlet.copy h copied ++ outlet.heard h source)) := by
  induction sources generalizing h with
  | nil => exact ⟨[], h, .nil, .inl ⟨rfl, rfl, (List.append_nil _).symm⟩⟩
  | cons source rest ih =>
    rw [exec_replay_cons outlet.copyLines_write]
    cases hread : (flushing h source).files.read source with
    | error r =>
      refine ⟨[], flushing h source, .nil, .inr ⟨source, rest, r, rfl, hread, rfl, ?_⟩⟩
      exact outlet.held_flushing h source
    | ok bytes =>
      dsimp only
      set next := outlet.write (flushing h source) (endLine bytes) with hnext
      have hfiles : next.files = (flushing h source).files := outlet.files_write _ _
      have hlog : next.log = (flushing h source).log := outlet.log_write _ _
      have hheard : outlet.heard next = outlet.heard h := by
        rw [outlet.heard_congr hlog, outlet.heard_flushing]
      have hheld (copied : List (String × Bytes)) :
          outlet.held next ++ outlet.copy next copied
            = outlet.held h ++ outlet.copy h ((source, bytes) :: copied) := by
        rw [hnext, outlet.held_write, outlet.held_flushing, ← hnext, Outlet.copy, Outlet.copy, hheard,
          List.flatMap_cons, List.append_assoc, List.append_assoc, List.append_assoc]
      obtain ⟨copied, h', hfound, hends⟩ := ih next
      refine ⟨(source, bytes) :: copied, h', .cons hread (hfound.congr hfiles hlog), ?_⟩
      rcases hends with ⟨rfl, hexec, hwritten⟩ | ⟨last, later, r, rfl, hlast, hexec, hwritten⟩
      · exact .inl ⟨rfl, hexec, hwritten.trans (hheld copied)⟩
      · refine .inr ⟨last, later, r, rfl, ?_, hexec, ?_⟩
        · exact (congrArg (FileSystem.read · last) (announced_congr hfiles hlog _)).symm.trans hlast
        · rw [hwritten, ← List.append_assoc, hheld, hheard, List.append_assoc]

/-- Sources may be copied in two goes; in the second nothing waits. -/
theorem flush_append (first second : List String) :
    flush outlet (first ++ second) = (do
      flush outlet first
      flush outlet.released second) := by
  have hreplay : replay outlet.write (first ++ second)
      = replay outlet.write first >>= fun _ => replay outlet.write second := by
    induction first with
    | nil => rw [List.nil_append, replay, pure_bind]
    | cons source rest ih =>
      rw [List.cons_append, replay, replay, ih]
      simp only [bind_assoc]
  have hsecond : flush outlet.released second = replay outlet.write second := by
    rw [flush, outlet.release_released, outlet.write_released]
    rfl
  rw [hsecond, flush, flush, hreplay, bind_assoc]

/-- **Replaying is concatenation.**  To what the outlet holds and what waits there, a replay
adds what each source was found to hold, in order and with an end after its last line, up to
the first source that cannot be read, which it fails for; a log on the outlet is heard in
between.  Every source was found to hold what it had held, unless it is the log file.
So sources may be copied in two goes, no line is of two sources, and nothing but the
end of a last line is added to the bytes of a source. -/
theorem flush_copies (outlet : Outlet) :
    (∀ sources h, ∃ copied h', Found h copied ∧
      (∀ c ∈ copied, h.files.read c.1 = .ok c.2 ∨ LogReaches h c.1) ∧
      ((sources = copied.map (·.1) ∧ exec (flush outlet sources) h = (.ok (), h') ∧
          outlet.held h' = outlet.held h ++ outlet.waiting ++ outlet.copy h copied) ∨
        ∃ source later r, sources = copied.map (·.1) ++ source :: later ∧
          h.files.read source = .error r ∧
          exec (flush outlet sources) h = (.error (.file (FileOp.faultAt source r)), h') ∧
          outlet.held h' = outlet.held h ++ outlet.waiting
            ++ (outlet.copy h copied ++ outlet.heard h source))) ∧
    (∀ h copied, outlet.copy h copied = copied.flatMap (endLine ·.2) ∨
      (∃ text, outlet = .errors text) ∧ h.log.handler = some .stderr ∧
        h.log.enabled site.logger .debug = true) ∧
    (∀ first second, flush outlet (first ++ second) = (do
      flush outlet first
      flush outlet.released second)) ∧
    (∀ h copied more, lines (outlet.copy h copied ++ more)
      = (copied.flatMap fun c => lines (outlet.heard h c.1) ++ (lines c.2).map endLine)
        ++ lines more) ∧
    (∀ bytes, (lines bytes).flatten = bytes ∧
      (endLine bytes = bytes ∧ (bytes = [] ∨ bytes.getLast? = some 0x0A) ∨
        endLine bytes = bytes ++ [0x0A] ∧ bytes ≠ [] ∧ bytes.getLast? ≠ some 0x0A)) := by
  refine ⟨fun sources h => ?_, outlet.copy_eq, flush_append outlet, outlet.lines_copy, fun bytes => ?_⟩
  · have hfiles := outlet.files_release h
    have hlog := outlet.log_release h
    have hflush : exec (flush outlet sources) h
        = exec (replay outlet.write sources) (outlet.release h) := by
      rw [flush, exec_bind, Run.exec_change]
    obtain ⟨copied, h', hfound, hends⟩ := replay_copies outlet sources (outlet.release h)
    have hheard := outlet.heard_congr hlog
    have hcopy : outlet.copy (outlet.release h) copied = outlet.copy h copied := by
      rw [Outlet.copy, Outlet.copy, hheard]
    have hfound' : Found h copied := hfound.congr hfiles hlog
    rw [hflush]
    refine ⟨copied, h', hfound', hfound'.read, ?_⟩
    rw [hcopy, hheard, outlet.held_release] at hends
    rcases hends with ⟨hsources, hexec, hwritten⟩ | ⟨source, later, r, hsources, hread, hexec, hwritten⟩
    · exact .inl ⟨hsources, hexec, hwritten⟩
    · rw [announced_congr hfiles hlog] at hread
      have hbefore := read_eq_error_of_logged (logged_announced h _) hread
      exact .inr ⟨source, later, r, hsources, hbefore, hexec, hwritten⟩
  · refine ⟨flatten_lines bytes, ?_⟩
    by_cases hend : bytes = [] ∨ bytes.getLast? = some 0x0A
    · exact .inl ⟨endLine_eq_self hend, hend⟩
    · obtain ⟨hne, hlast⟩ := not_or.mp hend
      exact .inr ⟨endLine_eq_append hne hlast, hne, hlast⟩

end Diagnostics

end MonitoredCompile

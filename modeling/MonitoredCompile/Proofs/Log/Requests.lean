/-
MonitoredCompile/Proofs/Log/Requests.lean

What becomes of the log when loggers are set up one after the other, each under an
environment and with files of its own.  The first request that succeeds decides for good
where lines go; a request that fails leaves everything as it is, and the next one may
succeed.  Under a name the last level counts that was asked for, and the layout is detailed
as soon as one request has found that debugging lines pass (`configured_of_requests`).

A name without a level takes that of the logger above it, which depends on the names that
were set up and their order.  It is the nearest of the names that it goes on from with a dot,
but not of those that the search goes past (`passedOver_doubleDotted_lateRoot`).

All of this is read off the requests alone.  What a request does to the log is said once
(`configure_of_install`); the rest is an induction over the requests.
-/
import MonitoredCompile.Proofs.Log.Destination
import MonitoredCompile.Proofs.Log.Hierarchy

namespace MonitoredCompile

open Attempt (exec exec_bind exec_get exec_modify)

/-- Bytes of the log go where its handler says. -/
def Host.writeLog (h : Host) : Log.Handler → Bytes → Host
  | .stderr, bytes => h.writeStderr bytes
  | .file handle, bytes => { h with files := h.files.appendOpen handle bytes }
  | .journal, _ => h

/-- Opening a file adds a handle to those that there are. -/
theorem FileSystem.opened_of_openAppending {fs fs' : FileSystem} {path : String} {handle : Nat}
    (h : fs.openAppending path = .ok (fs', handle)) : fs.opened <+: fs'.opened := by
  rw [openAppending, openWith] at h
  split at h
  · cases h
  · split at h
    · cases h
      exact List.prefix_append _ _
    · next f _ =>
      dsimp only [id] at h
      rw [if_pos rfl] at h
      cases h
      exact List.prefix_append _ _
    · cases h
    · cases h
      exact List.prefix_append _ _
  · cases h

namespace Log

/-! ### Loggers and their levels -/

theorem findLogger_append (name other : String) (loggers : List (String × Option Level)) :
    findLogger name (loggers ++ [(other, none)])
      = (findLogger name loggers).or (if other = name then some none else none) := by
  induction loggers with
  | nil => rfl
  | cons entry rest ih =>
    obtain ⟨n, level⟩ := entry
    rw [List.cons_append, findLogger, findLogger, ih]
    split <;> rfl

theorem findLogger_register (name other : String) (loggers : List (String × Option Level)) :
    findLogger name (register other loggers)
      = if other = name then some (findLogger name loggers).join else findLogger name loggers := by
  rw [register]
  split
  · next hthere =>
    split
    · next hsame =>
      subst hsame
      obtain ⟨level, hfound⟩ := Option.isSome_iff_exists.mp hthere
      rw [hfound]
      rfl
    · rfl
  · next hnew =>
    rw [findLogger_append]
    split
    · next hsame =>
      subst hsame
      rw [Option.not_isSome_iff_eq_none.mp hnew]
      rfl
    · exact Option.or_none

theorem findLogger_setLevel (name other : String) (level : Level)
    (loggers : List (String × Option Level)) :
    findLogger name (setLevel other level loggers)
      = if other = name then (findLogger name loggers).map fun _ => some level
        else findLogger name loggers := by
  induction loggers with
  | nil => simp [setLevel, findLogger]
  | cons entry rest ih =>
    obtain ⟨n, old⟩ := entry
    have hcons : setLevel other level ((n, old) :: rest)
        = (if n = other then (other, some level) else (n, old)) :: setLevel other level rest := rfl
    rw [hcons]
    by_cases hn : n = other
    · subst hn
      rw [if_pos rfl, findLogger, findLogger, ih]
      split <;> rfl
    · rw [if_neg hn, findLogger, findLogger, ih]
      split
      · next hname =>
        subst hname
        rw [if_neg (Ne.symm hn)]
      · rfl

theorem findLogger_isSome_iff (name : String) (loggers : List (String × Option Level)) :
    (findLogger name loggers).isSome = true ↔ name ∈ loggers.map Prod.fst := by
  induction loggers with
  | nil => simp [findLogger]
  | cons entry rest ih =>
    obtain ⟨n, level⟩ := entry
    rw [findLogger, List.map_cons, List.mem_cons, ← ih]
    split
    · next hsame => simp [hsame]
    · next hne => simp [Ne.symm hne]

/-- A level that is given changes no order. -/
theorem names_setLevel (name : String) (level : Level) (loggers : List (String × Option Level)) :
    (setLevel name level loggers).map Prod.fst = loggers.map Prod.fst := by
  rw [setLevel, List.map_map]
  refine List.map_congr_left fun entry _ => ?_
  rw [Function.comp_apply]
  split
  · next hsame => exact hsame.symm
  · rfl

section

variable {log : Log} {name : String} (hroot : isRoot name = false) (level : Option Level)
include hroot

theorem rootLevel_withLogger : (withLogger log name level).rootLevel = log.rootLevel := by
  rw [withLogger, hroot]
  cases level <;> rfl

theorem detailed_withLogger : (withLogger log name level).detailed = log.detailed := by
  rw [withLogger, hroot]
  cases level <;> rfl

/-- A request touches the entry of its own logger, and makes one if there is none. -/
theorem findLogger_withLogger (other : String) :
    findLogger other (withLogger log name level).loggers
      = if name = other then some (level.or (findLogger other log.loggers).join)
        else findLogger other log.loggers := by
  rw [withLogger, hroot]
  cases level with
  | none => exact findLogger_register other name log.loggers
  | some l =>
    show findLogger other (setLevel name l (register name log.loggers)) = _
    rw [findLogger_setLevel, findLogger_register]
    split <;> rfl

/-- A request gives its logger the level that it asks for, and no other logger. -/
theorem ownLevel_withLogger {other : String} (hother : isRoot other = false) :
    (withLogger log name level).ownLevel other
      = if name = other then level.or (log.ownLevel other) else log.ownLevel other := by
  rw [ownLevel, ownLevel, hother, if_neg Bool.false_ne_true, if_neg Bool.false_ne_true,
    findLogger_withLogger hroot]
  split <;> rfl

/-- A new logger comes after those that there are. -/
theorem names_withLogger : (withLogger log name level).names
    = if name ∈ log.names then log.names else log.names ++ [name] := by
  have hregister : (register name log.loggers).map Prod.fst
      = if name ∈ log.names then log.names else log.names ++ [name] := by
    rw [register]
    by_cases hmem : name ∈ log.names
    · rw [if_pos ((findLogger_isSome_iff name _).mpr hmem), if_pos hmem]
      rfl
    · rw [if_neg (mt (findLogger_isSome_iff name _).mp hmem), if_neg hmem]
      exact List.map_append
  rw [withLogger, hroot]
  cases level with
  | none => exact hregister
  | some l => exact (names_setLevel name l _).trans hregister

/-- The root is never put among the loggers. -/
theorem unrooted_withLogger (hlog : log.Unrooted) : (withLogger log name level).Unrooted := by
  have hadded : ∀ entry ∈ register name log.loggers, isRoot entry.1 = false := by
    intro entry hentry
    rw [register] at hentry
    split at hentry
    · exact hlog entry hentry
    · obtain hentry | hentry := List.mem_append.mp hentry
      · exact hlog entry hentry
      · rwa [List.mem_singleton.mp hentry]
  intro entry hentry
  rw [withLogger, hroot] at hentry
  cases level with
  | none => exact hadded entry hentry
  | some l =>
    obtain ⟨old, hold, rfl⟩ := List.mem_map.mp hentry
    split
    · exact hroot
    · exact hadded old hold

end

theorem ownLevel_congr {log log' : Log} (hloggers : log'.loggers = log.loggers) {name : String}
    (hname : isRoot name = false) : log'.ownLevel name = log.ownLevel name := by
  rw [ownLevel, ownLevel, hname, hloggers]
  rfl

/-! ### One request -/

/-- A name that the environment gives as a level and that is none. -/
def invalidLevel? (h : Host) : Option String :=
  if (requestedLevel h).isSome then none else h.setting? levelVariable

/-- The line about a name that is no level's. -/
def complaint (detailed : Bool) (value : String) : Bytes :=
  Utf8.encode (line detailed ⟨.error, setupSite, badLevelMessage value⟩ ++ "\n")

/-- The host after a name that is no level's has been reported. -/
def complained (h : Host) (handler : Handler) : Host :=
  match invalidLevel? h with
  | none => h
  | some value => h.writeLog handler (complaint h.log.detailed value)

/-- The log after a logger was set up, once there is a handler. -/
def adopted (log : Log) (name : String) (level : Option Level) : Log :=
  { withLogger log name level with
    detailed := log.detailed ||
      decide ((withLogger log name level).effectiveLevel name = .debug) }

/-- Everyone may log errors. -/
theorem enabled_error (log : Log) (name : String) : log.enabled name .error = true := by
  rw [enabled]
  cases log.effectiveLevel name <;> rfl

/-- An error goes to the handler, and to no journal if that is none. -/
theorem note_error {h : Host} {handler : Handler} (hhandler : h.log.handler = some handler)
    (hjournal : handler ≠ .journal) (site : Site) (message : String) :
    h.note site .error message
      = h.writeLog handler (Utf8.encode (line h.log.detailed ⟨.error, site, message⟩ ++ "\n")) := by
  rw [Host.note, enabled_error, if_pos rfl, Host.handle, hhandler]
  cases handler with
  | stderr => rfl
  | file handle => rfl
  | journal => exact absurd rfl hjournal

/-- If debugging lines pass, the layout is detailed from then on. -/
theorem detail_eq {h : Host} {log : Log} {name : String} {level : Option Level}
    (hroot : isRoot name = false) (hlog : h.log = withLogger log name level) :
    (if h.log.effectiveLevel name = .debug then { h with log := { h.log with detailed := true } }
      else h) = { h with log := adopted log name level } := by
  have hdetailed : (withLogger log name level).detailed = log.detailed :=
    detailed_withLogger hroot level
  rw [hlog, adopted]
  split
  · next hdebug => rw [decide_eq_true hdebug, Bool.or_true]
  · next hdebug => rw [decide_eq_false hdebug, Bool.or_false, ← hdetailed, ← hlog]

/-- A request that has a handler sets up its logger, and reports a level that is none. -/
theorem configure_of_install {h h₁ : Host} {handler : Handler} {name : String}
    (hinstall : exec installHandler h = (.ok (), h₁)) (hhandler : h₁.log.handler = some handler)
    (hjournal : handler ≠ .journal) (hroot : isRoot name = false) :
    exec (configure name) h
      = (.ok (), { complained h₁ handler with log := adopted h₁.log name (requestedLevel h₁) }) := by
  rw [configure, exec_bind, hinstall]
  dsimp only
  rw [exec_bind, exec_get]
  dsimp only
  rw [exec_bind, exec_modify, complained, invalidLevel?]
  dsimp only
  generalize hadopted : withLogger h₁.log name (requestedLevel h₁) = log
  have hdetailed : log.detailed = h₁.log.detailed :=
    hadopted ▸ detailed_withLogger hroot (requestedLevel h₁)
  have hhandler' : log.handler = some handler := by
    rw [← hadopted, withLogger_handler, hhandler]
  cases hlevel : requestedLevel h₁ with
  | some l =>
    rw [hlevel] at hadopted
    cases h₁.setting? levelVariable with
    | none => exact congrArg _ (detail_eq hroot hadopted.symm)
    | some value => exact congrArg _ (detail_eq hroot hadopted.symm)
  | none =>
    rw [hlevel] at hadopted
    cases h₁.setting? levelVariable with
    | none => exact congrArg _ (detail_eq hroot hadopted.symm)
    | some value =>
      -- The line is written before the layout is changed.
      rw [exec_bind, Run.exec_note, note_error hhandler' hjournal, hdetailed]
      dsimp only
      rw [exec_modify]
      cases handler with
      | stderr => exact congrArg _ (detail_eq hroot hadopted.symm)
      | file handle => exact congrArg _ (detail_eq hroot hadopted.symm)
      | journal => exact absurd rfl hjournal

/-! ### Many requests -/

/-- A request to set up a logger, and the host that it is made on. -/
structure Request where
  host : Host
  name : String

namespace Request

/-- The host that the request leaves. -/
def after (r : Request) : Host := (exec (configure r.name) r.host).2

/-- The request succeeds. -/
def returned (r : Request) : Bool := (exec (configure r.name) r.host).1.isOk

/-- The request goes where its environment says: to the standard error stream, or to the
file of that name, opened under its absolute name. -/
def Destined (r : Request) (handler : Handler) : Prop :=
  (r.host.setting? fileVariable = none ∧ handler = .stderr) ∨
    ∃ path absolute files handle, r.host.setting? fileVariable = some path ∧
      exec (FileOp.absolute path) r.host.files = (.ok absolute, r.host.files) ∧
      r.host.files.openAppending absolute = .ok (files, handle) ∧ handler = .file handle

/-- The host once there is a handler. -/
def opened (r : Request) : Host := { (exec installHandler r.host).2 with log := r.host.log }

end Request

/-- The log that comes of requests that start with a log that nobody has set up.  What else
there is may change from one request to the next. -/
inductive Comes : List Request → Log → Prop
  | start : Comes [] {}
  | request {requests : List Request} (r : Request) : Comes requests r.host.log →
      isRoot r.name = false → Comes (requests ++ [r]) r.after.log

/-- The last level that was asked for under a name, by a request that succeeded. -/
def lastLevel (requests : List Request) (name : String) : Option Level :=
  (requests.filterMap fun r =>
    if r.returned && decide (r.name = name) then requestedLevel r.host else none).getLast?

/-- The names under which requests that succeeded have set up a logger, in the order in which
each was set up first. -/
def setUpNames (requests : List Request) : List String :=
  ((requests.filter (·.returned)).map (·.name)).eraseDups

/-- What can be said of a log from the requests that it comes of. -/
structure Configured (requests : List Request) (log : Log) : Prop where
  /-- A request fails exactly if it finds no handler and its destination cannot be opened,
  and then it changes nothing. -/
  refused : ∀ r ∈ requests, (r.returned = true ↔ HasDestination r.host) ∧
    (r.returned = false → r.after = r.host)
  /-- Without a request that succeeded there is no handler. -/
  unset : (∀ r ∈ requests, r.returned = false) → log.handler = none
  /-- The handler is the destination of the first request that succeeded. -/
  handler : ∀ failed first rest, requests = failed ++ first :: rest →
    (∀ r ∈ failed, r.returned = false) → first.returned = true →
    ∃ handler, first.Destined handler ∧ log.handler = some handler
  /-- No request closes a file or leads a handle elsewhere. -/
  opened : ∀ r ∈ requests, r.host.files.opened <+: r.after.files.opened
  ownLevel : ∀ name, isRoot name = false → log.ownLevel name = lastLevel requests name
  /-- The level that counts is that of the logger, or else the one that counts for the nearest
  logger above it that a request has set up, or else WARNING. -/
  search : ∀ name, isRoot name = false → log.effectiveLevel name
    = (lastLevel requests name).getD
      (((nearestAbove (setUpNames requests) name).map log.effectiveLevel).getD .warning)
  /-- Where nothing gets in the way of the search, it is the nearest level among the name and
  those that it goes on from with a dot, and WARNING if there is none. -/
  effectiveLevel : ∀ name, Spaced name.toList → InOrder (setUpNames requests) name →
    (∀ level, Nearest (lastLevel requests) name level → log.effectiveLevel name = level) ∧
    ((∀ above, Covers above name → lastLevel requests above = none) →
      log.effectiveLevel name = .warning)
  detailed : log.detailed = true ↔
    ∃ r ∈ requests, r.returned = true ∧ r.after.log.effectiveLevel r.name = .debug
  /-- A name that is no level's is reported in one line and changes no level. -/
  complaint : ∀ r ∈ requests, r.returned = true → ∀ value, invalidLevel? r.host = some value →
    (∃ handler, r.after.log.handler = some handler ∧ { r.after with log := r.host.log }
      = r.opened.writeLog handler (complaint r.host.log.detailed value)) ∧
    ∀ name, r.after.log.ownLevel name = r.host.log.ownLevel name
  /-- Nothing else is reported. -/
  silent : ∀ r ∈ requests, r.returned = true → invalidLevel? r.host = none →
    { r.after with log := r.host.log } = r.opened

/-! ### What one request comes to -/

/-- The request finds or installs a handler, and sets up its logger. -/
structure Request.Succeeds (r : Request) (handler : Handler) : Prop where
  destination : HasDestination r.host
  returned : r.returned = true
  notJournal : handler ≠ .journal
  found : r.host.log.handler = some handler ∨ r.host.log.handler = none ∧ r.Destined handler
  after : r.after = { complained r.opened handler with
    log := adopted (withHandler r.host.log handler) r.name (requestedLevel r.host) }

/-- The request finds no handler and cannot install one. -/
structure Request.Fails (r : Request) : Prop where
  destination : ¬ HasDestination r.host
  returned : r.returned = false
  after : r.after = r.host

theorem Request.fails_of_not_destination {r : Request} (h : ¬ HasDestination r.host) : r.Fails := by
  obtain ⟨fault, hinstall⟩ := installHandler_of_not_destination h
  have hfails : exec (configure r.name) r.host = (.error (.file fault), r.host) := by
    rw [configure, exec_bind, hinstall]
  refine ⟨h, ?_, ?_⟩
  · rw [returned, hfails]
    rfl
  · rw [after, hfails]

/-- What is reported does not depend on what the handler was before. -/
theorem complained_handler (h : Host) (handler : Handler) (log log' : Log)
    (hdetailed : log'.detailed = h.log.detailed) :
    { complained { h with log := log' } handler with log } = { complained h handler with log } := by
  have hinvalid : invalidLevel? { h with log := log' } = invalidLevel? h := rfl
  rw [complained, complained, hinvalid]
  cases invalidLevel? h with
  | none => rfl
  | some value =>
    show { Host.writeLog _ handler (complaint log'.detailed value) with log } = _
    rw [hdetailed]
    cases handler <;> rfl

/-- A request that finds no handler installs one, if it can. -/
theorem exec_installHandler_of_destination {h : Host} (hd : HasDestination h)
    (hroot : h.log.rootLevel = .warning) :
    ∃ handler files, exec installHandler h
        = (.ok (), { h with files, log := withHandler h.log handler }) ∧
      (h.log.handler = some handler ∨ h.log.handler = none ∧ handler ≠ .journal ∧
        ∀ name, (Request.mk h name).Destined handler) := by
  rw [exec_installHandler_eq]
  split
  · next hsome =>
    obtain ⟨handler, hhandler⟩ := Option.isSome_iff_exists.mp hsome
    refine ⟨handler, h.files, ?_, .inl hhandler⟩
    rw [withHandler, ← hhandler, ← hroot]
  · next hnone =>
    have hnone := Option.not_isSome_iff_eq_none.mp hnone
    cases hsetting : h.setting? fileVariable with
    | none => exact ⟨.stderr, h.files, rfl, .inr ⟨hnone, by simp, fun _ => .inl ⟨hsetting, rfl⟩⟩⟩
    | some path =>
      obtain ⟨absolute, habsolute, hopens⟩ := hd hnone path hsetting
      obtain ⟨⟨files, handle⟩, hopen⟩ := FileSystem.openAppending_eq_ok_iff.mpr hopens
      dsimp only
      rw [exec_openLogFile, habsolute]
      dsimp only
      rw [hopen]
      refine ⟨.file handle, files, rfl, .inr ⟨hnone, by simp, fun _ => .inr ?_⟩⟩
      exact ⟨path, absolute, files, handle, hsetting, habsolute, hopen, rfl⟩

namespace Request

variable {r : Request}

/-- A request that has a destination succeeds: only the handler can be refused. -/
theorem succeeds_of_destination (hd : HasDestination r.host) (hroot : isRoot r.name = false)
    (hlevel : r.host.log.rootLevel = .warning) (hjournal : r.host.log.handler ≠ some .journal) :
    ∃ handler, r.Succeeds handler := by
  obtain ⟨handler, files, hinstall, hfound⟩ := exec_installHandler_of_destination hd hlevel
  have hnotJournal : handler ≠ .journal := by
    obtain hfound | ⟨-, hne, -⟩ := hfound
    · rintro rfl
      exact hjournal hfound
    · exact hne
  have hrun := configure_of_install hinstall rfl hnotJournal hroot
  refine ⟨handler, hd, ?_, hnotJournal, ?_, ?_⟩
  · rw [returned, hrun]
    rfl
  · exact hfound.imp_right fun hnew => ⟨hnew.1, hnew.2.2 _⟩
  · have hopened : r.opened = { r.host with files } := by
      rw [opened, hinstall]
    rw [after, hrun, hopened]
    let log : Log := withHandler r.host.log handler
    exact congrArg (fun h : Host => { h with log := adopted log r.name (requestedLevel r.host) })
      (complained_handler { r.host with files } handler log log rfl)

theorem fails_or_succeeds (hroot : isRoot r.name = false) (hlevel : r.host.log.rootLevel = .warning)
    (hjournal : r.host.log.handler ≠ some .journal) : r.Fails ∨ ∃ handler, r.Succeeds handler := by
  by_cases hd : HasDestination r.host
  · exact .inr (succeeds_of_destination hd hroot hlevel hjournal)
  · exact .inl (fails_of_not_destination hd)

namespace Succeeds

variable {handler : Handler} (h : r.Succeeds handler)
include h

theorem log_eq : r.after.log
    = adopted (withHandler r.host.log handler) r.name (requestedLevel r.host) := by
  rw [h.after]

theorem handler_eq : r.after.log.handler = some handler := by
  rw [h.log_eq, adopted]
  exact withLogger_handler _ _ _

/-- The layout becomes detailed if debugging lines pass the logger of the request, and stays so. -/
theorem detailed_eq : r.after.log.detailed
    = (r.host.log.detailed || decide (r.after.log.effectiveLevel r.name = .debug)) := by
  rw [h.log_eq]
  -- The layout does not matter for the level that counts.
  let log : Log := withLogger (withHandler r.host.log handler) r.name (requestedLevel r.host)
  have hlevel : (adopted (withHandler r.host.log handler) r.name
      (requestedLevel r.host)).effectiveLevel r.name = log.effectiveLevel r.name := by
    apply effectiveLevel_congr
    · rfl
    · rfl
  rw [hlevel]
  rfl

variable (hroot : isRoot r.name = false)
include hroot

theorem rootLevel_eq : r.after.log.rootLevel = .warning := by
  rw [h.log_eq, adopted]
  exact rootLevel_withLogger hroot _

theorem unrooted (hlog : r.host.log.Unrooted) : r.after.log.Unrooted := by
  rw [h.log_eq, adopted]
  have hlog' : Unrooted (withHandler r.host.log handler) := hlog
  exact unrooted_withLogger hroot _ hlog'

/-- The logger of the request comes last unless it is there. -/
theorem names_eq : r.after.log.names
    = if r.name ∈ r.host.log.names then r.host.log.names else r.host.log.names ++ [r.name] := by
  rw [h.log_eq, adopted]
  exact names_withLogger hroot _

theorem ownLevel_eq {name : String} (hname : isRoot name = false) : r.after.log.ownLevel name
    = if r.name = name then (requestedLevel r.host).or (r.host.log.ownLevel name)
      else r.host.log.ownLevel name := by
  let log : Log := withHandler r.host.log handler
  have hsame : log.ownLevel name = r.host.log.ownLevel name := by
    apply ownLevel_congr _ hname
    rfl
  have hadopted : (adopted log r.name (requestedLevel r.host)).ownLevel name
      = (withLogger log r.name (requestedLevel r.host)).ownLevel name := by
    apply ownLevel_congr _ hname
    rfl
  rw [h.log_eq, hadopted, ownLevel_withLogger hroot _ hname, hsame]

end Succeeds

end Request

/-! ### What many requests come to -/

section

variable {requests : List Request} {r : Request} {name : String}

/-- A later level under the same name replaces the earlier one. -/
theorem lastLevel_concat : lastLevel (requests ++ [r]) name
    = if r.returned && decide (r.name = name) then
        (requestedLevel r.host).or (lastLevel requests name)
      else lastLevel requests name := by
  rw [lastLevel, lastLevel, List.filterMap_append, List.getLast?_append]
  cases hcounts : r.returned && decide (r.name = name) with
  | false =>
    rw [List.filterMap_cons_none (by rw [hcounts]; rfl)]
    rfl
  | true =>
    cases hlevel : requestedLevel r.host with
    | none =>
      rw [List.filterMap_cons_none (by rw [hcounts]; exact hlevel)]
      rfl
    | some level =>
      rw [List.filterMap_cons_some (by rw [hcounts]; exact hlevel)]
      rfl

theorem setUpNames_of_failed (hr : r.returned = false) :
    setUpNames (requests ++ [r]) = setUpNames requests := by
  rw [setUpNames, setUpNames, List.filter_append, List.filter_cons_of_neg (by simp [hr]),
    List.filter_nil, List.append_nil]

theorem setUpNames_concat (hr : r.returned = true) : setUpNames (requests ++ [r])
    = if r.name ∈ setUpNames requests then setUpNames requests
      else setUpNames requests ++ [r.name] := by
  rw [setUpNames, setUpNames, List.filter_append, List.filter_cons_of_pos hr, List.filter_nil,
    List.map_append, List.map_singleton, List.eraseDups_append]
  split
  · next hmem => simp [List.removeAll, List.mem_eraseDups.mp hmem]
  · next hnew => simp [List.removeAll, mt List.mem_eraseDups.mpr hnew, List.eraseDups_cons]

end

/-- What a request relies on, and leaves to the next one. -/
structure Settled (requests : List Request) (log : Log) : Prop where
  unrooted : log.Unrooted
  rootLevel : log.rootLevel = .warning
  notJournal : log.handler ≠ some .journal
  names : log.names = setUpNames requests
  ownLevel : ∀ name, isRoot name = false → log.ownLevel name = lastLevel requests name

/-- All this is kept by every request.  One that fails changes nothing, and one that succeeds
changes the entry of its own logger. -/
theorem settled_of_comes {requests : List Request} {log : Log} (h : Comes requests log) :
    Settled requests log := by
  induction h with
  | start => exact ⟨by simp [Unrooted], rfl, by simp, rfl, fun name hname => by
      rw [Log.ownLevel, hname]
      rfl⟩
  | request r _ hroot ih =>
    obtain hfails | ⟨handler, hs⟩ := Request.fails_or_succeeds hroot ih.rootLevel ih.notJournal
    · have hlog : r.after.log = r.host.log := by rw [hfails.after]
      refine ⟨hlog ▸ ih.unrooted, hlog ▸ ih.rootLevel, hlog ▸ ih.notJournal, ?_,
        fun name hname => ?_⟩
      · rw [hlog, setUpNames_of_failed hfails.returned, ih.names]
      · rw [hlog, lastLevel_concat, hfails.returned, ih.ownLevel name hname]
        simp
    -- The names are those of the requests in the same order, which decides who stands above whom.
    · refine ⟨hs.unrooted hroot ih.unrooted, hs.rootLevel_eq hroot, ?_, ?_, fun name hname => ?_⟩
      · rw [hs.handler_eq]
        simpa using hs.notJournal
      · rw [hs.names_eq hroot, setUpNames_concat hs.returned, ih.names]
      · rw [hs.ownLevel_eq hroot hname, lastLevel_concat, hs.returned, ih.ownLevel name hname]
        simp

/-- Every request fails, or succeeds with some handler. -/
theorem cases_of_comes {requests : List Request} {log : Log} (h : Comes requests log) :
    ∀ r ∈ requests, isRoot r.name = false ∧ r.host.log.rootLevel = .warning ∧
      (r.Fails ∨ ∃ handler, r.Succeeds handler) := by
  induction h with
  | start => exact fun _ hr => absurd hr List.not_mem_nil
  | request r hbefore hroot ih =>
    intro r' hr'
    obtain hr' | hr' := List.mem_append.mp hr'
    · exact ih r' hr'
    · obtain rfl := List.mem_singleton.mp hr'
      have hsettled := settled_of_comes hbefore
      exact ⟨hroot, hsettled.rootLevel,
        Request.fails_or_succeeds hroot hsettled.rootLevel hsettled.notJournal⟩

/-- As long as every request fails, there is no handler. -/
theorem handler_of_failed {requests : List Request} {log : Log} (h : Comes requests log)
    (hfailed : ∀ r ∈ requests, r.returned = false) : log.handler = none := by
  induction h with
  | start => rfl
  | @request requests r hbefore hroot ih =>
    have hr : r.returned = false := hfailed r (List.mem_append_right _ List.mem_cons_self)
    have hmem : r ∈ requests ++ [r] := List.mem_append_right _ List.mem_cons_self
    obtain ⟨-, -, hfails | ⟨handler, hs⟩⟩ := cases_of_comes (.request r hbefore hroot) r hmem
    · rw [hfails.after]
      exact ih fun r' hr' => hfailed r' (List.mem_append_left _ hr')
    · cases hr.symm.trans hs.returned

/-- The first request that succeeds decides about the handler, and no other does. -/
theorem handler_of_first {requests : List Request} {log : Log} (h : Comes requests log)
    {failed rest : List Request} {first : Request} (hsplit : requests = failed ++ first :: rest)
    (hfailed : ∀ r ∈ failed, r.returned = false) (hfirst : first.returned = true) :
    ∃ handler, first.Destined handler ∧ log.handler = some handler := by
  induction h generalizing rest with
  | start => simp at hsplit
  | @request requests r hbefore hroot ih =>
    have hmem : r ∈ requests ++ [r] := List.mem_append_right _ List.mem_cons_self
    obtain ⟨-, -, hcases⟩ := cases_of_comes (.request r hbefore hroot) r hmem
    -- The last request is the first that succeeds, or there is one after that.
    rcases List.eq_nil_or_concat rest with rfl | ⟨rest, last, rfl⟩
    · obtain ⟨rfl, hlast⟩ := List.append_inj' hsplit rfl
      cases hlast
      obtain hfails | ⟨handler, hs⟩ := hcases
      · cases hfirst.symm.trans hfails.returned
      · obtain hfound | ⟨-, hdest⟩ := hs.found
        · cases (handler_of_failed hbefore hfailed).symm.trans hfound
        · exact ⟨handler, hdest, hs.handler_eq⟩
    · rw [List.concat_eq_append, ← List.cons_append, ← List.append_assoc] at hsplit
      obtain ⟨rfl, hlast⟩ := List.append_inj' hsplit rfl
      obtain ⟨handler, hdest, hhandler⟩ := ih rfl
      refine ⟨handler, hdest, ?_⟩
      obtain hfails | ⟨handler', hs⟩ := hcases
      · rw [hfails.after, hhandler]
      · rw [hs.handler_eq]
        obtain hfound | ⟨hnone, -⟩ := hs.found
        · exact hfound.symm.trans hhandler
        · cases hhandler.symm.trans hnone

/-- The layout is detailed once a request has found its logger at DEBUG, and never goes back. -/
theorem detailed_iff {requests : List Request} {log : Log} (h : Comes requests log) :
    log.detailed = true ↔
      ∃ r ∈ requests, r.returned = true ∧ r.after.log.effectiveLevel r.name = .debug := by
  induction h with
  | start => simp
  | @request requests r hbefore hroot ih =>
    have hmem : r ∈ requests ++ [r] := List.mem_append_right _ List.mem_cons_self
    have hsplit (P : Request → Prop) :
        (∃ r' ∈ requests ++ [r], P r') ↔ (∃ r' ∈ requests, P r') ∨ P r := by
      simp [or_and_right, exists_or]
    rw [hsplit, ← ih]
    obtain ⟨-, -, hfails | ⟨handler, hs⟩⟩ := cases_of_comes (.request r hbefore hroot) r hmem
    · rw [hfails.after, hfails.returned]
      simp
    · rw [hs.detailed_eq, hs.returned, Bool.or_eq_true, decide_eq_true_eq]
      simp

/-! ### What a request does besides -/

/-- Only files are touched on the way to a handler, and none is closed. -/
theorem Request.opened_eq (r : Request) :
    ∃ files, r.opened = { r.host with files } ∧ r.host.files.opened <+: files.opened := by
  rw [opened, exec_installHandler_eq]
  split
  · exact ⟨_, rfl, List.prefix_rfl⟩
  · cases r.host.setting? fileVariable with
    | none => exact ⟨_, rfl, List.prefix_rfl⟩
    | some path =>
      dsimp only
      rw [exec_openLogFile]
      rcases exec (FileOp.absolute path) r.host.files with ⟨fault | absolute, -⟩
      · exact ⟨_, rfl, List.prefix_rfl⟩
      · dsimp only
        cases hopen : r.host.files.openAppending absolute with
        | error _ => exact ⟨_, rfl, List.prefix_rfl⟩
        | ok opened =>
          obtain ⟨files, handle⟩ := opened
          exact ⟨files, rfl, FileSystem.opened_of_openAppending hopen⟩

theorem writeLog_opened (h : Host) (handler : Handler) (bytes : Bytes) :
    (h.writeLog handler bytes).files.opened = h.files.opened := by
  cases handler with
  | stderr => rfl
  | journal => rfl
  | file handle =>
    exact h.files.appendOpen_cases (P := fun files => files.opened = h.files.opened) handle bytes rfl
      fun _ _ _ _ => rfl

theorem writeLog_log (h : Host) (handler : Handler) (bytes : Bytes) :
    (h.writeLog handler bytes).log = h.log := by
  cases handler <;> rfl

theorem complained_log (h : Host) (handler : Handler) : (complained h handler).log = h.log := by
  rw [complained]
  cases invalidLevel? h with
  | none => rfl
  | some value => exact writeLog_log h handler _

theorem complained_opened (h : Host) (handler : Handler) :
    (complained h handler).files.opened = h.files.opened := by
  rw [complained]
  cases invalidLevel? h with
  | none => rfl
  | some value => exact writeLog_opened h handler _

namespace Request.Succeeds

variable {r : Request} {handler : Handler} (h : r.Succeeds handler)
include h

/-- Apart from the log, a request only opens its file and reports a level that is none. -/
theorem besides : { r.after with log := r.host.log } = complained r.opened handler := by
  have hlog : (complained r.opened handler).log = r.host.log := complained_log r.opened handler
  rw [h.after, ← hlog]

theorem opened_prefix : r.host.files.opened <+: r.after.files.opened := by
  obtain ⟨files, hopened, hprefix⟩ := r.opened_eq
  have hafter : r.after.files.opened = r.opened.files.opened := by
    rw [h.after]
    exact complained_opened r.opened handler
  rw [hafter, hopened]
  exact hprefix

end Request.Succeeds

theorem requestedLevel_of_invalid {h : Host} {value : String} (hvalue : invalidLevel? h = some value) :
    requestedLevel h = none := by
  rw [invalidLevel?] at hvalue
  split at hvalue
  · cases hvalue
  · next hlevel => exact Option.not_isSome_iff_eq_none.mp hlevel

/-- A level that is none changes no level. -/
theorem Request.Succeeds.ownLevel_of_invalid {r : Request} {handler : Handler}
    (h : r.Succeeds handler) (hroot : isRoot r.name = false)
    (hlevel : r.host.log.rootLevel = .warning) {value : String}
    (hvalue : invalidLevel? r.host = some value) (name : String) :
    r.after.log.ownLevel name = r.host.log.ownLevel name := by
  cases hname : isRoot name with
  | true =>
    rw [ownLevel, ownLevel, hname, h.rootLevel_eq hroot, hlevel]
    rfl
  | false =>
    rw [h.ownLevel_eq hroot hname, requestedLevel_of_invalid hvalue, Option.none_or, ite_self]

theorem lastLevel_eq_none {requests : List Request} {name : String}
    (h : ∀ r ∈ requests, r.name = name → requestedLevel r.host = none) :
    lastLevel requests name = none := by
  have hnone : ∀ r ∈ requests, (if r.returned && decide (r.name = name) then requestedLevel r.host
      else none) = none := by
    intro r hr
    by_cases hname : r.name = name
    · rw [h r hr hname]
      exact ite_self none
    · rw [decide_eq_false hname, Bool.and_false]
      rfl
  rw [lastLevel, List.filterMap_eq_nil_iff.mpr hnone]
  rfl

/-- Nobody has asked for a level under a name of the root. -/
theorem lastLevel_root {requests : List Request} {log : Log} (h : Comes requests log) {name : String}
    (hname : isRoot name = true) : lastLevel requests name = none := by
  refine lastLevel_eq_none fun r hr hsame => ?_
  subst hsame
  cases hname.symm.trans (cases_of_comes h r hr).1

/-- **The state of the log.**  Whatever requests the log comes of, everything about it can be
read off them. -/
theorem configured_of_requests {requests : List Request} {log : Log} (h : Comes requests log) :
    Configured requests log where
  refused r hr := by
    obtain ⟨-, -, hfails | ⟨handler, hs⟩⟩ := cases_of_comes h r hr
    · exact ⟨by simp [hfails.returned, hfails.destination], fun _ => hfails.after⟩
    · exact ⟨by simp [hs.returned, hs.destination], fun hno => by cases hs.returned.symm.trans hno⟩
  unset := handler_of_failed h
  handler _ _ _ := handler_of_first h
  opened r hr := by
    obtain ⟨-, -, hfails | ⟨handler, hs⟩⟩ := cases_of_comes h r hr
    · have hsame : r.after.files.opened = r.host.files.opened := by rw [hfails.after]
      exact hsame ▸ List.prefix_rfl
    · exact hs.opened_prefix
  ownLevel := (settled_of_comes h).ownLevel
  search name hname := by
    have hsettled := settled_of_comes h
    rw [effectiveLevel_eq hsettled.unrooted hname, hsettled.ownLevel name hname, hsettled.rootLevel,
      hsettled.names]
  effectiveLevel name hspaced horder := by
    have hsettled := settled_of_comes h
    have hnearest := effectiveLevel_of_nearest hsettled.unrooted (fun _ => lastLevel_root h)
      hsettled.ownLevel hspaced (hsettled.names ▸ horder)
    rwa [hsettled.rootLevel] at hnearest
  detailed := detailed_iff h
  complaint r hr hreturned value hvalue := by
    obtain ⟨hroot, hlevel, hfails | ⟨handler, hs⟩⟩ := cases_of_comes h r hr
    · cases hreturned.symm.trans hfails.returned
    · refine ⟨⟨handler, hs.handler_eq, ?_⟩, hs.ownLevel_of_invalid hroot hlevel hvalue⟩
      obtain ⟨files, hopened, -⟩ := r.opened_eq
      have hinvalid : invalidLevel? r.opened = some value := by
        rw [hopened]
        exact hvalue
      rw [hs.besides, complained, hinvalid]
      rfl
  silent r hr hreturned hvalue := by
    obtain ⟨-, -, hfails | ⟨handler, hs⟩⟩ := cases_of_comes h r hr
    · cases hreturned.symm.trans hfails.returned
    · obtain ⟨files, hopened, -⟩ := r.opened_eq
      have hinvalid : invalidLevel? r.opened = none := by
        rw [hopened]
        exact hvalue
      rw [hs.besides, complained, hinvalid]

/-- A host without a directory for a log file. -/
def sparseHost (environment : List (String × String)) (log : Log) : Host where
  files := ⟨.dir [], some [], []⟩
  environment
  programs _ _ := .exit 0
  scratchDir := "/"
  log

/-- A request that fails, one that asks for a level that is none, and one for a logger below
with a level. -/
def threeRequests : Request × Request × Request :=
  let first : Request := ⟨sparseHost [(fileVariable, "logs/out.txt")] {}, "topljavac"⟩
  let second : Request := ⟨sparseHost [(levelVariable, "loud")] first.after.log, "topljavac"⟩
  let third : Request :=
    ⟨sparseHost [(levelVariable, "debug")] second.after.log, "topljavac.pipeline"⟩
  (first, second, third)

theorem configured_threeRequests :
    Comes [threeRequests.1, threeRequests.2.1, threeRequests.2.2] threeRequests.2.2.after.log ∧
      Configured [threeRequests.1, threeRequests.2.1, threeRequests.2.2]
        threeRequests.2.2.after.log ∧
      threeRequests.1.returned = false ∧ threeRequests.2.2.after.log.handler = some .stderr ∧
      threeRequests.2.2.after.log.detailed = true := by
  have hfirst : Comes [threeRequests.1] threeRequests.1.after.log :=
    .request threeRequests.1 .start (by decide)
  have hsecond : Comes [threeRequests.1, threeRequests.2.1] threeRequests.2.1.after.log :=
    .request threeRequests.2.1 hfirst (by decide)
  have hthird : Comes [threeRequests.1, threeRequests.2.1, threeRequests.2.2]
      threeRequests.2.2.after.log := .request threeRequests.2.2 hsecond (by decide)
  refine ⟨hthird, configured_of_requests hthird, ?_⟩
  decide +kernel

/-- The nearest level among a name and the names that it goes on from with a dot is DEBUG, and
yet WARNING counts. -/
structure PassedOver (requests : List Request) (log : Log) (name : String) : Prop where
  comes : Comes requests log
  nearest : Nearest (lastLevel requests) name .debug
  counts : log.effectiveLevel name = .warning

/-- A logger with a level, and then one whose name goes on with two dots. -/
def doubleDotted : Request × Request :=
  let first : Request := ⟨sparseHost [(levelVariable, "debug")] {}, "a"⟩
  let second : Request := ⟨sparseHost [] first.after.log, "a..b"⟩
  (first, second)

/-- A logger without a level, and then one above it whose name the root's begins with. -/
def lateRoot : Request × Request :=
  let first : Request := ⟨sparseHost [] {}, "r.x"⟩
  let second : Request := ⟨sparseHost [(levelVariable, "debug")] first.after.log, "r"⟩
  (first, second)

/-- The level of the only request that asks for one is the nearest to every name that it
covers. -/
theorem nearest_of_only {requests : List Request} {above name : String} {level : Level}
    (hcovers : Covers above name) (hlevel : lastLevel requests above = some level)
    (honly : ∀ r ∈ requests, r.name ≠ above → requestedLevel r.host = none) :
    Nearest (lastLevel requests) name level := by
  refine ⟨above, hcovers, hlevel, fun nearer _ hlonger => ?_⟩
  refine lastLevel_eq_none fun r hr hname => honly r hr ?_
  rintro rfl
  exact absurd (hname ▸ hlonger) (Nat.lt_irrefl _)

/-- Between two dots side by side the search does not stop, and a logger `r` is not above one
that was there before it. -/
theorem passedOver_doubleDotted_lateRoot :
    PassedOver [doubleDotted.1, doubleDotted.2] doubleDotted.2.after.log "a..b" ∧
      PassedOver [lateRoot.1, lateRoot.2] lateRoot.2.after.log "r.x" := by
  have hdotted : Comes [doubleDotted.1] doubleDotted.1.after.log :=
    .request doubleDotted.1 .start (by decide)
  have hlate : Comes [lateRoot.1] lateRoot.1.after.log := .request lateRoot.1 .start (by decide)
  constructor
  · refine ⟨.request doubleDotted.2 hdotted (by decide), ?_, by decide +kernel⟩
    have hcovers : Covers "a" "a..b" := .inr ⟨".b", rfl⟩
    exact nearest_of_only hcovers (by decide +kernel) (by decide +kernel)
  · refine ⟨.request lateRoot.2 hlate (by decide), ?_, by decide +kernel⟩
    have hcovers : Covers "r" "r.x" := .inr ⟨"x", rfl⟩
    exact nearest_of_only hcovers (by decide +kernel) (by decide +kernel)

end Log

end MonitoredCompile

/-
MonitoredCompile/Log/Basic.lean

The state of the log and its records.  Loggers form a tree by their dotted
names; a logger without a level of its own takes that of the nearest logger above
it that has one, and in the end that of the root.  Which loggers stand above it
depends on which have been asked for, and in a corner on the order in which they
were (`standsAbove`).  What passes its logger's level goes to the one handler of
the root.
-/
import MonitoredCompile.Log.Level
import MonitoredCompile.Text.Utf8

namespace MonitoredCompile

namespace Log

/-- Where in the program a line is logged, as the detailed layout shows it. -/
structure Site where
  logger : String
  unit : String
  function : String
  deriving DecidableEq, Repr

structure Record where
  level : Level
  site : Site
  message : String
  deriving DecidableEq, Repr

/-- Where log lines go. -/
inductive Handler where
  | stderr
  | file (handle : Nat)
  /-- Kept as records, for whoever watches the program. -/
  | journal
  deriving DecidableEq, Repr

end Log

/-- The state of the log.  `loggers` holds every logger that has been asked for,
in the order in which they were, with its own level if it was given one. -/
structure Log where
  handler : Option Log.Handler := none
  detailed : Bool := false
  rootLevel : Log.Level := .warning
  loggers : List (String × Option Log.Level) := []
  journal : List Log.Record := []

namespace Log

/-! ### Loggers -/

/-- The two names of the root. -/
def isRoot (name : String) : Bool := name = "" ∨ name = "root"

/-- The entry of a logger. -/
def findLogger (name : String) : List (String × Option Level) → Option (Option Level)
  | [] => none
  | (n, level) :: rest => if n = name then some level else findLogger name rest

/-- Adds a logger, without a level, unless it is there. -/
def register (name : String) (loggers : List (String × Option Level)) :
    List (String × Option Level) :=
  if (findLogger name loggers).isSome then loggers else loggers ++ [(name, none)]

/-- Gives a logger a level. -/
def setLevel (name : String) (level : Level) (loggers : List (String × Option Level)) :
    List (String × Option Level) :=
  loggers.map fun entry => if entry.1 = name then (name, some level) else entry

/-- The name cut at its last dot; the root if there is none, or nothing before it. -/
def parentName (name : List Char) : List Char :=
  ((name.reverse.dropWhile (· ≠ '.')).drop 1).reverse

/-- The names above a name, the nearest first.  The
character before the dot of a cut is never a dot to cut at. -/
def ancestorsWithin : Nat → List Char → List String
  | 0, _ => []
  | fuel + 1, name =>
    match parentName name with
    | [] => []
    | parent => String.ofList parent :: ancestorsWithin fuel parent.dropLast

/-- The names that a logger's name has above it. -/
def ancestors (name : String) : List String := ancestorsWithin name.length name.toList

/-- Names that the root's own name begins with. -/
def beginsRoot (name : String) : Bool := name.toList.isPrefixOf "root".toList

/-- Of two names, with loggers for `names` made in this order, the first one's
logger stands above the second one's, if one name is among those above the other.

A new logger takes over every logger below it from the one that stood above that,
unless that one's name begins with its own.  Among the cuts of one name this tells
which of two is nearer.  But the root's name is looked at in the same way, and so
`r`, `ro` and `roo` take over none from the root. -/
def standsAbove (names : List String) (above name : String) : Bool :=
  above ∈ names ∧ (beginsRoot above → names.idxOf above < names.idxOf name)

/-- The nearest logger above a name. -/
def nearestAbove (names : List String) (name : String) : Option String :=
  (ancestors name).find? fun above => standsAbove names above name

/-- The names of the loggers that have been asked for, in this order. -/
def names (log : Log) : List String := log.loggers.map Prod.fst

/-- The level that counts for a logger: its own, or that of the nearest logger
above it, or that of the root.  Every step up shortens the name. -/
def levelWithin (log : Log) : Nat → String → Level
  | 0, _ => log.rootLevel
  | fuel + 1, name =>
    match findLogger name log.loggers with
    | some (some level) => level
    | _ =>
      match nearestAbove log.names name with
      | none => log.rootLevel
      | some above => log.levelWithin fuel above

/-- The level that counts for a logger. -/
def effectiveLevel (log : Log) (name : String) : Level :=
  if isRoot name then log.rootLevel else log.levelWithin name.length name

/-- The level that a logger was given, if it was. -/
def ownLevel (log : Log) (name : String) : Option Level :=
  if isRoot name then some log.rootLevel else (findLogger name log.loggers).join

/-- Whether a logger lets records of a level pass. -/
def enabled (log : Log) (name : String) (level : Level) : Bool :=
  decide ((log.effectiveLevel name).rank ≤ level.rank)

/-! ### Lines -/

/-- The line of a record.  The detailed layout names the place in the program,
with `N` for the number of the line. -/
def line (detailed : Bool) (r : Record) : String :=
  if detailed then
    r.level.name ++ "::" ++ r.site.unit ++ "." ++ r.site.function ++ "() at " ++ r.site.unit
      ++ ".py:N ::" ++ r.message
  else r.level.name ++ ":" ++ r.message

end Log

end MonitoredCompile

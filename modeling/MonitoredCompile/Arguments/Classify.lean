/-
MonitoredCompile/Arguments/Classify.lean

Which arguments are for the compiler and which for the instrumentor.  There are
two sweeps.  The first looks at suffixes only and takes out the monitor sources
and the property specifications.  The second reads what is left from left to
right: a flag takes as many arguments as it needs, everything else is a plain
argument, and a flag that finds too few ends the list and is dropped.

The result of the sweeps is a list of `Dispatch`es, one for each thing that was
recognised, in order.  The classified arguments, the log and the reports of
other handlers are all read off that list.
-/
import MonitoredCompile.Host

namespace MonitoredCompile.Arguments

/-! ### Rules -/

/-- What is done with something that was recognised. -/
inductive Handler where
  | monitorSource
  | propertySpec
  | outputDir
  /-- Reported, and otherwise ignored. -/
  | record
  deriving DecidableEq, Repr

/-- The rules of a sweep: which suffixes and which flags are recognised.  Of the
suffixes the first that fits wins, of the flags the first of that name; a flag
with a negative number of arguments takes none. -/
structure Rules where
  suffixes : List (String × Handler)
  flags : List (String × Int × Handler)

def monitorSuffix : String := ".java.topl"

def specSuffix : String := ".topl"

/-- The rules of the program, after those that a caller adds. -/
def Rules.extended (suffixes : List (String × Handler)) (flags : List (String × Int × Handler)) :
    Rules where
  suffixes := suffixes ++ [(monitorSuffix, .monitorSource), (specSuffix, .propertySpec)]
  flags := flags ++ [("-d", 1, .outputDir)]

/-- The rules of the program. -/
def Rules.standard : Rules := .extended [] []

def hasSuffix (suffix token : String) : Bool := suffix.toList.isSuffixOf token.toList

/-- The handler of the first suffix that fits. -/
def suffixHandler (suffixes : List (String × Handler)) (token : String) : Option Handler :=
  (suffixes.find? fun rule => hasSuffix rule.1 token).map (·.2)

/-- The number of arguments and the handler of a flag. -/
def flagRule (flags : List (String × Int × Handler)) (token : String) : Option (Int × Handler) :=
  (flags.find? fun rule => rule.1 = token).map (·.2)

/-! ### Sweeps -/

inductive Dispatch where
  /-- Taken out by the first sweep. -/
  | suffixed (handler : Handler) (token : String)
  | plain (token : String)
  | flagged (handler : Handler) (flag : String) (args : List String)
  /-- A flag that needs `arity` arguments, and the fewer that follow it. -/
  | dropped (flag : String) (arity : Int) (args : List String)
  deriving DecidableEq, Repr

/-- What the first sweep takes out. -/
def suffixSweep (suffixes : List (String × Handler)) (tokens : List String) : List Dispatch :=
  tokens.filterMap fun t => (suffixHandler suffixes t).map fun handler => .suffixed handler t

/-- What the first sweep leaves. -/
def remaining (suffixes : List (String × Handler)) (tokens : List String) : List String :=
  tokens.filter fun t => (suffixHandler suffixes t).isNone

/-- The second sweep. -/
def flagSweep (flags : List (String × Int × Handler)) : List String → List Dispatch
  | [] => []
  | token :: rest =>
    match flagRule flags token with
    | none => .plain token :: flagSweep flags rest
    | some (arity, handler) =>
      if rest.length < arity.toNat then [.dropped token arity rest]
      else .flagged handler token (rest.take arity.toNat) :: flagSweep flags (rest.drop arity.toNat)
termination_by tokens => tokens.length
decreasing_by
  · exact Nat.lt_add_one _
  · exact Nat.lt_add_one_of_le (List.length_drop ▸ Nat.sub_le _ _)

/-- Both sweeps. -/
def dispatches (rules : Rules) (tokens : List String) : List Dispatch :=
  suffixSweep rules.suffixes tokens ++ flagSweep rules.flags (remaining rules.suffixes tokens)

/-! ### Classified arguments -/

structure Classified where
  plainArgs : List String := []
  monitorSources : List String := []
  propertySpecs : List String := []
  outputDir : Option String := none
  deriving DecidableEq, Repr

namespace Classified

/-- Drops as many characters as `.topl` has. -/
def sourceName (token : String) : String :=
  String.ofList (token.toList.take (token.length - specSuffix.length))

/-- What a handler does with what was recognised: the token, or the flag and its
arguments. -/
def handle (c : Classified) : Handler → List String → Classified
  | .monitorSource, [token] => { c with monitorSources := c.monitorSources ++ [sourceName token] }
  | .propertySpec, [token] => { c with propertySpecs := c.propertySpecs ++ [token] }
  | .outputDir, [_, dir] => { c with outputDir := some dir }
  | _, _ => c

def add (c : Classified) : Dispatch → Classified
  | .suffixed handler token => c.handle handler [token]
  | .plain token => { c with plainArgs := c.plainArgs ++ [token] }
  | .flagged handler flag args => c.handle handler (flag :: args)
  | .dropped _ _ _ => c

/-- The classified arguments after a list of dispatches. -/
def ofDispatches (ds : List Dispatch) : Classified := ds.foldl add {}

/-- The partition, one part a line. -/
def dump (c : Classified) : String :=
  "plainArgs: " ++ Text.quoteList c.plainArgs ++ "\nmonitorSources: "
    ++ Text.quoteList c.monitorSources ++ "\npropertySpecs: " ++ Text.quoteList c.propertySpecs
    ++ "\noutputDir: " ++ c.outputDir.getD "None"

/-- The partition on one line. -/
def shown (c : Classified) : String :=
  "ClassifiedArgs(plainArgs=" ++ Text.quoteList c.plainArgs ++ ", monitorSources="
    ++ Text.quoteList c.monitorSources ++ ", propertySpecs=" ++ Text.quoteList c.propertySpecs
    ++ ", outputDir=" ++ Text.quoteOption c.outputDir ++ ")"

end Classified

/-- What a dispatch reports to a caller's own handler. -/
def Dispatch.report? : Dispatch → Option (List String)
  | .suffixed .record token => some [token]
  | .flagged .record flag args => some (flag :: args)
  | _ => none

/-! ### Log -/

def site (function : String) : Log.Site := ⟨"topljavac.arglistfilter", "arglistfilter", function⟩

/-- The line that a handler logs. -/
def Handler.note? : Handler → List String → Option (Log.Site × String)
  | .monitorSource, token :: _ =>
    some (site "monitorSourceCallback", "monitorSourceCallback: " ++ token)
  | .propertySpec, token :: _ =>
    some (site "propertySpecCallback", "propertySpecCallback: " ++ token)
  | .outputDir, [flag, dir] =>
    some (site "outputDirCallback", "outputDirCallback: " ++ flag ++ " " ++ dir)
  | _, _ => none

/-- The lines that are logged about a dispatch. -/
def Dispatch.notes : Dispatch → List (Log.Site × String)
  | .suffixed handler token => (handler.note? [token]).toList
  | .plain token => [(site "__init__", "Trying to match item " ++ token)]
  | .flagged handler flag args =>
    (site "__init__", "Trying to match item " ++ flag) :: (handler.note? (flag :: args)).toList
  | .dropped flag arity _ =>
    [(site "__init__", "Trying to match item " ++ flag),
     (site "__init__",
      "Dropping \"" ++ flag ++ "\": expected " ++ toString arity ++ " argument(s)")]

/-! ### Classification -/

/-- Sweeps and logs what was recognised. -/
def sweep (rules : Rules) (tokens : List String) : Run (List Dispatch) := do
  let ds := dispatches rules tokens
  for (place, message) in ds.flatMap Dispatch.notes do
    Run.note place .debug message
  Run.note (site "__init__") .debug (Classified.ofDispatches ds).dump
  pure ds

/-- The classified arguments of a command line. -/
def classify (tokens : List String) : Classified :=
  .ofDispatches (dispatches .standard tokens)

/-- Classifies and logs. -/
def classifyLogged (tokens : List String) : Run Classified := do
  pure (.ofDispatches (← sweep .standard tokens))

end MonitoredCompile.Arguments

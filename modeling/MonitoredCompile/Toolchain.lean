/-
MonitoredCompile/Toolchain.lean

Where the compiler and the instrumentor are.  Nothing has to be configured:
with an empty environment the two are plain names to be looked for on the search
path.
-/
import MonitoredCompile.Host

namespace MonitoredCompile

/-- The directory of both tools, empty or with a slash at its end, and their
names. -/
structure Toolchain where
  dir : String
  compilerName : String
  instrumentorName : String
  deriving DecidableEq, Repr

namespace Toolchain

/-! ### Settings -/

/-- The variable that names the directory. -/
def dirVariable : String := "TOPLJAVAC_TOOL_PATH"

def compilerVariable : String := "TOPLJAVAC_JAVAC_NAME"

def instrumentorVariable : String := "TOPLJAVAC_TOPLC_NAME"

def defaultCompiler : String := "javac"

def defaultInstrumentor : String := "toplc"

/-- What is set, unless it is empty. -/
def nonEmpty (setting : Option String) : Option String := setting.filter fun s => s ≠ ""

/-! ### Commands -/

/-- The compiler's command without arguments. -/
def compiler (t : Toolchain) : List String := [t.dir ++ t.compilerName]

/-- The instrumentor's command without arguments. -/
def instrumentor (t : Toolchain) : List String := [t.dir ++ t.instrumentorName]

/-! ### Configuration -/

def site (function : String) : Log.Site := ⟨"topljavac.config", "config", function⟩

/-- The tools of the given directory and names; what is not given, or empty,
takes its default.  The directory has to be there. -/
def configure (dir compiler instrumentor : Option String) : Run Toolchain := do
  let compilerName := (nonEmpty compiler).getD defaultCompiler
  let instrumentorName := (nonEmpty instrumentor).getD defaultInstrumentor
  match nonEmpty dir with
  | none => pure ⟨"", compilerName, instrumentorName⟩
  | some d =>
    let d := Path.withSlash d
    if (← get).files.pathExists d then pure ⟨d, compilerName, instrumentorName⟩
    else
      Run.note (site "__init__") .debug (Failure.missingToolDir d).message
      throw (.missingToolDir d)

/-- The tools that the environment names. -/
def ofEnvironment : Run Toolchain := do
  let h ← get
  match h.setting? dirVariable with
  | some d => Run.note (site "getToolConfig") .debug ("topljavac tool path prefix \"" ++ d ++ "\"")
  | none => pure ()
  configure (h.getEnv? dirVariable) (h.getEnv? compilerVariable)
    (h.getEnv? instrumentorVariable)

end Toolchain

end MonitoredCompile

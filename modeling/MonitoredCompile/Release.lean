/-
MonitoredCompile/Release.lean

The version of the program.
-/
namespace MonitoredCompile.Release

def version : String := "0.2.2"

def date : String := "November 14 2017"

end MonitoredCompile.Release

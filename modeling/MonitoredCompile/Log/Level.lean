/-
MonitoredCompile/Log/Level.lean

The four levels of log lines, and how a user names one.
-/
import MonitoredCompile.Text.Lines

namespace MonitoredCompile.Log

inductive Level where
  | debug
  | info
  | warning
  | error
  deriving DecidableEq, Repr

namespace Level

/-- Higher is more severe. -/
def rank : Level → Nat
  | debug => 10
  | info => 20
  | warning => 30
  | error => 40

def name : Level → String
  | debug => "DEBUG"
  | info => "INFO"
  | warning => "WARNING"
  | error => "ERROR"

/-- The capital form of a letter, if that is spelt with basic letters; other
characters cannot stand in a level's name and stay as they are. -/
def capital (c : Char) : List Char :=
  if 'a' ≤ c ∧ c ≤ 'z' then [Char.ofNat (c.toNat - 32)]
  else if c = 'ı' then ['I']
  else if c = 'ſ' then ['S']
  else if c = 'ß' then ['S', 'S']
  else if c = 'ﬀ' then ['F', 'F']
  else if c = 'ﬁ' then ['F', 'I']
  else if c = 'ﬂ' then ['F', 'L']
  else if c = 'ﬃ' then ['F', 'F', 'I']
  else if c = 'ﬄ' then ['F', 'F', 'L']
  else if c = 'ﬅ' ∨ c = 'ﬆ' then ['S', 'T']
  else [c]

/-- The level of that name, in capital or small letters. -/
def ofName? (s : String) : Option Level :=
  [debug, info, warning, error].find? fun l => s.toList.flatMap capital = l.name.toList

/-- The names of all levels, sorted. -/
def names : List String := [debug.name, error.name, info.name, warning.name]

end Level

end MonitoredCompile.Log

/-
MonitoredCompile/Text/Quoted.lean

The quoted form in which messages show a value.  Text stands between single
quotes, or between double ones if it holds a single quote and no double one;
what cannot be printed is escaped by its code point in hexadecimal.
-/
import MonitoredCompile.Text.Lines
import MonitoredCompile.Text.Printable
import MonitoredCompile.Text.Utf8

namespace MonitoredCompile.Text

/-! ### Text -/

/-- The quote that a text is put between. -/
def quoteFor (s : List Char) : Char :=
  if '\'' ∈ s ∧ '"' ∉ s then '"' else '\''

/-- One character between quotes `quote`. -/
def escape (quote c : Char) : List Char :=
  if c = quote ∨ c = '\\' then ['\\', c]
  else if c = '\n' then ['\\', 'n']
  else if c = '\r' then ['\\', 'r']
  else if c = '\t' then ['\\', 't']
  else if isPrintable c then [c]
  else if c.toNat < 0x100 then '\\' :: 'x' :: (Utf8.hex 2 c.toNat).toList
  else if c.toNat < 0x10000 then '\\' :: 'u' :: (Utf8.hex 4 c.toNat).toList
  else '\\' :: 'U' :: (Utf8.hex 8 c.toNat).toList

/-- A text between quotes, as a list of characters. -/
def quoteChars (s : List Char) : List Char :=
  quoteFor s :: (s.flatMap (escape (quoteFor s)) ++ [quoteFor s])

/-- A text between quotes. -/
def quote (s : String) : String := String.ofList (quoteChars s.toList)

/-- A list of texts between brackets. -/
def quoteList (items : List String) : String := "[" ++ join ", " (items.map quote) ++ "]"

/-- A text that may be missing. -/
def quoteOption : Option String → String
  | none => "None"
  | some s => quote s

/-! ### Other values -/

/-- A value that a caller may hand over where something else was expected. -/
inductive Value where
  | none
  | flag (b : Bool)
  | number (n : Int)
  | text (s : String)
  | list (items : List Value)

mutual

/-- The quoted form of a value. -/
def Value.quoted : Value → String
  | .none => "None"
  | .flag b => if b then "True" else "False"
  | .number n => toString n
  | .text s => quote s
  | .list items => "[" ++ join ", " (Value.quotedItems items) ++ "]"

/-- The quoted forms of several values. -/
def Value.quotedItems : List Value → List String
  | [] => []
  | v :: rest => v.quoted :: Value.quotedItems rest

end

end MonitoredCompile.Text

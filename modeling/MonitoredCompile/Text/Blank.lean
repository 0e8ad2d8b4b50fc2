/-
MonitoredCompile/Text/Blank.lean

White space: the characters that Unicode counts as blank, together with the
four information separators `1C..1F`.  Blank characters are stripped from the
ends of a line and separate the words of a long one.
-/
namespace MonitoredCompile.Text

/-- The blank characters, as ranges of code points with both ends included. -/
def blankRanges : List (Nat × Nat) :=
  [(0x09, 0x0D), (0x1C, 0x20), (0x85, 0x85), (0xA0, 0xA0), (0x1680, 0x1680), (0x2000, 0x200A),
   (0x2028, 0x2029), (0x202F, 0x202F), (0x205F, 0x205F), (0x3000, 0x3000)]

/-- Membership in a table of ranges. -/
def inRanges (table : List (Nat × Nat)) (c : Char) : Bool :=
  table.any fun r => decide (r.1 ≤ c.toNat ∧ c.toNat ≤ r.2)

def isBlank (c : Char) : Bool := inRanges blankRanges c

/-- Drops the blanks at the end. -/
def stripEnd (s : List Char) : List Char := (s.reverse.dropWhile isBlank).reverse

/-- Drops the blanks at both ends. -/
def strip (s : List Char) : List Char := stripEnd (s.dropWhile isBlank)

end MonitoredCompile.Text

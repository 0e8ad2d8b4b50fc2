/-
MonitoredCompile/Text/Utf8.lean

Bytes and the strict reading of bytes as UTF-8 text.

A character is one to four bytes: a leading byte, which tells how many follow
and in which range the first of them lies, and continuation bytes `80..BF`.
The narrower range after `E0`, `ED`, `F0` and `F4` is what excludes overlong
forms, surrogates and numbers above `10FFFF`.  `decode` is a machine that reads
one byte at a time and remembers only the character that it is in the middle
of; it stops at the first byte that no text continues with, and its `Fault`
names the whole range of bytes that do not form a character.
-/
namespace MonitoredCompile

/-- The content of a file or of a stream. -/
abbrev Bytes := List UInt8

namespace Utf8

/-! ### Writing -/

/-- The bytes of a text. -/
def encode (s : String) : Bytes :=
  s.toList.flatMap String.utf8EncodeChar

/-! ### Faults -/

/-- Why a range of bytes is no character. -/
inductive Reason where
  /-- No character starts with this byte. -/
  | start
  /-- The byte after the range does not continue it. -/
  | continuation
  /-- The text ends inside the character. -/
  | truncated
  deriving DecidableEq, Repr

def Reason.text : Reason → String
  | .start => "invalid start byte"
  | .continuation => "invalid continuation byte"
  | .truncated => "unexpected end of data"

/-- The first range of bytes that is no character: its ends (both included),
its first byte and what is wrong with it. -/
structure Fault where
  first : Nat
  last : Nat
  byte : UInt8
  reason : Reason
  deriving DecidableEq, Repr

/-- One lower case hexadecimal digit. -/
def hexDigit (n : Nat) : Char :=
  if n < 10 then Char.ofNat (48 + n) else Char.ofNat (87 + n)

/-- The last `width` hexadecimal digits of a number. -/
def hex (width n : Nat) : String :=
  String.ofList <| (List.range width).reverse.map fun i => hexDigit (n / Nat.pow 16 i % 16)

/-- One byte is named by its value, several only by where they are. -/
def Fault.message (f : Fault) : String :=
  (if f.first = f.last then
    "'utf-8' codec can't decode byte 0x" ++ hex 2 f.byte.toNat ++ " in position " ++ toString f.first
  else
    "'utf-8' codec can't decode bytes in position " ++ toString f.first ++ "-" ++ toString f.last)
  ++ ": " ++ f.reason.text

/-! ### Reading -/

/-- A character that has begun: where, with which byte, the bits read so far,
how many bytes are missing and the range of the next one. -/
structure Begun where
  start : Nat
  lead : UInt8
  value : Nat
  missing : Nat
  low : UInt8
  high : UInt8
  deriving DecidableEq, Repr

/-- What a first byte begins; a byte of ASCII misses nothing. -/
def begin? (position : Nat) (b : UInt8) : Option Begun :=
  let begun (offset missing : Nat) (low high : UInt8) : Option Begun :=
    some ⟨position, b, b.toNat - offset, missing, low, high⟩
  if b < 0x80 then begun 0 0 0x80 0xBF
  else if b < 0xC2 then none
  else if b < 0xE0 then begun 0xC0 1 0x80 0xBF
  else if b = 0xE0 then begun 0xE0 2 0xA0 0xBF
  else if b = 0xED then begun 0xE0 2 0x80 0x9F
  else if b < 0xF0 then begun 0xE0 2 0x80 0xBF
  else if b = 0xF0 then begun 0xF0 3 0x90 0xBF
  else if b < 0xF4 then begun 0xF0 3 0x80 0xBF
  else if b = 0xF4 then begun 0xF0 3 0x80 0x8F
  else none

/-- The character with one more byte; every later byte has the full range. -/
def Begun.extend (c : Begun) (b : UInt8) : Begun :=
  { c with value := c.value * 64 + (b.toNat - 0x80), missing := c.missing - 1,
           low := 0x80, high := 0xBF }

/-- The range from the start of the character up to, not including, `position`. -/
def Begun.fault (c : Begun) (position : Nat) (reason : Reason) : Fault :=
  ⟨c.start, position - 1, c.lead, reason⟩

/-- One byte: the character that it begins or continues. -/
def absorb (position : Nat) (current : Option Begun) (b : UInt8) : Except Fault Begun :=
  match current with
  | none =>
    match begin? position b with
    | none => .error ⟨position, position, b, .start⟩
    | some c => .ok c
  | some c =>
    if c.low ≤ b ∧ b ≤ c.high then .ok (c.extend b)
    else .error (c.fault position .continuation)

/-- Reads bytes that start at `position`, in the middle of `current`. -/
def decodeFrom : Nat → Option Begun → Bytes → Except Fault (List Char)
  | _, none, [] => .ok []
  | position, some c, [] => .error (c.fault position .truncated)
  | position, current, b :: rest =>
    match absorb position current b with
    | .error f => .error f
    | .ok c =>
      if c.missing = 0 then
        match decodeFrom (position + 1) none rest with
        | .error f => .error f
        | .ok text => .ok (Char.ofNat c.value :: text)
      else decodeFrom (position + 1) (some c) rest

/-- The text that bytes spell, or the first fault in them. -/
def decode (bytes : Bytes) : Except Fault String :=
  (decodeFrom 0 none bytes).map String.ofList

end Utf8

end MonitoredCompile

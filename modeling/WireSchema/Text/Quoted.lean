import WireSchema.Text.ClusterTable
import WireSchema.Text.Range
import WireSchema.Text.UnprintableTable

/-!
String literals of the generated source: double quotes around the text, with a backslash escape for
every character that would end the literal or would not show.
-/

namespace WireSchema.Text

/-- The letters without a visible form: the fillers that hold an empty place in a syllable. -/
def fillers : List Char := ['\u115f', '\u1160', '\u3164', '\uffa0']

/-- The halfwidth sound marks. They extend the character before them, and yet have a width and a
form of their own. -/
def soundMarks : List Char := ['\uff9e', '\uff9f']

/-- Whether a character shows by itself: it has a visible form and does not merge with the one
before it. -/
def isPlain (c : Char) : Bool :=
  if c.toNat < 0x7F then 0x20 ≤ c.toNat
  else if soundMarks.contains c then true
  else !inRanges extendRanges c && !inRanges unprintableRanges c && !fillers.contains c

/-- A code point between braces, in hexadecimal without leading zeros. -/
def escapeCode (c : Char) : List Char :=
  ['\\', 'u', '\x7b'] ++ Nat.toDigits 16 c.toNat ++ ['\x7d']

def escapeChar (c : Char) : List Char :=
  if c = '\x00' then ['\\', '0']
  else if c = '\t' then ['\\', 't']
  else if c = '\r' then ['\\', 'r']
  else if c = '\n' then ['\\', 'n']
  else if c = '\\' then ['\\', '\\']
  else if c = '"' then ['\\', '"']
  else if isPlain c then [c]
  else escapeCode c

def escape (s : List Char) : List Char := s.flatMap escapeChar

def quote (s : String) : String := String.ofList ('"' :: escape s.toList ++ ['"'])

end WireSchema.Text

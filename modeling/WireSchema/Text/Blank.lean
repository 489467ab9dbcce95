/-!
White space and lines of text. A character is blank when it has the Unicode property White_Space.
-/

namespace WireSchema.Text

/-- The characters with the property White_Space: tab to carriage return, the space, the next-line
control, and the typographic spaces and separators. -/
def isBlank (c : Char) : Bool :=
  let n := c.toNat
  (9 ≤ n && n ≤ 13) || n == 0x20 || n == 0x85 || n == 0xA0 || n == 0x1680
    || (0x2000 ≤ n && n ≤ 0x200A) || n == 0x2028 || n == 0x2029 || n == 0x202F
    || n == 0x205F || n == 0x3000

def trimStart (s : List Char) : List Char := s.dropWhile isBlank

def trimEnd (s : List Char) : List Char := (s.reverse.dropWhile isBlank).reverse

def trim (s : List Char) : List Char := trimEnd (trimStart s)

/-- A line that a line feed ended loses the carriage return before that line feed. -/
def dropReturn : List Char → List Char
  | [] => []
  | ['\r'] => []
  | c :: rest => c :: dropReturn rest

/-- Lines of a text, the part read so far of the current line being given in reverse. -/
def linesFrom (current : List Char) : List Char → List (List Char)
  | [] => if current.isEmpty then [] else [current.reverse]
  | '\n' :: rest => dropReturn current.reverse :: linesFrom [] rest
  | c :: rest => linesFrom (c :: current) rest

/-- The lines of a text. A line ends at a line feed, which may follow a carriage return; text after
the last line feed is a line of its own, taken as it stands; an empty text has no line. -/
def lines (s : List Char) : List (List Char) := linesFrom [] s

end WireSchema.Text

import WireSchema.Json.Token

/-!
Reading string literals of generated source.
-/

namespace WireSchema.Text

/-- What a literal can be read in the middle of. -/
inductive LiteralMode where
  | plain
  /-- Behind a backslash. -/
  | escape
  /-- Behind the letter of a code point, in front of its brace. -/
  | brace
  /-- Among the digits of a code point: what they write so far, and how many there were. -/
  | code (value count : Nat)

def shortEscape? (c : Char) : Option Char :=
  match c with
  | '\\' => some '\\'
  | '"' => some '"'
  | 'n' => some '\n'
  | 'r' => some '\r'
  | 't' => some '\t'
  | '0' => some '\x00'
  | _ => none

/-- Reads a literal behind its opening quote, up to the quote that ends it. Gives the text that it
stands for, and what follows it. -/
def readLiteral : LiteralMode → List Char → Option (List Char × List Char)
  | _, [] => none
  | .plain, c :: rest =>
    if c = '"' then some ([], rest)
    else if c = '\\' then readLiteral .escape rest
    else (readLiteral .plain rest).map fun (s, rest) => (c :: s, rest)
  | .escape, c :: rest =>
    if c = 'u' then readLiteral .brace rest
    else
      match shortEscape? c with
      | some d => (readLiteral .plain rest).map fun (s, rest) => (d :: s, rest)
      | none => none
  | .brace, c :: rest => if c = '\x7b' then readLiteral (.code 0 0) rest else none
  | .code value count, c :: rest =>
    if c = '\x7d' then
      if 0 < count ∧ value.isValidChar then
        (readLiteral .plain rest).map fun (s, rest) => (Char.ofNat value :: s, rest)
      else none
    else
      match Json.hexDigit? c with
      | some d => if count < 6 then readLiteral (.code (value * 16 + d) (count + 1)) rest else none
      | none => none

end WireSchema.Text

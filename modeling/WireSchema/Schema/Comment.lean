import WireSchema.Text.Blank

/-!
Comment lines of a schema. A line is a comment if its first characters that are not blank are `//`.
-/

namespace WireSchema

def isComment (line : List Char) : Bool :=
  match Text.trimStart line with
  | '/' :: '/' :: _ => true
  | _ => false

/-- The text with every comment line left empty, so that all other lines keep their number. -/
def stripComments (s : List Char) : List Char :=
  (Text.lines s).flatMap fun line => (if isComment line then [] else line) ++ ['\n']

end WireSchema

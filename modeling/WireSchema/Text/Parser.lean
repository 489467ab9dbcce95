/-!
Parsers: each takes something off the front of a text, or fails. Of two alternatives the second is
tried only where the first fails, and no choice is taken back later.
-/

namespace WireSchema.Text

abbrev Parser := StateT (List Char) Option

namespace Parser

def run (kind : Char → Bool) : Parser (List Char) := fun s =>
  match s.takeWhile kind with
  | [] => none
  | c :: more => some (c :: more, s.dropWhile kind)

def tag (text : List Char) : Parser (List Char) := fun s =>
  if text.isPrefixOf s then some (text, s.drop text.length) else none

/-- Applies a parser as often as it succeeds, and at most `fuel` times. -/
def manyFrom {α : Type} (p : Parser α) : (fuel : Nat) → Parser (List α)
  | 0 => pure []
  | fuel + 1 =>
    (do
      let a ← p
      let more ← manyFrom p fuel
      return a :: more) <|> pure []

def many {α : Type} (p : Parser α) : Parser (List α) := fun s => manyFrom p s.length s

def whole {α : Type} (p : Parser α) (s : List Char) : Option α :=
  match p s with
  | some (a, []) => some a
  | _ => none

end Parser

end WireSchema.Text

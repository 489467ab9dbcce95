import WireSchema.Text.Case
import WireSchema.Text.Cluster

/-!
Snake case: the words of a name in lower case with underscores between them. Words end at `_`, `-`
and space, where case rises, at either side of a number, and before the last capital of a run that
a small letter follows.
-/

namespace WireSchema.Text

/-- A cluster is in upper case if it is its own upper-case form and has a lower-case form too. -/
def isUpper (g : List Char) : Bool := upper g != lower g && g == upper g

/-- A cluster is in lower case if it is its own lower-case form and has an upper-case form too. -/
def isLower (g : List Char) : Bool := upper g != lower g && g == lower g

def isDigit : List Char → Bool
  | [c] => c.isDigit
  | _ => false

def isSeparator : List Char → Bool
  | [c] => c == '_' || c == '-' || c == ' '
  | _ => false

/-- Whether a word ends between a cluster and those that follow it. -/
def endsWord (g : List Char) : List (List Char) → Bool
  | [] => false
  | next :: rest =>
    (isLower g && (isUpper next || isDigit next))
      || (isUpper g && isDigit next)
      || (isDigit g && (isLower next || isUpper next))
      || (isUpper g && isUpper next && rest.head?.any isLower)

/-- Words of a sequence of clusters, the part read so far of the current word being given. Words
may be empty: every separator ends one. -/
def wordsFrom (current : List Char) : List (List Char) → List (List Char)
  | [] => [current]
  | g :: rest =>
    if isSeparator g then current :: wordsFrom [] rest
    else if endsWord g rest then (current ++ g) :: wordsFrom [] rest
    else wordsFrom (current ++ g) rest

def words (s : String) : List (List Char) := wordsFrom [] (clusters s.toList)

def snakeCase (s : String) : String :=
  "_".intercalate ((words s).map fun w => String.ofList (lower w))

end WireSchema.Text

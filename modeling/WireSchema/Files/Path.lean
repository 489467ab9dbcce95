/-!
Paths as text: names with slashes between them.
-/

namespace WireSchema.Files

def splitSlash : List Char → List (List Char)
  | [] => [[]]
  | c :: rest =>
    match splitSlash rest with
    | [] => [[c]]
    | part :: parts => if c = '/' then [] :: part :: parts else (c :: part) :: parts

/-- The names of a path, `.` and `..` among them. -/
def components (path : String) : List String :=
  ((splitSlash path.toList).filter fun part => !part.isEmpty).map String.ofList

/-- Whether a path can only lead to a directory: it ends in a slash, in `.` or in `..`. -/
def leadsToDirectory (path : String) : Bool :=
  match (splitSlash path.toList).getLast? with
  | some [] => true
  | some ['.'] => true
  | some ['.', '.'] => true
  | _ => false

def isLongName (name : String) : Bool := 255 < name.utf8ByteSize

def isLongPath (path : String) : Bool := 4095 < path.utf8ByteSize

def hasNull (path : String) : Bool := path.toList.contains '\x00'

/-- A name that can stand in a path for an entry of a directory. -/
structure IsName (text : String) : Prop where
  nonempty : text ≠ ""
  noSlash : '/' ∉ text.toList
  notHere : text ≠ "."
  notOuter : text ≠ ".."

instance (text : String) : Decidable (IsName text) :=
  decidable_of_iff (text ≠ "" ∧ '/' ∉ text.toList ∧ text ≠ "." ∧ text ≠ "..")
    ⟨fun h => ⟨h.1, h.2.1, h.2.2.1, h.2.2.2⟩,
      fun h => ⟨h.nonempty, h.noSlash, h.notHere, h.notOuter⟩⟩

/-- The name of an entry in a directory, as far as a directory can hold it. -/
structure Name where
  text : String
  isName : IsName text
  short : isLongName text = false
  noNull : hasNull text = false
  deriving DecidableEq

def Name.ofString? (text : String) : Option Name :=
  if h : IsName text ∧ isLongName text = false ∧ hasNull text = false then
    some ⟨text, h.1, h.2.1, h.2.2⟩
  else
    none

def join (directory name : String) : String :=
  match directory.toList.getLast? with
  | none => name
  | some '/' => directory ++ name
  | some _ => directory ++ "/" ++ name

/-- What follows the last dot of a name, if something stands before that dot. -/
def extension? (name : String) : Option String :=
  let reversed := name.toList.reverse
  match reversed.dropWhile (fun c => c != '.') with
  | [] => none
  | [_] => none
  | _ :: _ :: _ => some (String.ofList (reversed.takeWhile fun c => c != '.').reverse)

def sameIgnoringCase (a b : String) : Bool :=
  a.toList.map Char.toLower == b.toList.map Char.toLower

end WireSchema.Files

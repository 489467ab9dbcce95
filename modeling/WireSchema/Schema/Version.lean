import WireSchema.Schema.TypeExpr

/-!
Version predicates: `n` for one version, `n+` for a version and all after it, `lo-hi` for the
versions between two, both included. A blank text is no predicate.
-/

namespace WireSchema

inductive VersionPredicate where
  | exact (n : Int16)
  | minimum (n : Int16)
  | range (lo hi : Int16)
  deriving DecidableEq, Repr

namespace VersionPredicate

def greatestVersion : Nat := 32767

def digitsValue (digits : List Char) : Nat :=
  digits.foldl (fun n d => n * 10 + (d.toNat - '0'.toNat)) 0

def number? (digits : List Char) : Option Int16 :=
  if digitsValue digits ≤ greatestVersion then some (.ofNat (digitsValue digits)) else none

def number : Text.Parser Int16 := do
  let digits ← Text.Parser.run Char.isDigit
  number? digits

def rangeForm : Text.Parser VersionPredicate := do
  let lo ← number
  let _ ← Text.Parser.tag ['-']
  let hi ← number
  return .range lo hi

def minimumForm : Text.Parser VersionPredicate := do
  let n ← number
  let _ ← Text.Parser.tag ['+']
  return .minimum n

def exactForm : Text.Parser VersionPredicate := do
  let n ← number
  return .exact n

/-- The three forms. The longer ones come first, since all of them start with a number. -/
def anyForm : Text.Parser VersionPredicate := rangeForm <|> minimumForm <|> exactForm

def isOrdered : VersionPredicate → Bool
  | range lo hi => lo ≤ hi
  | _ => true

def parse (text : String) : Except AttributeError (Option VersionPredicate) :=
  match Text.trim text.toList with
  | [] => .ok none
  | s =>
    match anyForm.whole s with
    | some p => if p.isOrdered then .ok (some p) else .error (.invalidVersions text)
    | none => .error (.invalidVersions text)

def matchesVersion (p : VersionPredicate) (version : Int) : Bool :=
  match p with
  | exact n => version == n.toInt
  | minimum n => n.toInt ≤ version
  | range lo hi => lo.toInt ≤ version && version ≤ hi.toInt

/-- Whether the predicate holds in every version that is not negative, for that alone. -/
def isUnconditional : VersionPredicate → Bool
  | minimum n => n ≤ 0
  | _ => false

def render : VersionPredicate → String
  | exact n => toString n
  | minimum n => toString n ++ "+"
  | range lo hi => toString lo ++ "-" ++ toString hi

end VersionPredicate

end WireSchema

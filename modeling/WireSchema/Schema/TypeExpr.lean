import WireSchema.Text.Blank
import WireSchema.Text.Parser

/-!
Field types: an optional `[]` for an array, then the name of a primitive or of a record.
-/

namespace WireSchema

inductive IntWidth where
  | w8
  | w16
  | w32
  | w64
  deriving DecidableEq, Repr

namespace IntWidth

def bytes : IntWidth → Nat
  | w8 => 1
  | w16 => 2
  | w32 => 4
  | w64 => 8

/-- How many integers the width tells apart. -/
def modulus : IntWidth → Nat
  | w8 => 0x100
  | w16 => 0x10000
  | w32 => 0x100000000
  | w64 => 0x10000000000000000

def least (w : IntWidth) : Int := -(w.modulus / 2 : Nat)

def greatest (w : IntWidth) : Int := (w.modulus / 2 : Nat) - 1

def holds (w : IntWidth) (v : Int) : Bool := w.least ≤ v && v ≤ w.greatest

/-- The integer of the width that is congruent to `v`: `v` itself if the width holds it. -/
def wrap (w : IntWidth) (v : Int) : Int := v.bmod w.modulus

end IntWidth

/-- The kinds of value that need no record. -/
inductive Primitive where
  | int (width : IntWidth)
  | string
  | bytes
  | uuid
  deriving DecidableEq, Repr

namespace Primitive

def all : List Primitive :=
  [.int .w8, .int .w16, .int .w32, .int .w64, .string, .bytes, .uuid]

def name : Primitive → String
  | .int .w8 => "int8"
  | .int .w16 => "int16"
  | .int .w32 => "int32"
  | .int .w64 => "int64"
  | .string => "string"
  | .bytes => "bytes"
  | .uuid => "uuid"

def ofName? (s : String) : Option Primitive := all.find? fun p => p.name == s

/-- Bytes on the wire of a primitive that has no length before it. -/
def fixedWidth? : Primitive → Option Nat
  | .int w => some w.bytes
  | .uuid => some 16
  | .string => none
  | .bytes => none

def width? : Primitive → Option IntWidth
  | .int w => some w
  | _ => none

end Primitive

inductive Base where
  | primitive (kind : Primitive)
  | record (name : String)
  deriving DecidableEq, Repr

def Base.name : Base → String
  | .primitive kind => kind.name
  | .record name => name

def Base.ofName (s : String) : Base :=
  match Primitive.ofName? s with
  | some kind => .primitive kind
  | none => .record s

inductive AttributeError where
  | unrecognizedType (text : String)
  | invalidVersions (text : String)
  deriving DecidableEq, Repr

def AttributeError.message : AttributeError → String
  | .unrecognizedType text => s!"unrecognized type '{text}'"
  | .invalidVersions text => s!"invalid version predicate '{text}'"

def isIdentStart (c : Char) : Bool := c.isAlpha || c == '_'

def isIdentRest (c : Char) : Bool := c.isAlphanum || c == '_'

/-- ASCII identifiers: letters, digits and underscores, with no digit in front. -/
def isIdentifier : List Char → Bool
  | [] => false
  | c :: rest => isIdentStart c && rest.all isIdentRest

/-- The identifier that a text starts with: a run of letters or an underscore, and behind it runs of
letters and digits, and underscores. -/
def identifier : Text.Parser (List Char) := do
  let first ← Text.Parser.run Char.isAlpha <|> Text.Parser.tag ['_']
  let more ← Text.Parser.many (Text.Parser.run Char.isAlphanum <|> Text.Parser.tag ['_'])
  return first ++ more.flatten

structure TypeExpr where
  isArray : Bool
  base : Base
  deriving DecidableEq, Repr

namespace TypeExpr

/-- The marker of an array, if it is there, and the name behind it. -/
def grammar : Text.Parser (Option (List Char) × List Char) := do
  let marker ← optional (Text.Parser.tag ['[', ']'])
  let base ← identifier
  return (marker, base)

def parse (text : String) : Except AttributeError TypeExpr :=
  match grammar.whole (Text.trim text.toList) with
  | some (marker, base) => .ok ⟨marker.isSome, Base.ofName (String.ofList base)⟩
  | none => .error (.unrecognizedType text)

end TypeExpr

end WireSchema

import WireSchema.Plan.Catalogue
import WireSchema.Plan.Facility
import WireSchema.Schema.Version

/-!
Decoding plans: for each record of a message, how each of its fields is read.
-/

namespace WireSchema

/-- The type of a value in the generated source, spelled so that no record can hide it. -/
def Base.typeName : Base → String
  | .primitive (.int .w8) => "i8"
  | .primitive (.int .w16) => "i16"
  | .primitive (.int .w32) => "i32"
  | .primitive (.int .w64) => "i64"
  | .primitive .uuid => "[u8; 16]"
  | .primitive .string => "::std::string::String"
  | .primitive .bytes => "::std::vec::Vec<u8>"
  | .record name => name

/-- How one value is read: a field, or one item of an array. -/
inductive Rule where
  | primitive (kind : Primitive)
  | record (name decoder : String)
  deriving DecidableEq, Repr

namespace Rule

def kindName : Rule → String
  | primitive kind => kind.name
  | record name _ => name

/-- What is read, whichever decoder reads it. -/
def base : Rule → Base
  | primitive kind => .primitive kind
  | record name _ => .record name

def typeName (r : Rule) : String := r.base.typeName

def width? : Rule → Option IntWidth
  | primitive kind => kind.width?
  | record _ _ => none

def target? : Rule → Option String
  | primitive _ => none
  | record name _ => some name

def facilities : Rule → FacilitySet
  | primitive .string => .ofList [.bigEndian, .errorConstruction]
  | primitive .bytes => .ofList Facility.all
  | primitive _ => .ofList [.bigEndian]
  | record _ _ => .ofList [.errorConstruction]

end Rule

structure FieldPlan where
  /-- The name in the schema. -/
  name : String
  /-- The emitted name. -/
  ident : String
  isArray : Bool
  rule : Rule
  guard : Option VersionPredicate
  default : DefaultLiteral
  about : Option String
  deriving DecidableEq, Repr

namespace FieldPlan

def typeName (f : FieldPlan) : String :=
  if f.isArray then "::std::vec::Vec<" ++ f.rule.typeName ++ ">" else f.rule.typeName

/-- The predicate that gates the read. A minimum of zero gates nothing. -/
def readGuard (f : FieldPlan) : Option VersionPredicate :=
  f.guard.filter fun p => !p.isUnconditional

def isPresent (f : FieldPlan) (version : Int) : Bool :=
  f.readGuard.all fun p => p.matchesVersion version

def facilities (f : FieldPlan) : FacilitySet :=
  if f.isArray then f.rule.facilities.union (.ofList [.lengthDelimited, .errorConstruction])
  else f.rule.facilities

end FieldPlan

structure RecordPlan where
  name : String
  decoder : String
  origin : RecordOrigin
  /-- Set when the record can contain itself through arrays: the decoder that counts levels. -/
  depthDecoder : Option String
  /-- The versions that a common record is declared for. They gate nothing. -/
  versions : Option VersionPredicate
  fields : List FieldPlan
  deriving DecidableEq, Repr

structure UnitPlan where
  messageName : String
  category : String
  /-- The message comes first. -/
  records : List RecordPlan
  facilities : FacilitySet
  deriving DecidableEq, Repr

namespace UnitPlan

def entry? (plan : UnitPlan) : Option RecordPlan := plan.records.head?

def record? (plan : UnitPlan) (name : String) : Option RecordPlan :=
  plan.records.find? fun r => r.name == name

end UnitPlan

def collectFacilities (records : List RecordPlan) : FacilitySet :=
  (records.flatMap RecordPlan.fields).foldl (fun s f => s.union f.facilities) .empty

end WireSchema

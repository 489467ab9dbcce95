/-!
Message schemas: a message with its fields, and the records that its fields may refer to by name.
-/

namespace WireSchema

inductive DefaultLiteral where
  | absent
  | string (text : String)
  | int (value : Int)
  deriving DecidableEq, Repr

def DefaultLiteral.kindName : DefaultLiteral → String
  | .absent => "absent"
  | .string _ => "string literal"
  | .int _ => "integer literal"

/-- A field. Type and versions are kept as written; nested fields declare a record in place. -/
structure Field where
  name : String
  typeText : String
  versions : String
  about : Option String := none
  default : DefaultLiteral := .absent
  ignorable : Option Bool := none
  fields : List Field := []
  deriving Repr

def Field.isInline (f : Field) : Bool := !f.fields.isEmpty

structure CommonRecord where
  name : String
  versions : String
  fields : List Field
  deriving Repr

structure Message where
  category : String
  name : String
  validVersions : String
  flexibleVersions : String
  fields : List Field
  commonRecords : List CommonRecord
  deriving Repr

end WireSchema

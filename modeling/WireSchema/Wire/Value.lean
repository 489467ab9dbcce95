import WireSchema.Schema.TypeExpr
import WireSchema.Wire.Read

/-!
Decoded values.
-/

namespace WireSchema

inductive Value where
  | int (width : IntWidth) (value : Int)
  | uuid (bytes : Bytes)
  | string (text : String)
  | bytes (bytes : Bytes)
  /-- Fields in the order of their declaration, under their emitted names. -/
  | record (fields : List (String × Value))
  | array (items : List Value)
  deriving Repr

namespace Value

def field? : Value → String → Option Value
  | record fields, name => fields.lookup name
  | _, _ => none

def int? : Value → Option Int
  | int _ v => some v
  | _ => none

def string? : Value → Option String
  | string s => some s
  | _ => none

def bytes? : Value → Option Bytes
  | bytes b => some b
  | _ => none

def items? : Value → Option (List Value)
  | array items => some items
  | _ => none

end Value

end WireSchema

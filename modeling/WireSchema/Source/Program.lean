import WireSchema.Plan.Basic

/-!
Generated programs: for each record a struct and the functions that decode it, in a small language
of statements. A function reads from the front of `buf`, fills `res` and returns it, or returns the
first error.
-/

namespace WireSchema.Source

inductive Var where
  | count
  | len
  | uuid
  | payload
  deriving DecidableEq, Repr

inductive Init where
  /-- A varint that is read. -/
  | readVarint
  /-- An unsigned integer of two bytes that is read. -/
  | readLength
  /-- The same number as another variable holds. -/
  | widened (x : Var)
  /-- One less than another variable holds. -/
  | decremented (x : Var)
  /-- Sixteen bytes of zero. -/
  | zeros
  /-- As many bytes as another variable says, taken off the input. -/
  | taken (x : Var)
  deriving DecidableEq, Repr

inductive Condition where
  | version (p : VersionPredicate)
  | isZero (x : Var)
  /-- The length says that the string is null. -/
  | isNull (x : Var)
  /-- The length is greater than that of any string. -/
  | isTooLong (x : Var)
  /-- Fewer bytes are left than the length says. -/
  | isShort (x : Var)
  /-- The nesting level has reached the limit. -/
  | isTooDeep
  deriving DecidableEq, Repr

inductive Failure where
  | unexpectedNull (member : String)
  /-- The variable holds the length at fault. -/
  | invalidLength (member : String) (x : Var)
  /-- The variable holds the number of bytes that are missing. -/
  | unexpectedEnd (x : Var)
  | nestingTooDeep
  deriving DecidableEq, Repr

/-- The nesting level that is handed to a function that counts levels. -/
inductive Level where
  | start
  | next
  deriving DecidableEq, Repr

structure Call where
  function : String
  level : Option Level
  deriving DecidableEq, Repr

inductive Expr where
  | readInt (width : IntWidth)
  | var (x : Var)
  /-- The text of the bytes in a variable, with replacement characters. -/
  | text (x : Var)
  /-- As many bytes as a variable says, taken off the input. -/
  | taken (x : Var)
  | stringLiteral (s : String)
  | intLiteral (v : Int)
  /-- A call whose error is noted as that of a member of a record. -/
  | nested (call : Call) (record member : String)
  deriving DecidableEq, Repr

inductive Sink where
  | assign
  | push
  deriving DecidableEq, Repr

inductive Stmt where
  /-- The result starts with zeros and empty values. -/
  | result (record : String)
  | bind (x : Var) (value : Init)
  /-- Sixteen bytes of the input are read into a variable. -/
  | fill (x : Var)
  | store (sink : Sink) (member : String) (value : Expr)
  | raise (failure : Failure)
  | branch (condition : Condition) (body : List Stmt) (otherwise : List Stmt)
  | block (body : List Stmt)
  /-- As many times as the variable holds, less one. -/
  | loop (x : Var) (body : List Stmt)
  /-- The function returns what another returns. -/
  | delegate (call : Call)
  /-- The function returns its result. -/
  | finish
  deriving Repr

structure Function where
  name : String
  /-- Whether other units may call it. -/
  isPublic : Bool
  /-- Whether it takes a nesting level. -/
  takesLevel : Bool
  returns : String
  body : List Stmt
  deriving Repr

structure Member where
  name : String
  isArray : Bool
  type : Base
  deriving DecidableEq, Repr

structure Struct where
  name : String
  members : List Member
  deriving DecidableEq, Repr

structure MemberDef extends Member where
  about : List String
  deriving Repr

structure StructDef where
  about : List String
  name : String
  members : List MemberDef
  deriving Repr

def StructDef.shape (s : StructDef) : Struct := ⟨s.name, s.members.map MemberDef.toMember⟩

/-- What a record gives: its struct, and one or two functions. -/
structure Definition where
  struct : StructDef
  functions : List Function
  deriving Repr

structure Program where
  messageName : String
  moduleName : String
  /-- Where imported items come from. -/
  runtime : String
  imports : List Facility
  definitions : List Definition
  deriving Repr

/-- What a program is made of, as far as it runs. -/
structure Items where
  structs : List Struct
  functions : List Function
  deriving Repr

end WireSchema.Source

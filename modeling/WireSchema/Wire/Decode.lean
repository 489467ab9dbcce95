import WireSchema.Plan.Basic
import WireSchema.Text.Utf8
import WireSchema.Wire.Value

/-!
Decoding bytes by a plan, without generated code.
-/

namespace WireSchema

namespace Decode

def nullStringLength : Nat := 0xFFFF

def maxStringLength : Nat := 0x7FFF

/-- The most levels of records that contain themselves. -/
def maxNestingDepth : Nat := 64

/-- Why decoding stops without a value. A plan built from a message stops only with a failure of
the input. -/
inductive Halt where
  | failure (error : DecodeError)
  /-- The plan refers to a record that it does not hold. -/
  | missingRecord (name : String)
  /-- Records lie deeper in each other than was allowed for. -/
  | outOfFuel
  deriving DecidableEq, Repr

def Halt.within (record field : String) : Halt → Halt
  | failure e => failure (.nested record field e)
  | h => h

abbrev Reader (α : Type) := Bytes → Except Halt (α × Bytes)

def lift {α : Type} (r : Except DecodeError α) : Except Halt α := r.mapError .failure

/-- The bytes of a varint length, which is one more than their number. -/
def readCompact (ident : String) : Reader Nat := fun input => do
  let (n, rest) ← lift (Wire.readUvarint input)
  if n = 0 then .error (.failure (.unexpectedNull ident)) else return (n.toNat - 1, rest)

/-- A string: two bytes of length, then its bytes. -/
def readString (ident : String) : Reader Value := fun input => do
  let (length, rest) ← lift (Wire.readUnsigned 2 input)
  if length = nullStringLength then .error (.failure (.unexpectedNull ident))
  else if length > maxStringLength then .error (.failure (.invalidLength ident length))
  else
    let (payload, rest) ← lift (Wire.take length rest)
    return (.string (String.ofList (Text.decodeLossy payload)), rest)

def readPrimitive (ident : String) : Primitive → Reader Value
  | .int w => fun input => do
    let (v, rest) ← lift (Wire.readInt w input)
    return (.int w v, rest)
  | .uuid => fun input => do
    let (bytes, rest) ← lift (Wire.take 16 input)
    return (.uuid bytes, rest)
  | .string => readString ident
  | .bytes => fun input => do
    let (length, rest) ← readCompact ident input
    let (payload, rest) ← lift (Wire.take length rest)
    return (.bytes payload, rest)

/-- Reads `n` values after those in `done`, which are given in reverse. -/
def readItems (read : Reader Value) : (n : Nat) → (done : List Value) → Reader (List Value)
  | 0, done => fun input => .ok (done.reverse, input)
  | n + 1, done => fun input => do
    let (v, rest) ← read input
    readItems read n (v :: done) rest

def readField (f : FieldPlan) (read : Reader Value) : Reader Value :=
  if f.isArray then fun input => do
    let (n, rest) ← readCompact f.ident input
    let (items, rest) ← readItems read n [] rest
    return (.array items, rest)
  else read

/-- Reads fields one after the other; those that are absent take no bytes. -/
def readFields (version : Int) (read : FieldPlan → Reader Value)
    (fallback : FieldPlan → Except Halt Value) :
    List FieldPlan → Reader (List (String × Value))
  | [] => fun input => .ok ([], input)
  | f :: fs => fun input => do
    let (v, rest) ←
      if f.isPresent version then readField f (read f) input
      else (fallback f).map fun v => (v, input)
    let (others, rest) ← readFields version read fallback fs rest
    return ((f.ident, v) :: others, rest)

def intValue (rule : Rule) (v : Int) : Value :=
  match rule.width? with
  | some w => .int w (w.wrap v)
  | none => .int .w64 v

/-- The value of a rule that reads nothing: zero, empty, or a record of such values. -/
def zeroOf (plan : UnitPlan) : (fuel : Nat) → Rule → Except Halt Value
  | _, .primitive .uuid => .ok (.uuid (List.replicate 16 0))
  | _, .primitive .string => .ok (.string "")
  | _, .primitive .bytes => .ok (.bytes [])
  | _, .primitive (.int w) => .ok (.int w 0)
  | 0, .record _ _ => .error .outOfFuel
  | fuel + 1, .record name _ =>
    match plan.record? name with
    | none => .error (.missingRecord name)
    | some r => do
      let fields ← r.fields.mapM fun f => do
        let v ← if f.isArray then .ok (.array []) else zeroOf plan fuel f.rule
        return (f.ident, v)
      return .record fields

/-- Levels that the zero value of a field can have: no record lies in its own zero value. -/
def zeroFuel (plan : UnitPlan) : Nat := plan.records.length + 1

/-- The value of a field in a version that leaves it out. -/
def fallback (plan : UnitPlan) (f : FieldPlan) : Except Halt Value :=
  match f.default with
  | .string s => .ok (.string s)
  | .int v => .ok (intValue f.rule v)
  | .absent => if f.isArray then .ok (.array []) else zeroOf plan (zeroFuel plan) f.rule

/-- The level of a record inside another. It goes on counting between two records that count
levels, and starts anew otherwise. -/
def nestedDepth (outer inner : RecordPlan) (depth : Nat) : Nat :=
  if outer.depthDecoder.isSome && inner.depthDecoder.isSome then depth + 1 else 0

def readValue (plan : UnitPlan) (record : RecordPlan) (depth : Nat)
    (nested : RecordPlan → Nat → Reader Value) (f : FieldPlan) : Reader Value :=
  match f.rule with
  | .primitive kind => readPrimitive f.ident kind
  | .record name _ =>
    match plan.record? name with
    | none => fun _ => .error (.missingRecord name)
    | some inner => fun input =>
      (nested inner (nestedDepth record inner depth) input).mapError
        (Halt.within record.name f.ident)

/-- Reads a record at a level, with at most `fuel` records inside each other. -/
def readRecord (plan : UnitPlan) (version : Int) :
    (fuel : Nat) → RecordPlan → (depth : Nat) → Reader Value
  | 0, _, _ => fun _ => .error .outOfFuel
  | fuel + 1, record, depth => fun input =>
    if record.depthDecoder.isSome && maxNestingDepth ≤ depth then
      .error (.failure (.nestingTooDeep maxNestingDepth))
    else do
      let (fields, rest) ←
        readFields version (readValue plan record depth (readRecord plan version fuel))
          (fallback plan) record.fields input
      return (.record fields, rest)

/-- How many records can lie in each other: between two that do not count levels there are at most
`maxNestingDepth` that do. -/
def recordFuel (plan : UnitPlan) : Nat :=
  let uncounted := plan.records.countP fun r => r.depthDecoder.isNone
  maxNestingDepth * (uncounted + 1) + uncounted + 1

end Decode

structure Decoded where
  value : Value
  consumed : Nat
  deriving Repr

def decodeRecord (plan : UnitPlan) (record : RecordPlan) (version : Int) (input : Bytes) :
    Except Decode.Halt Decoded := do
  let (value, rest) ← Decode.readRecord plan version (Decode.recordFuel plan) record 0 input
  return ⟨value, input.length - rest.length⟩

end WireSchema

import WireSchema.Source.Lower
import WireSchema.Wire.Decode

/-!
What generated programs do. A function starts with its input and fills its result statement by
statement, until it returns a record with the input that is left, or an error.
-/

namespace WireSchema.Source

inductive Stop where
  | raised (error : DecodeError)
  /-- It does what has no meaning: a call of nothing, the use of a variable without a value, a
  payload that is not there, a literal out of range. -/
  | stuck
  /-- More calls lie in each other than were allowed for. -/
  | outOfFuel
  deriving DecidableEq, Repr

/-- An error of a nested call becomes one of the member that the call fills. -/
def Stop.within (record member : String) : Stop → Stop
  | raised e => raised (.nested record member e)
  | s => s

def raising {α : Type} (r : Except DecodeError α) : Except Stop α := r.mapError .raised

inductive Local where
  | number (n : Nat)
  | uuid (bytes : Bytes)
  | payload (bytes : Bytes)
  deriving DecidableEq, Repr

structure Frame where
  input : Bytes
  /-- The members of `res`, once it has been declared. -/
  result : Option (List (String × Value))
  /-- The variables in scope, the latest first. -/
  locals : List (Var × Local)

namespace Frame

def number (fr : Frame) (x : Var) : Except Stop Nat :=
  match fr.locals.lookup x with
  | some (.number n) => .ok n
  | _ => .error .stuck

def uuid (fr : Frame) (x : Var) : Except Stop Bytes :=
  match fr.locals.lookup x with
  | some (.uuid bytes) => .ok bytes
  | _ => .error .stuck

def payload (fr : Frame) (x : Var) : Except Stop Bytes :=
  match fr.locals.lookup x with
  | some (.payload bytes) => .ok bytes
  | _ => .error .stuck

/-- Takes bytes off the input without a check; there have to be as many. -/
def take (fr : Frame) (n : Nat) : Except Stop (Bytes × Bytes) :=
  match Wire.split? n fr.input with
  | some r => .ok r
  | none => .error .stuck

def members (fr : Frame) : Except Stop (List (String × Value)) :=
  match fr.result with
  | some fields => .ok fields
  | none => .error .stuck

def member (fr : Frame) (name : String) : Except Stop Value :=
  match fr.result with
  | some fields =>
    match fields.lookup name with
    | some v => .ok v
    | none => .error .stuck
  | none => .error .stuck

def setMember (fr : Frame) (name : String) (v : Value) : Frame :=
  { fr with
    result := fr.result.map fun fields =>
      fields.map fun field => if field.1 = name then (field.1, v) else field }

end Frame

def setLocal (x : Var) (v : Local) : List (Var × Local) → List (Var × Local)
  | [] => []
  | (y, old) :: rest => if y = x then (y, v) :: rest else (y, old) :: setLocal x v rest

def Init.eval (fr : Frame) : Init → Except Stop (Local × Bytes)
  | readVarint => do
    let (n, rest) ← raising (Wire.readUvarint fr.input)
    return (.number n.toNat, rest)
  | readLength => do
    let (n, rest) ← raising (Wire.readUnsigned 2 fr.input)
    return (.number n, rest)
  | widened x => do
    let n ← fr.number x
    return (.number n, fr.input)
  | decremented x => do
    let n ← fr.number x
    if n = 0 then .error .stuck else return (.number (n - 1), fr.input)
  | zeros => .ok (.uuid (List.replicate 16 0), fr.input)
  | taken x => do
    let n ← fr.number x
    let (bytes, rest) ← fr.take n
    return (.payload bytes, rest)

/-- Whether a version lies in a guard: the one, those from it on, or those between two. -/
def guardHolds (version : Int) : VersionPredicate → Bool
  | .exact n => version = n.toInt
  | .minimum n => version ≥ n.toInt
  | .range lo hi => lo.toInt ≤ version ∧ version ≤ hi.toInt

/-- What a function is called with, and how it calls others: by name, with a level or without. -/
structure Activation where
  items : Items
  version : Int
  level : Option Nat
  call : String → Option Nat → Bytes → Except Stop (Value × Bytes)

def Condition.holds (act : Activation) (fr : Frame) : Condition → Except Stop Bool
  | version p => .ok (guardHolds act.version p)
  | isZero x => return (← fr.number x) = 0
  | isNull x => return (← fr.number x) = 0xFFFF
  | isTooLong x => return (← fr.number x) > 0x7FFF
  | isShort x => return fr.input.length < (← fr.number x)
  | isTooDeep =>
    match act.level with
    | some level => .ok (level ≥ Decode.maxNestingDepth)
    | none => .error .stuck

def Failure.eval (fr : Frame) : Failure → Except Stop DecodeError
  | unexpectedNull member => .ok (.unexpectedNull member)
  | invalidLength member x => return .invalidLength member (← fr.number x)
  | unexpectedEnd x => return .unexpectedEnd (← fr.number x) fr.input.length
  | nestingTooDeep => .ok (.nestingTooDeep Decode.maxNestingDepth)

def Activation.levelOf (act : Activation) : Option Level → Except Stop (Option Nat)
  | none => .ok none
  | some .start => .ok (some 0)
  | some .next =>
    match act.level with
    | some level => .ok (some (level + 1))
    | none => .error .stuck

def Activation.run (act : Activation) (c : Call) (input : Bytes) : Except Stop (Value × Bytes) := do
  let level ← act.levelOf c.level
  act.call c.function level input

/-- The value of an expression that is put into a member with the value `old`. An integer literal
has the type of that member. -/
def Expr.eval (act : Activation) (fr : Frame) (old : Value) : Expr → Except Stop (Value × Bytes)
  | readInt w => do
    let (v, rest) ← raising (Wire.readInt w fr.input)
    return (.int w v, rest)
  | var x => do
    let bytes ← fr.uuid x
    return (.uuid bytes, fr.input)
  | text x => do
    let bytes ← fr.payload x
    return (.string (String.ofList (Text.decodeLossy bytes)), fr.input)
  | taken x => do
    let n ← fr.number x
    let (bytes, rest) ← fr.take n
    return (.bytes bytes, rest)
  | stringLiteral s => .ok (.string s, fr.input)
  | intLiteral v =>
    match old with
    | .int w _ => if w.holds v then .ok (.int w v, fr.input) else .error .stuck
    | _ => .error .stuck
  | nested call record member => (act.run call fr.input).mapError (Stop.within record member)

def Sink.apply (old v : Value) : Sink → Except Stop Value
  | assign => .ok v
  | push =>
    match old with
    | .array items => .ok (.array (items ++ [v]))
    | _ => .error .stuck

def Items.struct? (i : Items) (name : String) : Option Struct :=
  i.structs.find? fun s => s.name == name

def Items.function? (i : Items) (name : String) : Option Function :=
  i.functions.find? fun f => f.name == name

/-- The value that a type starts with: zero, empty, or a struct of such values. -/
def Items.zero (i : Items) : (fuel : Nat) → Base → Except Stop Value
  | _, .primitive .uuid => .ok (.uuid (List.replicate 16 0))
  | _, .primitive .string => .ok (.string "")
  | _, .primitive .bytes => .ok (.bytes [])
  | _, .primitive (.int w) => .ok (.int w 0)
  | 0, .record _ => .error .outOfFuel
  | fuel + 1, .record name =>
    match i.struct? name with
    | none => .error .stuck
    | some s => do
      let fields ← s.members.mapM fun m => do
        let v ← if m.isArray then .ok (.array []) else i.zero fuel m.type
        return (m.name, v)
      return .record fields

inductive Flow where
  | next (fr : Frame)
  /-- Out of the function, with a value and the input that is left. -/
  | done (value : Value) (rest : Bytes)

/-- Runs a block: the variables that it declares go out of scope at its end. -/
def inScope (run : Frame → Except Stop Flow) (fr : Frame) : Except Stop Flow := do
  match ← run fr with
  | .next after =>
    return .next { after with locals := after.locals.drop (after.locals.length - fr.locals.length) }
  | .done v rest => return .done v rest

def repeated (run : Frame → Except Stop Flow) : (times : Nat) → Frame → Except Stop Flow
  | 0, fr => .ok (.next fr)
  | times + 1, fr => do
    match ← run fr with
    | .next after => repeated run times after
    | .done v rest => return .done v rest

mutual

def Stmt.exec (act : Activation) : Stmt → Frame → Except Stop Flow
  | .result record, fr => do
    match ← act.items.zero (act.items.structs.length + 2) (.record record) with
    | .record fields => return .next { fr with result := some fields }
    | _ => .error .stuck
  | .bind x value, fr => do
    let (v, rest) ← value.eval fr
    return .next { fr with input := rest, locals := (x, v) :: fr.locals }
  | .fill x, fr => do
    let old ← fr.uuid x
    let (bytes, rest) ← raising (Wire.take old.length fr.input)
    return .next { fr with input := rest, locals := setLocal x (.uuid bytes) fr.locals }
  | .store sink member value, fr => do
    let old ← fr.member member
    let (v, rest) ← value.eval act fr old
    let new ← sink.apply old v
    return .next { fr.setMember member new with input := rest }
  | .raise failure, fr => do
    let e ← failure.eval fr
    .error (.raised e)
  | .branch condition body otherwise, fr => do
    if ← condition.holds act fr then inScope (execAll act body) fr
    else inScope (execAll act otherwise) fr
  | .block body, fr => inScope (execAll act body) fr
  | .loop x body, fr => do
    let n ← fr.number x
    if n = 0 then .error .stuck else repeated (inScope (execAll act body)) (n - 1) fr
  | .delegate call, fr => do
    let (v, rest) ← act.run call fr.input
    return .done v rest
  | .finish, fr => do
    let fields ← fr.members
    return .done (.record fields) fr.input

def execAll (act : Activation) : List Stmt → Frame → Except Stop Flow
  | [], fr => .ok (.next fr)
  | s :: rest, fr => do
    match ← s.exec act fr with
    | .next after => execAll act rest after
    | .done v rest => return .done v rest

end

/-- Runs a function with a level or without one, as it demands. -/
def Function.call (act : Activation) (f : Function) (input : Bytes) :
    Except Stop (Value × Bytes) := do
  if f.takesLevel = act.level.isSome then
    match ← execAll act f.body ⟨input, none, []⟩ with
    | .done v rest => return (v, rest)
    | .next _ => .error .stuck
  else
    .error .stuck

def Items.call (i : Items) (version : Int) :
    (fuel : Nat) → String → Option Nat → Bytes → Except Stop (Value × Bytes)
  | 0, _, _, _ => .error .outOfFuel
  | fuel + 1, name, level, input =>
    match i.function? name with
    | some f => f.call ⟨i, version, level, i.call version fuel⟩ input
    | none => .error .stuck

def Items.decode (i : Items) (fuel : Nat) (decoder : String) (version : Int) (input : Bytes) :
    Except Stop Decoded := do
  let (value, rest) ← i.call version fuel decoder none input
  return ⟨value, input.length - rest.length⟩

end WireSchema.Source

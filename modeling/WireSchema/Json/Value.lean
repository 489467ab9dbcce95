import WireSchema.Json.Tree
import WireSchema.Number.Shortest

/-!
Values of a document, and their text without spaces. The members of an object are in the order of
their keys, and of members with one key the last counts.
-/

namespace WireSchema.Json

inductive Value where
  | null
  | bool (value : Bool)
  | number (value : Number)
  | string (text : String)
  | array (items : List Value)
  | object (members : List (String × Value))
  deriving Repr

abbrev NodeReader (α : Type) := Node → Except Fault α

/-- The fault of a node of another type than the one wanted. What is wrong with a number or a
string by itself comes first. -/
def Node.mismatch : Node → Fault
  | .scalar line (.number none) => ⟨.malformed, line⟩
  | .scalar _ (.string (.error f)) => f
  | .unreadable _ b => b.reading
  | n => ⟨.mismatched, n.line⟩

def checkClosed : Option Break → Except Fault Unit
  | none => .ok ()
  | some b => .error b.reading

def readItems {α : Type} (read : NodeReader α) (items : List Node) (stop : Option Break) :
    Except Fault (List α) := do
  let values ← items.mapM read
  checkClosed stop
  return values

def insertMember (key : String) (value : Value) : List (String × Value) → List (String × Value)
  | [] => [(key, value)]
  | (k, v) :: rest =>
    if key = k then (key, value) :: rest
    else if key < k then (key, value) :: (k, v) :: rest
    else (k, v) :: insertMember key value rest

def readMembers (read : NodeReader Value) (done : List (String × Value)) :
    List (Key × Node) → Except Fault (List (String × Value))
  | [] => .ok done
  | (key, node) :: rest => do
    let name ← key.text
    let value ← read node
    readMembers read (insertMember name value done) rest

/-- Reads any value. Arrays and objects may lie fewer than `depth` deep in each other. -/
def readValue : (depth : Nat) → NodeReader Value
  | _, .scalar _ .null => .ok .null
  | _, .scalar _ (.bool b) => .ok (.bool b)
  | _, .scalar _ (.number (some n)) => .ok (.number n)
  | _, .scalar line (.number none) => .error ⟨.malformed, line⟩
  | _, .scalar _ (.string text) => text.map .string
  | _, .unreadable _ b => .error b.reading
  | depth + 2, .array _ items stop => (readItems (readValue (depth + 1)) items stop).map .array
  | depth + 2, .object _ members stop => do
    let values ← readMembers (readValue (depth + 1)) [] members
    checkClosed stop
    return .object values
  | _, n => .error ⟨.malformed, n.line⟩

/-! ## Text -/

/-- Numbers show a point below ten to the sixteenth and down to five zeros behind it. -/
def floatFormat : DecimalFormat := ⟨-5, 15⟩

def Number.render : Number → String
  | .whole v => toString v
  | .float negative x =>
    (if negative then "-" else "") ++
      (if x.isZero then "0.0" else x.shortest.render floatFormat)

def renderChar (c : Char) : List Char :=
  match c with
  | '"' => ['\\', '"']
  | '\\' => ['\\', '\\']
  | '\x08' => ['\\', 'b']
  | '\x0c' => ['\\', 'f']
  | '\n' => ['\\', 'n']
  | '\r' => ['\\', 'r']
  | '\t' => ['\\', 't']
  | c =>
    if c < ' ' then
      let high := if c.toNat < 16 then '0' else '1'
      ['\\', 'u', '0', '0', high] ++ Nat.toDigits 16 (c.toNat % 16)
    else [c]

def renderString (s : String) : String :=
  String.ofList ('"' :: s.toList.flatMap renderChar ++ ['"'])

mutual

def Value.render : Value → String
  | .null => "null"
  | .bool true => "true"
  | .bool false => "false"
  | .number n => n.render
  | .string s => renderString s
  | .array items => "[" ++ ",".intercalate (renderItems items) ++ "]"
  | .object members => "\x7b" ++ ",".intercalate (renderMembers members) ++ "\x7d"

def renderItems : List Value → List String
  | [] => []
  | v :: rest => v.render :: renderItems rest

def renderMembers : List (String × Value) → List String
  | [] => []
  | (k, v) :: rest => (renderString k ++ ":" ++ v.render) :: renderMembers rest

end

end WireSchema.Json

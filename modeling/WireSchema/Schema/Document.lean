import WireSchema.Json.Value
import WireSchema.Schema.Comment
import WireSchema.Schema.Message

/-!
Schema documents: JSON with comment lines. A record of a document is an object, or an array of the
values of its members in order; members may be missing, and an object may have members that mean
nothing here.
-/

namespace WireSchema

open Json

structure FieldDoc where
  name : String := ""
  typeText : String := ""
  versions : String := ""
  about : Option String := none
  default : Option Json.Value := none
  ignorable : Option Bool := none
  fields : List FieldDoc := []
  deriving Repr

structure CommonDoc where
  name : String := ""
  versions : String := ""
  fields : List FieldDoc := []
  deriving Repr

structure MessageDoc where
  category : String := ""
  name : String := ""
  validVersions : String := ""
  flexibleVersions : String := ""
  fields : List FieldDoc := []
  commonRecords : List CommonDoc := []
  deriving Repr

namespace Doc

/-- A member of a record: its key, and how its value changes the record. -/
structure Member (α : Type) where
  key : String
  read : NodeReader (α → α)

def readText : NodeReader String
  | .scalar _ (.string text) => text
  | n => .error n.mismatch

def readFlag : NodeReader Bool
  | .scalar _ (.bool b) => .ok b
  | n => .error n.mismatch

def readOptional {α : Type} (read : NodeReader α) : NodeReader (Option α)
  | .scalar _ .null => .ok none
  | n => (read n).map some

def member {α β : Type} (key : String) (read : NodeReader β) (set : α → β → α) : Member α :=
  ⟨key, fun n => (read n).map fun b a => set a b⟩

/-- Reads a record from the members of an object. A known key may occur once; the value of any
other key is skipped. -/
def readMembers {α : Type} (shape : List (Member α)) (seen : List String) (a : α) :
    List (Key × Node) → Except Fault α
  | [] => .ok a
  | (key, node) :: rest => do
    let name ← key.text
    match shape.find? (fun m => m.key == name) with
    | none =>
      match node.skipFault? with
      | some f => .error f
      | none => readMembers shape seen a rest
    | some m =>
      if seen.contains name then .error ⟨.mismatched, key.nextLine⟩
      else
        let set ← m.read node
        readMembers shape (name :: seen) (set a) rest

/-- Reads a record from the items of an array, of which there may be fewer than members. -/
def readPositional {α : Type} (a : α) : List (Member α) → List Node → Except Fault α
  | _, [] => .ok a
  | [], n :: _ => .error ⟨.malformed, n.line⟩
  | m :: ms, n :: rest => do
    let set ← m.read n
    readPositional (set a) ms rest

def readRecord {α : Type} (depth : Nat) (shape : List (Member α)) (empty : α) : NodeReader α
  | .array line items stop =>
    if depth ≤ 1 then .error ⟨.malformed, line⟩
    else do
      let a ← readPositional empty shape items
      checkClosed stop
      return a
  | .object line members stop =>
    if depth ≤ 1 then .error ⟨.malformed, line⟩
    else do
      let a ← readMembers shape [] empty members
      checkClosed stop
      return a
  | n => .error n.mismatch

def readArray {α : Type} (depth : Nat) (read : NodeReader α) : NodeReader (List α)
  | .array line items stop =>
    if depth ≤ 1 then .error ⟨.malformed, line⟩ else readItems read items stop
  | n => .error n.mismatch

/-- The members of a field, given how its nested fields and its default are read. -/
def fieldShape (depth : Nat) (nested : NodeReader (List FieldDoc)) : List (Member FieldDoc) :=
  [ member "name" readText fun f v => { f with name := v },
    member "type" readText fun f v => { f with typeText := v },
    member "versions" readText fun f v => { f with versions := v },
    member "about" (readOptional readText) fun f v => { f with about := v },
    member "default" (readOptional (readValue depth)) fun f v => { f with default := v },
    member "ignorable" (readOptional readFlag) fun f v => { f with ignorable := v },
    member "fields" nested fun f v => { f with fields := v } ]

/-- Reads a field. Its nested fields lie two levels deeper. -/
def readField : (depth : Nat) → NodeReader FieldDoc
  | 0 => readRecord 0 (fieldShape 0 fun n => .error n.mismatch) {}
  | 1 => readRecord 1 (fieldShape 0 fun n => .error n.mismatch) {}
  | depth + 2 =>
    readRecord (depth + 2) (fieldShape (depth + 1) (readArray (depth + 1) (readField depth))) {}

def readFields (depth : Nat) : NodeReader (List FieldDoc) :=
  readArray depth (readField (depth - 1))

def commonShape (depth : Nat) : List (Member CommonDoc) :=
  [ member "name" readText fun c v => { c with name := v },
    member "versions" readText fun c v => { c with versions := v },
    member "fields" (readFields depth) fun c v => { c with fields := v } ]

def readCommon (depth : Nat) : NodeReader CommonDoc :=
  readRecord depth (commonShape (depth - 1)) {}

def messageShape (depth : Nat) : List (Member MessageDoc) :=
  [ member "type" readText fun m v => { m with category := v },
    member "name" readText fun m v => { m with name := v },
    member "validVersions" readText fun m v => { m with validVersions := v },
    member "flexibleVersions" readText fun m v => { m with flexibleVersions := v },
    member "fields" (readFields depth) fun m v => { m with fields := v },
    member "commonStructs" (readArray depth (readCommon (depth - 1)))
      fun m v => { m with commonRecords := v } ]

/-- One more than the greatest number of arrays and objects inside each other. -/
def depthLimit : Nat := 128

def readMessage : NodeReader MessageDoc :=
  readRecord depthLimit (messageShape (depthLimit - 1)) {}

end Doc

def MessageDoc.parse (s : List Char) : Except Fault MessageDoc := do
  let document := Json.parse s
  let message ← Doc.readMessage document.root
  match document.trailing with
  | some line => .error ⟨.malformed, line⟩
  | none => return message

end WireSchema

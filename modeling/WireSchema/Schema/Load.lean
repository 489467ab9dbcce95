import WireSchema.Schema.Document
import WireSchema.Schema.TypeExpr

/-!
From a schema document to its message. A default has to be a string or an integer of 64 bits.
-/

namespace WireSchema

open Json

inductive LoadError where
  | json (fault : Fault)
  | unsupportedDefault (field value : String)
  deriving DecidableEq, Repr

def Json.Fault.message (f : Fault) : String :=
  let problem :=
    match f.category with
    | .malformed => "malformed text"
    | .mismatched => "unexpected type"
    | .incomplete => "unexpected end"
  s!"{problem} at line {f.line}"

def LoadError.message : LoadError → String
  | .json f => "invalid schema JSON: " ++ f.message
  | .unsupportedDefault field value =>
    s!"unsupported default literal {value} for field '{field}'"

def DefaultLiteral.ofValue? : Option Json.Value → Option DefaultLiteral
  | none => some .absent
  | some (.string s) => some (.string s)
  | some (.number (.whole v)) => if IntWidth.w64.holds v then some (.int v) else none
  | some _ => none

def FieldDoc.literal (name : String) (value : Option Json.Value) :
    Except LoadError DefaultLiteral :=
  match DefaultLiteral.ofValue? value with
  | some literal => .ok literal
  | none => .error (.unsupportedDefault name ((value.map Json.Value.render).getD ""))

mutual

/-- The field that a document describes. Its own default is looked at before its nested fields. -/
def FieldDoc.toField : FieldDoc → Except LoadError Field
  | ⟨name, typeText, versions, about, default, ignorable, fields⟩ => do
    let literal ← FieldDoc.literal name default
    let nested ← FieldDoc.toFields fields
    return { name := name
             typeText := typeText
             versions := versions
             about := about
             default := literal
             ignorable := ignorable
             fields := nested }

def FieldDoc.toFields : List FieldDoc → Except LoadError (List Field)
  | [] => .ok []
  | f :: rest => do
    let field ← f.toField
    let fields ← FieldDoc.toFields rest
    return field :: fields

end

def CommonDoc.toCommon (c : CommonDoc) : Except LoadError CommonRecord := do
  let fields ← FieldDoc.toFields c.fields
  return { name := c.name, versions := c.versions, fields := fields }

def MessageDoc.toMessage (m : MessageDoc) : Except LoadError Message := do
  let fields ← FieldDoc.toFields m.fields
  let commons ← m.commonRecords.mapM CommonDoc.toCommon
  return { category := m.category
           name := m.name
           validVersions := m.validVersions
           flexibleVersions := m.flexibleVersions
           fields := fields
           commonRecords := commons }

def Message.load (text : String) : Except LoadError Message :=
  match MessageDoc.parse (stripComments text.toList) with
  | .error f => .error (.json f)
  | .ok doc => doc.toMessage

end WireSchema

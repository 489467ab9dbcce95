import WireSchema.Plan.Error
import WireSchema.Schema.Message
import WireSchema.Schema.Names

/-!
The records of a message: the message itself, the records that its fields declare in place, then
each common record with those that its fields declare. A record stands before the ones inside it,
and no name is given twice.
-/

namespace WireSchema

inductive RecordOrigin where
  | message
  | common
  | inline (parent field : String)
  deriving DecidableEq, Repr

/-- A record that needs a type and a decoder of its own. -/
structure RecordDecl where
  name : String
  decoder : String
  origin : RecordOrigin
  /-- The versions that a common record is declared for, as written. -/
  versions : String
  fields : List Field
  deriving Repr

namespace Catalogue

def register (message : String) (known : List RecordDecl) (r : RecordDecl) :
    Except CompileError (List RecordDecl) :=
  if known.any (fun k => k.name == r.name) then .error (.duplicateRecord message r.name)
  else .ok (known ++ [r])

def inlineBase (parent : String) (name typeText : String) : Except CompileError String :=
  match TypeExpr.parse typeText with
  | .error e => .error (.ofAttribute parent name e)
  | .ok ⟨_, .primitive _⟩ => .error (.unrecognizedType parent name typeText)
  | .ok ⟨_, .record base⟩ => .ok base

def inlineDecl (message parent field base : String) (fields : List Field) : RecordDecl :=
  let name := inlineRecordName message base
  { name := name
    decoder := recordDecoderName name
    origin := .inline parent field
    versions := ""
    fields := fields }

mutual

def addField (message parent : String) (known : List RecordDecl) :
    Field → Except CompileError (List RecordDecl)
  | ⟨_, _, _, _, _, _, []⟩ => .ok known
  | ⟨name, typeText, _, _, _, _, f :: fs⟩ => do
    let base ← inlineBase parent name typeText
    let known ← register message known (inlineDecl message parent name base (f :: fs))
    let known ← addField message (inlineRecordName message base) known f
    addFields message (inlineRecordName message base) known fs

def addFields (message parent : String) (known : List RecordDecl) :
    List Field → Except CompileError (List RecordDecl)
  | [] => .ok known
  | f :: rest => do
    let known ← addField message parent known f
    addFields message parent known rest

end

def commonDecl (c : CommonRecord) : RecordDecl :=
  { name := c.name
    decoder := recordDecoderName c.name
    origin := .common
    versions := c.versions
    fields := c.fields }

/-- Adds common records, each with the records that its fields declare in place. -/
def addCommons (message : String) (known : List RecordDecl) :
    List CommonRecord → Except CompileError (List RecordDecl)
  | [] => .ok known
  | c :: rest => do
    let known ← register message known (commonDecl c)
    let known ← addFields message c.name known c.fields
    addCommons message known rest

def messageDecl (m : Message) : RecordDecl :=
  { name := m.name
    decoder := messageDecoderName m.name
    origin := .message
    versions := ""
    fields := m.fields }

/-- All records of a message, in the order in which they are emitted. -/
def ofMessage (m : Message) : Except CompileError (List RecordDecl) := do
  let known ← register m.name [] (messageDecl m)
  let known ← addFields m.name m.name known m.fields
  addCommons m.name known m.commonRecords

end Catalogue

end WireSchema

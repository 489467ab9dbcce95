import WireSchema.Source.Program
import WireSchema.Text.Blank

/-!
From a plan to the program that decodes by it.
-/

namespace WireSchema

/-- What shapes the generated source and not its meaning. -/
structure CompileOptions where
  moduleName : String := "messages"
  runtime : String := "wiregen_runtime"
  deriving DecidableEq, Repr

namespace Source

def failIf (c : Condition) (f : Failure) : Stmt := .branch c [.raise f] []

/-- The call that decodes a record inside another. Where both count levels, counting goes on. -/
def nestedCall (plan : UnitPlan) (outer : RecordPlan) (name decoder : String) : Call :=
  match outer.depthDecoder, (plan.record? name).bind RecordPlan.depthDecoder with
  | some _, some inner => ⟨inner, some .next⟩
  | _, _ => ⟨decoder, none⟩

def readValue (plan : UnitPlan) (record : RecordPlan) (f : FieldPlan) (sink : Sink) : List Stmt :=
  match f.rule with
  | .primitive (.int w) => [.store sink f.ident (.readInt w)]
  | .primitive .uuid =>
    [.block
      [.bind .uuid .zeros,
       .fill .uuid,
       .store sink f.ident (.var .uuid)]]
  | .primitive .string =>
    [.block
      [.bind .len .readLength,
       failIf (.isNull .len) (.unexpectedNull f.ident),
       failIf (.isTooLong .len) (.invalidLength f.ident .len),
       .bind .len (.widened .len),
       failIf (.isShort .len) (.unexpectedEnd .len),
       .bind .payload (.taken .len),
       .store sink f.ident (.text .payload)]]
  | .primitive .bytes =>
    [.block
      [.bind .len .readVarint,
       failIf (.isZero .len) (.unexpectedNull f.ident),
       .bind .len (.decremented .len),
       failIf (.isShort .len) (.unexpectedEnd .len),
       .store sink f.ident (.taken .len)]]
  | .record name decoder =>
    [.store sink f.ident (.nested (nestedCall plan record name decoder) record.name f.ident)]

def readField (plan : UnitPlan) (record : RecordPlan) (f : FieldPlan) : List Stmt :=
  if f.isArray then
    [.block
      [.bind .count .readVarint,
       failIf (.isZero .count) (.unexpectedNull f.ident),
       .loop .count (readValue plan record f .push)]]
  else
    readValue plan record f .assign

/-- Sets a field that is absent to its default. Without one it keeps its zero value. -/
def setDefault (f : FieldPlan) : List Stmt :=
  match f.default with
  | .absent => []
  | .string s => [.store .assign f.ident (.stringLiteral s)]
  | .int v => [.store .assign f.ident (.intLiteral v)]

def fieldBody (plan : UnitPlan) (record : RecordPlan) (f : FieldPlan) : List Stmt :=
  match f.readGuard with
  | none => readField plan record f
  | some p => [.branch (.version p) (readField plan record f) (setDefault f)]

def recordBody (plan : UnitPlan) (record : RecordPlan) : List Stmt :=
  .result record.name :: record.fields.flatMap (fieldBody plan record) ++ [.finish]

/-- The functions of a record. One that counts levels has a second function, and the first only
starts the count. -/
def functions (plan : UnitPlan) (record : RecordPlan) : List Function :=
  match record.depthDecoder with
  | none => [⟨record.decoder, true, false, record.name, recordBody plan record⟩]
  | some counting =>
    [⟨record.decoder, true, false, record.name, [.delegate ⟨counting, some .start⟩]⟩,
     ⟨counting, false, true, record.name,
      failIf .isTooDeep .nestingTooDeep :: recordBody plan record⟩]

def recordAbout (plan : UnitPlan) (record : RecordPlan) : List String :=
  match record.origin with
  | .message =>
    if plan.category.isEmpty then [s!"/// `{record.name}` message."]
    else [s!"/// `{record.name}` message ({plan.category})."]
  | .common =>
    s!"/// Common record `{record.name}`." ::
      match record.versions with
      | none => []
      | some p => ["///", s!"/// Declared for versions `{p.render}`."]
  | .inline parent field => [s!"/// Inline record declared by field `{field}` of `{parent}`."]

def memberAbout (f : FieldPlan) : List String :=
  match f.about with
  | none => []
  | some about =>
    (Text.lines about.toList).map fun line =>
      String.ofList (Text.trimEnd (['/', '/', '/', ' '] ++ line))

def memberDef (f : FieldPlan) : MemberDef := ⟨⟨f.ident, f.isArray, f.rule.base⟩, memberAbout f⟩

def structDef (plan : UnitPlan) (record : RecordPlan) : StructDef where
  about := recordAbout plan record
  name := record.name
  members := record.fields.map memberDef

def struct (record : RecordPlan) : Struct :=
  ⟨record.name, record.fields.map fun f => ⟨f.ident, f.isArray, f.rule.base⟩⟩

def items (plan : UnitPlan) : Items :=
  ⟨plan.records.map struct, plan.records.flatMap (functions plan)⟩

def program (plan : UnitPlan) (options : CompileOptions) : Program where
  messageName := plan.messageName
  moduleName := options.moduleName
  runtime := options.runtime
  imports := plan.facilities.toList
  definitions := plan.records.map fun r => ⟨structDef plan r, functions plan r⟩

end Source

end WireSchema

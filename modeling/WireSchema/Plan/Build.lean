import WireSchema.Plan.Cycle

/-!
From a message to its plan. Types are resolved, versions read and defaults checked field by field;
then no record may contain itself other than through arrays, and all emitted items need names of
their own.
-/

namespace WireSchema

namespace UnitPlan

def resolveRule (message record : String) (commons : List RecordDecl) (f : Field) (base : Base) :
    Except CompileError Rule :=
  match base, f.isInline with
  | .primitive kind, false => .ok (.primitive kind)
  | .primitive _, true => .error (.unrecognizedType record f.name f.typeText)
  | .record base, true =>
    let name := inlineRecordName message base
    .ok (.record name (recordDecoderName name))
  | .record base, false =>
    match commons.find? (fun c => c.name == base) with
    | some common => .ok (.record common.name common.decoder)
    | none => .error (.unrecognizedType record f.name f.typeText)

/-- Why a default does not fit its field, if it does not. Strings fit string fields, integers fit
integer fields wide enough, and arrays and records take no default. -/
def defaultMisfit? (f : Field) (isArray : Bool) (rule : Rule) : Option String :=
  let mismatch := s!"{f.default.kindName} is not valid for type '{f.typeText}'"
  match f.default with
  | .absent => none
  | .string _ =>
    if isArray then some mismatch
    else if rule = .primitive .string then none
    else some mismatch
  | .int v =>
    if isArray then some mismatch
    else
      match rule.width? with
      | some w => if w.holds v then none else some s!"{v} does not fit in {rule.kindName}"
      | none => some mismatch

def planField (message record : String) (commons : List RecordDecl) (f : Field) :
    Except CompileError FieldPlan := do
  let type ← (TypeExpr.parse f.typeText).mapError (.ofAttribute record f.name)
  let guard ← (VersionPredicate.parse f.versions).mapError (.ofAttribute record f.name)
  let rule ← resolveRule message record commons f type.base
  match defaultMisfit? f type.isArray rule with
  | some detail => .error (.unsupportedDefault record f.name detail)
  | none =>
    .ok { name := f.name
          ident := Text.capitalize f.name
          isArray := type.isArray
          rule := rule
          guard := guard
          default := f.default
          about := f.about }

def planFields (message record : String) (commons : List RecordDecl) (taken : List String) :
    List Field → Except CompileError (List FieldPlan)
  | [] => .ok []
  | f :: rest => do
    let planned ← planField message record commons f
    if !isUsable planned.ident then
      .error (.unusableFieldName record f.name planned.ident)
    else if taken.contains planned.ident then
      .error (.duplicateField record f.name)
    else
      let others ← planFields message record commons (planned.ident :: taken) rest
      return planned :: others

def recordVersions (d : RecordDecl) : Except CompileError (Option VersionPredicate) :=
  if d.origin = .common then
    (VersionPredicate.parse d.versions).mapError fun _ => .invalidRecordVersions d.name d.versions
  else
    .ok none

def planRecord (message : String) (commons : List RecordDecl) (d : RecordDecl) :
    Except CompileError RecordPlan := do
  let versions ← recordVersions d
  let fields ← planFields message d.name commons [] d.fields
  return { name := d.name
           decoder := d.decoder
           origin := d.origin
           depthDecoder := none
           versions := versions
           fields := fields }

def rejectRecursive (all : List RecordPlan) : List RecordPlan → Except CompileError Unit
  | [] => .ok ()
  | root :: rest =>
    match Cycle.selfReference? all root.name false with
    | some f => .error (.recursiveRecord root.name f.ident)
    | none => rejectRecursive all rest

/-- Gives a decoder that counts levels to each record that can contain itself. -/
def markDepth (records : List RecordPlan) : List RecordPlan :=
  records.map fun r =>
    { r with
      depthDecoder :=
        (Cycle.selfReference? records r.name true).map fun _ => depthDecoderName r.decoder }

def recordItems (r : RecordPlan) : List String :=
  [r.name, r.decoder] ++ r.depthDecoder.toList

def claimItems (record : String) (taken : List String) :
    List String → Except CompileError (List String)
  | [] => .ok taken
  | item :: rest =>
    if !isUsable item || taken.contains item then .error (.unusableRecordName record item)
    else claimItems record (item :: taken) rest

/-- Checks that all items are usable names, different from each other and from the imports. -/
def checkItems (taken : List String) : List RecordPlan → Except CompileError Unit
  | [] => .ok ()
  | r :: rest => do
    let taken ← claimItems r.name taken (recordItems r)
    checkItems taken rest

def build (m : Message) : Except CompileError UnitPlan := do
  let decls ← Catalogue.ofMessage m
  let commons := decls.filter fun d => d.origin = .common
  let planned ← decls.mapM (planRecord m.name commons)
  rejectRecursive planned planned
  let records := markDepth planned
  let facilities := collectFacilities records
  checkItems facilities.items records
  return { messageName := m.name
           category := m.category
           records := records
           facilities := facilities }

end UnitPlan

end WireSchema

import WireSchema.Schema.TypeExpr

/-!
Why a schema has no plan. Every error names the record at fault, and the field where there is one.
-/

namespace WireSchema

inductive CompileError where
  | unrecognizedType (record field typeText : String)
  | unsupportedDefault (record field detail : String)
  | invalidVersions (record field versions : String)
  | invalidRecordVersions (record versions : String)
  | duplicateField (record field : String)
  | duplicateRecord (message name : String)
  | recursiveRecord (record field : String)
  | unusableFieldName (record field ident : String)
  | unusableRecordName (record item : String)
  deriving DecidableEq, Repr

namespace CompileError

def message : CompileError → String
  | unrecognizedType record field typeText =>
    s!"unrecognized type '{typeText}' for field '{field}' of '{record}'"
  | unsupportedDefault record field detail =>
    s!"unsupported default value for field '{field}' of '{record}': {detail}"
  | invalidVersions record field versions =>
    s!"invalid version predicate '{versions}' for field '{field}' of '{record}'"
  | invalidRecordVersions record versions =>
    s!"invalid version predicate '{versions}' on record '{record}'"
  | duplicateField record field => s!"duplicate field '{field}' in '{record}'"
  | duplicateRecord message name =>
    s!"record '{name}' is declared more than once in '{message}'"
  | recursiveRecord record field =>
    s!"record '{record}' contains itself through field '{field}'"
  | unusableFieldName record field ident =>
    s!"field '{field}' of '{record}' maps to '{ident}', which is not a usable identifier"
  | unusableRecordName record item =>
    s!"record '{record}' needs item '{item}', which is reserved or already defined"

def ofAttribute (record field : String) : AttributeError → CompileError
  | .unrecognizedType text => unrecognizedType record field text
  | .invalidVersions text => invalidVersions record field text

end CompileError

end WireSchema

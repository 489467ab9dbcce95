import WireSchema.Plan.Basic
import WireSchema.Text.Quoted

/-!
The plan as text, one block for each record and one line for each field.
-/

namespace WireSchema

def DefaultLiteral.listing : DefaultLiteral → String
  | .absent => ""
  | .string s => "  default " ++ Text.quote s
  | .int v => s!"  default {v}"

def FieldPlan.listing (f : FieldPlan) : String :=
  let marker := if f.isArray then "[]" else ""
  let gate :=
    match f.guard with
    | some p => "  versions " ++ p.render
    | none => "  always"
  f.ident ++ ": " ++ marker ++ f.rule.kindName ++ gate ++ f.default.listing

def RecordPlan.listingOrigin (r : RecordPlan) : String :=
  match r.origin, r.versions with
  | .message, _ => ""
  | .common, some p => s!" (common, versions {p.render})"
  | .common, none => " (common)"
  | .inline parent field, _ => s!" (inline, {parent}.{field})"

def RecordPlan.listing (r : RecordPlan) : String :=
  let fields := r.fields.map fun f => "    " ++ f.listing ++ "\n"
  s!"record {r.name}{r.listingOrigin} -> {r.decoder}\n" ++ String.join fields

def UnitPlan.listing (plan : UnitPlan) : String :=
  let category := if plan.category.isEmpty then "" else s!" ({plan.category})"
  let imports :=
    if plan.facilities.isEmpty then "none" else ", ".intercalate plan.facilities.items
  let records := plan.records.map fun r => "\n" ++ r.listing
  s!"message {plan.messageName}{category}\nimports: {imports}\n" ++ String.join records

end WireSchema

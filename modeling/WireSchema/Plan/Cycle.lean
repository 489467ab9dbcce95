import WireSchema.Plan.Basic

/-!
Records that contain themselves. The search follows record fields from a root, most recently found
record first, until a field leads back to the root.
-/

namespace WireSchema

namespace Cycle

/-- The record that a field refers to, unless it does so through an array and arrays do not
count. -/
def reference? (throughArrays : Bool) (f : FieldPlan) : Option String :=
  if f.isArray && !throughArrays then none else f.rule.target?

inductive Scan where
  /-- A field that refers to the root. -/
  | found (field : FieldPlan)
  /-- The records still to search, and those found so far. -/
  | unfinished (pending visited : List String)

def scan (root : String) (throughArrays : Bool) :
    List FieldPlan → (pending visited : List String) → Scan
  | [], pending, visited => .unfinished pending visited
  | f :: rest, pending, visited =>
    match reference? throughArrays f with
    | none => scan root throughArrays rest pending visited
    | some target =>
      if target == root then .found f
      else if visited.contains target then scan root throughArrays rest pending visited
      else scan root throughArrays rest (target :: pending) (target :: visited)

/-- Searches the pending records. Each step takes one of them, and no record is pending twice. -/
def search (records : List RecordPlan) (root : String) (throughArrays : Bool) :
    (steps : Nat) → (pending visited : List String) → Option FieldPlan
  | 0, _, _ => none
  | _ + 1, [], _ => none
  | steps + 1, current :: pending, visited =>
    match records.find? (fun r => r.name == current) with
    | none => search records root throughArrays steps pending visited
    | some r =>
      match scan root throughArrays r.fields pending visited with
      | .found f => some f
      | .unfinished pending visited => search records root throughArrays steps pending visited

/-- Enough steps for any search: one for the root and one for each field. -/
def searchSteps (records : List RecordPlan) : Nat :=
  (records.flatMap RecordPlan.fields).length + 1

/-- A field through which the root is reached again, if there is one. -/
def selfReference? (records : List RecordPlan) (root : String) (throughArrays : Bool) :
    Option FieldPlan :=
  search records root throughArrays (searchSteps records) [root] []

end Cycle

end WireSchema

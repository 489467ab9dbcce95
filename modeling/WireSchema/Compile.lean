import WireSchema.Plan.Build
import WireSchema.Plan.Listing
import WireSchema.Source.Emit

/-!
Compiling a message into source.
-/

namespace WireSchema

structure CompiledUnit where
  messageName : String
  fileName : String
  source : String
  plan : UnitPlan

/-- The generated source of a message, with the name of the file it belongs in. -/
def compile (m : Message) (options : CompileOptions) : Except CompileError CompiledUnit := do
  let plan ← UnitPlan.build m
  return { messageName := m.name
           fileName := outputFileName m.name
           source := Source.layout (Source.Emit.unit plan options)
           plan := plan }

end WireSchema

import WireSchema.Proofs.Linked

/-!
The items of a generated unit, its structs and functions, and what names they can have. They are
kept apart from each other, from reserved words and from what the unit imports, but not from the
path that leads to the runtime.
-/

namespace WireSchema

namespace Source

def Program.itemNames (p : Program) : List String :=
  p.definitions.flatMap fun d => d.struct.name :: d.functions.map Function.name

/-- A program defines just the items that were checked. -/
theorem itemNames_program (plan : UnitPlan) (options : CompileOptions) :
    (program plan options).itemNames = plan.records.flatMap UnitPlan.recordItems := by
  have hitems (r : RecordPlan) :
      r.name :: (functions plan r).map Function.name = UnitPlan.recordItems r := by
    unfold functions UnitPlan.recordItems
    cases r.depthDecoder <;> rfl
  simp [Program.itemNames, program, List.flatMap_map, structDef, hitems]

section

variable {m : Message} {plan : UnitPlan} (h : UnitPlan.build m = .ok plan)
  (options : CompileOptions)

include h

/-- The items of a program are those of its message. -/
theorem itemNames_build : (program plan options).itemNames = m.items := by
  rw [itemNames_program]
  obtain ⟨planned, hb, rfl⟩ := UnitPlan.build_eq_ok.mp h
  have hnames := (Catalogue.declared_names_perm m).nodup_iff.mp hb.distinct
  exact UnitPlan.items_planned hb.records hnames

/-- No item has a name that is not usable, or that is imported. -/
theorem itemNames_apart {name : String} (hn : name ∈ (program plan options).itemNames) :
    isUsable name = true ∧ ¬ m.Imports name := by
  rw [itemNames_build h options] at hn
  obtain ⟨planned, hb, rfl⟩ := UnitPlan.build_eq_ok.mp h
  have hnames := (Catalogue.declared_names_perm m).nodup_iff.mp hb.distinct
  exact ((UnitPlan.fresh_items hb.records hnames).mp hb.items).2 name hn

end

theorem isDecoderName_function {m : Message} {plan : UnitPlan} (h : UnitPlan.build m = .ok plan)
    {g : Function} (hg : g ∈ (items plan).functions) : isDecoderName g.name = true := by
  obtain ⟨r, hr, hg⟩ := mem_functions_items.mp hg
  have hdecoder := UnitPlan.build_decoder h hr
  have hnamed := (function_named hg).2
  split at hnamed
  · rw [UnitPlan.build_depthDecoder h hr hnamed]
    exact isDecoderName_append hdecoder _
  · rwa [hnamed]

def firstSegment (path : String) : String := String.ofList (path.toList.takeWhile (· != ':'))

/-- An item of the program has the name that the path to the runtime starts with, so that the path
leads to the item. -/
def Program.ShadowsRuntime (p : Program) : Prop := firstSegment p.runtime ∈ p.itemNames

/-- An item shadows the path to the runtime just if the message has an item named like its first
segment. That name is then usable and not imported, and the name of a record unless it begins like
that of a decoder. -/
theorem shadowsRuntime_iff {m : Message} {options : CompileOptions} {u : CompiledUnit}
    (h : compile m options = .ok u) :
    ∃ plan, UnitPlan.build m = .ok plan ∧ u.source = (program plan options).render ∧
      ((program plan options).ShadowsRuntime ↔ firstSegment options.runtime ∈ m.items) ∧
      ((program plan options).ShadowsRuntime →
        isUsable (firstSegment options.runtime) = true ∧
          ¬ m.Imports (firstSegment options.runtime)) ∧
      (isDecoderName (firstSegment options.runtime) = false →
        ((program plan options).ShadowsRuntime ↔
          firstSegment options.runtime ∈ m.recordNames)) := by
  obtain ⟨plan, hb, hsource⟩ := compile_program h
  have hitems : (program plan options).ShadowsRuntime ↔ firstSegment options.runtime ∈ m.items := by
    rw [Program.ShadowsRuntime, itemNames_build hb options]
    rfl
  refine ⟨plan, hb, hsource, hitems, ?_, ?_⟩
  · intro hshadows
    exact itemNames_apart hb options hshadows
  · intro hname
    rw [hitems]
    exact Message.mem_items_iff hname

end Source

namespace Samples

/-- A message with a record named after the library that the runtime is in by default. -/
def runtimeRequest : Message where
  category := "request"
  name := "Foo"
  validVersions := "0"
  flexibleVersions := ""
  fields := [plain "x" "wiregen_runtime" "0+"]
  commonRecords :=
    [{ name := "wiregen_runtime", versions := "0+", fields := [plain "y" "int8" "0+"] }]

def runtimePlan : UnitPlan where
  messageName := "Foo"
  category := "request"
  records :=
    [{ name := "Foo"
       decoder := "ReadFoo"
       origin := .message
       depthDecoder := none
       versions := none
       fields :=
         [⟨"x", "X", false, .record "wiregen_runtime" "NewWiregen_runtime", some (.minimum 0),
           .absent, none⟩] },
     { name := "wiregen_runtime"
       decoder := "NewWiregen_runtime"
       origin := .common
       depthDecoder := none
       versions := some (.minimum 0)
       fields := [⟨"y", "Y", false, .primitive (.int .w8), some (.minimum 0), .absent, none⟩] }]
  facilities := ⟨true, true, false⟩

theorem build_runtimeRequest : UnitPlan.build runtimeRequest = .ok runtimePlan := by rfl

theorem compile_runtimeRequest : ∃ u, compile runtimeRequest {} = .ok u :=
  ⟨_, bind_eq_ok.mpr ⟨runtimePlan, build_runtimeRequest, rfl⟩⟩

end Samples

namespace Source

theorem shadowsRuntime_iff_default :
    ∃ u plan, compile Samples.runtimeRequest {} = .ok u ∧
      UnitPlan.build Samples.runtimeRequest = .ok plan ∧
      u.source = (program plan {}).render ∧
      isDecoderName "wiregen_runtime" = false ∧
      ((program plan {}).ShadowsRuntime ↔
        "wiregen_runtime" ∈ Samples.runtimeRequest.recordNames) := by
  obtain ⟨u, hu⟩ := Samples.compile_runtimeRequest
  obtain ⟨plan, hb, hsource, _, _, hrecords⟩ := shadowsRuntime_iff hu
  have hsegment : firstSegment "wiregen_runtime" = "wiregen_runtime" := by decide +kernel
  have hdecoder : isDecoderName "wiregen_runtime" = false := by decide +kernel
  rw [show ({} : CompileOptions).runtime = "wiregen_runtime" from rfl, hsegment] at hrecords
  exact ⟨u, plan, hu, hb, hsource, hdecoder, hrecords hdecoder⟩

/-- With the default path, a record named after it is compiled all the same, and shadows it. -/
theorem runtimeRequest_shadowsRuntime :
    isIdentifier (firstSegment ({} : CompileOptions).runtime).toList = true ∧
      ∃ u, compile Samples.runtimeRequest {} = .ok u ∧
        u.source = (program Samples.runtimePlan {}).render ∧
        (program Samples.runtimePlan {}).ShadowsRuntime := by
  have hshadows : (program Samples.runtimePlan {}).ShadowsRuntime := by
    rw [Program.ShadowsRuntime, itemNames_program]
    decide +kernel
  obtain ⟨u, hu⟩ := Samples.compile_runtimeRequest
  obtain ⟨plan, hb, hsource⟩ := compile_program hu
  cases hb.symm.trans Samples.build_runtimeRequest
  exact ⟨by decide +kernel, u, hu, hsource, hshadows⟩

end Source

end WireSchema

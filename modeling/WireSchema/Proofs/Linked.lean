import WireSchema.Proofs.Sources

/-!
Every name has its definition. In a plan the fields refer to records of the plan, and in its source
the calls go to functions of the source, which take what they are handed and return what is stored.
-/

namespace WireSchema

namespace UnitPlan

/-- A field refers to one record of the plan, by the decoder that this record has. It is not the
message, whose name no other record has. -/
theorem build_refers {m : Message} {plan : UnitPlan} (h : build m = .ok plan) {r : RecordPlan}
    (hr : r ∈ plan.records) {f : FieldPlan} (hf : f ∈ r.fields) {name decoder : String}
    (he : f.rule = .record name decoder) :
    ∃ s, plan.records.filter (fun t => t.name == name) = [s] ∧ s.decoder = decoder ∧
      s.origin ≠ .message ∧ name ≠ plan.messageName := by
  have hsound := build_sound h
  obtain ⟨entry, _, hentry, hename, heorigin⟩ := build_entry h
  obtain ⟨planned, hb, rfl⟩ := build_eq_ok.mp h
  obtain ⟨q, hq, rfl⟩ := mem_markDepth.mp hr
  obtain ⟨t, ht, rfl, rfl, horigin⟩ := planned_linked hb.records hq hf he
  have hm : mark planned t ∈ markDepth planned := mem_markDepth.mpr ⟨t, ht, rfl⟩
  refine ⟨mark planned t, filter_of_mem hsound.names hm, rfl, horigin, ?_⟩
  intro hname
  -- A record with the name of the message would be the message.
  have hsame := (hsound.record?_of_mem hm).symm.trans
    (hname.trans hename.symm ▸ hsound.record?_of_mem hentry)
  have horigins := congrArg RecordPlan.origin (Option.some.inj hsame)
  exact horigin (horigins.trans heorigin)

end UnitPlan

namespace Source

mutual

def Stmt.parts : Stmt → List Stmt
  | .branch condition body otherwise =>
    .branch condition body otherwise :: (allParts body ++ allParts otherwise)
  | .block body => .block body :: allParts body
  | .loop x body => .loop x body :: allParts body
  | s => [s]

def allParts : List Stmt → List Stmt
  | [] => []
  | s :: rest => s.parts ++ allParts rest

end

theorem mem_allParts {s : Stmt} {ss : List Stmt} : s ∈ allParts ss ↔ ∃ t ∈ ss, s ∈ t.parts := by
  induction ss with
  | nil => simp [allParts]
  | cons t rest ih => simp [allParts, ih]

namespace Items

/-- A call goes to a function that is there once. A level is handed over just if the function takes
one, and it is the next level only where the caller has one itself. -/
structure Resolves (p : Items) (caller : Function) (call : Call) (callee : Function) : Prop where
  emitted : p.functions.filter (fun g => g.name == call.function) = [callee]
  arguments : callee.takesLevel = call.level.isSome
  level : call.level = some .next → caller.takesLevel = true

/-- A member of a struct holds records of a type, each struct and member being there once. -/
def Stores (p : Items) (record member : String) (isArray : Bool) (type : String) : Prop :=
  ∃ s d, p.structs.filter (fun t => t.name == record) = [s] ∧
    s.members.filter (fun c => c.name == member) = [d] ∧ d.isArray = isArray ∧
    d.type = .record type

/-- All names that items use have their definitions among them. -/
structure Linked (p : Items) : Prop where
  /-- A function that returns what another returns has the same type. -/
  delegates : ∀ g ∈ p.functions, ∀ call, .delegate call ∈ allParts g.body →
    ∃ callee, p.Resolves g call callee ∧ callee.returns = g.returns
  /-- What a call returns fits the member that it is stored in. -/
  stores : ∀ g ∈ p.functions, ∀ sink member call record field,
    .store sink member (.nested call record field) ∈ allParts g.body →
    ∃ callee, p.Resolves g call callee ∧
      p.Stores g.returns member (sink == .push) callee.returns ∧
      record = g.returns ∧ field = member
  /-- The result that a function fills is of the type that it returns. -/
  results : ∀ g ∈ p.functions, ∀ record, .result record ∈ allParts g.body → record = g.returns
  returned : ∀ g ∈ p.functions, ∃ s, p.structs.filter (fun t => t.name == g.returns) = [s]
  members : ∀ s ∈ p.structs, ∀ d ∈ s.members, ∀ name, d.type = .record name →
    ∃ t, p.structs.filter (fun u => u.name == name) = [t]

end Items

/-- What the statements in the body of a record are, so far as they use names of the program. -/
def IsBodyPart (plan : UnitPlan) (record : RecordPlan) : Stmt → Prop
  | .result name => name = record.name
  | .delegate _ => False
  | .store sink member (.nested call name field) =>
    ∃ f ∈ record.fields, ∃ target decoder, f.rule = .record target decoder ∧
      call = nestedCall plan record target decoder ∧ f.isArray = (sink == .push) ∧
      member = f.ident ∧ name = record.name ∧ field = f.ident
  | .store _ member _ => ∃ f ∈ record.fields, member = f.ident
  | _ => True

section

variable {plan : UnitPlan} {record : RecordPlan} {f : FieldPlan}

/-- The call of a record's decoder is the one statement that uses a name of another record. -/
theorem readValue_parts (hf : f ∈ record.fields) {sink : Sink}
    (hs : f.isArray = (sink == .push)) :
    ∀ s ∈ allParts (readValue plan record f sink), IsBodyPart plan record s := by
  have hident : ∃ g ∈ record.fields, f.ident = g.ident := ⟨f, hf, rfl⟩
  cases hr : f.rule with
  | primitive kind =>
    cases kind <;> simp [readValue, hr, failIf, allParts, Stmt.parts, IsBodyPart, hident]
  | record name decoder =>
    simp only [readValue, hr, allParts, Stmt.parts, List.append_nil, List.forall_mem_singleton]
    exact ⟨f, hf, name, decoder, hr, rfl, hs, rfl, rfl, rfl⟩

theorem readField_parts (hf : f ∈ record.fields) :
    ∀ s ∈ allParts (readField plan record f), IsBodyPart plan record s := by
  unfold readField
  split
  · rename_i ha
    have hvalue : ∀ s ∈ allParts (readValue plan record f .push), IsBodyPart plan record s :=
      readValue_parts hf ha
    simpa [failIf, allParts, Stmt.parts, IsBodyPart] using hvalue
  · rename_i ha
    apply readValue_parts hf
    exact Bool.eq_false_of_not_eq_true ha

theorem setDefault_parts (hf : f ∈ record.fields) :
    ∀ s ∈ allParts (setDefault f), IsBodyPart plan record s := by
  have hident : ∃ g ∈ record.fields, f.ident = g.ident := ⟨f, hf, rfl⟩
  cases hd : f.default <;> simp [setDefault, hd, allParts, Stmt.parts, IsBodyPart, hident]

theorem fieldBody_parts (hf : f ∈ record.fields) :
    ∀ s ∈ allParts (fieldBody plan record f), IsBodyPart plan record s := by
  unfold fieldBody
  split
  · exact readField_parts hf
  · intro s hs
    simp only [allParts, Stmt.parts, List.append_nil, List.mem_cons, List.mem_append] at hs
    rcases hs with rfl | hs | hs
    · trivial
    · exact readField_parts hf s hs
    · exact setDefault_parts hf s hs

/-- What a decoder's body uses: the members of its own struct, and the decoders of the records
that its fields refer to. -/
theorem recordBody_parts :
    ∀ s ∈ allParts (recordBody plan record), IsBodyPart plan record s := by
  intro s hs
  obtain ⟨t, ht, hs⟩ := mem_allParts.mp hs
  simp only [recordBody, List.cons_append, List.mem_cons, List.mem_append, List.mem_flatMap,
    List.not_mem_nil, or_false] at ht
  rcases ht with rfl | ⟨f, hf, ht⟩ | rfl
  · simp only [Stmt.parts, List.mem_singleton] at hs
    subst hs
    rfl
  · exact fieldBody_parts hf s (mem_allParts.mpr ⟨t, ht, hs⟩)
  · simp only [Stmt.parts, List.mem_singleton] at hs
    subst hs
    trivial

/-- A function of a record has its body, and then it takes a level just if the record counts them;
or it starts the count. -/
theorem function_parts {g : Function} (hg : g ∈ functions plan record) {s : Stmt}
    (hs : s ∈ allParts g.body) :
    (IsBodyPart plan record s ∧ g.takesLevel = record.depthDecoder.isSome) ∨
      ∃ counting, record.depthDecoder = some counting ∧
        s = .delegate ⟨counting, some .start⟩ := by
  cases hd : record.depthDecoder with
  | none =>
    simp only [functions, hd, List.mem_singleton] at hg
    subst hg
    exact .inl ⟨recordBody_parts s hs, rfl⟩
  | some counting =>
    simp only [functions, hd, List.mem_cons, List.not_mem_nil, or_false] at hg
    rcases hg with rfl | rfl
    · simp only [allParts, Stmt.parts, List.append_nil, List.mem_singleton] at hs
      exact .inr ⟨counting, rfl, hs⟩
    · simp only [failIf, allParts, Stmt.parts, List.append_nil, List.cons_append, List.nil_append,
        List.mem_cons] at hs
      rcases hs with rfl | rfl | hs
      · exact .inl ⟨trivial, rfl⟩
      · exact .inl ⟨trivial, rfl⟩
      · exact .inl ⟨recordBody_parts s hs, rfl⟩

/-- The functions of a record are its decoder, and the one that counts levels if there is one. -/
theorem function_named {g : Function} (hg : g ∈ functions plan record) :
    g.returns = record.name ∧
      if g.takesLevel then record.depthDecoder = some g.name else g.name = record.decoder := by
  cases hd : record.depthDecoder with
  | none =>
    simp only [functions, hd, List.mem_singleton] at hg
    subst hg
    simp
  | some counting =>
    simp only [functions, hd, List.mem_cons, List.not_mem_nil, or_false] at hg
    rcases hg with rfl | rfl <;> simp

theorem decoder_mem_functions (plan : UnitPlan) (record : RecordPlan) :
    ∃ g ∈ functions plan record, g.name = record.decoder ∧ g.takesLevel = false := by
  unfold functions
  cases record.depthDecoder <;> simp

theorem depthDecoder_mem_functions (plan : UnitPlan) {counting : String}
    (hd : record.depthDecoder = some counting) :
    ∃ g ∈ functions plan record, g.name = counting ∧ g.takesLevel = true := by
  simp [functions, hd]

end

section

variable {plan : UnitPlan} (h : plan.Sound) {record : RecordPlan} (hr : record ∈ plan.records)

include h hr

/-- A function is there once, since the names of items are different from each other. -/
theorem functions_filter {g : Function} (hg : g ∈ functions plan record) :
    (items plan).functions.filter (fun q => q.name == g.name) = [g] :=
  filter_of_mem (functions_names_nodup h) (List.mem_flatMap.mpr ⟨record, hr, hg⟩)

theorem structs_filter :
    (items plan).structs.filter (fun t => t.name == record.name) = [struct record] := by
  have hnames : (plan.records.map struct).map Struct.name = plan.records.map RecordPlan.name := by
    simp [struct, Function.comp_def]
  exact filter_of_mem (hnames ▸ h.names) (List.mem_map_of_mem hr)

theorem stores_items {f : FieldPlan} (hf : f ∈ record.fields) {name decoder : String}
    (he : f.rule = .record name decoder) :
    (items plan).Stores record.name f.ident f.isArray name := by
  have hnames : ((struct record).members.map Member.name).Nodup := by
    simpa [struct, Function.comp_def] using h.idents record hr
  have hmember := filter_of_mem hnames (List.mem_map_of_mem hf)
  refine ⟨_, _, structs_filter h hr, hmember, rfl, ?_⟩
  rw [he]
  rfl

/-- A call for a field goes to the record that the field refers to: to the function that counts
levels where both records have one, and to the decoder otherwise. -/
theorem nestedCall_resolves {f : FieldPlan} (hf : f ∈ record.fields) {name decoder : String}
    (he : f.rule = .record name decoder) {caller : Function}
    (hc : caller.takesLevel = record.depthDecoder.isSome) :
    ∃ callee, (items plan).Resolves caller (nestedCall plan record name decoder) callee ∧
      callee.returns = name := by
  obtain ⟨inner, hi, hfound, rfl, rfl⟩ := h.record?_of_rule hr hf he
  obtain ⟨g, hg, hname, hlevel⟩ := decoder_mem_functions plan inner
  have hplain : (items plan).Resolves caller ⟨inner.decoder, none⟩ g :=
    ⟨hname ▸ functions_filter h hi hg, hlevel, nofun⟩
  have hreturns := (function_named hg).1
  cases ho : record.depthDecoder with
  | none =>
    simp only [nestedCall, ho]
    exact ⟨g, hplain, hreturns⟩
  | some outer =>
    cases hd : inner.depthDecoder with
    | none =>
      simp only [nestedCall, ho, hfound, hd, Option.bind_some]
      exact ⟨g, hplain, hreturns⟩
    | some counting =>
      simp only [nestedCall, ho, hfound, hd, Option.bind_some]
      obtain ⟨q, hq, hname, hlevel⟩ := depthDecoder_mem_functions plan hd
      refine ⟨q, ⟨hname ▸ functions_filter h hi hq, hlevel, ?_⟩, (function_named hq).1⟩
      intro _
      rw [hc, ho]
      rfl

/-- The decoder that starts the count finds the one that counts. -/
theorem startCall_resolves {counting : String} (hd : record.depthDecoder = some counting)
    (caller : Function) :
    ∃ callee, (items plan).Resolves caller ⟨counting, some .start⟩ callee ∧
      callee.returns = record.name := by
  obtain ⟨q, hq, hname, hlevel⟩ := depthDecoder_mem_functions plan hd
  exact ⟨q, ⟨hname ▸ functions_filter h hr hq, hlevel, nofun⟩, (function_named hq).1⟩

end

theorem mem_functions_items {plan : UnitPlan} {g : Function} :
    g ∈ (items plan).functions ↔ ∃ r ∈ plan.records, g ∈ functions plan r := List.mem_flatMap

/-- The items of a sound plan are linked. -/
theorem items_linked {plan : UnitPlan} (h : plan.Sound) : (items plan).Linked := by
  constructor
  case delegates =>
    intro g hg call hs
    obtain ⟨record, hr, hg⟩ := mem_functions_items.mp hg
    rw [(function_named hg).1]
    rcases function_parts hg hs with ⟨hpart, _⟩ | ⟨counting, hd, hcall⟩
    · exact hpart.elim
    · cases hcall
      exact startCall_resolves h hr hd g
  case stores =>
    intro g hg sink member call name field hs
    obtain ⟨record, hr, hg⟩ := mem_functions_items.mp hg
    rw [(function_named hg).1]
    rcases function_parts hg hs with ⟨hpart, hlevel⟩ | ⟨_, _, hcall⟩
    · obtain ⟨f, hf, target, decoder, he, rfl, ha, rfl, rfl, rfl⟩ := hpart
      obtain ⟨callee, hresolves, rfl⟩ := nestedCall_resolves h hr hf he hlevel
      exact ⟨callee, hresolves, ha ▸ stores_items h hr hf he, rfl, rfl⟩
    · cases hcall
  case results =>
    intro g hg name hs
    obtain ⟨record, _, hg⟩ := mem_functions_items.mp hg
    rw [(function_named hg).1]
    rcases function_parts hg hs with ⟨hpart, _⟩ | ⟨_, _, hcall⟩
    · exact hpart
    · cases hcall
  case returned =>
    intro g hg
    obtain ⟨record, hr, hg⟩ := mem_functions_items.mp hg
    rw [(function_named hg).1]
    exact ⟨_, structs_filter h hr⟩
  case members =>
    intro s hs d hd name he
    obtain ⟨record, hr, rfl⟩ := List.mem_map.mp hs
    obtain ⟨f, hf, rfl⟩ := List.mem_map.mp hd
    cases hrule : f.rule with
    | primitive kind =>
      rw [hrule] at he
      cases he
    | record target decoder =>
      rw [hrule] at he
      cases he
      obtain ⟨inner, hi, _, rfl, _⟩ := h.record?_of_rule hr hf hrule
      exact ⟨_, structs_filter h hi⟩

end Source

open Decode Source

/-- A plan that was built refers to nothing that it does not hold, so that neither decoding nor the
value of an absent field ever misses a record. What is read from the texts of its records calls
nothing that is not there, and the source as a whole holds nothing else if no free text breaks a
line. -/
theorem UnitPlan.build_linked {m : Message} {plan : UnitPlan} (h : build m = .ok plan) :
    (∃ entry, plan.entry? = some entry ∧ entry.name = plan.messageName ∧
      entry.origin = .message) ∧
    (∀ r ∈ plan.records, ∀ f ∈ r.fields, ∀ name decoder, f.rule = .record name decoder →
      ∃ s, plan.records.filter (fun t => t.name == name) = [s] ∧ plan.record? name = some s ∧
        s.decoder = decoder ∧ s.origin ≠ .message ∧ name ≠ plan.messageName) ∧
    (∀ r ∈ plan.records,
      (∀ version input name, decodeRecord plan r version input ≠ .error (.missingRecord name)) ∧
      ∀ f ∈ r.fields, ∃ v, zeroOf plan (zeroFuel plan) f.rule = .ok v) ∧
    ∀ options, ∃ unit held, compile m options = .ok unit ∧ unit.plan = plan ∧
      unit.source = headText plan options ++ String.join (plan.records.map fun r =>
        description plan r ++ recordText plan r options.runtime) ∧
      readTexts options.runtime (plan.records.map fun r => recordText plan r options.runtime) =
        some held ∧
      held.Linked ∧
      (∀ g ∈ held.functions, ∃ r ∈ plan.records, g.returns = r.name ∧
        if g.takesLevel then r.depthDecoder = some g.name ∧ g.name = depthDecoderName r.decoder
        else g.name = r.decoder) ∧
      ('\n' ∉ m.category.toList → '\n' ∉ options.moduleName.toList →
        (readSource options.runtime unit.source.toList).map Contents.toItems = some held) := by
  have hsound := build_sound h
  refine ⟨?_, ?_, ?_, ?_⟩
  · obtain ⟨entry, hentry, _, hname, horigin⟩ := build_entry h
    exact ⟨entry, hentry, hname, horigin⟩
  · intro r hr f hf name decoder he
    obtain ⟨s, hs, hdecoder, horigin, hname⟩ := build_refers h hr hf he
    have hfound : plan.record? name = some s := by
      rw [record?, ← List.head?_filter, hs]
      rfl
    exact ⟨s, hs, hfound, hdecoder, horigin, hname⟩
  · intro r hr
    refine ⟨?_, fun f hf => zeroOf_ok hsound hr hf⟩
    intro version input name hd
    rcases bind_eq_error.mp hd with hread | ⟨_, _, he⟩
    · obtain ⟨e, he⟩ := readRecord_onlyFails hsound hr version input _ hread
      cases he
    · cases he
  · intro options
    obtain ⟨unit, hcompile, hplan, hsource, htexts, hread⟩ := compile_texts h options
    refine ⟨unit, items plan, hcompile, hplan, hsource, htexts, items_linked hsound, ?_, hread⟩
    intro g hg
    obtain ⟨r, hr, hg⟩ := mem_functions_items.mp hg
    obtain ⟨hreturns, hname⟩ := function_named hg
    refine ⟨r, hr, hreturns, ?_⟩
    split
    · rename_i hlevel
      rw [if_pos hlevel] at hname
      exact ⟨hname, build_depthDecoder h hr hname⟩
    · rename_i hlevel
      rwa [if_neg hlevel] at hname

theorem UnitPlan.build_linked_tree :
    build Samples.treeResponse = .ok Samples.treePlan ∧
      Samples.node ∈ Samples.treePlan.records ∧
      (∃ s, Samples.treePlan.records.filter (fun t => t.name == "Node") = [s] ∧
        s.decoder = "NewNode" ∧ "Node" ≠ Samples.treePlan.messageName) ∧
      (∀ input name, decodeRecord Samples.treePlan Samples.node 0 input ≠
        .error (.missingRecord name)) ∧
      ∃ unit held, compile Samples.treeResponse {} = .ok unit ∧
        (readSource "wiregen_runtime" unit.source.toList).map Contents.toItems = some held ∧
        held.Linked := by
  have hm : Samples.node ∈ Samples.treePlan.records := by simp [Samples.treePlan]
  obtain ⟨_, hrefers, hdecode, hsource⟩ := build_linked Samples.build_treeResponse
  obtain ⟨s, hs, _, hdecoder, _, hname⟩ := hrefers Samples.node hm _
    (List.mem_cons_of_mem _ List.mem_cons_self) "Node" "NewNode" rfl
  obtain ⟨unit, held, hcompile, _, _, _, hlinked, _, hread⟩ := hsource {}
  exact ⟨Samples.build_treeResponse, hm, ⟨s, hs, hdecoder, hname⟩,
    (hdecode Samples.node hm).1 0, unit, held, hcompile, hread (by decide) (by decide), hlinked⟩

namespace Samples

def impostor : Function := ⟨"NewNode", true, false, "Node", []⟩

def crowdedTree : Message :=
  { treeResponse with
    category := "response\n" ++ layout (impostor.marks "wiregen_runtime") ++ "//" }

def crowdedPlan : UnitPlan := { treePlan with category := crowdedTree.category }

end Samples

/-- A category can bring in a second function by the name of a decoder that is called. -/
theorem UnitPlan.category_doubles_decoder :
    build Samples.crowdedTree = .ok Samples.crowdedPlan ∧
      ∃ unit held, compile Samples.crowdedTree {} = .ok unit ∧
        (readSource "wiregen_runtime" unit.source.toList).map Contents.toItems = some held ∧
        (held.functions.filter fun g => g.name == "NewNode").length = 2 ∧
        (∃ g ∈ held.functions, .store .assign "Root"
          (.nested ⟨"NewNode", none⟩ "TreeResponse" "Root") ∈ allParts g.body) ∧
        ¬ held.Linked := by
  have hbuild : build Samples.crowdedTree = .ok Samples.crowdedPlan := rfl
  obtain ⟨unit, hcompile, _, hsource⟩ := compile_of_build hbuild {}
  have himpostor : Holds "wiregen_runtime" (Samples.impostor.marks "wiregen_runtime")
      ⟨⟨[], [Samples.impostor]⟩, []⟩ := holds_function rfl rfl (by simp [Samples.impostor])
  have hread := read_unit_broken hbuild {} (by decide) himpostor
    (show '\n' ∉ "response".toList by decide) rfl
  have hcount : ((Samples.impostor :: (items Samples.crowdedPlan).functions).filter
      fun g => g.name == "NewNode").length = 2 := by decide
  have hcall : ∃ g ∈ Samples.impostor :: (items Samples.crowdedPlan).functions,
      .store .assign "Root" (.nested ⟨"NewNode", none⟩ "TreeResponse" "Root") ∈
        allParts g.body :=
    ⟨_, List.mem_cons_of_mem _ List.mem_cons_self, List.mem_cons_of_mem _ List.mem_cons_self⟩
  refine ⟨hbuild, unit, ⟨(items Samples.crowdedPlan).structs,
    Samples.impostor :: (items Samples.crowdedPlan).functions⟩, hcompile, ?_, hcount, hcall, ?_⟩
  · rw [hsource, hread]
    rfl
  · intro hlinked
    obtain ⟨g, hg, hs⟩ := hcall
    obtain ⟨callee, hresolves, _⟩ := hlinked.stores g hg _ _ _ _ _ hs
    rw [hresolves.emitted] at hcount
    cases hcount

end WireSchema

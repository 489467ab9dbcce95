import WireSchema.Proofs.Levels

/-!
What an error of decoding says about where it comes from. Its layers name fields that lead from the
record decoded to the one in which decoding stopped, and its innermost part is something that can
happen in that record.
-/

namespace WireSchema

/-- An error inside the fields of the given records, outermost first. -/
def DecodeError.wrap (layers : List (String × String)) (leaf : DecodeError) : DecodeError :=
  layers.foldr (fun layer cause => .nested layer.1 layer.2 cause) leaf

namespace Decode

/-- A layer of an error names the outer of two records, and a field of it that is present and refers
to the inner one. -/
def Leads (version : Int) (records : RecordPlan × RecordPlan) (layer : String × String) : Prop :=
  records.1.name = layer.1 ∧ ∃ f ∈ records.1.fields, f.ident = layer.2 ∧
    f.isPresent version = true ∧ f.rule.target? = some records.2.name

/-- An error is true of records from the one decoded to the one that raised it. -/
structure ErrorPath (plan : UnitPlan) (version : Int) (start : RecordPlan)
    (layers : List (String × String)) (leaf : DecodeError) (records : List RecordPlan) : Prop where
  head : records.head? = some start
  known : ∀ r ∈ records, r ∈ plan.records
  /-- There is one layer for each record and the next. -/
  steps : List.Forall₂ (Leads version) (records.zip records.tail) layers
  /-- The last record has a field that raises the error, or it stands at the end of a nesting of
  records that count levels, which is as deep as allowed without it. -/
  raised : ∃ last, records.getLast? = some last ∧
    ((∃ f ∈ last.fields, f.isPresent version = true ∧ f.Raises leaf) ∨
      (leaf = .nestingTooDeep 64 ∧ last.depthDecoder.isSome = true ∧
        ∃ outer counted, records = outer ++ counted ++ [last] ∧ counted.length = 64 ∧
          ∀ r ∈ counted, r.depthDecoder.isSome = true))

/-- An error that a field raises itself has no layers to take off. -/
theorem rootCause_eq_of_raises {f : FieldPlan} {e : DecodeError} (h : f.Raises e) :
    e.rootCause = e := by
  cases e with
  | nested => exact h.elim
  | _ => rfl

theorem underWay_head (plan : UnitPlan) (record : RecordPlan) (e : DecodeError) :
    (underWay plan record e).head? = some record := by
  cases e with
  | nested name field cause =>
    unfold underWay
    split
    · rfl
    · split <;> rfl
  | _ => rfl

/-- One more layer around an error: the path is longer by the record outside. -/
theorem steps_cons {version : Int} {record inner : RecordPlan} {layer : String × String}
    {layers : List (String × String)} {records : List RecordPlan}
    (hhead : records.head? = some inner) (hstep : Leads version (record, inner) layer)
    (hsteps : List.Forall₂ (Leads version) (records.zip records.tail) layers) :
    List.Forall₂ (Leads version) ((record :: records).zip records) (layer :: layers) := by
  obtain ⟨rest, rfl⟩ := List.head?_eq_some_iff.mp hhead
  exact .cons hstep hsteps

/-- Each way to fail has layers that follow the records under way. -/
theorem Fails.layers {plan : UnitPlan} (h : plan.Sound) {version : Int} {record : RecordPlan}
    (hr : record ∈ plan.records) {depth : Nat} {e : DecodeError}
    (hf : Fails plan version record depth e) :
    ∃ layers, e = e.rootCause.wrap layers ∧
      List.Forall₂ (Leads version)
        ((underWay plan record e).zip (underWay plan record e).tail) layers := by
  induction hf with
  | tooDeep counted deep => exact ⟨[], rfl, .nil⟩
  | @field record depth f e mem present raises =>
    refine ⟨[], (rootCause_eq_of_raises raises).symm, ?_⟩
    rw [underWay_of_raises raises]
    exact .nil
  | @nested record inner depth f cause mem present target found allowed fails ih =>
    obtain ⟨layers, hwrap, hsteps⟩ := ih (mem_of_record? found).1
    have hstep : Leads version (record, inner) (record.name, f.ident) :=
      ⟨rfl, f, mem, rfl, present, target⟩
    refine ⟨(record.name, f.ident) :: layers, ?_, ?_⟩
    · exact congrArg (DecodeError.nested record.name f.ident) hwrap
    · rw [underWay_nested h hr mem target found]
      exact steps_cons (underWay_head plan inner cause) hstep hsteps

/-- Each way to fail ends in a record of the plan that raises the error, or refuses its depth. -/
theorem Fails.raised {plan : UnitPlan} (h : plan.Sound) {version : Int} {record : RecordPlan}
    (hr : record ∈ plan.records) {depth : Nat} {e : DecodeError}
    (hf : Fails plan version record depth e) :
    ∃ last, (underWay plan record e).getLast? = some last ∧
      ((∃ f ∈ last.fields, f.isPresent version = true ∧ f.Raises e.rootCause) ∨
        ∃ limit, e.rootCause = .nestingTooDeep limit) := by
  induction hf with
  | @tooDeep record depth counted deep => exact ⟨record, rfl, .inr ⟨maxNestingDepth, rfl⟩⟩
  | @field record depth f e mem present raises =>
    rw [underWay_of_raises raises, rootCause_eq_of_raises raises]
    exact ⟨record, rfl, .inl ⟨f, mem, present, raises⟩⟩
  | @nested record inner depth f cause mem present target found allowed fails ih =>
    obtain ⟨last, hlast, hleaf⟩ := ih (mem_of_record? found).1
    refine ⟨last, ?_, hleaf⟩
    rw [underWay_nested h hr mem target found, List.getLast?_cons, hlast]
    rfl

/-- A refusal for depth, told from the end of the records under way. -/
theorem Refusal.counted {plan : UnitPlan} (h : plan.Sound) {version : Int}
    {record last : RecordPlan} {e : DecodeError}
    (hrefusal : Refusal plan version record e ((underWay plan record e).rtake 65))
    (hlast : (underWay plan record e).getLast? = some last) :
    last.depthDecoder.isSome = true ∧
      ∃ outer counted, underWay plan record e = outer ++ counted ++ [last] ∧
        counted.length = 64 ∧ ∀ r ∈ counted, r.depthDecoder.isSome = true := by
  obtain ⟨before, hbefore⟩ := List.getLast?_eq_some_iff.mp hlast
  have hlength := hrefusal.length
  have hcounted : ∀ r ∈ (underWay plan record e).rtake 65, r.depthDecoder.isSome = true := by
    intro r hm
    obtain ⟨hrecord, hcycle⟩ := hrefusal.cyclic r hm
    exact (h.marked r hrecord).mpr hcycle
  rw [hbefore, List.rtake_concat_succ] at hlength hcounted
  refine ⟨hcounted last (by simp), before.rdrop 64, before.rtake 64, ?_, ?_, ?_⟩
  · rw [hbefore, List.rdrop, List.rtake, List.take_append_drop]
  · simpa using hlength
  · exact fun r hm => hcounted r (List.mem_append_left _ hm)

/-- All records under way belong to the plan. -/
theorem underWay_known {plan : UnitPlan} (h : plan.Sound) {version : Int} {record : RecordPlan}
    (hr : record ∈ plan.records) {depth : Nat} {e : DecodeError}
    (hf : Fails plan version record depth e) : ∀ r ∈ underWay plan record e, r ∈ plan.records := by
  obtain ⟨calls, _, hhead, hchain, hrecords, _⟩ := hf.calls h hr
  have hfirst : ∀ c ∈ calls.head?, c.1 ∈ plan.records := by
    intro c hm
    rw [hhead] at hm
    cases hm
    exact hr
  intro r hm
  rw [← hrecords] at hm
  obtain ⟨c, hc, rfl⟩ := List.mem_map.mp hm
  exact calls_mem hchain hfirst c hc

/-- Decoding by a plan that was built fails for its input only, and the error tells how it came to
the record that raised it. -/
theorem decodeRecord_error_path {m : Message} {plan : UnitPlan} (h : UnitPlan.build m = .ok plan)
    {record : RecordPlan} (hr : record ∈ plan.records) {version : Int} {input : Bytes} {halt : Halt}
    (hd : decodeRecord plan record version input = .error halt) :
    ∃ layers leaf records, halt = .failure (leaf.wrap layers) ∧
      ErrorPath plan version record layers leaf records := by
  have hsound := UnitPlan.build_sound h
  have hfails : OnlyFails (decodeRecord plan record version input) :=
    (readRecord_onlyFails hsound hr version input).bind fun _ => onlyFails_ok _
  obtain ⟨e, rfl⟩ := hfails halt hd
  have hf := decodeRecord_fails hsound hr hd
  obtain ⟨layers, hwrap, hsteps⟩ := hf.layers hsound hr
  obtain ⟨last, hlast, hleaf⟩ := hf.raised hsound hr
  refine ⟨layers, e.rootCause, underWay plan record e, congrArg Halt.failure hwrap, ?_⟩
  refine ⟨underWay_head plan record e, underWay_known hsound hr hf, hsteps, last, hlast, ?_⟩
  rcases hleaf with hraises | ⟨limit, hdeep⟩
  · exact .inl hraises
  · obtain ⟨rfl, hrefusal⟩ := refusal_of_fails hsound hr hf hdeep
    exact .inr ⟨hdeep, hrefusal.counted hsound hlast⟩

/-- The refusal of the last of 64 twigs on a stem. -/
theorem decodeRecord_error_path_bush :
    UnitPlan.build Samples.bushResponse = .ok Samples.bushPlan ∧
      Samples.stem ∈ Samples.bushPlan.records ∧
      decodeRecord Samples.bushPlan Samples.stem 0 Samples.bush =
        .error (.failure Samples.bushError) ∧
      ∃ layers leaf records, Halt.failure Samples.bushError = .failure (leaf.wrap layers) ∧
        ErrorPath Samples.bushPlan 0 Samples.stem layers leaf records :=
  ⟨Samples.build_bushResponse, Samples.stem_mem, Samples.decode_bush,
    decodeRecord_error_path Samples.build_bushResponse Samples.stem_mem Samples.decode_bush⟩

end Decode

end WireSchema

import WireSchema.Proofs.Acceptance

/-!
The names that a plan gives to records, decoders and members. All of them are usable, and those of
decoders begin with a word of their own.
-/

namespace WireSchema

def isDecoderName (name : String) : Bool :=
  "Read".toList.isPrefixOf name.toList || "New".toList.isPrefixOf name.toList

theorem isDecoderName_append {name : String} (h : isDecoderName name = true) (more : String) :
    isDecoderName (name ++ more) = true := by
  simp only [isDecoderName, Bool.or_eq_true, List.isPrefixOf_iff_prefix, String.toList_append] at *
  exact h.imp (·.trans (List.prefix_append _ _)) (·.trans (List.prefix_append _ _))

theorem Catalogue.declared_decoder {m : Message} {d : RecordDecl} (hd : d ∈ declared m) :
    isDecoderName d.decoder = true := by
  rcases declared_cases hd with rfl | ⟨c, _, rfl⟩ | ⟨f, _, _, parent, rfl⟩
  · exact isDecoderName_append rfl m.name
  · exact isDecoderName_append rfl _
  · exact isDecoderName_append rfl _

/-- An item that is no decoder is a record. -/
theorem Message.mem_items_iff {m : Message} {name : String} (h : isDecoderName name = false) :
    name ∈ m.items ↔ name ∈ m.recordNames := by
  rw [← (Catalogue.declared_names_perm m).mem_iff]
  simp only [items, itemsOf, List.mem_flatMap, List.mem_map, List.mem_append, List.mem_cons,
    List.not_mem_nil, or_false]
  constructor
  · intro hyp
    obtain ⟨d, hd, (rfl | rfl) | hcounting⟩ := hyp
    · exact ⟨d, hd, rfl⟩
    · rw [Catalogue.declared_decoder hd] at h
      cases h
    · split at hcounting
      · have hdecoder : isDecoderName (depthDecoderName d.decoder) = true :=
          isDecoderName_append (Catalogue.declared_decoder hd) _
        rw [← List.mem_singleton.mp hcounting, h] at hdecoder
        cases hdecoder
      · cases hcounting
  · intro hyp
    obtain ⟨d, hd, rfl⟩ := hyp
    exact ⟨d, hd, .inl (.inl rfl)⟩

namespace UnitPlan

variable {m : Message} {plan : UnitPlan}

/-- The check of item names, as a property of the plan that passed it. -/
theorem build_items (h : build m = .ok plan) :
    Fresh plan.facilities.items (plan.records.flatMap recordItems) := by
  obtain ⟨planned, hb, rfl⟩ := build_eq_ok.mp h
  exact hb.items

theorem build_decoder (h : build m = .ok plan) {r : RecordPlan} (hr : r ∈ plan.records) :
    isDecoderName r.decoder = true := by
  obtain ⟨d, hd, hplan⟩ := build_hasPlan h hr
  have hdecoder : r.decoder = d.decoder := hplan.decoder
  rw [hdecoder]
  exact Catalogue.declared_decoder hd

theorem build_depthDecoder (h : build m = .ok plan) {r : RecordPlan} (hr : r ∈ plan.records)
    {counting : String} (hd : r.depthDecoder = some counting) :
    counting = depthDecoderName r.decoder := by
  obtain ⟨planned, _, rfl⟩ := build_eq_ok.mp h
  obtain ⟨s, _, rfl⟩ := mem_markDepth.mp hr
  simp only [mark, Option.map_eq_some_iff] at hd
  obtain ⟨_, _, rfl⟩ := hd
  rfl

/-- The name of a member is checked with its field. -/
theorem build_ident (h : build m = .ok plan) {r : RecordPlan} (hr : r ∈ plan.records)
    {f : FieldPlan} (hf : f ∈ r.fields) : isUsable f.ident = true := by
  obtain ⟨d, _, hplan⟩ := build_hasPlan h hr
  apply hplan.idents.usable
  rw [← hplan.idents_eq]
  exact List.mem_map_of_mem hf

/-- The name of a record is checked with its items, the struct among them. -/
theorem build_name (h : build m = .ok plan) {r : RecordPlan} (hr : r ∈ plan.records) :
    isUsable r.name = true :=
  (build_items h).usable r.name (List.mem_flatMap.mpr ⟨r, hr, by simp [recordItems]⟩)

/-- Only the first record of a plan is the message. -/
theorem build_records (h : build m = .ok plan) :
    ∃ entry rest, plan.records = entry :: rest ∧ entry.name = m.name ∧ entry.origin = .message ∧
      ∀ r ∈ rest, r.origin ≠ .message := by
  obtain ⟨planned, hb, rfl⟩ := build_eq_ok.mp h
  have hrecords := hb.records
  unfold Catalogue.declared at hrecords
  cases hrecords with
  | cons hentry hrest =>
    refine ⟨_, _, rfl, hentry.name, hentry.origin, ?_⟩
    intro r hr
    obtain ⟨s, hs, rfl⟩ := List.mem_map.mp hr
    obtain ⟨d, hd, hplan⟩ := exists_of_mem_right hrest hs
    show s.origin ≠ .message
    rw [hplan.origin]
    simp only [List.mem_append, List.mem_flatMap, Catalogue.commonDecls, List.mem_cons] at hd
    rcases hd with hd | ⟨c, _, rfl | hd⟩
    · obtain ⟨g, _, _, _, rfl⟩ := Catalogue.fieldsDecls_inline _ _ _ hd
      simp [Catalogue.inlineDecl]
    · simp [Catalogue.commonDecl]
    · obtain ⟨g, _, _, _, rfl⟩ := Catalogue.fieldsDecls_inline _ _ _ hd
      simp [Catalogue.inlineDecl]

end UnitPlan

end WireSchema

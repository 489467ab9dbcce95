import Mathlib.Data.List.Perm.Basic
import WireSchema.Proofs.SoundPlan

/-!
Which messages have a plan. What the passes of planning check, each of them on its own form of the
message, is told here in terms of the message alone.
-/

namespace WireSchema

open Relation

def TypeExpr.Needs (type : TypeExpr) : Facility → Prop
  | .bigEndian => ∃ kind, type.base = .primitive kind
  | .errorConstruction =>
    type.isArray = true ∨ type.base = .primitive .string ∨ type.base = .primitive .bytes ∨
      ∃ name, type.base = .record name
  | .lengthDelimited => type.isArray = true ∨ type.base = .primitive .bytes

namespace Message

def recordNames (m : Message) : List String :=
  m.name :: ((m.allFields.filter Field.isInline).map (fun f =>
    inlineRecordName m.name (Catalogue.baseName f.typeText)) ++
      m.commonRecords.map CommonRecord.name)

/-- A record has a field of the type of another, or of arrays of it if these count. -/
def Refers (m : Message) (throughArrays : Bool) (a b : String) : Prop :=
  ∃ d ∈ Catalogue.declared m, d.name = a ∧ ∃ f ∈ d.fields, ∃ type,
    TypeExpr.parse f.typeText = .ok type ∧ (type.isArray = true → throughArrays = true) ∧
      (f.rule m type).target? = some b

open Classical in
/-- The items that a record emits: its struct and its decoder, and if it can contain itself, the
decoder that counts levels. -/
noncomputable def itemsOf (m : Message) (d : RecordDecl) : List String :=
  [d.name, d.decoder] ++
    if TransGen (m.Refers true) d.name d.name then [depthDecoderName d.decoder] else []

noncomputable def items (m : Message) : List String :=
  (Catalogue.declared m).flatMap m.itemsOf

def Imports (m : Message) (item : String) : Prop :=
  ∃ facility : Facility, facility.item = item ∧ ∃ f ∈ m.allFields, ∃ type,
    TypeExpr.parse f.typeText = .ok type ∧ type.Needs facility

structure WellFormed (m : Message) : Prop where
  types : ∀ f ∈ m.allFields, ∃ type, TypeExpr.parse f.typeText = .ok type ∧ f.Resolves m type
  names : m.recordNames.Nodup
  versions : ∀ f ∈ m.allFields, ∃ guard, VersionPredicate.parse f.versions = .ok guard
  commonVersions : ∀ c ∈ m.commonRecords, ∃ p, VersionPredicate.parse c.versions = .ok p
  defaults : ∀ f ∈ m.allFields, ∀ type, TypeExpr.parse f.typeText = .ok type → f.DefaultFits type
  idents : ∀ d ∈ Catalogue.declared m,
    (d.fields.map fun f => Text.capitalize f.name).Nodup ∧
      ∀ f ∈ d.fields, isUsable (Text.capitalize f.name) = true
  acyclic : ∀ d ∈ Catalogue.declared m, ¬ TransGen (m.Refers false) d.name d.name
  items : m.items.Nodup ∧ ∀ item ∈ m.items, isUsable item = true ∧ ¬ m.Imports item

end Message

namespace Catalogue

mutual

/-- The names that a field declares, itself and those inside it, without going through
discovery. -/
theorem fieldDecls_names (message parent : String) (f : Field) :
    (fieldDecls message parent f).map RecordDecl.name =
      (f.withNested.filter Field.isInline).map fun g =>
        inlineRecordName message (baseName g.typeText) := by
  match f with
  | ⟨_, _, _, _, _, _, []⟩ => simp [fieldDecls, Field.withNested, allNested, Field.isInline]
  | ⟨name, typeText, _, _, _, _, g :: gs⟩ =>
    have hg := fieldDecls_names message (inlineRecordName message (baseName typeText)) g
    have hgs := fieldsDecls_names message (inlineRecordName message (baseName typeText)) gs
    simp [fieldDecls, Field.withNested, allNested, Field.isInline, inlineDecl, hg, hgs]
termination_by sizeOf f

theorem fieldsDecls_names (message parent : String) (fields : List Field) :
    (fieldsDecls message parent fields).map RecordDecl.name =
      ((allNested fields).filter Field.isInline).map fun g =>
        inlineRecordName message (baseName g.typeText) := by
  match fields with
  | [] => rfl
  | f :: rest =>
    have hf := fieldDecls_names message parent f
    have hrest := fieldsDecls_names message parent rest
    simp [fieldsDecls, allNested, hf, hrest]
termination_by sizeOf fields

end

/-- Declarations take the names of the records, in another order. -/
theorem declared_names_perm (m : Message) :
    ((declared m).map RecordDecl.name).Perm m.recordNames := by
  have hcommons : (m.commonRecords.flatMap fun c =>
      [c.name] ++ ((allNested c.fields).filter Field.isInline).map fun g =>
        inlineRecordName m.name (baseName g.typeText)).Perm
      (m.commonRecords.flatMap (fun c => ((allNested c.fields).filter Field.isInline).map fun g =>
        inlineRecordName m.name (baseName g.typeText)) ++
          m.commonRecords.map CommonRecord.name) := by
    rw [List.map_eq_flatMap]
    exact (List.flatMap_append_perm _ _ _).symm.trans List.perm_append_comm
  have hall := (hcommons.append_left (((allNested m.fields).filter Field.isInline).map fun g =>
    inlineRecordName m.name (baseName g.typeText))).cons m.name
  simpa [declared, commonDecls, messageDecl, commonDecl, Message.recordNames, Message.allFields,
    fieldsDecls_names, List.map_flatMap, List.filter_flatMap] using hall

end Catalogue

namespace FacilitySet

theorem contains_insert (s : FacilitySet) (a b : Facility) :
    (s.insert a).contains b = true ↔ s.contains b = true ∨ b = a := by
  cases a <;> cases b <;> simp [insert, contains]

theorem contains_union (s t : FacilitySet) (facility : Facility) :
    (s.union t).contains facility = true ↔
      s.contains facility = true ∨ t.contains facility = true := by
  cases facility <;> simp [union, contains]

theorem not_contains_empty (facility : Facility) : empty.contains facility = false := by
  cases facility <;> rfl

theorem contains_ofList {facilities : List Facility} {facility : Facility} :
    (ofList facilities).contains facility = true ↔ facility ∈ facilities := by
  have hfold (s : FacilitySet) : (facilities.foldl insert s).contains facility = true ↔
      s.contains facility = true ∨ facility ∈ facilities := by
    induction facilities generalizing s with
    | nil => simp
    | cons a rest ih => simp [ih, contains_insert, or_assoc]
  simp [ofList, hfold, not_contains_empty]

theorem contains_foldl {fields : List FieldPlan} {s : FacilitySet} {facility : Facility} :
    (fields.foldl (fun s f => s.union f.facilities) s).contains facility = true ↔
      s.contains facility = true ∨ ∃ f ∈ fields, f.facilities.contains facility = true := by
  induction fields generalizing s with
  | nil => simp
  | cons f rest ih => simp [ih, contains_union, or_assoc]

theorem mem_items {s : FacilitySet} {item : String} :
    item ∈ s.items ↔ ∃ facility : Facility, facility.item = item ∧ s.contains facility = true := by
  have hall (facility : Facility) : facility ∈ Facility.all := by cases facility <;> decide
  simp [items, toList, hall, and_comm]

end FacilitySet

namespace UnitPlan

section

variable {m : Message} {planned : List RecordPlan}

/-- Fields have plans when their types and versions can be read and their defaults fit. -/
theorem field_hasPlan_iff {f : Field} :
    (∃ p, f.HasPlan m p) ↔
      (∃ type, TypeExpr.parse f.typeText = .ok type ∧ f.Resolves m type) ∧
      (∃ guard, VersionPredicate.parse f.versions = .ok guard) ∧
      ∀ type, TypeExpr.parse f.typeText = .ok type → f.DefaultFits type := by
  constructor
  · intro hyp
    obtain ⟨_, type, guard, ht, hg, hr, hd, rfl⟩ := hyp
    refine ⟨⟨type, ht, hr⟩, ⟨guard, hg⟩, ?_⟩
    intro type' ht'
    rw [ht] at ht'
    cases ht'
    exact hd
  · intro ⟨⟨type, ht, hr⟩, ⟨guard, hg⟩, hd⟩
    exact ⟨f.plan m type guard, type, guard, ht, hg, hr, hd type ht, rfl⟩

/-- A record has a plan if its versions can be read, its members have usable names of their own,
and each of its fields has a plan. -/
theorem hasPlan_iff {d : RecordDecl} :
    (∃ r, HasPlan m d r) ↔ (∃ versions, recordVersions d = .ok versions) ∧
      Fresh [] (idents d.fields) ∧ ∀ f ∈ d.fields, ∃ p, f.HasPlan m p := by
  constructor
  · intro ⟨r, h⟩
    exact ⟨⟨r.versions, h.versions⟩, h.idents, exists_forall₂.mp ⟨r.fields, h.fields⟩⟩
  · intro ⟨⟨versions, hv⟩, hi, hf⟩
    obtain ⟨fields, hfields⟩ := exists_forall₂.mpr hf
    exact ⟨⟨d.name, d.decoder, d.origin, none, versions, fields⟩,
      ⟨hv, hi, hfields, rfl, rfl, rfl, rfl⟩⟩

theorem recordVersions_iff :
    (∀ d ∈ Catalogue.declared m, ∃ versions, recordVersions d = .ok versions) ↔
      ∀ c ∈ m.commonRecords, ∃ p, VersionPredicate.parse c.versions = .ok p := by
  constructor
  · intro h c hc
    obtain ⟨versions, hv⟩ := h _ (Catalogue.commonDecl_mem_declared hc)
    exact ⟨versions, mapError_eq_ok.mp hv⟩
  · intro h d hd
    rcases Catalogue.declared_cases hd with rfl | ⟨c, hc, rfl⟩ | ⟨f, _, _, parent, rfl⟩
    · exact ⟨none, rfl⟩
    · obtain ⟨p, hp⟩ := h c hc
      exact ⟨p, mapError_eq_ok.mpr hp⟩
    · exact ⟨none, rfl⟩

theorem fresh_idents {fields : List Field} :
    Fresh [] (idents fields) ↔ (fields.map fun f => Text.capitalize f.name).Nodup ∧
      ∀ f ∈ fields, isUsable (Text.capitalize f.name) = true := by
  constructor
  · intro h
    exact ⟨h.nodup, fun f hf => h.usable _ (List.mem_map_of_mem hf)⟩
  · intro ⟨hn, hu⟩
    exact ⟨List.forall_mem_map.mpr hu, hn, by simp⟩

/-- The records have plans when all their fields have, under names of their own. -/
theorem exists_planned_iff :
    (∃ planned, List.Forall₂ (HasPlan m) (Catalogue.declared m) planned) ↔
      (∀ f ∈ m.allFields, ∃ p, f.HasPlan m p) ∧
      (∀ c ∈ m.commonRecords, ∃ p, VersionPredicate.parse c.versions = .ok p) ∧
      ∀ d ∈ Catalogue.declared m, Fresh [] (idents d.fields) := by
  rw [exists_forall₂, ← recordVersions_iff]
  constructor
  · intro h
    refine ⟨?_, fun d hd => (hasPlan_iff.mp (h d hd)).1, fun d hd => (hasPlan_iff.mp (h d hd)).2.1⟩
    intro f hf
    obtain ⟨d, hd, hf⟩ := Catalogue.mem_allFields.mp hf
    exact (hasPlan_iff.mp (h d hd)).2.2 f hf
  · intro ⟨hf, hv, hi⟩ d hd
    exact hasPlan_iff.mpr
      ⟨hv d hd, hi d hd, fun f hm => hf f (Catalogue.mem_allFields.mpr ⟨d, hd, hm⟩)⟩

/-- A planned field refers to the record that its rule names, through an array only if arrays
count. -/
theorem reference_plan {f : Field} {type : TypeExpr} {guard : Option VersionPredicate}
    {throughArrays : Bool} {b : String} :
    Cycle.reference? throughArrays (f.plan m type guard) = some b ↔
      (type.isArray = true → throughArrays = true) ∧ (f.rule m type).target? = some b := by
  cases ha : type.isArray <;> cases throughArrays <;> simp [Cycle.reference?, Field.plan, ha]

/-- The plans of records refer to each other as the records of the message do. -/
theorem refers_planned (h : List.Forall₂ (HasPlan m) (Catalogue.declared m) planned)
    (throughArrays : Bool) : Cycle.Refers planned throughArrays = m.Refers throughArrays := by
  funext a b
  apply propext
  constructor
  · intro ⟨r, hr, hn, p, hp, he⟩
    obtain ⟨d, hd, hplan⟩ := exists_of_mem_right h hr
    obtain ⟨f, hf, type, guard, ht, _, _, _, rfl⟩ := exists_of_mem_right hplan.fields hp
    exact ⟨d, hd, hplan.name.symm.trans hn, f, hf, type, ht, reference_plan.mp he⟩
  · intro ⟨d, hd, hn, f, hf, type, ht, he⟩
    obtain ⟨r, hr, hplan⟩ := exists_of_mem_left h hd
    obtain ⟨p, hp, type', guard, ht', _, _, _, rfl⟩ := exists_of_mem_left hplan.fields hf
    rw [ht] at ht'
    cases ht'
    exact ⟨r, hr, hplan.name.trans hn, _, hp, reference_plan.mpr he⟩

theorem planned_nodup (h : List.Forall₂ (HasPlan m) (Catalogue.declared m) planned)
    (hn : m.recordNames.Nodup) : (planned.map RecordPlan.name).Nodup := by
  rw [planned_names h]
  exact (Catalogue.declared_names_perm m).nodup_iff.mpr hn

/-- The search for a way back to a record finds one when the message has one. -/
theorem selfReference_planned (h : List.Forall₂ (HasPlan m) (Catalogue.declared m) planned)
    (hn : m.recordNames.Nodup) (root : String) (throughArrays : Bool) :
    (Cycle.selfReference? planned root throughArrays).isSome ↔
      TransGen (m.Refers throughArrays) root root := by
  rw [Cycle.selfReference_isSome_iff (planned_nodup h hn), refers_planned h]

/-- The search over plans refuses nothing just if no declared record contains itself. -/
theorem acyclic_planned (h : List.Forall₂ (HasPlan m) (Catalogue.declared m) planned)
    (hn : m.recordNames.Nodup) :
    (∀ r ∈ planned, Cycle.selfReference? planned r.name false = none) ↔
      ∀ d ∈ Catalogue.declared m, ¬ TransGen (m.Refers false) d.name d.name := by
  have hnone (root : String) : Cycle.selfReference? planned root false = none ↔
      ¬ TransGen (m.Refers false) root root := by
    rw [← selfReference_planned h hn, Option.not_isSome_iff_eq_none]
  simp only [hnone]
  constructor
  · intro hr d hd
    obtain ⟨r, hm, hplan⟩ := exists_of_mem_left h hd
    exact hplan.name ▸ hr r hm
  · intro hd r hr
    obtain ⟨d, hm, hplan⟩ := exists_of_mem_right h hr
    exact hplan.name ▸ hd d hm

/-- The items of a marked plan are those of the record that it plans. -/
theorem recordItems_mark (h : List.Forall₂ (HasPlan m) (Catalogue.declared m) planned)
    (hn : m.recordNames.Nodup) {d : RecordDecl} {r : RecordPlan} (hplan : HasPlan m d r) :
    recordItems (mark planned r) = m.itemsOf d := by
  have hself := selfReference_planned h hn d.name true
  simp only [recordItems, mark, Message.itemsOf, hplan.name, hplan.decoder, ← hself]
  cases Cycle.selfReference? planned d.name true <;> simp

/-- The items of the marked plans are told from the message alone. -/
theorem items_planned (h : List.Forall₂ (HasPlan m) (Catalogue.declared m) planned)
    (hn : m.recordNames.Nodup) : (markDepth planned).flatMap recordItems = m.items := by
  simp only [Message.items, markDepth_eq, List.flatMap_def, List.map_map]
  exact congrArg List.flatten
    (map_eq_map_of_forall₂ h fun _ _ hplan => recordItems_mark h hn hplan)

theorem facilities_plan {f : Field} {type : TypeExpr} {guard : Option VersionPredicate}
    {facility : Facility} :
    (f.plan m type guard).facilities.contains facility = true ↔ type.Needs facility := by
  obtain ⟨isArray, base⟩ := type
  unfold FieldPlan.facilities Field.plan Field.rule TypeExpr.Needs
  cases base with
  | primitive kind =>
    cases kind <;> cases isArray <;> cases facility <;>
      simp [Rule.facilities, FacilitySet.contains_union, FacilitySet.contains_ofList, Facility.all]
  | record name =>
    cases isArray <;> cases facility <;>
      simp [Rule.facilities, FacilitySet.contains_union, FacilitySet.contains_ofList]

/-- What the plans of records import is what the fields of the message need. -/
theorem imports_planned (h : List.Forall₂ (HasPlan m) (Catalogue.declared m) planned)
    {item : String} :
    item ∈ (collectFacilities (markDepth planned)).items ↔ m.Imports item := by
  have hfields : (markDepth planned).flatMap RecordPlan.fields =
      planned.flatMap RecordPlan.fields := by
    simp only [markDepth_eq, List.flatMap_map]
    rfl
  have hneeds (facility : Facility) :
      (∃ p ∈ planned.flatMap RecordPlan.fields, p.facilities.contains facility = true) ↔
        ∃ f ∈ m.allFields, ∃ type, TypeExpr.parse f.typeText = .ok type ∧ type.Needs facility := by
    constructor
    · intro ⟨p, hp, hc⟩
      obtain ⟨r, hr, hp⟩ := List.mem_flatMap.mp hp
      obtain ⟨d, hd, hplan⟩ := exists_of_mem_right h hr
      obtain ⟨f, hf, type, guard, ht, _, _, _, rfl⟩ := exists_of_mem_right hplan.fields hp
      exact ⟨f, Catalogue.mem_allFields.mpr ⟨d, hd, hf⟩, type, ht, facilities_plan.mp hc⟩
    · intro ⟨f, hf, type, ht, hc⟩
      obtain ⟨d, hd, hf⟩ := Catalogue.mem_allFields.mp hf
      obtain ⟨r, hr, hplan⟩ := exists_of_mem_left h hd
      obtain ⟨p, hp, type', guard, ht', _, _, _, rfl⟩ := exists_of_mem_left hplan.fields hf
      rw [ht] at ht'
      cases ht'
      exact ⟨_, List.mem_flatMap.mpr ⟨r, hr, hp⟩, facilities_plan.mpr hc⟩
  simp only [Message.Imports, FacilitySet.mem_items, collectFacilities, hfields,
    FacilitySet.contains_foldl, FacilitySet.not_contains_empty, Bool.false_eq_true, false_or,
    hneeds]

/-- A field whose type stands for something declares a record only with the type of one. -/
theorem inlineTyped_of_resolves
    (h : ∀ f ∈ m.allFields, ∃ type, TypeExpr.parse f.typeText = .ok type ∧ f.Resolves m type) :
    Catalogue.InlineTyped m.allFields := by
  intro f hf hi
  obtain ⟨⟨isArray, base⟩, ht, hr⟩ := h f hf
  cases base with
  | primitive kind =>
    have hnot : f.isInline = false := hr
    rw [hi] at hnot
    cases hnot
  | record base => exact ⟨isArray, base, ht⟩

/-- The check of item names, told from the message alone. -/
theorem fresh_items (h : List.Forall₂ (HasPlan m) (Catalogue.declared m) planned)
    (hn : m.recordNames.Nodup) :
    Fresh (collectFacilities (markDepth planned)).items ((markDepth planned).flatMap recordItems) ↔
      m.items.Nodup ∧ ∀ item ∈ m.items, isUsable item = true ∧ ¬ m.Imports item := by
  rw [items_planned h hn]
  constructor
  · intro hf
    exact ⟨hf.nodup, fun item hi =>
      ⟨hf.usable item hi, fun him => hf.apart item hi ((imports_planned h).mpr him)⟩⟩
  · intro ⟨hd, hi⟩
    exact ⟨fun item hm => (hi item hm).1, hd,
      fun item hm ht => (hi item hm).2 ((imports_planned h).mp ht)⟩

end

/-- A message has a plan exactly if it is well-formed. -/
theorem build_ok_iff (m : Message) : (∃ plan, build m = .ok plan) ↔ m.WellFormed := by
  constructor
  · intro ⟨plan, hplan⟩
    obtain ⟨planned, hb, _⟩ := build_eq_ok.mp hplan
    have hnames := (Catalogue.declared_names_perm m).nodup_iff.mp hb.distinct
    obtain ⟨hfields, hversions, hidents⟩ := exists_planned_iff.mp ⟨planned, hb.records⟩
    exact
      { types := fun f hf => (field_hasPlan_iff.mp (hfields f hf)).1
        names := hnames
        versions := fun f hf => (field_hasPlan_iff.mp (hfields f hf)).2.1
        commonVersions := hversions
        defaults := fun f hf => (field_hasPlan_iff.mp (hfields f hf)).2.2
        idents := fun d hd => fresh_idents.mp (hidents d hd)
        acyclic := (acyclic_planned hb.records hnames).mp hb.acyclic
        items := (fresh_items hb.records hnames).mp hb.items }
  · intro h
    have hfields : ∀ f ∈ m.allFields, ∃ p, f.HasPlan m p := fun f hf =>
      field_hasPlan_iff.mpr ⟨h.types f hf, h.versions f hf, h.defaults f hf⟩
    obtain ⟨planned, hrecords⟩ := exists_planned_iff.mpr
      ⟨hfields, h.commonVersions, fun d hd => fresh_idents.mpr (h.idents d hd)⟩
    refine ⟨_, build_eq_ok.mpr ⟨planned, ?_, rfl⟩⟩
    exact
      { typed := inlineTyped_of_resolves h.types
        distinct := (Catalogue.declared_names_perm m).nodup_iff.mpr h.names
        records := hrecords
        acyclic := (acyclic_planned hrecords h.names).mpr h.acyclic
        items := (fresh_items hrecords h.names).mpr h.items }

end UnitPlan

end WireSchema

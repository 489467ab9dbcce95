import WireSchema.Proofs.Planned
import WireSchema.Proofs.References
import WireSchema.Samples

/-!
What every plan of a message has: names of its own for records, members and items, references that
lead to its records, no record that contains itself other than through arrays, and a count of levels
for exactly the records that can contain themselves.
-/

namespace WireSchema

open Relation

/-- An integer that a width holds is kept by it. -/
theorem IntWidth.wrap_of_holds {w : IntWidth} {v : Int} (h : w.holds v = true) : w.wrap v = v := by
  simp only [holds, Bool.and_eq_true, decide_eq_true_eq] at h
  obtain ⟨hl, hg⟩ := h
  apply Int.bmod_eq_of_le
  · cases w <;> simp [least, modulus] at * <;> omega
  · cases w <;> simp [greatest, modulus] at * <;> omega

def FieldPlan.DefaultFits (f : FieldPlan) : Prop :=
  match f.default with
  | .absent => True
  | .string _ => f.isArray = false ∧ f.rule = .primitive .string
  | .int v => f.isArray = false ∧
    ∃ w : IntWidth, f.rule = .primitive (.int w) ∧ w.least ≤ v ∧ v ≤ w.greatest

namespace UnitPlan

structure Sound (plan : UnitPlan) : Prop where
  names : (plan.records.map RecordPlan.name).Nodup
  idents : ∀ r ∈ plan.records, (r.fields.map FieldPlan.ident).Nodup
  items : (plan.records.flatMap recordItems).Nodup
  linked : ∀ r ∈ plan.records, ∀ f ∈ r.fields, ∀ name decoder,
    f.rule = .record name decoder → ∃ s ∈ plan.records, s.name = name ∧ s.decoder = decoder
  acyclic : ∀ r ∈ plan.records, ¬ TransGen (Cycle.Refers plan.records false) r.name r.name
  marked : ∀ r ∈ plan.records, r.depthDecoder.isSome = true ↔
    TransGen (Cycle.Refers plan.records true) r.name r.name
  defaults : ∀ r ∈ plan.records, ∀ f ∈ r.fields, f.DefaultFits

def mark (records : List RecordPlan) (r : RecordPlan) : RecordPlan :=
  { r with
    depthDecoder :=
      (Cycle.selfReference? records r.name true).map fun _ => depthDecoderName r.decoder }

theorem markDepth_eq (records : List RecordPlan) :
    markDepth records = records.map (mark records) := rfl

theorem mem_markDepth {records : List RecordPlan} {r : RecordPlan} :
    r ∈ markDepth records ↔ ∃ s ∈ records, mark records s = r := List.mem_map

/-- The mark depends on whether a way back is found, and not on which. -/
theorem mark_eq_ite (records : List RecordPlan) (r : RecordPlan) :
    mark records r =
      { r with
        depthDecoder :=
          if (Cycle.selfReference? records r.name true).isSome then
            some (depthDecoderName r.decoder)
          else none } := by
  unfold mark
  cases Cycle.selfReference? records r.name true <;> rfl

/-- Marks change neither the names nor the references of records. -/
theorem markDepth_names (records : List RecordPlan) :
    (markDepth records).map RecordPlan.name = records.map RecordPlan.name := by
  simp [markDepth_eq, mark, Function.comp_def]

/-- Marks do not change which record refers to which. -/
theorem refers_markDepth {records : List RecordPlan} {throughArrays : Bool} :
    Cycle.Refers (markDepth records) throughArrays = Cycle.Refers records throughArrays := by
  funext a b
  apply propext
  constructor
  · intro hyp
    obtain ⟨r, hr, rfl, hf⟩ := hyp
    obtain ⟨s, hs, rfl⟩ := mem_markDepth.mp hr
    exact ⟨s, hs, rfl, hf⟩
  · intro hyp
    obtain ⟨s, hs, rfl, hf⟩ := hyp
    exact ⟨mark records s, mem_markDepth.mpr ⟨s, hs, rfl⟩, rfl, hf⟩

end UnitPlan

section

variable {α β : Type} {R : α → β → Prop} {xs : List α} {ys : List β}

theorem exists_of_mem_left (h : List.Forall₂ R xs ys) {x : α} (hx : x ∈ xs) :
    ∃ y ∈ ys, R x y := by
  induction h with
  | nil => cases hx
  | cons hr _ ih =>
    rcases List.mem_cons.mp hx with rfl | hm
    · exact ⟨_, List.mem_cons_self, hr⟩
    · obtain ⟨y, hy, hxy⟩ := ih hm
      exact ⟨y, List.mem_cons_of_mem _ hy, hxy⟩

theorem exists_of_mem_right (h : List.Forall₂ R xs ys) {y : β} (hy : y ∈ ys) :
    ∃ x ∈ xs, R x y :=
  exists_of_mem_left h.flip hy

theorem exists_forall₂ : (∃ ys, List.Forall₂ R xs ys) ↔ ∀ x ∈ xs, ∃ y, R x y := by
  constructor
  · intro ⟨ys, h⟩ x hx
    obtain ⟨y, _, hxy⟩ := exists_of_mem_left h hx
    exact ⟨y, hxy⟩
  · intro h
    induction xs with
    | nil => exact ⟨[], .nil⟩
    | cons x xs ih =>
      obtain ⟨y, hy⟩ := h x List.mem_cons_self
      obtain ⟨ys, hys⟩ := ih fun z hz => h z (List.mem_cons_of_mem _ hz)
      exact ⟨y :: ys, .cons hy hys⟩

theorem map_eq_map_of_forall₂ {γ : Type} {f : α → γ} {g : β → γ} (h : List.Forall₂ R xs ys)
    (he : ∀ x y, R x y → g y = f x) : ys.map g = xs.map f := by
  induction h with
  | nil => rfl
  | cons hr _ ih => rw [List.map_cons, List.map_cons, he _ _ hr, ih]

end

namespace UnitPlan

section

variable {m : Message} {planned : List RecordPlan}

theorem planned_names (h : List.Forall₂ (HasPlan m) (Catalogue.declared m) planned) :
    planned.map RecordPlan.name = (Catalogue.declared m).map RecordDecl.name :=
  map_eq_map_of_forall₂ h fun _ _ hr => hr.name

theorem Builds.names (h : Builds m planned) : (planned.map RecordPlan.name).Nodup := by
  rw [planned_names h.records]
  exact h.distinct

theorem HasPlan.idents_eq {d : RecordDecl} {r : RecordPlan} (h : HasPlan m d r) :
    r.fields.map FieldPlan.ident = UnitPlan.idents d.fields := by
  apply map_eq_map_of_forall₂ h.fields
  rintro f p ⟨type, guard, _, _, _, _, rfl⟩
  rfl

/-- A default that fits its field fits the rule that the field is planned with. -/
theorem plan_defaultFits {f : Field} {p : FieldPlan} (h : f.HasPlan m p) : p.DefaultFits := by
  obtain ⟨type, guard, _, _, _, hd, rfl⟩ := h
  unfold Field.DefaultFits at hd
  unfold FieldPlan.DefaultFits
  simp only [Field.plan]
  cases he : f.default with
  | absent => trivial
  | string s =>
    simp only [he] at hd
    subst hd
    exact ⟨rfl, rfl⟩
  | int v =>
    simp only [he] at hd
    obtain ⟨w, rfl, hv⟩ := hd
    exact ⟨rfl, w, rfl, hv⟩

/-- What a field refers to is declared, with the decoder that the field calls, and is not the
message. -/
theorem declared_of_rule {d : RecordDecl} {f : Field} {type : TypeExpr} {name decoder : String}
    (hd : d ∈ Catalogue.declared m) (hf : f ∈ d.fields)
    (ht : TypeExpr.parse f.typeText = .ok type) (hr : f.Resolves m type)
    (he : f.rule m type = .record name decoder) :
    ∃ s ∈ Catalogue.declared m, s.name = name ∧ s.decoder = decoder ∧ s.origin ≠ .message := by
  obtain ⟨isArray, base⟩ := type
  cases base with
  | primitive kind => simp [Field.rule] at he
  | record base =>
    simp only [Field.rule, Rule.record.injEq] at he
    obtain ⟨rfl, rfl⟩ := he
    cases hi : f.isInline with
    | true =>
      obtain ⟨parent, hm⟩ :=
        Catalogue.inlineDecl_mem_declared (Catalogue.mem_allFields.mpr ⟨d, hd, hf⟩) hi
      exact ⟨_, hm, by simp [Catalogue.inlineDecl, Catalogue.baseName, ht, Base.name]⟩
    | false =>
      obtain ⟨c, hc, rfl⟩ : ∃ c ∈ m.commonRecords, c.name = base := by
        simpa [Field.Resolves, hi] using hr
      exact ⟨_, Catalogue.commonDecl_mem_declared hc, by simp [Catalogue.commonDecl]⟩

/-- What a planned field refers to is planned too, under the decoder that the field calls. -/
theorem planned_linked (h : List.Forall₂ (HasPlan m) (Catalogue.declared m) planned)
    {r : RecordPlan} (hr : r ∈ planned) {p : FieldPlan} (hp : p ∈ r.fields) {name decoder : String}
    (he : p.rule = .record name decoder) :
    ∃ s ∈ planned, s.name = name ∧ s.decoder = decoder ∧ s.origin ≠ .message := by
  obtain ⟨d, hd, hplan⟩ := exists_of_mem_right h hr
  obtain ⟨f, hf, type, guard, ht, _, hres, _, rfl⟩ := exists_of_mem_right hplan.fields hp
  obtain ⟨e, hmem, rfl, rfl, horigin⟩ := declared_of_rule hd hf ht hres he
  obtain ⟨s, hs, hse⟩ := exists_of_mem_left h hmem
  exact ⟨s, hs, hse.name, hse.decoder, hse.origin ▸ horigin⟩

/-- Every plan of a message is sound. -/
theorem build_sound {plan : UnitPlan} (h : build m = .ok plan) : plan.Sound := by
  obtain ⟨planned, hb, rfl⟩ := build_eq_ok.mp h
  have hnames := hb.names
  refine ⟨?_, ?_, hb.items.nodup, ?_, ?_, ?_, ?_⟩ <;> dsimp only
  · rw [markDepth_names]
    exact hnames
  · intro r hr
    obtain ⟨s, hs, rfl⟩ := mem_markDepth.mp hr
    obtain ⟨d, _, hplan⟩ := exists_of_mem_right hb.records hs
    show (s.fields.map FieldPlan.ident).Nodup
    rw [hplan.idents_eq]
    exact hplan.idents.nodup
  · intro r hr p hp name decoder he
    obtain ⟨s, hs, rfl⟩ := mem_markDepth.mp hr
    obtain ⟨t, ht, hn, hd, _⟩ := planned_linked hb.records hs hp he
    exact ⟨mark planned t, mem_markDepth.mpr ⟨t, ht, rfl⟩, hn, hd⟩
  · intro r hr hcycle
    obtain ⟨s, hs, rfl⟩ := mem_markDepth.mp hr
    rw [refers_markDepth] at hcycle
    have hsome := (Cycle.selfReference_isSome_iff hnames).mpr hcycle
    have hnone := hb.acyclic s hs
    simp only [mark] at hsome
    simp [hnone] at hsome
  · intro r hr
    obtain ⟨s, hs, rfl⟩ := mem_markDepth.mp hr
    rw [refers_markDepth, ← Cycle.selfReference_isSome_iff hnames]
    simp [mark]
  · intro r hr p hp
    obtain ⟨s, hs, rfl⟩ := mem_markDepth.mp hr
    obtain ⟨d, _, hplan⟩ := exists_of_mem_right hb.records hs
    obtain ⟨f, _, hf⟩ := exists_of_mem_right hplan.fields hp
    exact plan_defaultFits hf

end

/-- A record of a plan, but for its mark, is the plan of a declared one. -/
theorem build_hasPlan {m : Message} {plan : UnitPlan} (h : build m = .ok plan) {r : RecordPlan}
    (hr : r ∈ plan.records) :
    ∃ d ∈ Catalogue.declared m, HasPlan m d { r with depthDecoder := none } := by
  obtain ⟨planned, hb, rfl⟩ := build_eq_ok.mp h
  obtain ⟨s, hs, rfl⟩ := mem_markDepth.mp hr
  obtain ⟨d, hd, hplan⟩ := exists_of_mem_right hb.records hs
  refine ⟨d, hd, ?_⟩
  have hsame : { mark planned s with depthDecoder := none } = s := by
    rw [← hplan.unmarked]
    rfl
  rwa [hsame]

/-- The message comes first among the records of its plan. -/
theorem build_entry {m : Message} {plan : UnitPlan} (h : build m = .ok plan) :
    ∃ entry, plan.entry? = some entry ∧ entry ∈ plan.records ∧ entry.name = plan.messageName ∧
      entry.origin = .message := by
  obtain ⟨planned, hb, rfl⟩ := build_eq_ok.mp h
  have hrecords := hb.records
  unfold Catalogue.declared at hrecords
  cases hrecords with
  | cons hplan _ =>
    refine ⟨_, rfl, List.mem_cons_self, ?_, ?_⟩
    · exact hplan.name
    · exact hplan.origin

/-- In a sound plan, looking up a record by its name finds it. -/
theorem Sound.record?_of_mem {plan : UnitPlan} (h : plan.Sound) {r : RecordPlan}
    (hr : r ∈ plan.records) : plan.record? r.name = some r :=
  find_of_mem h.names hr

/-- In a sound plan, every reference leads to a record. -/
theorem Sound.record?_of_rule {plan : UnitPlan} (h : plan.Sound) {r : RecordPlan}
    (hr : r ∈ plan.records) {f : FieldPlan} (hf : f ∈ r.fields) {name decoder : String}
    (he : f.rule = .record name decoder) :
    ∃ s ∈ plan.records, plan.record? name = some s ∧ s.name = name ∧ s.decoder = decoder := by
  obtain ⟨s, hs, rfl, hd⟩ := h.linked r hr f hf name decoder he
  exact ⟨s, hs, h.record?_of_mem hs, rfl, hd⟩

theorem Sound.record?_of_target {plan : UnitPlan} (h : plan.Sound) {r : RecordPlan}
    (hr : r ∈ plan.records) {f : FieldPlan} (hf : f ∈ r.fields) {name : String}
    (ht : f.rule.target? = some name) : ∃ s, plan.record? name = some s := by
  cases he : f.rule with
  | primitive kind => simp [he, Rule.target?] at ht
  | record name' decoder =>
    simp only [he, Rule.target?, Option.some.injEq] at ht
    subst ht
    obtain ⟨s, _, hs, _⟩ := h.record?_of_rule hr hf he
    exact ⟨s, hs⟩

end UnitPlan

namespace Samples

def node : RecordPlan where
  name := "Node"
  decoder := "NewNode"
  origin := .common
  depthDecoder := some "NewNodeAtDepth"
  versions := some (.minimum 0)
  fields :=
    [⟨"value", "Value", false, .primitive (.int .w8), some (.minimum 0), .absent, none⟩,
     ⟨"children", "Children", true, .record "Node" "NewNode", some (.minimum 0), .absent, none⟩]

def treePlan : UnitPlan where
  messageName := "TreeResponse"
  category := "response"
  records :=
    [{ name := "TreeResponse"
       decoder := "ReadTreeResponse"
       origin := .message
       depthDecoder := none
       versions := none
       fields :=
         [⟨"root", "Root", false, .record "Node" "NewNode", some (.minimum 0), .absent, none⟩] },
     node]
  facilities := ⟨true, true, true⟩

theorem build_treeResponse : UnitPlan.build treeResponse = .ok treePlan := by rfl

end Samples

end WireSchema

import WireSchema.Proofs.Sources

/-!
Free text of a message: its category and the descriptions of its fields. Planning hands it on, and
in the source it stands in comments. Descriptions are split into lines before, but the category is
not, so that it can leave its comment.
-/

namespace WireSchema

mutual

def Field.bare : Field → Field
  | ⟨name, typeText, versions, _, default, ignorable, fields⟩ =>
    ⟨name, typeText, versions, none, default, ignorable, bareFields fields⟩

def bareFields : List Field → List Field
  | [] => []
  | f :: rest => f.bare :: bareFields rest

end

def CommonRecord.bare (c : CommonRecord) : CommonRecord := { c with fields := bareFields c.fields }

/-- A message without its free text: its category, and the descriptions of its fields. -/
def Message.bare (m : Message) : Message :=
  { m with
    category := ""
    fields := bareFields m.fields
    commonRecords := m.commonRecords.map CommonRecord.bare }

def RecordDecl.bare (d : RecordDecl) : RecordDecl := { d with fields := bareFields d.fields }

def FieldPlan.bare (f : FieldPlan) : FieldPlan := { f with about := none }

def RecordPlan.bare (r : RecordPlan) : RecordPlan :=
  { r with fields := r.fields.map FieldPlan.bare }

def UnitPlan.bare (plan : UnitPlan) : UnitPlan :=
  { plan with category := "", records := plan.records.map RecordPlan.bare }

@[simp] theorem RecordPlan.bare_name (r : RecordPlan) : r.bare.name = r.name := rfl

@[simp] theorem RecordPlan.bare_fields (r : RecordPlan) :
    r.bare.fields = r.fields.map FieldPlan.bare := rfl

@[simp] theorem UnitPlan.bare_records (plan : UnitPlan) :
    plan.bare.records = plan.records.map RecordPlan.bare := rfl

theorem bareFields_eq (fields : List Field) : bareFields fields = fields.map Field.bare := by
  induction fields with
  | nil => rfl
  | cons f rest ih => simp [bareFields, ih]

@[simp] theorem Field.bare_name (f : Field) : f.bare.name = f.name := by cases f; rfl

@[simp] theorem Field.bare_typeText (f : Field) : f.bare.typeText = f.typeText := by cases f; rfl

@[simp] theorem Field.bare_versions (f : Field) : f.bare.versions = f.versions := by cases f; rfl

@[simp] theorem Field.bare_default (f : Field) : f.bare.default = f.default := by cases f; rfl

@[simp] theorem Field.bare_about (f : Field) : f.bare.about = none := by cases f; rfl

@[simp] theorem Field.bare_isInline (f : Field) : f.bare.isInline = f.isInline := by
  obtain ⟨_, _, _, _, _, _, fields⟩ := f
  cases fields <;> rfl

namespace Catalogue

mutual

/-- Taking the free text out of a field takes it out of what the field declares, and changes
nothing else. -/
theorem fieldDecls_bare (message parent : String) (f : Field) :
    fieldDecls message parent f.bare = (fieldDecls message parent f).map RecordDecl.bare := by
  match f with
  | ⟨_, _, _, _, _, _, []⟩ => rfl
  | ⟨name, typeText, _, _, _, _, g :: gs⟩ =>
    have hg := fieldDecls_bare message (inlineRecordName message (baseName typeText)) g
    have hgs := fieldsDecls_bare message (inlineRecordName message (baseName typeText)) gs
    simp [Field.bare, bareFields, fieldDecls, hg, hgs, inlineDecl, RecordDecl.bare]
termination_by sizeOf f

theorem fieldsDecls_bare (message parent : String) (fields : List Field) :
    fieldsDecls message parent (bareFields fields) =
      (fieldsDecls message parent fields).map RecordDecl.bare := by
  match fields with
  | [] => rfl
  | f :: rest =>
    have hf := fieldDecls_bare message parent f
    have hrest := fieldsDecls_bare message parent rest
    simp [bareFields, fieldsDecls, hf, hrest]
termination_by sizeOf fields

end

theorem declared_bare (m : Message) : declared m.bare = (declared m).map RecordDecl.bare := by
  have hcommon (c : CommonRecord) :
      commonDecls m.name c.bare = (commonDecls m.name c).map RecordDecl.bare := by
    simp [commonDecls, commonDecl, CommonRecord.bare, fieldsDecls_bare, RecordDecl.bare]
  simp [declared, messageDecl, Message.bare, fieldsDecls_bare, List.flatMap_map, List.map_flatMap,
    hcommon, RecordDecl.bare]

end Catalogue

namespace UnitPlan

variable {m : Message}

theorem field_hasPlan_bare {f : Field} {p : FieldPlan} (h : f.HasPlan m p) :
    f.bare.HasPlan m.bare p.bare := by
  obtain ⟨type, guard, ht, hg, hr, hd, rfl⟩ := h
  refine ⟨type, guard, by simpa using ht, by simpa using hg, ?_, ?_, ?_⟩
  · unfold Field.Resolves at hr ⊢
    cases hb : type.base with
    | primitive kind => simpa [hb] using hr
    | record base => simpa [hb, Message.bare, CommonRecord.bare] using hr
  · simpa [Field.DefaultFits] using hd
  · simp [Field.plan, Field.rule, FieldPlan.bare, Message.bare]

theorem hasPlan_bare {d : RecordDecl} {r : RecordPlan} (h : HasPlan m d r) :
    HasPlan m.bare d.bare r.bare := by
  have hfields : List.Forall₂ (Field.HasPlan m.bare) d.bare.fields r.bare.fields := by
    simp only [RecordDecl.bare, RecordPlan.bare, bareFields_eq, List.forall₂_map_left_iff,
      List.forall₂_map_right_iff]
    exact h.fields.imp fun _ _ hf => field_hasPlan_bare hf
  refine ⟨h.versions, ?_, hfields, h.name, h.decoder, h.origin, h.unmarked⟩
  have hidents : idents d.bare.fields = idents d.fields := by
    simp [idents, RecordDecl.bare, bareFields_eq, Function.comp_def]
  rw [hidents]
  exact h.idents

theorem refers_bare (records : List RecordPlan) (throughArrays : Bool) :
    Cycle.Refers (records.map RecordPlan.bare) throughArrays =
      Cycle.Refers records throughArrays := by
  funext a b
  simp [Cycle.Refers, RecordPlan.bare, FieldPlan.bare, Cycle.reference?]

theorem names_bare (records : List RecordPlan) :
    (records.map RecordPlan.bare).map RecordPlan.name = records.map RecordPlan.name := by
  simp [RecordPlan.bare, Function.comp_def]

/-- Which records count levels does not depend on free text. -/
theorem markDepth_bare {records : List RecordPlan} (hn : (records.map RecordPlan.name).Nodup) :
    markDepth (records.map RecordPlan.bare) = (markDepth records).map RecordPlan.bare := by
  have hn' : ((records.map RecordPlan.bare).map RecordPlan.name).Nodup := by
    rwa [names_bare]
  have hmark (r : RecordPlan) :
      mark (records.map RecordPlan.bare) r.bare = (mark records r).bare := by
    rw [mark_eq_ite, mark_eq_ite,
      Cycle.selfReference_isSome_congr hn' hn (refers_bare records true)]
    rfl
  simp [markDepth_eq, hmark]

theorem collectFacilities_bare (records : List RecordPlan) :
    collectFacilities (records.map RecordPlan.bare) = collectFacilities records := by
  have hfields : (records.map RecordPlan.bare).flatMap RecordPlan.fields =
      (records.flatMap RecordPlan.fields).map FieldPlan.bare := by
    simp [List.flatMap_map, List.map_flatMap, RecordPlan.bare]
  rw [collectFacilities, hfields, List.foldl_map]
  rfl

theorem builds_bare {planned : List RecordPlan} (h : Builds m planned) :
    Builds m.bare (planned.map RecordPlan.bare) := by
  have hnames : ((planned.map RecordPlan.bare).map RecordPlan.name).Nodup := by
    rw [names_bare]
    exact h.names
  constructor
  case typed =>
    intro f hf hi
    obtain ⟨d, hd, hf⟩ := Catalogue.mem_allFields.mp hf
    rw [Catalogue.declared_bare] at hd
    obtain ⟨d, hdecl, rfl⟩ := List.mem_map.mp hd
    simp only [RecordDecl.bare, bareFields_eq, List.mem_map] at hf
    obtain ⟨f, hfield, rfl⟩ := hf
    have htyped := h.typed f (Catalogue.mem_allFields.mpr ⟨d, hdecl, hfield⟩)
    simp only [Field.bare_isInline, Field.bare_typeText] at hi ⊢
    exact htyped hi
  case distinct =>
    have hd := h.distinct
    simp only [Catalogue.Distinct] at hd ⊢
    rwa [Catalogue.declared_bare, List.map_map]
  case records =>
    rw [Catalogue.declared_bare, List.forall₂_map_left_iff, List.forall₂_map_right_iff]
    exact h.records.imp fun _ _ hp => hasPlan_bare hp
  case acyclic =>
    intro r hr
    obtain ⟨r, hplanned, rfl⟩ := List.mem_map.mp hr
    have hs := Cycle.selfReference_isSome_congr hnames h.names (refers_bare planned false) r.name
    rw [h.acyclic r hplanned] at hs
    simpa using hs
  case items =>
    have hitems := h.items
    rw [markDepth_bare h.names, collectFacilities_bare, List.flatMap_map]
    exact hitems

/-- Planning looks at no free text: it only hands it on. -/
theorem build_bare {plan : UnitPlan} (h : build m = .ok plan) : build m.bare = .ok plan.bare := by
  obtain ⟨planned, hb, rfl⟩ := build_eq_ok.mp h
  refine build_eq_ok.mpr ⟨_, builds_bare hb, ?_⟩
  rw [markDepth_bare hb.names, collectFacilities_bare]
  rfl

end UnitPlan

namespace Source

section

variable (plan : UnitPlan)

theorem record?_bare (name : String) :
    plan.bare.record? name = (plan.record? name).map RecordPlan.bare := by
  simp only [UnitPlan.record?, UnitPlan.bare, List.find?_map]
  rfl

theorem nestedCall_bare (record : RecordPlan) (name decoder : String) :
    nestedCall plan.bare record.bare name decoder = nestedCall plan record name decoder := by
  unfold nestedCall
  rw [record?_bare]
  cases plan.record? name <;> rfl

theorem readValue_bare (record : RecordPlan) (f : FieldPlan) (sink : Sink) :
    readValue plan.bare record.bare f.bare sink = readValue plan record f sink := by
  unfold readValue
  simp only [nestedCall_bare]
  rfl

/-- The statements for a field have no free text in them. -/
theorem fieldBody_bare (record : RecordPlan) (f : FieldPlan) :
    fieldBody plan.bare record.bare f.bare = fieldBody plan record f := by
  have hfield : readField plan.bare record.bare f.bare = readField plan record f := by
    simp only [readField, readValue_bare]
    rfl
  unfold fieldBody
  rw [hfield]
  rfl

/-- Functions hold no free text. -/
theorem functions_bare (record : RecordPlan) :
    functions plan.bare record.bare = functions plan record := by
  have hbody : recordBody plan.bare record.bare = recordBody plan record := by
    simp only [recordBody, RecordPlan.bare_name, RecordPlan.bare_fields, List.flatMap_map,
      fieldBody_bare]
  unfold functions
  rw [hbody]
  rfl

end

/-- What is emitted for the functions of a record has no free text in it. -/
theorem decoder_bare (plan : UnitPlan) (record : RecordPlan) (runtime : String) :
    Emit.decoder plan.bare record.bare runtime = Emit.decoder plan record runtime := by
  rw [Emit.decoder_eq, Emit.decoder_eq, functions_bare]
  rfl

/-- The lines of a record hold free text in comments alone. -/
theorem passage_code (plan : UnitPlan) (record : RecordPlan) (runtime : String) :
    SameCode (passage plan record runtime) (passage plan.bare record.bare runtime) := by
  have hmember (f : FieldPlan) :
      SameCode ((memberAbout f).map .line ++ [.line s!"pub {f.ident}: {f.typeName},"])
        ((memberAbout f.bare).map .line ++ [.line s!"pub {f.ident}: {f.typeName},"]) :=
    (sameCode_notes (memberAbout_notes f)).append (.refl _)
  have hmembers := SameCode.flatMap fun f (_ : f ∈ record.fields) => hmember f
  have hshape : SameCode (Emit.shape record) (Emit.shape record.bare) := by
    unfold Emit.shape
    rw [RecordPlan.bare_fields, List.flatMap_map]
    exact ((SameCode.refl _).append hmembers).append (.refl _)
  unfold passage
  rw [decoder_bare]
  exact hshape.append (.refl _)

def recordMarks (plan : UnitPlan) (record : RecordPlan) (runtime : String) : List Mark :=
  .blank :: (recordAbout plan record).map .line ++ passage plan record runtime

/-- A unit as its header and then its records. -/
theorem unit_marks (plan : UnitPlan) (options : CompileOptions) :
    Emit.unit plan options = Emit.head plan options ++
      plan.records.flatMap fun r => recordMarks plan r options.runtime := by
  simp [Emit.unit, Emit.struct, recordMarks, passage]

/-- Of the records, the message alone has free text in its description. -/
theorem recordMarks_code {plan : UnitPlan} {record : RecordPlan} (h : record.origin ≠ .message)
    (runtime : String) :
    SameCode (recordMarks plan record runtime) (recordMarks plan.bare record.bare runtime) := by
  have habout : recordAbout plan record = recordAbout plan.bare record.bare := by
    unfold recordAbout RecordPlan.bare
    cases ho : record.origin with
    | message => exact absurd ho h
    | common => rfl
    | inline parent field => rfl
  unfold recordMarks
  rw [habout]
  exact (SameCode.refl _).append (passage_code plan record runtime)

/-- What a category puts outside of comments: it stands in a comment that goes on to the end of a
line, so its lines after the first are code unless they are comments of their own. -/
def spilled (category : String) : List (List Char) :=
  ((category.toList ++ [')', '.']).splitOn '\n').tail.filter fun line => !isComment line

/-- A category of one line stays in its comment. -/
theorem spilled_of_not_mem {category : String} (h : '\n' ∉ category.toList) :
    spilled category = [] := by
  have hline : '\n' ∉ category.toList ++ [')', '.'] := by simp [h]
  rw [spilled, List.splitOn_eq_singleton hline]
  rfl

/-- The description of the message spills what its category does. -/
theorem messageAbout_code (plan : UnitPlan) {record : RecordPlan} (ho : record.origin = .message)
    (hn : '\n' ∉ record.name.toList) :
    codeFrom 0 ((recordAbout plan record).map .line) = spilled plan.category := by
  have hcomment {rest : List Char} (u : List Char) : isComment ('/' :: '/' :: rest ++ u) = true :=
    isComment_of_blank (s := []) (by simp) (rest ++ u)
  simp only [recordAbout, ho]
  split
  · rename_i he
    have hnone : IsNote s!"/// `{record.name}` message." := by
      refine ⟨'/' :: ' ' :: '`' :: (record.name.toList ++ "` message.".toList), ?_, ?_⟩
      · simp [toString]
      · simp [hn]
    rw [String.isEmpty_iff.mp he]
    simp only [List.map_cons, List.map_nil, codeFrom, Mark.text, codeLines_note hnone]
    rfl
  · have htext : (s!"/// `{record.name}` message ({plan.category})." : String).toList =
        '/' :: '/' :: ('/' :: ' ' :: '`' :: (record.name.toList ++ "` message (".toList)) ++
          (plan.category.toList ++ [')', '.']) := by
      simp [toString]
    simp only [List.map_cons, List.map_nil, codeFrom, Mark.text, Mark.lineDepth, lineChars_zero,
      List.append_nil]
    rw [htext, codeLines_comment hcomment (by simp [hn]), spilled]

def codeAfter (plan : UnitPlan) (options : CompileOptions) : List Mark :=
  match plan.records with
  | [] => []
  | entry :: rest => passage plan entry options.runtime ++
      rest.flatMap fun r => recordMarks plan r options.runtime

/-- The code of a source comes from its head, from what the category spills, and from the rest. -/
theorem codeLines_unit {m : Message} {plan : UnitPlan} (h : UnitPlan.build m = .ok plan)
    (options : CompileOptions) :
    codeLines (layout (Emit.unit plan options)).toList =
      codeFrom 0 (Emit.head plan options ++ [.blank]) ++ spilled m.category ++
        (codeFrom 0 (codeAfter plan options) ++ [[]]) := by
  obtain ⟨entry, rest, hrecords, _, horigin, _⟩ := UnitPlan.build_records h
  have hentry : entry ∈ plan.records := by simp [hrecords]
  have hname := unbroken_record h hentry
  have hmarks : Emit.unit plan options =
      (Emit.head plan options ++ [.blank]) ++ (recordAbout plan entry).map .line ++
        codeAfter plan options := by
    simp [unit_marks, codeAfter, hrecords, recordMarks]
  have hhead : (Emit.head plan options ++ [Mark.blank]).foldl Mark.depthAfter 0 = 0 :=
    ((Emit.head_balanced plan 0 options).append (.blank .nil)).ends
  have habout := messageAbout_code plan horigin hname
  rw [codeLines_layout, hmarks, codeFrom_append, List.foldl_append, codeFrom_append, hhead,
    (balanced_lines _ 0).ends, habout, build_category h]
  simp only [List.append_assoc]

/-- Without free text, the rest of the code is the same. -/
theorem codeAfter_bare {m : Message} {plan : UnitPlan} (h : UnitPlan.build m = .ok plan)
    (options : CompileOptions) :
    codeFrom 0 (codeAfter plan options) = codeFrom 0 (codeAfter plan.bare options) := by
  obtain ⟨entry, rest, hrecords, _, _, hrest⟩ := UnitPlan.build_records h
  have hafter : SameCode (codeAfter plan options) (codeAfter plan.bare options) := by
    simp only [codeAfter, UnitPlan.bare_records, hrecords, List.map_cons, List.flatMap_map]
    exact (passage_code plan entry _).append
      (.flatMap fun r hr => recordMarks_code (hrest r hr) _)
  exact hafter.code 0

end Source

open Source

/-- Messages that differ in free text alone give the same code just if their categories spill the
same. -/
theorem codeLines_eq_iff {m m' : Message} (hm : m.bare = m'.bare) {options : CompileOptions}
    {u u' : CompiledUnit} (h : compile m options = .ok u) (h' : compile m' options = .ok u') :
    codeLines u.source.toList = codeLines u'.source.toList ↔
      spilled m.category = spilled m'.category := by
  obtain ⟨plan, hb, hs⟩ := compile_emits h
  obtain ⟨plan', hb', hs'⟩ := compile_emits h'
  have hplan : plan.bare = plan'.bare := by
    have hbare := UnitPlan.build_bare hb
    rw [hm, UnitPlan.build_bare hb'] at hbare
    exact (Except.ok.inj hbare).symm
  have hhead : Emit.head plan options = Emit.head plan' options := by
    have hbare : Emit.head plan.bare options = Emit.head plan'.bare options := by rw [hplan]
    exact hbare
  rw [hs, hs', codeLines_unit hb, codeLines_unit hb', codeAfter_bare hb, codeAfter_bare hb', hplan,
    hhead, List.append_cancel_right_eq, List.append_cancel_left_eq]

/-- Free text stays in comments, but for what a category spills. -/
theorem compile_free_text {m m' : Message} (hm : m.bare = m'.bare) {options : CompileOptions}
    {u u' : CompiledUnit} (h : compile m options = .ok u) (h' : compile m' options = .ok u') :
    (codeLines u.source.toList = codeLines u'.source.toList ↔
      spilled m.category = spilled m'.category) ∧
    ('\n' ∉ m.category.toList → '\n' ∉ m'.category.toList →
      codeLines u.source.toList = codeLines u'.source.toList) := by
  have hiff := codeLines_eq_iff hm h h'
  refine ⟨hiff, ?_⟩
  intro hc hc'
  rw [hiff, spilled_of_not_mem hc, spilled_of_not_mem hc']

namespace Samples

/-- The message `foo` with other free text, whose description looks like code. -/
def annotatedFoo : Message :=
  { foo with
    category := "reply"
    fields := [{ plain "x" "int32" "0+" with about := some "The count.\n\nuse it;\r\n// so" }] }

def brokenFoo : Message := { foo with category := "request\nnote" }

end Samples

theorem compile_free_text_foo :
    ∃ u u', compile Samples.foo {} = .ok u ∧ compile Samples.annotatedFoo {} = .ok u' ∧
      Samples.foo.bare = Samples.annotatedFoo.bare ∧
      codeLines u.source.toList = codeLines u'.source.toList := by
  obtain ⟨u, h⟩ : ∃ u, compile Samples.foo {} = .ok u := ⟨_, rfl⟩
  obtain ⟨u', h'⟩ : ∃ u, compile Samples.annotatedFoo {} = .ok u := ⟨_, rfl⟩
  have hm : Samples.foo.bare = Samples.annotatedFoo.bare := rfl
  exact ⟨u, u', h, h', hm, (compile_free_text hm h h').2 (by decide) (by decide)⟩

/-- A category with a line break leaves its comment. -/
theorem category_leaves_comment :
    Samples.foo.bare = Samples.brokenFoo.bare ∧
      '\n' ∉ ({} : CompileOptions).moduleName.toList ∧ '\n' ∉ ({} : CompileOptions).runtime.toList ∧
      ∃ u u', compile Samples.foo {} = .ok u ∧ compile Samples.brokenFoo {} = .ok u' ∧
        codeLines u.source.toList ≠ codeLines u'.source.toList := by
  obtain ⟨u, h⟩ : ∃ u, compile Samples.foo {} = .ok u := ⟨_, rfl⟩
  obtain ⟨u', h'⟩ : ∃ u, compile Samples.brokenFoo {} = .ok u := ⟨_, rfl⟩
  have hm : Samples.foo.bare = Samples.brokenFoo.bare := rfl
  refine ⟨hm, by decide, by decide, u, u', h, h', ?_⟩
  rw [Ne, codeLines_eq_iff hm h h']
  decide +kernel

end WireSchema

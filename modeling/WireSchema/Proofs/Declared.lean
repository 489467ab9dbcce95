import Mathlib.Data.List.Nodup
import WireSchema.Plan.Catalogue

/-!
The records that a message declares, listed without any check. Discovery gives exactly this list,
and fails exactly when a field that declares a record has no record type or a name comes up twice.
-/

namespace WireSchema

@[simp] theorem ok_bind {ε α β : Type} (a : α) (f : α → Except ε β) :
    ((.ok a : Except ε α) >>= f) = f a := rfl

@[simp] theorem error_bind {ε α β : Type} (e : ε) (f : α → Except ε β) :
    ((.error e : Except ε α) >>= f) = .error e := rfl

@[simp] theorem pure_eq_ok {ε α : Type} (a : α) : (pure a : Except ε α) = .ok a := rfl

theorem bind_eq_ok {ε α β : Type} {x : Except ε α} {f : α → Except ε β} {b : β} :
    (x >>= f) = .ok b ↔ ∃ a, x = .ok a ∧ f a = .ok b := by
  cases x <;> simp [bind, Except.bind]

theorem bind_eq_error {ε α β : Type} {x : Except ε α} {f : α → Except ε β} {e : ε} :
    (x >>= f) = .error e ↔ x = .error e ∨ ∃ a, x = .ok a ∧ f a = .error e := by
  cases x <;> simp [bind, Except.bind]

theorem mapError_eq_ok {ε ε' α : Type} {x : Except ε α} {g : ε → ε'} {a : α} :
    x.mapError g = .ok a ↔ x = .ok a := by
  cases x <;> simp [Except.mapError]

theorem mapError_eq_error {ε ε' α : Type} {x : Except ε α} {f : ε → ε'} {e : ε'} :
    x.mapError f = .error e ↔ ∃ cause, x = .error cause ∧ e = f cause := by
  cases x <;> simp [Except.mapError, eq_comm]

mutual

/-- A field and the fields nested in it, at any depth. -/
def Field.withNested : Field → List Field
  | ⟨name, typeText, versions, about, default, ignorable, fields⟩ =>
    ⟨name, typeText, versions, about, default, ignorable, fields⟩ :: allNested fields

def allNested : List Field → List Field
  | [] => []
  | f :: rest => f.withNested ++ allNested rest

end

def Message.allFields (m : Message) : List Field :=
  allNested m.fields ++ m.commonRecords.flatMap fun c => allNested c.fields

def IsRecordType (typeText : String) : Prop :=
  ∃ isArray base, TypeExpr.parse typeText = .ok ⟨isArray, .record base⟩

namespace Catalogue

/-- The base name in the type of a field; no matter what if that is no type. -/
def baseName (typeText : String) : String :=
  match TypeExpr.parse typeText with
  | .ok type => type.base.name
  | .error _ => ""

mutual

/-- The records that a field of `parent` declares in place: its own, then those inside it. -/
def fieldDecls (message parent : String) : Field → List RecordDecl
  | ⟨_, _, _, _, _, _, []⟩ => []
  | ⟨name, typeText, _, _, _, _, f :: fs⟩ =>
    inlineDecl message parent name (baseName typeText) (f :: fs) ::
      (fieldDecls message (inlineRecordName message (baseName typeText)) f ++
        fieldsDecls message (inlineRecordName message (baseName typeText)) fs)

def fieldsDecls (message parent : String) : List Field → List RecordDecl
  | [] => []
  | f :: rest => fieldDecls message parent f ++ fieldsDecls message parent rest

end

def commonDecls (message : String) (c : CommonRecord) : List RecordDecl :=
  commonDecl c :: fieldsDecls message c.name c.fields

/-- The records that a message declares: itself, those that its fields declare in place, then the
common ones, each with those inside it. -/
def declared (m : Message) : List RecordDecl :=
  messageDecl m :: (fieldsDecls m.name m.name m.fields ++
    m.commonRecords.flatMap (commonDecls m.name))

/-- A base name is found just in the type of a record or of an array of one. -/
theorem inlineBase_eq_ok {parent name typeText base : String} :
    inlineBase parent name typeText = .ok base ↔
      ∃ isArray, TypeExpr.parse typeText = .ok ⟨isArray, .record base⟩ := by
  unfold inlineBase
  split
  · rename_i e he
    simp [he]
  · rename_i isArray kind he
    simp [he]
  · rename_i isArray base' he
    simp [he]

theorem baseName_of_inlineBase {parent name typeText base : String}
    (h : inlineBase parent name typeText = .ok base) :
    baseName typeText = base ∧ IsRecordType typeText := by
  obtain ⟨isArray, he⟩ := inlineBase_eq_ok.mp h
  exact ⟨by simp [baseName, he, Base.name], isArray, base, he⟩

theorem inlineBase_of_isRecordType {parent name typeText : String} (h : IsRecordType typeText) :
    inlineBase parent name typeText = .ok (baseName typeText) := by
  obtain ⟨isArray, base, he⟩ := h
  rw [inlineBase_eq_ok]
  exact ⟨isArray, by simp [baseName, he, Base.name]⟩

def Distinct (decls : List RecordDecl) : Prop := (decls.map RecordDecl.name).Nodup

theorem Distinct.left {known more : List RecordDecl} (h : Distinct (known ++ more)) :
    Distinct known := by
  unfold Distinct at h ⊢
  rw [List.map_append] at h
  exact (List.nodup_append.mp h).1

/-- A step of discovery that succeeds when `ok` holds and the names stay different, and that puts
the declarations `new` behind the known ones. -/
def Adds (step : List RecordDecl → Except CompileError (List RecordDecl)) (ok : Prop)
    (new : List RecordDecl) : Prop :=
  ∀ known known', Distinct known →
    (step known = .ok known' ↔ ok ∧ Distinct (known ++ new) ∧ known' = known ++ new)

theorem Adds.nothing : Adds .ok True [] := by
  intro known known' hk
  simp [hk, eq_comm]

theorem Adds.congr {step : List RecordDecl → Except CompileError (List RecordDecl)}
    {ok ok' : Prop} {new : List RecordDecl} (h : Adds step ok new) (he : ok ↔ ok') :
    Adds step ok' new := by
  intro known known' hk
  rw [h known known' hk, he]

/-- One step after the other adds both their declarations. -/
theorem Adds.andThen {step step' : List RecordDecl → Except CompileError (List RecordDecl)}
    {ok ok' : Prop} {new new' : List RecordDecl} (h : Adds step ok new)
    (h' : Adds step' ok' new') :
    Adds (fun known => step known >>= step') (ok ∧ ok') (new ++ new') := by
  intro known known' hk
  rw [bind_eq_ok]
  constructor
  · intro ⟨middle, hs, hs'⟩
    obtain ⟨ho, hd, rfl⟩ := (h known middle hk).mp hs
    obtain ⟨ho', hd', rfl⟩ := (h' _ known' hd).mp hs'
    exact ⟨⟨ho, ho'⟩, by simpa using hd', by simp⟩
  · intro hyp
    obtain ⟨⟨ho, ho'⟩, hd, rfl⟩ := hyp
    rw [← List.append_assoc] at hd ⊢
    exact ⟨known ++ new, (h known _ hk).mpr ⟨ho, hd.left, rfl⟩,
      (h' _ _ hd.left).mpr ⟨ho', hd, rfl⟩⟩

/-- The check of one name against the known ones is what keeps all of them different. -/
theorem distinct_append_singleton {known : List RecordDecl} {r : RecordDecl}
    (hk : Distinct known) :
    Distinct (known ++ [r]) ↔ known.any (fun k => k.name == r.name) = false := by
  simp only [Distinct, List.map_append, List.map_cons, List.map_nil, List.any_eq_false, beq_iff_eq,
    List.nodup_append]
  constructor
  · intro ⟨_, _, hd⟩ k hm he
    exact hd k.name (List.mem_map_of_mem hm) r.name (by simp) he
  · intro h
    refine ⟨hk, by simp, ?_⟩
    intro a ha b hb he
    obtain ⟨k, hm, rfl⟩ := List.mem_map.mp ha
    rw [List.mem_singleton.mp hb] at he
    exact h k hm he

theorem register_adds (message : String) (r : RecordDecl) :
    Adds (fun known => register message known r) True [r] := by
  intro known known' hk
  rw [distinct_append_singleton hk]
  cases ha : known.any (fun k => k.name == r.name) <;> simp [register, ha, eq_comm]

def InlineTyped (fields : List Field) : Prop :=
  ∀ f ∈ fields, f.isInline = true → IsRecordType f.typeText

theorem inlineTyped_append {fields fields' : List Field} :
    InlineTyped (fields ++ fields') ↔ InlineTyped fields ∧ InlineTyped fields' := by
  simp only [InlineTyped, List.mem_append, or_imp, forall_and]

mutual

/-- Discovery at a field adds what the field declares, at any depth. -/
theorem addField_adds (message parent : String) (f : Field) :
    Adds (fun known => addField message parent known f) (InlineTyped f.withNested)
      (fieldDecls message parent f) := by
  match f with
  | ⟨name, typeText, versions, about, default, ignorable, []⟩ =>
    refine Adds.nothing.congr ?_
    simp [InlineTyped, Field.withNested, allNested, Field.isInline]
  | ⟨name, typeText, versions, about, default, ignorable, g :: gs⟩ =>
    have hinner := (addField_adds message (inlineRecordName message (baseName typeText)) g).andThen
      (addFields_adds message (inlineRecordName message (baseName typeText)) gs)
    have hall := (register_adds message
      (inlineDecl message parent name (baseName typeText) (g :: gs))).andThen hinner
    have htyped : InlineTyped (Field.withNested
        ⟨name, typeText, versions, about, default, ignorable, g :: gs⟩) ↔
        IsRecordType typeText ∧ InlineTyped g.withNested ∧ InlineTyped (allNested gs) := by
      rw [← inlineTyped_append]
      simp [InlineTyped, Field.withNested, allNested, Field.isInline]
    intro known known' hk
    rw [htyped]
    simp only [addField, fieldDecls]
    constructor
    · intro h
      obtain ⟨base, hb, hrest⟩ := bind_eq_ok.mp h
      obtain ⟨rfl, ht⟩ := baseName_of_inlineBase hb
      obtain ⟨⟨_, hg⟩, hd⟩ := (hall known known' hk).mp hrest
      exact ⟨⟨ht, hg⟩, hd⟩
    · intro ⟨⟨ht, hg⟩, hd⟩
      exact bind_eq_ok.mpr ⟨baseName typeText, inlineBase_of_isRecordType ht,
        (hall known known' hk).mpr ⟨⟨trivial, hg⟩, hd⟩⟩
termination_by sizeOf f

theorem addFields_adds (message parent : String) (fields : List Field) :
    Adds (fun known => addFields message parent known fields) (InlineTyped (allNested fields))
      (fieldsDecls message parent fields) := by
  match fields with
  | [] =>
    refine Adds.nothing.congr ?_
    simp [InlineTyped, allNested]
  | f :: rest =>
    refine ((addField_adds message parent f).andThen
      (addFields_adds message parent rest)).congr ?_
    rw [allNested, inlineTyped_append]
termination_by sizeOf fields

end

theorem addCommons_adds (message : String) (commons : List CommonRecord) :
    Adds (fun known => addCommons message known commons)
      (∀ c ∈ commons, InlineTyped (allNested c.fields))
      (commons.flatMap (commonDecls message)) := by
  induction commons with
  | nil => exact Adds.nothing.congr (by simp)
  | cons c rest ih =>
    have hc := ((register_adds message (commonDecl c)).andThen
      (addFields_adds message c.name c.fields)).andThen ih
    simp only [bind_assoc] at hc
    exact hc.congr (by simp)

/-- Discovery gives the declared records, and succeeds exactly when the types of fields that
declare records are record types and no name comes up twice. -/
theorem ofMessage_eq_ok {m : Message} {decls : List RecordDecl} :
    ofMessage m = .ok decls ↔
      InlineTyped m.allFields ∧ Distinct (declared m) ∧ decls = declared m := by
  have h := (register_adds m.name (messageDecl m)).andThen
    ((addFields_adds m.name m.name m.fields).andThen (addCommons_adds m.name m.commonRecords))
  have hm := h [] decls List.nodup_nil
  have htyped : InlineTyped m.allFields ↔ InlineTyped (allNested m.fields) ∧
      ∀ c ∈ m.commonRecords, InlineTyped (allNested c.fields) := by
    rw [Message.allFields, inlineTyped_append]
    simp only [InlineTyped, List.mem_flatMap, forall_exists_index, and_imp]
    exact and_congr_right fun _ => ⟨fun h c hc f hf => h f c hc hf, fun h f c hc hf => h c hc f hf⟩
  rw [htyped]
  simpa [ofMessage, declared] using hm

mutual

/-- The fields below a field are those of the records that it declares. -/
theorem mem_withNested (message parent : String) (f g : Field) :
    g ∈ f.withNested ↔ g = f ∨ ∃ d ∈ fieldDecls message parent f, g ∈ d.fields := by
  match f with
  | ⟨name, typeText, versions, about, default, ignorable, []⟩ =>
    simp [Field.withNested, allNested, fieldDecls]
  | ⟨name, typeText, versions, about, default, ignorable, h :: hs⟩ =>
    have hh := mem_withNested message (inlineRecordName message (baseName typeText)) h g
    have hhs := mem_allNested message (inlineRecordName message (baseName typeText)) hs g
    simp only [Field.withNested, allNested, fieldDecls, List.mem_cons, List.mem_append, hh, hhs,
      or_and_right, exists_or, exists_eq_left, inlineDecl, or_assoc]
    rw [or_left_comm (b := g ∈ hs)]
termination_by sizeOf f

/-- A field lies among some fields at any depth just if it is one of them or a field of a record
that they declare. -/
theorem mem_allNested (message parent : String) (fields : List Field) (g : Field) :
    g ∈ allNested fields ↔
      g ∈ fields ∨ ∃ d ∈ fieldsDecls message parent fields, g ∈ d.fields := by
  match fields with
  | [] => simp [allNested, fieldsDecls]
  | f :: rest =>
    have hf := mem_withNested message parent f g
    have hrest := mem_allNested message parent rest g
    simp only [allNested, fieldsDecls, List.mem_cons, List.mem_append, hf, hrest, or_and_right,
      exists_or, or_assoc]
    rw [or_left_comm (b := g ∈ rest)]
termination_by sizeOf fields

end

/-- Every field of a message belongs to a declared record. -/
theorem mem_allFields {m : Message} {f : Field} :
    f ∈ m.allFields ↔ ∃ d ∈ declared m, f ∈ d.fields := by
  have hcommon (c : CommonRecord) : f ∈ allNested c.fields ↔
      ∃ d ∈ commonDecls m.name c, f ∈ d.fields := by
    rw [mem_allNested m.name c.name]
    simp [commonDecls, commonDecl]
  rw [Message.allFields, List.mem_append, mem_allNested m.name m.name]
  simp only [declared, List.mem_flatMap, hcommon, List.mem_cons, List.mem_append,
    exists_eq_left, or_and_right, exists_or, messageDecl, or_assoc]
  refine or_congr_right (or_congr_right ?_)
  constructor
  · intro ⟨c, hc, d, hd, hf⟩
    exact ⟨d, ⟨c, hc, hd⟩, hf⟩
  · intro ⟨d, ⟨c, hc, hd⟩, hf⟩
    exact ⟨c, hc, d, hd, hf⟩

mutual

/-- What a field declares are the records of the fields with nested fields at or below it. -/
theorem fieldDecls_inline (message parent : String) (f : Field) {d : RecordDecl}
    (hd : d ∈ fieldDecls message parent f) :
    ∃ g ∈ f.withNested, g.isInline = true ∧ ∃ parent',
      d = inlineDecl message parent' g.name (baseName g.typeText) g.fields := by
  match f with
  | ⟨name, typeText, versions, about, default, ignorable, []⟩ => simp [fieldDecls] at hd
  | ⟨name, typeText, versions, about, default, ignorable, h :: hs⟩ =>
    simp only [fieldDecls, List.mem_cons, List.mem_append] at hd
    simp only [Field.withNested, allNested, List.mem_cons, List.mem_append]
    rcases hd with rfl | hd | hd
    · exact ⟨_, .inl rfl, by simp [Field.isInline], parent, rfl⟩
    · obtain ⟨g, hg, hrest⟩ := fieldDecls_inline _ _ h hd
      exact ⟨g, .inr (.inl hg), hrest⟩
    · obtain ⟨g, hg, hrest⟩ := fieldsDecls_inline _ _ hs hd
      exact ⟨g, .inr (.inr hg), hrest⟩
termination_by sizeOf f

theorem fieldsDecls_inline (message parent : String) (fields : List Field) {d : RecordDecl}
    (hd : d ∈ fieldsDecls message parent fields) :
    ∃ g ∈ allNested fields, g.isInline = true ∧ ∃ parent',
      d = inlineDecl message parent' g.name (baseName g.typeText) g.fields := by
  match fields with
  | [] => simp [fieldsDecls] at hd
  | f :: rest =>
    simp only [fieldsDecls, List.mem_append] at hd
    simp only [allNested, List.mem_append]
    rcases hd with hd | hd
    · obtain ⟨g, hg, hrest⟩ := fieldDecls_inline _ _ f hd
      exact ⟨g, .inl hg, hrest⟩
    · obtain ⟨g, hg, hrest⟩ := fieldsDecls_inline _ _ rest hd
      exact ⟨g, .inr hg, hrest⟩
termination_by sizeOf fields

end

mutual

/-- Each field with nested fields declares a record of its own. -/
theorem inline_mem_fieldDecls (message parent : String) (f : Field) {g : Field}
    (hg : g ∈ f.withNested) (hi : g.isInline = true) : ∃ parent',
      inlineDecl message parent' g.name (baseName g.typeText) g.fields ∈
        fieldDecls message parent f := by
  match f with
  | ⟨name, typeText, versions, about, default, ignorable, []⟩ =>
    simp only [Field.withNested, allNested, List.mem_singleton] at hg
    simp [hg, Field.isInline] at hi
  | ⟨name, typeText, versions, about, default, ignorable, h :: hs⟩ =>
    simp only [Field.withNested, allNested, List.mem_cons, List.mem_append] at hg
    simp only [fieldDecls, List.mem_cons, List.mem_append]
    rcases hg with rfl | hg | hg
    · exact ⟨parent, .inl rfl⟩
    · obtain ⟨parent', hm⟩ := inline_mem_fieldDecls _ _ h hg hi
      exact ⟨parent', .inr (.inl hm)⟩
    · obtain ⟨parent', hm⟩ := inline_mem_fieldsDecls _ _ hs hg hi
      exact ⟨parent', .inr (.inr hm)⟩
termination_by sizeOf f

/-- Each field at any depth that declares a record in place is found. -/
theorem inline_mem_fieldsDecls (message parent : String) (fields : List Field) {g : Field}
    (hg : g ∈ allNested fields) (hi : g.isInline = true) : ∃ parent',
      inlineDecl message parent' g.name (baseName g.typeText) g.fields ∈
        fieldsDecls message parent fields := by
  match fields with
  | [] => simp [allNested] at hg
  | f :: rest =>
    simp only [allNested, List.mem_append] at hg
    simp only [fieldsDecls, List.mem_append]
    rcases hg with hg | hg
    · obtain ⟨parent', hm⟩ := inline_mem_fieldDecls _ _ f hg hi
      exact ⟨parent', .inl hm⟩
    · obtain ⟨parent', hm⟩ := inline_mem_fieldsDecls _ _ rest hg hi
      exact ⟨parent', .inr hm⟩
termination_by sizeOf fields

end

/-- A declared record is the message, a common record, or that of a field with nested fields. -/
theorem declared_cases {m : Message} {d : RecordDecl} (hd : d ∈ declared m) :
    d = messageDecl m ∨ (∃ c ∈ m.commonRecords, d = commonDecl c) ∨
      ∃ f ∈ m.allFields, f.isInline = true ∧ ∃ parent,
        d = inlineDecl m.name parent f.name (baseName f.typeText) f.fields := by
  simp only [declared, List.mem_cons, List.mem_append, List.mem_flatMap, commonDecls] at hd
  simp only [Message.allFields, List.mem_append, List.mem_flatMap]
  rcases hd with rfl | hd | ⟨c, hc, rfl | hd⟩
  · exact .inl rfl
  · obtain ⟨f, hf, hrest⟩ := fieldsDecls_inline _ _ _ hd
    exact .inr (.inr ⟨f, .inl hf, hrest⟩)
  · exact .inr (.inl ⟨c, hc, rfl⟩)
  · obtain ⟨f, hf, hrest⟩ := fieldsDecls_inline _ _ _ hd
    exact .inr (.inr ⟨f, .inr ⟨c, hc, hf⟩, hrest⟩)

theorem commonDecl_mem_declared {m : Message} {c : CommonRecord} (hc : c ∈ m.commonRecords) :
    commonDecl c ∈ declared m := by
  simp only [declared, List.mem_cons, List.mem_append, List.mem_flatMap, commonDecls]
  exact .inr (.inr ⟨c, hc, .inl rfl⟩)

theorem inlineDecl_mem_declared {m : Message} {f : Field} (hf : f ∈ m.allFields)
    (hi : f.isInline = true) :
    ∃ parent, inlineDecl m.name parent f.name (baseName f.typeText) f.fields ∈ declared m := by
  simp only [Message.allFields, List.mem_append, List.mem_flatMap] at hf
  simp only [declared, List.mem_cons, List.mem_append, List.mem_flatMap, commonDecls]
  rcases hf with hf | ⟨c, hc, hf⟩
  · obtain ⟨parent, hm⟩ := inline_mem_fieldsDecls m.name m.name _ hf hi
    exact ⟨parent, .inr (.inl hm)⟩
  · obtain ⟨parent, hm⟩ := inline_mem_fieldsDecls m.name c.name _ hf hi
    exact ⟨parent, .inr (.inr ⟨c, hc, .inr hm⟩)⟩

end Catalogue

end WireSchema

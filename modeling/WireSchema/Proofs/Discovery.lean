import WireSchema.Proofs.Acceptance

/-!
The order in which the records of a message are found. The places that declare a record are listed
in pre-order; discovery registers them one after the other and stops at the first that is at fault.
-/

namespace WireSchema

namespace Catalogue

/-- A place of a message that declares a record. -/
inductive Site where
  | message (m : Message)
  | common (c : CommonRecord)
  /-- A field with nested fields, inside the record `parent`. -/
  | field (parent : String) (f : Field)

namespace Site

def decl (message : String) : Site → RecordDecl
  | .message m => messageDecl m
  | common c => commonDecl c
  | field parent f => inlineDecl message parent f.name (baseName f.typeText) f.fields

def name (message : String) (s : Site) : String := (s.decl message).name

def Typed : Site → Prop
  | field _ f => IsRecordType f.typeText
  | _ => True

def field? : Site → Option Field
  | field _ f => some f
  | _ => none

/-- The record that a field stands in is one of the given ones. -/
def Enclosed (outer : List RecordDecl) : Site → Prop
  | field parent f => ∃ d ∈ outer, d.name = parent ∧ f ∈ d.fields
  | _ => True

/-- Why the record of a place is refused after those with the names `taken`. -/
inductive Fault (message : String) (taken : List String) : Site → CompileError → Prop
  | untyped {parent : String} {f : Field} (untyped : ¬ IsRecordType f.typeText) :
      Fault message taken (field parent f) (.unrecognizedType parent f.name f.typeText)
  | duplicate {s : Site} (typed : s.Typed) (mem : s.name message ∈ taken) :
      Fault message taken s (.duplicateRecord message (s.name message))

end Site

mutual

/-- The places at or below a field of `parent`, in pre-order. -/
def fieldSites (message parent : String) : Field → List Site
  | ⟨name, typeText, versions, about, default, ignorable, fields⟩ =>
    if fields.isEmpty then []
    else
      .field parent ⟨name, typeText, versions, about, default, ignorable, fields⟩ ::
        fieldsSites message (inlineRecordName message (baseName typeText)) fields

def fieldsSites (message parent : String) : List Field → List Site
  | [] => []
  | f :: rest => fieldSites message parent f ++ fieldsSites message parent rest

end

def commonSites (message : String) (c : CommonRecord) : List Site :=
  .common c :: fieldsSites message c.name c.fields

/-- The places of a message that declare records: the message, those inside it, then each common
record with those inside it. -/
def sites (m : Message) : List Site :=
  .message m :: (fieldsSites m.name m.name m.fields ++
    m.commonRecords.flatMap (commonSites m.name))

/-- The first place at fault, with the error for it: those before it have record types and names of
their own. -/
def FirstFault (m : Message) (e : CompileError) : Prop :=
  ∃ before s after, sites m = before ++ s :: after ∧ (∀ t ∈ before, t.Typed) ∧
    (before.map (Site.name m.name)).Nodup ∧ s.Fault m.name (before.map (Site.name m.name)) e

/-- Induction on fields: what holds of the fields inside the first and of those behind it holds of
all together. -/
theorem fields_induction {motive : List Field → Prop} (nil : motive [])
    (cons : ∀ f rest, motive f.fields → motive rest → motive (f :: rest)) (fields : List Field) :
    motive fields := by
  match fields with
  | [] => exact nil
  | ⟨_, _, _, _, _, _, inner⟩ :: rest =>
    exact cons _ rest (fields_induction nil cons inner) (fields_induction nil cons rest)
termination_by sizeOf fields

theorem allNested_cons (f : Field) (rest : List Field) :
    allNested (f :: rest) = f :: (allNested f.fields ++ allNested rest) := by
  obtain ⟨name, typeText, versions, about, default, ignorable, fields⟩ := f
  rfl

theorem fieldsSites_cons (message parent : String) (f : Field) (rest : List Field) :
    fieldsSites message parent (f :: rest) =
      (if f.isInline then
        .field parent f ::
          fieldsSites message (inlineRecordName message (baseName f.typeText)) f.fields
      else []) ++ fieldsSites message parent rest := by
  obtain ⟨name, typeText, versions, about, default, ignorable, fields⟩ := f
  cases fields <;> rfl

theorem fieldsDecls_cons (message parent : String) (f : Field) (rest : List Field) :
    fieldsDecls message parent (f :: rest) =
      (if f.isInline then
        inlineDecl message parent f.name (baseName f.typeText) f.fields ::
          fieldsDecls message (inlineRecordName message (baseName f.typeText)) f.fields
      else []) ++ fieldsDecls message parent rest := by
  obtain ⟨name, typeText, versions, about, default, ignorable, fields⟩ := f
  cases fields <;> rfl

/-- The places of fields declare the records that the fields declare, in the same order. -/
theorem fieldsSites_decls (message parent : String) (fields : List Field) :
    (fieldsSites message parent fields).map (Site.decl message) =
      fieldsDecls message parent fields := by
  induction fields using fields_induction generalizing parent with
  | nil => rfl
  | cons f rest inner ih =>
    rw [fieldsSites_cons, fieldsDecls_cons, List.map_append, ih]
    cases f.isInline
    · rfl
    · simp [Site.decl, inner]

/-- The places declare the records of the message. -/
theorem sites_decls (m : Message) : (sites m).map (Site.decl m.name) = declared m := by
  have hcommon (c : CommonRecord) :
      (commonSites m.name c).map (Site.decl m.name) = commonDecls m.name c := by
    simp [commonSites, commonDecls, Site.decl, fieldsSites_decls]
  simp [sites, declared, Site.decl, List.map_flatMap, fieldsSites_decls, hcommon]

theorem fieldsSites_fields (message parent : String) (fields : List Field) :
    (fieldsSites message parent fields).filterMap Site.field? =
      (allNested fields).filter Field.isInline := by
  induction fields using fields_induction generalizing parent with
  | nil => rfl
  | cons f rest inner ih =>
    rw [fieldsSites_cons, allNested_cons, List.filterMap_append, ih]
    cases hi : f.isInline
    · have hnone : f.fields = [] := by simpa [Field.isInline] using hi
      simp [hi, hnone, allNested]
    · simp [hi, Site.field?, inner]

/-- Each field with nested fields is one place, and the places stand in the order of the fields. -/
theorem sites_fields (m : Message) :
    (sites m).filterMap Site.field? = m.allFields.filter Field.isInline := by
  have hcommon (c : CommonRecord) : (commonSites m.name c).filterMap Site.field? =
      (allNested c.fields).filter Field.isInline := by
    rw [commonSites, List.filterMap_cons_none rfl, fieldsSites_fields]
  rw [sites, List.filterMap_cons_none rfl]
  simp [Message.allFields, fieldsSites_fields, List.filterMap_flatMap, List.filter_flatMap,
    hcommon]

def Site.enter (message : String) (known : List RecordDecl) :
    Site → Except CompileError (List RecordDecl)
  | field parent f => do
    let base ← inlineBase parent f.name f.typeText
    register message known (inlineDecl message parent f.name base f.fields)
  | s => register message known (s.decl message)

theorem addFields_plain {message parent : String} {known : List RecordDecl} {f : Field}
    {rest : List Field} (hi : f.isInline = false) :
    addFields message parent known (f :: rest) = addFields message parent known rest := by
  obtain ⟨name, typeText, versions, about, default, ignorable, fields⟩ := f
  cases fields with
  | nil => rfl
  | cons g gs => cases hi

/-- Discovery enters the place of a field before it looks inside the field. -/
theorem addFields_inline {message parent : String} {known : List RecordDecl} {f : Field}
    {rest : List Field} (hi : f.isInline = true) :
    addFields message parent known (f :: rest) =
      (Site.field parent f).enter message known >>= fun known =>
        addFields message (inlineRecordName message (baseName f.typeText)) known f.fields >>=
          fun known => addFields message parent known rest := by
  obtain ⟨name, typeText, versions, about, default, ignorable, fields⟩ := f
  cases fields with
  | nil => cases hi
  | cons g gs =>
    simp only [addFields, addField, Site.enter, bind_assoc]
    cases hb : inlineBase parent name typeText with
    | error e => simp only [error_bind]
    | ok base =>
      obtain ⟨rfl, _⟩ := baseName_of_inlineBase hb
      simp only [ok_bind]

/-- Going down the fields is going along the places. -/
theorem addFields_eq (message parent : String) (known : List RecordDecl) (fields : List Field) :
    addFields message parent known fields =
      (fieldsSites message parent fields).foldlM (Site.enter message) known := by
  induction fields using fields_induction generalizing parent known with
  | nil => rfl
  | cons f rest inner ih =>
    rw [fieldsSites_cons, List.foldlM_append]
    cases hi : f.isInline with
    | false =>
      rw [addFields_plain hi, ih]
      rfl
    | true =>
      rw [addFields_inline hi, if_pos rfl, List.foldlM_cons, bind_assoc]
      simp only [inner, ih]

theorem addCommons_eq (message : String) (known : List RecordDecl) (commons : List CommonRecord) :
    addCommons message known commons =
      (commons.flatMap (commonSites message)).foldlM (Site.enter message) known := by
  induction commons generalizing known with
  | nil => rfl
  | cons c rest ih =>
    rw [List.flatMap_cons, List.foldlM_append, commonSites, List.foldlM_cons, bind_assoc]
    simp only [addCommons, addFields_eq, ih, Site.enter, Site.decl]

/-- Discovery as one loop over the places of a message. -/
theorem ofMessage_eq (m : Message) :
    ofMessage m = (sites m).foldlM (Site.enter m.name) [] := by
  rw [sites, List.foldlM_cons]
  simp only [List.foldlM_append, ofMessage, addFields_eq, addCommons_eq, Site.enter, Site.decl]

theorem Site.enter_adds (message : String) (s : Site) :
    Adds (fun known => s.enter message known) s.Typed [s.decl message] := by
  cases s with
  | message m => exact register_adds message _
  | common c => exact register_adds message _
  | field parent f =>
    intro known known' hk
    have hreg := register_adds message (inlineDecl message parent f.name (baseName f.typeText)
      f.fields) known known' hk
    simp only [Site.enter, bind_eq_ok, Site.Typed, Site.decl]
    constructor
    · intro ⟨base, hb, h⟩
      obtain ⟨rfl, ht⟩ := baseName_of_inlineBase hb
      exact ⟨ht, (hreg.mp h).2⟩
    · intro ⟨ht, h⟩
      exact ⟨_, inlineBase_of_isRecordType ht, hreg.mpr ⟨trivial, h⟩⟩

/-- Places that are all in order are registered one after the other. -/
theorem enter_all_adds (message : String) (ss : List Site) :
    Adds (fun known => ss.foldlM (Site.enter message) known) (∀ s ∈ ss, s.Typed)
      (ss.map (Site.decl message)) := by
  induction ss with
  | nil => exact Adds.nothing.congr (by simp)
  | cons s rest ih =>
    have hboth := (s.enter_adds message).andThen ih
    exact hboth.congr (by simp)

theorem parseType_eq_error {text : String} {e : AttributeError}
    (h : TypeExpr.parse text = .error e) : e = .unrecognizedType text := by
  simp only [TypeExpr.parse] at h
  split at h
  · cases h
  · cases h
    rfl

theorem inlineBase_eq_error {parent name typeText : String} {e : CompileError} :
    inlineBase parent name typeText = .error e ↔
      ¬ IsRecordType typeText ∧ e = .unrecognizedType parent name typeText := by
  unfold inlineBase IsRecordType
  cases ht : TypeExpr.parse typeText with
  | error cause =>
    have hcause := parseType_eq_error ht
    subst hcause
    simp [CompileError.ofAttribute, eq_comm]
  | ok type =>
    obtain ⟨isArray, base⟩ := type
    cases base <;> simp [eq_comm]

theorem register_eq_error {message : String} {known : List RecordDecl} {r : RecordDecl}
    {e : CompileError} :
    register message known r = .error e ↔
      r.name ∈ known.map RecordDecl.name ∧ e = .duplicateRecord message r.name := by
  have hany : known.any (fun k => k.name == r.name) = true ↔
      r.name ∈ known.map RecordDecl.name := by
    simp
  unfold register
  split
  · rename_i h
    simp [hany.mp h, eq_comm]
  · rename_i h
    simp [mt hany.mpr h]

/-- A place is refused just for a fault of its own: its type, or a name that is taken. -/
theorem Site.enter_eq_error {message : String} {known : List RecordDecl} {s : Site}
    {e : CompileError} :
    s.enter message known = .error e ↔ s.Fault message (known.map RecordDecl.name) e := by
  have hduplicate {d : RecordDecl} (hd : d = s.decl message) (ht : s.Typed) :
      register message known d = .error e ↔ s.Fault message (known.map RecordDecl.name) e := by
    subst hd
    rw [register_eq_error]
    constructor
    · intro ⟨hm, he⟩
      exact he ▸ .duplicate ht hm
    · intro h
      cases h with
      | untyped hu => exact absurd ht hu
      | duplicate _ hm => exact ⟨hm, rfl⟩
  cases s with
  | message m => exact hduplicate rfl trivial
  | common c => exact hduplicate rfl trivial
  | field parent f =>
    simp only [Site.enter, bind_eq_error]
    by_cases ht : IsRecordType f.typeText
    · rw [inlineBase_of_isRecordType ht, ← hduplicate rfl ht]
      simp [Site.decl]
    · have hb : inlineBase parent f.name f.typeText =
          .error (.unrecognizedType parent f.name f.typeText) := inlineBase_eq_error.mpr ⟨ht, rfl⟩
      rw [hb]
      constructor
      · rintro (h | ⟨_, h, _⟩)
        · cases h
          exact .untyped ht
        · cases h
      · intro h
        cases h with
        | untyped _ => exact .inl rfl
        | duplicate typed _ => exact absurd typed ht

/-- A loop fails at the first step that fails, after steps that succeed. -/
theorem foldlM_eq_error {ε α β : Type} {f : β → α → Except ε β} {xs : List α} {b : β} {e : ε} :
    xs.foldlM f b = .error e ↔
      ∃ before x after c, xs = before ++ x :: after ∧ before.foldlM f b = .ok c ∧
        f c x = .error e := by
  induction xs generalizing b with
  | nil => simp
  | cons y ys ih =>
    rw [List.foldlM_cons, bind_eq_error]
    constructor
    · rintro (h | ⟨a, ha, h⟩)
      · exact ⟨[], y, ys, b, rfl, rfl, h⟩
      · obtain ⟨before, x, after, c, rfl, hc, hx⟩ := ih.mp h
        exact ⟨y :: before, x, after, c, rfl, by rw [List.foldlM_cons, ha]; exact hc, hx⟩
    · rintro ⟨before, x, after, c, hxs, hc, hx⟩
      cases before with
      | nil =>
        cases hxs
        cases hc
        exact .inl hx
      | cons z before =>
        obtain ⟨rfl, hys⟩ := List.cons.inj hxs
        rw [List.foldlM_cons] at hc
        obtain ⟨a, ha, hc⟩ := bind_eq_ok.mp hc
        exact .inr ⟨a, ha, ih.mpr ⟨before, x, after, c, hys, hc, hx⟩⟩

/-- Discovery fails with the error of the first place at fault. -/
theorem ofMessage_eq_error {m : Message} {e : CompileError} :
    ofMessage m = .error e ↔ FirstFault m e := by
  have hnames (before : List Site) : (before.map (Site.decl m.name)).map RecordDecl.name =
      before.map (Site.name m.name) := by
    rw [List.map_map]
    rfl
  have hbefore (before : List Site) (known : List RecordDecl) :
      before.foldlM (Site.enter m.name) [] = .ok known ↔ (∀ t ∈ before, t.Typed) ∧
        (before.map (Site.name m.name)).Nodup ∧ known = before.map (Site.decl m.name) := by
    have hadds := enter_all_adds m.name before [] known List.nodup_nil
    rwa [List.nil_append, Distinct, hnames] at hadds
  rw [ofMessage_eq, foldlM_eq_error]
  constructor
  · rintro ⟨before, s, after, known, hsites, hknown, hs⟩
    obtain ⟨htyped, hnodup, rfl⟩ := (hbefore before known).mp hknown
    rw [Site.enter_eq_error, hnames] at hs
    exact ⟨before, s, after, hsites, htyped, hnodup, hs⟩
  · rintro ⟨before, s, after, hsites, htyped, hnodup, hs⟩
    refine ⟨before, s, after, _, hsites, (hbefore before _).mpr ⟨htyped, hnodup, rfl⟩, ?_⟩
    rwa [Site.enter_eq_error, hnames]

/-- Each field among places stands in a record of the places before it, or in an outer one. -/
def Ordered (message : String) (outer : List RecordDecl) (ss : List Site) : Prop :=
  ∀ before s after, ss = before ++ s :: after →
    s.Enclosed (outer ++ before.map (Site.decl message))

section

variable {message : String} {outer : List RecordDecl}

theorem ordered_nil : Ordered message outer [] := by
  intro before s after h
  simp at h

theorem ordered_cons {s : Site} {ss : List Site} (hs : s.Enclosed outer)
    (h : Ordered message (outer ++ [s.decl message]) ss) : Ordered message outer (s :: ss) := by
  intro before t after he
  cases before with
  | nil =>
    cases he
    simpa using hs
  | cons u before =>
    obtain ⟨rfl, htail⟩ := List.cons.inj he
    simpa using h before t after htail

theorem ordered_append {ss more : List Site} (h : Ordered message outer ss)
    (hm : Ordered message (outer ++ ss.map (Site.decl message)) more) :
    Ordered message outer (ss ++ more) := by
  intro before s after he
  rcases List.append_eq_append_iff.mp he with ⟨front, rfl, hfront⟩ | ⟨back, rfl, hback⟩
  · simpa using hm front s after hfront
  · cases back with
    | nil => simpa using hm [] s after (by simpa using hback.symm)
    | cons u back =>
      obtain ⟨rfl, _⟩ := List.cons.inj hback
      exact h before s back rfl

theorem fieldsSites_ordered {parent : String} {fields : List Field}
    (h : ∀ f ∈ fields, (Site.field parent f).Enclosed outer) :
    Ordered message outer (fieldsSites message parent fields) := by
  induction fields using fields_induction generalizing parent outer with
  | nil => exact ordered_nil
  | cons f rest inner ih =>
    have hrest (more : List RecordDecl) :
        ∀ g ∈ rest, (Site.field parent g).Enclosed (outer ++ more) := by
      intro g hg
      obtain ⟨d, hd, hin⟩ := h g (List.mem_cons_of_mem _ hg)
      exact ⟨d, List.mem_append_left _ hd, hin⟩
    rw [fieldsSites_cons]
    refine ordered_append ?_ (ih (hrest _))
    cases f.isInline with
    | false => exact ordered_nil
    | true =>
      refine ordered_cons (h f List.mem_cons_self) (inner ?_)
      intro g hg
      exact ⟨_, List.mem_append_right _ List.mem_cons_self, rfl, hg⟩

theorem commonSites_ordered (c : CommonRecord) :
    Ordered message outer (commonSites message c) := by
  refine ordered_cons trivial (fieldsSites_ordered ?_)
  intro f hf
  exact ⟨_, List.mem_append_right _ List.mem_cons_self, rfl, hf⟩

end

/-- Each record stands behind the one that it is declared in. -/
theorem sites_ordered (m : Message) : Ordered m.name [] (sites m) := by
  have hcommons (commons : List CommonRecord) (outer : List RecordDecl) :
      Ordered m.name outer (commons.flatMap (commonSites m.name)) := by
    induction commons generalizing outer with
    | nil => exact ordered_nil
    | cons c rest ih => exact ordered_append (commonSites_ordered c) (ih _)
  refine ordered_cons trivial (ordered_append (fieldsSites_ordered ?_) (hcommons _ _))
  intro f hf
  exact ⟨_, List.mem_append_right _ List.mem_cons_self, rfl, hf⟩

/-- Discovery gives the records of a message in pre-order: one for the message, for each common
record and for each field with nested fields. The record of a field has the nested fields, names the
field and the record that encloses it, and stands behind that record. Discovery succeeds if these
fields have record types and all names are different. Otherwise it fails, with the error of the
first place in that order whose type is not that of a record or whose name was taken before. -/
theorem ofMessage_preorder (m : Message) :
    (InlineTyped m.allFields ∧ m.recordNames.Nodup →
      ofMessage m = .ok ((sites m).map (Site.decl m.name))) ∧
    (¬ (InlineTyped m.allFields ∧ m.recordNames.Nodup) → ∃ e, ofMessage m = .error e) ∧
    (∀ e, ofMessage m = .error e ↔ FirstFault m e) ∧
    (sites m).filterMap Site.field? = m.allFields.filter Field.isInline ∧
    ∀ before parent f after, sites m = before ++ .field parent f :: after →
      ((Site.field parent f).decl m.name).fields = f.fields ∧
      ((Site.field parent f).decl m.name).origin = .inline parent f.name ∧
      ∃ s ∈ before, s.name m.name = parent ∧ f ∈ (s.decl m.name).fields := by
  have hnames : m.recordNames.Nodup ↔ Distinct (declared m) :=
    (declared_names_perm m).nodup_iff.symm
  refine ⟨?_, ?_, fun e => ofMessage_eq_error, sites_fields m, ?_⟩
  · intro ⟨htyped, hnodup⟩
    exact ofMessage_eq_ok.mpr ⟨htyped, hnames.mp hnodup, sites_decls m⟩
  · intro hnot
    cases h : ofMessage m with
    | error e => exact ⟨e, rfl⟩
    | ok decls =>
      obtain ⟨htyped, hdistinct, _⟩ := ofMessage_eq_ok.mp h
      exact absurd ⟨htyped, hnames.mpr hdistinct⟩ hnot
  · intro before parent f after h
    obtain ⟨d, hd, hname, hf⟩ := sites_ordered m before _ after h
    obtain ⟨s, hs, rfl⟩ := List.mem_map.mp hd
    exact ⟨rfl, rfl, s, hs, hname, hf⟩

end Catalogue

namespace Samples

def pairRequest : Message where
  category := "request"
  name := "PairRequest"
  validVersions := "0"
  flexibleVersions := ""
  fields :=
    [{ name := "left", typeText := "Part", versions := "0+", fields := [plain "x" "int8" "0+"] },
     { name := "right", typeText := "[]Part", versions := "0+", fields := [plain "y" "int8" "0+"] }]
  commonRecords := []

end Samples

namespace Catalogue

/-- The records of a request with records in records, and the error for a name that comes up
twice. -/
theorem ofMessage_preorder_fetch :
    InlineTyped Samples.fetchRequest.allFields ∧ Samples.fetchRequest.recordNames.Nodup ∧
      (sites Samples.fetchRequest).map (Site.name "FetchRequest") =
        ["FetchRequest", "FetchRequestFetchTopic", "FetchRequestFetchPartition", "LeaderInfo"] ∧
      ofMessage Samples.fetchRequest =
        .ok ((sites Samples.fetchRequest).map (Site.decl "FetchRequest")) ∧
      FirstFault Samples.pairRequest (.duplicateRecord "PairRequest" "PairRequestPart") := by
  have htyped : InlineTyped Samples.fetchRequest.allFields :=
    (ofMessage_eq_ok.mp (rfl : ofMessage Samples.fetchRequest = .ok _)).1
  have hnames : Samples.fetchRequest.recordNames.Nodup := by decide
  have hfails : ofMessage Samples.pairRequest =
      .error (.duplicateRecord "PairRequest" "PairRequestPart") := by rfl
  exact ⟨htyped, hnames, by decide, (ofMessage_preorder _).1 ⟨htyped, hnames⟩,
    ((ofMessage_preorder _).2.2.1 _).mp hfails⟩

end Catalogue

end WireSchema

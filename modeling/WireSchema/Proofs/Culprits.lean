import WireSchema.Proofs.Discovery
import WireSchema.Proofs.Versions

/-!
What an error of planning says about the message. Each pass stops at the first thing that it finds
wrong; the error names a record that was found, a field that it declares or an item that it needs,
and what is wrong with that is in the message.
-/

namespace WireSchema

open Catalogue (Site sites declared)

/-- Discovery comes to a record: up to it, places that declare records have record types and names
of their own. -/
def Message.Discovers (m : Message) (d : RecordDecl) : Prop :=
  ∃ found rest, sites m = found ++ rest ∧ (∀ s ∈ found, s.Typed) ∧
    (found.map (Site.name m.name)).Nodup ∧ d ∈ found.map (Site.decl m.name)

/-- What can be wrong with a field that stands behind the fields `before` of a record. -/
inductive Field.Fault (m : Message) (record : String) (before : List Field) (f : Field) :
    CompileError → Prop
  /-- The type stands for nothing. -/
  | type (unresolved : ¬ ∃ type, TypeExpr.parse f.typeText = .ok type ∧ f.Resolves m type) :
      Fault m record before f (.unrecognizedType record f.name f.typeText)
  | versions (unread : ∀ guard, VersionPredicate.parse f.versions ≠ .ok guard) :
      Fault m record before f (.invalidVersions record f.name f.versions)
  | default {type : TypeExpr} {detail : String} (read : TypeExpr.parse f.typeText = .ok type)
      (misfit : ¬ f.DefaultFits type) :
      Fault m record before f (.unsupportedDefault record f.name detail)
  | ident (unusable : isUsable (Text.capitalize f.name) = false) :
      Fault m record before f (.unusableFieldName record f.name (Text.capitalize f.name))
  | duplicate {g : Field} (earlier : g ∈ before)
      (same : Text.capitalize g.name = Text.capitalize f.name) :
      Fault m record before f (.duplicateField record f.name)

inductive Message.Culprit (m : Message) : CompileError → Prop
  | field {d : RecordDecl} {before after : List Field} {f : Field} {e : CompileError}
      (record : m.Discovers d) (declares : d.fields = before ++ f :: after)
      (fault : f.Fault m d.name before e) : Culprit m e
  | recordVersions {c : CommonRecord} (common : c ∈ m.commonRecords)
      (unread : ∀ p, VersionPredicate.parse c.versions ≠ .ok p) :
      Culprit m (.invalidRecordVersions c.name c.versions)
  | duplicateRecord {name : String} (twice : 2 ≤ m.recordNames.count name) :
      Culprit m (.duplicateRecord m.name name)
  /-- An item of a record is not usable, or imported, or an item of the unit for a second time. -/
  | item {d : RecordDecl} {item : String} (record : m.Discovers d) (needs : item ∈ m.itemsOf d)
      (fault : isUsable item = false ∨ m.Imports item ∨ 2 ≤ m.items.count item) :
      Culprit m (.unusableRecordName d.name item)

theorem two_le_count {α : Type} [BEq α] [LawfulBEq α] {xs ys : List α} {a : α} (h : a ∈ xs) :
    2 ≤ (xs ++ a :: ys).count a := by
  have hpos := List.count_pos_iff.mpr h
  rw [List.count_append, List.count_cons_self]
  omega

theorem exists_mem_of_mapM_eq_error {ε α β : Type} {f : α → Except ε β} {xs : List α} {e : ε}
    (h : xs.mapM f = .error e) : ∃ x ∈ xs, f x = .error e := by
  obtain ⟨before, x, after, rfl, _, hx⟩ := mapM_eq_error.mp h
  exact ⟨x, List.mem_append_right _ List.mem_cons_self, hx⟩

namespace Catalogue

variable {m : Message}

/-- A place that is a field has nested fields. -/
theorem isInline_of_site {parent : String} {f : Field} (h : Site.field parent f ∈ sites m) :
    f ∈ m.allFields ∧ f.isInline = true := by
  have hf : f ∈ (sites m).filterMap Site.field? := List.mem_filterMap.mpr ⟨_, h, rfl⟩
  rw [sites_fields] at hf
  exact List.mem_filter.mp hf

/-- When discovery goes through, it comes to every declared record. -/
theorem discovers_of_declared (ht : InlineTyped m.allFields) (hn : Distinct (declared m))
    {d : RecordDecl} (hd : d ∈ declared m) : m.Discovers d := by
  refine ⟨sites m, [], (List.append_nil _).symm, ?_, ?_, by rwa [sites_decls]⟩
  · intro s hs
    cases s with
    | message m' => trivial
    | common c => trivial
    | field parent f =>
      obtain ⟨hf, hi⟩ := isInline_of_site hs
      exact ht f hf hi
  · rw [Distinct, ← sites_decls, List.map_map] at hn
    exact hn

/-- The first place at fault is a culprit. -/
theorem culprit_of_firstFault {e : CompileError} (h : FirstFault m e) : m.Culprit e := by
  obtain ⟨before, s, after, hsites, htyped, hnodup, hfault⟩ := h
  cases hfault with
  | @untyped parent f huntyped =>
    obtain ⟨d, hd, rfl, hf⟩ := sites_ordered m before _ after hsites
    rw [List.nil_append] at hd
    obtain ⟨front, back, hsplit⟩ := List.append_of_mem hf
    have hinline : f.isInline = true :=
      (isInline_of_site (hsites ▸ List.mem_append_right _ List.mem_cons_self)).2
    refine .field ⟨before, _, hsites, htyped, hnodup, hd⟩ hsplit (.type ?_)
    rintro ⟨⟨isArray, base⟩, hparse, hresolves⟩
    cases base with
    | primitive kind =>
      have hplain : f.isInline = false := hresolves
      rw [hinline] at hplain
      cases hplain
    | record base => exact huntyped ⟨isArray, base, hparse⟩
  | duplicate typed hmem =>
    have hnames : (sites m).map (Site.name m.name) = (declared m).map RecordDecl.name := by
      rw [← sites_decls, List.map_map]
      rfl
    refine .duplicateRecord ?_
    rw [← (declared_names_perm m).count_eq, ← hnames, hsites, List.map_append, List.map_cons]
    exact two_le_count hmem

end Catalogue

namespace UnitPlan

variable {m : Message} {record : String} {e : CompileError}

/-- A rule that cannot be resolved is that of a type that stands for nothing. -/
theorem resolveRule_eq_error {f : Field} {type : TypeExpr}
    (h : resolveRule m.name record (commons m) f type.base = .error e) :
    ¬ f.Resolves m type ∧ e = .unrecognizedType record f.name f.typeText := by
  constructor
  · intro hresolves
    rw [resolveRule_eq_ok.mpr ⟨hresolves, rfl⟩] at h
    cases h
  · unfold resolveRule at h
    repeat' split at h
    all_goals cases h
    all_goals rfl

/-- Each way in which planning a field fails is a fault of that field. -/
theorem planField_eq_error {f : Field} (h : planField m.name record (commons m) f = .error e)
    (before : List Field) : f.Fault m record before e := by
  rcases bind_eq_error.mp h with htype | ⟨type, htype, h⟩
  · obtain ⟨cause, hparse, rfl⟩ := mapError_eq_error.mp htype
    have hcause := Catalogue.parseType_eq_error hparse
    subst hcause
    refine .type ?_
    rintro ⟨type, hok, _⟩
    cases hparse.symm.trans hok
  · rw [mapError_eq_ok] at htype
    rcases bind_eq_error.mp h with hguard | ⟨guard, _, h⟩
    · obtain ⟨cause, hparse, rfl⟩ := mapError_eq_error.mp hguard
      obtain ⟨rfl, _⟩ := VersionPredicate.parse_eq_error.mp hparse
      refine .versions ?_
      intro guard hok
      cases hparse.symm.trans hok
    · rcases bind_eq_error.mp h with hrule | ⟨rule, hrule, h⟩
      · obtain ⟨hnot, rfl⟩ := resolveRule_eq_error hrule
        refine .type ?_
        rintro ⟨type', hparse, hresolves⟩
        cases htype.symm.trans hparse
        exact hnot hresolves
      · obtain ⟨_, rfl⟩ := resolveRule_eq_ok.mp hrule
        cases hmisfit : defaultMisfit? f type.isArray (f.rule m type) with
        | none => simp [hmisfit] at h
        | some detail =>
          simp only [hmisfit, Except.error.injEq] at h
          subst h
          refine .default htype ?_
          rw [← defaultMisfit_eq_none (m := m), hmisfit]
          nofun

/-- Planning the fields of a record stops at a field with a fault. The names taken are those of the
fields before. -/
theorem planFields_eq_error {fields : List Field} (before : List Field)
    (h : planFields m.name record (commons m) (idents before).reverse fields = .error e) :
    ∃ front f back, before ++ fields = front ++ f :: back ∧ f.Fault m record front e := by
  induction fields generalizing before with
  | nil => cases h
  | cons f rest ih =>
    rcases bind_eq_error.mp h with hplan | ⟨p, hplan, h⟩
    · exact ⟨before, f, rest, rfl, planField_eq_error hplan before⟩
    · have hident : p.ident = Text.capitalize f.name := by
        obtain ⟨type, guard, _, _, _, _, rfl⟩ := planField_eq_ok.mp hplan
        rfl
      rw [hident] at h
      split at h
      · rename_i husable
        cases h
        exact ⟨before, f, rest, rfl, .ident (by simpa using husable)⟩
      · split at h
        · rename_i htaken
          cases h
          have hmem : Text.capitalize f.name ∈ idents before := by simpa using htaken
          obtain ⟨g, hg, hsame⟩ := List.mem_map.mp hmem
          exact ⟨before, f, rest, rfl, .duplicate hg hsame⟩
        · rcases bind_eq_error.mp h with hrest | ⟨others, _, he⟩
          · have htaken : Text.capitalize f.name :: (idents before).reverse =
                (idents (before ++ [f])).reverse := by simp [idents]
            rw [htaken] at hrest
            obtain ⟨front, g, back, hsplit, hfault⟩ := ih _ hrest
            exact ⟨front, g, back, by simpa using hsplit, hfault⟩
          · cases he

/-- The error of a record names the record, or the field of it that is at fault. -/
theorem planRecord_eq_error {d : RecordDecl} (hd : d ∈ declared m) (hfound : m.Discovers d)
    (h : planRecord m.name (commons m) d = .error e) : m.Culprit e := by
  rcases bind_eq_error.mp h with hversions | ⟨versions, _, h⟩
  · rcases Catalogue.declared_cases hd with rfl | ⟨c, hc, rfl⟩ | ⟨f, _, _, parent, rfl⟩
    · cases hversions
    · obtain ⟨cause, hparse, rfl⟩ := mapError_eq_error.mp hversions
      refine .recordVersions hc ?_
      intro p hok
      cases hparse.symm.trans hok
    · cases hversions
  · rcases bind_eq_error.mp h with hfields | ⟨fields, _, he⟩
    · obtain ⟨front, f, back, hsplit, hfault⟩ := planFields_eq_error [] hfields
      exact .field hfound hsplit hfault
    · cases he

/-- Records are refused for the first that leads back to itself, with the field that the search for
it ends with. -/
theorem exists_first_of_rejectRecursive {all rest : List RecordPlan}
    (h : rejectRecursive all rest = .error e) :
    ∃ before root after f, rest = before ++ root :: after ∧
      (∀ r ∈ before, Cycle.selfReference? all r.name false = none) ∧
      Cycle.selfReference? all root.name false = some f ∧
      e = .recursiveRecord root.name f.ident := by
  induction rest with
  | nil => cases h
  | cons r rest ih =>
    unfold rejectRecursive at h
    split at h
    · rename_i f hf
      cases h
      exact ⟨[], r, rest, f, rfl, by simp, hf, rfl⟩
    · rename_i hnone
      obtain ⟨before, root, after, f, rfl, hbefore, hf, he⟩ := ih h
      exact ⟨r :: before, root, after, f, rfl, List.forall_mem_cons.mpr ⟨hnone, hbefore⟩, hf, he⟩

/-- The search for records that contain themselves has no other error. -/
theorem rejectRecursive_eq_error {all rest : List RecordPlan}
    (h : rejectRecursive all rest = .error e) :
    ∃ record field, e = .recursiveRecord record field := by
  obtain ⟨_, root, _, f, _, _, _, he⟩ := exists_first_of_rejectRecursive h
  exact ⟨root.name, f.ident, he⟩

/-- Claiming the items of a record stops at one that is not usable or taken. -/
theorem claimItems_eq_error {taken items : List String}
    (h : claimItems record taken items = .error e) :
    ∃ own item rest, items = own ++ item :: rest ∧ e = .unusableRecordName record item ∧
      (isUsable item = false ∨ item ∈ taken ∨ item ∈ own) := by
  induction items generalizing taken with
  | nil => cases h
  | cons item rest ih =>
    unfold claimItems at h
    split at h
    · rename_i hrefused
      cases h
      refine ⟨[], item, rest, rfl, rfl, ?_⟩
      rcases Bool.or_eq_true_iff.mp hrefused with hu | ht
      · exact .inl (by simpa using hu)
      · exact .inr (.inl (by simpa using ht))
    · obtain ⟨own, other, back, rfl, he, hfault⟩ := ih h
      refine ⟨item :: own, other, back, rfl, he, ?_⟩
      rcases hfault with hu | ht | ho
      · exact .inl hu
      · rcases List.mem_cons.mp ht with rfl | ht
        · exact .inr (.inr List.mem_cons_self)
        · exact .inr (.inl ht)
      · exact .inr (.inr (List.mem_cons_of_mem _ ho))

/-- The check of items stops at an item of a record that is not usable, taken, or an item for a
second time. -/
theorem checkItems_eq_error {taken : List String} {records : List RecordPlan}
    (h : checkItems taken records = .error e) :
    ∃ r ∈ records, ∃ item ∈ recordItems r, e = .unusableRecordName r.name item ∧
      (isUsable item = false ∨ item ∈ taken ∨
        2 ≤ (records.flatMap recordItems).count item) := by
  induction records generalizing taken with
  | nil => cases h
  | cons r rest ih =>
    rcases bind_eq_error.mp h with hclaim | ⟨taken', hclaim, h⟩
    · obtain ⟨own, item, back, hitems, he, hfault⟩ := claimItems_eq_error hclaim
      refine ⟨r, List.mem_cons_self, item, by simp [hitems], he, ?_⟩
      refine hfault.imp_right (Or.imp_right fun ho => ?_)
      rw [List.flatMap_cons, hitems, List.append_assoc]
      exact two_le_count ho
    · obtain ⟨_, rfl⟩ := claimItems_eq_ok.mp hclaim
      obtain ⟨s, hs, item, hitem, he, hfault⟩ := ih h
      refine ⟨s, List.mem_cons_of_mem _ hs, item, hitem, he, ?_⟩
      rw [List.flatMap_cons]
      rcases hfault with hu | ht | hc
      · exact .inl hu
      · rcases List.mem_append.mp ht with hown | ht
        · -- the item is one of this record, and one of a later record again
          obtain ⟨front, back, hsplit⟩ :=
            List.append_of_mem (List.mem_flatMap.mpr ⟨s, hs, hitem⟩)
          rw [hsplit, ← List.append_assoc]
          exact .inr (.inr (two_le_count
            (List.mem_append_left _ (List.mem_reverse.mp hown))))
        · exact .inr (.inl ht)
      · rw [List.count_append]
        exact .inr (.inr (by omega))

/-- An error of planning names a culprit in the message: a record that discovery comes to, and in
it a field whose type stands for nothing, whose versions cannot be read, whose default does not fit,
or whose emitted name is not usable or that of an earlier field; a common record whose versions
cannot be read; a name that two records have; or an item of a record that is not usable, imported,
or needed twice. -/
theorem build_culprit (h : build m = .error e)
    (hr : ∀ record field, e ≠ .recursiveRecord record field) : m.Culprit e := by
  rcases bind_eq_error.mp h with hdiscovery | ⟨decls, hdecls, h⟩
  · exact Catalogue.culprit_of_firstFault (Catalogue.ofMessage_eq_error.mp hdiscovery)
  · obtain ⟨htyped, hdistinct, rfl⟩ := Catalogue.ofMessage_eq_ok.mp hdecls
    have hfound {d : RecordDecl} (hd : d ∈ declared m) : m.Discovers d :=
      Catalogue.discovers_of_declared htyped hdistinct hd
    rcases bind_eq_error.mp h with hplan | ⟨planned, hplan, h⟩
    · obtain ⟨d, hd, hrecord⟩ := exists_mem_of_mapM_eq_error hplan
      exact planRecord_eq_error hd (hfound hd) hrecord
    · rcases bind_eq_error.mp h with hrecursive | ⟨_, _, h⟩
      · obtain ⟨record, field, he⟩ := rejectRecursive_eq_error hrecursive
        exact absurd he (hr record field)
      · rcases bind_eq_error.mp h with hitems | ⟨_, _, he⟩
        · have hrecords : List.Forall₂ (HasPlan m) (declared m) planned :=
            (mapM_eq_ok.mp hplan).imp fun _ _ hp => planRecord_eq_ok.mp hp
          have hnames := (Catalogue.declared_names_perm m).nodup_iff.mp hdistinct
          obtain ⟨r, hmem, item, hitem, rfl, hfault⟩ := checkItems_eq_error hitems
          obtain ⟨s, hs, rfl⟩ := mem_markDepth.mp hmem
          obtain ⟨d, hd, hdplan⟩ := exists_of_mem_right hrecords hs
          have hneeds : item ∈ m.itemsOf d := by
            rwa [← recordItems_mark hrecords hnames hdplan]
          have hname : (mark planned s).name = d.name := hdplan.name
          rw [hname]
          refine .item (hfound hd) hneeds ?_
          rw [← imports_planned hrecords, ← items_planned hrecords hnames]
          exact hfault
        · cases he

end UnitPlan

namespace Samples

/-- A request with a record inside, two of whose fields differ in the case of a letter only. -/
def twinRequest : Message where
  category := "request"
  name := "TwinRequest"
  validVersions := "0"
  flexibleVersions := ""
  fields :=
    [plain "size" "int8" "0+",
     { name := "parts", typeText := "[]Part", versions := "0+",
       fields := [plain "x" "int8" "0+", plain "X" "int16" "0+"] }]
  commonRecords := []

end Samples

namespace UnitPlan

theorem build_culprit_twin :
    build Samples.twinRequest = .error (.duplicateField "TwinRequestPart" "X") ∧
      Samples.twinRequest.Culprit (.duplicateField "TwinRequestPart" "X") := by
  have hbuild : build Samples.twinRequest = .error (.duplicateField "TwinRequestPart" "X") := by rfl
  exact ⟨hbuild, build_culprit hbuild nofun⟩

end UnitPlan

end WireSchema

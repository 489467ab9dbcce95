import Mathlib.Data.List.Forall2
import WireSchema.Plan.Build
import WireSchema.Proofs.Declared

/-!
What each pass from a message to its plan accepts, and what it gives. The fields of the plan follow
from the fields of the message one by one.
-/

namespace WireSchema

/-- A list is mapped when each of its members is. -/
theorem mapM_eq_ok {ε α β : Type} {f : α → Except ε β} {xs : List α} {ys : List β} :
    xs.mapM f = .ok ys ↔ List.Forall₂ (fun x y => f x = .ok y) xs ys := by
  induction xs generalizing ys with
  | nil => simp [pure, Except.pure, eq_comm]
  | cons x xs ih =>
    simp only [List.mapM_cons, bind_eq_ok, ih, List.forall₂_cons_left_iff]
    constructor
    · intro ⟨y, hy, rest, hrest, he⟩
      cases he
      exact ⟨y, rest, hy, hrest, rfl⟩
    · intro hyp
      obtain ⟨y, rest, hy, hrest, rfl⟩ := hyp
      exact ⟨y, hy, rest, hrest, rfl⟩

/-- A pass over a list fails at the first member that it fails at. -/
theorem mapM_eq_error {ε α β : Type} {f : α → Except ε β} {xs : List α} {e : ε} :
    xs.mapM f = .error e ↔
      ∃ before x after, xs = before ++ x :: after ∧ (∀ y ∈ before, ∃ b, f y = .ok b) ∧
        f x = .error e := by
  induction xs with
  | nil => simp
  | cons y ys ih =>
    rw [List.mapM_cons, bind_eq_error]
    constructor
    · rintro (hy | ⟨b, hb, hrest⟩)
      · exact ⟨[], y, ys, rfl, by simp, hy⟩
      · obtain hrest | ⟨bs, _, he⟩ := bind_eq_error.mp hrest
        · obtain ⟨before, x, after, rfl, hbefore, hx⟩ := ih.mp hrest
          exact ⟨y :: before, x, after, rfl, List.forall_mem_cons.mpr ⟨⟨b, hb⟩, hbefore⟩, hx⟩
        · cases he
    · rintro ⟨before, x, after, hsplit, hbefore, hx⟩
      cases before with
      | nil =>
        cases hsplit
        exact .inl hx
      | cons z before =>
        obtain ⟨rfl, rfl⟩ := List.cons.inj hsplit
        obtain ⟨⟨b, hb⟩, hbefore⟩ := List.forall_mem_cons.mp hbefore
        have hrest := ih.mpr ⟨before, x, after, rfl, hbefore, hx⟩
        exact .inr ⟨b, hb, bind_eq_error.mpr (.inl hrest)⟩

/-- What a field refers to: a primitive, the record that it declares in place, or a common one. -/
def Field.rule (m : Message) (f : Field) (type : TypeExpr) : Rule :=
  match type.base with
  | .primitive kind => .primitive kind
  | .record base =>
    let name := if f.isInline then inlineRecordName m.name base else base
    .record name (recordDecoderName name)

/-- The type of a field stands for something: nested fields go with the type of a record, and
without them a record is one of the common ones. -/
def Field.Resolves (m : Message) (f : Field) (type : TypeExpr) : Prop :=
  match type.base with
  | .primitive _ => f.isInline = false
  | .record base => f.isInline = true ∨ ∃ c ∈ m.commonRecords, c.name = base

/-- A default fits the type of its field: a string that of a string, an integer that of an integer
wide enough for it. -/
def Field.DefaultFits (f : Field) (type : TypeExpr) : Prop :=
  match f.default with
  | .absent => True
  | .string _ => type = ⟨false, .primitive .string⟩
  | .int v => ∃ w : IntWidth, type = ⟨false, .primitive (.int w)⟩ ∧ w.least ≤ v ∧ v ≤ w.greatest

def Field.plan (m : Message) (f : Field) (type : TypeExpr) (guard : Option VersionPredicate) :
    FieldPlan :=
  { name := f.name
    ident := Text.capitalize f.name
    isArray := type.isArray
    rule := f.rule m type
    guard := guard
    default := f.default
    about := f.about }

def Field.HasPlan (m : Message) (f : Field) (p : FieldPlan) : Prop :=
  ∃ type guard, TypeExpr.parse f.typeText = .ok type ∧
    VersionPredicate.parse f.versions = .ok guard ∧ f.Resolves m type ∧ f.DefaultFits type ∧
    p = f.plan m type guard

namespace UnitPlan

def commons (m : Message) : List RecordDecl :=
  (Catalogue.declared m).filter fun d => d.origin = .common

theorem mem_commons {m : Message} {d : RecordDecl} :
    d ∈ commons m ↔ ∃ c ∈ m.commonRecords, d = Catalogue.commonDecl c := by
  simp only [commons, List.mem_filter, decide_eq_true_eq]
  constructor
  · intro ⟨hd, ho⟩
    rcases Catalogue.declared_cases hd with rfl | h | ⟨f, _, _, parent, rfl⟩
    · simp [Catalogue.messageDecl] at ho
    · exact h
    · simp [Catalogue.inlineDecl] at ho
  · intro hyp
    obtain ⟨c, hc, rfl⟩ := hyp
    exact ⟨Catalogue.commonDecl_mem_declared hc, rfl⟩

/-- Looking up a common record finds one with that name and its own decoder. -/
theorem find_commons {m : Message} {base : String} {d : RecordDecl}
    (h : (commons m).find? (fun c => c.name == base) = some d) :
    d.name = base ∧ d.decoder = recordDecoderName base ∧ ∃ c ∈ m.commonRecords, c.name = base := by
  obtain ⟨c, hc, rfl⟩ := mem_commons.mp (List.mem_of_find?_eq_some h)
  have hn : c.name = base := by simpa [Catalogue.commonDecl] using List.find?_some h
  exact ⟨hn, by simp [Catalogue.commonDecl, hn], c, hc, hn⟩

theorem find_commons_isSome {m : Message} {base : String}
    (h : ∃ c ∈ m.commonRecords, c.name = base) :
    ∃ d, (commons m).find? (fun c => c.name == base) = some d := by
  obtain ⟨c, hc, hn⟩ := h
  apply Option.isSome_iff_exists.mp
  rw [List.find?_isSome]
  exact ⟨Catalogue.commonDecl c, mem_commons.mpr ⟨c, hc, rfl⟩, by simp [Catalogue.commonDecl, hn]⟩

/-- A rule is found just if the type stands for something, and then it is that of the field. -/
theorem resolveRule_eq_ok {m : Message} {record : String} {f : Field} {type : TypeExpr}
    {rule : Rule} :
    resolveRule m.name record (commons m) f type.base = .ok rule ↔
      f.Resolves m type ∧ rule = f.rule m type := by
  obtain ⟨isArray, base⟩ := type
  cases base with
  | primitive kind =>
    cases hi : f.isInline <;> simp [resolveRule, Field.Resolves, Field.rule, hi, eq_comm]
  | record base =>
    cases hi : f.isInline with
    | true => simp [resolveRule, Field.Resolves, Field.rule, hi, eq_comm]
    | false =>
      simp only [resolveRule, Field.Resolves, Field.rule, hi, Bool.false_eq_true, false_or,
        if_false]
      cases hf : (commons m).find? (fun c => c.name == base) with
      | none =>
        simp only [reduceCtorEq, false_iff, not_and]
        intro hc
        obtain ⟨d, hd⟩ := find_commons_isSome hc
        rw [hf] at hd
        cases hd
      | some d =>
        obtain ⟨hn, hd, hc⟩ := find_commons hf
        simp only [hn, hd, Except.ok.injEq]
        exact ⟨fun he => ⟨hc, he.symm⟩, fun h => h.2.symm⟩

/-- The check of a default passes just those that fit. -/
theorem defaultMisfit_eq_none {m : Message} {f : Field} {type : TypeExpr} :
    defaultMisfit? f type.isArray (f.rule m type) = none ↔ f.DefaultFits type := by
  obtain ⟨isArray, base⟩ := type
  unfold defaultMisfit? Field.DefaultFits Field.rule
  cases f.default with
  | absent => simp
  | string s =>
    cases isArray <;> cases base with
    | primitive kind => simp
    | record base => simp
  | int v =>
    cases isArray with
    | true => simp
    | false =>
      cases base with
      | record base => simp [Rule.width?]
      | primitive kind => cases kind <;> simp [Rule.width?, Primitive.width?, IntWidth.holds]

theorem planField_eq_ok {m : Message} {record : String} {f : Field} {p : FieldPlan} :
    planField m.name record (commons m) f = .ok p ↔ f.HasPlan m p := by
  simp only [planField, bind_eq_ok, mapError_eq_ok, resolveRule_eq_ok, Field.HasPlan]
  constructor
  · intro hyp
    obtain ⟨type, ht, guard, hg, rule, ⟨hr, rfl⟩, h⟩ := hyp
    refine ⟨type, guard, ht, hg, hr, ?_⟩
    cases hd : defaultMisfit? f type.isArray (f.rule m type) with
    | some detail => simp [hd] at h
    | none =>
      simp only [hd, Except.ok.injEq] at h
      exact ⟨defaultMisfit_eq_none.mp hd, h.symm⟩
  · intro hyp
    obtain ⟨type, guard, ht, hg, hr, hd, rfl⟩ := hyp
    exact ⟨type, ht, guard, hg, _, ⟨hr, rfl⟩, by simp [defaultMisfit_eq_none.mpr hd, Field.plan]⟩

/-- Names are usable, and different from each other and from those taken before. -/
structure Fresh (taken names : List String) : Prop where
  usable : ∀ name ∈ names, isUsable name = true
  nodup : names.Nodup
  apart : ∀ name ∈ names, name ∉ taken

theorem fresh_nil (taken : List String) : Fresh taken [] := ⟨by simp, by simp, by simp⟩

theorem fresh_cons {taken : List String} {name : String} {rest : List String} :
    Fresh taken (name :: rest) ↔
      isUsable name = true ∧ name ∉ taken ∧ Fresh (name :: taken) rest := by
  constructor
  · intro ⟨hu, hn, ha⟩
    obtain ⟨hnew, hn⟩ := List.nodup_cons.mp hn
    refine ⟨hu name List.mem_cons_self, ha name List.mem_cons_self,
      fun i hi => hu i (List.mem_cons_of_mem _ hi), hn, ?_⟩
    intro i hi hm
    rcases List.mem_cons.mp hm with rfl | hm
    · exact hnew hi
    · exact ha i (List.mem_cons_of_mem _ hi) hm
  · intro ⟨hi, hit, hu, hn, ha⟩
    refine ⟨by simpa [hi] using hu, List.nodup_cons.mpr ⟨fun hm => ?_, hn⟩, ?_⟩
    · exact ha name hm List.mem_cons_self
    · intro i hm ht
      rcases List.mem_cons.mp hm with rfl | hm
      · exact hit ht
      · exact ha i hm (List.mem_cons_of_mem _ ht)

theorem fresh_append {taken names more : List String} :
    Fresh taken (names ++ more) ↔ Fresh taken names ∧ Fresh (names.reverse ++ taken) more := by
  induction names generalizing taken with
  | nil => simp [fresh_nil]
  | cons name rest ih =>
    simp only [List.cons_append, fresh_cons, ih, List.reverse_cons, List.append_assoc,
      List.nil_append, and_assoc]

def idents (fields : List Field) : List String := fields.map fun f => Text.capitalize f.name

/-- Fields are planned one by one, with the names before them taken. -/
theorem planFields_eq_ok {m : Message} {record : String} {taken : List String}
    {fields : List Field} {ps : List FieldPlan} :
    planFields m.name record (commons m) taken fields = .ok ps ↔
      Fresh taken (idents fields) ∧ List.Forall₂ (Field.HasPlan m) fields ps := by
  induction fields generalizing taken ps with
  | nil => simp [planFields, idents, fresh_nil, eq_comm]
  | cons f rest ih =>
    have hident {p : FieldPlan} (hp : f.HasPlan m p) : p.ident = Text.capitalize f.name := by
      obtain ⟨type, guard, _, _, _, _, rfl⟩ := hp
      rfl
    simp only [planFields, bind_eq_ok, planField_eq_ok, List.forall₂_cons_left_iff, idents,
      List.map_cons, fresh_cons]
    constructor
    · intro ⟨p, hp, h⟩
      rw [hident hp] at h
      split at h
      · cases h
      · rename_i hu
        split at h
        · cases h
        · rename_i ht
          obtain ⟨others, ho, he⟩ := bind_eq_ok.mp h
          cases he
          obtain ⟨hfresh, hrest⟩ := ih.mp ho
          exact ⟨⟨by simpa using hu, by simpa using ht, hfresh⟩, p, others, hp, hrest, rfl⟩
    · intro hyp
      obtain ⟨⟨hu, ht, hfresh⟩, p, others, hp, hrest, rfl⟩ := hyp
      refine ⟨p, hp, ?_⟩
      simp only [hident hp, hu, Bool.not_true, Bool.false_eq_true, if_false,
        List.contains_iff_mem, ht]
      exact bind_eq_ok.mpr ⟨others, ih.mpr ⟨hfresh, hrest⟩, rfl⟩

structure HasPlan (m : Message) (d : RecordDecl) (r : RecordPlan) : Prop where
  versions : recordVersions d = .ok r.versions
  idents : Fresh [] (idents d.fields)
  fields : List.Forall₂ (Field.HasPlan m) d.fields r.fields
  name : r.name = d.name
  decoder : r.decoder = d.decoder
  origin : r.origin = d.origin
  unmarked : r.depthDecoder = none

theorem planRecord_eq_ok {m : Message} {d : RecordDecl} {r : RecordPlan} :
    planRecord m.name (commons m) d = .ok r ↔ HasPlan m d r := by
  simp only [planRecord, bind_eq_ok, planFields_eq_ok]
  constructor
  · intro ⟨versions, hv, fields, ⟨hi, hf⟩, h⟩
    cases h
    exact ⟨hv, hi, hf, rfl, rfl, rfl, rfl⟩
  · intro ⟨hv, hi, hf, hn, hd, ho, hm⟩
    exact ⟨r.versions, hv, r.fields, ⟨hi, hf⟩, by rw [← hn, ← hd, ← ho, ← hm]; rfl⟩

theorem rejectRecursive_eq_ok {all rest : List RecordPlan} :
    rejectRecursive all rest = .ok () ↔
      ∀ r ∈ rest, Cycle.selfReference? all r.name false = none := by
  induction rest with
  | nil => simp [rejectRecursive]
  | cons r rest ih =>
    cases h : Cycle.selfReference? all r.name false <;> simp [rejectRecursive, h, ih]

theorem claimItems_eq_ok {record : String} {taken taken' items : List String} :
    claimItems record taken items = .ok taken' ↔
      Fresh taken items ∧ taken' = items.reverse ++ taken := by
  induction items generalizing taken with
  | nil => simp [claimItems, fresh_nil, eq_comm]
  | cons item rest ih =>
    rw [fresh_cons]
    cases hu : isUsable item with
    | false => simp [claimItems, hu]
    | true =>
      by_cases ht : item ∈ taken
      · simp [claimItems, hu, ht]
      · simp [claimItems, hu, ht, ih]

/-- The check of item names passes just if all of them are new, those of each record next to the
others. -/
theorem checkItems_eq_ok {taken : List String} {records : List RecordPlan} :
    checkItems taken records = .ok () ↔ Fresh taken (records.flatMap recordItems) := by
  induction records generalizing taken with
  | nil => simp [checkItems, fresh_nil]
  | cons r rest ih =>
    simp only [checkItems, bind_eq_ok, claimItems_eq_ok, List.flatMap_cons, fresh_append]
    constructor
    · intro hyp
      obtain ⟨taken', ⟨hr, rfl⟩, hrest⟩ := hyp
      exact ⟨hr, ih.mp hrest⟩
    · intro ⟨hr, hrest⟩
      exact ⟨_, ⟨hr, rfl⟩, ih.mpr hrest⟩

/-- What a plan is built from: a plan for each declared record, none of which contains itself other
than through arrays. -/
structure Builds (m : Message) (planned : List RecordPlan) : Prop where
  typed : Catalogue.InlineTyped m.allFields
  distinct : Catalogue.Distinct (Catalogue.declared m)
  records : List.Forall₂ (HasPlan m) (Catalogue.declared m) planned
  acyclic : ∀ r ∈ planned, Cycle.selfReference? planned r.name false = none
  items : Fresh (collectFacilities (markDepth planned)).items
    ((markDepth planned).flatMap recordItems)

/-- A plan is built just from plans of the declared records, and holds them with their marks. -/
theorem build_eq_ok {m : Message} {plan : UnitPlan} :
    build m = .ok plan ↔ ∃ planned, Builds m planned ∧
      plan = ⟨m.name, m.category, markDepth planned, collectFacilities (markDepth planned)⟩ := by
  simp only [build, bind_eq_ok, Catalogue.ofMessage_eq_ok]
  constructor
  · intro hyp
    obtain ⟨decls, ⟨ht, hd, rfl⟩, planned, hp, u, hr, u', hc, he⟩ := hyp
    have hrecords := (mapM_eq_ok.mp hp).imp fun _ _ h => planRecord_eq_ok.mp h
    cases he
    exact ⟨planned, ⟨ht, hd, hrecords, rejectRecursive_eq_ok.mp hr, checkItems_eq_ok.mp hc⟩, rfl⟩
  · intro hyp
    obtain ⟨planned, ⟨ht, hd, hrecords, hr, hc⟩, rfl⟩ := hyp
    exact ⟨_, ⟨ht, hd, rfl⟩, planned,
      mapM_eq_ok.mpr (hrecords.imp fun _ _ h => planRecord_eq_ok.mpr h), (),
      rejectRecursive_eq_ok.mpr hr, (), checkItems_eq_ok.mpr hc, rfl⟩

end UnitPlan

end WireSchema

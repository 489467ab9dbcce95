import WireSchema.Proofs.Culprits
import WireSchema.Proofs.Linked

/-!
Records that contain themselves. The search for a way back ends, and decides whether there is one;
so exactly the records on a cycle count levels, and never the message. A message is refused for the
first record that contains itself without an array in between. The field that the refusal names is
the last one of the way back: it belongs to the record itself if that holds itself directly, and to
another record if not.
-/

namespace WireSchema

open Relation

namespace Cycle

section

variable {records : List RecordPlan} {root : String} {throughArrays : Bool}

theorem reference_eq_some {f : FieldPlan} {target : String} :
    reference? throughArrays f = some target ↔
      (f.isArray = true → throughArrays = true) ∧ f.rule.target? = some target := by
  cases ha : f.isArray <;> cases throughArrays <;> simp [reference?, ha]

/-- A scan stops if one of the fields refers to the root. -/
theorem exists_scan_found {fields : List FieldPlan}
    (h : ∃ f ∈ fields, reference? throughArrays f = some root) (pending visited : List String) :
    ∃ f, scan root throughArrays fields pending visited = .found f := by
  obtain ⟨f, hf, href⟩ := h
  fun_induction scan root throughArrays fields pending visited with
  | case1 => cases hf
  | case2 g rest pending visited hg ih =>
    rcases List.mem_cons.mp hf with rfl | hf
    · cases hg.symm.trans href
    · exact ih hf
  | case3 g => exact ⟨g, rfl⟩
  | case4 g rest pending visited target hg hne _ ih =>
    rcases List.mem_cons.mp hf with rfl | hf
    · cases hg.symm.trans href
      simp at hne
    · exact ih hf
  | case5 g rest pending visited target hg hne _ ih =>
    rcases List.mem_cons.mp hf with rfl | hf
    · cases hg.symm.trans href
      simp at hne
    · exact ih hf

/-- A record that refers to itself is found to do so by a field of its own: it is scanned before
any other. -/
theorem selfReference_own (hn : (records.map RecordPlan.name).Nodup) {r : RecordPlan}
    (hr : r ∈ records) (h : ∃ f ∈ r.fields, reference? throughArrays f = some r.name) :
    ∃ f ∈ r.fields, selfReference? records r.name throughArrays = some f ∧
      reference? throughArrays f = some r.name := by
  obtain ⟨f, hscan⟩ := exists_scan_found h [] []
  obtain ⟨hf, href⟩ := scan_found hscan
  have hends : Ends records r.name throughArrays [r.name] [] (some f) :=
    .found (find_of_mem hn hr) hscan
  exact ⟨f, hf, (selfReference_ends hn).unique hends, href⟩

end

end Cycle

namespace UnitPlan

/-- A record, and the same record with a decoder that counts levels just if it lies on a cycle. -/
structure Marked (records : List RecordPlan) (r marked : RecordPlan) : Prop where
  same : marked = { r with depthDecoder := marked.depthDecoder }
  counts : TransGen (Cycle.Refers records true) r.name r.name →
    marked.depthDecoder = some (depthDecoderName r.decoder)
  plain : ¬ TransGen (Cycle.Refers records true) r.name r.name → marked.depthDecoder = none

theorem mark_marked {records : List RecordPlan} (hn : (records.map RecordPlan.name).Nodup)
    (r : RecordPlan) : Marked records r (mark records r) := by
  rw [mark_eq_ite]
  refine ⟨rfl, ?_, ?_⟩
  · intro hcycle
    exact if_pos ((Cycle.selfReference_isSome_iff hn).mpr hcycle)
  · intro hcycle
    exact if_neg fun hsome => hcycle ((Cycle.selfReference_isSome_iff hn).mp hsome)

/-- Marking goes record by record, and marks just those that lie on a cycle. -/
theorem markDepth_marked {records : List RecordPlan} (hn : (records.map RecordPlan.name).Nodup) :
    List.Forall₂ (Marked records) records (markDepth records) := by
  rw [markDepth_eq, List.forall₂_map_right_iff, List.forall₂_same]
  exact fun r _ => mark_marked hn r

/-- No field refers to the message, so it lies on no cycle. -/
theorem entry_plain {m : Message} {plan : UnitPlan} (h : build m = .ok plan) :
    ∃ entry, plan.entry? = some entry ∧ entry.depthDecoder = none := by
  obtain ⟨entry, hfirst, hmem, hname, _⟩ := build_entry h
  refine ⟨entry, hfirst, ?_⟩
  have hcycle : ¬ TransGen (Cycle.Refers plan.records true) entry.name entry.name := by
    intro hyp
    obtain ⟨_, _, r, hr, _, f, hf, href⟩ := TransGen.tail'_iff.mp hyp
    obtain ⟨_, htarget⟩ := Cycle.reference_eq_some.mp href
    cases hrule : f.rule with
    | primitive kind => simp [hrule, Rule.target?] at htarget
    | record name decoder =>
      simp only [hrule, Rule.target?, Option.some.injEq] at htarget
      obtain ⟨_, _, _, _, hother⟩ := build_refers h hr hf hrule
      exact hother (htarget.trans hname)
  have hmarked := (build_sound h).marked entry hmem
  rw [← Option.not_isSome_iff_eq_none, hmarked]
  exact hcycle

end UnitPlan

namespace Cycle

open UnitPlan

/-- The search for a way back to a record, in a list of records with names of their own. Its loop
ends, with one answer, and that is a field just if the record leads back to itself; the field then
refers to the record, and belongs to it or to one that it leads to. So the records that get a
decoder that counts levels are those on a cycle, and the message of a plan is none of them. -/
theorem selfReference_decides {records : List RecordPlan}
    (hn : (records.map RecordPlan.name).Nodup) :
    (∀ root ∈ records, ∀ throughArrays : Bool,
      (∀ answer, Ends records root.name throughArrays [root.name] [] answer ↔
        selfReference? records root.name throughArrays = answer) ∧
      ((∃ f, selfReference? records root.name throughArrays = some f) ↔
        TransGen (Refers records throughArrays) root.name root.name) ∧
      ∀ f, selfReference? records root.name throughArrays = some f →
        f.rule.target? = some root.name ∧ (f.isArray = true → throughArrays = true) ∧
          ∃ owner ∈ records, f ∈ owner.fields ∧
            (owner = root ∨ TransGen (Refers records throughArrays) root.name owner.name)) ∧
    List.Forall₂ (Marked records) records (markDepth records) ∧
    ∀ m plan, build m = .ok plan →
      ∃ entry, plan.entry? = some entry ∧ entry.depthDecoder = none := by
  refine ⟨?_, markDepth_marked hn, fun m plan h => entry_plain h⟩
  intro root hroot throughArrays
  have hends : Ends records root.name throughArrays [root.name] []
      (selfReference? records root.name throughArrays) := selfReference_ends hn
  refine ⟨?_, ?_, ?_⟩
  · intro answer
    constructor
    · exact hends.unique
    · rintro rfl
      exact hends
  · rw [← selfReference_isSome_iff hn, Option.isSome_iff_exists]
  · intro f hf
    obtain ⟨owner, hmem, hreach, hfield, href⟩ := selfReference_some hn hf
    obtain ⟨harrays, htarget⟩ := reference_eq_some.mp href
    refine ⟨htarget, harrays, owner, hmem, hfield, ?_⟩
    rcases reflTransGen_iff_eq_or_transGen.mp hreach with hname | hlong
    · have hsame := (find_of_mem hn hmem).symm.trans (hname ▸ find_of_mem hn hroot)
      exact .inl (Option.some.inj hsame)
    · exact .inr hlong

end Cycle

namespace Samples

/-- A response with two records that hold each other, one of them through an array. -/
def ringResponse : Message where
  category := "response"
  name := "RingResponse"
  validVersions := "0"
  flexibleVersions := ""
  fields := [plain "first" "Link" "0+"]
  commonRecords :=
    [{ name := "Link", versions := "0+", fields := [plain "clasps" "[]Clasp" "0+"] },
     { name := "Clasp", versions := "0+", fields := [plain "next" "Link" "0+"] }]

def ringPlan : UnitPlan where
  messageName := "RingResponse"
  category := "response"
  records :=
    [{ name := "RingResponse"
       decoder := "ReadRingResponse"
       origin := .message
       depthDecoder := none
       versions := none
       fields :=
         [⟨"first", "First", false, .record "Link" "NewLink", some (.minimum 0), .absent, none⟩] },
     { name := "Link"
       decoder := "NewLink"
       origin := .common
       depthDecoder := some "NewLinkAtDepth"
       versions := some (.minimum 0)
       fields :=
         [⟨"clasps", "Clasps", true, .record "Clasp" "NewClasp", some (.minimum 0), .absent,
           none⟩] },
     { name := "Clasp"
       decoder := "NewClasp"
       origin := .common
       depthDecoder := some "NewClaspAtDepth"
       versions := some (.minimum 0)
       fields :=
         [⟨"next", "Next", false, .record "Link" "NewLink", some (.minimum 0), .absent, none⟩] }]
  facilities := ⟨false, true, true⟩

theorem build_ringResponse : UnitPlan.build ringResponse = .ok ringPlan := by rfl

end Samples

namespace Cycle

open Samples in
/-- Of two records that hold each other through an array, each lies on a cycle that takes the array,
and on none without it. -/
theorem selfReference_decides_ring :
    (ringPlan.records.map RecordPlan.name).Nodup ∧
      TransGen (Refers ringPlan.records true) "Link" "Link" ∧
      ¬ TransGen (Refers ringPlan.records false) "Link" "Link" ∧
      UnitPlan.build ringResponse = .ok ringPlan ∧
      ∃ entry, ringPlan.entry? = some entry ∧ entry.depthDecoder = none := by
  have hn : (ringPlan.records.map RecordPlan.name).Nodup := by decide
  obtain ⟨hsearch, _, hentry⟩ := selfReference_decides hn
  have hlink := hsearch _ (List.mem_cons_of_mem _ List.mem_cons_self)
  refine ⟨hn, (hlink true).2.1.mp ⟨_, rfl⟩, ?_, build_ringResponse, hentry _ _ build_ringResponse⟩
  intro hcycle
  obtain ⟨f, hf⟩ := (hlink false).2.1.mpr hcycle
  cases hf

end Cycle

def Field.Embeds (m : Message) (f : Field) (record : String) : Prop :=
  ∃ type, TypeExpr.parse f.typeText = .ok type ∧ type.isArray = false ∧
    (f.rule m type).target? = some record

/-- A record has a field of the emitted name `field` through which it contains itself. -/
def RecordDecl.ContainsItselfBy (m : Message) (d : RecordDecl) (field : String) : Prop :=
  ∃ f ∈ d.fields, Text.capitalize f.name = field ∧
    ∃ next, f.Embeds m next ∧ ReflTransGen (m.Refers false) next d.name

/-- The first record, in the order of emission, that contains itself without an array in between. -/
def Message.FirstRecursive (m : Message) (d : RecordDecl) : Prop :=
  ∃ before after, Catalogue.declared m = before ++ d :: after ∧
    TransGen (m.Refers false) d.name d.name ∧
    ∀ e ∈ before, ¬ TransGen (m.Refers false) e.name e.name

theorem forall₂_append_cons {α β : Type} {R : α → β → Prop} {xs : List α} {before after : List β}
    {y : β} (h : List.Forall₂ R xs (before ++ y :: after)) :
    ∃ front x back, xs = front ++ x :: back ∧ List.Forall₂ R front before ∧ R x y := by
  induction before generalizing xs with
  | nil =>
    cases h with
    | cons hr _ => exact ⟨[], _, _, rfl, .nil, hr⟩
  | cons z before ih =>
    cases h with
    | cons hr hrest =>
      obtain ⟨front, x, back, rfl, hfront, hx⟩ := ih hrest
      exact ⟨_ :: front, x, back, rfl, .cons hr hfront, hx⟩

namespace UnitPlan

open Catalogue (declared)

variable {m : Message} {record field : String}

/-- The refusal of a recursive record is not among the faults of single places. -/
theorem not_culprit_recursive : ¬ m.Culprit (.recursiveRecord record field) := by
  intro h
  generalize he : CompileError.recursiveRecord record field = e at h
  cases h with
  | field _ _ fault => cases fault <;> cases he
  | recordVersions => cases he
  | duplicateRecord => cases he
  | item => cases he

/-- A refusal for recursion comes from the pass over the planned records. -/
theorem build_eq_recursive (h : build m = .error (.recursiveRecord record field)) :
    ∃ planned, List.Forall₂ (HasPlan m) (declared m) planned ∧
      (planned.map RecordPlan.name).Nodup ∧
      rejectRecursive planned planned = .error (.recursiveRecord record field) := by
  rcases bind_eq_error.mp h with hdiscovery | ⟨decls, hdecls, h⟩
  · exact absurd (Catalogue.culprit_of_firstFault (Catalogue.ofMessage_eq_error.mp hdiscovery))
      not_culprit_recursive
  · obtain ⟨htyped, hdistinct, rfl⟩ := Catalogue.ofMessage_eq_ok.mp hdecls
    rcases bind_eq_error.mp h with hplan | ⟨planned, hplan, h⟩
    · obtain ⟨d, hd, hrecord⟩ := exists_mem_of_mapM_eq_error hplan
      have hfound := Catalogue.discovers_of_declared htyped hdistinct hd
      exact absurd (planRecord_eq_error hd hfound hrecord) not_culprit_recursive
    · have hrecords : List.Forall₂ (HasPlan m) (declared m) planned :=
        (mapM_eq_ok.mp hplan).imp fun _ _ hp => planRecord_eq_ok.mp hp
      rcases bind_eq_error.mp h with hrecursive | ⟨_, _, h⟩
      · exact ⟨planned, hrecords, planned_names hrecords ▸ hdistinct, hrecursive⟩
      · rcases bind_eq_error.mp h with hitems | ⟨_, _, he⟩
        · obtain ⟨_, _, _, _, he, _⟩ := checkItems_eq_error hitems
          cases he
        · cases he

/-- The fields of a declared record embed what the fields of its plan refer to. -/
theorem embeds_of_reference {d : RecordDecl} {r : RecordPlan} (hplan : HasPlan m d r)
    {p : FieldPlan} (hp : p ∈ r.fields) {target : String}
    (href : Cycle.reference? false p = some target) :
    ∃ f ∈ d.fields, Text.capitalize f.name = p.ident ∧ f.Embeds m target := by
  obtain ⟨f, hf, type, guard, htype, _, _, _, rfl⟩ := exists_of_mem_right hplan.fields hp
  obtain ⟨harray, htarget⟩ := reference_plan.mp href
  exact ⟨f, hf, rfl, type, htype, by simpa using harray, htarget⟩

theorem reference_of_embeds {d : RecordDecl} {r : RecordPlan} (hplan : HasPlan m d r)
    {f : Field} (hf : f ∈ d.fields) {target : String} (he : f.Embeds m target) :
    ∃ p ∈ r.fields, Cycle.reference? false p = some target := by
  obtain ⟨type, htype, harray, htarget⟩ := he
  obtain ⟨p, hp, type', guard, htype', _, _, _, rfl⟩ := exists_of_mem_left hplan.fields hf
  cases htype.symm.trans htype'
  exact ⟨_, hp, reference_plan.mpr ⟨by simp [harray], htarget⟩⟩

/-- A refusal for recursion names the first record, in the order of emission, that contains itself
without an array in between. If a field of this record embeds it directly, the refusal names a
field of this record through which it contains itself. If not, the field that it names is one of
another record, which this record leads to and which embeds it. -/
theorem build_recursiveRecord (h : build m = .error (.recursiveRecord record field)) :
    ∃ d, m.FirstRecursive d ∧ d.name = record ∧
      ((∃ f ∈ d.fields, f.Embeds m record) → d.ContainsItselfBy m field) ∧
      ((¬ ∃ f ∈ d.fields, f.Embeds m record) →
        ∃ owner ∈ declared m, owner.name ≠ record ∧
          TransGen (m.Refers false) record owner.name ∧
          ∃ f ∈ owner.fields, Text.capitalize f.name = field ∧ f.Embeds m record) := by
  obtain ⟨planned, hrecords, hn, hreject⟩ := build_eq_recursive h
  obtain ⟨first, root, last, p, hsplit, hfirst, hroot, he⟩ :=
    exists_first_of_rejectRecursive hreject
  obtain ⟨rfl, rfl⟩ := CompileError.recursiveRecord.inj he
  have hmem : root ∈ planned := hsplit ▸ List.mem_append_right _ List.mem_cons_self
  have hcycle {name : String} (hsome : (Cycle.selfReference? planned name false).isSome) :
      TransGen (m.Refers false) name name := by
    rwa [Cycle.selfReference_isSome_iff hn, refers_planned hrecords] at hsome
  obtain ⟨before, d, after, hdeclared, hbefore, hplan⟩ :=
    forall₂_append_cons (hsplit ▸ hrecords)
  have hrecursive := hcycle (Option.isSome_of_eq_some hroot)
  rw [hplan.name] at hrecursive
  refine ⟨d, ⟨before, after, hdeclared, hrecursive, ?_⟩, hplan.name.symm, ?_, ?_⟩
  · intro e hm hyp
    obtain ⟨r, hr, hrplan⟩ := exists_of_mem_left hbefore hm
    rw [← refers_planned hrecords, ← Cycle.selfReference_isSome_iff hn, ← hrplan.name,
      hfirst r hr] at hyp
    cases hyp
  · rintro ⟨f, hf, hembeds⟩
    -- The record itself is scanned first, so the field is one of its own.
    obtain ⟨own, hown, hsearch, href⟩ :=
      Cycle.selfReference_own hn hmem (reference_of_embeds hplan hf hembeds)
    cases hroot.symm.trans hsearch
    obtain ⟨g, hg, hname, hg'⟩ := embeds_of_reference hplan hown href
    exact ⟨g, hg, hname, root.name, hg', hplan.name ▸ .refl⟩
  · intro hindirect
    obtain ⟨r, hr, hreach, hp, href⟩ := Cycle.selfReference_some hn hroot
    obtain ⟨owner, howner, hoplan⟩ := exists_of_mem_right hrecords hr
    obtain ⟨f, hf, hname, hembeds⟩ := embeds_of_reference hoplan hp href
    rw [refers_planned hrecords, hoplan.name] at hreach
    have hother : owner.name ≠ root.name := by
      intro hsame
      have hfound := find_of_mem hn hr
      rw [hoplan.name, hsame] at hfound
      cases hfound.symm.trans (find_of_mem hn hmem)
      obtain ⟨g, hg, _, hembeds⟩ := embeds_of_reference hplan hp href
      exact hindirect ⟨g, hg, hembeds⟩
    refine ⟨owner, howner, hother, ?_, f, hf, hname, hembeds⟩
    exact (reflTransGen_iff_eq_or_transGen.mp hreach).resolve_left hother

end UnitPlan

namespace Samples

def knotRequest : Message where
  category := "request"
  name := "KnotRequest"
  validVersions := "0"
  flexibleVersions := ""
  fields := [plain "knot" "Knot" "0+"]
  commonRecords :=
    [{ name := "Knot", versions := "0+", fields := [plain "loop" "Loop" "0+"] },
     { name := "Loop", versions := "0+", fields := [plain "back" "Knot" "0+"] }]

theorem build_knotRequest :
    UnitPlan.build knotRequest = .error (.recursiveRecord "Knot" "Back") := by rfl

theorem knot_fields : ∀ d ∈ Catalogue.declared knotRequest, d.name = "Knot" →
    ∀ f ∈ d.fields, Text.capitalize f.name ≠ "Back" := by decide

end Samples

namespace UnitPlan

open Catalogue (declared)

theorem build_recursiveRecord_knot :
    build Samples.knotRequest = .error (.recursiveRecord "Knot" "Back") ∧
      ∃ d, Samples.knotRequest.FirstRecursive d ∧ d.name = "Knot" ∧
        ∃ owner ∈ declared Samples.knotRequest, owner.name ≠ "Knot" ∧
          ∃ f ∈ owner.fields, Text.capitalize f.name = "Back" ∧
            f.Embeds Samples.knotRequest "Knot" := by
  obtain ⟨d, hfirst, hname, hdirect, hother⟩ := build_recursiveRecord Samples.build_knotRequest
  have hmem : d ∈ declared Samples.knotRequest := by
    obtain ⟨before, after, hsplit, _⟩ := hfirst
    exact hsplit ▸ List.mem_append_right _ List.mem_cons_self
  have hindirect : ¬ ∃ f ∈ d.fields, f.Embeds Samples.knotRequest "Knot" := by
    intro hyp
    obtain ⟨f, hf, hident, _⟩ := hdirect hyp
    exact Samples.knot_fields d hmem hname f hf hident
  obtain ⟨owner, howner, hne, _, hfield⟩ := hother hindirect
  exact ⟨Samples.build_knotRequest, d, hfirst, hname, owner, howner, hne, hfield⟩

/-- The refusal of a record that contains itself through another names no field of it. -/
theorem recursiveRecord_names_other :
    build Samples.knotRequest = .error (.recursiveRecord "Knot" "Back") ∧
      ∀ d ∈ declared Samples.knotRequest, d.name = "Knot" →
        ¬ d.ContainsItselfBy Samples.knotRequest "Back" := by
  refine ⟨Samples.build_knotRequest, ?_⟩
  rintro d hd hname ⟨f, hf, hident, _⟩
  exact Samples.knot_fields d hd hname f hf hident

end UnitPlan

end WireSchema

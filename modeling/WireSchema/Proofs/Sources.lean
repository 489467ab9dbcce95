import WireSchema.Compile
import WireSchema.Proofs.Blocks
import WireSchema.Proofs.Discovery
import WireSchema.Proofs.ItemNames
import WireSchema.Proofs.Reading
import WireSchema.Proofs.Simulation

/-!
Emitted source runs as its plan. What is read from the text of the records decodes as the plan does,
whatever the free text of the message is. If no free text breaks a line, the source as a whole holds
just that.
-/

namespace WireSchema

theorem isUsable_iff {word : String} :
    isUsable word = true ↔ isIdentifier word.toList = true ∧ word ≠ "_" ∧ word ∉ keywords ∧
      word ∉ builtinTypes := by
  simp [isUsable, isReserved, and_assoc]

namespace Source

open Decode

/-- Names of decoders are no words of the language. -/
theorem callable_of_decoder {name : String} (hu : isUsable name = true)
    (hd : isDecoderName name = true) : IsCallable name := by
  refine ⟨(isUsable_iff.mp hu).1, fun hm => ?_⟩
  have hwords : leadingWords.any isDecoderName = false := by decide
  exact List.any_eq_false.mp hwords name hm hd

section

variable {m : Message} {plan : UnitPlan} (h : UnitPlan.build m = .ok plan)

include h

/-- The names of a plan were checked when it was built. -/
theorem build_legible : Legible plan := by
  have hitem {r : RecordPlan} (hr : r ∈ plan.records) {name : String}
      (hn : name ∈ UnitPlan.recordItems r) : isUsable name = true :=
    (UnitPlan.build_items h).usable name (List.mem_flatMap.mpr ⟨r, hr, hn⟩)
  constructor
  case record =>
    intro r hr
    obtain ⟨hname, _, _, htype⟩ := isUsable_iff.mp (UnitPlan.build_name h hr)
    exact ⟨hname, htype⟩
  case decoder =>
    intro r hr
    refine callable_of_decoder (hitem hr ?_) (UnitPlan.build_decoder h hr)
    simp [UnitPlan.recordItems]
  case counting =>
    intro r hr counting hd
    refine callable_of_decoder (hitem hr ?_) ?_
    · simp [UnitPlan.recordItems, hd]
    · rw [UnitPlan.build_depthDecoder h hr hd]
      exact isDecoderName_append (UnitPlan.build_decoder h hr) _
  case member =>
    intro r hr f hf
    obtain ⟨hident, _, hkeyword, _⟩ := isUsable_iff.mp (UnitPlan.build_ident h hr hf)
    refine ⟨hident, ?_, ?_⟩
    · intro he
      exact hkeyword (he ▸ by decide)
    · intro he
      exact hkeyword (he ▸ by decide)
  case rule => exact (UnitPlan.build_sound h).linked

end

/-! ## Descriptions -/

theorem isNote_literal {text : String} (hs : "//".toList.isPrefixOf text.toList = true)
    (hn : '\n' ∉ text.toList) : IsNote text := by
  obtain ⟨note, ht⟩ := List.isPrefixOf_iff_prefix.mp hs
  refine ⟨note, ht.symm, fun hm => hn ?_⟩
  rw [← ht]
  exact List.mem_append_right _ hm

/-- A comment goes on as long as no line breaks. -/
theorem IsNote.append {first rest : String} (h : IsNote first) (hr : '\n' ∉ rest.toList) :
    IsNote (first ++ rest) := by
  obtain ⟨note, ht, hn⟩ := h
  refine ⟨note ++ rest.toList, by simp [ht], ?_⟩
  rw [List.mem_append, not_or]
  exact ⟨hn, hr⟩

theorem unbroken_toString (v : Int) : '\n' ∉ (toString v).toList := by
  have hdigits (n : Nat) : '\n' ∉ Nat.toDigits 10 n := by
    intro hm
    exact absurd (Nat.isDigit_of_mem_toDigits (by decide) (by decide) hm) (by decide)
  cases v with
  | ofNat n =>
    rw [toString_ofNat]
    exact hdigits n
  | negSucc n =>
    rw [toString_negSucc, List.mem_cons, not_or]
    exact ⟨by decide, hdigits (n + 1)⟩

theorem unbroken_predicate (p : VersionPredicate) : '\n' ∉ p.render.toList := by
  have hbound (n : Int16) : '\n' ∉ (toString n).toList := unbroken_toString n.toInt
  cases p with
  | exact n => simpa [VersionPredicate.render] using hbound n
  | minimum n => simpa [VersionPredicate.render] using hbound n
  | range lo hi => simpa [VersionPredicate.render] using ⟨hbound lo, hbound hi⟩

/-- A field is named like its member, but for the case of a letter. -/
theorem unbroken_capitalize {name : String} (hn : '\n' ∉ (Text.capitalize name).toList) :
    '\n' ∉ name.toList := by
  intro hm
  apply hn
  unfold Text.capitalize
  split
  · rename_i he
    rw [he] at hm
    cases hm
  · rename_i c rest he
    rw [String.toList_ofList, List.mem_append]
    rw [he] at hm
    rcases List.mem_cons.mp hm with rfl | hm
    · exact .inl (by decide)
    · exact .inr hm

section

variable {m : Message} {plan : UnitPlan} (h : UnitPlan.build m = .ok plan)

include h

/-- The names of records, and those of fields in upper case, were checked as identifiers, so that
no line break is in them. -/
theorem build_declared {d : RecordDecl} (hd : d ∈ Catalogue.declared m) :
    '\n' ∉ d.name.toList ∧ ∀ f ∈ d.fields, '\n' ∉ f.name.toList := by
  have husable {name : String} (hu : isUsable name = true) : '\n' ∉ name.toList :=
    unbroken_of_isIdentifier (isUsable_iff.mp hu).1
  have hname {r : RecordPlan} (hr : r ∈ plan.records) := husable (UnitPlan.build_name h hr)
  obtain ⟨planned, hb, rfl⟩ := UnitPlan.build_eq_ok.mp h
  obtain ⟨r, hr, hplan⟩ := exists_of_mem_left hb.records hd
  constructor
  · rw [← hplan.name]
    exact hname (r := UnitPlan.mark planned r) (UnitPlan.mem_markDepth.mpr ⟨r, hr, rfl⟩)
  · intro f hf
    exact unbroken_capitalize (husable (hplan.idents.usable _ (List.mem_map_of_mem hf)))

/-- An inline record tells which field it comes from, and the record that this field stands in. -/
theorem inline_unbroken {d : RecordDecl} (hd : d ∈ Catalogue.declared m) {parent field : String}
    (ho : d.origin = .inline parent field) : '\n' ∉ parent.toList ∧ '\n' ∉ field.toList := by
  have hdecls := Catalogue.sites_decls m
  rw [← hdecls] at hd
  obtain ⟨site, hs, rfl⟩ := List.mem_map.mp hd
  obtain ⟨before, after, hsplit⟩ := List.append_of_mem hs
  have henclosed := Catalogue.sites_ordered m before site after hsplit
  cases site with
  | message _ => cases ho
  | common _ => cases ho
  | field p f =>
    cases ho
    obtain ⟨e, he, rfl, hf⟩ := henclosed
    have hmem : e ∈ Catalogue.declared m := by
      rw [← hdecls, hsplit, List.map_append]
      exact List.mem_append_left _ (by simpa using he)
    obtain ⟨hname, hfields⟩ := build_declared h hmem
    exact ⟨hname, hfields f hf⟩

theorem build_category : plan.category = m.category := by
  obtain ⟨_, _, rfl⟩ := UnitPlan.build_eq_ok.mp h
  rfl

theorem unbroken_record {r : RecordPlan} (hr : r ∈ plan.records) : '\n' ∉ r.name.toList :=
  unbroken_of_isIdentifier ((build_legible h).record r hr).1

/-- Descriptions of records are comments. That of the message is one if its category does not break
a line. -/
theorem recordAbout_notes {r : RecordPlan} (hr : r ∈ plan.records)
    (hc : r.origin = .message → '\n' ∉ m.category.toList) :
    ∀ text ∈ recordAbout plan r, IsNote text := by
  have hname := unbroken_record h hr
  obtain ⟨d, hd, hplan⟩ := UnitPlan.build_hasPlan h hr
  have horigin : r.origin = d.origin := hplan.origin
  unfold recordAbout
  cases ho : r.origin with
  | message =>
    have hfirst : IsNote ("/// `" ++ r.name) :=
      (isNote_literal rfl (by decide)).append hname
    dsimp only
    split
    · exact List.forall_mem_singleton.mpr (hfirst.append (by decide))
    · have hrest : '\n' ∉ plan.category.toList := build_category h ▸ hc ho
      exact List.forall_mem_singleton.mpr
        (((hfirst.append (by decide)).append hrest).append (by decide))
  | common =>
    rw [List.forall_mem_cons]
    refine ⟨((isNote_literal rfl (by decide)).append hname).append (by decide), ?_⟩
    split
    · nofun
    · rename_i p _
      rw [List.forall_mem_cons, List.forall_mem_singleton]
      refine ⟨isNote_literal rfl (by decide), ?_⟩
      exact ((isNote_literal rfl (by decide)).append (unbroken_predicate p)).append (by decide)
  | inline parent field =>
    obtain ⟨hparent, hfield⟩ := inline_unbroken h hd (horigin.symm.trans ho)
    refine List.forall_mem_singleton.mpr ?_
    exact ((((isNote_literal rfl (by decide)).append hfield).append (by decide)).append
      hparent).append (by decide)

end

/-! ## Texts -/

/-- A text behind balanced marks starts without indentation. -/
theorem layout_append {xs : List Mark} (h : Balanced 0 xs) (ys : List Mark) :
    layout (xs ++ ys) = layout xs ++ layout ys := by
  rw [layout, layoutFrom_append, h.ends, String.join_append]
  rfl

theorem layout_flatMap {α : Type} {xs : List α} {f : α → List Mark}
    (h : ∀ x ∈ xs, Balanced 0 (f x)) :
    layout (xs.flatMap f) = String.join (xs.map fun x => layout (f x)) := by
  induction xs with
  | nil => rfl
  | cons x rest ih =>
    rw [List.flatMap_cons, layout_append (h x List.mem_cons_self),
      ih fun y hy => h y (List.mem_cons_of_mem _ hy), List.map_cons, String.join_cons]

def headText (plan : UnitPlan) (options : CompileOptions) : String :=
  layout (Emit.head plan options)

def description (plan : UnitPlan) (record : RecordPlan) : String :=
  layout (.blank :: (recordAbout plan record).map .line)

def recordText (plan : UnitPlan) (record : RecordPlan) (runtime : String) : String :=
  layout (passage plan record runtime)

/-- The source of a unit, cut between its records and behind the description of each. -/
theorem layout_unit (plan : UnitPlan) (options : CompileOptions) :
    layout (Emit.unit plan options) =
      headText plan options ++ String.join (plan.records.map fun r =>
        description plan r ++ recordText plan r options.runtime) := by
  have habout (r : RecordPlan) : Balanced 0 (.blank :: (recordAbout plan r).map .line) :=
    .blank (balanced_lines (recordAbout plan r) 0)
  have hpassage (r : RecordPlan) : Balanced 0 (passage plan r options.runtime) :=
    (Emit.shape_balanced r 0).append (.blank (Emit.decoder_balanced plan r 0 options.runtime))
  have hrecord (r : RecordPlan) :
      .blank :: Emit.struct plan r ++ .blank :: Emit.decoder plan r options.runtime =
        (.blank :: (recordAbout plan r).map .line) ++ passage plan r options.runtime := by
    simp [Emit.struct, passage]
  unfold Emit.unit headText
  rw [layout_append (Emit.head_balanced plan 0 options)]
  simp only [hrecord]
  rw [layout_flatMap fun r _ => (habout r).append (hpassage r)]
  simp only [layout_append (habout _), description, recordText]

/-! ## Reading -/

/-- What texts hold together, each of them read by itself. -/
def readTexts (runtime : String) (texts : List String) : Option Items := do
  let held ← texts.mapM fun text => readSource runtime text.toList
  return ⟨held.flatMap (·.structs), held.flatMap (·.functions)⟩

section

variable {m : Message} {plan : UnitPlan} (h : UnitPlan.build m = .ok plan)

include h

/-- The part of a source behind a record's description is read as the struct and the functions of
that record. -/
theorem read_recordText {r : RecordPlan} (hr : r ∈ plan.records) (runtime : String) :
    readSource runtime (recordText plan r runtime).toList =
      some ⟨⟨[struct r], functions plan r⟩, []⟩ :=
  (holds_passage (build_legible h) hr).readSource

/-- The texts of the records hold the structs and the functions of the plan. -/
theorem read_recordTexts (runtime : String) :
    readTexts runtime (plan.records.map fun r => recordText plan r runtime) =
      some (items plan) := by
  have hmap : ∀ rs : List RecordPlan, (∀ r ∈ rs, r ∈ plan.records) →
      (rs.map fun r => recordText plan r runtime).mapM
          (fun text => readSource runtime text.toList) =
        some (rs.map fun r => (⟨⟨[struct r], functions plan r⟩, []⟩ : Contents)) := by
    intro rs hrs
    induction rs with
    | nil => rfl
    | cons r rest ih =>
      have hrest := ih fun s hs => hrs s (List.mem_cons_of_mem _ hs)
      simp [read_recordText h (hrs r List.mem_cons_self), hrest]
  unfold readTexts
  rw [hmap plan.records fun _ hr => hr]
  simp [items, List.flatMap_map, ← List.map_eq_flatMap]

theorem head_notes {options : CompileOptions} (hm : '\n' ∉ options.moduleName.toList) :
    ∀ text ∈ [s!"// Code generated by wiregen from `{plan.messageName}`. DO NOT EDIT.",
      s!"// module: {options.moduleName}"], IsNote text := by
  have hname : '\n' ∉ plan.messageName.toList := by
    obtain ⟨r, _, hr, hn, _⟩ := UnitPlan.build_entry h
    rw [← hn]
    exact unbroken_record h hr
  rw [List.forall_mem_cons, List.forall_mem_singleton]
  constructor
  · refine IsNote.append (IsNote.append (isNote_literal ?_ ?_) hname) ?_
    · rfl
    · decide
    · decide
  · refine IsNote.append (isNote_literal ?_ ?_) hm
    · rfl
    · decide

/-- The header is passed over as comments, and the imports are read. -/
theorem holds_head {options : CompileOptions} (hm : '\n' ∉ options.moduleName.toList) :
    Holds options.runtime (Emit.head plan options) ⟨⟨[], []⟩, plan.facilities.items⟩ := by
  rw [Emit.head_eq]
  exact (holds_imports plan.facilities.toList).after (silent_notes (head_notes h hm))

theorem holds_record {r : RecordPlan} (hr : r ∈ plan.records) {runtime : String} {d : Contents}
    (hd : Holds runtime ((recordAbout plan r).map .line) d) :
    Holds runtime (.blank :: Emit.struct plan r ++ .blank :: Emit.decoder plan r runtime)
      (d.append ⟨⟨[struct r], functions plan r⟩, []⟩) := by
  have hmarks : .blank :: Emit.struct plan r ++ .blank :: Emit.decoder plan r runtime =
      [.blank] ++ ((recordAbout plan r).map .line ++ passage plan r runtime) := by
    simp [Emit.struct, passage]
  rw [hmarks]
  exact (hd.append (holds_passage (build_legible h) hr)).after silent_blank

/-- Records other than the message add their items. -/
theorem holds_records (runtime : String) :
    ∀ rs : List RecordPlan, (∀ r ∈ rs, r ∈ plan.records ∧ r.origin ≠ .message) →
      Holds runtime
        (rs.flatMap fun r => .blank :: Emit.struct plan r ++ .blank :: Emit.decoder plan r runtime)
        ⟨⟨rs.map struct, rs.flatMap (functions plan)⟩, []⟩ := by
  intro rs hrs
  induction rs with
  | nil => exact holds_silent silent_nil
  | cons r rest ih =>
    obtain ⟨hr, ho⟩ := hrs r List.mem_cons_self
    have hnotes := recordAbout_notes h hr fun he => absurd he ho
    have hrest := ih fun s hs => hrs s (List.mem_cons_of_mem _ hs)
    exact (holds_record h hr (holds_silent (silent_notes hnotes))).append hrest

/-- The whole source holds the imports and the items of the plan, and in between what the
description of the message holds. -/
theorem read_unit (options : CompileOptions) (hm : '\n' ∉ options.moduleName.toList) {d : Contents}
    (hd : ∀ r ∈ plan.records, r.origin = .message →
      Holds options.runtime ((recordAbout plan r).map .line) d) :
    readSource options.runtime (layout (Emit.unit plan options)).toList =
      some ⟨⟨d.structs ++ (items plan).structs, d.functions ++ (items plan).functions⟩,
        plan.facilities.items ++ d.imports⟩ := by
  -- The message comes first, and is the one record whose description can hold items.
  obtain ⟨entry, rest, hrecords, _, horigin, hrest⟩ := UnitPlan.build_records h
  have hentry : entry ∈ plan.records := by simp [hrecords]
  have hothers := holds_records h options.runtime rest fun r hr =>
    ⟨by simp [hrecords, hr], hrest r hr⟩
  have hunit := (holds_head h hm).append
    ((holds_record h hentry (hd entry hentry horigin)).append hothers)
  rw [Emit.unit, hrecords, List.flatMap_cons, hunit.readSource]
  simp [Contents.append, items, hrecords]

/-- Without line breaks in the free text, a source holds the items of the plan and its imports,
and nothing else. -/
theorem read_unit_unbroken (options : CompileOptions) (hm : '\n' ∉ options.moduleName.toList)
    (hc : '\n' ∉ m.category.toList) :
    readSource options.runtime (layout (Emit.unit plan options)).toList =
      some ⟨items plan, plan.facilities.items⟩ := by
  rw [read_unit h options hm (d := .empty)]
  · simp [Contents.empty]
  · intro r hr _
    exact holds_silent (silent_notes (recordAbout_notes h hr fun _ => hc))

/-- A message with a plan compiles to the texts of its records, between a head and descriptions. The
items of the plan are read from these texts, and from the source as a whole too if no free text
breaks a line. -/
theorem compile_texts (options : CompileOptions) :
    ∃ unit, compile m options = .ok unit ∧ unit.plan = plan ∧
      unit.source = headText plan options ++ String.join (plan.records.map fun r =>
        description plan r ++ recordText plan r options.runtime) ∧
      readTexts options.runtime (plan.records.map fun r => recordText plan r options.runtime) =
        some (items plan) ∧
      ('\n' ∉ m.category.toList → '\n' ∉ options.moduleName.toList →
        (readSource options.runtime unit.source.toList).map Contents.toItems =
          some (items plan)) := by
  obtain ⟨unit, hcompile, hplan, hsource⟩ := compile_of_build h options
  refine ⟨unit, hcompile, hplan, ?_, read_recordTexts h options.runtime, ?_⟩
  · rw [hsource, layout_unit]
  · intro hc hm
    rw [hsource, read_unit_unbroken h options hm hc]
    rfl

/-- A category can bring in any items: they count if a line break comes before them and a comment
after them. -/
theorem read_unit_broken (options : CompileOptions) (hm : '\n' ∉ options.moduleName.toList)
    {marks : List Mark} {d : Contents} (hd : Holds options.runtime marks d) {first : String}
    (hf : '\n' ∉ first.toList) (hc : m.category = first ++ "\n" ++ layout marks ++ "//") :
    readSource options.runtime (layout (Emit.unit plan options)).toList =
      some ⟨⟨d.structs ++ (items plan).structs, d.functions ++ (items plan).functions⟩,
        plan.facilities.items ++ d.imports⟩ := by
  apply read_unit h options hm
  intro r hr ho
  have hname := unbroken_record h hr
  have hfirst : IsNote ("/// `" ++ r.name ++ "` message (" ++ first) :=
    (((isNote_literal rfl (by decide)).append hname).append (by decide)).append hf
  have hlast : IsNote "//)." := isNote_literal rfl (by decide)
  have hne : ¬ plan.category.isEmpty = true := by
    rw [build_category h, hc, String.isEmpty_iff, ← String.toList_inj]
    simp
  have habout : recordAbout plan r =
      ["/// `" ++ r.name ++ "` message (" ++ first ++ "\n" ++ layout marks ++ "//)."] := by
    unfold recordAbout
    rw [ho]
    dsimp only
    rw [if_neg hne, build_category h, hc, List.cons.injEq, ← String.toList_inj]
    simp [toString]
  rw [habout]
  exact holds_broken hd hfirst hlast

end

/-- An emitted decoder gives what decoding by the plan gives. The source holds the text of every
record, and what is read from these texts returns the same fields in order and takes as many bytes,
or raises the same error; neither halts in another way. Reading the source as a whole gives the same
items, if no free text breaks a line. -/
theorem decode_source {m : Message} {plan : UnitPlan} (h : UnitPlan.build m = .ok plan)
    (options : CompileOptions) {record : RecordPlan} (hr : record ∈ plan.records) (version : Int)
    (input : Bytes) :
    ∃ unit held,
      compile m options = .ok unit ∧
      unit.source = headText plan options ++ String.join (plan.records.map fun r =>
        description plan r ++ recordText plan r options.runtime) ∧
      readTexts options.runtime (plan.records.map fun r => recordText plan r options.runtime) =
        some held ∧
      (∃ outcome : Except DecodeError Decoded,
        decodeRecord plan record version input = outcome.mapError .failure ∧
        ∀ fuel, 2 * recordFuel plan < fuel →
          held.decode fuel record.decoder version input = outcome.mapError .raised) ∧
      ('\n' ∉ m.category.toList → '\n' ∉ options.moduleName.toList →
        (readSource options.runtime unit.source.toList).map Contents.toItems = some held) := by
  obtain ⟨unit, hcompile, _, hsource, htexts, hread⟩ := compile_texts h options
  have hdecode := decode_items (UnitPlan.build_sound h) hr version input
  exact ⟨unit, items plan, hcompile, hsource, htexts, hdecode, hread⟩

/-- A child whose own children are null. -/
theorem decode_source_null_children :
    ∃ unit held,
      compile Samples.treeResponse ⟨"messages", "wiregen_runtime"⟩ = .ok unit ∧
      (readSource "wiregen_runtime" unit.source.toList).map Contents.toItems = some held ∧
      held.decode 261 "NewNode" 0 [7, 2, 8, 0] =
        .error (.raised (.nested "Node" "Children" (.unexpectedNull "Children"))) := by
  have hm : Samples.node ∈ Samples.treePlan.records := by simp [Samples.treePlan]
  obtain ⟨unit, held, hcompile, _, _, ⟨outcome, hplan, hrun⟩, hread⟩ :=
    decode_source Samples.build_treeResponse ⟨"messages", "wiregen_runtime"⟩ hm 0 [7, 2, 8, 0]
  refine ⟨unit, held, hcompile, hread (by decide) (by decide), ?_⟩
  have hfails : decodeRecord Samples.treePlan Samples.node 0 [7, 2, 8, 0] =
      .error (.failure (.nested "Node" "Children" (.unexpectedNull "Children"))) := by rfl
  rw [hfails] at hplan
  cases outcome with
  | ok d => cases hplan
  | error e =>
    cases hplan
    exact hrun 261 (by decide)

end Source

end WireSchema

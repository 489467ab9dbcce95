import Mathlib.Data.List.Perm.Basic
import WireSchema.Proofs.Acceptance
import WireSchema.Proofs.Levels

/-!
The order of the common records. Messages that differ in nothing else are accepted together, and
their plans hold the same records and decode alike.
-/

namespace WireSchema

structure Message.Reordered (m m' : Message) : Prop where
  rest : m' = { m with commonRecords := m'.commonRecords }
  commons : m.commonRecords.Perm m'.commonRecords

theorem Message.Reordered.symm {m m' : Message} (h : m.Reordered m') : m'.Reordered m := by
  obtain ⟨hrest, hcommons⟩ := h
  refine ⟨?_, hcommons.symm⟩
  rw [hrest]

/-- In lists without equal keys that hold the same members, looking for a key finds the same. -/
theorem find_perm {α : Type} {key : α → String} {xs ys : List α} (hn : (xs.map key).Nodup)
    (hp : xs.Perm ys) (k : String) :
    xs.find? (fun x => key x == k) = ys.find? (fun x => key x == k) := by
  cases hf : xs.find? (fun x => key x == k) with
  | none =>
    symm
    rw [List.find?_eq_none] at hf ⊢
    intro y hy
    exact hf y (hp.mem_iff.mpr hy)
  | some x =>
    have hk : key x = k := by simpa using List.find?_some hf
    have hm : x ∈ ys := hp.mem_iff.mp (List.mem_of_find?_eq_some hf)
    have hn' : (ys.map key).Nodup := (hp.map key).nodup_iff.mp hn
    rw [← hk, find_of_mem hn' hm]

theorem FacilitySet.ext_contains {s t : FacilitySet}
    (h : ∀ facility, s.contains facility = true ↔ t.contains facility = true) : s = t := by
  have hb := Bool.eq_iff_iff.mpr (h .bigEndian)
  have he := Bool.eq_iff_iff.mpr (h .errorConstruction)
  have hl := Bool.eq_iff_iff.mpr (h .lengthDelimited)
  cases s
  cases t
  simp_all [contains]

theorem collectFacilities_perm {records records' : List RecordPlan} (hp : records.Perm records') :
    collectFacilities records = collectFacilities records' := by
  apply FacilitySet.ext_contains
  intro facility
  simp only [collectFacilities, FacilitySet.contains_foldl]
  simp only [List.mem_flatMap, hp.mem_iff]

namespace Catalogue

/-- Reordering common records reorders what they declare, each with the records inside it. -/
theorem declared_perm {m m' : Message} (h : m.Reordered m') :
    (declared m).Perm (declared m') := by
  rw [h.rest]
  exact ((h.commons.flatMap_right _).append_left _).cons _

end Catalogue

namespace Cycle

theorem refers_perm {records records' : List RecordPlan} (hp : records.Perm records')
    (throughArrays : Bool) : Refers records throughArrays = Refers records' throughArrays := by
  funext a b
  simp only [Refers, hp.mem_iff]

end Cycle

namespace UnitPlan

/-- The fields that lead back to a record may be found in another order, but the mark of the record
stays. -/
theorem mark_perm {records records' : List RecordPlan} (hn : (records.map RecordPlan.name).Nodup)
    (hp : records.Perm records') : mark records = mark records' := by
  have hn' : (records'.map RecordPlan.name).Nodup := (hp.map _).nodup_iff.mp hn
  funext r
  rw [mark_eq_ite, mark_eq_ite,
    Cycle.selfReference_isSome_congr hn hn' (Cycle.refers_perm hp true)]

/-- A record is marked by what it leads to, which has nothing to do with the order. -/
theorem markDepth_perm {records records' : List RecordPlan}
    (hn : (records.map RecordPlan.name).Nodup) (hp : records.Perm records') :
    (markDepth records).Perm (markDepth records') := by
  rw [markDepth_eq, markDepth_eq, mark_perm hn hp]
  exact hp.map _

theorem Fresh.perm {taken names names' : List String} (h : Fresh taken names)
    (hp : names.Perm names') : Fresh taken names' := by
  refine ⟨?_, hp.nodup_iff.mp h.nodup, ?_⟩
  · intro name hm
    exact h.usable name (hp.mem_iff.mpr hm)
  · intro name hm
    exact h.apart name (hp.mem_iff.mpr hm)

section

variable {m m' : Message} (h : m.Reordered m')
include h

theorem field_hasPlan_reordered {f : Field} {p : FieldPlan} (hf : f.HasPlan m p) :
    f.HasPlan m' p := by
  obtain ⟨type, guard, ht, hg, hr, hd, rfl⟩ := hf
  refine ⟨type, guard, ht, hg, ?_, hd, ?_⟩
  · simpa only [Field.Resolves, h.commons.mem_iff] using hr
  · rw [h.rest]
    rfl

theorem hasPlan_reordered {d : RecordDecl} {r : RecordPlan} (hd : HasPlan m d r) :
    HasPlan m' d r :=
  { hd with fields := hd.fields.imp fun _ _ hf => field_hasPlan_reordered h hf }

/-- What a plan is built from, for the one order and for the other. -/
theorem builds_reordered {planned : List RecordPlan} (hb : Builds m planned) :
    ∃ planned', planned.Perm planned' ∧ Builds m' planned' := by
  have hdecls := Catalogue.declared_perm h
  obtain ⟨planned', hrecords, hp⟩ := List.perm_comp_forall₂ hdecls.symm hb.records
  have hnames : (planned'.map RecordPlan.name).Nodup := (hp.map _).nodup_iff.mpr hb.names
  have hmarked := markDepth_perm hb.names hp.symm
  refine ⟨planned', hp.symm, ?_⟩
  constructor
  case typed =>
    intro f hf hi
    have hf' : f ∈ m.allFields := by
      obtain ⟨d, hd, hm⟩ := Catalogue.mem_allFields.mp hf
      exact Catalogue.mem_allFields.mpr ⟨d, hdecls.mem_iff.mpr hd, hm⟩
    exact hb.typed f hf' hi
  case distinct => exact (hdecls.map _).nodup_iff.mp hb.distinct
  case records => exact hrecords.imp fun _ _ hd => hasPlan_reordered h hd
  case acyclic =>
    intro r hr
    have hs := Cycle.selfReference_isSome_congr hnames hb.names (Cycle.refers_perm hp false) r.name
    rw [hb.acyclic r (hp.mem_iff.mp hr)] at hs
    simpa using hs
  case items =>
    rw [← collectFacilities_perm hmarked]
    exact hb.items.perm (hmarked.flatMap_right _)

/-- A plan gives a plan of the message reordered, with the same records in another order. -/
theorem build_of_reordered {plan : UnitPlan} (hb : build m = .ok plan) :
    ∃ plan', build m' = .ok plan' ∧ plan.records.Perm plan'.records ∧
      plan'.facilities = plan.facilities ∧ plan'.messageName = plan.messageName ∧
      plan'.category = plan.category := by
  obtain ⟨planned, hbuilds, rfl⟩ := build_eq_ok.mp hb
  obtain ⟨planned', hp, hbuilds'⟩ := builds_reordered h hbuilds
  have hmarked := markDepth_perm hbuilds.names hp
  refine ⟨_, build_eq_ok.mpr ⟨planned', hbuilds', rfl⟩, hmarked,
    (collectFacilities_perm hmarked).symm, ?_, ?_⟩
  · show m'.name = m.name
    rw [h.rest]
  · show m'.category = m.category
    rw [h.rest]

end

end UnitPlan

namespace Decode

section

variable {plan plan' : UnitPlan} (h : plan.record? = plan'.record?)
include h

/-- Zero values know a plan only by the records that it finds. -/
theorem zeroOf_congr (fuel : Nat) (rule : Rule) :
    zeroOf plan fuel rule = zeroOf plan' fuel rule := by
  induction fuel generalizing rule with
  | zero =>
    cases rule with
    | primitive kind => cases kind <;> rfl
    | record name decoder => rfl
  | succ fuel ih =>
    cases rule with
    | primitive kind => cases kind <;> rfl
    | record name decoder => simp only [zeroOf, h, ih]

theorem fallback_congr (hz : zeroFuel plan = zeroFuel plan') (f : FieldPlan) :
    fallback plan f = fallback plan' f := by
  simp only [fallback, hz, zeroOf_congr h]

/-- Reading a record uses the plan only to look up names and zero values. -/
theorem readRecord_congr (hz : zeroFuel plan = zeroFuel plan') (version : Int) (fuel : Nat) :
    readRecord plan version fuel = readRecord plan' version fuel := by
  have hfallback : fallback plan = fallback plan' := funext (fallback_congr h hz)
  have hvalue : readValue plan = readValue plan' := by
    funext record depth nested f
    simp only [readValue, h]
  induction fuel with
  | zero => rfl
  | succ fuel ih =>
    funext record depth input
    simp only [readRecord, hfallback, hvalue, ih]

end

/-- Plans that hold the same records in another order decode alike. -/
theorem decodeRecord_perm {plan plan' : UnitPlan} (hn : (plan.records.map RecordPlan.name).Nodup)
    (hp : plan.records.Perm plan'.records) : decodeRecord plan = decodeRecord plan' := by
  have hfound : plan.record? = plan'.record? := funext (find_perm hn hp)
  have hzero : zeroFuel plan = zeroFuel plan' := by
    simp only [zeroFuel, hp.length_eq]
  have hfuel : recordFuel plan = recordFuel plan' := by
    simp only [recordFuel, hp.countP_eq]
  funext record version input
  simp only [decodeRecord, hfuel, readRecord_congr hfound hzero]

end Decode

namespace UnitPlan

/-- In a plan that was built, the message is the record that its name finds. -/
theorem entry?_eq_record? {m : Message} {plan : UnitPlan} (h : build m = .ok plan) :
    plan.entry? = plan.record? plan.messageName := by
  obtain ⟨entry, he, hm, hname, _⟩ := build_entry h
  rw [he, ← hname, (build_sound h).record?_of_mem hm]

/-- The order of the common records is irrelevant. -/
theorem build_reordered {m m' : Message} (h : m.Reordered m') :
    ((∃ plan, build m = .ok plan) ↔ ∃ plan', build m' = .ok plan') ∧
    ∀ plan plan', build m = .ok plan → build m' = .ok plan' →
      plan.records.Perm plan'.records ∧ plan.facilities = plan'.facilities ∧
      plan.messageName = plan'.messageName ∧ plan.category = plan'.category ∧
      (∃ entry, plan.entry? = some entry ∧ plan'.entry? = some entry) ∧
      (∀ name, plan.record? name = plan'.record? name) ∧
      ∀ record version input,
        decodeRecord plan record version input = decodeRecord plan' record version input := by
  constructor
  · constructor
    · intro ⟨plan, hb⟩
      obtain ⟨plan', hb', _⟩ := build_of_reordered h hb
      exact ⟨plan', hb'⟩
    · intro ⟨plan', hb'⟩
      obtain ⟨plan, hb, _⟩ := build_of_reordered h.symm hb'
      exact ⟨plan, hb⟩
  · intro plan plan' hb hb'
    obtain ⟨plan'', hb'', hp, hfacilities, hname, hcategory⟩ := build_of_reordered h hb
    rw [hb'] at hb''
    cases hb''
    have hnames := (build_sound hb).names
    have hfound : ∀ name, plan.record? name = plan'.record? name := find_perm hnames hp
    refine ⟨hp, hfacilities.symm, hname.symm, hcategory.symm, ?_, hfound, ?_⟩
    · obtain ⟨entry, he, _⟩ := build_entry hb
      refine ⟨entry, he, ?_⟩
      rw [entry?_eq_record? hb', hname, ← hfound, ← entry?_eq_record? hb, he]
    · intro record version input
      rw [Decode.decodeRecord_perm hnames hp]

end UnitPlan

namespace Samples

def turnedBush : Message :=
  { bushResponse with commonRecords := bushResponse.commonRecords.reverse }

def turnedBushPlan : UnitPlan :=
  { bushPlan with records := bushPlan.records.take 1 ++ [twig, stem] }

theorem build_turnedBush : UnitPlan.build turnedBush = .ok turnedBushPlan := by rfl

theorem turnedBush_reordered : bushResponse.Reordered turnedBush :=
  ⟨rfl, (List.reverse_perm _).symm⟩

end Samples

open Samples in
theorem UnitPlan.build_reordered_bush :
    bushResponse.Reordered turnedBush ∧ build bushResponse = .ok bushPlan ∧
      build turnedBush = .ok turnedBushPlan ∧ bushPlan.records.Perm turnedBushPlan.records ∧
      decodeRecord turnedBushPlan stem 0 bush = .error (.failure bushError) := by
  obtain ⟨_, hsame⟩ := build_reordered turnedBush_reordered
  obtain ⟨hp, _, _, _, _, _, hdecode⟩ := hsame _ _ build_bushResponse build_turnedBush
  refine ⟨turnedBush_reordered, build_bushResponse, build_turnedBush, hp, ?_⟩
  rw [← hdecode]
  exact decode_bush

end WireSchema

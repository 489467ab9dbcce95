import Mathlib.Data.List.Chain
import WireSchema.Proofs.SoundPlan
import WireSchema.Wire.Decode

/-!
How deep records lie in each other. Reading a record reads others inside it, and the plan alone
bounds how many are under way at once, whatever the input.
-/

namespace WireSchema.Decode

open Relation

/-- A read that halts does so with a failure of the input. -/
def OnlyFails {α : Type} (x : Except Halt α) : Prop :=
  ∀ h, x = .error h → ∃ e, h = .failure e

theorem onlyFails_ok {α : Type} (a : α) : OnlyFails (.ok a : Except Halt α) := by
  intro h he
  cases he

theorem onlyFails_failure {α : Type} (e : DecodeError) :
    OnlyFails (.error (.failure e) : Except Halt α) := by
  intro h he
  cases he
  exact ⟨e, rfl⟩

theorem onlyFails_lift {α : Type} (r : Except DecodeError α) : OnlyFails (lift r) := by
  cases r with
  | error e => exact onlyFails_failure e
  | ok a => exact onlyFails_ok a

theorem OnlyFails.bind {α β : Type} {x : Except Halt α} {f : α → Except Halt β}
    (hx : OnlyFails x) (hf : ∀ a, OnlyFails (f a)) : OnlyFails (x >>= f) := by
  intro h he
  rcases bind_eq_error.mp he with hh | ⟨a, _, hh⟩
  · exact hx h hh
  · exact hf a h hh

theorem readCompact_onlyFails (ident : String) (input : Bytes) :
    OnlyFails (readCompact ident input) := by
  apply (onlyFails_lift _).bind
  intro ⟨n, rest⟩
  dsimp only
  split
  · exact onlyFails_failure _
  · exact onlyFails_ok _

theorem readString_onlyFails (ident : String) (input : Bytes) :
    OnlyFails (readString ident input) := by
  apply (onlyFails_lift _).bind
  intro ⟨length, rest⟩
  dsimp only
  split
  · exact onlyFails_failure _
  · split
    · exact onlyFails_failure _
    · exact (onlyFails_lift _).bind fun _ => onlyFails_ok _

/-- Primitives need no plan and no fuel. -/
theorem readPrimitive_onlyFails (ident : String) (kind : Primitive) (input : Bytes) :
    OnlyFails (readPrimitive ident kind input) := by
  cases kind with
  | int w => exact (onlyFails_lift _).bind fun _ => onlyFails_ok _
  | uuid => exact (onlyFails_lift _).bind fun _ => onlyFails_ok _
  | string => exact readString_onlyFails ident input
  | bytes =>
    exact (readCompact_onlyFails ident input).bind fun _ =>
      (onlyFails_lift _).bind fun _ => onlyFails_ok _

theorem OnlyFails.not_outOfFuel {α : Type} {x : Except Halt α} (hx : OnlyFails x) :
    x ≠ .error .outOfFuel := by
  intro he
  obtain ⟨e, hh⟩ := hx _ he
  cases hh

/-- A record inside another, in the zero value of the outer one. -/
def Holds (plan : UnitPlan) (r s : RecordPlan) : Prop :=
  plan.record? s.name = some s ∧ ∃ f ∈ r.fields, f.isArray = false ∧ f.rule.target? = some s.name

theorem mem_of_record? {plan : UnitPlan} {name : String} {r : RecordPlan}
    (h : plan.record? name = some r) : r ∈ plan.records ∧ r.name = name :=
  Cycle.mem_of_find h

theorem Holds.refers {plan : UnitPlan} {r s : RecordPlan} (hr : r ∈ plan.records)
    (h : Holds plan r s) : Cycle.Refers plan.records false r.name s.name := by
  obtain ⟨_, f, hf, ha, ht⟩ := h
  exact ⟨r, hr, rfl, f, hf, by simp [Cycle.reference?, ha, ht]⟩

/-- In a chain of records each of which refers to the next, each refers to all after it. -/
theorem chain_pairwise {α : Type} (name : α → String) {step : α → α → Prop}
    {edge : String → String → Prop} {chain : List α} (hc : chain.IsChain step)
    (hs : ∀ a b, a ∈ chain → step a b → edge (name a) (name b)) :
    chain.Pairwise fun a b => TransGen edge (name a) (name b) := by
  have : IsTrans α fun a b => TransGen edge (name a) (name b) := ⟨fun _ _ _ => TransGen.trans⟩
  rw [← List.isChain_iff_pairwise]
  exact hc.imp_of_mem_imp fun a b ha _ h => TransGen.single (hs a b ha h)

/-- No record lies in its own zero value. -/
theorem zero_chain_nodup {plan : UnitPlan} (h : plan.Sound) {chain : List RecordPlan}
    (hm : ∀ r ∈ chain, r ∈ plan.records) (hc : chain.IsChain (Holds plan)) :
    (chain.map RecordPlan.name).Nodup := by
  have hp := chain_pairwise RecordPlan.name hc fun a b ha hab => hab.refers (hm a ha)
  apply List.pairwise_map.mpr
  refine hp.imp_of_mem ?_
  intro a b ha _ hab he
  apply h.acyclic a (hm a ha)
  rwa [← he] at hab

theorem holds_chain_mem {plan : UnitPlan} {first : RecordPlan} {rest : List RecordPlan}
    (hc : (first :: rest).IsChain (Holds plan)) : ∀ r ∈ rest, r ∈ plan.records := by
  induction rest generalizing first with
  | nil => simp
  | cons second rest ih =>
    obtain ⟨hfirst, hrest⟩ := List.isChain_cons_cons.mp hc
    intro r hm
    rcases List.mem_cons.mp hm with rfl | hm
    · exact (mem_of_record? hfirst.1).1
    · exact ih hrest r hm

/-- A chain of distinct records of the plan is no longer than the plan. -/
theorem zero_chain_length {plan : UnitPlan} (h : plan.Sound) {chain : List RecordPlan}
    (hm : ∀ r ∈ chain, r ∈ plan.records) (hc : chain.IsChain (Holds plan)) :
    chain.length ≤ plan.records.length := by
  have hsub : chain.map RecordPlan.name ⊆ plan.records.map RecordPlan.name := by
    intro a ha
    obtain ⟨r, hr, rfl⟩ := List.mem_map.mp ha
    exact List.mem_map_of_mem (hm r hr)
  have hle := ((zero_chain_nodup h hm hc).subperm hsub).length_le
  simpa using hle

def zeroMember (plan : UnitPlan) (fuel : Nat) (f : FieldPlan) : Except Halt Value :=
  if f.isArray then .ok (.array []) else zeroOf plan fuel f.rule

theorem zeroOf_record {plan : UnitPlan} {name decoder : String} {r : RecordPlan}
    (hr : plan.record? name = some r) (fuel : Nat) :
    zeroOf plan (fuel + 1) (.record name decoder) = (do
      let fields ← r.fields.mapM fun f => do
        let v ← zeroMember plan fuel f
        return (f.ident, v)
      return .record fields) := by
  have hmember : (fun f : FieldPlan => (do
      let v ← if f.isArray then .ok (.array []) else zeroOf plan fuel f.rule
      return (f.ident, v) : Except Halt (String × Value))) =
      fun f => (do
        let v ← zeroMember plan fuel f
        return (f.ident, v)) := by
    funext f
    unfold zeroMember
    split <;> rfl
  simp only [zeroOf, hr, hmember]

/-- A zero value can be built with as much fuel as records lie in each other in it. -/
theorem zeroOf_ok_of_chains {plan : UnitPlan} (h : plan.Sound) {fuel : Nat} {rule : Rule}
    (hlink : ∀ name, rule.target? = some name → ∃ s, plan.record? name = some s)
    (hfuel : ∀ s rest, rule.target? = some s.name → plan.record? s.name = some s →
      (s :: rest).IsChain (Holds plan) → rest.length + 1 ≤ fuel) :
    ∃ v, zeroOf plan fuel rule = .ok v := by
  induction fuel generalizing rule with
  | zero =>
    cases rule with
    | primitive kind => cases kind <;> simp [zeroOf]
    | record name decoder =>
      obtain ⟨s, hs⟩ := hlink name rfl
      obtain ⟨_, rfl⟩ := mem_of_record? hs
      have hle := hfuel s [] rfl hs (by simp)
      omega
  | succ fuel ih =>
    cases rule with
    | primitive kind => cases kind <;> simp [zeroOf]
    | record name decoder =>
      obtain ⟨r, hr⟩ := hlink name rfl
      obtain ⟨hm, rfl⟩ := mem_of_record? hr
      have hmembers : ∀ f ∈ r.fields, ∃ v, (do
          let v ← zeroMember plan fuel f
          return (f.ident, v) : Except Halt (String × Value)) = .ok v := by
        intro f hf
        have hvalue : ∃ v, zeroMember plan fuel f = .ok v := by
          unfold zeroMember
          split
          · exact ⟨_, rfl⟩
          · rename_i ha
            apply ih (fun _ => h.record?_of_target hm hf)
            intro s rest ht hs hc
            have hholds : Holds plan r s := ⟨hs, f, hf, by simpa using ha, ht⟩
            have hle := hfuel r (s :: rest) rfl hr (List.isChain_cons_cons.mpr ⟨hholds, hc⟩)
            simpa using hle
        obtain ⟨v, hv⟩ := hvalue
        exact ⟨(f.ident, v), bind_eq_ok.mpr ⟨v, hv, rfl⟩⟩
      obtain ⟨fields, hfields⟩ := exists_forall₂.mpr hmembers
      rw [zeroOf_record hr]
      exact ⟨.record fields, bind_eq_ok.mpr ⟨fields, mapM_eq_ok.mpr hfields, rfl⟩⟩

/-- Every field of a sound plan has a zero value. -/
theorem zeroOf_ok {plan : UnitPlan} (h : plan.Sound) {r : RecordPlan} (hr : r ∈ plan.records)
    {f : FieldPlan} (hf : f ∈ r.fields) : ∃ v, zeroOf plan (zeroFuel plan) f.rule = .ok v := by
  apply zeroOf_ok_of_chains h (fun _ => h.record?_of_target hr hf)
  intro s rest _ hs hc
  have hmem : ∀ q ∈ s :: rest, q ∈ plan.records := by
    intro q hq
    rcases List.mem_cons.mp hq with rfl | hq
    · exact (mem_of_record? hs).1
    · exact holds_chain_mem hc q hq
  have hle := zero_chain_length h hmem hc
  simp only [List.length_cons] at hle
  simp only [zeroFuel]
  omega

/-- There is fuel enough for the zero value of any member: no record lies in its own. -/
theorem zeroMember_ok {plan : UnitPlan} (h : plan.Sound) {r : RecordPlan} (hr : r ∈ plan.records)
    {f : FieldPlan} (hf : f ∈ r.fields) : ∃ v, zeroMember plan (zeroFuel plan) f = .ok v := by
  unfold zeroMember
  split
  · exact ⟨_, rfl⟩
  · exact zeroOf_ok h hr hf

/-- A default that fits an integer field is kept as it is. -/
theorem intValue_of_fits {rule : Rule} {w : IntWidth} {n : Int} (hr : rule = .primitive (.int w))
    (hl : w.least ≤ n) (hg : n ≤ w.greatest) : intValue rule n = .int w n := by
  have hholds : w.holds n = true := by simp [IntWidth.holds, hl, hg]
  simp [intValue, hr, Rule.width?, Primitive.width?, IntWidth.wrap_of_holds hholds]

theorem fallback_ok {plan : UnitPlan} (h : plan.Sound) {r : RecordPlan} (hr : r ∈ plan.records)
    {f : FieldPlan} (hf : f ∈ r.fields) : ∃ v, fallback plan f = .ok v := by
  unfold fallback
  split
  · exact ⟨_, rfl⟩
  · exact ⟨_, rfl⟩
  · exact zeroMember_ok h hr hf

/-- A record under way: the record and the level at which it is read. Reading `caller` may read
`callee` inside it, if `caller` is not refused for its level. -/
structure Calls (plan : UnitPlan) (version : Int) (caller callee : RecordPlan × Nat) : Prop where
  allowed : caller.1.depthDecoder.isSome = true → caller.2 < maxNestingDepth
  found : plan.record? callee.1.name = some callee.1
  field : ∃ f ∈ caller.1.fields, f.isPresent version = true ∧
    f.rule.target? = some callee.1.name
  level : callee.2 = nestedDepth caller.1 callee.1 caller.2

theorem readItems_onlyFails {read : Reader Value} (hread : ∀ input, OnlyFails (read input))
    (n : Nat) (done : List Value) (input : Bytes) : OnlyFails (readItems read n done input) := by
  induction n generalizing done input with
  | zero => exact onlyFails_ok _
  | succ n ih => exact (hread input).bind fun ⟨v, rest⟩ => ih (v :: done) rest

theorem readField_onlyFails {read : Reader Value} (hread : ∀ input, OnlyFails (read input))
    (f : FieldPlan) (input : Bytes) : OnlyFails (readField f read input) := by
  unfold readField
  split
  · exact (readCompact_onlyFails _ _).bind fun ⟨n, rest⟩ =>
      (readItems_onlyFails hread n [] rest).bind fun _ => onlyFails_ok _
  · exact hread input

def fieldValue (version : Int) (read : FieldPlan → Reader Value)
    (fallback : FieldPlan → Except Halt Value) (f : FieldPlan) : Reader Value := fun input =>
  if f.isPresent version then readField f (read f) input
  else (fallback f).map fun v => (v, input)

/-- Fields are read one after the other. -/
theorem readFields_cons {version : Int} {read : FieldPlan → Reader Value}
    {fallback : FieldPlan → Except Halt Value} {f : FieldPlan} {fs : List FieldPlan}
    {input : Bytes} :
    readFields version read fallback (f :: fs) input = (do
      let (v, rest) ← fieldValue version read fallback f input
      let (others, rest) ← readFields version read fallback fs rest
      return ((f.ident, v) :: others, rest)) := by
  simp only [readFields, fieldValue]
  split <;> rfl

/-- Fields that are absent take their fallback, which a sound plan has. -/
theorem readFields_onlyFails {version : Int} {read : FieldPlan → Reader Value}
    {fallback : FieldPlan → Except Halt Value} {fields : List FieldPlan}
    (hread : ∀ f ∈ fields, f.isPresent version = true → ∀ input, OnlyFails (read f input))
    (hz : ∀ f ∈ fields, ∃ v, fallback f = .ok v) (input : Bytes) :
    OnlyFails (readFields version read fallback fields input) := by
  induction fields generalizing input with
  | nil => exact onlyFails_ok _
  | cons f fs ih =>
    have hvalue : OnlyFails (fieldValue version read fallback f input) := by
      unfold fieldValue
      split
      · rename_i hp
        exact readField_onlyFails (hread f List.mem_cons_self hp) f input
      · obtain ⟨v, hv⟩ := hz f List.mem_cons_self
        rw [hv]
        exact onlyFails_ok _
    rw [readFields_cons]
    refine hvalue.bind fun ⟨v, rest⟩ => OnlyFails.bind ?_ fun _ => onlyFails_ok _
    exact ih (fun g hg => hread g (List.mem_cons_of_mem _ hg))
      (fun g hg => hz g (List.mem_cons_of_mem _ hg)) rest

theorem OnlyFails.within {α : Type} {x : Except Halt α} (hx : OnlyFails x)
    (record field : String) : OnlyFails (x.mapError (Halt.within record field)) := by
  intro h he
  cases x with
  | ok a => cases he
  | error h' =>
    obtain ⟨e, rfl⟩ := hx h' rfl
    cases he
    exact ⟨.nested record field e, rfl⟩

/-- A value of a field is read if the field is a primitive, or the record it refers to is read. -/
theorem readValue_onlyFails {plan : UnitPlan} {record : RecordPlan} {depth : Nat}
    {nested : RecordPlan → Nat → Reader Value} {f : FieldPlan} {input : Bytes}
    (hlink : ∀ name, f.rule.target? = some name → ∃ s, plan.record? name = some s)
    (hnested : ∀ s, f.rule.target? = some s.name → plan.record? s.name = some s →
      OnlyFails (nested s (nestedDepth record s depth) input)) :
    OnlyFails (readValue plan record depth nested f input) := by
  cases hrule : f.rule with
  | primitive kind =>
    simp only [readValue, hrule]
    exact readPrimitive_onlyFails _ _ _
  | record name decoder =>
    rw [hrule] at hlink hnested
    obtain ⟨s, hs⟩ := hlink name rfl
    obtain ⟨_, rfl⟩ := mem_of_record? hs
    simp only [readValue, hrule, hs]
    exact (hnested s rfl hs).within _ _

/-- A record is read with as much fuel as records can be under way in it. Neither does the fuel run
out nor is a record missing. -/
theorem readRecord_onlyFails_of_chains {plan : UnitPlan} (h : plan.Sound) {version : Int}
    {fuel : Nat} {record : RecordPlan} (hr : record ∈ plan.records) {depth : Nat}
    (hfuel : ∀ inner, ((record, depth) :: inner).IsChain (Calls plan version) →
      inner.length + 1 ≤ fuel) (input : Bytes) :
    OnlyFails (readRecord plan version fuel record depth input) := by
  induction fuel generalizing record depth input with
  | zero =>
    have hle := hfuel [] (by simp)
    omega
  | succ fuel ih =>
    simp only [readRecord]
    split
    · exact onlyFails_failure _
    · rename_i hallowed
      refine OnlyFails.bind ?_ fun _ => onlyFails_ok _
      refine readFields_onlyFails ?_ (fun f => fallback_ok h hr) input
      intro f hf hp rest
      refine readValue_onlyFails (fun _ => h.record?_of_target hr hf) ?_
      intro s ht hs
      apply ih (mem_of_record? hs).1
      intro inner hc
      have hcall : Calls plan version (record, depth) (s, nestedDepth record s depth) := by
        refine ⟨?_, hs, ⟨f, hf, hp, ht⟩, rfl⟩
        intro hmark
        simpa [hmark] using hallowed
      have hle := hfuel _ (List.isChain_cons_cons.mpr ⟨hcall, hc⟩)
      simpa using hle

theorem Calls.refers {plan : UnitPlan} {version : Int} {caller callee : RecordPlan × Nat}
    (hr : caller.1 ∈ plan.records) (h : Calls plan version caller callee) :
    Cycle.Refers plan.records true caller.1.name callee.1.name := by
  obtain ⟨f, hf, _, ht⟩ := h.field
  exact ⟨caller.1, hr, rfl, f, hf, by simp [Cycle.reference?, ht]⟩

/-- All records under way belong to the plan. -/
theorem calls_mem {plan : UnitPlan} {version : Int} {chain : List (RecordPlan × Nat)}
    (hc : chain.IsChain (Calls plan version)) (hfirst : ∀ c ∈ chain.head?, c.1 ∈ plan.records) :
    ∀ c ∈ chain, c.1 ∈ plan.records := by
  induction chain with
  | nil => simp
  | cons first rest ih =>
    intro c hm
    rcases List.mem_cons.mp hm with rfl | hm
    · exact hfirst c rfl
    · refine ih hc.tail ?_ c hm
      intro d hd
      exact (mem_of_record? (hc.rel_head? hd).found).1

def uncounted (records : List RecordPlan) : Nat := records.countP fun r => r.depthDecoder.isNone

theorem uncounted_cons_of_isSome {r : RecordPlan} (h : r.depthDecoder.isSome = true)
    (rest : List RecordPlan) : uncounted (r :: rest) = uncounted rest := by
  cases hd : r.depthDecoder <;> simp [uncounted, hd] at h ⊢

theorem uncounted_cons_of_not_isSome {r : RecordPlan} (h : r.depthDecoder.isSome = false)
    (rest : List RecordPlan) : uncounted (r :: rest) = uncounted rest + 1 := by
  cases hd : r.depthDecoder <;> simp [uncounted, hd] at h ⊢

/-- A record that counts no levels leads to no cycle, so it is under way once at most. -/
theorem uncounted_chain_le {plan : UnitPlan} (h : plan.Sound) {version : Int}
    {chain : List (RecordPlan × Nat)} (hc : chain.IsChain (Calls plan version))
    (hm : ∀ c ∈ chain, c.1 ∈ plan.records) :
    uncounted (chain.map Prod.fst) ≤ uncounted plan.records := by
  have hp := chain_pairwise (fun c => c.1.name) hc fun a b ha hab => hab.refers (hm a ha)
  -- Between two visits of a record lies a way from it back to it, and then it counts levels.
  have hnodup : (((chain.map Prod.fst).filter fun r => r.depthDecoder.isNone).map
      RecordPlan.name).Nodup := by
    have hrecords : (chain.map Prod.fst).Pairwise fun r s =>
        TransGen (Cycle.Refers plan.records true) r.name s.name := List.pairwise_map.mpr hp
    apply List.pairwise_map.mpr
    refine (hrecords.filter _).imp_of_mem ?_
    intro r s hr _ hrs he
    obtain ⟨hr, hnone⟩ := List.mem_filter.mp hr
    obtain ⟨c, hcm, rfl⟩ := List.mem_map.mp hr
    have hmark : c.1.depthDecoder.isSome = true := by
      rw [h.marked c.1 (hm c hcm)]
      exact he ▸ hrs
    simp [Option.isNone_iff_eq_none.mp hnone] at hmark
  have hsub : ((chain.map Prod.fst).filter fun r => r.depthDecoder.isNone).map RecordPlan.name ⊆
      (plan.records.filter fun r => r.depthDecoder.isNone).map RecordPlan.name := by
    apply List.map_subset
    intro r hr
    obtain ⟨hr, hnone⟩ := List.mem_filter.mp hr
    obtain ⟨c, hcm, rfl⟩ := List.mem_map.mp hr
    exact List.mem_filter.mpr ⟨hm c hcm, hnone⟩
  have hle := (hnodup.subperm hsub).length_le
  simpa [uncounted, List.countP_eq_length_filter] using hle

/-- Between two records that count no levels there are at most `maxNestingDepth` that do; behind
the last of them stands one more at most, which is refused. -/
theorem calls_length {plan : UnitPlan} {version : Int} {first : RecordPlan × Nat}
    {rest : List (RecordPlan × Nat)} (hc : (first :: rest).IsChain (Calls plan version)) :
    (first.1.depthDecoder.isSome = true → first.2 ≤ maxNestingDepth →
      rest.length + 1 + first.2 ≤
        maxNestingDepth * (uncounted (rest.map Prod.fst) + 1) + uncounted (rest.map Prod.fst) + 1) ∧
    (first.1.depthDecoder.isSome = false →
      rest.length + 1 ≤
        maxNestingDepth * (uncounted (rest.map Prod.fst) + 1) +
          uncounted (rest.map Prod.fst) + 2) := by
  -- The level of the first record says how much of its run has gone before.
  induction rest generalizing first with
  | nil =>
    simp only [List.length_nil, List.map_nil, maxNestingDepth]
    omega
  | cons second rest ih =>
    obtain ⟨hcall, hc⟩ := List.isChain_cons_cons.mp hc
    obtain ⟨hcounted, huncounted⟩ := ih hc
    have hlevel := hcall.level
    have hallowed := hcall.allowed
    simp only [nestedDepth, maxNestingDepth] at hlevel hallowed hcounted huncounted ⊢
    simp only [List.length_cons, List.map_cons]
    cases hs : second.1.depthDecoder.isSome with
    | true =>
      rw [uncounted_cons_of_isSome hs]
      constructor
      · intro hf hd
        have hnext : second.2 = first.2 + 1 := by simpa [hf, hs] using hlevel
        have hlt := hallowed hf
        have hle := hcounted hs (by omega)
        omega
      · intro hf
        have hnext : second.2 = 0 := by simpa [hf] using hlevel
        have hle := hcounted hs (by omega)
        omega
    | false =>
      rw [uncounted_cons_of_not_isSome hs]
      have hle := huncounted hs
      constructor
      · intro hf hd
        have hlt := hallowed hf
        omega
      · intro hf
        omega

/-- Records under way from the outermost one on fit into the fuel of the plan. -/
theorem calls_length_le {plan : UnitPlan} (h : plan.Sound) {version : Int} {record : RecordPlan}
    (hr : record ∈ plan.records) {inner : List (RecordPlan × Nat)}
    (hc : ((record, 0) :: inner).IsChain (Calls plan version)) :
    inner.length + 1 ≤ recordFuel plan := by
  have hmem := calls_mem hc (by intro c he; cases he; exact hr)
  have hle := uncounted_chain_le h hc hmem
  obtain ⟨hcounted, huncounted⟩ := calls_length hc
  change _ ≤ maxNestingDepth * (uncounted plan.records + 1) + uncounted plan.records + 1
  simp only [List.map_cons, maxNestingDepth] at hle hcounted huncounted ⊢
  cases hs : record.depthDecoder.isSome with
  | true =>
    rw [uncounted_cons_of_isSome hs] at hle
    have := hcounted hs (by omega)
    omega
  | false =>
    rw [uncounted_cons_of_not_isSome hs] at hle
    have := huncounted hs
    omega

/-- With the fuel of the plan, reading a record halts only with a failure of the input. -/
theorem readRecord_onlyFails {plan : UnitPlan} (h : plan.Sound) {record : RecordPlan}
    (hr : record ∈ plan.records) (version : Int) (input : Bytes) :
    OnlyFails (readRecord plan version (recordFuel plan) record 0 input) :=
  readRecord_onlyFails_of_chains h hr (fun _ hc => calls_length_le h hr hc) input

/-- `y` is `x`, unless `x` ran out of fuel. -/
def Settles {α : Type} (x y : Except Halt α) : Prop := x ≠ .error .outOfFuel → y = x

theorem settles_refl {α : Type} (x : Except Halt α) : Settles x x := fun _ => rfl

/-- More fuel changes no part that did not run out of it. -/
theorem Settles.bind {α β : Type} {x y : Except Halt α} {f g : α → Except Halt β}
    (h : Settles x y) (hf : ∀ a, Settles (f a) (g a)) : Settles (x >>= f) (y >>= g) := by
  intro hne
  cases x with
  | error e =>
    rw [h fun he => hne (by rw [he]; rfl)]
    rfl
  | ok a =>
    rw [h (by simp)]
    exact hf a hne

theorem Settles.within {α : Type} {x y : Except Halt α} (h : Settles x y)
    (record field : String) :
    Settles (x.mapError (Halt.within record field)) (y.mapError (Halt.within record field)) := by
  intro hne
  rw [h fun he => hne (by rw [he]; rfl)]

section

variable {read read' : Reader Value} (hread : ∀ input, Settles (read input) (read' input))

include hread

theorem readItems_settles (n : Nat) (done : List Value) (input : Bytes) :
    Settles (readItems read n done input) (readItems read' n done input) := by
  induction n generalizing done input with
  | zero => exact settles_refl _
  | succ n ih => exact (hread input).bind fun ⟨v, rest⟩ => ih (v :: done) rest

theorem readField_settles (f : FieldPlan) (input : Bytes) :
    Settles (readField f read input) (readField f read' input) := by
  unfold readField
  split
  · exact (settles_refl _).bind fun ⟨n, rest⟩ =>
      (readItems_settles hread n [] rest).bind fun _ => settles_refl _
  · exact hread input

end

theorem readFields_settles {version : Int} {read read' : FieldPlan → Reader Value}
    {fallback : FieldPlan → Except Halt Value} {fields : List FieldPlan}
    (hread : ∀ f input, Settles (read f input) (read' f input)) (input : Bytes) :
    Settles (readFields version read fallback fields input)
      (readFields version read' fallback fields input) := by
  induction fields generalizing input with
  | nil => exact settles_refl _
  | cons f fs ih =>
    rw [readFields_cons, readFields_cons]
    have hvalue : Settles (fieldValue version read fallback f input)
        (fieldValue version read' fallback f input) := by
      unfold fieldValue
      split
      · exact readField_settles (hread f) f input
      · exact settles_refl _
    exact hvalue.bind fun ⟨v, rest⟩ => (ih rest).bind fun _ => settles_refl _

/-- More fuel does not change a read that did not run out. -/
theorem readRecord_settles {plan : UnitPlan} {version : Int} {fuel fuel' : Nat} (hle : fuel ≤ fuel')
    (record : RecordPlan) (depth : Nat) (input : Bytes) :
    Settles (readRecord plan version fuel record depth input)
      (readRecord plan version fuel' record depth input) := by
  induction fuel generalizing fuel' record depth input with
  | zero => exact fun hne => absurd rfl hne
  | succ fuel ih =>
    obtain ⟨fuel', rfl⟩ : ∃ n, fuel' = n + 1 := ⟨fuel' - 1, by omega⟩
    simp only [readRecord]
    split
    · exact settles_refl _
    · refine (readFields_settles ?_ input).bind fun _ => settles_refl _
      intro f rest
      cases hrule : f.rule with
      | primitive kind =>
        simp only [readValue, hrule]
        exact settles_refl _
      | record name decoder =>
        cases hr : plan.record? name with
        | none =>
          simp only [readValue, hrule, hr]
          exact settles_refl _
        | some inner =>
          simp only [readValue, hrule, hr]
          exact (ih (by omega) inner _ rest).within _ _

/-- The plan bounds the records under way at once, so that reading with that much fuel never runs
out of it and more fuel changes nothing. Building a zero value meets no record twice on its way
down, so it ends as well. -/
theorem nesting_bounded {m : Message} {plan : UnitPlan} (h : UnitPlan.build m = .ok plan)
    {record : RecordPlan} (hr : record ∈ plan.records) (version : Int) :
    let bound := 64 * (uncounted plan.records + 1) + uncounted plan.records + 1
    (∀ inner : List (RecordPlan × Nat), ((record, 0) :: inner).IsChain (Calls plan version) →
      inner.length + 1 ≤ bound) ∧
    (∀ (input : Bytes) (fuel : Nat), bound ≤ fuel →
      readRecord plan version fuel record 0 input ≠ .error .outOfFuel ∧
      readRecord plan version fuel record 0 input =
        readRecord plan version bound record 0 input) ∧
    (∀ inner : List RecordPlan, (record :: inner).IsChain (Holds plan) →
      ((record :: inner).map RecordPlan.name).Nodup) ∧
    ∀ f ∈ record.fields, ∃ v, zeroOf plan (plan.records.length + 1) f.rule = .ok v := by
  have hsound := UnitPlan.build_sound h
  have hout (input : Bytes) := (readRecord_onlyFails hsound hr version input).not_outOfFuel
  refine ⟨fun inner hc => calls_length_le hsound hr hc, ?_, ?_, fun f hf => zeroOf_ok hsound hr hf⟩
  · intro input fuel hle
    have he : readRecord plan version fuel record 0 input =
        readRecord plan version (recordFuel plan) record 0 input :=
      readRecord_settles hle record 0 input (hout input)
    exact ⟨he ▸ hout input, he⟩
  · intro inner hc
    refine zero_chain_nodup hsound ?_ hc
    intro r hm
    rcases List.mem_cons.mp hm with rfl | hm
    · exact hr
    · exact holds_chain_mem hc r hm

theorem nesting_bounded_tree :
    UnitPlan.build Samples.treeResponse = .ok Samples.treePlan ∧
      Samples.node ∈ Samples.treePlan.records ∧
      ∀ input fuel, 130 ≤ fuel →
        readRecord Samples.treePlan 0 fuel Samples.node 0 input ≠ .error .outOfFuel := by
  have hm : Samples.node ∈ Samples.treePlan.records := by simp [Samples.treePlan]
  refine ⟨Samples.build_treeResponse, hm, ?_⟩
  intro input fuel hle
  exact ((nesting_bounded Samples.build_treeResponse hm 0).2.1 input fuel hle).1

end WireSchema.Decode

import WireSchema.Proofs.Typing
import WireSchema.Proofs.Varint

/-!
The items of decoded arrays are paid for by the input. A count may promise any number of items, but
each item takes a byte of its own, unless it is a record with nothing on the wire. So where every
array has items that take bytes, no input decodes to more items than it has bytes.
-/

namespace WireSchema

namespace Value

mutual

/-- The items of all arrays in a value, however deep they lie. -/
def elements : Value → Nat
  | .array vs => itemElements vs
  | .record ms => memberElements ms
  | .int _ _ => 0
  | .uuid _ => 0
  | .string _ => 0
  | .bytes _ => 0

/-- Each item counts for itself and for what lies in it. -/
def itemElements : List Value → Nat
  | [] => 0
  | v :: vs => elements v + 1 + itemElements vs

def memberElements : List (String × Value) → Nat
  | [] => 0
  | (_, v) :: ms => elements v + memberElements ms

end

theorem itemElements_append (us vs : List Value) :
    itemElements (us ++ vs) = itemElements us + itemElements vs := by
  induction us with
  | nil => simp [itemElements]
  | cons u us ih =>
    simp only [List.cons_append, itemElements, ih]
    omega

theorem itemElements_reverse (vs : List Value) : itemElements vs.reverse = itemElements vs := by
  induction vs with
  | nil => rfl
  | cons v vs ih =>
    simp only [List.reverse_cons, itemElements_append, itemElements, ih]
    omega

theorem memberElements_eq_zero {ms : List (String × Value)} (h : ∀ m ∈ ms, m.2.elements = 0) :
    memberElements ms = 0 := by
  induction ms with
  | nil => rfl
  | cons m ms ih =>
    have hm := h m List.mem_cons_self
    have hms := ih fun n hn => h n (List.mem_cons_of_mem m hn)
    simp only [memberElements, hm, hms]

end Value

theorem HasType.elements_primitive {plan : UnitPlan} {kind : Primitive} {v : Value}
    (h : HasType plan false (.primitive kind) v) : v.elements = 0 := by
  cases h <;> simp only [Value.elements]

namespace Decode

open Wire

/-- A record reads in a version if something of it is on the wire: an array, which has its count, a
primitive, or a record that reads in its turn. -/
inductive Reads (plan : UnitPlan) (version : Int) : RecordPlan → Prop
  | array {r : RecordPlan} {f : FieldPlan} (mem : f ∈ r.fields)
      (present : f.isPresent version = true) (isArray : f.isArray = true) : Reads plan version r
  | primitive {r : RecordPlan} {f : FieldPlan} {kind : Primitive} (mem : f ∈ r.fields)
      (present : f.isPresent version = true) (rule : f.rule = .primitive kind) :
      Reads plan version r
  | record {r inner : RecordPlan} {f : FieldPlan} {name decoder : String} (mem : f ∈ r.fields)
      (present : f.isPresent version = true) (isArray : f.isArray = false)
      (rule : f.rule = .record name decoder) (found : plan.record? name = some inner)
      (reads : Reads plan version inner) : Reads plan version r

def ItemReads (plan : UnitPlan) (version : Int) : Rule → Prop
  | .primitive _ => True
  | .record name _ => ∃ inner, plan.record? name = some inner ∧ Reads plan version inner

def FieldReads (plan : UnitPlan) (version : Int) (f : FieldPlan) : Prop :=
  f.isPresent version = true ∧ (f.isArray = true ∨ ItemReads plan version f.rule)

/-- Every array that is on the wire has items that take bytes. -/
def ArraysRead (plan : UnitPlan) (version : Int) : Prop :=
  ∀ r ∈ plan.records, ∀ f ∈ r.fields, f.isPresent version = true → f.isArray = true →
    ItemReads plan version f.rule

/-- The inductive definition opened once: a record reads just if one of its fields does. -/
theorem reads_iff {plan : UnitPlan} {version : Int} {r : RecordPlan} :
    Reads plan version r ↔ ∃ f ∈ r.fields, FieldReads plan version f := by
  constructor
  · intro h
    cases h with
    | array mem present isArray => exact ⟨_, mem, present, .inl isArray⟩
    | primitive mem present rule =>
      refine ⟨_, mem, present, .inr ?_⟩
      rw [rule]
      trivial
    | record mem present _ rule found reads =>
      refine ⟨_, mem, present, .inr ?_⟩
      rw [rule]
      exact ⟨_, found, reads⟩
  · rintro ⟨f, mem, present, hreads⟩
    cases hf : f.isArray with
    | true => exact .array mem present hf
    | false =>
      have hitem := hreads.resolve_left (by simp [hf])
      cases hrule : f.rule with
      | primitive kind => exact .primitive mem present hrule
      | record name decoder =>
        rw [hrule] at hitem
        obtain ⟨inner, found, reads⟩ := hitem
        exact .record mem present hf hrule found reads

theorem itemReads_record {plan : UnitPlan} {version : Int} {name decoder : String}
    {inner : RecordPlan} (found : plan.record? name = some inner) :
    ItemReads plan version (.record name decoder) ↔ Reads plan version inner := by
  simp [ItemReads, found]

/-- A read either takes more bytes than it gives elements, or gives none and takes none. Which of
the two it does is known beforehand. -/
def Accounts {α : Type} (reads : Prop) (elements : α → Nat) (read : Reader α) : Prop :=
  ∀ ⦃input rest : Bytes⦄ ⦃a : α⦄, read input = .ok (a, rest) →
    reads ∧ elements a + 1 + rest.length ≤ input.length ∨
      ¬ reads ∧ elements a = 0 ∧ rest = input

theorem Accounts.congr {α : Type} {p q : Prop} {elements : α → Nat} {read : Reader α}
    (h : Accounts p elements read) (hpq : p ↔ q) : Accounts q elements read := by
  rwa [← propext hpq]

theorem take_length {n : Nat} {input rest taken : Bytes} (h : take n input = .ok (taken, rest)) :
    n + rest.length = input.length := by
  obtain ⟨rfl, rfl⟩ := take_eq_ok h
  simp

theorem readUnsigned_length {n k : Nat} {input rest : Bytes}
    (h : readUnsigned n input = .ok (k, rest)) : n + rest.length = input.length := by
  obtain ⟨⟨taken, left⟩, htake, he⟩ := bind_eq_ok.mp h
  cases he
  exact take_length htake

theorem readCompact_length {ident : String} {n : Nat} {input rest : Bytes}
    (h : readCompact ident input = .ok (n, rest)) : 1 + rest.length ≤ input.length := by
  obtain ⟨⟨k, left⟩, hread, h⟩ := bind_eq_ok.mp h
  obtain ⟨last, hend, _, rfl⟩ := readUvarint_eq_ok.mp (lift_eq_ok.mp hread)
  have hlt := lastGroup_lt_length hend.1
  dsimp only at h
  split at h
  · cases h
  · cases h
    simp only [List.length_drop]
    omega

/-- No primitive is free: the least of them takes a byte. -/
theorem readPrimitive_length {ident : String} {kind : Primitive} {v : Value} {input rest : Bytes}
    (h : readPrimitive ident kind input = .ok (v, rest)) : 1 + rest.length ≤ input.length := by
  cases kind with
  | int w =>
    obtain ⟨⟨k, left⟩, hread, he⟩ := bind_eq_ok.mp h
    cases he
    obtain ⟨⟨n, left⟩, hbytes, he⟩ := bind_eq_ok.mp (lift_eq_ok.mp hread)
    cases he
    have hlength := readUnsigned_length hbytes
    have hpos : 1 ≤ w.bytes := by cases w <;> decide
    omega
  | uuid =>
    obtain ⟨⟨taken, left⟩, hread, he⟩ := bind_eq_ok.mp h
    cases he
    have hlength := take_length (lift_eq_ok.mp hread)
    omega
  | string =>
    obtain ⟨⟨length, left⟩, hread, h⟩ := bind_eq_ok.mp h
    have hlength := readUnsigned_length (lift_eq_ok.mp hread)
    dsimp only at h
    split at h
    · cases h
    · split at h
      · cases h
      · obtain ⟨⟨payload, left'⟩, htake, he⟩ := bind_eq_ok.mp h
        cases he
        have hpayload := take_length (lift_eq_ok.mp htake)
        dsimp only
        omega
  | bytes =>
    obtain ⟨⟨length, left⟩, hread, h⟩ := bind_eq_ok.mp h
    have hlength := readCompact_length hread
    obtain ⟨⟨payload, left'⟩, htake, he⟩ := bind_eq_ok.mp h
    cases he
    have hpayload := take_length (lift_eq_ok.mp htake)
    omega

/-- Each item pays for itself and for what lies in it. -/
theorem readItems_paid {read : Reader Value} (hread : Accounts True Value.elements read) {n : Nat}
    {done vs : List Value} {input rest : Bytes}
    (h : readItems read n done input = .ok (vs, rest)) :
    Value.itemElements vs + rest.length ≤ Value.itemElements done + input.length := by
  induction n generalizing done input with
  | zero =>
    cases h
    rw [Value.itemElements_reverse]
  | succ n ih =>
    obtain ⟨⟨v, left⟩, hv, h⟩ := bind_eq_ok.mp h
    have hrest := ih h
    rcases hread hv with ⟨_, hpaid⟩ | ⟨hno, _⟩
    · simp only [Value.itemElements] at hrest
      omega
    · exact absurd trivial hno

/-- The count of an array takes a byte, so an array always takes more bytes than it has items. -/
theorem readField_accounts {f : FieldPlan} {read : Reader Value} {reads : Prop}
    (hread : Accounts reads Value.elements read) (harray : f.isArray = true → reads) :
    Accounts (f.isArray = true ∨ reads) Value.elements (readField f read) := by
  intro input rest v h
  unfold readField at h
  cases ha : f.isArray with
  | false =>
    simp only [ha, Bool.false_eq_true, if_false] at h
    simpa using hread h
  | true =>
    simp only [ha, if_true] at h
    obtain ⟨⟨n, left⟩, hcount, h⟩ := bind_eq_ok.mp h
    obtain ⟨⟨vs, left'⟩, hitems, he⟩ := bind_eq_ok.mp h
    cases he
    have hone := readCompact_length hcount
    have hpaid := readItems_paid (hread.congr (iff_true_intro (harray ha))) hitems
    simp only [Value.itemElements] at hpaid
    refine .inl ⟨.inl rfl, ?_⟩
    simp only [Value.elements]
    omega

theorem zeroOf_elements {plan : UnitPlan} {fuel : Nat} {rule : Rule} {v : Value}
    (h : zeroOf plan fuel rule = .ok v) : v.elements = 0 := by
  induction fuel generalizing rule v with
  | zero =>
    cases rule with
    | primitive kind => exact (zeroOf_primitive_hasType h).elements_primitive
    | record name decoder => cases h
  | succ fuel ih =>
    cases rule with
    | primitive kind => exact (zeroOf_primitive_hasType h).elements_primitive
    | record name decoder =>
      cases hr : plan.record? name with
      | none => simp [zeroOf, hr] at h
      | some r =>
        rw [zeroOf_record hr] at h
        obtain ⟨ms, hms, he⟩ := bind_eq_ok.mp h
        cases he
        simp only [Value.elements]
        apply Value.memberElements_eq_zero
        intro m hm
        obtain ⟨f, _, hf⟩ := exists_of_mem_right (mapM_eq_ok.mp hms) hm
        obtain ⟨u, hu, he⟩ := bind_eq_ok.mp hf
        cases he
        unfold zeroMember at hu
        split at hu
        · cases hu
          rfl
        · exact ih hu

/-- A field that is left out has no items: defaults are no arrays, and zero arrays are empty. -/
theorem fallback_elements {plan : UnitPlan} {f : FieldPlan} {v : Value}
    (h : fallback plan f = .ok v) : v.elements = 0 := by
  unfold fallback at h
  cases hd : f.default with
  | string s =>
    simp only [hd] at h
    cases h
    rfl
  | int k =>
    simp only [hd] at h
    cases h
    unfold intValue
    split <;> rfl
  | absent =>
    simp only [hd] at h
    split at h
    · cases h
      rfl
    · exact zeroOf_elements h

/-- A field that is left out takes nothing and gives its zero value, or a default that is no
array. -/
theorem fieldValue_accounts {plan : UnitPlan} {version : Int} {read : FieldPlan → Reader Value}
    {f : FieldPlan} (hread : Accounts (ItemReads plan version f.rule) Value.elements (read f))
    (harray : f.isPresent version = true → f.isArray = true → ItemReads plan version f.rule) :
    Accounts (FieldReads plan version f) Value.elements
      (fieldValue version read (fallback plan) f) := by
  intro input rest v h
  unfold fieldValue at h
  cases hp : f.isPresent version with
  | true =>
    simp only [hp, if_true] at h
    simpa only [FieldReads, hp, true_and] using readField_accounts hread (harray hp) h
  | false =>
    simp only [hp, Bool.false_eq_true, if_false] at h
    refine .inr ⟨by simp [FieldReads, hp], ?_⟩
    cases hf : fallback plan f with
    | error e => simp [hf, Except.map] at h
    | ok u =>
      obtain ⟨rfl, rfl⟩ : u = v ∧ input = rest := by simpa [hf, Except.map] using h
      exact ⟨fallback_elements hf, rfl⟩

/-- Fields in a row take no bytes only if none of them reads. -/
theorem readFields_accounts {plan : UnitPlan} {version : Int} {read : FieldPlan → Reader Value}
    {fields : List FieldPlan}
    (h : ∀ f ∈ fields, Accounts (FieldReads plan version f) Value.elements
      (fieldValue version read (fallback plan) f)) :
    Accounts (∃ f ∈ fields, FieldReads plan version f) Value.memberElements
      (readFields version read (fallback plan) fields) := by
  induction fields with
  | nil =>
    intro input rest ms hr
    cases hr
    exact .inr ⟨by simp, rfl, rfl⟩
  | cons f fs ih =>
    intro input rest ms hr
    rw [readFields_cons] at hr
    obtain ⟨⟨v, left⟩, hv, hr⟩ := bind_eq_ok.mp hr
    obtain ⟨⟨others, left'⟩, hothers, he⟩ := bind_eq_ok.mp hr
    cases he
    have hfirst := h f List.mem_cons_self hv
    have hrest := ih (fun g hg => h g (List.mem_cons_of_mem f hg)) hothers
    simp only [List.exists_mem_cons_iff, Value.memberElements]
    rcases hfirst with ⟨hf, hpaid⟩ | ⟨hf, hnone, rfl⟩
    · refine .inl ⟨.inl hf, ?_⟩
      rcases hrest with ⟨_, hpaid'⟩ | ⟨_, hnone', rfl⟩ <;> omega
    · rcases hrest with ⟨hfs, hpaid⟩ | ⟨hfs, hnone', rfl⟩
      · exact .inl ⟨.inr hfs, by omega⟩
      · exact .inr ⟨not_or.mpr ⟨hf, hfs⟩, by omega, rfl⟩

/-- One value of a field accounts for its elements if the records inside it do. -/
theorem readValue_accounts {plan : UnitPlan} {version : Int} {record : RecordPlan} {depth : Nat}
    {nested : RecordPlan → Nat → Reader Value} {f : FieldPlan}
    (h : ∀ inner ∈ plan.records, ∀ d,
      Accounts (Reads plan version inner) Value.elements (nested inner d)) :
    Accounts (ItemReads plan version f.rule) Value.elements
      (readValue plan record depth nested f) := by
  intro input rest v hr
  cases hrule : f.rule with
  | primitive kind =>
    simp only [readValue, hrule] at hr
    have hlength := readPrimitive_length hr
    have htype : HasType plan false (.primitive kind) v := readPrimitive_hasType ⟨input, rest, hr⟩
    have hnone := htype.elements_primitive
    exact .inl ⟨trivial, by omega⟩
  | record name decoder =>
    cases hi : plan.record? name with
    | none => simp [readValue, hrule, hi] at hr
    | some inner =>
      simp only [readValue, hrule, hi] at hr
      rw [itemReads_record hi]
      exact h inner (mem_of_record? hi).1 _ (mapError_eq_ok.mp hr)

/-- A record that reads takes more bytes than it has elements, and one that does not takes
none. -/
theorem readRecord_accounts {plan : UnitPlan} {version : Int} (harrays : ArraysRead plan version)
    (fuel : Nat) {record : RecordPlan} (hr : record ∈ plan.records) (depth : Nat) :
    Accounts (Reads plan version record) Value.elements
      (readRecord plan version fuel record depth) := by
  induction fuel generalizing record depth with
  | zero =>
    intro input rest v h
    cases h
  | succ fuel ih =>
    intro input rest v h
    simp only [readRecord] at h
    split at h
    · cases h
    · obtain ⟨⟨ms, left⟩, hfields, he⟩ := bind_eq_ok.mp h
      cases he
      rw [reads_iff]
      simp only [Value.elements]
      refine readFields_accounts ?_ hfields
      intro f hf
      refine fieldValue_accounts ?_ (harrays record hr f hf)
      exact readValue_accounts fun inner hi d => ih hi d

end Decode

namespace Samples

def smallTree : Value :=
  .record
    [("Value", .int .w8 7),
     ("Children", .array
       [.record [("Value", .int .w8 8), ("Children", .array [])],
        .record
          [("Value", .int .w8 9),
           ("Children", .array [.record [("Value", .int .w8 5), ("Children", .array [])]])]])]

end Samples

namespace Decode

/-- Where every array on the wire has items that take bytes, a decoded value has at most as many
items, in all of its arrays together, as bytes were consumed. A record that reads even has fewer,
and one that does not read consumes nothing. Any plan will do, whether it was built from a message
or not. -/
theorem elements_le_consumed {plan : UnitPlan} {version : Int} (harrays : ArraysRead plan version)
    {record : RecordPlan} (hr : record ∈ plan.records) {input : Bytes} {v : Value} {n : Nat}
    (hd : decodeRecord plan record version input = .ok ⟨v, n⟩) :
    v.elements ≤ n ∧ (Reads plan version record → v.elements < n) ∧
      (¬ Reads plan version record → n = 0) := by
  obtain ⟨⟨v', rest⟩, hread, he⟩ := bind_eq_ok.mp hd
  obtain ⟨rfl, rfl⟩ : v' = v ∧ input.length - rest.length = n := by simpa using he
  rcases readRecord_accounts harrays _ hr 0 hread with ⟨hreads, hpaid⟩ | ⟨hno, hnone, rfl⟩
  · exact ⟨by omega, fun _ => by omega, fun h => absurd hreads h⟩
  · exact ⟨by omega, fun h => absurd h hno, fun _ => by omega⟩

set_option maxRecDepth 2048 in
/-- A tree of four nodes in eight bytes: two of them lie in the array of the root, one in the array
of a child. -/
theorem elements_le_consumed_tree :
    UnitPlan.build Samples.treeResponse = .ok Samples.treePlan ∧ ArraysRead Samples.treePlan 0 ∧
      Samples.node ∈ Samples.treePlan.records ∧ Reads Samples.treePlan 0 Samples.node ∧
      decodeRecord Samples.treePlan Samples.node 0 [7, 3, 8, 1, 9, 2, 5, 1] =
        .ok ⟨Samples.smallTree, 8⟩ ∧
      Samples.smallTree.elements = 3 ∧ Samples.smallTree.elements < 8 := by
  have hm : Samples.node ∈ Samples.treePlan.records := by simp [Samples.treePlan]
  have hreads : Reads Samples.treePlan 0 Samples.node :=
    .primitive List.mem_cons_self rfl rfl
  have harrays : ArraysRead Samples.treePlan 0 := by
    intro r hr f hf _ ha
    simp only [Samples.treePlan, List.mem_cons, List.not_mem_nil, or_false] at hr
    rcases hr with rfl | rfl
    · simp only [List.mem_singleton] at hf
      subst hf
      cases ha
    · simp only [Samples.node, List.mem_cons, List.not_mem_nil, or_false] at hf
      rcases hf with rfl | rfl
      · cases ha
      · exact ⟨Samples.node, rfl, hreads⟩
  have hd : decodeRecord Samples.treePlan Samples.node 0 [7, 3, 8, 1, 9, 2, 5, 1] =
      .ok ⟨Samples.smallTree, 8⟩ := by rfl
  exact ⟨Samples.build_treeResponse, harrays, hm, hreads, hd, by rfl,
    (elements_le_consumed harrays hm hd).2.1 hreads⟩

end Decode

end WireSchema

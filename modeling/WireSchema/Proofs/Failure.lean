import WireSchema.Proofs.Streaming

/-!
How decoding fails. Each read is followed to the errors that it can end with, and a failure of a
record is told as a way down through its fields: a record lies too deep, a field raises an error of
its own, or the record that a field holds fails in its turn.
-/

namespace WireSchema

/-- The errors that reading a field raises, those of the records in it left out. -/
def FieldPlan.Raises (f : FieldPlan) : DecodeError → Prop
  | .unexpectedNull ident => ident = f.ident ∧
    (f.isArray = true ∨ f.rule = .primitive .string ∨ f.rule = .primitive .bytes)
  | .invalidLength ident length => ident = f.ident ∧ f.rule = .primitive .string ∧
    0x8000 ≤ length ∧ length ≤ 0xFFFE
  | .varint _ => f.isArray = true ∨ f.rule = .primitive .bytes
  | .unexpectedEnd requested available => available < requested
  | .nestingTooDeep _ => False
  | .nested _ _ _ => False

namespace Wire

/-- Taking bytes fails just for want of them, and says how many were wanted and how many there
were. -/
theorem take_eq_error {n : Nat} {bytes : Bytes} {e : DecodeError} (h : take n bytes = .error e) :
    e = .unexpectedEnd n bytes.length ∧ bytes.length < n := by
  unfold take at h
  cases hs : split? n bytes with
  | some r => simp [hs] at h
  | none =>
    simp only [hs, Except.error.injEq] at h
    exact ⟨h.symm, split?_eq_none_iff.mp hs⟩

theorem bigEndian_lt (bytes : Bytes) : bigEndian bytes < 256 ^ bytes.length := by
  induction bytes using List.reverseRecOn with
  | nil => simp [bigEndian]
  | append_singleton bytes b ih =>
    have hb := b.toNat_lt
    rw [bigEndian_append, List.length_append, List.length_singleton, Nat.pow_succ]
    omega

theorem readUnsigned_lt {n value : Nat} {bytes rest : Bytes}
    (h : readUnsigned n bytes = .ok (value, rest)) : value < 256 ^ n := by
  obtain ⟨⟨taken, left⟩, ht, he⟩ := bind_eq_ok.mp h
  cases he
  have hlt := bigEndian_lt taken
  rwa [(take_eq_ok ht).2] at hlt

theorem readUnsigned_eq_error {n : Nat} {bytes : Bytes} {e : DecodeError}
    (h : readUnsigned n bytes = .error e) : take n bytes = .error e := by
  rcases bind_eq_error.mp h with ht | ⟨r, _, he⟩
  · exact ht
  · cases he

end Wire

namespace Decode

open Wire

def CanFail {α : Type} (read : Reader α) (e : DecodeError) : Prop :=
  ∃ input, read input = .error (.failure e)

theorem lift_eq_failure {α : Type} {r : Except DecodeError α} {e : DecodeError} :
    lift r = .error (.failure e) ↔ r = .error e := by
  cases r <;> simp [lift, Except.mapError]

theorem readCompact_canFail {ident : String} {e : DecodeError} (h : CanFail (readCompact ident) e) :
    e = .unexpectedNull ident ∨ ∃ cause, e = .varint cause := by
  obtain ⟨input, h⟩ := h
  rcases bind_eq_error.mp h with hread | ⟨r, _, he⟩
  · cases hg : readGroups maxVarintBytes 0 0 input with
    | ok r => simp [lift_eq_failure, readUvarint, hg, Except.mapError] at hread
    | error cause =>
      simp only [lift_eq_failure, readUvarint, hg, Except.mapError, Except.error.injEq] at hread
      exact .inr ⟨cause, hread.symm⟩
  · dsimp only at he
    split at he
    · cases he
      exact .inl rfl
    · cases he

theorem readString_raises {f : FieldPlan} (hf : f.rule = .primitive .string) {e : DecodeError}
    (h : CanFail (readString f.ident) e) : f.Raises e := by
  obtain ⟨input, h⟩ := h
  rcases bind_eq_error.mp h with hread | ⟨⟨length, rest⟩, hlength, h⟩
  · obtain ⟨rfl, hlt⟩ := take_eq_error (readUnsigned_eq_error (lift_eq_failure.mp hread))
    exact hlt
  · have hlt := readUnsigned_lt (mapError_eq_ok.mp hlength)
    dsimp only at h
    split at h
    · cases h
      exact ⟨rfl, .inr (.inl hf)⟩
    · rename_i hnull
      split at h
      · rename_i hlong
        cases h
        simp only [nullStringLength, maxStringLength] at hnull hlong
        exact ⟨rfl, hf, by omega, by omega⟩
      · rcases bind_eq_error.mp h with ht | ⟨_, _, he⟩
        · obtain ⟨rfl, hlt⟩ := take_eq_error (lift_eq_failure.mp ht)
          exact hlt
        · cases he

/-- Whatever a primitive fails with is among the errors of its field. -/
theorem readPrimitive_raises {f : FieldPlan} {kind : Primitive} (hf : f.rule = .primitive kind)
    {e : DecodeError} (h : CanFail (readPrimitive f.ident kind) e) : f.Raises e := by
  cases kind with
  | int w =>
    obtain ⟨input, h⟩ := h
    rcases bind_eq_error.mp h with hread | ⟨_, _, he⟩
    · rcases bind_eq_error.mp (lift_eq_failure.mp hread) with hn | ⟨_, _, he⟩
      · obtain ⟨rfl, hlt⟩ := take_eq_error (readUnsigned_eq_error hn)
        exact hlt
      · cases he
    · cases he
  | uuid =>
    obtain ⟨input, h⟩ := h
    rcases bind_eq_error.mp h with hread | ⟨_, _, he⟩
    · obtain ⟨rfl, hlt⟩ := take_eq_error (lift_eq_failure.mp hread)
      exact hlt
    · cases he
  | string => exact readString_raises hf h
  | bytes =>
    obtain ⟨input, h⟩ := h
    rcases bind_eq_error.mp h with hread | ⟨_, _, h⟩
    · rcases readCompact_canFail ⟨input, hread⟩ with rfl | ⟨cause, rfl⟩
      · exact ⟨rfl, .inr (.inr hf)⟩
      · exact .inr hf
    · rcases bind_eq_error.mp h with ht | ⟨_, _, he⟩
      · obtain ⟨rfl, hlt⟩ := take_eq_error (lift_eq_failure.mp ht)
        exact hlt
      · cases he

theorem readItems_canFail {read : Reader Value} {n : Nat} {done : List Value} {e : DecodeError}
    (h : CanFail (readItems read n done) e) : CanFail read e := by
  obtain ⟨input, h⟩ := h
  induction n generalizing done input with
  | zero => cases h
  | succ n ih =>
    rcases bind_eq_error.mp h with hread | ⟨r, _, h⟩
    · exact ⟨input, hread⟩
    · exact ih _ h

/-- A field fails for its count or for one of its values. -/
theorem readField_canFail {f : FieldPlan} {read : Reader Value} {e : DecodeError}
    (h : CanFail (readField f read) e) : f.Raises e ∨ CanFail read e := by
  obtain ⟨input, h⟩ := h
  unfold readField at h
  cases ha : f.isArray with
  | false =>
    simp only [ha, Bool.false_eq_true, if_false] at h
    exact .inr ⟨input, h⟩
  | true =>
    simp only [ha, if_true] at h
    rcases bind_eq_error.mp h with hcount | ⟨count, _, h⟩
    · rcases readCompact_canFail ⟨input, hcount⟩ with rfl | ⟨cause, rfl⟩
      · exact .inl ⟨rfl, .inl ha⟩
      · exact .inl (.inl ha)
    · rcases bind_eq_error.mp h with hitems | ⟨_, _, he⟩
      · exact .inr (readItems_canFail ⟨count.2, hitems⟩)
      · cases he

/-- Fields fail where one that is present fails: those left out have a value. -/
theorem readFields_canFail {version : Int} {read : FieldPlan → Reader Value}
    {fallback : FieldPlan → Except Halt Value} {fields : List FieldPlan}
    (hz : ∀ f ∈ fields, ∃ v, fallback f = .ok v) {e : DecodeError}
    (h : CanFail (readFields version read fallback fields) e) :
    ∃ f ∈ fields, f.isPresent version = true ∧ CanFail (readField f (read f)) e := by
  obtain ⟨input, h⟩ := h
  induction fields generalizing input with
  | nil => cases h
  | cons f fs ih =>
    rw [readFields_cons] at h
    rcases bind_eq_error.mp h with hvalue | ⟨r, _, h⟩
    · unfold fieldValue at hvalue
      split at hvalue
      · rename_i hp
        exact ⟨f, List.mem_cons_self, hp, input, hvalue⟩
      · obtain ⟨v, hv⟩ := hz f List.mem_cons_self
        rw [hv] at hvalue
        cases hvalue
    · rcases bind_eq_error.mp h with hrest | ⟨_, _, he⟩
      · obtain ⟨g, hg, hp, hfail⟩ := ih (fun g hg => hz g (List.mem_cons_of_mem _ hg)) _ hrest
        exact ⟨g, List.mem_cons_of_mem _ hg, hp, hfail⟩
      · cases he

/-- One value fails with an error of its field, or with that of a record inside it. -/
theorem readValue_canFail {plan : UnitPlan} {record : RecordPlan} {depth : Nat}
    {nested : RecordPlan → Nat → Reader Value} {f : FieldPlan} {e : DecodeError}
    (h : CanFail (readValue plan record depth nested f) e) :
    f.Raises e ∨ ∃ inner cause, f.rule.target? = some inner.name ∧
      plan.record? inner.name = some inner ∧ e = .nested record.name f.ident cause ∧
      CanFail (nested inner (nestedDepth record inner depth)) cause := by
  cases hrule : f.rule with
  | primitive kind =>
    simp only [readValue, hrule] at h
    exact .inl (readPrimitive_raises hrule h)
  | record name decoder =>
    obtain ⟨input, h⟩ := h
    cases hi : plan.record? name with
    | none => simp [readValue, hrule, hi] at h
    | some inner =>
      obtain ⟨_, rfl⟩ := mem_of_record? hi
      simp only [readValue, hrule, hi] at h
      cases hn : nested inner (nestedDepth record inner depth) input with
      | ok r => simp [hn, Except.mapError] at h
      | error halt =>
        simp only [hn, Except.mapError, Except.error.injEq] at h
        cases halt with
        | failure cause =>
          cases h
          exact .inr ⟨inner, cause, rfl, hi, rfl, input, hn⟩
        | missingRecord _ => cases h
        | outOfFuel => cases h

inductive Fails (plan : UnitPlan) (version : Int) : RecordPlan → Nat → DecodeError → Prop
  | tooDeep {record : RecordPlan} {depth : Nat} (counted : record.depthDecoder.isSome = true)
      (deep : maxNestingDepth ≤ depth) :
      Fails plan version record depth (.nestingTooDeep maxNestingDepth)
  | field {record : RecordPlan} {depth : Nat} {f : FieldPlan} {e : DecodeError}
      (mem : f ∈ record.fields) (present : f.isPresent version = true) (raises : f.Raises e) :
      Fails plan version record depth e
  | nested {record inner : RecordPlan} {depth : Nat} {f : FieldPlan} {cause : DecodeError}
      (mem : f ∈ record.fields) (present : f.isPresent version = true)
      (target : f.rule.target? = some inner.name) (found : plan.record? inner.name = some inner)
      (allowed : record.depthDecoder.isSome = true → depth < maxNestingDepth)
      (fails : Fails plan version inner (nestedDepth record inner depth) cause) :
      Fails plan version record depth (.nested record.name f.ident cause)

/-- Reading fails in one of these ways only. -/
theorem readRecord_fails {plan : UnitPlan} (h : plan.Sound) {version : Int} {fuel : Nat}
    {record : RecordPlan} (hr : record ∈ plan.records) {depth : Nat} {e : DecodeError}
    (hf : CanFail (readRecord plan version fuel record depth) e) :
    Fails plan version record depth e := by
  induction fuel generalizing record depth e with
  | zero =>
    obtain ⟨_, hf⟩ := hf
    cases hf
  | succ fuel ih =>
    obtain ⟨input, hf⟩ := hf
    simp only [readRecord] at hf
    split at hf
    · rename_i hdeep
      cases hf
      simp only [Bool.and_eq_true, decide_eq_true_eq] at hdeep
      exact .tooDeep hdeep.1 hdeep.2
    · rename_i hallowed
      rcases bind_eq_error.mp hf with hfields | ⟨_, _, he⟩
      · obtain ⟨f, hm, hp, hfield⟩ :=
          readFields_canFail (fun f => fallback_ok h hr) ⟨input, hfields⟩
        rcases readField_canFail hfield with hraises | hvalue
        · exact .field hm hp hraises
        · rcases readValue_canFail hvalue with hraises | ⟨inner, cause, ht, hi, rfl, hcause⟩
          · exact .field hm hp hraises
          · refine .nested hm hp ht hi ?_ (ih (mem_of_record? hi).1 hcause)
            intro hcounted
            simpa [hcounted] using hallowed
      · cases he

/-- Decoding fails only in the ways in which reading the record at level zero does. -/
theorem decodeRecord_fails {plan : UnitPlan} (h : plan.Sound) {record : RecordPlan}
    (hr : record ∈ plan.records) {version : Int} {input : Bytes} {e : DecodeError}
    (hd : decodeRecord plan record version input = .error (.failure e)) :
    Fails plan version record 0 e := by
  rcases bind_eq_error.mp hd with hread | ⟨_, _, he⟩
  · exact readRecord_fails h hr ⟨input, hread⟩
  · cases he

end Decode

end WireSchema

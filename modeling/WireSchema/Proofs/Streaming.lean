import WireSchema.Proofs.Encoding
import WireSchema.Proofs.Nesting

/-!
Decoding is a streaming parse. A read that succeeds takes bytes off the front of its input and does
not look behind them, and it fails for want of bytes on every shorter part of them. A read that
fails for another reason fails in the same way however the input goes on.
-/

namespace WireSchema

/-- The input ended too early, in whatever record that shows. -/
def DecodeError.IsTruncation (e : DecodeError) : Prop :=
  (∃ requested available, e.rootCause = .unexpectedEnd requested available) ∨
    ∃ read, e.rootCause = .varint (.truncated read)

def Decode.Halt.IsTruncation : Halt → Prop
  | .failure e => e.IsTruncation
  | .missingRecord _ => False
  | .outOfFuel => False

def VarintError.IsTruncation : VarintError → Prop
  | .tooLong => False
  | .truncated _ => True

namespace Wire

section

variable {ε ε' α β : Type}

/-- A read gives `a` for exactly the bytes `taken`. Errors in `cut` are those for want of bytes. -/
structure Takes (cut : ε → Prop) (read : Bytes → Except ε (α × Bytes)) (taken : Bytes) (a : α) :
    Prop where
  whole : ∀ rest, read (taken ++ rest) = .ok (a, rest)
  short : ∀ part lacking, taken = part ++ lacking → lacking ≠ [] →
    ∃ e, read part = .error e ∧ cut e

structure Streams (cut : ε → Prop) (read : Bytes → Except ε (α × Bytes)) : Prop where
  takes : ∀ {input rest : Bytes} {a : α}, read input = .ok (a, rest) →
    ∃ taken, input = taken ++ rest ∧ Takes cut read taken a
  refuses : ∀ {input : Bytes} {e : ε}, read input = .error e → ¬ cut e →
    ∀ more, read (input ++ more) = .error e

variable {cut : ε → Prop} {cut' : ε' → Prop} {read : Bytes → Except ε (α × Bytes)}

theorem streams_pure (a : α) : Streams cut fun input => .ok (a, input) := by
  refine ⟨?_, by simp⟩
  intro input rest b h
  cases h
  refine ⟨[], rfl, fun rest => rfl, ?_⟩
  intro part lacking he hne
  exact absurd (List.append_eq_nil_iff.mp he.symm).2 hne

theorem streams_fail (e : ε) : Streams cut fun _ => (.error e : Except ε (α × Bytes)) :=
  ⟨by simp, fun h _ _ => h⟩

theorem Streams.ite {p : Prop} [Decidable p] {read' : Bytes → Except ε (α × Bytes)}
    (h : p → Streams cut read) (h' : ¬ p → Streams cut read') :
    Streams cut fun input => if p then read input else read' input := by
  by_cases hp : p
  · simpa only [hp, if_true] using h hp
  · simpa only [hp, if_false] using h' hp

theorem Streams.mapError {g : ε → ε'} (h : Streams cut read) (hg : ∀ e, cut' (g e) ↔ cut e) :
    Streams cut' fun input => (read input).mapError g := by
  constructor
  · intro input rest a hr
    obtain ⟨taken, rfl, hw, hs⟩ := h.takes (mapError_eq_ok.mp hr)
    refine ⟨taken, rfl, fun rest => mapError_eq_ok.mpr (hw rest), ?_⟩
    intro part lacking he hne
    obtain ⟨e, hpart, hcut⟩ := hs part lacking he hne
    exact ⟨g e, by simp [hpart, Except.mapError], (hg e).mpr hcut⟩
  · intro input e' hr hcut more
    cases hread : read input with
    | ok r => simp [hread, Except.mapError] at hr
    | error e =>
      obtain rfl : g e = e' := by simpa [hread, Except.mapError] using hr
      have hmore := h.refuses hread (fun hc => hcut ((hg e).mpr hc)) more
      simp [hmore, Except.mapError]

/-- Two reads in a row take what the first takes, then what the second takes. -/
theorem Streams.bind {next : α × Bytes → Except ε (β × Bytes)} (h : Streams cut read)
    (hn : ∀ a, Streams cut fun rest => next (a, rest)) :
    Streams cut fun input => read input >>= next := by
  constructor
  · intro input rest b hr
    obtain ⟨⟨a, middle⟩, hread, hnext⟩ := bind_eq_ok.mp hr
    obtain ⟨first, rfl, hfirst⟩ := h.takes hread
    obtain ⟨second, rfl, hsecond⟩ := (hn a).takes hnext
    have hgoOn (more : Bytes) : (read (first ++ more) >>= next) = next (a, more) := by
      rw [hfirst.whole more]
      rfl
    refine ⟨first ++ second, by simp, ?_, ?_⟩
    · intro more
      rw [List.append_assoc, hgoOn]
      exact hsecond.whole more
    · intro part lacking he hne
      -- The part ends behind the first read or inside it.
      rcases List.append_eq_append_iff.mp he with ⟨done, rfl, hd⟩ | ⟨undone, hf, rfl⟩
      · rw [hgoOn]
        exact hsecond.short done lacking hd hne
      · by_cases hu : undone = []
        · subst hu
          obtain rfl : first = part := by simpa using hf
          have hnil := hgoOn []
          rw [List.append_nil] at hnil
          rw [hnil]
          exact hsecond.short [] second rfl hne
        · obtain ⟨e, hpart, hcut⟩ := hfirst.short part undone hf hu
          exact ⟨e, by rw [hpart]; rfl, hcut⟩
  · intro input e hr hcut more
    rcases bind_eq_error.mp hr with hread | ⟨⟨a, middle⟩, hread, hnext⟩
    · rw [h.refuses hread hcut more]
      rfl
    · obtain ⟨first, rfl, hfirst⟩ := h.takes hread
      rw [List.append_assoc, hfirst.whole]
      exact (hn a).refuses hnext hcut more

/-- A read that begins with one byte. -/
theorem Streams.byte (hnil : ∃ e, read [] = .error e ∧ cut e)
    (hcons : ∀ b, Streams cut fun rest => read (b :: rest)) : Streams cut read := by
  obtain ⟨e, he, hcut⟩ := hnil
  constructor
  · intro input rest a hr
    cases input with
    | nil =>
      rw [he] at hr
      cases hr
    | cons b input =>
      obtain ⟨taken, rfl, hw, hs⟩ := (hcons b).takes hr
      refine ⟨b :: taken, rfl, hw, ?_⟩
      intro part lacking hp hne
      cases part with
      | nil => exact ⟨e, he, hcut⟩
      | cons c part =>
        obtain ⟨rfl, htail⟩ := List.cons.inj hp
        exact hs part lacking htail hne
  · intro input e' hr hcut' more
    cases input with
    | nil =>
      rw [he] at hr
      cases hr
      exact absurd hcut hcut'
    | cons b input => exact (hcons b).refuses hr hcut' more

end

theorem split?_eq_some {n : Nat} {bytes taken rest : Bytes}
    (h : split? n bytes = some (taken, rest)) : bytes = taken ++ rest ∧ taken.length = n := by
  induction n generalizing bytes taken with
  | zero =>
    cases h
    exact ⟨rfl, rfl⟩
  | succ n ih =>
    cases bytes with
    | nil => cases h
    | cons b bytes =>
      obtain ⟨⟨front, left⟩, hs, he⟩ := Option.map_eq_some_iff.mp h
      cases he
      obtain ⟨rfl, hl⟩ := ih hs
      exact ⟨rfl, by simp [hl]⟩

theorem take_eq_ok {n : Nat} {bytes taken rest : Bytes} (h : take n bytes = .ok (taken, rest)) :
    bytes = taken ++ rest ∧ taken.length = n := by
  unfold take at h
  cases hs : split? n bytes with
  | none => simp [hs] at h
  | some r =>
    simp only [hs, Except.ok.injEq] at h
    subst h
    exact split?_eq_some hs

theorem take_of_length_lt {n : Nat} {bytes : Bytes} (h : bytes.length < n) :
    take n bytes = .error (.unexpectedEnd n bytes.length) := by
  simp [take, split?_eq_none_iff.mpr h]

/-- Taking bytes is where reads end for want of input. All others are made from it. -/
theorem take_streams (n : Nat) : Streams DecodeError.IsTruncation (take n) := by
  have hends (bytes : Bytes) (h : bytes.length < n) :
      ∃ e, take n bytes = .error e ∧ e.IsTruncation :=
    ⟨_, take_of_length_lt h, .inl ⟨n, bytes.length, rfl⟩⟩
  constructor
  · intro input rest taken h
    obtain ⟨rfl, hl⟩ := take_eq_ok h
    refine ⟨taken, rfl, take_append hl, ?_⟩
    intro part lacking he hne
    apply hends
    have hpos := List.length_pos_iff.mpr hne
    rw [he, List.length_append] at hl
    omega
  · intro input e h hcut more
    -- A read of some number of bytes fails only if there are fewer.
    by_cases hlt : input.length < n
    · obtain ⟨e', he', hcut'⟩ := hends input hlt
      rw [he'] at h
      cases h
      exact absurd hcut' hcut
    · have hok := take_append (List.length_take_of_le (Nat.le_of_not_lt hlt)) (input.drop n)
      rw [List.take_append_drop] at hok
      rw [hok] at h
      cases h

theorem readUnsigned_streams (n : Nat) : Streams DecodeError.IsTruncation (readUnsigned n) :=
  (take_streams n).bind fun taken => streams_pure (bigEndian taken)

theorem readInt_streams (w : IntWidth) : Streams DecodeError.IsTruncation (readInt w) :=
  (readUnsigned_streams w.bytes).bind fun n => streams_pure (w.wrap n)

theorem readGroups_streams (left index : Nat) (acc : UInt32) :
    Streams VarintError.IsTruncation (readGroups left index acc) := by
  induction left generalizing index acc with
  | zero => exact streams_fail _
  | succ left ih =>
    apply Streams.byte ⟨.truncated index, rfl, trivial⟩
    intro b
    exact Streams.ite (fun _ => streams_fail _) fun _ =>
      Streams.ite (fun _ => streams_pure _) fun _ => ih _ _

theorem readUvarint_streams : Streams DecodeError.IsTruncation readUvarint := by
  apply (readGroups_streams maxVarintBytes 0 0).mapError
  intro e
  cases e <;> simp [DecodeError.IsTruncation, DecodeError.rootCause, VarintError.IsTruncation]

end Wire

namespace Decode

open Wire

theorem Halt.isTruncation_within (record field : String) (h : Halt) :
    (h.within record field).IsTruncation ↔ h.IsTruncation := by
  cases h <;> rfl

theorem lift_streams {α : Type} {read : Bytes → Except DecodeError (α × Bytes)}
    (h : Streams DecodeError.IsTruncation read) :
    Streams Halt.IsTruncation fun input => lift (read input) :=
  h.mapError fun _ => Iff.rfl

theorem readCompact_streams (ident : String) : Streams Halt.IsTruncation (readCompact ident) := by
  refine (lift_streams readUvarint_streams).bind fun n => ?_
  exact Streams.ite (fun _ => streams_fail _) fun _ => streams_pure _

theorem readString_streams (ident : String) : Streams Halt.IsTruncation (readString ident) := by
  refine (lift_streams (readUnsigned_streams 2)).bind fun length => ?_
  refine Streams.ite (fun _ => streams_fail _) fun _ => ?_
  refine Streams.ite (fun _ => streams_fail _) fun _ => ?_
  exact (lift_streams (take_streams length)).bind fun _ => streams_pure _

theorem readPrimitive_streams (ident : String) (kind : Primitive) :
    Streams Halt.IsTruncation (readPrimitive ident kind) := by
  cases kind with
  | int w => exact (lift_streams (readInt_streams w)).bind fun _ => streams_pure _
  | uuid => exact (lift_streams (take_streams 16)).bind fun _ => streams_pure _
  | string => exact readString_streams ident
  | bytes =>
    exact (readCompact_streams ident).bind fun length =>
      (lift_streams (take_streams length)).bind fun _ => streams_pure _

theorem readItems_streams {read : Reader Value} (hread : Streams Halt.IsTruncation read) (n : Nat)
    (done : List Value) : Streams Halt.IsTruncation (readItems read n done) := by
  induction n generalizing done with
  | zero => exact streams_pure _
  | succ n ih => exact hread.bind fun v => ih (v :: done)

theorem readField_streams {read : Reader Value} (hread : Streams Halt.IsTruncation read)
    (f : FieldPlan) : Streams Halt.IsTruncation (readField f read) := by
  unfold readField
  split
  · exact (readCompact_streams f.ident).bind fun n =>
      (readItems_streams hread n []).bind fun _ => streams_pure _
  · exact hread

/-- A field that is left out takes nothing, and must not fail. -/
theorem readFields_streams {version : Int} {read : FieldPlan → Reader Value}
    {fallback : FieldPlan → Except Halt Value} {fields : List FieldPlan}
    (hread : ∀ f ∈ fields, Streams Halt.IsTruncation (read f))
    (hz : ∀ f ∈ fields, ∃ v, fallback f = .ok v) :
    Streams Halt.IsTruncation (readFields version read fallback fields) := by
  induction fields with
  | nil => exact streams_pure _
  | cons f fs ih =>
    have hvalue : Streams Halt.IsTruncation (fieldValue version read fallback f) := by
      refine Streams.ite (fun _ => readField_streams (hread f List.mem_cons_self) f) fun _ => ?_
      obtain ⟨v, hv⟩ := hz f List.mem_cons_self
      simp only [hv]
      exact streams_pure v
    have hrest := ih (fun g hg => hread g (List.mem_cons_of_mem _ hg))
      (fun g hg => hz g (List.mem_cons_of_mem _ hg))
    have hcons : readFields version read fallback (f :: fs) = fun input =>
        fieldValue version read fallback f input >>= fun r =>
          readFields version read fallback fs r.2 >>= fun s =>
            .ok ((f.ident, r.1) :: s.1, s.2) := by
      funext input
      exact readFields_cons
    rw [hcons]
    refine hvalue.bind fun v => ?_
    dsimp only
    exact hrest.bind fun others => streams_pure ((f.ident, v) :: others)

/-- By induction on the fuel. A record that is missing or lies too deep halts the read whatever the
input holds. -/
theorem readRecord_streams {plan : UnitPlan} (h : plan.Sound) (version : Int) (fuel : Nat)
    {record : RecordPlan} (hr : record ∈ plan.records) (depth : Nat) :
    Streams Halt.IsTruncation (readRecord plan version fuel record depth) := by
  induction fuel generalizing record depth with
  | zero => exact streams_fail _
  | succ fuel ih =>
    have hread (f : FieldPlan) : Streams Halt.IsTruncation
        (readValue plan record depth (readRecord plan version fuel) f) := by
      cases hrule : f.rule with
      | primitive kind => simpa only [readValue, hrule] using readPrimitive_streams f.ident kind
      | record name decoder =>
        cases hf : plan.record? name with
        | none => simpa only [readValue, hrule, hf] using streams_fail _
        | some inner =>
          simpa only [readValue, hrule, hf] using
            (ih (mem_of_record? hf).1 _).mapError (Halt.isTruncation_within record.name f.ident)
    refine Streams.ite (fun _ => streams_fail _) fun _ => ?_
    exact (readFields_streams (fun f _ => hread f) (fun f => fallback_ok h hr)).bind
      fun _ => streams_pure _

/-- What a decoded record takes off the input is all it depends on. -/
theorem decodeRecord_takes {plan : UnitPlan} (h : plan.Sound) {record : RecordPlan}
    (hr : record ∈ plan.records) {version : Int} {input : Bytes} {v : Value} {n : Nat}
    (hd : decodeRecord plan record version input = .ok ⟨v, n⟩) :
    n ≤ input.length ∧
    (∀ more, decodeRecord plan record version (input.take n ++ more) = .ok ⟨v, n⟩) ∧
    ∀ part lacking, input.take n = part ++ lacking → lacking ≠ [] →
      ∃ e, decodeRecord plan record version part = .error (.failure e) ∧ e.IsTruncation := by
  have hstreams := readRecord_streams h version (recordFuel plan) hr 0
  obtain ⟨⟨v', rest⟩, hread, he⟩ := bind_eq_ok.mp hd
  obtain ⟨taken, rfl, hw, hs⟩ := hstreams.takes hread
  obtain ⟨rfl, rfl⟩ : v' = v ∧ taken.length = n := by simpa using he
  refine ⟨by simp, ?_, ?_⟩
  · intro more
    simp [decodeRecord, hw more]
  · intro part lacking hp hne
    rw [List.take_left] at hp
    obtain ⟨e, hpart, hcut⟩ := hs part lacking hp hne
    cases e with
    | failure e => exact ⟨e, by simp [decodeRecord, hpart], hcut⟩
    | missingRecord name => exact absurd hcut id
    | outOfFuel => exact absurd hcut id

/-- Decoding takes the bytes of a record off the front of the input. What follows them changes
nothing, fewer of them are reported as truncated, no bytes of a record begin those of another, and
any other failure stays however the input goes on. -/
theorem decodeRecord_streaming {m : Message} {plan : UnitPlan} (h : UnitPlan.build m = .ok plan)
    {record : RecordPlan} (hr : record ∈ plan.records) (version : Int) (d : Bytes) :
    (∀ v n, decodeRecord plan record version d = .ok ⟨v, n⟩ →
      n ≤ d.length ∧
      (∀ t, decodeRecord plan record version (d ++ t) = .ok ⟨v, n⟩) ∧
      (∀ p, p <+: d.take n → p ≠ d.take n →
        ∃ e, decodeRecord plan record version p = .error (.failure e) ∧ e.IsTruncation) ∧
      ∀ d' v' n', decodeRecord plan record version d' = .ok ⟨v', n'⟩ →
        d.take n <+: d'.take n' → d.take n = d'.take n') ∧
    ∀ e, decodeRecord plan record version d = .error (.failure e) → ¬ e.IsTruncation →
      ∀ t, decodeRecord plan record version (d ++ t) = .error (.failure e) := by
  have hsound := UnitPlan.build_sound h
  constructor
  · intro v n hd
    obtain ⟨hle, hwhole, hshort⟩ := decodeRecord_takes hsound hr hd
    refine ⟨hle, ?_, ?_, ?_⟩
    · intro t
      have ht := hwhole (d.drop n ++ t)
      rwa [← List.append_assoc, List.take_append_drop] at ht
    · intro p hp hne
      obtain ⟨lacking, he⟩ := hp
      exact hshort p lacking he.symm fun hl => hne (by simpa [hl] using he)
    · intro d' v' n' hd' hp
      by_contra hne
      obtain ⟨lacking, he⟩ := hp
      obtain ⟨_, _, hshort'⟩ := decodeRecord_takes hsound hr hd'
      obtain ⟨e, hpart, _⟩ := hshort' (d.take n) lacking he.symm fun hl =>
        hne (by simpa [hl] using he)
      have hself := hwhole []
      rw [List.append_nil, hpart] at hself
      cases hself
  · intro e hd hcut t
    have hstreams := readRecord_streams hsound version (recordFuel plan) hr 0
    rcases bind_eq_error.mp hd with hread | ⟨r, _, he⟩
    · have hmore := hstreams.refuses hread hcut t
      simp [decodeRecord, hmore]
    · cases he

set_option maxRecDepth 1024 in
/-- A node without children takes two bytes, and one of them is too few. -/
theorem decodeRecord_streaming_leaf :
    UnitPlan.build Samples.treeResponse = .ok Samples.treePlan ∧
      Samples.node ∈ Samples.treePlan.records ∧
      (∀ t, decodeRecord Samples.treePlan Samples.node 0 ([7, 1] ++ t) =
        .ok ⟨.record [("Value", .int .w8 7), ("Children", .array [])], 2⟩) ∧
      (∃ e, decodeRecord Samples.treePlan Samples.node 0 [7] = .error (.failure e) ∧
        e.IsTruncation) ∧
      ∀ t, decodeRecord Samples.treePlan Samples.node 0 ([7, 0] ++ t) =
        .error (.failure (.unexpectedNull "Children")) := by
  have hm : Samples.node ∈ Samples.treePlan.records := by simp [Samples.treePlan]
  have hleaf : decodeRecord Samples.treePlan Samples.node 0 [7, 1] =
      .ok ⟨.record [("Value", .int .w8 7), ("Children", .array [])], 2⟩ := by rfl
  have hnull : decodeRecord Samples.treePlan Samples.node 0 [7, 0] =
      .error (.failure (.unexpectedNull "Children")) := by rfl
  obtain ⟨_, hwhole, hshort, _⟩ :=
    (decodeRecord_streaming Samples.build_treeResponse hm 0 [7, 1]).1 _ _ hleaf
  refine ⟨Samples.build_treeResponse, hm, hwhole, hshort [7] ⟨[1], rfl⟩ (by simp), ?_⟩
  apply (decodeRecord_streaming Samples.build_treeResponse hm 0 [7, 0]).2 _ hnull
  simp [DecodeError.IsTruncation, DecodeError.rootCause]

end Decode

end WireSchema

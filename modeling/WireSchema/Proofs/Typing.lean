import WireSchema.Proofs.RoundTrip
import WireSchema.Proofs.Streaming

/-!
Decoded values have the types of their fields, whether they were read, taken from a default or
filled with zeros. What one read can give is told read by read; a record inside a decoded one was
read in its turn.
-/

namespace WireSchema

open Relation

theorem IntWidth.wrap_bounds (w : IntWidth) (v : Int) :
    w.least ≤ w.wrap v ∧ w.wrap v ≤ w.greatest := by
  have hpos : 0 < w.modulus := by cases w <;> decide
  have hl := Int.le_bmod hpos (x := v)
  have hg := Int.bmod_lt hpos (x := v)
  simp only [wrap, least, greatest]
  cases w <;> simp only [modulus] at * <;> omega

inductive HasType (plan : UnitPlan) : (isArray : Bool) → Rule → Value → Prop
  | int {w : IntWidth} {v : Int} (least : w.least ≤ v) (greatest : v ≤ w.greatest) :
      HasType plan false (.primitive (.int w)) (.int w v)
  | uuid {bytes : Bytes} (length : bytes.length = 16) :
      HasType plan false (.primitive .uuid) (.uuid bytes)
  | string {s : String} : HasType plan false (.primitive .string) (.string s)
  | bytes {bytes : Bytes} : HasType plan false (.primitive .bytes) (.bytes bytes)
  | array {rule : Rule} {vs : List Value} (items : ∀ v ∈ vs, HasType plan false rule v) :
      HasType plan true rule (.array vs)
  | record {name decoder : String} {r : RecordPlan} {ms : List (String × Value)}
      (found : plan.record? name = some r)
      (names : ms.map Prod.fst = r.fields.map FieldPlan.ident)
      (members : ∀ p ∈ r.fields.zip ms, HasType plan p.1.isArray p.1.rule p.2.2) :
      HasType plan false (.record name decoder) (.record ms)

namespace Decode

open Wire

def CanGive (read : Reader Value) (v : Value) : Prop := ∃ input rest, read input = .ok (v, rest)

theorem lift_eq_ok {α : Type} {r : Except DecodeError α} {a : α} : lift r = .ok a ↔ r = .ok a :=
  mapError_eq_ok

/-- A primitive gives values of its own type alone. -/
theorem readPrimitive_hasType {plan : UnitPlan} {ident : String} {kind : Primitive} {v : Value}
    (h : CanGive (readPrimitive ident kind) v) : HasType plan false (.primitive kind) v := by
  obtain ⟨input, rest, h⟩ := h
  cases kind with
  | int w =>
    obtain ⟨r, hread, he⟩ := bind_eq_ok.mp h
    obtain ⟨n, _, hn⟩ := bind_eq_ok.mp (lift_eq_ok.mp hread)
    cases hn
    cases he
    obtain ⟨hl, hg⟩ := w.wrap_bounds n.1
    exact .int hl hg
  | uuid =>
    obtain ⟨r, hread, he⟩ := bind_eq_ok.mp h
    cases he
    exact .uuid (take_eq_ok (lift_eq_ok.mp hread)).2
  | string =>
    obtain ⟨r, _, h⟩ := bind_eq_ok.mp h
    dsimp only at h
    split at h
    · cases h
    · split at h
      · cases h
      · obtain ⟨_, _, he⟩ := bind_eq_ok.mp h
        cases he
        exact .string
  | bytes =>
    obtain ⟨r, _, h⟩ := bind_eq_ok.mp h
    obtain ⟨_, _, he⟩ := bind_eq_ok.mp h
    cases he
    exact .bytes

theorem readItems_canGive {read : Reader Value} {n : Nat} {done vs : List Value}
    {input rest : Bytes} (h : readItems read n done input = .ok (vs, rest))
    (hdone : ∀ v ∈ done, CanGive read v) : ∀ v ∈ vs, CanGive read v := by
  induction n generalizing done input with
  | zero =>
    cases h
    intro v hv
    exact hdone v (List.mem_reverse.mp hv)
  | succ n ih =>
    obtain ⟨⟨v, left⟩, hv, h⟩ := bind_eq_ok.mp h
    apply ih h
    intro u hu
    rcases List.mem_cons.mp hu with rfl | hu
    · exact ⟨input, left, hv⟩
    · exact hdone u hu

/-- Each value in a field was read. -/
theorem readField_canGive {f : FieldPlan} {read : Reader Value} {v : Value}
    (h : CanGive (readField f read) v) :
    (f.isArray = true → ∃ vs, v = .array vs) ∧ ∀ u ∈ f.values v, CanGive read u := by
  obtain ⟨input, rest, h⟩ := h
  unfold readField at h
  cases ha : f.isArray with
  | false =>
    simp only [ha, Bool.false_eq_true, if_false] at h
    refine ⟨by simp, ?_⟩
    intro u hu
    obtain rfl : u = v := by simpa [FieldPlan.values, ha] using hu
    exact ⟨input, rest, h⟩
  | true =>
    simp only [ha, if_true] at h
    obtain ⟨count, _, h⟩ := bind_eq_ok.mp h
    obtain ⟨⟨vs, left⟩, hitems, he⟩ := bind_eq_ok.mp h
    cases he
    refine ⟨fun _ => ⟨vs, rfl⟩, ?_⟩
    intro u hu
    apply readItems_canGive hitems (by simp)
    simpa [FieldPlan.values, ha, Value.items?] using hu

/-- A field that is present was read, and one that is absent has its fallback. -/
theorem fieldValue_canGive {version : Int} {read : FieldPlan → Reader Value}
    {fallback : FieldPlan → Except Halt Value} {f : FieldPlan} {v : Value}
    (h : CanGive (fieldValue version read fallback f) v) :
    (f.isPresent version = true → CanGive (readField f (read f)) v) ∧
      (f.isPresent version = false → fallback f = .ok v) := by
  obtain ⟨input, rest, h⟩ := h
  unfold fieldValue at h
  cases hp : f.isPresent version with
  | true =>
    simp only [hp, if_true] at h
    exact ⟨fun _ => ⟨input, rest, h⟩, by simp⟩
  | false =>
    simp only [hp, Bool.false_eq_true, if_false] at h
    refine ⟨by simp, fun _ => ?_⟩
    cases hf : fallback f with
    | error e => simp [hf, Except.map] at h
    | ok u =>
      obtain ⟨rfl, _⟩ : u = v ∧ input = rest := by simpa [hf, Except.map] using h
      rfl

def IsMember (version : Int) (read : FieldPlan → Reader Value)
    (fallback : FieldPlan → Except Halt Value) (f : FieldPlan) (member : String × Value) : Prop :=
  member.1 = f.ident ∧ CanGive (fieldValue version read fallback f) member.2

/-- The members that are read have the names of the fields, in order, each with a value that its
field can have. -/
theorem readFields_members {version : Int} {read : FieldPlan → Reader Value}
    {fallback : FieldPlan → Except Halt Value} {fields : List FieldPlan}
    {ms : List (String × Value)} {input rest : Bytes}
    (h : readFields version read fallback fields input = .ok (ms, rest)) :
    List.Forall₂ (IsMember version read fallback) fields ms := by
  induction fields generalizing ms input with
  | nil =>
    cases h
    exact .nil
  | cons f fs ih =>
    rw [readFields_cons] at h
    obtain ⟨⟨v, left⟩, hv, h⟩ := bind_eq_ok.mp h
    obtain ⟨⟨others, left'⟩, hothers, he⟩ := bind_eq_ok.mp h
    cases he
    exact .cons ⟨rfl, input, left, hv⟩ (ih hothers)

/-- A record that was read has its members read with one less of the fuel. -/
theorem readRecord_members {plan : UnitPlan} {version : Int} {fuel : Nat} {record : RecordPlan}
    {depth : Nat} {v : Value} (h : CanGive (readRecord plan version fuel record depth) v) :
    ∃ less ms, fuel = less + 1 ∧ v = .record ms ∧
      List.Forall₂ (IsMember version (readValue plan record depth (readRecord plan version less))
        (fallback plan)) record.fields ms := by
  obtain ⟨input, rest, h⟩ := h
  cases fuel with
  | zero => cases h
  | succ less =>
    simp only [readRecord] at h
    split at h
    · cases h
    · obtain ⟨⟨ms, left⟩, hfields, he⟩ := bind_eq_ok.mp h
      cases he
      exact ⟨less, ms, rfl, rfl, readFields_members hfields⟩

theorem readValue_canGive {plan : UnitPlan} {record : RecordPlan} {depth : Nat}
    {nested : RecordPlan → Nat → Reader Value} {f : FieldPlan} {v : Value}
    (h : CanGive (readValue plan record depth nested f) v) :
    (∃ kind, f.rule = .primitive kind ∧ CanGive (readPrimitive f.ident kind) v) ∨
      ∃ decoder inner, f.rule = .record inner.name decoder ∧
        plan.record? inner.name = some inner ∧
        CanGive (nested inner (nestedDepth record inner depth)) v := by
  obtain ⟨input, rest, h⟩ := h
  cases hrule : f.rule with
  | primitive kind =>
    simp only [readValue, hrule] at h
    exact .inl ⟨kind, rfl, input, rest, h⟩
  | record name decoder =>
    cases hi : plan.record? name with
    | none => simp [readValue, hrule, hi] at h
    | some inner =>
      obtain ⟨_, rfl⟩ := mem_of_record? hi
      simp only [readValue, hrule, hi] at h
      exact .inr ⟨decoder, inner, rfl, hi, input, rest, mapError_eq_ok.mp h⟩

theorem zeroOf_primitive_hasType {plan : UnitPlan} {fuel : Nat} {kind : Primitive} {v : Value}
    (h : zeroOf plan fuel (.primitive kind) = .ok v) : HasType plan false (.primitive kind) v := by
  cases kind with
  | int w =>
    obtain rfl : .int w 0 = v := by simpa [zeroOf] using h
    exact .int (by cases w <;> decide) (by cases w <;> decide)
  | string =>
    obtain rfl : .string "" = v := by simpa [zeroOf] using h
    exact .string
  | bytes =>
    obtain rfl : .bytes [] = v := by simpa [zeroOf] using h
    exact .bytes
  | uuid =>
    obtain rfl : .uuid (List.replicate 16 0) = v := by simpa [zeroOf] using h
    exact .uuid (by simp)

/-- A zero value has the type that it is the zero value of. -/
theorem zeroOf_hasType {plan : UnitPlan} {fuel : Nat} {rule : Rule} {v : Value}
    (h : zeroOf plan fuel rule = .ok v) : HasType plan false rule v := by
  induction fuel generalizing rule v with
  | zero =>
    cases rule with
    | primitive kind => exact zeroOf_primitive_hasType h
    | record name decoder => cases h
  | succ fuel ih =>
    cases rule with
    | primitive kind => exact zeroOf_primitive_hasType h
    | record name decoder =>
      cases hr : plan.record? name with
      | none => simp [zeroOf, hr] at h
      | some r =>
        rw [zeroOf_record hr] at h
        obtain ⟨ms, hms, he⟩ := bind_eq_ok.mp h
        cases he
        have hmembers := mapM_eq_ok.mp hms
        refine .record hr (map_eq_map_of_forall₂ hmembers ?_) ?_
        · intro f member hm
          obtain ⟨_, _, he⟩ := bind_eq_ok.mp hm
          cases he
          rfl
        · intro p hp
          obtain ⟨u, hu, he⟩ := bind_eq_ok.mp ((List.forall₂_iff_zip.mp hmembers).2 hp)
          have hv : u = p.2.2 := congrArg Prod.snd (Except.ok.inj he)
          rw [← hv]
          unfold zeroMember at hu
          cases ha : p.1.isArray with
          | true =>
            obtain rfl : .array [] = u := by simpa [ha] using hu
            exact .array (by simp)
          | false =>
            simp only [ha, Bool.false_eq_true, if_false] at hu
            exact ih hu

/-- A default that fits has the type of its field, and so has the zero value in its place. -/
theorem fallback_hasType {plan : UnitPlan} {f : FieldPlan} {v : Value} (hd : f.DefaultFits)
    (h : fallback plan f = .ok v) : HasType plan f.isArray f.rule v := by
  unfold FieldPlan.DefaultFits at hd
  unfold fallback at h
  cases hdef : f.default with
  | absent =>
    simp only [hdef] at h
    cases ha : f.isArray with
    | true =>
      obtain rfl : .array [] = v := by simpa [ha] using h
      exact .array (by simp)
    | false =>
      simp only [ha, Bool.false_eq_true, if_false] at h
      exact zeroOf_hasType h
  | string s =>
    simp only [hdef] at hd h
    cases h
    rw [hd.1, hd.2]
    exact .string
  | int k =>
    simp only [hdef] at hd h
    obtain ⟨ha, w, hr, hl, hg⟩ := hd
    rw [intValue_of_fits hr hl hg] at h
    cases h
    rw [ha, hr]
    exact .int hl hg

/-- A record that was read has its type. -/
theorem readRecord_hasType {plan : UnitPlan} (h : plan.Sound) {version : Int} {fuel : Nat}
    {record : RecordPlan} (hr : record ∈ plan.records) {depth : Nat} {v : Value}
    (hv : CanGive (readRecord plan version fuel record depth) v) (decoder : String) :
    HasType plan false (.record record.name decoder) v := by
  induction fuel generalizing record depth v decoder with
  | zero =>
    obtain ⟨_, _, hv⟩ := hv
    cases hv
  | succ fuel ih =>
    obtain ⟨less, ms, hless, rfl, hms⟩ := readRecord_members hv
    obtain rfl : fuel = less := Nat.succ.inj hless
    refine .record (h.record?_of_mem hr) (map_eq_map_of_forall₂ hms fun _ _ hm => hm.1) ?_
    intro p hp
    obtain ⟨_, hvalue⟩ := (List.forall₂_iff_zip.mp hms).2 hp
    obtain ⟨hpresent, habsent⟩ := fieldValue_canGive hvalue
    cases hf : p.1.isPresent version with
    | false => exact fallback_hasType (h.defaults record hr p.1 (List.of_mem_zip hp).1) (habsent hf)
    | true =>
      obtain ⟨harray, hitems⟩ := readField_canGive (hpresent hf)
      have htyped : ∀ u ∈ p.1.values p.2.2, HasType plan false p.1.rule u := by
        intro u hu
        rcases readValue_canGive (hitems u hu) with ⟨kind, hk, hu⟩ | ⟨name, inner, hi, hfound, hu⟩
        · rw [hk]
          exact readPrimitive_hasType hu
        · rw [hi]
          exact ih (mem_of_record? hfound).1 hu name
      cases ha : p.1.isArray with
      | false => exact htyped p.2.2 (by simp [FieldPlan.values, ha])
      | true =>
        obtain ⟨vs, hvs⟩ := harray ha
        rw [hvs] at htyped ⊢
        simp only [FieldPlan.values, ha, if_true, Value.items?, Option.getD_some] at htyped
        exact .array htyped

structure WasRead (plan : UnitPlan) (version : Int) (c : RecordPlan × Value) : Prop where
  mem : c.1 ∈ plan.records
  read : ∃ fuel depth, CanGive (readRecord plan version fuel c.1 depth) c.2

/-- What lies in a record that was read, through fields that are present, was read as well. -/
theorem WasRead.inside {plan : UnitPlan} {version : Int} {outer inner : RecordPlan × Value}
    (h : WasRead plan version outer) (hi : Inside plan version outer inner) :
    WasRead plan version inner := by
  obtain ⟨fuel, depth, hread⟩ := h.read
  obtain ⟨less, ms, _, houter, hms⟩ := readRecord_members hread
  obtain ⟨ms', hms', p, hp, hpresent, htarget, hmem⟩ := hi.field
  obtain rfl : ms' = ms := Value.record.inj (hms'.symm.trans houter)
  obtain ⟨_, hvalue⟩ := (List.forall₂_iff_zip.mp hms).2 hp
  have hitem := (readField_canGive ((fieldValue_canGive hvalue).1 hpresent)).2 inner.2 hmem
  rcases readValue_canGive hitem with ⟨kind, hk, _⟩ | ⟨decoder, r, hrule, hfound, hr⟩
  · simp [hk, Rule.target?] at htarget
  · obtain hname : r.name = inner.1.name := by simpa [hrule, Rule.target?] using htarget
    rw [hname, hi.found] at hfound
    obtain rfl : inner.1 = r := Option.some.inj hfound
    exact ⟨(mem_of_record? hi.found).1, less, _, hr⟩

/-- Records inside one that was read were read too, at any depth. -/
theorem WasRead.all_inside {plan : UnitPlan} {version : Int} {outer inner : RecordPlan × Value}
    (h : WasRead plan version outer) (hi : ReflTransGen (Inside plan version) outer inner) :
    WasRead plan version inner := by
  induction hi with
  | refl => exact h
  | tail _ hstep ih => exact ih.inside hstep

/-- An integer default belongs to an integer field that is wide enough to keep it as it is. -/
theorem intDefault_kept {f : FieldPlan} (hd : f.DefaultFits) {k : Int} (hk : f.default = .int k) :
    ∃ w : IntWidth, f.rule = .primitive (.int w) ∧ w.wrap k = k ∧ intValue f.rule k = .int w k := by
  simp only [FieldPlan.DefaultFits, hk] at hd
  obtain ⟨_, w, hr, hl, hg⟩ := hd
  have hholds : w.holds k = true := by simp [IntWidth.holds, hl, hg]
  exact ⟨w, hr, IntWidth.wrap_of_holds hholds, intValue_of_fits hr hl hg⟩

theorem WasRead.intDefault {plan : UnitPlan} (h : plan.Sound) {version : Int} {record : RecordPlan}
    {ms : List (String × Value)} (hr : WasRead plan version (record, .record ms))
    {p : FieldPlan × String × Value} (hp : p ∈ record.fields.zip ms)
    (hf : p.1.isPresent version = false) {k : Int} (hk : p.1.default = .int k) :
    ∃ w : IntWidth, p.1.rule = .primitive (.int w) ∧ p.2.2 = .int w k := by
  obtain ⟨fuel, depth, hread⟩ := hr.read
  obtain ⟨less, ms', _, he, hms⟩ := readRecord_members hread
  obtain rfl : ms = ms' := Value.record.inj he
  obtain ⟨_, hvalue⟩ := (List.forall₂_iff_zip.mp hms).2 hp
  have hfall := (fieldValue_canGive hvalue).2 hf
  obtain ⟨w, hw, _, hkept⟩ :=
    intDefault_kept (h.defaults record hr.mem p.1 (List.of_mem_zip hp).1) hk
  simp only [fallback, hk, hkept, Except.ok.injEq] at hfall
  exact ⟨w, hw, hfall.symm⟩

end Decode

namespace UnitPlan

/-- The fields of a record are planned one by one from those declared for it. -/
theorem build_declared {m : Message} {plan : UnitPlan} (h : build m = .ok plan) {r : RecordPlan}
    (hr : r ∈ plan.records) :
    ∃ d ∈ Catalogue.declared m, d.name = r.name ∧
      List.Forall₂ (Field.HasPlan m) d.fields r.fields := by
  obtain ⟨d, hd, hplan⟩ := build_hasPlan h hr
  exact ⟨d, hd, hplan.name.symm, hplan.fields⟩

end UnitPlan

namespace Samples

def defaultsRecord : RecordPlan where
  name := "DefaultsRequest"
  decoder := "ReadDefaultsRequest"
  origin := .message
  depthDecoder := none
  versions := none
  fields :=
    [⟨"y", "Y", false, .primitive .string, some (.exact 1), .string "abc",
      some "Only on the wire in version 1."⟩,
     ⟨"n", "N", false, .primitive (.int .w16), some (.minimum 2), .int (-7), none⟩,
     ⟨"window", "Window", false, .primitive (.int .w64), some (.range 1 2), .absent, none⟩,
     ⟨"tail", "Tail", false, .primitive (.int .w8), some (.minimum 0), .absent, none⟩]

def defaultsPlan : UnitPlan where
  messageName := "DefaultsRequest"
  category := "request"
  records := [defaultsRecord]
  facilities := ⟨true, true, false⟩

theorem build_defaultsRequest : UnitPlan.build defaultsRequest = .ok defaultsPlan := by rfl

end Samples

namespace Decode

/-- A decoded value is a record with the fields of its plan, in order, and each value in it has the
type that is declared for its field. Where a record inside it leaves out a field, an integer default
stands there as the schema has it: no width of an integer field changes its default. -/
theorem decodeRecord_hasType {m : Message} {plan : UnitPlan} (h : UnitPlan.build m = .ok plan)
    {record : RecordPlan} (hr : record ∈ plan.records) {version : Int} {input : Bytes} {v : Value}
    {n : Nat} (hd : decodeRecord plan record version input = .ok ⟨v, n⟩) :
    (∃ ms, v = .record ms ∧ ms.map Prod.fst = record.fields.map FieldPlan.ident) ∧
    HasType plan false (.record record.name record.decoder) v ∧
    (∀ inner ms, ReflTransGen (Inside plan version) (record, v) (inner, .record ms) →
      ∀ p ∈ inner.fields.zip ms, p.1.isPresent version = false → ∀ k, p.1.default = .int k →
        ∃ w : IntWidth, p.1.rule = .primitive (.int w) ∧ p.2.2 = .int w k) ∧
    ∀ r ∈ plan.records,
      (∃ d ∈ Catalogue.declared m, d.name = r.name ∧
        List.Forall₂ (Field.HasPlan m) d.fields r.fields) ∧
      ∀ f ∈ r.fields, ∀ k, f.default = .int k → ∃ w : IntWidth,
        f.rule = .primitive (.int w) ∧ w.wrap k = k ∧ intValue f.rule k = .int w k := by
  have hsound := UnitPlan.build_sound h
  obtain ⟨⟨v', rest⟩, hread, he⟩ := bind_eq_ok.mp hd
  obtain ⟨rfl, _⟩ : v' = v ∧ input.length - rest.length = n := by simpa using he
  have hgives : CanGive (readRecord plan version (recordFuel plan) record 0) v' :=
    ⟨input, rest, hread⟩
  refine ⟨?_, readRecord_hasType hsound hr hgives record.decoder, ?_, ?_⟩
  · obtain ⟨less, ms, _, rfl, hms⟩ := readRecord_members hgives
    exact ⟨ms, rfl, map_eq_map_of_forall₂ hms fun _ _ hm => hm.1⟩
  · intro inner ms hi p hp hf k hk
    have hstart : WasRead plan version (record, v') := ⟨hr, recordFuel plan, 0, hgives⟩
    exact (hstart.all_inside hi).intDefault hsound hp hf hk
  · intro r hm
    refine ⟨UnitPlan.build_declared h hm, ?_⟩
    intro f hf k hk
    exact intDefault_kept (hsound.defaults r hm f hf) hk

set_option maxRecDepth 1024 in
/-- In version 0 only the last field is on the wire. -/
theorem decodeRecord_hasType_defaults :
    UnitPlan.build Samples.defaultsRequest = .ok Samples.defaultsPlan ∧
      Samples.defaultsRecord ∈ Samples.defaultsPlan.records ∧
      decodeRecord Samples.defaultsPlan Samples.defaultsRecord 0 [255] =
        .ok ⟨.record [("Y", .string "abc"), ("N", .int .w16 (-7)), ("Window", .int .w64 0),
          ("Tail", .int .w8 (-1))], 1⟩ ∧
      HasType Samples.defaultsPlan false (.record "DefaultsRequest" "ReadDefaultsRequest")
        (.record [("Y", .string "abc"), ("N", .int .w16 (-7)), ("Window", .int .w64 0),
          ("Tail", .int .w8 (-1))]) := by
  have hm : Samples.defaultsRecord ∈ Samples.defaultsPlan.records := by simp [Samples.defaultsPlan]
  have hd : decodeRecord Samples.defaultsPlan Samples.defaultsRecord 0 [255] =
      .ok ⟨.record [("Y", .string "abc"), ("N", .int .w16 (-7)), ("Window", .int .w64 0),
        ("Tail", .int .w8 (-1))], 1⟩ := by rfl
  exact ⟨Samples.build_defaultsRequest, hm, hd,
    (decodeRecord_hasType Samples.build_defaultsRequest hm hd).2.1⟩

end Decode

end WireSchema

import WireSchema.Proofs.Encoding
import WireSchema.Proofs.Nesting

/-!
Decoding inverts the wire format: a value that a record can have in a version is written, and read
back with the bytes after it untouched.
-/

namespace WireSchema

namespace Encode

open Wire

mutual

/-- The bytes of a value. Rules tell which fields a record has, and so which are on the wire. -/
def value (plan : UnitPlan) (version : Int) (rule : Rule) : Value → Bytes
  | .int w v => writeInt w v
  | .uuid bytes => bytes
  | .string s => writeString s
  | .bytes bytes => writeUvarint (bytes.length + 1) ++ bytes
  | .array vs => writeUvarint (vs.length + 1) ++ items plan version rule vs
  | .record ms =>
    match rule.target?.bind plan.record? with
    | some r => members plan version r.fields ms
    | none => []

def items (plan : UnitPlan) (version : Int) (rule : Rule) : List Value → Bytes
  | [] => []
  | v :: vs => value plan version rule v ++ items plan version rule vs

/-- The bytes of the members of a record, in the order of its fields. Those that are absent in the
version have none. -/
def members (plan : UnitPlan) (version : Int) :
    List FieldPlan → List (String × Value) → Bytes
  | f :: fs, (_, v) :: ms =>
    (if f.isPresent version then value plan version f.rule v else []) ++
      members plan version fs ms
  | _, _ => []

end

end Encode

/-- The zero value of a field: zero, empty, or a record of such values. -/
inductive IsZero (plan : UnitPlan) : (isArray : Bool) → Rule → Value → Prop
  | array {rule : Rule} : IsZero plan true rule (.array [])
  | int {w : IntWidth} : IsZero plan false (.primitive (.int w)) (.int w 0)
  | uuid : IsZero plan false (.primitive .uuid) (.uuid (List.replicate 16 0))
  | string : IsZero plan false (.primitive .string) (.string "")
  | bytes : IsZero plan false (.primitive .bytes) (.bytes [])
  | record {name decoder : String} {r : RecordPlan} {ms : List (String × Value)}
      (found : plan.record? name = some r)
      (names : ms.map Prod.fst = r.fields.map FieldPlan.ident)
      (zeros : ∀ p ∈ r.fields.zip ms, IsZero plan p.1.isArray p.1.rule p.2.2) :
      IsZero plan false (.record name decoder) (.record ms)

theorem IsZero.eq_of_isArray {plan : UnitPlan} {rule : Rule} {v : Value}
    (h : IsZero plan true rule v) : v = .array [] := by
  cases h
  rfl

/-- The value of a field in a version that leaves it out: its default, or else its zero value. -/
def IsLeftOut (plan : UnitPlan) (f : FieldPlan) (v : Value) : Prop :=
  match f.default with
  | .string s => v = .string s
  | .int n => ∃ w : IntWidth, f.rule = .primitive (.int w) ∧ v = .int w n
  | .absent => IsZero plan f.isArray f.rule v

/-- The values that a field can have in a version. -/
inductive Conforms (plan : UnitPlan) (version : Int) : (isArray : Bool) → Rule → Value → Prop
  | int {w : IntWidth} {v : Int} (least : w.least ≤ v) (greatest : v ≤ w.greatest) :
      Conforms plan version false (.primitive (.int w)) (.int w v)
  | uuid {bytes : Bytes} (length : bytes.length = 16) :
      Conforms plan version false (.primitive .uuid) (.uuid bytes)
  | string {s : String} (length : (Text.encode s.toList).length ≤ 32767) :
      Conforms plan version false (.primitive .string) (.string s)
  | bytes {bytes : Bytes} (length : bytes.length ≤ 2 ^ 32 - 2) :
      Conforms plan version false (.primitive .bytes) (.bytes bytes)
  | array {rule : Rule} {vs : List Value} (length : vs.length ≤ 2 ^ 32 - 2)
      (items : ∀ v ∈ vs, Conforms plan version false rule v) :
      Conforms plan version true rule (.array vs)
  | record {name decoder : String} {r : RecordPlan} {ms : List (String × Value)}
      (found : plan.record? name = some r)
      (names : ms.map Prod.fst = r.fields.map FieldPlan.ident)
      (present : ∀ p ∈ r.fields.zip ms, p.1.isPresent version = true →
        Conforms plan version p.1.isArray p.1.rule p.2.2)
      (absent : ∀ p ∈ r.fields.zip ms, p.1.isPresent version = false →
        IsLeftOut plan p.1 p.2.2) :
      Conforms plan version false (.record name decoder) (.record ms)

def FieldPlan.values (f : FieldPlan) (v : Value) : List Value :=
  if f.isArray then v.items?.getD [] else [v]

theorem Conforms.of_mem_values {plan : UnitPlan} {version : Int} {f : FieldPlan} {v u : Value}
    (h : Conforms plan version f.isArray f.rule v) (hu : u ∈ f.values v) :
    Conforms plan version false f.rule u := by
  unfold FieldPlan.values at hu
  cases ha : f.isArray with
  | false =>
    simp only [ha, Bool.false_eq_true, if_false, List.mem_singleton] at hu
    rw [hu, ← ha]
    exact h
  | true =>
    rw [ha] at h hu
    cases h with
    | array _ hitems => exact hitems u hu

/-- A record value that lies in another through a field that is present. -/
structure Inside (plan : UnitPlan) (version : Int) (outer inner : RecordPlan × Value) : Prop where
  found : plan.record? inner.1.name = some inner.1
  field : ∃ ms, outer.2 = .record ms ∧ ∃ p ∈ outer.1.fields.zip ms,
    p.1.isPresent version = true ∧ p.1.rule.target? = some inner.1.name ∧
      inner.2 ∈ p.1.values p.2.2

/-- Along every path of record values inside each other, records that count levels follow each
other at most 64 times. -/
def RunsBounded (plan : UnitPlan) (version : Int) (start : RecordPlan × Value) : Prop :=
  ∀ path, (start :: path).IsChain (Inside plan version) →
    ∀ run, run <:+: start :: path → (∀ p ∈ run, p.1.depthDecoder.isSome = true) →
      run.length ≤ 64

/-- A bound on the paths through a value bounds those through what lies in it. -/
theorem RunsBounded.inside {plan : UnitPlan} {version : Int} {outer inner : RecordPlan × Value}
    (h : RunsBounded plan version outer) (hi : Inside plan version outer inner) :
    RunsBounded plan version inner := by
  intro path hpath run hrun hm
  exact h (inner :: path) (List.isChain_cons_cons.mpr ⟨hi, hpath⟩) run
    (hrun.trans (List.suffix_cons outer (inner :: path)).isInfix) hm

namespace Decode

open Wire

def Gives {α : Type} (x : Except Halt α) (a : α) : Prop := x = .error .outOfFuel ∨ x = .ok a

theorem gives_ok {α : Type} (a : α) : Gives (.ok a) a := .inr rfl

theorem Gives.bind {α β : Type} {x : Except Halt α} {f : α → Except Halt β} {a : α} {b : β}
    (hx : Gives x a) (hf : Gives (f a) b) : Gives (x >>= f) b := by
  rcases hx with rfl | rfl
  · exact .inl rfl
  · exact hf

theorem Gives.within {α : Type} {x : Except Halt α} {a : α} (hx : Gives x a)
    (record field : String) : Gives (x.mapError (Halt.within record field)) a := by
  rcases hx with rfl | rfl
  · exact .inl rfl
  · exact .inr rfl

theorem readCompact_writeUvarint {n : Nat} (h : n ≤ 2 ^ 32 - 2) (ident : String) (rest : Bytes) :
    readCompact ident (writeUvarint (n + 1) ++ rest) = .ok (n, rest) := by
  obtain ⟨count, hcount, hread⟩ := readUvarint_writeUvarint (n := n + 1) (by omega) rest
  have hne : count ≠ 0 := by
    rintro rfl
    simp at hcount
  simp [readCompact, hread, lift, Except.mapError, hne, hcount]

/-- Primitives are read back. -/
theorem readPrimitive_encode {plan : UnitPlan} {version : Int} {kind : Primitive} {v : Value}
    (hc : Conforms plan version false (.primitive kind) v) (ident : String) (rest : Bytes) :
    readPrimitive ident kind (Encode.value plan version (.primitive kind) v ++ rest) =
      .ok (v, rest) := by
  cases hc with
  | @int w n hl hg =>
    have hholds : w.holds n = true := by simp [IntWidth.holds, hl, hg]
    simp [readPrimitive, Encode.value, readInt_writeInt hholds, lift, Except.mapError]
  | uuid hl => simp [readPrimitive, Encode.value, take_append hl, lift, Except.mapError]
  | @string s hl =>
    have hlt : (Text.encode s.toList).length < 256 ^ 2 := by omega
    have hnull : (Text.encode s.toList).length ≠ nullStringLength := by
      simp only [nullStringLength]
      omega
    have hlong : ¬ (Text.encode s.toList).length > maxStringLength := by
      simp only [maxStringLength]
      omega
    simp only [readPrimitive, readString, Encode.value, writeString, List.append_assoc,
      readUnsigned_writeUnsigned hlt, lift, Except.mapError, ok_bind, hnull, hlong, if_false,
      take_append rfl, Text.decodeLossy_encode, String.ofList_toList, pure_eq_ok]
  | bytes hl =>
    simp [readPrimitive, Encode.value, List.append_assoc, readCompact_writeUvarint hl, take_append,
      lift, Except.mapError]

/-- Each is read back from its own bytes, whatever follows them. -/
theorem readItems_gives {plan : UnitPlan} {version : Int} {rule : Rule} {read : Reader Value}
    {vs : List Value}
    (hread : ∀ v ∈ vs, ∀ rest, Gives (read (Encode.value plan version rule v ++ rest)) (v, rest))
    (done : List Value) (rest : Bytes) :
    Gives (readItems read vs.length done (Encode.items plan version rule vs ++ rest))
      (done.reverse ++ vs, rest) := by
  induction vs generalizing done with
  | nil => simpa [readItems, Encode.items] using gives_ok _
  | cons v vs ih =>
    have hitems := ih (fun u hu => hread u (List.mem_cons_of_mem v hu)) (v :: done)
    rw [Encode.items, List.append_assoc]
    refine (hread v List.mem_cons_self _).bind ?_
    simpa using hitems

/-- A field is read back if each of its values is. -/
theorem readField_gives {plan : UnitPlan} {version : Int} {f : FieldPlan} {read : Reader Value}
    {v : Value} (hc : Conforms plan version f.isArray f.rule v)
    (hread : ∀ u ∈ f.values v, ∀ rest,
      Gives (read (Encode.value plan version f.rule u ++ rest)) (u, rest)) (rest : Bytes) :
    Gives (readField f read (Encode.value plan version f.rule v ++ rest)) (v, rest) := by
  cases ha : f.isArray with
  | false =>
    simp only [readField, ha, Bool.false_eq_true, if_false]
    exact hread v (by simp [FieldPlan.values, ha]) rest
  | true =>
    rw [ha] at hc
    cases hc with
    | @array _ vs hl _ =>
      have hvalues : f.values (.array vs) = vs := by simp [FieldPlan.values, ha, Value.items?]
      rw [hvalues] at hread
      simp only [readField, ha, if_true, Encode.value, List.append_assoc,
        readCompact_writeUvarint hl, ok_bind]
      exact (readItems_gives hread [] rest).bind (gives_ok _)

/-- Fields are read back one by one, next to the members that they give. -/
theorem readFields_gives {plan : UnitPlan} {version : Int} {read : FieldPlan → Reader Value}
    {fallback : FieldPlan → Except Halt Value} {fields : List FieldPlan}
    {ms : List (String × Value)} (hnames : ms.map Prod.fst = fields.map FieldPlan.ident)
    (hpresent : ∀ p ∈ fields.zip ms, p.1.isPresent version = true → ∀ rest,
      Gives (readField p.1 (read p.1) (Encode.value plan version p.1.rule p.2.2 ++ rest))
        (p.2.2, rest))
    (habsent : ∀ p ∈ fields.zip ms, p.1.isPresent version = false → Gives (fallback p.1) p.2.2)
    (rest : Bytes) :
    Gives (readFields version read fallback fields
      (Encode.members plan version fields ms ++ rest)) (ms, rest) := by
  induction fields generalizing ms with
  | nil =>
    obtain rfl : ms = [] := by simpa using hnames
    exact gives_ok _
  | cons f fs ih =>
    cases ms with
    | nil => cases hnames
    | cons m ms =>
      obtain ⟨ident, v⟩ := m
      simp only [List.map_cons, List.cons.injEq] at hnames
      obtain ⟨rfl, hnames⟩ := hnames
      have hrest := ih hnames (fun p hp => hpresent p (List.mem_cons_of_mem _ hp))
        (fun p hp => habsent p (List.mem_cons_of_mem _ hp))
      have hfirst : Gives (fieldValue version read fallback f
          ((if f.isPresent version then Encode.value plan version f.rule v else []) ++
            (Encode.members plan version fs ms ++ rest)))
          (v, Encode.members plan version fs ms ++ rest) := by
        unfold fieldValue
        cases hf : f.isPresent version with
        | true => exact hpresent (f, f.ident, v) List.mem_cons_self hf _
        | false =>
          rcases habsent (f, f.ident, v) List.mem_cons_self hf with hv | hv
          · exact .inl (by simp [hv, Except.map])
          · exact .inr (by simp [hv, Except.map])
      rw [readFields_cons, Encode.members, List.append_assoc]
      exact hfirst.bind (hrest.bind (gives_ok _))

theorem mapM_gives {zero : FieldPlan → Except Halt Value}
    {fields : List FieldPlan} {ms : List (String × Value)}
    (hnames : ms.map Prod.fst = fields.map FieldPlan.ident)
    (hzero : ∀ p ∈ fields.zip ms, Gives (zero p.1) p.2.2) :
    Gives (fields.mapM fun f => do
      let v ← zero f
      return (f.ident, v)) ms := by
  induction fields generalizing ms with
  | nil =>
    obtain rfl : ms = [] := by simpa using hnames
    exact gives_ok _
  | cons f fs ih =>
    cases ms with
    | nil => cases hnames
    | cons m ms =>
      obtain ⟨ident, v⟩ := m
      simp only [List.map_cons, List.cons.injEq] at hnames
      obtain ⟨rfl, hnames⟩ := hnames
      have hfirst : Gives (do
          let v ← zero f
          return (f.ident, v)) (f.ident, v) :=
        (hzero (f, f.ident, v) List.mem_cons_self).bind (gives_ok _)
      have hrest := ih hnames fun p hp => hzero p (List.mem_cons_of_mem _ hp)
      rw [List.mapM_cons]
      exact hfirst.bind (hrest.bind (gives_ok _))

/-- Building the zero value gives it. -/
theorem zeroOf_gives {plan : UnitPlan} {fuel : Nat} {rule : Rule} {v : Value}
    (hz : IsZero plan false rule v) : Gives (zeroOf plan fuel rule) v := by
  induction fuel generalizing rule v with
  | zero =>
    cases hz with
    | record _ _ _ => exact .inl rfl
    | _ => exact .inr rfl
  | succ fuel ih =>
    cases hz with
    | @record name decoder r ms hfound hnames hzeros =>
      have hmembers : ∀ p ∈ r.fields.zip ms, Gives (zeroMember plan fuel p.1) p.2.2 := by
        intro p hp
        have hmember := hzeros p hp
        unfold zeroMember
        cases ha : p.1.isArray with
        | false => exact ih (ha ▸ hmember)
        | true =>
          rw [ha] at hmember
          rw [hmember.eq_of_isArray]
          exact gives_ok _
      rw [zeroOf_record hfound]
      exact (mapM_gives hnames hmembers).bind (gives_ok _)
    | _ => exact .inr rfl

/-- A field that is left out gets the value that it conforms to: its default, or its zero value. -/
theorem fallback_gives {plan : UnitPlan} {f : FieldPlan} {v : Value} (hd : f.DefaultFits)
    (hv : IsLeftOut plan f v) : Gives (fallback plan f) v := by
  unfold FieldPlan.DefaultFits at hd
  unfold IsLeftOut at hv
  unfold fallback
  cases hdef : f.default with
  | string s =>
    simp only [hdef] at hv
    exact hv ▸ gives_ok _
  | int n =>
    simp only [hdef] at hd hv
    obtain ⟨w, hr, rfl⟩ := hv
    obtain ⟨_, w', hr', hl, hg⟩ := hd
    obtain rfl : w = w' := by simpa [hr] using hr'
    rw [← intValue_of_fits hr hl hg]
    exact gives_ok _
  | absent =>
    simp only [hdef] at hv
    cases ha : f.isArray with
    | false => exact zeroOf_gives (ha ▸ hv)
    | true =>
      rw [ha] at hv
      rw [hv.eq_of_isArray]
      exact gives_ok _

/-- Room for the records that count levels and follow at once, after `depth` of them. -/
def Room (plan : UnitPlan) (version : Int) (depth : Nat) (start : RecordPlan × Value) : Prop :=
  ∀ path, (start :: path).IsChain (Inside plan version) →
    (∀ p ∈ start :: path, p.1.depthDecoder.isSome = true) →
      depth + (path.length + 1) ≤ maxNestingDepth

theorem room_zero {plan : UnitPlan} {version : Int} {start : RecordPlan × Value}
    (h : RunsBounded plan version start) : Room plan version 0 start := by
  intro path hpath hm
  have hle := h path hpath (start :: path) List.infix_rfl hm
  simp only [List.length_cons] at hle
  simp only [maxNestingDepth]
  omega

/-- There is room for a record inside another at its level. -/
theorem Room.inside {plan : UnitPlan} {version : Int} {depth : Nat}
    {outer inner : RecordPlan × Value} (h : Room plan version depth outer)
    (hr : RunsBounded plan version inner) (hi : Inside plan version outer inner) :
    Room plan version (nestedDepth outer.1 inner.1 depth) inner := by
  unfold nestedDepth
  split
  · rename_i hboth
    simp only [Bool.and_eq_true] at hboth
    intro path hpath hm
    have hle := h (inner :: path) (List.isChain_cons_cons.mpr ⟨hi, hpath⟩)
      (List.forall_mem_cons.mpr ⟨hboth.1, hm⟩)
    simp only [List.length_cons] at hle
    omega
  · exact room_zero hr

/-- A record is read back at any level that leaves it room. -/
theorem readRecord_gives {plan : UnitPlan} (h : plan.Sound) {version : Int} {fuel : Nat}
    {r : RecordPlan} (hr : r ∈ plan.records) {decoder : String} {v : Value} {depth : Nat}
    (hc : Conforms plan version false (.record r.name decoder) v)
    (hruns : RunsBounded plan version (r, v)) (hroom : Room plan version depth (r, v))
    (rest : Bytes) :
    Gives (readRecord plan version fuel r depth
      (Encode.value plan version (.record r.name decoder) v ++ rest)) (v, rest) := by
  induction fuel generalizing r decoder v depth rest with
  | zero => exact .inl rfl
  | succ fuel ih =>
    cases hc with
    | @record _ _ r' ms hfound hnames hpresent habsent =>
      obtain rfl : r = r' := Option.some.inj ((h.record?_of_mem hr).symm.trans hfound)
      have hlevel : ¬ (r.depthDecoder.isSome && maxNestingDepth ≤ depth) = true := by
        intro hdeep
        simp only [Bool.and_eq_true, decide_eq_true_eq] at hdeep
        have hle := hroom [] (List.isChain_singleton _) (by simpa using hdeep.1)
        simp only [List.length_nil] at hle
        omega
      simp only [readRecord, hlevel, Bool.false_eq_true, if_false, Encode.value, Rule.target?,
        Option.bind_some, hfound]
      refine (readFields_gives hnames ?_ ?_ rest).bind (gives_ok _)
      · intro p hp hf rest
        refine readField_gives (hpresent p hp hf) ?_ rest
        intro u hu rest
        have hf' := (List.of_mem_zip hp).1
        have hitem := (hpresent p hp hf).of_mem_values hu
        cases hrule : p.1.rule with
        | primitive kind =>
          rw [hrule] at hitem
          simp only [readValue, hrule]
          exact .inr (readPrimitive_encode hitem p.1.ident rest)
        | record name inner =>
          obtain ⟨s, hs, hfound', rfl, _⟩ := h.record?_of_rule hr hf' hrule
          -- The path goes on into the value, so what bounds it here bounds it there.
          have hinside : Inside plan version (r, .record ms) (s, u) :=
            ⟨hfound', ms, rfl, p, hp, hf, by rw [hrule]; rfl, hu⟩
          have hruns' := hruns.inside hinside
          rw [hrule] at hitem
          simp only [readValue, hrule, hfound']
          exact (ih hs hitem hruns' (hroom.inside hruns' hinside) rest).within _ _
      · intro p hp hf
        exact fallback_gives (h.defaults r hr p.1 (List.of_mem_zip hp).1) (habsent p hp hf)

end Decode

namespace Samples

def tree (children : List Value) : Value :=
  .record [("Value", .int .w8 (-1)), ("Children", .array children)]

/-- Nodes with one child each, `n` of them below the first. -/
def branch : Nat → Value
  | 0 => tree []
  | n + 1 => tree [branch n]

theorem conforms_tree {children : List Value} (hl : children.length ≤ 2 ^ 32 - 2)
    (hc : ∀ v ∈ children, Conforms treePlan 0 false (.record "Node" "NewNode") v) :
    Conforms treePlan 0 false (.record "Node" "NewNode") (tree children) := by
  refine .record rfl rfl ?_ ?_
  · simp only [node, List.zip_cons_cons, List.zip_nil_right, List.forall_mem_cons]
    exact ⟨fun _ => .int (by decide) (by decide), fun _ => .array hl hc, by simp⟩
  · simp [node, FieldPlan.isPresent, FieldPlan.readGuard, VersionPredicate.isUnconditional]

theorem conforms_branch (n : Nat) :
    Conforms treePlan 0 false (.record "Node" "NewNode") (branch n) := by
  induction n with
  | zero => exact conforms_tree (by decide) (by simp)
  | succ n ih => exact conforms_tree (by simp) (by simpa using ih)

theorem inside_tree {children : List Value} {inner : RecordPlan × Value}
    (h : Inside treePlan 0 (node, tree children) inner) : inner.1 = node ∧ inner.2 ∈ children := by
  obtain ⟨hfound, ms, hms, p, hp, _, htarget, hmem⟩ := h
  obtain rfl : ms = [("Value", .int .w8 (-1)), ("Children", .array children)] := by
    simpa [tree] using hms.symm
  simp only [node, List.zip_cons_cons, List.zip_nil_right, List.mem_cons, List.not_mem_nil,
    or_false] at hp
  rcases hp with rfl | rfl
  · simp [Rule.target?] at htarget
  · simp only [Rule.target?, Option.some.injEq] at htarget
    have hnode : treePlan.record? "Node" = some node := rfl
    rw [← htarget, hnode] at hfound
    exact ⟨(Option.some.inj hfound).symm, by simpa [FieldPlan.values, Value.items?] using hmem⟩

/-- A path into a branch gets one node deeper with each step. -/
theorem path_branch_length {n : Nat} {path : List (RecordPlan × Value)}
    (h : ((node, branch n) :: path).IsChain (Inside treePlan 0)) : path.length ≤ n := by
  induction path generalizing n with
  | nil => simp
  | cons inner path ih =>
    obtain ⟨hi, hpath⟩ := List.isChain_cons_cons.mp h
    obtain ⟨r, v⟩ := inner
    cases n with
    | zero => simpa using (inside_tree hi).2
    | succ n =>
      obtain ⟨rfl, hv⟩ := inside_tree hi
      obtain rfl : v = branch n := by simpa using hv
      simpa using ih hpath

theorem runsBounded_branch {n : Nat} (hn : n < 64) :
    RunsBounded treePlan 0 (node, branch n) := by
  intro path hpath run hrun _
  have hle := path_branch_length hpath
  have hlength := hrun.length_le
  simp only [List.length_cons] at hlength
  omega

end Samples

namespace Decode

/-- Decoding what was written gives the value back, and takes exactly the bytes written. -/
theorem decodeRecord_encode {m : Message} {plan : UnitPlan} (h : UnitPlan.build m = .ok plan)
    {record : RecordPlan} (hr : record ∈ plan.records) {version : Int} {v : Value}
    (hc : Conforms plan version false (.record record.name record.decoder) v)
    (hruns : RunsBounded plan version (record, v)) (tail : Bytes) :
    let bytes := Encode.value plan version (.record record.name record.decoder) v
    decodeRecord plan record version (bytes ++ tail) = .ok ⟨v, bytes.length⟩ := by
  intro bytes
  have hsound := UnitPlan.build_sound h
  have hout := (readRecord_onlyFails hsound hr version (bytes ++ tail)).not_outOfFuel
  rcases readRecord_gives hsound hr hc hruns (room_zero hruns) tail with hread | hread
  · exact absurd hread hout
  · simp [decodeRecord, bytes, hread]

/-- The deepest tree that can be read: 64 nodes inside each other. -/
theorem decodeRecord_encode_branch :
    UnitPlan.build Samples.treeResponse = .ok Samples.treePlan ∧
      Samples.node ∈ Samples.treePlan.records ∧
      Conforms Samples.treePlan 0 false (.record "Node" "NewNode") (Samples.branch 63) ∧
      RunsBounded Samples.treePlan 0 (Samples.node, Samples.branch 63) ∧
      decodeRecord Samples.treePlan Samples.node 0
          (Encode.value Samples.treePlan 0 (.record "Node" "NewNode") (Samples.branch 63) ++ [9]) =
        .ok ⟨Samples.branch 63,
          (Encode.value Samples.treePlan 0 (.record "Node" "NewNode")
            (Samples.branch 63)).length⟩ := by
  have hm : Samples.node ∈ Samples.treePlan.records := by simp [Samples.treePlan]
  have hc := Samples.conforms_branch 63
  have hr := Samples.runsBounded_branch (n := 63) (by decide)
  exact ⟨Samples.build_treeResponse, hm, hc, hr,
    decodeRecord_encode Samples.build_treeResponse hm hc hr [9]⟩

end Decode

end WireSchema

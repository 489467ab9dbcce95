import Mathlib.Data.List.DropRight
import WireSchema.Proofs.Failure

/-!
Which records a nesting that is refused has counted. The count goes on in each call from a record
that leads back to itself to another such record, whether or not the second leads back to the
first. So the records counted lie on cycles, in the order in which these lead to each other, and
they lie on one cycle just if the record refused leads back to the first one counted.
-/

namespace WireSchema

open Relation

namespace Decode

def Reaches (plan : UnitPlan) (a b : RecordPlan) : Prop :=
  TransGen (Cycle.Refers plan.records true) a.name b.name

/-- The records under way, from the outermost on, where an error was raised: the fields that the
error names lead through them. -/
def underWay (plan : UnitPlan) : RecordPlan → DecodeError → List RecordPlan
  | record, .nested _ field cause =>
    match (record.fields.find? fun f => f.ident == field).bind fun f => f.rule.target? with
    | none => [record]
    | some name =>
      match plan.record? name with
      | none => [record]
      | some inner => record :: underWay plan inner cause
  | record, _ => [record]

/-- In a plan that is sound the fields of the error are found again. -/
theorem underWay_nested {plan : UnitPlan} (h : plan.Sound) {record inner : RecordPlan}
    (hr : record ∈ plan.records) {f : FieldPlan} (hf : f ∈ record.fields)
    (ht : f.rule.target? = some inner.name) (hi : plan.record? inner.name = some inner)
    (name : String) (cause : DecodeError) :
    underWay plan record (.nested name f.ident cause) = record :: underWay plan inner cause := by
  have hfound := find_of_mem (h.idents record hr) hf
  simp [underWay, hfound, ht, hi]

theorem underWay_of_raises {f : FieldPlan} {e : DecodeError} (h : f.Raises e) (plan : UnitPlan)
    (record : RecordPlan) : underWay plan record e = [record] := by
  cases e with
  | nested => exact h.elim
  | _ => rfl

/-- The refusal for depth is the one error that no field raises. -/
theorem rootCause_of_raises {f : FieldPlan} {e : DecodeError} (h : f.Raises e) (limit : Nat) :
    e.rootCause ≠ .nestingTooDeep limit := by
  cases e with
  | nested | nestingTooDeep => exact h.elim
  | _ => exact DecodeError.noConfusion

/-- Each way to fail is a chain of calls to the record that raised the error. If the error is one
of depth, that record counts levels and has reached the limit. -/
theorem Fails.calls {plan : UnitPlan} (h : plan.Sound) {version : Int} {record : RecordPlan}
    (hr : record ∈ plan.records) {depth : Nat} {e : DecodeError}
    (hf : Fails plan version record depth e) :
    ∃ calls : List (RecordPlan × Nat), ∃ last, calls.head? = some (record, depth) ∧
      calls.IsChain (Calls plan version) ∧ calls.map Prod.fst = underWay plan record e ∧
      calls.getLast? = some last ∧
      ∀ limit, e.rootCause = .nestingTooDeep limit →
        limit = maxNestingDepth ∧ last.1.depthDecoder.isSome = true ∧ maxNestingDepth ≤ last.2 := by
  induction hf with
  | @tooDeep record depth counted deep =>
    refine ⟨[(record, depth)], (record, depth), rfl, List.isChain_singleton _, rfl, rfl, ?_⟩
    intro limit he
    cases he
    exact ⟨rfl, counted, deep⟩
  | @field record depth f e mem present raises =>
    refine ⟨[(record, depth)], (record, depth), rfl, List.isChain_singleton _, ?_, rfl, ?_⟩
    · exact (underWay_of_raises raises plan record).symm
    · intro limit he
      exact absurd he (rootCause_of_raises raises limit)
  | @nested record inner depth f cause mem present target found allowed fails ih =>
    obtain ⟨calls, last, hhead, hchain, hrecords, hlast, hdeep⟩ := ih (mem_of_record? found).1
    have hcall : Calls plan version (record, depth) (inner, nestedDepth record inner depth) :=
      ⟨allowed, found, ⟨f, mem, present, target⟩, rfl⟩
    refine ⟨(record, depth) :: calls, last, rfl, ?_, ?_, ?_, hdeep⟩
    · refine List.isChain_cons.mpr ⟨?_, hchain⟩
      intro call hm
      rw [hhead] at hm
      exact Option.some.inj hm ▸ hcall
    · rw [underWay_nested h hr mem target found, List.map_cons, hrecords]
    · rw [List.getLast?_cons, hlast]
      rfl

/-- A call to a level above the first comes from a record that counts levels, one level below. -/
theorem Calls.counted {plan : UnitPlan} {version : Int} {caller callee : RecordPlan × Nat}
    (h : Calls plan version caller callee) (hpos : 0 < callee.2) :
    caller.1.depthDecoder.isSome = true ∧ callee.2 = caller.2 + 1 := by
  have hlevel := h.level
  unfold nestedDepth at hlevel
  split at hlevel
  · rename_i hcounted
    exact ⟨(Bool.and_eq_true_iff.mp hcounted).1, hlevel⟩
  · omega

theorem Calls.level_le {plan : UnitPlan} {version : Int} {caller callee : RecordPlan × Nat}
    (h : Calls plan version caller callee) : callee.2 ≤ maxNestingDepth := by
  by_cases hpos : 0 < callee.2
  · obtain ⟨hcounted, hlevel⟩ := h.counted hpos
    have hlt := h.allowed hcounted
    omega
  · omega

/-- Along calls the level stays within the limit, since a record at the limit makes none. -/
theorem calls_level_le {plan : UnitPlan} {version : Int} {calls : List (RecordPlan × Nat)}
    (hc : calls.IsChain (Calls plan version))
    (hfirst : ∀ c ∈ calls.head?, c.2 ≤ maxNestingDepth) : ∀ c ∈ calls, c.2 ≤ maxNestingDepth := by
  induction calls with
  | nil => simp
  | cons first rest ih =>
    intro c hm
    rcases List.mem_cons.mp hm with rfl | hm
    · exact hfirst c rfl
    · exact ih hc.tail (fun d hd => (hc.rel_head? hd).level_le) c hm

/-- The last calls of a chain, told from its end: where the last record has reached level `n`, the
`n + 1` last calls have the levels from zero to `n`, and all their records count. -/
theorem levels_rtake {plan : UnitPlan} {version : Int} {calls : List (RecordPlan × Nat)}
    (hc : calls.IsChain (Calls plan version)) (hfirst : ∀ c ∈ calls.head?, c.2 = 0)
    {last : RecordPlan × Nat} (hl : calls.getLast? = some last)
    (hcounted : last.1.depthDecoder.isSome = true) :
    (calls.rtake (last.2 + 1)).map Prod.snd = List.range (last.2 + 1) ∧
      ∀ c ∈ calls.rtake (last.2 + 1), c.1.depthDecoder.isSome = true := by
  induction calls using List.reverseRecOn generalizing last with
  | nil => cases hl
  | append_singleton before call ih =>
    simp only [List.getLast?_append, List.getLast?_singleton, Option.some_or,
      Option.some.injEq] at hl
    subst hl
    rw [List.rtake_concat_succ, List.range_succ, List.map_append, List.map_singleton]
    cases hlevel : call.2 with
    | zero => simpa using hcounted
    | succ n =>
      -- A level above zero has a caller, which stands at the end of the calls before.
      cases hb : before.getLast? with
      | none =>
        have hnil := List.getLast?_eq_none_iff.mp hb
        have hzero := hfirst call (by simp [hnil])
        omega
      | some caller =>
        obtain ⟨hbefore, _, hjoin⟩ := List.isChain_append.mp hc
        have hcall := hjoin caller hb call rfl
        obtain ⟨hcaller, hnext⟩ := hcall.counted (by omega)
        have hn : n = caller.2 := by omega
        have hhead : ∀ c ∈ before.head?, c.2 = 0 := by
          intro c hm
          apply hfirst
          simp [Option.mem_def.mp hm]
        obtain ⟨hlevels, hall⟩ := ih hbefore hhead hb hcaller
        rw [← hn] at hlevels hall
        refine ⟨by rw [hlevels], ?_⟩
        intro c hm
        rcases List.mem_append.mp hm with hm | hm
        · exact hall c hm
        · rw [List.mem_singleton.mp hm]
          exact hcounted

/-- Records each of which leads to those after it lie on one cycle just if the last leads back to
the first. -/
theorem reaches_all_iff {plan : UnitPlan} {records : List RecordPlan} {first last : RecordPlan}
    (hp : records.Pairwise (Reaches plan)) (hfirst : records.head? = some first)
    (hlast : records.getLast? = some last) :
    (∀ a ∈ records, ∀ b ∈ records, Reaches plan a b) ↔ Reaches plan last first := by
  constructor
  · intro hall
    exact hall last (List.mem_of_getLast? hlast) first (List.mem_of_head? hfirst)
  · intro hback a ha b hb
    have hto : a = last ∨ Reaches plan a last := by
      obtain ⟨before, rfl⟩ := List.getLast?_eq_some_iff.mp hlast
      rcases List.mem_append.mp ha with ha | ha
      · exact .inr ((List.pairwise_append.mp hp).2.2 a ha last (by simp))
      · exact .inl (List.mem_singleton.mp ha)
    have hfrom : b = first ∨ Reaches plan first b := by
      obtain ⟨rest, rfl⟩ := List.head?_eq_some_iff.mp hfirst
      rcases List.mem_cons.mp hb with hb | hb
      · exact .inl hb
      · exact .inr ((List.pairwise_cons.mp hp).1 b hb)
    rcases hto with rfl | hto <;> rcases hfrom with rfl | hfrom
    · exact hback
    · exact hback.trans hfrom
    · exact hto.trans hback
    · exact (hto.trans hback).trans hfrom

/-- The rule of the count, in terms of the fields alone. -/
theorem nestedDepth_eq {plan : UnitPlan} (h : plan.Sound) {outer inner : RecordPlan}
    (ho : outer ∈ plan.records) (hi : inner ∈ plan.records) (depth : Nat) :
    (Reaches plan outer outer ∧ Reaches plan inner inner →
      nestedDepth outer inner depth = depth + 1) ∧
    (¬ (Reaches plan outer outer ∧ Reaches plan inner inner) →
      nestedDepth outer inner depth = 0) := by
  unfold Reaches nestedDepth
  rw [← h.marked outer ho, ← h.marked inner hi]
  constructor
  · rintro ⟨houter, hinner⟩
    simp [houter, hinner]
  · intro hnot
    simpa using hnot

/-- The count goes on just between two records that lead to each other. -/
def CountsOneCycle (plan : UnitPlan) (outer inner : RecordPlan) : Prop :=
  ∀ depth,
    (Reaches plan outer inner ∧ Reaches plan inner outer →
      nestedDepth outer inner depth = depth + 1) ∧
    (¬ (Reaches plan outer inner ∧ Reaches plan inner outer) →
      nestedDepth outer inner depth = 0)

/-- The two rules part where a cycle leads into another one. -/
theorem countsOneCycle_iff {plan : UnitPlan} (h : plan.Sound) {outer inner : RecordPlan}
    (ho : outer ∈ plan.records) (hi : inner ∈ plan.records) :
    CountsOneCycle plan outer inner ↔
      (Reaches plan outer outer ∧ Reaches plan inner inner →
        Reaches plan outer inner ∧ Reaches plan inner outer) := by
  constructor
  · intro hone hcycles
    by_contra hapart
    have hgoes := (nestedDepth_eq h ho hi 0).1 hcycles
    have hrestarts := (hone 0).2 hapart
    omega
  · intro hmutual depth
    obtain ⟨hgoes, hrestarts⟩ := nestedDepth_eq h ho hi depth
    constructor
    · rintro ⟨hto, hback⟩
      exact hgoes ⟨hto.trans hback, hback.trans hto⟩
    · intro hapart
      exact hrestarts fun hcycles => hapart (hmutual hcycles)

/-- A refusal for depth, by what was under way. `counted` are the last records of the calls that
lead to it: those decoded in the levels before the limit, and the one refused. -/
structure Refusal (plan : UnitPlan) (version : Int) (record : RecordPlan) (e : DecodeError)
    (counted : List RecordPlan) : Prop where
  /-- The calls follow the path that the error tells, and the last of them take every level. -/
  calls : ∃ calls : List (RecordPlan × Nat), calls.head? = some (record, 0) ∧
    calls.IsChain (Calls plan version) ∧ calls.map Prod.fst = underWay plan record e ∧
    (calls.rtake 65).map Prod.snd = List.range 65
  length : counted.length = 65
  cyclic : ∀ r ∈ counted, r ∈ plan.records ∧ Reaches plan r r
  ordered : counted.Pairwise (Reaches plan)
  common : ∀ first refused, counted.head? = some first → counted.getLast? = some refused →
    ((∀ a ∈ counted, ∀ b ∈ counted, Reaches plan a b) ↔ Reaches plan refused first)

/-- The calls that lead to a refusal are those that the error tells, and the last 65 of them are
the ones that count. -/
theorem refusal_of_fails {plan : UnitPlan} (h : plan.Sound) {version : Int} {record : RecordPlan}
    (hr : record ∈ plan.records) {e : DecodeError} {limit : Nat}
    (hf : Fails plan version record 0 e) (he : e.rootCause = .nestingTooDeep limit) :
    limit = 64 ∧ Refusal plan version record e ((underWay plan record e).rtake 65) := by
  obtain ⟨calls, last, hhead, hchain, hrecords, hlast, hdeep⟩ := hf.calls h hr
  obtain ⟨rfl, hcounted, hlevel⟩ := hdeep limit he
  have hstart : ∀ c ∈ calls.head?, c = (record, 0) := by
    intro c hm
    rw [hhead] at hm
    exact (Option.some.inj hm).symm
  have hmem : ∀ c ∈ calls, c.1 ∈ plan.records := by
    apply calls_mem hchain
    intro c hm
    rw [hstart c hm]
    exact hr
  have hlevels_le := calls_level_le hchain fun c hm => by simp [hstart c hm]
  have hexact : last.2 = 64 :=
    Nat.le_antisymm (hlevels_le last (List.mem_of_getLast? hlast)) hlevel
  obtain ⟨hlevels, hall⟩ := levels_rtake hchain (fun c hm => by simp [hstart c hm]) hlast hcounted
  rw [hexact] at hlevels hall
  have hrtake : (underWay plan record e).rtake 65 = (calls.rtake 65).map Prod.fst := by
    rw [← hrecords, List.rtake, List.rtake, List.map_drop, List.length_map]
  have hpairs := chain_pairwise (fun c => c.1.name) hchain fun a b ha hab => hab.refers (hmem a ha)
  have hordered : ((calls.rtake 65).map Prod.fst).Pairwise (Reaches plan) :=
    List.pairwise_map.mpr (hpairs.sublist (List.drop_sublist _ _))
  refine ⟨rfl, ?_⟩
  rw [hrtake]
  constructor
  case calls => exact ⟨calls, hhead, hchain, hrecords, hlevels⟩
  case length =>
    have hlength := congrArg List.length hlevels
    simpa using hlength
  case cyclic =>
    intro r hm
    obtain ⟨c, hcm, rfl⟩ := List.mem_map.mp hm
    have hrecord := hmem c (List.mem_of_mem_drop hcm)
    exact ⟨hrecord, (h.marked c.1 hrecord).mp (hall c hcm)⟩
  case ordered => exact hordered
  case common => exact fun first refused hf hl => reaches_all_iff hordered hf hl

end Decode

namespace Samples

/-- Stems lead to stems and to twigs, and twigs to twigs alone. -/
def bushResponse : Message where
  category := "response"
  name := "BushResponse"
  validVersions := "0"
  flexibleVersions := ""
  fields := [plain "root" "Stem" "0+"]
  commonRecords :=
    [{ name := "Stem"
       versions := "0+"
       fields := [plain "stems" "[]Stem" "0+", plain "twigs" "[]Twig" "0+"] },
     { name := "Twig", versions := "0+", fields := [plain "twigs" "[]Twig" "0+"] }]

def twigs : FieldPlan :=
  ⟨"twigs", "Twigs", true, .record "Twig" "NewTwig", some (.minimum 0), .absent, none⟩

def stem : RecordPlan where
  name := "Stem"
  decoder := "NewStem"
  origin := .common
  depthDecoder := some "NewStemAtDepth"
  versions := some (.minimum 0)
  fields :=
    [⟨"stems", "Stems", true, .record "Stem" "NewStem", some (.minimum 0), .absent, none⟩, twigs]

def twig : RecordPlan where
  name := "Twig"
  decoder := "NewTwig"
  origin := .common
  depthDecoder := some "NewTwigAtDepth"
  versions := some (.minimum 0)
  fields := [twigs]

def bushPlan : UnitPlan where
  messageName := "BushResponse"
  category := "response"
  records :=
    [{ name := "BushResponse"
       decoder := "ReadBushResponse"
       origin := .message
       depthDecoder := none
       versions := none
       fields :=
         [⟨"root", "Root", false, .record "Stem" "NewStem", some (.minimum 0), .absent, none⟩] },
     stem, twig]
  facilities := ⟨false, true, true⟩

theorem build_bushResponse : UnitPlan.build bushResponse = .ok bushPlan := by rfl

/-- A stem without stems, and in it 64 twigs inside each other. -/
def bush : Bytes := 1 :: List.replicate 64 2 ++ [1]

def deepTwig : Nat → DecodeError
  | 0 => .nestingTooDeep 64
  | n + 1 => .nested "Twig" "Twigs" (deepTwig n)

def bushError : DecodeError := .nested "Stem" "Twigs" (deepTwig 63)

theorem rootCause_bushError : bushError.rootCause = .nestingTooDeep 64 := by rfl

set_option maxRecDepth 4096 in
theorem decode_bush : decodeRecord bushPlan stem 0 bush = .error (.failure bushError) := by rfl

theorem stem_mem : stem ∈ bushPlan.records := by simp [bushPlan]

/-- Twigs never lead back to the stem that they are on. -/
theorem twig_reaches {b : String} (h : TransGen (Cycle.Refers bushPlan.records true) "Twig" b) :
    b = "Twig" := by
  have hstep {b : String} (h : Cycle.Refers bushPlan.records true "Twig" b) : b = "Twig" := by
    have hnames := (UnitPlan.build_sound build_bushResponse).names
    obtain ⟨f, hf, ht⟩ := Cycle.refers_of_find (r := twig) hnames rfl h
    rw [List.mem_singleton.mp hf] at ht
    cases ht
    rfl
  induction h with
  | single h => exact hstep h
  | tail _ h ih =>
    rw [ih] at h
    exact hstep h

end Samples

namespace Decode

open Samples

/-- Of a plan that was built: the count goes on between records that lead back to themselves, and
starts anew in all other calls. That is a count of one cycle unless the outer record lies on a cycle
and the inner one on another. A refusal for depth has counted 64 levels and the record refused. -/
theorem nestingTooDeep_counts {m : Message} {plan : UnitPlan} (h : UnitPlan.build m = .ok plan) :
    (∀ outer ∈ plan.records, ∀ inner ∈ plan.records,
      (CountsOneCycle plan outer inner ↔
        (Reaches plan outer outer ∧ Reaches plan inner inner →
          Reaches plan outer inner ∧ Reaches plan inner outer)) ∧
      ∀ depth,
        (Reaches plan outer outer ∧ Reaches plan inner inner →
          nestedDepth outer inner depth = depth + 1) ∧
        (¬ (Reaches plan outer outer ∧ Reaches plan inner inner) →
          nestedDepth outer inner depth = 0)) ∧
    ∀ record ∈ plan.records, ∀ version input e limit,
      decodeRecord plan record version input = .error (.failure e) →
      e.rootCause = .nestingTooDeep limit →
        limit = 64 ∧ Refusal plan version record e ((underWay plan record e).rtake 65) := by
  have hsound := UnitPlan.build_sound h
  constructor
  · intro outer ho inner hi
    exact ⟨countsOneCycle_iff hsound ho hi, nestedDepth_eq hsound ho hi⟩
  · intro record hr version input e limit hd he
    exact refusal_of_fails hsound hr (decodeRecord_fails hsound hr hd) he

theorem nestingTooDeep_counts_bush :
    UnitPlan.build bushResponse = .ok bushPlan ∧ stem ∈ bushPlan.records ∧
      decodeRecord bushPlan stem 0 bush = .error (.failure bushError) ∧
      bushError.rootCause = .nestingTooDeep 64 ∧
      Refusal bushPlan 0 stem bushError ((underWay bushPlan stem bushError).rtake 65) := by
  refine ⟨build_bushResponse, stem_mem, decode_bush, rootCause_bushError, ?_⟩
  exact ((nestingTooDeep_counts build_bushResponse).2 stem stem_mem 0 bush bushError 64
    decode_bush rootCause_bushError).2

/-- The records counted need not lie on one cycle: the call from a stem to a twig goes on counting
although no twig leads back to a stem. So 64 twigs are refused inside a stem. -/
theorem nestingTooDeep_two_cycles :
    UnitPlan.build bushResponse = .ok bushPlan ∧ stem ∈ bushPlan.records ∧
      decodeRecord bushPlan stem 0 bush = .error (.failure bushError) ∧
      bushError.rootCause = .nestingTooDeep 64 ∧
      (underWay bushPlan stem bushError).rtake 65 = stem :: List.replicate 64 twig ∧
      ¬ (∀ a ∈ (underWay bushPlan stem bushError).rtake 65,
        ∀ b ∈ (underWay bushPlan stem bushError).rtake 65, Reaches bushPlan a b) ∧
      ¬ Reaches bushPlan twig stem ∧ nestedDepth stem twig 0 = 1 := by
  have hrecords : (underWay bushPlan stem bushError).rtake 65 =
      stem :: List.replicate 64 twig := by rfl
  have hback : ¬ Reaches bushPlan twig stem := by
    intro h
    exact absurd (twig_reaches h) (by decide)
  refine ⟨build_bushResponse, stem_mem, decode_bush, rootCause_bushError, hrecords, ?_, hback, rfl⟩
  intro hall
  rw [hrecords] at hall
  exact hback (hall twig (by simp) stem List.mem_cons_self)

end Decode

end WireSchema

import WireSchema.Proofs.Encoding
import WireSchema.Proofs.Nesting
import WireSchema.Source.Execute

/-!
The functions of a plan do what decoding by the plan does. Each part of a function is followed next
to the read that it stands for, and records inside each other by induction on how deep they lie.
-/

namespace WireSchema.Source

open Decode

def stopOf : Halt → Stop
  | .failure e => .raised e
  | .missingRecord _ => .stuck
  | .outOfFuel => .outOfFuel

/-- A part of a program gives what a read gives, unless that halts other than by a failure. -/
def Agrees {α : Type} (x : Except Halt α) (y : Except Stop α) : Prop :=
  OnlyFails x → y = x.mapError stopOf

theorem agrees_ok {α : Type} (a : α) : Agrees (.ok a) (.ok a) := fun _ => rfl

theorem agrees_failure {α : Type} (e : DecodeError) :
    Agrees (.error (.failure e) : Except Halt α) (.error (.raised e)) := fun _ => rfl

theorem agrees_lift {α : Type} (r : Except DecodeError α) : Agrees (lift r) (raising r) := by
  cases r with
  | error e => exact agrees_failure e
  | ok a => exact agrees_ok a

theorem OnlyFails.of_bind {α β : Type} {x : Except Halt α} {f : α → Except Halt β}
    (h : OnlyFails (x >>= f)) : OnlyFails x := by
  intro e he
  apply h
  rw [he]
  rfl

theorem Agrees.bind {α β : Type} {x : Except Halt α} {y : Except Stop α}
    {f : α → Except Halt β} {g : α → Except Stop β} (h : Agrees x y)
    (hf : ∀ a, Agrees (f a) (g a)) : Agrees (x >>= f) (y >>= g) := by
  intro ho
  rw [h (OnlyFails.of_bind ho)]
  cases x with
  | error e => rfl
  | ok a => exact hf a ho

theorem Agrees.within {α : Type} {x : Except Halt α} {y : Except Stop α} (h : Agrees x y)
    (record member : String) :
    Agrees (x.mapError (Halt.within record member)) (y.mapError (Stop.within record member)) := by
  intro ho
  have hx : OnlyFails x := by
    intro e he
    rw [he] at ho
    obtain ⟨d, hd⟩ := ho _ rfl
    cases e with
    | failure e => exact ⟨e, rfl⟩
    | missingRecord name => cases hd
    | outOfFuel => cases hd
  rw [h hx]
  cases x with
  | ok a => rfl
  | error e =>
    obtain ⟨d, rfl⟩ := hx e rfl
    rfl

/-- Statements in a row. -/
theorem execAll_append (act : Activation) (ss ts : List Stmt) (fr : Frame) :
    execAll act (ss ++ ts) fr = (do
      match ← execAll act ss fr with
      | .next after => execAll act ts after
      | .done v rest => return .done v rest) := by
  induction ss generalizing fr with
  | nil => rfl
  | cons s ss ih =>
    simp only [List.cons_append, execAll, bind_assoc]
    congr 1
    funext flow
    cases flow with
    | next after => exact ih after
    | done v rest => rfl

theorem execAll_singleton (act : Activation) (s : Stmt) (fr : Frame) :
    execAll act [s] fr = s.exec act fr := by
  simp only [execAll]
  cases s.exec act fr with
  | error e => rfl
  | ok flow => cases flow <;> rfl

/-- What follows a part of a program goes on where that part leads. -/
theorem Agrees.goOn {α : Type} {y : Except Stop Flow} {k : Frame → Except Stop Flow}
    {x : Except Halt α} {after : α → Frame} {f : α → Except Halt Flow}
    (h : Agrees (x >>= fun a => .ok (.next (after a))) y)
    (hf : ∀ a, Agrees (f a) (k (after a))) :
    Agrees (x >>= f) (do
      match ← y with
      | .next fr => k fr
      | .done v rest => return .done v rest) := by
  intro ho
  rw [h ((OnlyFails.of_bind ho).bind fun _ => onlyFails_ok _)]
  cases x with
  | error e => rfl
  | ok a => exact hf a ho

/-- Statements behind others agree, if the others lead to the frame that these start from. -/
theorem Agrees.append {α : Type} {act : Activation} {ss ts : List Stmt} {fr : Frame}
    {x : Except Halt α} {after : α → Frame} {f : α → Except Halt Flow}
    (h : Agrees (x >>= fun a => .ok (.next (after a))) (execAll act ss fr))
    (hf : ∀ a, Agrees (f a) (execAll act ts (after a))) :
    Agrees (x >>= f) (execAll act (ss ++ ts) fr) := by
  rw [execAll_append]
  exact h.goOn hf

/-- A block that leaves the variables of its surroundings as they were. -/
theorem Agrees.inScope {α : Type} {run : Frame → Except Stop Flow} {fr : Frame}
    {x : Except Halt α} {after : α → Frame}
    (h : Agrees (x >>= fun a => .ok (.next (after a))) (run fr))
    (hl : ∀ a, ∃ inner, (after a).locals = inner ++ fr.locals) :
    Agrees (x >>= fun a => .ok (.next { after a with locals := fr.locals }))
      (Source.inScope run fr) := by
  intro ho
  have hrun := h ((OnlyFails.of_bind ho).bind fun _ => onlyFails_ok _)
  unfold Source.inScope
  rw [hrun]
  cases x with
  | error e => rfl
  | ok a =>
    obtain ⟨inner, hi⟩ := hl a
    simp [Except.mapError, hi]

/-- A member of the result, between those filled before it and those filled after it. -/
structure Place where
  before : List (String × Value)
  ident : String
  after : List (String × Value)
  not_before : ident ∉ before.map Prod.fst
  not_after : ident ∉ after.map Prod.fst

namespace Place

variable (p : Place)

def frame (v : Value) (input : Bytes) (locals : List (Var × Local)) : Frame :=
  ⟨input, some (p.before ++ (p.ident, v) :: p.after), locals⟩

@[simp] theorem frame_input (v : Value) (input : Bytes) (locals : List (Var × Local)) :
    (p.frame v input locals).input = input := rfl

@[simp] theorem frame_locals (v : Value) (input : Bytes) (locals : List (Var × Local)) :
    (p.frame v input locals).locals = locals := rfl

@[simp] theorem mk_frame (v : Value) (input rest : Bytes) (locals locals' : List (Var × Local)) :
    Frame.mk rest (p.frame v input locals).result locals' = p.frame v rest locals' := rfl

theorem lookup_append_of_not_mem {α : Type} {name : String} {xs ys : List (String × α)}
    (h : name ∉ xs.map Prod.fst) : (xs ++ ys).lookup name = ys.lookup name := by
  induction xs with
  | nil => rfl
  | cons x xs ih =>
    simp only [List.map_cons, List.mem_cons, not_or] at h
    obtain ⟨key, value⟩ := x
    simp [List.lookup_cons, beq_eq_false_iff_ne.mpr h.1, ih h.2]

@[simp] theorem member_frame (v : Value) (input : Bytes) (locals : List (Var × Local)) :
    (p.frame v input locals).member p.ident = .ok v := by
  simp [Frame.member, frame, lookup_append_of_not_mem p.not_before]

theorem map_set_of_not_mem {α : Type} {name : String} {v : α} {xs : List (String × α)}
    (h : name ∉ xs.map Prod.fst) :
    (xs.map fun field => if field.1 = name then (field.1, v) else field) = xs := by
  induction xs with
  | nil => rfl
  | cons x xs ih =>
    simp only [List.map_cons, List.mem_cons, not_or] at h
    simp [Ne.symm h.1, ih h.2]

@[simp] theorem setMember_frame (v w : Value) (input : Bytes) (locals : List (Var × Local)) :
    (p.frame v input locals).setMember p.ident w = p.frame w input locals := by
  simp [Frame.setMember, frame, map_set_of_not_mem p.not_before, map_set_of_not_mem p.not_after]

end Place

section

variable (p : Place) (v : Value) (input : Bytes) (locals : List (Var × Local))

@[simp] theorem number_frame (x : Var) (n : Nat) :
    (p.frame v input ((x, .number n) :: locals)).number x = .ok n := by
  simp [Frame.number]

@[simp] theorem uuid_frame (x : Var) (bytes : Bytes) :
    (p.frame v input ((x, .uuid bytes) :: locals)).uuid x = .ok bytes := by
  simp [Frame.uuid]

@[simp] theorem payload_frame (x : Var) (bytes : Bytes) :
    (p.frame v input ((x, .payload bytes) :: locals)).payload x = .ok bytes := by
  simp [Frame.payload]

end

/-- A sink turns the value of a member and a value read into the new value of the member. -/
structure Fills (sink : Sink) (old : Value) (new : Value → Value) : Prop where
  apply : ∀ v, sink.apply old v = .ok (new v)

/-- A check lets the statements after it run, or raises its error. -/
theorem execAll_failIf (act : Activation) (c : Condition) (f : Failure) (rest : List Stmt)
    (fr : Frame) :
    execAll act (failIf c f :: rest) fr = (do
      if ← c.holds act fr then do
        let e ← f.eval fr
        .error (.raised e)
      else execAll act rest fr) := by
  simp only [execAll, failIf, Stmt.exec, inScope, bind_assoc]
  congr 1
  funext b
  cases b with
  | false => simp
  | true => simp [bind_assoc]

theorem execAll_bind (act : Activation) (x : Var) (value : Init) (rest : List Stmt) (fr : Frame) :
    execAll act (.bind x value :: rest) fr = (do
      let (v, left) ← value.eval fr
      execAll act rest { fr with input := left, locals := (x, v) :: fr.locals }) := by
  simp [execAll, Stmt.exec, bind_assoc]

/-- A member is filled at its place, and all others keep their values. -/
theorem execAll_store (act : Activation) (p : Place) {sink : Sink} {old : Value}
    {new : Value → Value} (hs : Fills sink old new) (e : Expr) (input : Bytes)
    (locals : List (Var × Local)) :
    execAll act [.store sink p.ident e] (p.frame old input locals) = (do
      let (v, rest) ← e.eval act (p.frame old input locals) old
      return .next (p.frame (new v) rest locals)) := by
  simp [execAll, Stmt.exec, bind_assoc, hs.apply]

theorem execAll_block (act : Activation) (body : List Stmt) (fr : Frame) :
    execAll act [.block body] fr = inScope (execAll act body) fr := by
  rw [execAll_singleton, Stmt.exec]

/-- A loop runs once less than the number that its variable holds. -/
theorem execAll_loop {act : Activation} {x : Var} {body : List Stmt} {fr : Frame} {n : Nat}
    (hn : fr.number x = .ok n) (hpos : n ≠ 0) :
    execAll act [.loop x body] fr = repeated (inScope (execAll act body)) (n - 1) fr := by
  simp [execAll_singleton, Stmt.exec, hn, hpos]

/-- A check of what is left of the input, before bytes are taken off it. -/
theorem execAll_isShort {act : Activation} {x : Var} {ss : List Stmt} {fr : Frame} {n : Nat}
    {after : Bytes × Bytes → Except Stop Flow} (hn : fr.number x = .ok n)
    (ht : ∀ r, fr.take n = .ok r → execAll act ss fr = after r) :
    execAll act (failIf (.isShort x) (.unexpectedEnd x) :: ss) fr =
      raising (Wire.take n fr.input) >>= after := by
  simp only [execAll_failIf, Condition.holds, Failure.eval, hn, ok_bind, pure_eq_ok, Wire.take]
  cases hs : Wire.split? n fr.input with
  | none => simp [Wire.split?_eq_none_iff.mp hs, raising, Except.mapError]
  | some r =>
    have hle : ¬ fr.input.length < n := by
      intro hlt
      rw [Wire.split?_eq_none_iff.mpr hlt] at hs
      cases hs
    have htake : fr.take n = .ok r := by simp [Frame.take, hs]
    simp [hle, raising, Except.mapError, ht r htake]

section

variable {act : Activation} {p : Place} {sink : Sink} {old : Value} {new : Value → Value}
  (hs : Fills sink old new) (input : Bytes) (locals : List (Var × Local))
include hs

theorem readInt_agrees (w : IntWidth) :
    Agrees (readPrimitive p.ident (.int w) input >>= fun r =>
        .ok (.next (p.frame (new r.1) r.2 locals)))
      (execAll act [.store sink p.ident (.readInt w)] (p.frame old input locals)) := by
  simp only [execAll_store act p hs, Expr.eval, readPrimitive, bind_assoc, ok_bind, pure_eq_ok,
    Place.frame_input]
  exact (agrees_lift _).bind fun _ => agrees_ok _

theorem readUuid_agrees :
    Agrees (readPrimitive p.ident .uuid input >>= fun r =>
        .ok (.next (p.frame (new r.1) r.2 locals)))
      (execAll act
        [.block [.bind .uuid .zeros, .fill .uuid, .store sink p.ident (.var .uuid)]]
        (p.frame old input locals)) := by
  have hbody : execAll act [.bind .uuid .zeros, .fill .uuid, .store sink p.ident (.var .uuid)]
      (p.frame old input locals) = (raising (Wire.take 16 input) >>= fun r =>
        .ok (.next (p.frame (new (.uuid r.1)) r.2 ((.uuid, .uuid r.1) :: locals)))) := by
    simp [Init.eval, execAll, Stmt.exec, setLocal, bind_assoc, Expr.eval, hs.apply]
  simp only [execAll_block, inScope, hbody, readPrimitive, bind_assoc, pure_eq_ok, ok_bind]
  refine (agrees_lift _).bind fun r => ?_
  simp [agrees_ok]

/-- The lengths that are refused are refused in the same order, before a byte of the text is
taken. -/
theorem readString_agrees :
    Agrees (readPrimitive p.ident .string input >>= fun r =>
        .ok (.next (p.frame (new r.1) r.2 locals)))
      (execAll act
        [.block
          [.bind .len .readLength,
           failIf (.isNull .len) (.unexpectedNull p.ident),
           failIf (.isTooLong .len) (.invalidLength p.ident .len),
           .bind .len (.widened .len),
           failIf (.isShort .len) (.unexpectedEnd .len),
           .bind .payload (.taken .len),
           .store sink p.ident (.text .payload)]]
        (p.frame old input locals)) := by
  simp only [execAll_block, inScope, execAll_bind act .len .readLength, Init.eval, bind_assoc,
    readPrimitive, readString, pure_eq_ok, ok_bind]
  refine (agrees_lift _).bind fun r => ?_
  obtain ⟨n, rest⟩ := r
  simp only [Place.frame_locals, Place.mk_frame, execAll_failIf, Condition.holds, number_frame,
    ok_bind, pure_eq_ok, Failure.eval, decide_eq_true_eq]
  by_cases hnull : n = 0xFFFF
  · simp [hnull, nullStringLength, agrees_failure]
  by_cases hlong : n > 0x7FFF
  · simp [hnull, hlong, nullStringLength, maxStringLength, agrees_failure]
  have htaken : ∀ r : Bytes × Bytes,
      (p.frame old rest ((.len, .number n) :: (.len, .number n) :: locals)).take n = .ok r →
      execAll act [.bind .payload (.taken .len), .store sink p.ident (.text .payload)]
          (p.frame old rest ((.len, .number n) :: (.len, .number n) :: locals)) =
        .ok (.next (p.frame (new (.string (String.ofList (Text.decodeLossy r.1)))) r.2
          ((.payload, .payload r.1) :: (.len, .number n) :: (.len, .number n) :: locals))) := by
    intro r hr
    simp [execAll_bind, Init.eval, hr, execAll_store act p hs, Expr.eval]
  simp only [hnull, hlong, nullStringLength, maxStringLength, if_false, execAll_bind act .len,
    Init.eval, number_frame, ok_bind, pure_eq_ok, Place.frame_locals, Place.frame_input,
    Place.mk_frame, execAll_isShort (number_frame ..) htaken, bind_assoc]
  refine (agrees_lift _).bind fun r => ?_
  simp [Nat.add_assoc, agrees_ok]

/-- The length that stands there is one too great, and is compared with what is left of the input
only when it is not null. -/
theorem readBytes_agrees :
    Agrees (readPrimitive p.ident .bytes input >>= fun r =>
        .ok (.next (p.frame (new r.1) r.2 locals)))
      (execAll act
        [.block
          [.bind .len .readVarint,
           failIf (.isZero .len) (.unexpectedNull p.ident),
           .bind .len (.decremented .len),
           failIf (.isShort .len) (.unexpectedEnd .len),
           .store sink p.ident (.taken .len)]]
        (p.frame old input locals)) := by
  simp only [execAll_block, inScope, execAll_bind act .len .readVarint, Init.eval, bind_assoc,
    readPrimitive, readCompact, pure_eq_ok, ok_bind]
  refine (agrees_lift _).bind fun r => ?_
  obtain ⟨n, rest⟩ := r
  simp only [Place.frame_locals, Place.mk_frame, execAll_failIf, Condition.holds, number_frame,
    ok_bind, pure_eq_ok, Failure.eval, decide_eq_true_eq]
  by_cases hnull : n = 0
  · simp [hnull, agrees_failure]
  have hpos : n.toNat ≠ 0 := fun h => hnull (UInt32.toNat_inj.mp h)
  have htaken : ∀ r : Bytes × Bytes,
      (p.frame old rest
        ((.len, .number (n.toNat - 1)) :: (.len, .number n.toNat) :: locals)).take
          (n.toNat - 1) = .ok r →
      execAll act [.store sink p.ident (.taken .len)]
          (p.frame old rest
            ((.len, .number (n.toNat - 1)) :: (.len, .number n.toNat) :: locals)) =
        .ok (.next (p.frame (new (.bytes r.1)) r.2
          ((.len, .number (n.toNat - 1)) :: (.len, .number n.toNat) :: locals))) := by
    intro r hr
    simp [execAll_store act p hs, Expr.eval, hr]
  simp only [hnull, hpos, if_false, execAll_bind act .len,
    Init.eval, number_frame, ok_bind, pure_eq_ok, Place.frame_locals, Place.frame_input,
    Place.mk_frame, execAll_isShort (number_frame ..) htaken, bind_assoc]
  refine (agrees_lift _).bind fun r => ?_
  simp [Nat.add_assoc, agrees_ok]

theorem readPrimitive_agrees (plan : UnitPlan) (record : RecordPlan) {f : FieldPlan}
    (hf : f.ident = p.ident) {kind : Primitive} (hk : f.rule = .primitive kind) :
    Agrees (readPrimitive p.ident kind input >>= fun r =>
        .ok (.next (p.frame (new r.1) r.2 locals)))
      (execAll act (readValue plan record f sink) (p.frame old input locals)) := by
  cases kind with
  | int w => simpa only [readValue, hk, hf] using readInt_agrees hs input locals w
  | uuid => simpa only [readValue, hk, hf] using readUuid_agrees hs input locals
  | string => simpa only [readValue, hk, hf] using readString_agrees hs input locals
  | bytes => simpa only [readValue, hk, hf] using readBytes_agrees hs input locals

end

/-- The calls of a function at a level agree with reading records by `nested`. -/
def CallsAgree (plan : UnitPlan) (act : Activation) (record : RecordPlan) (depth : Nat)
    (nested : RecordPlan → Nat → Reader Value) : Prop :=
  ∀ f ∈ record.fields, ∀ name decoder, f.rule = .record name decoder →
    ∀ inner, plan.record? name = some inner → ∀ input,
      Agrees (nested inner (nestedDepth record inner depth) input)
        (act.run (nestedCall plan record name decoder) input)

/-- Records are left to the calls of their decoders, which agree by assumption. -/
theorem readValue_agrees {plan : UnitPlan} {act : Activation} {record : RecordPlan} {depth : Nat}
    {nested : RecordPlan → Nat → Reader Value} (hc : CallsAgree plan act record depth nested)
    {f : FieldPlan} (hf : f ∈ record.fields) {p : Place} (hp : f.ident = p.ident) {sink : Sink}
    {old : Value} {new : Value → Value} (hs : Fills sink old new) (input : Bytes)
    (locals : List (Var × Local)) :
    Agrees (Decode.readValue plan record depth nested f input >>= fun r =>
        .ok (.next (p.frame (new r.1) r.2 locals)))
      (execAll act (readValue plan record f sink) (p.frame old input locals)) := by
  cases hr : f.rule with
  | primitive kind =>
    simpa only [Decode.readValue, hr, hp] using
      readPrimitive_agrees hs input locals plan record hp hr
  | record name decoder =>
    cases hi : plan.record? name with
    | none =>
      intro ho
      obtain ⟨e, he⟩ := ho (.missingRecord name) (by
        simp only [Decode.readValue, hr, hi, error_bind])
      cases he
    | some inner =>
      simp only [Decode.readValue, readValue, hr, hi, hp, execAll_store act p hs, Expr.eval,
        Place.frame_input, pure_eq_ok]
      exact ((hc f hf name decoder hr inner hi input).within _ _).bind fun _ => agrees_ok _

section

variable {plan : UnitPlan} {act : Activation} {record : RecordPlan} {depth : Nat}
  {nested : RecordPlan → Nat → Reader Value} (hc : CallsAgree plan act record depth nested)
  {f : FieldPlan} (hf : f ∈ record.fields) {p : Place} (hp : f.ident = p.ident)
include hc hf hp

/-- The items of an array are pushed one after the other. -/
theorem readItems_agrees (n : Nat) (done : List Value) (input : Bytes)
    (locals : List (Var × Local)) :
    Agrees (readItems (Decode.readValue plan record depth nested f) n done input >>= fun r =>
        .ok (.next (p.frame (.array r.1) r.2 locals)))
      (repeated (inScope (execAll act (readValue plan record f .push))) n
        (p.frame (.array done.reverse) input locals)) := by
  induction n generalizing done input with
  | zero => exact agrees_ok _
  | succ n ih =>
    have hpush : Fills .push (.array done.reverse) fun v => .array (v :: done).reverse :=
      ⟨fun v => by simp [Sink.apply]⟩
    have hitem := (readValue_agrees hc hf hp hpush input locals).inScope fun _ => ⟨[], rfl⟩
    simp only [readItems, repeated, bind_assoc]
    exact hitem.goOn fun r => ih (r.1 :: done) r.2

/-- An array is filled item by item from its zero value, which is empty. -/
theorem readField_agrees {zero : Value} (hz : zeroMember plan (zeroFuel plan) f = .ok zero)
    (input : Bytes) (locals : List (Var × Local)) :
    Agrees (Decode.readField f (Decode.readValue plan record depth nested f) input >>= fun r =>
        .ok (.next (p.frame r.1 r.2 locals)))
      (execAll act (readField plan record f) (p.frame zero input locals)) := by
  cases ha : f.isArray with
  | false =>
    simp only [Decode.readField, readField, ha, Bool.false_eq_true, if_false]
    have hassign : Fills .assign zero fun v => v := ⟨fun _ => rfl⟩
    exact readValue_agrees hc hf hp hassign input locals
  | true =>
    obtain rfl : .array [] = zero := by simpa [zeroMember, ha] using hz
    simp only [Decode.readField, readField, ha, if_true, execAll_block]
    have hbody : Agrees ((readCompact f.ident input >>= fun count =>
        readItems (Decode.readValue plan record depth nested f) count.1 [] count.2 >>= fun r =>
          .ok (count.1, r)) >>= fun r => .ok (.next
            (p.frame (.array r.2.1) r.2.2 ((.count, .number (r.1 + 1)) :: locals))))
        (execAll act [.bind .count .readVarint, failIf (.isZero .count) (.unexpectedNull f.ident),
          .loop .count (readValue plan record f .push)] (p.frame (.array []) input locals)) := by
      simp only [execAll_bind act .count, Init.eval, readCompact, bind_assoc]
      refine (agrees_lift _).bind fun r => ?_
      obtain ⟨n, rest⟩ := r
      simp only [ok_bind, pure_eq_ok, Place.frame_locals, Place.mk_frame, execAll_failIf,
        Condition.holds, number_frame, Failure.eval, decide_eq_true_eq]
      by_cases hnull : n = 0
      · simp [hnull, agrees_failure]
      have hpos : n.toNat ≠ 0 := fun h => hnull (UInt32.toNat_inj.mp h)
      have hcount : n.toNat - 1 + 1 = n.toNat := by omega
      simp only [hnull, hpos, if_false, ok_bind, execAll_loop (number_frame ..) hpos,
        hcount]
      exact readItems_agrees hc hf hp (n.toNat - 1) [] rest _
    have hblock := hbody.inScope fun _ => ⟨[_], rfl⟩
    simp only [bind_assoc] at hblock ⊢
    exact hblock

end

/-- A guard in the program says what the predicate of the field says. -/
theorem guardHolds_eq (version : Int) (p : VersionPredicate) :
    guardHolds version p = p.matchesVersion version := by
  cases p with
  | exact n => simp [guardHolds, VersionPredicate.matchesVersion, beq_eq_decide]
  | minimum n => rfl
  | range lo hi => simp [guardHolds, VersionPredicate.matchesVersion]

/-- A member that is left out holds its zero value until its default is put there. -/
theorem setDefault_agrees {plan : UnitPlan} {act : Activation} {f : FieldPlan}
    (hd : f.DefaultFits) {p : Place} (hp : f.ident = p.ident) {zero : Value}
    (hz : zeroMember plan (zeroFuel plan) f = .ok zero) (input : Bytes)
    (locals : List (Var × Local)) :
    Agrees ((fallback plan f).map (fun v => (v, input)) >>= fun r =>
        .ok (.next (p.frame r.1 r.2 locals)))
      (execAll act (setDefault f) (p.frame zero input locals)) := by
  have hassign : Fills .assign zero fun v => v := ⟨fun _ => rfl⟩
  unfold FieldPlan.DefaultFits at hd
  cases hdef : f.default with
  | absent =>
    have hfall : fallback plan f = .ok zero := by simpa only [fallback, hdef, zeroMember] using hz
    simp only [setDefault, hdef, hfall]
    exact agrees_ok _
  | string s =>
    simp only [setDefault, hdef, fallback, hp, execAll_store act p hassign, Expr.eval]
    exact agrees_ok _
  | int v =>
    simp only [hdef] at hd
    obtain ⟨ha, w, hr, hl, hg⟩ := hd
    obtain rfl : .int w 0 = zero := by simpa [zeroMember, ha, hr, zeroOf] using hz
    have hholds : w.holds v = true := by simp [IntWidth.holds, hl, hg]
    have hvalue := intValue_of_fits hr hl hg
    simp only [setDefault, hdef, fallback, hp, hvalue, execAll_store act p hassign, Expr.eval,
      hholds, if_true]
    exact agrees_ok _

/-- A field is read where its guard holds, and set to its default elsewhere. -/
theorem fieldBody_agrees {plan : UnitPlan} {act : Activation} {record : RecordPlan} {depth : Nat}
    {nested : RecordPlan → Nat → Reader Value} (hc : CallsAgree plan act record depth nested)
    {f : FieldPlan} (hf : f ∈ record.fields) (hd : f.DefaultFits) {p : Place}
    (hp : f.ident = p.ident) {zero : Value} (hz : zeroMember plan (zeroFuel plan) f = .ok zero)
    (input : Bytes) (locals : List (Var × Local)) :
    Agrees (fieldValue act.version (Decode.readValue plan record depth nested) (fallback plan) f
        input >>= fun r => .ok (.next (p.frame r.1 r.2 locals)))
      (execAll act (fieldBody plan record f) (p.frame zero input locals)) := by
  have hread := readField_agrees hc hf hp hz input locals
  cases hg : f.readGuard with
  | none => simpa [fieldValue, FieldPlan.isPresent, fieldBody, hg] using hread
  | some guard =>
    simp only [fieldValue, FieldPlan.isPresent, fieldBody, hg, Option.all_some, execAll_singleton,
      Stmt.exec, Condition.holds, guardHolds_eq, ok_bind]
    split
    · exact hread.inScope fun _ => ⟨[], rfl⟩
    · exact (setDefault_agrees hd hp hz input locals).inScope fun _ => ⟨[], rfl⟩

def ZeroMember (plan : UnitPlan) (f : FieldPlan) (member : String × Value) : Prop :=
  member.1 = f.ident ∧ zeroMember plan (zeroFuel plan) f = .ok member.2

/-- Members are filled in order: those before the next field hold what was read, those from it on
their zero values. -/
theorem readFields_agrees {plan : UnitPlan} {act : Activation} {record : RecordPlan} {depth : Nat}
    {nested : RecordPlan → Nat → Reader Value} (hc : CallsAgree plan act record depth nested)
    {fields : List FieldPlan} (hf : ∀ f ∈ fields, f ∈ record.fields)
    (hd : ∀ f ∈ fields, f.DefaultFits) {filled zeros : List (String × Value)}
    (hz : List.Forall₂ (ZeroMember plan) fields zeros)
    (hn : ((filled ++ zeros).map Prod.fst).Nodup) (input : Bytes) :
    Agrees (readFields act.version (Decode.readValue plan record depth nested) (fallback plan)
        fields input >>= fun r => .ok (.next ⟨r.2, some (filled ++ r.1), []⟩))
      (execAll act (fields.flatMap (fieldBody plan record))
        ⟨input, some (filled ++ zeros), []⟩) := by
  induction hz generalizing filled input with
  | nil => simpa [readFields, execAll] using agrees_ok _
  | @cons f member fields zeros hm _ ih =>
    obtain ⟨ident, zero⟩ := member
    obtain ⟨hident, hzero⟩ := hm
    dsimp only at hident hzero
    have hn' := hn
    simp only [List.map_append, List.map_cons, List.nodup_append, List.nodup_cons] at hn'
    obtain ⟨_, ⟨hafter, _⟩, hbefore⟩ := hn'
    -- Fields behind this one still hold zeros, and their names differ from its name.
    let p : Place := ⟨filled, ident, zeros, fun h => hbefore ident h ident (by simp) rfl, hafter⟩
    have hfield := fieldBody_agrees hc (hf f List.mem_cons_self) (hd f List.mem_cons_self) (p := p)
      hident.symm hzero input []
    rw [readFields_cons, List.flatMap_cons, bind_assoc]
    apply hfield.append
    intro r
    have hnext : ((filled ++ [(ident, r.1)] ++ zeros).map Prod.fst).Nodup := by simpa using hn
    have hrest := ih (fun g hg => hf g (List.mem_cons_of_mem _ hg))
      (fun g hg => hd g (List.mem_cons_of_mem _ hg)) hnext r.2
    simpa [Place.frame, p, hident] using hrest

theorem struct?_items (plan : UnitPlan) (name : String) :
    (items plan).struct? name = (plan.record? name).map struct := by
  simp only [Items.struct?, items, List.find?_map]
  rfl

/-- A struct starts as the zero value of its record. -/
theorem zero_items {plan : UnitPlan} {fuel : Nat} {rule : Rule} {v : Value}
    (h : zeroOf plan fuel rule = .ok v) : (items plan).zero fuel rule.base = .ok v := by
  induction fuel generalizing rule v with
  | zero =>
    cases rule with
    | primitive kind => cases kind <;> simpa [zeroOf, Items.zero, Rule.base] using h
    | record name decoder => cases h
  | succ fuel ih =>
    cases rule with
    | primitive kind => cases kind <;> simpa [zeroOf, Items.zero, Rule.base] using h
    | record name decoder =>
      cases hr : plan.record? name with
      | none => simp [zeroOf, hr] at h
      | some r =>
        rw [zeroOf_record hr] at h
        obtain ⟨fields, hfields, hv⟩ := bind_eq_ok.mp h
        cases hv
        change (items plan).zero (fuel + 1) (.record name) = _
        simp only [Items.zero, struct?_items, hr, Option.map_some, struct, List.mapM_map]
        refine bind_eq_ok.mpr ⟨fields, mapM_eq_ok.mpr ?_, rfl⟩
        refine (mapM_eq_ok.mp hfields).imp fun f member hm => ?_
        obtain ⟨value, hvalue, hm⟩ := bind_eq_ok.mp hm
        cases hm
        unfold zeroMember at hvalue
        split at hvalue
        · rename_i ha
          cases hvalue
          simp [ha]
        · rename_i ha
          simp [ha, ih hvalue]

theorem zeroMembers_ok {plan : UnitPlan} (h : plan.Sound) {record : RecordPlan}
    (hr : record ∈ plan.records) :
    ∃ zeros, List.Forall₂ (ZeroMember plan) record.fields zeros := by
  apply exists_forall₂.mpr
  intro f hf
  obtain ⟨v, hv⟩ := zeroMember_ok h hr hf
  exact ⟨(f.ident, v), rfl, hv⟩

/-- The body that fills the result of a record reads its fields. -/
theorem recordBody_agrees {plan : UnitPlan} (h : plan.Sound) {record : RecordPlan}
    (hr : record ∈ plan.records) {act : Activation} (ha : act.items = items plan) {depth : Nat}
    {nested : RecordPlan → Nat → Reader Value} (hc : CallsAgree plan act record depth nested)
    (input : Bytes) :
    Agrees (readFields act.version (Decode.readValue plan record depth nested) (fallback plan)
        record.fields input >>= fun r => .ok (.done (.record r.1) r.2))
      (execAll act (recordBody plan record) ⟨input, none, []⟩) := by
  obtain ⟨zeros, hzeros⟩ := zeroMembers_ok h hr
  have hnames : zeros.map Prod.fst = record.fields.map FieldPlan.ident :=
    map_eq_map_of_forall₂ hzeros fun _ _ hm => hm.1
  have hzero : zeroOf plan (zeroFuel plan + 1) (.record record.name "") = .ok (.record zeros) := by
    rw [zeroOf_record (h.record?_of_mem hr)]
    refine bind_eq_ok.mpr ⟨zeros, mapM_eq_ok.mpr (hzeros.imp fun f member hm => ?_), rfl⟩
    exact bind_eq_ok.mpr ⟨member.2, hm.2, by rw [← hm.1]; rfl⟩
  have hresult : (Stmt.result record.name).exec act ⟨input, none, []⟩ =
      .ok (.next ⟨input, some zeros, []⟩) := by
    have hlength : (items plan).structs.length + 2 = zeroFuel plan + 1 := by
      simp [items, zeroFuel]
    have hstart := zero_items hzero
    rw [Rule.base] at hstart
    simp only [Stmt.exec, ha, hlength, hstart, ok_bind, pure_eq_ok]
  have hdistinct : (([] ++ zeros).map Prod.fst).Nodup := by
    simpa [hnames] using h.idents record hr
  have hfields := readFields_agrees hc (fun _ hf => hf) (h.defaults record hr) hzeros hdistinct
    input
  simp only [recordBody, List.cons_append, execAll, hresult, ok_bind]
  apply hfields.append
  intro r
  simpa [execAll, Stmt.exec, Frame.members] using agrees_ok _

theorem functions_names_sublist (plan : UnitPlan) (records : List RecordPlan) :
    ((records.flatMap (functions plan)).map Function.name).Sublist
      (records.flatMap UnitPlan.recordItems) := by
  induction records with
  | nil => simp
  | cons r rest ih =>
    simp only [List.flatMap_cons, List.map_append]
    refine List.Sublist.append ?_ ih
    unfold functions UnitPlan.recordItems
    cases r.depthDecoder <;> simp

/-- No two functions of a sound plan have one name, so that a call finds the function that is
meant. -/
theorem functions_names_nodup {plan : UnitPlan} (h : plan.Sound) :
    ((plan.records.flatMap (functions plan)).map Function.name).Nodup :=
  h.items.sublist (functions_names_sublist plan plan.records)

/-- Functions are called by names of their own. -/
theorem call_items {plan : UnitPlan} (h : plan.Sound) {record : RecordPlan}
    (hr : record ∈ plan.records) {g : Function} (hg : g ∈ functions plan record) (version : Int)
    (fuel : Nat) (level : Option Nat) (input : Bytes) :
    (items plan).call version (fuel + 1) g.name level input =
      g.call ⟨items plan, version, level, (items plan).call version fuel⟩ input := by
  have hfound : (items plan).function? g.name = some g :=
    find_of_mem (functions_names_nodup h) (List.mem_flatMap.mpr ⟨record, hr, hg⟩)
  simp only [Items.call, hfound]

/-- A function returns what its body is done with. -/
theorem Agrees.call {x : Except Halt (Value × Bytes)} {act : Activation} {g : Function}
    {input : Bytes} (hl : g.takesLevel = act.level.isSome)
    (h : Agrees (x >>= fun r => .ok (.done r.1 r.2)) (execAll act g.body ⟨input, none, []⟩)) :
    Agrees x (g.call act input) := by
  intro ho
  unfold Function.call
  rw [if_pos hl, h (ho.bind fun _ => onlyFails_ok _)]
  cases x <;> rfl

/-- The function with the body of a record: the one that counts levels, if there is one. -/
def bodyFunction (record : RecordPlan) : String := record.depthDecoder.getD record.decoder

/-- The level that the function with the body of a record takes. -/
def bodyLevel (record : RecordPlan) (depth : Nat) : Option Nat :=
  record.depthDecoder.map fun _ => depth

section

variable {plan : UnitPlan} (h : plan.Sound) {version : Int} {record : RecordPlan}
  (hr : record ∈ plan.records)
include h hr

/-- One call: where the calls inside agree, so does the function with the body. -/
theorem bodyFunction_agrees {fuel n depth : Nat}
    (hc : CallsAgree plan ⟨items plan, version, bodyLevel record depth,
      (items plan).call version fuel⟩ record depth (readRecord plan version n))
    (input : Bytes) :
    Agrees (readRecord plan version (n + 1) record depth input)
      ((items plan).call version (fuel + 1) (bodyFunction record)
        (bodyLevel record depth) input) := by
  have hbody := recordBody_agrees h hr rfl hc input
  dsimp only at hbody
  cases hd : record.depthDecoder with
  | none =>
    have hg : ⟨record.decoder, true, false, record.name, recordBody plan record⟩ ∈
        functions plan record := by simp [functions, hd]
    have hcall := call_items h hr hg version fuel none input
    simp only [bodyLevel, bodyFunction, hd, Option.map_none, Option.getD_none] at hbody ⊢
    rw [hcall]
    apply Agrees.call rfl
    simpa [readRecord, hd, bind_assoc] using hbody
  | some counting =>
    have hg : ⟨counting, false, true, record.name,
        failIf .isTooDeep .nestingTooDeep :: recordBody plan record⟩ ∈
        functions plan record := by simp [functions, hd]
    have hcall := call_items h hr hg version fuel (some depth) input
    simp only [bodyLevel, bodyFunction, hd, Option.map_some, Option.getD_some] at hbody ⊢
    rw [hcall]
    apply Agrees.call rfl
    simp only [execAll_failIf, Condition.holds, Failure.eval, ok_bind, ge_iff_le,
      decide_eq_true_eq]
    by_cases hdeep : maxNestingDepth ≤ depth
    · simp [readRecord, hd, hdeep, agrees_failure]
    · simpa [readRecord, hd, hdeep, bind_assoc] using hbody

/-- The decoder of a record leads to the function with its body, by one call more at most. -/
theorem decoder_agrees {fuel n : Nat} {input : Bytes}
    (hb : ∀ k, fuel ≤ k → Agrees (readRecord plan version n record 0 input)
      ((items plan).call version k (bodyFunction record) (bodyLevel record 0) input)) :
    Agrees (readRecord plan version n record 0 input)
      ((items plan).call version (fuel + 1) record.decoder none input) := by
  cases hd : record.depthDecoder with
  | none => simpa [bodyFunction, bodyLevel, hd] using hb (fuel + 1) (by omega)
  | some counting =>
    have hg : ⟨record.decoder, true, false, record.name, [.delegate ⟨counting, some .start⟩]⟩ ∈
        functions plan record := by simp [functions, hd]
    have hcall := call_items h hr hg version fuel none input
    have hbody := hb fuel (by omega)
    simp only [bodyFunction, bodyLevel, hd, Option.map_some, Option.getD_some] at hbody
    rw [hcall]
    apply Agrees.call rfl
    simp only [execAll_singleton, Stmt.exec, Activation.run, Activation.levelOf, ok_bind]
    exact hbody.bind fun _ => agrees_ok _

end

/-- A program needs at most two calls for each. -/
theorem call_agrees {plan : UnitPlan} (h : plan.Sound) (version : Int) (n : Nat) {fuel : Nat}
    (hfuel : 2 * n ≤ fuel) {record : RecordPlan} (hr : record ∈ plan.records) (depth : Nat)
    (input : Bytes) :
    Agrees (readRecord plan version n record depth input)
      ((items plan).call version fuel (bodyFunction record) (bodyLevel record depth) input) := by
  induction n generalizing fuel record depth input with
  | zero =>
    intro ho
    obtain ⟨e, he⟩ := ho .outOfFuel rfl
    cases he
  | succ n ih =>
    obtain ⟨fuel, rfl⟩ : ∃ k, fuel = k + 2 := ⟨fuel - 2, by omega⟩
    refine bodyFunction_agrees h hr ?_ input
    intro f hf name decoder hrule inner hi input
    obtain ⟨s, hs, hs', _, rfl⟩ := h.record?_of_rule hr hf hrule
    obtain rfl : s = inner := Option.some.inj (hs'.symm.trans hi)
    have hdecoder : Agrees (readRecord plan version n s 0 input)
        ((items plan).call version (fuel + 1) s.decoder none input) :=
      decoder_agrees h hs fun k hk => ih (by omega) hs 0 input
    have hbody : Agrees (readRecord plan version n s (depth + 1) input)
        ((items plan).call version (fuel + 1) (bodyFunction s)
          (bodyLevel s (depth + 1)) input) := ih (by omega) hs (depth + 1) input
    simp only [Activation.run, nestedCall, nestedDepth, hi, Option.bind_some]
    -- Only between two functions that count levels does a call hand on its own level.
    cases ho : record.depthDecoder with
    | none => simpa [Activation.levelOf] using hdecoder
    | some outer =>
      cases hd : s.depthDecoder with
      | none => simpa [Activation.levelOf] using hdecoder
      | some counting =>
        simpa [Activation.levelOf, bodyLevel, bodyFunction, ho, hd] using hbody

/-- Running the functions of a plan gives what decoding by the plan gives: the same fields in order
and as many bytes taken, or the same error. Neither halts in another way. -/
theorem decode_items {plan : UnitPlan} (h : plan.Sound) {record : RecordPlan}
    (hr : record ∈ plan.records) (version : Int) (input : Bytes) :
    ∃ outcome : Except DecodeError Decoded,
      decodeRecord plan record version input = outcome.mapError .failure ∧
      ∀ fuel, 2 * recordFuel plan < fuel →
        (items plan).decode fuel record.decoder version input = outcome.mapError .raised := by
  have honly := readRecord_onlyFails h hr version input
  have hcall : ∀ fuel, 2 * recordFuel plan < fuel →
      (items plan).call version fuel record.decoder none input =
        (readRecord plan version (recordFuel plan) record 0 input).mapError stopOf := by
    intro fuel hfuel
    obtain ⟨k, rfl⟩ : ∃ k, fuel = k + 1 := ⟨fuel - 1, by omega⟩
    refine decoder_agrees h hr (fun j hj => ?_) honly
    exact call_agrees h version (recordFuel plan) (by omega) hr 0 input
  cases hread : readRecord plan version (recordFuel plan) record 0 input with
  | error e =>
    obtain ⟨d, rfl⟩ := honly e hread
    refine ⟨.error d, by simp [decodeRecord, hread, Except.mapError], ?_⟩
    intro fuel hfuel
    simp [Items.decode, hcall fuel hfuel, hread, Except.mapError, stopOf]
  | ok r =>
    refine ⟨.ok ⟨r.1, input.length - r.2.length⟩, ?_, ?_⟩
    · simp [decodeRecord, hread, Except.mapError]
    intro fuel hfuel
    simp [Items.decode, hcall fuel hfuel, hread, Except.mapError]

end WireSchema.Source

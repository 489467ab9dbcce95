import WireSchema.Compile
import WireSchema.Proofs.Declared

/-!
The emitter writes a program. Each of its functions gives the lines that printing gives for the part
of the program that it stands for, so that the emitted text is the printed program.
-/

namespace WireSchema.Source.Emit

variable (runtime : String) (plan : UnitPlan) (record : RecordPlan) (f : FieldPlan)

theorem stmtMarks_append (ss ts : List Stmt) :
    stmtMarks runtime (ss ++ ts) = stmtMarks runtime ss ++ stmtMarks runtime ts := by
  induction ss with
  | nil => rfl
  | cons s ss ih => simp only [List.cons_append, stmtMarks, ih, List.append_assoc]

theorem stmtMarks_flatMap {α : Type} (g : α → List Stmt) (xs : List α) :
    stmtMarks runtime (xs.flatMap g) = xs.flatMap fun x => stmtMarks runtime (g x) := by
  induction xs with
  | nil => rfl
  | cons x xs ih => rw [List.flatMap_cons, List.flatMap_cons, stmtMarks_append, ih]

theorem raise_unexpectedNull :
    (Stmt.raise (.unexpectedNull f.ident)).marks runtime = [nullFailure f] := by
  unfold nullFailure Stmt.marks Failure.render
  refine congrArg (fun text => [Mark.line text]) (String.toList_inj.mp ?_)
  simp [toString]

theorem failIf_unexpectedNull (c : Condition) :
    (failIf c (.unexpectedNull f.ident)).marks runtime =
      [.opening ("if " ++ c.render runtime ++ openBrace), nullFailure f, .closing closeBrace] := by
  rw [failIf, Stmt.marks, stmtMarks, raise_unexpectedNull]
  rfl

theorem raise_invalidLength :
    (Stmt.raise (.invalidLength f.ident .len)).marks runtime =
      [.line s!"return Err(DecodeError::invalid_length({Text.quote f.ident}, len));"] := by
  unfold Stmt.marks Failure.render
  refine congrArg (fun text => [Mark.line text]) (String.toList_inj.mp ?_)
  simp [toString, Var.name]

theorem nestedCall_eq (name decoder : String) :
    nestedCall plan record name decoder =
      (Source.nestedCall plan record name decoder).render := by
  unfold nestedCall Source.nestedCall
  cases record.depthDecoder with
  | none => rfl
  | some outer => cases (plan.record? name).bind RecordPlan.depthDecoder <;> rfl

/-- The lines that read a value are those of the statements that do. -/
theorem value_eq (sink : Sink) :
    value plan record f sink = stmtMarks runtime (readValue plan record f sink) := by
  have hlong : (failIf (.isTooLong .len) (.invalidLength f.ident .len)).marks runtime =
      [.opening "if len > 0x7FFF \x7b",
       .line s!"return Err(DecodeError::invalid_length({Text.quote f.ident}, len));",
       .closing closeBrace] := by
    rw [failIf, Stmt.marks, stmtMarks, raise_invalidLength]
    rfl
  unfold value readValue
  cases f.rule with
  | primitive kind =>
    cases kind with
    | int w => cases w <;> rfl
    | uuid => rfl
    | string =>
      simp only [stmtMarks, Stmt.marks, failIf_unexpectedNull, hlong]
      rfl
    | bytes =>
      simp only [stmtMarks, Stmt.marks, failIf_unexpectedNull]
      rfl
  | record name decoder =>
    simp only [stmtMarks, Stmt.marks, nestedCall_eq]
    rfl

/-- A field that is an array reads its count and loops; any other reads its one value. -/
theorem read_eq : read plan record f = stmtMarks runtime (readField plan record f) := by
  unfold read readField
  cases f.isArray with
  | false => exact value_eq runtime plan record f .assign
  | true =>
    simp only [Bool.not_true, Bool.false_eq_true, if_false, if_true, value_eq runtime, stmtMarks,
      Stmt.marks, failIf_unexpectedNull]
    simp only [List.cons_append, List.nil_append, List.append_nil, List.append_assoc]
    rfl

theorem marks_branch_nil (c : Condition) (body : List Stmt) :
    (Stmt.branch c body []).marks runtime =
      .opening ("if " ++ c.render runtime ++ openBrace) ::
        stmtMarks runtime body ++ [.closing closeBrace] := by
  rw [Stmt.marks]

theorem marks_branch_cons (c : Condition) (body : List Stmt) (s : Stmt) (ss : List Stmt) :
    (Stmt.branch c body (s :: ss)).marks runtime =
      .opening ("if " ++ c.render runtime ++ openBrace) ::
        stmtMarks runtime body ++
          .reopening "\x7d else \x7b" :: stmtMarks runtime (s :: ss) ++ [.closing closeBrace] := by
  rw [Stmt.marks, stmtMarks]
  rfl

/-- A field with a default has one line that sets it, and one without has none. -/
theorem setDefault_cases :
    (defaultAssignment? f = none ∧ setDefault f = []) ∨
    ∃ line s, defaultAssignment? f = some line ∧ setDefault f = [s] ∧
      stmtMarks runtime [s] = [.line line] := by
  unfold defaultAssignment? setDefault
  cases f.default with
  | absent => exact .inl ⟨rfl, rfl⟩
  | string text =>
    refine .inr ⟨_, _, rfl, rfl, ?_⟩
    refine congrArg (fun text => [Mark.line text]) (String.toList_inj.mp ?_)
    unfold renderStore Expr.render
    simp [toString]
  | int v => exact .inr ⟨_, _, rfl, rfl, rfl⟩

/-- The guard and the default together say which branches there are. -/
theorem field_eq : field plan record f = stmtMarks runtime (fieldBody plan record f) := by
  unfold field fieldBody
  cases f.readGuard with
  | none => exact read_eq runtime plan record f
  | some guard =>
    have hguard : (Condition.version guard).render runtime = renderGuard guard := rfl
    dsimp only
    rw [read_eq runtime, stmtMarks, stmtMarks]
    rcases setDefault_cases runtime f with ⟨hline, hset⟩ | ⟨line, s, hline, hset, hmarks⟩
    · rw [hline, hset, marks_branch_nil, hguard]
      simp [closeBrace]
    · rw [hline, hset, marks_branch_cons, hguard, hmarks]
      simp [closeBrace]

/-- The lines of a decoder's body are those of the statements that decode a record. -/
theorem body_eq : body plan record = stmtMarks runtime (recordBody plan record) := by
  unfold body recordBody
  simp only [List.cons_append, stmtMarks, stmtMarks_append, stmtMarks_flatMap,
    ← field_eq runtime plan record]
  rfl

theorem signature_eq (name : String) (body : List Stmt) :
    (⟨name, true, false, record.name, body⟩ : Function).signature runtime =
      s!"pub fn {name}(buf: &mut &[u8], version: i16) -> " ++ returns record runtime ++
        openBrace := by
  unfold Function.signature returns
  apply String.toList_inj.mp
  simp [toString]

theorem countingSignature_eq (name : String) (body : List Stmt) :
    (⟨name, false, true, record.name, body⟩ : Function).signature runtime =
      s!"fn {name}(buf: &mut &[u8], version: i16, depth: usize) -> " ++ returns record runtime ++
        openBrace := by
  unfold Function.signature returns
  apply String.toList_inj.mp
  simp [toString]

theorem levelCheck_eq :
    (failIf .isTooDeep .nestingTooDeep).marks runtime =
      [.opening (s!"if depth >= {runtime}::MAX_NESTING_DEPTH" ++ openBrace),
       .line (s!"return Err({runtime}::DecodeError::nesting_too_deep(" ++
        s!"{runtime}::MAX_NESTING_DEPTH));"),
       .closing closeBrace] := by
  have hif : "if " ++ Condition.isTooDeep.render runtime ++ openBrace =
      s!"if depth >= {runtime}::MAX_NESTING_DEPTH" ++ openBrace := by
    unfold Condition.render
    apply String.toList_inj.mp
    simp [toString]
  have hreturn : s!"return Err({Failure.nestingTooDeep.render runtime});" =
      s!"return Err({runtime}::DecodeError::nesting_too_deep(" ++
        s!"{runtime}::MAX_NESTING_DEPTH));" := by
    unfold Failure.render
    apply String.toList_inj.mp
    simp [toString]
  rw [failIf, marks_branch_nil, stmtMarks, Stmt.marks, stmtMarks, hif, hreturn]
  rfl

/-- The functions of a record stand behind the line that tells what they do. -/
theorem decoder_eq :
    decoder plan record runtime =
      .line s!"/// Decode `{record.name}` for protocol `version`, advancing `buf` past it." ::
        functionMarks runtime (functions plan record) := by
  unfold decoder functions
  cases record.depthDecoder with
  | none =>
    simp only [functionMarks, Function.marks, signature_eq, ← body_eq runtime]
    rfl
  | some counting =>
    -- Lints are told from the body of a function, and this one starts with the check of the level.
    have hlints (body : List Stmt) : (⟨counting, false, true, record.name,
        failIf .isTooDeep .nestingTooDeep :: body⟩ : Function).lints = decoderLints := rfl
    simp only [functionMarks, Function.marks, signature_eq, countingSignature_eq, stmtMarks,
      levelCheck_eq, hlints, ← body_eq runtime, List.cons_append, List.nil_append, List.append_nil,
      List.append_assoc]
    rfl

theorem shape_eq :
    shape record =
      [.line "#[allow(non_snake_case, non_camel_case_types)]",
       .line "#[derive(Debug, Clone, Default, PartialEq, Eq)]",
       .opening (s!"pub struct {record.name}" ++ openBrace)] ++
      (record.fields.map memberDef).flatMap MemberDef.marks ++ [.closing closeBrace] := by
  rw [List.flatMap_map]
  rfl

theorem struct_eq : struct plan record = (structDef plan record).marks := by
  unfold struct StructDef.marks structDef
  rw [shape_eq]
  simp

theorem head_eq (options : CompileOptions) :
    head plan options =
      [.line s!"// Code generated by wiregen from `{plan.messageName}`. DO NOT EDIT.",
       .line s!"// module: {options.moduleName}"] ++
        importMarks options.runtime plan.facilities.toList := by
  unfold head importMarks FacilitySet.isEmpty
  cases plan.facilities.toList <;> rfl

/-- What is emitted for a plan is its program in print. -/
theorem unit_eq (options : CompileOptions) : unit plan options = (program plan options).marks := by
  unfold unit Program.marks program
  simp only [head_eq, List.flatMap_map, Definition.marks, struct_eq, decoder_eq]
  rfl

end WireSchema.Source.Emit

namespace WireSchema.Source

/-- A message with a plan compiles, to what is emitted for the plan. -/
theorem compile_of_build {m : Message} {plan : UnitPlan} (h : UnitPlan.build m = .ok plan)
    (options : CompileOptions) :
    ∃ u, compile m options = .ok u ∧ u.plan = plan ∧
      u.source = layout (Emit.unit plan options) :=
  ⟨_, bind_eq_ok.mpr ⟨plan, h, rfl⟩, rfl, rfl⟩

/-- Whatever compiles has a plan, and its source is what is emitted for it. -/
theorem compile_emits {m : Message} {options : CompileOptions} {u : CompiledUnit}
    (h : compile m options = .ok u) :
    ∃ plan, UnitPlan.build m = .ok plan ∧ u.source = layout (Emit.unit plan options) := by
  obtain ⟨plan, hb, he⟩ := bind_eq_ok.mp h
  cases he
  exact ⟨plan, hb, rfl⟩

/-- Compiling prints the program of the plan. -/
theorem compile_program {m : Message} {options : CompileOptions} {u : CompiledUnit}
    (h : compile m options = .ok u) :
    ∃ plan, UnitPlan.build m = .ok plan ∧ u.source = (program plan options).render := by
  obtain ⟨plan, hb, hs⟩ := compile_emits h
  refine ⟨plan, hb, ?_⟩
  rw [hs, Program.render, ← Emit.unit_eq]

end WireSchema.Source

import WireSchema.Proofs.Blocks
import WireSchema.Proofs.CodeLines
import WireSchema.Proofs.Emission
import WireSchema.Proofs.ItemNames
import WireSchema.Proofs.OutputName
import WireSchema.Proofs.Quoting
import WireSchema.Wire.Decode

/-!
String literals of the generated source. The default of a string field takes one line of source,
and means there what it means to the decoder of the plan.
-/

namespace WireSchema

namespace Source

/-! ## Lines of source -/

def indent (depth : Nat) : List Char := (List.replicate depth "    ".toList).flatten

def textLines (depth : Nat) : List Mark → List (List Char)
  | [] => []
  | m :: rest =>
    (lineChars (m.lineDepth depth) m.text).splitOn '\n' ++ textLines (m.depthAfter depth) rest

theorem splitOn_layoutFrom (depth : Nat) (marks : List Mark) :
    ((layoutFrom depth marks).flatMap String.toList).splitOn '\n' =
      textLines depth marks ++ [[]] := by
  induction marks generalizing depth with
  | nil => rfl
  | cons m rest ih =>
    simp only [layoutFrom, List.flatMap_cons, indented_toList, List.append_assoc,
      List.singleton_append, List.splitOn_append_cons_self, ih, textLines]

/-- A text has the lines of its marks, and an empty one behind the last line feed. -/
theorem splitOn_layout (marks : List Mark) :
    (layout marks).toList.splitOn '\n' = textLines 0 marks ++ [[]] := by
  rw [layout, String.toList_join, splitOn_layoutFrom]

theorem textLines_append (depth : Nat) (xs ys : List Mark) :
    textLines depth (xs ++ ys) =
      textLines depth xs ++ textLines (xs.foldl Mark.depthAfter depth) ys := by
  induction xs generalizing depth with
  | nil => rfl
  | cons m rest ih => simp [textLines, ih]

/-- Marks in a row give lines in a row. -/
theorem textLines_within {xs marks : List Mark} (h : xs <:+: marks) :
    ∃ depth, textLines depth xs <:+: (layout marks).toList.splitOn '\n' := by
  obtain ⟨front, back, rfl⟩ := h
  refine ⟨front.foldl Mark.depthAfter 0, ?_⟩
  rw [splitOn_layout, textLines_append, textLines_append, List.append_assoc]
  exact List.infix_append _ _ _

theorem splitOn_lineChars {depth : Nat} {text : String} (hne : text.toList ≠ [])
    (hline : '\n' ∉ text.toList) :
    (lineChars depth text).splitOn '\n' = [indent depth ++ text.toList] := by
  have hblank : ∀ c ∈ indent depth, c = ' ' := by simp [indent]
  rw [lineChars_eq depth hne]
  apply List.splitOn_eq_singleton
  rw [List.mem_append, not_or]
  exact ⟨fun hm => absurd (hblank _ hm) (by decide), hline⟩

/-! ## Defaults -/

def assignment (member : String) (text : List Char) : List Char :=
  "res.".toList ++ member.toList ++ " = ::std::string::String::from(\"".toList ++
    Text.escape text ++ "\");".toList

/-- The parts of an assignment. They are stated here as the equation that `simp` would make of the
definition evaluates its strings. -/
theorem assignment_eq (member : String) (text : List Char) :
    assignment member text =
      "res.".toList ++ (member.toList ++ (" = ::std::string::String::from(\"".toList ++
        (Text.escape text ++ "\");".toList))) := by
  simp only [← List.append_assoc]
  rfl

/-- A default that is a string is assigned as its literal. -/
theorem defaultAssignment_string {f : FieldPlan} {s : String} (h : f.default = .string s) :
    ∃ text, Emit.defaultAssignment? f = some text ∧ text.toList = assignment f.ident s.toList := by
  refine ⟨s!"res.{f.ident} = ::std::string::String::from({Text.quote s});", ?_, ?_⟩
  · rw [Emit.defaultAssignment?, h]
  · simp [assignment_eq, Text.quote, toString]

/-- An assignment takes one line. -/
theorem assignment_unbroken {member : String} (h : isUsable member = true) (text : List Char) :
    ∀ c ∈ assignment member text, c ∉ Text.lineBreaks := by
  have hmember : ∀ c ∈ member.toList, c ∉ Text.lineBreaks := by
    have hrest : Text.lineBreaks.any isIdentRest = false := by rfl
    intro c hc
    exact Text.not_lineBreak hrest (isIdentRest_of_isUsable h c hc)
  have hliteral {s : List Char} (hs : Text.lineBreaks.any s.contains = false) :
      ∀ c ∈ s, c ∉ Text.lineBreaks :=
    fun c hc => Text.not_lineBreak hs (List.contains_iff_mem.mpr hc)
  have hfront := hliteral (s := "res.".toList) (by rfl)
  have hpath := hliteral (s := " = ::std::string::String::from(\"".toList) (by rfl)
  have hback := hliteral (s := "\");".toList) (by rfl)
  intro c hc
  simp only [assignment_eq, List.mem_append] at hc
  rcases hc with hc | hc | hc | hc | hc
  · exact hfront c hc
  · exact hmember c hc
  · exact hpath c hc
  · exact Text.escape_unbroken text c hc
  · exact hback c hc

/-- The marks of the part that sets an absent field. -/
theorem default_marks {plan : UnitPlan} (options : CompileOptions) {r : RecordPlan}
    (hr : r ∈ plan.records) {f : FieldPlan} (hf : f ∈ r.fields) {p : VersionPredicate}
    (hp : f.readGuard = some p) {text : String} (ht : Emit.defaultAssignment? f = some text) :
    [.reopening "\x7d else \x7b", .line text, .closing "\x7d"] <:+: Emit.unit plan options := by
  refine List.IsInfix.trans (List.IsSuffix.isInfix ?_) (Emit.field_within_unit hr hf options)
  unfold Emit.field
  simp only [hp, ht, List.append_assoc]
  exact List.suffix_append _ _

/-- A literal default of a compiled message means the text of the schema. In the source, a field
that is absent in some versions is set to its text in one line, in the part behind `else`. What
stands there between the quotes breaks no line and has no bare quote, it is read back as the text up
to the closing quote and no further, and the text is what the plan gives for the field. -/
theorem default_literal {m : Message} {options : CompileOptions} {u : CompiledUnit}
    (h : compile m options = .ok u) :
    ∃ plan, UnitPlan.build m = .ok plan ∧ u.source = (program plan options).render ∧
      ∀ r ∈ plan.records, ∀ f ∈ r.fields, f.readGuard.isSome = true →
        ∀ s, f.default = .string s →
          (∃ depth, [indent depth ++ "\x7d else \x7b".toList,
              indent (depth + 1) ++ assignment f.ident s.toList,
              indent depth ++ "\x7d".toList] <:+: u.source.toList.splitOn '\n') ∧
          (∀ c ∈ assignment f.ident s.toList, c ∉ Text.lineBreaks) ∧
          Text.hasBareQuote (Text.escape s.toList) = false ∧
          (∀ rest, Text.readLiteral .plain (Text.escape s.toList ++ '"' :: rest) =
            some (s.toList, rest)) ∧
          Decode.fallback plan f = .ok (.string s) := by
  obtain ⟨plan, hb, hsource⟩ := compile_program h
  refine ⟨plan, hb, hsource, ?_⟩
  intro r hr f hf hguard s hs
  obtain ⟨p, hp⟩ := Option.isSome_iff_exists.mp hguard
  have hunbroken := assignment_unbroken (UnitPlan.build_ident hb hr hf) s.toList
  refine ⟨?_, hunbroken, Text.hasBareQuote_escape _, Text.readLiteral_escape _,
    by rw [Decode.fallback, hs]⟩
  obtain ⟨text, ht, htext⟩ := defaultAssignment_string hs
  obtain ⟨depth, hlines⟩ := textLines_within (default_marks options hr hf hp ht)
  rw [hsource, Program.render, ← Emit.unit_eq]
  refine ⟨depth - 1, ?_⟩
  have hassign : '\n' ∉ text.toList := by
    rw [htext]
    exact fun hm => hunbroken _ hm (by decide)
  have hne : text.toList ≠ [] := by
    rw [htext, assignment_eq]
    simp
  simp only [textLines, Mark.lineDepth, Mark.depthAfter, Mark.text, splitOn_lineChars hne hassign,
    htext] at hlines
  rw [splitOn_lineChars (by decide) (by decide),
    splitOn_lineChars (by decide) (by decide)] at hlines
  exact hlines

end Source

namespace Samples

/-- A text with quotes, a backslash before a letter, a line feed and an accent. -/
def awkwardText : String := "\"\\n\"\n\u0301"

def awkwardField : FieldPlan :=
  ⟨"y", "Y", false, .primitive .string, some (.exact 1), .string awkwardText, none⟩

def awkwardRequest : Message where
  category := "request"
  name := "Awkward"
  validVersions := "0-1"
  flexibleVersions := ""
  fields :=
    [{ name := "y", typeText := "string", versions := "1", default := .string awkwardText }]
  commonRecords := []

def awkwardPlan : UnitPlan where
  messageName := "Awkward"
  category := "request"
  records := [⟨"Awkward", "ReadAwkward", .message, none, none, [awkwardField]⟩]
  facilities := ⟨true, true, false⟩

theorem build_awkwardRequest : UnitPlan.build awkwardRequest = .ok awkwardPlan := by rfl

end Samples

namespace Source

theorem default_literal_awkward :
    ∃ u, compile Samples.awkwardRequest {} = .ok u ∧
      UnitPlan.build Samples.awkwardRequest = .ok Samples.awkwardPlan ∧
      Text.escape Samples.awkwardText.toList =
        ['\\', '"', '\\', '\\', 'n', '\\', '"', '\\', 'n', '\\', 'u', '\x7b', '3', '0', '1',
          '\x7d'] ∧
      (∃ depth, [indent depth ++ "\x7d else \x7b".toList,
          indent (depth + 1) ++ assignment "Y" Samples.awkwardText.toList,
          indent depth ++ "\x7d".toList] <:+: u.source.toList.splitOn '\n') ∧
      Text.readLiteral .plain (Text.escape Samples.awkwardText.toList ++ '"' :: [')', ';']) =
        some (Samples.awkwardText.toList, [')', ';']) ∧
      Decode.fallback Samples.awkwardPlan Samples.awkwardField =
        .ok (.string Samples.awkwardText) := by
  obtain ⟨u, hu⟩ : ∃ u, compile Samples.awkwardRequest {} = .ok u :=
    ⟨_, bind_eq_ok.mpr ⟨Samples.awkwardPlan, Samples.build_awkwardRequest, rfl⟩⟩
  obtain ⟨plan, hb, _, hall⟩ := default_literal hu
  cases hb.symm.trans Samples.build_awkwardRequest
  obtain ⟨hlines, _, _, hread, hvalue⟩ := hall _ (List.mem_singleton_self _) Samples.awkwardField
    (List.mem_singleton_self _) rfl _ rfl
  exact ⟨u, hu, Samples.build_awkwardRequest, rfl, hlines, hread _, hvalue⟩

end Source

end WireSchema

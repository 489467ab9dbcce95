import WireSchema.Proofs.Tokens

/-!
What the bodies of generated functions use of the items that can be imported, told from the tokens
of their lines. It is what reading the fields of the plan takes.
-/

namespace WireSchema

namespace Source

/-- A name behind this token is that of a member, or part of a longer path. -/
def Token.qualifies : Token → Bool
  | sign s => ['.'].isSuffixOf s.toList || [':', ':'].isSuffixOf s.toList
  | _ => false

/-- The name of a method of `Buf` stands at the front of a line. -/
def isBufMethod : List Token → Bool
  | .word name :: _ =>
    "try_get_".toList.isPrefixOf name.toList ||
      ["try_copy_to_slice", "remaining", "copy_to_bytes"].contains name
  | _ => false

/-- What stands at the front of a line: the call of a method of `Buf` on `buf`, a path that starts
with `DecodeError`, or a call of `read_uvarint`. -/
def isUseOf (facility : Facility) : List Token → Bool
  | .word name :: .sign s :: rest =>
    -- The sign comes first, so that most lines are decided whatever names stand in them.
    match facility with
    | .bigEndian => ['.'].isPrefixOf s.toList && name == "buf" && isBufMethod rest
    | .errorConstruction => [':', ':'].isPrefixOf s.toList && name == "DecodeError"
    | .lengthDelimited => ['('].isPrefixOf s.toList && name == "read_uvarint"
  | _ => false

/-- Whether a line, from behind the token `before` on, uses what a facility imports. -/
def usesBehind (facility : Facility) (before : Option Token) : List Token → Bool
  | [] => false
  | t :: rest =>
    (!before.any Token.qualifies && isUseOf facility (t :: rest)) ||
      usesBehind facility (some t) rest

def uses (facility : Facility) (line : List Token) : Bool := usesBehind facility none line

def Init.needs : Init → List Facility
  | readVarint => [.lengthDelimited]
  | readLength => [.bigEndian]
  | taken _ => [.bigEndian]
  | _ => []

def Condition.needs : Condition → List Facility
  | isShort _ => [.bigEndian]
  | _ => []

def Failure.needs : Failure → List Facility
  | unexpectedNull _ => [.errorConstruction]
  | invalidLength _ _ => [.errorConstruction]
  | unexpectedEnd _ => [.errorConstruction, .bigEndian]
  | nestingTooDeep => []

def Expr.needs : Expr → List Facility
  | readInt _ => [.bigEndian]
  | taken _ => [.bigEndian]
  | nested _ _ _ => [.errorConstruction]
  | _ => []

def Stmt.needs : Stmt → List Facility
  | .bind _ value => value.needs
  | .fill _ => [.bigEndian]
  | .store _ _ value => value.needs
  | .raise failure => failure.needs
  | .branch condition _ _ => condition.needs
  | _ => []

theorem Init.uses_line (x : Var) (value : Init) (facility : Facility) :
    uses facility (value.line x) = value.needs.contains facility := by
  cases facility <;> cases value <;> rfl

theorem Condition.uses_line (c : Condition) (facility : Facility) :
    uses facility c.line = c.needs.contains facility := by
  cases facility <;> cases c with
  | version p => cases p <;> rfl
  | _ => rfl

theorem Failure.uses_line (f : Failure) (facility : Facility) :
    uses facility f.line = f.needs.contains facility := by
  cases facility <;> cases f <;> rfl

/-- A call uses nothing, but for one of `read_uvarint`. -/
theorem usesBehind_call (facility : Facility) (before : Option Token) {c : Call}
    (h : c.function ≠ "read_uvarint") (rest : List Token) :
    usesBehind facility before (c.tokens ++ rest) =
      usesBehind facility (some (.sign ")")) rest := by
  have hfront (more : List Token) : isUseOf facility
      (.word c.function :: .sign "(" :: .word "buf" :: more) = false := by
    cases facility with
    | bigEndian => rfl
    | errorConstruction => rfl
    | lengthDelimited => simp [isUseOf, h]
  unfold Call.tokens
  simp only [List.cons_append, List.nil_append]
  rw [usesBehind, hfront, Bool.and_false, Bool.false_or]
  rcases c.level with _ | _ | _ <;> cases facility <;> rfl

/-- A line that fills a member uses what its expression needs. A decoder named like the varint
reader would spoil this. -/
theorem Expr.uses_line (sink : Sink) (member : String) {value : Expr}
    (h : ∀ call record field, value = .nested call record field → call.function ≠ "read_uvarint")
    (facility : Facility) :
    uses facility (storeTokens sink member value.tokens) = value.needs.contains facility := by
  -- A member stands behind a dot, so its own name is never a use.
  have hassign (rest : List Token) : uses facility
      ([.word "res", .sign ".", .word member, .sign " = "] ++ rest) =
        usesBehind facility (some (.sign " = ")) rest := by
    cases facility <;> rfl
  have hpush (rest : List Token) : uses facility
      ([.word "res", .sign ".", .word member, .sign ".", .word "push", .sign "("] ++ rest) =
        usesBehind facility (some (.sign "(")) rest := by
    cases facility <;> rfl
  cases value with
  | nested call record field =>
    cases sink with
    | assign =>
      simp only [storeTokens, List.append_assoc, hassign, Expr.tokens,
        usesBehind_call facility _ (h call record field rfl)]
      cases facility <;> rfl
    | push =>
      simp only [storeTokens, List.append_assoc, hpush, Expr.tokens,
        usesBehind_call facility _ (h call record field rfl)]
      cases facility <;> rfl
  | readInt w => cases w <;> cases sink <;> cases facility <;> rfl
  | _ => cases sink <;> cases facility <;> rfl

def Stmt.calls : Stmt → List Call
  | .store _ _ (.nested call _ _) => [call]
  | .delegate call => [call]
  | _ => []

/-- The lines of a statement itself, without those of the statements inside it. -/
def Stmt.ownLines : Stmt → List (List Token)
  | .branch condition _ [] => [condition.line, closeLine]
  | .branch condition _ (_ :: _) => [condition.line, elseLine, closeLine]
  | .block _ => [[.sign "\x7b"], closeLine]
  | .loop x _ => [loopLine x, closeLine]
  | s => s.lines

mutual

/-- Every line of a statement is one of a part of it. -/
theorem Stmt.mem_lines (s : Stmt) (line : List Token) :
    line ∈ s.lines ↔ ∃ t ∈ s.parts, line ∈ t.ownLines := by
  match s with
  | .block body =>
    have hbody := mem_linesOf body line
    simp only [Stmt.lines, Stmt.parts, Stmt.ownLines, List.mem_cons, List.mem_append, hbody]
    grind
  | .loop x body =>
    have hbody := mem_linesOf body line
    simp only [Stmt.lines, Stmt.parts, Stmt.ownLines, List.mem_cons, List.mem_append, hbody]
    grind
  | .branch condition body [] =>
    have hbody := mem_linesOf body line
    simp only [Stmt.lines, Stmt.parts, allParts, Stmt.ownLines, List.mem_cons, List.mem_append,
      hbody]
    grind
  | .branch condition body (t :: ts) =>
    have hbody := mem_linesOf body line
    have hfirst := t.mem_lines line
    have hrest := mem_linesOf ts line
    simp only [Stmt.lines, Stmt.parts, allParts, Stmt.ownLines, List.mem_cons, List.mem_append,
      hbody, hfirst, hrest]
    grind
  | .result record => simp [Stmt.parts, Stmt.ownLines]
  | .bind x value => simp [Stmt.parts, Stmt.ownLines]
  | .fill x => simp [Stmt.parts, Stmt.ownLines]
  | .store sink member value => simp [Stmt.parts, Stmt.ownLines]
  | .raise failure => simp [Stmt.parts, Stmt.ownLines]
  | .delegate call => simp [Stmt.parts, Stmt.ownLines]
  | .finish => simp [Stmt.parts, Stmt.ownLines]
termination_by sizeOf s

theorem mem_linesOf (ss : List Stmt) (line : List Token) :
    line ∈ linesOf ss ↔ ∃ t ∈ allParts ss, line ∈ t.ownLines := by
  match ss with
  | [] => simp [linesOf, allParts]
  | s :: rest =>
    simp only [linesOf, allParts, List.mem_append, s.mem_lines line, mem_linesOf rest line,
      or_and_right, exists_or]
termination_by sizeOf ss

end

/-- The lines of a statement itself use what it needs. -/
theorem Stmt.any_uses {s : Stmt} (h : ∀ call ∈ s.calls, call.function ≠ "read_uvarint")
    (facility : Facility) : s.ownLines.any (uses facility) = s.needs.contains facility := by
  have hclose : uses facility closeLine = false := by cases facility <;> rfl
  cases s with
  | result record => cases facility <;> rfl
  | bind x value => simp [Stmt.ownLines, Stmt.lines, Stmt.needs, Init.uses_line]
  | fill x => cases facility <;> rfl
  | store sink member value =>
    have hcall : ∀ call record field, value = .nested call record field →
        call.function ≠ "read_uvarint" := by
      rintro call record field rfl
      exact h call (by simp [Stmt.calls])
    simp [Stmt.ownLines, Stmt.lines, Stmt.needs, Expr.uses_line sink member hcall]
  | raise failure => simp [Stmt.ownLines, Stmt.lines, Stmt.needs, Failure.uses_line]
  | branch condition body otherwise =>
    have helse : uses facility elseLine = false := by cases facility <;> rfl
    cases otherwise <;> simp [Stmt.ownLines, Stmt.needs, Condition.uses_line, hclose, helse]
  | block body => cases facility <;> rfl
  | loop x body => cases facility <;> rfl
  | delegate call =>
    have hcall := usesBehind_call facility none (h call (by simp [Stmt.calls])) []
    rw [List.append_nil] at hcall
    simp [Stmt.ownLines, Stmt.lines, Stmt.needs, uses, hcall, usesBehind]
  | finish => cases facility <;> rfl

def needsOf (ss : List Stmt) : List Facility := (allParts ss).flatMap Stmt.needs

/-- A row of lines uses a facility just if some statement needs it, provided that no decoder is
named like the varint reader. -/
theorem uses_linesOf_iff {ss : List Stmt}
    (h : ∀ s ∈ allParts ss, ∀ call ∈ s.calls, call.function ≠ "read_uvarint")
    (facility : Facility) :
    (∃ line ∈ linesOf ss, uses facility line = true) ↔ facility ∈ needsOf ss := by
  rw [needsOf, List.mem_flatMap]
  constructor
  · intro hyp
    obtain ⟨line, hline, huse⟩ := hyp
    obtain ⟨s, hs, hline⟩ := (mem_linesOf ss line).mp hline
    have hany := Stmt.any_uses (h s hs) facility
    rw [List.any_eq_true.mpr ⟨line, hline, huse⟩] at hany
    exact ⟨s, hs, List.contains_iff_mem.mp hany.symm⟩
  · intro hyp
    obtain ⟨s, hs, hneed⟩ := hyp
    have hany := Stmt.any_uses (h s hs) facility
    rw [List.contains_iff_mem.mpr hneed] at hany
    obtain ⟨line, hline, huse⟩ := List.any_eq_true.mp hany
    exact ⟨line, (mem_linesOf ss line).mpr ⟨s, hs, hline⟩, huse⟩

theorem allParts_append (xs ys : List Stmt) : allParts (xs ++ ys) = allParts xs ++ allParts ys := by
  induction xs with
  | nil => rfl
  | cons s rest ih => simp [allParts, ih]

theorem needsOf_append (xs ys : List Stmt) : needsOf (xs ++ ys) = needsOf xs ++ needsOf ys := by
  simp [needsOf, allParts_append]

section

variable (plan : UnitPlan) (record : RecordPlan) (f : FieldPlan) (facility : Facility)

/-- The statements that read one value use what its rule asks for. -/
theorem mem_needsOf_readValue (sink : Sink) :
    facility ∈ needsOf (readValue plan record f sink) ↔
      f.rule.facilities.contains facility = true := by
  have hsame : (needsOf (readValue plan record f sink)).contains facility =
      f.rule.facilities.contains facility := by
    unfold readValue
    cases f.rule with
    | record name decoder => cases facility <;> rfl
    | primitive kind => cases kind <;> cases facility <;> rfl
  rw [← hsame, List.contains_iff_mem]

/-- What the statements of a field use is what the plan of the field says. -/
theorem mem_needsOf_readField :
    facility ∈ needsOf (readField plan record f) ↔ f.facilities.contains facility = true := by
  have hvalue (sink : Sink) := mem_needsOf_readValue plan record f facility sink
  unfold readField FieldPlan.facilities
  split
  · -- What an array takes by itself is what its count takes.
    have hcount : needsOf
        [.block
          [.bind .count .readVarint,
           failIf (.isZero .count) (.unexpectedNull f.ident),
           .loop .count (readValue plan record f .push)]] =
          [.lengthDelimited, .errorConstruction] ++ needsOf (readValue plan record f .push) := by
      simp [needsOf, failIf, allParts, Stmt.parts, Stmt.needs, Init.needs, Condition.needs,
        Failure.needs]
    rw [hcount, List.mem_append, hvalue, FacilitySet.contains_union, FacilitySet.contains_ofList]
    exact or_comm
  · exact hvalue .assign

theorem needsOf_setDefault : needsOf (setDefault f) = [] := by
  unfold setDefault
  cases f.default <;> rfl

theorem mem_needsOf_fieldBody :
    facility ∈ needsOf (fieldBody plan record f) ↔ f.facilities.contains facility = true := by
  rw [← mem_needsOf_readField plan record f facility]
  unfold fieldBody
  split
  · rfl
  · rename_i p _
    have hbranch : needsOf [.branch (.version p) (readField plan record f) (setDefault f)] =
        needsOf (readField plan record f) ++ needsOf (setDefault f) := by
      simp [needsOf, allParts, Stmt.parts, Stmt.needs, Condition.needs]
    rw [hbranch, needsOf_setDefault, List.append_nil]

/-- What the body of a decoder uses is what some field of its record needs. -/
theorem mem_needsOf_recordBody :
    facility ∈ needsOf (recordBody plan record) ↔
      ∃ f ∈ record.fields, f.facilities.contains facility = true := by
  have hfields (fields : List FieldPlan) :
      facility ∈ needsOf (fields.flatMap (fieldBody plan record)) ↔
        ∃ f ∈ fields, f.facilities.contains facility = true := by
    induction fields with
    | nil => simp [needsOf, allParts]
    | cons f rest ih =>
      simp only [List.flatMap_cons, needsOf_append, List.mem_append, ih,
        mem_needsOf_fieldBody plan record f, List.exists_mem_cons_iff]
  have hbody : needsOf (recordBody plan record) =
      needsOf (record.fields.flatMap (fieldBody plan record)) := by
    rw [recordBody, needsOf_append, ← List.singleton_append, needsOf_append]
    simp [needsOf, allParts, Stmt.parts, Stmt.needs]
  rw [hbody, hfields]

/-- The functions of a record use what reading its fields takes: counting levels adds nothing. -/
theorem mem_needsOf_functions :
    (∃ g ∈ functions plan record, facility ∈ needsOf g.body) ↔
      ∃ f ∈ record.fields, f.facilities.contains facility = true := by
  rw [← mem_needsOf_recordBody plan record]
  unfold functions
  cases record.depthDecoder with
  | none => simp
  | some counting =>
    have hstart : needsOf [.delegate ⟨counting, some .start⟩] = [] := rfl
    have hcheck : needsOf (failIf .isTooDeep .nestingTooDeep :: recordBody plan record) =
        needsOf (recordBody plan record) := by
      simp [needsOf, failIf, allParts, Stmt.parts, Stmt.needs, Condition.needs, Failure.needs]
    simp [hstart, hcheck]

end

/-- The functions of a plan use what reading all fields takes. -/
theorem mem_needsOf_items (plan : UnitPlan) (facility : Facility) :
    (∃ g ∈ (items plan).functions, facility ∈ needsOf g.body) ↔
      (collectFacilities plan.records).contains facility = true := by
  simp only [mem_functions_items, collectFacilities, FacilitySet.contains_foldl,
    FacilitySet.not_contains_empty, Bool.false_eq_true, false_or, List.mem_flatMap]
  constructor
  · intro hyp
    obtain ⟨g, ⟨r, hr, hg⟩, hneed⟩ := hyp
    obtain ⟨f, hf, hc⟩ := (mem_needsOf_functions plan r facility).mp ⟨g, hg, hneed⟩
    exact ⟨f, ⟨r, hr, hf⟩, hc⟩
  · intro hyp
    obtain ⟨f, ⟨r, hr, hf⟩, hc⟩ := hyp
    obtain ⟨g, hg, hneed⟩ := (mem_needsOf_functions plan r facility).mpr ⟨f, hf, hc⟩
    exact ⟨g, ⟨r, hr, hg⟩, hneed⟩

end Source

end WireSchema

import WireSchema.Proofs.Linked

/-!
The bodies of generated functions as tokens. The text of a line is the text of its tokens in a row,
and names are tokens of their own, so that what a line uses can be told from its tokens.
-/

namespace WireSchema.Source

inductive Token where
  /-- A name or a keyword. -/
  | word (text : String)
  /-- Punctuation, with the blanks around it. -/
  | sign (text : String)
  | number (value : Int)
  /-- A string literal. -/
  | literal (text : String)
  /-- The path that leads to the runtime, which is not looked into. -/
  | runtime
  deriving DecidableEq

namespace Token

def text (runtime : String) : Token → String
  | word s => s
  | sign s => s
  | number v => toString v
  | literal s => Text.quote s
  | .runtime => runtime

def isSign : Token → Bool
  | sign _ => true
  | _ => false

/-- Words are names, and there is no part of a name or of a literal in punctuation, and no line
break. -/
def isWhole : Token → Bool
  | word s => !s.toList.isEmpty && s.toList.all isIdentRest
  | sign s => s.toList.all fun c => !isIdentRest c && c != '"' && c != '\n'
  | _ => true

end Token

def spell (runtime : String) (line : List Token) : List Char :=
  line.flatMap fun t => (t.text runtime).toList

def areApart : List Token → Bool
  | a :: b :: rest => (a.isSign || b.isSign) && areApart (b :: rest)
  | _ => true

/-- A text is made of the tokens of a line. -/
structure Reads (runtime text : String) (line : List Token) : Prop where
  spelled : text.toList = spell runtime line
  whole : line.all Token.isWhole = true
  apart : areApart line = true

/-- A line of tokens is one line of text, if the path to the runtime breaks none. -/
theorem Reads.unbroken {runtime text : String} {line : List Token} (h : Reads runtime text line)
    (hr : '\n' ∉ runtime.toList) : '\n' ∉ text.toList := by
  have htoken : ∀ t ∈ line, '\n' ∉ (t.text runtime).toList := by
    intro t ht
    have hwhole := List.all_eq_true.mp h.whole t ht
    cases t with
    | word s =>
      simp only [Token.isWhole, Bool.and_eq_true, List.all_eq_true] at hwhole
      exact fun hm => absurd (hwhole.2 _ hm) (by decide)
    | sign s =>
      simp only [Token.isWhole, List.all_eq_true] at hwhole
      exact fun hm => absurd (hwhole _ hm) (by decide)
    | number v => exact unbroken_toString v
    | literal s =>
      intro hm
      simp only [Token.text, Text.quote, String.toList_ofList, List.cons_append, List.mem_cons,
        List.mem_append, List.not_mem_nil, or_false] at hm
      rcases hm with hm | hm | hm
      · cases hm
      · exact Text.escape_unbroken s.toList _ hm (by decide)
      · cases hm
    | runtime => exact hr
  rw [h.spelled, spell, List.mem_flatMap]
  rintro ⟨t, ht, hm⟩
  exact htoken t ht hm

def Var.token (x : Var) : Token := .word x.name

def Init.tokens : Init → List Token
  | readVarint => [.word "read_uvarint", .sign "(", .word "buf", .sign ")?"]
  | readLength => [.word "buf", .sign ".", .word "try_get_u16", .sign "()?"]
  | widened x => [.word "usize", .sign "::", .word "from", .sign "(", x.token, .sign ")"]
  | decremented x =>
    [.sign "(", x.token, .sign " - ", .number 1, .sign ") ", .word "as", .sign " ", .word "usize"]
  | zeros => [.sign "[", .word "0u8", .sign "; ", .number 16, .sign "]"]
  | taken x => [.word "buf", .sign ".", .word "copy_to_bytes", .sign "(", x.token, .sign ")"]

def Init.keywordTokens : Init → List Token
  | zeros => [.word "let", .sign " ", .word "mut"]
  | _ => [.word "let"]

def guardTokens : VersionPredicate → List Token
  | .exact n => [.word "version", .sign " == ", .number n.toInt]
  | .minimum n => [.word "version", .sign " >= ", .number n.toInt]
  | .range lo hi =>
    [.sign "(", .number lo.toInt, .sign "..=", .number hi.toInt, .sign ").", .word "contains",
     .sign "(&", .word "version", .sign ")"]

def Condition.tokens : Condition → List Token
  | version p => guardTokens p
  | isZero x => [x.token, .sign " == ", .number 0]
  | isNull x => [x.token, .sign " == ", .word "0xFFFF"]
  | isTooLong x => [x.token, .sign " > ", .word "0x7FFF"]
  | isShort x => [.word "buf", .sign ".", .word "remaining", .sign "() < ", x.token]
  | isTooDeep => [.word "depth", .sign " >= ", .runtime, .sign "::", .word "MAX_NESTING_DEPTH"]

def Failure.tokens : Failure → List Token
  | unexpectedNull member =>
    [.word "DecodeError", .sign "::", .word "unexpected_null", .sign "(", .literal member,
     .sign ")"]
  | invalidLength member x =>
    [.word "DecodeError", .sign "::", .word "invalid_length", .sign "(", .literal member,
     .sign ", ", x.token, .sign ")"]
  | unexpectedEnd x =>
    [.word "DecodeError", .sign "::", .word "eof", .sign "(", x.token, .sign ", ", .word "buf",
     .sign ".", .word "remaining", .sign "())"]
  | nestingTooDeep =>
    [.runtime, .sign "::", .word "DecodeError", .sign "::", .word "nesting_too_deep", .sign "(",
     .runtime, .sign "::", .word "MAX_NESTING_DEPTH", .sign ")"]

def Call.tokens (c : Call) : List Token :=
  [.word c.function, .sign "(", .word "buf", .sign ", ", .word "version"] ++
    match c.level with
    | none => [.sign ")"]
    | some .start => [.sign ", ", .number 0, .sign ")"]
    | some .next => [.sign ", ", .word "depth", .sign " + ", .number 1, .sign ")"]

def stringPath (function : String) : List Token :=
  [.sign "::", .word "std", .sign "::", .word "string", .sign "::", .word "String", .sign "::",
   .word function]

def Expr.tokens : Expr → List Token
  | readInt w => [.word "buf", .sign ".", .word (readIntName w), .sign "()?"]
  | var x => [x.token]
  | text x =>
    stringPath "from_utf8_lossy" ++
      [.sign "(&", x.token, .sign ").", .word "into_owned", .sign "()"]
  | taken x =>
    [.word "buf", .sign ".", .word "copy_to_bytes", .sign "(", x.token, .sign ").", .word "to_vec",
     .sign "()"]
  | stringLiteral s => stringPath "from" ++ [.sign "(", .literal s, .sign ")"]
  | intLiteral v => [.number v]
  | nested call record member =>
    call.tokens ++
      [.sign ".", .word "map_err", .sign "(|", .word "e", .sign "| ", .word "DecodeError",
       .sign "::", .word "nested", .sign "(", .literal record, .sign ", ", .literal member,
       .sign ", ", .word "e", .sign "))?"]

def storeTokens (sink : Sink) (member : String) (value : List Token) : List Token :=
  match sink with
  | .assign => [.word "res", .sign ".", .word member, .sign " = "] ++ value ++ [.sign ";"]
  | .push =>
    [.word "res", .sign ".", .word member, .sign ".", .word "push", .sign "("] ++ value ++
      [.sign ");"]

def Init.line (x : Var) (value : Init) : List Token :=
  value.keywordTokens ++ [.sign " ", x.token, .sign " = "] ++ value.tokens ++ [.sign ";"]

def Condition.line (c : Condition) : List Token :=
  [.word "if", .sign " "] ++ c.tokens ++ [.sign openBrace]

def Failure.line (f : Failure) : List Token :=
  [.word "return", .sign " ", .word "Err", .sign "("] ++ f.tokens ++ [.sign ");"]

def loopLine (x : Var) : List Token :=
  [.word "for", .sign " ", .word "_", .sign " ", .word "in", .sign " ", .number 0, .sign "..",
   x.token, .sign " - ", .number 1, .sign openBrace]

def elseLine : List Token := [.sign (closeBrace ++ " "), .word "else", .sign openBrace]

def closeLine : List Token := [.sign closeBrace]

mutual

def Stmt.lines : Stmt → List (List Token)
  | .result record =>
    [[.word "let", .sign " ", .word "mut", .sign " ", .word "res", .sign ": ", .word record,
      .sign " = ::", .word "core", .sign "::", .word "default", .sign "::", .word "Default",
      .sign "::", .word "default", .sign "();"]]
  | .bind x value => [value.line x]
  | .fill x =>
    [[.word "buf", .sign ".", .word "try_copy_to_slice", .sign "(&", .word "mut", .sign " ",
      x.token, .sign ")?;"]]
  | .store sink member value => [storeTokens sink member value.tokens]
  | .raise failure => [failure.line]
  | .branch condition body [] => condition.line :: linesOf body ++ [closeLine]
  | .branch condition body (s :: ss) =>
    condition.line :: linesOf body ++ elseLine :: (s.lines ++ linesOf ss) ++ [closeLine]
  | .block body => [.sign "\x7b"] :: linesOf body ++ [closeLine]
  | .loop x body => loopLine x :: linesOf body ++ [closeLine]
  | .delegate call => [call.tokens]
  | .finish => [[.word "Ok", .sign "(", .word "res", .sign ")"]]

def linesOf : List Stmt → List (List Token)
  | [] => []
  | s :: rest => s.lines ++ linesOf rest

end

section

variable (runtime : String)

theorem spell_append (xs ys : List Token) :
    spell runtime (xs ++ ys) = spell runtime xs ++ spell runtime ys := List.flatMap_append

theorem Init.spell_tokens (value : Init) : spell runtime value.tokens = value.render.toList := by
  unfold Init.render
  cases value with
  | readVarint => simp [spell, tokens, Token.text]
  | readLength => simp [spell, tokens, Token.text]
  | widened x => simp [spell, tokens, Token.text, Var.token, toString]
  | decremented x =>
    simp [spell, tokens, Token.text, Var.token, toString]
    rfl
  | zeros =>
    simp [spell, tokens, Token.text, toString]
    rfl
  | taken x => simp [spell, tokens, Token.text, Var.token, toString]

theorem Init.spell_keywordTokens (value : Init) :
    spell runtime value.keywordTokens = value.keyword.toList := by
  cases value <;> simp [spell, keywordTokens, keyword, Token.text]

theorem spell_guardTokens (p : VersionPredicate) :
    spell runtime (guardTokens p) = (renderGuard p).toList := by
  unfold renderGuard
  cases p <;> simp [spell, guardTokens, Token.text, toString]

theorem Condition.spell_tokens (c : Condition) :
    spell runtime c.tokens = (c.render runtime).toList := by
  unfold Condition.render
  cases c with
  | version p => exact spell_guardTokens runtime p
  | isZero x =>
    simp [spell, tokens, Token.text, Var.token, toString]
    rfl
  | isNull x => simp [spell, tokens, Token.text, Var.token, toString]
  | isTooLong x => simp [spell, tokens, Token.text, Var.token, toString]
  | isShort x => simp [spell, tokens, Token.text, Var.token, toString]
  | isTooDeep => simp [spell, tokens, Token.text, toString]

theorem Failure.spell_tokens (f : Failure) :
    spell runtime f.tokens = (f.render runtime).toList := by
  unfold Failure.render
  cases f <;> simp [spell, tokens, Token.text, Var.token, toString]

theorem Call.spell_tokens (c : Call) : spell runtime c.tokens = c.render.toList := by
  unfold Call.render Call.tokens
  cases c.level with
  | none => simp [spell, Token.text, toString]
  | some level =>
    cases level <;> simp [spell, Token.text, toString] <;> rfl

/-- Its tokens spell what is rendered. -/
theorem Expr.spell_tokens (e : Expr) : spell runtime e.tokens = e.render.toList := by
  unfold Expr.render
  cases e with
  | nested call record member =>
    simp only [tokens, spell_append, Call.spell_tokens]
    simp [spell, Token.text, toString]
  | _ => simp [spell, tokens, stringPath, Token.text, Var.token, toString]

theorem spell_storeTokens (sink : Sink) (member : String) (value : Expr) :
    spell runtime (storeTokens sink member value.tokens) =
      (renderStore sink member value.render).toList := by
  unfold renderStore storeTokens
  cases sink <;> simp only [spell_append, Expr.spell_tokens] <;> simp [spell, Token.text, toString]

end

def Stmt.IsNamed : Stmt → Prop
  | .result record => (Token.word record).isWhole = true
  | .store _ member value => (Token.word member).isWhole = true ∧
    ∀ call record field, value = .nested call record field →
      (Token.word call.function).isWhole = true
  | .delegate call => (Token.word call.function).isWhole = true
  | _ => True

theorem Call.reads (runtime : String) {c : Call} (h : (Token.word c.function).isWhole = true) :
    Reads runtime c.render c.tokens := by
  refine ⟨(c.spell_tokens runtime).symm, ?_, ?_⟩
  · unfold Call.tokens
    rcases c.level with _ | _ | _ <;> simp +decide [h]
  · unfold Call.tokens
    rcases c.level with _ | _ | _ <;> rfl

theorem Condition.whole_tokens (c : Condition) : c.tokens.all Token.isWhole = true := by
  cases c with
  | version p => cases p <;> rfl
  | isTooDeep => rfl
  | isZero x => cases x <;> rfl
  | isNull x => cases x <;> rfl
  | isTooLong x => cases x <;> rfl
  | isShort x => cases x <;> rfl

/-- The line of a branch, from its first word to the brace that opens the block. -/
theorem Condition.reads (runtime : String) (c : Condition) :
    Reads runtime ("if " ++ c.render runtime ++ openBrace) c.line := by
  refine ⟨?_, ?_, ?_⟩
  · simp only [line, spell_append, Condition.spell_tokens]
    simp [spell, Token.text]
  · rw [line, List.all_append, List.all_append, c.whole_tokens]
    rfl
  · cases c with
    | version p => cases p <;> rfl
    | _ => rfl

theorem Init.whole_tokens (value : Init) : value.tokens.all Token.isWhole = true := by
  cases value with
  | readVarint => rfl
  | readLength => rfl
  | zeros => rfl
  | widened x => cases x <;> rfl
  | decremented x => cases x <;> rfl
  | taken x => cases x <;> rfl

theorem Init.reads (runtime : String) (x : Var) (value : Init) :
    Reads runtime s!"{value.keyword} {x.name} = {value.render};" (value.line x) := by
  refine ⟨?_, ?_, ?_⟩
  · simp only [line, spell_append, Init.spell_tokens, Init.spell_keywordTokens]
    simp [spell, Token.text, Var.token, toString]
  · have hkeyword : value.keywordTokens.all Token.isWhole = true := by cases value <;> rfl
    rw [line, List.all_append, List.all_append, List.all_append, value.whole_tokens, hkeyword]
    cases x <;> rfl
  · cases value <;> rfl

theorem Failure.reads (runtime : String) (f : Failure) :
    Reads runtime s!"return Err({f.render runtime});" f.line := by
  refine ⟨?_, ?_, ?_⟩
  · simp only [line, spell_append, Failure.spell_tokens]
    simp [spell, Token.text, toString]
  · cases f with
    | unexpectedNull member => rfl
    | nestingTooDeep => rfl
    | invalidLength member x => cases x <;> rfl
    | unexpectedEnd x => cases x <;> rfl
  · cases f <;> rfl

theorem Expr.reads (runtime : String) {sink : Sink} {member : String} {value : Expr}
    (h : Stmt.IsNamed (.store sink member value)) :
    Reads runtime (renderStore sink member value.render)
      (storeTokens sink member value.tokens) := by
  obtain ⟨hmember, hcall⟩ := h
  refine ⟨(spell_storeTokens runtime sink member value).symm, ?_, ?_⟩
  · have hvalue : value.tokens.all Token.isWhole = true := by
      cases value with
      | nested call record field =>
        have hw := (Call.reads runtime (hcall call record field rfl)).whole
        rw [Expr.tokens, List.all_append, hw]
        rfl
      | readInt w => cases w <;> rfl
      | stringLiteral s => rfl
      | intLiteral v => rfl
      | var x => cases x <;> rfl
      | text x => cases x <;> rfl
      | taken x => cases x <;> rfl
    cases sink <;> simp +decide [storeTokens, hmember, hvalue]
  · cases sink <;> cases value with
    | nested call record field =>
      simp only [storeTokens, Expr.tokens, Call.tokens]
      rcases call.level with _ | _ | _ <;> rfl
    | _ => rfl

theorem Stmt.mem_parts_self (s : Stmt) : s ∈ s.parts := by cases s <;> simp [Stmt.parts]

theorem reads_close (runtime : String) : Reads runtime closeBrace closeLine :=
  ⟨by simp [closeLine, spell, Token.text], rfl, rfl⟩

theorem loop_reads (runtime : String) (x : Var) :
    Reads runtime (s!"for _ in 0..{x.name} - 1" ++ openBrace) (loopLine x) := by
  refine ⟨?_, ?_, rfl⟩
  · simp [loopLine, spell, Token.text, Var.token, toString]
    rfl
  · cases x <;> rfl

abbrev ReadsAll (runtime : String) : List Mark → List (List Token) → Prop :=
  List.Forall₂ fun m line => Reads runtime m.text line

mutual

/-- The lines of a statement are made of its tokens. -/
theorem Stmt.reads (runtime : String) (s : Stmt) (h : ∀ t ∈ s.parts, t.IsNamed) :
    ReadsAll runtime (s.marks runtime) s.lines := by
  have hself := h s s.mem_parts_self
  have hclose : ReadsAll runtime [.closing closeBrace] [closeLine] :=
    .cons (reads_close runtime) .nil
  match s with
  | .result record =>
    have hrecord : (Token.word record).isWhole = true := hself
    refine .cons ⟨?_, ?_, rfl⟩ .nil
    · simp [Mark.text, spell, Token.text, toString]
    · simp +decide [hrecord]
  | .bind x value => exact .cons (Init.reads runtime x value) .nil
  | .fill x =>
    refine .cons ⟨?_, ?_, rfl⟩ .nil
    · simp [Mark.text, spell, Token.text, Var.token, toString]
    · cases x <;> rfl
  | .store sink member value => exact .cons (Expr.reads runtime hself) .nil
  | .raise failure => exact .cons (Failure.reads runtime failure) .nil
  | .delegate call => exact .cons (Call.reads runtime hself) .nil
  | .finish => exact .cons ⟨by simp [Mark.text, spell, Token.text], rfl, rfl⟩ .nil
  | .block body =>
    have hbody := linesOf_reads runtime body fun t ht => h t (by simp [Stmt.parts, ht])
    rw [Stmt.marks, Stmt.lines]
    exact .cons ⟨by simp [Mark.text, spell, Token.text], rfl, rfl⟩ (List.rel_append hbody hclose)
  | .loop x body =>
    have hbody := linesOf_reads runtime body fun t ht => h t (by simp [Stmt.parts, ht])
    rw [Stmt.marks, Stmt.lines]
    exact .cons (loop_reads runtime x) (List.rel_append hbody hclose)
  | .branch condition body [] =>
    have hbody := linesOf_reads runtime body fun t ht => h t (by simp [Stmt.parts, ht])
    rw [Stmt.marks, Stmt.lines]
    exact .cons (condition.reads runtime) (List.rel_append hbody hclose)
  | .branch condition body (t :: ts) =>
    have hbody := linesOf_reads runtime body fun u hu => h u (by simp [Stmt.parts, hu])
    have hfirst := t.reads runtime fun u hu => h u (by simp [Stmt.parts, allParts, hu])
    have hrest := linesOf_reads runtime ts fun u hu => h u (by simp [Stmt.parts, allParts, hu])
    have helse : ReadsAll runtime
        (.reopening (closeBrace ++ " else" ++ openBrace) ::
          (t.marks runtime ++ stmtMarks runtime ts))
        (elseLine :: (t.lines ++ linesOf ts)) :=
      .cons ⟨by simp [elseLine, Mark.text, spell, Token.text], rfl, rfl⟩
        (List.rel_append hfirst hrest)
    rw [Stmt.marks, Stmt.lines]
    exact .cons (condition.reads runtime)
      (List.rel_append (List.rel_append hbody helse) hclose)
termination_by sizeOf s

/-- The lines of statements at any depth, as tokens. -/
theorem linesOf_reads (runtime : String) (ss : List Stmt) (h : ∀ t ∈ allParts ss, t.IsNamed) :
    ReadsAll runtime (stmtMarks runtime ss) (linesOf ss) := by
  match ss with
  | [] => exact .nil
  | s :: rest =>
    rw [stmtMarks, linesOf]
    exact List.rel_append (s.reads runtime fun t ht => h t (by simp [allParts, ht]))
      (linesOf_reads runtime rest fun t ht => h t (by simp [allParts, ht]))
termination_by sizeOf ss

end

end WireSchema.Source

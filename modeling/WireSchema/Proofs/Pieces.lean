import WireSchema.Proofs.Quoting
import WireSchema.Proofs.Versions
import WireSchema.Source.Print
import WireSchema.Source.Read

/-!
Printed lines read back. What is printed for a part of a line is all that its reader takes off, and
a line as a whole is read as one piece.
-/

namespace WireSchema.Source

open Text.Parser

variable {α β : Type}

/-! ## Words, names and numbers -/

theorem stops_literal {kind : Char → Bool} {s : String}
    (h : s.toList.head?.any (fun c => !kind c) = true) : Stops kind s.toList := by
  cases hs : s.toList with
  | nil => simp [hs] at h
  | cons c t => exact ⟨c, t, rfl, by simpa [hs] using h⟩

theorem takes_expect (text : String) : Takes (expect text) text.toList () :=
  (takes_tag text.toList).return fun _ => ()

/-- A reader that looks for words goes on behind the first of them that is there. -/
theorem keyed_append {table : List (String × Text.Parser α)} {otherwise p : Text.Parser α}
    {word : String} {s : List Char}
    (hw : table.find? (fun entry => entry.1.toList.isPrefixOf (word.toList ++ s)) =
      some (word, p)) :
    keyed table otherwise (word.toList ++ s) = p s := by
  rw [keyed, hw]
  dsimp only
  rw [List.drop_left]

theorem keyed_of_none {table : List (String × Text.Parser α)} {otherwise : Text.Parser α}
    {s : List Char} (hs : table.find? (fun entry => entry.1.toList.isPrefixOf s) = none) :
    keyed table otherwise s = otherwise s := by
  rw [keyed, hs]

/-- The first word of the table that the text starts with decides. Another word
may start with this one, so the lookup has to succeed for every text behind it. -/
theorem takes_keyed {table : List (String × Text.Parser α)} {otherwise p : Text.Parser α}
    {word : String} {text : List Char} {a : α}
    (hw : ∀ s, table.find? (fun entry => entry.1.toList.isPrefixOf (word.toList ++ s)) =
      some (word, p))
    (h : Takes p text a) : Takes (keyed table otherwise) (word.toList ++ text) a := by
  intro rest
  rw [List.append_assoc, keyed_append (hw _), h rest]

theorem takes_word {table : List (String × Text.Parser α)} {otherwise : Text.Parser α}
    {word : String} {a : α}
    (hw : ∀ s, table.find? (fun entry => entry.1.toList.isPrefixOf (word.toList ++ s)) =
      some (word, pure a)) : Takes (keyed table otherwise) word.toList a :=
  fun rest => keyed_append (hw rest)

theorem takes_name {name : String} (h : isIdentifier name.toList = true) :
    TakesUpTo readName isIdentRest name.toList name := by
  intro text ht
  obtain ⟨c, t, rfl, hc⟩ := ht
  refine (bind_of_some (identifier_append h (by simpa using hc))).trans ?_
  rw [String.ofList_toList]
  rfl

theorem takes_var (x : Var) : Takes readVar x.name.toList x := by
  cases x <;> exact fun _ => rfl

/-- A text is read back from its literal, whatever stands in it. -/
theorem takes_quoted (s : String) : Takes readQuoted (Text.quote s).toList s := by
  intro rest
  have hquote : (Text.quote s).toList ++ rest =
      "\"".toList ++ (Text.escape s.toList ++ '"' :: rest) := by
    simp [Text.quote]
  rw [hquote]
  refine (bind_of_some (takes_expect "\"" _)).trans ?_
  refine (bind_of_some (Text.readLiteral_escape s.toList rest)).trans ?_
  rw [String.ofList_toList]
  rfl

theorem toDigits_cons (n : Nat) : ∃ c t, Nat.toDigits 10 n = c :: t ∧ c.isDigit = true := by
  obtain ⟨c, t, h⟩ := List.exists_cons_of_ne_nil (Nat.toDigits_ne_nil (b := 10) (n := n))
  have hc : c ∈ Nat.toDigits 10 n := h ▸ List.mem_cons_self
  exact ⟨c, t, h, Nat.isDigit_of_mem_toDigits (by decide) (by decide) hc⟩

/-- The digits of a number are read as that number. -/
theorem run_toDigits (n : Nat) {text : List Char} (h : Stops Char.isDigit text) :
    run Char.isDigit (Nat.toDigits 10 n ++ text) = some (Nat.toDigits 10 n, text) ∧
      VersionPredicate.digitsValue (Nat.toDigits 10 n) = n := by
  refine ⟨run_append Nat.toDigits_ne_nil (fun c hc => ?_) h, ?_⟩
  · exact Nat.isDigit_of_mem_toDigits (by decide) (by decide) hc
  · rw [VersionPredicate.digitsValue_eq]
    exact Nat.ofDigitChars_ten_toDigits

theorem toString_ofNat (n : Nat) : (toString (Int.ofNat n)).toList = Nat.toDigits 10 n :=
  VersionPredicate.toString_toList n

theorem toString_negSucc (n : Nat) :
    (toString (Int.negSucc n)).toList = '-' :: Nat.toDigits 10 (n + 1) := by
  rw [← VersionPredicate.toString_toList]
  exact String.toList_append

/-- Integers are written with a sign only if they are negative, and without leading zeros. -/
theorem takes_integer (v : Int) : TakesUpTo readInteger Char.isDigit (toString v).toList v := by
  intro text ht
  cases v with
  | ofNat n =>
    obtain ⟨hrun, hvalue⟩ := run_toDigits n ht
    have hsign : ¬ ['-'] <+: Nat.toDigits 10 n ++ text := by
      obtain ⟨c, t, hct, hc⟩ := toDigits_cons n
      rw [hct, List.cons_append, List.cons_prefix_cons]
      rintro ⟨rfl, _⟩
      cases hc
    rw [toString_ofNat]
    refine (bind_of_some (optional_of_none (tag_of_not_start hsign))).trans ?_
    refine (bind_of_some hrun).trans ?_
    rw [hvalue]
    rfl
  | negSucc n =>
    obtain ⟨hrun, hvalue⟩ := run_toDigits (n + 1) ht
    rw [toString_negSucc]
    refine (bind_of_some (optional_of_some (tag_append ['-'] _))).trans ?_
    refine (bind_of_some hrun).trans ?_
    rw [hvalue]
    rfl

/-- A bound fits in sixteen bits, so reading it back loses nothing. -/
theorem takes_bound (n : Int16) : TakesUpTo readBound Char.isDigit (toString n).toList n := by
  intro text ht
  have hholds : IntWidth.w16.holds n.toInt = true := by
    have hl := n.le_toInt
    have hg := n.toInt_lt
    simp only [IntWidth.holds, Bool.and_eq_true, decide_eq_true_eq]
    exact ⟨hl, Int.le_sub_one_of_lt hg⟩
  refine (bind_of_some (takes_integer n.toInt text ht)).trans ?_
  rw [if_pos hholds, Int16.ofInt_toInt]
  rfl

/-! ## Parts of a line -/

theorem takes_init {value : Init} (h : value ≠ .zeros) :
    Takes readInit value.render.toList value := by
  unfold Init.render
  cases value with
  | readVarint => exact takes_word fun _ => rfl
  | readLength => exact takes_word fun _ => rfl
  | zeros => exact absurd rfl h
  | widened x =>
    simp only [toString, String.toList_append, List.append_assoc]
    exact takes_keyed (fun _ => rfl) ((takes_var x).bind ((takes_expect _).return _))
  | decremented x =>
    simp only [toString, String.toList_append, List.append_assoc]
    exact takes_keyed (fun _ => rfl) ((takes_var x).bind ((takes_expect _).return _))
  | taken x =>
    simp only [toString, String.toList_append, List.append_assoc]
    exact takes_keyed (fun _ => rfl) ((takes_var x).bind ((takes_expect _).return _))

theorem takes_failure (runtime : String) {f : Failure} (h : f ≠ .nestingTooDeep) :
    Takes readFailure (f.render runtime).toList f := by
  unfold Failure.render
  cases f with
  | unexpectedNull member =>
    simp only [toString, String.toList_append, List.append_assoc]
    exact takes_keyed (fun _ => rfl) ((takes_quoted member).bind ((takes_expect _).return _))
  | invalidLength member x =>
    simp only [toString, String.toList_append, List.append_assoc]
    refine takes_keyed (fun _ => rfl) ((takes_quoted member).bind ?_)
    exact (takes_expect _).bind ((takes_var x).bind ((takes_expect _).return _))
  | unexpectedEnd x =>
    simp only [toString, String.toList_append, List.append_assoc]
    exact takes_keyed (fun _ => rfl) ((takes_var x).bind ((takes_expect _).return _))
  | nestingTooDeep => exact absurd rfl h

theorem readCondition_var {x : Var} {text s : List Char} {holds : Var → Condition}
    (h : readComparison (text ++ s) = some (holds, s)) :
    readCondition (x.name.toList ++ (text ++ s)) = some (holds x, s) := by
  refine (keyed_of_none ?_).trans ((bind_of_some (takes_var x _)).trans (bind_of_some h))
  cases x <;> rfl

theorem takes_range (lo hi : Int16) :
    Takes readCondition (renderGuard (.range lo hi)).toList (.version (.range lo hi)) := by
  unfold renderGuard
  simp only [toString, String.toList_append, List.append_assoc]
  refine takes_keyed (fun _ => rfl) ((takes_bound lo).bind ((stops_literal rfl).append _) ?_)
  refine (takes_expect _).bind ((takes_bound hi).bind (stops_literal rfl) ?_)
  exact (takes_expect _).return _

/-- A condition ends where a blank follows. -/
theorem takes_condition (runtime : String) {c : Condition} (h : c ≠ .isTooDeep) :
    TakesUpTo readCondition (· != ' ') (c.render runtime).toList c := by
  intro text ht
  obtain ⟨d, t, rfl, hd⟩ := ht
  obtain rfl : d = ' ' := by simpa using hd
  have hstops : Stops Char.isDigit (' ' :: t) := ⟨' ', t, rfl, rfl⟩
  unfold Condition.render
  cases c with
  | version p =>
    cases p with
    | exact n =>
      simp only [renderGuard, toString, String.toList_append, List.append_assoc]
      exact (keyed_append rfl).trans (bind_of_some (takes_bound n _ hstops))
    | minimum n =>
      simp only [renderGuard, toString, String.toList_append, List.append_assoc]
      exact (keyed_append rfl).trans (bind_of_some (takes_bound n _ hstops))
    | range lo hi => exact takes_range lo hi _
  | isZero x =>
    simp only [toString, String.toList_append, List.append_assoc]
    exact readCondition_var ((keyed_append rfl).trans rfl)
  | isNull x =>
    simp only [toString, String.toList_append, List.append_assoc]
    exact readCondition_var ((keyed_append rfl).trans rfl)
  | isTooLong x =>
    simp only [toString, String.toList_append, List.append_assoc]
    exact readCondition_var ((keyed_append rfl).trans rfl)
  | isShort x =>
    simp only [toString, String.toList_append, List.append_assoc]
    exact (keyed_append rfl).trans (bind_of_some (takes_var x _))
  | isTooDeep => exact absurd rfl h

/-! ## Calls and expressions -/

/-- The words that start lines or expressions of their own. A function has another name. -/
def leadingWords : List String :=
  ["use", "pub", "fn", "if", "for", "let", "buf", "res", "return", "Ok", "count", "len", "uuid",
   "payload"]

structure IsCallable (function : String) : Prop where
  identifier : isIdentifier function.toList = true
  unused : function ∉ leadingWords

/-- A call is a name and arguments, which are read behind the name. -/
theorem takes_arguments (c : Call) :
    ∃ text, c.render.toList = c.function.toList ++ text ∧ Stops isIdentRest text ∧
      Takes readArguments text c.level := by
  obtain ⟨function, level⟩ := c
  unfold Call.render
  match level with
  | none =>
    refine ⟨"(buf, version)".toList, ?_, (stops_literal rfl), takes_word fun _ => rfl⟩
    simp only [toString, String.toList_append]
  | some .start =>
    refine ⟨"(buf, version, 0)".toList, ?_, (stops_literal rfl), takes_word fun _ => rfl⟩
    simp only [toString, String.toList_append]
  | some .next =>
    refine ⟨"(buf, version, depth + 1)".toList, ?_, (stops_literal rfl), takes_word fun _ => rfl⟩
    simp only [toString, String.toList_append]

/-- A name that starts no other expression is that of a function that is called. -/
theorem readNamed_function {function : String} (h : function ∉ leadingWords) :
    readNamed function = readNested function := by
  unfold readNamed
  split
  iterate 5 exact absurd (by decide) h
  rfl

theorem isDigit_of_isIdentStart {c : Char} (h : isIdentStart c = true) : c.isDigit = false := by
  rw [Bool.eq_false_iff]
  intro hd
  have hlast := ((VersionPredicate.isDigit_iff c).mp hd).2
  rw [isIdentStart, Bool.or_eq_true, isAlpha_iff, beq_iff_eq] at h
  rcases h with (h | h) | rfl
  · exact absurd (Char.le_trans h.1 hlast) (by decide)
  · exact absurd (Char.le_trans h.1 hlast) (by decide)
  · simp at hd

theorem readText_of_ne {c : Char} (h : ¬ ':' = c) {s : List Char} : readText (c :: s) = none := by
  have hnot : ¬ "::std::string::String::from".toList <+: c :: s := by
    rw [show "::std::string::String::from".toList = ':' :: _ from rfl, List.cons_prefix_cons]
    exact fun hp => h hp.1
  exact bind_of_none (bind_of_none (tag_of_not_start hnot))

theorem ne_of_isIdentStart {c d : Char} (hc : isIdentStart c = true) (hd : isIdentStart d = false) :
    c ≠ d := by
  rintro rfl
  rw [hc] at hd
  cases hd

/-- An expression that starts with a letter starts with a name. -/
theorem readExpr_name {c : Char} (h : isIdentStart c = true) (s : List Char) :
    readExpr (c :: s) = (readName >>= readNamed) (c :: s) := by
  have hother {d : Char} (hd : isIdentStart d = false) : ¬ d = c := (ne_of_isIdentStart h hd).symm
  have htext := readText_of_ne (s := s) (hother rfl)
  have hinteger : (Expr.intLiteral <$> readInteger) (c :: s) = none := by
    have hsign : ¬ ['-'] <+: c :: s := by
      rw [List.cons_prefix_cons]
      exact fun hp => hother rfl hp.1
    have hdigits : run Char.isDigit (c :: s) = none := by
      simp [run_eq, isDigit_of_isIdentStart h]
    refine map_of_none ((bind_of_some (optional_of_none (tag_of_not_start hsign))).trans ?_)
    exact bind_of_none hdigits
  rw [readExpr, orElse_of_none htext, orElse_of_none hinteger]

theorem readExpr_append {name : String} (hn : isIdentifier name.toList = true) {text : List Char}
    (hs : Stops isIdentRest text) : readExpr (name.toList ++ text) = readNamed name text := by
  obtain ⟨c, t, ht, hc, _⟩ := isIdentifier_cons hn
  rw [ht, List.cons_append, readExpr_name hc, ← List.cons_append, ← ht,
    bind_of_some (takes_name hn _ hs)]

/-- An expression that starts with a name is read behind it. -/
theorem takes_named {name : String} (hn : isIdentifier name.toList = true) {text : List Char}
    {e : Expr} (hs : Stops isIdentRest text) (h : Takes (readNamed name) text e) :
    Takes readExpr (name.toList ++ text) e := by
  intro rest
  rw [List.append_assoc, readExpr_append hn (hs.append rest), h rest]

/-- A nested call ends with the member that its error is noted as. -/
theorem takes_nested {c : Call} (h : IsCallable c.function) (record member : String) :
    Takes readExpr (Expr.nested c record member).render.toList (.nested c record member) := by
  obtain ⟨text, hrender, hstops, htakes⟩ := takes_arguments c
  unfold Expr.render
  simp only [toString, String.toList_append, List.append_assoc, hrender]
  refine takes_named h.identifier (hstops.append _) ?_
  rw [readNamed_function h.unused]
  refine htakes.bind ((takes_expect _).bind ((takes_expect _).bind ?_))
  refine (takes_quoted record).bind ((takes_expect _).bind ((takes_quoted member).bind ?_))
  exact (takes_expect _).bind ((takes_expect _).return _)

theorem takes_fixed (w : IntWidth) :
    Takes readExpr (Expr.readInt w).render.toList (.readInt w) := by
  have hwidth : Takes readWidth (readIntName w).toList w := by
    cases w <;> exact takes_word fun _ => rfl
  have hname : "buf.".toList = "buf".toList ++ ".".toList := rfl
  unfold Expr.render
  simp only [toString, String.toList_append, List.append_assoc, hname]
  refine takes_named rfl ((stops_literal rfl).append _) ?_
  intro rest
  refine (orElse_of_none ?_).trans
    ((takes_expect _).bind (hwidth.bind ((takes_expect _).return _)) rest)
  refine bind_of_none (bind_of_none (tag_of_not_start ?_))
  cases w <;> simp [readIntName]

theorem takes_taken (x : Var) : Takes readExpr (Expr.taken x).render.toList (.taken x) := by
  have hname : "buf.copy_to_bytes(".toList = "buf".toList ++ ".copy_to_bytes(".toList := rfl
  unfold Expr.render
  simp only [toString, String.toList_append, List.append_assoc, hname]
  refine takes_named rfl ((stops_literal rfl).append _) ?_
  intro rest
  exact orElse_of_some ((takes_expect _).bind ((takes_var x).bind ((takes_expect _).return _)) rest)

/-- A text is read before anything else. -/
theorem takes_text {text : List Char} {e : Expr} (h : Takes readText text e) :
    Takes readExpr text e :=
  fun rest => orElse_of_some (h rest)

/-- Whether an expression reads back: the function that it calls has a name for it. -/
def Expr.IsReadable : Expr → Prop
  | nested call _ _ => IsCallable call.function
  | _ => True

/-- What is rendered is read back. -/
theorem takes_expr {e : Expr} (h : e.IsReadable) :
    TakesUpTo readExpr isIdentRest e.render.toList e := by
  cases e with
  | readInt w => exact (takes_fixed w).upTo _
  | taken x => exact (takes_taken x).upTo _
  | nested c record member => exact (takes_nested h record member).upTo _
  | var x =>
    intro text ht
    cases x <;> exact readExpr_append rfl ht
  | text x =>
    refine (takes_text ?_).upTo _
    have hfrom : "::std::string::String::from_utf8_lossy(&".toList =
      "::std::string::String::from".toList ++ "_utf8_lossy(&".toList := rfl
    unfold Expr.render
    simp only [toString, String.toList_append, List.append_assoc, hfrom]
    refine (takes_expect _).bind (takes_keyed (fun _ => rfl) ?_)
    exact (takes_var x).bind ((takes_expect _).return _)
  | stringLiteral s =>
    refine (takes_text ?_).upTo _
    have hfrom : "::std::string::String::from(".toList =
      "::std::string::String::from".toList ++ "(".toList := rfl
    unfold Expr.render
    simp only [toString, String.toList_append, List.append_assoc, hfrom]
    refine (takes_expect _).bind (takes_keyed (fun _ => rfl) ?_)
    exact (takes_quoted s).bind ((takes_expect _).return _)
  | intLiteral v =>
    intro text ht
    have htext : readText ((toString v).toList ++ text) = none := by
      cases v with
      | ofNat n =>
        obtain ⟨c, t, hct, hc⟩ := toDigits_cons n
        rw [toString_ofNat, hct]
        refine readText_of_ne ?_
        rintro rfl
        cases hc
      | negSucc n =>
        rw [toString_negSucc]
        exact readText_of_ne (by decide)
    refine (orElse_of_none htext).trans (orElse_of_some (map_of_some (takes_integer v text ?_)))
    exact ht.of_imp fun c hc => by simp [isIdentRest, Char.isAlphanum, hc]

/-! ## Lines -/

/-- A text is read as one piece, if a line ends behind it. -/
structure IsPiece (runtime : String) (text : List Char) (piece : Piece) : Prop where
  starts : ∀ rest, skip false (text ++ rest) = text ++ rest
  reads : ∀ rest, readPiece runtime (text ++ '\n' :: rest) = some (piece, '\n' :: rest)

section

variable {runtime : String}

theorem skip_of_ne {c : Char} (hb : c ≠ ' ') (hn : c ≠ '\n') (hs : c ≠ '/') (hh : c ≠ '#')
    (s : List Char) : skip false (c :: s) = c :: s := by
  rw [skip.eq_def]
  split <;> simp_all

theorem readPiece_of_ne {c : Char} (hh : c ≠ '#') (ho : c ≠ '\x7b') (hc : c ≠ '\x7d')
    (s : List Char) : readPiece runtime (c :: s) = (readName >>= readAfter runtime) (c :: s) := by
  rw [readPiece.eq_def]
  split <;> simp_all

/-- A line that starts with a word. -/
theorem isPiece_word {word : String} (hw : isIdentifier word.toList = true) {text : List Char}
    (hs : Stops isIdentRest text) {piece : Piece} (h : Takes (readAfter runtime word) text piece) :
    IsPiece runtime (word.toList ++ text) piece := by
  obtain ⟨c, t, hct, hc, _⟩ := isIdentifier_cons hw
  have hne {d : Char} (hd : isIdentStart d = false) : c ≠ d := ne_of_isIdentStart hc hd
  constructor
  · intro rest
    rw [hct]
    exact skip_of_ne (hne rfl) (hne rfl) (hne rfl) (hne rfl) _
  · intro rest
    have hread : readPiece runtime (word.toList ++ (text ++ '\n' :: rest)) =
        (readName >>= readAfter runtime) (word.toList ++ (text ++ '\n' :: rest)) := by
      rw [hct]
      exact readPiece_of_ne (hne rfl) (hne rfl) (hne rfl) _
    rw [List.append_assoc, hread, bind_of_some (takes_name hw _ (hs.append _)), h]

theorem line_result {record : String} (h : isIdentifier record.toList = true) :
    IsPiece runtime
      s!"let mut res: {record} = ::core::default::Default::default();".toList
      (.stmt (.result record)) := by
  have hlet : "let mut res: ".toList = "let".toList ++ " mut res: ".toList := rfl
  simp only [toString, String.toList_append, List.append_assoc, hlet]
  refine isPiece_word rfl ((stops_literal rfl).append _) (Takes.map ?_ Piece.stmt)
  refine takes_keyed (fun _ => rfl) ?_
  exact (takes_name h).bind (stops_literal rfl) ((takes_expect _).return _)

theorem takes_zeros (x : Var) :
    Takes readLet (" mut ".toList ++ (x.name.toList ++ (" = ".toList ++
      (Init.zeros.render.toList ++ ";".toList)))) (.bind x .zeros) := by
  have htakes : Takes readZeros (x.name.toList ++ (" = ".toList ++
      (Init.zeros.render.toList ++ ";".toList))) (.bind x .zeros) :=
    (takes_var x).bind ((takes_expect _).bind ((takes_expect _).bind ((takes_expect _).return _)))
  intro rest
  rw [List.append_assoc]
  refine (keyed_append ?_).trans (htakes rest)
  cases x <;> rfl

/-- A variable that starts as a value is told from one that is filled later by the word behind the
blank. -/
theorem takes_bind (x : Var) {value : Init} (h : value ≠ .zeros) :
    Takes readLet (" ".toList ++ (x.name.toList ++ (" = ".toList ++
      (value.render.toList ++ ";".toList)))) (.bind x value) := by
  have htakes : Takes readBind (x.name.toList ++ (" = ".toList ++
      (value.render.toList ++ ";".toList))) (.bind x value) :=
    (takes_var x).bind ((takes_expect _).bind ((takes_init h).bind ((takes_expect _).return _)))
  intro rest
  rw [List.append_assoc]
  refine (keyed_append ?_).trans (htakes rest)
  cases x <;> rfl

theorem line_bind (x : Var) (value : Init) :
    IsPiece runtime s!"{value.keyword} {x.name} = {value.render};".toList
      (.stmt (.bind x value)) := by
  by_cases hz : value = .zeros
  · subst hz
    have hlet : Init.zeros.keyword.toList = "let".toList ++ " mut".toList := rfl
    have hmut : " mut".toList ++ " ".toList = " mut ".toList := rfl
    simp only [toString, String.toList_append, hlet, List.append_assoc]
    rw [← List.append_assoc " mut".toList, hmut]
    exact isPiece_word rfl ((stops_literal rfl).append _) ((takes_zeros x).map Piece.stmt)
  · have hlet : value.keyword = "let" := by
      cases value with
      | zeros => exact absurd rfl hz
      | _ => rfl
    simp only [hlet, toString, String.toList_append, List.append_assoc]
    exact isPiece_word rfl ((stops_literal rfl).append _) ((takes_bind x hz).map Piece.stmt)

theorem line_fill (x : Var) :
    IsPiece runtime s!"buf.try_copy_to_slice(&mut {x.name})?;".toList (.stmt (.fill x)) := by
  have hbuf : "buf.try_copy_to_slice(&mut ".toList =
    "buf".toList ++ ".try_copy_to_slice(&mut ".toList := rfl
  simp only [toString, String.toList_append, List.append_assoc, hbuf]
  refine isPiece_word rfl ((stops_literal rfl).append _) ?_
  exact (takes_expect _).bind ((takes_var x).bind ((takes_expect _).return _))

/-- Both sinks stand behind the member, and are told apart by the character that follows it. -/
theorem line_store (sink : Sink) {member : String} (hm : isIdentifier member.toList = true)
    {value : Expr} (hv : value.IsReadable) :
    IsPiece runtime (renderStore sink member value.render).toList
      (.stmt (.store sink member value)) := by
  have hres : "res.".toList = "res".toList ++ ".".toList := rfl
  unfold renderStore
  cases sink with
  | assign =>
    have hsink : Takes readSink " = ".toList .assign := takes_word fun _ => rfl
    simp only [toString, String.toList_append, List.append_assoc, hres]
    refine isPiece_word rfl ((stops_literal rfl).append _) ((takes_expect _).bind (.map ?_ _))
    refine (takes_name hm).bind ((stops_literal rfl).append _) (hsink.bind ?_)
    exact (takes_expr hv).bind (stops_literal rfl) ((takes_expect _).return _)
  | push =>
    have hsink : Takes readSink ".push(".toList .push := takes_word fun _ => rfl
    simp only [toString, String.toList_append, List.append_assoc, hres]
    refine isPiece_word rfl ((stops_literal rfl).append _) ((takes_expect _).bind (.map ?_ _))
    refine (takes_name hm).bind ((stops_literal rfl).append _) (hsink.bind ?_)
    exact (takes_expr hv).bind (stops_literal rfl) ((takes_expect _).return _)

theorem line_raise {f : Failure} (h : f ≠ .nestingTooDeep) :
    IsPiece runtime s!"return Err({f.render runtime});".toList (.stmt (.raise f)) := by
  have hreturn : "return Err(".toList = "return".toList ++ " Err(".toList := rfl
  simp only [toString, String.toList_append, List.append_assoc, hreturn]
  refine isPiece_word rfl ((stops_literal rfl).append _) ?_
  exact (takes_expect _).bind ((takes_failure runtime h).bind ((takes_expect _).return _))

/-- No other branch looks like the check of the level. -/
theorem not_level_check (runtime : String) {c : Condition} (h : c ≠ .isTooDeep) (s : List Char) :
    ¬ " depth >= ".toList <+: " ".toList ++ ((c.render runtime).toList ++ s) := by
  rw [← List.isPrefixOf_iff_prefix]
  unfold Condition.render
  cases c with
  | isTooDeep => exact absurd rfl h
  | version p =>
    cases p <;> simp only [renderGuard, toString, String.toList_append, List.append_assoc] <;>
      exact Bool.false_ne_true
  | isShort x =>
    simp only [toString, String.toList_append, List.append_assoc]
    exact Bool.false_ne_true
  | _ x =>
    simp only [toString, String.toList_append, List.append_assoc]
    cases x <;> exact Bool.false_ne_true

/-- Each condition is read up to the brace that opens the block. -/
theorem line_branch {c : Condition} (h : c ≠ .isTooDeep) :
    IsPiece runtime ("if " ++ c.render runtime ++ openBrace).toList (.opening (.branch c)) := by
  have hif : "if ".toList = "if".toList ++ " ".toList := rfl
  have hbranch : Takes readBranch (" ".toList ++ ((c.render runtime).toList ++ openBrace.toList))
      (.opening (.branch c)) := by
    refine (takes_expect _).bind ((takes_condition runtime h).bind (stops_literal rfl) ?_)
    exact (takes_expect _).return _
  simp only [String.toList_append, List.append_assoc, hif]
  refine isPiece_word rfl ((stops_literal rfl).append _) fun rest => ?_
  refine (orElse_of_none (bind_of_none (bind_of_none (tag_of_not_start ?_)))).trans (hbranch rest)
  simp only [List.append_assoc]
  exact not_level_check runtime h _

theorem line_loop (x : Var) :
    IsPiece runtime (s!"for _ in 0..{x.name} - 1" ++ openBrace).toList (.opening (.loop x)) := by
  have hfor : "for _ in 0..".toList = "for".toList ++ " _ in 0..".toList := rfl
  simp only [toString, String.toList_append, List.append_assoc, hfor]
  refine isPiece_word rfl ((stops_literal rfl).append _) ((takes_expect _).bind ?_)
  exact (takes_var x).bind ((takes_expect _).bind ((takes_expect _).return _))

theorem line_block : IsPiece runtime "\x7b".toList (.opening .block) := ⟨fun _ => rfl, fun _ => rfl⟩

theorem line_otherwise : IsPiece runtime "\x7d else \x7b".toList .otherwise :=
  ⟨fun _ => rfl, fun _ => rfl⟩

theorem line_close : IsPiece runtime closeBrace.toList .close := ⟨fun _ => rfl, fun _ => rfl⟩

theorem line_finish : IsPiece runtime "Ok(res)".toList (.stmt .finish) := by
  have hok : "Ok(res)".toList = "Ok".toList ++ "(res)".toList := rfl
  rw [hok]
  exact isPiece_word rfl (stops_literal rfl) ((takes_expect _).return _)

theorem readAfter_function {function : String} (h : function ∉ leadingWords) :
    readAfter runtime function = (do
      let level ← readArguments
      return .stmt (.delegate ⟨function, level⟩)) := by
  unfold readAfter
  split
  iterate 10 exact absurd (by decide) h
  rfl

/-- A line that is nothing but a call returns what the call gives. -/
theorem line_delegate {c : Call} (h : IsCallable c.function) :
    IsPiece runtime c.render.toList (.stmt (.delegate c)) := by
  obtain ⟨text, hrender, hstops, htakes⟩ := takes_arguments c
  rw [hrender]
  refine isPiece_word h.identifier hstops ?_
  rw [readAfter_function h.unused]
  exact htakes.return fun level => Piece.stmt (.delegate ⟨c.function, level⟩)

theorem takes_level (takesLevel : Bool) :
    TakesUpTo readLevel (· != ')') (if takesLevel then ", depth: usize" else "").toList
      takesLevel := by
  intro text ht
  obtain ⟨c, t, rfl, hc⟩ := ht
  obtain rfl : c = ')' := by simpa using hc
  cases takesLevel with
  | false => exact keyed_of_none rfl
  | true => exact (keyed_append rfl).trans rfl

theorem takes_functionHead (isPublic takesLevel : Bool) {name returns : String}
    (hn : isIdentifier name.toList = true) (hr : isIdentifier returns.toList = true) :
    Takes (readFunctionHead runtime isPublic)
      (" ".toList ++ (name.toList ++ ("(buf: &mut &[u8], version: i16".toList ++
        ((if takesLevel then ", depth: usize" else "").toList ++ (") -> ".toList ++
          ("::core::result::Result<".toList ++ (returns.toList ++ (", ".toList ++
            (runtime.toList ++ ("::DecodeError>".toList ++ openBrace.toList))))))))))
      (.functionHead ⟨name, isPublic, takesLevel, returns, []⟩) := by
  refine (takes_expect _).bind ((takes_name hn).bind ((stops_literal rfl).append _) ?_)
  refine (takes_expect _).bind ((takes_level _).bind ((stops_literal rfl).append _) ?_)
  refine (takes_expect _).bind ((takes_expect _).bind ?_)
  refine (takes_name hr).bind ((stops_literal rfl).append _) ((takes_expect _).bind ?_)
  exact (takes_expect _).bind ((takes_expect _).bind ((takes_expect _).return _))

/-- The head of a function says all of it but its body. -/
theorem line_function {f : Function} (hn : isIdentifier f.name.toList = true)
    (hr : isIdentifier f.returns.toList = true) :
    IsPiece runtime (f.signature runtime).toList (.functionHead { f with body := [] }) := by
  have hpub : "pub ".toList = "pub".toList ++ " ".toList := rfl
  have hfn : "fn ".toList = "fn".toList ++ " ".toList := rfl
  obtain ⟨name, isPublic, takesLevel, returns, body⟩ := f
  unfold Function.signature
  cases isPublic with
  | false =>
    simp only [toString, String.toList_append, List.append_assoc, hfn, Bool.false_eq_true, if_false,
      String.toList_empty, List.nil_append]
    exact isPiece_word rfl ((stops_literal rfl).append _) (takes_functionHead _ _ hn hr)
  | true =>
    simp only [toString, String.toList_append, List.append_assoc, hfn, hpub, if_true]
    refine isPiece_word rfl ((stops_literal rfl).append _) ((takes_expect _).bind ?_)
    refine (takes_name rfl).bind ((stops_literal rfl).append _) ?_
    exact takes_functionHead _ _ hn hr

theorem line_struct {name : String} (h : isIdentifier name.toList = true) :
    IsPiece runtime (s!"pub struct {name}" ++ openBrace).toList (.structHead name) := by
  have hpub : "pub struct ".toList =
      "pub".toList ++ (" ".toList ++ ("struct".toList ++ " ".toList)) := rfl
  simp only [toString, String.toList_append, List.append_assoc, hpub]
  refine isPiece_word rfl ((stops_literal rfl).append _) ((takes_expect _).bind ?_)
  refine (takes_name rfl).bind ((stops_literal rfl).append _) ((takes_expect _).bind ?_)
  exact (takes_name h).bind (stops_literal rfl) ((takes_expect _).return _)

/-- A record has a name that no type of the language has. -/
def IsReadableType : Base → Prop
  | .primitive _ => True
  | .record name => isIdentifier name.toList = true ∧ name ∉ builtinTypes

theorem typeNamed_record {name : String} (h : name ∉ builtinTypes) :
    typeNamed name = .record name := by
  unfold typeNamed
  split
  iterate 4 exact absurd (by decide) h
  rfl

/-- The name of a record is not that of a byte. -/
theorem not_byte {name : String} (h : isIdentifier name.toList = true) (hb : name ∉ builtinTypes)
    (s : List Char) : ¬ "u8>".toList <+: name.toList ++ '>' :: s := by
  have hne : name.toList ≠ "u8".toList := fun he => hb (String.toList_inj.mp he ▸ by decide)
  rw [show "u8>".toList = ['u', '8', '>'] from rfl]
  rw [show "u8".toList = ['u', '8'] from rfl] at hne
  match hc : name.toList with
  | [] => simp
  | [a] => simp
  | [a, b] =>
    rw [hc] at hne
    simp only [List.cons_append, List.cons_prefix_cons]
    rintro ⟨rfl, rfl, _⟩
    exact hne rfl
  | a :: b :: c :: t =>
    rw [hc] at h
    simp only [List.cons_append, List.cons_prefix_cons]
    rintro ⟨rfl, rfl, rfl, _⟩
    simp [isIdentifier, isIdentRest] at h

theorem takes_base {type : Base} (h : IsReadableType type) :
    TakesUpTo readBase isIdentRest type.typeName.toList type := by
  have hnamed {name : String} (hn : isIdentifier name.toList = true) {text : List Char}
      (ht : Stops isIdentRest text) :
      readBase (name.toList ++ text) = some (typeNamed name, text) := by
    refine (keyed_of_none ?_).trans (bind_of_some (takes_name hn text ht))
    obtain ⟨c, t, hct, hc, _⟩ := isIdentifier_cons hn
    have hbracket : ¬ '[' = c := (ne_of_isIdentStart hc rfl).symm
    have hcolon : ¬ ':' = c := (ne_of_isIdentStart hc rfl).symm
    rw [hct, List.find?_eq_none]
    simp [hbracket, hcolon]
  intro text ht
  cases type with
  | primitive kind =>
    cases kind with
    | int w => cases w <;> exact hnamed rfl ht
    | uuid => exact (keyed_append rfl).trans rfl
    | string => exact (keyed_append rfl).trans rfl
    | bytes => exact (keyed_append rfl).trans rfl
  | record name =>
    have hread := hnamed h.1 ht
    rwa [typeNamed_record h.2] at hread

/-- A base is tried before an array, and takes no array but that of single bytes. -/
theorem readBase_array {type : Base} (h : IsReadableType type) (s : List Char) :
    readBase ("::std::vec::Vec<".toList ++ (type.typeName.toList ++ '>' :: s)) = none := by
  have hbyte : ¬ "u8>".toList <+: type.typeName.toList ++ '>' :: s := by
    cases type with
    | primitive kind =>
      rw [← List.isPrefixOf_iff_prefix]
      cases kind with
      | int w => cases w <;> exact Bool.false_ne_true
      | _ => exact Bool.false_ne_true
    | record name => exact not_byte h.1 h.2 s
  refine (keyed_of_none (List.find?_eq_none.mpr ?_)).trans rfl
  intro entry he
  simp only [List.mem_cons, List.not_mem_nil, or_false] at he
  rcases he with rfl | rfl | rfl
  · exact Bool.false_ne_true
  · exact Bool.false_ne_true
  · exact fun hp => hbyte (List.isPrefixOf_iff_prefix.mp hp)

theorem takes_type {m : Member} (h : IsReadableType m.type) :
    TakesUpTo (readType m.name) isIdentRest m.typeName.toList m := by
  obtain ⟨name, isArray, type⟩ := m
  intro text ht
  cases isArray with
  | false => exact orElse_of_some (map_of_some (takes_base h text ht))
  | true =>
    have harray : Takes readArray
        ("::std::vec::Vec<".toList ++ (type.typeName.toList ++ ">".toList)) type := by
      refine (takes_expect _).bind ((takes_base h).bind (stops_literal rfl) ?_)
      exact (takes_expect _).return _
    unfold Member.typeName
    simp only [if_true, toString, String.toList_append, List.append_assoc]
    have hnone := readBase_array h text
    have hread := harray text
    simp only [List.append_assoc] at hread
    exact (orElse_of_none (map_of_none hnone)).trans (map_of_some hread)

theorem readPublic_member {name : String} (hs : name ≠ "struct") (hf : name ≠ "fn") :
    readPublic runtime name = Piece.member <$> readMember name := by
  unfold readPublic
  split
  · exact absurd rfl hs
  · exact absurd rfl hf
  · rfl

/-- A member whose name is not one of the two words that start other items. -/
theorem line_member {m : Member} (hn : isIdentifier m.name.toList = true) (hs : m.name ≠ "struct")
    (hf : m.name ≠ "fn") (ht : IsReadableType m.type) :
    IsPiece runtime s!"pub {m.name}: {m.typeName},".toList (.member m) := by
  have hpub : "pub ".toList = "pub".toList ++ " ".toList := rfl
  simp only [toString, String.toList_append, List.append_assoc, hpub]
  refine isPiece_word rfl ((stops_literal rfl).append _) ((takes_expect _).bind ?_)
  refine (takes_name hn).bind ((stops_literal rfl).append _) ?_
  rw [readPublic_member hs hf]
  refine Takes.map ((takes_expect _).bind ((takes_type ht).bind (stops_literal rfl) ?_)) _
  exact (takes_expect _).return _

theorem line_derives :
    IsPiece runtime "#[derive(Debug, Clone, Default, PartialEq, Eq)]".toList .derives := by
  constructor
  · exact fun _ => rfl
  · intro rest
    exact (takes_expect "[derive(Debug, Clone, Default, PartialEq, Eq)]").return
      (fun _ => Piece.derives) _

theorem line_use {item : String} (h : isIdentifier item.toList = true) :
    IsPiece runtime s!"use {runtime}::{item};".toList (.use item) := by
  have huse : "use ".toList = "use".toList ++ " ".toList := rfl
  simp only [toString, String.toList_append, List.append_assoc, huse]
  refine isPiece_word rfl ((stops_literal rfl).append _) ((takes_expect _).bind ?_)
  refine (takes_expect _).bind ((takes_expect _).bind ?_)
  exact (takes_name h).bind (stops_literal rfl) ((takes_expect _).return _)

/-- A line feed and the indentation behind it are passed over. -/
theorem takes_blanks {indent : List Char} (h : ∀ c ∈ indent, c = ' ') :
    TakesUpTo blanks (fun c => c == ' ' || c == '\n') ('\n' :: indent) () := by
  intro text ht
  obtain ⟨c, t, rfl, hc⟩ := ht
  have hall : ∀ d ∈ '\n' :: indent, (d == ' ' || d == '\n') = true := by
    intro d hd
    rcases List.mem_cons.mp hd with rfl | hd
    · rfl
    · rw [h d hd]
      rfl
  have hdrop := (span_append hall (c :: t) (by simpa using hc)).2
  rw [blanks, hdrop]

/-- The check of the nesting level is one piece, though it takes three lines. -/
theorem line_levelCheck {inner outer : List Char} (hi : ∀ c ∈ inner, c = ' ')
    (ho : ∀ c ∈ outer, c = ' ') :
    IsPiece runtime
      (("if " ++ Condition.isTooDeep.render runtime ++ openBrace).toList ++ ('\n' :: inner ++
        (s!"return Err({Failure.nestingTooDeep.render runtime});".toList ++ ('\n' :: outer ++
          closeBrace.toList))))
      (.stmt (failIf .isTooDeep .nestingTooDeep)) := by
  have hif : "if ".toList ++ "depth >= ".toList = "if".toList ++ " depth >= ".toList := rfl
  unfold Condition.render Failure.render
  simp only [toString, String.toList_append, ← List.append_assoc, hif]
  simp only [List.append_assoc]
  refine isPiece_word rfl ((stops_literal rfl).append _) fun rest => orElse_of_some ?_
  revert rest
  refine (takes_expect _).bind ((takes_expect _).bind ((takes_expect _).bind ?_))
  refine (takes_expect _).bind ((takes_blanks hi).bind ((stops_literal rfl).append _) ?_)
  refine (takes_expect _).bind ((takes_expect _).bind ((takes_expect _).bind ?_))
  refine (takes_expect _).bind ((takes_expect _).bind ((takes_expect _).bind ?_))
  refine (takes_blanks ho).bind (stops_literal rfl) ?_
  exact (takes_expect _).return _

end

end WireSchema.Source

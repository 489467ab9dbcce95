import WireSchema.Schema.TypeExpr

/-!
What parsers take off a text and what they leave. An identifier, which is read in runs, is all the
characters of an identifier that a text starts with.
-/

namespace WireSchema

namespace Text.Parser

variable {α β : Type} {p q : Parser α} {f : α → Parser β} {s rest : List Char} {a : α}

theorem bind_of_some (h : p s = some (a, rest)) : (p >>= f) s = f a rest := by
  change (p s).bind (fun r => f r.1 r.2) = _
  rw [h]
  rfl

theorem bind_of_none (h : p s = none) : (p >>= f) s = none := by
  change (p s).bind (fun r => f r.1 r.2) = _
  rw [h]
  rfl

theorem map_of_some {g : α → β} (h : p s = some (a, rest)) : (g <$> p) s = some (g a, rest) := by
  change (p s).bind (fun r => some (g r.1, r.2)) = _
  rw [h]
  rfl

theorem map_of_none {g : α → β} (h : p s = none) : (g <$> p) s = none := by
  change (p s).bind (fun r => some (g r.1, r.2)) = _
  rw [h]
  rfl

theorem orElse_of_some {r : α × List Char} (h : p s = some r) : (p <|> q) s = some r := by
  change (p s <|> q s) = _
  rw [h]
  rfl

theorem orElse_of_none (h : p s = none) : (p <|> q) s = q s := by
  change (p s <|> q s) = _
  rw [h]
  rfl

theorem optional_of_some (h : p s = some (a, rest)) : (optional p) s = some (some a, rest) := by
  refine orElse_of_some (map_of_some h)

theorem optional_of_none (h : p s = none) : (optional p) s = some (none, s) := by
  exact orElse_of_none (map_of_none h)

theorem tag_append (text rest : List Char) : tag text (text ++ rest) = some (text, rest) := by
  simp [tag]

theorem tag_of_not_start {text s : List Char} (h : ¬ text <+: s) : tag text s = none := by
  simp [tag, h]

/-- A text starts with a character that is not of a kind. -/
def Stops (kind : Char → Bool) (text : List Char) : Prop := ∃ c t, text = c :: t ∧ kind c = false

theorem Stops.append {kind : Char → Bool} {text : List Char} (h : Stops kind text)
    (more : List Char) : Stops kind (text ++ more) := by
  obtain ⟨c, t, rfl, hc⟩ := h
  exact ⟨c, t ++ more, rfl, hc⟩

theorem Stops.of_imp {narrow wide : Char → Bool} {text : List Char} (h : Stops wide text)
    (hk : ∀ c, narrow c = true → wide c = true) : Stops narrow text := by
  obtain ⟨c, t, rfl, hc⟩ := h
  refine ⟨c, t, rfl, Bool.eq_false_iff.mpr fun hn => ?_⟩
  rw [hk c hn] at hc
  cases hc

/-- Characters of a kind are all that a text starts with, if it stops behind them. -/
theorem span_append {kind : Char → Bool} {word : List Char} (hw : ∀ c ∈ word, kind c = true)
    (rest : List Char) (hr : ∀ c ∈ rest.head?, kind c = false) :
    (word ++ rest).takeWhile kind = word ∧ (word ++ rest).dropWhile kind = rest := by
  rw [List.takeWhile_append_of_pos hw, List.dropWhile_append_of_pos hw]
  cases rest with
  | nil => simp
  | cons c rest => simp [hr c (by simp)]

theorem run_eq (kind : Char → Bool) (s : List Char) :
    run kind s =
      if s.takeWhile kind = [] then none else some (s.takeWhile kind, s.dropWhile kind) := by
  unfold run
  cases s.takeWhile kind <;> rfl

theorem run_append {kind : Char → Bool} {word rest : List Char} (hne : word ≠ [])
    (hw : ∀ c ∈ word, kind c = true) (hr : Stops kind rest) :
    run kind (word ++ rest) = some (word, rest) := by
  obtain ⟨c, t, rfl, hc⟩ := hr
  obtain ⟨htake, hdrop⟩ := span_append hw (c :: t) (by simpa using hc)
  rw [run_eq, htake, hdrop, if_neg hne]

theorem whole_of_some (h : p s = some (a, [])) : p.whole s = some a := by
  simp only [whole, h]

theorem whole_of_none (h : p s = none) : p.whole s = none := by
  simp only [whole, h]

theorem whole_of_rest {c : Char} (h : p s = some (a, c :: rest)) : p.whole s = none := by
  simp only [whole, h]

/-- A parser takes a text off, whatever follows it. -/
def Takes (p : Parser α) (text : List Char) (a : α) : Prop :=
  ∀ rest, p (text ++ rest) = some (a, rest)

theorem takes_tag (text : List Char) : Takes (tag text) text text := tag_append text

theorem Takes.bind {text text' : List Char} {b : β} (h : Takes p text a)
    (h' : Takes (f a) text' b) : Takes (p >>= f) (text ++ text') b := by
  intro rest
  rw [List.append_assoc, bind_of_some (h _), h' rest]

/-- The last step of a parser may give another value for what it took. -/
theorem Takes.map {text : List Char} (h : Takes p text a) (g : α → β) :
    Takes (g <$> p) text (g a) :=
  fun rest => map_of_some (h rest)

theorem Takes.return {text : List Char} (h : Takes p text a) (g : α → β) :
    Takes (p >>= fun x => pure (g x)) text (g a) :=
  fun rest => bind_of_some (h rest)

/-- A parser takes a word off a text that goes on with a character of another kind. -/
def TakesUpTo (p : Parser α) (kind : Char → Bool) (word : List Char) (a : α) : Prop :=
  ∀ text, Stops kind text → p (word ++ text) = some (a, text)

theorem Takes.upTo {word : List Char} (h : Takes p word a) (kind : Char → Bool) :
    TakesUpTo p kind word a :=
  fun text _ => h text

/-- A word is told from what follows by the character behind it. -/
theorem TakesUpTo.bind {kind : Char → Bool} {word text : List Char} {b : β}
    (h : TakesUpTo p kind word a) (hs : Stops kind text) (h' : Takes (f a) text b) :
    Takes (p >>= f) (word ++ text) b := by
  intro rest
  rw [List.append_assoc, bind_of_some (h _ (hs.append rest)), h' rest]

end Text.Parser

open Text

/-- The characters of one kind are those of a narrower kind, and what of the first kind follows. -/
theorem takeWhile_of_imp {narrow wide : Char → Bool} (h : ∀ c, narrow c = true → wide c = true)
    (s : List Char) :
    s.takeWhile wide = s.takeWhile narrow ++ (s.dropWhile narrow).takeWhile wide := by
  induction s with
  | nil => rfl
  | cons c s ih =>
    cases hn : narrow c with
    | true => simp [hn, h c hn, ih]
    | false => simp [hn]

theorem dropWhile_of_imp {narrow wide : Char → Bool} (h : ∀ c, narrow c = true → wide c = true)
    (s : List Char) : s.dropWhile wide = (s.dropWhile narrow).dropWhile wide := by
  induction s with
  | nil => rfl
  | cons c s ih =>
    cases hn : narrow c with
    | true => simp [hn, h c hn, ih]
    | false => simp [hn]

def runOrUnderscore (kind : Char → Bool) : Parser (List Char) :=
  Parser.run kind <|> Parser.tag ['_']

theorem runOrUnderscore_cons (kind : Char → Bool) (c : Char) (s : List Char) :
    runOrUnderscore kind (c :: s) =
      if kind c then some (c :: s.takeWhile kind, s.dropWhile kind)
      else if c = '_' then some (['_'], s)
      else none := by
  unfold runOrUnderscore
  cases hc : kind c with
  | true =>
    apply Parser.orElse_of_some
    simp [Parser.run_eq, hc]
  | false =>
    rw [Parser.orElse_of_none (by simp [Parser.run_eq, hc])]
    by_cases hu : c = '_'
    · subst hu
      exact Parser.tag_append ['_'] s
    · have hnot : ¬ ['_'] <+: c :: s := by simpa using fun h => hu h.symm
      rw [Parser.tag_of_not_start hnot]
      simp [hu]

/-- Runs and underscores together are all that a name can go on with. -/
theorem manyFrom_runs (fuel : Nat) (s : List Char) (h : s.length ≤ fuel) :
    ∃ runs, Parser.manyFrom (runOrUnderscore Char.isAlphanum) fuel s =
        some (runs, s.dropWhile isIdentRest) ∧ runs.flatten = s.takeWhile isIdentRest := by
  have himp (c : Char) (hc : c.isAlphanum = true) : isIdentRest c = true := by
    simp [isIdentRest, hc]
  induction fuel generalizing s with
  | zero =>
    have hs : s = [] := List.length_eq_zero_iff.mp (Nat.le_zero.mp h)
    subst hs
    exact ⟨[], rfl, rfl⟩
  | succ fuel ih =>
    -- one round: either it takes something and the rest is shorter, or it stops here
    have hround {word rest : List Char} (hr : runOrUnderscore Char.isAlphanum s = some (word, rest))
        (hlen : rest.length ≤ fuel)
        (htake : s.takeWhile isIdentRest = word ++ rest.takeWhile isIdentRest)
        (hdrop : s.dropWhile isIdentRest = rest.dropWhile isIdentRest) :
        ∃ runs, Parser.manyFrom (runOrUnderscore Char.isAlphanum) (fuel + 1) s =
          some (runs, s.dropWhile isIdentRest) ∧ runs.flatten = s.takeWhile isIdentRest := by
      obtain ⟨runs, hruns, hflat⟩ := ih rest hlen
      refine ⟨word :: runs, ?_, by rw [List.flatten_cons, hflat, htake]⟩
      apply Parser.orElse_of_some
      rw [Parser.bind_of_some hr, Parser.bind_of_some hruns, hdrop]
      rfl
    cases s with
    | nil => exact ⟨[], rfl, rfl⟩
    | cons c s =>
      have hlen : s.length ≤ fuel := Nat.le_of_succ_le_succ h
      have hstep := runOrUnderscore_cons Char.isAlphanum c s
      by_cases hc : c.isAlphanum = true
      · rw [if_pos hc] at hstep
        refine hround hstep ?_ ?_ ?_
        · exact Nat.le_trans (List.dropWhile_suffix _).length_le hlen
        · simp [himp c hc, takeWhile_of_imp himp s]
        · simp [himp c hc, dropWhile_of_imp himp s]
      · rw [if_neg hc] at hstep
        by_cases hu : c = '_'
        · subst hu
          have hrest : isIdentRest '_' = true := rfl
          exact hround hstep hlen (by simp [hrest]) (by simp [hrest])
        · rw [if_neg hu] at hstep
          have hrest : isIdentRest c = false := by simpa [isIdentRest, hc] using hu
          refine ⟨[], ?_, by simp [hrest]⟩
          refine (Parser.orElse_of_none (Parser.bind_of_none hstep)).trans ?_
          rw [List.dropWhile_cons_of_neg (by simp [hrest])]
          rfl

theorem isAlpha_iff (c : Char) :
    c.isAlpha = true ↔ ('A' ≤ c ∧ c ≤ 'Z') ∨ ('a' ≤ c ∧ c ≤ 'z') :=
  Bool.or_eq_true_iff.trans (or_congr decide_eq_true_iff
    (Bool.and_eq_true_iff.trans (and_congr decide_eq_true_iff decide_eq_true_iff)))

def directIdentifier : Parser (List Char)
  | [] => none
  | c :: s =>
    if isIdentStart c then some (c :: s.takeWhile isIdentRest, s.dropWhile isIdentRest) else none

/-- The combinators for an identifier take what a direct description takes. -/
theorem identifier_eq : identifier = directIdentifier := by
  funext s
  have himp (c : Char) (hc : c.isAlpha = true) : isIdentRest c = true := by
    simp [isIdentRest, Char.isAlphanum, hc]
  have hmany (word rest : List Char) (hs : runOrUnderscore Char.isAlpha s = some (word, rest)) :
      identifier s = some (word ++ rest.takeWhile isIdentRest, rest.dropWhile isIdentRest) := by
    obtain ⟨runs, hruns, hflat⟩ := manyFrom_runs rest.length rest (Nat.le_refl _)
    have hmore : (runOrUnderscore Char.isAlphanum).many rest =
        some (runs, rest.dropWhile isIdentRest) := hruns
    refine (Parser.bind_of_some hs).trans ((Parser.bind_of_some hmore).trans ?_)
    rw [hflat]
    rfl
  cases s with
  | nil => rfl
  | cons c s =>
    have hstep := runOrUnderscore_cons Char.isAlpha c s
    by_cases hc : c.isAlpha = true
    · rw [if_pos hc] at hstep
      rw [hmany _ _ hstep]
      simp [directIdentifier, isIdentStart, hc, ← takeWhile_of_imp himp, ← dropWhile_of_imp himp]
    · rw [if_neg hc] at hstep
      by_cases hu : c = '_'
      · rw [if_pos hu] at hstep
        rw [hmany _ _ hstep]
        simp [directIdentifier, isIdentStart, hu]
      · rw [if_neg hu] at hstep
        refine (Parser.bind_of_none hstep).trans ?_
        simp [directIdentifier, isIdentStart, hc, hu]

theorem isIdentifier_cons {name : List Char} (h : isIdentifier name = true) :
    ∃ c t, name = c :: t ∧ isIdentStart c = true ∧ ∀ d ∈ t, isIdentRest d = true := by
  cases name with
  | nil => cases h
  | cons c t =>
    obtain ⟨hc, ht⟩ := Bool.and_eq_true_iff.mp h
    exact ⟨c, t, rfl, hc, List.all_eq_true.mp ht⟩

/-- An identifier is read as far as a character follows that cannot stand in one. -/
theorem identifier_append {name : List Char} (h : isIdentifier name = true) {rest : List Char}
    (hr : ∀ c ∈ rest.head?, isIdentRest c = false) :
    identifier (name ++ rest) = some (name, rest) := by
  obtain ⟨c, t, rfl, hc, ht⟩ := isIdentifier_cons h
  obtain ⟨htake, hdrop⟩ := Parser.span_append ht rest hr
  rw [identifier_eq, List.cons_append, directIdentifier, if_pos hc, htake, hdrop]

end WireSchema

import WireSchema.Proofs.LineNumbers
import WireSchema.Proofs.Versions

/-!
The grammar of JSON. A text of the grammar is a row of words and spaces, no word of which goes
over the end of a line; its tokens are those of its words, in whatever line they stand.
-/

namespace WireSchema.Json

/-! ## Grammar -/

def Spaces (s : List Char) : Prop := ∀ c ∈ s, c = ' ' ∨ c = '\t' ∨ c = '\n' ∨ c = '\r'

def IsHexDigit (c : Char) : Prop :=
  ('0' ≤ c ∧ c ≤ '9') ∨ ('a' ≤ c ∧ c ≤ 'f') ∨ ('A' ≤ c ∧ c ≤ 'F')

inductive Chars : List Char → Prop
  | nil : Chars []
  | plain {c : Char} {s : List Char} (control : ' ' ≤ c) (quote : c ≠ '"') (backslash : c ≠ '\\')
      (tail : Chars s) : Chars (c :: s)
  | escape {e : Char} {s : List Char} (simple : e ∈ ['"', '\\', '/', 'b', 'f', 'n', 'r', 't'])
      (tail : Chars s) : Chars ('\\' :: e :: s)
  | code {a b c d : Char} {s : List Char} (digits : ∀ x ∈ [a, b, c, d], IsHexDigit x)
      (tail : Chars s) : Chars ('\\' :: 'u' :: a :: b :: c :: d :: s)

def Digits (s : List Char) : Prop := s ≠ [] ∧ ∀ c ∈ s, c.isDigit = true

/-- The digits of an integer: a zero, or digits that do not start with one. -/
def IsWhole (s : List Char) : Prop := s = ['0'] ∨ Digits s ∧ s.head? ≠ some '0'

inductive IsFraction : List Char → Prop
  | none : IsFraction []
  | digits {s : List Char} (digits : Digits s) : IsFraction ('.' :: s)

inductive IsExponent : List Char → Prop
  | none : IsExponent []
  | digits {e : Char} {sign s : List Char} (letter : e = 'e' ∨ e = 'E')
      (signed : sign = [] ∨ sign = ['+'] ∨ sign = ['-']) (digits : Digits s) :
      IsExponent (e :: (sign ++ s))

inductive IsNumber : List Char → Prop
  | mk {sign whole fraction exponent : List Char} (signed : sign = [] ∨ sign = ['-'])
      (integer : IsWhole whole) (fractional : IsFraction fraction)
      (scaled : IsExponent exponent) :
      IsNumber (sign ++ (whole ++ (fraction ++ exponent)))

/-- The phrases of the grammar. An element is a value between spaces. -/
inductive Phrase where
  | value
  | element
  | items
  | member
  | members

inductive Phrase.Writes : Phrase → List Char → Prop
  | null : Writes value ['n', 'u', 'l', 'l']
  | true : Writes value ['t', 'r', 'u', 'e']
  | false : Writes value ['f', 'a', 'l', 's', 'e']
  | number {s : List Char} (number : IsNumber s) : Writes value s
  | string {s : List Char} (chars : Chars s) : Writes value ('"' :: (s ++ ['"']))
  | emptyArray {s : List Char} (spaces : Spaces s) : Writes value ('[' :: (s ++ [']']))
  | array {s : List Char} (items : Writes items s) : Writes value ('[' :: (s ++ [']']))
  | emptyObject {s : List Char} (spaces : Spaces s) : Writes value ('\x7b' :: (s ++ ['\x7d']))
  | object {s : List Char} (members : Writes members s) :
      Writes value ('\x7b' :: (s ++ ['\x7d']))
  | element {a s b : List Char} (before : Spaces a) (value : Writes value s) (after : Spaces b) :
      Writes element (a ++ (s ++ b))
  | lastItem {s : List Char} (item : Writes element s) : Writes items s
  | moreItems {s rest : List Char} (item : Writes element s) (tail : Writes items rest) :
      Writes items (s ++ ',' :: rest)
  | member {a key b s : List Char} (before : Spaces a) (chars : Chars key) (after : Spaces b)
      (value : Writes element s) : Writes member (a ++ '"' :: (key ++ '"' :: (b ++ ':' :: s)))
  | lastMember {s : List Char} (member : Writes member s) : Writes members s
  | moreMembers {s rest : List Char} (member : Writes member s) (tail : Writes members rest) :
      Writes members (s ++ ',' :: rest)

def IsText (s : List Char) : Prop := Phrase.Writes .element s

/-! ## Words -/

/-- A text that does not go on with a number that stands in front of it. -/
def Parted (s : List Char) : Prop :=
  ∀ c ∈ s.head?, c.isDigit = false ∧ c ≠ '.' ∧ c ≠ 'e' ∧ c ≠ 'E'

/-- A word of one line that is the token `t` up to the line of its faults, wherever it stands. -/
structure Lexeme (w : List Char) (t : Token) : Prop where
  unbroken : ∀ c ∈ w, c ≠ '\n' ∧ c ≠ '\r'
  scans : ∃ c tail, w = c :: tail ∧ Text.isBlank c = false ∧ c ≠ '/' ∧
    ∀ line rest, Parted rest → ∃ t', scanToken line c (tail ++ rest) = (t', some rest) ∧
      t'.mapLine (fun _ => 0) = t

/-- A row of words and spaces, with the tokens of the words. -/
inductive Worded : List Char → List Token → Prop
  | nil : Worded [] []
  | space {c : Char} {s : List Char} {ts : List Token}
      (space : c = ' ' ∨ c = '\t' ∨ c = '\n' ∨ c = '\r') (tail : Worded s ts) : Worded (c :: s) ts
  | mark {c : Char} {t : Token} {s : List Char} {ts : List Token} (mark : punctuation? c = some t)
      (tail : Worded s ts) : Worded (c :: s) (t :: ts)
  | word {w s : List Char} {t : Token} {ts : List Token} (word : Lexeme w t) (parted : Parted s)
      (tail : Worded s ts) : Worded (w ++ s) (t :: ts)

theorem parted_nil : Parted [] := nofun

theorem parted_cons {c : Char} {s : List Char} :
    Parted (c :: s) ↔ c.isDigit = false ∧ c ≠ '.' ∧ c ≠ 'e' ∧ c ≠ 'E' := by
  simp [Parted]

theorem Parted.of_prefix {s t : List Char} (h : Parted t) (hp : s <+: t) : Parted s := by
  obtain ⟨u, rfl⟩ := hp
  cases s with
  | nil => exact parted_nil
  | cons c s => exact parted_cons.mpr (parted_cons.mp h)

theorem Parted.append {s t : List Char} (hs : Parted s) (ht : Parted t) : Parted (s ++ t) := by
  cases s with
  | nil => exact ht
  | cons c s => exact parted_cons.mpr (parted_cons.mp hs)

theorem Spaces.parted {s : List Char} (h : Spaces s) : Parted s := by
  cases s with
  | nil => exact parted_nil
  | cons c s =>
    rw [parted_cons]
    rcases h c List.mem_cons_self with rfl | rfl | rfl | rfl <;> decide

theorem parted_mark {c : Char} {t : Token} (h : punctuation? c = some t) (s : List Char) :
    Parted (c :: s) := by
  unfold punctuation? at h
  rw [parted_cons]
  split at h
  case h_7 => cases h
  all_goals decide

/-- The characters of punctuation are neither blank nor the start of a comment. -/
theorem mark_plain {c : Char} {t : Token} (h : punctuation? c = some t) :
    Text.isBlank c = false ∧ c ≠ '/' ∧ t.mapLine (fun _ => 0) = t := by
  unfold punctuation? at h
  split at h
  case h_7 => cases h
  all_goals
    cases h
    exact ⟨by decide, by decide, rfl⟩

theorem isBlank_of_space {c : Char} (h : c = ' ' ∨ c = '\t' ∨ c = '\n' ∨ c = '\r') :
    Text.isBlank c = true := by
  rcases h with rfl | rfl | rfl | rfl <;> rfl

theorem not_space_of_not_blank {c : Char} (h : Text.isBlank c = false) :
    c ≠ '\n' ∧ isSpace c = false := by
  constructor
  · rintro rfl
    cases h
  · rw [isSpace, Bool.or_eq_false_iff, Bool.or_eq_false_iff]
    simp only [beq_eq_false_iff_ne]
    refine ⟨⟨?_, ?_⟩, ?_⟩ <;> (rintro rfl; cases h)

/-- A space between tokens gives no token; only a line feed changes the line. -/
theorem tokensFrom_space {c : Char} (h : c = ' ' ∨ c = '\t' ∨ c = '\n' ∨ c = '\r') (line : Nat)
    (s : List Char) : ∃ line', tokensFrom line (c :: s) = tokensFrom line' s := by
  rcases h with rfl | rfl | rfl | rfl <;> rw [tokensFrom] <;> exact ⟨_, rfl⟩

theorem tokensFrom_scan {c : Char} {line : Nat} {s tail : List Char} {t : Token}
    (hc : Text.isBlank c = false) (h : scanToken line c s = (t, some tail)) :
    tokensFrom line (c :: s) = ⟨line, t⟩ :: tokensFrom line tail := by
  obtain ⟨hn, hs⟩ := not_space_of_not_blank hc
  rw [tokensFrom, if_neg hn, hs]
  simp only [Bool.false_eq_true, if_false]
  split
  · rename_i hnone
    cases hnone.symm.trans h
  · rename_i hsome
    cases hsome.symm.trans h
    rfl

/-- The tokens of a row of words are those of the words. -/
theorem Worded.tokens {s : List Char} {ts : List Token} (h : Worded s ts) (line : Nat) :
    (tokensFrom line s).map (Located.mapLine fun _ => 0) = ts.map (Located.mk 0) := by
  induction h generalizing line with
  | nil => rw [tokensFrom]; rfl
  | @space c s ts hspace tail ih =>
    obtain ⟨line', hline⟩ := tokensFrom_space hspace line s
    rw [hline, ih]
  | @mark c t s ts hmark tail ih =>
    obtain ⟨hblank, _, ht⟩ := mark_plain hmark
    have hscan : scanToken line c s = (t, some s) := by simp only [scanToken, hmark]
    rw [tokensFrom_scan hblank hscan, List.map_cons, ih, Located.mapLine, ht, List.map_cons]
  | @word w s t ts hword parted tail ih =>
    obtain ⟨c, rest, rfl, hblank, _, hscans⟩ := hword.scans
    obtain ⟨t', hscan, ht⟩ := hscans line s parted
    rw [List.cons_append, tokensFrom_scan hblank hscan, List.map_cons, ih, Located.mapLine, ht,
      List.map_cons]

/-! ## Strings -/

def Reading.mapLine (g : Nat → Nat) : Reading → Reading
  | text done half => text done half
  | failed f => failed (f.mapLine g)

theorem Reading.push_mapLine (g : Nat → Nat) (line : Nat) (c : Char) (r : Reading) :
    (r.mapLine g).push (g line) c = (r.push line c).mapLine g := by
  rcases r with ⟨done, _ | half⟩ | f <;> rfl

/-- A code unit is taken in the same way in every line, surrogates that wait for their other half
included. -/
theorem Reading.pushUnit_mapLine (g : Nat → Nat) (line unit : Nat) (r : Reading) :
    (r.mapLine g).pushUnit (g line) unit = (r.pushUnit line unit).mapLine g := by
  rcases r with ⟨done, _ | half⟩ | f
  · simp only [mapLine, pushUnit]
    split
    · rfl
    · split <;> rfl
  · simp only [mapLine, pushUnit]
    split <;> rfl
  · rfl

theorem Reading.finish_mapLine (g : Nat → Nat) (line : Nat) (r : Reading) :
    (r.mapLine g).finish (g line) = (r.finish line).mapError (Fault.mapLine g) := by
  rcases r with ⟨done, _ | half⟩ | f <;> rfl

theorem hexDigit_isSome {c : Char} (h : IsHexDigit c) : ∃ n, hexDigit? c = some n := by
  unfold hexDigit?
  split
  · exact ⟨_, rfl⟩
  · split
    · exact ⟨_, rfl⟩
    · rw [if_pos (by rcases h with h | h | h <;> [contradiction; contradiction; exact h])]
      exact ⟨_, rfl⟩

theorem hexUnit_isSome {a b c d : Char} (h : ∀ x ∈ [a, b, c, d], IsHexDigit x) :
    ∃ unit, hexUnit? a b c d = some unit := by
  obtain ⟨na, ha⟩ := hexDigit_isSome (h a (by simp))
  obtain ⟨nb, hb⟩ := hexDigit_isSome (h b (by simp))
  obtain ⟨nc, hc⟩ := hexDigit_isSome (h c (by simp))
  obtain ⟨nd, hd⟩ := hexDigit_isSome (h d (by simp))
  exact ⟨_, by rw [hexUnit?, ha, hb, hc, hd]; rfl⟩

/-- A string of the grammar is scanned to its closing quote, and what is read of it depends on the
line only as its faults do. -/
theorem Chars.scanned {body : List Char} (h : Chars body) :
    ∃ run : Nat → Reading → Reading,
      (∀ line r rest, scanString line r (body ++ '"' :: rest) =
        .closed ((run line r).finish line) rest) ∧
      ∀ g line r, run (g line) (r.mapLine g) = (run line r).mapLine g := by
  induction h with
  | nil => exact ⟨fun _ r => r, fun _ _ _ => by rw [List.nil_append, scanString], fun _ _ _ => rfl⟩
  | @plain c s control quote backslash tail ih =>
    obtain ⟨run, hscan, hline⟩ := ih
    refine ⟨fun line r => run line (r.push line c), ?_, ?_⟩
    · intro line r rest
      rw [List.cons_append, scanString, if_neg (Char.not_lt.mpr control), hscan]
      all_goals simp [quote, backslash]
    · intro g line r
      simp only [Reading.push_mapLine, hline]
  | @escape e s simple tail ih =>
    obtain ⟨run, hscan, hline⟩ := ih
    obtain ⟨c, hc⟩ : ∃ c, simpleEscape? e = some c := by
      simp only [List.mem_cons, List.not_mem_nil, or_false] at simple
      rcases simple with rfl | rfl | rfl | rfl | rfl | rfl | rfl | rfl <;> exact ⟨_, rfl⟩
    have hu : e ≠ 'u' := by
      rintro rfl
      simp at simple
    refine ⟨fun line r => run line (r.push line c), ?_, ?_⟩
    · intro line r rest
      rw [List.cons_append, List.cons_append, scanString, hc]
      · exact hscan line _ rest
      all_goals simp [hu]
    · intro g line r
      simp only [Reading.push_mapLine, hline]
  | @code a b c d s digits tail ih =>
    obtain ⟨run, hscan, hline⟩ := ih
    obtain ⟨unit, hunit⟩ := hexUnit_isSome digits
    refine ⟨fun line r => run line (r.pushUnit line unit), ?_, ?_⟩
    · intro line r rest
      simp only [List.cons_append]
      rw [scanString, hunit]
      exact hscan line _ rest
    · intro g line r
      simp only [Reading.pushUnit_mapLine, hline]

theorem IsHexDigit.control {c : Char} (h : IsHexDigit c) : ' ' ≤ c := by
  rcases h with ⟨h, _⟩ | ⟨h, _⟩ | ⟨h, _⟩ <;> exact Char.le_trans (by decide) h

theorem Chars.control {body : List Char} (h : Chars body) : ∀ c ∈ body, ' ' ≤ c := by
  induction h with
  | nil => nofun
  | plain control quote backslash tail ih => exact List.forall_mem_cons.mpr ⟨control, ih⟩
  | escape simple tail ih =>
    refine List.forall_mem_cons.mpr ⟨by decide, List.forall_mem_cons.mpr ⟨?_, ih⟩⟩
    simp only [List.mem_cons, List.not_mem_nil, or_false] at simple
    rcases simple with rfl | rfl | rfl | rfl | rfl | rfl | rfl | rfl <;> decide
  | @code a b c d s digits tail ih =>
    intro x hx
    replace hx : x ∈ ['\\', 'u'] ++ ([a, b, c, d] ++ s) := hx
    rcases List.mem_append.mp hx with hx | hx
    · simp only [List.mem_cons, List.not_mem_nil, or_false] at hx
      rcases hx with rfl | rfl <;> decide
    · exact (List.mem_append.mp hx).elim (fun hx => (digits x hx).control) (ih x)

theorem Chars.unbroken {body : List Char} (h : Chars body) : ∀ c ∈ body, c ≠ '\n' ∧ c ≠ '\r' := by
  intro c hc
  have hcontrol := h.control c hc
  constructor <;> (rintro rfl; exact absurd hcontrol (by decide))

/-- A string by the grammar is scanned to its end wherever it stands, though it may be one whose
surrogates do not pair. -/
theorem Chars.lexeme {body : List Char} (h : Chars body) :
    ∃ t, Lexeme ('"' :: (body ++ ['"'])) t := by
  obtain ⟨run, hscan, hline⟩ := h.scanned
  refine ⟨.string ((run 0 (.text [] none)).finish 0), ?_, '"', _, rfl, by decide, by decide, ?_⟩
  · simp only [List.mem_cons, List.mem_append, List.not_mem_nil, or_false]
    rintro c (rfl | hc | rfl)
    · decide
    · exact h.unbroken c hc
    · decide
  · intro line rest _
    refine ⟨.string ((run line (.text [] none)).finish line), ?_, ?_⟩
    · rw [List.append_assoc, List.singleton_append]
      simp only [scanToken, hscan]
      rfl
    · have hread := hline (fun _ => 0) line (.text [] none)
      rw [Token.mapLine, ← Reading.finish_mapLine, ← hread]
      rfl

/-! ## Numbers -/

/-- Digits are no other characters of JSON, and no blanks. -/
theorem digit_plain {c : Char} (h : c.isDigit = true) :
    Text.isBlank c = false ∧ c ∉ ['/', '"', '-', '\n', '\r'] ∧ punctuation? c = none := by
  refine ⟨?_, ?_, ?_⟩
  · obtain ⟨hl, hg⟩ := (VersionPredicate.isDigit_iff c).mp h
    exact Text.isBlank_of_digit hl hg
  · intro hc
    simp only [List.mem_cons, List.not_mem_nil, or_false] at hc
    rcases hc with rfl | rfl | rfl | rfl | rfl <;> exact absurd h (by decide)
  · unfold punctuation?
    split
    case h_7 => rfl
    all_goals exact absurd h (by decide)

theorem scanDigits_append {digits rest : List Char} (hd : Digits digits)
    (hr : ∀ c ∈ rest.head?, c.isDigit = false) (line : Nat) :
    scanDigits line (digits ++ rest) = .ok (digits, rest) := by
  obtain ⟨htake, hdrop⟩ := Text.Parser.span_append hd.2 rest hr
  rw [scanDigits, htake, hdrop]
  cases digits with
  | nil => exact absurd rfl hd.1
  | cons d ds => rfl

theorem IsWhole.digits {s : List Char} (h : IsWhole s) : Digits s := by
  rcases h with rfl | ⟨h, _⟩
  · exact ⟨by simp, by simp⟩
  · exact h

theorem IsWhole.scanned {s rest : List Char} (h : IsWhole s)
    (hr : ∀ c ∈ rest.head?, c.isDigit = false) (line : Nat) :
    scanWhole line (s ++ rest) = .ok (s, rest) := by
  rw [scanWhole, scanDigits_append h.digits hr]
  rcases h with rfl | ⟨_, hzero⟩
  · rfl
  · split
    · rename_i heq
      cases heq
      rfl
    · rename_i heq
      cases heq
      exact absurd rfl hzero
    · rfl

theorem IsFraction.head {s rest : List Char} (h : IsFraction s)
    (hr : ∀ c ∈ rest.head?, c.isDigit = false) : ∀ c ∈ (s ++ rest).head?, c.isDigit = false := by
  cases h with
  | none => exact hr
  | digits digits => simp

theorem IsFraction.scanned {s : List Char} (h : IsFraction s) :
    ∃ fraction, ∀ line rest, (∀ c ∈ rest.head?, c.isDigit = false ∧ c ≠ '.') →
      scanFraction line (s ++ rest) = .ok (fraction, rest) := by
  cases h with
  | none =>
    refine ⟨Option.none, ?_⟩
    intro line rest hr
    rw [List.nil_append, scanFraction]
    rintro s rfl
    exact absurd rfl (hr '.' rfl).2
  | @digits s digits =>
    refine ⟨some s, ?_⟩
    intro line rest hr
    rw [List.cons_append, scanFraction, scanDigits_append digits fun c hc => (hr c hc).1]
    rfl

theorem IsExponent.head {s rest : List Char} (h : IsExponent s) (hr : Parted rest) :
    ∀ c ∈ (s ++ rest).head?, c.isDigit = false ∧ c ≠ '.' := by
  cases h with
  | none => exact fun c hc => ⟨(hr c hc).1, (hr c hc).2.1⟩
  | digits letter signed digits =>
    intro c hc
    cases hc
    rcases letter with rfl | rfl <;> decide

/-- A sign is told from digits by its first character. -/
theorem splitSign_append {sign s : List Char} (hs : sign = [] ∨ sign = ['+'] ∨ sign = ['-'])
    (hd : Digits s) (rest : List Char) :
    splitSign (sign ++ (s ++ rest)) = (decide (sign = ['-']), s ++ rest) := by
  rcases hs with rfl | rfl | rfl
  · obtain ⟨d, ds, rfl⟩ := List.exists_cons_of_ne_nil hd.1
    have hdigit := hd.2 d List.mem_cons_self
    unfold splitSign
    split
    · rename_i heq
      cases heq
      exact absurd hdigit (by decide)
    · rename_i heq
      cases heq
      exact absurd hdigit (by decide)
    · rfl
  · rfl
  · rfl

theorem IsExponent.scanned {s : List Char} (h : IsExponent s) :
    ∃ exponent, ∀ line rest, Parted rest →
      scanExponent line (s ++ rest) = .ok (exponent, rest) := by
  cases h with
  | none =>
    refine ⟨Option.none, ?_⟩
    intro line rest hr
    cases rest with
    | nil => rfl
    | cons c rest =>
      obtain ⟨_, _, he, hE⟩ := parted_cons.mp hr
      rw [List.nil_append, scanExponent, if_neg (by simp [he, hE])]
  | @digits e sign s letter signed digits =>
    refine ⟨some (decide (sign = ['-']), s), ?_⟩
    intro line rest hr
    rw [List.cons_append, List.append_assoc, scanExponent, if_pos letter,
      splitSign_append signed digits]
    simp only
    rw [scanDigits_append digits fun c hc => (hr c hc).1]
    rfl

/-- A number by the grammar is scanned part by part, up to where the text goes on otherwise. -/
theorem scanNumeral_parts {whole fraction exponent : List Char} (hw : IsWhole whole)
    (hf : IsFraction fraction) (he : IsExponent exponent) (negative : Bool) :
    ∃ n, ∀ line rest, Parted rest →
      scanNumeral line negative (whole ++ (fraction ++ (exponent ++ rest))) = .ok (n, rest) := by
  obtain ⟨f, hfraction⟩ := hf.scanned
  obtain ⟨e, hexponent⟩ := he.scanned
  refine ⟨⟨negative, whole, f, e⟩, ?_⟩
  intro line rest hr
  have hhead := he.head hr
  have hwhole := hw.scanned (hf.head fun c hc => (hhead c hc).1) line
  simp only [scanNumeral, hwhole, hfraction line _ hhead, hexponent line rest hr, ok_bind]
  rfl

theorem Digits.unbroken {s : List Char} (h : Digits s) : ∀ c ∈ s, c ≠ '\n' ∧ c ≠ '\r' := by
  intro c hc
  have hdigit := h.2 c hc
  constructor <;> (rintro rfl; exact absurd hdigit (by decide))

theorem IsFraction.unbroken {s : List Char} (h : IsFraction s) : ∀ c ∈ s, c ≠ '\n' ∧ c ≠ '\r' := by
  cases h with
  | none => nofun
  | digits digits => exact List.forall_mem_cons.mpr ⟨by decide, digits.unbroken⟩

theorem IsExponent.unbroken {s : List Char} (h : IsExponent s) : ∀ c ∈ s, c ≠ '\n' ∧ c ≠ '\r' := by
  cases h with
  | none => nofun
  | digits letter signed digits =>
    refine List.forall_mem_cons.mpr ⟨?_, List.forall_mem_append.mpr ⟨?_, digits.unbroken⟩⟩
    · rcases letter with rfl | rfl <;> decide
    · rcases signed with rfl | rfl | rfl <;> simp

theorem IsNumber.unbroken {s : List Char} (h : IsNumber s) : ∀ c ∈ s, c ≠ '\n' ∧ c ≠ '\r' := by
  cases h with
  | mk signed hw hf he =>
    simp only [List.forall_mem_append]
    refine ⟨?_, hw.digits.unbroken, hf.unbroken, he.unbroken⟩
    rcases signed with rfl | rfl <;> simp

/-- A number by the grammar is one token wherever it stands, though its value may be out of
range. -/
theorem IsNumber.lexeme {s : List Char} (h : IsNumber s) : ∃ t, Lexeme s t := by
  have hunbroken := h.unbroken
  cases h with
  | @mk sign whole fraction exponent signed hw hf he =>
    rcases signed with rfl | rfl
    · obtain ⟨n, hn⟩ := scanNumeral_parts hw hf he false
      obtain ⟨d, ds, rfl⟩ := List.exists_cons_of_ne_nil hw.digits.1
      have hdigit := hw.digits.2 d List.mem_cons_self
      obtain ⟨hblank, hplain, hmark⟩ := digit_plain hdigit
      simp only [List.mem_cons, not_or] at hplain
      refine ⟨.number n.value?, hunbroken, d, ds ++ (fraction ++ exponent), rfl, hblank,
        hplain.1, ?_⟩
      intro line rest hr
      refine ⟨.number n.value?, ?_, rfl⟩
      have hscan := hn line rest hr
      rw [List.cons_append] at hscan
      simp only [List.append_assoc, scanToken, hmark, hplain, hdigit, hscan, if_false, if_true]
    · obtain ⟨n, hn⟩ := scanNumeral_parts hw hf he true
      refine ⟨.number n.value?, hunbroken, '-', whole ++ (fraction ++ exponent), rfl, by decide,
        by decide, ?_⟩
      intro line rest hr
      refine ⟨.number n.value?, ?_, rfl⟩
      simp only [List.append_assoc, scanToken, hn line rest hr]
      rfl

/-! ## Texts of the grammar are rows of words -/

theorem scanWord_append (line : Nat) (expected rest : List Char) :
    scanWord line expected (expected ++ rest) = .ok rest := by
  induction expected with
  | nil => rw [List.nil_append, scanWord]
  | cons e es ih => rw [List.cons_append, scanWord, if_pos rfl, ih]

theorem word_lexeme {c : Char} {tail : List Char} {t : Token} (h : word? c = some (tail, t)) :
    Lexeme (c :: tail) t := by
  have hcases : c = 'n' ∨ c = 't' ∨ c = 'f' := by
    unfold word? at h
    split at h <;> simp_all
  have hscan (line : Nat) (rest : List Char) :
      scanToken line c (tail ++ rest) = (t, some rest) := by
    have hmark : punctuation? c = none := by rcases hcases with rfl | rfl | rfl <;> rfl
    have hdigit : c.isDigit = false := by rcases hcases with rfl | rfl | rfl <;> rfl
    have hplain : c ≠ '"' ∧ c ≠ '-' := by rcases hcases with rfl | rfl | rfl <;> decide
    simp only [scanToken, hmark, hplain, hdigit, h, scanWord_append, Bool.false_eq_true, if_false]
  rcases hcases with rfl | rfl | rfl <;> cases h <;>
    exact ⟨by simp, _, _, rfl, by decide, by decide, fun line rest _ => ⟨_, hscan line rest, rfl⟩⟩

theorem Worded.spaces {a s : List Char} {ts : List Token} (ha : Spaces a) (h : Worded s ts) :
    Worded (a ++ s) ts := by
  induction a with
  | nil => exact h
  | cons c a ih =>
    obtain ⟨hc, ha⟩ := List.forall_mem_cons.mp ha
    exact .space hc (ih ha)

/-- What may stand in front of a row of words, between two marks. -/
theorem Worded.enclosed {c d : Char} {t u : Token} {v s : List Char} {ts : List Token}
    (hs : Worded s ts) (hc : punctuation? c = some t) (hd : punctuation? d = some u)
    (inner : ∀ {x : List Char} {us : List Token}, Parted x → Worded x us →
      ∃ vs, Worded (v ++ x) vs) : ∃ us, Worded (c :: (v ++ [d]) ++ s) us := by
  obtain ⟨us, hus⟩ := inner (parted_mark hd s) (.mark hd hs)
  rw [List.cons_append, List.append_assoc]
  exact ⟨t :: us, .mark hc hus⟩

/-- One word more in front, if what follows it does not go on with it. -/
theorem Worded.lexeme {w s : List Char} {ts : List Token} (hw : ∃ t, Lexeme w t) (hp : Parted s)
    (h : Worded s ts) : ∃ us, Worded (w ++ s) us := by
  obtain ⟨t, hw⟩ := hw
  exact ⟨t :: ts, .word hw hp h⟩

/-- What a phrase writes is a row of words in front of any that does not go on with a number. -/
theorem Phrase.Writes.worded {p : Phrase} {v s : List Char} {ts : List Token} (h : Writes p v)
    (hp : Parted s) (hs : Worded s ts) : ∃ us, Worded (v ++ s) us := by
  induction h generalizing s ts with
  | null => exact hs.lexeme ⟨_, word_lexeme (c := 'n') rfl⟩ hp
  | true => exact hs.lexeme ⟨_, word_lexeme (c := 't') rfl⟩ hp
  | false => exact hs.lexeme ⟨_, word_lexeme (c := 'f') rfl⟩ hp
  | number number => exact hs.lexeme number.lexeme hp
  | string chars => exact hs.lexeme chars.lexeme hp
  | emptyArray spaces => exact hs.enclosed rfl rfl fun _ hx => ⟨_, hx.spaces spaces⟩
  | array items ih => exact hs.enclosed rfl rfl ih
  | emptyObject spaces => exact hs.enclosed rfl rfl fun _ hx => ⟨_, hx.spaces spaces⟩
  | object members ih => exact hs.enclosed rfl rfl ih
  | element before value after ih =>
    obtain ⟨us, hus⟩ := ih (after.parted.append hp) (hs.spaces after)
    rw [List.append_assoc, List.append_assoc]
    exact ⟨us, hus.spaces before⟩
  | lastItem item ih => exact ih hp hs
  | moreItems item tail ihItem ihTail =>
    obtain ⟨us, hus⟩ := ihTail hp hs
    rw [List.append_assoc, List.cons_append]
    exact ihItem (parted_mark rfl _) (.mark rfl hus)
  | @member a key b v before chars after value ih =>
    obtain ⟨us, hus⟩ := ih hp hs
    have hcolon := (Worded.mark (c := ':') rfl hus).spaces after
    have hparted := after.parted.append (parted_mark (c := ':') rfl (v ++ s))
    obtain ⟨vs, hvs⟩ := hcolon.lexeme chars.lexeme hparted
    refine ⟨vs, ?_⟩
    simp only [List.append_assoc, List.cons_append, List.nil_append] at hvs ⊢
    exact hvs.spaces before
  | lastMember member ih => exact ih hp hs
  | moreMembers member tail ihMember ihTail =>
    obtain ⟨us, hus⟩ := ihTail hp hs
    rw [List.append_assoc, List.cons_append]
    exact ihMember (parted_mark rfl _) (.mark rfl hus)

/-- A text that is JSON is a row of words. -/
theorem IsText.worded {s : List Char} (h : IsText s) : ∃ ts, Worded s ts := by
  obtain ⟨ts, hts⟩ := Phrase.Writes.worded h parted_nil .nil
  rw [List.append_nil] at hts
  exact ⟨ts, hts⟩

end WireSchema.Json

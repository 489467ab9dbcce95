import Mathlib.Data.List.Basic
import Mathlib.Tactic.SplitIfs
import WireSchema.Text.Literal
import WireSchema.Text.Quoted

/-!
Quoted texts. A reader of literals gets back the text that was quoted, up to the quote that ends the
literal and no further; and no character of a literal breaks the line that it stands in.
-/

namespace WireSchema.Text

/-- Whether a text has a quote that no backslash escapes. A backslash escapes the character behind
it. -/
def hasBareQuote : List Char → Bool
  | [] => false
  | ['\\'] => false
  | '\\' :: _ :: rest => hasBareQuote rest
  | c :: rest => c == '"' || hasBareQuote rest

def lineBreaks : List Char := ['\n', '\x0b', '\x0c', '\r', '\u0085', '\u2028', '\u2029']

/-! ## Digits of a code point -/

theorem hexDigit?_digitChar {d : Nat} (h : d < 16) : Json.hexDigit? (Nat.digitChar d) = some d := by
  have hall : ∀ d < 16, Json.hexDigit? (Nat.digitChar d) = some d := by decide
  exact hall d h

/-- A hexadecimal digit stands for itself in a literal, and ends no escape. -/
theorem digitChar_plain {d : Nat} (h : d < 16) :
    isPlain (Nat.digitChar d) = true ∧ Nat.digitChar d ≠ '"' ∧ Nat.digitChar d ≠ '\\' ∧
      Nat.digitChar d ≠ '\x7d' := by
  have hall : ∀ d < 16, isPlain (Nat.digitChar d) = true ∧ Nat.digitChar d ≠ '"' ∧
      Nat.digitChar d ≠ '\\' ∧ Nat.digitChar d ≠ '\x7d' := by decide
  exact hall d h

/-- A number ends with the digit of its rest, behind the digits of its quotient. -/
theorem toDigits_succ {n : Nat} (h : ¬ n < 16) :
    Nat.toDigits 16 n = Nat.toDigits 16 (n / 16) ++ [Nat.digitChar (n % 16)] := by
  rw [Nat.toDigits_eq_if (by decide), if_neg h]

theorem mem_toDigits {n : Nat} {c : Char} (h : c ∈ Nat.toDigits 16 n) :
    ∃ d < 16, c = Nat.digitChar d := by
  induction n using Nat.strongRecOn with
  | ind n ih =>
    by_cases hn : n < 16
    · rw [Nat.toDigits_of_lt_base hn, List.mem_singleton] at h
      exact ⟨n, hn, h⟩
    · rw [toDigits_succ hn] at h
      rcases List.mem_append.mp h with h | h
      · exact ih (n / 16) (by omega) h
      · exact ⟨n % 16, by omega, List.mem_singleton.mp h⟩

theorem toDigits_length_pos (n : Nat) : 0 < (Nat.toDigits 16 n).length :=
  List.length_pos_iff.mpr Nat.toDigits_ne_nil

/-- Digits of a number are read as that number. -/
theorem readLiteral_toDigits (n : Nat) (h : (Nat.toDigits 16 n).length ≤ 6) (rest : List Char) :
    readLiteral (.code 0 0) (Nat.toDigits 16 n ++ rest) =
      readLiteral (.code n (Nat.toDigits 16 n).length) rest := by
  have hdigit (value count d : Nat) (hd : d < 16) (hc : count < 6) (rest : List Char) :
      readLiteral (.code value count) (Nat.digitChar d :: rest) =
        readLiteral (.code (value * 16 + d) (count + 1)) rest := by
    simp [readLiteral, hexDigit?_digitChar hd, hc, (digitChar_plain hd).2.2.2]
  induction n using Nat.strongRecOn generalizing rest with
  | ind n ih =>
    by_cases hn : n < 16
    · simp [Nat.toDigits_of_lt_base hn, hdigit 0 0 n hn]
    · have hsplit := toDigits_succ hn
      rw [hsplit, List.length_append, List.length_singleton] at h
      rw [hsplit, List.append_assoc, List.singleton_append, ih (n / 16) (by omega) (by omega),
        hdigit _ _ _ (Nat.mod_lt n (by decide)) (by omega), List.length_append,
        List.length_singleton, Nat.div_add_mod']

/-! ## Escapes -/

/-- A code point has at most six digits. -/
theorem toDigits_length_le (c : Char) : (Nat.toDigits 16 c.toNat).length ≤ 6 := by
  rw [Nat.length_toDigits_le_iff (by decide) (by decide)]
  have hvalid : c.toNat.isValidChar := c.valid
  unfold Nat.isValidChar at hvalid
  omega

/-- A code point between braces is read back, whatever follows it. -/
theorem readLiteral_escapeCode (c : Char) (rest : List Char) :
    readLiteral .plain (escapeCode c ++ rest) =
      (readLiteral .plain rest).map fun (s, rest) => (c :: s, rest) := by
  have hdigits := readLiteral_toDigits c.toNat (toDigits_length_le c) ('\x7d' :: rest)
  have hvalid : c.toNat.isValidChar := c.valid
  have hopen : readLiteral .plain (escapeCode c ++ rest) =
      readLiteral (.code 0 0) (Nat.toDigits 16 c.toNat ++ '\x7d' :: rest) := by
    simp [escapeCode, readLiteral]
  rw [hopen, hdigits]
  simp [readLiteral, toDigits_length_pos, hvalid, Char.ofNat_toNat]

/-- It is read back, whatever follows it. -/
theorem readLiteral_escapeChar (c : Char) (rest : List Char) :
    readLiteral .plain (escapeChar c ++ rest) =
      (readLiteral .plain rest).map fun (s, rest) => (c :: s, rest) := by
  unfold escapeChar
  split_ifs with hnull htab hreturn hfeed hslash hquote hplain
  · rw [hnull]; rfl
  · rw [htab]; rfl
  · rw [hreturn]; rfl
  · rw [hfeed]; rfl
  · rw [hslash]; rfl
  · rw [hquote]; rfl
  · simp [readLiteral, hquote, hslash]
  · exact readLiteral_escapeCode c rest

/-- A literal is read as the text that was quoted, whatever follows its end. -/
theorem readLiteral_escape (s rest : List Char) :
    readLiteral .plain (escape s ++ '"' :: rest) = some (s, rest) := by
  induction s with
  | nil => rfl
  | cons c s ih =>
    rw [escape, List.flatMap_cons, List.append_assoc, readLiteral_escapeChar, ← escape, ih]
    rfl

theorem hasBareQuote_append {s : List Char} (h : ∀ c ∈ s, c ≠ '"' ∧ c ≠ '\\') (t : List Char) :
    hasBareQuote (s ++ t) = hasBareQuote t := by
  induction s with
  | nil => rfl
  | cons c s ih =>
    obtain ⟨hquote, hslash⟩ := h c List.mem_cons_self
    have hrest := ih fun d hd => h d (List.mem_cons_of_mem _ hd)
    simp [hasBareQuote, hquote, hslash, hrest]

/-- No escaped character ends a literal. -/
theorem hasBareQuote_escapeChar (c : Char) (t : List Char) :
    hasBareQuote (escapeChar c ++ t) = hasBareQuote t := by
  unfold escapeChar
  split_ifs with hnull htab hreturn hfeed hslash hquote hplain
  iterate 6 rfl
  · exact hasBareQuote_append (by simp [hquote, hslash]) t
  · have hdigits : ∀ d ∈ '\x7b' :: (Nat.toDigits 16 c.toNat ++ ['\x7d']), d ≠ '"' ∧ d ≠ '\\' := by
      intro d hd
      rcases List.mem_cons.mp hd with rfl | hd
      · decide
      · rcases List.mem_append.mp hd with hd | hd
        · obtain ⟨n, hn, rfl⟩ := mem_toDigits hd
          exact ⟨(digitChar_plain hn).2.1, (digitChar_plain hn).2.2.1⟩
        · rw [List.mem_singleton.mp hd]
          decide
    have hcode := hasBareQuote_append hdigits t
    simpa [escapeCode, hasBareQuote] using hcode

/-- Every quote in a literal is escaped. -/
theorem hasBareQuote_escape (s : List Char) : hasBareQuote (escape s) = false := by
  induction s with
  | nil => rfl
  | cons c s ih => rw [escape, List.flatMap_cons, hasBareQuote_escapeChar, ← escape, ih]

theorem escapeCode_plain (c : Char) : ∀ d ∈ escapeCode c, isPlain d = true := by
  intro d hd
  simp only [escapeCode, List.mem_append, List.mem_cons, List.not_mem_nil, or_false] at hd
  rcases hd with ((rfl | rfl | rfl) | hd) | rfl
  · decide
  · decide
  · decide
  · obtain ⟨n, hn, rfl⟩ := mem_toDigits hd
    exact (digitChar_plain hn).1
  · decide

/-- All characters of a literal show by themselves. -/
theorem escape_plain (s : List Char) : ∀ c ∈ escape s, isPlain c = true := by
  have hshort {x : Char} (hx : isPlain x = true) : ∀ c ∈ ['\\', x], isPlain c = true := by
    intro c hc
    rcases List.mem_pair.mp hc with rfl | rfl
    · decide
    · exact hx
  have hchar (d : Char) : ∀ c ∈ escapeChar d, isPlain c = true := by
    unfold escapeChar
    split_ifs with hnull htab hreturn hfeed hslash hquote hplain
    · exact hshort (by decide)
    · exact hshort (by decide)
    · exact hshort (by decide)
    · exact hshort (by decide)
    · exact hshort (by decide)
    · exact hshort (by decide)
    · intro c hc
      rwa [List.mem_singleton.mp hc]
    · exact escapeCode_plain d
  intro c hc
  obtain ⟨d, _, hd⟩ := List.mem_flatMap.mp hc
  exact hchar d c hd

/-- A class of characters that no line break is in. -/
theorem not_lineBreak {p : Char → Bool} (h : lineBreaks.any p = false) {c : Char}
    (hc : p c = true) : c ∉ lineBreaks := by
  intro hbreak
  exact List.any_eq_false.mp h c hbreak hc

/-- A literal stays on one line. -/
theorem escape_unbroken (s : List Char) : ∀ c ∈ escape s, c ∉ lineBreaks := by
  have hplain : lineBreaks.any isPlain = false := by decide +kernel
  intro c hc
  exact not_lineBreak hplain (escape_plain s c hc)

end WireSchema.Text

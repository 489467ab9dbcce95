import WireSchema.Json.Token

/-!
The tokens of a text. Each token leaves less text than it found, so there are finitely many.
-/

namespace WireSchema.Json

theorem scanString_length {line : Nat} {r : Reading} {s : List Char} {text : Except Fault String}
    {rest : List Char} (h : scanString line r s = .closed text rest) :
    rest.length < s.length := by
  fun_induction scanString line r s with
  | case2 r tail =>
    simp only [StringScan.closed.injEq] at h
    simp [h.2]
  | case3 r a b c d tail unit _ ih =>
    have := ih h
    simp only [List.length_cons]
    omega
  | case7 r e tail _ _ c _ ih =>
    have := ih h
    simp only [List.length_cons]
    omega
  | case10 r c tail _ _ _ _ _ _ ih =>
    have := ih h
    simp only [List.length_cons]
    omega
  | _ => simp at h

theorem scanDigits_length {line : Nat} {s digits rest : List Char}
    (h : scanDigits line s = .ok (digits, rest)) : rest.length < s.length := by
  unfold scanDigits at h
  split at h
  · simp at h
  · rename_i hd
    simp only [Except.ok.injEq, Prod.mk.injEq] at h
    obtain ⟨rfl, rfl⟩ := h
    have hsum : (s.takeWhile Char.isDigit).length + (s.dropWhile Char.isDigit).length =
        s.length := by
      rw [← List.length_append, List.takeWhile_append_dropWhile]
    have := List.length_pos_iff.mpr hd
    omega

theorem scanWhole_length {line : Nat} {s digits rest : List Char}
    (h : scanWhole line s = .ok (digits, rest)) : rest.length < s.length := by
  unfold scanWhole at h
  split at h
  · rename_i hd
    simp only [Except.ok.injEq, Prod.mk.injEq] at h
    obtain ⟨rfl, rfl⟩ := h
    exact scanDigits_length hd
  · simp at h
  · exact scanDigits_length h

theorem scanFraction_length {line : Nat} {s rest : List Char} {digits : Option (List Char)}
    (h : scanFraction line s = .ok (digits, rest)) : rest.length ≤ s.length := by
  unfold scanFraction at h
  split at h
  · rename_i tail
    cases hd : scanDigits line tail with
    | error f => simp [hd, Except.map] at h
    | ok p =>
      obtain ⟨found, tail⟩ := p
      simp only [hd, Except.map, Except.ok.injEq, Prod.mk.injEq] at h
      have := scanDigits_length hd
      rw [← h.2]
      simp only [List.length_cons]
      omega
  · simp only [Except.ok.injEq, Prod.mk.injEq] at h
    simp [h.2]

theorem splitSign_length (s : List Char) : (splitSign s).2.length ≤ s.length := by
  unfold splitSign
  split <;> simp

theorem scanExponent_length {line : Nat} {s rest : List Char} {e : Option (Bool × List Char)}
    (h : scanExponent line s = .ok (e, rest)) : rest.length ≤ s.length := by
  unfold scanExponent at h
  split at h
  · simp only [Except.ok.injEq, Prod.mk.injEq] at h
    simp [h.2]
  · rename_i c signed
    split at h
    · have hs := splitSign_length signed
      cases hd : scanDigits line (splitSign signed).2 with
      | error f => simp [hd, Except.map] at h
      | ok p =>
        obtain ⟨found, tail⟩ := p
        simp only [hd, Except.map, Except.ok.injEq, Prod.mk.injEq] at h
        have := scanDigits_length hd
        rw [← h.2]
        simp only [List.length_cons]
        omega
    · simp only [Except.ok.injEq, Prod.mk.injEq] at h
      simp [h.2]

theorem scanNumeral_length {line : Nat} {negative : Bool} {s rest : List Char} {n : Numeral}
    (h : scanNumeral line negative s = .ok (n, rest)) : rest.length < s.length := by
  unfold scanNumeral at h
  cases hw : scanWhole line s with
  | error f => simp [hw, bind, Except.bind] at h
  | ok w =>
    obtain ⟨whole, s1⟩ := w
    cases hf : scanFraction line s1 with
    | error f => simp [hw, hf, bind, Except.bind] at h
    | ok fr =>
      obtain ⟨fraction, s2⟩ := fr
      cases he : scanExponent line s2 with
      | error f => simp [hw, hf, he, bind, Except.bind] at h
      | ok ex =>
        obtain ⟨exponent, s3⟩ := ex
        simp only [hw, hf, he, bind, Except.bind, pure, Except.pure, Except.ok.injEq,
          Prod.mk.injEq] at h
        have h1 := scanWhole_length hw
        have h2 := scanFraction_length hf
        have h3 := scanExponent_length he
        rw [← h.2]
        omega

theorem scanWord_length {line : Nat} {expected s rest : List Char}
    (h : scanWord line expected s = .ok rest) : rest.length ≤ s.length := by
  fun_induction scanWord line expected s with
  | case1 s =>
    simp only [Except.ok.injEq] at h
    simp [h]
  | case2 => simp at h
  | case3 e es s ih =>
    have := ih h
    simp only [List.length_cons]
    omega
  | case4 => simp at h

/-- What follows a token is shorter than the text that it starts. -/
theorem scanToken_length {line : Nat} {c : Char} {s rest : List Char} {t : Token}
    (h : scanToken line c s = (t, some rest)) : rest.length ≤ s.length := by
  unfold scanToken at h
  split at h
  · simp only [Prod.mk.injEq, Option.some.injEq] at h
    simp [h.2]
  · split at h
    · split at h
      · rename_i hs
        simp only [Prod.mk.injEq, Option.some.injEq] at h
        have := scanString_length hs
        rw [← h.2]
        omega
      · simp at h
    · split at h
      · split at h
        · rename_i hn
          simp only [Prod.mk.injEq, Option.some.injEq] at h
          have := scanNumeral_length hn
          rw [← h.2]
          omega
        · simp at h
      · split at h
        · split at h
          · rename_i hn
            simp only [Prod.mk.injEq, Option.some.injEq] at h
            have := scanNumeral_length hn
            rw [← h.2]
            simp only [List.length_cons] at this
            omega
          · simp at h
        · split at h
          · split at h
            · rename_i hw
              simp only [Prod.mk.injEq, Option.some.injEq] at h
              have := scanWord_length hw
              rw [← h.2]
              exact this
            · simp at h
          · simp at h

/-- The tokens of a text that starts in line `line`, up to the first that breaks off. -/
def tokensFrom (line : Nat) : List Char → List Located
  | [] => []
  | c :: rest =>
    if c = '\n' then tokensFrom (line + 1) rest
    else if isSpace c then tokensFrom line rest
    else
      match _h : scanToken line c rest with
      | (t, none) => [⟨line, t⟩]
      | (t, some tail) => ⟨line, t⟩ :: tokensFrom line tail
termination_by s => s.length
decreasing_by
  · simp
  · simp
  · have := scanToken_length _h
    simp only [List.length_cons]
    omega

def tokens (s : List Char) : List Located := tokensFrom 1 s

/-- The last line of a document, which is where it ends too early if it does. -/
def endLine (s : List Char) : Nat := lineBehind 1 s

end WireSchema.Json

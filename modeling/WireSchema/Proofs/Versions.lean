import WireSchema.Proofs.Parsing
import WireSchema.Proofs.SoundPlan

/-!
The texts of version predicates. Trying the three forms in turn accepts just what they write, a
predicate is read from its own rendering, and a planned field is present in the versions that its
text writes.
-/

namespace WireSchema

namespace Text

/-- One text is another without the blanks at its ends. -/
structure Trimmed (s t : List Char) : Prop where
  ends : ∃ before after, s = before ++ t ++ after ∧ (∀ c ∈ before, isBlank c = true) ∧
    ∀ c ∈ after, isBlank c = true
  first : ∀ c ∈ t.head?, isBlank c = false
  last : ∀ c ∈ t.getLast?, isBlank c = false

theorem not_blank_of_dropWhile {s : List Char} {c : Char} (h : c ∈ (s.dropWhile isBlank).head?) :
    isBlank c = false := by
  have hnot := List.head?_dropWhile_not isBlank s
  rw [Option.mem_def] at h
  simpa [h] using hnot

theorem trim_trimmed (s : List Char) : Trimmed s (trim s) := by
  have hstart : s.takeWhile isBlank ++ trimStart s = s := List.takeWhile_append_dropWhile
  have hend (t : List Char) : trimEnd t ++ (t.reverse.takeWhile isBlank).reverse = t := by
    rw [trimEnd, ← List.reverse_append, List.takeWhile_append_dropWhile, List.reverse_reverse]
  have hblank (t : List Char) : ∀ c ∈ t.takeWhile isBlank, isBlank c = true :=
    List.all_eq_true.mp List.all_takeWhile
  refine ⟨⟨s.takeWhile isBlank, ((trimStart s).reverse.takeWhile isBlank).reverse, ?_, hblank s,
    ?_⟩, ?_, ?_⟩
  · rw [List.append_assoc, trim, hend, hstart]
  · exact fun c hc => hblank _ c (List.mem_reverse.mp hc)
  · intro c hc
    apply not_blank_of_dropWhile (s := s)
    rw [← trimStart, ← hend (trimStart s), List.head?_append, Option.mem_def, ← trim,
      Option.mem_def.mp hc]
    rfl
  · intro c hc
    rw [trim, trimEnd, List.getLast?_reverse] at hc
    exact not_blank_of_dropWhile hc

theorem isBlank_of_digit {c : Char} (hl : '0' ≤ c) (hg : c ≤ '9') : isBlank c = false := by
  have hl' : 48 ≤ c.toNat := UInt32.le_iff_toNat_le.mp hl
  have hg' : c.toNat ≤ 57 := UInt32.le_iff_toNat_le.mp hg
  generalize hn : c.toNat = n at hl' hg'
  simp only [isBlank, hn]
  simp
  omega

theorem trim_of_not_blank {s : List Char} (h : ∀ c ∈ s, isBlank c = false) : trim s = s := by
  have hdrop {t : List Char} (ht : ∀ c ∈ t, isBlank c = false) : t.dropWhile isBlank = t := by
    cases t with
    | nil => rfl
    | cons c t => rw [List.dropWhile_cons, ht c List.mem_cons_self]; rfl
  rw [trim, trimStart, hdrop h, trimEnd, hdrop, List.reverse_reverse]
  intro c hc
  exact h c (List.mem_reverse.mp hc)

end Text

namespace VersionPredicate

def decimal (digits : List Char) : Nat := Nat.ofDigitChars 10 digits 0

structure IsVersion (digits : List Char) : Prop where
  ne_nil : digits ≠ []
  digit : ∀ c ∈ digits, '0' ≤ c ∧ c ≤ '9'
  le_greatest : decimal digits ≤ 32767

def written (digits : List Char) : Int16 := .ofNat (decimal digits)

inductive Writes : List Char → VersionPredicate → Prop
  | exact {d : List Char} (version : IsVersion d) : Writes d (.exact (written d))
  | minimum {d : List Char} (version : IsVersion d) : Writes (d ++ ['+']) (.minimum (written d))
  | range {d e : List Char} (lower : IsVersion d) (upper : IsVersion e)
      (ordered : decimal d ≤ decimal e) : Writes (d ++ '-' :: e) (.range (written d) (written e))

def least : VersionPredicate → Int
  | exact n => n.toInt
  | minimum n => n.toInt
  | range lo _ => lo.toInt

def greatest? : VersionPredicate → Option Int
  | exact n => some n.toInt
  | minimum _ => none
  | range _ hi => some hi.toInt

def Covers (p : VersionPredicate) (version : Int) : Prop :=
  p.least ≤ version ∧ ∀ hi ∈ p.greatest?, version ≤ hi

theorem digitsValue_eq (digits : List Char) : digitsValue digits = decimal digits := by
  rw [digitsValue, decimal, Nat.ofDigitChars_eq_foldl]
  congr 1
  funext n d
  rw [Nat.mul_comm]

theorem isDigit_iff (c : Char) : c.isDigit = true ↔ '0' ≤ c ∧ c ≤ '9' :=
  Bool.and_eq_true_iff.trans (and_congr decide_eq_true_iff decide_eq_true_iff)

theorem IsVersion.isDigit {d : List Char} (h : IsVersion d) : ∀ c ∈ d, c.isDigit = true :=
  fun c hc => (isDigit_iff c).mpr (h.digit c hc)

/-- A version that is written fits in sixteen bits, so that nothing is lost. -/
theorem IsVersion.toInt_written {d : List Char} (h : IsVersion d) :
    (written d).toInt = decimal d :=
  Int16.toInt_ofNat_of_lt (Nat.lt_succ_of_le h.le_greatest)

def version? (s : List Char) : Option Int16 :=
  if !s.isEmpty && s.all Char.isDigit then number? s else none

theorem version?_eq_some {s : List Char} {n : Int16} :
    version? s = some n ↔ IsVersion s ∧ n = written s := by
  have hcond : (!s.isEmpty && s.all Char.isDigit) = true ∧ decimal s ≤ greatestVersion ↔
      IsVersion s := by
    simp only [Bool.and_eq_true, Bool.not_eq_true', List.isEmpty_eq_false_iff, List.all_eq_true,
      isDigit_iff]
    exact ⟨fun h => ⟨h.1.1, h.1.2, h.2⟩, fun h => ⟨⟨h.ne_nil, h.digit⟩, h.le_greatest⟩⟩
  rw [version?, number?, digitsValue_eq, ← hcond, written]
  cases !s.isEmpty && s.all Char.isDigit with
  | false => simp
  | true =>
    by_cases hl : decimal s ≤ greatestVersion
    · simp [hl, eq_comm]
    · simp [hl]

/-- A number takes all the digits that a text starts with. -/
theorem number_eq (s : List Char) :
    number s =
      (version? (s.takeWhile Char.isDigit)).map fun n => (n, s.dropWhile Char.isDigit) := by
  have hall : (s.takeWhile Char.isDigit).all Char.isDigit = true := List.all_takeWhile
  by_cases hd : s.takeWhile Char.isDigit = []
  · rw [hd]
    exact Text.Parser.bind_of_none (by rw [Text.Parser.run_eq, if_pos hd])
  · have hrun : Text.Parser.run Char.isDigit s =
        some (s.takeWhile Char.isDigit, s.dropWhile Char.isDigit) := by
      rw [Text.Parser.run_eq, if_neg hd]
    have hversion : version? (s.takeWhile Char.isDigit) = number? (s.takeWhile Char.isDigit) := by
      simp [version?, hall, hd]
    rw [hversion]
    refine (Text.Parser.bind_of_some hrun).trans ?_
    cases number? (s.takeWhile Char.isDigit) <;> rfl

/-- The predicate that a text writes, told by what stands behind its first digits. -/
def direct? (s : List Char) : Option VersionPredicate :=
  match version? (s.takeWhile Char.isDigit), s.dropWhile Char.isDigit with
  | some n, [] => some (.exact n)
  | some n, ['+'] => some (.minimum n)
  | some lo, '-' :: upper => (version? upper).map (.range lo)
  | _, _ => none

theorem number_whole (s : List Char) : number.whole s = version? s := by
  have hs : s.takeWhile Char.isDigit ++ s.dropWhile Char.isDigit = s :=
    List.takeWhile_append_dropWhile
  have hfirst := List.head?_dropWhile_not Char.isDigit s
  have hn := number_eq s
  cases hr : s.dropWhile Char.isDigit with
  | nil =>
    rw [hr, List.append_nil] at hs
    rw [hr, hs] at hn
    cases hv : version? s with
    | none => exact Text.Parser.whole_of_none (by rw [hn, hv]; rfl)
    | some n => exact Text.Parser.whole_of_some (by rw [hn, hv]; rfl)
  | cons c rest =>
    rw [hr] at hn hs hfirst
    have hnot : version? s = none := by
      have hc : c.isDigit = false := by simpa using hfirst
      have hmem : c ∈ s := hs ▸ List.mem_append_right _ List.mem_cons_self
      have hall : s.all Char.isDigit = false := List.all_eq_false.mpr ⟨c, hmem, by simp [hc]⟩
      simp [version?, hall]
    rw [hnot]
    cases hv : version? (s.takeWhile Char.isDigit) with
    | none => exact Text.Parser.whole_of_none (by rw [hn, hv]; rfl)
    | some n => exact Text.Parser.whole_of_rest (by rw [hn, hv]; rfl)

section Forms

variable {s rest : List Char} {n : Int16}

theorem exactForm_of_number (h : number s = some (n, rest)) :
    exactForm s = some (.exact n, rest) := Text.Parser.bind_of_some h

theorem minimumForm_of_plus (h : number s = some (n, '+' :: rest)) :
    minimumForm s = some (.minimum n, rest) :=
  (Text.Parser.bind_of_some h).trans (Text.Parser.bind_of_some (Text.Parser.tag_append ['+'] rest))

theorem minimumForm_of_not_plus (h : number s = some (n, rest)) (hr : ¬ ['+'] <+: rest) :
    minimumForm s = none :=
  (Text.Parser.bind_of_some h).trans (Text.Parser.bind_of_none (Text.Parser.tag_of_not_start hr))

theorem rangeForm_of_dash (h : number s = some (n, '-' :: rest)) :
    rangeForm s = (number rest).map fun r => (.range n r.1, r.2) := by
  refine (Text.Parser.bind_of_some h).trans
    ((Text.Parser.bind_of_some (Text.Parser.tag_append ['-'] rest)).trans ?_)
  cases hn : number rest with
  | none => exact Text.Parser.bind_of_none hn
  | some r => exact Text.Parser.bind_of_some hn

theorem rangeForm_of_not_dash (h : number s = some (n, rest)) (hr : ¬ ['-'] <+: rest) :
    rangeForm s = none :=
  (Text.Parser.bind_of_some h).trans (Text.Parser.bind_of_none (Text.Parser.tag_of_not_start hr))

/-- Where the two longer forms fail, the number is all that is read. -/
theorem anyForm_of_exact (h : number s = some (n, rest)) (hrange : rangeForm s = none)
    (hplus : ¬ ['+'] <+: rest) : anyForm s = some (.exact n, rest) :=
  (Text.Parser.orElse_of_none hrange).trans
    ((Text.Parser.orElse_of_none (minimumForm_of_not_plus h hplus)).trans (exactForm_of_number h))

/-- Behind a dash, what is not a second number as a whole leaves no form that takes all: a range
ends too early, and a number alone ends in front of the dash. -/
theorem anyForm_whole_of_dash (h : number s = some (n, '-' :: rest)) :
    anyForm.whole s = (number.whole rest).map (.range n) := by
  have hrange := rangeForm_of_dash h
  cases hu : number rest with
  | none =>
    rw [hu] at hrange
    rw [Text.Parser.whole_of_none hu]
    exact Text.Parser.whole_of_rest (anyForm_of_exact h hrange (by simp))
  | some r =>
    obtain ⟨hi, rest⟩ := r
    rw [hu] at hrange
    have hany : anyForm s = some (.range n hi, rest) := Text.Parser.orElse_of_some hrange
    cases rest with
    | nil => rw [Text.Parser.whole_of_some hany, Text.Parser.whole_of_some hu]; rfl
    | cons c rest => rw [Text.Parser.whole_of_rest hany, Text.Parser.whole_of_rest hu]; rfl

end Forms

/-- Trying one form after the other comes to the same as looking behind the first digits. -/
theorem anyForm_whole (s : List Char) : anyForm.whole s = direct? s := by
  have hn := number_eq s
  unfold direct?
  cases hv : version? (s.takeWhile Char.isDigit) with
  | none =>
    rw [hv] at hn
    have hrange : rangeForm s = none := Text.Parser.bind_of_none hn
    have hminimum : minimumForm s = none := Text.Parser.bind_of_none hn
    have hexact : exactForm s = none := Text.Parser.bind_of_none hn
    exact Text.Parser.whole_of_none ((Text.Parser.orElse_of_none hrange).trans
      ((Text.Parser.orElse_of_none hminimum).trans hexact))
  | some n =>
    rw [hv, Option.map_some] at hn
    generalize s.dropWhile Char.isDigit = rest at hn
    cases rest with
    | nil =>
      exact Text.Parser.whole_of_some
        (anyForm_of_exact hn (rangeForm_of_not_dash hn (by simp)) (by simp))
    | cons c rest =>
      by_cases hdash : c = '-'
      · subst hdash
        rw [anyForm_whole_of_dash hn, number_whole]
        rfl
      · have hrange := rangeForm_of_not_dash hn (by simpa using fun h => hdash h.symm)
        by_cases hplus : c = '+'
        · subst hplus
          have hany : anyForm s = some (.minimum n, rest) :=
            (Text.Parser.orElse_of_none hrange).trans
              (Text.Parser.orElse_of_some (minimumForm_of_plus hn))
          cases rest with
          | nil => exact Text.Parser.whole_of_some hany
          | cons c rest => exact Text.Parser.whole_of_rest hany
        · rw [Text.Parser.whole_of_rest
            (anyForm_of_exact hn hrange (by simpa using fun h => hplus h.symm))]
          split <;> simp_all

theorem IsVersion.le_iff {d e : List Char} (hd : IsVersion d) (he : IsVersion e) :
    written d ≤ written e ↔ decimal d ≤ decimal e := by
  rw [Int16.le_iff_toInt_le, hd.toInt_written, he.toInt_written, Int.ofNat_le]

/-- What is read in order is what the three forms write. -/
theorem direct_eq_some {s : List Char} {p : VersionPredicate} :
    direct? s = some p ∧ p.isOrdered = true ↔ Writes s p := by
  constructor
  · rintro ⟨h, hordered⟩
    have hs : s.takeWhile Char.isDigit ++ s.dropWhile Char.isDigit = s :=
      List.takeWhile_append_dropWhile
    unfold direct? at h
    generalize s.takeWhile Char.isDigit = d at h hs
    generalize s.dropWhile Char.isDigit = rest at h hs
    subst hs
    cases hn : version? d with
    | none => simp [hn] at h
    | some n =>
      obtain ⟨hd, rfl⟩ := version?_eq_some.mp hn
      rw [hn] at h
      split at h
      · rename_i n heq
        cases heq
        cases h
        rw [List.append_nil]
        exact .exact hd
      · rename_i n heq
        cases heq
        cases h
        exact .minimum hd
      · rename_i lo upper heq
        cases heq
        obtain ⟨hi, hu, rfl⟩ := Option.map_eq_some_iff.mp h
        obtain ⟨he, rfl⟩ := version?_eq_some.mp hu
        exact .range hd he ((hd.le_iff he).mp (of_decide_eq_true hordered))
      · cases h
  · intro h
    cases h with
    | exact version =>
      obtain ⟨htake, hdrop⟩ := Text.Parser.span_append version.isDigit [] (by simp)
      rw [List.append_nil] at htake hdrop
      simp only [direct?, htake, hdrop, version?_eq_some.mpr ⟨version, rfl⟩, isOrdered, and_self]
    | @minimum d version =>
      obtain ⟨htake, hdrop⟩ := Text.Parser.span_append version.isDigit ['+'] (by simp)
      simp only [direct?, htake, hdrop, version?_eq_some.mpr ⟨version, rfl⟩, isOrdered, and_self]
    | @range d e lower upper ordered =>
      obtain ⟨htake, hdrop⟩ := Text.Parser.span_append lower.isDigit ('-' :: e) (by simp)
      simp only [direct?, htake, hdrop, version?_eq_some.mpr ⟨lower, rfl⟩,
        version?_eq_some.mpr ⟨upper, rfl⟩, Option.map_some, true_and]
      exact decide_eq_true ((lower.le_iff upper).mpr ordered)

theorem Writes.ne_nil {s : List Char} {p : VersionPredicate} (h : Writes s p) : s ≠ [] := by
  cases h with
  | exact version => exact version.ne_nil
  | minimum version => simp
  | range lower upper ordered => simp

/-- The three forms tried in turn come to looking at what stands behind the first digits. -/
theorem parse_of_ne_nil {raw : String} (h : Text.trim raw.toList ≠ []) :
    parse raw =
      match (direct? (Text.trim raw.toList)).filter isOrdered with
      | some p => .ok (some p)
      | none => .error (.invalidVersions raw) := by
  rw [← anyForm_whole]
  unfold parse
  split
  · rename_i hnil
    exact absurd hnil h
  · cases hp : anyForm.whole (Text.trim raw.toList) with
    | none => rfl
    | some p => cases ho : p.isOrdered <;> simp [Option.filter, ho]

/-- The forms with their order checked are the written forms. -/
theorem filter_eq_some {s : List Char} {p : VersionPredicate} :
    (direct? s).filter isOrdered = some p ↔ Writes s p := by
  rw [Option.filter_eq_some_iff, direct_eq_some]

theorem parse_eq_none {raw : String} : parse raw = .ok none ↔ Text.trim raw.toList = [] := by
  constructor
  · intro h
    by_contra hne
    rw [parse_of_ne_nil hne] at h
    split at h <;> cases h
  · intro h
    rw [parse, h]

theorem parse_eq_some {raw : String} {p : VersionPredicate} :
    parse raw = .ok (some p) ↔ Writes (Text.trim raw.toList) p := by
  by_cases hne : Text.trim raw.toList = []
  · rw [parse_eq_none.mpr hne]
    simp only [Except.ok.injEq, reduceCtorEq, false_iff]
    exact fun h => h.ne_nil hne
  · rw [parse_of_ne_nil hne, ← filter_eq_some]
    cases (direct? (Text.trim raw.toList)).filter isOrdered <;> simp

/-- A text is refused just if it writes nothing and is not blank, and is shown as it stands. -/
theorem parse_eq_error {raw : String} {e : AttributeError} :
    parse raw = .error e ↔ e = .invalidVersions raw ∧ Text.trim raw.toList ≠ [] ∧
      ∀ p, ¬ Writes (Text.trim raw.toList) p := by
  by_cases hne : Text.trim raw.toList = []
  · simp [parse_eq_none.mpr hne, hne]
  · simp only [parse_of_ne_nil hne, ← filter_eq_some]
    cases (direct? (Text.trim raw.toList)).filter isOrdered <;> simp [hne, eq_comm]

/-- The digits of a number write it. -/
theorem isVersion_toDigits {n : Nat} (h : n ≤ 32767) :
    IsVersion (Nat.toDigits 10 n) ∧ decimal (Nat.toDigits 10 n) = n := by
  have hvalue : decimal (Nat.toDigits 10 n) = n := Nat.ofDigitChars_ten_toDigits
  refine ⟨⟨Nat.toDigits_ne_nil, ?_, hvalue.symm ▸ h⟩, hvalue⟩
  intro c hc
  exact (isDigit_iff c).mp (Nat.isDigit_of_mem_toDigits (by decide) (by decide) hc)

theorem toString_toList (n : Nat) : (toString n).toList = Nat.toDigits 10 n := by
  rw [Nat.toString_eq_ofList_toDigits, String.toList_ofList]

/-- A version that digits write is rendered without leading zeros. -/
theorem IsVersion.toString_written {d : List Char} (h : IsVersion d) :
    (toString (written d)).toList = Nat.toDigits 10 (decimal d) := by
  change (toString (written d).toInt).toList = _
  rw [h.toInt_written, ← toString_toList]
  rfl

/-- The rendering of a predicate is one of its written forms. -/
theorem Writes.render {s : List Char} {p : VersionPredicate} (h : Writes s p) :
    Writes p.render.toList p := by
  cases h with
  | @exact d version =>
    obtain ⟨hv, he⟩ := isVersion_toDigits version.le_greatest
    have hw := Writes.exact hv
    rw [written, he, ← written] at hw
    rwa [VersionPredicate.render, version.toString_written]
  | @minimum d version =>
    obtain ⟨hv, he⟩ := isVersion_toDigits version.le_greatest
    have hw := Writes.minimum hv
    rw [written, he, ← written] at hw
    rwa [VersionPredicate.render, String.toList_append, version.toString_written]
  | @range d e lower upper ordered =>
    obtain ⟨hl, hlv⟩ := isVersion_toDigits lower.le_greatest
    obtain ⟨hu, huv⟩ := isVersion_toDigits upper.le_greatest
    have hw := Writes.range hl hu (by rwa [hlv, huv])
    rw [written, written, hlv, huv, ← written, ← written] at hw
    rw [VersionPredicate.render, String.toList_append, String.toList_append,
      lower.toString_written, upper.toString_written, List.append_assoc]
    exact hw

theorem IsVersion.not_blank {d : List Char} (h : IsVersion d) :
    ∀ c ∈ d, Text.isBlank c = false := by
  intro c hc
  obtain ⟨hl, hg⟩ := h.digit c hc
  exact Text.isBlank_of_digit hl hg

theorem Writes.not_blank {s : List Char} {p : VersionPredicate} (h : Writes s p) :
    ∀ c ∈ s, Text.isBlank c = false := by
  cases h with
  | exact version => exact version.not_blank
  | minimum version =>
    intro c hc
    rcases List.mem_append.mp hc with hc | hc
    · exact version.not_blank c hc
    · rw [List.mem_singleton.mp hc]
      decide
  | range lower upper ordered =>
    intro c hc
    rcases List.mem_append.mp hc with hc | hc
    · exact lower.not_blank c hc
    · rcases List.mem_cons.mp hc with rfl | hc
      · decide
      · exact upper.not_blank c hc

/-- A predicate shows in a form that is read back as the predicate. -/
theorem parse_render {s : List Char} {p : VersionPredicate} (h : Writes s p) :
    parse p.render = .ok (some p) := by
  rw [parse_eq_some, Text.trim_of_not_blank h.render.not_blank]
  exact h.render

theorem matchesVersion_iff {p : VersionPredicate} {v : Int} :
    p.matchesVersion v = true ↔ p.Covers v := by
  cases p with
  | exact n =>
    simp only [matchesVersion, Covers, least, greatest?, beq_iff_eq, Option.mem_some_iff,
      forall_eq']
    omega
  | minimum n => simp [matchesVersion, Covers, least, greatest?]
  | range lo hi => simp [matchesVersion, Covers, least, greatest?]

theorem Writes.least_nonneg {s : List Char} {p : VersionPredicate} (h : Writes s p) :
    0 ≤ p.least := by
  have hd {d : List Char} (hv : IsVersion d) : 0 ≤ (written d).toInt := by
    rw [hv.toInt_written]
    exact Int.natCast_nonneg _
  cases h with
  | exact version => exact hd version
  | minimum version => exact hd version
  | range lower upper ordered => exact hd lower

/-- Of the predicates that texts write, one alone holds in negative versions too. -/
theorem Writes.isUnconditional_iff {s : List Char} {p : VersionPredicate} (h : Writes s p) :
    p.isUnconditional = true ↔ p = .minimum 0 := by
  have hleast := h.least_nonneg
  cases p with
  | exact n => simp [isUnconditional]
  | range lo hi => simp [isUnconditional]
  | minimum n =>
    simp only [isUnconditional, decide_eq_true_eq, minimum.injEq]
    rw [Int16.le_iff_toInt_le, ← Int16.toInt_inj, Int16.toInt_zero]
    exact ⟨fun hn => Int.le_antisymm hn hleast, fun hn => Int.le_of_eq hn⟩

end VersionPredicate

open VersionPredicate (Writes Covers)

/-- A planned field is present in the versions that a text writes. Negative versions lie in no
interval; there the field is present if the text is blank or writes a minimum of zero. -/
def FieldPlan.GatedBy (raw : String) (p : FieldPlan) : Prop :=
  ∀ v : Int,
    (0 ≤ v → (p.isPresent v = true ↔ Text.trim raw.toList = [] ∨
      ∃ q, Writes (Text.trim raw.toList) q ∧ q.Covers v)) ∧
    (v < 0 → (p.isPresent v = true ↔ Text.trim raw.toList = [] ∨
      Writes (Text.trim raw.toList) (.minimum 0)))

/-- A minimum of zero gates nothing, not even negative versions. -/
theorem FieldPlan.isPresent_iff {p : FieldPlan} {v : Int} :
    p.isPresent v = true ↔ ∀ q ∈ p.guard, q.isUnconditional = true ∨ q.Covers v := by
  simp only [← VersionPredicate.matchesVersion_iff]
  cases hg : p.guard with
  | none => simp [FieldPlan.isPresent, FieldPlan.readGuard, hg]
  | some q =>
    cases hu : q.isUnconditional <;>
      simp [FieldPlan.isPresent, FieldPlan.readGuard, hg, hu, Option.filter]

theorem FieldPlan.gatedBy_of_parse {p : FieldPlan} {raw : String}
    (h : VersionPredicate.parse raw = .ok p.guard) : p.GatedBy raw := by
  intro v
  simp only [FieldPlan.isPresent_iff]
  cases hg : p.guard with
  | none =>
    rw [hg] at h
    simp [VersionPredicate.parse_eq_none.mp h]
  | some q =>
    rw [hg] at h
    have hw := VersionPredicate.parse_eq_some.mp h
    have honly (q' : VersionPredicate) : Writes (Text.trim raw.toList) q' ↔ q' = q := by
      rw [← VersionPredicate.parse_eq_some, h]
      simp [eq_comm]
    simp only [hw.ne_nil, honly, false_or, exists_eq_left, Option.mem_some_iff, forall_eq',
      hw.isUnconditional_iff]
    constructor
    · intro hv
      refine or_iff_right_of_imp ?_
      rintro rfl
      simpa [Covers, VersionPredicate.least, VersionPredicate.greatest?] using hv
    · intro hv
      refine ⟨fun hq => ?_, fun hq => .inl hq.symm⟩
      rcases hq with hq | hq
      · exact hq.symm
      · have hleast := hw.least_nonneg
        have hcover := hq.1
        omega

/-- Reading a text of versions follows its grammar. A blank text is no predicate; a text in one of
the three forms is the predicate that it writes; any other text is refused. A predicate that was
read is read again from its rendering. In a plan, each field is present in the versions that the
text in the schema writes. -/
theorem VersionPredicate.parse_grammar :
    (∀ raw : String,
      Text.Trimmed raw.toList (Text.trim raw.toList) ∧
      (parse raw = .ok none ↔ Text.trim raw.toList = []) ∧
      (∀ p, parse raw = .ok (some p) ↔ Writes (Text.trim raw.toList) p) ∧
      (∀ e, parse raw = .error e ↔ e = .invalidVersions raw ∧ Text.trim raw.toList ≠ [] ∧
        ∀ p, ¬ Writes (Text.trim raw.toList) p) ∧
      ∀ p, parse raw = .ok (some p) → parse p.render = .ok (some p)) ∧
    ∀ (m : Message) (plan : UnitPlan), UnitPlan.build m = .ok plan → ∀ r ∈ plan.records,
      ∃ d ∈ Catalogue.declared m, d.name = r.name ∧
        List.Forall₂ (fun f p => p.GatedBy f.versions) d.fields r.fields := by
  constructor
  · intro raw
    exact ⟨Text.trim_trimmed _, parse_eq_none, fun p => parse_eq_some, fun e => parse_eq_error,
      fun p h => parse_render (parse_eq_some.mp h)⟩
  · intro m plan h r hr
    obtain ⟨d, hd, hplan⟩ := UnitPlan.build_hasPlan h hr
    refine ⟨d, hd, hplan.name.symm, hplan.fields.imp ?_⟩
    rintro f p ⟨type, guard, _, hguard, _, _, rfl⟩
    exact FieldPlan.gatedBy_of_parse hguard

/-- A range with leading zeros between blanks, and the fields of a node. -/
theorem VersionPredicate.parse_grammar_node :
    Writes ['0', '0', '7', '-', '1', '2'] (.range 7 12) ∧
      parse " 007-12\n" = .ok (some (.range 7 12)) ∧
      parse (range 7 12).render = .ok (some (.range 7 12)) ∧
      UnitPlan.build Samples.treeResponse = .ok Samples.treePlan ∧
      Samples.node ∈ Samples.treePlan.records ∧
      ∃ d ∈ Catalogue.declared Samples.treeResponse, d.name = "Node" ∧
        List.Forall₂ (fun f p => p.GatedBy f.versions) d.fields Samples.node.fields := by
  have hseven : IsVersion ['0', '0', '7'] :=
    (version?_eq_some.mp (rfl : version? ['0', '0', '7'] = some 7)).1
  have htwelve : IsVersion ['1', '2'] :=
    (version?_eq_some.mp (rfl : version? ['1', '2'] = some 12)).1
  have hw : Writes ['0', '0', '7', '-', '1', '2'] (.range 7 12) :=
    Writes.range hseven htwelve (by decide)
  have hread : parse " 007-12\n" = .ok (some (.range 7 12)) :=
    ((parse_grammar.1 " 007-12\n").2.2.1 _).mpr hw
  have hm : Samples.node ∈ Samples.treePlan.records := by simp [Samples.treePlan]
  exact ⟨hw, hread, (parse_grammar.1 _).2.2.2.2 _ hread, Samples.build_treeResponse, hm,
    parse_grammar.2 _ _ Samples.build_treeResponse _ hm⟩

end WireSchema

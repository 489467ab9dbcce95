import Mathlib.Data.List.Induction
import Mathlib.Data.List.TakeWhile
import WireSchema.Proofs.Versions

/-!
The texts of types. Reading accepts an identifier behind an optional array marker and nothing else,
and the text can be told from what was read.
-/

namespace WireSchema

def IsLetter (c : Char) : Prop := ('A' ≤ c ∧ c ≤ 'Z') ∨ ('a' ≤ c ∧ c ≤ 'z') ∨ c = '_'

inductive Identifier : List Char → Prop
  | letter {c : Char} (h : IsLetter c) : Identifier [c]
  | more {s : List Char} {c : Char} (h : Identifier s) (hc : IsLetter c ∨ ('0' ≤ c ∧ c ≤ '9')) :
      Identifier (s ++ [c])

theorem isIdentStart_iff (c : Char) : isIdentStart c = true ↔ IsLetter c := by
  rw [isIdentStart, Bool.or_eq_true, isAlpha_iff, beq_iff_eq, or_assoc]
  rfl

theorem isIdentRest_iff (c : Char) :
    isIdentRest c = true ↔ IsLetter c ∨ ('0' ≤ c ∧ c ≤ '9') := by
  rw [isIdentRest, Char.isAlphanum, ← VersionPredicate.isDigit_iff, ← isIdentStart_iff,
    isIdentStart]
  simp only [Bool.or_eq_true]
  exact or_right_comm

theorem isIdentifier_append {s : List Char} (hs : s ≠ []) (c : Char) :
    isIdentifier (s ++ [c]) = (isIdentifier s && isIdentRest c) := by
  cases s with
  | nil => exact absurd rfl hs
  | cons a rest => simp [isIdentifier, Bool.and_assoc]

theorem Identifier.ne_nil {s : List Char} (h : Identifier s) : s ≠ [] := by
  cases h <;> simp

/-- The check of identifiers is right. -/
theorem isIdentifier_iff {s : List Char} : isIdentifier s = true ↔ Identifier s := by
  constructor
  · intro h
    -- the last character is taken off first, as identifiers grow at their end
    induction s using List.reverseRecOn with
    | nil => cases h
    | append_singleton s c ih =>
      cases s with
      | nil =>
        have hc : isIdentStart c = true := by simpa [isIdentifier] using h
        exact .letter ((isIdentStart_iff c).mp hc)
      | cons a rest =>
        rw [isIdentifier_append (List.cons_ne_nil a rest), Bool.and_eq_true] at h
        exact .more (ih h.1) ((isIdentRest_iff c).mp h.2)
  · intro h
    induction h with
    | letter h => simpa [isIdentifier] using (isIdentStart_iff _).mpr h
    | more h hc ih =>
      rw [isIdentifier_append h.ne_nil, ih, (isIdentRest_iff _).mpr hc]
      rfl

def primitiveNames : List String := ["int8", "int16", "int32", "int64", "string", "bytes", "uuid"]

theorem ofName?_eq_some {s : String} {kind : Primitive} (h : Primitive.ofName? s = some kind) :
    kind.name = s := by
  simpa using List.find?_some h

theorem ofName?_isSome_iff {s : String} :
    (∃ kind, Primitive.ofName? s = some kind) ↔ s ∈ primitiveNames := by
  have hnames : primitiveNames = Primitive.all.map Primitive.name := rfl
  rw [← Option.isSome_iff_exists, Primitive.ofName?, List.find?_isSome, hnames, List.mem_map]
  simp only [beq_iff_eq]

namespace Base

theorem ofName_name (s : String) : (ofName s).name = s := by
  unfold ofName
  cases h : Primitive.ofName? s with
  | none => rfl
  | some kind => exact ofName?_eq_some h

theorem ofName_isPrimitive {s : String} :
    (∃ kind, ofName s = .primitive kind) ↔ s ∈ primitiveNames := by
  rw [← ofName?_isSome_iff]
  unfold ofName
  cases Primitive.ofName? s <;> simp

end Base

namespace TypeExpr

def marker (isArray : Bool) : List Char := if isArray then ['[', ']'] else []

/-- A text is that of a type: an identifier behind an optional marker. -/
def IsTypeText (t : List Char) : Prop :=
  ∃ isArray ident, t = marker isArray ++ ident ∧ Identifier ident

/-- Whether a text starts with the marker of an array, and what stands behind it. -/
def splitMarker : List Char → Bool × List Char
  | '[' :: ']' :: rest => (true, rest)
  | s => (false, s)

theorem splitMarker_append (s : List Char) :
    marker (splitMarker s).1 ++ (splitMarker s).2 = s := by
  unfold splitMarker
  split <;> rfl

theorem splitMarker_of_not_prefix {s : List Char} (h : ¬ ['[', ']'] <+: s) :
    splitMarker s = (false, s) := by
  unfold splitMarker
  split
  · rename_i rest
    exact absurd (List.prefix_append ['[', ']'] rest) h
  · rfl

/-- The parser takes a text as a whole just if it is an identifier. -/
theorem identifier_whole (s : List Char) :
    identifier.whole s = if isIdentifier s then some s else none := by
  have hs (s : List Char) : s.takeWhile isIdentRest ++ s.dropWhile isIdentRest = s :=
    List.takeWhile_append_dropWhile
  rw [identifier_eq]
  cases s with
  | nil => rfl
  | cons c s =>
    cases hc : isIdentStart c with
    | false =>
      rw [isIdentifier, hc]
      exact Text.Parser.whole_of_none (by simp [directIdentifier, hc])
    | true =>
      have hread : directIdentifier (c :: s) =
          some (c :: s.takeWhile isIdentRest, s.dropWhile isIdentRest) := by
        simp [directIdentifier, hc]
      have hall : s.all isIdentRest = true ↔ s.dropWhile isIdentRest = [] :=
        List.all_eq_true.trans List.dropWhile_eq_nil_iff.symm
      rw [isIdentifier, hc, Bool.true_and]
      cases hr : s.dropWhile isIdentRest with
      | nil =>
        have htake : s.takeWhile isIdentRest = s := by simpa [hr] using hs s
        rw [hr, htake] at hread
        rw [Text.Parser.whole_of_some hread, if_pos (hall.mpr hr)]
      | cons d rest =>
        rw [hr] at hread
        rw [Text.Parser.whole_of_rest hread, if_neg (by simp [hall, hr])]

theorem grammar_whole_of_marker {s rest : List Char} {m : Option (List Char)}
    (h : optional (Text.Parser.tag ['[', ']']) s = some (m, rest)) :
    grammar.whole s = (identifier.whole rest).map fun base => (m, base) := by
  have hgrammar : grammar s = (identifier >>= fun base => pure (m, base)) rest :=
    Text.Parser.bind_of_some h
  cases hi : identifier rest with
  | none =>
    rw [Text.Parser.whole_of_none hi]
    exact Text.Parser.whole_of_none (hgrammar.trans (Text.Parser.bind_of_none hi))
  | some r =>
    obtain ⟨base, rest'⟩ := r
    have hread := hgrammar.trans (Text.Parser.bind_of_some hi)
    cases rest' with
    | nil => rw [Text.Parser.whole_of_some hi]; exact Text.Parser.whole_of_some hread
    | cons c rest' => rw [Text.Parser.whole_of_rest hi]; exact Text.Parser.whole_of_rest hread

/-- The grammar of types comes to the same as splitting off the marker and checking the rest. -/
theorem grammar_whole (s : List Char) :
    grammar.whole s =
      if isIdentifier (splitMarker s).2 then
        some (if (splitMarker s).1 then some ['[', ']'] else none, (splitMarker s).2)
      else none := by
  by_cases hm : ['[', ']'] <+: s
  · obtain ⟨rest, rfl⟩ := hm
    rw [grammar_whole_of_marker (Text.Parser.optional_of_some (Text.Parser.tag_append _ rest)),
      identifier_whole]
    change _ = if isIdentifier rest then some (some ['[', ']'], rest) else none
    split <;> rfl
  · rw [grammar_whole_of_marker
        (Text.Parser.optional_of_none (Text.Parser.tag_of_not_start hm)),
      identifier_whole, splitMarker_of_not_prefix hm]
    dsimp only
    split <;> rfl

/-- No identifier starts like a marker, so the marker is found just if it was put there. -/
theorem splitMarker_marker (isArray : Bool) {ident : List Char} (h : Identifier ident) :
    splitMarker (marker isArray ++ ident) = (isArray, ident) := by
  cases isArray with
  | true => rfl
  | false =>
    have hi := isIdentifier_iff.mpr h
    simp only [marker, Bool.false_eq_true, if_false, List.nil_append]
    unfold splitMarker
    split
    · cases hi
    · rfl

theorem marker_prefix_iff {isArray : Bool} {ident : List Char} (h : Identifier ident) :
    marker true <+: marker isArray ++ ident ↔ isArray = true := by
  constructor
  · intro ⟨rest, hrest⟩
    have hsplit := splitMarker_marker isArray h
    rw [← hrest] at hsplit
    cases hsplit
    rfl
  · intro ha
    rw [ha]
    exact List.prefix_append _ _

/-- A text of the form of a type is read as that type. -/
theorem parse_of_typeText {raw : String} {isArray : Bool} {ident : List Char}
    (ht : Text.trim raw.toList = marker isArray ++ ident) (h : Identifier ident) :
    parse raw = .ok ⟨isArray, Base.ofName (String.ofList ident)⟩ := by
  simp only [parse, ht, grammar_whole, splitMarker_marker _ h, isIdentifier_iff.mpr h, if_true]
  cases isArray <;> rfl

/-- Every other text is refused, and shown as it was written. -/
theorem parse_of_not_typeText {raw : String} (h : ¬ IsTypeText (Text.trim raw.toList)) :
    parse raw = .error (.unrecognizedType raw) := by
  have hnot : ¬ isIdentifier (splitMarker (Text.trim raw.toList)).2 = true := by
    intro hi
    exact h ⟨_, _, (splitMarker_append _).symm, isIdentifier_iff.mp hi⟩
  simp only [parse, grammar_whole, hnot]
  rfl

/-- Reading the text of a type follows its grammar and loses nothing. It gives a type just if the
text without the blanks at its ends is an identifier behind an optional marker. The type then tells
whether the marker is there, and names a primitive just if the identifier does; marker and name
together are the text again. Any other text is refused as it stands. -/
theorem parse_typeText (raw : String) :
    Text.Trimmed raw.toList (Text.trim raw.toList) ∧
    ((∃ type, parse raw = .ok type) ↔ IsTypeText (Text.trim raw.toList)) ∧
    (∀ type, parse raw = .ok type →
      Text.trim raw.toList = marker type.isArray ++ type.base.name.toList ∧
      Identifier type.base.name.toList ∧
      (type.isArray = true ↔ ['[', ']'] <+: Text.trim raw.toList) ∧
      ((∃ kind, type.base = .primitive kind) ↔ type.base.name ∈ primitiveNames)) ∧
    (¬ IsTypeText (Text.trim raw.toList) → parse raw = .error (.unrecognizedType raw)) := by
  have haccepts : (∃ type, parse raw = .ok type) → IsTypeText (Text.trim raw.toList) := by
    intro ⟨type, htype⟩
    by_contra hnot
    rw [parse_of_not_typeText hnot] at htype
    cases htype
  refine ⟨Text.trim_trimmed _, ⟨haccepts, ?_⟩, ?_, parse_of_not_typeText⟩
  · intro ⟨isArray, ident, ht, hident⟩
    exact ⟨_, parse_of_typeText ht hident⟩
  · intro type htype
    obtain ⟨isArray, ident, ht, hident⟩ := haccepts ⟨type, htype⟩
    rw [parse_of_typeText ht hident] at htype
    cases htype
    simp only [ht, Base.ofName_name, String.toList_ofList]
    exact ⟨trivial, hident, (marker_prefix_iff hident).symm, Base.ofName_isPrimitive⟩

/-- An array of integers between blanks, and two markers in a row. -/
theorem parse_typeText_array :
    parse " []int64\t" = .ok ⟨true, .primitive (.int .w64)⟩ ∧
      Text.trim " []int64\t".toList = ['[', ']'] ++ "int64".toList ∧
      "int64" ∈ primitiveNames ∧
      ¬ IsTypeText (Text.trim "[][]int32".toList) ∧
      parse "[][]int32" = .error (.unrecognizedType "[][]int32") := by
  have hread : parse " []int64\t" = .ok ⟨true, .primitive (.int .w64)⟩ := rfl
  have hnot : ¬ IsTypeText (Text.trim "[][]int32".toList) := by
    rw [← (parse_typeText _).2.1]
    intro ⟨type, htype⟩
    cases htype
  obtain ⟨htext, _, _, hprimitive⟩ := (parse_typeText _).2.2.1 _ hread
  exact ⟨hread, htext, hprimitive.mp ⟨_, rfl⟩, hnot, (parse_typeText _).2.2.2 hnot⟩

end TypeExpr

end WireSchema

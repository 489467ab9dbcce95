import WireSchema.Compile
import WireSchema.Proofs.FileTree
import WireSchema.Proofs.SoundPlan

/-!
The names of generated files. A message whose plan can be built has an identifier for its name, and
the snake case of an identifier is a plain file name: no separator, no dot and no letter beyond the
small ones can come in, whatever a schema holds.
-/

namespace WireSchema

namespace Text

/-- Cutting a text into clusters loses nothing. -/
theorem clustersFrom_flatten (context : ClusterContext) (current s : List Char) :
    (clustersFrom context current s).flatten = current.reverse ++ s := by
  induction s generalizing context current with
  | nil => simp [clustersFrom]
  | cons c rest ih =>
    unfold clustersFrom
    split
    · simp [ih]
    · simp [ih]

/-- Clusters are cut from the text, and nothing is lost. -/
theorem clusters_flatten (s : List Char) : (clusters s).flatten = s := by
  cases s with
  | nil => rfl
  | cons c rest => simp [clusters, clustersFrom_flatten]

/-- Words hold characters of the text only. -/
theorem wordsFrom_all {P : Char → Prop} {current : List Char} {gs : List (List Char)}
    (hcurrent : ∀ c ∈ current, P c) (hgs : ∀ c ∈ gs.flatten, P c) :
    ∀ word ∈ wordsFrom current gs, ∀ c ∈ word, P c := by
  induction gs generalizing current with
  | nil => simpa [wordsFrom] using hcurrent
  | cons g rest ih =>
    simp only [List.flatten_cons, List.mem_append] at hgs
    have hlonger : ∀ c ∈ current ++ g, P c := by
      intro c hc
      rcases List.mem_append.mp hc with hc | hc
      · exact hcurrent c hc
      · exact hgs c (.inl hc)
    have hfresh : ∀ word ∈ wordsFrom [] rest, ∀ c ∈ word, P c :=
      ih (by simp) fun c hc => hgs c (.inr hc)
    unfold wordsFrom
    split
    · exact List.forall_mem_cons.mpr ⟨hcurrent, hfresh⟩
    · split
      · exact List.forall_mem_cons.mpr ⟨hlonger, hfresh⟩
      · exact ih hlonger fun c hc => hgs c (.inr hc)

theorem wordsFrom_ne_nil (current : List Char) (gs : List (List Char)) :
    wordsFrom current gs ≠ [] := by
  induction gs generalizing current with
  | nil => simp [wordsFrom]
  | cons g rest ih =>
    unfold wordsFrom
    split
    · simp
    · split
      · simp
      · exact ih _

/-- A text of one word is that word. -/
theorem wordsFrom_eq_singleton {current word : List Char} {gs : List (List Char)}
    (h : wordsFrom current gs = [word]) : word = current ++ gs.flatten := by
  induction gs generalizing current with
  | nil => simpa [wordsFrom, eq_comm] using h
  | cons g rest ih =>
    unfold wordsFrom at h
    split at h
    · exact absurd (List.cons.inj h).2 (wordsFrom_ne_nil _ _)
    · split at h
      · exact absurd (List.cons.inj h).2 (wordsFrom_ne_nil _ _)
      · simpa using ih h

end Text

theorem isAscii_of_le {c last : Char} (h : c.val ≤ last.val) (hlast : Text.isAscii last = true) :
    Text.isAscii c = true :=
  decide_eq_true (Nat.lt_of_le_of_lt (UInt32.le_iff_toNat_le.mp h) (of_decide_eq_true hlast))

theorem isAscii_of_isIdentRest {c : Char} (h : isIdentRest c = true) : Text.isAscii c = true := by
  rcases Bool.or_eq_true_iff.mp h with halphanum | hunder
  · rcases Bool.or_eq_true_iff.mp halphanum with halpha | hdigit
    · rcases Bool.or_eq_true_iff.mp halpha with hupper | hlower
      · exact isAscii_of_le (of_decide_eq_true hupper).2 rfl
      · exact isAscii_of_le (of_decide_eq_true (Bool.and_eq_true_iff.mp hlower).2) rfl
    · exact isAscii_of_le (of_decide_eq_true (Bool.and_eq_true_iff.mp hdigit).2) rfl
  · rw [beq_iff_eq.mp hunder]
    rfl

def isStemChar (c : Char) : Bool := c.isLower || c.isDigit || c == '_'

theorem isStemChar_toLower {c : Char} (h : isIdentRest c = true) :
    isStemChar c.toLower = true := by
  have hall : ∀ n < 128, isIdentRest (Char.ofNat n) = true →
      isStemChar (Char.ofNat n).toLower = true := by decide
  have hlower := hall c.toNat (of_decide_eq_true (isAscii_of_isIdentRest h))
  rw [Char.ofNat_toNat] at hlower
  exact hlower h

/-- Within identifiers each character has one form in lower case, wherever it stands. -/
theorem lowerFrom_of_isIdentRest {s : List Char} (h : ∀ c ∈ s, isIdentRest c = true)
    (before : List Char) : Text.lowerFrom before s = s.map Char.toLower := by
  induction s generalizing before with
  | nil => rfl
  | cons c rest ih =>
    have hascii := isAscii_of_isIdentRest (h c List.mem_cons_self)
    have hsigma : (c == 'Σ') = false := by
      apply beq_false_of_ne
      rintro rfl
      exact absurd hascii (by decide)
    have hrest := ih (fun d hd => h d (List.mem_cons_of_mem _ hd)) (c :: before)
    simp [Text.lowerFrom, hsigma, Text.lowerChar, hascii, hrest]

theorem mem_intercalate {α : Type} {sep : List α} {parts : List (List α)} {a : α}
    (h : a ∈ sep.intercalate parts) : a ∈ sep ∨ ∃ part ∈ parts, a ∈ part := by
  induction parts with
  | nil => simp [List.intercalate] at h
  | cons part rest ih =>
    cases rest with
    | nil => exact .inr ⟨part, by simp, by simpa [List.intercalate] using h⟩
    | cons next rest =>
      rw [List.intercalate_cons_cons, List.mem_append, List.mem_append] at h
      rcases h with (h | h) | h
      · exact .inr ⟨part, by simp, h⟩
      · exact .inl h
      · rcases ih h with h | ⟨other, ho, h⟩
        · exact .inl h
        · exact .inr ⟨other, List.mem_cons_of_mem _ ho, h⟩

theorem snakeCase_toList (s : String) :
    (Text.snakeCase s).toList = List.intercalate ['_'] ((Text.words s).map Text.lower) := by
  simp [Text.snakeCase, String.toList_intercalate, Function.comp_def]

section

variable {s : String} (h : ∀ c ∈ s.toList, isIdentRest c = true)

include h

/-- Cutting a name into words brings in no other characters. -/
theorem words_isIdentRest : ∀ word ∈ Text.words s, ∀ c ∈ word, isIdentRest c = true := by
  have hclusters : ∀ c ∈ (Text.clusters s.toList).flatten, isIdentRest c = true := by
    rwa [Text.clusters_flatten]
  exact Text.wordsFrom_all (by simp) hclusters

/-- The snake case of an identifier. -/
theorem snakeCase_isStemChar : ∀ c ∈ (Text.snakeCase s).toList, isStemChar c = true := by
  intro c hc
  rw [snakeCase_toList] at hc
  rcases mem_intercalate hc with hc | ⟨part, hp, hc⟩
  · rw [List.mem_singleton.mp hc]
    rfl
  · obtain ⟨word, hw, rfl⟩ := List.mem_map.mp hp
    rw [Text.lower, lowerFrom_of_isIdentRest (words_isIdentRest h word hw)] at hc
    obtain ⟨d, hd, rfl⟩ := List.mem_map.mp hc
    exact isStemChar_toLower (words_isIdentRest h word hw d hd)

/-- Two words leave an underscore between them, and one word is the whole name. -/
theorem snakeCase_ne_nil (hs : s.toList ≠ []) : (Text.snakeCase s).toList ≠ [] := by
  rw [snakeCase_toList]
  cases hw : Text.words s with
  | nil => exact absurd hw (Text.wordsFrom_ne_nil _ _)
  | cons word rest =>
    cases rest with
    | cons next rest => simp [List.intercalate_cons_cons]
    | nil =>
      have hword := Text.wordsFrom_eq_singleton hw
      rw [List.nil_append, Text.clusters_flatten] at hword
      subst hword
      simpa [List.intercalate, Text.lower, lowerFrom_of_isIdentRest h] using hs

end

/-- The name of a generated file: a stem of small letters, digits and underscores, and `.rs`. -/
def IsSourceName (name : String) : Prop :=
  ∃ stem : List Char, stem ≠ [] ∧ (∀ c ∈ stem, isStemChar c = true) ∧
    name = String.ofList stem ++ ".rs"

theorem isIdentRest_of_isIdentifier {s : List Char} (h : isIdentifier s = true) :
    s ≠ [] ∧ ∀ c ∈ s, isIdentRest c = true := by
  cases s with
  | nil => cases h
  | cons c rest =>
    simp only [isIdentifier, Bool.and_eq_true, List.all_eq_true] at h
    refine ⟨by simp, List.forall_mem_cons.mpr ⟨?_, h.2⟩⟩
    have hstart := h.1
    simp only [isIdentStart, Bool.or_eq_true] at hstart
    rcases hstart with halpha | hunder
    · simp [isIdentRest, Char.isAlphanum, halpha]
    · simp [isIdentRest, hunder]

theorem isIdentRest_of_isUsable {word : String} (h : isUsable word = true) :
    ∀ c ∈ word.toList, isIdentRest c = true := by
  simp only [isUsable, Bool.and_eq_true] at h
  exact (isIdentRest_of_isIdentifier h.1.1).2

/-- A usable name is made of ASCII letters, digits and underscores, which stay so in snake case. -/
theorem outputFileName_isSourceName {message : String} (h : isUsable message = true) :
    IsSourceName (outputFileName message) := by
  simp only [isUsable, Bool.and_eq_true] at h
  obtain ⟨hne, hall⟩ := isIdentRest_of_isIdentifier h.1.1
  refine ⟨(Text.snakeCase message).toList, snakeCase_ne_nil hall hne, snakeCase_isStemChar hall, ?_⟩
  rw [String.ofList_toList, outputFileName]

/-- The message gives its own name to an item of its plan, which has to be an identifier. -/
theorem UnitPlan.build_usable {m : Message} {plan : UnitPlan} (h : build m = .ok plan) :
    isUsable m.name = true := by
  obtain ⟨entry, _, hentry, hname, _⟩ := build_entry h
  obtain ⟨planned, hb, rfl⟩ := build_eq_ok.mp h
  have hitem : entry.name ∈ (markDepth planned).flatMap recordItems :=
    List.mem_flatMap.mpr ⟨entry, hentry, by simp [recordItems]⟩
  have husable := hb.items.usable entry.name hitem
  rwa [hname] at husable

theorem compile_isSourceName {m : Message} {options : CompileOptions} {u : CompiledUnit}
    (h : compile m options = .ok u) : IsSourceName u.fileName := by
  obtain ⟨plan, hb, he⟩ := bind_eq_ok.mp h
  cases he
  exact outputFileName_isSourceName (UnitPlan.build_usable hb)

namespace IsSourceName

variable {name : String} (h : IsSourceName name)

include h

theorem isName : Files.IsName name := by
  obtain ⟨stem, hne, hall, rfl⟩ := h
  have htext : (String.ofList stem ++ ".rs").toList = stem ++ ['.', 'r', 's'] := by simp
  have hlength := List.length_pos_iff.mpr hne
  have hlong {other : String} (ho : other.toList.length ≤ 3) :
      String.ofList stem ++ ".rs" ≠ other := by
    rintro rfl
    rw [htext, List.length_append] at ho
    have hsuffix : ['.', 'r', 's'].length = 3 := rfl
    omega
  refine ⟨hlong (by decide), ?_, hlong (by decide), hlong (by decide)⟩
  rw [htext, List.mem_append]
  rintro (hm | hm)
  · exact absurd (hall _ hm) (by decide)
  · exact absurd hm (by decide)

theorem extension : Files.extension? name = some "rs" := by
  obtain ⟨stem, hne, _, rfl⟩ := h
  obtain ⟨last, before, hr⟩ := List.exists_cons_of_ne_nil (mt List.reverse_eq_nil_iff.mp hne)
  simp [Files.extension?, hr]

end IsSourceName

end WireSchema

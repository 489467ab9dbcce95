import WireSchema.Compile
import WireSchema.Schema.Comment

/-!
The lines of code in a text: those that are not comments. For a sequence of marks they come from one
mark after the other, and marks that only hold comments add none.
-/

namespace WireSchema

def codeLines (s : List Char) : List (List Char) :=
  (s.splitOn '\n').filter fun line => !isComment line

theorem codeLines_append (s t : List Char) :
    codeLines (s ++ '\n' :: t) = codeLines s ++ codeLines t := by
  rw [codeLines, List.splitOn_append_cons_self, List.filter_append]
  rfl

/-- Two slashes start a comment, behind blanks or not. -/
theorem isComment_of_blank {s : List Char} (h : ∀ c ∈ s, Text.isBlank c = true) (t : List Char) :
    isComment (s ++ '/' :: '/' :: t) = true := by
  have htrim : Text.trimStart (s ++ '/' :: '/' :: t) = '/' :: '/' :: t := by
    rw [Text.trimStart, List.dropWhile_append_of_pos h]
    rfl
  simp [isComment, htrim]

/-- A text that starts with a comment gives code only by the lines after its first. -/
theorem codeLines_comment {s t : List Char} (h : ∀ u, isComment (s ++ u) = true) (hs : '\n' ∉ s) :
    codeLines (s ++ t) = (t.splitOn '\n').tail.filter fun line => !isComment line := by
  by_cases ht : '\n' ∈ t
  · obtain ⟨first, rest, rfl, hf⟩ := List.eq_append_cons_of_mem ht
    have hfirst : '\n' ∉ s ++ first := by simp [hs, hf]
    rw [codeLines, ← List.append_assoc, List.splitOn_append_cons_self_of_not_mem hfirst,
      List.splitOn_append_cons_self_of_not_mem hf]
    simp [h]
  · have hall : '\n' ∉ s ++ t := by simp [hs, ht]
    rw [codeLines, List.splitOn_eq_singleton hall, List.splitOn_eq_singleton ht]
    simp [h]

namespace Text

theorem dropReturn_subset (s : List Char) : dropReturn s ⊆ s := by
  fun_induction dropReturn s with
  | case1 => simp
  | case2 => simp
  | case3 c rest _ ih => exact List.cons_subset_cons c ih

theorem linesFrom_not_mem {current s : List Char} (hc : '\n' ∉ current) :
    ∀ line ∈ linesFrom current s, '\n' ∉ line := by
  fun_induction linesFrom current s with
  | case1 => simp
  | case2 => simpa using hc
  | case3 current rest ih =>
    intro line hl
    rcases List.mem_cons.mp hl with rfl | hl
    · intro hm
      exact hc (List.mem_reverse.mp (dropReturn_subset _ hm))
    · exact ih (by simp) line hl
  | case4 current c rest hne ih =>
    apply ih
    simp only [List.mem_cons, not_or]
    exact ⟨fun he => hne he.symm, hc⟩

theorem trimEnd_subset (s : List Char) : trimEnd s ⊆ s := by
  intro c hc
  have hm := List.dropWhile_subset _ (List.mem_reverse.mp hc)
  exact List.mem_reverse.mp hm

theorem trimEnd_cons {c : Char} (hc : isBlank c = false) (s : List Char) :
    trimEnd (c :: s) = c :: trimEnd s := by
  simp only [trimEnd, List.reverse_cons, List.dropWhile_append]
  split
  · rename_i he
    rw [List.isEmpty_iff.mp he]
    simp [hc]
  · simp

end Text

namespace Source

def lineChars (depth : Nat) (text : String) : List Char :=
  if text.isEmpty then [] else (List.replicate depth "    ".toList).flatten ++ text.toList

theorem indented_toList (depth : Nat) (text : String) :
    (indented depth text).toList = lineChars depth text ++ ['\n'] := by
  unfold indented lineChars
  split <;> simp [String.toList_join, List.flatMap_def]

theorem lineChars_zero (text : String) : lineChars 0 text = text.toList := by
  unfold lineChars
  split
  · rename_i he
    rw [String.isEmpty_iff.mp he]
    rfl
  · rfl

theorem lineChars_eq (depth : Nat) {text : String} (h : text.toList ≠ []) :
    lineChars depth text = (List.replicate depth "    ".toList).flatten ++ text.toList := by
  have hne : ¬ text.isEmpty = true := by
    rw [String.isEmpty_iff]
    rintro rfl
    exact h rfl
  rw [lineChars, if_neg hne]

def codeFrom (depth : Nat) : List Mark → List (List Char)
  | [] => []
  | m :: rest =>
    codeLines (lineChars (m.lineDepth depth) m.text) ++ codeFrom (m.depthAfter depth) rest

/-- The code lines of a layout are those of its marks, and the empty line behind the last line
feed. -/
theorem codeLines_layoutFrom (depth : Nat) (marks : List Mark) :
    codeLines ((layoutFrom depth marks).flatMap String.toList) = codeFrom depth marks ++ [[]] := by
  induction marks generalizing depth with
  | nil => rfl
  | cons m rest ih =>
    simp only [layoutFrom, List.flatMap_cons, indented_toList, List.append_assoc,
      List.singleton_append, codeLines_append, ih, codeFrom]

/-- The code of a text is that of its marks, and the empty line behind the last line feed. -/
theorem codeLines_layout (marks : List Mark) :
    codeLines (layout marks).toList = codeFrom 0 marks ++ [[]] := by
  rw [layout, String.toList_join, codeLines_layoutFrom]

theorem codeFrom_append (depth : Nat) (xs ys : List Mark) :
    codeFrom depth (xs ++ ys) =
      codeFrom depth xs ++ codeFrom (xs.foldl Mark.depthAfter depth) ys := by
  induction xs generalizing depth with
  | nil => rfl
  | cons m rest ih => simp [codeFrom, ih]

/-- Marks with the same lines of code, and the same blocks left open. -/
structure SameCode (xs ys : List Mark) : Prop where
  code : ∀ depth, codeFrom depth xs = codeFrom depth ys
  depth : ∀ depth, xs.foldl Mark.depthAfter depth = ys.foldl Mark.depthAfter depth

namespace SameCode

theorem refl (xs : List Mark) : SameCode xs xs := ⟨fun _ => rfl, fun _ => rfl⟩

theorem append {xs ys xs' ys' : List Mark} (h : SameCode xs ys) (h' : SameCode xs' ys') :
    SameCode (xs ++ xs') (ys ++ ys') := by
  constructor
  · intro depth
    rw [codeFrom_append, codeFrom_append, h.code, h.depth, h'.code]
  · intro depth
    rw [List.foldl_append, List.foldl_append, h.depth, h'.depth]

theorem flatMap {α : Type} {xs : List α} {f g : α → List Mark}
    (h : ∀ x ∈ xs, SameCode (f x) (g x)) : SameCode (xs.flatMap f) (xs.flatMap g) := by
  induction xs with
  | nil => exact refl _
  | cons x rest ih =>
    rw [List.flatMap_cons, List.flatMap_cons]
    exact (h x List.mem_cons_self).append (ih fun y hy => h y (List.mem_cons_of_mem _ hy))

end SameCode

def IsNote (text : String) : Prop :=
  ∃ rest, text.toList = '/' :: '/' :: rest ∧ '\n' ∉ rest

theorem codeLines_note {text : String} (h : IsNote text) (depth : Nat) :
    codeLines (lineChars depth text) = [] := by
  obtain ⟨rest, htext, hrest⟩ := h
  have hne : text.toList ≠ [] := by simp [htext]
  have hblank : ∀ c ∈ (List.replicate depth "    ".toList).flatten, c = ' ' := by
    simp
  have hline : '\n' ∉ (List.replicate depth "    ".toList).flatten ++ '/' :: '/' :: rest := by
    simp only [List.mem_append, List.mem_cons, hrest, or_false, not_or]
    exact ⟨fun hm => absurd (hblank _ hm) (by decide), by decide, by decide⟩
  have hcomment : isComment ((List.replicate depth "    ".toList).flatten ++ '/' :: '/' :: rest) =
      true := by
    apply isComment_of_blank
    intro c hc
    rw [hblank c hc]
    rfl
  rw [lineChars_eq depth hne, htext, codeLines, List.splitOn_eq_singleton hline]
  simp only [List.filter_cons, hcomment]
  rfl

/-- Comments add no code, however many there are. -/
theorem sameCode_notes {texts : List String} (h : ∀ text ∈ texts, IsNote text) :
    SameCode (texts.map .line) [] := by
  induction texts with
  | nil => exact .refl _
  | cons text rest ih =>
    have hrest := ih fun t ht => h t (List.mem_cons_of_mem _ ht)
    constructor
    · intro depth
      simp only [List.map_cons, codeFrom, Mark.text, codeLines_note (h text List.mem_cons_self),
        List.nil_append]
      exact hrest.code depth
    · intro depth
      exact hrest.depth depth

/-- The description of a member is a comment, whatever its text. -/
theorem memberAbout_notes (f : FieldPlan) : ∀ text ∈ memberAbout f, IsNote text := by
  unfold memberAbout
  cases f.about with
  | none => simp
  | some about =>
    intro text ht
    obtain ⟨line, hl, rfl⟩ := List.mem_map.mp ht
    have hline : '\n' ∉ line := Text.linesFrom_not_mem (by simp) line hl
    refine ⟨Text.trimEnd ('/' :: ' ' :: line), ?_, ?_⟩
    · rw [String.toList_ofList, List.cons_append, List.cons_append, Text.trimEnd_cons rfl,
        Text.trimEnd_cons rfl]
      rfl
    · intro hm
      have := Text.trimEnd_subset _ hm
      simp [hline] at this

end Source

end WireSchema

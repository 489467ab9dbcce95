import WireSchema.Proofs.FreeText
import WireSchema.Proofs.Items
import WireSchema.Proofs.OutputName
import WireSchema.Proofs.Uses

/-!
What a unit imports: exactly what the bodies of its functions use, under names that no item of the
unit has. Lines that look like imports come from nowhere else, but for the category of the message.
-/

namespace WireSchema

theorem UnitPlan.build_facilities {m : Message} {plan : UnitPlan} (h : build m = .ok plan) :
    plan.facilities = collectFacilities plan.records := by
  obtain ⟨planned, _, rfl⟩ := build_eq_ok.mp h
  rfl

namespace Source

/-- A usable name is one word, so nothing in it can look like another token. -/
theorem isWhole_of_isUsable {name : String} (h : isUsable name = true) :
    (Token.word name).isWhole = true := by
  have hall := isIdentRest_of_isUsable h
  simp only [isUsable, Bool.and_eq_true] at h
  have hne : name.toList ≠ [] := by
    intro he
    rw [he] at h
    cases h.1.1
  simpa [Token.isWhole, hne] using hall

section

variable {m : Message} {plan : UnitPlan} (h : UnitPlan.build m = .ok plan)
  {g : Function} (hg : g ∈ (items plan).functions) {s : Stmt} (hs : s ∈ allParts g.body)

include h hg

theorem isWhole_function :
    (Token.word g.name).isWhole = true ∧ (Token.word g.returns).isWhole = true := by
  obtain ⟨r, hr, hg⟩ := mem_functions_items.mp hg
  have hitem {name : String} (hn : name ∈ UnitPlan.recordItems r) :
      (Token.word name).isWhole = true :=
    isWhole_of_isUsable ((UnitPlan.build_items h).usable name (List.mem_flatMap.mpr ⟨r, hr, hn⟩))
  obtain ⟨hreturns, hname⟩ := function_named hg
  refine ⟨hitem ?_, hitem ?_⟩
  · split at hname <;> simp [UnitPlan.recordItems, hname]
  · simp [UnitPlan.recordItems, hreturns]

include hs

/-- The calls in a body go to functions of the plan. -/
theorem calls_functions {call : Call} (hc : call ∈ s.calls) :
    ∃ callee ∈ (items plan).functions, callee.name = call.function := by
  have hlinked := items_linked (UnitPlan.build_sound h)
  have hcallee {caller callee : Function}
      (hr : (items plan).Resolves caller call callee) :
      callee ∈ (items plan).functions ∧ callee.name = call.function := by
    have hmem : callee ∈ (items plan).functions.filter
        (fun q => q.name == call.function) := by
      rw [hr.emitted]
      exact List.mem_singleton_self _
    simpa using List.mem_filter.mp hmem
  unfold Stmt.calls at hc
  split at hc
  · cases List.mem_singleton.mp hc
    obtain ⟨callee, hr, _⟩ := hlinked.stores g hg _ _ _ _ _ hs
    exact ⟨callee, hcallee hr⟩
  · cases List.mem_singleton.mp hc
    obtain ⟨callee, hr, _⟩ := hlinked.delegates g hg _ hs
    exact ⟨callee, hcallee hr⟩
  · cases hc

theorem isDecoderName_call {call : Call} (hc : call ∈ s.calls) :
    isDecoderName call.function = true := by
  obtain ⟨callee, hcallee, hname⟩ := calls_functions h hg hs hc
  rw [← hname]
  exact isDecoderName_function h hcallee

/-- The names in the bodies of functions are words. -/
theorem isNamed_items : s.IsNamed := by
  have hcall {call : Call} (hc : call ∈ s.calls) : (Token.word call.function).isWhole = true := by
    obtain ⟨callee, hcallee, hname⟩ := calls_functions h hg hs hc
    rw [← hname]
    exact (isWhole_function h hcallee).1
  have hlinked := items_linked (UnitPlan.build_sound h)
  obtain ⟨r, hr, hfunction⟩ := mem_functions_items.mp hg
  have hparts := function_parts hfunction hs
  cases s with
  | result record =>
    have hrecord := hlinked.results g hg record hs
    subst hrecord
    exact (isWhole_function h hg).2
  | delegate call => exact hcall (by simp [Stmt.calls])
  | store sink member value =>
    have hmember : ∃ f ∈ r.fields, member = f.ident := by
      rcases hparts with ⟨hpart, _⟩ | ⟨_, _, he⟩
      · cases value with
        | nested call name field =>
          obtain ⟨f, hf, _, _, _, _, _, hident, _⟩ := hpart
          exact ⟨f, hf, hident⟩
        | _ => exact hpart
      · cases he
    obtain ⟨f, hf, rfl⟩ := hmember
    refine ⟨isWhole_of_isUsable (UnitPlan.build_ident h hr hf), ?_⟩
    rintro call record field rfl
    exact hcall (by simp [Stmt.calls])
  | _ => trivial

end

/-! ## Lines that import -/

def isUseLine (line : List Char) : Bool := "use ".toList.isPrefixOf (Text.trimStart line)

def useLines (s : List Char) : List (List Char) := (s.splitOn '\n').filter isUseLine

/-- Comments import nothing. -/
theorem useLines_eq (s : List Char) : useLines s = (codeLines s).filter isUseLine := by
  have hcomment (line : List Char) (h : isUseLine line = true) : isComment line = false := by
    obtain ⟨rest, hrest⟩ := List.isPrefixOf_iff_prefix.mp h
    rw [isComment, ← hrest]
    rfl
  rw [useLines, codeLines, List.filter_filter]
  apply List.filter_congr
  intro line _
  cases hu : isUseLine line with
  | false => rfl
  | true => simp [hcomment line hu]

/-- Whether a text starts with a character that no import starts with, and that is not blank. -/
def startsPlain : List Char → Bool
  | [] => false
  | c :: _ => !Text.isBlank c && c != 'u'

theorem startsPlain_append {s : List Char} (h : startsPlain s = true) (t : List Char) :
    startsPlain (s ++ t) = true := by
  cases s with
  | nil => cases h
  | cons c s => exact h

/-- A text is one line, and imports nothing. -/
structure IsQuiet (text : String) : Prop where
  starts : startsPlain text.toList = true
  unbroken : '\n' ∉ text.toList

/-- What a line starts with decides whether it imports something. -/
theorem IsQuiet.append {first rest : String} (h : IsQuiet first) (hr : '\n' ∉ rest.toList) :
    IsQuiet (first ++ rest) := by
  refine ⟨?_, ?_⟩
  · rw [String.toList_append]
    exact startsPlain_append h.starts _
  · rw [String.toList_append, List.mem_append, not_or]
    exact ⟨h.unbroken, hr⟩

theorem IsNote.isQuiet {text : String} (h : IsNote text) : IsQuiet text := by
  obtain ⟨rest, ht, hn⟩ := h
  constructor
  · rw [ht]
    rfl
  · simpa [ht] using hn

theorem IsQuiet.useLines {text : String} (h : IsQuiet text) (depth : Nat) :
    useLines (lineChars depth text) = [] := by
  obtain ⟨c, rest, ht, hc⟩ : ∃ c rest, text.toList = c :: rest ∧
      (Text.isBlank c = false ∧ c ≠ 'u') := by
    have hs := h.starts
    cases ht : text.toList with
    | nil =>
      rw [ht] at hs
      cases hs
    | cons c rest =>
      rw [ht] at hs
      exact ⟨c, rest, rfl, by simpa [startsPlain] using hs⟩
  have hindent : ∀ d ∈ (List.replicate depth "    ".toList).flatten, d = ' ' := by simp
  have hline : '\n' ∉ (List.replicate depth "    ".toList).flatten ++ text.toList := by
    rw [List.mem_append, not_or]
    exact ⟨fun hm => absurd (hindent _ hm) (by decide), h.unbroken⟩
  have huse : isUseLine ((List.replicate depth "    ".toList).flatten ++ text.toList) = false := by
    have htrim : Text.trimStart ((List.replicate depth "    ".toList).flatten ++ text.toList) =
        c :: rest := by
      rw [Text.trimStart, List.dropWhile_append_of_pos fun d hd => hindent d hd ▸ rfl, ht,
        List.dropWhile_cons_of_neg (by simp [hc.1])]
    have hu : ('u' == c) = false := beq_false_of_ne (Ne.symm hc.2)
    rw [isUseLine, htrim]
    exact congrArg (· && _) hu
  rw [lineChars_eq depth (by simp [ht]), Source.useLines, List.splitOn_eq_singleton hline,
    List.filter_cons, huse]
  rfl

def Mark.IsQuiet (m : Mark) : Prop := m = .blank ∨ Source.IsQuiet m.text

theorem codeFrom_quiet {marks : List Mark} (h : ∀ m ∈ marks, m.IsQuiet) (depth : Nat) :
    (codeFrom depth marks).filter isUseLine = [] := by
  induction marks generalizing depth with
  | nil => rfl
  | cons m rest ih =>
    have hrest := ih (fun n hn => h n (List.mem_cons_of_mem _ hn)) (m.depthAfter depth)
    rw [codeFrom, List.filter_append, hrest, ← useLines_eq, List.append_nil]
    rcases h m List.mem_cons_self with rfl | hm
    · rfl
    · exact hm.useLines _

theorem startsPlain_of_isDecoderName {name : String} (h : isDecoderName name = true) :
    startsPlain name.toList = true := by
  simp only [isDecoderName, Bool.or_eq_true, List.isPrefixOf_iff_prefix] at h
  rcases h with ⟨rest, hrest⟩ | ⟨rest, hrest⟩
  · rw [← hrest]
    rfl
  · rw [← hrest]
    rfl

theorem startsPlain_word {name : String} (h : startsPlain name.toList = true) (runtime : String)
    (rest : List Token) : startsPlain (spell runtime (.word name :: rest)) = true := by
  rw [spell, List.flatMap_cons]
  exact startsPlain_append h _

theorem startsPlain_sign {text : String} (h : startsPlain text.toList = true) (runtime : String)
    (rest : List Token) : startsPlain (spell runtime (.sign text :: rest)) = true := by
  rw [spell, List.flatMap_cons]
  exact startsPlain_append h _

/-- The lines of a statement start with a word or a brace. -/
theorem Stmt.ownLines_start (runtime : String) {s : Stmt}
    (h : ∀ call ∈ s.calls, isDecoderName call.function = true) :
    ∀ line ∈ s.ownLines, startsPlain (spell runtime line) = true := by
  have hclose : startsPlain (spell runtime closeLine) = true :=
    startsPlain_sign (by decide) runtime _
  cases s with
  | result record => exact List.forall_mem_singleton.mpr (startsPlain_word (by decide) runtime _)
  | bind x value =>
    cases value <;> exact List.forall_mem_singleton.mpr (startsPlain_word (by decide) runtime _)
  | fill x => exact List.forall_mem_singleton.mpr (startsPlain_word (by decide) runtime _)
  | store sink member value =>
    cases sink <;> exact List.forall_mem_singleton.mpr (startsPlain_word (by decide) runtime _)
  | raise failure => exact List.forall_mem_singleton.mpr (startsPlain_word (by decide) runtime _)
  | branch condition body otherwise =>
    have hif : startsPlain (spell runtime condition.line) = true :=
      startsPlain_word (by decide) runtime _
    have helse : startsPlain (spell runtime elseLine) = true :=
      startsPlain_sign (by decide) runtime _
    cases otherwise <;> simp [Stmt.ownLines, hif, helse, hclose]
  | block body =>
    have hopen : startsPlain (spell runtime [.sign "\x7b"]) = true :=
      startsPlain_sign (by decide) runtime _
    simp [Stmt.ownLines, hopen, hclose]
  | loop x body =>
    have hfor : startsPlain (spell runtime (loopLine x)) = true :=
      startsPlain_word (by decide) runtime _
    simp [Stmt.ownLines, hfor, hclose]
  | delegate call =>
    have hname := startsPlain_of_isDecoderName (h call (by simp [Stmt.calls]))
    exact List.forall_mem_singleton.mpr (startsPlain_word hname runtime _)
  | finish => exact List.forall_mem_singleton.mpr (startsPlain_word (by decide) runtime _)

theorem mem_functionMarks {runtime : String} {gs : List Function} {mark : Mark}
    (h : mark ∈ functionMarks runtime gs) : mark = .blank ∨ ∃ g ∈ gs, mark ∈ g.marks runtime := by
  fun_induction functionMarks runtime gs with
  | case1 => cases h
  | case2 g => exact .inr ⟨g, List.mem_singleton_self g, h⟩
  | case3 g rest _ ih =>
    simp only [List.mem_append, List.mem_cons] at h
    rcases h with h | h | h
    · exact .inr ⟨g, List.mem_cons_self, h⟩
    · exact .inl h
    · rcases ih h with h | ⟨q, hq, h⟩
      · exact .inl h
      · exact .inr ⟨q, List.mem_cons_of_mem _ hq, h⟩

theorem functionMarks_within (runtime : String) {g : Function} {gs : List Function} (h : g ∈ gs) :
    g.marks runtime <:+: functionMarks runtime gs := by
  fun_induction functionMarks runtime gs with
  | case1 => cases h
  | case2 q => rw [List.mem_singleton.mp h]
  | case3 q rest _ ih =>
    rcases List.mem_cons.mp h with rfl | h
    · exact (List.prefix_append _ _).isInfix
    · exact (ih h).trans ((List.suffix_cons _ _).trans (List.suffix_append _ _)).isInfix

theorem lints_quiet (g : Function) : IsQuiet g.lints := by
  unfold Function.lints
  split
  · exact ⟨rfl, by decide⟩
  · exact IsQuiet.append ⟨rfl, by decide⟩ (by decide)

theorem signature_quiet {g : Function} {runtime : String} (hn : '\n' ∉ g.name.toList)
    (ht : '\n' ∉ g.returns.toList) (hr : '\n' ∉ runtime.toList) :
    IsQuiet (g.signature runtime) := by
  unfold Function.signature
  constructor
  · cases g.isPublic <;> simp [toString, startsPlain] <;> decide
  · cases g.isPublic <;> cases g.takesLevel <;> simp [toString, openBrace, hn, ht, hr]

section

variable {m : Message} {plan : UnitPlan} (h : UnitPlan.build m = .ok plan)

include h

/-- The lines of the body of a function are made of tokens. -/
theorem body_reads {g : Function} (hg : g ∈ (items plan).functions) (runtime : String) :
    ReadsAll runtime (stmtMarks runtime g.body) (linesOf g.body) :=
  linesOf_reads runtime g.body fun _ hs => isNamed_items h hg hs

omit h in
/-- The lines of the body of a function stand in the unit. -/
theorem body_within_unit {g : Function} (hg : g ∈ (items plan).functions)
    (options : CompileOptions) :
    stmtMarks options.runtime g.body <:+: Emit.unit plan options := by
  obtain ⟨r, hr, hg⟩ := mem_functions_items.mp hg
  have hbody : stmtMarks options.runtime g.body <:+: g.marks options.runtime :=
    List.infix_append [_, _] _ _
  have hfunctions := hbody.trans (functionMarks_within options.runtime hg)
  refine List.IsInfix.trans ?_ (Emit.decoder_within hr options)
  rw [Emit.decoder_eq]
  exact hfunctions.trans (List.suffix_cons _ _).isInfix

theorem unbroken_typeName {r : RecordPlan} (hr : r ∈ plan.records) {f : FieldPlan}
    (hf : f ∈ r.fields) : '\n' ∉ f.typeName.toList := by
  have hrule : '\n' ∉ f.rule.typeName.toList := by
    cases he : f.rule with
    | primitive kind =>
      cases kind with
      | int w => cases w <;> decide
      | _ => decide
    | record name decoder =>
      obtain ⟨s, hs, rfl, _⟩ := (build_legible h).rule r hr f hf name decoder he
      exact unbroken_record h hs
  unfold FieldPlan.typeName
  split
  · simp [hrule]
  · exact hrule

theorem shape_quiet {r : RecordPlan} (hr : r ∈ plan.records) :
    ∀ mark ∈ Emit.shape r, mark.IsQuiet := by
  intro mark hm
  simp only [Emit.shape, List.mem_append, List.mem_cons, List.mem_flatMap, List.mem_map,
    List.not_mem_nil, or_false] at hm
  rcases hm with ((rfl | rfl | rfl) | ⟨f, hf, ⟨text, ht, rfl⟩ | rfl⟩) | rfl
  · exact .inr ⟨rfl, by decide⟩
  · exact .inr ⟨rfl, by decide⟩
  · exact .inr (IsQuiet.append (IsQuiet.append ⟨rfl, by decide⟩ (unbroken_record h hr)) (by decide))
  · exact .inr (memberAbout_notes f text ht).isQuiet
  · have hident := unbroken_of_isIdentifier ((build_legible h).member r hr f hf).1
    have htype := unbroken_typeName h hr hf
    refine .inr (IsQuiet.append (IsQuiet.append (IsQuiet.append (IsQuiet.append ⟨rfl, ?_⟩ hident)
      ?_) htype) ?_) <;> decide
  · exact .inr ⟨rfl, by decide⟩

/-- By way of its tokens: each line of a function starts with a word or a sign that starts no
import. -/
theorem function_quiet {g : Function} (hg : g ∈ (items plan).functions) {runtime : String}
    (hr : '\n' ∉ runtime.toList) : ∀ mark ∈ g.marks runtime, mark.IsQuiet := by
  have hitem {name : String} (hn : (Token.word name).isWhole = true) : '\n' ∉ name.toList := by
    simp only [Token.isWhole, Bool.and_eq_true, List.all_eq_true] at hn
    exact fun hm => absurd (hn.2 _ hm) (by decide)
  obtain ⟨hname, hreturns⟩ := isWhole_function h hg
  intro mark hm
  simp only [Function.marks, List.mem_cons, List.mem_append, List.not_mem_nil, or_false] at hm
  rcases hm with (rfl | rfl | hm) | rfl
  · exact .inr (lints_quiet g)
  · exact .inr (signature_quiet (hitem hname) (hitem hreturns) hr)
  · obtain ⟨line, hline, hreads⟩ := exists_of_mem_left (body_reads h hg runtime) hm
    obtain ⟨s, hs, hline⟩ := (mem_linesOf g.body line).mp hline
    refine .inr ⟨?_, hreads.unbroken hr⟩
    rw [hreads.spelled]
    exact Stmt.ownLines_start runtime (fun _ hc => isDecoderName_call h hg hs hc) line hline
  · exact .inr ⟨rfl, by decide⟩

/-- Behind its description, nothing of a record imports anything. -/
theorem passage_quiet {r : RecordPlan} (hr : r ∈ plan.records) {runtime : String}
    (hn : '\n' ∉ runtime.toList) : ∀ mark ∈ passage plan r runtime, mark.IsQuiet := by
  intro mark hm
  rw [passage, Emit.decoder_eq, List.mem_append, List.mem_cons, List.mem_cons] at hm
  rcases hm with hm | rfl | rfl | hm
  · exact shape_quiet h hr mark hm
  · exact .inl rfl
  · refine .inr (IsQuiet.append (IsQuiet.append ⟨rfl, ?_⟩ (unbroken_record h hr)) ?_) <;> decide
  · rcases mem_functionMarks hm with rfl | ⟨g, hg, hm⟩
    · exact .inl rfl
    · exact function_quiet h (mem_functions_items.mpr ⟨r, hr, hg⟩) hn mark hm

/-- Behind the description of the message, no line imports anything. -/
theorem codeAfter_quiet {options : CompileOptions} (hn : '\n' ∉ options.runtime.toList) :
    ∀ mark ∈ codeAfter plan options, mark.IsQuiet := by
  obtain ⟨entry, rest, hrecords, _, _, hrest⟩ := UnitPlan.build_records h
  have hmem {r : RecordPlan} (hr : r ∈ entry :: rest) : r ∈ plan.records := hrecords ▸ hr
  intro mark hm
  simp only [codeAfter, hrecords, recordMarks, List.mem_append, List.mem_flatMap, List.mem_cons,
    List.mem_map] at hm
  rcases hm with hm | ⟨r, hr, (rfl | ⟨text, ht, rfl⟩) | hm⟩
  · exact passage_quiet h (hmem List.mem_cons_self) hn mark hm
  · exact .inl rfl
  · have hnotes := recordAbout_notes h (hmem (List.mem_cons_of_mem _ hr)) fun he =>
      absurd he (hrest r hr)
    exact .inr (hnotes text ht).isQuiet
  · exact passage_quiet h (hmem (List.mem_cons_of_mem _ hr)) hn mark hm

end

/-- The imports of a unit are one line for each facility, in order. -/
theorem codeFrom_imports {runtime : String} (hr : '\n' ∉ runtime.toList)
    (facilities : List Facility) :
    (codeFrom 0 (importMarks runtime facilities)).filter isUseLine =
      facilities.map fun f => (s!"use {runtime}::{f.item};" : String).toList := by
  have huse (f : Facility) : useLines (s!"use {runtime}::{f.item};" : String).toList =
      [(s!"use {runtime}::{f.item};" : String).toList] := by
    have hitem : '\n' ∉ f.item.toList := by cases f <;> decide
    have hline : '\n' ∉ (s!"use {runtime}::{f.item};" : String).toList := by
      simp [toString, hr, hitem]
    have hstart : isUseLine (s!"use {runtime}::{f.item};" : String).toList = true := by
      simp only [toString, String.toList_append, List.append_assoc]
      rfl
    rw [useLines, List.splitOn_eq_singleton hline, List.filter_cons_of_pos hstart]
    rfl
  have hall (fs : List Facility) :
      (codeFrom 0 (fs.map fun f => .line s!"use {runtime}::{f.item};")).filter isUseLine =
        fs.map fun f => (s!"use {runtime}::{f.item};" : String).toList := by
    induction fs with
    | nil => rfl
    | cons f rest ih =>
      rw [List.map_cons, codeFrom, List.filter_append, ← useLines_eq]
      simp only [Mark.text, Mark.lineDepth, lineChars_zero, huse]
      exact congrArg (_ :: ·) ih
  unfold importMarks
  split
  · rfl
  · exact hall _

/-- The lines of a source that import something: those of its facilities, and those that its
category spills. -/
theorem useLines_unit {m : Message} {plan : UnitPlan} (h : UnitPlan.build m = .ok plan)
    (options : CompileOptions) (hm : '\n' ∉ options.moduleName.toList)
    (hr : '\n' ∉ options.runtime.toList) :
    useLines (layout (Emit.unit plan options)).toList =
      plan.facilities.toList.map
        (fun f => (s!"use {options.runtime}::{f.item};" : String).toList) ++
          (spilled m.category).filter isUseLine := by
  have hhead : (codeFrom 0 (Emit.head plan options ++ [.blank])).filter isUseLine =
      plan.facilities.toList.map
        (fun f => (s!"use {options.runtime}::{f.item};" : String).toList) := by
    -- The two comments in front of the imports are no lines of code.
    have hnotes := ((sameCode_notes (head_notes h hm)).append
      (.refl (importMarks options.runtime plan.facilities.toList ++ [.blank]))).code 0
    have hblank (depth : Nat) : (codeFrom depth [.blank]).filter isUseLine = [] :=
      codeFrom_quiet (List.forall_mem_singleton.mpr (.inl rfl)) depth
    rw [Emit.head_eq, List.append_assoc]
    refine (congrArg (List.filter isUseLine) hnotes).trans ?_
    rw [List.nil_append, codeFrom_append, List.filter_append, codeFrom_imports hr, hblank,
      List.append_nil]
  have hafter := codeFrom_quiet (codeAfter_quiet h hr) 0
  rw [useLines_eq, codeLines_unit h, List.filter_append, List.filter_append, List.filter_append,
    hhead, hafter]
  exact List.append_nil _

/-- The imports of a unit are complete and minimal: what the bodies of its functions use is what it
imports, and no item of the unit takes the name of an import. The bodies are those that can be read
from the source, and their lines stand in it token by token. The lines of the source that import are
those of the facilities, but for what the category of the message spills. -/
theorem imports_exact {m : Message} {plan : UnitPlan} (h : UnitPlan.build m = .ok plan)
    (options : CompileOptions) :
    ∃ unit held, compile m options = .ok unit ∧
      unit.source = layout (Emit.unit plan options) ∧
      readTexts options.runtime (plan.records.map fun r => recordText plan r options.runtime) =
        some held ∧
      (∀ g ∈ held.functions, stmtMarks options.runtime g.body <:+: Emit.unit plan options ∧
        ReadsAll options.runtime (stmtMarks options.runtime g.body) (linesOf g.body)) ∧
      (∀ facility, (∃ g ∈ held.functions, ∃ line ∈ linesOf g.body, uses facility line = true) ↔
        plan.facilities.contains facility = true) ∧
      (∀ facility, plan.facilities.contains facility = true →
        facility.item ∉ held.structs.map Struct.name ∧
          facility.item ∉ held.functions.map Function.name) ∧
      ('\n' ∉ options.moduleName.toList → '\n' ∉ options.runtime.toList →
        useLines unit.source.toList =
          (Facility.all.filter plan.facilities.contains).map
            (fun f => (s!"use {options.runtime}::{f.item};" : String).toList) ++
              (spilled m.category).filter isUseLine) ∧
      ('\n' ∉ m.category.toList → spilled m.category = []) ∧
      ('\n' ∉ options.moduleName.toList → '\n' ∉ m.category.toList →
        readSource options.runtime unit.source.toList =
          some ⟨held, (Facility.all.filter plan.facilities.contains).map Facility.item⟩) := by
  obtain ⟨unit, hcompile, _, hsource⟩ := compile_of_build h options
  refine ⟨unit, items plan, hcompile, hsource, read_recordTexts h options.runtime, ?_, ?_, ?_,
    ?_, spilled_of_not_mem, ?_⟩
  · intro g hg
    exact ⟨body_within_unit hg options, body_reads h hg options.runtime⟩
  · intro facility
    rw [UnitPlan.build_facilities h, ← mem_needsOf_items plan facility]
    apply exists_congr
    intro g
    apply and_congr_right
    intro hg
    apply uses_linesOf_iff
    -- A decoder of that name would look like a use, but decoders begin with other words.
    intro s hs call hc hname
    have hdecoder := isDecoderName_call h hg hs hc
    rw [hname] at hdecoder
    cases hdecoder
  · intro facility hc
    have hitem := FacilitySet.mem_items.mpr ⟨facility, rfl, hc⟩
    have hnot := fun hm => (UnitPlan.build_items h).apart _ hm hitem
    refine ⟨fun hm => ?_, fun hm => ?_⟩
    · obtain ⟨s, hs, hname⟩ := List.mem_map.mp hm
      obtain ⟨r, hr, rfl⟩ := List.mem_map.mp hs
      refine hnot (List.mem_flatMap.mpr ⟨r, hr, ?_⟩)
      rw [← hname]
      exact List.mem_cons_self
    · exact hnot ((functions_names_sublist plan plan.records).subset hm)
  · intro hm hr
    rw [hsource]
    exact useLines_unit h options hm hr
  · intro hm hc
    rw [hsource, read_unit_unbroken h options hm hc]
    rfl

theorem imports_exact_tree :
    UnitPlan.build Samples.treeResponse = .ok Samples.treePlan ∧
      ∃ unit held, compile Samples.treeResponse {} = .ok unit ∧
        readSource "wiregen_runtime" unit.source.toList =
          some ⟨held, ["Buf", "DecodeError", "read_uvarint"]⟩ ∧
        useLines unit.source.toList =
          ["use wiregen_runtime::Buf;".toList, "use wiregen_runtime::DecodeError;".toList,
           "use wiregen_runtime::read_uvarint;".toList] ∧
        (∃ g ∈ held.functions, ∃ line ∈ linesOf g.body, uses .lengthDelimited line = true) ∧
        "Buf" ∉ held.structs.map Struct.name := by
  obtain ⟨unit, held, hcompile, _, _, _, huses, hnames, hlines, hspilled, hread⟩ :=
    imports_exact Samples.build_treeResponse {}
  have hcategory : '\n' ∉ Samples.treeResponse.category.toList := by decide
  refine ⟨Samples.build_treeResponse, unit, held, hcompile, hread (by decide) hcategory, ?_,
    (huses .lengthDelimited).mpr rfl, (hnames .bigEndian rfl).1⟩
  rw [hlines (by decide) (by decide), hspilled hcategory]
  rfl

end Source

namespace Samples

def importingFoo : Message := { foo with category := "request\nuse std::fs;\n//" }

def importingPlan : UnitPlan where
  messageName := "Foo"
  category := importingFoo.category
  records :=
    [⟨"Foo", "ReadFoo", .message, none, none,
      [⟨"x", "X", false, .primitive (.int .w32), some (.minimum 0), .absent, none⟩]⟩]
  facilities := ⟨true, false, false⟩

theorem build_importingFoo : UnitPlan.build importingFoo = .ok importingPlan := by rfl

end Samples

namespace Source

/-- A category can bring in an import that nothing in the unit uses. -/
theorem category_imports :
    '\n' ∉ ({} : CompileOptions).moduleName.toList ∧ '\n' ∉ ({} : CompileOptions).runtime.toList ∧
      Samples.importingPlan.facilities.items = ["Buf"] ∧
      ∃ unit, compile Samples.importingFoo {} = .ok unit ∧
        useLines unit.source.toList =
          ["use wiregen_runtime::Buf;".toList, "use std::fs;".toList] := by
  obtain ⟨unit, hcompile, _, hsource⟩ := compile_of_build Samples.build_importingFoo {}
  refine ⟨by decide, by decide, rfl, unit, hcompile, ?_⟩
  rw [hsource, useLines_unit Samples.build_importingFoo {} (by decide) (by decide)]
  decide +kernel

end Source

end WireSchema

import WireSchema.Proofs.CodeLines
import WireSchema.Proofs.Emission
import WireSchema.Proofs.Pieces

/-!
Emitted source read back. A text is cut into pieces line by line, whatever its indentation, and the
pieces build up the statements, functions and structs that were emitted.
-/

namespace WireSchema.Source

/-! ## Cutting texts -/

section

variable {runtime : String}

/-- What is passed over in front of a text makes no difference to its pieces. -/
theorem piecesFrom_congr {s t : List Char} (h : skip false s = skip false t) (fuel : Nat) :
    piecesFrom runtime fuel s = piecesFrom runtime fuel t := by
  unfold piecesFrom
  rw [h]

/-- A text is cut into pieces, and then what follows it. -/
structure Cuts (runtime : String) (text : List Char) (ps : List Piece) : Prop where
  cut : ∀ rest fuel qs, piecesFrom runtime fuel rest = some qs →
    piecesFrom runtime (ps.length + fuel) (text ++ rest) = some (ps ++ qs)
  short : ps.length ≤ text.length

theorem Cuts.append {s t : List Char} {ps qs : List Piece} (h : Cuts runtime s ps)
    (h' : Cuts runtime t qs) : Cuts runtime (s ++ t) (ps ++ qs) := by
  constructor
  · intro rest fuel more hmore
    have hcut := h.cut _ _ _ (h'.cut rest fuel more hmore)
    simpa [Nat.add_assoc] using hcut
  · simpa using Nat.add_le_add h.short h'.short

/-- A text that is passed over gives no piece. -/
theorem Cuts.skipped {text : List Char} (h : ∀ rest, skip false (text ++ rest) = skip false rest) :
    Cuts runtime text [] := by
  constructor
  · intro rest fuel qs hq
    rw [List.length_nil, Nat.zero_add, piecesFrom_congr (h rest), hq]
    rfl
  · exact Nat.zero_le _

theorem skip_blanks {indent : List Char} (h : ∀ c ∈ indent, c = ' ') (s : List Char) :
    skip false (indent ++ s) = skip false s := by
  induction indent with
  | nil => rfl
  | cons c indent ih =>
    rw [h c List.mem_cons_self]
    exact ih fun d hd => h d (List.mem_cons_of_mem _ hd)

/-- A comment or a lint is passed over up to the end of its line. -/
theorem skip_line {line : List Char} (h : '\n' ∉ line) (s : List Char) :
    skip true (line ++ '\n' :: s) = skip false s := by
  induction line with
  | nil => rfl
  | cons c line ih =>
    simp only [List.mem_cons, not_or] at h
    have hc : skip true (c :: (line ++ '\n' :: s)) = skip true (line ++ '\n' :: s) := by
      rw [skip]
      exact fun he => h.1 he.symm
    rw [List.cons_append, hc, ih h.2]

/-- A line is one piece, however it is indented. -/
theorem IsPiece.cuts {text indent : List Char} {piece : Piece} (h : IsPiece runtime text piece)
    (hi : ∀ c ∈ indent, c = ' ') : Cuts runtime (indent ++ text ++ ['\n']) [piece] := by
  constructor
  · intro rest fuel qs hq
    have hskip : skip false (indent ++ text ++ ['\n'] ++ rest) = text ++ '\n' :: rest := by
      rw [List.append_assoc, List.append_assoc, skip_blanks hi, h.starts]
      rfl
    have hfeed : skip false ('\n' :: rest) = skip false rest := rfl
    have hmore : piecesFrom runtime fuel ('\n' :: rest) = some qs := by
      rw [piecesFrom_congr hfeed, hq]
    have hread := h.reads rest
    -- One piece takes one step, and the text behind it is cut with the steps that are left.
    rw [List.length_singleton, Nat.add_comm, piecesFrom.eq_def, hskip]
    cases htext : text ++ '\n' :: rest with
    | nil => simp at htext
    | cons c t =>
      rw [htext] at hread
      simp [hread, hmore]
  · simp only [List.length_append, List.length_singleton]
    omega

/-! ## Marks -/

def textFrom (depth : Nat) (marks : List Mark) : List Char :=
  (layoutFrom depth marks).flatMap String.toList

theorem layout_toList (marks : List Mark) : (layout marks).toList = textFrom 0 marks := by
  rw [layout, String.toList_join, textFrom]

theorem textFrom_cons (depth : Nat) (m : Mark) (marks : List Mark) :
    textFrom depth (m :: marks) =
      lineChars (m.lineDepth depth) m.text ++ ['\n'] ++ textFrom (m.depthAfter depth) marks := by
  simp only [textFrom, layoutFrom, List.flatMap_cons, indented_toList]

theorem textFrom_line (depth : Nat) (text : String) :
    textFrom depth [.line text] = lineChars depth text ++ ['\n'] := by
  rw [textFrom_cons]
  exact List.append_nil _

theorem layoutFrom_append (depth : Nat) (xs ys : List Mark) :
    layoutFrom depth (xs ++ ys) =
      layoutFrom depth xs ++ layoutFrom (xs.foldl Mark.depthAfter depth) ys := by
  induction xs generalizing depth with
  | nil => rfl
  | cons m rest ih => simp only [List.cons_append, layoutFrom, ih, List.foldl_cons]

theorem textFrom_append (depth : Nat) (xs ys : List Mark) :
    textFrom depth (xs ++ ys) =
      textFrom depth xs ++ textFrom (xs.foldl Mark.depthAfter depth) ys := by
  rw [textFrom, layoutFrom_append, List.flatMap_append]
  rfl

theorem IsPiece.ne_nil {text : List Char} {piece : Piece} (h : IsPiece runtime text piece) :
    text ≠ [] := by
  rintro rfl
  have hskip := h.starts ['\n']
  simp [skip] at hskip

theorem lineChars_of_ne (depth : Nat) {text : String} (h : text.toList ≠ []) :
    ∃ indent : List Char, (∀ c ∈ indent, c = ' ') ∧
      lineChars depth text = indent ++ text.toList :=
  ⟨_, by simp, lineChars_eq depth h⟩

/-- A mark whose line is one piece. -/
theorem cuts_mark (m : Mark) {piece : Piece} (h : IsPiece runtime m.text.toList piece)
    (depth : Nat) : Cuts runtime (textFrom depth [m]) [piece] := by
  obtain ⟨indent, hi, hline⟩ := lineChars_of_ne (m.lineDepth depth) h.ne_nil
  rw [textFrom_cons, hline]
  simpa [textFrom, layoutFrom] using h.cuts hi

/-! ## Statements -/

def Open.addAll (f : Function) (blocks : List Block) (ss : List Stmt) : Open :=
  match blocks with
  | [] => .function { f with body := f.body ++ ss } []
  | b :: outer => .function f ({ b with body := b.body ++ ss } :: outer)

def Leads (ps : List Piece) (r r' : Reading) : Prop := ps.foldlM Reading.step r = some r'

theorem Leads.trans {ps qs : List Piece} {r r' r'' : Reading} (h : Leads ps r r')
    (h' : Leads qs r' r'') : Leads (ps ++ qs) r r'' := by
  unfold Leads at *
  rw [List.foldlM_append, h]
  exact h'

theorem leads_step {piece : Piece} {r r' : Reading} (h : r.step piece = some r') :
    Leads [piece] r r' := by
  unfold Leads
  rw [List.foldlM_cons, h]
  rfl

/-- Pieces add statements to whatever block is being read. -/
def Makes (ps : List Piece) (ss : List Stmt) : Prop :=
  ∀ k f blocks, Leads ps ⟨k, .function f blocks⟩ ⟨k, .addAll f blocks ss⟩

theorem makes_nil : Makes [] [] := by
  intro k f blocks
  cases blocks <;> simp [Leads, Open.addAll]

theorem Makes.append {ps qs : List Piece} {ss ts : List Stmt} (h : Makes ps ss) (h' : Makes qs ts) :
    Makes (ps ++ qs) (ss ++ ts) := by
  intro k f blocks
  cases blocks with
  | nil =>
    have hmore := h' k { f with body := f.body ++ ss } []
    simp only [Open.addAll, List.append_assoc] at hmore
    exact (h k f []).trans hmore
  | cons b outer =>
    have hmore := h' k f ({ b with body := b.body ++ ss } :: outer)
    simp only [Open.addAll, List.append_assoc] at hmore
    exact (h k f (b :: outer)).trans hmore

theorem makes_stmt (s : Stmt) : Makes [.stmt s] [s] := by
  intro k f blocks
  cases blocks <;> exact leads_step rfl

/-- A block that was opened holds the statements up to where it is closed. -/
theorem Makes.enclosed {ps : List Piece} {ss : List Stmt} (h : Makes ps ss) (o : Opener) :
    Makes ([.opening o] ++ ps ++ [.close]) [Block.stmt ⟨o, ss⟩] := by
  intro k f blocks
  have hopen : Leads [.opening o] ⟨k, .function f blocks⟩ ⟨k, .function f (⟨o, []⟩ :: blocks)⟩ :=
    leads_step rfl
  have hbody := h k f (⟨o, []⟩ :: blocks)
  refine (hopen.trans hbody).trans (leads_step ?_)
  cases blocks <;> rfl

/-- A branch takes the statements of both its blocks when the second is closed. -/
theorem Makes.branched {ps qs : List Piece} {ss ts : List Stmt} (h : Makes ps ss)
    (h' : Makes qs ts) (c : Condition) :
    Makes ([.opening (.branch c)] ++ ps ++ [.otherwise] ++ qs ++ [.close]) [.branch c ss ts] := by
  intro k f blocks
  have hopen : Leads [.opening (.branch c)] ⟨k, .function f blocks⟩
      ⟨k, .function f (⟨.branch c, []⟩ :: blocks)⟩ := leads_step rfl
  have hfirst := h k f (⟨.branch c, []⟩ :: blocks)
  have hturn : Leads [.otherwise] ⟨k, .function f (⟨.branch c, ss⟩ :: blocks)⟩
      ⟨k, .function f (⟨.otherwise c ss, []⟩ :: blocks)⟩ := leads_step rfl
  have hsecond := h' k f (⟨.otherwise c ss, []⟩ :: blocks)
  refine (((hopen.trans hfirst).trans hturn).trans hsecond).trans (leads_step ?_)
  cases blocks <;> rfl

/-- Marks are read as statements, at every depth. -/
def ReadsAs (runtime : String) (marks : List Mark) (ss : List Stmt) : Prop :=
  ∀ depth, ∃ ps, Cuts runtime (textFrom depth marks) ps ∧ Makes ps ss

theorem readsAs_nil : ReadsAs runtime [] [] :=
  fun _ => ⟨[], .skipped fun _ => rfl, makes_nil⟩

theorem ReadsAs.append {xs ys : List Mark} {ss ts : List Stmt} (h : ReadsAs runtime xs ss)
    (h' : ReadsAs runtime ys ts) : ReadsAs runtime (xs ++ ys) (ss ++ ts) := by
  intro depth
  obtain ⟨ps, hcut, hmake⟩ := h depth
  obtain ⟨qs, hcut', hmake'⟩ := h' (xs.foldl Mark.depthAfter depth)
  exact ⟨ps ++ qs, textFrom_append depth xs ys ▸ hcut.append hcut', hmake.append hmake'⟩

theorem readsAs_line {text : String} {s : Stmt} (h : IsPiece runtime text.toList (.stmt s)) :
    ReadsAs runtime [.line text] [s] :=
  fun depth => ⟨[.stmt s], cuts_mark (.line text) h depth, makes_stmt s⟩

theorem ReadsAs.enclosed {head : String} {o : Opener} {marks : List Mark} {ss : List Stmt}
    (hh : IsPiece runtime head.toList (.opening o)) (h : ReadsAs runtime marks ss) :
    ReadsAs runtime ([.opening head] ++ marks ++ [.closing closeBrace]) [Block.stmt ⟨o, ss⟩] := by
  intro depth
  obtain ⟨ps, hcut, hmake⟩ := h (depth + 1)
  refine ⟨_, ?_, hmake.enclosed o⟩
  rw [textFrom_append, textFrom_append]
  exact ((cuts_mark (.opening head) hh depth).append hcut).append
    (cuts_mark (.closing closeBrace) line_close _)

/-- Both blocks of a branch and the lines around them. The check of the level is left out, as its
lines are read together. -/
theorem ReadsAs.branched {c : Condition} (hc : c ≠ .isTooDeep) {xs ys : List Mark}
    {ss ts : List Stmt} (h : ReadsAs runtime xs ss) (h' : ReadsAs runtime ys ts) :
    ReadsAs runtime ([.opening ("if " ++ c.render runtime ++ openBrace)] ++ xs ++
      [.reopening "\x7d else \x7b"] ++ ys ++ [.closing closeBrace]) [.branch c ss ts] := by
  intro depth
  obtain ⟨ps, hcut, hmake⟩ := h (depth + 1)
  have hopen := cuts_mark (.opening ("if " ++ c.render runtime ++ openBrace)) (line_branch hc) depth
  rw [textFrom_append, textFrom_append, textFrom_append, textFrom_append]
  obtain ⟨qs, hcut', hmake'⟩ := h' _
  have helse (d : Nat) : Cuts runtime _ _ :=
    cuts_mark (.reopening "\x7d else \x7b") line_otherwise d
  have hclose (d : Nat) : Cuts runtime _ _ := cuts_mark (.closing closeBrace) line_close d
  refine ⟨_, ?_, hmake.branched hmake' c⟩
  exact (((hopen.append hcut).append (helse _)).append hcut').append (hclose _)

/-- What is printed for a statement is read as that statement. -/
def ReadsBack (runtime : String) (s : Stmt) : Prop := ReadsAs runtime (s.marks runtime) [s]

theorem readsAs_stmts {ss : List Stmt} (h : ∀ s ∈ ss, ReadsBack runtime s) :
    ReadsAs runtime (stmtMarks runtime ss) ss := by
  induction ss with
  | nil => exact readsAs_nil
  | cons s rest ih =>
    have hrest := ih fun t ht => h t (List.mem_cons_of_mem _ ht)
    exact (h s List.mem_cons_self).append hrest

theorem readsBack_result {record : String} (h : isIdentifier record.toList = true) :
    ReadsBack runtime (.result record) := readsAs_line (line_result h)

theorem readsBack_bind (x : Var) (value : Init) : ReadsBack runtime (.bind x value) :=
  readsAs_line (line_bind x value)

theorem readsBack_fill (x : Var) : ReadsBack runtime (.fill x) := readsAs_line (line_fill x)

theorem readsBack_store (sink : Sink) {member : String} (hm : isIdentifier member.toList = true)
    {value : Expr} (hv : value.IsReadable) : ReadsBack runtime (.store sink member value) :=
  readsAs_line (line_store sink hm hv)

theorem readsBack_raise {f : Failure} (h : f ≠ .nestingTooDeep) : ReadsBack runtime (.raise f) :=
  readsAs_line (line_raise h)

theorem readsBack_delegate {c : Call} (h : IsCallable c.function) :
    ReadsBack runtime (.delegate c) := readsAs_line (line_delegate h)

theorem readsBack_finish : ReadsBack runtime .finish := readsAs_line line_finish

theorem readsBack_block {body : List Stmt} (h : ∀ s ∈ body, ReadsBack runtime s) :
    ReadsBack runtime (.block body) := (readsAs_stmts h).enclosed line_block

theorem readsBack_loop (x : Var) {body : List Stmt} (h : ∀ s ∈ body, ReadsBack runtime s) :
    ReadsBack runtime (.loop x body) := (readsAs_stmts h).enclosed (line_loop x)

theorem readsBack_branch {c : Condition} (hc : c ≠ .isTooDeep) {body otherwise : List Stmt}
    (h : ∀ s ∈ body, ReadsBack runtime s) (h' : ∀ s ∈ otherwise, ReadsBack runtime s) :
    ReadsBack runtime (.branch c body otherwise) := by
  unfold ReadsBack
  cases otherwise with
  | nil =>
    rw [Emit.marks_branch_nil]
    exact (readsAs_stmts h).enclosed (line_branch hc)
  | cons s ss =>
    rw [Emit.marks_branch_cons]
    have hread := (readsAs_stmts h).branched hc (readsAs_stmts h')
    simpa only [List.singleton_append, List.cons_append, List.append_assoc, List.nil_append]
      using hread

theorem readsBack_failIf {c : Condition} (hc : c ≠ .isTooDeep) {f : Failure}
    (hf : f ≠ .nestingTooDeep) : ReadsBack runtime (failIf c f) :=
  readsBack_branch hc (List.forall_mem_singleton.mpr (readsBack_raise hf)) (by simp)

/-- The check of the nesting level. Its lines are read together. -/
theorem readsBack_levelCheck : ReadsBack runtime (failIf .isTooDeep .nestingTooDeep) := by
  intro depth
  refine ⟨[.stmt (failIf .isTooDeep .nestingTooDeep)], ?_, makes_stmt _⟩
  have hif : ("if " ++ Condition.isTooDeep.render runtime ++ openBrace).toList ≠ [] := by
    simp [openBrace]
  have hreturn : s!"return Err({Failure.nestingTooDeep.render runtime});".toList ≠ [] := by
    simp [toString]
  have hbrace : closeBrace.toList ≠ [] := by decide
  -- Each of the three lines has an indentation of its own, and only the first is passed over.
  obtain ⟨indent, hi, hopen⟩ := lineChars_of_ne depth hif
  obtain ⟨inner, hinner, hbody⟩ := lineChars_of_ne (depth + 1) hreturn
  obtain ⟨outer, houter, hclose⟩ := lineChars_of_ne depth hbrace
  have hpiece : IsPiece runtime _ _ := line_levelCheck hinner houter
  have hcuts := hpiece.cuts hi
  have hmarks : (failIf .isTooDeep .nestingTooDeep).marks runtime =
      [.opening ("if " ++ Condition.isTooDeep.render runtime ++ openBrace),
       .line s!"return Err({Failure.nestingTooDeep.render runtime});",
       .closing closeBrace] := rfl
  rw [hmarks, textFrom_cons, textFrom_cons, textFrom_cons]
  simp only [Mark.lineDepth, Mark.depthAfter, Mark.text, Nat.add_sub_cancel, hopen, hbody, hclose]
  simpa only [textFrom, layoutFrom, List.flatMap_nil, List.append_assoc, List.cons_append,
    List.nil_append, List.append_nil] using hcuts

/-! ## Items -/

/-- Marks whose text is passed over. -/
def Silent (marks : List Mark) : Prop :=
  ∀ depth rest, skip false (textFrom depth marks ++ rest) = skip false rest

theorem Silent.append {xs ys : List Mark} (h : Silent xs) (h' : Silent ys) : Silent (xs ++ ys) := by
  intro depth rest
  rw [textFrom_append, List.append_assoc, h, h']

theorem silent_nil : Silent [] := fun _ _ => rfl

theorem silent_blank : Silent [.blank] := by
  intro depth rest
  rw [textFrom_cons]
  rfl

theorem silent_line {text : String} (h : text.toList ≠ [])
    (hs : ∀ rest, skip false (text.toList ++ '\n' :: rest) = skip false rest) :
    Silent [.line text] := by
  intro depth rest
  obtain ⟨indent, hi, hline⟩ := lineChars_of_ne depth h
  rw [textFrom_cons, Mark.lineDepth, Mark.text, hline]
  simp only [textFrom, layoutFrom, List.flatMap_nil, List.append_assoc, List.nil_append,
    List.cons_append]
  rw [skip_blanks hi, hs]

theorem silent_note {text : String} (h : IsNote text) : Silent [.line text] := by
  obtain ⟨note, htext, hnote⟩ := h
  refine silent_line (by simp [htext]) fun rest => ?_
  rw [htext]
  exact skip_line hnote rest

theorem silent_notes {texts : List String} (h : ∀ text ∈ texts, IsNote text) :
    Silent (texts.map .line) := by
  induction texts with
  | nil => exact silent_nil
  | cons text rest ih =>
    exact (silent_note (h text List.mem_cons_self)).append
      (ih fun t ht => h t (List.mem_cons_of_mem _ ht))

/-- A lint is passed over as a comment is. -/
theorem silent_lint {text : String} (h : "#[allow".toList.isPrefixOf text.toList = true)
    (hn : text.toList.contains '\n' = false) : Silent [.line text] := by
  obtain ⟨lint, ht⟩ := List.isPrefixOf_iff_prefix.mp h
  rw [← ht] at hn
  have hlint : '\n' ∉ lint := by
    intro hm
    simp [hm] at hn
  refine silent_line ?_ fun rest => ?_
  · rw [← ht]
    exact List.cons_ne_nil _ _
  · rw [← ht, List.append_assoc]
    exact skip_line hlint rest

theorem Silent.cuts {marks : List Mark} (h : Silent marks) (depth : Nat) :
    Cuts runtime (textFrom depth marks) [] := .skipped (h depth)

def Contents.append (k d : Contents) : Contents :=
  ⟨⟨k.structs ++ d.structs, k.functions ++ d.functions⟩, k.imports ++ d.imports⟩

theorem Contents.append_empty (k : Contents) : k.append .empty = k := by
  simp [Contents.append, Contents.empty]

theorem Contents.append_assoc (k d e : Contents) :
    (k.append d).append e = k.append (d.append e) := by
  simp [Contents.append]

/-- Marks hold items, at every depth and behind any others. -/
def Holds (runtime : String) (marks : List Mark) (d : Contents) : Prop :=
  ∀ depth, ∃ ps, Cuts runtime (textFrom depth marks) ps ∧
    ∀ k, Leads ps ⟨k, .nothing⟩ ⟨k.append d, .nothing⟩

theorem Holds.append {xs ys : List Mark} {d e : Contents} (h : Holds runtime xs d)
    (h' : Holds runtime ys e) : Holds runtime (xs ++ ys) (d.append e) := by
  intro depth
  obtain ⟨ps, hcut, hlead⟩ := h depth
  obtain ⟨qs, hcut', hlead'⟩ := h' (xs.foldl Mark.depthAfter depth)
  refine ⟨ps ++ qs, textFrom_append depth xs ys ▸ hcut.append hcut', fun k => ?_⟩
  rw [← Contents.append_assoc]
  exact (hlead k).trans (hlead' _)

/-- What is passed over may stand in front. -/
theorem Holds.after {xs ys : List Mark} {d : Contents} (h : Holds runtime ys d) (hx : Silent xs) :
    Holds runtime (xs ++ ys) d := by
  intro depth
  obtain ⟨ps, hcut, hlead⟩ := h (xs.foldl Mark.depthAfter depth)
  exact ⟨ps, textFrom_append depth xs ys ▸ (hx.cuts depth).append hcut, hlead⟩

theorem holds_silent {marks : List Mark} (h : Silent marks) : Holds runtime marks .empty := by
  intro depth
  refine ⟨[], h.cuts depth, fun k => ?_⟩
  rw [Contents.append_empty]
  rfl

/-- A line may go on behind a break. What it holds then is what the lines in it hold. -/
theorem holds_broken {marks : List Mark} {d : Contents} (h : Holds runtime marks d)
    {first last : String} (hf : IsNote first) (hl : IsNote last) :
    Holds runtime [.line (first ++ "\n" ++ layout marks ++ last)] d := by
  have hfirst : first.toList ≠ [] := by
    obtain ⟨_, ht, _⟩ := hf
    simp [ht]
  have htext (depth : Nat) : textFrom depth [.line (first ++ "\n" ++ layout marks ++ last)] =
      textFrom depth [.line first] ++ textFrom 0 marks ++ textFrom 0 [.line last] := by
    have hne : (first ++ "\n" ++ layout marks ++ last).toList ≠ [] := by simp [hfirst]
    simp only [textFrom_line, lineChars_zero, lineChars_eq depth hfirst, lineChars_eq depth hne,
      String.toList_append, layout_toList]
    simp
  intro depth
  obtain ⟨ps, hcut, hlead⟩ := h 0
  refine ⟨[] ++ ps ++ [], ?_, by simpa using hlead⟩
  rw [htext]
  exact (((silent_note hf).cuts depth).append hcut).append ((silent_note hl).cuts 0)

/-- A function is read from its signature to its last brace. Its lints are passed over. -/
theorem holds_function {f : Function} (hn : isIdentifier f.name.toList = true)
    (hr : isIdentifier f.returns.toList = true) (hb : ∀ s ∈ f.body, ReadsBack runtime s) :
    Holds runtime (f.marks runtime) ⟨⟨[], [f]⟩, []⟩ := by
  have hlints : Silent [.line f.lints] := by
    unfold Function.lints
    split
    · exact silent_lint rfl rfl
    · exact silent_lint rfl rfl
  have hmarks : f.marks runtime = [.line f.lints] ++
      ([.opening (f.signature runtime)] ++ stmtMarks runtime f.body ++ [.closing closeBrace]) := rfl
  rw [hmarks]
  refine Holds.after ?_ hlints
  intro depth
  obtain ⟨ps, hcut, hmake⟩ := readsAs_stmts hb (depth + 1)
  refine ⟨[.functionHead { f with body := [] }] ++ ps ++ [.close], ?_, fun k => ?_⟩
  · have hhead := cuts_mark (.opening (f.signature runtime)) (line_function hn hr) depth
    rw [textFrom_append, textFrom_append]
    exact (hhead.append hcut).append (cuts_mark (.closing closeBrace) line_close _)
  · have hhead : Leads [.functionHead { f with body := [] }] ⟨k, .nothing⟩
        ⟨k, .function { f with body := [] } []⟩ := leads_step rfl
    have hbody := hmake k { f with body := [] } []
    refine (hhead.trans hbody).trans (leads_step ?_)
    simp [Reading.step, Open.addAll, Contents.append]

theorem holds_functions {fs : List Function} (h : ∀ f ∈ fs, isIdentifier f.name.toList = true ∧
    isIdentifier f.returns.toList = true ∧ ∀ s ∈ f.body, ReadsBack runtime s) :
    Holds runtime (functionMarks runtime fs) ⟨⟨[], fs⟩, []⟩ := by
  induction fs with
  | nil => exact holds_silent silent_nil
  | cons f rest ih =>
    obtain ⟨hn, hr, hb⟩ := h f List.mem_cons_self
    have hf := holds_function hn hr hb
    cases rest with
    | nil => exact hf
    | cons g rest =>
      have hrest := ih fun e he => h e (List.mem_cons_of_mem _ he)
      exact hf.append (hrest.after silent_blank)

/-- A member has a name of its own and a type that can be read, and is described by comments. -/
structure MemberDef.IsReadable (m : MemberDef) : Prop where
  name : isIdentifier m.name.toList = true
  notStruct : m.name ≠ "struct"
  notFunction : m.name ≠ "fn"
  type : IsReadableType m.type
  about : ∀ text ∈ m.about, IsNote text

theorem cuts_members {members : List MemberDef} (h : ∀ m ∈ members, m.IsReadable) (depth : Nat) :
    Cuts runtime (textFrom depth (members.flatMap MemberDef.marks))
      (members.map fun m => .member m.toMember) := by
  induction members generalizing depth with
  | nil => exact silent_nil.cuts depth
  | cons m rest ih =>
    have hm := h m List.mem_cons_self
    have hline (d : Nat) : Cuts runtime _ _ :=
      cuts_mark (.line s!"pub {m.name}: {m.typeName},")
        (line_member hm.name hm.notStruct hm.notFunction hm.type) d
    rw [List.flatMap_cons, MemberDef.marks, textFrom_append, textFrom_append]
    exact (((silent_notes hm.about).cuts depth).append (hline _)).append
      (ih (fun e he => h e (List.mem_cons_of_mem _ he)) _)

theorem leads_members (k : Contents) (name : String) (ms : List MemberDef) (before : List Member) :
    Leads (ms.map fun m => .member m.toMember) ⟨k, .struct ⟨name, before⟩⟩
      ⟨k, .struct ⟨name, before ++ ms.map MemberDef.toMember⟩⟩ := by
  induction ms generalizing before with
  | nil => simp [Leads]
  | cons m rest ih =>
    have hstep : Leads [.member m.toMember] ⟨k, .struct ⟨name, before⟩⟩
        ⟨k, .struct ⟨name, before ++ [m.toMember]⟩⟩ := leads_step rfl
    simpa using hstep.trans (ih _)

/-- A struct is read with its members, and without what describes them. -/
theorem holds_struct {name : String} (hn : isIdentifier name.toList = true)
    {members : List MemberDef} (hm : ∀ m ∈ members, m.IsReadable) :
    Holds runtime
      ([.line "#[derive(Debug, Clone, Default, PartialEq, Eq)]"] ++
        [.opening (s!"pub struct {name}" ++ openBrace)] ++
        members.flatMap MemberDef.marks ++ [.closing closeBrace])
      ⟨⟨[⟨name, members.map MemberDef.toMember⟩], []⟩, []⟩ := by
  intro depth
  refine ⟨[.derives] ++ [.structHead name] ++ (members.map fun m => .member m.toMember) ++ [.close],
    ?_, fun k => ?_⟩
  · have hderives : Cuts runtime _ _ :=
      cuts_mark (.line "#[derive(Debug, Clone, Default, PartialEq, Eq)]") line_derives depth
    have hhead (d : Nat) : Cuts runtime _ _ :=
      cuts_mark (.opening (s!"pub struct {name}" ++ openBrace)) (line_struct hn) d
    rw [textFrom_append, textFrom_append, textFrom_append]
    exact ((hderives.append (hhead _)).append (cuts_members hm _)).append
      (cuts_mark (.closing closeBrace) line_close _)
  · have hderives : Leads [.derives] ⟨k, .nothing⟩ ⟨k, .derived⟩ := leads_step rfl
    have hhead : Leads [.structHead name] ⟨k, .derived⟩ ⟨k, .struct ⟨name, []⟩⟩ := leads_step rfl
    refine ((hderives.trans hhead).trans (leads_members k name members [])).trans (leads_step ?_)
    simp [Reading.step, Contents.append]

/-- Imports are read by the names of their items. -/
theorem holds_imports (items : List Facility) :
    Holds runtime (importMarks runtime items) ⟨⟨[], []⟩, items.map Facility.item⟩ := by
  have huse (f : Facility) :
      Holds runtime [.line s!"use {runtime}::{f.item};"] ⟨⟨[], []⟩, [f.item]⟩ := by
    intro depth
    have hitem : isIdentifier f.item.toList = true := by cases f <;> rfl
    refine ⟨[.use f.item], cuts_mark (.line _) (line_use hitem) depth, fun k => leads_step ?_⟩
    simp [Reading.step, Contents.append]
  have huses (fs : List Facility) : Holds runtime
      (fs.map fun f => .line s!"use {runtime}::{f.item};") ⟨⟨[], []⟩, fs.map Facility.item⟩ := by
    induction fs with
    | nil => exact holds_silent silent_nil
    | cons f rest ih => exact (huse f).append ih
  cases items with
  | nil => exact holds_silent silent_nil
  | cons f rest => exact (huses (f :: rest)).after silent_blank

/-! ## Plans -/

theorem unbroken_of_isIdentifier {name : String} (h : isIdentifier name.toList = true) :
    '\n' ∉ name.toList := by
  obtain ⟨c, t, hct, hc, ht⟩ := isIdentifier_cons h
  rw [hct, List.mem_cons, not_or]
  exact ⟨(ne_of_isIdentStart hc rfl).symm, fun hm => absurd (ht _ hm) (by decide)⟩

/-- The names in a plan are ones that its source can be read by. -/
structure Legible (plan : UnitPlan) : Prop where
  record : ∀ r ∈ plan.records, isIdentifier r.name.toList = true ∧ r.name ∉ builtinTypes
  decoder : ∀ r ∈ plan.records, IsCallable r.decoder
  counting : ∀ r ∈ plan.records, ∀ counting, r.depthDecoder = some counting → IsCallable counting
  member : ∀ r ∈ plan.records, ∀ f ∈ r.fields,
    isIdentifier f.ident.toList = true ∧ f.ident ≠ "struct" ∧ f.ident ≠ "fn"
  rule : ∀ r ∈ plan.records, ∀ f ∈ r.fields, ∀ name decoder, f.rule = .record name decoder →
    ∃ s ∈ plan.records, s.name = name ∧ s.decoder = decoder

section

variable {plan : UnitPlan} (h : Legible plan) {record : RecordPlan} (hr : record ∈ plan.records)
  {f : FieldPlan} (hf : f ∈ record.fields)

include h hr hf

theorem nestedCall_callable {name decoder : String} (he : f.rule = .record name decoder) :
    IsCallable (nestedCall plan record name decoder).function := by
  unfold nestedCall
  split
  · rename_i inner _ hinner
    obtain ⟨s, hs, hd⟩ := Option.bind_eq_some_iff.mp hinner
    exact h.counting s (List.mem_of_find?_eq_some hs) inner hd
  · obtain ⟨s, hs, _, rfl⟩ := h.rule record hr f hf name decoder he
    exact h.decoder s hs

/-- The statements that read a value have names that can be read. -/
theorem readValue_readsBack (sink : Sink) :
    ∀ s ∈ readValue plan record f sink, ReadsBack runtime s := by
  have hident := (h.member record hr f hf).1
  unfold readValue
  split
  · exact List.forall_mem_singleton.mpr (readsBack_store sink hident trivial)
  · refine List.forall_mem_singleton.mpr (readsBack_block ?_)
    simp only [List.forall_mem_cons]
    exact ⟨readsBack_bind _ _, readsBack_fill _, readsBack_store sink hident trivial, nofun⟩
  · refine List.forall_mem_singleton.mpr (readsBack_block ?_)
    simp only [List.forall_mem_cons]
    refine ⟨readsBack_bind _ _, readsBack_failIf ?_ ?_, readsBack_failIf ?_ ?_, readsBack_bind _ _,
      readsBack_failIf ?_ ?_, readsBack_bind _ _, readsBack_store sink hident trivial, ?_⟩
    all_goals nofun
  · refine List.forall_mem_singleton.mpr (readsBack_block ?_)
    simp only [List.forall_mem_cons]
    refine ⟨readsBack_bind _ _, readsBack_failIf ?_ ?_, readsBack_bind _ _, readsBack_failIf ?_ ?_,
      readsBack_store sink hident trivial, ?_⟩
    all_goals nofun
  · rename_i name decoder he
    refine List.forall_mem_singleton.mpr (readsBack_store sink hident ?_)
    exact nestedCall_callable h hr hf he

theorem readField_readsBack : ∀ s ∈ readField plan record f, ReadsBack runtime s := by
  unfold readField
  split
  · refine List.forall_mem_singleton.mpr (readsBack_block ?_)
    simp only [List.forall_mem_cons]
    refine ⟨readsBack_bind _ _, readsBack_failIf ?_ ?_,
      readsBack_loop _ (readValue_readsBack h hr hf .push), ?_⟩
    all_goals nofun
  · exact readValue_readsBack h hr hf .assign

theorem fieldBody_readsBack : ∀ s ∈ fieldBody plan record f, ReadsBack runtime s := by
  have hident := (h.member record hr f hf).1
  have hdefault : ∀ s ∈ setDefault f, ReadsBack runtime s := by
    unfold setDefault
    split
    · nofun
    · exact List.forall_mem_singleton.mpr (readsBack_store .assign hident trivial)
    · exact List.forall_mem_singleton.mpr (readsBack_store .assign hident trivial)
  have hread : ∀ s ∈ readField plan record f, ReadsBack runtime s := readField_readsBack h hr hf
  unfold fieldBody
  split
  · exact hread
  · refine List.forall_mem_singleton.mpr (readsBack_branch ?_ hread hdefault)
    nofun

end

section

variable {plan : UnitPlan} (h : Legible plan) {record : RecordPlan} (hr : record ∈ plan.records)

include h hr

/-- All statements of a decoder are read back. -/
theorem recordBody_readsBack : ∀ s ∈ recordBody plan record, ReadsBack runtime s := by
  intro s hs
  simp only [recordBody, List.cons_append, List.mem_cons, List.mem_append, List.mem_flatMap,
    List.not_mem_nil, or_false] at hs
  rcases hs with rfl | ⟨f, hf, hs⟩ | rfl
  · exact readsBack_result (h.record record hr).1
  · exact fieldBody_readsBack h hr hf s hs
  · exact readsBack_finish

/-- The functions of a record have names to be called by, and bodies that read back. -/
theorem functions_readBack {g : Function} (hg : g ∈ functions plan record) :
    IsCallable g.name ∧ isIdentifier g.returns.toList = true ∧
      ∀ s ∈ g.body, ReadsBack runtime s := by
  have hname := (h.record record hr).1
  have hbody : ∀ s ∈ recordBody plan record, ReadsBack runtime s := recordBody_readsBack h hr
  unfold functions at hg
  split at hg
  · obtain rfl := List.mem_singleton.mp hg
    exact ⟨h.decoder record hr, hname, hbody⟩
  · rename_i counting hd
    have hcount := h.counting record hr counting hd
    rcases List.mem_pair.mp hg with rfl | rfl
    · exact ⟨h.decoder record hr, hname, List.forall_mem_singleton.mpr (readsBack_delegate hcount)⟩
    · exact ⟨hcount, hname, List.forall_mem_cons.mpr ⟨readsBack_levelCheck, hbody⟩⟩

theorem memberDef_readable {f : FieldPlan} (hf : f ∈ record.fields) : (memberDef f).IsReadable := by
  obtain ⟨hident, hstruct, hfn⟩ := h.member record hr f hf
  refine ⟨hident, hstruct, hfn, ?_, memberAbout_notes f⟩
  cases he : f.rule with
  | primitive kind => simp [memberDef, he, Rule.base, IsReadableType]
  | record name decoder =>
    obtain ⟨s, hs, rfl, _⟩ := h.rule record hr f hf name decoder he
    simpa [memberDef, he, Rule.base, IsReadableType] using h.record s hs

/-- The struct of a record, its descriptions being passed over. -/
theorem holds_shape : Holds runtime (Emit.shape record) ⟨⟨[struct record], []⟩, []⟩ := by
  have hlint : Silent [.line "#[allow(non_snake_case, non_camel_case_types)]"] :=
    silent_lint rfl rfl
  have hmembers : ∀ m ∈ record.fields.map memberDef, m.IsReadable := by
    intro m hm
    obtain ⟨f, hf, rfl⟩ := List.mem_map.mp hm
    exact memberDef_readable h hr hf
  have hstruct : struct record =
      ⟨record.name, (record.fields.map memberDef).map MemberDef.toMember⟩ := by
    rw [List.map_map]
    rfl
  rw [Emit.shape_eq, hstruct]
  exact (holds_struct (h.record record hr).1 hmembers).after hlint

theorem holds_decoder :
    Holds runtime (Emit.decoder plan record runtime) ⟨⟨[], functions plan record⟩, []⟩ := by
  have hnote : IsNote
      s!"/// Decode `{record.name}` for protocol `version`, advancing `buf` past it." := by
    have hname := unbroken_of_isIdentifier (h.record record hr).1
    refine ⟨'/' :: " Decode `".toList ++ record.name.toList ++
      "` for protocol `version`, advancing `buf` past it.".toList, ?_, ?_⟩
    · simp only [toString, String.toList_append]
      rfl
    · simp [hname]
  rw [Emit.decoder_eq]
  refine (holds_functions fun g hg => ?_).after (silent_note hnote)
  obtain ⟨hcall, hreturns, hbody⟩ := functions_readBack h hr hg
  exact ⟨hcall.identifier, hreturns, hbody⟩

/-- The lines of a record behind its description. -/
def passage (plan : UnitPlan) (record : RecordPlan) (runtime : String) : List Mark :=
  Emit.shape record ++ .blank :: Emit.decoder plan record runtime

/-- What is emitted for a record behind its description holds its struct and its functions. -/
theorem holds_passage :
    Holds runtime (passage plan record runtime) ⟨⟨[struct record], functions plan record⟩, []⟩ :=
  (holds_shape h hr).append ((holds_decoder h hr).after silent_blank)

end

/-- What a text holds is what is read from it. -/
theorem Holds.readSource {marks : List Mark} {d : Contents} (h : Holds runtime marks d) :
    readSource runtime (layout marks).toList = some d := by
  obtain ⟨ps, hcut, hlead⟩ := h 0
  have hpieces : pieces runtime (textFrom 0 marks) = some ps := by
    have hnil (fuel : Nat) : piecesFrom runtime fuel [] = some [] := by
      unfold piecesFrom
      rfl
    have hall := hcut.cut [] ((textFrom 0 marks).length - ps.length) [] (hnil _)
    rwa [List.append_nil, List.append_nil, Nat.add_sub_cancel' hcut.short] at hall
  have hend : ps.foldlM Reading.step .start = some ⟨d, .nothing⟩ := hlead .empty
  rw [layout_toList, Source.readSource, hpieces]
  simp [hend]

end

end WireSchema.Source

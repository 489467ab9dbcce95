import WireSchema.Proofs.CodeLines
import WireSchema.Proofs.JsonGrammar

/-!
Comment lines do not count. No word of a JSON text goes over the end of a line and none starts with
a slash, so that no line of the text is a comment, and its tokens are those of its lines in a row.
Comment lines put in move the tokens to other lines and leave them as they are.
-/

namespace WireSchema

open Json

namespace Text

/-! ## Lines -/

def onFirst (w : List Char) : List (List Char) → List (List Char)
  | [] => [w]
  | line :: rest => (w ++ line) :: rest

/-- The lines of a text as they stand, without the line feeds that end them. The last line may end
with the text. -/
def rawLines : List Char → List (List Char)
  | [] => []
  | '\n' :: rest => [] :: rawLines rest
  | c :: rest => onFirst [c] (rawLines rest)

theorem rawLines_cons {c : Char} (h : c ≠ '\n') (s : List Char) :
    rawLines (c :: s) = onFirst [c] (rawLines s) := by
  rw [rawLines]
  exact h

theorem onFirst_cons (c : Char) (w : List Char) (ls : List (List Char)) :
    onFirst [c] (onFirst w ls) = onFirst (c :: w) ls := by
  cases ls <;> rfl

theorem rawLines_append {w : List Char} (hw : w ≠ []) (h : '\n' ∉ w) (s : List Char) :
    rawLines (w ++ s) = onFirst w (rawLines s) := by
  induction w with
  | nil => exact absurd rfl hw
  | cons c w ih =>
    obtain ⟨hc, h⟩ := not_or.mp (mt List.mem_cons.mpr h)
    rw [List.cons_append, rawLines_cons (Ne.symm hc)]
    cases w with
    | nil => rfl
    | cons d w => rw [ih (List.cons_ne_nil d w) h, onFirst_cons]

theorem rawLines_newline {w : List Char} (h : '\n' ∉ w) (s : List Char) :
    rawLines (w ++ '\n' :: s) = w :: rawLines s := by
  cases w with
  | nil => rfl
  | cons c w => rw [rawLines_append (List.cons_ne_nil c w) h, rawLines, onFirst, List.append_nil]

theorem rawLines_head {s l : List Char} (h : l ∈ (rawLines s).head?) : l <+: s := by
  fun_induction rawLines s generalizing l with
  | case1 => cases h
  | case2 rest ih =>
    cases h
    exact List.nil_prefix
  | case3 c rest hne ih =>
    cases hlines : rawLines rest with
    | nil =>
      rw [hlines] at h
      cases h
      exact List.prefix_append [c] rest
    | cons first others =>
      rw [hlines] at h ih
      cases h
      exact List.cons_prefix_cons.mpr ⟨rfl, ih rfl⟩

/-- A line loses nothing but one carriage return at its end. -/
theorem dropReturn_cases (s : List Char) : dropReturn s = s ∨ s = dropReturn s ++ ['\r'] := by
  fun_induction dropReturn s with
  | case1 => exact .inl rfl
  | case2 => exact .inr rfl
  | case3 c rest _ ih =>
    rcases ih with ih | ih
    · exact .inl (congrArg (c :: ·) ih)
    · exact .inr (congrArg (c :: ·) ih)

theorem dropReturn_append (a : List Char) {b : List Char} (hb : b ≠ []) :
    dropReturn (a ++ b) = a ++ dropReturn b := by
  induction a with
  | nil => rfl
  | cons c a ih =>
    rw [List.cons_append, dropReturn, ih, List.cons_append]
    simp [hb]

/-- A line is what stands in the text, or that without the carriage return at its end. -/
def IsLine (raw line : List Char) : Prop := line = raw ∨ line = dropReturn raw

/-- The part of the current line that is read already stands in front of the rest. -/
theorem linesFrom_rawLines {current s : List Char} (h : '\n' ∉ current) :
    List.Forall₂ IsLine (rawLines (current.reverse ++ s)) (linesFrom current s) := by
  fun_induction linesFrom current s with
  | case1 current hempty =>
    rw [List.isEmpty_iff.mp hempty]
    exact .nil
  | case2 current hempty =>
    have hne : current.reverse ≠ [] := by simpa using hempty
    rw [rawLines_append hne (by simpa using h)]
    exact .cons (.inl rfl) .nil
  | case3 current rest ih =>
    rw [rawLines_newline (by simpa using h)]
    exact .cons (.inr rfl) (ih (by simp))
  | case4 current c rest hne ih =>
    have hnot : '\n' ∉ c :: current := by
      simp only [List.mem_cons, not_or]
      exact ⟨fun he => hne he.symm, h⟩
    simpa using ih hnot

/-- The lines of a text are its raw lines, up to a carriage return at the end of each. -/
theorem lines_rawLines (s : List Char) : List.Forall₂ IsLine (rawLines s) (lines s) := by
  have h : List.Forall₂ IsLine (rawLines ([].reverse ++ s)) (linesFrom [] s) :=
    linesFrom_rawLines (by simp)
  exact h

theorem linesFrom_newline {current l : List Char} (h : '\n' ∉ l) (s : List Char) :
    linesFrom current (l ++ '\n' :: s) = dropReturn (current.reverse ++ l) :: linesFrom [] s := by
  induction l generalizing current with
  | nil => rw [List.nil_append, linesFrom, List.append_nil]
  | cons c l ih =>
    obtain ⟨hc, h⟩ := not_or.mp (mt List.mem_cons.mpr h)
    rw [List.cons_append, linesFrom, ih h, List.reverse_cons, List.append_assoc,
      List.singleton_append]
    exact Ne.symm hc

/-- Lines that line feeds end are the lines of the text that they make up. -/
theorem lines_flatMap {ls : List (List Char)} (h : ∀ l ∈ ls, '\n' ∉ l) :
    lines (ls.flatMap fun l => l ++ ['\n']) = ls.map dropReturn := by
  induction ls with
  | nil => rfl
  | cons l ls ih =>
    obtain ⟨hl, h⟩ := List.forall_mem_cons.mp h
    rw [List.flatMap_cons, List.append_assoc, List.singleton_append, lines,
      linesFrom_newline hl, List.map_cons, ← ih h]
    rfl

end Text

open Text (rawLines)

/-- Stripping comments gives one line for each: the line, or an empty one for a comment. -/
theorem lines_stripComments (s : List Char) :
    Text.lines (stripComments s) =
      (Text.lines s).map fun l => if isComment l then [] else Text.dropReturn l := by
  have hflat : stripComments s =
      ((Text.lines s).map fun l => if isComment l then [] else l).flatMap fun l => l ++ ['\n'] := by
    rw [List.flatMap_map]
    rfl
  rw [hflat, Text.lines_flatMap, List.map_map]
  · apply List.map_congr_left
    intro l _
    simp only [Function.comp_apply]
    split <;> rfl
  · intro l hl
    obtain ⟨line, hline, rfl⟩ := List.mem_map.mp hl
    split
    · exact List.not_mem_nil
    · exact Text.linesFrom_not_mem (by simp) line hline

/-! ## Rows of words and their lines -/

theorem isComment_cons_of_blank {c : Char} (h : Text.isBlank c = true) (s : List Char) :
    isComment (c :: s) = isComment s := by
  rw [isComment, isComment, Text.trimStart, List.dropWhile_cons_of_pos h]
  rfl

theorem isComment_cons_of_plain {c : Char} (h : Text.isBlank c = false) (hc : c ≠ '/')
    (s : List Char) : isComment (c :: s) = false := by
  rw [isComment, Text.trimStart, List.dropWhile_cons_of_neg (by simp [h])]
  split
  · rename_i heq
    exact absurd (List.cons.inj heq).1 hc
  · rfl

namespace Json

variable {s : List Char} {ts : List Token}

/-- No token starts with a slash, so a line of words and spaces is no comment. -/
theorem Worded.not_comment (h : Worded s ts) : isComment s = false := by
  induction h with
  | nil => rfl
  | space space tail ih => rw [isComment_cons_of_blank (isBlank_of_space space), ih]
  | mark mark tail ih =>
    obtain ⟨hblank, hc, _⟩ := mark_plain mark
    exact isComment_cons_of_plain hblank hc _
  | word word parted tail ih =>
    obtain ⟨c, w, rfl, hblank, hc, _⟩ := word.scans
    exact isComment_cons_of_plain hblank hc _

/-- Words of two texts stand one after the other, unless a number of the first goes on in the
second. -/
theorem Worded.append {t : List Char} {us : List Token} (hs : Worded s ts) (ht : Worded t us)
    (hp : Parted t) : Worded (s ++ t) (ts ++ us) := by
  induction hs with
  | nil => exact ht
  | space space tail ih => exact .space space ih
  | mark mark tail ih => exact .mark mark ih
  | word word parted tail ih =>
    rw [List.append_assoc]
    exact .word word (parted.append hp) ih

/-- The carriage return at the end of a line is a space. -/
theorem Worded.of_return (h : Worded (s ++ ['\r']) ts) : Worded s ts := by
  generalize hr : s ++ ['\r'] = r at h
  induction h generalizing s with
  | nil => simp at hr
  | space space tail ih =>
    cases s with
    | nil =>
      cases hr
      exact tail
    | cons c s =>
      obtain ⟨rfl, hrest⟩ := List.cons.inj hr
      exact .space space (ih hrest)
  | mark mark tail ih =>
    cases s with
    | nil =>
      cases hr
      cases mark
    | cons c s =>
      obtain ⟨rfl, hrest⟩ := List.cons.inj hr
      exact .mark mark (ih hrest)
  | @word w rest t us word parted tail ih =>
    have hreturn : '\r' ∉ w := fun hm => (word.unbroken _ hm).2 rfl
    rcases List.append_eq_append_iff.mp hr with ⟨a, rfl, ha⟩ | ⟨a, rfl, ha⟩
    · -- the carriage return is the end of the word, or alone
      rcases List.singleton_eq_append_iff.mp ha with ⟨rfl, rfl⟩ | ⟨rfl, rfl⟩
      · have hnil := ih (s := []) rfl
        rw [← List.append_nil s]
        exact .word (by simpa using word) parted_nil hnil
      · simp at hreturn
    · subst ha
      exact .word word (parted.of_prefix (List.prefix_append a ['\r'])) (ih rfl)

theorem Worded.isLine {line : List Char} (h : Worded s ts) (hl : Text.IsLine s line) :
    Worded line ts := by
  rcases hl with rfl | rfl
  · exact h
  · rcases Text.dropReturn_cases s with hs | hs
    · rwa [hs]
    · rw [hs] at h
      exact h.of_return

/-- A word in front of the first of some rows. -/
theorem worded_onFirst {w : List Char} {front : List Token} {ls : List (List Char)}
    {tss : List (List Token)} (h : List.Forall₂ Worded ls tss) (hw : Worded w front)
    (hfirst : ∀ l ∈ ls.head?, ∀ us, Worded l us → Worded (w ++ l) (front ++ us)) :
    ∃ vss, List.Forall₂ Worded (Text.onFirst w ls) vss ∧ vss.flatten = front ++ tss.flatten := by
  cases h with
  | nil => exact ⟨[front], .cons hw .nil, by simp⟩
  | @cons l us ls tss hl hrest =>
    exact ⟨(front ++ us) :: tss, .cons (hfirst l rfl us hl) hrest, by simp⟩

/-- The lines of a row of words are rows of words, with its tokens in a row. -/
theorem Worded.rawLines (h : Worded s ts) :
    ∃ tss, List.Forall₂ Worded (rawLines s) tss ∧ tss.flatten = ts := by
  induction h with
  | nil => exact ⟨[], .nil, rfl⟩
  | @space c s ts space tail ih =>
    obtain ⟨tss, hlines, rfl⟩ := ih
    by_cases hc : c = '\n'
    · subst hc
      exact ⟨[] :: tss, .cons .nil hlines, rfl⟩
    · rw [Text.rawLines_cons hc]
      exact worded_onFirst hlines (.space space .nil) fun l _ us hl => .space space hl
  | @mark c t s ts mark tail ih =>
    obtain ⟨tss, hlines, rfl⟩ := ih
    obtain ⟨hblank, _, _⟩ := mark_plain mark
    rw [Text.rawLines_cons (not_space_of_not_blank hblank).1]
    exact worded_onFirst hlines (.mark mark .nil) fun l _ us hl => .mark mark hl
  | @word w s t ts word parted tail ih =>
    obtain ⟨tss, hlines, rfl⟩ := ih
    have hne : w ≠ [] := by
      obtain ⟨c, rest, rfl, _⟩ := word.scans
      exact List.cons_ne_nil c rest
    have hw : Worded w [t] := by
      rw [← List.append_nil w]
      exact .word word parted_nil .nil
    rw [Text.rawLines_append hne fun hm => (word.unbroken _ hm).1 rfl]
    refine worded_onFirst hlines hw ?_
    intro l hl us hus
    exact .word word (parted.of_prefix (Text.rawLines_head hl)) hus

end Json

/-! ## Comment lines put in -/

/-- Some lines with comment lines put in: before, between and behind them. -/
inductive Commented : List (List Char) → List (List Char) → Prop
  | nil : Commented [] []
  | line {l : List Char} {ls ls' : List (List Char)} (tail : Commented ls ls') :
      Commented (l :: ls) (l :: ls')
  | comment (blanks text : List Char) {ls ls' : List (List Char)}
      (blank : ∀ c ∈ blanks, Text.isBlank c = true) (tail : Commented ls ls') :
      Commented ls ((blanks ++ '/' :: '/' :: text) :: ls')

theorem commented_refl (ls : List (List Char)) : Commented ls ls := by
  induction ls with
  | nil => exact .nil
  | cons l ls ih => exact .line ih

theorem isComment_of_isLine {blanks text line : List Char}
    (hb : ∀ c ∈ blanks, Text.isBlank c = true)
    (h : Text.IsLine (blanks ++ '/' :: '/' :: text) line) : isComment line = true := by
  rcases h with rfl | rfl
  · exact isComment_of_blank hb text
  · have hdrop : Text.dropReturn (blanks ++ '/' :: '/' :: text) =
        blanks ++ '/' :: '/' :: Text.dropReturn text := by
      rw [Text.dropReturn_append _ (List.cons_ne_nil _ _)]
      rfl
    rw [hdrop]
    exact isComment_of_blank hb _

/-- Taking comments out gives the words of the lines that were there before they were put in,
whatever stands in the comments. -/
theorem Commented.worded {ls raws found : List (List Char)} {tss : List (List Token)}
    (h : Commented ls raws) (hw : List.Forall₂ Worded ls tss)
    (hl : List.Forall₂ Text.IsLine raws found) :
    Worded (found.flatMap fun l => (if isComment l then [] else l) ++ ['\n']) tss.flatten := by
  have hnewline (s : List Char) : Parted ('\n' :: s) := parted_cons.mpr (by decide)
  induction h generalizing tss found with
  | nil =>
    cases hl
    cases hw
    exact .nil
  | line tail ih =>
    cases hw with
    | cons hword hwords =>
      cases hl with
      | cons hline hlines =>
        have hworded := hword.isLine hline
        simp only [List.flatMap_cons, hworded.not_comment, Bool.false_eq_true, if_false,
          List.flatten_cons, List.append_assoc, List.singleton_append]
        exact hworded.append (.space (by simp) (ih hwords hlines)) (hnewline _)
  | comment blanks text blank tail ih =>
    cases hl with
    | cons hline hlines =>
      simp only [List.flatMap_cons, isComment_of_isLine blank hline, if_true, List.nil_append,
        List.singleton_append]
      exact .space (by simp) (ih hw hlines)

/-- A row of words with comment lines put in, stripped of them, has the tokens of the row. -/
theorem stripComments_worded {s s' : List Char} {ts : List Token} (h : Worded s ts)
    (hc : Commented (rawLines s) (rawLines s')) : Worded (stripComments s') ts := by
  obtain ⟨tss, hlines, rfl⟩ := h.rawLines
  exact hc.worded hlines (Text.lines_rawLines s')

/-! ## Loading -/

def Message.ofText (s : List Char) : Except LoadError Message :=
  match MessageDoc.parse s with
  | .error f => .error (.json f)
  | .ok doc => doc.toMessage

/-- Loading reads the text without its comments, and never the comments themselves. -/
theorem Message.load_eq (text : String) :
    Message.load text = Message.ofText (stripComments text.toList) := rfl

/-- The error without the line in which a document is at fault. -/
def LoadError.unplaced : LoadError → LoadError
  | json f => json (f.mapLine fun _ => 0)
  | e => e

/-- Texts with the same words give the same message or the same kind of error. -/
theorem Message.ofText_worded {s t : List Char} {ts : List Token} (hs : Worded s ts)
    (ht : Worded t ts) :
    (Message.ofText s).mapError LoadError.unplaced =
      (Message.ofText t).mapError LoadError.unplaced := by
  have hunplaced {s : List Char} (h : Worded s ts) :
      (MessageDoc.parse s).mapError (Fault.mapLine fun _ => 0) =
        MessageDoc.ofTokens 0 (ts.map (Located.mk 0)) := by
    rw [MessageDoc.parse_eq, ← MessageDoc.ofTokens_mapLine, tokens, h.tokens 1]
  have hparse := (hunplaced hs).trans (hunplaced ht).symm
  unfold Message.ofText
  cases hps : MessageDoc.parse s with
  | error f =>
    cases hpt : MessageDoc.parse t with
    | error f' =>
      rw [hps, hpt] at hparse
      exact congrArg (fun f => Except.error (LoadError.json f)) (Except.error.inj hparse)
    | ok doc => rw [hps, hpt] at hparse; cases hparse
  | ok doc =>
    cases hpt : MessageDoc.parse t with
    | error f => rw [hps, hpt] at hparse; cases hparse
    | ok doc' =>
      rw [hps, hpt] at hparse
      cases hparse
      rfl

/-- A text that is JSON loads as if comments were not looked for, and comment lines before, between
and behind its lines do not change what it loads as: the message, the default that is not
supported, or the kind of fault. Stripping comments keeps every line in its place. -/
theorem load_comments (text : String) :
    (IsText text.toList →
      (Message.load text).mapError LoadError.unplaced =
          (Message.ofText text.toList).mapError LoadError.unplaced ∧
        ∀ text' : String, Commented (rawLines text.toList) (rawLines text'.toList) →
          (Message.load text').mapError LoadError.unplaced =
            (Message.load text).mapError LoadError.unplaced) ∧
    Text.lines (stripComments text.toList) =
      (Text.lines text.toList).map fun l => if isComment l then [] else Text.dropReturn l := by
  refine ⟨?_, lines_stripComments text.toList⟩
  intro htext
  obtain ⟨ts, hworded⟩ := htext.worded
  have hstripped := stripComments_worded hworded (commented_refl _)
  constructor
  · rw [Message.load_eq]
    exact Message.ofText_worded hstripped hworded
  · intro text' hcommented
    rw [Message.load_eq, Message.load_eq]
    exact Message.ofText_worded (stripComments_worded hworded hcommented) hstripped

namespace Samples

/-- A document with slashes in a string, whose lines end with carriage returns. -/
def slashes : String := "\x7b\"name\":\r\n\"//\"\x7d\r"

def slashesCommented : String := "\x7b\"name\":\r\n\t//\"\n\"//\"\x7d\r\n// end"

theorem isText_slashes : IsText slashes.toList := by
  have plain {c : Char} {s : List Char} (hc : ' ' ≤ c ∧ c ≠ '"' ∧ c ≠ '\\') (hs : Chars s) :
      Chars (c :: s) := .plain hc.1 hc.2.1 hc.2.2 hs
  have hname : Chars ['n', 'a', 'm', 'e'] :=
    plain (by decide) (plain (by decide) (plain (by decide) (plain (by decide) .nil)))
  have hslashes : Chars ['/', '/'] := plain (by decide) (plain (by decide) .nil)
  have hvalue := Phrase.Writes.element (a := ['\r', '\n']) (b := []) (by simp [Spaces])
    (.string hslashes) (by simp [Spaces])
  have hmember := Phrase.Writes.member (a := []) (b := []) (by simp [Spaces]) hname
    (by simp [Spaces]) hvalue
  exact .element (a := []) (b := ['\r']) (by simp [Spaces]) (.object (.lastMember hmember))
    (by simp [Spaces])

theorem commented_slashes :
    Commented (rawLines slashes.toList) (rawLines slashesCommented.toList) :=
  .line (.comment ['\t'] ['"'] (by simp [Text.isBlank])
    (.line (.comment [] [' ', 'e', 'n', 'd'] (by simp) .nil)))

end Samples

theorem load_comments_slashes :
    IsText Samples.slashes.toList ∧
      Commented (rawLines Samples.slashes.toList) (rawLines Samples.slashesCommented.toList) ∧
      (Message.load Samples.slashesCommented).mapError LoadError.unplaced =
        (Message.ofText Samples.slashes.toList).mapError LoadError.unplaced := by
  obtain ⟨hplain, hcomments⟩ := (load_comments Samples.slashes).1 Samples.isText_slashes
  exact ⟨Samples.isText_slashes, Samples.commented_slashes,
    (hcomments _ Samples.commented_slashes).trans hplain⟩

end WireSchema

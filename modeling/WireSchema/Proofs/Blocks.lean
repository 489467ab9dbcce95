import Mathlib.Data.List.Infix
import WireSchema.Source.Emit

/-!
Blocks of the emitted source. Marks are balanced if from any depth on they end no block that was
open before them, and the depth behind them is the one before them. What is emitted for a plan is
balanced, and so is what each function of the emitter gives: each of them follows the depth through
its marks one by one.
-/

namespace WireSchema.Source

def Mark.closes : Mark → Bool
  | line _ => false
  | blank => false
  | opening _ => false
  | reopening _ => true
  | closing _ => true

/-- From a depth on, every mark that ends a block stands where more than `base` blocks are open. -/
def ClosesAbove (base depth : Nat) (marks : List Mark) : Prop :=
  ∀ front m back, marks = front ++ m :: back → m.closes = true →
    base < front.foldl Mark.depthAfter depth

theorem closesAbove_cons {base depth : Nat} {m : Mark} {rest : List Mark} :
    ClosesAbove base depth (m :: rest) ↔
      (m.closes = true → base < depth) ∧ ClosesAbove base (m.depthAfter depth) rest := by
  constructor
  · intro h
    exact ⟨h [] m rest rfl, fun front n back he => h (m :: front) n back (congrArg (m :: ·) he)⟩
  · rintro ⟨hm, hrest⟩ front n back he hn
    cases front with
    | nil =>
      obtain ⟨rfl, _⟩ := List.cons.inj he
      exact hm hn
    | cons k front =>
      obtain ⟨rfl, htail⟩ := List.cons.inj he
      exact hrest front n back htail hn

/-- Marks lead from one depth to another, and end no block among the first `base`. -/
structure Walks (base first last : Nat) (marks : List Mark) : Prop where
  closes : ClosesAbove base first marks
  ends : marks.foldl Mark.depthAfter first = last

/-- Marks that from a depth on end no block that was open before them, and leave none of their own
open. -/
def Balanced (depth : Nat) (marks : List Mark) : Prop := Walks depth depth depth marks

namespace Walks

variable {base first last depth : Nat} {rest xs ys : List Mark}

theorem nil : Walks base depth depth [] := ⟨by simp [ClosesAbove], rfl⟩

theorem cons {m : Mark} (hm : m.closes = true → base < first)
    (h : Walks base (m.depthAfter first) last rest) : Walks base first last (m :: rest) :=
  ⟨closesAbove_cons.mpr ⟨hm, h.closes⟩, h.ends⟩

theorem line (text : String) (h : Walks base first last rest) :
    Walks base first last (.line text :: rest) := h.cons nofun

theorem blank (h : Walks base first last rest) : Walks base first last (.blank :: rest) :=
  h.cons nofun

theorem opening (text : String) (h : Walks base (first + 1) last rest) :
    Walks base first last (.opening text :: rest) := h.cons nofun

theorem reopening (text : String) (hb : base ≤ first) (h : Walks base (first + 1) last rest) :
    Walks base (first + 1) last (.reopening text :: rest) :=
  h.cons fun _ => Nat.lt_succ_of_le hb

theorem closing (text : String) (hb : base ≤ first) (h : Walks base first last rest) :
    Walks base (first + 1) last (.closing text :: rest) :=
  h.cons fun _ => Nat.lt_succ_of_le hb

theorem append {mid : Nat} (h : Walks base first mid xs) (h' : Walks base mid last ys) :
    Walks base first last (xs ++ ys) := by
  induction xs generalizing first with
  | nil =>
    obtain rfl : first = mid := h.ends
    exact h'
  | cons m xs ih =>
    obtain ⟨hm, hclose⟩ := closesAbove_cons.mp h.closes
    exact (ih ⟨hclose, h.ends⟩).cons hm

end Walks

/-- Behind a block that was opened, balanced marks do not reach the blocks around it. -/
theorem Balanced.inside {depth base : Nat} {marks : List Mark} (h : Balanced depth marks)
    (hb : base ≤ depth) : Walks base depth depth marks :=
  ⟨fun front m back he hm => Nat.lt_of_le_of_lt hb (h.closes front m back he hm), h.ends⟩

theorem balanced_lines (texts : List String) (depth : Nat) : Balanced depth (texts.map .line) := by
  induction texts with
  | nil => exact .nil
  | cons text rest ih => exact ih.line text

/-- Pieces that are balanced at one depth are balanced together, since each ends where it
started. -/
theorem balanced_flatMap {α : Type} {xs : List α} {f : α → List Mark} {depth : Nat}
    (h : ∀ x ∈ xs, Balanced depth (f x)) : Balanced depth (xs.flatMap f) := by
  induction xs with
  | nil => exact .nil
  | cons x rest ih =>
    rw [List.flatMap_cons]
    exact (h x List.mem_cons_self).append (ih fun y hy => h y (List.mem_cons_of_mem _ hy))

/-! ## The functions of the emitter -/

namespace Emit

open Walks

variable (plan : UnitPlan) (record : RecordPlan) (f : FieldPlan) (depth : Nat)

theorem remainingCheck_balanced : Balanced depth remainingCheck :=
  .opening _ (.line _ (.closing _ (Nat.le_refl _) .nil))

/-- Each block that reading a value opens is closed behind it. -/
theorem value_balanced (sink : Sink) : Balanced depth (value plan record f sink) := by
  have hcheck := (remainingCheck_balanced (depth + 1)).inside (Nat.le_succ depth)
  have hle : depth ≤ depth := Nat.le_refl _
  have hin : depth ≤ depth + 1 := Nat.le_succ _
  unfold value
  split
  case h_1 | h_2 | h_3 | h_4 => exact .line _ .nil
  case h_5 => exact .opening _ (.line _ (.line _ (.line _ (.closing _ hle .nil))))
  case h_6 =>
    refine .append (.append ?_ hcheck) (.line _ (.line _ (.closing _ hle .nil)))
    exact .opening _ (.line _ (.opening _ (.line _ (.closing _ hin (.opening _ (.line _
      (.closing _ hin (.line _ .nil))))))))
  case h_7 =>
    refine .append (.append ?_ hcheck) (.line _ (.closing _ hle .nil))
    exact .opening _ (.line _ (.opening _ (.line _ (.closing _ hin (.line _ .nil)))))
  case h_8 => exact .line _ .nil

/-- A field that is no array is read without a block around it. -/
theorem read_balanced : Balanced depth (read plan record f) := by
  have hvalue := (value_balanced plan record f (depth + 2) .push).inside (Nat.le_add_right depth 2)
  unfold read
  split
  · exact value_balanced plan record f depth .assign
  · have hclose : Walks depth (depth + 2) depth [.closing "\x7d", .closing "\x7d"] :=
      .closing _ (Nat.le_succ _) (.closing _ (Nat.le_refl _) .nil)
    refine .append (.append ?_ hvalue) hclose
    exact .opening _ (.line _ (.opening _ (.line _ (.closing _ (Nat.le_succ _) (.opening _ .nil)))))

/-- A guard opens a block, which has a second part if there is a default. -/
theorem field_balanced : Balanced depth (field plan record f) := by
  have hread := (read_balanced plan record f (depth + 1)).inside (Nat.le_succ depth)
  have hclose : Walks depth (depth + 1) depth [.closing "\x7d"] :=
    .closing _ (Nat.le_refl _) .nil
  unfold field
  split
  · exact read_balanced plan record f depth
  · refine .append (.append (.opening _ hread) ?_) hclose
    split
    · exact .reopening _ (Nat.le_refl _) (.line _ .nil)
    · exact .nil

theorem body_balanced : Balanced depth (body plan record) :=
  .line _ (.append (balanced_flatMap fun f _ => field_balanced plan record f depth) (.line _ .nil))

/-- A decoder that counts levels is two functions, and one that does not is one. -/
theorem decoder_balanced (runtime : String) : Balanced depth (decoder plan record runtime) := by
  have hbody := (body_balanced plan record (depth + 1)).inside (Nat.le_succ depth)
  have hclose : Walks depth (depth + 1) depth [.closing "\x7d"] :=
    .closing _ (Nat.le_refl _) .nil
  unfold decoder
  refine .line _ ?_
  split
  · exact .line _ (.append (.opening _ hbody) hclose)
  · refine .append (.append ?_ hbody) hclose
    exact .line _ (.opening _ (.line _ (.closing _ (Nat.le_refl _) (.blank (.line _ (.opening _
      (.opening _ (.line _ (.closing _ (Nat.le_succ _) .nil)))))))))

theorem shape_balanced : Balanced depth (shape record) := by
  have hmembers : Balanced (depth + 1) (record.fields.flatMap fun f =>
      (memberAbout f).map .line ++ [.line s!"pub {f.ident}: {f.typeName},"]) :=
    balanced_flatMap fun f _ => (balanced_lines (memberAbout f) _).append (.line _ .nil)
  have hinside := hmembers.inside (Nat.le_succ depth)
  refine .append (.append ?_ hinside) (.closing _ (Nat.le_refl _) .nil)
  exact .line _ (.line _ (.opening _ .nil))

theorem struct_balanced : Balanced depth (struct plan record) :=
  (balanced_lines (recordAbout plan record) depth).append (shape_balanced record depth)

theorem head_balanced (options : CompileOptions) : Balanced depth (head plan options) := by
  have huses := balanced_lines
    (plan.facilities.toList.map fun f => s!"use {options.runtime}::{f.item};") depth
  rw [List.map_map] at huses
  refine .append (.line _ (.line _ .nil)) ?_
  split
  · exact .nil
  · exact huses.blank

/-- The source of a unit, from its header to its last decoder, leaves no block open. -/
theorem unit_balanced (options : CompileOptions) : Balanced depth (unit plan options) := by
  refine (head_balanced plan depth options).append (balanced_flatMap fun r _ => ?_)
  exact .blank ((struct_balanced plan r depth).append
    (.blank (decoder_balanced plan r depth options.runtime)))

end Emit

/-! ## Where the parts stand -/

/-- What stands for one member of a list stands in one piece among what stands for all. -/
theorem infix_flatMap_of_mem {α β : Type} {x : α} {xs : List α} (h : x ∈ xs) (f : α → List β) :
    f x <:+: xs.flatMap f := by
  simpa using ((List.singleton_infix_iff x xs).mpr h).flatMap f

namespace Emit

variable {plan : UnitPlan} {record : RecordPlan} {f : FieldPlan}

theorem record_within (hr : record ∈ plan.records) (options : CompileOptions) :
    .blank :: struct plan record ++ .blank :: decoder plan record options.runtime <:+:
      unit plan options :=
  (infix_flatMap_of_mem hr fun r =>
    .blank :: struct plan r ++ .blank :: decoder plan r options.runtime).trans
      (List.suffix_append _ _).isInfix

theorem struct_within (hr : record ∈ plan.records) (options : CompileOptions) :
    struct plan record <:+: unit plan options := by
  refine List.IsInfix.trans ?_ (record_within hr options)
  exact ⟨[.blank], .blank :: decoder plan record options.runtime, rfl⟩

theorem decoder_within (hr : record ∈ plan.records) (options : CompileOptions) :
    decoder plan record options.runtime <:+: unit plan options := by
  refine List.IsInfix.trans (List.IsSuffix.isInfix ?_) (record_within hr options)
  exact (List.suffix_cons _ _).trans (List.suffix_append _ _)

theorem body_within (plan : UnitPlan) (record : RecordPlan) (runtime : String) :
    body plan record <:+: decoder plan record runtime := by
  unfold decoder
  refine List.IsInfix.trans ?_ (List.suffix_cons _ _).isInfix
  split
  · exact List.infix_append [_, _] _ _
  · exact List.infix_append _ _ _

theorem field_within (hf : f ∈ record.fields) : field plan record f <:+: body plan record :=
  (infix_flatMap_of_mem hf (field plan record)).trans (List.infix_append [_] _ _)

/-- A field is read inside its guard, or without one. -/
theorem read_within (plan : UnitPlan) (record : RecordPlan) (f : FieldPlan) :
    read plan record f <:+: field plan record f := by
  unfold field
  split
  · exact List.infix_rfl
  · rw [List.append_assoc]
    exact List.infix_append [_] _ _

theorem value_within (plan : UnitPlan) (record : RecordPlan) (f : FieldPlan) :
    value plan record f (if f.isArray then .push else .assign) <:+: read plan record f := by
  unfold read
  cases f.isArray with
  | false => exact List.infix_rfl
  | true => exact List.infix_append _ _ _

/-- What is written for a field stands in one piece in the unit. -/
theorem field_within_unit (hr : record ∈ plan.records) (hf : f ∈ record.fields)
    (options : CompileOptions) : field plan record f <:+: unit plan options :=
  ((field_within hf).trans (body_within plan record options.runtime)).trans
    (decoder_within hr options)

end Emit

end WireSchema.Source

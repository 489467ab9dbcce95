import WireSchema.Proofs.Blocks
import WireSchema.Proofs.Emission

/-!
Emitting a unit keeps the balance of its blocks. A writer that refuses to close a block where none
is open, and to end inside one, writes the unit of any plan, and each passage of it leaves the
writer at the depth at which it started.
-/

namespace WireSchema

namespace Source

/-! ## A writer that checks its blocks -/

inductive Imbalance where
  /-- A block is closed where none is open. -/
  | unbalancedClose
  /-- A block is open at the end. -/
  | unclosedBlock
  deriving DecidableEq, Repr

/-- A writer of lines: its text so far, and how many blocks are open. -/
structure Writer where
  text : String
  depth : Nat
  deriving DecidableEq, Repr

namespace Writer

def start : Writer := ⟨"", 0⟩

def line (w : Writer) (text : String) : Writer := ⟨w.text ++ indented w.depth text, w.depth⟩

def enter (w : Writer) : Writer := ⟨w.text, w.depth + 1⟩

/-- Leaves a block, which has to be open, and writes a line behind it. -/
def close (w : Writer) (text : String) : Except Imbalance Writer :=
  match w.depth with
  | 0 => .error .unbalancedClose
  | depth + 1 => .ok (line ⟨w.text, depth⟩ text)

def write (w : Writer) : Mark → Except Imbalance Writer
  | .line text => .ok (w.line text)
  | .blank => .ok (w.line "")
  | .opening text => .ok (w.line text).enter
  | .reopening text => (w.close text).map enter
  | .closing text => w.close text

def finish (w : Writer) : Except Imbalance String :=
  if w.depth = 0 then .ok w.text else .error .unclosedBlock

end Writer

/-- The text of a sequence of marks, by a writer that checks its blocks. -/
def checkedLayout (marks : List Mark) : Except Imbalance String := do
  let w ← marks.foldlM Writer.write .start
  w.finish

/-- A mark is refused just if it ends a block where none is open, and written as in the layout if
not. -/
theorem Writer.write_eq_ok {w v : Writer} {m : Mark} :
    w.write m = .ok v ↔ (m.closes = true → 0 < w.depth) ∧
      ⟨w.text ++ indented (m.lineDepth w.depth) m.text, m.depthAfter w.depth⟩ = v := by
  obtain ⟨text, depth⟩ := w
  cases m with
  | line _ => simp [write, line, Mark.closes, Mark.lineDepth, Mark.depthAfter, Mark.text]
  | blank => simp [write, line, Mark.closes, Mark.lineDepth, Mark.depthAfter, Mark.text]
  | opening _ => simp [write, line, enter, Mark.closes, Mark.lineDepth, Mark.depthAfter, Mark.text]
  | reopening _ =>
    -- At depth zero there is no block to leave, and the layout would go on at depth zero.
    cases depth with
    | zero => simp [write, close, Except.map, Mark.closes]
    | succ outer =>
      simp [write, close, line, enter, Except.map, Mark.lineDepth, Mark.depthAfter, Mark.text]
  | closing _ =>
    cases depth with
    | zero => simp [write, close, Mark.closes]
    | succ outer => simp [write, close, line, Mark.lineDepth, Mark.depthAfter, Mark.text]

/-- Writing marks succeeds just if no mark ends a block that is not open, and then gives the
layout of the marks. -/
theorem Writer.foldlM_write_eq_ok {w v : Writer} {marks : List Mark} :
    marks.foldlM Writer.write w = .ok v ↔ ClosesAbove 0 w.depth marks ∧
      ⟨w.text ++ String.join (layoutFrom w.depth marks), marks.foldl Mark.depthAfter w.depth⟩ =
        v := by
  induction marks generalizing w with
  | nil => simp [ClosesAbove, layoutFrom]
  | cons m rest ih =>
    rw [List.foldlM_cons, bind_eq_ok, closesAbove_cons, layoutFrom, String.join_cons,
      ← String.append_assoc, List.foldl_cons]
    constructor
    · rintro ⟨next, hm, hrest⟩
      obtain ⟨hcloses, rfl⟩ := Writer.write_eq_ok.mp hm
      obtain ⟨habove, hv⟩ := ih.mp hrest
      exact ⟨⟨hcloses, habove⟩, hv⟩
    · rintro ⟨⟨hcloses, habove⟩, hv⟩
      exact ⟨_, Writer.write_eq_ok.mpr ⟨hcloses, rfl⟩, ih.mpr ⟨habove, hv⟩⟩

theorem Writer.finish_eq_ok {w : Writer} {text : String} :
    w.finish = .ok text ↔ w.depth = 0 ∧ w.text = text := by
  unfold Writer.finish
  split <;> simp [*]

/-- A writer that checks its blocks takes just what is balanced, and writes the layout of it. -/
theorem checkedLayout_eq_ok {marks : List Mark} {text : String} :
    checkedLayout marks = .ok text ↔ Balanced 0 marks ∧ layout marks = text := by
  have hstart : Writer.start.text ++ String.join (layoutFrom Writer.start.depth marks) =
      layout marks := String.empty_append
  rw [checkedLayout, bind_eq_ok]
  constructor
  · rintro ⟨w, hwrite, hfinish⟩
    obtain ⟨hcloses, rfl⟩ := Writer.foldlM_write_eq_ok.mp hwrite
    obtain ⟨hends, htext⟩ := Writer.finish_eq_ok.mp hfinish
    exact ⟨⟨hcloses, hends⟩, hstart.symm.trans htext⟩
  · rintro ⟨h, htext⟩
    refine ⟨_, Writer.foldlM_write_eq_ok.mpr ⟨h.closes, rfl⟩, ?_⟩
    exact Writer.finish_eq_ok.mpr ⟨h.ends, hstart.trans htext⟩

/-! ## The passages of a unit -/

/-- What a unit is written in: structs, decoders and their bodies, and in these the fields with
their guards, the reads behind the guards and the values in the reads. -/
inductive Passage (plan : UnitPlan) (runtime : String) : List Mark → Prop where
  | struct {r : RecordPlan} (hr : r ∈ plan.records) : Passage plan runtime (Emit.struct plan r)
  | decoder {r : RecordPlan} (hr : r ∈ plan.records) :
      Passage plan runtime (Emit.decoder plan r runtime)
  | body {r : RecordPlan} (hr : r ∈ plan.records) : Passage plan runtime (Emit.body plan r)
  | field {r : RecordPlan} (hr : r ∈ plan.records) {f : FieldPlan} (hf : f ∈ r.fields) :
      Passage plan runtime (Emit.field plan r f)
  | read {r : RecordPlan} (hr : r ∈ plan.records) {f : FieldPlan} (hf : f ∈ r.fields) :
      Passage plan runtime (Emit.read plan r f)
  | value {r : RecordPlan} (hr : r ∈ plan.records) {f : FieldPlan} (hf : f ∈ r.fields) :
      Passage plan runtime (Emit.value plan r f (if f.isArray then .push else .assign))

/-- Each passage closes the blocks that it opens. -/
theorem Passage.balanced {plan : UnitPlan} {runtime : String} {marks : List Mark}
    (h : Passage plan runtime marks) (depth : Nat) : Balanced depth marks := by
  cases h with
  | struct _ => exact Emit.struct_balanced plan _ depth
  | decoder _ => exact Emit.decoder_balanced plan _ depth runtime
  | body _ => exact Emit.body_balanced plan _ depth
  | field _ _ => exact Emit.field_balanced plan _ _ depth
  | read _ _ => exact Emit.read_balanced plan _ _ depth
  | value _ _ => exact Emit.value_balanced plan _ _ depth _

/-- Each passage stands in one piece in the unit of its plan. -/
theorem Passage.within {plan : UnitPlan} {options : CompileOptions} {marks : List Mark}
    (h : Passage plan options.runtime marks) : marks <:+: Emit.unit plan options := by
  cases h with
  | struct hr => exact Emit.struct_within hr options
  | decoder hr => exact Emit.decoder_within hr options
  | @body r hr =>
    exact (Emit.body_within plan r options.runtime).trans (Emit.decoder_within hr options)
  | field hr hf => exact Emit.field_within_unit hr hf options
  | @read r hr f hf =>
    exact (Emit.read_within plan r f).trans (Emit.field_within_unit hr hf options)
  | @value r hr f hf =>
    exact ((Emit.value_within plan r f).trans (Emit.read_within plan r f)).trans
      (Emit.field_within_unit hr hf options)

/-- While the unit of a plan is written, no block is closed where none is open, and at the end none
is open. So a writer that checks both refuses nothing, and what it writes is the source of a message
with this plan. What is written is also the program of the plan in print. Each struct, decoder,
body, field with its guard, read and value is a passage of the unit that closes no block from before
it and leaves the writer at the depth it started from. -/
theorem writing_balanced (plan : UnitPlan) (options : CompileOptions) :
    Balanced 0 (Emit.unit plan options) ∧
    checkedLayout (Emit.unit plan options) = .ok (layout (Emit.unit plan options)) ∧
    (∀ m unit, UnitPlan.build m = .ok plan → compile m options = .ok unit →
      checkedLayout (Emit.unit plan options) = .ok unit.source) ∧
    Emit.unit plan options = (program plan options).marks ∧
    ∀ marks, Passage plan options.runtime marks →
      marks <:+: Emit.unit plan options ∧ ∀ depth, Balanced depth marks := by
  have hbalanced := Emit.unit_balanced plan 0 options
  have hlayout := checkedLayout_eq_ok.mpr ⟨hbalanced, rfl⟩
  refine ⟨hbalanced, hlayout, ?_, Emit.unit_eq plan options, fun _ h => ⟨h.within, h.balanced⟩⟩
  intro m unit hbuild hcompile
  obtain ⟨plan', hbuild', hsource⟩ := compile_emits hcompile
  cases hbuild.symm.trans hbuild'
  rw [hsource]
  exact hlayout

end Source

namespace Samples

def hedgeLabel : FieldPlan :=
  ⟨"label", "Label", false, .primitive .string, some (.minimum 2), .string "none",
    some "Since version 2."⟩

def hedgeTwigs : FieldPlan :=
  ⟨"twigs", "Twigs", true, .record "Hedge" "ReadHedge", some (.range (-1) 3), .absent, none⟩

/-- A message that counts levels, with guards, one of them from a negative version on, a default and
an array. -/
def hedge : RecordPlan where
  name := "Hedge"
  decoder := "ReadHedge"
  origin := .message
  depthDecoder := some "ReadHedgeAtDepth"
  versions := none
  fields := [hedgeLabel, hedgeTwigs]

def hedgePlan : UnitPlan where
  messageName := "Hedge"
  category := "response"
  records := [hedge]
  facilities := ⟨true, true, true⟩

end Samples

namespace Source

open Samples in
/-- The source of the message closes thirteen blocks, and one of them has a part behind `else`. -/
theorem writing_balanced_hedge :
    ((Emit.unit hedgePlan {}).filter Mark.closes).length = 14 ∧
    checkedLayout (Emit.unit hedgePlan {}) = .ok (layout (Emit.unit hedgePlan {})) ∧
    hedge ∈ hedgePlan.records ∧ hedgeTwigs ∈ hedge.fields ∧
    hedgeTwigs.readGuard = some (.range (-1) 3) ∧
    Balanced 1 (Emit.field hedgePlan hedge hedgeTwigs) := by
  have hr : hedge ∈ hedgePlan.records := List.mem_singleton_self _
  have hf : hedgeTwigs ∈ hedge.fields := List.mem_cons_of_mem _ (List.mem_singleton_self _)
  obtain ⟨_, htext, _, _, hpassages⟩ := writing_balanced hedgePlan {}
  exact ⟨rfl, htext, hr, hf, rfl, (hpassages _ (.field hr hf)).2 1⟩

end Source

end WireSchema

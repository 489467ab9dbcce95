import WireSchema.Schema.Load
import WireSchema.Proofs.Declared

/-!
Line numbers serve the faults of a document and nothing else. When the tokens of a document are
moved to other lines, its tree moves with them, and reading it gives the same message or a fault of
the same category, at the line that the fault has moved to.
-/

namespace WireSchema

theorem mapError_bind {ε ε' α β : Type} (x : Except ε α) (f : α → Except ε β) (g : ε → ε') :
    (x >>= f).mapError g = x.mapError g >>= fun a => (f a).mapError g := by
  cases x <;> rfl

theorem mapError_map {ε ε' α β : Type} (x : Except ε α) (f : α → β) (g : ε → ε') :
    (x.map f).mapError g = (x.mapError g).map f := by
  cases x <;> rfl

namespace Json

/-! ## Moving tokens and trees -/

def Fault.mapLine (g : Nat → Nat) (f : Fault) : Fault := { f with line := g f.line }

def Token.mapLine (g : Nat → Nat) : Token → Token
  | string text => string (text.mapError (Fault.mapLine g))
  | brokenString reading skipping => brokenString (reading.mapLine g) (skipping.mapLine g)
  | brokenWord f => brokenWord (f.mapLine g)
  | t => t

def Located.mapLine (g : Nat → Nat) (t : Located) : Located := ⟨g t.line, t.token.mapLine g⟩

def Break.mapLine (g : Nat → Nat) (b : Break) : Break := ⟨b.reading.mapLine g, b.skipping.mapLine g⟩

def Scalar.mapLine (g : Nat → Nat) : Scalar → Scalar
  | string text => string (text.mapError (Fault.mapLine g))
  | v => v

def Key.mapLine (g : Nat → Nat) (k : Key) : Key :=
  ⟨k.text.mapError (Fault.mapLine g), g k.nextLine⟩

mutual

def Node.mapLine (g : Nat → Nat) : Node → Node
  | .scalar line v => .scalar (g line) (v.mapLine g)
  | .array line items stop => .array (g line) (itemsMapLine g items) (stop.map (Break.mapLine g))
  | .object line members stop =>
    .object (g line) (membersMapLine g members) (stop.map (Break.mapLine g))
  | .unreadable line b => .unreadable (g line) (b.mapLine g)

def itemsMapLine (g : Nat → Nat) : List Node → List Node
  | [] => []
  | n :: rest => n.mapLine g :: itemsMapLine g rest

def membersMapLine (g : Nat → Nat) : List (Key × Node) → List (Key × Node)
  | [] => []
  | (k, n) :: rest => (k.mapLine g, n.mapLine g) :: membersMapLine g rest

end

def Frame.mapLine (g : Nat → Nat) : Frame → Frame
  | array line items => array (g line) (itemsMapLine g items)
  | object line members => object (g line) (membersMapLine g members)
  | member line members key => member (g line) (membersMapLine g members) (key.mapLine g)

def Start.mapLine (g : Nat → Nat) : Start → Start
  | scalar v => scalar (v.mapLine g)
  | opened frame next => opened (frame.mapLine g) next
  | stopped stop => stopped (stop.mapLine g)

def Progress.mapLine (g : Nat → Nat) : Progress → Progress
  | finished document => finished (document.mapLine g)
  | stopped document => stopped (document.mapLine g)
  | more frames expect => more (frames.map (Frame.mapLine g)) expect

variable {g : Nat → Nat}

theorem itemsMapLine_eq (items : List Node) :
    itemsMapLine g items = items.map (Node.mapLine g) := by
  induction items with
  | nil => rfl
  | cons n rest ih => rw [itemsMapLine, ih, List.map_cons]

theorem membersMapLine_eq (members : List (Key × Node)) :
    membersMapLine g members = members.map (Prod.map (Key.mapLine g) (Node.mapLine g)) := by
  induction members with
  | nil => rfl
  | cons m rest ih => rw [membersMapLine, ih, List.map_cons, Prod.map]

theorem Node.line_mapLine (n : Node) : (n.mapLine g).line = g n.line := by
  cases n <;> rfl

/-! ## Building the tree -/

theorem Frame.close_mapLine (stop : Option Break) (f : Frame) :
    (f.mapLine g).close (stop.map (Break.mapLine g)) = (f.close stop).mapLine g := by
  cases f <;> simp only [Frame.mapLine, Frame.close, Node.mapLine, itemsMapLine_eq,
    membersMapLine_eq, List.map_reverse]

theorem Frame.add_mapLine (n : Node) (f : Frame) :
    (f.mapLine g).add (n.mapLine g) = (f.add n).mapLine g := by
  cases f <;> rfl

theorem collapse_mapLine (stop : Break) (top : Frame) (frames : List Frame) :
    collapse (stop.mapLine g) (top.mapLine g) (frames.map (Frame.mapLine g)) =
      (collapse stop top frames).mapLine g := by
  induction frames generalizing top with
  | nil => exact Frame.close_mapLine (some stop) top
  | cons below rest ih =>
    have hclose := Frame.close_mapLine (g := g) (some stop) top
    rw [Option.map_some] at hclose
    rw [List.map_cons, collapse, collapse, hclose, Frame.add_mapLine, ih]

theorem stopAt_mapLine (line : Nat) (stop : Break) (frames : List Frame) :
    stopAt (g line) (stop.mapLine g) (frames.map (Frame.mapLine g)) =
      (stopAt line stop frames).mapLine g := by
  cases frames with
  | nil => rfl
  | cons top rest => exact collapse_mapLine stop top rest

theorem stopValue_mapLine (line : Nat) (stop : Break) (frames : List Frame) :
    stopValue (g line) (stop.mapLine g) (frames.map (Frame.mapLine g)) =
      (stopValue line stop frames).mapLine g := by
  cases frames with
  | nil => rfl
  | cons top rest =>
    have hadd := Frame.add_mapLine (g := g) (.unreadable line stop) top
    rw [Node.mapLine] at hadd
    rw [List.map_cons, stopValue, stopValue, hadd, collapse_mapLine]

theorem startOf_mapLine (line : Nat) (t : Token) :
    startOf (g line) (t.mapLine g) = (startOf line t).mapLine g := by
  cases t <;> rfl

theorem complete_mapLine (n : Node) (frames : List Frame) :
    complete (n.mapLine g) (frames.map (Frame.mapLine g)) = (complete n frames).mapLine g := by
  cases frames with
  | nil => rfl
  | cons top rest => rw [List.map_cons, complete, complete, Frame.add_mapLine]; rfl

/-- What a token starts depends on its kind alone. -/
theorem beginValue_mapLine (line : Nat) (t : Token) (frames : List Frame) :
    beginValue (g line) (t.mapLine g) (frames.map (Frame.mapLine g)) =
      (beginValue line t frames).mapLine g := by
  unfold beginValue
  rw [startOf_mapLine]
  cases startOf line t with
  | scalar v => exact complete_mapLine (.scalar line v) frames
  | opened frame next => rfl
  | stopped stop => exact congrArg Progress.stopped (stopValue_mapLine line stop frames)

theorem beginKey_mapLine (line nextLine : Nat) (t : Token) (frames : List Frame) :
    beginKey (g line) (g nextLine) (t.mapLine g) (frames.map (Frame.mapLine g)) =
      (beginKey line nextLine t frames).mapLine g := by
  have hstop (stop : Break) : Progress.stopped (stopAt (g line) (stop.mapLine g)
      (frames.map (Frame.mapLine g))) = (Progress.stopped (stopAt line stop frames)).mapLine g :=
    congrArg Progress.stopped (stopAt_mapLine line stop frames)
  cases t with
  | string text =>
    cases frames with
    | nil => rfl
    | cons top rest =>
      cases top with
      | object start members => rfl
      | array start items => exact hstop (.of .malformed line)
      | member start members key => exact hstop (.of .malformed line)
  | brokenString reading skipping => exact hstop ⟨reading, skipping⟩
  | _ => exact hstop (.of .malformed line)

/-- One step of building does not look at lines other than to note them. -/
theorem step_mapLine (expect : Expect) (frames : List Frame) (line nextLine : Nat) (t : Token) :
    step expect (frames.map (Frame.mapLine g)) (g line) (g nextLine) (t.mapLine g) =
      (step expect frames line nextLine t).mapLine g := by
  have hclose (f : Frame) (rest : List Frame) :
      complete ((f.mapLine g).close none) (rest.map (Frame.mapLine g)) =
        (complete (f.close none) rest).mapLine g := by
    rw [← complete_mapLine, ← Frame.close_mapLine]
    rfl
  have hstop := congrArg Progress.stopped
    (stopAt_mapLine (g := g) line (.of .malformed line) frames)
  have hvalue := beginValue_mapLine (g := g) line t frames
  have hkey := beginKey_mapLine (g := g) line nextLine t frames
  cases expect with
  | value => exact hvalue
  | key => exact hkey
  | itemOrClose =>
    cases t with
    | closeBracket =>
      rcases frames with _ | ⟨⟨start, items⟩ | _ | _, rest⟩
      case cons.array => exact hclose (.array start items) rest
      all_goals exact hvalue
    | _ => exact hvalue
  | keyOrClose =>
    cases t with
    | closeBrace =>
      rcases frames with _ | ⟨_ | ⟨start, members⟩ | _, rest⟩
      case cons.object => exact hclose (.object start members) rest
      all_goals exact hkey
    | _ => exact hkey
  | colon =>
    cases t with
    | colon => rfl
    | _ => exact congrArg Progress.stopped (stopValue_mapLine line (.of .malformed line) frames)
  | commaOrClose =>
    cases t with
    | comma => rcases frames with _ | ⟨_ | _ | _, rest⟩ <;> first | rfl | exact hstop
    | closeBracket =>
      rcases frames with _ | ⟨⟨start, items⟩ | _ | _, rest⟩
      case cons.array => exact hclose (.array start items) rest
      all_goals exact hstop
    | closeBrace =>
      rcases frames with _ | ⟨_ | ⟨start, members⟩ | _, rest⟩
      case cons.object => exact hclose (.object start members) rest
      all_goals exact hstop
    | _ => exact hstop

theorem stepEnd_mapLine (expect : Expect) (frames : List Frame) (endLine : Nat) :
    stepEnd expect (frames.map (Frame.mapLine g)) (g endLine) =
      (stepEnd expect frames endLine).mapLine g := by
  cases expect <;> first
    | exact stopValue_mapLine endLine (.of .incomplete endLine) frames
    | exact stopAt_mapLine endLine (.of .incomplete endLine) frames

theorem firstLine_mapLine (endLine : Nat) (toks : List Located) :
    firstLine (g endLine) (toks.map (Located.mapLine g)) = g (firstLine endLine toks) := by
  cases toks <;> rfl

/-- The tree of moved tokens is the moved tree. -/
theorem build_mapLine (endLine : Nat) (expect : Expect) (frames : List Frame)
    (toks : List Located) :
    build (g endLine) expect (frames.map (Frame.mapLine g)) (toks.map (Located.mapLine g)) =
      Prod.map (Node.mapLine g) (List.map (Located.mapLine g))
        (build endLine expect frames toks) := by
  induction toks generalizing expect frames with
  | nil => exact congrArg (·, []) (stepEnd_mapLine expect frames endLine)
  | cons t rest ih =>
    have hstep := step_mapLine (g := g) expect frames t.line (firstLine endLine rest) t.token
    rw [← firstLine_mapLine (g := g) endLine rest] at hstep
    rw [List.map_cons, build, build]
    simp only [Located.mapLine, hstep]
    cases step expect frames t.line (firstLine endLine rest) t.token with
    | finished document => rfl
    | stopped document => rfl
    | more frames expect => exact ih expect frames

/-! ## Reading the tree -/

/-- A read of a node whose faults move with the node, and whose results do not change. -/
def Follows {α : Type} (g : Nat → Nat) (read : NodeReader α) : Prop :=
  ∀ n, read (n.mapLine g) = (read n).mapError (Fault.mapLine g)

/-- A fault that is found in place of a value stands in the line of that value. -/
theorem Node.mismatch_mapLine (n : Node) : (n.mapLine g).mismatch = n.mismatch.mapLine g := by
  rcases n with ⟨line, _ | _ | (_ | _) | (_ | _)⟩ | _ | _ | _ <;> rfl

theorem checkClosed_mapLine (stop : Option Break) :
    checkClosed (stop.map (Break.mapLine g)) = (checkClosed stop).mapError (Fault.mapLine g) := by
  cases stop <;> rfl

theorem mapM_mapLine {α : Type} {read : NodeReader α} (h : Follows g read) (items : List Node) :
    (items.map (Node.mapLine g)).mapM read = (items.mapM read).mapError (Fault.mapLine g) := by
  induction items with
  | nil => rfl
  | cons n rest ih =>
    simp only [List.map_cons, List.mapM_cons, mapError_bind, h n, ih]
    rfl

theorem readItems_mapLine {α : Type} {read : NodeReader α} (h : Follows g read) (items : List Node)
    (stop : Option Break) :
    readItems read (itemsMapLine g items) (stop.map (Break.mapLine g)) =
      (readItems read items stop).mapError (Fault.mapLine g) := by
  simp only [readItems, mapError_bind, itemsMapLine_eq, mapM_mapLine h, checkClosed_mapLine]
  rfl

theorem readMembers_mapLine {read : NodeReader Value} (h : Follows g read)
    (done : List (String × Value)) (members : List (Key × Node)) :
    readMembers read done (membersMapLine g members) =
      (readMembers read done members).mapError (Fault.mapLine g) := by
  induction members generalizing done with
  | nil => rfl
  | cons m rest ih => simp only [membersMapLine, readMembers, mapError_bind, h m.2, ih]; rfl

/-- Any value reads the same in whatever lines it stands. -/
theorem readValue_follows (depth : Nat) : Follows g (readValue depth) := by
  -- arrays and objects are read one level down, and only there the depth counts
  induction depth using Nat.strongRecOn with
  | ind depth ih =>
    intro n
    cases n with
    | scalar line v => rcases v with _ | _ | (_ | _) | (_ | _) <;> cases depth <;> rfl
    | unreadable line b => cases depth <;> rfl
    | array line items stop =>
      match depth with
      | 0 | 1 => rfl
      | depth + 2 =>
        simp only [Node.mapLine, readValue, mapError_map]
        rw [readItems_mapLine (ih (depth + 1) (Nat.lt_succ_self _))]
    | object line members stop =>
      match depth with
      | 0 | 1 => rfl
      | depth + 2 =>
        simp only [Node.mapLine, readValue, mapError_bind, checkClosed_mapLine]
        rw [readMembers_mapLine (ih (depth + 1) (Nat.lt_succ_self _))]
        rfl

mutual

theorem skipFault_mapLine (n : Node) :
    (n.mapLine g).skipFault? = n.skipFault?.map (Fault.mapLine g) := by
  cases n with
  | scalar line v => rfl
  | unreadable line b => rfl
  | array line items stop =>
    simp only [Node.mapLine, Node.skipFault?, itemsFault_mapLine items, Option.map_or,
      Option.map_map]
    rfl
  | object line members stop =>
    simp only [Node.mapLine, Node.skipFault?, membersFault_mapLine members, Option.map_or,
      Option.map_map]
    rfl

theorem itemsFault_mapLine (items : List Node) :
    itemsFault? (itemsMapLine g items) = (itemsFault? items).map (Fault.mapLine g) := by
  cases items with
  | nil => rfl
  | cons n rest =>
    simp only [itemsMapLine, itemsFault?, skipFault_mapLine n, itemsFault_mapLine rest,
      Option.map_or]

theorem membersFault_mapLine (members : List (Key × Node)) :
    membersFault? (membersMapLine g members) = (membersFault? members).map (Fault.mapLine g) := by
  rcases members with _ | ⟨⟨key, n⟩, rest⟩
  · rfl
  · simp only [membersMapLine, membersFault?, skipFault_mapLine n, membersFault_mapLine rest,
      Option.map_or]

end

end Json

namespace Doc

open Json

variable {g : Nat → Nat}

theorem mismatch_follows {α : Type} :
    Follows g (fun n => .error n.mismatch : NodeReader α) :=
  fun n => congrArg Except.error (Node.mismatch_mapLine n)

theorem readText_follows : Follows g readText := by
  intro n
  have hmismatch := mismatch_follows (g := g) (α := String) n
  rcases n with ⟨line, _ | _ | _ | _⟩ | _ | _ | _ <;> first | rfl | exact hmismatch

theorem readFlag_follows : Follows g readFlag := by
  intro n
  have hmismatch := mismatch_follows (g := g) (α := Bool) n
  rcases n with ⟨line, _ | _ | _ | _⟩ | _ | _ | _ <;> first | rfl | exact hmismatch

theorem readOptional_follows {α : Type} {read : NodeReader α} (h : Follows g read) :
    Follows g (readOptional read) := by
  intro n
  have hread : (read (n.mapLine g)).map some = ((read n).map some).mapError (Fault.mapLine g) := by
    rw [h n, mapError_map]
  rcases n with ⟨line, _ | _ | _ | _⟩ | _ | _ | _ <;> first | rfl | exact hread

theorem member_follows {α β : Type} {key : String} {read : NodeReader β} {set : α → β → α}
    (h : Follows g read) : Follows g (member key read set).read := by
  intro n
  simp only [member, h n, mapError_map]

theorem readMembers_follows {α : Type} {shape : List (Member α)}
    (h : ∀ m ∈ shape, Follows g m.read) (seen : List String) (a : α) (members : List (Key × Node)) :
    readMembers shape seen a (membersMapLine g members) =
      (readMembers shape seen a members).mapError (Fault.mapLine g) := by
  induction members generalizing seen a with
  | nil => rfl
  | cons entry rest ih =>
    obtain ⟨key, node⟩ := entry
    simp only [membersMapLine, readMembers, mapError_bind, Key.mapLine]
    congr 1
    funext name
    cases hfind : shape.find? (fun m => m.key == name) with
    | none =>
      simp only [skipFault_mapLine]
      cases node.skipFault? with
      | none => exact ih seen a
      | some f => rfl
    | some m =>
      simp only
      split
      · rfl
      · simp only [mapError_bind, h m (List.mem_of_find?_eq_some hfind) node, ih]

theorem readPositional_follows {α : Type} {shape : List (Member α)}
    (h : ∀ m ∈ shape, Follows g m.read) (a : α) (items : List Node) :
    readPositional a shape (itemsMapLine g items) =
      (readPositional a shape items).mapError (Fault.mapLine g) := by
  induction items generalizing a shape with
  | nil => cases shape <;> rfl
  | cons n rest ih =>
    cases shape with
    | nil =>
      simp only [itemsMapLine, readPositional, Node.line_mapLine]
      rfl
    | cons m ms =>
      have hrest := ih fun m hm => h m (List.mem_cons_of_mem _ hm)
      simp only [itemsMapLine, readPositional, mapError_bind, h m List.mem_cons_self n, hrest]

/-- A record reads from an object or from an array, and follows its node either way. -/
theorem readRecord_follows {α : Type} {shape : List (Member α)}
    (h : ∀ m ∈ shape, Follows g m.read) (depth : Nat) (empty : α) :
    Follows g (readRecord depth shape empty) := by
  intro n
  cases n with
  | scalar line v => exact mismatch_follows (.scalar line v)
  | unreadable line b => exact mismatch_follows (.unreadable line b)
  | array line items stop =>
    simp only [Node.mapLine, readRecord]
    split
    · rfl
    · simp only [mapError_bind, readPositional_follows h, checkClosed_mapLine]
      rfl
  | object line members stop =>
    simp only [Node.mapLine, readRecord]
    split
    · rfl
    · simp only [mapError_bind, readMembers_follows h, checkClosed_mapLine]
      rfl

theorem readArray_follows {α : Type} {read : NodeReader α} (h : Follows g read) (depth : Nat) :
    Follows g (readArray depth read) := by
  intro n
  cases n with
  | array line items stop =>
    simp only [Node.mapLine, readArray]
    split
    · rfl
    · exact readItems_mapLine h items stop
  | scalar line v => exact mismatch_follows (.scalar line v)
  | object line members stop => exact mismatch_follows (.object line members stop)
  | unreadable line b => exact mismatch_follows (.unreadable line b)

theorem fieldShape_follows {depth : Nat} {nested : NodeReader (List FieldDoc)}
    (h : Follows g nested) : ∀ m ∈ fieldShape depth nested, Follows g m.read := by
  simp only [fieldShape, List.forall_mem_cons, List.not_mem_nil, false_imp_iff, implies_true,
    and_true]
  exact ⟨member_follows readText_follows, member_follows readText_follows,
    member_follows readText_follows, member_follows (readOptional_follows readText_follows),
    member_follows (readOptional_follows (readValue_follows depth)),
    member_follows (readOptional_follows readFlag_follows), member_follows h⟩

/-- A field reads the same in whatever lines it stands, nested fields included. -/
theorem readField_follows (depth : Nat) : Follows g (readField depth) := by
  induction depth using readField.induct with
  | case1 => exact readRecord_follows (fieldShape_follows mismatch_follows) 0 {}
  | case2 => exact readRecord_follows (fieldShape_follows mismatch_follows) 1 {}
  | case3 depth ih =>
    exact readRecord_follows (fieldShape_follows (readArray_follows ih _)) (depth + 2) {}

theorem readFields_follows (depth : Nat) : Follows g (readFields depth) :=
  readArray_follows (readField_follows (depth - 1)) depth

theorem readCommon_follows (depth : Nat) : Follows g (readCommon depth) := by
  apply readRecord_follows
  simp only [commonShape, List.forall_mem_cons, List.not_mem_nil, false_imp_iff, implies_true,
    and_true]
  exact ⟨member_follows readText_follows, member_follows readText_follows,
    member_follows (readFields_follows _)⟩

/-- The document of a message says the same in whatever lines it stands. -/
theorem readMessage_follows : Follows g readMessage := by
  apply readRecord_follows
  simp only [messageShape, List.forall_mem_cons, List.not_mem_nil, false_imp_iff, implies_true,
    and_true]
  exact ⟨member_follows readText_follows, member_follows readText_follows,
    member_follows readText_follows, member_follows readText_follows,
    member_follows (readFields_follows _),
    member_follows (readArray_follows (readCommon_follows _) _)⟩

end Doc

open Json

def MessageDoc.ofTokens (endLine : Nat) (toks : List Located) : Except Fault MessageDoc := do
  let (root, rest) := Json.build endLine .value [] toks
  let message ← Doc.readMessage root
  match rest.head? with
  | some t => .error ⟨.malformed, t.line⟩
  | none => return message

theorem MessageDoc.parse_eq (s : List Char) :
    MessageDoc.parse s = MessageDoc.ofTokens (endLine s) (tokens s) := by
  simp only [MessageDoc.parse, MessageDoc.ofTokens, Json.parse]
  cases (Json.build (endLine s) .value [] (tokens s)).2.head? <;> rfl

/-- Reading a document with its tokens moved gives the same, and a fault moves along. -/
theorem MessageDoc.ofTokens_mapLine (g : Nat → Nat) (endLine : Nat) (toks : List Located) :
    MessageDoc.ofTokens (g endLine) (toks.map (Located.mapLine g)) =
      (MessageDoc.ofTokens endLine toks).mapError (Fault.mapLine g) := by
  unfold MessageDoc.ofTokens
  have hbuild := build_mapLine (g := g) endLine .value [] toks
  rw [List.map_nil] at hbuild
  rw [hbuild]
  simp only [Prod.map, mapError_bind, Doc.readMessage_follows _, List.head?_map]
  cases (Json.build endLine .value [] toks).2.head? <;> rfl

end WireSchema

import WireSchema.Json.Lexer

/-!
The tree of a document, as far as the document is well-formed. Where it is not, the tree says so at
that place, so that whoever walks the tree in the order of the text meets the fault there.
-/

namespace WireSchema.Json

/-- A place where the text goes wrong: the fault that is met in reading the value there, and the
one that is met in skipping it. -/
structure Break where
  reading : Fault
  skipping : Fault
  deriving DecidableEq, Repr

def Break.of (category : Category) (line : Nat) : Break := ⟨⟨category, line⟩, ⟨category, line⟩⟩

inductive Scalar where
  | null
  | bool (value : Bool)
  | number (value : Option Number)
  | string (text : Except Fault String)

/-- The key of a member, and the line of the token behind it. -/
structure Key where
  text : Except Fault String
  nextLine : Nat

/-- A value and the line in which it starts. Arrays and objects hold what could be made out of
them, and where they stop if they are not closed. -/
inductive Node where
  | scalar (line : Nat) (value : Scalar)
  | array (line : Nat) (items : List Node) (stop : Option Break)
  | object (line : Nat) (members : List (Key × Node)) (stop : Option Break)
  | unreadable (line : Nat) (fault : Break)

def Node.line : Node → Nat
  | scalar line _ => line
  | array line _ _ => line
  | object line _ _ => line
  | unreadable line _ => line

/-- An array or an object that is not closed yet, its contents in reverse. -/
inductive Frame where
  | array (line : Nat) (items : List Node)
  | object (line : Nat) (members : List (Key × Node))
  /-- An object whose last key waits for its value. -/
  | member (line : Nat) (members : List (Key × Node)) (key : Key)

def Frame.close (stop : Option Break) : Frame → Node
  | array line items => .array line items.reverse stop
  | object line members => .object line members.reverse stop
  | member line members _ => .object line members.reverse stop

def Frame.add (node : Node) : Frame → Frame
  | array line items => array line (node :: items)
  | object line members => object line members
  | member line members key => object line ((key, node) :: members)

inductive Expect where
  | value
  | itemOrClose
  | keyOrClose
  | key
  | colon
  | commaOrClose

/-- Closes all frames where the text stops. -/
def collapse (stop : Break) : Frame → List Frame → Node
  | top, [] => top.close (some stop)
  | top, below :: rest => collapse stop (below.add (top.close (some stop))) rest

def stopAt (line : Nat) (stop : Break) : List Frame → Node
  | [] => .unreadable line stop
  | top :: rest => collapse stop top rest

/-- The document when its text stops in place of a value. -/
def stopValue (line : Nat) (stop : Break) : List Frame → Node
  | [] => .unreadable line stop
  | top :: rest => collapse stop (top.add (.unreadable line stop)) rest

inductive Start where
  | scalar (value : Scalar)
  | opened (frame : Frame) (next : Expect)
  | stopped (stop : Break)

def startOf (line : Nat) : Token → Start
  | .null => .scalar .null
  | .bool b => .scalar (.bool b)
  | .number v => .scalar (.number v)
  | .string t => .scalar (.string t)
  | .openBracket => .opened (.array line []) .itemOrClose
  | .openBrace => .opened (.object line []) .keyOrClose
  | .brokenString reading skipping => .stopped ⟨reading, skipping⟩
  | .brokenWord f => .stopped ⟨f, f⟩
  | _ => .stopped (.of .malformed line)

/-- The next step of building: an answer, or the frames and what they expect. -/
inductive Progress where
  | finished (document : Node)
  | stopped (document : Node)
  | more (frames : List Frame) (expect : Expect)

def complete (node : Node) : List Frame → Progress
  | [] => .finished node
  | top :: rest => .more (top.add node :: rest) .commaOrClose

def beginValue (line : Nat) (t : Token) (frames : List Frame) : Progress :=
  match startOf line t with
  | .scalar v => complete (.scalar line v) frames
  | .opened frame next => .more (frame :: frames) next
  | .stopped stop => .stopped (stopValue line stop frames)

/-- A key is wanted, as the line `nextLine` follows it. -/
def beginKey (line nextLine : Nat) (t : Token) (frames : List Frame) : Progress :=
  match t, frames with
  | .string text, .object start members :: rest =>
    .more (.member start members ⟨text, nextLine⟩ :: rest) .colon
  | .brokenString reading skipping, frames => .stopped (stopAt line ⟨reading, skipping⟩ frames)
  | _, frames => .stopped (stopAt line (.of .malformed line) frames)

def step (expect : Expect) (frames : List Frame) (line nextLine : Nat) (t : Token) : Progress :=
  match expect, t, frames with
  | .value, t, frames => beginValue line t frames
  | .itemOrClose, .closeBracket, .array start items :: rest =>
    complete (Frame.close none (.array start items)) rest
  | .itemOrClose, t, frames => beginValue line t frames
  | .keyOrClose, .closeBrace, .object start members :: rest =>
    complete (Frame.close none (.object start members)) rest
  | .keyOrClose, t, frames => beginKey line nextLine t frames
  | .key, t, frames => beginKey line nextLine t frames
  | .colon, .colon, frames => .more frames .value
  | .colon, _, frames => .stopped (stopValue line (.of .malformed line) frames)
  | .commaOrClose, .comma, .array start items :: rest =>
    .more (.array start items :: rest) .value
  | .commaOrClose, .comma, .object start members :: rest =>
    .more (.object start members :: rest) .key
  | .commaOrClose, .closeBracket, .array start items :: rest =>
    complete (Frame.close none (.array start items)) rest
  | .commaOrClose, .closeBrace, .object start members :: rest =>
    complete (Frame.close none (.object start members)) rest
  | .commaOrClose, _, frames => .stopped (stopAt line (.of .malformed line) frames)

def stepEnd (expect : Expect) (frames : List Frame) (endLine : Nat) : Node :=
  match expect with
  | .value => stopValue endLine (.of .incomplete endLine) frames
  | .colon => stopValue endLine (.of .incomplete endLine) frames
  | _ => stopAt endLine (.of .incomplete endLine) frames

def firstLine (endLine : Nat) : List Located → Nat
  | [] => endLine
  | t :: _ => t.line

def build (endLine : Nat) (expect : Expect) (frames : List Frame) :
    List Located → Node × List Located
  | [] => (stepEnd expect frames endLine, [])
  | t :: rest =>
    match step expect frames t.line (firstLine endLine rest) t.token with
    | .finished document => (document, rest)
    | .stopped document => (document, [])
    | .more frames expect => build endLine expect frames rest

/-- A document: its tree, and the line of what stands behind it, if something does. -/
structure Document where
  root : Node
  trailing : Option Nat

def parse (s : List Char) : Document :=
  let (root, rest) := build (endLine s) .value [] (tokens s)
  ⟨root, rest.head?.map Located.line⟩

mutual

def Node.skipFault? : Node → Option Fault
  | .scalar _ _ => none
  | .array _ items stop => (itemsFault? items).or (stop.map Break.skipping)
  | .object _ members stop => (membersFault? members).or (stop.map Break.skipping)
  | .unreadable _ b => some b.skipping

def itemsFault? : List Node → Option Fault
  | [] => none
  | n :: rest => n.skipFault?.or (itemsFault? rest)

def membersFault? : List (Key × Node) → Option Fault
  | [] => none
  | (_, n) :: rest => n.skipFault?.or (membersFault? rest)

end

end WireSchema.Json

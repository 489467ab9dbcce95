import WireSchema.Source.Program
import WireSchema.Text.Literal

/-!
Reading generated source. The text is cut into pieces, most of them one line each; blanks, comments
and lints between them are passed over. From the pieces the imports, structs and functions of the
source are put together again.
-/

namespace WireSchema.Source

open Text (Parser)

/-! ## Parts of a line -/

/-- Goes on as the first of some words says that the text starts with. -/
def keyed {α : Type} (table : List (String × Parser α)) (otherwise : Parser α) : Parser α :=
  fun s =>
    match table.find? fun entry => entry.1.toList.isPrefixOf s with
    | some (word, p) => p (s.drop word.toList.length)
    | none => otherwise s

def expect (text : String) : Parser Unit := do
  let _ ← Parser.tag text.toList

def blanks : Parser Unit := fun s => some ((), s.dropWhile fun c => c == ' ' || c == '\n')

def readName : Parser String := do
  let name ← identifier
  return String.ofList name

def readVar : Parser Var :=
  keyed [("count", pure .count), ("len", pure .len), ("uuid", pure .uuid),
    ("payload", pure .payload)] failure

def readQuoted : Parser String := do
  expect "\""
  let text ← fun s => Text.readLiteral .plain s
  return String.ofList text

def readInteger : Parser Int := do
  let sign ← optional (Parser.tag ['-'])
  let digits ← Parser.run Char.isDigit
  let n := VersionPredicate.digitsValue digits
  return if sign.isSome then -n else n

def readBound : Parser Int16 := do
  let v ← readInteger
  if IntWidth.w16.holds v then return .ofInt v else failure

def readInit : Parser Init :=
  keyed
    [("read_uvarint(buf)?", pure .readVarint),
     ("buf.try_get_u16()?", pure .readLength),
     ("usize::from(", do
       let x ← readVar
       expect ")"
       return .widened x),
     ("(", do
       let x ← readVar
       expect " - 1) as usize"
       return .decremented x),
     ("buf.copy_to_bytes(", do
       let x ← readVar
       expect ")"
       return .taken x)]
    failure

def readComparison : Parser (Var → Condition) :=
  keyed
    [(" == 0xFFFF", pure .isNull),
     (" == 0", pure .isZero),
     (" > 0x7FFF", pure .isTooLong)]
    failure

def readCondition : Parser Condition :=
  keyed
    [("version == ", do
       let n ← readBound
       return .version (.exact n)),
     ("version >= ", do
       let n ← readBound
       return .version (.minimum n)),
     ("(", do
       let lo ← readBound
       expect "..="
       let hi ← readBound
       expect ").contains(&version)"
       return .version (.range lo hi)),
     ("buf.remaining() < ", do
       let x ← readVar
       return .isShort x)]
    (do
      let x ← readVar
      let holds ← readComparison
      return holds x)

def readFailure : Parser Failure :=
  keyed
    [("DecodeError::unexpected_null(", do
       let member ← readQuoted
       expect ")"
       return .unexpectedNull member),
     ("DecodeError::invalid_length(", do
       let member ← readQuoted
       expect ", "
       let x ← readVar
       expect ")"
       return .invalidLength member x),
     ("DecodeError::eof(", do
       let x ← readVar
       expect ", buf.remaining())"
       return .unexpectedEnd x)]
    failure

/-- What a function is called with. Calls differ by the nesting level alone. -/
def readArguments : Parser (Option Level) :=
  keyed
    [("(buf, version)", pure none),
     ("(buf, version, 0)", pure (some .start)),
     ("(buf, version, depth + 1)", pure (some .next))]
    failure

def readNested (function : String) : Parser Expr := do
  let level ← readArguments
  expect ".map_err("
  expect "|e| DecodeError::nested("
  let record ← readQuoted
  expect ", "
  let member ← readQuoted
  expect ", e)"
  expect ")?"
  return .nested ⟨function, level⟩ record member

def readWidth : Parser IntWidth :=
  keyed
    [("try_get_i8", pure .w8),
     ("try_get_i16", pure .w16),
     ("try_get_i32", pure .w32),
     ("try_get_i64", pure .w64)]
    failure

def readFixed : Parser Expr := do
  expect "."
  let width ← readWidth
  expect "()?"
  return .readInt width

def readTaken : Parser Expr := do
  expect ".copy_to_bytes("
  let x ← readVar
  expect ").to_vec()"
  return .taken x

def readNamed (name : String) : Parser Expr :=
  match name with
  | "buf" => readTaken <|> readFixed
  | "count" => pure (.var .count)
  | "len" => pure (.var .len)
  | "uuid" => pure (.var .uuid)
  | "payload" => pure (.var .payload)
  | function => readNested function

def readText : Parser Expr := do
  expect "::std::string::String::from"
  keyed
    [("_utf8_lossy(&", do
       let x ← readVar
       expect ").into_owned()"
       return .text x),
     ("(", do
       let text ← readQuoted
       expect ")"
       return .stringLiteral text)]
    failure

def readExpr : Parser Expr :=
  readText <|> Expr.intLiteral <$> readInteger <|> (do
    let name ← readName
    readNamed name)

def readSink : Parser Sink := keyed [(" = ", pure .assign), (".push(", pure .push)] failure

def readStore : Parser Stmt := do
  let member ← readName
  let sink ← readSink
  let value ← readExpr
  match sink with
  | .assign => expect ";"
  | .push => expect ");"
  return .store sink member value

def typeNamed (name : String) : Base :=
  match name with
  | "i8" => .primitive (.int .w8)
  | "i16" => .primitive (.int .w16)
  | "i32" => .primitive (.int .w32)
  | "i64" => .primitive (.int .w64)
  | name => .record name

def readBase : Parser Base :=
  keyed
    [("[u8; 16]", pure (.primitive .uuid)),
     ("::std::string::String", pure (.primitive .string)),
     ("::std::vec::Vec<u8>", pure (.primitive .bytes))]
    (do
      let name ← readName
      return typeNamed name)

def readArray : Parser Base := do
  expect "::std::vec::Vec<"
  let type ← readBase
  expect ">"
  return type

/-- The type of a member. What could be an array of single bytes is no array. -/
def readType (name : String) : Parser Member :=
  Member.mk name false <$> readBase <|> Member.mk name true <$> readArray

def readMember (name : String) : Parser Member := do
  expect ": "
  let m ← readType name
  expect ","
  return m

/-! ## Pieces of a source -/

inductive Opener where
  | branch (condition : Condition)
  /-- The second part of a branch, with the statements of its first part. -/
  | otherwise (condition : Condition) (body : List Stmt)
  | loop (x : Var)
  | block

inductive Piece where
  | use (item : String)
  /-- The attribute of a struct that gives it its default. -/
  | derives
  | structHead (name : String)
  | member (m : Member)
  /-- The head of a function that has no statements yet. -/
  | functionHead (f : Function)
  | stmt (s : Stmt)
  | opening (o : Opener)
  | otherwise
  | close

def readLevel : Parser Bool := keyed [(", depth: usize", pure true)] (pure false)

def readFunctionHead (runtime : String) (isPublic : Bool) : Parser Piece := do
  expect " "
  let name ← readName
  expect "(buf: &mut &[u8], version: i16"
  let takesLevel ← readLevel
  expect ") -> "
  expect "::core::result::Result<"
  let returns ← readName
  expect ", "
  expect runtime
  expect "::DecodeError>"
  expect " \x7b"
  return .functionHead ⟨name, isPublic, takesLevel, returns, []⟩

/-- The check of the nesting level, which takes three lines. -/
def readLevelCheck (runtime : String) : Parser Piece := do
  expect " depth >= "
  expect runtime
  expect "::MAX_NESTING_DEPTH"
  expect " \x7b"
  blanks
  expect "return Err("
  expect runtime
  expect "::DecodeError::nesting_too_deep("
  expect runtime
  expect "::MAX_NESTING_DEPTH)"
  expect ");"
  blanks
  expect "\x7d"
  return .stmt (.branch .isTooDeep [.raise .nestingTooDeep] [])

def readBranch : Parser Piece := do
  expect " "
  let condition ← readCondition
  expect " \x7b"
  return .opening (.branch condition)

def readPublic (runtime name : String) : Parser Piece :=
  match name with
  | "struct" => do
    expect " "
    let name ← readName
    expect " \x7b"
    return .structHead name
  | "fn" => readFunctionHead runtime true
  | name => Piece.member <$> readMember name

def readResult : Parser Stmt := do
  let record ← readName
  expect " = ::core::default::Default::default();"
  return .result record

def readZeros : Parser Stmt := do
  let x ← readVar
  expect " = "
  expect "[0u8; 16]"
  expect ";"
  return .bind x .zeros

def readBind : Parser Stmt := do
  let x ← readVar
  expect " = "
  let value ← readInit
  expect ";"
  return .bind x value

def readLet : Parser Stmt :=
  keyed [(" mut res: ", readResult), (" mut ", readZeros), (" ", readBind)] failure

/-- The piece that starts with a word. If the word has no meaning of its own it names a function
whose result is returned. -/
def readAfter (runtime word : String) : Parser Piece :=
  match word with
  | "use" => do
    expect " "
    expect runtime
    expect "::"
    let item ← readName
    expect ";"
    return .use item
  | "pub" => do
    expect " "
    let name ← readName
    readPublic runtime name
  | "fn" => readFunctionHead runtime false
  | "if" => readLevelCheck runtime <|> readBranch
  | "for" => do
    expect " _ in 0.."
    let x ← readVar
    expect " - 1"
    expect " \x7b"
    return .opening (.loop x)
  | "let" => Piece.stmt <$> readLet
  | "buf" => do
    expect ".try_copy_to_slice(&mut "
    let x ← readVar
    expect ")?;"
    return .stmt (.fill x)
  | "res" => do
    expect "."
    Piece.stmt <$> readStore
  | "return" => do
    expect " Err("
    let cause ← readFailure
    expect ");"
    return .stmt (.raise cause)
  | "Ok" => do
    expect "(res)"
    return .stmt .finish
  | function => do
    let level ← readArguments
    return .stmt (.delegate ⟨function, level⟩)

def readPiece (runtime : String) : Parser Piece
  | '#' :: s => (do
      expect "[derive(Debug, Clone, Default, PartialEq, Eq)]"
      return .derives : Parser Piece) s
  | '\x7b' :: s => some (.opening .block, s)
  | '\x7d' :: s => keyed [(" else \x7b", pure .otherwise)] (pure .close) s
  | s => (do
      let word ← readName
      readAfter runtime word : Parser Piece) s

/-- Passes over blanks, comments and lints. A comment and a lint go on to the end of their line,
which may be what is being passed over. -/
def skip : (inLine : Bool) → List Char → List Char
  | _, [] => []
  | true, '\n' :: rest => skip false rest
  | true, _ :: rest => skip true rest
  | false, ' ' :: rest => skip false rest
  | false, '\n' :: rest => skip false rest
  | false, '/' :: '/' :: rest => skip true rest
  | false, '#' :: '[' :: 'a' :: 'l' :: 'l' :: 'o' :: 'w' :: rest => skip true rest
  | false, s => s

/-- The pieces of a text, if there are not more than `fuel`. -/
def piecesFrom (runtime : String) (fuel : Nat) (s : List Char) : Option (List Piece) :=
  match skip false s, fuel with
  | [], _ => some []
  | _ :: _, 0 => none
  | c :: rest, fuel + 1 => do
    let (piece, rest) ← readPiece runtime (c :: rest)
    let more ← piecesFrom runtime fuel rest
    return piece :: more

def pieces (runtime : String) (s : List Char) : Option (List Piece) :=
  piecesFrom runtime s.length s

/-! ## Items -/

structure Contents extends Items where
  /-- The imported items, by their names. -/
  imports : List String
  deriving Repr

def Contents.empty : Contents := ⟨⟨[], []⟩, []⟩

structure Block where
  opener : Opener
  body : List Stmt

def Block.stmt (b : Block) : Stmt :=
  match b.opener with
  | .branch condition => .branch condition b.body []
  | .otherwise condition body => .branch condition body b.body
  | .loop x => .loop x b.body
  | .block => .block b.body

inductive Open where
  | nothing
  /-- A struct of which only the attribute was read. -/
  | derived
  | struct (s : Struct)
  /-- A function, with the blocks that are open in it, the innermost first. -/
  | function (f : Function) (blocks : List Block)

def Open.add (f : Function) (blocks : List Block) (s : Stmt) : Open :=
  match blocks with
  | [] => .function { f with body := f.body ++ [s] } []
  | b :: outer => .function f ({ b with body := b.body ++ [s] } :: outer)

/-- A source that has been read up to some place. -/
structure Reading where
  contents : Contents
  item : Open

def Reading.start : Reading := ⟨.empty, .nothing⟩

def Reading.step (r : Reading) (piece : Piece) : Option Reading :=
  match r.item, piece with
  | .nothing, .use item =>
    some { r with contents := { r.contents with imports := r.contents.imports ++ [item] } }
  | .nothing, .derives => some { r with item := .derived }
  | .nothing, .functionHead f => some { r with item := .function f [] }
  | .derived, .structHead name => some { r with item := .struct ⟨name, []⟩ }
  | .struct s, .member m => some { r with item := .struct { s with members := s.members ++ [m] } }
  | .struct s, .close =>
    some ⟨{ r.contents with structs := r.contents.structs ++ [s] }, .nothing⟩
  | .function f blocks, .stmt s => some { r with item := .add f blocks s }
  | .function f blocks, .opening o => some { r with item := .function f (⟨o, []⟩ :: blocks) }
  | .function f (⟨.branch condition, body⟩ :: outer), .otherwise =>
    some { r with item := .function f (⟨.otherwise condition body, []⟩ :: outer) }
  | .function f [], .close =>
    some ⟨{ r.contents with functions := r.contents.functions ++ [f] }, .nothing⟩
  | .function f (b :: outer), .close => some { r with item := .add f outer b.stmt }
  | _, _ => none

/-- What a source holds, if all of it can be read. The path that leads to the runtime is known. -/
def readSource (runtime : String) (s : List Char) : Option Contents := do
  let all ← pieces runtime s
  let r ← all.foldlM Reading.step .start
  match r.item with
  | .nothing => some r.contents
  | _ => none

end WireSchema.Source

import WireSchema.Schema.TypeExpr
import WireSchema.Text.Case
import WireSchema.Text.SnakeCase

/-!
Names of the generated items: which words may name one, and how the names of records, decoders and
files come from those of the schema.
-/

namespace WireSchema

def keywords : List String :=
  ["as", "break", "const", "continue", "crate", "else", "enum", "extern", "false", "fn", "for",
   "gen", "if", "impl", "in", "let", "loop", "match", "mod", "move", "mut", "pub", "ref", "return",
   "self", "Self", "static", "struct", "super", "trait", "true", "type", "unsafe", "use", "where",
   "while", "async", "await", "dyn", "abstract", "become", "box", "do", "final", "macro",
   "override", "priv", "typeof", "unsized", "virtual", "yield", "try"]

/-- Types of the generated language that a struct of the same name would hide. -/
def builtinTypes : List String :=
  ["bool", "char", "str", "i8", "i16", "i32", "i64", "i128", "isize", "u8", "u16", "u32", "u64",
   "u128", "usize", "f32", "f64"]

def isReserved (word : String) : Bool := keywords.contains word || builtinTypes.contains word

def isUsable (word : String) : Bool :=
  isIdentifier word.toList && word != "_" && !isReserved word

/-- The record that a field of the message declares in place with the base type `base`. -/
def inlineRecordName (message base : String) : String := message ++ Text.capitalize base

def messageDecoderName (message : String) : String := "Read" ++ message

def recordDecoderName (record : String) : String := "New" ++ Text.capitalize record

/-- The form of a decoder that counts nesting levels. -/
def depthDecoderName (decoder : String) : String := decoder ++ "AtDepth"

def outputFileName (message : String) : String := Text.snakeCase message ++ ".rs"

end WireSchema

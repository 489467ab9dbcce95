import WireSchema.Source.Layout
import WireSchema.Source.Lower
import WireSchema.Text.Quoted

/-!
Programs as source text.
-/

namespace WireSchema.Source

def Var.name : Var → String
  | count => "count"
  | len => "len"
  | uuid => "uuid"
  | payload => "payload"

def Init.render : Init → String
  | readVarint => "read_uvarint(buf)?"
  | readLength => "buf.try_get_u16()?"
  | widened x => s!"usize::from({x.name})"
  | decremented x => s!"({x.name} - 1) as usize"
  | zeros => "[0u8; 16]"
  | taken x => s!"buf.copy_to_bytes({x.name})"

/-- A variable that is filled later is mutable. -/
def Init.keyword : Init → String
  | zeros => "let mut"
  | _ => "let"

def renderGuard : VersionPredicate → String
  | .exact n => s!"version == {n}"
  | .minimum n => s!"version >= {n}"
  | .range lo hi => s!"({lo}..={hi}).contains(&version)"

def Condition.render (runtime : String) : Condition → String
  | version p => renderGuard p
  | isZero x => s!"{x.name} == 0"
  | isNull x => s!"{x.name} == 0xFFFF"
  | isTooLong x => s!"{x.name} > 0x7FFF"
  | isShort x => s!"buf.remaining() < {x.name}"
  | isTooDeep => s!"depth >= {runtime}::MAX_NESTING_DEPTH"

def Failure.render (runtime : String) : Failure → String
  | unexpectedNull member => s!"DecodeError::unexpected_null({Text.quote member})"
  | invalidLength member x => s!"DecodeError::invalid_length({Text.quote member}, {x.name})"
  | unexpectedEnd x => s!"DecodeError::eof({x.name}, buf.remaining())"
  | nestingTooDeep =>
    s!"{runtime}::DecodeError::nesting_too_deep({runtime}::MAX_NESTING_DEPTH)"

def Call.render (c : Call) : String :=
  match c.level with
  | none => s!"{c.function}(buf, version)"
  | some .start => s!"{c.function}(buf, version, 0)"
  | some .next => s!"{c.function}(buf, version, depth + 1)"

def readIntName : IntWidth → String
  | .w8 => "try_get_i8"
  | .w16 => "try_get_i16"
  | .w32 => "try_get_i32"
  | .w64 => "try_get_i64"

def Expr.render : Expr → String
  | readInt w => s!"buf.{readIntName w}()?"
  | var x => x.name
  | text x => s!"::std::string::String::from_utf8_lossy(&{x.name}).into_owned()"
  | taken x => s!"buf.copy_to_bytes({x.name}).to_vec()"
  | stringLiteral s => s!"::std::string::String::from({Text.quote s})"
  | intLiteral v => toString v
  | nested call record member =>
    let wrap := s!"|e| DecodeError::nested({Text.quote record}, {Text.quote member}, e)"
    s!"{call.render}.map_err({wrap})?"

def renderStore (sink : Sink) (member value : String) : String :=
  match sink with
  | .assign => s!"res.{member} = {value};"
  | .push => s!"res.{member}.push({value});"

def openBrace : String := " \x7b"

def closeBrace : String := "\x7d"

mutual

def Stmt.marks (runtime : String) : Stmt → List Mark
  | .result record => [.line s!"let mut res: {record} = ::core::default::Default::default();"]
  | .bind x value => [.line s!"{value.keyword} {x.name} = {value.render};"]
  | .fill x => [.line s!"buf.try_copy_to_slice(&mut {x.name})?;"]
  | .store sink member value => [.line (renderStore sink member value.render)]
  | .raise failure => [.line s!"return Err({failure.render runtime});"]
  | .branch condition body [] =>
    .opening ("if " ++ condition.render runtime ++ openBrace) ::
      stmtMarks runtime body ++ [.closing closeBrace]
  | .branch condition body (s :: ss) =>
    .opening ("if " ++ condition.render runtime ++ openBrace) ::
      stmtMarks runtime body ++
        .reopening (closeBrace ++ " else" ++ openBrace) ::
          (s.marks runtime ++ stmtMarks runtime ss) ++ [.closing closeBrace]
  | .block body => .opening "\x7b" :: stmtMarks runtime body ++ [.closing closeBrace]
  | .loop x body =>
    .opening (s!"for _ in 0..{x.name} - 1" ++ openBrace) ::
      stmtMarks runtime body ++ [.closing closeBrace]
  | .delegate call => [.line call.render]
  | .finish => [.line "Ok(res)"]

def stmtMarks (runtime : String) : List Stmt → List Mark
  | [] => []
  | s :: rest => s.marks runtime ++ stmtMarks runtime rest

end

def Function.delegates (f : Function) : Bool :=
  match f.body with
  | [.delegate _] => true
  | _ => false

def Function.lints (f : Function) : String :=
  if f.delegates then "#[allow(non_snake_case)]"
  else
    "#[allow(non_snake_case, unused_variables, unused_mut, " ++
      "clippy::field_reassign_with_default)]"

def Function.signature (runtime : String) (f : Function) : String :=
  let visibility := if f.isPublic then "pub " else ""
  let level := if f.takesLevel then ", depth: usize" else ""
  s!"{visibility}fn {f.name}(buf: &mut &[u8], version: i16{level}) -> " ++
    s!"::core::result::Result<{f.returns}, {runtime}::DecodeError>" ++ openBrace

def Function.marks (runtime : String) (f : Function) : List Mark :=
  .line f.lints :: .opening (f.signature runtime) ::
    stmtMarks runtime f.body ++ [.closing closeBrace]

def functionMarks (runtime : String) : List Function → List Mark
  | [] => []
  | [f] => f.marks runtime
  | f :: rest => f.marks runtime ++ .blank :: functionMarks runtime rest

def Member.typeName (m : Member) : String :=
  if m.isArray then s!"::std::vec::Vec<{m.type.typeName}>" else m.type.typeName

def MemberDef.marks (m : MemberDef) : List Mark :=
  m.about.map .line ++ [.line s!"pub {m.name}: {m.typeName},"]

def StructDef.marks (s : StructDef) : List Mark :=
  s.about.map .line ++
    [.line "#[allow(non_snake_case, non_camel_case_types)]",
     .line "#[derive(Debug, Clone, Default, PartialEq, Eq)]",
     .opening (s!"pub struct {s.name}" ++ openBrace)] ++
    s.members.flatMap MemberDef.marks ++ [.closing closeBrace]

def Definition.marks (runtime : String) (d : Definition) : List Mark :=
  .blank :: d.struct.marks ++
    .blank ::
      .line s!"/// Decode `{d.struct.name}` for protocol `version`, advancing `buf` past it." ::
        functionMarks runtime d.functions

/-- The imports, behind a blank line if there are any. -/
def importMarks (runtime : String) : List Facility → List Mark
  | [] => []
  | fs => .blank :: fs.map fun f => .line s!"use {runtime}::{f.item};"

def Program.marks (p : Program) : List Mark :=
  [.line s!"// Code generated by wiregen from `{p.messageName}`. DO NOT EDIT.",
   .line s!"// module: {p.moduleName}"] ++
    importMarks p.runtime p.imports ++ p.definitions.flatMap (Definition.marks p.runtime)

def Program.render (p : Program) : String := layout p.marks

end WireSchema.Source

import WireSchema.Source.Print

/-!
Emitting the source of a plan, line by line. Each function gives the marks of what it writes, blocks
being opened and closed one by one.
-/

namespace WireSchema.Source.Emit

def decoderLints : String :=
  "#[allow(non_snake_case, unused_variables, unused_mut, " ++
    "clippy::field_reassign_with_default)]"

def returns (record : RecordPlan) (runtime : String) : String :=
  s!"::core::result::Result<{record.name}, {runtime}::DecodeError>"

/-- Refuses a length that is greater than what is left of the input. -/
def remainingCheck : List Mark :=
  [.opening "if buf.remaining() < len \x7b",
   .line "return Err(DecodeError::eof(len, buf.remaining()));",
   .closing "\x7d"]

def nullFailure (f : FieldPlan) : Mark :=
  .line s!"return Err(DecodeError::unexpected_null({Text.quote f.ident}));"

/-- The call of the decoder of a field's record. Within a cycle the depth carries over. -/
def nestedCall (plan : UnitPlan) (record : RecordPlan) (name decoder : String) : String :=
  match record.depthDecoder, (plan.record? name).bind RecordPlan.depthDecoder with
  | some _, some callee => s!"{callee}(buf, version, depth + 1)"
  | _, _ => s!"{decoder}(buf, version)"

def value (plan : UnitPlan) (record : RecordPlan) (f : FieldPlan) (sink : Sink) : List Mark :=
  match f.rule with
  | .primitive (.int .w8) => [.line (renderStore sink f.ident "buf.try_get_i8()?")]
  | .primitive (.int .w16) => [.line (renderStore sink f.ident "buf.try_get_i16()?")]
  | .primitive (.int .w32) => [.line (renderStore sink f.ident "buf.try_get_i32()?")]
  | .primitive (.int .w64) => [.line (renderStore sink f.ident "buf.try_get_i64()?")]
  | .primitive .uuid =>
    [.opening "\x7b",
     .line "let mut uuid = [0u8; 16];",
     .line "buf.try_copy_to_slice(&mut uuid)?;",
     .line (renderStore sink f.ident "uuid"),
     .closing "\x7d"]
  | .primitive .string =>
    [.opening "\x7b",
     .line "let len = buf.try_get_u16()?;",
     .opening "if len == 0xFFFF \x7b",
     nullFailure f,
     .closing "\x7d",
     .opening "if len > 0x7FFF \x7b",
     .line s!"return Err(DecodeError::invalid_length({Text.quote f.ident}, len));",
     .closing "\x7d",
     .line "let len = usize::from(len);"] ++
    remainingCheck ++
    [.line "let payload = buf.copy_to_bytes(len);",
     .line (renderStore sink f.ident
       "::std::string::String::from_utf8_lossy(&payload).into_owned()"),
     .closing "\x7d"]
  | .primitive .bytes =>
    [.opening "\x7b",
     .line "let len = read_uvarint(buf)?;",
     .opening "if len == 0 \x7b",
     nullFailure f,
     .closing "\x7d",
     .line "let len = (len - 1) as usize;"] ++
    remainingCheck ++
    [.line (renderStore sink f.ident "buf.copy_to_bytes(len).to_vec()"),
     .closing "\x7d"]
  | .record name decoder =>
    let wrap := s!"|e| DecodeError::nested({Text.quote record.name}, {Text.quote f.ident}, e)"
    [.line (renderStore sink f.ident
      s!"{nestedCall plan record name decoder}.map_err({wrap})?")]

def read (plan : UnitPlan) (record : RecordPlan) (f : FieldPlan) : List Mark :=
  if !f.isArray then value plan record f .assign
  else
    [.opening "\x7b",
     .line "let count = read_uvarint(buf)?;",
     .opening "if count == 0 \x7b",
     nullFailure f,
     .closing "\x7d",
     .opening "for _ in 0..count - 1 \x7b"] ++
    value plan record f .push ++
    [.closing "\x7d",
     .closing "\x7d"]

def defaultAssignment? (f : FieldPlan) : Option String :=
  match f.default with
  | .absent => none
  | .string s => some s!"res.{f.ident} = ::std::string::String::from({Text.quote s});"
  | .int v => some s!"res.{f.ident} = {v};"

def field (plan : UnitPlan) (record : RecordPlan) (f : FieldPlan) : List Mark :=
  match f.readGuard with
  | none => read plan record f
  | some guard =>
    .opening ("if " ++ renderGuard guard ++ openBrace) :: read plan record f ++
    (match defaultAssignment? f with
      | some fallback => [.reopening "\x7d else \x7b", .line fallback]
      | none => []) ++
    [.closing "\x7d"]

def body (plan : UnitPlan) (record : RecordPlan) : List Mark :=
  .line s!"let mut res: {record.name} = ::core::default::Default::default();" ::
  record.fields.flatMap (field plan record) ++
  [.line "Ok(res)"]

/-- The decoder of a record. One that counts levels has a twin, and itself only starts the
count. -/
def decoder (plan : UnitPlan) (record : RecordPlan) (runtime : String) : List Mark :=
  .line s!"/// Decode `{record.name}` for protocol `version`, advancing `buf` past it." ::
  match record.depthDecoder with
  | none =>
    .line decoderLints ::
    .opening (s!"pub fn {record.decoder}(buf: &mut &[u8], version: i16) -> " ++
      returns record runtime ++ openBrace) ::
    body plan record ++
    [.closing "\x7d"]
  | some counting =>
    [.line "#[allow(non_snake_case)]",
     .opening (s!"pub fn {record.decoder}(buf: &mut &[u8], version: i16) -> " ++
      returns record runtime ++ openBrace),
     .line s!"{counting}(buf, version, 0)",
     .closing "\x7d",
     .blank,
     .line decoderLints,
     .opening (s!"fn {counting}(buf: &mut &[u8], version: i16, depth: usize) -> " ++
      returns record runtime ++ openBrace),
     .opening (s!"if depth >= {runtime}::MAX_NESTING_DEPTH" ++ openBrace),
     .line (s!"return Err({runtime}::DecodeError::nesting_too_deep(" ++
      s!"{runtime}::MAX_NESTING_DEPTH));"),
     .closing "\x7d"] ++
    body plan record ++
    [.closing "\x7d"]

def shape (record : RecordPlan) : List Mark :=
  [.line "#[allow(non_snake_case, non_camel_case_types)]",
   .line "#[derive(Debug, Clone, Default, PartialEq, Eq)]",
   .opening (s!"pub struct {record.name}" ++ openBrace)] ++
  record.fields.flatMap (fun f =>
    (memberAbout f).map .line ++ [.line s!"pub {f.ident}: {f.typeName},"]) ++
  [.closing "\x7d"]

def struct (plan : UnitPlan) (record : RecordPlan) : List Mark :=
  (recordAbout plan record).map .line ++ shape record

def head (plan : UnitPlan) (options : CompileOptions) : List Mark :=
  [.line s!"// Code generated by wiregen from `{plan.messageName}`. DO NOT EDIT.",
   .line s!"// module: {options.moduleName}"] ++
  if plan.facilities.isEmpty then []
  else
    .blank :: plan.facilities.toList.map fun f => .line s!"use {options.runtime}::{f.item};"

def unit (plan : UnitPlan) (options : CompileOptions) : List Mark :=
  head plan options ++
  plan.records.flatMap fun record =>
    .blank :: struct plan record ++ .blank :: decoder plan record options.runtime

end WireSchema.Source.Emit

/-!
Command-line arguments: options by long or short name, with their values attached or in the next
argument, and operands.
-/

namespace WireSchema.Command

inductive Takes where
  | nothing
  | text
  /-- A path, which cannot be empty. -/
  | path
  deriving DecidableEq, Repr

structure OptionSpec where
  long : String
  short : Option Char
  takes : Takes
  repeats : Bool := false
  deriving DecidableEq, Repr

inductive Refusal where
  | help
  | usage
  deriving DecidableEq, Repr

/-- Options in the order given, with an empty value for those that take nothing, and operands. -/
structure Parsed where
  options : List (String × String) := []
  operands : List String := []
  deriving DecidableEq, Repr

namespace Parsed

def has (p : Parsed) (long : String) : Bool := p.options.any fun o => o.1 == long

def value? (p : Parsed) (long : String) : Option String := p.options.lookup long

def values (p : Parsed) (long : String) : List String :=
  (p.options.filter fun o => o.1 == long).map Prod.snd

/-- Adds an option. Only some may be given twice, and a path cannot be empty. -/
def add (p : Parsed) (spec : OptionSpec) (value : String) : Except Refusal Parsed :=
  if spec.long = "help" then .error .help
  else if p.has spec.long && !spec.repeats then .error .usage
  else if spec.takes = .path && value.isEmpty then .error .usage
  else .ok { p with options := p.options ++ [(spec.long, value)] }

end Parsed

inductive Shape where
  /-- `--`, after which all arguments are operands. -/
  | escape
  /-- `--name` or `--name=value`. -/
  | long (name : String) (value : Option String)
  /-- `-` and at least one letter. -/
  | short (letters : List Char)
  | plain
  deriving DecidableEq, Repr

def shapeOf (argument : String) : Shape :=
  match argument.toList with
  | ['-', '-'] => .escape
  | '-' :: '-' :: rest =>
    let name := String.ofList (rest.takeWhile fun c => c != '=')
    match rest.dropWhile (fun c => c != '=') with
    | [] => .long name none
    | _ :: value => .long name (some (String.ofList value))
  | '-' :: c :: rest => .short (c :: rest)
  | _ => .plain

/-- What is left to do after the letters of one argument. -/
inductive AfterShort where
  | done (parsed : Parsed)
  /-- The option takes its value from the next argument. -/
  | wants (spec : OptionSpec) (parsed : Parsed)

/-- Goes through the letters of an argument. The first that takes a value takes the rest, without
an equals sign in front. -/
def addShort (specs : List OptionSpec) (p : Parsed) : List Char → Except Refusal AfterShort
  | [] => .ok (.done p)
  | c :: rest =>
    match specs.find? (fun s => s.short == some c) with
    | none => .error .usage
    | some spec =>
      if spec.takes = .nothing then do
        let p ← p.add spec ""
        addShort specs p rest
      else
        match rest with
        | [] => .ok (.wants spec p)
        | '=' :: value => (p.add spec (String.ofList value)).map .done
        | value => (p.add spec (String.ofList value)).map .done

def addLong (specs : List OptionSpec) (p : Parsed) (name : String) (value : Option String) :
    Except Refusal AfterShort :=
  match specs.find? (fun s => s.long == name) with
  | none => .error .usage
  | some spec =>
    match spec.takes, value with
    | .nothing, none => (p.add spec "").map .done
    | .nothing, some _ => .error .usage
    | _, none => .ok (.wants spec p)
    | _, some v => (p.add spec v).map .done

def addOperands (limit : Nat) (p : Parsed) (operands : List String) : Except Refusal Parsed :=
  let all := p.operands ++ operands
  if all.length ≤ limit && !operands.any String.isEmpty then .ok { p with operands := all }
  else .error .usage

/-- Reads arguments against the options there are and the most operands there may be. -/
def parseArguments (specs : List OptionSpec) (limit : Nat) (p : Parsed) :
    List String → Except Refusal Parsed
  | [] => .ok p
  | argument :: rest =>
    match shapeOf argument with
    | .escape => addOperands limit p rest
    | .plain => do
      let p ← addOperands limit p [argument]
      parseArguments specs limit p rest
    | shape => do
      let after ←
        match shape with
        | .long name value => addLong specs p name value
        | .short letters => addShort specs p letters
        | _ => .error .usage
      match after, rest with
      | .done p, rest => parseArguments specs limit p rest
      | .wants _ _, [] => .error .usage
      | .wants spec p, value :: rest =>
        if shapeOf value = .plain then do
          let p ← p.add spec value
          parseArguments specs limit p rest
        else .error .usage

end WireSchema.Command

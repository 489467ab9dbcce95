import WireSchema.Command.Arguments

/-!
The commands and their options.
-/

namespace WireSchema.Command

structure GenerateCommand where
  moduleName : String
  inputs : List String
  output : String
  keepGoing : Bool
  runtime : Option String
  deriving DecidableEq, Repr

structure PlanCommand where
  input : String
  showSource : Bool
  moduleName : String
  output : Option String
  deriving DecidableEq, Repr

inductive Invocation where
  | generate (command : GenerateCommand)
  | plan (command : PlanCommand)
  deriving DecidableEq, Repr

def verboseOption : OptionSpec := ⟨"verbose", some 'v', .nothing, false⟩

def helpOption : OptionSpec := ⟨"help", some 'h', .nothing, false⟩

def globalOptions : List OptionSpec := [verboseOption, helpOption]

def generateOptions : List OptionSpec :=
  [⟨"module", some 'm', .text, false⟩,
   ⟨"in", some 'i', .path, true⟩,
   ⟨"out", some 'o', .path, false⟩,
   ⟨"keep-going", none, .nothing, false⟩,
   ⟨"runtime-crate", none, .text, false⟩] ++ globalOptions

def planOptions : List OptionSpec :=
  [⟨"source", none, .nothing, false⟩,
   ⟨"module", some 'm', .text, false⟩,
   ⟨"output", some 'o', .path, false⟩] ++ globalOptions

def parseGenerate (arguments : List String) : Except Refusal GenerateCommand := do
  let p ← parseArguments generateOptions 0 {} arguments
  match p.value? "module", p.values "in", p.value? "out" with
  | some moduleName, i :: is, some output =>
    return { moduleName := moduleName
             inputs := i :: is
             output := output
             keepGoing := p.has "keep-going"
             runtime := p.value? "runtime-crate" }
  | _, _, _ => .error .usage

def parsePlan (arguments : List String) : Except Refusal PlanCommand := do
  let p ← parseArguments planOptions 1 {} arguments
  match p.operands with
  | [input] =>
    return { input := input
             showSource := p.has "source"
             moduleName := (p.value? "module").getD "messages"
             output := p.value? "output" }
  | _ => .error .usage

inductive Topic where
  | program
  | generate
  | plan
  | help
  deriving DecidableEq, Repr

/-- An answer to arguments other than running a command. -/
inductive Answer where
  | help (topic : Topic)
  | usage
  deriving DecidableEq, Repr

def Answer.of (topic : Topic) : Refusal → Answer
  | .help => .help topic
  | .usage => .usage

/-- `help` explains the program or one of its commands, itself included. -/
def parseHelp : List String → Answer
  | [] => .help .program
  | ["generate"] => .help .generate
  | ["plan"] => .help .plan
  | ["help"] => .help .help
  | _ => .usage

def parseGlobal (p : Parsed) (argument : String) : Except Refusal Parsed := do
  let after ←
    match shapeOf argument with
    | .long name value => addLong globalOptions p name value
    | .short letters => addShort globalOptions p letters
    | _ => .error .usage
  match after with
  | .done p => return p
  | .wants _ _ => .error .usage

def parseCommand (p : Parsed) : List String → Except Answer Invocation
  | [] => .error .usage
  | argument :: rest =>
    if argument = "generate" then
      ((parseGenerate rest).map Invocation.generate).mapError (.of .generate)
    else if argument = "plan" then
      ((parsePlan rest).map Invocation.plan).mapError (.of .plan)
    else if argument = "help" then .error (parseHelp rest)
    else do
      let p ← (parseGlobal p argument).mapError (.of .program)
      parseCommand p rest

def Invocation.parse (arguments : List String) : Except Answer Invocation :=
  parseCommand {} arguments

end WireSchema.Command

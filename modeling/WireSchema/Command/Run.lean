import WireSchema.Command.Help
import WireSchema.Generate

/-!
What a command prints, and what it does to a file tree.
-/

namespace WireSchema.Command

open Files

/-- An error and what caused it, from the outermost to the innermost. -/
structure Problem where
  message : String
  causes : List String := []
  deriving DecidableEq, Repr

namespace Problem

def indentLines (indent : String) (s : String) : String :=
  ("\n" ++ indent).intercalate (s.splitOn "\n")

def numbered (n : Nat) : List String → String
  | [] => ""
  | cause :: rest =>
    let number := toString n
    let padding := String.ofList (List.replicate (5 - number.length) ' ')
    "\n" ++ padding ++ number ++ ": " ++ indentLines "       " cause ++ numbered (n + 1) rest

def renderCauses : List String → String
  | [] => ""
  | [cause] => "\n\nCaused by:\n    " ++ indentLines "    " cause
  | causes => "\n\nCaused by:" ++ numbered 0 causes

def render (p : Problem) : String := "Error: " ++ p.message ++ renderCauses p.causes ++ "\n"

end Problem

def loadCauses : LoadError → List String
  | .json f => [(LoadError.json f).message, f.message]
  | e => [e.message]

def Problem.ofGenerator (e : GeneratorError) : Problem where
  message := e.message
  causes :=
    match e with
    | .access _ cause => [cause.message]
    | .load _ cause => loadCauses cause
    | .compile _ cause => [cause.message]
    | .duplicateOutput _ _ _ => []

structure Outcome where
  code : Nat
  output : String := ""
  errors : String := ""
  deriving DecidableEq, Repr

def Outcome.ofProblem (p : Problem) : Outcome := { code := 1, errors := p.render }

def GenerateCommand.generator (c : GenerateCommand) : Generator where
  options :=
    match c.runtime with
    | some runtime => { moduleName := c.moduleName, runtime := runtime }
    | none => { moduleName := c.moduleName }
  policy := if c.keepGoing then .keepGoing else .failFast

def generateOutcome : Except GeneratorError Report → Outcome
  | .error e => .ofProblem (.ofGenerator e)
  | .ok report =>
    if report.isClean then { code := 0 }
    else .ofProblem ⟨s!"{report.failures.length} schema(s) failed to compile", []⟩

/-- What the plan command shows or writes, given what reading its schema gave. -/
def PlanCommand.text (c : PlanCommand) (content : Except AccessError Bytes) :
    Except Problem String := do
  let text ← (content.bind Generator.decodeText).mapError fun e =>
    ⟨s!"problem reading '{c.input}'", [e.message]⟩
  let message ← (Message.load text).mapError fun e =>
    ⟨s!"problem loading '{c.input}'", loadCauses e⟩
  let compiled ← (compile message { moduleName := c.moduleName }).mapError fun e =>
    ⟨s!"problem compiling '{c.input}'", [e.message]⟩
  return if c.showSource then compiled.source else compiled.plan.listing

def runPlan (c : PlanCommand) (t : Tree) : Outcome × Tree :=
  match c.text (t.read c.input), c.output with
  | .error p, _ => (.ofProblem p, t)
  | .ok text, none => ({ code := 0, output := text }, t)
  | .ok text, some path =>
    match t.write path (Text.encode text.toList) with
    | .ok t => ({ code := 0 }, t)
    | .error e => (.ofProblem ⟨e.message, []⟩, t)

def Answer.outcome : Answer → Outcome
  | .help topic => { code := 0, output := topic.text }
  | .usage =>
    { code := 2
      errors := "error: invalid arguments\n\nFor more information, try '--help'.\n" }

def run (arguments : List String) (t : Tree) : Outcome × Tree :=
  match Invocation.parse arguments with
  | .error answer => (answer.outcome, t)
  | .ok (.plan c) => runPlan c t
  | .ok (.generate c) =>
    let (result, t) := c.generator.generate t c.inputs c.output
    (generateOutcome result, t)

end WireSchema.Command

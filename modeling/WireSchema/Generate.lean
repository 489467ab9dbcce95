import WireSchema.Compile
import WireSchema.Files.Tree
import WireSchema.Schema.Load
import WireSchema.Text.Utf8

/-!
Generating the sources of all schemas in some directories. All schemas are compiled before anything
is written.
-/

namespace WireSchema

open Files

inductive GeneratorError where
  | access (path : String) (cause : AccessError)
  | load (path : String) (cause : LoadError)
  | compile (path : String) (cause : CompileError)
  /-- Two schemas give the same file. -/
  | duplicateOutput (fileName first second : String)
  deriving DecidableEq, Repr

namespace GeneratorError

def message : GeneratorError → String
  | access path cause => s!"I/O error on '{path}': {cause.message}"
  | load path cause => s!"problem loading schema '{path}': {cause.message}"
  | compile path cause => s!"problem compiling schema '{path}': {cause.message}"
  | duplicateOutput fileName first second =>
    s!"'{first}' and '{second}' both generate '{fileName}'"

end GeneratorError

inductive FailurePolicy where
  /-- Stop, and write nothing. -/
  | failFast
  /-- Leave it out. -/
  | keepGoing
  deriving DecidableEq, Repr

structure Generator where
  options : CompileOptions
  policy : FailurePolicy := .failFast
  /-- The extension of schema files, if they need one. -/
  extension : Option String := some "json"

structure UnitFailure where
  path : String
  error : GeneratorError
  deriving DecidableEq, Repr

structure Report where
  /-- The files written, in the order of their schemas. -/
  written : List String
  failures : List UnitFailure
  deriving DecidableEq, Repr

def Report.isClean (r : Report) : Bool := r.failures.isEmpty

namespace Generator

def takes (g : Generator) (name : String) : Bool :=
  match g.extension with
  | none => true
  | some wanted => (extension? name).any fun found => sameIgnoringCase found wanted

/-- The paths of the schemas among the entries of a directory, in the order of their names. A file
whose path is too long is out of reach. -/
def select (g : Generator) (directory : String) (entries : List (Name × Entry)) : List String :=
  let names := entries.filterMap fun (name, entry) =>
    match entry with
    | .file _ => if g.takes name.text then some name.text else none
    | .directory => none
  let paths := (names.mergeSort fun a b => decide (a ≤ b)).map (join directory)
  paths.filter fun path => !isLongPath path

def collect (g : Generator) (t : Tree) : List String → Except GeneratorError (List String)
  | [] => .ok []
  | directory :: rest => do
    let entries ← (t.list directory).mapError (.access directory)
    let others ← g.collect t rest
    return g.select directory entries ++ others

def decodeText (content : Bytes) : Except AccessError String :=
  match Text.decode? content with
  | some s => .ok (String.ofList s)
  | none => .error .notText

def compileContent (g : Generator) (path : String) (content : Except AccessError Bytes) :
    Except GeneratorError CompiledUnit := do
  let text ← (content.bind decodeText).mapError (.access path)
  let message ← (Message.load text).mapError (.load path)
  (WireSchema.compile message g.options).mapError (.compile path)

def compileFile (g : Generator) (t : Tree) (path : String) :
    Except GeneratorError CompiledUnit :=
  g.compileContent path (t.read path)

def claim (claimed : List (String × String)) (path : String) (u : CompiledUnit) :
    Except GeneratorError CompiledUnit :=
  match claimed.lookup u.fileName with
  | some first => .error (.duplicateOutput u.fileName first path)
  | none => .ok u

/-- Goes through the results in order. Gives the units to write and the schemas left out, or the
error to stop with. -/
def settle (policy : FailurePolicy) (claimed : List (String × String)) :
    List (String × Except GeneratorError CompiledUnit) →
      Except GeneratorError (List CompiledUnit × List UnitFailure)
  | [] => .ok ([], [])
  | (path, result) :: rest =>
    match result.bind (claim claimed path), policy with
    | .ok u, _ => do
      let (units, failures) ← settle policy ((u.fileName, path) :: claimed) rest
      return (u :: units, failures)
    | .error e, .failFast => .error e
    | .error e, .keepGoing => do
      let (units, failures) ← settle policy claimed rest
      return (units, ⟨path, e⟩ :: failures)

def writeUnits (t : Tree) (output : String) :
    List CompiledUnit → Except GeneratorError (List String) × Tree
  | [] => (.ok [], t)
  | u :: rest =>
    let target := join output u.fileName
    match t.write target (Text.encode u.source.toList) with
    | .error e => (.error (.access target e), t)
    | .ok t =>
      match writeUnits t output rest with
      | (.ok written, t) => (.ok (target :: written), t)
      | (.error e, t) => (.error e, t)

def commit (t : Tree) (output : String) (units : List CompiledUnit) (failures : List UnitFailure) :
    Except GeneratorError Report × Tree :=
  match t.makeDirectories output with
  | (.error e, t) => (.error (.access output e), t)
  | (.ok (), t) =>
    match writeUnits t output units with
    | (.error e, t) => (.error e, t)
    | (.ok written, t) => (.ok ⟨written, failures⟩, t)

/-- The units to write for the schemas in some directories, and the schemas left out. -/
def prepare (g : Generator) (t : Tree) (inputs : List String) :
    Except GeneratorError (List CompiledUnit × List UnitFailure) := do
  let paths ← g.collect t inputs
  settle g.policy [] (paths.map fun path => (path, g.compileFile t path))

def generate (g : Generator) (t : Tree) (inputs : List String) (output : String) :
    Except GeneratorError Report × Tree :=
  match g.prepare t inputs with
  | .error e => (.error e, t)
  | .ok (units, failures) => commit t output units failures

end Generator

end WireSchema

import WireSchema.Command.Run

/-!
The program: reads its arguments, works on the files of the system and reports.
-/

namespace WireSchema.Main

open Files
open Command

/-- The system's number for a directory in place of a file. -/
def isDirectoryCode : UInt32 := 21

/-- The system's number for a name or a path that is too long. Some calls report it negated. -/
def nameTooLongCodes : List UInt32 := [36, 0 - 36]

def accessError : IO.Error → AccessError
  | .noFileOrDirectory _ _ _ => .notFound
  | .noSuchThing _ _ _ => .notFound
  | .alreadyExists _ _ _ => .alreadyExists
  | .inappropriateType _ code _ => if code = isDirectoryCode then .isDirectory else .notDirectory
  | .invalidArgument _ code text =>
    if nameTooLongCodes.contains code then .nameTooLong else .other text
  | e => .other (toString e)

def attempt {α : Type} (action : IO α) : IO (Except AccessError α) := do
  try
    return .ok (← action)
  catch e =>
    return .error (accessError e)

def readFile (path : String) : IO (Except AccessError Bytes) :=
  attempt do
    let content ← IO.FS.readBinFile path
    return content.toList

def listDirectory (path : String) : IO (Except AccessError (List (Name × Entry))) :=
  attempt do
    let directory ← IO.FS.realPath path
    let entries ← directory.readDir
    entries.toList.filterMapM fun entry => do
      let info ← entry.path.metadata
      return (Name.ofString? entry.fileName).map fun name =>
        (name, if info.type == .file then .file [] else .directory)

def writeFile (path text : String) : IO (Except AccessError Unit) :=
  attempt (IO.FS.writeFile path text)

def collect (g : Generator) : List String → IO (Except GeneratorError (List String))
  | [] => return .ok []
  | directory :: rest => do
    match ← listDirectory directory with
    | .error e => return .error (.access directory e)
    | .ok entries =>
      let others ← collect g rest
      return others.map (g.select directory entries ++ ·)

def writeUnits (output : String) : List CompiledUnit → IO (Except GeneratorError (List String))
  | [] => return .ok []
  | u :: rest => do
    let target := join output u.fileName
    match ← writeFile target u.source with
    | .error e => return .error (.access target e)
    | .ok () =>
      let others ← writeUnits output rest
      return others.map (target :: ·)

def generate (c : GenerateCommand) : IO (Except GeneratorError Report) := do
  match ← collect c.generator c.inputs with
  | .error e => return .error e
  | .ok paths =>
    let results ← paths.mapM fun path => do
      return (path, c.generator.compileContent path (← readFile path))
    match Generator.settle c.generator.policy [] results with
    | .error e => return .error e
    | .ok (units, failures) =>
      match ← attempt (IO.FS.createDirAll c.output) with
      | .error e => return .error (.access c.output e)
      | .ok () => return (← writeUnits c.output units).map fun written => ⟨written, failures⟩

def plan (c : PlanCommand) : IO Outcome := do
  match c.text (← readFile c.input), c.output with
  | .error p, _ => return .ofProblem p
  | .ok text, none => return { code := 0, output := text }
  | .ok text, some path =>
    match ← writeFile path text with
    | .ok () => return { code := 0 }
    | .error e => return .ofProblem ⟨e.message, []⟩

def run (arguments : List String) : IO Outcome := do
  match Invocation.parse arguments with
  | .error answer => return answer.outcome
  | .ok (.plan c) => plan c
  | .ok (.generate c) => return generateOutcome (← generate c)

end WireSchema.Main

def main (arguments : List String) : IO UInt32 := do
  let outcome ← WireSchema.Main.run arguments
  IO.print outcome.output
  IO.eprint outcome.errors
  return UInt32.ofNat outcome.code

import WireSchema.Files.Path
import WireSchema.Wire.Read

/-!
File trees, and what reading, listing and writing do to them.
-/

namespace WireSchema.Files

inductive AccessError where
  | notFound
  | notDirectory
  | alreadyExists
  | isDirectory
  | nameTooLong
  | nullInPath
  | notText
  /-- A failure that only a file system outside the program knows. -/
  | other (text : String)
  deriving DecidableEq, Repr

def AccessError.message : AccessError → String
  | notFound => "No such file or directory (os error 2)"
  | notDirectory => "Not a directory (os error 20)"
  | alreadyExists => "File exists (os error 17)"
  | isDirectory => "Is a directory (os error 21)"
  | nameTooLong => "File name too long (os error 36)"
  | nullInPath => "file name contained an unexpected NUL byte"
  | notText => "stream did not contain valid UTF-8"
  | other text => text

/-- The names from the root of a tree down to an entry. -/
abbrev Place := List Name

inductive Entry where
  | file (content : Bytes)
  | directory
  deriving DecidableEq, Repr

/-- A file tree: its entries below the root, which is a directory. No place has two of them. -/
structure Tree where
  entries : List (Place × Entry)
  distinct : (entries.map Prod.fst).Nodup
  deriving DecidableEq

namespace Tree

def empty : Tree := ⟨[], .nil⟩

def get? (t : Tree) (place : Place) : Option Entry :=
  if place = [] then some .directory else t.entries.lookup place

def setIn (place : Place) (entry : Entry) : List (Place × Entry) → List (Place × Entry)
  | [] => [(place, entry)]
  | (p, e) :: rest =>
    if p = place then (place, entry) :: rest else (p, e) :: setIn place entry rest

theorem places_setIn (place : Place) (entry : Entry) (entries : List (Place × Entry)) :
    (setIn place entry entries).map Prod.fst =
      if place ∈ entries.map Prod.fst then entries.map Prod.fst
      else entries.map Prod.fst ++ [place] := by
  induction entries with
  | nil => rfl
  | cons head rest ih =>
    by_cases hp : head.1 = place
    · simp [setIn, hp]
    · have hp' : place ≠ head.1 := fun h => hp h.symm
      simp only [setIn, hp, if_false, List.map_cons, ih, List.mem_cons, hp', false_or]
      split <;> rfl

theorem distinct_setIn (place : Place) (entry : Entry) {entries : List (Place × Entry)}
    (h : (entries.map Prod.fst).Nodup) : ((setIn place entry entries).map Prod.fst).Nodup := by
  rw [places_setIn]
  split
  · exact h
  · rename_i hnew
    refine List.nodup_append.mpr ⟨h, List.pairwise_singleton _ _, ?_⟩
    intro p hp q hq he
    rw [he, List.mem_singleton.mp hq] at hp
    exact hnew hp

def set (t : Tree) (place : Place) (entry : Entry) : Tree :=
  ⟨setIn place entry t.entries, distinct_setIn place entry t.distinct⟩

def erase (t : Tree) (place : Place) : Tree :=
  ⟨t.entries.filter fun e => e.1 != place, t.distinct.sublist (List.filter_sublist.map Prod.fst)⟩

def nameIn? (directory : Place) : Place → Option Name
  | [] => none
  | [name] => if directory = [] then some name else none
  | top :: rest =>
    match directory with
    | [] => none
    | d :: below => if d = top then nameIn? below rest else none

def children (t : Tree) (directory : Place) : List (Name × Entry) :=
  t.entries.filterMap fun (place, entry) =>
    (nameIn? directory place).map fun name => (name, entry)

/-- The order of places in a listing: by the first names that differ, and a directory before what
lies in it. -/
def isBefore : Place → Place → Bool
  | [], _ => true
  | _ :: _, [] => false
  | a :: as, b :: bs => if a = b then isBefore as bs else decide (a.text < b.text)

/-- The entries with each directory before what lies in it, and neighbours in the order of their
names. -/
def sorted (t : Tree) : List (Place × Entry) :=
  t.entries.mergeSort fun a b => isBefore a.1 b.1

def requireDirectory (t : Tree) (place : Place) : Except AccessError Unit :=
  match t.get? place with
  | some .directory => .ok ()
  | some (.file _) => .error .notDirectory
  | none => .error .notFound

def requirePath (path : String) : Except AccessError Unit :=
  if hasNull path then .error .nullInPath
  else if isLongPath path then .error .nameTooLong
  else .ok ()

def requireName (text : String) : Except AccessError Name :=
  if isLongName text then .error .nameTooLong
  else
    match Name.ofString? text with
    | some name => .ok name
    | none => .error .notFound

/-- Follows names from a place on. All that are passed through have to be directories. -/
def walk (t : Tree) (here : Place) : List String → Except AccessError Place
  | [] => .ok here
  | name :: rest => do
    t.requireDirectory here
    if name = "." then t.walk here rest
    else if name = ".." then t.walk here.dropLast rest
    else
      let name ← requireName name
      t.walk (here ++ [name]) rest

def resolve (t : Tree) (path : String) : Except AccessError Place := do
  requirePath path
  if path.isEmpty then .error .notFound else t.walk [] (components path)

def lookup (t : Tree) (path : String) : Except AccessError Entry := do
  let place ← t.resolve path
  match t.get? place with
  | none => .error .notFound
  | some .directory => .ok .directory
  | some (.file content) =>
    if leadsToDirectory path then .error .notDirectory else .ok (.file content)

def list (t : Tree) (path : String) : Except AccessError (List (Name × Entry)) := do
  match ← t.lookup path with
  | .file _ => .error .notDirectory
  | .directory =>
    let place ← t.resolve path
    return t.children place

def read (t : Tree) (path : String) : Except AccessError Bytes := do
  match ← t.lookup path with
  | .file content => return content
  | .directory => .error .isDirectory

def makeDirectory (t : Tree) (names : List String) : Except AccessError Tree := do
  let place ← t.walk [] names
  match t.get? place with
  | none => return t.set place .directory
  | some _ => .error .alreadyExists

def isDirectory (t : Tree) (names : List String) : Bool :=
  match t.walk [] names with
  | .ok place => t.get? place = some .directory
  | .error _ => false

/-- The outcome of making a directory that may be there already. -/
def settleDirectory (t : Tree) (names : List String) :
    Except AccessError Tree → Except AccessError Unit × Tree
  | .ok t => (.ok (), t)
  | .error e => (if t.isDirectory names then .ok () else .error e, t)

/-- Makes the first of a list of directories, each of which lies in the next, after those of the
others that it needs. -/
def makeChain (t : Tree) : List (List String) → Except AccessError Unit × Tree
  | [] => (.ok (), t)
  | names :: outer =>
    match t.makeDirectory names with
    | .error .notFound =>
      match t.makeChain outer with
      | (.error e, t) => (.error e, t)
      | (.ok (), t) => t.settleDirectory names (t.makeDirectory names)
    | result => t.settleDirectory names result

/-- The lists of names that a list starts with, itself and the empty one left out, longest first. -/
def outerPaths : List String → List (List String)
  | [] => []
  | [_] => []
  | name :: rest => (outerPaths rest).map (name :: ·) ++ [[name]]

def makeDirectories (t : Tree) (path : String) : Except AccessError Unit × Tree :=
  match components path, requirePath path with
  | [], _ => (.ok (), t)
  | _, .error e => (.error e, t)
  | names, .ok () => t.makeChain (names :: outerPaths (names.filter fun name => name != "."))

/-- That the last name of a path is looked for in a directory, whatever that name is. -/
def requireParent (t : Tree) (path : String) : Except AccessError Unit := do
  requirePath path
  if path.isEmpty then .error .notFound
  else
    let parent ← t.walk [] (components path).dropLast
    t.requireDirectory parent

def writeAt (t : Tree) (place : Place) (content : Bytes) : Except AccessError Tree :=
  match t.get? place with
  | some .directory => .error .isDirectory
  | _ => .ok (t.set place (.file content))

/-- Writes a file. A path that can only lead to a directory is refused before its last name is
looked at. -/
def write (t : Tree) (path : String) (content : Bytes) : Except AccessError Tree := do
  t.requireParent path
  if leadsToDirectory path then .error .isDirectory
  else
    let place ← t.resolve path
    t.writeAt place content

end Tree

end WireSchema.Files

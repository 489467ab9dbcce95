/-!
Lines of source and their indentation. A line may open a block, which indents the lines after it,
close one, or do both.
-/

namespace WireSchema.Source

inductive Mark where
  | line (text : String)
  | blank
  /-- A line that indents those after it. -/
  | opening (text : String)
  /-- A line that ends an indented part and starts another. -/
  | reopening (text : String)
  /-- A line that ends an indented part. -/
  | closing (text : String)
  deriving DecidableEq, Repr

/-- A line at a depth. An empty line is not indented. -/
def indented (depth : Nat) (text : String) : String :=
  if text.isEmpty then "\n" else String.join (List.replicate depth "    ") ++ text ++ "\n"

/-- The depth at which a mark's own line stands, when `depth` blocks are open before it. -/
def Mark.lineDepth (depth : Nat) : Mark → Nat
  | line _ => depth
  | blank => depth
  | opening _ => depth
  | reopening _ => depth - 1
  | closing _ => depth - 1

def Mark.depthAfter (depth : Nat) : Mark → Nat
  | line _ => depth
  | blank => depth
  | opening _ => depth + 1
  | reopening _ => depth - 1 + 1
  | closing _ => depth - 1

def Mark.text : Mark → String
  | line text => text
  | blank => ""
  | opening text => text
  | reopening text => text
  | closing text => text

def layoutFrom (depth : Nat) : List Mark → List String
  | [] => []
  | m :: rest => indented (m.lineDepth depth) m.text :: layoutFrom (m.depthAfter depth) rest

def layout (marks : List Mark) : String := String.join (layoutFrom 0 marks)

end WireSchema.Source

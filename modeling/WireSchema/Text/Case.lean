import WireSchema.Text.CaseTable
import WireSchema.Text.Range

/-!
Upper and lower case of characters and texts. A form may be longer than its character, and a
capital sigma that ends a word has a lower-case form of its own.
-/

namespace WireSchema.Text

def CaseRun.covers (r : CaseRun) (n : Nat) : Bool :=
  r.first ≤ n && n ≤ r.last && (n - r.first) % r.step == 0

def CaseRun.counterpart (r : CaseRun) (n : Nat) : Char :=
  Char.ofNat (Int.toNat (n + r.shift))

def caseForm (expansions : List (Nat × List Nat)) (runs : List CaseRun) (c : Char) : List Char :=
  match expansions.find? (fun e => e.1 == c.toNat) with
  | some e => e.2.map Char.ofNat
  | none =>
    match runs.find? (fun r => r.covers c.toNat) with
    | some r => [r.counterpart c.toNat]
    | none => [c]

def isAscii (c : Char) : Bool := c.toNat < 128

def upperChar (c : Char) : List Char :=
  if isAscii c then [c.toUpper] else caseForm upperExpansions upperRuns c

def lowerChar (c : Char) : List Char :=
  if isAscii c then [c.toLower] else caseForm lowerExpansions lowerRuns c

def isCased (c : Char) : Bool :=
  if isAscii c then c.isAlpha else inRanges casedRanges c

def isCaseIgnorable (c : Char) : Bool :=
  if isAscii c then ['\'', '.', ':', '^', '\x60'].contains c else inRanges caseIgnorableRanges c

/-- Whether the first character that is not passed over has case. -/
def meetsCased (s : List Char) : Bool :=
  match s.dropWhile isCaseIgnorable with
  | [] => false
  | c :: _ => isCased c

def upper (s : List Char) : List Char := s.flatMap upperChar

/-- The lower-case form of a text that stands after the text `before`, which is given in reverse. -/
def lowerFrom (before : List Char) : List Char → List Char
  | [] => []
  | c :: rest =>
    let form :=
      if c == 'Σ' then
        [if meetsCased before && !meetsCased rest then 'ς' else 'σ']
      else
        lowerChar c
    form ++ lowerFrom (c :: before) rest

/-- The lower-case form of a text. A capital sigma is final when a letter with case stands before
it and none after it. -/
def lower (s : List Char) : List Char := lowerFrom [] s

def capitalize (s : String) : String :=
  match s.toList with
  | [] => ""
  | c :: rest => String.ofList (upperChar c ++ rest)

end WireSchema.Text

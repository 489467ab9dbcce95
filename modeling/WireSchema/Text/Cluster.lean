import WireSchema.Text.ClusterTable
import WireSchema.Text.Range

/-!
Grapheme clusters: what a reader takes for one character, by the extended rules of text
segmentation.
-/

namespace WireSchema.Text

inductive ClusterClass where
  | carriageReturn
  | lineFeed
  | control
  | extend
  | joiner
  | regional
  | prepend
  | spacingMark
  | leadingJamo
  | vowelJamo
  | trailingJamo
  | openSyllable
  | closedSyllable
  | pictograph
  | consonant
  | other
  deriving DecidableEq, Repr

def within (first last n : Nat) : Bool := first ≤ n && n ≤ last

/-- Vowels that complete a syllable: the Hangul jamo, and the vowel signs of Kirat Rai, which build
their compounds by the same rule. -/
def isVowelJamo (n : Nat) : Bool :=
  within 0x1160 0x11A7 n || within 0xD7B0 0xD7C6 n || n == 0x16D63 || within 0x16D67 0x16D6A n

/-- The character that forbids the consonants around it to form a conjunct. -/
def nonJoiner : Char := '\u200c'

def clusterClass (c : Char) : ClusterClass :=
  let n := c.toNat
  if n == 0x0D then .carriageReturn
  else if n == 0x0A then .lineFeed
  else if n == 0x200D then .joiner
  else if inRanges controlRanges c then .control
  else if n < 0x80 then .other
  else if inRanges extendRanges c || within 0x1F3FB 0x1F3FF n then .extend
  else if within 0x1F1E6 0x1F1FF n then .regional
  else if inRanges prependRanges c then .prepend
  else if inRanges spacingMarkRanges c then .spacingMark
  else if within 0x1100 0x115F n || within 0xA960 0xA97C n then .leadingJamo
  else if isVowelJamo n then .vowelJamo
  else if within 0x11A8 0x11FF n || within 0xD7CB 0xD7FB n then .trailingJamo
  else if within 0xAC00 0xD7A3 n then
    if (n - 0xAC00) % 28 == 0 then .openSyllable else .closedSyllable
  else if inRanges pictographRanges c then .pictograph
  else if inRanges conjunctConsonantRanges c then .consonant
  else .other

/-- How much of a joined sequence of pictographs has been read. -/
inductive PictographRun where
  | none
  | pictograph
  | joined
  deriving DecidableEq, Repr

/-- How much of a conjunct of consonants has been read. -/
inductive ConjunctRun where
  | none
  | consonant
  | linked
  deriving DecidableEq, Repr

/-- What of the text before a position decides whether a cluster ends there. -/
structure ClusterContext where
  last : ClusterClass
  pictographs : PictographRun
  conjunct : ConjunctRun
  oddRegionals : Bool

def PictographRun.after (run : PictographRun) : ClusterClass → PictographRun
  | .pictograph => .pictograph
  | .extend => if run = .pictograph then .pictograph else .none
  | .joiner => if run = .pictograph then .joined else .none
  | _ => .none

def ConjunctRun.after (run : ConjunctRun) (c : Char) : ClusterClass → ConjunctRun
  | .consonant => .consonant
  | .extend =>
    if c = nonJoiner then .none
    else if run ≠ .none ∧ conjunctLinkers.contains c.toNat then .linked
    else run
  | .joiner => run
  | _ => .none

def ClusterContext.after (context : ClusterContext) (c : Char) : ClusterContext :=
  let k := clusterClass c
  { last := k
    pictographs := context.pictographs.after k
    conjunct := context.conjunct.after c k
    oddRegionals := k = .regional && !context.oddRegionals }

def ClusterContext.start (c : Char) : ClusterContext :=
  ClusterContext.after ⟨.other, .none, .none, false⟩ c

def ClusterClass.isBreak : ClusterClass → Bool
  | .carriageReturn => true
  | .lineFeed => true
  | .control => true
  | _ => false

def joinsSyllable : ClusterClass → ClusterClass → Bool
  | .leadingJamo, .leadingJamo => true
  | .leadingJamo, .vowelJamo => true
  | .leadingJamo, .openSyllable => true
  | .leadingJamo, .closedSyllable => true
  | .openSyllable, .vowelJamo => true
  | .openSyllable, .trailingJamo => true
  | .vowelJamo, .vowelJamo => true
  | .vowelJamo, .trailingJamo => true
  | .closedSyllable, .trailingJamo => true
  | .trailingJamo, .trailingJamo => true
  | _, _ => false

/-- Whether the next character stays in the cluster of the text before it. -/
def ClusterContext.joins (context : ClusterContext) (next : ClusterClass) : Bool :=
  if context.last = .carriageReturn ∧ next = .lineFeed then true
  else if context.last.isBreak || next.isBreak then false
  else if joinsSyllable context.last next then true
  else if next = .extend ∨ next = .joiner ∨ next = .spacingMark then true
  else if context.last = .prepend then true
  else if context.conjunct = .linked ∧ next = .consonant then true
  else if context.pictographs = .joined ∧ next = .pictograph then true
  else context.oddRegionals && next = .regional

/-- Clusters of a text, the part read so far of the current one being given in reverse. -/
def clustersFrom (context : ClusterContext) (current : List Char) :
    List Char → List (List Char)
  | [] => [current.reverse]
  | c :: rest =>
    if context.joins (clusterClass c) then
      clustersFrom (context.after c) (c :: current) rest
    else
      current.reverse :: clustersFrom (context.after c) [c] rest

def clusters : List Char → List (List Char)
  | [] => []
  | c :: rest => clustersFrom (ClusterContext.start c) [c] rest

end WireSchema.Text

import WireSchema.Number.Binary64

/-!
JSON text as tokens with their lines. A string may be well-formed and still not be text, when an
escape writes half of a surrogate pair; a number may be well-formed and out of range. Whether that
matters depends on whether the token is read or skipped, so the token keeps both answers.
-/

namespace WireSchema.Json

inductive Category where
  /-- The text is not JSON. -/
  | malformed
  /-- A value is of another type than the one expected. -/
  | mismatched
  /-- The text ends too early. -/
  | incomplete
  deriving DecidableEq, Repr

structure Fault where
  category : Category
  line : Nat
  deriving DecidableEq, Repr

inductive Number where
  /-- An integer of 64 bits, signed or unsigned. -/
  | whole (value : Int)
  | float (negative : Bool) (magnitude : Binary64)
  deriving DecidableEq, Repr

inductive Token where
  | openBrace
  | closeBrace
  | openBracket
  | closeBracket
  | colon
  | comma
  | null
  | bool (value : Bool)
  /-- A number, unless it is out of range. -/
  | number (value : Option Number)
  /-- A string, unless it is not text. -/
  | string (text : Except Fault String)
  /-- A string that does not end: the fault of reading it and that of skipping it. -/
  | brokenString (reading skipping : Fault)
  /-- A word or a number that breaks off. -/
  | brokenWord (fault : Fault)
  /-- A character that starts no token. -/
  | stray

structure Located where
  line : Nat
  token : Token

def lineAfter (line : Nat) (c : Char) : Nat := if c = '\n' then line + 1 else line

def lineBehind (line : Nat) (s : List Char) : Nat := line + s.count '\n'

/-! ## Strings -/

/-- What has been read of a string: its characters in reverse, perhaps with the first half of a
surrogate pair behind them. -/
inductive Reading where
  | text (done : List Char) (half : Option Nat)
  | failed (fault : Fault)

namespace Reading

def push (line : Nat) (c : Char) : Reading → Reading
  | text done none => text (c :: done) none
  | text _ (some _) => failed ⟨.malformed, line⟩
  | failed f => failed f

def pushUnit (line : Nat) (unit : Nat) : Reading → Reading
  | text done none =>
    if 0xDC00 ≤ unit ∧ unit ≤ 0xDFFF then failed ⟨.malformed, line⟩
    else if 0xD800 ≤ unit ∧ unit ≤ 0xDBFF then text done (some unit)
    else text (Char.ofNat unit :: done) none
  | text done (some half) =>
    if 0xDC00 ≤ unit ∧ unit ≤ 0xDFFF then
      text (Char.ofNat ((half - 0xD800) * 0x400 + (unit - 0xDC00) + 0x10000) :: done) none
    else failed ⟨.malformed, line⟩
  | failed f => failed f

def finish (line : Nat) : Reading → Except Fault String
  | text done none => .ok (String.ofList done.reverse)
  | text _ (some _) => .error ⟨.malformed, line⟩
  | failed f => .error f

/-- The fault of reading a string that breaks off with the fault `f`. -/
def faultOr (f : Fault) : Reading → Fault
  | text _ _ => f
  | failed g => g

end Reading

inductive StringScan where
  | closed (text : Except Fault String) (rest : List Char)
  | broken (reading skipping : Fault)

def hexDigit? (c : Char) : Option Nat :=
  if '0' ≤ c ∧ c ≤ '9' then some (c.toNat - '0'.toNat)
  else if 'a' ≤ c ∧ c ≤ 'f' then some (c.toNat - 'a'.toNat + 10)
  else if 'A' ≤ c ∧ c ≤ 'F' then some (c.toNat - 'A'.toNat + 10)
  else none

def hexUnit? (a b c d : Char) : Option Nat := do
  let a ← hexDigit? a
  let b ← hexDigit? b
  let c ← hexDigit? c
  let d ← hexDigit? d
  return ((a * 16 + b) * 16 + c) * 16 + d

/-- The characters that start within the first `n` bytes of a text. -/
def startingWithin : (n : Nat) → List Char → List Char
  | 0, _ => []
  | _, [] => []
  | n + 1, c :: rest => c :: startingWithin (n + 1 - c.utf8Size) rest

/-- The fault of an escape that wants four hexadecimal digits in front of `s`. It is found behind
four bytes, or at the end of the text if that comes first. -/
def hexFault (line : Nat) (s : List Char) : Fault :=
  if (String.ofList s).utf8ByteSize < 4 then ⟨.incomplete, lineBehind line s⟩
  else ⟨.malformed, lineBehind line (startingWithin 4 s)⟩

def simpleEscape? (c : Char) : Option Char :=
  match c with
  | '"' => some '"'
  | '\\' => some '\\'
  | '/' => some '/'
  | 'b' => some '\x08'
  | 'f' => some '\x0c'
  | 'n' => some '\n'
  | 'r' => some '\r'
  | 't' => some '\t'
  | _ => none

def scanString (line : Nat) (r : Reading) : List Char → StringScan
  | [] => let f := ⟨.incomplete, line⟩; .broken (r.faultOr f) f
  | '"' :: rest => .closed (r.finish line) rest
  | '\\' :: 'u' :: a :: b :: c :: d :: rest =>
    match hexUnit? a b c d with
    | some unit => scanString line (r.pushUnit line unit) rest
    | none => let f := hexFault line (a :: b :: c :: d :: rest); .broken (r.faultOr f) f
  | '\\' :: 'u' :: short => let f := hexFault line short; .broken (r.faultOr f) f
  | ['\\'] => let f := ⟨.incomplete, line⟩; .broken (r.faultOr f) f
  | '\\' :: e :: rest =>
    match simpleEscape? e with
    | some c => scanString line (r.push line c) rest
    | none => let f := ⟨.malformed, lineAfter line e⟩; .broken (r.faultOr f) f
  | c :: rest =>
    if c < ' ' then .broken (r.faultOr ⟨.malformed, lineAfter line c⟩) ⟨.malformed, line⟩
    else scanString line (r.push line c) rest

/-! ## Numbers and words -/

structure Numeral where
  negative : Bool
  whole : List Char
  fraction : Option (List Char)
  /-- Whether the exponent is negative, and its digits. -/
  exponent : Option (Bool × List Char)

/-- The fault of a text in which something else is wanted in front of `s`. -/
def faultBefore (line : Nat) : List Char → Fault
  | [] => ⟨.incomplete, line⟩
  | c :: _ => ⟨.malformed, lineAfter line c⟩

def scanDigits (line : Nat) (s : List Char) : Except Fault (List Char × List Char) :=
  match s.takeWhile Char.isDigit with
  | [] => .error (faultBefore line s)
  | digits => .ok (digits, s.dropWhile Char.isDigit)

/-- The digits before the point. A zero stands alone. -/
def scanWhole (line : Nat) (s : List Char) : Except Fault (List Char × List Char) :=
  match scanDigits line s with
  | .ok (['0'], rest) => .ok (['0'], rest)
  | .ok ('0' :: _, _) => .error ⟨.malformed, line⟩
  | r => r

def scanFraction (line : Nat) (s : List Char) : Except Fault (Option (List Char) × List Char) :=
  match s with
  | '.' :: s => (scanDigits line s).map fun (digits, rest) => (some digits, rest)
  | s => .ok (none, s)

def splitSign : List Char → Bool × List Char
  | '+' :: s => (false, s)
  | '-' :: s => (true, s)
  | s => (false, s)

def scanExponent (line : Nat) (s : List Char) :
    Except Fault (Option (Bool × List Char) × List Char) :=
  match s with
  | [] => .ok (none, s)
  | e :: signed =>
    if e = 'e' ∨ e = 'E' then
      (scanDigits line (splitSign signed).2).map fun (digits, rest) =>
        (some ((splitSign signed).1, digits), rest)
    else .ok (none, s)

def scanNumeral (line : Nat) (negative : Bool) (s : List Char) :
    Except Fault (Numeral × List Char) := do
  let (whole, s) ← scanWhole line s
  let (fraction, s) ← scanFraction line s
  let (exponent, s) ← scanExponent line s
  return (⟨negative, whole, fraction, exponent⟩, s)

def scanWord (line : Nat) : (expected : List Char) → List Char → Except Fault (List Char)
  | [], s => .ok s
  | _ :: _, [] => .error ⟨.incomplete, line⟩
  | e :: es, c :: s =>
    if c = e then scanWord line es s else .error ⟨.malformed, lineAfter line c⟩

/-- The greatest significand that is kept exactly. -/
def maxSignificand : Nat := 0xFFFFFFFFFFFFFFFF

/-- The greatest magnitude of a negative integer of 64 bits. -/
def maxNegative : Nat := 0x8000000000000000

/-- Appends digits to a significand as long as it can be kept exactly. Gives the digits left. -/
def absorb (significand : Nat) : List Char → Nat × List Char
  | [] => (significand, [])
  | d :: ds =>
    let next := significand * 10 + (d.toNat - '0'.toNat)
    if next ≤ maxSignificand then absorb next ds else (significand, d :: ds)

def exponentValue : Option (Bool × List Char) → Int
  | none => 0
  | some (negative, digits) =>
    let n : Nat := digits.foldl (fun n d => n * 10 + (d.toNat - '0'.toNat)) 0
    if negative then -n else n

/-- The value of a numeral, unless it is out of range. Digits that do not fit in the significand
count as zeros; a negative zero and what does not fit in 64 bits are floating-point numbers. -/
def Numeral.value? (n : Numeral) : Option Number :=
  let (significand, dropped) := absorb 0 n.whole
  match n.fraction, n.exponent, dropped with
  | none, none, [] =>
    if !n.negative then some (.whole significand)
    else if 0 < significand ∧ significand ≤ maxNegative then some (.whole (-significand))
    else (Binary64.ofDecimal? significand 0).map (.float true)
  | _, _, _ =>
    let fraction := n.fraction.getD []
    let (significand, ignored) := absorb significand fraction
    let scale : Int := dropped.length - (fraction.length - ignored.length : Nat)
    (Binary64.ofDecimal? significand (scale + exponentValue n.exponent)).map (.float n.negative)

/-! ## Tokens -/

def punctuation? (c : Char) : Option Token :=
  match c with
  | '\x7b' => some .openBrace
  | '\x7d' => some .closeBrace
  | '[' => some .openBracket
  | ']' => some .closeBracket
  | ':' => some .colon
  | ',' => some .comma
  | _ => none

/-- The rest of the word that a letter starts, and its token. -/
def word? (c : Char) : Option (List Char × Token) :=
  match c with
  | 'n' => some (['u', 'l', 'l'], .null)
  | 't' => some (['r', 'u', 'e'], .bool true)
  | 'f' => some (['a', 'l', 's', 'e'], .bool false)
  | _ => none

def isSpace (c : Char) : Bool := c == ' ' || c == '\t' || c == '\r'

/-- The token that starts with `c`, which is no space, and what follows it; nothing follows a token
that breaks off. -/
def scanToken (line : Nat) (c : Char) (rest : List Char) : Token × Option (List Char) :=
  match punctuation? c with
  | some t => (t, some rest)
  | none =>
    if c = '"' then
      match scanString line (.text [] none) rest with
      | .closed text rest => (.string text, some rest)
      | .broken reading skipping => (.brokenString reading skipping, none)
    else if c = '-' then
      match scanNumeral line true rest with
      | .ok (n, rest) => (.number n.value?, some rest)
      | .error f => (.brokenWord f, none)
    else if c.isDigit then
      match scanNumeral line false (c :: rest) with
      | .ok (n, rest) => (.number n.value?, some rest)
      | .error f => (.brokenWord f, none)
    else
      match word? c with
      | some (expected, t) =>
        match scanWord line expected rest with
        | .ok rest => (t, some rest)
        | .error f => (.brokenWord f, none)
      | none => (.stray, none)

end WireSchema.Json

/-!
Texts as bytes. Reading takes the first character off a sequence of bytes, or else says how many
bytes cannot be part of any character.
-/

namespace WireSchema.Text

def isTail (b : UInt8) : Bool := 0x80 ≤ b && b ≤ 0xBF

/-- The second bytes that may follow a first byte of a three-byte character. -/
def isSecondOfThree (b0 b1 : UInt8) : Bool :=
  if b0 == 0xE0 then 0xA0 ≤ b1 && b1 ≤ 0xBF
  else if b0 == 0xED then 0x80 ≤ b1 && b1 ≤ 0x9F
  else isTail b1

/-- The second bytes that may follow a first byte of a four-byte character. -/
def isSecondOfFour (b0 b1 : UInt8) : Bool :=
  if b0 == 0xF0 then 0x90 ≤ b1 && b1 ≤ 0xBF
  else if b0 == 0xF4 then 0x80 ≤ b1 && b1 ≤ 0x8F
  else isTail b1

def tailBits (b : UInt8) : Nat := b.toNat % 64

/-- The first character of `b0 :: rest` and what follows it. Without one, what follows the longest
run of bytes that starts a character, and at least its first byte. -/
def takeChar (b0 : UInt8) (rest : List UInt8) : Option Char × List UInt8 :=
  if b0 < 0x80 then (some (Char.ofNat b0.toNat), rest)
  else if 0xC2 ≤ b0 && b0 ≤ 0xDF then
    match rest with
    | b1 :: r1 =>
      if isTail b1 then (some (Char.ofNat (b0.toNat % 32 * 64 + tailBits b1)), r1)
      else (none, rest)
    | [] => (none, rest)
  else if 0xE0 ≤ b0 && b0 ≤ 0xEF then
    match rest with
    | b1 :: r1 =>
      if isSecondOfThree b0 b1 then
        match r1 with
        | b2 :: r2 =>
          if isTail b2 then
            (some (Char.ofNat ((b0.toNat % 16 * 64 + tailBits b1) * 64 + tailBits b2)), r2)
          else (none, r1)
        | [] => (none, r1)
      else (none, rest)
    | [] => (none, rest)
  else if 0xF0 ≤ b0 && b0 ≤ 0xF4 then
    match rest with
    | b1 :: r1 =>
      if isSecondOfFour b0 b1 then
        match r1 with
        | b2 :: r2 =>
          if isTail b2 then
            match r2 with
            | b3 :: r3 =>
              if isTail b3 then
                (some (Char.ofNat
                  (((b0.toNat % 8 * 64 + tailBits b1) * 64 + tailBits b2) * 64 + tailBits b3)), r3)
              else (none, r2)
            | [] => (none, r2)
          else (none, r1)
        | [] => (none, r1)
      else (none, rest)
    | [] => (none, rest)
  else (none, rest)

/-- Taking a character consumes its first byte. -/
theorem takeChar_length (b0 : UInt8) (rest : List UInt8) :
    (takeChar b0 rest).2.length ≤ rest.length := by
  unfold takeChar
  repeat' split
  all_goals simp only [List.length_cons]
  all_goals omega

/-- The text of a sequence of bytes, with U+FFFD for each run of bytes that is no character. -/
def decodeLossy : List UInt8 → List Char
  | [] => []
  | b0 :: rest => (takeChar b0 rest).1.getD '�' :: decodeLossy (takeChar b0 rest).2
termination_by bytes => bytes.length
decreasing_by
  have := takeChar_length b0 rest
  simp only [List.length_cons]
  omega

def decode? : List UInt8 → Option (List Char)
  | [] => some []
  | b0 :: rest =>
    match (takeChar b0 rest).1 with
    | none => none
    | some c => (decode? (takeChar b0 rest).2).map (c :: ·)
termination_by bytes => bytes.length
decreasing_by
  have := takeChar_length b0 rest
  simp only [List.length_cons]
  omega

def encode (s : List Char) : List UInt8 := s.flatMap String.utf8EncodeChar

end WireSchema.Text

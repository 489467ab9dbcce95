import WireSchema.Schema.TypeExpr
import WireSchema.Wire.Error

/-!
Reading off the front of a sequence of bytes. A read gives its value and the bytes after it.
-/

namespace WireSchema

abbrev Bytes := List UInt8

namespace Wire

def split? : Nat → Bytes → Option (Bytes × Bytes)
  | 0, bytes => some ([], bytes)
  | _ + 1, [] => none
  | n + 1, b :: rest => (split? n rest).map fun (taken, left) => (b :: taken, left)

def take (n : Nat) (bytes : Bytes) : Except DecodeError (Bytes × Bytes) :=
  match split? n bytes with
  | some r => .ok r
  | none => .error (.unexpectedEnd n bytes.length)

def bigEndian (bytes : Bytes) : Nat := bytes.foldl (fun n b => n * 256 + b.toNat) 0

def readUnsigned (n : Nat) (bytes : Bytes) : Except DecodeError (Nat × Bytes) := do
  let (taken, rest) ← take n bytes
  return (bigEndian taken, rest)

def readInt (w : IntWidth) (bytes : Bytes) : Except DecodeError (Int × Bytes) := do
  let (n, rest) ← readUnsigned w.bytes bytes
  return (w.wrap n, rest)

/-- The most bytes that an unsigned varint of 32 bits takes. -/
def maxVarintBytes : Nat := 5

/-- Reads the groups of a varint from the group numbered `index` on, of which there may be `left`.
The last of five groups has room for four bits only. -/
def readGroups : (left index : Nat) → (acc : UInt32) → Bytes → Except VarintError (UInt32 × Bytes)
  | 0, _, _, _ => .error .tooLong
  | _ + 1, index, _, [] => .error (.truncated index)
  | left + 1, index, acc, b :: rest =>
    if left = 0 ∧ b > 0x0F then .error .tooLong
    else
      let acc := acc ||| ((b &&& 0x7F).toUInt32 <<< UInt32.ofNat (7 * index))
      if b &&& 0x80 = 0 then .ok (acc, rest) else readGroups left (index + 1) acc rest

/-- An unsigned varint of 32 bits: groups of seven bits, the least significant first, with the top
bit set on all but the last. -/
def readUvarint (bytes : Bytes) : Except DecodeError (UInt32 × Bytes) :=
  (readGroups maxVarintBytes 0 0 bytes).mapError .varint

end Wire

end WireSchema

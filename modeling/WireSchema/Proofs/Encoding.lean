import Mathlib.Data.Nat.Bitwise
import WireSchema.Proofs.SoundPlan
import WireSchema.Text.Utf8
import WireSchema.Wire.Value

/-!
The wire format from the side of a writer, and that each read of the wire gives back what was
written, with the bytes after it.
-/

namespace WireSchema

namespace Wire

def writeUnsigned : (k n : Nat) → Bytes
  | 0, _ => []
  | k + 1, n => writeUnsigned k (n / 256) ++ [UInt8.ofNat n]

def writeInt (w : IntWidth) (v : Int) : Bytes := writeUnsigned w.bytes (v % w.modulus).toNat

/-- Groups of seven bits, the least significant first, with the top bit set on all but the last. -/
def writeUvarint (n : Nat) : Bytes :=
  if n < 128 then [UInt8.ofNat n]
  else UInt8.ofNat (n % 128 + 128) :: writeUvarint (n / 128)
termination_by n

/-- Two bytes of length, then the bytes of the text. -/
def writeString (s : String) : Bytes :=
  let text := Text.encode s.toList
  writeUnsigned 2 text.length ++ text

theorem split?_append (taken rest : Bytes) :
    split? taken.length (taken ++ rest) = some (taken, rest) := by
  induction taken with
  | nil => rfl
  | cons b taken ih => simp [split?, ih]

theorem split?_eq_none_iff {n : Nat} {bytes : Bytes} :
    split? n bytes = none ↔ bytes.length < n := by
  induction n generalizing bytes with
  | zero => simp [split?]
  | succ n ih =>
    cases bytes with
    | nil => simp [split?]
    | cons b bytes => simp [split?, ih]

theorem take_append {n : Nat} {taken : Bytes} (h : taken.length = n) (rest : Bytes) :
    take n (taken ++ rest) = .ok (taken, rest) := by
  subst h
  simp [take, split?_append]

theorem length_writeUnsigned (k n : Nat) : (writeUnsigned k n).length = k := by
  induction k generalizing n with
  | zero => rfl
  | succ k ih => simp [writeUnsigned, ih]

theorem bigEndian_append (bytes : Bytes) (b : UInt8) :
    bigEndian (bytes ++ [b]) = bigEndian bytes * 256 + b.toNat := by
  simp [bigEndian]

/-- Bytes that are too few keep the low end of the number. -/
theorem bigEndian_writeUnsigned (k n : Nat) : bigEndian (writeUnsigned k n) = n % 256 ^ k := by
  induction k generalizing n with
  | zero => simp [writeUnsigned, bigEndian, Nat.mod_one]
  | succ k ih =>
    have hpow : 256 ^ (k + 1) = 256 * 256 ^ k := Nat.pow_succ'
    rw [writeUnsigned, bigEndian_append, ih, UInt8.toNat_ofNat', hpow, Nat.mod_mul]
    omega

theorem readUnsigned_writeUnsigned {k n : Nat} (h : n < 256 ^ k) (rest : Bytes) :
    readUnsigned k (writeUnsigned k n ++ rest) = .ok (n, rest) := by
  simp [readUnsigned, take_append (length_writeUnsigned k n), bigEndian_writeUnsigned,
    Nat.mod_eq_of_lt h]

theorem modulus_eq (w : IntWidth) : w.modulus = 256 ^ w.bytes := by
  cases w <;> rfl

/-- Any integer that a width holds is read back from its bytes, whatever follows them. -/
theorem readInt_writeInt {w : IntWidth} {v : Int} (h : w.holds v = true) (rest : Bytes) :
    readInt w (writeInt w v ++ rest) = .ok (v, rest) := by
  have hpos : (0 : Int) < w.modulus := by cases w <;> decide
  have hnonneg : 0 ≤ v % w.modulus := Int.emod_nonneg v (by omega)
  have hlt : (v % w.modulus).toNat < 256 ^ w.bytes := by
    rw [← modulus_eq]
    have := Int.emod_lt_of_pos v hpos
    omega
  have hwrap : w.wrap ((v % w.modulus).toNat : Int) = v := by
    rw [Int.toNat_of_nonneg hnonneg, IntWidth.wrap, Int.emod_bmod]
    exact IntWidth.wrap_of_holds h
  simp only [readInt, writeInt, readUnsigned_writeUnsigned hlt, ok_bind, hwrap, pure_eq_ok]

theorem toNat_byte {n : Nat} (h : n < 256) : (UInt8.ofNat n).toNat = n :=
  UInt8.toNat_ofNat_of_lt' h

/-- The low bits of a group of a varint. -/
theorem low_bits (b : UInt8) : (b &&& 0x7F).toNat = b.toNat % 128 := by
  have h7 : (0x7F : UInt8).toNat = 2 ^ 7 - 1 := rfl
  rw [UInt8.toNat_and, h7, Nat.and_two_pow_sub_one_eq_mod]

/-- The top bit of a group says whether another follows. -/
theorem top_bit (b : UInt8) : b &&& 0x80 = 0 ↔ b.toNat < 128 := by
  have h80 : (0x80 : UInt8).toNat = 2 ^ 7 := rfl
  have hlt := b.toNat_lt
  rw [← UInt8.toNat_inj, UInt8.toNat_and, h80, Nat.and_two_pow, Nat.testBit_eq_decide_div_mod_eq]
  by_cases hb : b.toNat < 128
  · have hbit : b.toNat / 128 % 2 = 0 := by omega
    simp [hb, hbit]
  · have hbit : b.toNat / 128 % 2 = 1 := by omega
    simp [hb, hbit]

/-- A group is put above those read before it. -/
theorem toNat_or_shift {acc : UInt32} {index : Nat} {b : UInt8}
    (hacc : acc.toNat < 2 ^ (7 * index)) (hb : b.toNat % 128 * 2 ^ (7 * index) < 2 ^ 32)
    (hi : index < 5) :
    (acc ||| ((b &&& 0x7F).toUInt32 <<< UInt32.ofNat (7 * index))).toNat =
      acc.toNat + b.toNat % 128 * 2 ^ (7 * index) := by
  have hshift : (UInt32.ofNat (7 * index)).toNat % 32 = 7 * index := by
    rw [UInt32.toNat_ofNat']
    omega
  rw [UInt32.toNat_or, UInt32.toNat_shiftLeft, hshift, UInt8.toNat_toUInt32, low_bits,
    Nat.shiftLeft_eq, Nat.mod_eq_of_lt hb, Nat.or_comm, Nat.mul_comm,
    ← Nat.two_pow_add_eq_or_of_lt hacc]
  omega

/-- One group: it ends the number, or reading goes on above it. -/
theorem readGroups_cons {left index : Nat} {acc : UInt32} {b : UInt8} (hi : left + index = 4)
    (hlast : left = 0 → b.toNat < 16) (hacc : acc.toNat < 2 ^ (7 * index))
    (hb : b.toNat % 128 * 2 ^ (7 * index) < 2 ^ 32) (rest : Bytes) :
    ∃ next : UInt32, next.toNat = acc.toNat + b.toNat % 128 * 2 ^ (7 * index) ∧
      readGroups (left + 1) index acc (b :: rest) =
        if b.toNat < 128 then .ok (next, rest) else readGroups left (index + 1) next rest := by
  refine ⟨_, toNat_or_shift hacc hb (by omega), ?_⟩
  have hroom : ¬ (left = 0 ∧ b > 0x0F) := by
    intro ⟨h0, hgt⟩
    have h15 : (0x0F : UInt8).toNat < b.toNat := UInt8.lt_iff_toNat_lt.mp hgt
    have h16 := hlast h0
    simp only [UInt8.toNat_ofNat] at h15
    omega
  simp only [readGroups, hroom, if_false, top_bit]

/-- The group that ends a number. It has room for four bits only when it is the fifth. -/
theorem readGroups_last {left index n : Nat} {acc : UInt32} (hi : left + index = 4)
    (hlast : left = 0 → n < 16) (hend : n < 128) (hacc : acc.toNat < 2 ^ (7 * index))
    (hn : n * 2 ^ (7 * index) < 2 ^ 32) (rest : Bytes) :
    ∃ result : UInt32, result.toNat = acc.toNat + n * 2 ^ (7 * index) ∧
      readGroups (left + 1) index acc (writeUvarint n ++ rest) = .ok (result, rest) := by
  have hb : (UInt8.ofNat n).toNat = n := toNat_byte (by omega)
  have hlow : (UInt8.ofNat n).toNat % 128 = n := by omega
  obtain ⟨next, hnext, hread⟩ := readGroups_cons hi (by rwa [hb]) hacc (by rwa [hlow]) rest
  refine ⟨next, by rwa [hlow] at hnext, ?_⟩
  rw [writeUvarint, if_pos hend, List.singleton_append, hread, hb, if_pos hend]

/-- Reading goes on from the groups before: they hold the low bits of the number. -/
theorem readGroups_writeUvarint {left index n : Nat} {acc : UInt32} (hi : left + index = 4)
    (hacc : acc.toNat < 2 ^ (7 * index)) (hn : acc.toNat + n * 2 ^ (7 * index) < 2 ^ 32)
    (rest : Bytes) :
    ∃ result : UInt32, result.toNat = acc.toNat + n * 2 ^ (7 * index) ∧
      readGroups (left + 1) index acc (writeUvarint n ++ rest) = .ok (result, rest) := by
  induction left generalizing index n acc with
  | zero =>
    have h16 : n < 16 := by
      obtain rfl : index = 4 := by omega
      omega
    exact readGroups_last hi (fun _ => h16) (by omega) hacc (by omega) rest
  | succ left ih =>
    by_cases hend : n < 128
    · exact readGroups_last hi (by omega) hend hacc (by omega) rest
    have hb : (UInt8.ofNat (n % 128 + 128)).toNat = n % 128 + 128 :=
      toNat_byte (by omega)
    have hlow : (UInt8.ofNat (n % 128 + 128)).toNat % 128 = n % 128 := by omega
    have hpow : 2 ^ (7 * (index + 1)) = 128 * 2 ^ (7 * index) := by
      rw [Nat.mul_add, Nat.pow_add, Nat.mul_comm]
    have hsplit : n * 2 ^ (7 * index) =
        n % 128 * 2 ^ (7 * index) + n / 128 * 2 ^ (7 * (index + 1)) := by
      rw [hpow, ← Nat.mul_assoc, ← Nat.add_mul, Nat.mod_add_div']
    have hgroup : n % 128 * 2 ^ (7 * index) ≤ 127 * 2 ^ (7 * index) :=
      Nat.mul_le_mul_right _ (by omega)
    obtain ⟨next, hnext, hread⟩ := readGroups_cons hi (by omega) hacc (by rw [hlow]; omega)
      (writeUvarint (n / 128) ++ rest)
    rw [hlow] at hnext
    have hnext' : next.toNat < 2 ^ (7 * (index + 1)) := by omega
    have hsum : next.toNat + n / 128 * 2 ^ (7 * (index + 1)) < 2 ^ 32 := by omega
    obtain ⟨result, hresult, hrest⟩ := ih (by omega) hnext' hsum
    refine ⟨result, by omega, ?_⟩
    rw [writeUvarint, if_neg hend, List.cons_append, hread, hb, if_neg (by omega)]
    exact hrest

/-- Any number of 32 bits is read back from its groups, whatever follows them. -/
theorem readUvarint_writeUvarint {n : Nat} (hn : n < 2 ^ 32) (rest : Bytes) :
    ∃ result : UInt32, result.toNat = n ∧
      readUvarint (writeUvarint n ++ rest) = .ok (result, rest) := by
  have hstart : (0 : UInt32).toNat + n * 2 ^ (7 * 0) < 2 ^ 32 := by simpa using hn
  obtain ⟨result, hresult, hread⟩ := readGroups_writeUvarint rfl (by decide) hstart rest
  refine ⟨result, by simpa using hresult, ?_⟩
  simp only [readUvarint, maxVarintBytes, hread, Except.mapError]

end Wire

namespace Text

open Wire (toNat_byte)

theorem isTail_iff (b : UInt8) : isTail b = true ↔ 128 ≤ b.toNat ∧ b.toNat ≤ 191 := by
  simp [isTail, UInt8.le_iff_toNat_le]

theorem isSecondOfThree_iff (b0 b1 : UInt8) : isSecondOfThree b0 b1 = true ↔
    128 ≤ b1.toNat ∧ b1.toNat ≤ 191 ∧ (b0.toNat = 224 → 160 ≤ b1.toNat) ∧
      (b0.toNat = 237 → b1.toNat ≤ 159) := by
  simp only [isSecondOfThree, beq_iff_eq, ← UInt8.toNat_inj, UInt8.toNat_ofNat]
  split
  · simp [UInt8.le_iff_toNat_le]
    omega
  · split
    · simp [UInt8.le_iff_toNat_le]
      omega
    · simp [isTail_iff]
      omega

theorem isSecondOfFour_iff (b0 b1 : UInt8) : isSecondOfFour b0 b1 = true ↔
    128 ≤ b1.toNat ∧ b1.toNat ≤ 191 ∧ (b0.toNat = 240 → 144 ≤ b1.toNat) ∧
      (b0.toNat = 244 → b1.toNat ≤ 143) := by
  simp only [isSecondOfFour, beq_iff_eq, ← UInt8.toNat_inj, UInt8.toNat_ofNat]
  split
  · simp [UInt8.le_iff_toNat_le]
    omega
  · split
    · simp [UInt8.le_iff_toNat_le]
      omega
    · simp [isTail_iff]
      omega

section

variable {b0 b1 b2 b3 : UInt8} (rest : List UInt8)

theorem takeChar_one (h : b0.toNat < 128) :
    takeChar b0 rest = (some (Char.ofNat b0.toNat), rest) := by
  simp [takeChar, UInt8.lt_iff_toNat_lt, h]

/-- The bounds on the first byte leave out the spellings of characters that have a shorter one. -/
theorem takeChar_two (hl : 194 ≤ b0.toNat) (hg : b0.toNat ≤ 223) (h1 : isTail b1 = true) :
    takeChar b0 (b1 :: rest) =
      (some (Char.ofNat (b0.toNat % 32 * 64 + tailBits b1)), rest) := by
  have hlow : ¬ b0.toNat < 128 := by omega
  simp [takeChar, UInt8.lt_iff_toNat_lt, UInt8.le_iff_toNat_le, hlow, hl, hg, h1]

/-- The second byte carries the bounds that leave out shorter spellings and surrogates. -/
theorem takeChar_three (hl : 224 ≤ b0.toNat) (hg : b0.toNat ≤ 239)
    (h1 : isSecondOfThree b0 b1 = true) (h2 : isTail b2 = true) :
    takeChar b0 (b1 :: b2 :: rest) =
      (some (Char.ofNat ((b0.toNat % 16 * 64 + tailBits b1) * 64 + tailBits b2)), rest) := by
  have hlow : ¬ b0.toNat < 128 := by omega
  have hmid : ¬ b0.toNat ≤ 223 := by omega
  simp [takeChar, UInt8.lt_iff_toNat_lt, UInt8.le_iff_toNat_le, hlow, hmid, hl, hg, h1, h2]

theorem takeChar_four (hl : 240 ≤ b0.toNat) (hg : b0.toNat ≤ 244)
    (h1 : isSecondOfFour b0 b1 = true) (h2 : isTail b2 = true) (h3 : isTail b3 = true) :
    takeChar b0 (b1 :: b2 :: b3 :: rest) =
      (some (Char.ofNat
        (((b0.toNat % 8 * 64 + tailBits b1) * 64 + tailBits b2) * 64 + tailBits b3)), rest) := by
  have hlow : ¬ b0.toNat < 128 := by omega
  have hmid : ¬ b0.toNat ≤ 223 := by omega
  have hhigh : ¬ b0.toNat ≤ 239 := by omega
  simp [takeChar, UInt8.lt_iff_toNat_lt, UInt8.le_iff_toNat_le, hlow, hmid, hhigh, hl, hg, h1, h2,
    h3]

end

/-- The bytes of a character are read as that character. -/
theorem takeChar_encode (c : Char) (rest : List UInt8) :
    ∃ b0 more, String.utf8EncodeChar c ++ rest = b0 :: more ∧
      takeChar b0 more = (some c, rest) := by
  have hv : c.val.toNat < 0xD800 ∨ 0xDFFF < c.val.toNat ∧ c.val.toNat < 0x110000 := c.valid
  have hc : Char.ofNat c.val.toNat = c := Char.ofNat_toNat c
  generalize hn : c.val.toNat = n at hv hc
  have htail (k : Nat) : (UInt8.ofNat (k % 64 + 128)).toNat = k % 64 + 128 :=
    toNat_byte (by omega)
  have hisTail (k : Nat) : isTail (UInt8.ofNat (k % 64 + 128)) = true := by
    rw [isTail_iff, htail]
    omega
  have hbits (k : Nat) : tailBits (UInt8.ofNat (k % 64 + 128)) = k % 64 := by
    rw [tailBits, htail]
    omega
  -- One case for each number of bytes that a character can take.
  unfold String.utf8EncodeChar
  simp only [hn]
  split
  · have h0 : (UInt8.ofNat n).toNat = n := toNat_byte (by omega)
    refine ⟨_, _, rfl, ?_⟩
    dsimp only [List.append_eq, List.nil_append]
    rw [takeChar_one rest (by omega), h0, hc]
  split
  · have h0 : (UInt8.ofNat (n / 64 % 32 + 192)).toNat = n / 64 % 32 + 192 := toNat_byte (by omega)
    have hcode : (n / 64 % 32 + 192) % 32 * 64 + n % 64 = n := by omega
    refine ⟨_, _, rfl, ?_⟩
    dsimp only [List.append_eq, List.cons_append, List.nil_append]
    rw [takeChar_two rest (by omega) (by omega) (hisTail n), h0, hbits, hcode, hc]
  split
  · have h0 : (UInt8.ofNat (n / 4096 % 16 + 224)).toNat = n / 4096 % 16 + 224 :=
      toNat_byte (by omega)
    have hcode : ((n / 4096 % 16 + 224) % 16 * 64 + n / 64 % 64) * 64 + n % 64 = n := by omega
    have hsecond : isSecondOfThree (UInt8.ofNat (n / 4096 % 16 + 224))
        (UInt8.ofNat (n / 64 % 64 + 128)) = true := by
      rw [isSecondOfThree_iff, h0, htail]
      omega
    refine ⟨_, _, rfl, ?_⟩
    dsimp only [List.append_eq, List.cons_append, List.nil_append]
    rw [takeChar_three rest (by omega) (by omega) hsecond (hisTail n), h0, hbits, hbits, hcode, hc]
  · have h0 : (UInt8.ofNat (n / 262144 % 8 + 240)).toNat = n / 262144 % 8 + 240 :=
      toNat_byte (by omega)
    have hcode : (((n / 262144 % 8 + 240) % 8 * 64 + n / 4096 % 64) * 64 + n / 64 % 64) * 64 +
        n % 64 = n := by omega
    have hsecond : isSecondOfFour (UInt8.ofNat (n / 262144 % 8 + 240))
        (UInt8.ofNat (n / 4096 % 64 + 128)) = true := by
      rw [isSecondOfFour_iff, h0, htail]
      omega
    refine ⟨_, _, rfl, ?_⟩
    dsimp only [List.append_eq, List.cons_append, List.nil_append]
    rw [takeChar_four rest (by omega) (by omega) hsecond (hisTail _) (hisTail n), h0, hbits, hbits,
      hbits, hcode, hc]

/-- The bytes of a text are read as that text, however other bytes are treated. -/
theorem decodeLossy_encode (s : List Char) : decodeLossy (encode s) = s := by
  induction s with
  | nil => simp [encode, decodeLossy]
  | cons c s ih =>
    obtain ⟨b0, more, hbytes, hread⟩ := takeChar_encode c (encode s)
    have hcons : encode (c :: s) = b0 :: more := hbytes
    rw [hcons, decodeLossy, hread, ih]
    rfl

end Text

end WireSchema

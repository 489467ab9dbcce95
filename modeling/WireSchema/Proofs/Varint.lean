import Mathlib.Algebra.BigOperators.Ring.Finset
import Mathlib.Tactic.Ring
import WireSchema.Proofs.Encoding

/-!
What a varint reads, on every sequence of bytes: the sum of its groups if they end in time, and
otherwise whether the input ended too early or the number is too great.
-/

namespace WireSchema.Wire

/-- The index of the first byte without the top bit, which ends a number. -/
def lastGroup? (bytes : Bytes) : Option Nat := bytes.findIdx? fun b => decide (b < 0x80)

def groupsValue (bytes : Bytes) (k : Nat) : Nat :=
  ∑ i ∈ Finset.range (k + 1), (bytes.getD i 0).toNat % 128 * 128 ^ i

/-- A number of 32 bits ends at index `k`: the fifth group has room for four bits only. -/
def EndsAt (bytes : Bytes) (k : Nat) : Prop :=
  lastGroup? bytes = some k ∧ (k < 4 ∨ k = 4 ∧ bytes.getD 4 0 ≤ 0x0F)

/-- The input ends inside a number that may still fit. -/
def Unfinished (bytes : Bytes) : Prop := bytes.length < 5 ∧ ∀ b ∈ bytes, 0x80 ≤ b

theorem lt_top_iff (b : UInt8) : b < 0x80 ↔ b.toNat < 128 := UInt8.lt_iff_toNat_lt

theorem top_le_iff (b : UInt8) : 0x80 ≤ b ↔ 128 ≤ b.toNat := UInt8.le_iff_toNat_le

theorem top_bit_of_le {b : UInt8} (h : 0x80 ≤ b) : ¬ b &&& 0x80 = 0 := by
  rw [top_bit, Nat.not_lt]
  exact (top_le_iff b).mp h

theorem le_last_iff (b : UInt8) : b ≤ 0x0F ↔ b.toNat < 16 := by
  rw [UInt8.le_iff_toNat_le, UInt8.toNat_ofNat, Nat.lt_succ_iff]

theorem groupsValue_zero (b : UInt8) (rest : Bytes) :
    groupsValue (b :: rest) 0 = b.toNat % 128 := by
  simp [groupsValue]

theorem groupsValue_succ (b : UInt8) (rest : Bytes) (k : Nat) :
    groupsValue (b :: rest) (k + 1) = b.toNat % 128 + 128 * groupsValue rest k := by
  rw [groupsValue, Finset.sum_range_succ', groupsValue, Finset.mul_sum, Nat.add_comm]
  congr 1
  · simp
  · apply Finset.sum_congr rfl
    intro i _
    rw [List.getD_cons_succ, Nat.pow_succ']
    exact Nat.mul_left_comm _ _ _

/-- Each group adds seven bits. -/
theorem groupsValue_lt (bytes : Bytes) (k : Nat) : groupsValue bytes k < 128 ^ (k + 1) := by
  induction k with
  | zero =>
    have hfirst : groupsValue bytes 0 = (bytes.getD 0 0).toNat % 128 := by simp [groupsValue]
    omega
  | succ k ih =>
    have hstep : groupsValue bytes (k + 1) =
        groupsValue bytes k + (bytes.getD (k + 1) 0).toNat % 128 * 128 ^ (k + 1) :=
      Finset.sum_range_succ _ _
    have hgroup : (bytes.getD (k + 1) 0).toNat % 128 * 128 ^ (k + 1) ≤ 127 * 128 ^ (k + 1) :=
      Nat.mul_le_mul_right _ (by omega)
    have hpow : 128 ^ (k + 1 + 1) = 128 * 128 ^ (k + 1) := Nat.pow_succ'
    omega

theorem lastGroup_cons (b : UInt8) (rest : Bytes) :
    lastGroup? (b :: rest) = if b < 0x80 then some 0 else (lastGroup? rest).map (· + 1) := by
  simp [lastGroup?, List.findIdx?_cons]

theorem lastGroup_eq_none {bytes : Bytes} :
    lastGroup? bytes = none ↔ ∀ b ∈ bytes, 0x80 ≤ b := by
  simp [lastGroup?, List.findIdx?_eq_none_iff]

theorem lastGroup_lt_length {bytes : Bytes} {k : Nat} (h : lastGroup? bytes = some k) :
    k < bytes.length := by
  obtain ⟨hlt, _, _⟩ := List.findIdx?_eq_some_iff_getElem.mp h
  exact hlt

/-- By induction on the groups that may follow. What was read before stands below the rest. -/
theorem readGroups_end {left index k : Nat} {acc : UInt32} {bytes : Bytes}
    (hi : left + index = 4) (hacc : acc.toNat < 2 ^ (7 * index))
    (hk : lastGroup? bytes = some k)
    (hfits : k < left ∨ k = left ∧ bytes.getD k 0 ≤ 0x0F) :
    ∃ n : UInt32, n.toNat = acc.toNat + groupsValue bytes k * 2 ^ (7 * index) ∧
      readGroups (left + 1) index acc bytes = .ok (n, bytes.drop (k + 1)) := by
  induction left generalizing index k acc bytes with
  | zero =>
    cases bytes with
    | nil => simp [lastGroup?] at hk
    | cons b rest =>
      obtain ⟨rfl, hb⟩ := hfits.resolve_left (by omega)
      obtain rfl : index = 4 := by omega
      have hlast : b.toNat < 16 := (le_last_iff b).mp hb
      obtain ⟨n, hn, hread⟩ := readGroups_cons hi (fun _ => hlast) hacc (by omega) rest
      refine ⟨n, by rw [groupsValue_zero, hn], ?_⟩
      rw [hread, if_pos (by omega)]
      rfl
  | succ left ih =>
    cases bytes with
    | nil => simp [lastGroup?] at hk
    | cons b rest =>
      have hpow : 2 ^ (7 * (index + 1)) = 128 * 2 ^ (7 * index) := by
        rw [Nat.mul_add, Nat.pow_add, Nat.mul_comm]
      have hroom : 2 ^ (7 * (index + 1)) ≤ 2 ^ 28 := Nat.pow_le_pow_right (by omega) (by omega)
      have hgroup : b.toNat % 128 * 2 ^ (7 * index) ≤ 127 * 2 ^ (7 * index) :=
        Nat.mul_le_mul_right _ (by omega)
      have hbits : b.toNat % 128 * 2 ^ (7 * index) < 2 ^ 32 := by omega
      obtain ⟨next, hnext, hread⟩ := readGroups_cons hi (by omega) hacc hbits rest
      rw [lastGroup_cons] at hk
      by_cases hb : b < 0x80
      · obtain rfl : 0 = k := by simpa [hb] using hk
        refine ⟨next, by rw [groupsValue_zero, hnext], ?_⟩
        rw [hread, if_pos ((lt_top_iff b).mp hb)]
        rfl
      · rw [if_neg hb] at hk
        obtain ⟨j, hj, rfl⟩ := Option.map_eq_some_iff.mp hk
        have hfits' : j < left ∨ j = left ∧ rest.getD j 0 ≤ 0x0F := by
          simpa using hfits
        obtain ⟨n, hn, hrest⟩ := ih (by omega) (by omega : next.toNat < 2 ^ (7 * (index + 1))) hj
          hfits'
        refine ⟨n, ?_, ?_⟩
        · rw [hn, hnext, groupsValue_succ, hpow]
          ring
        · rw [hread, if_neg (fun h => hb ((lt_top_iff b).mpr h)), hrest]
          rfl

/-- Groups that may go on but do not are cut off, and counted. -/
theorem readGroups_truncated {left index : Nat} {acc : UInt32} {bytes : Bytes}
    (hl : bytes.length ≤ left) (hc : ∀ b ∈ bytes, 0x80 ≤ b) :
    readGroups (left + 1) index acc bytes = .error (.truncated (index + bytes.length)) := by
  induction left generalizing index acc bytes with
  | zero =>
    obtain rfl : bytes = [] := by simpa using hl
    rfl
  | succ left ih =>
    cases bytes with
    | nil => rfl
    | cons b rest =>
      have hb := top_bit_of_le (hc b List.mem_cons_self)
      rw [readGroups, if_neg (by omega)]
      simp only [hb, if_false]
      rw [ih (Nat.le_of_succ_le_succ hl) fun c hm => hc c (List.mem_cons_of_mem _ hm),
        List.length_cons, Nat.add_assoc, Nat.add_comm 1]

/-- Groups that go on until there is no room for the last of them. -/
theorem readGroups_tooLong {left index : Nat} {acc : UInt32} {before rest : Bytes} {b : UInt8}
    (hl : before.length = left) (hc : ∀ c ∈ before, 0x80 ≤ c) (hb : ¬ b ≤ 0x0F) :
    readGroups (left + 1) index acc (before ++ b :: rest) = .error .tooLong := by
  subst hl
  induction before generalizing index acc with
  | nil => simp [readGroups, UInt8.not_le.mp hb]
  | cons c before ih =>
    have hc' := top_bit_of_le (hc c List.mem_cons_self)
    rw [List.length_cons, List.cons_append, readGroups, if_neg (by omega)]
    simp only [hc', if_false]
    exact ih fun d hm => hc d (List.mem_cons_of_mem _ hm)

/-- Every byte before the end of a number goes on, and so does every byte if there is no end. -/
theorem goesOn_of_lt {bytes : Bytes} {i : Nat} (hi : i < bytes.length)
    (h : ∀ k, lastGroup? bytes = some k → i < k) : 0x80 ≤ bytes[i] := by
  cases hk : lastGroup? bytes with
  | none => exact lastGroup_eq_none.mp hk _ (List.getElem_mem hi)
  | some k =>
    obtain ⟨_, _, hbefore⟩ := List.findIdx?_eq_some_iff_getElem.mp hk
    simpa using hbefore i (h k hk)

/-- A number that ends is read, and what stands behind its last group is left. -/
theorem readUvarint_of_endsAt {bytes : Bytes} {k : Nat} (h : EndsAt bytes k) :
    ∃ n : UInt32, n.toNat = groupsValue bytes k ∧
      readUvarint bytes = .ok (n, bytes.drop (k + 1)) := by
  obtain ⟨hk, hfits⟩ := h
  have hfits' : k < 4 ∨ k = 4 ∧ bytes.getD k 0 ≤ 0x0F :=
    hfits.imp_right fun ⟨h4, hb⟩ => ⟨h4, h4 ▸ hb⟩
  obtain ⟨n, hn, hread⟩ : ∃ n : UInt32,
      n.toNat = (0 : UInt32).toNat + groupsValue bytes k * 2 ^ (7 * 0) ∧
        readGroups 5 0 0 bytes = .ok (n, bytes.drop (k + 1)) :=
    readGroups_end rfl (by decide) hk hfits'
  refine ⟨n, by simpa using hn, ?_⟩
  simp only [readUvarint, maxVarintBytes, hread, Except.mapError]

theorem readUvarint_of_unfinished {bytes : Bytes} (h : Unfinished bytes) :
    readUvarint bytes = .error (.varint (.truncated bytes.length)) := by
  obtain ⟨hl, hc⟩ := h
  have hread : readGroups 5 0 0 bytes = .error (.truncated (0 + bytes.length)) :=
    readGroups_truncated (Nat.le_of_lt_succ hl) hc
  simp only [readUvarint, maxVarintBytes, hread, Except.mapError, Nat.zero_add]

/-- What neither ends in time nor breaks off goes on for four bytes, and has a fifth that leaves
the room of 32 bits. -/
theorem readUvarint_of_neither {bytes : Bytes} (he : ∀ k, ¬ EndsAt bytes k)
    (hu : ¬ Unfinished bytes) : readUvarint bytes = .error (.varint .tooLong) := by
  have hend : ∀ k, lastGroup? bytes = some k → 4 ≤ k := by
    intro k hk
    by_contra hlt
    exact he k ⟨hk, .inl (by omega)⟩
  have hlen : 4 < bytes.length := by
    cases hk : lastGroup? bytes with
    | none =>
      by_contra hshort
      exact hu ⟨by omega, lastGroup_eq_none.mp hk⟩
    | some k => exact Nat.lt_of_le_of_lt (hend k hk) (lastGroup_lt_length hk)
  have hfour : ∀ c ∈ bytes.take 4, 0x80 ≤ c := by
    intro c hc
    obtain ⟨i, hi, rfl⟩ := List.mem_take_iff_getElem.mp hc
    exact goesOn_of_lt _ fun k hk => by have := hend k hk; omega
  have hfifth : ¬ bytes[4] ≤ 0x0F := by
    intro hb
    by_cases h4 : lastGroup? bytes = some 4
    · exact he 4 ⟨h4, .inr ⟨rfl, by rwa [List.getD_eq_getElem _ _ hlen]⟩⟩
    · have hgoes := goesOn_of_lt hlen fun k hk =>
        Nat.lt_of_le_of_ne (hend k hk) fun h => h4 (h ▸ hk)
      rw [top_le_iff] at hgoes
      rw [le_last_iff] at hb
      omega
  have hread : readGroups 5 0 0 bytes = .error .tooLong := by
    rw [← List.take_append_drop 4 bytes, List.drop_eq_getElem_cons hlen]
    exact readGroups_tooLong (List.length_take_of_le (by omega)) hfour hfifth
  simp only [readUvarint, maxVarintBytes, hread, Except.mapError]

/-- An input has a number, is cut off inside one, or has too many groups or bits. -/
theorem uvarint_cases (bytes : Bytes) :
    (∃ k, EndsAt bytes k) ∨ Unfinished bytes ∨ (∀ k, ¬ EndsAt bytes k) ∧ ¬ Unfinished bytes := by
  by_cases he : ∃ k, EndsAt bytes k
  · exact .inl he
  · by_cases hu : Unfinished bytes
    · exact .inr (.inl hu)
    · exact .inr (.inr ⟨not_exists.mp he, hu⟩)

theorem EndsAt.not_unfinished {bytes : Bytes} {k : Nat} (h : EndsAt bytes k) :
    ¬ Unfinished bytes := by
  intro hu
  have hnone := lastGroup_eq_none.mpr hu.2
  rw [h.1] at hnone
  cases hnone

theorem readUvarint_eq_ok {bytes rest : Bytes} {n : UInt32} :
    readUvarint bytes = .ok (n, rest) ↔
      ∃ k, EndsAt bytes k ∧ n.toNat = groupsValue bytes k ∧ rest = bytes.drop (k + 1) := by
  constructor
  · intro hread
    rcases uvarint_cases bytes with ⟨k, hk⟩ | hu | ⟨he, hu⟩
    · obtain ⟨n', hn', hread'⟩ := readUvarint_of_endsAt hk
      rw [hread'] at hread
      cases hread
      exact ⟨k, hk, hn', rfl⟩
    · rw [readUvarint_of_unfinished hu] at hread
      cases hread
    · rw [readUvarint_of_neither he hu] at hread
      cases hread
  · rintro ⟨k, hk, hn, rfl⟩
    obtain ⟨n', hn', hread⟩ := readUvarint_of_endsAt hk
    rw [hread, UInt32.toNat_inj.mp (hn.trans hn'.symm)]

/-- As many groups as the number needs, and no more. -/
theorem length_writeUvarint_le {n k : Nat} (h : n < 128 ^ (k + 1)) :
    (writeUvarint n).length ≤ k + 1 := by
  induction k generalizing n with
  | zero =>
    rw [writeUvarint, if_pos (by omega)]
    rfl
  | succ k ih =>
    rw [writeUvarint]
    split
    · simp
    · have hpow : 128 ^ (k + 1 + 1) = 128 * 128 ^ (k + 1) := Nat.pow_succ'
      have hrest := ih (n := n / 128) (by omega)
      rw [List.length_cons]
      omega

/-- Reading a varint is exact. It gives the sum of the groups up to the first byte without the top
bit, with no bit lost, and leaves the bytes behind that one, if and only if the number ends there
within 32 bits. It reports the input as truncated if and only if fewer than five bytes are left and
all of them go on, and any other input as too long. What is written for a number is read as that
number, and no other bytes that are read as it are fewer. -/
theorem readUvarint_exact :
    (∀ bytes : Bytes,
      (∀ n rest, readUvarint bytes = .ok (n, rest) ↔
        ∃ k, EndsAt bytes k ∧ n.toNat = groupsValue bytes k ∧ rest = bytes.drop (k + 1)) ∧
      (∀ k, EndsAt bytes k → groupsValue bytes k < 2 ^ 32 ∧ k < bytes.length) ∧
      (∀ read, readUvarint bytes = .error (.varint (.truncated read)) ↔
        Unfinished bytes ∧ read = bytes.length) ∧
      (readUvarint bytes = .error (.varint .tooLong) ↔
        (∀ k, ¬ EndsAt bytes k) ∧ ¬ Unfinished bytes)) ∧
    ∀ n : Nat, n < 2 ^ 32 →
      (∀ tail, readUvarint (writeUvarint n ++ tail) = .ok (UInt32.ofNat n, tail)) ∧
      ∀ bytes rest, readUvarint bytes = .ok (UInt32.ofNat n, rest) →
        (writeUvarint n).length + rest.length ≤ bytes.length := by
  constructor
  · intro bytes
    refine ⟨fun n rest => readUvarint_eq_ok, ?_, ?_, ?_⟩
    · intro k hk
      obtain ⟨n, hn, _⟩ := readUvarint_of_endsAt hk
      exact ⟨hn ▸ n.toNat_lt, lastGroup_lt_length hk.1⟩
    · intro read
      rcases uvarint_cases bytes with ⟨k, hk⟩ | hu | ⟨he, hu⟩
      · obtain ⟨n, _, hread⟩ := readUvarint_of_endsAt hk
        simp [hread, hk.not_unfinished]
      · simp [readUvarint_of_unfinished hu, hu, eq_comm]
      · simp [readUvarint_of_neither he hu, hu]
    · rcases uvarint_cases bytes with ⟨k, hk⟩ | hu | ⟨he, hu⟩
      · obtain ⟨n, _, hread⟩ := readUvarint_of_endsAt hk
        simp only [hread, reduceCtorEq, false_iff]
        exact fun h => h.1 k hk
      · simp [readUvarint_of_unfinished hu, hu]
      · simp [readUvarint_of_neither he hu, hu, he]
  · intro n hn
    have hofNat : (UInt32.ofNat n).toNat = n := UInt32.toNat_ofNat_of_lt' hn
    constructor
    · intro tail
      obtain ⟨r, hr, hread⟩ := readUvarint_writeUvarint hn tail
      rw [hread, ← hr, UInt32.ofNat_toNat]
    · intro bytes rest hread
      obtain ⟨k, hk, hvalue, rfl⟩ := readUvarint_eq_ok.mp hread
      have hlt := lastGroup_lt_length hk.1
      have hshort : (writeUvarint n).length ≤ k + 1 := by
        apply length_writeUvarint_le
        rw [← hofNat, hvalue]
        exact groupsValue_lt bytes k
      rw [List.length_drop]
      omega

/-- The greatest number takes all five groups, and is read from what is written for it. -/
theorem readUvarint_exact_greatest :
    EndsAt [0xFF, 0xFF, 0xFF, 0xFF, 0x0F, 7] 4 ∧
      readUvarint [0xFF, 0xFF, 0xFF, 0xFF, 0x0F, 7] = .ok (0xFFFFFFFF, [7]) ∧
      0xFFFFFFFF < 2 ^ 32 ∧
      readUvarint (writeUvarint 0xFFFFFFFF ++ [7]) = .ok (0xFFFFFFFF, [7]) := by
  have hends : EndsAt [0xFF, 0xFF, 0xFF, 0xFF, 0x0F, 7] 4 := ⟨by decide, .inr ⟨rfl, by decide⟩⟩
  have hvalue : (0xFFFFFFFF : UInt32).toNat =
      groupsValue [0xFF, 0xFF, 0xFF, 0xFF, 0x0F, 7] 4 := by decide
  exact ⟨hends, ((readUvarint_exact.1 _).1 _ _).mpr ⟨4, hends, hvalue, rfl⟩, by decide,
    (readUvarint_exact.2 0xFFFFFFFF (by decide)).1 [7]⟩

end WireSchema.Wire

import InstructionParser.Crc
import InstructionParser.ShiftRegister

/-!
# The checksum is a remainder

The table step takes eight bits at once, and each entry of the table is what the register makes of its
index. So the checksum of a message is the remainder of its bits, most significant first, by
`x^16 + x^12 + x^5 + 1`.
-/

namespace InstructionParser

open CLib ShiftRegister

/-- `x^12 + x^5 + 1`, the polynomial below its highest term. -/
def crcPolynomial : BitVec 16 := 0x1021#16

def byteBits (b : UInt8) : List Bool := (List.range 8).map fun i => b.toBitVec.getMsbD i

/-- The bits of a message, each byte from its most significant bit on. -/
def messageBits (bs : Bytes) : List Bool := bs.flatMap byteBits

@[simp]
theorem byteBits_length (b : UInt8) : (byteBits b).length = 8 := by simp [byteBits]

@[simp]
theorem messageBits_cons (b : UInt8) (bs : Bytes) :
    messageBits (b :: bs) = byteBits b ++ messageBits bs := rfl

theorem messageBits_append (bs bs' : Bytes) :
    messageBits (bs ++ bs') = messageBits bs ++ messageBits bs' := List.flatMap_append

@[simp]
theorem messageBits_length (bs : Bytes) : (messageBits bs).length = 8 * bs.length := by
  induction bs with
  | nil => rfl
  | cons b bs ih =>
      rw [messageBits_cons, List.length_append, ih, byteBits_length, List.length_cons]
      omega

theorem messageBits_zeros (n : Nat) :
    messageBits (List.replicate n 0) = List.replicate (8 * n) false := by
  induction n with
  | zero => rfl
  | succ n ih =>
      rw [List.replicate_succ, messageBits_cons, ih, Nat.mul_succ, Nat.add_comm,
        List.replicate_add]
      rfl

theorem crcPolynomial_odd : crcPolynomial.getLsbD 0 = true := rfl

/-! ### One byte -/

/-- Every entry of `crc16_tab` is what eight shifts make of its index. -/
theorem crc16Tab_eq : ∀ i : BitVec 8,
    (step crcPolynomial)^[8] (i.setWidth 16 <<< 8) = (crc16Tab.getD i.toNat 0).toBitVec := by
  decide +kernel

theorem shift_low : ∀ l : BitVec 8,
    (step crcPolynomial)^[8] (l.setWidth 16) = l.setWidth 16 <<< 8 := by
  decide +kernel

theorem getD_byteBits (b : UInt8) {i : Nat} (hi : i < 8) :
    (byteBits b).getD i false = b.toBitVec.getMsbD i := by
  rw [byteBits, List.getD_eq_getElem _ _ (by simpa using hi)]
  simp

theorem load_byteBits (b : UInt8) : (load (byteBits b) : BitVec 16) = b.toBitVec.setWidth 16 <<< 8 := by
  apply BitVec.eq_of_getMsbD_eq
  intro i hi
  rw [getMsbD_load _ hi]
  by_cases hlow : i < 8
  · rw [getD_byteBits b hlow]
    simp [BitVec.getMsbD, hlow, hi, show 15 - i - 8 = 7 - i by omega, show ¬ 15 - i < 8 by omega,
      show 15 - i < 16 by omega]
  · rw [List.getD_eq_default _ _ (by simpa using hlow)]
    simp [BitVec.getMsbD, hi, show 15 - i < 8 by omega]

/-- The table step is eight steps of the register. -/
theorem crcStep_eq (cksum : UInt16) (b : UInt8) :
    (crcStep cksum b).toBitVec = (byteBits b).foldl (feed crcPolynomial) cksum.toBitVec := by
  set c := cksum.toBitVec with hc
  set index : BitVec 8 := (c >>> 8).setWidth 8 ^^^ b.toBitVec with hindex
  have hsplit : c ^^^ b.toBitVec.setWidth 16 <<< 8
      = index.setWidth 16 <<< 8 ^^^ (c.setWidth 8).setWidth 16 := by
    apply BitVec.eq_of_getLsbD_eq
    intro i hi
    by_cases hlow : i < 8
    · simp [hindex, hlow, hi]
    · simp [hindex, hlow, hi, show i - 8 < 8 by omega, show 8 + (i - 8) = i by omega, Nat.not_lt.mp hlow]
  have hshift : (c.setWidth 8).setWidth 16 <<< 8 = c <<< 8 := by
    apply BitVec.eq_of_getLsbD_eq
    intro i hi
    simp [hi, show i - 8 < 8 by omega, BitVec.getLsbD_eq_getElem (show i - 8 < 16 by omega)]
  have hnat : (cksum.toNat >>> 8 ^^^ b.toNat) &&& 0xff = index.toNat := by
    have hhigh : (c >>> 8).toNat < 2 ^ 8 := by
      have hlt := c.isLt
      rw [BitVec.toNat_ushiftRight, Nat.shiftRight_eq_div_pow]
      omega
    rw [hindex, BitVec.toNat_xor, BitVec.toNat_setWidth, Nat.mod_eq_of_lt hhigh,
      show (0xff : Nat) = 2 ^ 8 - 1 from rfl, Nat.and_two_pow_sub_one_eq_mod]
    exact Nat.mod_eq_of_lt (Nat.xor_lt_two_pow hhigh b.toNat_lt)
  rw [foldl_feed_eq (by simp), byteBits_length, load_byteBits, hsplit, iterate_step_xor, crc16Tab_eq,
    shift_low, hshift, crcStep, hnat]
  apply BitVec.eq_of_toNat_eq
  simp [hc]

theorem crc_foldl_eq (bs : Bytes) (cksum : UInt16) :
    (bs.foldl crcStep cksum).toBitVec
      = (messageBits bs).foldl (feed crcPolynomial) cksum.toBitVec := by
  induction bs generalizing cksum with
  | nil => rfl
  | cons b bs ih => rw [List.foldl_cons, ih, crcStep_eq, messageBits_cons, List.foldl_append]

/-- The checksum of a message is the remainder of its bits. -/
theorem crc_eq_remainder (bs : Bytes) :
    (uhfCrc16CcittTab bs).toBitVec = remainder crcPolynomial (messageBits bs) := crc_foldl_eq bs 0

theorem crc_eq_zero_iff {bs : Bytes} :
    uhfCrc16CcittTab bs = 0 ↔ remainder crcPolynomial (messageBits bs) = 0#16 := by
  rw [← UInt16.toBitVec_inj, crc_eq_remainder]
  rfl

/-! ### Sums, zeros and the checksum behind a message -/

theorem byteBits_xor (a b : UInt8) :
    byteBits (a ^^^ b) = (byteBits a).zipWith Bool.xor (byteBits b) := by
  simp [byteBits, List.zipWith_map]

theorem messageBits_xor {xs ys : Bytes} (h : xs.length = ys.length) :
    messageBits (xs.zipWith (· ^^^ ·) ys) = (messageBits xs).zipWith Bool.xor (messageBits ys) := by
  induction xs generalizing ys with
  | nil => rfl
  | cons x xs ih =>
      cases ys with
      | nil => cases h
      | cons y ys =>
          rw [List.zipWith_cons_cons, messageBits_cons, messageBits_cons, messageBits_cons,
            ih (Nat.succ.inj h), byteBits_xor, List.zipWith_append (by simp)]

theorem crc_xor {xs ys : Bytes} (h : xs.length = ys.length) :
    uhfCrc16CcittTab (xs.zipWith (· ^^^ ·) ys) = uhfCrc16CcittTab xs ^^^ uhfCrc16CcittTab ys := by
  rw [← UInt16.toBitVec_inj, UInt16.toBitVec_xor, crc_eq_remainder, crc_eq_remainder,
    crc_eq_remainder, messageBits_xor h, remainder_xor (by simp [h])]

theorem crc_append_zeros_eq_zero_iff (bs : Bytes) (n : Nat) :
    uhfCrc16CcittTab (bs ++ List.replicate n 0) = 0 ↔ uhfCrc16CcittTab bs = 0 := by
  rw [crc_eq_zero_iff, crc_eq_zero_iff, messageBits_append, messageBits_zeros,
    remainder_append_zeros, iterate_step_eq_zero_iff crcPolynomial_odd]

theorem load_be16 (a b : UInt8) : (load (messageBits [a, b]) : BitVec 16) = (be16 a b).toBitVec := by
  have hbe : (be16 a b).toBitVec = a.toBitVec ++ b.toBitVec := by
    apply BitVec.eq_of_toNat_eq
    rw [BitVec.toNat_append]
    exact (toNat_be16 a b).trans (by rw [shiftLeft_or b.toBitVec.isLt]; rfl)
  apply BitVec.eq_of_getMsbD_eq
  intro i hi
  rw [getMsbD_load _ hi, hbe, BitVec.getMsbD_append, messageBits_cons, messageBits_cons]
  by_cases hlow : i < 8
  · rw [List.getD_append _ _ _ _ (by simpa using hlow), getD_byteBits a hlow]
    simp [show ¬ 8 ≤ i by omega]
  · rw [List.getD_append_right _ _ _ _ (by simpa using hlow), byteBits_length]
    rw [List.getD_append _ _ _ _ (by simp; omega), getD_byteBits b (by omega)]
    simp [show 8 ≤ i by omega]

theorem crc_append_eq_zero_iff (bs : Bytes) (a b : UInt8) :
    uhfCrc16CcittTab (bs ++ [a, b]) = 0 ↔ uhfCrc16CcittTab bs = be16 a b := by
  rw [crc_eq_zero_iff, messageBits_append, remainder, List.foldl_append,
    foldl_feed_eq (by simp), iterate_step_eq_zero_iff crcPolynomial_odd, BitVec.xor_eq_zero_iff,
    load_be16, ← UInt16.toBitVec_inj, crc_eq_remainder]
  rfl

end InstructionParser

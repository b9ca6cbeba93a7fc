import InstructionParser.Proof.Crc
import InstructionParser.RemainderPolynomial

/-!
# The checksum and its polynomial

`uhf_crc16_ccitt_tab` takes eight bits at once out of its table. After each byte `cksum` holds what the
register of 16 bits holds after as many bits, and at the end the remainder of the message times
`x^16` by `x^16 + x^12 + x^5 + 1`.
-/

namespace InstructionParser

open CLib ShiftRegister Polynomial

theorem generator_crcPolynomial :
    generator crcPolynomial = (X ^ 16 + X ^ 12 + X ^ 5 + 1 : (ZMod 2)[X]) := by
  have hlow : toPoly crcPolynomial = (X ^ 12 + X ^ 5 + 1 : (ZMod 2)[X]) := by
    simp [toPoly, Fin.sum_univ_succ, crcPolynomial, boolBit]
    ring
  rw [generator, hlow]
  ring

theorem messageBits_take (bs : Bytes) (k : Nat) :
    messageBits (bs.take k) = (messageBits bs).take (8 * k) := by
  induction bs generalizing k with
  | nil => simp [messageBits]
  | cons b bs ih =>
      cases k with
      | zero => rfl
      | succ k =>
          have hlength : 8 * (k + 1) = (byteBits b).length + 8 * k := by
            rw [byteBits_length]
            omega
          rw [List.take_succ_cons, messageBits_cons, messageBits_cons, ih, hlength,
            List.take_length_add_append]

/-- **The checksum.** After every byte `cksum` is the register of the bit-by-bit algorithm, which starts
from 0 and takes the most significant bit of each byte first; at the end it is the remainder of the
message times `x^16`. -/
theorem crc_bitwise (buf : Bytes) :
    (∀ k, ((buf.take k).foldl crcStep 0).toBitVec
        = ((messageBits buf).take (8 * k)).foldl (feed crcPolynomial) 0#16)
      ∧ (uhfCrc16CcittTab buf).toBitVec = (messageBits buf).foldl (feed crcPolynomial) 0#16
      ∧ toPoly (uhfCrc16CcittTab buf).toBitVec
        = (messagePoly (messageBits buf) * X ^ 16) %ₘ (X ^ 16 + X ^ 12 + X ^ 5 + 1) := by
  refine ⟨fun k => ?_, crc_foldl_eq buf 0, ?_⟩
  · rw [← messageBits_take]
    exact crc_foldl_eq (buf.take k) 0
  · rw [crc_eq_remainder, toPoly_remainder (by decide), generator_crcPolynomial]

end InstructionParser

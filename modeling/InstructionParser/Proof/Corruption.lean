import InstructionParser.Proof.Truncation

/-!
# Corrupted frames

An error that keeps the length keeps the place of the CRC, so the corrupted frame passes only when the
error itself leaves no remainder. Short bursts, odd errors and pairs always leave one: the polynomial
has a constant term, is divisible by `x + 1`, and its period is longer than a frame has bits.
-/

namespace InstructionParser

open CLib ShiftRegister

variable {headH headL : UInt8} {buf error : Bytes} {len : UInt16}

/-- The line with the bits of `error` flipped in its first bytes. -/
def corrupt (buf error : Bytes) : Bytes :=
  (buf.take error.length).zipWith (· ^^^ ·) error ++ buf.drop error.length

/-- An error on the frame and its CRC, not on its length, of one of the three classes. -/
structure Detectable (len : UInt16) (error : Bytes) : Prop where
  length_eq : error.length = len.toNat + 2
  keeps_length : error.getD 2 0 = 0 ∧ error.getD 3 0 = 0
  nonzero : ∃ b ∈ error, b ≠ 0
  small : InBurst 16 (messageBits error) ∨ (messageBits error).count true % 2 = 1
    ∨ (messageBits error).count true = 2

theorem crcPolynomial_parity : parity crcPolynomial = 1 := by decide

/-- The register does not come back to the polynomial within the bits of a line. -/
theorem crcPolynomial_period : neverAt crcPolynomial crcPolynomial 2040 crcPolynomial = true := by
  decide +kernel

theorem one_mem_byteBits {b : UInt8} (h : b ≠ 0) : true ∈ byteBits b := by
  by_contra hzeros
  apply h
  rw [← UInt8.toBitVec_inj]
  apply BitVec.eq_of_getMsbD_eq
  intro i hi
  have hnone : b.toBitVec.getMsbD i ≠ true := fun hbit =>
    hzeros (List.mem_map.mpr ⟨i, List.mem_range.mpr hi, hbit⟩)
  simpa using hnone

theorem Detectable.crc_ne_zero (h : Detectable len error) (hfits : len.toNat + 2 ≤ 255) :
    uhfCrc16CcittTab error ≠ 0 := by
  obtain ⟨b, hb, hne⟩ := h.nonzero
  have hone : true ∈ messageBits error := List.mem_flatMap.mpr ⟨b, hb, one_mem_byteBits hne⟩
  rw [Ne, crc_eq_zero_iff]
  rcases h.small with hburst | hodd | htwo
  · exact remainder_inBurst_ne_zero crcPolynomial_odd hburst hone
  · exact remainder_odd_ne_zero crcPolynomial_parity hodd
  · refine remainder_two_ne_zero crcPolynomial_odd crcPolynomial_period ?_ htwo
    rw [messageBits_length, h.length_eq]
    omega

theorem corrupt_length (h : error.length ≤ buf.length) : (corrupt buf error).length = buf.length := by
  simp only [corrupt, List.length_append, List.length_zipWith, List.length_take, List.length_drop]
  omega

theorem take_corrupt (h : error.length ≤ buf.length) :
    (corrupt buf error).take error.length
      = (buf.take error.length).zipWith (· ^^^ ·) error := by
  have hlength : ((buf.take error.length).zipWith (· ^^^ ·) error).length = error.length := by
    rw [List.length_zipWith, List.length_take]
    omega
  rw [corrupt, List.take_append_of_le_length (by omega), List.take_of_length_le (by omega)]

theorem getElem?_corrupt (h : error.length ≤ buf.length) {i : Nat} (hi : error.getD i 0 = 0) :
    (corrupt buf error)[i]? = buf[i]? := by
  have hlength : ((buf.take error.length).zipWith (· ^^^ ·) error).length = error.length := by
    rw [List.length_zipWith, List.length_take]
    omega
  by_cases hlt : i < error.length
  · have hbuf : i < buf.length := Nat.lt_of_lt_of_le hlt h
    rw [List.getD_eq_getElem _ _ hlt] at hi
    rw [corrupt, List.getElem?_append_left (by omega), List.getElem?_zipWith,
      List.getElem?_take_of_lt hlt, List.getElem?_eq_getElem hlt, List.getElem?_eq_getElem hbuf, hi]
    simp
  · rw [corrupt, List.getElem?_append_right (by omega), hlength, List.getElem?_drop,
      Nat.add_sub_cancel' (Nat.not_lt.mp hlt)]

theorem readBe16_corrupt (h : error.length ≤ buf.length) {i : Nat} (hi : error.getD i 0 = 0)
    (hi' : error.getD (i + 1) 0 = 0) : readBe16 (corrupt buf error) i = readBe16 buf i := by
  rw [readBe16, readBe16, getElem?_corrupt h hi, getElem?_corrupt h hi']

theorem checkFrame_value {ret : Int} (h : checkFrame headH headL buf = some ret) :
    ret = 0 ∨ ret = -1 := by
  simp only [checkFrame, Option.bind_eq_bind, Option.bind_eq_some_iff] at h
  obtain ⟨b0, _, h⟩ := h
  split_ifs at h
  · exact Or.inr (Option.some.inj h).symm
  obtain ⟨b1, _, h⟩ := Option.bind_eq_some_iff.mp h
  split_ifs at h
  · exact Or.inr (Option.some.inj h).symm
  obtain ⟨_, _, h⟩ := Option.bind_eq_some_iff.mp h
  obtain ⟨_, _, h⟩ := Option.bind_eq_some_iff.mp h
  split_ifs at h
  · exact Or.inr (Option.some.inj h).symm
  · exact Or.inl (Option.some.inj h).symm

theorem checkFrame_corrupt (hcheck : checkFrame headH headL buf = some 0)
    (hlen : readBe16 buf 2 = some len) (hfits : len.toNat + 2 ≤ 255) (herror : Detectable len error) :
    checkFrame headH headL (corrupt buf error) = some (-1) := by
  have hinside : len.toNat + 2 ≤ buf.length :=
    readBe16_length ((checkFrame_eq_zero_iff_of_len hlen).mp hcheck).2
  have hshort : error.length ≤ buf.length := herror.length_eq ▸ hinside
  have hlen' : readBe16 (corrupt buf error) 2 = some len :=
    (readBe16_corrupt hshort herror.keeps_length.1 herror.keeps_length.2).trans hlen
  have hinside' : len.toNat + 2 ≤ (corrupt buf error).length := by rwa [corrupt_length hshort]
  have hdefined : ∃ ret, checkFrame headH headL (corrupt buf error) = some ret := by
    refine (exists_checkFrame_iff (readBe16_length hlen')).mpr fun _ len' hmem => ?_
    obtain rfl := Option.some.inj (hlen'.symm.trans hmem)
    exact hinside'
  obtain ⟨ret, hret⟩ := hdefined
  rcases checkFrame_value hret with rfl | rfl
  · have hsum := ((checkFrame_eq_zero_iff_crc hlen' hinside').mp hret).2
    rw [← herror.length_eq, take_corrupt hshort, crc_xor (by simpa using hshort), herror.length_eq,
      ((checkFrame_eq_zero_iff_crc hlen hinside).mp hcheck).2, UInt16.zero_xor] at hsum
    exact absurd hsum (herror.crc_ne_zero hfits)
  · exact hret

/-- **Corruption.** The check refuses every accepted frame of at most 255 bytes after an error that
leaves the length alone and lies within sixteen consecutive bits, or flips an odd number of bits, or
flips two. -/
theorem corruption_detected (hlen : readBe16 buf 2 = some len) (hfits : len.toNat + 2 ≤ 255)
    (herror : Detectable len error) :
    (htCheckData buf = some 0 → htCheckData (corrupt buf error) = some (-1))
    ∧ (slCheckData buf = some 0 → slCheckData (corrupt buf error) = some (-1)) :=
  ⟨fun hcheck => checkFrame_corrupt hcheck hlen hfits herror,
    fun hcheck => checkFrame_corrupt hcheck hlen hfits herror⟩

def flippedBit : Bytes := [0, 0, 0, 0, 0, 0, 0, 4, 0, 0, 0, 0, 0, 0]

theorem corruption_detected_getIp :
    htCheckData (corrupt (readLine (htFrame 1 0x0109 (ascii "eth0"))) flippedBit) = some (-1) := by
  have hcheck : htCheckData (readLine (htFrame 1 0x0109 (ascii "eth0"))) = some 0 :=
    htFrame_checked 1 0x0109 (by decide) _
  have herror : Detectable 12 flippedBit :=
    ⟨rfl, ⟨rfl, rfl⟩, ⟨4, by decide, by decide⟩, Or.inr (Or.inl (by decide))⟩
  exact (corruption_detected rfl (by decide) herror).1 hcheck

end InstructionParser

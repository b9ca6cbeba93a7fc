import InstructionParser.Proof.Codec
import InstructionParser.Proof.Crc
import InstructionParser.Proof.LineBounds

/-!
# Frames that have not come whole

The checks are not told how many bytes were read and take the zeros behind them for the rest of the
frame. Zeros behind a message keep its remainder zero or not zero, so a frame that is cut off passes
exactly when the bytes that have come leave no remainder by themselves.
-/

namespace InstructionParser

open CLib

variable {headH headL : UInt8} {buf chunk : Bytes} {len : UInt16}

theorem checkFrame_eq_zero_iff_of_len (hlen : readBe16 buf 2 = some len) :
    checkFrame headH headL buf = some 0 ↔
      Magic headH headL buf
        ∧ readBe16 buf len.toNat = some (uhfCrc16CcittTab (buf.take len.toNat)) := by
  rw [checkFrame_eq_zero_iff, Magic, and_assoc]
  refine and_congr_right fun _ => and_congr_right fun _ => ?_
  constructor
  · rintro ⟨len', hlen', hcrc⟩
    obtain rfl := Option.some.inj (hlen.symm.trans hlen')
    exact hcrc
  · exact fun hcrc => ⟨len, hlen, hcrc⟩

theorem checkFrame_eq_zero_iff_crc (hlen : readBe16 buf 2 = some len)
    (hfits : len.toNat + 2 ≤ buf.length) :
    checkFrame headH headL buf = some 0 ↔
      Magic headH headL buf ∧ uhfCrc16CcittTab (buf.take (len.toNat + 2)) = 0 := by
  obtain ⟨crc, hcrc⟩ := exists_readBe16 hfits
  obtain ⟨hhi, hlo⟩ := readBe16_eq_some_iff.mp hcrc
  have hframe : buf.take (len.toNat + 2)
      = buf.take len.toNat ++ [hi8 crc.toNat, lo8 crc.toNat] := by
    rw [List.take_add_one, hlo, List.take_add_one, hhi, List.append_assoc]
    rfl
  rw [checkFrame_eq_zero_iff_of_len hlen, hframe, crc_append_eq_zero_iff, be16_be16Bytes, hcrc,
    Option.some.injEq, eq_comm (a := crc)]

/-- The whole frame that the line announces is among the bytes that were read, with the magic and the
CRC of its body. -/
structure CompleteFrame (headH headL : UInt8) (len : UInt16) (chunk : Bytes) : Prop where
  magic : Magic headH headL chunk
  received : len.toNat + 2 ≤ chunk.length
  crc : readBe16 chunk len.toNat = some (uhfCrc16CcittTab (chunk.take len.toNat))

theorem magic_readLine (hH : headH ≠ 0) (hL : headL ≠ 0) :
    Magic headH headL (readLine chunk) ↔ Magic headH headL chunk := by
  have hget : ∀ {b : UInt8} (i : Nat), b ≠ 0 →
      ((readLine chunk)[i]? = some b ↔ chunk[i]? = some b) := by
    intro b i hb
    by_cases hi : i < chunk.length
    · rw [readLine, List.getElem?_append_left hi]
    · rw [readLine, List.getElem?_append_right (Nat.not_lt.mp hi),
        List.getElem?_eq_none (Nat.not_lt.mp hi)]
      constructor
      · intro h
        exact absurd (List.eq_of_mem_replicate (List.mem_of_getElem? h)) hb
      · intro h
        cases h
  exact and_congr (hget 0 hH) (hget 1 hL)

theorem take_readLine {n : Nat} (hlong : chunk.length ≤ n) (hline : n ≤ 255) :
    (readLine chunk).take n = chunk ++ List.replicate (n - chunk.length) 0 := by
  rw [readLine, List.take_append, List.take_of_length_le hlong, List.take_replicate,
    Nat.min_eq_left (Nat.sub_le_sub_right hline _)]

/-- The property that a check is to have on a line: it accepts complete frames and nothing else. -/
def OnlyComplete (headH headL : UInt8) (check : Bytes → Option Int) (len : UInt16) (chunk : Bytes) :
    Prop :=
  check (readLine chunk) = some 0 ↔ CompleteFrame headH headL len chunk

theorem onlyComplete_of_received (hlen : readBe16 (readLine chunk) 2 = some len)
    (hreceived : len.toNat + 2 ≤ chunk.length) (hH : headH ≠ 0) (hL : headL ≠ 0) :
    OnlyComplete headH headL (checkFrame headH headL) len chunk := by
  have hbody : (readLine chunk).take len.toNat = chunk.take len.toNat :=
    List.take_append_of_le_length (by omega)
  have hread : readBe16 (readLine chunk) len.toNat = readBe16 chunk len.toNat := by
    obtain ⟨crc, hcrc⟩ := exists_readBe16 hreceived
    rw [hcrc, readLine, readBe16_append_right hcrc]
  rw [OnlyComplete, checkFrame_eq_zero_iff_of_len hlen, magic_readLine hH hL, hread, hbody]
  constructor
  · intro h
    exact ⟨h.1, hreceived, h.2⟩
  · intro h
    exact ⟨h.magic, h.crc⟩

/-- A frame that is cut off is accepted exactly when what has come of it leaves no remainder. -/
theorem checkFrame_cut_off (hline : chunk.length ≤ 255)
    (hlen : readBe16 (readLine chunk) 2 = some len) (hfits : len.toNat + 2 ≤ 255)
    (hcut : chunk.length < len.toNat + 2) (hH : headH ≠ 0) (hL : headL ≠ 0) :
    checkFrame headH headL (readLine chunk) = some 0 ↔
      Magic headH headL chunk ∧ uhfCrc16CcittTab chunk = 0 := by
  have hlong : len.toNat + 2 ≤ (readLine chunk).length := by rwa [readLine_length hline]
  rw [checkFrame_eq_zero_iff_crc hlen hlong, magic_readLine hH hL,
    take_readLine (Nat.le_of_lt hcut) hfits, crc_append_zeros_eq_zero_iff]

theorem onlyComplete_checkFrame_iff (hline : chunk.length ≤ 255)
    (hlen : readBe16 (readLine chunk) 2 = some len) (hfits : len.toNat + 2 ≤ 255) (hH : headH ≠ 0)
    (hL : headL ≠ 0) :
    OnlyComplete headH headL (checkFrame headH headL) len chunk ↔
      len.toNat + 2 ≤ chunk.length ∨ ¬ Magic headH headL chunk ∨ uhfCrc16CcittTab chunk ≠ 0 := by
  by_cases hreceived : len.toNat + 2 ≤ chunk.length
  · exact iff_of_true (onlyComplete_of_received hlen hreceived hH hL) (Or.inl hreceived)
  · have hincomplete : ¬ CompleteFrame headH headL len chunk := fun h => hreceived h.received
    rw [OnlyComplete, iff_false_right hincomplete,
      checkFrame_cut_off hline hlen hfits (Nat.not_le.mp hreceived) hH hL, or_iff_right hreceived,
      not_and_or]

/-- **Truncated frames.** For every read of at least one byte and a line that announces a length within
it: the check accepts exactly the complete frames if and only if the frame has come whole, or the bytes
that have come do not start with the magic, or they leave a remainder. -/
theorem onlyComplete_iff (hread : 1 ≤ chunk.length ∧ chunk.length ≤ 255)
    (hlen : readBe16 (readLine chunk) 2 = some len) (hfits : len.toNat + 2 ≤ 255) :
    (OnlyComplete 0x48 0x54 htCheckData len chunk ↔
      len.toNat + 2 ≤ chunk.length ∨ ¬ Magic 0x48 0x54 chunk ∨ uhfCrc16CcittTab chunk ≠ 0)
    ∧ (OnlyComplete 0x22 0x53 slCheckData len chunk ↔
      len.toNat + 2 ≤ chunk.length ∨ ¬ Magic 0x22 0x53 chunk ∨ uhfCrc16CcittTab chunk ≠ 0) :=
  ⟨onlyComplete_checkFrame_iff hread.2 hlen hfits (by decide) (by decide),
    onlyComplete_checkFrame_iff hread.2 hlen hfits (by decide) (by decide)⟩

theorem onlyComplete_iff_getIp :
    OnlyComplete 0x48 0x54 htCheckData 12 (htFrame 1 0x0109 (ascii "eth0")) := by
  have hread : 1 ≤ (htFrame 1 0x0109 (ascii "eth0")).length
      ∧ (htFrame 1 0x0109 (ascii "eth0")).length ≤ 255 := by decide
  exact (onlyComplete_iff hread rfl (by decide)).1.mpr (Or.inl (by decide))

/-- Six bytes of a frame that announces twenty, and the six leave no remainder. -/
theorem cut_frame_accepted :
    ¬ ∀ (chunk : Bytes) (len : UInt16), 1 ≤ chunk.length ∧ chunk.length ≤ 255 →
      readBe16 (readLine chunk) 2 = some len → len.toNat + 2 ≤ 255 →
      OnlyComplete 0x48 0x54 htCheckData len chunk := by
  intro h
  have honly := h (withCrc [0x48, 0x54, 0, 20]) 20 (by decide) rfl (by decide)
  have haccepted : htCheckData (readLine (withCrc [0x48, 0x54, 0, 20])) = some 0 := by
    decide +kernel
  exact absurd (honly.mp haccepted).received (by decide)

end InstructionParser

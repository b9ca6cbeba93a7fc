import InstructionParser.Proof.Codec

/-!
# The payload of an accepted frame

The check compares a CRC at the announced length and asks nothing else of it, so a frame may announce
less than its own header. The subtraction of the parsers then wraps.
-/

namespace InstructionParser

open CLib

variable {headerLen : UInt16} {fd : Int} {cmd c : StCmdFrame} {buf : Bytes} {len : UInt16}

/-- The length of the payload is the announced length without the header, as integers; it is at most
that of `data`; the payload is what stands behind the header in the line, and what lies behind `data`
in the frame is untouched. -/
structure SoundPayload (headerLen : UInt16) (cmd : StCmdFrame) (buf : Bytes) (c : StCmdFrame) :
    Prop where
  cmdLen_eq : (c.cmdLen.toNat : Int) = c.len.toNat - headerLen.toNat
  fits_data : c.cmdLen.toNat ≤ dataSize
  within_line : headerLen.toNat + c.cmdLen.toNat ≤ buf.length
  payload_eq : c.payload = (buf.drop headerLen.toNat).take c.cmdLen.toNat
  behind_eq : c.cmdData = cmd.cmdData

/-- The parser pushes a frame, and its payload is sound. -/
def ParsesSoundly (headerLen : UInt16) (parse : Int → StCmdFrame → Bytes → Option StCmdFrame)
    (fd : Int) (cmd : StCmdFrame) (buf : Bytes) : Prop :=
  ∃ c, parse fd cmd buf = some c ∧ SoundPayload headerLen cmd buf c

theorem drop_named {name : Option Bytes} (h : ∀ s ∈ name, s.length < cmdNameSize)
    (arrays : Block arraysSize) {k : Nat} (hk : cmdNameSize ≤ k) :
    (named name arrays.bytes).drop k = arrays.bytes.drop k := by
  cases name with
  | none => rfl
  | some name =>
      have hshort := h name rfl
      apply drop_patch_behind
      · rw [List.length_append, List.length_singleton]
        omega
      · exact Nat.zero_le _

theorem Parsed.soundPayload {deviceId : UInt32} {cmdList : List (UInt16 × Bytes)}
    (h : Parsed cmdList headerLen deviceId fd cmd buf c) (htable : ProperTable cmdList)
    (hheader : headerLen.toNat ≤ c.len.toNat) (hline : c.len.toNat ≤ buf.length)
    (hlong : buf.length ≤ dataSize) : SoundPayload headerLen cmd buf c := by
  have hcmdLen : c.cmdLen.toNat = c.len.toNat - headerLen.toNat := by
    rw [h.cmdLen_eq, UInt16.toNat_sub_of_le _ _ (UInt16.le_iff_toNat_le.mpr hheader)]
  obtain ⟨src, hsrc, _, hbytes⟩ := h.payload_read
  obtain ⟨hwithin, hsrcEq⟩ := readBytes_eq_some_iff.mp hsrc
  have hsrcLen : src.length = c.cmdLen.toNat := by
    rw [hsrcEq, List.length_take, List.length_drop]
    omega
  refine ⟨by omega, by omega, hwithin, (readBytes_eq_some_iff.mp (h.payload_eq htable)).2, ?_⟩
  rw [StCmdFrame.cmdData, hbytes, drop_patch_behind, drop_named (htable.short _) cmd.arrays]
  · rfl
  · decide
  · rw [hsrcLen, cmdDataOff]
    omega
  · rw [named_length (htable.short _)]
    decide

section Line

variable (hline : buf.length = 255) (hlen : readBe16 buf 2 = some len)
  (hfits : len.toNat + 2 ≤ 255)

include hline hlen hfits

theorem Parsed.soundPayload_iff {deviceId : UInt32} {cmdList : List (UInt16 × Bytes)}
    (h : Parsed cmdList headerLen deviceId fd cmd buf c) (htable : ProperTable cmdList) :
    SoundPayload headerLen cmd buf c ↔ headerLen.toNat ≤ len.toNat := by
  have hlenEq := Option.some.inj (h.len_read.symm.trans hlen)
  constructor
  · intro hsound
    have hcmdLen := hsound.cmdLen_eq
    rw [hlenEq] at hcmdLen
    omega
  · intro hheader
    refine h.soundPayload htable ?_ ?_ ?_
    · rw [hlenEq]
      exact hheader
    · rw [hlenEq]
      omega
    · rw [hline]
      decide

theorem htParsesSoundly_iff (hcheck : htCheckData buf = some 0) (fd : Int) (cmd : StCmdFrame) :
    ParsesSoundly 8 htParse fd cmd buf ↔ 8 ≤ len.toNat := by
  constructor
  · rintro ⟨c, hparse, hsound⟩
    have hparsed := htParse_eq_some_iff.mp hparse
    exact (hparsed.soundPayload_iff hline hlen hfits properTable_ht).mp hsound
  · intro hheader
    have hpayload : PayloadFits 8 len := ⟨hheader, line_fits (by omega)⟩
    have hlong : 6 + 2 ≤ buf.length := by omega
    obtain ⟨cmdId, hcmd⟩ := exists_readBe16 hlong
    obtain ⟨c, hparsed⟩ := exists_parsed_of_fits properTable_ht hcheck hlen hcmd hpayload
      cmd.deviceId fd cmd
    refine ⟨c, htParse_eq_some_iff.mpr hparsed, ?_⟩
    exact (hparsed.soundPayload_iff hline hlen hfits properTable_ht).mpr hheader

theorem slParsesSoundly_iff (hcheck : slCheckData buf = some 0) (fd : Int) (cmd : StCmdFrame) :
    ParsesSoundly 13 slParse fd cmd buf ↔ 13 ≤ len.toNat := by
  constructor
  · rintro ⟨c, hparse, hsound⟩
    obtain ⟨_, _, _, _, _, _, _, _, hparsed⟩ := slParse_eq_some_iff.mp hparse
    exact (hparsed.soundPayload_iff hline hlen hfits properTable_sl).mp hsound
  · intro hheader
    have hpayload : PayloadFits 13 len := ⟨hheader, line_fits (by omega)⟩
    have hlong : 6 + 2 ≤ buf.length := by omega
    obtain ⟨cmdId, hcmd⟩ := exists_readBe16 hlong
    obtain ⟨b9, b10, b11, b12, h9, h10, h11, h12⟩ := exists_deviceId hcheck hlen hpayload
    obtain ⟨c, hparsed⟩ := exists_parsed_of_fits properTable_sl hcheck hlen hcmd hpayload
      (be32 b9 b10 b11 b12) fd cmd
    refine ⟨c, slParse_eq_some_iff.mpr ⟨b9, b10, b11, b12, h9, h10, h11, h12, hparsed⟩, ?_⟩
    exact (hparsed.soundPayload_iff hline hlen hfits properTable_sl).mpr hheader

end Line

/-- **Payload bounds.** On a line that holds the frame it announces and that the check accepts, the
parser computes the length of the payload and copies it soundly if and only if the announced length
covers the header. -/
theorem parsesSoundly_iff (hline : buf.length = 255) (hlen : readBe16 buf 2 = some len)
    (hfits : len.toNat + 2 ≤ 255) (fd : Int) (cmd : StCmdFrame) :
    (htCheckData buf = some 0 → (ParsesSoundly 8 htParse fd cmd buf ↔ 8 ≤ len.toNat))
    ∧ (slCheckData buf = some 0 → (ParsesSoundly 13 slParse fd cmd buf ↔ 13 ≤ len.toNat)) :=
  ⟨fun hcheck => htParsesSoundly_iff hline hlen hfits hcheck fd cmd,
    fun hcheck => slParsesSoundly_iff hline hlen hfits hcheck fd cmd⟩

theorem parsesSoundly_iff_getIp :
    ParsesSoundly 8 htParse 5 StCmdFrame.zeroed (readLine (htFrame 1 0x0109 (ascii "eth0"))) := by
  have hcheck : htCheckData (readLine (htFrame 1 0x0109 (ascii "eth0"))) = some 0 :=
    htFrame_checked 1 0x0109 (by decide) _
  exact ((parsesSoundly_iff (by decide +kernel) (show readBe16 _ 2 = some 12 from rfl) (by decide) 5
    StCmdFrame.zeroed).1 hcheck).mpr (by decide)

/-- A frame that announces four bytes: the magic and the length, with the right CRC. -/
theorem short_frame_wraps :
    ¬ ∀ (buf : Bytes) (len : UInt16) (fd : Int) (cmd : StCmdFrame), buf.length = 255 →
      readBe16 buf 2 = some len → len.toNat + 2 ≤ 255 → htCheckData buf = some 0 →
      ParsesSoundly 8 htParse fd cmd buf := by
  intro h
  have hcheck : htCheckData (readLine (withCrc [0x48, 0x54, 0, 4])) = some 0 :=
    checkFrame_withCrc rfl rfl rfl (by decide) _
  have hline : (readLine (withCrc [0x48, 0x54, 0, 4])).length = 255 := by decide +kernel
  have hsound := h _ 4 0 StCmdFrame.zeroed hline rfl (by decide) hcheck
  exact absurd ((htParsesSoundly_iff hline rfl (by decide) hcheck 0 _).mp hsound) (by decide)

end InstructionParser

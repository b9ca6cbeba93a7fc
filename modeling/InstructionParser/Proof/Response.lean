import InstructionParser.Proof.Codec

/-!
# Response frames

`do_response` answers every binary command in a layout of its own: the magic of SL and a device id of
two bytes where the SL parser reads four. HT refuses such a frame, and SL takes the first two bytes of
the reply for the rest of the device id, so neither protocol reads back what was answered.
-/

namespace InstructionParser

open CLib

/-- The part of a response that the CRC is computed over. -/
def responseBody (cmd : StCmdFrame) (reply : Bytes) : Bytes :=
  [0x22, 0x53] ++ be16Bytes (11 + reply.length) ++ be16Bytes cmd.frameId.toNat
    ++ be16Bytes cmd.cmdId.toNat ++ [0xff] ++ be16Bytes cmd.deviceId.toNat ++ reply

theorem doResponse_eq_some_iff {cmd : StCmdFrame} {reply response : Bytes} {len : Nat} :
    doResponse cmd reply len = some response ↔
      len ≤ reply.length ∧ response = withCrc (responseBody cmd (reply.take len)) := by
  simp only [doResponse, Option.bind_eq_bind, Option.bind_eq_some_iff, readBytes_eq_some_iff,
    Nat.zero_add, List.drop_zero]
  constructor
  · rintro ⟨content, ⟨hle, rfl⟩, hpure⟩
    obtain rfl := Option.some.inj hpure
    refine ⟨hle, ?_⟩
    simp [withCrc, responseBody, be16Bytes, Nat.min_eq_left hle,
      show 13 + len - 2 = 11 + len by omega]
  · rintro ⟨hle, rfl⟩
    refine ⟨reply.take len, ⟨hle, rfl⟩, ?_⟩
    simp [withCrc, responseBody, be16Bytes, Nat.min_eq_left hle,
      show 13 + len - 2 = 11 + len by omega]

theorem responseBody_eq_slBody (cmd : StCmdFrame) (a b : UInt8) (rest : Bytes) :
    responseBody cmd (a :: b :: rest) =
      slBody cmd.frameId cmd.cmdId 0xff (be32 (hi8 cmd.deviceId.toNat) (lo8 cmd.deviceId.toNat) a b)
        rest := by
  simp [responseBody, slBody, be32Bytes_be32, be16Bytes, show 11 + (rest.length + 1 + 1)
    = 13 + rest.length by omega]

/-- SL takes a response of two bytes or more for a frame whose device id ends with the first two bytes
of the reply, and whose payload is the rest. -/
theorem response_taken (cmd : StCmdFrame) (a b : UInt8) {rest : Bytes}
    (hfits : dataOff + rest.length ≤ arraysSize) (fd : Int) (tail : Bytes) :
    TakenBy slProtocol (withCrc (responseBody cmd (a :: b :: rest)) ++ tail) fd fun c =>
      Recovered slCmdList fd cmd.frameId cmd.cmdId (13 + rest.length) rest c
        ∧ c.deviceId = be32 (hi8 cmd.deviceId.toNat) (lo8 cmd.deviceId.toNat) a b := by
  rw [responseBody_eq_slBody]
  exact slFrame_taken cmd.frameId cmd.cmdId 0xff _ hfits fd tail

/-- The check of `protocol` accepts the response to `cmd`, `tail` being behind it in memory, and its
parser recovers the numbers of the command, for SL its device id, and the reply. -/
def CodecsAgree (protocol : ProtocolSet) (cmd : StCmdFrame) (reply tail : Bytes) : Prop :=
  ∃ response, doResponse cmd reply reply.length = some response
    ∧ (∀ tmpStr, protocol.checkData tmpStr (response ++ tail) = some 0)
    ∧ ∀ fd residue, ∃ c, protocol.parse fd residue (response ++ tail) = some c
      ∧ c.frameId = cmd.frameId ∧ c.cmdId = cmd.cmdId
      ∧ (protocol.name = slProtocol.name → c.deviceId = cmd.deviceId) ∧ c.payload = reply

/-- HT refuses the magic. -/
theorem not_codecsAgree_ht (cmd : StCmdFrame) (reply tail : Bytes) :
    ¬ CodecsAgree htProtocol cmd reply tail := by
  rintro ⟨response, hresponse, hcheck, _⟩
  obtain ⟨_, rfl⟩ := doResponse_eq_some_iff.mp hresponse
  have hhead : (withCrc (responseBody cmd (reply.take reply.length)) ++ tail)[0]? = some 0x22 := rfl
  have hrefused : htCheckData (withCrc (responseBody cmd (reply.take reply.length)) ++ tail)
      = some (-1) := checkFrame_head hhead (by decide)
  have haccepted := hrefused.symm.trans (hcheck (Block.zeroed 128))
  simp at haccepted

/-- SL computes a payload that is two bytes shorter than the reply. -/
theorem not_codecsAgree_sl (cmd : StCmdFrame) (reply tail : Bytes) :
    ¬ CodecsAgree slProtocol cmd reply tail := by
  rintro ⟨response, hresponse, _, hparse⟩
  obtain ⟨_, rfl⟩ := doResponse_eq_some_iff.mp hresponse
  obtain ⟨c, hc, _, _, _, hpayload⟩ := hparse 0 cmd
  obtain ⟨_, _, _, _, _, _, _, _, hparsed⟩ := slParse_eq_some_iff.mp hc
  have hread : readBe16 (withCrc (responseBody cmd (reply.take reply.length)) ++ tail) 2
      = some (UInt16.ofNat (11 + reply.length)) := by
    simp [withCrc, responseBody, readBe16, be16Bytes, be16_hi8_lo8]
  have hlen := Option.some.inj (hparsed.len_read.symm.trans hread)
  have hshort := hparsed.payload_length properTable_sl
  rw [hpayload, hparsed.cmdLen_eq, hlen, UInt16.toNat_sub, UInt16.toNat_ofNat',
    show (13 : UInt16).toNat = 13 from rfl] at hshort
  omega

/-- **No response is read back.** Whatever the command and the reply, neither codec agrees with the
response that is sent. -/
theorem codecs_never_agree (cmd : StCmdFrame) (reply tail : Bytes) :
    ¬ CodecsAgree htProtocol cmd reply tail ∧ ¬ CodecsAgree slProtocol cmd reply tail :=
  ⟨not_codecsAgree_ht cmd reply tail, not_codecsAgree_sl cmd reply tail⟩

/-- The SL request `get_ip` with the name `eth0`, answered with ten bytes. -/
theorem codecs_disagree :
    ¬ ∀ protocol ∈ [htProtocol, slProtocol], ∀ tmpStr buf fd residue cmd,
      protocol.checkData tmpStr buf = some 0 → protocol.parse fd residue buf = some cmd →
      ∀ reply : Bytes, 1 ≤ reply.length → reply.length ≤ 512 →
      ∃ tail, CodecsAgree protocol cmd reply tail := by
  intro h
  let buf := readLine (slFrame 1 0x0109 0 0x01020304 (ascii "eth0"))
  have hchecked : slCheckData buf = some 0 := slFrame_checked 1 0x0109 0 0x01020304 (by decide) _
  obtain ⟨_, cmd, hparse, _⟩ := slFrame_taken 1 0x0109 0 0x01020304
    (show dataOff + (ascii "eth0").length ≤ arraysSize by decide) 5 _ (Block.zeroed 128)
    StCmdFrame.zeroed
  obtain ⟨tail, hagree⟩ := h slProtocol (by simp) (Block.zeroed 128) buf 5 StCmdFrame.zeroed cmd
    hchecked hparse (List.replicate 10 0) (by simp) (by simp)
  exact not_codecsAgree_sl _ _ _ hagree

end InstructionParser

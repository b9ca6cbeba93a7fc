import InstructionParser.PrefixCode
import InstructionParser.Proof.Response

/-!
# Taking responses apart

A client that knows the layout of `do_response` recovers the numbers and the reply from the bytes of a
response, and since every response carries its length, a stream of responses has one reading.
-/

namespace InstructionParser

open CLib PrefixCode InformationTheory

variable {cmd : StCmdFrame} {reply response : Bytes} {len : Nat}

/-- What a client reads in a response: the frame number, the command id, the two bytes of the device
id, and the reply up to the CRC. -/
structure ReadResponse where
  frameId : UInt16
  cmdId : UInt16
  deviceId : UInt16
  reply : Bytes
deriving DecidableEq

def readResponse (response : Bytes) : Option ReadResponse := do
  let len ← readBe16 response 2
  let frameId ← readBe16 response 4
  let cmdId ← readBe16 response 6
  let deviceId ← readBe16 response 9
  let reply ← readBytes response 11 (len.toNat - 11)
  pure { frameId, cmdId, deviceId, reply }

/-- The length that a response announces, with the two bytes of its CRC. -/
def announcedLength (response : Bytes) : Option Nat :=
  (readBe16 response 2).map fun len => len.toNat + 2

/-- The responses that `do_response` builds from the buffer of 512 bytes. -/
def responses : Set Bytes :=
  { response | ∃ cmd reply len, len ≤ 512 ∧ doResponse cmd reply len = some response }

theorem responseBody_length (cmd : StCmdFrame) (reply : Bytes) :
    (responseBody cmd reply).length = 11 + reply.length := by
  simp [responseBody]
  omega

theorem announcedLength_response (h : doResponse cmd reply len = some response) (hlen : len ≤ 512)
    (rest : Bytes) : announcedLength (response ++ rest) = some response.length := by
  obtain ⟨hle, rfl⟩ := doResponse_eq_some_iff.mp h
  have hread : readBe16 (withCrc (responseBody cmd (reply.take len)) ++ rest) 2
      = some (UInt16.ofNat (11 + len)) := by
    simp [withCrc, responseBody, readBe16, be16Bytes, be16_hi8_lo8, Nat.min_eq_left hle]
  rw [announcedLength, hread, Option.map_some, withCrc_length, responseBody_length,
    List.length_take_of_le hle, UInt16.toNat_ofNat', Nat.mod_eq_of_lt (by omega)]

theorem slCheckData_response (h : doResponse cmd reply len = some response) (hlen : len ≤ 512) :
    slCheckData response = some 0 := by
  obtain ⟨hle, rfl⟩ := doResponse_eq_some_iff.mp h
  set body := responseBody cmd (reply.take len) with hbody
  have hlength : readBe16 body 2 = some (UInt16.ofNat body.length) := by
    rw [hbody, responseBody_length]
    simp [responseBody, readBe16, be16Bytes, be16_hi8_lo8]
  have hbound : body.length < 2 ^ 16 := by
    rw [hbody, responseBody_length, List.length_take_of_le hle]
    omega
  have haccepted : checkFrame 0x22 0x53 (withCrc body ++ []) = some 0 :=
    checkFrame_withCrc rfl rfl hlength hbound []
  rwa [List.append_nil] at haccepted

theorem readResponse_response (h : doResponse cmd reply len = some response) (hlen : len ≤ 512) :
    readResponse response
      = some ⟨cmd.frameId, cmd.cmdId, cmd.deviceId.toUInt16, reply.take len⟩ := by
  obtain ⟨hle, rfl⟩ := doResponse_eq_some_iff.mp h
  have hcontent : (reply.take len).length = len := List.length_take_of_le hle
  set body := responseBody cmd (reply.take len) with hbody
  have hread : readBe16 (withCrc body) 2 = some (UInt16.ofNat (11 + len)) := by
    simp [hbody, withCrc, responseBody, readBe16, be16Bytes, be16_hi8_lo8, Nat.min_eq_left hle]
  have hframe : readBe16 (withCrc body) 4 = some cmd.frameId := by
    simp [hbody, withCrc, responseBody, readBe16, be16Bytes]
  have hcmd : readBe16 (withCrc body) 6 = some cmd.cmdId := by
    simp [hbody, withCrc, responseBody, readBe16, be16Bytes]
  have hdevice : readBe16 (withCrc body) 9 = some cmd.deviceId.toUInt16 := by
    simp [hbody, withCrc, responseBody, readBe16, be16Bytes, be16_hi8_lo8]
  have hreply : readBytes (withCrc body) 11 len = some (reply.take len) := by
    rw [hbody, withCrc, responseBody]
    exact readBytes_append (by simp) hcontent.symm
  have hnat : (UInt16.ofNat (11 + len)).toNat - 11 = len := by
    rw [UInt16.toNat_ofNat', Nat.mod_eq_of_lt (by omega), Nat.add_sub_cancel_left]
  simp only [readResponse, hread, hframe, hcmd, hdevice, hnat, hreply, Option.bind_eq_bind,
    Option.bind_some, Option.pure_def]

theorem responses_prefixFree : PrefixFree responses := by
  refine prefixFree_of_announced announcedLength ?_
  rintro response ⟨cmd, reply, len, hlen, h⟩ rest
  exact announcedLength_response h hlen rest

theorem nil_notMem_responses : [] ∉ responses := by
  rintro ⟨cmd, reply, len, _, h⟩
  obtain ⟨_, hnil⟩ := doResponse_eq_some_iff.mp h
  have hlength := congrArg List.length hnil
  rw [withCrc_length] at hlength
  cases hlength

/-- **Responses.** From every reply of up to 512 bytes `do_response` builds a frame that announces its
own length, that `sl_check_data` accepts, and from which the numbers and the reply are read again; no
response is a proper prefix of another, and a stream of them has one reading. -/
theorem responses_decodable :
    (∀ (cmd : StCmdFrame) (reply : Bytes) (len : Nat), len ≤ 512 → len ≤ reply.length →
      ∃ response, doResponse cmd reply len = some response
        ∧ announcedLength response = some response.length
        ∧ slCheckData response = some 0
        ∧ readResponse response
          = some ⟨cmd.frameId, cmd.cmdId, cmd.deviceId.toUInt16, reply.take len⟩)
    ∧ PrefixFree responses ∧ UniquelyDecodable responses := by
  refine ⟨fun cmd reply len hlen hle => ?_, responses_prefixFree,
    responses_prefixFree.uniquelyDecodable nil_notMem_responses⟩
  have hresponse : doResponse cmd reply len = some (withCrc (responseBody cmd (reply.take len))) :=
    doResponse_eq_some_iff.mpr ⟨hle, rfl⟩
  have hlength := announcedLength_response hresponse hlen []
  rw [List.append_nil] at hlength
  exact ⟨_, hresponse, hlength, slCheckData_response hresponse hlen,
    readResponse_response hresponse hlen⟩

end InstructionParser

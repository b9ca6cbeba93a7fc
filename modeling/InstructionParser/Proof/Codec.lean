import InstructionParser.Handle
import InstructionParser.Proof.Parse

/-!
# Request frames

What a client sends: the two frame layouts written from the client's side, and the front end takes
each of them apart into what it was built from, whatever stands behind the frame in the line.
-/

namespace InstructionParser

open CLib

/-- The part of an HT frame that the CRC is computed over. -/
def htBody (frameId cmdId : UInt16) (p : Bytes) : Bytes :=
  [0x48, 0x54] ++ be16Bytes (8 + p.length) ++ be16Bytes frameId.toNat ++ be16Bytes cmdId.toNat ++ p

/-- The part of an SL frame that the CRC is computed over. -/
def slBody (frameId cmdId : UInt16) (dir : UInt8) (deviceId : UInt32) (p : Bytes) : Bytes :=
  [0x22, 0x53] ++ be16Bytes (13 + p.length) ++ be16Bytes frameId.toNat ++ be16Bytes cmdId.toNat
    ++ [dir] ++ be32Bytes deviceId.toNat ++ p

def withCrc (body : Bytes) : Bytes := body ++ be16Bytes (uhfCrc16CcittTab body).toNat

def htFrame (frameId cmdId : UInt16) (p : Bytes) : Bytes := withCrc (htBody frameId cmdId p)

def slFrame (frameId cmdId : UInt16) (dir : UInt8) (deviceId : UInt32) (p : Bytes) : Bytes :=
  withCrc (slBody frameId cmdId dir deviceId p)

theorem htBody_length (frameId cmdId : UInt16) (p : Bytes) :
    (htBody frameId cmdId p).length = 8 + p.length := by
  simp [htBody]
  omega

theorem slBody_length (frameId cmdId : UInt16) (dir : UInt8) (deviceId : UInt32) (p : Bytes) :
    (slBody frameId cmdId dir deviceId p).length = 13 + p.length := by
  simp [slBody]
  omega

theorem withCrc_length (body : Bytes) : (withCrc body).length = body.length + 2 := by
  simp [withCrc]

/-! ### The check -/

variable {headH headL : UInt8} {buf : Bytes}

theorem checkFrame_withCrc {body : Bytes} (hhead : body[0]? = some headH)
    (hheadL : body[1]? = some headL) (hlen : readBe16 body 2 = some (UInt16.ofNat body.length))
    (hbound : body.length < 2 ^ 16) (tail : Bytes) :
    checkFrame headH headL (withCrc body ++ tail) = some 0 := by
  have hlong := readBe16_length hlen
  have hnat : (UInt16.ofNat body.length).toNat = body.length := by
    rw [UInt16.toNat_ofNat', Nat.mod_eq_of_lt hbound]
  have hsplit : withCrc body ++ tail = body ++ (be16Bytes (uhfCrc16CcittTab body).toNat ++ tail) := by
    rw [withCrc, List.append_assoc]
  rw [checkFrame_eq_zero_iff]
  refine ⟨?_, ?_, UInt16.ofNat body.length, ?_, ?_⟩
  · rwa [hsplit, List.getElem?_append_left (by omega)]
  · rwa [hsplit, List.getElem?_append_left (by omega)]
  · rw [hsplit]
    exact readBe16_append_right hlen _
  · rw [hnat, hsplit, List.take_left, ← List.append_assoc, readBe16_append rfl, UInt16.ofNat_toNat]

/-! ### The front end -/

/-- The pushed command is the one that the frame was built from. -/
structure Recovered (cmdList : List (UInt16 × Bytes)) (fd : Int) (frameId cmdId : UInt16) (len : Nat)
    (p : Bytes) (c : StCmdFrame) : Prop where
  fd_eq : c.fd = fd
  frameId_eq : c.frameId = frameId
  cmdId_eq : c.cmdId = cmdId
  len_eq : c.len.toNat = len
  cmdLen_eq : c.cmdLen.toNat = p.length
  payload_eq : c.payload = p
  name_eq : ∀ name, getCmdName cmdList cmdId = some name → cstr c.cmdName = some name

/-- `do_protocol_handle` selects `protocol`, and its parser pushes a command with property `spec`. -/
def TakenBy (protocol : ProtocolSet) (buf : Bytes) (fd : Int) (spec : StCmdFrame → Prop) : Prop :=
  ∀ tmpStr cmd, doProtocolHandle tmpStr protocolSupported buf = some (some protocol)
    ∧ ∃ c, protocol.parse fd cmd buf = some c ∧ spec c

theorem htFrame_checked (frameId cmdId : UInt16) {p : Bytes} (hbound : 8 + p.length < 2 ^ 16)
    (tail : Bytes) : htCheckData (htFrame frameId cmdId p ++ tail) = some 0 := by
  refine checkFrame_withCrc rfl rfl ?_ ?_ tail
  · rw [htBody_length]
    simp [htBody, readBe16, be16Bytes, be16_hi8_lo8]
  · rwa [htBody_length]

theorem slFrame_checked (frameId cmdId : UInt16) (dir : UInt8) (deviceId : UInt32) {p : Bytes}
    (hbound : 13 + p.length < 2 ^ 16) (tail : Bytes) :
    slCheckData (slFrame frameId cmdId dir deviceId p ++ tail) = some 0 := by
  refine checkFrame_withCrc rfl rfl ?_ ?_ tail
  · rw [slBody_length]
    simp [slBody, readBe16, be16Bytes, be16_hi8_lo8]
  · rwa [slBody_length]

theorem cmdLen_toNat {headerLen : UInt16} {n : Nat} (hbound : headerLen.toNat + n < 2 ^ 16) :
    (UInt16.ofNat (headerLen.toNat + n) - headerLen).toNat = n := by
  have hnat : (UInt16.ofNat (headerLen.toNat + n)).toNat = headerLen.toNat + n := by
    rw [UInt16.toNat_ofNat', Nat.mod_eq_of_lt hbound]
  rw [UInt16.toNat_sub_of_le _ _ (UInt16.le_iff_toNat_le.mpr (by omega)), hnat]
  omega

/-! ### The fields of a frame -/

section Fields

variable {cmdList : List (UInt16 × Bytes)} {headerLen frameId cmdId : UInt16} {deviceId : UInt32}
  {fd : Int} {cmd c : StCmdFrame} {p : Bytes}

theorem Parsed.recovered (h : Parsed cmdList headerLen deviceId fd cmd buf c)
    (htable : ProperTable cmdList) (hbound : headerLen.toNat + p.length < 2 ^ 16)
    (hlen : readBe16 buf 2 = some (UInt16.ofNat (headerLen.toNat + p.length)))
    (hframe : readBe16 buf 4 = some frameId) (hcmd : readBe16 buf 6 = some cmdId)
    (hpayload : readBytes buf headerLen.toNat p.length = some p) :
    Recovered cmdList fd frameId cmdId (headerLen.toNat + p.length) p c := by
  have hlenEq : c.len = UInt16.ofNat (headerLen.toNat + p.length) :=
    Option.some.inj (h.len_read.symm.trans hlen)
  have hcmdEq : c.cmdId = cmdId := Option.some.inj (h.cmdId_read.symm.trans hcmd)
  have hcmdLen : c.cmdLen.toNat = p.length := by rw [h.cmdLen_eq, hlenEq, cmdLen_toNat hbound]
  refine ⟨h.fd_eq, Option.some.inj (h.frameId_read.symm.trans hframe), hcmdEq, ?_, hcmdLen, ?_, ?_⟩
  · rw [hlenEq, UInt16.toNat_ofNat', Nat.mod_eq_of_lt hbound]
  · have hread := h.payload_eq htable
    rw [hcmdLen, hpayload] at hread
    exact (Option.some.inj hread).symm
  · intro name hname
    exact h.cmdName_eq htable (hcmdEq ▸ hname)

theorem exists_recovered (htable : ProperTable cmdList) (hbound : headerLen.toNat + p.length < 2 ^ 16)
    (hfits : dataOff + p.length ≤ arraysSize)
    (hlen : readBe16 buf 2 = some (UInt16.ofNat (headerLen.toNat + p.length)))
    (hframe : readBe16 buf 4 = some frameId) (hcmd : readBe16 buf 6 = some cmdId)
    (hpayload : readBytes buf headerLen.toNat p.length = some p) :
    ∃ c, Parsed cmdList headerLen deviceId fd cmd buf c
      ∧ Recovered cmdList fd frameId cmdId (headerLen.toNat + p.length) p c := by
  have hsrc := hpayload
  rw [← cmdLen_toNat hbound] at hsrc
  obtain ⟨c, hparsed⟩ := exists_parsed htable hlen hframe hcmd hsrc hfits deviceId fd cmd
  exact ⟨c, hparsed, hparsed.recovered htable hbound hlen hframe hcmd hpayload⟩

end Fields

theorem htFrame_taken (frameId cmdId : UInt16) {p : Bytes} (hfits : dataOff + p.length ≤ arraysSize)
    (fd : Int) (tail : Bytes) :
    TakenBy htProtocol (htFrame frameId cmdId p ++ tail) fd
      (Recovered htCmdList fd frameId cmdId (8 + p.length) p) := by
  intro tmpStr cmd
  have hsmall := payload_fits hfits
  constructor
  · simp [protocolSupported, registerProtocol, doProtocolHandle, htProtocol,
      htFrame_checked frameId cmdId (show 8 + p.length < 2 ^ 16 by omega) tail]
  · have hread : readBytes (htFrame frameId cmdId p ++ tail) 8 p.length = some p := by
      have hsplit : htFrame frameId cmdId p ++ tail
          = [0x48, 0x54] ++ be16Bytes (8 + p.length) ++ be16Bytes frameId.toNat
            ++ be16Bytes cmdId.toNat ++ p
            ++ (be16Bytes (uhfCrc16CcittTab (htBody frameId cmdId p)).toNat ++ tail) := by
        rw [htFrame, withCrc, htBody, List.append_assoc]
      rw [hsplit]
      exact readBytes_append (by simp) rfl
    have hbound : (8 : UInt16).toNat + p.length < 2 ^ 16 := show 8 + p.length < 2 ^ 16 by omega
    have hparse : ∃ c, Parsed htCmdList 8 cmd.deviceId fd cmd (htFrame frameId cmdId p ++ tail) c
        ∧ Recovered htCmdList fd frameId cmdId (8 + p.length) p c :=
      exists_recovered properTable_ht hbound hfits
        (by simp [htFrame, withCrc, htBody, readBe16, be16Bytes, be16_hi8_lo8])
        (by simp [htFrame, withCrc, htBody, readBe16, be16Bytes])
        (by simp [htFrame, withCrc, htBody, readBe16, be16Bytes]) hread
    obtain ⟨c, hparsed, hrecovered⟩ := hparse
    exact ⟨c, htParse_eq_some_iff.mpr hparsed, hrecovered⟩

theorem slFrame_taken (frameId cmdId : UInt16) (dir : UInt8) (deviceId : UInt32) {p : Bytes}
    (hfits : dataOff + p.length ≤ arraysSize) (fd : Int) (tail : Bytes) :
    TakenBy slProtocol (slFrame frameId cmdId dir deviceId p ++ tail) fd fun c =>
      Recovered slCmdList fd frameId cmdId (13 + p.length) p c ∧ c.deviceId = deviceId := by
  intro tmpStr cmd
  have hsmall := payload_fits hfits
  constructor
  · have hhead : (slFrame frameId cmdId dir deviceId p ++ tail)[0]? = some 0x22 := rfl
    have hht : htCheckData (slFrame frameId cmdId dir deviceId p ++ tail) = some (-1) :=
      checkFrame_head hhead (by decide)
    have hsl := slFrame_checked frameId cmdId dir deviceId (show 13 + p.length < 2 ^ 16 by omega) tail
    simp [protocolSupported, registerProtocol, doProtocolHandle, htProtocol, slProtocol, hht, hsl]
  · have hread : readBytes (slFrame frameId cmdId dir deviceId p ++ tail) 13 p.length = some p := by
      have hsplit : slFrame frameId cmdId dir deviceId p ++ tail
          = [0x22, 0x53] ++ be16Bytes (13 + p.length) ++ be16Bytes frameId.toNat
            ++ be16Bytes cmdId.toNat ++ [dir] ++ be32Bytes deviceId.toNat ++ p
            ++ (be16Bytes (uhfCrc16CcittTab (slBody frameId cmdId dir deviceId p)).toNat ++ tail) := by
        rw [slFrame, withCrc, slBody, List.append_assoc]
      rw [hsplit]
      exact readBytes_append (by simp) rfl
    have hbound : (13 : UInt16).toNat + p.length < 2 ^ 16 := show 13 + p.length < 2 ^ 16 by omega
    have hparse : ∃ c, Parsed slCmdList 13 deviceId fd cmd
        (slFrame frameId cmdId dir deviceId p ++ tail) c
        ∧ Recovered slCmdList fd frameId cmdId (13 + p.length) p c :=
      exists_recovered properTable_sl hbound hfits
        (by simp [slFrame, withCrc, slBody, readBe16, be16Bytes, be16_hi8_lo8])
        (by simp [slFrame, withCrc, slBody, readBe16, be16Bytes])
        (by simp [slFrame, withCrc, slBody, readBe16, be16Bytes]) hread
    obtain ⟨c, hparsed, hrecovered⟩ := hparse
    refine ⟨c, slParse_eq_some_iff.mpr ⟨_, _, _, _, rfl, rfl, rfl, rfl, ?_⟩, hrecovered,
      hparsed.deviceId_eq⟩
    rwa [be32_be32Bytes]

theorem line_fits {n : Nat} (h : n ≤ 255) : dataOff + n ≤ arraysSize :=
  le_trans (Nat.add_le_add_left h _) (by decide)

/-- **Request round trip.** A frame of either protocol that fits the line is selected as a frame of
that protocol, and the command that is pushed has the fields it was built from. -/
theorem request_roundtrip (fd : Int) (frameId cmdId : UInt16) (dir : UInt8) (deviceId : UInt32)
    (p : Bytes) :
    ((htFrame frameId cmdId p).length ≤ 255 →
      TakenBy htProtocol (readLine (htFrame frameId cmdId p)) fd
        (Recovered htCmdList fd frameId cmdId (8 + p.length) p))
    ∧ ((slFrame frameId cmdId dir deviceId p).length ≤ 255 →
      TakenBy slProtocol (readLine (slFrame frameId cmdId dir deviceId p)) fd fun c =>
        Recovered slCmdList fd frameId cmdId (13 + p.length) p c ∧ c.deviceId = deviceId) := by
  constructor
  · intro hline
    rw [htFrame, withCrc_length, htBody_length] at hline
    exact htFrame_taken frameId cmdId (line_fits (by omega)) fd _
  · intro hline
    rw [slFrame, withCrc_length, slBody_length] at hline
    exact slFrame_taken frameId cmdId dir deviceId (line_fits (by omega)) fd _

theorem request_roundtrip_getIp :
    TakenBy htProtocol (readLine (htFrame 1 0x0109 (ascii "eth0"))) 5
        (Recovered htCmdList 5 1 0x0109 12 (ascii "eth0"))
    ∧ TakenBy slProtocol (readLine (slFrame 1 0x0109 0 0x01020304 (ascii "eth0"))) 5 fun c =>
        Recovered slCmdList 5 1 0x0109 17 (ascii "eth0") c ∧ c.deviceId = 0x01020304 :=
  ⟨(request_roundtrip 5 1 0x0109 0 0x01020304 (ascii "eth0")).1 (by decide),
    (request_roundtrip 5 1 0x0109 0 0x01020304 (ascii "eth0")).2 (by decide)⟩

end InstructionParser

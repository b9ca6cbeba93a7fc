import InstructionParser.Protocol.Registry

/-!
# What the binary protocols accept and push

`ht_parse` and `sl_parse` differ in their table, in the length of the header and in the device id, so
one relation says which frame either pushes: `Parsed` names every field of it, and the parse is the
graph of the relation. The check says nothing about the length but where the CRC stands, so a parser
returns on an accepted frame only when the announced length covers the header and fits the frame.
-/

namespace InstructionParser

open CLib

/-! ### The command tables -/

/-- A table whose names fit `cmd_name` and are strings. -/
def ProperTable (cmdList : List (UInt16 × Bytes)) : Prop :=
  ∀ entry ∈ cmdList, entry.2.length < cmdNameSize ∧ 0 ∉ entry.2

theorem properTable_ht : ProperTable htCmdList := by
  unfold ProperTable
  decide

theorem properTable_sl : ProperTable slCmdList := by
  unfold ProperTable
  decide

theorem ProperTable.name_proper {cmdList : List (UInt16 × Bytes)} (h : ProperTable cmdList)
    {cmdId : UInt16} {name : Bytes} (hname : getCmdName cmdList cmdId = some name) :
    name.length < cmdNameSize ∧ 0 ∉ name := by
  obtain ⟨entry, hfind, rfl⟩ := Option.map_eq_some_iff.mp hname
  exact h entry (List.mem_of_find?_eq_some hfind)

theorem ProperTable.short {cmdList : List (UInt16 × Bytes)} (h : ProperTable cmdList)
    (cmdId : UInt16) : ∀ s ∈ getCmdName cmdList cmdId, s.length < cmdNameSize :=
  fun _ hname => (h.name_proper hname).1

/-- The arrays after the `strcpy` of the name that the table has for a command, if it has one. -/
def named (name : Option Bytes) (arrays : Bytes) : Bytes :=
  match name with
  | some name => patch arrays 0 (name ++ [0])
  | none => arrays

variable {cmdList : List (UInt16 × Bytes)} {headerLen : UInt16} {deviceId : UInt32} {fd : Int}
  {cmd c : StCmdFrame} {buf : Bytes}

/-- The frame `c` that a parser with this table and header pushes, from the local frame `cmd`. -/
structure Parsed (cmdList : List (UInt16 × Bytes)) (headerLen : UInt16) (deviceId : UInt32)
    (fd : Int) (cmd : StCmdFrame) (buf : Bytes) (c : StCmdFrame) : Prop where
  fd_eq : c.fd = fd
  len_read : readBe16 buf 2 = some c.len
  frameId_read : readBe16 buf 4 = some c.frameId
  cmdId_read : readBe16 buf 6 = some c.cmdId
  cmdLen_eq : c.cmdLen = c.len - headerLen
  deviceId_eq : c.deviceId = deviceId
  payload_read : ∃ src, readBytes buf headerLen.toNat c.cmdLen.toNat = some src
    ∧ dataOff + src.length ≤ arraysSize
    ∧ c.arrays.bytes = patch (named (getCmdName cmdList c.cmdId) cmd.arrays.bytes) dataOff src

theorem cmdNameSize_le : cmdNameSize ≤ arraysSize := by decide

theorem named_length {name : Option Bytes} (h : ∀ s ∈ name, s.length < cmdNameSize)
    (arrays : Block arraysSize) : (named name arrays.bytes).length = arraysSize := by
  cases name with
  | none => exact arrays.size_eq
  | some name =>
      have hshort := h name rfl
      have hsize := cmdNameSize_le
      rw [named, patch_length, arrays.size_eq]
      rw [arrays.size_eq, List.length_append, List.length_singleton]
      omega

theorem storeCmdName_eq {name : Option Bytes} (h : ∀ s ∈ name, s.length < cmdNameSize)
    (cmd : StCmdFrame) :
    storeCmdName cmd name =
      some { cmd with arrays := ⟨named name cmd.arrays.bytes, named_length h cmd.arrays⟩ } := by
  cases name with
  | none => rfl
  | some name =>
      have hshort := h name rfl
      have hsize := cmdNameSize_le
      refine StCmdFrame.store_eq_some_iff.mpr ⟨_, Block.write_eq_some_iff.mpr ⟨?_, rfl⟩, rfl⟩
      rw [List.length_append, List.length_singleton]
      omega

theorem parseHeader_eq_some_iff (h : ProperTable cmdList) :
    parseHeader cmdList fd cmd buf = some c ↔
      ∃ len frameId cmdId, readBe16 buf 2 = some len ∧ readBe16 buf 4 = some frameId
        ∧ readBe16 buf 6 = some cmdId
        ∧ c = { cmd with
            fd, len, frameId, cmdId
            arrays := ⟨named (getCmdName cmdList cmdId) cmd.arrays.bytes,
              named_length (h.short cmdId) cmd.arrays⟩ } := by
  simp only [parseHeader, Option.bind_eq_bind, Option.bind_eq_some_iff,
    storeCmdName_eq (h.short _), Option.some.injEq]
  constructor
  · rintro ⟨len, hlen, frameId, hframe, cmdId, hcmd, rfl⟩
    exact ⟨len, frameId, cmdId, hlen, hframe, hcmd, rfl⟩
  · rintro ⟨len, frameId, cmdId, hlen, hframe, hcmd, rfl⟩
    exact ⟨len, hlen, frameId, hframe, cmdId, hcmd, rfl⟩

theorem copyPayload_eq_some_iff :
    copyPayload headerLen cmd buf = some c ↔
      ∃ src arrays, readBytes buf headerLen.toNat (cmd.len - headerLen).toNat = some src
        ∧ cmd.arrays.write dataOff src = some arrays
        ∧ c = { cmd with cmdLen := cmd.len - headerLen, arrays } := by
  simp only [copyPayload, Option.bind_eq_bind, Option.bind_eq_some_iff,
    StCmdFrame.store_eq_some_iff]
  constructor
  · rintro ⟨src, hread, arrays, hwrite, rfl⟩
    exact ⟨src, arrays, hread, hwrite, rfl⟩
  · rintro ⟨src, arrays, hread, hwrite, rfl⟩
    exact ⟨src, hread, arrays, hwrite, rfl⟩

theorem parsed_iff (h : ProperTable cmdList) :
    Parsed cmdList headerLen deviceId fd cmd buf c ↔
      ∃ head, parseHeader cmdList fd cmd buf = some head
        ∧ copyPayload headerLen { head with deviceId } buf = some c := by
  simp only [parseHeader_eq_some_iff h, copyPayload_eq_some_iff]
  constructor
  · intro hparsed
    obtain ⟨src, hsrc, hfits, hbytes⟩ := hparsed.payload_read
    refine ⟨_, ⟨c.len, c.frameId, c.cmdId, hparsed.len_read, hparsed.frameId_read,
      hparsed.cmdId_read, rfl⟩, src, c.arrays, ?_, Block.write_eq_some_iff.mpr ⟨hfits, hbytes⟩, ?_⟩
    · rw [← hsrc, hparsed.cmdLen_eq]
    · obtain ⟨rfl, _, _, _, hcmdLen, rfl, _⟩ := hparsed
      simp only
      rw [← hcmdLen]
  · rintro ⟨head, ⟨len, frameId, cmdId, hlen, hframe, hcmd, rfl⟩, src, arrays, hsrc, hwrite, rfl⟩
    exact ⟨rfl, hlen, hframe, hcmd, rfl, rfl, src, hsrc, Block.write_eq_some_iff.mp hwrite⟩

theorem htParse_eq_some_iff :
    htParse fd cmd buf = some c ↔ Parsed htCmdList 8 cmd.deviceId fd cmd buf c := by
  rw [parsed_iff properTable_ht, htParse]
  simp only [Option.bind_eq_bind, Option.bind_eq_some_iff]
  refine exists_congr fun head => and_congr_right fun hhead => ?_
  obtain ⟨len, frameId, cmdId, _, _, _, rfl⟩ := (parseHeader_eq_some_iff properTable_ht).mp hhead
  rfl

theorem slParse_eq_some_iff :
    slParse fd cmd buf = some c ↔
      ∃ b9 b10 b11 b12, buf[9]? = some b9 ∧ buf[10]? = some b10 ∧ buf[11]? = some b11
        ∧ buf[12]? = some b12 ∧ Parsed slCmdList 13 (be32 b9 b10 b11 b12) fd cmd buf c := by
  simp only [slParse, Option.bind_eq_bind, Option.bind_eq_some_iff, parsed_iff properTable_sl]
  constructor
  · rintro ⟨head, hhead, b9, h9, b10, h10, b11, h11, b12, h12, hcopy⟩
    exact ⟨b9, b10, b11, b12, h9, h10, h11, h12, head, hhead, hcopy⟩
  · rintro ⟨b9, b10, b11, b12, h9, h10, h11, h12, head, hhead, hcopy⟩
    exact ⟨head, hhead, b9, h9, b10, h10, b11, h11, b12, h12, hcopy⟩

/-! ### What the check accepts -/

variable {headH headL : UInt8}

theorem checkFrame_eq_zero_iff :
    checkFrame headH headL buf = some 0 ↔
      buf[0]? = some headH ∧ buf[1]? = some headL ∧ ∃ len, readBe16 buf 2 = some len
        ∧ readBe16 buf len.toNat = some (uhfCrc16CcittTab (buf.take len.toNat)) := by
  constructor
  · intro h
    simp only [checkFrame, Option.bind_eq_bind, Option.bind_eq_some_iff] at h
    obtain ⟨b0, h0, h⟩ := h
    split_ifs at h with hhead
    · simp at h
    obtain ⟨b1, h1, h⟩ := Option.bind_eq_some_iff.mp h
    split_ifs at h with hheadL
    · simp at h
    obtain ⟨len, hlen, h⟩ := Option.bind_eq_some_iff.mp h
    obtain ⟨dataCrc, hcrc, h⟩ := Option.bind_eq_some_iff.mp h
    split_ifs at h with hsame
    · simp at h
    rw [not_not] at hhead hheadL hsame
    exact ⟨hhead ▸ h0, hheadL ▸ h1, len, hlen, hsame ▸ hcrc⟩
  · rintro ⟨h0, h1, len, hlen, hcrc⟩
    simp [checkFrame, h0, h1, hlen, hcrc]

theorem checkFrame_head {b : UInt8} (hb : buf[0]? = some b) (hne : b ≠ headH) :
    checkFrame headH headL buf = some (-1) := by
  simp [checkFrame, hb, hne]

/-! ### What is known of a parsed frame -/

theorem exists_parsed (h : ProperTable cmdList) {len frameId cmdId : UInt16} {src : Bytes}
    (hlen : readBe16 buf 2 = some len) (hframe : readBe16 buf 4 = some frameId)
    (hcmd : readBe16 buf 6 = some cmdId)
    (hsrc : readBytes buf headerLen.toNat (len - headerLen).toNat = some src)
    (hfits : dataOff + src.length ≤ arraysSize) (deviceId : UInt32) (fd : Int) (cmd : StCmdFrame) :
    ∃ c, Parsed cmdList headerLen deviceId fd cmd buf c := by
  have hsize : (patch (named (getCmdName cmdList cmdId) cmd.arrays.bytes) dataOff src).length
      = arraysSize := by
    rw [patch_length] <;> rw [named_length (h.short cmdId)]
    exact hfits
  exact ⟨⟨fd, len, frameId, cmdId, len - headerLen, deviceId, ⟨_, hsize⟩⟩, rfl, hlen, hframe, hcmd,
    rfl, rfl, src, hsrc, hfits, rfl⟩

namespace Parsed

theorem payload_eq (h : Parsed cmdList headerLen deviceId fd cmd buf c)
    (htable : ProperTable cmdList) :
    readBytes buf headerLen.toNat c.cmdLen.toNat = some c.payload := by
  obtain ⟨src, hsrc, hfits, hbytes⟩ := h.payload_read
  obtain ⟨hle, hsrcEq⟩ := readBytes_eq_some_iff.mp hsrc
  have hsrcLen : src.length = c.cmdLen.toNat := by
    rw [hsrcEq, List.length_take, List.length_drop]
    omega
  have hroom : dataOff ≤ (named (getCmdName cmdList c.cmdId) cmd.arrays.bytes).length := by
    rw [named_length (htable.short _)]
    decide
  have hdrop := drop_patch_within src (Nat.zero_le src.length) hroom
  rw [hsrc, StCmdFrame.payload, StCmdFrame.data, hbytes, ← hsrcLen]
  simp only [Nat.add_zero, List.drop_zero] at hdrop
  rw [hdrop, List.take_left]

theorem payload_length (h : Parsed cmdList headerLen deviceId fd cmd buf c)
    (htable : ProperTable cmdList) : c.payload.length = c.cmdLen.toNat := by
  obtain ⟨hle, hpayload⟩ := readBytes_eq_some_iff.mp (h.payload_eq htable)
  rw [hpayload, List.length_take, List.length_drop]
  omega

theorem take_cmdName (h : Parsed cmdList headerLen deviceId fd cmd buf c)
    (htable : ProperTable cmdList) :
    c.cmdName.take dataOff = (named (getCmdName cmdList c.cmdId) cmd.arrays.bytes).take dataOff := by
  obtain ⟨src, _, _, hbytes⟩ := h.payload_read
  rw [StCmdFrame.cmdName, hbytes, take_patch (le_refl _)]
  rw [named_length (htable.short _)]
  decide

theorem cmdName_eq (h : Parsed cmdList headerLen deviceId fd cmd buf c)
    (htable : ProperTable cmdList) {name : Bytes}
    (hname : getCmdName cmdList c.cmdId = some name) : cstr c.cmdName = some name := by
  obtain ⟨hshort, hzero⟩ := htable.name_proper hname
  refine cstr_of_take_eq (h.take_cmdName htable) ?_ hshort
  rw [hname, named, patch, List.take_zero, List.nil_append, List.append_assoc, List.singleton_append]
  exact cstr_append_zero hzero _

theorem cmdName_leftover (h : Parsed cmdList headerLen deviceId fd cmd buf c)
    (htable : ProperTable cmdList) (hunknown : getCmdName cmdList c.cmdId = none) {name : Bytes}
    (hname : cstr cmd.cmdName = some name) (hshort : name.length < cmdNameSize) :
    cstr c.cmdName = some name := by
  refine cstr_of_take_eq (h.take_cmdName htable) ?_ hshort
  rw [hunknown]
  exact hname

end Parsed

/-! ### When a parser returns -/

/-- The length that a frame announces covers its header, and the rest fits the arrays. -/
def PayloadFits (headerLen len : UInt16) : Prop :=
  headerLen.toNat ≤ len.toNat ∧ dataOff + (len.toNat - headerLen.toNat) ≤ arraysSize

theorem payload_fits {n : Nat} (hfits : dataOff + n ≤ arraysSize) : n < 2000 := by
  simp only [arraysSize, cmdDataOff, dataOff, cmdNameSize, dataSize, cmdDataRows,
    cmdDataRowSize] at hfits
  omega

theorem Parsed.fits (h : Parsed cmdList headerLen deviceId fd cmd buf c)
    (hheader : headerLen.toNat ≤ 13) : PayloadFits headerLen c.len := by
  obtain ⟨src, hsrc, hfits, _⟩ := h.payload_read
  obtain ⟨hle, hsrcEq⟩ := readBytes_eq_some_iff.mp hsrc
  have hsrcLen : src.length = c.cmdLen.toNat := by
    rw [hsrcEq, List.length_take, List.length_drop]
    omega
  have hsub := h.cmdLen_eq ▸ UInt16.toNat_sub c.len headerLen
  have hsmall := payload_fits hfits
  have hbound := c.len.toNat_lt
  rw [hsrcLen, hsub] at hfits hsmall
  constructor
  · omega
  · omega

theorem exists_parsed_of_fits {cmdId len : UInt16}
    (htable : ProperTable cmdList) (hcheck : checkFrame headH headL buf = some 0)
    (hlen : readBe16 buf 2 = some len) (hcmd : readBe16 buf 6 = some cmdId)
    (hfits : PayloadFits headerLen len) (deviceId : UInt32) (fd : Int) (cmd : StCmdFrame) :
    ∃ c, Parsed cmdList headerLen deviceId fd cmd buf c := by
  obtain ⟨_, _, len', hlen', hcrc⟩ := checkFrame_eq_zero_iff.mp hcheck
  obtain rfl := Option.some.inj (hlen.symm.trans hlen')
  have hroom := readBe16_length hcrc
  have hlong := readBe16_length hcmd
  obtain ⟨hheader, hsmall⟩ := hfits
  obtain ⟨frameId, hframe⟩ := exists_readBe16 (show 4 + 2 ≤ buf.length by omega)
  have hsub : (len - headerLen).toNat = len.toNat - headerLen.toNat :=
    UInt16.toNat_sub_of_le _ _ (UInt16.le_iff_toNat_le.mpr hheader)
  have hread : readBytes buf headerLen.toNat (len - headerLen).toNat
      = some ((buf.drop headerLen.toNat).take (len - headerLen).toNat) := by
    rw [readBytes_eq_some_iff]
    exact ⟨by omega, rfl⟩
  refine exists_parsed htable hlen hframe hcmd hread ?_ deviceId fd cmd
  rw [List.length_take, List.length_drop]
  omega

theorem exists_deviceId {len : UInt16} (hcheck : slCheckData buf = some 0)
    (hlen : readBe16 buf 2 = some len) (hfits : PayloadFits 13 len) :
    ∃ b9 b10 b11 b12, buf[9]? = some b9 ∧ buf[10]? = some b10 ∧ buf[11]? = some b11
      ∧ buf[12]? = some b12 := by
  obtain ⟨_, _, len', hlen', hcrc⟩ := checkFrame_eq_zero_iff.mp hcheck
  obtain rfl := Option.some.inj (hlen.symm.trans hlen')
  have hroom := readBe16_length hcrc
  have hheader : 13 ≤ len.toNat := hfits.1
  have hread : ∀ i < 13, ∃ b, buf[i]? = some b :=
    fun i hi => ⟨_, List.getElem?_eq_getElem (show i < buf.length by omega)⟩
  obtain ⟨b9, h9⟩ := hread 9 (by decide)
  obtain ⟨b10, h10⟩ := hread 10 (by decide)
  obtain ⟨b11, h11⟩ := hread 11 (by decide)
  obtain ⟨b12, h12⟩ := hread 12 (by decide)
  exact ⟨b9, b10, b11, b12, h9, h10, h11, h12⟩

end InstructionParser

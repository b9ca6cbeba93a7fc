import InstructionParser.Proof.SetAddress

/-!
# The two ways to `set_ip`

The binary handler copies the address into the four bytes of `T_IPInfo.ipaddr`, which no dotted address
fits; the text handler has sixteen bytes for it and no byte to end a name of six.
-/

namespace InstructionParser

open CLib

variable {env : Env} {st : Statics} {name a behind : Bytes}

/-- The struct that `do_set_device_ip` hands to `set_device_ip`. -/
def binarySetIpInfo (pucBufHead : Bytes) (len : UInt16) : Option (Block 10) := do
  let name ← strncpyBytes pucBufHead (nameLen len)
  let ipInfo ← (Block.zeroed 10).write 0 name
  let ipaddr ← strncpyBytes (pucBufHead.drop (nameLen len)) (len.toNat - nameLen len)
  ipInfo.write ipaddrOff ipaddr

/-- The struct that `do_text_set_device_ip` hands to `set_device_ip`. -/
def textSetIpInfo (pucBufHead : Bytes) : Option (Block 22) := do
  let p0 ← cstr pucBufHead
  let ipInfoText ← (Block.zeroed 22).write 0 p0
  let p1 ← cstr (pucBufHead.drop cmdDataRowSize)
  ipInfoText.write ipaddrOff p1

theorem doSetDeviceIp_eq (env : Env) (st : Statics) (pucBufHead : Bytes) (len : UInt16) :
    doSetDeviceIp env st pucBufHead len = (binarySetIpInfo pucBufHead len).bind fun ipInfo =>
      (setDeviceIp env ipInfo.bytes).bind fun r => (ipInfo.write 0 r.2.1).bind fun ipInfo =>
        some { status := r.1, statics := { st with ipInfo }, events := r.2.2 } := by
  simp only [doSetDeviceIp, binarySetIpInfo, Option.bind_eq_bind, Option.bind_assoc]
  rfl

theorem doTextSetDeviceIp_eq (env : Env) (st : Statics) (pucBufHead : Bytes) (len : UInt16) :
    doTextSetDeviceIp env st pucBufHead len = (textSetIpInfo pucBufHead).bind fun ipInfoText =>
      (setDeviceIp env ipInfoText.bytes).bind fun r =>
        some { status := r.1, statics := st, events := r.2.2 } := by
  simp only [doTextSetDeviceIp, textSetIpInfo, Option.bind_eq_bind, Option.bind_assoc]
  rfl

/-- The struct hands over these two strings. -/
def HandsOver {n : Nat} (info : Block n) (name a : Bytes) : Prop :=
  cstr info.bytes = some name ∧ cstr (info.bytes.drop ipaddrOff) = some a

/-- A device name and an address as the two commands take them. -/
structure SetIpRequest (name a : Bytes) : Prop where
  name_length : 1 ≤ name.length ∧ name.length ≤ 6
  name_bytes : ∀ b ∈ name, b ≠ 0 ∧ b ≠ 0x20
  quad : DottedQuad a
  address_length : a.length ≤ 15

/-- The payload of the binary command: the name padded to six bytes, then the address. -/
def setIpPayload (name a : Bytes) : Bytes := name ++ List.replicate (6 - name.length) 0 ++ a

/-- The rows of the text command. -/
structure SetIpRows (rows name a : Bytes) : Prop where
  name_row : cstr rows = some name
  address_row : cstr (rows.drop cmdDataRowSize) = some a

/-- Both handlers hand over the name and the address, and what they copy fits the fields: six bytes for
a name, four and sixteen for an address. -/
structure PathsAgree (payload : Bytes) (len : UInt16) (rows name a : Bytes) : Prop where
  binary : ∃ info, binarySetIpInfo payload len = some info ∧ HandsOver info name a
  text : ∃ info, textSetIpInfo rows = some info ∧ HandsOver info name a
  binary_fits : nameLen len ≤ 6 ∧ len.toNat - nameLen len ≤ 4
  text_fits : name.length ≤ 6 ∧ a.length ≤ 16

theorem DottedQuad.length_ge (h : DottedQuad a) : 7 ≤ a.length := by
  obtain ⟨g1, g2, g3, g4, h1, h2, h3, h4, rfl⟩ := h
  have hlength : ∀ {g : Bytes}, OctetGroup g → 1 ≤ g.length := fun hg =>
    List.length_pos_of_ne_nil hg.1
  have l1 := hlength h1
  have l2 := hlength h2
  have l3 := hlength h3
  have l4 := hlength h4
  simp only [List.length_append, List.length_cons]
  omega

/-! ### The text handler -/

theorem textSetIpInfo_bytes (h : SetIpRequest name a) {rows : Bytes}
    (hrows : SetIpRows rows name a) :
    ∃ info, textSetIpInfo rows = some info
      ∧ info.bytes = name ++ List.replicate (6 - name.length) 0 ++ a
        ++ List.replicate (16 - a.length) 0 := by
  have hname := h.name_length.2
  have haddress := h.address_length
  obtain ⟨named, hnamed, hbytes⟩ := Block.exists_write (b := Block.zeroed 22)
    (show 0 + name.length ≤ 22 by omega)
  obtain ⟨info, hinfo, hinfoBytes⟩ := Block.exists_write (b := named)
    (show ipaddrOff + a.length ≤ 22 by rw [ipaddrOff]; omega)
  refine ⟨info, ?_, ?_⟩
  · simp only [textSetIpInfo, hrows.name_row, hrows.address_row, hnamed, hinfo,
      Option.bind_eq_bind, Option.bind_some]
  · have hzeros : named.bytes = name ++ List.replicate (22 - name.length) 0 := by
      rw [hbytes, patch, List.take_zero, List.nil_append, Nat.zero_add, Block.zeroed,
        List.drop_replicate]
    rw [hinfoBytes, patch, hzeros, ipaddrOff, List.take_append, List.take_of_length_le hname,
      List.take_replicate, Nat.min_eq_left (by omega), List.drop_append,
      List.drop_eq_nil_of_le (by omega), List.nil_append, List.drop_replicate]
    congr 2
    omega

/-- The text handler hands over the two strings exactly when the name leaves room for its end. -/
theorem text_handsOver_iff (h : SetIpRequest name a) {rows : Bytes} (hrows : SetIpRows rows name a) :
    (∃ info, textSetIpInfo rows = some info ∧ HandsOver info name a) ↔ name.length < 6 := by
  obtain ⟨info, hinfo, hbytes⟩ := textSetIpInfo_bytes h hrows
  have hname := h.name_length.2
  have haddress := h.address_length
  have hlong := h.quad.length_ge
  have hzero := zero_notMem_of_cstr hrows.address_row
  have hend : List.replicate (16 - a.length) (0 : UInt8)
      = 0 :: List.replicate (15 - a.length) 0 := by
    rw [← List.replicate_succ]
    congr 1
    omega
  constructor
  · rintro ⟨info', hinfo', hover, _⟩
    obtain rfl := Option.some.inj (hinfo.symm.trans hinfo')
    by_contra hfull
    -- A name of six bytes runs on into the address.
    rw [hbytes, show 6 - name.length = 0 by omega, List.replicate_zero, List.append_nil, hend,
      cstr_append_zero] at hover
    · have hlength := congrArg List.length (Option.some.inj hover)
      rw [List.length_append] at hlength
      omega
    · rw [List.mem_append, not_or]
      exact ⟨zero_notMem_of_cstr hrows.name_row, hzero⟩
  · intro hroom
    refine ⟨info, hinfo, ?_, ?_⟩
    · rw [hbytes, List.append_assoc, List.append_assoc,
        show 6 - name.length = (5 - name.length) + 1 by omega, List.replicate_succ, List.cons_append]
      exact cstr_append_zero (zero_notMem_of_cstr hrows.name_row) _
    · have hpadded : (name ++ List.replicate (6 - name.length) (0 : UInt8)).length = ipaddrOff := by
        rw [List.length_append, List.length_replicate, ipaddrOff]
        omega
      rw [hbytes, List.append_assoc, List.drop_left' hpadded, hend]
      exact cstr_append_zero hzero _

/-! ### The binary handler -/

/-- The address of a payload does not fit the struct. -/
theorem binarySetIpInfo_eq_none {len : UInt16} (hlen : 16 < len.toNat + 6) (payload : Bytes) :
    binarySetIpInfo payload len = none := by
  by_contra hsome
  obtain ⟨info, hinfo⟩ := Option.ne_none_iff_exists'.mp hsome
  simp only [binarySetIpInfo, Option.bind_eq_bind, Option.bind_eq_some_iff] at hinfo
  obtain ⟨_, _, _, _, ipaddr, hcopied, hwrite⟩ := hinfo
  have hfits := (Block.write_eq_some_iff.mp hwrite).1
  rw [strncpyBytes_length hcopied, nameLen, ipaddrOff] at hfits
  split_ifs at hfits <;> omega

/-- **No agreement.** For every device name and every dotted address the binary handler copies the
address past the end of its struct, so the two never agree. -/
theorem paths_never_agree (h : SetIpRequest name a) (behind : Bytes) {rows : Bytes}
    (hrows : SetIpRows rows name a) :
    binarySetIpInfo (setIpPayload name a ++ behind) (UInt16.ofNat (6 + a.length)) = none
      ∧ ((∃ info, textSetIpInfo rows = some info ∧ HandsOver info name a) ↔ name.length < 6)
      ∧ ¬ PathsAgree (setIpPayload name a ++ behind) (UInt16.ofNat (6 + a.length)) rows name a := by
  have hlong := h.quad.length_ge
  have hshort := h.address_length
  have hlen : (UInt16.ofNat (6 + a.length)).toNat = 6 + a.length := by
    rw [UInt16.toNat_ofNat', Nat.mod_eq_of_lt (by omega)]
  have hnone : binarySetIpInfo (setIpPayload name a ++ behind) (UInt16.ofNat (6 + a.length)) = none :=
    binarySetIpInfo_eq_none (by omega) _
  refine ⟨hnone, text_handsOver_iff h hrows, fun hagree => ?_⟩
  obtain ⟨info, hinfo, _⟩ := hagree.binary
  rw [hnone] at hinfo
  cases hinfo

def eth0Rows : Bytes := ascii "eth0" ++ List.replicate 60 0 ++ ascii "10.0.0.1" ++ [0]

theorem setIpRequest_eth0 : SetIpRequest (ascii "eth0") (ascii "10.0.0.1") := by
  have hgroup : ∀ g ∈ [ascii "10", ascii "0", ascii "1"], OctetGroup g := by
    unfold OctetGroup
    decide +kernel
  exact ⟨by decide, by decide +kernel,
    ⟨ascii "10", ascii "0", ascii "0", ascii "1", hgroup _ (by decide), hgroup _ (by decide),
      hgroup _ (by decide), hgroup _ (by decide), by decide⟩, by decide⟩

theorem setIpRows_eth0 : SetIpRows eth0Rows (ascii "eth0") (ascii "10.0.0.1") :=
  ⟨by decide +kernel, by decide +kernel⟩

theorem paths_never_agree_eth0 :
    ¬ PathsAgree (setIpPayload (ascii "eth0") (ascii "10.0.0.1") ++ [0]) 14 eth0Rows (ascii "eth0")
      (ascii "10.0.0.1") :=
  (paths_never_agree setIpRequest_eth0 [0] setIpRows_eth0).2.2

/-- The payload of `set_ip` for `eth0` and `10.0.0.1`. -/
theorem paths_disagree :
    ¬ ∀ name a behind rows : Bytes, SetIpRequest name a → SetIpRows rows name a →
      PathsAgree (setIpPayload name a ++ behind) (UInt16.ofNat (6 + a.length)) rows name a := by
  intro h
  obtain ⟨info, hinfo, _⟩ := (h _ _ [0] eth0Rows setIpRequest_eth0 setIpRows_eth0).binary
  rw [binarySetIpInfo_eq_none (by decide) _] at hinfo
  cases hinfo

end InstructionParser

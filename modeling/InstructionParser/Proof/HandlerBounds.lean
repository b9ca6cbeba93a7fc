import InstructionParser.Proof.OwnReplies
import InstructionParser.Proof.SetIp

/-!
# Handlers that stay inside their objects

The handlers copy what a command carries into objects of their own: buffers for a user and a command
line, the two structs for a device and its address, and a block of the heap. Each is left exactly when
what the command itself brings along does not fit it. A reboot that succeeds is not returned from.
-/

namespace InstructionParser

open CLib

variable {env : Env} {st : Statics} {cmd : StCmdFrame} {entry : CmdList} {r : HandlerResult} {p : Bytes}

/-- The fields of `add_user` fit `user_name` and `user_passwd`, and the command line fits `cmd`. -/
def UserCommandFits (p : Bytes) : Prop :=
  ∃ userNameLen userPasswdLen, p[1]? = some userNameLen
    ∧ p[2 + userNameLen.toNat]? = some userPasswdLen
    ∧ FieldFits (p.drop 2) userNameLen.toNat
    ∧ FieldFits (p.drop (userNameLen.toNat + 3)) userPasswdLen.toNat
    ∧ (strBytes ((p.drop 2).take userNameLen.toNat)).length
      + (strBytes ((p.drop (userNameLen.toNat + 3)).take userPasswdLen.toNat)).length ≤ 107

/-- The address of a binary `set_ip` fits `T_IPInfo.ipaddr` with a zero behind it. -/
def AddressFits (p : Bytes) (len : UInt16) : Prop :=
  len.toNat - nameLen len ≤ 4
    ∧ (strBytes ((p.drop (nameLen len)).take (len.toNat - nameLen len))).length < 4

/-- The same system, with nothing to read behind a block of the heap. -/
def Env.tight (env : Env) : Env := { env with heap := [] }

/-- `check_right_ip` reads an `int`, and an address that it accepts is not read from the heap, where its
copy has no end. -/
def SetFits (env : Env) (s : Bytes) : Prop :=
  env.mallocFails = true
    ∨ (∃ value, atoi (firstPart s) = some value) ∧ (AcceptedForm s → env.setAddr = .noSocket)

/-- The two rows of a text `set_ip` fit `ip_info_text` with a zero behind them. A long name reaches
behind the address. -/
def RowsFit (env : Env) (rows : Bytes) : Prop :=
  ∃ name ipaddr, cstr rows = some name ∧ cstr (rows.drop cmdDataRowSize) = some ipaddr
    ∧ name.length < 22 ∧ ipaddr.length < 16
    ∧ SetFits env (ipaddr ++ name.drop (ipaddrOff + ipaddr.length))

/-- The row of a text `get_ip` fits `ip_info_text`. -/
def DeviceFits (rows : Bytes) : Prop := ∃ name, cstr rows = some name ∧ name.length ≤ 22

/-- What a command carries fits the objects of its handler, and the handler returns. -/
structure HandlerFits (env : Env) (cmd : StCmdFrame) : Prop where
  reboot : cstr cmd.cmdName = some rebootCmd.name → env.rebootFails = true
  addUser : cmd.isBinary = true → cstr cmd.cmdName = some addUserCmd.name → cmd.data[0]? = some 1 →
    UserCommandFits cmd.data
  setIp : cmd.isBinary = true → cstr cmd.cmdName = some setIpCmd.name → AddressFits cmd.data cmd.cmdLen
  textGetIp : cmd.isBinary = false → cstr cmd.cmdName = some getIpCmd.name → DeviceFits cmd.cmdData
  textSetIp : cmd.isBinary = false → cstr cmd.cmdName = some setIpCmd.name → RowsFit env cmd.cmdData

/-! ### Strings that end inside their objects -/

theorem cstr_padded_iff {s t : Bytes} (hs : 0 ∉ s) {k : Nat} :
    cstr (s ++ List.replicate k 0) = some t ↔ t = s ∧ 0 < k := by
  constructor
  · intro h
    rcases Nat.eq_zero_or_pos k with rfl | hk
    · rw [List.replicate_zero, List.append_nil, cstr, if_neg hs] at h
      cases h
    · exact ⟨(Option.some.inj ((cstr_padded hs hk).symm.trans h)).symm, hk⟩
  · rintro ⟨rfl, hk⟩
    exact cstr_padded hs hk

/-- What `strncpy` leaves of a field in a zeroed object. -/
theorem cstr_copied_iff {field src t : Bytes} {n size : Nat} {b : Block size} (hread : n ≤ field.length)
    (hcopy : strncpyBytes field n = some src) (hwrite : (Block.zeroed size).write 0 src = some b) :
    cstr b.bytes = some t ↔ t = strBytes (field.take n) ∧ t.length < size := by
  have hlength := strncpyBytes_length hcopy
  have hroom := (Block.write_eq_some_iff.mp hwrite).1
  obtain ⟨src', b', hcopy', hwrite', hbytes⟩ := exists_copied (show n ≤ size by omega) hread
  obtain rfl := Option.some.inj (hcopy.symm.trans hcopy')
  obtain rfl := Option.some.inj (hwrite.symm.trans hwrite')
  rw [hbytes, cstr_padded_iff (zero_notMem_strBytes _)]
  constructor
  · rintro ⟨rfl, hk⟩
    exact ⟨rfl, by omega⟩
  · rintro ⟨rfl, hk⟩
    exact ⟨rfl, by omega⟩

/-! ### Adding a user -/

theorem exists_addSystemUser_iff (hadd : p[0]? = some 1) (hlong : 513 ≤ p.length) (len : UInt16) :
    (∃ r, addSystemUser env st p len = some r) ↔ UserCommandFits p := by
  constructor
  · rintro ⟨r, h⟩
    obtain ⟨userName, userPasswd, name, passwd, hbuffers, hname, hpasswd, hline, _⟩ :=
      (addSystemUser_eq_some_iff hadd).mp h
    obtain ⟨n, m, nameSrc, passwdSrc, hn, hm, hnameCopy, hnameWrite, hpasswdCopy, hpasswdWrite⟩ :=
      userBuffers_eq_some_iff.mp hbuffers
    have hnLt := n.toNat_lt
    have hmLt := m.toNat_lt
    have hnameRoom := (Block.write_eq_some_iff.mp hnameWrite).1
    have hpasswdRoom := (Block.write_eq_some_iff.mp hpasswdWrite).1
    rw [strncpyBytes_length hnameCopy] at hnameRoom
    rw [strncpyBytes_length hpasswdCopy] at hpasswdRoom
    obtain ⟨rfl, hnameLt⟩ := (cstr_copied_iff (by rw [List.length_drop]; omega) hnameCopy
      hnameWrite).mp hname
    obtain ⟨rfl, hpasswdLt⟩ := (cstr_copied_iff (by rw [List.length_drop]; omega) hpasswdCopy
      hpasswdWrite).mp hpasswd
    rw [addUserLine_length] at hline
    exact ⟨n, m, hn, hm, ⟨by omega, hnameLt⟩, ⟨by omega, hpasswdLt⟩, by omega⟩
  · rintro ⟨n, m, hn, hm, hname, hpasswd, hroom⟩
    have hnLt := n.toNat_lt
    have hmLt := m.toNat_lt
    obtain ⟨userName, userPasswd, hbuffers, hnameStr, hpasswdStr⟩ :=
      exists_userBuffers hn hm (by omega) hname hpasswd
    exact ⟨_, (addSystemUser_eq_some_iff hadd).mpr ⟨userName, userPasswd, _, _, hbuffers, hnameStr,
      hpasswdStr, by rw [addUserLine_length]; omega, rfl⟩⟩

/-! ### Setting an address -/

theorem checkRightIpLoop_keeps : ∀ (fuel : Nat) {ip ip' : Bytes} {pos : Nat} {i ret : Int},
    checkRightIpLoop fuel ip pos i = some (ret, ip') → 0 ∈ ip.drop pos →
      0 ∈ ip' ∧ ip'.length = ip.length := by
  intro fuel
  induction fuel with
  | zero => intro ip ip' pos i ret h; cases h
  | succ fuel ih =>
      intro ip ip' pos i ret h hzero
      rw [checkRightIpLoop] at h
      cases hcall : strtok 0x2e ip pos with
      | none => rw [hcall] at h; cases h
      | some called =>
          obtain ⟨tok, after, pos'⟩ := called
          rw [hcall] at h
          cases tok with
          | none =>
              obtain ⟨_, rfl⟩ := Prod.mk.inj (Option.some.inj h)
              rw [(strtok_null (by decide) hcall).2]
              exact ⟨List.mem_of_mem_drop hzero, rfl⟩
          | some tok =>
              obtain ⟨_, _, hkeeps, hlength⟩ := strtok_token (by decide) hcall
              simp only at h
              obtain ⟨value, _, h⟩ := Option.bind_eq_some_iff.mp h
              by_cases hrange : 255 < value ∨ value < 0
              · rw [if_pos hrange] at h
                obtain ⟨_, rfl⟩ := Prod.mk.inj (Option.some.inj h)
                exact ⟨List.mem_of_mem_drop (hkeeps hzero), hlength⟩
              · rw [if_neg hrange] at h
                obtain ⟨hmem, hsame⟩ := ih h (hkeeps hzero)
                exact ⟨hmem, hsame.trans hlength⟩

theorem exists_setHandIp_iff {device ipaddr : Bytes} (hdevice : 0 ∈ device) :
    (∃ out, setHandIp env device ipaddr = some out) ↔ env.setAddr = .noSocket ∨ 0 ∈ ipaddr := by
  obtain ⟨name, hname⟩ : ∃ name, strncpyBytes device 15 = some name := ⟨_, if_pos (Or.inl hdevice)⟩
  by_cases hsocket : env.setAddr = .noSocket
  · exact iff_of_true ⟨_, if_pos hsocket⟩ (Or.inl hsocket)
  · rw [setHandIp, if_neg hsocket]
    by_cases hzero : 0 ∈ ipaddr
    · refine iff_of_true ?_ (Or.inr hzero)
      have hip : cstr ipaddr = some (strBytes ipaddr) := if_pos hzero
      exact ⟨_, by rw [hname, hip]; rfl⟩
    · refine iff_of_false ?_ (not_or.mpr ⟨hsocket, hzero⟩)
      rintro ⟨out, h⟩
      have hip : cstr ipaddr = none := if_neg hzero
      rw [hname, hip] at h
      cases h

/-- Whatever `set_device_ip` hands back has the size of the struct. -/
theorem setDeviceIp_length {info info' : Bytes} {status : Int} {events : List Event}
    (h : setDeviceIp env info = some (status, info', events)) : info'.length = info.length := by
  simp only [setDeviceIp, Option.bind_eq_bind, Option.bind_eq_some_iff] at h
  obtain ⟨ipAddr, hline, h⟩ := h
  have hzero : 0 ∈ (info.drop ipaddrOff).drop 0 := by
    obtain ⟨_, rest, hsplit⟩ := cstr_eq_some_iff.mp hline
    rw [List.drop_zero, hsplit]
    simp
  split_ifs at h
  · obtain ⟨_, rfl, _⟩ := by simpa only [Option.pure_def, Option.some.injEq, Prod.mk.injEq] using h
    rfl
  obtain ⟨⟨ret, checked⟩, hcheck, h⟩ := Option.bind_eq_some_iff.mp h
  have hchecked := (checkRightIpLoop_keeps _ hcheck hzero).2
  have hwhole : (info.take ipaddrOff ++ checked).length = info.length := by
    rw [List.length_append, hchecked, ← List.length_append, List.take_append_drop]
  split_ifs at h
  · obtain ⟨_, rfl, _⟩ := by simpa only [Option.pure_def, Option.some.injEq, Prod.mk.injEq] using h
    exact hwhole
  · obtain ⟨⟨status', events'⟩, _, h⟩ := Option.bind_eq_some_iff.mp h
    obtain ⟨_, rfl, _⟩ := by simpa only [Option.pure_def, Option.some.injEq, Prod.mk.injEq] using h
    exact hwhole

/-- The copy of an address has no end of its own. -/
theorem zero_notMem_copy {s : Bytes} (hs : 0 ∉ s) : 0 ∉ s ++ env.tight.heap := by
  change 0 ∉ s ++ []
  rwa [List.append_nil]

theorem exists_setDeviceIp_iff {info : Bytes} :
    (∃ out, setDeviceIp env.tight info = some out) ↔
      ∃ s, cstr (info.drop ipaddrOff) = some s ∧ SetFits env s := by
  cases hs : cstr (info.drop ipaddrOff) with
  | none =>
      refine iff_of_false ?_ ?_
      · rintro ⟨out, h⟩
        rw [setDeviceIp, hs] at h
        cases h
      · rintro ⟨s, h, _⟩
        cases h
  | some s =>
      have hsome : (∃ t, some s = some t ∧ SetFits env t) ↔ SetFits env s := by simp
      rw [hsome, setDeviceIp, hs]
      simp only [Option.bind_eq_bind, Option.bind_some]
      by_cases hmalloc : env.mallocFails = true
      · have hfails : env.tight.mallocFails = true := hmalloc
        rw [if_pos hfails]
        exact iff_of_true ⟨_, rfl⟩ (Or.inl hmalloc)
      have hgets : ¬ env.tight.mallocFails = true := hmalloc
      rw [if_neg hgets, SetFits, or_iff_right hmalloc]
      rcases checkRightIp_eq hs with ⟨hvalue, hcheck⟩ | ⟨value, ret, checked, hvalue, hcheck, hret⟩
      · rw [hcheck, hvalue]
        refine iff_of_false ?_ ?_
        · rintro ⟨out, h⟩
          cases h
        · rintro ⟨⟨value, h⟩, _⟩
          cases h
      have hzero : 0 ∈ (info.drop ipaddrOff).drop 0 := by
        obtain ⟨_, rest, hsplit⟩ := cstr_eq_some_iff.mp hs
        rw [List.drop_zero, hsplit]
        simp
      have hdevice : 0 ∈ info.take ipaddrOff ++ checked :=
        List.mem_append_right _ (checkRightIpLoop_keeps _ hcheck hzero).1
      rw [hcheck, hvalue, Option.bind_some, and_iff_right ⟨value, rfl⟩]
      by_cases hform : AcceptedForm s
      · rw [if_neg (not_not.mpr (hret.mpr hform))]
        have hend : 0 ∉ s ++ env.tight.heap := zero_notMem_copy (zero_notMem_of_cstr hs)
        have hcalled : (∃ out, setHandIp env.tight (info.take ipaddrOff ++ checked)
            (s ++ env.tight.heap) = some out) ↔ env.setAddr = .noSocket :=
          (exists_setHandIp_iff hdevice).trans (or_iff_left hend)
        constructor
        · rintro ⟨out, h⟩ _
          obtain ⟨set, hset, _⟩ := Option.bind_eq_some_iff.mp h
          exact hcalled.mp ⟨set, hset⟩
        · intro h
          obtain ⟨set, hset⟩ := hcalled.mpr (h hform)
          exact ⟨_, by rw [hset]; rfl⟩
      · rw [if_pos (mt hret.mp hform)]
        exact iff_of_true ⟨_, rfl⟩ fun h => absurd h hform

theorem firstPart_length_le (s : Bytes) : (firstPart s).length ≤ s.length := by
  have hrest := (List.takeWhile_prefix (l := s.dropWhile (· = 0x2e)) (· ≠ 0x2e)).length_le
  have hsplit := congrArg List.length (List.takeWhile_append_dropWhile (p := (· = 0x2e)) (l := s))
  rw [List.length_append] at hsplit
  rw [firstPart, List.length_append]
  omega

/-- What the binary handler makes of the address. -/
theorem exists_binarySetIpInfo (hfits : cmd.cmdLen.toNat - nameLen cmd.cmdLen ≤ 4) :
    ∃ info address, binarySetIpInfo cmd.data cmd.cmdLen = some info
      ∧ address = strBytes ((cmd.data.drop (nameLen cmd.cmdLen)).take
        (cmd.cmdLen.toNat - nameLen cmd.cmdLen))
      ∧ info.bytes.drop ipaddrOff = address ++ List.replicate (4 - address.length) 0 := by
  set n := nameLen cmd.cmdLen with hnDef
  set k := cmd.cmdLen.toNat - n with hkDef
  have hn : n ≤ 6 := nameLen_le cmd.cmdLen
  have hdata : cmd.data.length = 1344 := cmd.data_length
  have hread : k ≤ (cmd.data.drop n).length := by
    rw [List.length_drop]
    omega
  obtain ⟨name, named, hname, hnamed, hnamedBytes⟩ := exists_copied (show n ≤ 10 by omega)
    (show n ≤ cmd.data.length by omega)
  have hnameLength : (strBytes (cmd.data.take n)).length ≤ 6 :=
    ((List.takeWhile_prefix _).length_le.trans (List.length_take_le _ _)).trans hn
  set address := strBytes ((cmd.data.drop n).take k) with haddress
  have haddressLength : address.length ≤ k :=
    (List.takeWhile_prefix _).length_le.trans (List.length_take_le _ _)
  have hcopy : strncpyBytes (cmd.data.drop n) k
      = some (address ++ List.replicate (k - address.length) 0) :=
    if_pos (Or.inr hread)
  have hcopied := strncpyBytes_length hcopy
  have hroom : ipaddrOff + (address ++ List.replicate (k - address.length) 0).length ≤ 10 := by
    rw [hcopied, ipaddrOff]
    omega
  obtain ⟨info, hwrite, hbytes⟩ := Block.exists_write (b := named) hroom
  refine ⟨info, address, ?_, rfl, ?_⟩
  · simp only [binarySetIpInfo, ← hnDef, ← hkDef, hname, hnamed, hcopy, hwrite, Option.bind_eq_bind,
      Option.bind_some]
  · have hoff : ipaddrOff ≤ named.bytes.length := by rw [named.size_eq]; decide
    have hbehind : named.bytes.drop (ipaddrOff + k) = List.replicate (4 - k) 0 := by
      rw [hnamedBytes, List.drop_append, List.drop_eq_nil_of_le (by rw [ipaddrOff]; omega),
        List.nil_append, List.drop_replicate, ipaddrOff]
      congr 1
      omega
    have hwithin := drop_patch_within (k := 0) (address ++ List.replicate (k - address.length) 0)
      (Nat.zero_le _) hoff
    rw [Nat.add_zero, List.drop_zero, hcopied, hbehind, List.append_assoc,
      List.replicate_append_replicate] at hwithin
    rw [hbytes, hwithin]
    congr 2
    omega

theorem exists_doSetDeviceIp_iff (env : Env) (st : Statics) (cmd : StCmdFrame) :
    (∃ r, doSetDeviceIp env.tight st cmd.data cmd.cmdLen = some r) ↔ AddressFits cmd.data cmd.cmdLen := by
  rw [doSetDeviceIp_eq]
  by_cases hfits : cmd.cmdLen.toNat - nameLen cmd.cmdLen ≤ 4
  · obtain ⟨info, address, hinfo, rfl, hbytes⟩ := exists_binarySetIpInfo hfits
    have hzero := zero_notMem_strBytes ((cmd.data.drop (nameLen cmd.cmdLen)).take
      (cmd.cmdLen.toNat - nameLen cmd.cmdLen))
    rw [hinfo, Option.bind_some, AddressFits]
    constructor
    · rintro ⟨r, h⟩
      obtain ⟨set, hset, _⟩ := Option.bind_eq_some_iff.mp h
      obtain ⟨s, hs, _⟩ := exists_setDeviceIp_iff.mp ⟨set, hset⟩
      rw [hbytes, cstr_padded_iff hzero] at hs
      exact ⟨hfits, by omega⟩
    · rintro ⟨_, hshort⟩
      have hs := (cstr_padded_iff (k := 4 - (strBytes ((cmd.data.drop (nameLen cmd.cmdLen)).take
        (cmd.cmdLen.toNat - nameLen cmd.cmdLen))).length) hzero).mpr ⟨rfl, by omega⟩
      rw [← hbytes] at hs
      -- Three bytes hold no address, so `set_hand_ip` is never called.
      have hfitsSet : SetFits env (strBytes ((cmd.data.drop (nameLen cmd.cmdLen)).take
          (cmd.cmdLen.toNat - nameLen cmd.cmdLen))) := by
        have hfirst := firstPart_length_le (strBytes ((cmd.data.drop (nameLen cmd.cmdLen)).take
          (cmd.cmdLen.toNat - nameLen cmd.cmdLen)))
        refine Or.inr ⟨⟨_, atoi_short (by omega)⟩, fun hform => ?_⟩
        have hgroups := words_length_le (d := 0x2e) (strBytes ((cmd.data.drop (nameLen cmd.cmdLen)).take
          (cmd.cmdLen.toNat - nameLen cmd.cmdLen)))
        have hfour := hform.groups
        omega
      obtain ⟨⟨status, info', events⟩, hset⟩ := exists_setDeviceIp_iff.mpr ⟨_, hs, hfitsSet⟩
      have hroom : 0 + info'.length ≤ 10 := by
        rw [setDeviceIp_length hset, info.size_eq]
      obtain ⟨stored, hstored, _⟩ := Block.exists_write (b := info) hroom
      exact ⟨_, by rw [hset, Option.bind_some, hstored]; rfl⟩
  · refine iff_of_false ?_ fun h => hfits h.1
    rintro ⟨r, h⟩
    obtain ⟨info, hinfo, _⟩ := Option.bind_eq_some_iff.mp h
    simp only [binarySetIpInfo, Option.bind_eq_bind, Option.bind_eq_some_iff] at hinfo
    obtain ⟨_, _, _, _, ipaddr, hcopied, hwrite⟩ := hinfo
    have hroom := (Block.write_eq_some_iff.mp hwrite).1
    rw [strncpyBytes_length hcopied, ipaddrOff] at hroom
    omega

/-- What the text handler makes of the two rows. -/
theorem exists_textSetIpInfo {rows name ipaddr : Bytes} (hname : cstr rows = some name)
    (hip : cstr (rows.drop cmdDataRowSize) = some ipaddr) (hnameFits : name.length ≤ 22)
    (hipFits : ipaddr.length ≤ 16) :
    ∃ info, textSetIpInfo rows = some info
      ∧ info.bytes.drop ipaddrOff = ipaddr ++ name.drop (ipaddrOff + ipaddr.length)
        ++ List.replicate (22 - name.length - (ipaddrOff + ipaddr.length - name.length)) 0 := by
  obtain ⟨named, hnamed, hnamedBytes⟩ := Block.exists_write (b := Block.zeroed 22)
    (show 0 + name.length ≤ 22 by omega)
  have hpadded : named.bytes = name ++ List.replicate (22 - name.length) 0 := by
    rw [hnamedBytes, patch, Nat.zero_add]
    change [] ++ name ++ (List.replicate 22 0).drop name.length = _
    rw [List.nil_append, List.drop_replicate]
  obtain ⟨info, hinfo, hbytes⟩ := Block.exists_write (b := named)
    (show ipaddrOff + ipaddr.length ≤ 22 by rw [ipaddrOff]; omega)
  refine ⟨info, ?_, ?_⟩
  · simp only [textSetIpInfo, hname, hip, hnamed, hinfo, Option.bind_eq_bind, Option.bind_some]
  · have hoff : ipaddrOff ≤ named.bytes.length := by rw [named.size_eq]; decide
    have hwithin := drop_patch_within (k := 0) ipaddr (Nat.zero_le _) hoff
    rw [Nat.add_zero, List.drop_zero, hpadded, List.drop_append, List.drop_replicate,
      ← List.append_assoc, ← hpadded] at hwithin
    rw [hbytes, hwithin]

theorem exists_doTextSetDeviceIp_iff (env : Env) (st : Statics) (rows : Bytes) (len : UInt16) :
    (∃ r, doTextSetDeviceIp env.tight st rows len = some r) ↔ RowsFit env rows := by
  rw [doTextSetDeviceIp_eq]
  constructor
  · rintro ⟨r, h⟩
    obtain ⟨info, hinfo, h⟩ := Option.bind_eq_some_iff.mp h
    obtain ⟨set, hset, _⟩ := Option.bind_eq_some_iff.mp h
    obtain ⟨s, hs, hends⟩ := exists_setDeviceIp_iff.mp ⟨set, hset⟩
    have hrows := hinfo
    simp only [textSetIpInfo, Option.bind_eq_bind, Option.bind_eq_some_iff] at hrows
    obtain ⟨name, hname, named, hnamed, ipaddr, hip, hwrite⟩ := hrows
    have hnameFits := (Block.write_eq_some_iff.mp hnamed).1
    have hipFits := (Block.write_eq_some_iff.mp hwrite).1
    rw [ipaddrOff] at hipFits
    obtain ⟨info', hinfo', hbytes⟩ := exists_textSetIpInfo hname hip (by omega) (by omega)
    obtain rfl := Option.some.inj (hinfo.symm.trans hinfo')
    have hzero : 0 ∉ ipaddr ++ name.drop (ipaddrOff + ipaddr.length) := by
      rw [List.mem_append, not_or]
      exact ⟨zero_notMem_of_cstr hip, fun hmem => zero_notMem_of_cstr hname (List.mem_of_mem_drop hmem)⟩
    rw [hbytes, cstr_padded_iff hzero, ipaddrOff] at hs
    obtain ⟨rfl, hroom⟩ := hs
    exact ⟨name, ipaddr, hname, hip, by omega, by omega, hends⟩
  · rintro ⟨name, ipaddr, hname, hip, hnameFits, hipFits, hends⟩
    obtain ⟨info, hinfo, hbytes⟩ := exists_textSetIpInfo hname hip (by omega) (by omega)
    have hzero : 0 ∉ ipaddr ++ name.drop (ipaddrOff + ipaddr.length) := by
      rw [List.mem_append, not_or]
      exact ⟨zero_notMem_of_cstr hip, fun hmem => zero_notMem_of_cstr hname (List.mem_of_mem_drop hmem)⟩
    have hs := (cstr_padded_iff hzero).mpr ⟨rfl,
      show 0 < 22 - name.length - (ipaddrOff + ipaddr.length - name.length) by rw [ipaddrOff]; omega⟩
    rw [← hbytes] at hs
    obtain ⟨set, hset⟩ := exists_setDeviceIp_iff.mpr ⟨_, hs, hends⟩
    exact ⟨_, by rw [hinfo, Option.bind_some, hset]; rfl⟩

/-! ### Asking for an address -/

theorem exists_doTextGetDeviceIp_iff (env : Env) (st : Statics) (rows : Bytes) (len : UInt16) :
    (∃ r, doTextGetDeviceIp env st rows len = some r) ↔ DeviceFits rows := by
  constructor
  · rintro ⟨r, h⟩
    simp only [doTextGetDeviceIp, Option.bind_eq_bind, Option.bind_eq_some_iff] at h
    obtain ⟨name, hname, info, hwrite, _⟩ := h
    have hroom := (Block.write_eq_some_iff.mp hwrite).1
    exact ⟨name, hname, by omega⟩
  · rintro ⟨name, hname, hfits⟩
    obtain ⟨info, hwrite, _⟩ := Block.exists_write (b := Block.zeroed 22)
      (show 0 + name.length ≤ 22 by omega)
    obtain ⟨ifrName, hifr⟩ : ∃ ifrName, strncpyBytes info.bytes 15 = some ifrName :=
      ⟨_, if_pos (Or.inr (by rw [info.size_eq]; decide))⟩
    have hip : getIp env info.bytes = some ((env.ifAddr (strBytes ifrName)).map inetNtoa) := by
      rw [getIp, hifr]
      rfl
    simp only [doTextGetDeviceIp, hname, hwrite, hip, Option.bind_eq_bind, Option.bind_some]
    cases env.ifAddr (strBytes ifrName) with
    | none => exact ⟨_, rfl⟩
    | some addr =>
        have haddr := inetNtoa_length_le addr
        have hroom : ipaddrOff + (inetNtoa addr ++ [0]).length ≤ 22 := by
          rw [ipaddrOff, List.length_append, List.length_singleton]
          omega
        obtain ⟨info', hstored, _⟩ := Block.exists_write (b := info) hroom
        simp only [Option.map_some, hstored, Option.bind_some]
        exact ⟨_, rfl⟩

/-- The address that was found ends inside `ip_info_text`, so both strings of the reply do. -/
theorem exists_getIpReply_text {rows : Bytes} {len : UInt16}
    (hrun : doTextGetDeviceIp env st rows len = some r) (hstatus : r.status = 0) :
    ∃ w, getIpReply r.statics = some w := by
  simp only [doTextGetDeviceIp, Option.bind_eq_bind, Option.bind_eq_some_iff] at hrun
  obtain ⟨name, _, info, _, ip, _, hrun⟩ := hrun
  cases ip with
  | none =>
      obtain rfl := Option.some.inj hrun
      cases hstatus
  | some ip =>
      obtain ⟨info', hstored, hpure⟩ := Option.bind_eq_some_iff.mp hrun
      obtain rfl := Option.some.inj hpure
      obtain ⟨_, hbytes⟩ := Block.write_eq_some_iff.mp hstored
      have hoff : ipaddrOff ≤ info.bytes.length := by rw [info.size_eq]; decide
      have hwithin := drop_patch_within (k := 0) (ip ++ [0]) (Nat.zero_le _) hoff
      have hzero : 0 ∈ info'.bytes.drop ipaddrOff := by
        rw [Nat.add_zero] at hwithin
        rw [hbytes, hwithin]
        simp
      have hname : cstr info'.bytes = some (strBytes info'.bytes) := if_pos (List.mem_of_mem_drop hzero)
      have hip : cstr (info'.bytes.drop ipaddrOff) = some (strBytes (info'.bytes.drop ipaddrOff)) :=
        if_pos hzero
      simp only [getIpReply, ne_eq, one_ne_zero, not_false_eq_true, if_true, hname, hip,
        Option.bind_eq_bind, Option.bind_some]
      exact ⟨_, rfl⟩

theorem exists_doGetDeviceIp_any (env : Env) (st : Statics) (cmd : StCmdFrame) :
    ∃ r, doGetDeviceIp env st cmd.data cmd.cmdLen = some r := by
  let a : Request := { path := .binary, env, cmd, reply := Block.zeroed 512 }
  cases haddr : env.ifAddr a.deviceName with
  | none =>
      obtain ⟨r, hr, _⟩ := Request.doGetDeviceIp_missing (a := a) st haddr
      exact ⟨r, hr⟩
  | some addr =>
      obtain ⟨x, y, z, w⟩ := addr
      obtain ⟨r, hr, _⟩ := Request.doGetDeviceIp_found (a := a) st haddr
      exact ⟨r, hr⟩

/-! ### The handler of a command -/

theorem exists_textDoHelpLoop (env : Env) (fd : Int) : ∀ (cmds : List CmdList) (k : Nat),
    (∀ entry ∈ cmds, (entry.usage ++ ascii "\t\t" ++ entry.helpInfo ++ ascii "\n").length ≤ 255) →
      ∃ events, textDoHelpLoop env fd k cmds = some events := by
  intro cmds
  induction cmds with
  | nil => exact fun k _ => ⟨[], rfl⟩
  | cons entry rest ih =>
      intro k hfits
      have hline := hfits entry List.mem_cons_self
      have hroom : 0 + (entry.usage ++ ascii "\t\t" ++ entry.helpInfo ++ ascii "\n" ++ [0]).length
          ≤ 256 := by
        rw [List.length_append, List.length_singleton]
        omega
      obtain ⟨help, hhelp, _⟩ := Block.exists_write (b := Block.zeroed 256) hroom
      obtain ⟨events, hevents⟩ := ih (k + 1) fun other hother =>
        hfits other (List.mem_cons_of_mem _ hother)
      simp only [textDoHelpLoop, hhelp, Option.bind_eq_bind, Option.bind_some]
      split_ifs
      · exact ⟨_, rfl⟩
      · exact ⟨_, by rw [hevents]; rfl⟩

theorem exists_textDoHelp (env : Env) (st : Statics) (cmd : StCmdFrame) :
    ∃ r, textDoHelp env cmdRegisterEnter st cmd = some r := by
  obtain ⟨events, hevents⟩ := exists_textDoHelpLoop env cmd.fd cmdRegisterEnter 0 (by decide)
  exact ⟨_, by rw [textDoHelp, hevents]; rfl⟩

/-- A command of another name than these four fits whatever it carries. -/
theorem handlerFits_of_other {name : Bytes} (hname : cstr cmd.cmdName = some name)
    (hother : name ∉ [rebootCmd.name, addUserCmd.name, setIpCmd.name, getIpCmd.name]) :
    HandlerFits env cmd := by
  simp only [List.mem_cons, List.not_mem_nil, or_false, not_or] at hother
  obtain ⟨hreboot, hadd, hset, hget⟩ := hother
  exact {
    reboot := fun h => absurd (Option.some.inj (hname.symm.trans h)) hreboot
    addUser := fun _ h => absurd (Option.some.inj (hname.symm.trans h)) hadd
    setIp := fun _ h => absurd (Option.some.inj (hname.symm.trans h)) hset
    textGetIp := fun _ h => absurd (Option.some.inj (hname.symm.trans h)) hget
    textSetIp := fun _ h => absurd (Option.some.inj (hname.symm.trans h)) hset }

theorem handlerFits_reboot (hname : cstr cmd.cmdName = some rebootCmd.name) :
    HandlerFits env cmd ↔ env.rebootFails = true := by
  refine ⟨fun h => h.reboot hname, fun h => ?_⟩
  exact {
    reboot := fun _ => h
    addUser := fun _ hother => absurd (Option.some.inj (hname.symm.trans hother)) (by decide)
    setIp := fun _ hother => absurd (Option.some.inj (hname.symm.trans hother)) (by decide)
    textGetIp := fun _ hother => absurd (Option.some.inj (hname.symm.trans hother)) (by decide)
    textSetIp := fun _ hother => absurd (Option.some.inj (hname.symm.trans hother)) (by decide) }

theorem handlerFits_addUser (hname : cstr cmd.cmdName = some addUserCmd.name) :
    HandlerFits env cmd
      ↔ (cmd.isBinary = true → cmd.data[0]? = some 1 → UserCommandFits cmd.data) := by
  refine ⟨fun h hbin hadd => h.addUser hbin hname hadd, fun h => ?_⟩
  exact {
    reboot := fun hother => absurd (Option.some.inj (hname.symm.trans hother)) (by decide)
    addUser := fun hbin _ => h hbin
    setIp := fun _ hother => absurd (Option.some.inj (hname.symm.trans hother)) (by decide)
    textGetIp := fun _ hother => absurd (Option.some.inj (hname.symm.trans hother)) (by decide)
    textSetIp := fun _ hother => absurd (Option.some.inj (hname.symm.trans hother)) (by decide) }

theorem handlerFits_getIp (hname : cstr cmd.cmdName = some getIpCmd.name) :
    HandlerFits env cmd ↔ (cmd.isBinary = false → DeviceFits cmd.cmdData) := by
  refine ⟨fun h htext => h.textGetIp htext hname, fun h => ?_⟩
  exact {
    reboot := fun hother => absurd (Option.some.inj (hname.symm.trans hother)) (by decide)
    addUser := fun _ hother => absurd (Option.some.inj (hname.symm.trans hother)) (by decide)
    setIp := fun _ hother => absurd (Option.some.inj (hname.symm.trans hother)) (by decide)
    textGetIp := fun htext _ => h htext
    textSetIp := fun _ hother => absurd (Option.some.inj (hname.symm.trans hother)) (by decide) }

theorem handlerFits_setIp (hname : cstr cmd.cmdName = some setIpCmd.name) :
    HandlerFits env cmd
      ↔ (cmd.isBinary = true → AddressFits cmd.data cmd.cmdLen)
        ∧ (cmd.isBinary = false → RowsFit env cmd.cmdData) := by
  refine ⟨fun h => ⟨fun hbin => h.setIp hbin hname, fun htext => h.textSetIp htext hname⟩, fun h => ?_⟩
  exact {
    reboot := fun hother => absurd (Option.some.inj (hname.symm.trans hother)) (by decide)
    addUser := fun _ hother => absurd (Option.some.inj (hname.symm.trans hother)) (by decide)
    setIp := fun hbin _ => h.1 hbin
    textGetIp := fun _ hother => absurd (Option.some.inj (hname.symm.trans hother)) (by decide)
    textSetIp := fun htext _ => h.2 htext }

theorem entryHandler_binary (hbin : cmd.isBinary = true) (entry : CmdList) :
    entryHandler env st cmd entry = callHandler entry.doCmd env st cmd.data cmd.cmdLen := if_pos hbin

theorem entryHandler_named (hbin : cmd.isBinary = false) {entry : CmdList}
    (hname : cstr cmd.cmdName = some entry.name) (hne : entry.name ≠ ascii "help") :
    entryHandler env st cmd entry = callHandler entry.doTextCmd env st cmd.cmdData cmd.cmdLen :=
  (if_neg (by rw [hbin]; decide)).trans (textHandler_eq hname hne)

theorem exists_textHelp (hbin : cmd.isBinary = false) (hname : cstr cmd.cmdName = some helpCmd.name) :
    ∃ r, entryHandler env st cmd helpCmd = some r := by
  obtain ⟨r, hr⟩ := exists_textDoHelp env st cmd
  have hhelp : strcmpEq (ascii "help") cmd.cmdName = true := (strcmpEq_iff (by decide)).mpr hname
  refine ⟨r, ?_⟩
  rw [entryHandler, if_neg (by rw [hbin]; decide), textHandler, if_pos hhelp]
  exact hr

theorem exists_rebootSystem_iff (env : Env) (st : Statics) (arg : Bytes) (len : UInt16) :
    (∃ r, rebootSystem env st arg len = some r) ↔ env.rebootFails = true := by
  constructor
  · rintro ⟨r, hr⟩
    exact (rebootSystem_eq_some_iff.mp hr).1
  · intro hfails
    exact ⟨_, rebootSystem_eq_some_iff.mpr ⟨hfails, rfl⟩⟩

/-- All but `help` run the handler of their entry. -/
theorem exists_entryHandler_iff_of {p : Prop} (hname : cstr cmd.cmdName = some entry.name)
    (hne : entry.name ≠ ascii "help")
    (hdo : cmd.isBinary = true →
      ((∃ r, callHandler entry.doCmd env st cmd.data cmd.cmdLen = some r) ↔ p))
    (hdoText : cmd.isBinary = false →
      ((∃ r, callHandler entry.doTextCmd env st cmd.cmdData cmd.cmdLen = some r) ↔ p)) :
    (∃ r, entryHandler env st cmd entry = some r) ↔ p := by
  cases hbin : cmd.isBinary with
  | true =>
      rw [entryHandler_binary hbin]
      exact hdo hbin
  | false =>
      rw [entryHandler_named hbin hname hne]
      exact hdoText hbin

/-- A binary `add_user` that does not ask to add fits whatever it carries. -/
theorem exists_addSystemUser_fits_iff :
    (∃ r, addSystemUser env st cmd.data cmd.cmdLen = some r)
      ↔ (cmd.data[0]? = some 1 → UserCommandFits cmd.data) := by
  by_cases hadd : cmd.data[0]? = some 1
  · have hlong : 513 ≤ cmd.data.length := by
      rw [cmd.data_length]
      decide
    exact (exists_addSystemUser_iff hadd hlong cmd.cmdLen).trans (by simp [hadd])
  · have hquery : addSystemUser env st cmd.data cmd.cmdLen
        = some { status := 0, statics := st, events := [] } :=
      addSystemUser_query cmd.data_ne_nil hadd
    exact iff_of_true ⟨_, hquery⟩ fun h => absurd h hadd

/-- With nothing behind a block of the heap a handler stays in its objects and returns exactly when the
command fits. -/
theorem exists_entryHandler_iff : ∀ entry ∈ cmdRegisterEnter, cstr cmd.cmdName = some entry.name →
    ((∃ r, entryHandler env.tight st cmd entry = some r) ↔ HandlerFits env cmd) := by
  -- The handlers that take nothing from the command.
  have hfree : ∀ {entry : CmdList}, cstr cmd.cmdName = some entry.name → entry.name ≠ ascii "help" →
      entry.name ∉ [rebootCmd.name, addUserCmd.name, setIpCmd.name, getIpCmd.name] →
      (∃ r, callHandler entry.doCmd env.tight st cmd.data cmd.cmdLen = some r) →
      (∃ r, callHandler entry.doTextCmd env.tight st cmd.cmdData cmd.cmdLen = some r) →
      ((∃ r, entryHandler env.tight st cmd entry = some r) ↔ HandlerFits env cmd) := by
    intro entry hname hne hother hdo hdoText
    have hfits : HandlerFits env cmd := handlerFits_of_other hname hother
    exact exists_entryHandler_iff_of hname hne (fun _ => iff_of_true hdo hfits)
      fun _ => iff_of_true hdoText hfits
  apply forall_registered
  case help =>
      intro hname
      refine iff_of_true ?_ (handlerFits_of_other hname (by decide))
      cases hbin : cmd.isBinary with
      | true => exact ⟨_, entryHandler_binary hbin helpCmd⟩
      | false => exact exists_textHelp hbin hname
  case reboot =>
      intro hname
      rw [handlerFits_reboot hname]
      exact exists_entryHandler_iff_of hname (by decide)
        (fun _ => exists_rebootSystem_iff env.tight st cmd.data cmd.cmdLen)
        fun _ => exists_rebootSystem_iff env.tight st cmd.cmdData cmd.cmdLen
  case getIp =>
      intro hname
      rw [handlerFits_getIp hname]
      refine exists_entryHandler_iff_of hname (by decide) (fun hbin => ?_) fun hbin => ?_
      · exact iff_of_true (exists_doGetDeviceIp_any env.tight st cmd) (by simp [hbin])
      · exact (exists_doTextGetDeviceIp_iff env.tight st cmd.cmdData cmd.cmdLen).trans (by simp [hbin])
  case setIp =>
      intro hname
      rw [handlerFits_setIp hname]
      refine exists_entryHandler_iff_of hname (by decide) (fun hbin => ?_) fun hbin => ?_
      · exact (exists_doSetDeviceIp_iff env st cmd).trans (by simp [hbin])
      · exact (exists_doTextSetDeviceIp_iff env st cmd.cmdData cmd.cmdLen).trans (by simp [hbin])
  case previewOn => exact fun hname => hfree hname (by decide) (by decide) ⟨_, rfl⟩ ⟨_, rfl⟩
  case previewOff => exact fun hname => hfree hname (by decide) (by decide) ⟨_, rfl⟩ ⟨_, rfl⟩
  case setDate =>
      exact fun hname => hfree hname (by decide) (by decide) (exists_setSystemDate env.tight st cmd)
        ⟨_, rfl⟩
  case addUser =>
      intro hname
      rw [handlerFits_addUser hname]
      refine exists_entryHandler_iff_of hname (by decide) (fun hbin => ?_) fun hbin => ?_
      · exact exists_addSystemUser_fits_iff.trans (by simp [hbin])
      · exact iff_of_true ⟨_, rfl⟩ (by simp [hbin])
  case sysInfo => exact fun hname => hfree hname (by decide) (by decide) ⟨_, rfl⟩ ⟨_, rfl⟩

/-! ### What lies behind the heap -/

theorem textDoHelpLoop_tight (env : Env) (fd : Int) : ∀ (cmds : List CmdList) (k : Nat),
    textDoHelpLoop env.tight fd k cmds = textDoHelpLoop env fd k cmds := by
  intro cmds
  induction cmds with
  | nil => exact fun _ => rfl
  | cons entry rest ih =>
      intro k
      simp only [textDoHelpLoop, ih]
      rfl

theorem setDeviceIp_of_tight {info : Bytes} {out : Int × Bytes × List Event}
    (h : setDeviceIp env.tight info = some out) : setDeviceIp env info = some out := by
  obtain ⟨ipAddr, hline, h⟩ := Option.bind_eq_some_iff.mp h
  have hend : cstr (ipAddr ++ env.tight.heap) = none :=
    if_neg (zero_notMem_copy (zero_notMem_of_cstr hline))
  rw [setDeviceIp, hline, Option.bind_eq_bind, Option.bind_some]
  by_cases hmalloc : env.mallocFails = true
  · have hfails : env.tight.mallocFails = true := hmalloc
    rw [if_pos hfails] at h
    rw [if_pos hmalloc]
    exact h
  have hgets : ¬ env.tight.mallocFails = true := hmalloc
  rw [if_neg hgets] at h
  rw [if_neg hmalloc]
  obtain ⟨⟨ret, checked⟩, hcheck, h⟩ := Option.bind_eq_some_iff.mp h
  rw [hcheck, Option.bind_eq_bind, Option.bind_some]
  by_cases hret : ret ≠ 0
  · simp only [if_pos hret] at h ⊢
    exact h
  · simp only [if_neg hret] at h ⊢
    obtain ⟨set, hset, hpure⟩ := Option.bind_eq_some_iff.mp h
    have hsame : setHandIp env (info.take ipaddrOff ++ checked) (ipAddr ++ env.heap) = some set := by
      rw [setHandIp] at hset ⊢
      by_cases hsocket : env.setAddr = .noSocket
      · have htight : env.tight.setAddr = .noSocket := hsocket
        rw [if_pos htight] at hset
        rw [if_pos hsocket]
        exact hset
      · have htight : ¬ env.tight.setAddr = .noSocket := hsocket
        rw [if_neg htight, hend] at hset
        obtain ⟨_, _, hset⟩ := Option.bind_eq_some_iff.mp hset
        cases hset
    rw [hsame]
    exact hpure

/-- What a handler does inside its objects does not depend on what lies behind the heap. -/
theorem entryHandler_of_tight : ∀ entry ∈ cmdRegisterEnter, cstr cmd.cmdName = some entry.name →
    entryHandler env.tight st cmd entry = some r → entryHandler env st cmd entry = some r := by
  have hfree : ∀ {entry : CmdList}, cstr cmd.cmdName = some entry.name → entry.name ≠ ascii "help" →
      (∀ arg len, callHandler entry.doCmd env.tight st arg len = some r →
        callHandler entry.doCmd env st arg len = some r) →
      (∀ arg len, callHandler entry.doTextCmd env.tight st arg len = some r →
        callHandler entry.doTextCmd env st arg len = some r) →
      entryHandler env.tight st cmd entry = some r → entryHandler env st cmd entry = some r := by
    intro entry hname hne hdo hdoText h
    cases hbin : cmd.isBinary with
    | true =>
        rw [entryHandler_binary hbin] at h ⊢
        exact hdo _ _ h
    | false =>
        rw [entryHandler_named hbin hname hne] at h ⊢
        exact hdoText _ _ h
  apply forall_registered
  case help =>
      intro _ h
      cases hbin : cmd.isBinary with
      | true =>
          rw [entryHandler_binary hbin] at h ⊢
          exact h
      | false =>
          rw [entryHandler, if_neg (by rw [hbin]; decide), textHandler] at h ⊢
          split_ifs at h ⊢
          · rw [textDoHelp, textDoHelpLoop_tight] at h
            exact h
          · exact h
  case reboot => exact fun hname => hfree hname (by decide) (fun _ _ => id) fun _ _ => id
  case getIp => exact fun hname => hfree hname (by decide) (fun _ _ => id) fun _ _ => id
  case setIp =>
      refine fun hname => hfree hname (by decide) (fun arg len h => ?_) fun arg len h => ?_
      · have hrun : doSetDeviceIp env.tight st arg len = some r := h
        change doSetDeviceIp env st arg len = some r
        simp only [doSetDeviceIp_eq, Option.bind_eq_some_iff] at hrun ⊢
        obtain ⟨info, hinfo, out, hset, hstored⟩ := hrun
        exact ⟨info, hinfo, out, setDeviceIp_of_tight hset, hstored⟩
      · have hrun : doTextSetDeviceIp env.tight st arg len = some r := h
        change doTextSetDeviceIp env st arg len = some r
        simp only [doTextSetDeviceIp_eq, Option.bind_eq_some_iff] at hrun ⊢
        obtain ⟨info, hinfo, out, hset, hpure⟩ := hrun
        exact ⟨info, hinfo, out, setDeviceIp_of_tight hset, hpure⟩
  case previewOn => exact fun hname => hfree hname (by decide) (fun _ _ => id) fun _ _ => id
  case previewOff => exact fun hname => hfree hname (by decide) (fun _ _ => id) fun _ _ => id
  case setDate => exact fun hname => hfree hname (by decide) (fun _ _ => id) fun _ _ => id
  case addUser => exact fun hname => hfree hname (by decide) (fun _ _ => id) fun _ _ => id
  case sysInfo => exact fun hname => hfree hname (by decide) (fun _ _ => id) fun _ _ => id

end InstructionParser

import InstructionParser.Proof.Dispatch

/-!
# What the handlers return

For every handler the values its status can have, and for every `get_reply` how its return value is
related to the bytes it writes. A status above 0 comes from a script that failed, and only from
`preview_on`, `preview_off` and a binary `set_date`.
-/

namespace InstructionParser

open CLib

/-! ### The status of each handler -/

theorem doGetDeviceIp_status {env : Env} {st : Statics} {buf : Bytes} {len : UInt16}
    {r : HandlerResult} (h : doGetDeviceIp env st buf len = some r) :
    r.status = -noDev ∨ r.status = 0 ∧ r.statics.flag = 0 := by
  simp only [doGetDeviceIp, Option.bind_eq_bind, Option.bind_eq_some_iff] at h
  obtain ⟨name, _, info, _, ip, _, hip⟩ := h
  cases ip with
  | none =>
      obtain rfl := Option.some.inj hip
      exact Or.inl rfl
  | some ip =>
      obtain ⟨filled, _, hpure⟩ := Option.bind_eq_some_iff.mp hip
      obtain rfl := Option.some.inj hpure
      exact Or.inr ⟨rfl, rfl⟩

theorem doTextGetDeviceIp_status {env : Env} {st : Statics} {buf : Bytes} {len : UInt16}
    {r : HandlerResult} (h : doTextGetDeviceIp env st buf len = some r) :
    r.status = -noDev ∨ r.status = 0 ∧ r.statics.flag = 1 := by
  simp only [doTextGetDeviceIp, Option.bind_eq_bind, Option.bind_eq_some_iff] at h
  obtain ⟨name, _, info, _, ip, _, hip⟩ := h
  cases ip with
  | none =>
      obtain rfl := Option.some.inj hip
      exact Or.inl rfl
  | some ip =>
      obtain ⟨filled, _, hpure⟩ := Option.bind_eq_some_iff.mp hip
      obtain rfl := Option.some.inj hpure
      exact Or.inr ⟨rfl, rfl⟩

theorem setHandIp_status {env : Env} {device ipaddr : Bytes} {status : Int} {events : List Event}
    (h : setHandIp env device ipaddr = some (status, events)) : status ≤ 0 := by
  unfold setHandIp at h
  split_ifs at h with hsocket
  · cases h
    decide
  · simp only [Option.bind_eq_bind, Option.bind_eq_some_iff] at h
    obtain ⟨name, _, ip, _, hpure⟩ := h
    obtain ⟨rfl, _⟩ := Prod.mk.inj (Option.some.inj hpure)
    cases env.setAddr <;> simp [errParams]

theorem setDeviceIp_status {env : Env} {info info' : Bytes} {status : Int} {events : List Event}
    (h : setDeviceIp env info = some (status, info', events)) : status ≤ 0 := by
  simp only [setDeviceIp, Option.bind_eq_bind, Option.bind_eq_some_iff] at h
  obtain ⟨ipAddr, _, h⟩ := h
  split_ifs at h with hmalloc
  · cases h
    decide
  · obtain ⟨⟨ret, checked⟩, _, h⟩ := Option.bind_eq_some_iff.mp h
    simp only at h
    split_ifs at h with hret
    · cases h
      decide
    · obtain ⟨⟨status', events'⟩, hset, hpure⟩ := Option.bind_eq_some_iff.mp h
      cases hpure
      exact setHandIp_status hset

theorem doSetDeviceIp_status {env : Env} {st : Statics} {buf : Bytes} {len : UInt16}
    {r : HandlerResult} (h : doSetDeviceIp env st buf len = some r) : r.status ≤ 0 := by
  simp only [doSetDeviceIp, Option.bind_eq_bind, Option.bind_eq_some_iff] at h
  obtain ⟨name, _, info, _, addr, _, filled, _, ⟨status, info', events⟩, hset, final, _, hpure⟩ := h
  obtain rfl := Option.some.inj hpure
  exact setDeviceIp_status hset

theorem doTextSetDeviceIp_status {env : Env} {st : Statics} {buf : Bytes} {len : UInt16}
    {r : HandlerResult} (h : doTextSetDeviceIp env st buf len = some r) : r.status ≤ 0 := by
  simp only [doTextSetDeviceIp, Option.bind_eq_bind, Option.bind_eq_some_iff] at h
  obtain ⟨p0, _, info, _, p1, _, filled, _, ⟨status, info', events⟩, hset, hpure⟩ := h
  obtain rfl := Option.some.inj hpure
  exact setDeviceIp_status hset

/-- Only a reboot that fails is returned from. -/
theorem rebootSystem_eq_some_iff {env : Env} {st : Statics} {buf : Bytes} {len : UInt16}
    {r : HandlerResult} : rebootSystem env st buf len = some r
      ↔ env.rebootFails = true ∧ r = { status := -1, statics := st, events := [.reboot] } := by
  unfold rebootSystem
  split_ifs with hfails
  · exact ⟨fun h => ⟨hfails, (Option.some.inj h).symm⟩, fun h => congrArg some h.2.symm⟩
  · exact iff_of_false nofun fun h => hfails h.1

theorem setSystemDate_status {env : Env} {st : Statics} {buf : Bytes} {len : UInt16}
    {r : HandlerResult} (h : setSystemDate env st buf len = some r) :
    r.status = if buf[0]? = some 1 ∧ env.system 0 = 0 then env.system 1 else 0 := by
  simp only [setSystemDate, Option.bind_eq_bind, Option.bind_eq_some_iff] at h
  obtain ⟨b0, hb0, h⟩ := h
  by_cases hquery : b0 = 1
  · rw [if_neg (by simpa using hquery)] at h
    simp only [Option.bind_eq_some_iff] at h
    obtain ⟨year, _, mon, _, day, _, hour, _, min, _, sec, _, h⟩ := h
    by_cases hclock : env.system 0 = 0
    · rw [if_pos hclock] at h
      obtain rfl := Option.some.inj h
      simp [hb0, hquery, hclock]
    · rw [if_neg hclock] at h
      obtain rfl := Option.some.inj h
      simp [hclock]
  · rw [if_pos hquery] at h
    obtain rfl := Option.some.inj h
    simp [hb0, hquery]

theorem addSystemUser_status {env : Env} {st : Statics} {buf : Bytes} {len : UInt16}
    {r : HandlerResult} (h : addSystemUser env st buf len = some r) : r.status = 0 := by
  simp only [addSystemUser, Option.bind_eq_bind, Option.bind_eq_some_iff] at h
  obtain ⟨b0, _, h⟩ := h
  by_cases hquery : b0 = 1
  · rw [if_neg (by simpa using hquery)] at h
    simp only [Option.bind_eq_some_iff] at h
    obtain ⟨n, _, p, _, name, _, userName, _, passwd, _, userPasswd, _, u, _, w, _, line, _, h⟩ := h
    obtain rfl := Option.some.inj h
    rfl
  · rw [if_pos hquery] at h
    obtain rfl := Option.some.inj h
    rfl

/-! ### Handlers that return -/

theorem exists_setSystemDate (env : Env) (st : Statics) (cmd : StCmdFrame) :
    ∃ r, setSystemDate env st cmd.data cmd.cmdLen = some r := by
  have hread : ∀ i < 8, ∃ b, cmd.data[i]? = some b := by
    intro i hi
    have hlt : i < cmd.data.length := by
      rw [cmd.data_length]
      exact lt_of_lt_of_le hi (by decide)
    exact ⟨_, List.getElem?_eq_getElem hlt⟩
  obtain ⟨b0, h0⟩ := hread 0 (by decide)
  obtain ⟨b1, h1⟩ := hread 1 (by decide)
  obtain ⟨b2, h2⟩ := hread 2 (by decide)
  obtain ⟨b3, h3⟩ := hread 3 (by decide)
  obtain ⟨b4, h4⟩ := hread 4 (by decide)
  obtain ⟨b5, h5⟩ := hread 5 (by decide)
  obtain ⟨b6, h6⟩ := hread 6 (by decide)
  obtain ⟨b7, h7⟩ := hread 7 (by decide)
  simp only [setSystemDate, readBe16, h0, h1, h2, h3, h4, h5, h6, h7, Option.bind_eq_bind,
    Option.bind_some, Option.pure_def]
  split_ifs <;> exact ⟨_, rfl⟩

theorem exists_storeOctets : ∀ (tokens : List Bytes) (info : Block 10) (i : Nat),
    i + tokens.length ≤ 4 → (∀ tok ∈ tokens, ∃ octet, atoi tok = some octet) →
      ∃ info', storeOctets info i tokens = some info' := by
  intro tokens
  induction tokens with
  | nil => exact fun info i _ _ => ⟨info, rfl⟩
  | cons tok tokens ih =>
      intro info i hle hread
      rw [List.length_cons] at hle
      obtain ⟨octet, hoctet⟩ := hread tok List.mem_cons_self
      have hroom : ipaddrOff + i + [UInt8.ofInt octet].length ≤ 10 := by
        rw [ipaddrOff, List.length_singleton]
        omega
      obtain ⟨info', hwrite, _⟩ := Block.exists_write (b := info) hroom
      obtain ⟨final, hfinal⟩ := ih info' (i + 1) (by omega) fun t ht => hread t (List.mem_cons_of_mem _ ht)
      exact ⟨final, by simp [storeOctets, hoctet, hwrite, hfinal]⟩

/-- Where the interface has the address 0.0.0.0, `get_ip` succeeds. -/
theorem exists_doGetDeviceIp (env : Env) (st : Statics) (cmd : StCmdFrame)
    (hip : ∀ device, env.ifAddr device = some (0, 0, 0, 0)) :
    ∃ r, doGetDeviceIp env st cmd.data cmd.cmdLen = some r ∧ r.status = 0 ∧ r.statics.flag = 0 := by
  have hshort := nameLen_le cmd.cmdLen
  have hread : ∃ name, strncpyBytes cmd.data (nameLen cmd.cmdLen) = some name := by
    have hle : nameLen cmd.cmdLen ≤ cmd.data.length := by
      rw [cmd.data_length]
      exact le_trans hshort (by decide)
    simp [strncpyBytes, hle]
  obtain ⟨name, hname⟩ := hread
  have hnameLen := strncpyBytes_length hname
  have hroom : 0 + name.length ≤ 10 := by omega
  obtain ⟨info, hwrite, hbytes⟩ := Block.exists_write (b := Block.zeroed 10) hroom
  have hterminated : 0 ∈ info.bytes := by
    have hlast : (0 : UInt8) ∈ (List.replicate 10 0).drop (0 + name.length) := by
      rw [List.drop_replicate, List.mem_replicate]
      exact ⟨by omega, rfl⟩
    rw [hbytes, patch]
    exact List.mem_append_right _ hlast
  have haddr : getIp env info.bytes = some (some (inetNtoa (0, 0, 0, 0))) := by
    simp [getIp, strncpyBytes, hterminated, hip]
  have htokens : strtokAll 0x2e ((inetNtoa (0, 0, 0, 0) ++ [0]).length + 1)
      (inetNtoa (0, 0, 0, 0) ++ [0]) 0 = some [ascii "0", ascii "0", ascii "0", ascii "0"] := by
    decide +kernel
  have hzeros : ∀ tok ∈ [ascii "0", ascii "0", ascii "0", ascii "0"], ∃ octet, atoi tok = some octet := by
    have hzero : atoi (ascii "0") = some 0 := by decide
    simp [hzero]
  obtain ⟨filled, hfilled⟩ := exists_storeOctets [ascii "0", ascii "0", ascii "0", ascii "0"] info 0
    (le_refl 4) hzeros
  have hhex : ipToHexStr (inetNtoa (0, 0, 0, 0) ++ [0]) info = some filled := by
    simp only [ipToHexStr, htokens, Option.bind_eq_bind, Option.bind_some, hfilled]
  refine ⟨{ status := 0, statics := { st with ipInfo := filled, flag := 0 }, events := [] }, ?_, rfl,
    rfl⟩
  simp only [doGetDeviceIp, hname, hwrite, haddr, hhex, Option.bind_eq_bind, Option.bind_some,
    Option.pure_def]

/-! ### Handlers that never return a positive status -/

def NeverPositive (handler : Option Handler) : Prop :=
  ∀ env st arg len r, callHandler handler env st arg len = some r → r.status ≤ 0

theorem neverPositive_none : NeverPositive none := by
  intro env st arg len r h
  obtain rfl := Option.some.inj h
  exact le_refl 0

theorem neverPositive_succeed : NeverPositive (some succeed) := by
  intro env st arg len r h
  obtain rfl := Option.some.inj h
  exact le_refl 0

theorem neverPositive_doGetDeviceIp : NeverPositive (some doGetDeviceIp) := by
  intro env st arg len r h
  have hrun : doGetDeviceIp env st arg len = some r := h
  rcases doGetDeviceIp_status hrun with hstatus | ⟨hstatus, _⟩ <;> simp [hstatus, noDev]

theorem neverPositive_doTextGetDeviceIp : NeverPositive (some doTextGetDeviceIp) := by
  intro env st arg len r h
  have hrun : doTextGetDeviceIp env st arg len = some r := h
  rcases doTextGetDeviceIp_status hrun with hstatus | ⟨hstatus, _⟩ <;> simp [hstatus, noDev]

theorem neverPositive_doSetDeviceIp : NeverPositive (some doSetDeviceIp) := by
  intro env st arg len r h
  have hrun : doSetDeviceIp env st arg len = some r := h
  exact doSetDeviceIp_status hrun

theorem neverPositive_doTextSetDeviceIp : NeverPositive (some doTextSetDeviceIp) := by
  intro env st arg len r h
  have hrun : doTextSetDeviceIp env st arg len = some r := h
  exact doTextSetDeviceIp_status hrun

theorem neverPositive_rebootSystem : NeverPositive (some rebootSystem) := by
  intro env st arg len r h
  have hrun : rebootSystem env st arg len = some r := h
  obtain ⟨_, rfl⟩ := rebootSystem_eq_some_iff.mp hrun
  exact show (-1 : Int) ≤ 0 by decide

theorem neverPositive_addSystemUser : NeverPositive (some addSystemUser) := by
  intro env st arg len r h
  have hrun : addSystemUser env st arg len = some r := h
  exact (addSystemUser_status hrun).le

theorem doCmd_neverPositive : ∀ entry ∈ cmdRegisterEnter, entry.name ≠ previewOnCmd.name →
    entry.name ≠ previewOffCmd.name → entry.name ≠ setDateCmd.name →
    NeverPositive entry.doCmd := by
  apply forall_registered
  case help => exact fun _ _ _ => neverPositive_none
  case reboot => exact fun _ _ _ => neverPositive_rebootSystem
  case getIp => exact fun _ _ _ => neverPositive_doGetDeviceIp
  case setIp => exact fun _ _ _ => neverPositive_doSetDeviceIp
  case previewOn => exact fun hne => absurd rfl hne
  case previewOff => exact fun _ hne => absurd rfl hne
  case setDate => exact fun _ _ hne => absurd rfl hne
  case addUser => exact fun _ _ _ => neverPositive_addSystemUser
  case sysInfo => exact fun _ _ _ => neverPositive_succeed

theorem doTextCmd_neverPositive : ∀ entry ∈ cmdRegisterEnter, entry.name ≠ previewOnCmd.name →
    entry.name ≠ previewOffCmd.name → NeverPositive entry.doTextCmd := by
  apply forall_registered
  case help => exact fun _ _ => neverPositive_none
  case reboot => exact fun _ _ => neverPositive_rebootSystem
  case getIp => exact fun _ _ => neverPositive_doTextGetDeviceIp
  case setIp => exact fun _ _ => neverPositive_doTextSetDeviceIp
  case previewOn => exact fun hne => absurd rfl hne
  case previewOff => exact fun _ hne => absurd rfl hne
  case setDate => exact fun _ _ => neverPositive_succeed
  case addUser => exact fun _ _ => neverPositive_succeed
  case sysInfo => exact fun _ _ => neverPositive_succeed

/-! ### What `get_reply` returns and writes -/

/-- A `get_reply` that returns the number of bytes it wrote. -/
def ReplyResult.Counted (w : ReplyResult) : Prop := w.ret = w.wrote.length ∧ w.wrote.length ≤ 512

theorem getIpReply_counted {st : Statics} (hflag : st.flag = 0) {w : ReplyResult}
    (h : getIpReply st = some w) : w.Counted := by
  simp only [getIpReply, hflag, ne_eq, not_true_eq_false, if_false] at h
  obtain rfl := Option.some.inj h
  simp [ReplyResult.Counted, st.ipInfo.size_eq]

theorem getIpReply_text {st : Statics} (hflag : st.flag = 1) {w : ReplyResult}
    (h : getIpReply st = some w) :
    ∃ text : Bytes, w.wrote = text ++ [0] ∧ w.ret = text.length ∧ 0 ∉ text ∧ text.length ≤ 45 := by
  simp only [getIpReply, hflag, ne_eq, one_ne_zero, not_false_eq_true, if_true,
    Option.bind_eq_bind, Option.bind_eq_some_iff] at h
  obtain ⟨name, hname, ipaddr, hip, hpure⟩ := h
  obtain rfl := Option.some.inj hpure
  refine ⟨_, rfl, rfl, ?_, ?_⟩
  · have hcolon : (0 : UInt8) ∉ ascii ":" := by decide
    simp [zero_notMem_of_cstr hname, zero_notMem_of_cstr hip, hcolon]
  · have hnameLen := cstr_length_le hname
    have hipLen := cstr_length_le hip
    rw [List.length_drop, st.ipInfoText.size_eq] at hipLen
    rw [st.ipInfoText.size_eq] at hnameLen
    have hcolon : (ascii ":").length = 1 := by decide
    simp only [List.length_append, hcolon]
    omega

theorem getIpReply_ret_nonneg {st : Statics} {w : ReplyResult} (h : getIpReply st = some w) :
    0 ≤ w.ret := by
  unfold getIpReply at h
  split_ifs at h with hflag
  · simp only [Option.bind_eq_bind, Option.bind_eq_some_iff] at h
    obtain ⟨name, _, ipaddr, _, hpure⟩ := h
    obtain rfl := Option.some.inj hpure
    exact Int.natCast_nonneg _
  · obtain rfl := Option.some.inj h
    simp

theorem setDateReply_counted {st : Statics} {w : ReplyResult} (h : setDateReply st = some w) :
    w.Counted := by
  unfold setDateReply at h
  split_ifs at h <;> obtain rfl := Option.some.inj h <;> simp [ReplyResult.Counted]

theorem addSystemUserReply_counted {st : Statics} {w : ReplyResult}
    (h : addSystemUserReply st = some w) : w.Counted := by
  unfold addSystemUserReply at h
  split_ifs at h <;> obtain rfl := Option.some.inj h <;> simp [ReplyResult.Counted]

theorem getSystemInfoReply_counted {st : Statics} {w : ReplyResult}
    (h : getSystemInfoReply st = some w) : w.Counted := by
  obtain rfl := Option.some.inj h
  simp [ReplyResult.Counted]

theorem binaryReply_counted : ∀ entry ∈ cmdRegisterEnter, ∀ {env : Env} {st : Statics} {arg : Bytes}
    {len : UInt16} {r : HandlerResult} {getReply : GetReply} {w : ReplyResult},
    callHandler entry.doCmd env st arg len = some r → r.status = 0 →
    entry.getReply = some getReply → getReply r.statics = some w → w.Counted := by
  apply forall_registered
  case help => intros; contradiction
  case reboot => intros; contradiction
  case getIp =>
      intro env st arg len r getReply w hrun hstatus hget hreply
      obtain rfl := Option.some.inj hget
      have hhandler : doGetDeviceIp env st arg len = some r := hrun
      rcases doGetDeviceIp_status hhandler with hfailed | ⟨_, hflag⟩
      · rw [hfailed] at hstatus
        exact absurd hstatus (by decide)
      · exact getIpReply_counted hflag hreply
  case setIp => intros; contradiction
  case previewOn => intros; contradiction
  case previewOff => intros; contradiction
  case setDate =>
      intro env st arg len r getReply w _ _ hget hreply
      obtain rfl := Option.some.inj hget
      exact setDateReply_counted hreply
  case addUser =>
      intro env st arg len r getReply w _ _ hget hreply
      obtain rfl := Option.some.inj hget
      exact addSystemUserReply_counted hreply
  case sysInfo =>
      intro env st arg len r getReply w _ _ hget hreply
      obtain rfl := Option.some.inj hget
      exact getSystemInfoReply_counted hreply

theorem getReply_ret_nonneg : ∀ entry ∈ cmdRegisterEnter, ∀ {st : Statics} {getReply : GetReply}
    {w : ReplyResult}, entry.getReply = some getReply → getReply st = some w → 0 ≤ w.ret := by
  have hcounted : ∀ {w : ReplyResult}, w.Counted → 0 ≤ w.ret := by
    intro w hw
    rw [hw.1]
    exact Int.natCast_nonneg _
  apply forall_registered
  case help => intros; contradiction
  case reboot => intros; contradiction
  case getIp =>
      intro st getReply w hget hreply
      obtain rfl := Option.some.inj hget
      exact getIpReply_ret_nonneg hreply
  case setIp => intros; contradiction
  case previewOn => intros; contradiction
  case previewOff => intros; contradiction
  case setDate =>
      intro st getReply w hget hreply
      obtain rfl := Option.some.inj hget
      exact hcounted (setDateReply_counted hreply)
  case addUser =>
      intro st getReply w hget hreply
      obtain rfl := Option.some.inj hget
      exact hcounted (addSystemUserReply_counted hreply)
  case sysInfo =>
      intro st getReply w hget hreply
      obtain rfl := Option.some.inj hget
      exact hcounted (getSystemInfoReply_counted hreply)

theorem finishCmd_ret_nonneg {entry : CmdList} {r : HandlerResult} {reply : Reply} {out : CmdResult}
    (hmem : entry ∈ cmdRegisterEnter) (hstatus : 0 ≤ r.status)
    (hfinish : finishCmd entry r reply = some out) : 0 ≤ out.ret := by
  by_cases hzero : r.status = 0
  · cases hget : entry.getReply with
    | none =>
        rw [finishCmd_noReply hzero hget] at hfinish
        obtain rfl := Option.some.inj hfinish
        exact le_refl 0
    | some getReply =>
        obtain ⟨w, reply', hreply, _, rfl⟩ := (finishCmd_reply hzero hget).mp hfinish
        exact getReply_ret_nonneg entry hmem hget hreply
  · rw [finishCmd_failed hzero] at hfinish
    obtain rfl := Option.some.inj hfinish
    exact hstatus

theorem exists_finishCmd_of_counted {entry : CmdList} {getReply : GetReply}
    (hget : entry.getReply = some getReply)
    (hreply : ∀ st, ∃ w, getReply st = some w ∧ w.Counted) (r : HandlerResult) (reply : Reply) :
    ∃ out, finishCmd entry r reply = some out := by
  by_cases hstatus : r.status = 0
  · obtain ⟨w, hw, _, hle⟩ := hreply r.statics
    have hroom : 0 + w.wrote.length ≤ 512 := by omega
    obtain ⟨reply', hwrite, _⟩ := Block.exists_write (b := reply) hroom
    exact ⟨_, (finishCmd_reply hstatus hget).mpr ⟨w, reply', hw, hwrite, rfl⟩⟩
  · exact ⟨_, finishCmd_failed hstatus⟩

/-- But for `get_ip`, whose strings need not end, a handler that has returned is finished. -/
theorem exists_finishCmd : ∀ entry ∈ cmdRegisterEnter, entry.name ≠ ascii "get_ip" →
    ∀ (r : HandlerResult) (reply : Reply), ∃ out, finishCmd entry r reply = some out := by
  have hsilent : ∀ {entry : CmdList}, entry.getReply = none → ∀ (r : HandlerResult) (reply : Reply),
      ∃ out, finishCmd entry r reply = some out := by
    intro entry hnone r reply
    by_cases hstatus : r.status = 0
    · exact ⟨_, finishCmd_noReply hstatus hnone⟩
    · exact ⟨_, finishCmd_failed hstatus⟩
  apply forall_registered
  case help => exact fun _ => hsilent rfl
  case reboot => exact fun _ => hsilent rfl
  case getIp => exact fun hne => absurd rfl hne
  case setIp => exact fun _ => hsilent rfl
  case previewOn => exact fun _ => hsilent rfl
  case previewOff => exact fun _ => hsilent rfl
  case setDate =>
      refine fun _ => exists_finishCmd_of_counted rfl fun st => ?_
      have hsome : ∃ w, setDateReply st = some w := by
        unfold setDateReply
        split_ifs <;> exact ⟨_, rfl⟩
      obtain ⟨w, hw⟩ := hsome
      exact ⟨w, hw, setDateReply_counted hw⟩
  case addUser =>
      refine fun _ => exists_finishCmd_of_counted rfl fun st => ?_
      have hsome : ∃ w, addSystemUserReply st = some w := by
        unfold addSystemUserReply
        split_ifs <;> exact ⟨_, rfl⟩
      obtain ⟨w, hw⟩ := hsome
      exact ⟨w, hw, addSystemUserReply_counted hw⟩
  case sysInfo =>
      exact fun _ => exists_finishCmd_of_counted rfl
        fun st => ⟨_, rfl, getSystemInfoReply_counted rfl⟩

end InstructionParser
